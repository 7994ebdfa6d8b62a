import Chainring.Base.Cursor

/-! Formats of bytes, place by place: at most places a byte stands, at some a flag that more than one byte sets. A
reader is exact for a format when it takes the bytes that fill the places of a value, and no others. -/

namespace Chainring

open Codec (Consumes Takes)

/-- What a format has at one place: a byte, or a flag that every byte but 0 sets. -/
inductive Place where
  | byte (value : UInt8)
  | flag (isSet : Bool)
  deriving DecidableEq

namespace Place

def Admits : Place → UInt8 → Prop
  | byte value, given => given = value
  | flag isSet, given => (given != 0) = isSet

/-- The byte that is written at the place. -/
def canonical : Place → UInt8
  | byte value => value
  | flag isSet => isSet.toUInt8

/-- The places of bytes that stand for themselves. -/
def ofBytes (bytes : Bytes) : List Place := bytes.map byte

/-- A byte that counts items, and the places of the items. -/
def counted {α : Type} (places : α → List Place) (items : List α) : List Place :=
  [byte (UInt8.ofNat items.length)] ++ items.flatMap places

/-- There is a byte for each place, and each place admits its own. -/
def Fill (places : List Place) (bytes : Bytes) : Prop := List.Forall₂ Admits places bytes

instance (place : Place) (given : UInt8) : Decidable (place.Admits given) :=
  match place with
  | byte value => inferInstanceAs (Decidable (given = value))
  | flag isSet => inferInstanceAs (Decidable ((given != 0) = isSet))

instance (places : List Place) (bytes : Bytes) : Decidable (Fill places bytes) :=
  inferInstanceAs (Decidable (List.Forall₂ _ _ _))

theorem admits_canonical (place : Place) : place.Admits place.canonical := by
  cases place with
  | byte value => rfl
  | flag isSet => cases isSet <;> rfl

theorem ofBytes_canonical (bytes : Bytes) : (ofBytes bytes).map canonical = bytes := by
  rw [ofBytes, List.map_map]
  exact List.map_id _

theorem counted_canonical {α : Type} (places : α → List Place) (items : List α) :
    (counted places items).map canonical =
      [UInt8.ofNat items.length] ++ items.flatMap fun item => (places item).map canonical := by
  rw [counted, List.map_append, List.map_flatMap]
  rfl

theorem fill_canonical (places : List Place) : Fill places (places.map canonical) :=
  List.forall₂_map_right_iff.mpr (List.forall₂_same.mpr fun place _ => admits_canonical place)

theorem Fill.length_eq {places : List Place} {bytes : Bytes} (h : Fill places bytes) : bytes.length = places.length :=
  (List.Forall₂.length_eq h).symm

/-- Bytes that stand for themselves are filled by themselves alone. -/
theorem fill_ofBytes {bytes given : Bytes} : Fill (ofBytes bytes) given ↔ given = bytes := by
  rw [Fill, ofBytes, List.forall₂_map_left_iff]
  constructor
  · intro h
    induction h with
    | nil => rfl
    | cons hbyte _ ih => rw [ih, hbyte]
  · rintro rfl
    exact List.forall₂_same.mpr fun _ _ => rfl

theorem fill_append {places places' : List Place} {bytes : Bytes} :
    Fill (places ++ places') bytes ↔
      ∃ first second, bytes = first ++ second ∧ Fill places first ∧ Fill places' second := by
  constructor
  · intro h
    refine ⟨bytes.take places.length, bytes.drop places.length, (List.take_append_drop _ _).symm, ?_, ?_⟩
    · have htaken := List.forall₂_take places.length h
      rw [List.take_left] at htaken
      exact htaken
    · have hdropped := List.forall₂_drop places.length h
      rw [List.drop_left] at hdropped
      exact hdropped
  · rintro ⟨first, second, rfl, hfirst, hsecond⟩
    exact List.rel_append hfirst hsecond

theorem Fill.append {places places' : List Place} {bytes bytes' : Bytes} (h : Fill places bytes)
    (h' : Fill places' bytes') : Fill (places ++ places') (bytes ++ bytes') :=
  fill_append.mpr ⟨bytes, bytes', rfl, h, h'⟩

/-- The places of a list of items are filled item by item. -/
theorem fill_flatMap {α : Type} {places : α → List Place} {items : List α} {bytes : Bytes} :
    Fill (items.flatMap places) bytes ↔
      ∃ images, List.Forall₂ (fun item image => Fill (places item) image) items images ∧ bytes = images.flatten := by
  induction items generalizing bytes with
  | nil =>
      constructor
      · intro h
        cases h
        exact ⟨[], .nil, rfl⟩
      · rintro ⟨images, himages, rfl⟩
        cases himages
        exact .nil
  | cons item items ih =>
      rw [List.flatMap_cons, fill_append]
      constructor
      · rintro ⟨first, second, rfl, hfirst, hsecond⟩
        obtain ⟨images, himages, rfl⟩ := ih.mp hsecond
        exact ⟨first :: images, .cons hfirst himages, rfl⟩
      · rintro ⟨images, himages, rfl⟩
        cases himages with
        | cons hfirst hrest => exact ⟨_, _, rfl, hfirst, ih.mpr ⟨_, hrest, rfl⟩⟩

theorem fill_counted {α : Type} {places : α → List Place} {items : List α} {bytes : Bytes} :
    Fill (counted places items) bytes ↔
      ∃ images, List.Forall₂ (fun item image => Fill (places item) image) items images ∧
        bytes = [UInt8.ofNat items.length] ++ images.flatten := by
  rw [counted, fill_append]
  constructor
  · rintro ⟨first, second, rfl, hfirst, hsecond⟩
    obtain rfl : first = [UInt8.ofNat items.length] := fill_ofBytes.mp hfirst
    obtain ⟨images, himages, rfl⟩ := fill_flatMap.mp hsecond
    exact ⟨images, himages, rfl⟩
  · rintro ⟨images, himages, rfl⟩
    exact ⟨_, _, rfl, fill_canonical [byte _], fill_flatMap.mpr ⟨images, himages, rfl⟩⟩

/-! ### Exact readers -/

/-- What the reader returns fits and was taken from bytes that fill its places, and all such bytes are read as it. -/
structure Exact {ε α : Type} (reader : Cursor ε α) (Fits : α → Prop) (places : α → List Place) : Prop where
  takes : Takes reader fun value bytes => Fits value ∧ Fill (places value) bytes
  consumes : ∀ {value bytes}, Fits value → Fill (places value) bytes → Consumes reader bytes value

section Exact

variable {ε α : Type} {reader : Cursor ε α} {Fits : α → Prop} {places : α → List Place}

/-- What is read from some data, whatever the position that the reader ends at. -/
theorem Exact.run_fst_iff (h : Exact reader Fits places) {data : Bytes} {value : α} :
    (reader data).map Prod.fst = .ok value ↔
      Fits value ∧ ∃ bytes rest, data = bytes ++ rest ∧ Fill (places value) bytes := by
  constructor
  · intro hread
    cases hresult : reader data with
    | error fault =>
        rw [hresult] at hread
        cases hread
    | ok result =>
        rw [hresult] at hread
        cases hread
        obtain ⟨bytes, hdata, hfits, hfill⟩ := h.takes data result.1 result.2 hresult
        exact ⟨hfits, bytes, result.2, hdata, hfill⟩
  · rintro ⟨hfits, bytes, rest, rfl, hfill⟩
    exact (h.consumes hfits hfill).run_fst rest

/-- A value that fits is read back from the bytes that are written for it. -/
theorem Exact.consumes_canonical (h : Exact reader Fits places) {value : α} (hfits : Fits value) :
    Consumes reader ((places value).map canonical) value :=
  h.consumes hfits (fill_canonical _)

theorem exact_takeBlock (n : Nat) :
    Exact (Cursor.takeBlock n : Cursor ε (FixedBytes n)) (fun _ => True) fun block => ofBytes block.1 where
  takes := (Cursor.takes_takeBlock n).imp fun _ _ hbytes => ⟨trivial, fill_ofBytes.mpr hbytes⟩
  consumes := fun _ hfill => fill_ofBytes.mp hfill ▸ Cursor.consumes_takeBlock _

/-- A counted list is read item by item. -/
theorem Exact.counted (h : Exact reader Fits places) :
    Exact (Cursor.counted reader) (fun items => items.length ≤ 255 ∧ ∀ item ∈ items, Fits item)
      (Place.counted places) where
  takes := by
    refine (Cursor.takes_counted h.takes).imp ?_
    rintro items bytes ⟨hcount, images, himages, rfl⟩
    obtain ⟨hfits, himages⟩ := (List.forall₂_and_left _ _).mp himages
    exact ⟨⟨hcount, hfits⟩, fill_counted.mpr ⟨images, himages, rfl⟩⟩
  consumes := by
    rintro items bytes ⟨hcount, hfits⟩ hfill
    obtain ⟨images, himages, rfl⟩ := fill_counted.mp hfill
    refine Cursor.consumes_counted hcount ?_
    exact ((List.forall₂_and_left _ _).mpr ⟨hfits, himages⟩).imp fun _ _ hitem => h.consumes hitem.1 hitem.2

end Exact

end Place

end Chainring

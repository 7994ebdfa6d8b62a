import Chainring.Base.Codec
import Chainring.Base.Exec

/-! Readers that walk over a slice by its indices and panic where it ends. What is left of the slice stands for
their position. -/

namespace Chainring

abbrev Cursor (ε α : Type) := StateT Bytes (Except (Failure ε)) α

namespace Cursor

open Bytes (ofWord toWord ofWord_length toWord_lt toWord_ofWord ofWord_toWord)
open Codec (Consumes consumes_pure Takes takes_pure)

variable {ε α : Type}

/-- The slice `data[position..position + n]`. -/
def takeBytes (n : Nat) : Cursor ε Bytes := fun data =>
  if n ≤ data.length then .ok (data.take n, data.drop n) else .error .panic

/-- The same as an array. -/
def takeBlock (n : Nat) : Cursor ε (FixedBytes n) := fun data =>
  if h : (data.take n).length = n then .ok (⟨data.take n, h⟩, data.drop n) else .error .panic

/-- The byte `data[position]`. -/
def takeU8 : Cursor ε UInt8 := fun data =>
  match data with
  | [] => .error .panic
  | byte :: rest => .ok (byte, rest)

def takeWord (n : Nat) : Cursor ε Nat := do
  let block ← takeBlock n
  pure (toWord block.1)

def takeU32 : Cursor ε UInt32 := do
  let word ← takeWord 4
  pure (UInt32.ofNat word)

/-- The outcome of a computation on what was read before. -/
def result (outcome : Except (Failure ε) α) : Cursor ε α := fun data => outcome.map (·, data)

def times (item : Cursor ε α) : Nat → Cursor ε (List α)
  | 0 => pure []
  | count + 1 => do
      let first ← item
      let rest ← times item count
      pure (first :: rest)

/-- A byte that counts items, and the items. -/
def counted (item : Cursor ε α) : Cursor ε (List α) := do
  let count ← takeU8
  times item count.toNat

/-! ### What they consume -/

theorem consumes_takeBytes (bytes : Bytes) : Consumes (takeBytes bytes.length : Cursor ε Bytes) bytes bytes := by
  intro rest
  rw [takeBytes, if_pos (by simp), List.take_left, List.drop_left]

theorem consumes_takeBlock {n : Nat} (block : FixedBytes n) :
    Consumes (takeBlock n : Cursor ε (FixedBytes n)) block.1 block := by
  intro rest
  obtain ⟨bytes, rfl⟩ := block
  simp [takeBlock]

theorem consumes_takeU8 (byte : UInt8) : Consumes (takeU8 : Cursor ε UInt8) [byte] byte := fun _ => rfl

theorem consumes_takeWord {n word : Nat} (hword : word < 256 ^ n) :
    Consumes (takeWord n : Cursor ε Nat) (ofWord n word) word := by
  have hblock := (consumes_takeBlock (ε := ε) (n := n) ⟨ofWord n word, ofWord_length n word⟩).last fun block =>
    toWord block.1
  rw [toWord_ofWord, Nat.mod_eq_of_lt hword] at hblock
  exact hblock

theorem consumes_takeU32 (word : UInt32) : Consumes (takeU32 : Cursor ε UInt32) (ofWord 4 word.toNat) word := by
  have hlast := (consumes_takeWord (ε := ε) (n := 4) word.toNat_lt).last UInt32.ofNat
  rw [UInt32.ofNat_toNat] at hlast
  exact hlast

theorem consumes_result (value : α) : Consumes (result (.ok value) : Cursor ε α) [] value := fun _ => rfl

/-- The items of a loop are consumed in a row. -/
theorem consumes_images {item : Cursor ε α} {items : List α} {images : List Bytes}
    (h : List.Forall₂ (fun value image => Consumes item image value) items images) :
    Consumes (times item items.length) images.flatten items := by
  induction h with
  | nil => exact consumes_pure []
  | cons hvalue _ ih => exact hvalue.bind (ih.last _)

theorem consumes_times {item : Cursor ε α} {encode : α → Bytes} {items : List α}
    (h : ∀ value ∈ items, Consumes item (encode value) value) :
    Consumes (times item items.length) (items.flatMap encode) items :=
  consumes_images (List.forall₂_map_right_iff.mpr (List.forall₂_same.mpr h))

theorem consumes_counted {item : Cursor ε α} {items : List α} {images : List Bytes} (hcount : items.length ≤ 255)
    (h : List.Forall₂ (fun value image => Consumes item image value) items images) :
    Consumes (counted item) ([UInt8.ofNat items.length] ++ images.flatten) items := by
  have hlength : (UInt8.ofNat items.length).toNat = items.length := by
    rw [UInt8.toNat_ofNat', Nat.mod_eq_of_lt (by omega)]
  have hitems := consumes_images h
  rw [← hlength] at hitems
  exact (consumes_takeU8 _).bind hitems

/-! ### What they take -/

theorem takes_takeBytes (n : Nat) :
    Takes (takeBytes n : Cursor ε Bytes) fun value bytes => bytes = value ∧ value.length = n := by
  intro data value rest hread
  unfold takeBytes at hread
  split at hread
  · next hle =>
      cases hread
      exact ⟨_, (List.take_append_drop n data).symm, rfl, List.length_take_of_le hle⟩
  · cases hread

theorem takes_takeBlock (n : Nat) : Takes (takeBlock n : Cursor ε (FixedBytes n)) fun value bytes => bytes = value.1 := by
  intro data value rest hread
  unfold takeBlock at hread
  split at hread
  · cases hread
    exact ⟨_, (List.take_append_drop n data).symm, rfl⟩
  · cases hread

theorem takes_takeU8 : Takes (takeU8 : Cursor ε UInt8) fun value bytes => bytes = [value] := by
  intro data value rest hread
  cases data with
  | nil => cases hread
  | cons byte data =>
      cases hread
      exact ⟨[value], rfl, rfl⟩

theorem takes_takeWord (n : Nat) :
    Takes (takeWord n : Cursor ε Nat) fun value bytes => bytes = ofWord n value ∧ value < 256 ^ n := by
  apply (takes_takeBlock n).bind
  intro block bytes hbytes
  apply takes_pure
  have hword := ofWord_toWord block.1
  have hlt := toWord_lt block.1
  rw [block.2] at hword hlt
  rw [List.append_nil, hword]
  exact ⟨hbytes, hlt⟩

theorem takes_takeU32 : Takes (takeU32 : Cursor ε UInt32) fun word bytes => bytes = ofWord 4 word.toNat := by
  apply (takes_takeWord 4).bind
  rintro word _ ⟨rfl, hlt⟩
  apply takes_pure
  rw [List.append_nil, UInt32.toNat_ofNat', Nat.mod_eq_of_lt (show word < 2 ^ 32 from hlt)]

theorem takes_result (outcome : Except (Failure ε) α) :
    Takes (result outcome) fun value bytes => outcome = .ok value ∧ bytes = [] := by
  intro data value rest hread
  cases houtcome : outcome with
  | error fault =>
      rw [result, houtcome] at hread
      cases hread
  | ok value' =>
      rw [result, houtcome] at hread
      cases hread
      exact ⟨[], rfl, rfl, rfl⟩

/-- The items of a loop are taken in a row. -/
theorem takes_times {item : Cursor ε α} {Form : α → Bytes → Prop} (h : Takes item Form) (count : Nat) :
    Takes (times item count) fun values bytes =>
      values.length = count ∧ ∃ images, List.Forall₂ Form values images ∧ bytes = images.flatten := by
  induction count with
  | zero => exact takes_pure ⟨rfl, [], .nil, rfl⟩
  | succ count ih =>
      apply h.bind
      intro value image hvalue
      apply ih.bind
      rintro values _ ⟨hcount, images, himages, rfl⟩
      apply takes_pure
      refine ⟨congrArg (· + 1) hcount, image :: images, .cons hvalue himages, ?_⟩
      rw [List.append_nil, List.flatten_cons]

theorem takes_counted {item : Cursor ε α} {Form : α → Bytes → Prop} (h : Takes item Form) :
    Takes (counted item) fun values bytes => values.length ≤ 255 ∧
      ∃ images, List.Forall₂ Form values images ∧ bytes = [UInt8.ofNat values.length] ++ images.flatten := by
  apply takes_takeU8.bind
  rintro count _ rfl
  refine (takes_times h count.toNat).imp ?_
  rintro values _ ⟨hcount, images, himages, rfl⟩
  have hlt := count.toNat_lt
  refine ⟨by omega, images, himages, ?_⟩
  rw [hcount, UInt8.ofNat_toNat]

end Cursor

end Chainring

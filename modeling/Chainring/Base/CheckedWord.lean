import Mathlib.Data.BitVec
import Mathlib.Algebra.BigOperators.Group.List.Basic
import Mathlib.Tactic.Ring

/-! Checked arithmetic on fixed-width words: unsigned addition and subtraction that refuse an
overflow, signed addition and subtraction within the range of a width, and how a signed reading of
a list of words differs from the unsigned one. -/

namespace Chainring.CheckedWord

theorem bind_eq_ok {ε α β : Type} {x : Except ε α} {f : α → Except ε β} {b : β} :
    (x >>= f) = .ok b ↔ ∃ a, x = .ok a ∧ f a = .ok b := by
  cases x with
  | error e => simp [bind, Except.bind]
  | ok a => simp [bind, Except.bind]

theorem bind_ne_error {ε α β : Type} {x : Except ε α} {f : α → Except ε β} {e : ε} (hx : x ≠ .error e)
    (hf : ∀ a, x = .ok a → f a ≠ .error e) : (x >>= f) ≠ .error e := by
  cases x with
  | ok a => exact hf a rfl
  | error e' =>
      intro h
      apply hx
      cases h
      rfl

theorem bind_pure_eq_error {ε α β : Type} {x : Except ε α} {f : α → β} :
    (∃ e, (do let a ← x; pure (f a)) = .error e) ↔ ∃ e, x = .error e := by
  cases x with
  | error e => exact iff_of_true ⟨e, rfl⟩ ⟨e, rfl⟩
  | ok a => exact iff_of_false (fun ⟨_, h⟩ => nomatch h) (fun ⟨_, h⟩ => nomatch h)

theorem exists_eq_ok {ε α β : Type} {x : Except ε α} {f : α → β} {b : β}
    (h : x.toOption.map f = some b) : ∃ a, x = .ok a ∧ f a = b := by
  cases x with
  | error e => cases h
  | ok a => exact ⟨a, rfl, Option.some.inj h⟩

def errorOf {ε α : Type} : Except ε α → Option ε
  | .ok _ => none
  | .error e => some e

theorem errorOf_eq_some {ε α : Type} {x : Except ε α} {e : ε} : errorOf x = some e ↔ x = .error e := by
  cases x <;> simp [errorOf]

/-- Each item of a loop that goes through went through. -/
theorem exists_of_foldlM {ε σ α : Type} {body : σ → α → Except ε σ} {items : List α} {start final : σ}
    (h : items.foldlM body start = .ok final) {item : α} (hitem : item ∈ items) :
    ∃ state next, body state item = .ok next := by
  induction items generalizing start with
  | nil => cases hitem
  | cons first items ih =>
      rw [List.foldlM_cons] at h
      obtain ⟨next, hnext, hrest⟩ := bind_eq_ok.mp h
      rcases List.mem_cons.mp hitem with rfl | hitem
      · exact ⟨start, next, hnext⟩
      · exact ih hrest hitem

theorem mapM_isOk {ε α β : Type} {f : α → Except ε β} {items : List α}
    (h : ∀ item ∈ items, ∃ b, f item = .ok b) : ∃ bs, items.mapM f = .ok bs := by
  induction items with
  | nil => exact ⟨[], rfl⟩
  | cons item items ih =>
      obtain ⟨⟨b, hb⟩, hrest⟩ := List.forall_mem_cons.mp h
      obtain ⟨bs, hbs⟩ := ih hrest
      refine ⟨b :: bs, ?_⟩
      rw [List.mapM_cons, hb, hbs]
      rfl

theorem forall₂_of_mapM {ε α β : Type} {f : α → Except ε β} {items : List α} {bs : List β}
    (h : items.mapM f = .ok bs) : List.Forall₂ (fun item b => f item = .ok b) items bs := by
  induction items generalizing bs with
  | nil =>
      cases h
      exact .nil
  | cons item items ih =>
      rw [List.mapM_cons] at h
      obtain ⟨b, hb, hrest⟩ := bind_eq_ok.mp h
      obtain ⟨bs', hbs, hcons⟩ := bind_eq_ok.mp hrest
      cases hcons
      exact .cons hb (ih hbs)

variable {w : Nat}

def addChecked (a b : BitVec w) : Option (BitVec w) :=
  if a.toNat + b.toNat < 2 ^ w then some (a + b) else none

def subChecked (a b : BitVec w) : Option (BitVec w) :=
  if b ≤ a then some (a - b) else none

theorem addChecked_eq_some {a b c : BitVec w} :
    addChecked a b = some c ↔ c.toNat = a.toNat + b.toNat := by
  unfold addChecked
  split
  · next hlt =>
      rw [Option.some.injEq, BitVec.toNat_eq, BitVec.toNat_add, Nat.mod_eq_of_lt hlt]
      exact eq_comm
  · next hge =>
      have := c.isLt
      constructor
      · intro h
        cases h
      · intro h
        omega

theorem subChecked_eq_some {a b c : BitVec w} :
    subChecked a b = some c ↔ c.toNat + b.toNat = a.toNat := by
  unfold subChecked
  split
  · next hle =>
      have hsub := BitVec.toNat_sub_of_le hle
      have hnat : b.toNat ≤ a.toNat := hle
      rw [Option.some.injEq, BitVec.toNat_eq, hsub]
      omega
  · next hgt =>
      have hnat : ¬b.toNat ≤ a.toNat := hgt
      constructor
      · intro h
        cases h
      · intro h
        omega

/-- A signed value of `w` bits, or nothing past the range. -/
def signed (w : Nat) (value : Int) : Option Int :=
  if -2 ^ (w - 1) ≤ value ∧ value < 2 ^ (w - 1) then some value else none

theorem signed_eq_some {value value' : Int} (h : signed w value = some value') : value' = value := by
  unfold signed at h
  split at h
  · exact (Option.some.inj h).symm
  · cases h

/-- The words whose signed reading is negative. -/
def Negative (a : BitVec w) : Prop := 2 ^ w ≤ 2 * a.toNat

instance (a : BitVec w) : Decidable (Negative a) :=
  inferInstanceAs (Decidable (2 ^ w ≤ 2 * a.toNat))

def negatives (words : List (BitVec w)) : Nat := words.countP fun a => decide (Negative a)

theorem toInt_eq (a : BitVec w) :
    a.toInt = (a.toNat : Int) - if Negative a then 2 ^ w else 0 := by
  rw [BitVec.toInt_eq_toNat_cond]
  by_cases h : Negative a
  · have hle : ¬2 * a.toNat < 2 ^ w := Nat.not_lt.mpr h
    rw [if_neg hle, if_pos h]
    push_cast
    rfl
  · have hlt : 2 * a.toNat < 2 ^ w := Nat.not_le.mp h
    rw [if_pos hlt, if_neg h, Int.sub_zero]

/-- The signed readings of a list fall short of the unsigned ones by a word for each negative. -/
theorem sum_toInt (words : List (BitVec w)) :
    (words.map BitVec.toInt).sum =
      ((words.map BitVec.toNat).sum : Int) - 2 ^ w * (negatives words : Int) := by
  induction words with
  | nil => simp [negatives]
  | cons a words ih =>
      have hcount : negatives (a :: words) = negatives words + if Negative a then 1 else 0 := by
        simp [negatives, List.countP_cons]
      rw [List.map_cons, List.sum_cons, List.map_cons, List.sum_cons, ih, toInt_eq, hcount]
      split <;> push_cast <;> ring

end Chainring.CheckedWord

import Mathlib.Data.List.Basic
import Mathlib.Data.Nat.Bitwise
import Mathlib.Tactic.Ring

/-! The heap of a program. Blocks are handed out from the top of the heap down and never taken back, and the lowest
word of the heap holds the position of the last block. -/

namespace Chainring.Sdk

/-- What is asked for: a size and a power of two. -/
structure Layout where
  size : UInt64
  align : UInt64
  powerOfTwo : ∃ k, align.toNat = 2 ^ k

/-- A heap that holds at least its position and does not wrap around. -/
structure BumpAllocator where
  start : UInt64
  len : UInt64
  position : 8 ≤ len.toNat
  bounded : start.toNat + len.toNat < 2 ^ 64

namespace BumpAllocator

/-- The block for a request and the new position. -/
def alloc (a : BumpAllocator) (layout : Layout) (position : UInt64) : Option UInt64 × UInt64 :=
  let pos := if position = 0 then a.start + a.len else position
  let pos := if pos < layout.size then 0 else pos - layout.size
  let pos := pos &&& ~~~(layout.align - 1)
  if pos < a.start + 8 then (none, position) else (some pos, pos)

/-- The blocks that requests are given, one after the other. -/
def blocks (a : BumpAllocator) : UInt64 → List Layout → List (UInt64 × Layout)
  | _, [] => []
  | position, layout :: layouts =>
      let outcome := a.alloc layout position
      outcome.1.toList.map (·, layout) ++ a.blocks outcome.2 layouts

/-- The position after requests. -/
def positionAfter (a : BumpAllocator) (position : UInt64) (layouts : List Layout) : UInt64 :=
  layouts.foldl (fun position layout => (a.alloc layout position).2) position

/-! ### One request -/

/-- The bits from the `k`-th on. -/
theorem and_not_low (x k : Nat) (hx : x < 2 ^ 64) (hk : k ≤ 64) : x &&& (2 ^ 64 - 1 - (2 ^ k - 1)) = x - x % 2 ^ k := by
  have hmask : 2 ^ 64 - 1 - (2 ^ k - 1) = (2 ^ (64 - k) - 1) <<< k := by
    rw [Nat.shiftLeft_eq, Nat.sub_mul, ← Nat.pow_add, Nat.sub_add_cancel hk, Nat.one_mul]
    have := Nat.one_le_two_pow (n := k)
    omega
  have hhigh : x - x % 2 ^ k = (x >>> k) <<< k := by
    rw [Nat.shiftRight_eq_div_pow, Nat.shiftLeft_eq]
    have := Nat.div_add_mod x (2 ^ k)
    rw [Nat.mul_comm] at this
    omega
  rw [hmask, hhigh]
  apply Nat.eq_of_testBit_eq
  intro i
  rw [Nat.testBit_and, Nat.testBit_shiftLeft, Nat.testBit_shiftLeft, Nat.testBit_two_pow_sub_one,
    Nat.testBit_shiftRight]
  by_cases hi : k ≤ i
  · rw [Nat.add_sub_cancel' hi]
    by_cases hsmall : i < 64
    · have : i - k < 64 - k := by omega
      simp [hi, this]
    · rw [Nat.testBit_lt_two_pow (Nat.lt_of_lt_of_le hx (Nat.pow_le_pow_right (by decide) (by omega)))]
      simp
  · simp [hi]

theorem alignDown_toNat (pos : UInt64) (layout : Layout) :
    (pos &&& ~~~(layout.align - 1)).toNat = pos.toNat - pos.toNat % layout.align.toNat := by
  obtain ⟨k, hk⟩ := layout.powerOfTwo
  have hk64 : k ≤ 64 := by
    have hlt := layout.align.toNat_lt
    rw [hk] at hlt
    exact Nat.le_of_lt ((Nat.pow_lt_pow_iff_right (by decide)).mp hlt)
  have hone : (1 : UInt64) ≤ layout.align := by
    rw [UInt64.le_iff_toNat_le, hk]
    exact Nat.one_le_two_pow
  rw [UInt64.toNat_and, UInt64.toNat_not, UInt64.toNat_sub_of_le _ _ hone, hk]
  exact and_not_low pos.toNat k pos.toNat_lt hk64

/-- The lowest byte that was handed out, or the end of the heap. -/
def lowest (a : BumpAllocator) (position : UInt64) : Nat :=
  if position = 0 then a.start.toNat + a.len.toNat else position.toNat

/-- The position is not set yet, or it is inside the heap and above itself. -/
def Valid (a : BumpAllocator) (position : UInt64) : Prop :=
  position = 0 ∨ a.start.toNat + 8 ≤ position.toNat ∧ position.toNat ≤ a.start.toNat + a.len.toNat

/-- An aligned block of the size that begins at an address and ends by another one. -/
structure IsBlock (layout : Layout) (address last : Nat) : Prop where
  aligned : address % layout.align.toNat = 0
  ends : address + layout.size.toNat ≤ last

/-- The highest aligned block below what was handed out, unless it reaches the position. -/
theorem alloc_eq (a : BumpAllocator) (layout : Layout) (position : UInt64) :
    ∃ pos : UInt64, pos.toNat = (a.lowest position - layout.size.toNat) -
        (a.lowest position - layout.size.toNat) % layout.align.toNat ∧
      a.alloc layout position = if pos.toNat < a.start.toNat + 8 then (none, position) else (some pos, pos) := by
  have hposition := a.position
  have hbounded := a.bounded
  have hstart : (a.start + 8).toNat = a.start.toNat + 8 := by
    rw [UInt64.toNat_add]
    exact Nat.mod_eq_of_lt (by show a.start.toNat + 8 < 2 ^ 64; omega)
  have hlowest : (if position = 0 then a.start + a.len else position).toNat = a.lowest position := by
    rw [lowest]
    split
    · rw [UInt64.toNat_add]
      exact Nat.mod_eq_of_lt hbounded
    · rfl
  set top := if position = 0 then a.start + a.len else position with htop
  have hsub : (if top < layout.size then 0 else top - layout.size).toNat = a.lowest position - layout.size.toNat := by
    rw [← hlowest]
    split
    · next hlt =>
        rw [UInt64.lt_iff_toNat_lt] at hlt
        rw [Nat.sub_eq_zero_of_le (Nat.le_of_lt hlt)]
        rfl
    · next hnlt =>
        exact UInt64.toNat_sub_of_le _ _ (UInt64.not_lt.mp hnlt)
  refine ⟨(if top < layout.size then 0 else top - layout.size) &&& ~~~(layout.align - 1), ?_, ?_⟩
  · rw [alignDown_toNat, hsub]
  · rw [alloc]
    simp only [← htop, UInt64.lt_iff_toNat_lt, hstart]

/-- A request is answered with an aligned block below what was handed out, whose address becomes the position, or it
is refused because no such block is left. -/
inductive Answers (a : BumpAllocator) (layout : Layout) (position : UInt64) : Option UInt64 × UInt64 → Prop where
  | block {pos : UInt64} : a.start.toNat + 8 ≤ pos.toNat → IsBlock layout pos.toNat (a.lowest position) →
      Answers a layout position (some pos, pos)
  | full : (∀ address, IsBlock layout address (a.lowest position) → address < a.start.toNat + 8) →
      Answers a layout position (none, position)

theorem alloc_answers (a : BumpAllocator) (layout : Layout) (position : UInt64) :
    Answers a layout position (a.alloc layout position) := by
  obtain ⟨pos, hpos, halloc⟩ := alloc_eq a layout position
  have halign : 0 < layout.align.toNat := by
    obtain ⟨k, hk⟩ := layout.powerOfTwo
    rw [hk]
    exact Nat.two_pow_pos k
  have hdiv := Nat.div_add_mod (a.lowest position - layout.size.toNat) layout.align.toNat
  rw [halloc]
  split
  · next hlow =>
      refine .full fun address hblock => ?_
      have hle : address / layout.align.toNat ≤ (a.lowest position - layout.size.toNat) / layout.align.toNat := by
        have := hblock.ends
        exact Nat.div_le_div_right (by omega)
      have haddress := Nat.div_add_mod address layout.align.toNat
      rw [hblock.aligned] at haddress
      have := Nat.mul_le_mul_left layout.align.toNat hle
      omega
  · next hhigh =>
      refine .block (Nat.not_lt.mp hhigh) ⟨?_, by omega⟩
      have hmultiple : pos.toNat =
          layout.align.toNat * ((a.lowest position - layout.size.toNat) / layout.align.toNat) := by omega
      rw [hmultiple]
      exact Nat.mul_mod_right _ _

theorem Answers.valid {a : BumpAllocator} {layout : Layout} {position : UInt64} (h : a.Valid position)
    {outcome : Option UInt64 × UInt64} (hanswers : Answers a layout position outcome) : a.Valid outcome.2 := by
  cases hanswers with
  | @block pos hlow hblock =>
      have hends := hblock.ends
      have hlowest : a.lowest position ≤ a.start.toNat + a.len.toNat := by
        rw [lowest]
        split
        · exact Nat.le_refl _
        · next hne => exact (h.resolve_left hne).2
      exact Or.inr ⟨hlow, by show pos.toNat ≤ _; omega⟩
  | full => exact h

theorem lowest_of_block (a : BumpAllocator) {pos : UInt64} (h : a.start.toNat + 8 ≤ pos.toNat) :
    a.lowest pos = pos.toNat := by
  rw [lowest, if_neg]
  rintro rfl
  exact absurd h (by simp)

/-! ### Requests in a row -/

/-- An address is below all that was handed out exactly when it is below what was before and below each block since
then. -/
theorem le_lowest_iff (a : BumpAllocator) (layouts : List Layout) {position : UInt64} (h : a.Valid position) (x : Nat) :
    a.Valid (a.positionAfter position layouts) ∧
      (x ≤ a.lowest (a.positionAfter position layouts) ↔
        x ≤ a.lowest position ∧ ∀ block ∈ a.blocks position layouts, x ≤ block.1.toNat) := by
  induction layouts generalizing position with
  | nil => exact ⟨h, by simp [positionAfter, blocks]⟩
  | cons layout layouts ih =>
      have hanswers := alloc_answers a layout position
      rw [positionAfter, List.foldl_cons, blocks]
      generalize a.alloc layout position = outcome at hanswers
      obtain ⟨hvalid, hrest⟩ := ih (hanswers.valid h)
      refine ⟨hvalid, hrest.trans ?_⟩
      cases hanswers with
      | @block pos hlow hblock =>
          have hends := hblock.ends
          rw [lowest_of_block a hlow]
          show _ ↔ _ ∧ ∀ block ∈ (pos, layout) :: a.blocks pos layouts, x ≤ block.1.toNat
          rw [List.forall_mem_cons]
          constructor
          · exact fun hx => ⟨by omega, hx⟩
          · exact fun hx => hx.2
      | full => rfl

/-- The blocks of requests in a row are inside the heap and above its position, aligned, and each below the ones
before it. -/
theorem blocks_spec (a : BumpAllocator) (layouts : List Layout) {position : UInt64} (h : a.Valid position) :
    (∀ block ∈ a.blocks position layouts,
      a.start.toNat + 8 ≤ block.1.toNat ∧ IsBlock block.2 block.1.toNat (a.lowest position)) ∧
    (a.blocks position layouts).Pairwise fun earlier later => later.1.toNat + later.2.size.toNat ≤ earlier.1.toNat := by
  induction layouts generalizing position with
  | nil => exact ⟨fun block hmem => absurd hmem List.not_mem_nil, .nil⟩
  | cons layout layouts ih =>
      have hanswers := alloc_answers a layout position
      rw [blocks]
      generalize a.alloc layout position = outcome at hanswers
      obtain ⟨hinside, hpairwise⟩ := ih (hanswers.valid h)
      cases hanswers with
      | @block pos hlow hblock =>
          have hends := hblock.ends
          rw [lowest_of_block a hlow] at hinside
          refine ⟨List.forall_mem_cons.mpr ⟨⟨hlow, hblock⟩, fun block hmem => ?_⟩, .cons ?_ hpairwise⟩
          · obtain ⟨hlow', hblock'⟩ := hinside block hmem
            have hends' := hblock'.ends
            exact ⟨hlow', hblock'.aligned, by omega⟩
          · exact fun block hmem => (hinside block hmem).2.ends
      | full => exact ⟨hinside, hpairwise⟩

/-- Whatever is asked for, the blocks are aligned, inside the heap, above its position and disjoint, each below the ones
before it; and the next request fails exactly when no aligned block of its size is left below all of them. -/
theorem heap_blocks (a : BumpAllocator) (layouts : List Layout) (next : Layout) :
    (∀ block ∈ a.blocks 0 layouts,
      a.start.toNat + 8 ≤ block.1.toNat ∧ IsBlock block.2 block.1.toNat (a.start.toNat + a.len.toNat)) ∧
    ((a.blocks 0 layouts).Pairwise fun earlier later => later.1.toNat + later.2.size.toNat ≤ earlier.1.toNat) ∧
    ((a.alloc next (a.positionAfter 0 layouts)).1 = none ↔
      ∀ address, IsBlock next address (a.start.toNat + a.len.toNat) →
        (∀ block ∈ a.blocks 0 layouts, address + next.size.toNat ≤ block.1.toNat) → address < a.start.toNat + 8) := by
  obtain ⟨hinside, hpairwise⟩ := blocks_spec a layouts (Or.inl rfl : a.Valid 0)
  refine ⟨hinside, hpairwise, ?_⟩
  have hlowest : ∀ x, x ≤ a.lowest (a.positionAfter 0 layouts) ↔
      x ≤ a.start.toNat + a.len.toNat ∧ ∀ block ∈ a.blocks 0 layouts, x ≤ block.1.toNat :=
    fun x => (le_lowest_iff a layouts (Or.inl rfl : a.Valid 0) x).2
  have hanswers := alloc_answers a next (a.positionAfter 0 layouts)
  generalize a.alloc next (a.positionAfter 0 layouts) = outcome at hanswers
  cases hanswers with
  | @block pos hlow hblock =>
      obtain ⟨hends, hbelow⟩ := (hlowest _).mp hblock.ends
      exact iff_of_false nofun fun h => absurd (h pos.toNat ⟨hblock.aligned, hends⟩ hbelow) (Nat.not_lt.mpr hlow)
  | full hfull =>
      exact iff_of_true rfl fun address haddress hbelow =>
        hfull address ⟨haddress.aligned, (hlowest _).mpr ⟨haddress.ends, hbelow⟩⟩

end BumpAllocator

/-- The heap of a program. -/
def programHeap : BumpAllocator where
  start := 0x300000000
  len := 32 * 1024
  position := by decide
  bounded := by decide

end Chainring.Sdk

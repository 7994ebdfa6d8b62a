import Chainring.Base.Bytes

/-! Raw memory, and the byte strings that are read from it and written to it. -/

namespace Chainring

/-- The byte at each address. -/
abbrev Region := Nat → UInt8

namespace Region

open Bytes (slice patch)

def readBytes (region : Region) (address len : Nat) : Bytes := (List.range len).map fun j => region (address + j)

def writeBytes (region : Region) (address : Nat) (block : Bytes) : Region := fun other =>
  if address ≤ other ∧ other < address + block.length then block.getD (other - address) 0 else region other

variable {region region' : Region} {address len : Nat}

@[simp] theorem readBytes_length (region : Region) (address len : Nat) : (region.readBytes address len).length = len := by
  simp [readBytes]

theorem readBytes_getElem? {j : Nat} (hj : j < len) :
    (region.readBytes address len)[j]? = some (region (address + j)) := by
  rw [readBytes, List.getElem?_map, List.getElem?_range hj]
  rfl

theorem readBytes_congr (h : ∀ other, address ≤ other → other < address + len → region' other = region other) :
    region'.readBytes address len = region.readBytes address len := by
  apply List.map_congr_left
  intro j hj
  rw [List.mem_range] at hj
  exact h (address + j) (by omega) (by omega)

theorem readBytes_append (region : Region) (address m n : Nat) :
    region.readBytes address m ++ region.readBytes (address + m) n = region.readBytes address (m + n) := by
  simp only [readBytes, List.range_add, List.map_append, List.map_map, Function.comp_def, Nat.add_assoc]

theorem readBytes_take {n : Nat} (h : n ≤ len) :
    (region.readBytes address len).take n = region.readBytes address n := by
  rw [← Nat.add_sub_of_le h, ← readBytes_append]
  exact List.take_left' (readBytes_length ..)

theorem readBytes_drop {n : Nat} (h : n ≤ len) :
    (region.readBytes address len).drop n = region.readBytes (address + n) (len - n) := by
  rw [← Nat.add_sub_of_le h, ← readBytes_append, Nat.add_sub_cancel_left]
  exact List.drop_left' (readBytes_length ..)

theorem writeBytes_outside {block : Bytes} {other : Nat} (h : other < address ∨ address + block.length ≤ other) :
    region.writeBytes address block other = region other := by
  rw [writeBytes, if_neg]
  omega

theorem writeBytes_inside {block : Bytes} {j : Nat} (hj : j < block.length) :
    region.writeBytes address block (address + j) = block.getD j 0 := by
  rw [writeBytes, if_pos (by omega), Nat.add_sub_cancel_left]

/-- What was written is read. -/
theorem readBytes_writeBytes (region : Region) (address : Nat) (block : Bytes) :
    (region.writeBytes address block).readBytes address block.length = block := by
  apply List.ext_getElem?
  intro j
  by_cases hj : j < block.length
  · rw [readBytes_getElem? hj, writeBytes_inside hj, List.getD_eq_getElem?_getD, List.getElem?_eq_getElem hj]
    rfl
  · rw [List.getElem?_eq_none (by rw [readBytes_length]; omega), List.getElem?_eq_none (by omega)]

/-- What is read elsewhere stays. -/
theorem readBytes_writeBytes_of_disjoint {address' : Nat} {block : Bytes}
    (h : address + len ≤ address' ∨ address' + block.length ≤ address) :
    (region.writeBytes address' block).readBytes address len = region.readBytes address len := by
  apply readBytes_congr
  intro other hlow hhigh
  apply writeBytes_outside
  omega

/-- A block that is written inside what is read patches it. -/
theorem patch_readBytes {offset : Nat} {block : Bytes} (h : offset + block.length ≤ len) :
    patch (region.readBytes address len) offset block =
      some ((region.writeBytes (address + offset) block).readBytes address len) := by
  have hroom : offset + block.length ≤ (region.readBytes address len).length := by
    rw [readBytes_length]
    exact h
  obtain ⟨data, hpatch⟩ := Bytes.patch_isSome hroom
  rw [hpatch]
  obtain ⟨-, hlength, hbytes⟩ := Bytes.patch_eq_some hpatch
  congr 1
  apply List.ext_getElem?
  intro j
  rw [readBytes_length] at hlength
  by_cases hj : j < len
  · rw [hbytes, readBytes_getElem? hj, readBytes_getElem? hj]
    by_cases hin : offset ≤ j ∧ j < offset + block.length
    · have hat : address + j = address + offset + (j - offset) := by omega
      have hlt : j - offset < block.length := by omega
      rw [if_pos hin, hat, writeBytes_inside hlt, List.getD_eq_getElem?_getD, List.getElem?_eq_getElem hlt]
      rfl
    · rw [if_neg hin, writeBytes_outside (by omega)]
  · rw [List.getElem?_eq_none (by omega), List.getElem?_eq_none (by rw [readBytes_length]; omega)]

end Region

end Chainring

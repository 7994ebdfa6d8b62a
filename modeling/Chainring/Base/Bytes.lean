import Mathlib.Data.List.Basic
import Mathlib.Tactic.Ring

/-! Byte strings with bounds-checked slices and patches, little-endian words, fixed-size blocks and
UTF-8 strings. A slice and a patch are known by the bytes they read and leave, one offset at a
time. -/

namespace Chainring

abbrev Bytes := List UInt8

/-- A block of exactly `n` bytes. -/
abbrev FixedBytes (n : Nat) := { bytes : Bytes // bytes.length = n }

namespace Bytes

/-- The `len` bytes from `offset` on, when they are all there. -/
def slice (data : Bytes) (offset len : Nat) : Option Bytes :=
  let taken := (data.drop offset).take len
  if taken.length = len then some taken else none

/-- The bytes with a block copied over the ones from `offset` on, when these are all there. -/
def patch (data : Bytes) (offset : Nat) (block : Bytes) : Option Bytes :=
  (slice data offset block.length).map fun _ =>
    data.take offset ++ block ++ data.drop (offset + block.length)

/-- The bytes cut or zero-padded to a length. -/
def resize (data : Bytes) (len : Nat) : Bytes :=
  data.take len ++ List.replicate (len - data.length) 0

theorem slice_eq_some {data block : Bytes} {offset len : Nat} :
    slice data offset len = some block ↔
      block.length = len ∧ ∀ j, j < len → data[offset + j]? = block[j]? := by
  have htaken : ∀ j, j < len → ((data.drop offset).take len)[j]? = data[offset + j]? := by
    intro j hj
    rw [List.getElem?_take_of_lt hj, List.getElem?_drop]
  unfold slice
  dsimp only
  constructor
  · intro h
    split at h
    · next hlen =>
        obtain rfl := Option.some.inj h
        exact ⟨hlen, fun j hj => (htaken j hj).symm⟩
    · cases h
  · rintro ⟨hlen, hbytes⟩
    have heq : (data.drop offset).take len = block := by
      apply List.ext_getElem?
      intro j
      by_cases hj : j < len
      · rw [htaken j hj, hbytes j hj]
      · have hshort : ((data.drop offset).take len).length ≤ len := List.length_take_le _ _
        rw [List.getElem?_eq_none (by omega), List.getElem?_eq_none (by omega)]
    rw [heq, if_pos hlen]

theorem slice_isSome {data : Bytes} {offset len : Nat} (hle : offset + len ≤ data.length) :
    ∃ block, slice data offset len = some block := by
  have hlen : ((data.drop offset).take len).length = len := by
    rw [List.length_take, List.length_drop]
    omega
  exact ⟨_, if_pos hlen⟩

theorem slice_le {data block : Bytes} {offset len : Nat} (hpos : 0 < len)
    (h : slice data offset len = some block) : offset + len ≤ data.length := by
  obtain ⟨hlen, hbytes⟩ := slice_eq_some.mp h
  have hlast := hbytes (len - 1) (by omega)
  have hin : len - 1 < block.length := by omega
  rw [List.getElem?_eq_getElem hin] at hlast
  have := (List.getElem?_eq_some_iff.mp hlast).1
  omega

/-- A field of a record is the slice at its place. -/
theorem slice_append (before block after : Bytes) :
    slice (before ++ block ++ after) before.length block.length = some block := by
  simp [slice, List.append_assoc]

theorem slice_of_eq {data : Bytes} {offset len : Nat} (before block after : Bytes)
    (hdata : data = before ++ block ++ after) (hbefore : before.length = offset)
    (hblock : block.length = len) : slice data offset len = some block := by
  subst hdata hbefore hblock
  exact slice_append before block after

/-- A slice is read off its own bytes only. -/
theorem slice_congr {data data' : Bytes} {offset len : Nat}
    (h : ∀ o, offset ≤ o → o < offset + len → data'[o]? = data[o]?) :
    slice data' offset len = slice data offset len := by
  have heq : (data'.drop offset).take len = (data.drop offset).take len := by
    apply List.ext_getElem?
    intro j
    by_cases hj : j < len
    · rw [List.getElem?_take_of_lt hj, List.getElem?_take_of_lt hj, List.getElem?_drop,
        List.getElem?_drop, h (offset + j) (by omega) (by omega)]
    · have hshort : ∀ bytes : Bytes, (bytes.take len).length ≤ j :=
        fun bytes => Nat.le_trans (List.length_take_le _ _) (Nat.not_lt.mp hj)
      rw [List.getElem?_eq_none (hshort _), List.getElem?_eq_none (hshort _)]
  unfold slice
  rw [heq]

/-- A slice that could be read stays what it was when the bytes that were there do. -/
theorem slice_mono {data data' block : Bytes} {offset len : Nat}
    (h : ∀ o, offset ≤ o → o < offset + len → o < data.length → data'[o]? = data[o]?)
    (hslice : slice data offset len = some block) : slice data' offset len = some block := by
  rw [← hslice]
  apply slice_congr
  intro o hlow hhigh
  exact h o hlow hhigh (Nat.lt_of_lt_of_le hhigh (slice_le (by omega) hslice))

/-! ### Patches -/

theorem patch_eq_some {data data' block : Bytes} {offset : Nat}
    (h : patch data offset block = some data') :
    (∃ old, slice data offset block.length = some old) ∧ data'.length = data.length ∧
      ∀ o, data'[o]? =
        if offset ≤ o ∧ o < offset + block.length then block[o - offset]? else data[o]? := by
  obtain ⟨old, hold, rfl⟩ := Option.map_eq_some_iff.mp h
  rcases Nat.eq_zero_or_pos block.length with hzero | hpos
  · obtain rfl := List.eq_nil_of_length_eq_zero hzero
    have hself : data.take offset ++ [] ++ data.drop (offset + ([] : Bytes).length) = data := by simp
    rw [hself]
    refine ⟨⟨old, hold⟩, rfl, fun o => ?_⟩
    rw [if_neg]
    simp only [List.length_nil]
    omega
  · have hle := slice_le hpos hold
    have htake : (data.take offset).length = offset := by
      rw [List.length_take]
      omega
    refine ⟨⟨old, hold⟩, ?_, fun o => ?_⟩
    · simp only [List.length_append, htake, List.length_drop]
      omega
    · by_cases hlow : offset ≤ o
      · by_cases hhigh : o < offset + block.length
        · rw [if_pos ⟨hlow, hhigh⟩, List.getElem?_append_left (by simp [htake]; omega),
            List.getElem?_append_right (by omega), htake]
        · rw [if_neg (fun hin => hhigh hin.2), List.getElem?_append_right (by simp [htake]; omega),
            List.getElem?_drop, List.length_append, htake]
          congr 1
          omega
      · rw [if_neg (fun hin => hlow hin.1), List.append_assoc,
          List.getElem?_append_left (by omega), List.getElem?_take_of_lt (by omega)]

theorem patch_isSome {data : Bytes} {offset : Nat} {block : Bytes}
    (hle : offset + block.length ≤ data.length) : ∃ data', patch data offset block = some data' := by
  obtain ⟨old, hold⟩ := slice_isSome hle
  exact ⟨_, by rw [patch, hold]; rfl⟩

theorem patch_length {data data' block : Bytes} {offset : Nat}
    (h : patch data offset block = some data') : data'.length = data.length :=
  (patch_eq_some h).2.1

/-- A patch leaves every byte outside its block. -/
theorem patch_outside {data data' block : Bytes} {offset o : Nat}
    (h : patch data offset block = some data') (ho : ¬(offset ≤ o ∧ o < offset + block.length)) :
    data'[o]? = data[o]? := by
  rw [(patch_eq_some h).2.2, if_neg ho]

/-- A patch replaces a field of a record. -/
theorem patch_of_eq {data block : Bytes} {offset : Nat} (before old after : Bytes)
    (hdata : data = before ++ old ++ after) (hbefore : before.length = offset)
    (hblock : old.length = block.length) :
    patch data offset block = some (before ++ block ++ after) := by
  subst hdata hbefore
  rw [patch, ← hblock, slice_append, Option.map_some]
  simp

/-- The block reads back. -/
theorem slice_patch {data data' block : Bytes} {offset : Nat}
    (h : patch data offset block = some data') : slice data' offset block.length = some block := by
  refine slice_eq_some.mpr ⟨rfl, fun j hj => ?_⟩
  rw [(patch_eq_some h).2.2, if_pos (by omega), Nat.add_sub_cancel_left]

/-- Slices that miss the block read what they did. -/
theorem slice_patch_of_disjoint {data data' block : Bytes} {offset offset' len : Nat}
    (h : patch data offset block = some data')
    (hdisjoint : offset' + len ≤ offset ∨ offset + block.length ≤ offset') :
    slice data' offset' len = slice data offset' len := by
  apply slice_congr
  intro o hlow hhigh
  apply patch_outside h
  omega

/-! ### Resizing -/

theorem resize_length (data : Bytes) (len : Nat) : (resize data len).length = len := by
  simp only [resize, List.length_append, List.length_take, List.length_replicate]
  omega

/-- Growing keeps the bytes that were there. -/
theorem resize_getElem? {data : Bytes} {len o : Nat} (hle : data.length ≤ len)
    (ho : o < data.length) : (resize data len)[o]? = data[o]? := by
  rw [resize, List.take_of_length_le hle, List.getElem?_append_left ho]

/-! ### Little-endian words -/

/-- The `n` low bytes of a number, least significant first. -/
def ofWord : Nat → Nat → Bytes
  | 0, _ => []
  | n + 1, word => UInt8.ofNat (word % 256) :: ofWord n (word / 256)

def toWord : Bytes → Nat
  | [] => 0
  | byte :: bytes => byte.toNat + 256 * toWord bytes

@[simp] theorem ofWord_length (n word : Nat) : (ofWord n word).length = n := by
  induction n generalizing word with
  | zero => rfl
  | succ n ih => simp [ofWord, ih]

theorem toWord_lt (bytes : Bytes) : toWord bytes < 256 ^ bytes.length := by
  induction bytes with
  | nil => simp [toWord]
  | cons byte bytes ih =>
      have hbyte : byte.toNat < 256 := byte.toNat_lt
      rw [toWord, List.length_cons, Nat.pow_succ]
      omega

/-- A word of `n` bytes reads back up to its width. -/
theorem toWord_ofWord (n word : Nat) : toWord (ofWord n word) = word % 256 ^ n := by
  induction n generalizing word with
  | zero => simp [ofWord, toWord, Nat.mod_one]
  | succ n ih =>
      have hbyte : (UInt8.ofNat (word % 256)).toNat = word % 256 := by
        rw [UInt8.toNat_ofNat']
        omega
      rw [ofWord, toWord, hbyte, ih, Nat.pow_succ, Nat.mul_comm (256 ^ n) 256, Nat.mod_mul]

/-- Bytes are the word that they read as. -/
theorem ofWord_toWord (bytes : Bytes) : ofWord bytes.length (toWord bytes) = bytes := by
  induction bytes with
  | nil => rfl
  | cons byte bytes ih =>
      have hbyte : byte.toNat < 256 := byte.toNat_lt
      have hlow : (byte.toNat + 256 * toWord bytes) % 256 = byte.toNat := by omega
      have hhigh : (byte.toNat + 256 * toWord bytes) / 256 = toWord bytes := by omega
      rw [List.length_cons, toWord, ofWord, hlow, hhigh, ih, UInt8.ofNat_toNat]

/-! ### UTF-8 -/

/-- A continuation byte between two bounds. -/
def isContinuation (low high byte : UInt8) : Bool := decide (low ≤ byte) && decide (byte ≤ high)

/-- Well-formed UTF-8, from the ranges of the lead byte and of the byte after it. -/
def validUtf8 : Bytes → Bool
  | [] => true
  | a :: rest =>
      if a ≤ 0x7f then validUtf8 rest
      else match rest with
        | [] => false
        | b :: rest =>
            if 0xc2 ≤ a ∧ a ≤ 0xdf then isContinuation 0x80 0xbf b && validUtf8 rest
            else match rest with
              | [] => false
              | c :: rest =>
                  if 0xe0 ≤ a ∧ a ≤ 0xef then
                    isContinuation (if a = 0xe0 then 0xa0 else 0x80) (if a = 0xed then 0x9f else 0xbf) b
                      && isContinuation 0x80 0xbf c && validUtf8 rest
                  else match rest with
                    | [] => false
                    | d :: rest =>
                        decide (0xf0 ≤ a ∧ a ≤ 0xf4)
                          && isContinuation (if a = 0xf0 then 0x90 else 0x80)
                            (if a = 0xf4 then 0x8f else 0xbf) b
                          && isContinuation 0x80 0xbf c && isContinuation 0x80 0xbf d && validUtf8 rest

/-! A string cut at its first zero. -/

theorem isContinuation_ne_zero {low high byte : UInt8} (hlow : 0 < low) (h : isContinuation low high byte = true) :
    byte ≠ 0 := by
  simp only [isContinuation, Bool.and_eq_true, decide_eq_true_eq] at h
  rintro rfl
  exact absurd h.1 (UInt8.not_le.mpr hlow)

theorem takeWhile_nonzero_cons {byte : UInt8} {bytes : Bytes} (h : byte ≠ 0) :
    (byte :: bytes).takeWhile (· ≠ 0) = byte :: bytes.takeWhile (· ≠ 0) :=
  List.takeWhile_cons_of_pos (decide_eq_true h)

/-- A well-formed string stays well formed when it is cut at its first zero. -/
theorem validUtf8_takeWhile {bytes : Bytes} (h : validUtf8 bytes = true) :
    validUtf8 (bytes.takeWhile (· ≠ 0)) = true := by
  have hlead : ∀ {byte : UInt8}, ¬byte ≤ 0x7f → byte ≠ 0 := by
    rintro _ hle rfl
    exact hle (by decide)
  fun_induction validUtf8 bytes with
  | case1 => rfl
  | case2 a rest hle ih =>
      by_cases hzero : a = 0
      · rw [List.takeWhile_cons_of_neg (by simp [hzero])]
        rfl
      · rw [takeWhile_nonzero_cons hzero, validUtf8.eq_def]
        dsimp only
        rw [if_pos hle]
        exact ih h
  | case4 a hle b rest hrange ih =>
      rw [Bool.and_eq_true] at h
      have hb : b ≠ 0 := isContinuation_ne_zero (by decide) h.1
      rw [takeWhile_nonzero_cons (hlead hle), takeWhile_nonzero_cons hb, validUtf8.eq_def]
      dsimp only
      rw [if_neg hle, if_pos hrange, h.1, ih h.2]
      rfl
  | case6 a hle b hnot c rest hrange ih =>
      simp only [Bool.and_eq_true] at h
      obtain ⟨⟨hb, hc⟩, hrest⟩ := h
      have hb' : b ≠ 0 := isContinuation_ne_zero (by split <;> decide) hb
      have hc' : c ≠ 0 := isContinuation_ne_zero (by decide) hc
      rw [takeWhile_nonzero_cons (hlead hle), takeWhile_nonzero_cons hb', takeWhile_nonzero_cons hc',
        validUtf8.eq_def]
      dsimp only
      rw [if_neg hle, if_neg hnot, if_pos hrange, hb, hc, ih hrest]
      rfl
  | case8 a hle b hnot c hnot' d rest ih =>
      simp only [Bool.and_eq_true] at h
      obtain ⟨⟨⟨⟨ha, hb⟩, hc⟩, hd⟩, hrest⟩ := h
      have hb' : b ≠ 0 := isContinuation_ne_zero (by split <;> decide) hb
      have hc' : c ≠ 0 := isContinuation_ne_zero (by decide) hc
      have hd' : d ≠ 0 := isContinuation_ne_zero (by decide) hd
      rw [takeWhile_nonzero_cons (hlead hle), takeWhile_nonzero_cons hb', takeWhile_nonzero_cons hc',
        takeWhile_nonzero_cons hd', validUtf8.eq_def]
      dsimp only
      rw [if_neg hle, if_neg hnot, if_neg hnot', ha, hb, hc, hd, ih hrest]
      rfl
  | _ => cases h

end Bytes

/-- A string of the source language: bytes that are well-formed UTF-8. -/
structure Utf8String where
  bytes : Bytes
  valid : Bytes.validUtf8 bytes = true
  deriving DecidableEq

def Utf8String.fromUtf8 (bytes : Bytes) : Option Utf8String :=
  if h : Bytes.validUtf8 bytes = true then some ⟨bytes, h⟩ else none

theorem Utf8String.fromUtf8_bytes (string : Utf8String) : fromUtf8 string.bytes = some string :=
  dif_pos string.valid

end Chainring

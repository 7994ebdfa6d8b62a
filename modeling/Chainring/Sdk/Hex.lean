import Chainring.Arch.Program

/-! Hexadecimal text. What is written is in lower case, and a text is what its bytes are written as exactly when it is
in lower case as well. -/

namespace Chainring.Sdk

open Arch (hexDigit hexDecode)

/-- The character of a digit. -/
def hexChar (digit : UInt8) : UInt8 := if digit < 10 then 0x30 + digit else 0x57 + digit

def hexEncode (bytes : Bytes) : Bytes := bytes.flatMap fun byte => [hexChar (byte / 16), hexChar (byte % 16)]

/-- The digits that are written. -/
def IsLowerHex (text : Bytes) : Prop :=
  ∀ char ∈ text, (0x30 ≤ char ∧ char ≤ 0x39) ∨ (0x61 ≤ char ∧ char ≤ 0x66)

theorem hexEncode_cons (byte : UInt8) (bytes : Bytes) :
    hexEncode (byte :: bytes) = hexChar (byte / 16) :: hexChar (byte % 16) :: hexEncode bytes := rfl

theorem hexEncode_length (bytes : Bytes) : (hexEncode bytes).length = 2 * bytes.length := by
  induction bytes with
  | nil => rfl
  | cons byte bytes ih =>
      rw [hexEncode_cons, List.length_cons, List.length_cons, List.length_cons, ih]
      omega

/-- What holds of the 256 bytes holds of every byte. -/
theorem forall_byte {P : UInt8 → Prop} (h : ∀ n, n < 256 → P (UInt8.ofNat n)) (byte : UInt8) : P byte := by
  have hbyte := h byte.toNat byte.toNat_lt
  rwa [UInt8.ofNat_toNat] at hbyte

theorem hexDigit_hexChar : ∀ digit : UInt8, digit < 16 → hexDigit (hexChar digit) = some digit :=
  forall_byte (by decide +kernel)

theorem hexChar_lower : ∀ digit : UInt8, digit < 16 →
    (0x30 ≤ hexChar digit ∧ hexChar digit ≤ 0x39) ∨ (0x61 ≤ hexChar digit ∧ hexChar digit ≤ 0x66) :=
  forall_byte (by decide +kernel)

/-- A lower-case digit is the character of the digit that it is read as. -/
theorem hexChar_of_hexDigit : ∀ char : UInt8, (0x30 ≤ char ∧ char ≤ 0x39) ∨ (0x61 ≤ char ∧ char ≤ 0x66) →
    ∀ digit ∈ hexDigit char, digit < 16 ∧ hexChar digit = char :=
  forall_byte (by decide +kernel)

theorem byte_digits (byte : UInt8) :
    byte / 16 < 16 ∧ byte % 16 < 16 ∧ byte / 16 * 16 + byte % 16 = byte := by
  revert byte
  exact forall_byte (by decide +kernel)

theorem digits_byte (high low : UInt8) (hhigh : high < 16) (hlow : low < 16) :
    (high * 16 + low) / 16 = high ∧ (high * 16 + low) % 16 = low := by
  have hhigh' : high.toNat < 16 := UInt8.lt_iff_toNat_lt.mp hhigh
  have hlow' : low.toNat < 16 := UInt8.lt_iff_toNat_lt.mp hlow
  have htoNat : (high * 16 + low).toNat = high.toNat * 16 + low.toNat := by
    rw [UInt8.toNat_add, UInt8.toNat_mul]
    show (high.toNat * 16 % 256 + low.toNat) % 256 = _
    omega
  constructor
  · apply UInt8.toNat_inj.mp
    rw [UInt8.toNat_div, htoNat]
    show (high.toNat * 16 + low.toNat) / 16 = _
    omega
  · apply UInt8.toNat_inj.mp
    rw [UInt8.toNat_mod, htoNat]
    show (high.toNat * 16 + low.toNat) % 16 = _
    omega

/-- What is written is read back. -/
theorem hexDecode_hexEncode (bytes : Bytes) : hexDecode (hexEncode bytes) = some bytes := by
  induction bytes with
  | nil => rfl
  | cons byte bytes ih =>
      obtain ⟨hhigh, hlow, hbyte⟩ := byte_digits byte
      rw [hexEncode_cons, hexDecode, hexDigit_hexChar _ hhigh, hexDigit_hexChar _ hlow, ih]
      show some ((byte / 16 * 16 + byte % 16) :: bytes) = _
      rw [hbyte]

theorem hexEncode_injective {bytes bytes' : Bytes} (h : hexEncode bytes = hexEncode bytes') : bytes = bytes' := by
  have hdecode := hexDecode_hexEncode bytes
  rw [h, hexDecode_hexEncode] at hdecode
  exact (Option.some.inj hdecode).symm

theorem hexEncode_lower (bytes : Bytes) : IsLowerHex (hexEncode bytes) := by
  intro char hchar
  obtain ⟨byte, -, hpair⟩ := List.mem_flatMap.mp hchar
  obtain ⟨hhigh, hlow, -⟩ := byte_digits byte
  rcases List.mem_pair.mp hpair with rfl | rfl
  · exact hexChar_lower _ hhigh
  · exact hexChar_lower _ hlow

/-- A text that is read as some bytes is what they are written as exactly when it is in lower case. -/
theorem hexEncode_hexDecode_iff {text bytes : Bytes} (h : hexDecode text = some bytes) :
    hexEncode bytes = text ↔ IsLowerHex text := by
  refine ⟨fun heq => heq ▸ hexEncode_lower bytes, fun hlower => ?_⟩
  fun_induction hexDecode text generalizing bytes with
  | case1 =>
      cases h
      rfl
  | case2 char => cases h
  | case3 high low rest ih =>
      obtain ⟨hhigh, hlower⟩ := List.forall_mem_cons.mp hlower
      obtain ⟨hlow, hrest⟩ := List.forall_mem_cons.mp hlower
      simp only [Option.bind_eq_bind, Option.bind_eq_some_iff] at h
      obtain ⟨highDigit, hhighDigit, lowDigit, hlowDigit, bytes', hbytes, hcons⟩ := h
      cases hcons
      obtain ⟨hhighLt, hhighChar⟩ := hexChar_of_hexDigit high hhigh highDigit hhighDigit
      obtain ⟨hlowLt, hlowChar⟩ := hexChar_of_hexDigit low hlow lowDigit hlowDigit
      obtain ⟨hdiv, hmod⟩ := digits_byte highDigit lowDigit hhighLt hlowLt
      rw [hexEncode_cons, hdiv, hmod, hhighChar, hlowChar, ih hbytes hrest]

/-! ### Strings -/

theorem validUtf8_lowerHex {text : Bytes} (h : IsLowerHex text) : Bytes.validUtf8 text = true := by
  induction text with
  | nil => rfl
  | cons char text ih =>
      obtain ⟨hchar, htext⟩ := List.forall_mem_cons.mp h
      have hascii : char ≤ 0x7f := by
        rcases hchar with ⟨-, hhigh⟩ | ⟨-, hhigh⟩
        · exact UInt8.le_trans hhigh (by decide)
        · exact UInt8.le_trans hhigh (by decide)
      rw [Bytes.validUtf8.eq_def]
      dsimp only
      rw [if_pos hascii]
      exact ih htext

def hexString (bytes : Bytes) : Utf8String := ⟨hexEncode bytes, validUtf8_lowerHex (hexEncode_lower bytes)⟩

/-- The strings that 32 bytes are written as: 64 digits, in lower case. -/
def IsHash (string : Utf8String) : Prop := IsLowerHex string.bytes ∧ string.bytes.length = 64

theorem isHash_hexString {bytes : Bytes} (h : bytes.length = 32) : IsHash (hexString bytes) := by
  refine ⟨hexEncode_lower bytes, ?_⟩
  show (hexEncode bytes).length = 64
  rw [hexEncode_length, h]

theorem hexDigit_lower : ∀ char : UInt8, (0x30 ≤ char ∧ char ≤ 0x39) ∨ (0x61 ≤ char ∧ char ≤ 0x66) →
    ((hexDigit char).isSome = true) :=
  forall_byte (by decide +kernel)

/-- A text in lower case of even length is read. -/
theorem hexDecode_lower {n : Nat} {text : Bytes} (h : IsLowerHex text) (hlength : text.length = 2 * n) :
    ∃ bytes : FixedBytes n, hexDecode text = some bytes.1 := by
  induction n generalizing text with
  | zero =>
      obtain rfl := List.eq_nil_of_length_eq_zero hlength
      exact ⟨⟨[], rfl⟩, rfl⟩
  | succ n ih =>
      obtain ⟨high, text, rfl⟩ := List.exists_cons_of_length_eq_add_one (n := 2 * n + 1) (by omega)
      obtain ⟨low, text, rfl⟩ := List.exists_cons_of_length_eq_add_one (n := 2 * n) (Nat.succ.inj hlength)
      obtain ⟨hhigh, h⟩ := List.forall_mem_cons.mp h
      obtain ⟨hlow, h⟩ := List.forall_mem_cons.mp h
      obtain ⟨highDigit, hhighDigit⟩ := Option.isSome_iff_exists.mp (hexDigit_lower high hhigh)
      obtain ⟨lowDigit, hlowDigit⟩ := Option.isSome_iff_exists.mp (hexDigit_lower low hlow)
      obtain ⟨bytes, hbytes⟩ := ih h (Nat.succ.inj (Nat.succ.inj hlength))
      have hcons : ((highDigit * 16 + lowDigit) :: bytes.1).length = n + 1 := congrArg (· + 1) bytes.2
      refine ⟨⟨(highDigit * 16 + lowDigit) :: bytes.1, hcons⟩, ?_⟩
      rw [hexDecode, hhighDigit, hlowDigit, hbytes]
      rfl

/-- A string is a hash exactly when 32 bytes are written as it. -/
theorem isHash_iff {string : Utf8String} :
    IsHash string ↔ ∃ hash : FixedBytes 32, hexDecode string.bytes = some hash.1 ∧ hexString hash.1 = string := by
  constructor
  · rintro ⟨hlower, hlength⟩
    obtain ⟨hash, hdecode⟩ := hexDecode_lower (n := 32) hlower hlength
    refine ⟨hash, hdecode, ?_⟩
    have htext := (hexEncode_hexDecode_iff hdecode).mpr hlower
    obtain ⟨bytes, hvalid⟩ := string
    subst htext
    rfl
  · rintro ⟨hash, -, rfl⟩
    exact isHash_hexString hash.2

end Chainring.Sdk

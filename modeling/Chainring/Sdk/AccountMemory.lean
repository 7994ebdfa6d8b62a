import Chainring.Sdk.InputBuffer
import Mathlib.Data.List.Find

/-! What a program does through the pointers of its call is what it does to accounts by their keys. The accounts lie
apart, with room for the data that a call may add, so a change of one is seen in no other. Where added data is zeroed,
what the room holds does not matter. -/

namespace Chainring.Sdk

open Arch (Account AccountInfo Memory Prog Pubkey ProgramError UtxoMeta maxPermittedDataIncrease accountAt)
open Bytes (ofWord toWord ofWord_length toWord_ofWord)
open Exec (Simulates)
open Region (readBytes_append readBytes_congr readBytes_drop readBytes_length readBytes_take readBytes_writeBytes
  readBytes_writeBytes_of_disjoint patch_readBytes writeBytes_outside)

/-! ### Where the accounts are -/

/-- The parts of an account in a row: its key, its lengths, its data with room to grow, its owner and its utxo. -/
structure Placed (region : Region) (account : AccountPointers) : Prop where
  data : account.data = account.key + 48
  room : account.data + readU64 region (account.key + 40) + maxPermittedDataIncrease ≤ account.owner
  utxo : account.utxo = account.owner + 32

/-- Two accounts are one, or they do not overlap. -/
def Apart (account other : AccountPointers) : Prop :=
  account = other ∨ account.utxo + 36 ≤ other.key ∨ other.utxo + 36 ≤ account.key

theorem deserializeAccount_placed (region : Region) (offset : Nat) :
    Placed region (deserializeAccount region offset) :=
  ⟨rfl, Nat.le_add_right _ _, rfl⟩

/-- The accounts that were read are placed before the offset, apart from each other. -/
structure Arranged (region : Region) (offset : Nat) (accounts : List AccountPointers) : Prop where
  placed : ∀ account ∈ accounts, Placed region account ∧ account.utxo + 36 ≤ offset
  apart : ∀ account ∈ accounts, ∀ other ∈ accounts, Apart account other

theorem Arranged.mono {region : Region} {offset offset' : Nat} {accounts : List AccountPointers}
    (h : Arranged region offset accounts) (hle : offset ≤ offset') : Arranged region offset' accounts :=
  ⟨fun account hmem => ⟨(h.placed account hmem).1, Nat.le_trans (h.placed account hmem).2 hle⟩, h.apart⟩

theorem Arranged.duplicate {region : Region} {offset : Nat} {accounts : List AccountPointers}
    (h : Arranged region offset accounts) {account : AccountPointers} (hmem : account ∈ accounts) :
    Arranged region offset (accounts ++ [account]) := by
  have hsub : ∀ other ∈ accounts ++ [account], other ∈ accounts := by
    intro other hother
    rcases List.mem_append.mp hother with hother | hother
    · exact hother
    · rw [List.mem_singleton.mp hother]
      exact hmem
  exact ⟨fun other hother => h.placed other (hsub other hother),
    fun other hother other' hother' => h.apart other (hsub other hother) other' (hsub other' hother')⟩

theorem Arranged.add {region : Region} {offset : Nat} {accounts : List AccountPointers}
    (h : Arranged region offset accounts) {account : AccountPointers} (hplaced : Placed region account)
    (hkey : offset ≤ account.key) : Arranged region (account.utxo + 36) (accounts ++ [account]) := by
  have hroom := hplaced.room
  have hdata := hplaced.data
  have hutxo := hplaced.utxo
  have hnew : ∀ other ∈ accounts, other.utxo + 36 ≤ account.key := fun other hother =>
    Nat.le_trans (h.placed other hother).2 hkey
  constructor
  · intro other hother
    rcases List.mem_append.mp hother with hother | hother
    · exact ⟨(h.placed other hother).1, Nat.le_trans (hnew other hother) (by omega)⟩
    · rw [List.mem_singleton.mp hother]
      exact ⟨hplaced, Nat.le_refl _⟩
  · intro other hother other' hother'
    rcases List.mem_append.mp hother with hother | hother <;> rcases List.mem_append.mp hother' with hother' | hother'
    · exact h.apart other hother other' hother'
    · rw [List.mem_singleton.mp hother']
      exact Or.inr (Or.inl (hnew other hother))
    · rw [List.mem_singleton.mp hother]
      exact Or.inr (Or.inr (hnew other' hother'))
    · rw [List.mem_singleton.mp hother, List.mem_singleton.mp hother']
      exact Or.inl rfl

theorem deserializeAccount_key (region : Region) (offset : Nat) :
    (deserializeAccount region offset).key = offset + 7 := rfl

theorem deserializeAccounts_arranged {region : Region} {count offset offset' : Nat}
    {accounts accounts' : List AccountPointers}
    (h : deserializeAccounts region count offset accounts = some (offset', accounts'))
    (harranged : Arranged region offset accounts) : Arranged region offset' accounts' := by
  induction count generalizing offset accounts with
  | zero =>
      obtain ⟨rfl, rfl⟩ := Prod.mk.inj (Option.some.inj h)
      exact harranged
  | succ count ih =>
      have hkey : offset ≤ (deserializeAccount region (offset + 1)).key := by
        rw [deserializeAccount_key]
        omega
      have hadd := harranged.add (deserializeAccount_placed region (offset + 1)) hkey
      rw [deserializeAccounts] at h
      generalize deserializeAccount region (offset + 1) = account at h hadd
      by_cases hdup : region offset = nonDupMarker
      · rw [if_pos hdup] at h
        exact ih h (hadd.mono (Nat.le_add_right _ _))
      · rw [if_neg hdup] at h
        cases hother : accounts[(region offset).toNat]? with
        | none =>
            rw [hother] at h
            cases h
        | some other =>
            rw [hother] at h
            exact ih h ((harranged.duplicate (List.mem_of_getElem? hother)).mono (Nat.le_add_right _ _))

theorem deserialize_arranged {region : Region} {input : Input} (h : deserialize region = some input) :
    ∃ offset, Arranged region offset input.accounts := by
  rw [deserialize] at h
  obtain ⟨⟨offset, accounts⟩, haccounts, hinput⟩ := Option.bind_eq_some_iff.mp h
  obtain rfl := Option.some.inj hinput
  refine ⟨offset, deserializeAccounts_arranged haccounts ⟨?_, ?_⟩⟩
  · exact fun account hmem => absurd hmem List.not_mem_nil
  · exact fun account hmem => absurd hmem List.not_mem_nil

/-! ### Good buffers -/

/-- The data of an account has room for the most that a call may add, and its length is the one that is serialized
before it. -/
structure Sound (buffer : Buffer) (account : AccountPointers) : Prop where
  data : account.data = account.key + 48
  room : account.data + account.originalDataLen buffer + maxPermittedDataIncrease ≤ account.owner
  utxo : account.utxo = account.owner + 32
  bounded : buffer.lens account.data ≤ account.originalDataLen buffer + maxPermittedDataIncrease
  serialized : readU64 buffer.region (account.data - 8) = buffer.lens account.data

/-- The accounts of a call: sound, apart, and known by their keys. -/
structure Buffer.Good (accounts : List AccountPointers) (buffer : Buffer) : Prop where
  sound : ∀ account ∈ accounts, Sound buffer account
  apart : ∀ account ∈ accounts, ∀ other ∈ accounts, Apart account other
  distinct : ∀ account ∈ accounts, ∀ other ∈ accounts,
    account.keyAt buffer.region = other.keyAt buffer.region → account = other

/-- What the loader sees to: an account that is listed again is marked as a duplicate, and the length of the data is
written twice. -/
structure Loaded (region : Region) (accounts : List AccountPointers) : Prop where
  distinct : ∀ account ∈ accounts, ∀ other ∈ accounts, account.keyAt region = other.keyAt region → account = other
  originalDataLen : ∀ account ∈ accounts, readU64 region (account.key + 32) = readU64 region (account.key + 40)

theorem start_good {region : Region} {input : Input} (h : deserialize region = some input)
    (hloaded : Loaded region input.accounts) : (Buffer.start region).Good input.accounts := by
  obtain ⟨offset, harranged⟩ := deserialize_arranged h
  refine ⟨fun account hmem => ?_, harranged.apart, hloaded.distinct⟩
  have hplaced := (harranged.placed account hmem).1
  have horiginal := hloaded.originalDataLen account hmem
  have hdata : account.data - 8 = account.key + 40 := by
    rw [hplaced.data]
    omega
  have hroom := hplaced.room
  refine ⟨hplaced.data, ?_, hplaced.utxo, ?_, rfl⟩
  · show account.data + readU64 region (account.key + 32) + _ ≤ _
    rw [horiginal]
    exact hroom
  · show readU64 region (account.data - 8) ≤ readU64 region (account.key + 32) + _
    rw [hdata, horiginal]
    exact Nat.le_add_right _ _

/-- The bytes outside an account, its key and the length that it had at first stay, and so do the lengths of other
data. -/
structure Touches (account : AccountPointers) (buffer buffer' : Buffer) : Prop where
  region : ∀ address, address < account.key + 40 ∨ account.utxo + 36 ≤ address →
    buffer'.region address = buffer.region address
  lens : ∀ data, data ≠ account.data → buffer'.lens data = buffer.lens data

section Frame

variable {accounts : List AccountPointers} {buffer buffer' : Buffer} {account other : AccountPointers}

theorem Touches.originalDataLen (h : Touches account buffer buffer') :
    account.originalDataLen buffer' = account.originalDataLen buffer := by
  apply congrArg toWord
  apply readBytes_congr
  intro address _ hhigh
  exact h.region address (Or.inl (by omega))

theorem Touches.keyAt (h : Touches account buffer buffer') :
    account.keyAt buffer'.region = account.keyAt buffer.region := by
  apply readBytes_congr
  intro address _ hhigh
  exact h.region address (Or.inl (by omega))

/-- The account stays sound when its length stays bounded and is serialized. -/
theorem Touches.sound (h : Touches account buffer buffer') (hsound : Sound buffer account)
    (hbounded : buffer'.lens account.data ≤ account.originalDataLen buffer + maxPermittedDataIncrease)
    (hserialized : readU64 buffer'.region (account.data - 8) = buffer'.lens account.data) : Sound buffer' account := by
  have hroom := hsound.room
  rw [← h.originalDataLen] at hroom hbounded
  exact ⟨hsound.data, hroom, hsound.utxo, hbounded, hserialized⟩

/-- The bytes of another account stay. -/
theorem Touches.elsewhere (h : Touches account buffer buffer') (hgood : buffer.Good accounts) (hmem : account ∈ accounts)
    (hother : other ∈ accounts) (hne : other ≠ account) :
    buffer'.lens other.data = buffer.lens other.data ∧
      ∀ address, other.key ≤ address → address < other.utxo + 36 → buffer'.region address = buffer.region address := by
  have hsound := hgood.sound account hmem
  have hsound' := hgood.sound other hother
  have hdata := hsound.data
  have hdata' := hsound'.data
  have hroom := hsound.room
  have hroom' := hsound'.room
  have hutxo := hsound.utxo
  have hutxo' := hsound'.utxo
  have hapart : account.utxo + 36 ≤ other.key ∨ other.utxo + 36 ≤ account.key :=
    (hgood.apart account hmem other hother).resolve_left (Ne.symm hne)
  constructor
  · apply h.lens
    omega
  · intro address hlow hhigh
    apply h.region
    omega

/-- Another account stays what it was. -/
theorem Touches.keepsOther (h : Touches account buffer buffer') (hgood : buffer.Good accounts) (hmem : account ∈ accounts)
    (hother : other ∈ accounts) (hne : other ≠ account) :
    other.room buffer' = other.room buffer ∧ Sound buffer' other ∧
      other.keyAt buffer'.region = other.keyAt buffer.region := by
  obtain ⟨hlens, hbytes⟩ := h.elsewhere hgood hmem hother hne
  have hsound := hgood.sound other hother
  have hdata := hsound.data
  have hroom := hsound.room
  have hutxo := hsound.utxo
  have hbounded := hsound.bounded
  have hread : ∀ address len, other.key ≤ address → address + len ≤ other.utxo + 36 →
      buffer'.region.readBytes address len = buffer.region.readBytes address len := by
    intro address len hlow hhigh
    apply readBytes_congr
    intro at' hlow' hhigh'
    exact hbytes at' (by omega) (by omega)
  have horiginal : other.originalDataLen buffer' = other.originalDataLen buffer :=
    congrArg toWord (hread _ _ (by omega) (by omega))
  have hkey : other.keyAt buffer'.region = other.keyAt buffer.region := hread _ _ (Nat.le_refl _) (by omega)
  refine ⟨?_, ⟨hdata, by rw [horiginal]; exact hroom, hutxo, by rw [hlens, horiginal]; exact hbounded, ?_⟩, hkey⟩
  · have hbytes' := hread other.data (buffer.lens other.data) (by omega) (by omega)
    have hspare := hread (other.data + buffer.lens other.data)
      (other.originalDataLen buffer + maxPermittedDataIncrease - buffer.lens other.data) (by omega) (by omega)
    have hutxo' : blockAt buffer'.region other.utxo 36 = blockAt buffer.region other.utxo 36 :=
      Subtype.ext (hread _ _ (by omega) (by omega))
    rw [AccountPointers.room, AccountPointers.room, AccountPointers.view, AccountPointers.view, hlens, horiginal, hbytes',
      hspare, hutxo']
  · rw [hlens, ← hsound.serialized]
    exact congrArg toWord (hread _ _ (by omega) (by omega))

/-- Every account keeps its key. -/
theorem Touches.keys (h : Touches account buffer buffer') (hgood : buffer.Good accounts) (hmem : account ∈ accounts) :
    ∀ other ∈ accounts, other.keyAt buffer'.region = other.keyAt buffer.region := by
  intro other hother
  by_cases hne : other = account
  · rw [hne]
    exact h.keyAt
  · exact (h.keepsOther hgood hmem hother hne).2.2

/-- A change of one account keeps the accounts good when that account stays sound. -/
theorem Touches.good (h : Touches account buffer buffer') (hgood : buffer.Good accounts) (hmem : account ∈ accounts)
    (hsound : Sound buffer' account) : buffer'.Good accounts := by
  have hkey := h.keys hgood hmem
  refine ⟨fun other hother => ?_, hgood.apart, fun other hother other' hother' heq => ?_⟩
  · by_cases hne : other = account
    · rw [hne]
      exact hsound
    · exact (h.keepsOther hgood hmem hother hne).2.1
  · rw [hkey other hother, hkey other' hother'] at heq
    exact hgood.distinct other hother other' hother' heq

/-- The room that a key is looked up as. -/
theorem rooms_of_mem (hgood : buffer.Good accounts) (hmem : account ∈ accounts) :
    buffer.rooms accounts (blockAt buffer.region account.key 32) = account.room buffer := by
  cases hfind : accounts.find? fun other => other.keyAt buffer.region = (blockAt buffer.region account.key 32).1 with
  | none =>
      have hnone := List.find?_eq_none.mp hfind account hmem
      exact absurd (decide_eq_true rfl) hnone
  | some found =>
      have hkey : found.keyAt buffer.region = (blockAt buffer.region account.key 32).1 := by
        simpa using List.find?_some hfind
      have heq := hgood.distinct found (List.mem_of_find?_eq_some hfind) account hmem hkey
      rw [Buffer.rooms, hfind, heq]
      rfl

/-- A change of one account is a change of the room at its key. -/
theorem Touches.rooms (h : Touches account buffer buffer') (hgood : buffer.Good accounts) (hmem : account ∈ accounts)
    (hsound : Sound buffer' account) :
    buffer'.rooms accounts =
      Function.update (buffer.rooms accounts) (blockAt buffer.region account.key 32) (account.room buffer') := by
  have hgood' := h.good hgood hmem hsound
  have hkeyAt : blockAt buffer'.region account.key 32 = blockAt buffer.region account.key 32 := Subtype.ext h.keyAt
  have hkey := h.keys hgood hmem
  funext key
  by_cases hat : key = blockAt buffer.region account.key 32
  · rw [hat, Function.update_self, ← hkeyAt, rooms_of_mem hgood' hmem]
  · rw [Function.update_of_ne hat, Buffer.rooms, Buffer.rooms]
    have hfind : (accounts.find? fun other => other.keyAt buffer'.region = key.1) =
        accounts.find? fun other => other.keyAt buffer.region = key.1 := by
      apply List.find?_congr
      intro other hother
      rw [hkey other hother]
    rw [hfind]
    cases hfound : accounts.find? fun other => other.keyAt buffer.region = key.1 with
    | none => rfl
    | some found =>
        have hfoundKey : found.keyAt buffer.region = key.1 := by simpa using List.find?_some hfound
        have hne : found ≠ account := by
          rintro rfl
          exact hat (Subtype.ext hfoundKey.symm)
        exact (h.keepsOther hgood hmem (List.mem_of_find?_eq_some hfound) hne).1

end Frame

/-! ### Each operation -/

section Operations

variable {region : Region} {accounts : List AccountPointers} {account : AccountPointers}

/-- The accounts are good and have the keys that they had at first. -/
structure GoodFrom (region : Region) (accounts : List AccountPointers) (buffer : Buffer) : Prop where
  good : buffer.Good accounts
  keys : ∀ account ∈ accounts, account.keyAt buffer.region = account.keyAt region

theorem GoodFrom.blockAt_key {buffer : Buffer} (h : GoodFrom region accounts buffer) (hmem : account ∈ accounts) :
    blockAt buffer.region account.key 32 = (account.info region).key := Subtype.ext (h.keys account hmem)

theorem Touches.goodFrom {buffer buffer' : Buffer} (h : Touches account buffer buffer')
    (hgood : GoodFrom region accounts buffer) (hmem : account ∈ accounts) (hsound : Sound buffer' account) :
    GoodFrom region accounts buffer' := by
  refine ⟨h.good hgood.good hmem hsound, fun other hother => ?_⟩
  rw [← hgood.keys other hother]
  exact h.keys hgood.good hmem other hother

/-- Bytes that are written inside an account, past the length that it had at first. -/
theorem touches_writeBytes (buffer : Buffer) {address : Nat} {block : Bytes} (hlow : account.key + 40 ≤ address)
    (hhigh : address + block.length ≤ account.utxo + 36) :
    Touches account buffer { buffer with region := buffer.region.writeBytes address block } :=
  ⟨fun other hother => writeBytes_outside (by omega), fun _ _ => rfl⟩

section Write

variable {buffer : Buffer} {offset : Nat} {block : Bytes}

theorem touches_write (hsound : Sound buffer account) (hle : offset + block.length ≤ buffer.lens account.data) :
    Touches account buffer { buffer with region := buffer.region.writeBytes (account.data + offset) block } := by
  have hdata := hsound.data
  have hroom := hsound.room
  have hutxo := hsound.utxo
  have hbounded := hsound.bounded
  exact touches_writeBytes buffer (by omega) (by omega)

theorem sound_write (hsound : Sound buffer account) (hle : offset + block.length ≤ buffer.lens account.data) :
    Sound { buffer with region := buffer.region.writeBytes (account.data + offset) block } account := by
  have hdata := hsound.data
  apply (touches_write hsound hle).sound hsound hsound.bounded
  rw [← hsound.serialized]
  exact congrArg toWord (readBytes_writeBytes_of_disjoint (by omega))

theorem room_write (hsound : Sound buffer account) (hle : offset + block.length ≤ buffer.lens account.data) :
    ∃ data, Arch.writeBlock offset block (account.view buffer).data = .ok data ∧
      account.room { buffer with region := buffer.region.writeBytes (account.data + offset) block } =
        { account.room buffer with account := { account.view buffer with data } } := by
  have hroom := hsound.room
  have hutxo := hsound.utxo
  have hbounded := hsound.bounded
  refine ⟨_, Arch.writeBlock_eq_ok.mpr (patch_readBytes hle), ?_⟩
  have hblock : blockAt (buffer.region.writeBytes (account.data + offset) block) account.utxo 36 =
      blockAt buffer.region account.utxo 36 := Subtype.ext (readBytes_writeBytes_of_disjoint (by omega))
  have hspare : (buffer.region.writeBytes (account.data + offset) block).readBytes
      (account.data + buffer.lens account.data)
      (account.originalDataLen buffer + maxPermittedDataIncrease - buffer.lens account.data) =
      buffer.region.readBytes (account.data + buffer.lens account.data)
        (account.originalDataLen buffer + maxPermittedDataIncrease - buffer.lens account.data) :=
    readBytes_writeBytes_of_disjoint (by omega)
  simp only [AccountPointers.room, AccountPointers.view, (touches_write hsound hle).originalDataLen, hblock, hspare]

end Write

section Tail

variable {buffer : Buffer} {address : Nat} {block : Bytes}

/-- Bytes that are written after the room of the data. -/
theorem touches_tail (hsound : Sound buffer account) (hlow : account.owner ≤ address)
    (hhigh : address + block.length ≤ account.utxo + 36) :
    Touches account buffer { buffer with region := buffer.region.writeBytes address block } := by
  have hdata := hsound.data
  have hroom := hsound.room
  exact touches_writeBytes buffer (by omega) hhigh

theorem sound_tail (hsound : Sound buffer account) (hlow : account.owner ≤ address)
    (hhigh : address + block.length ≤ account.utxo + 36) :
    Sound { buffer with region := buffer.region.writeBytes address block } account := by
  have hdata := hsound.data
  have hroom := hsound.room
  apply (touches_tail hsound hlow hhigh).sound hsound hsound.bounded
  rw [← hsound.serialized]
  exact congrArg toWord (readBytes_writeBytes_of_disjoint (by omega))

theorem room_tail (hsound : Sound buffer account) (hlow : account.owner ≤ address)
    (hhigh : address + block.length ≤ account.utxo + 36) :
    account.room { buffer with region := buffer.region.writeBytes address block } =
      { account.room buffer with
        account :=
          { account.view buffer with utxo := blockAt (buffer.region.writeBytes address block) account.utxo 36 } } := by
  have hroom := hsound.room
  have hbounded := hsound.bounded
  have hbytes : (buffer.region.writeBytes address block).readBytes account.data (buffer.lens account.data) =
      buffer.region.readBytes account.data (buffer.lens account.data) :=
    readBytes_writeBytes_of_disjoint (by omega)
  have hspare : (buffer.region.writeBytes address block).readBytes (account.data + buffer.lens account.data)
      (account.originalDataLen buffer + maxPermittedDataIncrease - buffer.lens account.data) =
      buffer.region.readBytes (account.data + buffer.lens account.data)
        (account.originalDataLen buffer + maxPermittedDataIncrease - buffer.lens account.data) :=
    readBytes_writeBytes_of_disjoint (by omega)
  simp only [AccountPointers.room, AccountPointers.view, (touches_tail hsound hlow hhigh).originalDataLen, hbytes, hspare]

end Tail

section Realloc

variable {buffer : Buffer} {newLen : UInt64} {zeroInit : Bool}

/-- The buffer after the data has got a new length. -/
def AccountPointers.resized (account : AccountPointers) (newLen : UInt64) (zeroInit : Bool) (buffer : Buffer) :
    Buffer where
  region := (buffer.region.writeBytes (account.data - 8) (ofWord 8 newLen.toNat)).writeBytes
    (account.data + buffer.lens account.data)
    (if zeroInit then List.replicate (newLen.toNat - buffer.lens account.data) 0 else [])
  lens := Function.update buffer.lens account.data newLen.toNat

theorem resized_lens : (account.resized newLen zeroInit buffer).lens account.data = newLen.toNat :=
  Function.update_self ..

/-- Outside the serialized length and the bytes that are added, memory stays. -/
theorem resized_outside {address : Nat} (h : address < account.data - 8 ∨ account.data - 8 + 8 ≤ address)
    (hadded : address < account.data + buffer.lens account.data ∨ account.data + newLen.toNat ≤ address ∨
      zeroInit = false) :
    (account.resized newLen zeroInit buffer).region address = buffer.region address := by
  have hword : (buffer.region.writeBytes (account.data - 8) (ofWord 8 newLen.toNat)) address = buffer.region address :=
    writeBytes_outside (by rw [ofWord_length]; exact h)
  refine (writeBytes_outside ?_).trans hword
  cases zeroInit with
  | false =>
      show _ ∨ account.data + buffer.lens account.data + 0 ≤ address
      omega
  | true =>
      rw [if_pos rfl, List.length_replicate]
      rcases hadded with hadded | hadded | hadded
      · exact Or.inl hadded
      · omega
      · cases hadded

theorem touches_resized (hsound : Sound buffer account)
    (hle : newLen.toNat ≤ account.originalDataLen buffer + maxPermittedDataIncrease) :
    Touches account buffer (account.resized newLen zeroInit buffer) := by
  have hdata := hsound.data
  have hroom := hsound.room
  have hutxo := hsound.utxo
  constructor
  · intro address haddress
    exact resized_outside (by omega) (by omega)
  · intro data hne
    exact Function.update_of_ne hne _ _

theorem sound_resized (hsound : Sound buffer account)
    (hle : newLen.toNat ≤ account.originalDataLen buffer + maxPermittedDataIncrease) :
    Sound (account.resized newLen zeroInit buffer) account := by
  have hdata := hsound.data
  apply (touches_resized hsound hle).sound hsound
  · rw [resized_lens]
    exact hle
  · have hread := readBytes_writeBytes buffer.region (account.data - 8) (ofWord 8 newLen.toNat)
    rw [ofWord_length] at hread
    have hkept : (account.resized newLen zeroInit buffer).region.readBytes (account.data - 8) 8 =
        (buffer.region.writeBytes (account.data - 8) (ofWord 8 newLen.toNat)).readBytes (account.data - 8) 8 :=
      readBytes_writeBytes_of_disjoint (by omega)
    rw [resized_lens, readU64, hkept, hread, toWord_ofWord]
    exact Nat.mod_eq_of_lt newLen.toNat_lt

/-- The data is cut, or followed by zeros. -/
theorem data_zeroed (hsound : Sound buffer account) :
    (account.resized newLen true buffer).region.readBytes account.data newLen.toNat =
      Bytes.resize (buffer.region.readBytes account.data (buffer.lens account.data)) newLen.toNat := by
  have hdata := hsound.data
  apply List.ext_getElem?
  intro j
  by_cases hj : j < newLen.toNat
  · rw [Region.readBytes_getElem? hj, Bytes.resize, readBytes_length]
    by_cases hold : j < buffer.lens account.data
    · rw [List.getElem?_append_left (by rw [List.length_take, readBytes_length]; omega), List.getElem?_take_of_lt hj,
        Region.readBytes_getElem? hold, resized_outside (by omega) (by omega)]
    · have hat : account.data + j =
          account.data + buffer.lens account.data + (j - buffer.lens account.data) := by omega
      have htake : (List.take newLen.toNat (buffer.region.readBytes account.data (buffer.lens account.data))).length =
          buffer.lens account.data := by
        rw [List.length_take, readBytes_length]
        omega
      have hlt : j - buffer.lens account.data <
          (List.replicate (newLen.toNat - buffer.lens account.data) (0 : UInt8)).length := by
        rw [List.length_replicate]
        omega
      have hzeros : (account.resized newLen true buffer).region =
          (buffer.region.writeBytes (account.data - 8) (ofWord 8 newLen.toNat)).writeBytes
            (account.data + buffer.lens account.data) (List.replicate (newLen.toNat - buffer.lens account.data) 0) := rfl
      rw [List.getElem?_append_right (by omega), htake, List.getElem?_replicate, if_pos (by omega), hzeros, hat,
        Region.writeBytes_inside hlt, List.getD_eq_getElem?_getD, List.getElem?_replicate, if_pos (by omega)]
      rfl
  · rw [List.getElem?_eq_none (by rw [readBytes_length]; omega),
      List.getElem?_eq_none (by rw [Bytes.resize_length]; omega)]

/-- The room as one block: the data, and as many bytes as it may grow by. -/
theorem data_append_spare (hsound : Sound buffer account) :
    (account.room buffer).account.data ++ (account.room buffer).spare =
      buffer.region.readBytes account.data (account.originalDataLen buffer + maxPermittedDataIncrease) := by
  show buffer.region.readBytes _ _ ++ buffer.region.readBytes _ _ = _
  rw [readBytes_append, Nat.add_sub_of_le hsound.bounded]

theorem room_resized (hsound : Sound buffer account)
    (hle : newLen.toNat ≤ account.originalDataLen buffer + maxPermittedDataIncrease) :
    account.room (account.resized newLen zeroInit buffer) = (account.room buffer).resize newLen.toNat zeroInit := by
  have hdata := hsound.data
  have hroom := hsound.room
  have hutxo := hsound.utxo
  have hbounded := hsound.bounded
  have hblock : blockAt (account.resized newLen zeroInit buffer).region account.utxo 36 =
      blockAt buffer.region account.utxo 36 :=
    Subtype.ext (readBytes_congr fun address _ _ => resized_outside (by omega) (by omega))
  have hspare : (account.resized newLen zeroInit buffer).region.readBytes (account.data + newLen.toNat)
      (account.originalDataLen buffer + maxPermittedDataIncrease - newLen.toNat) =
      ((account.room buffer).account.data ++ (account.room buffer).spare).drop newLen.toNat := by
    rw [data_append_spare hsound, readBytes_drop hle]
    exact readBytes_congr fun address _ _ => resized_outside (by omega) (by omega)
  have hbytes : (account.resized newLen zeroInit buffer).region.readBytes account.data newLen.toNat =
      ((account.room buffer).resize newLen.toNat zeroInit).account.data := by
    cases zeroInit with
    | true => exact data_zeroed hsound
    | false =>
        show _ = ((account.room buffer).account.data ++ (account.room buffer).spare).take newLen.toNat
        rw [data_append_spare hsound, readBytes_take hle]
        exact readBytes_congr fun address _ _ => resized_outside (by omega) (Or.inr (Or.inr rfl))
  rw [AccountPointers.room, AccountPointers.view, resized_lens, (touches_resized hsound hle).originalDataLen, hblock,
    hspare, hbytes]
  rfl

end Realloc

theorem modify_ok (key : Pubkey) : Rooms.modify key .ok = pure () := by
  show Exec.modify (fun rooms : Rooms => .ok (Function.update rooms key (rooms key))) = pure ()
  simp only [Function.update_eq_self]
  rfl

/-- A change through the pointers of one account is seen as a change of its room. -/
theorem simulates_change {put : Buffer → Except (Failure ProgramError) Buffer}
    {change : Room → Except (Failure ProgramError) Room} (hmem : account ∈ accounts)
    (hroom : ∀ buffer, Sound buffer account → change (account.room buffer) = (put buffer).map account.room)
    (htouches : ∀ buffer, Sound buffer account → ∀ buffer', put buffer = .ok buffer' →
      Touches account buffer buffer' ∧ Sound buffer' account) :
    Simulates (Buffer.rooms accounts) (GoodFrom region accounts) (Exec.modify put)
      (Rooms.modify (account.info region).key change) := by
  apply Exec.simulates_modify
  · intro buffer hgood
    have hat := rooms_of_mem hgood.good hmem
    rw [hgood.blockAt_key hmem] at hat
    have hsound := hgood.good.sound account hmem
    rw [hat, hroom buffer hsound]
    cases hput : put buffer with
    | error failure => rfl
    | ok buffer' =>
        obtain ⟨htouch, hsound'⟩ := htouches buffer hsound buffer' hput
        have hrooms := htouch.rooms hgood.good hmem hsound'
        rw [hgood.blockAt_key hmem] at hrooms
        exact congrArg Except.ok hrooms.symm
  · intro buffer hgood buffer' hput
    obtain ⟨htouch, hsound'⟩ := htouches buffer (hgood.good.sound account hmem) buffer' hput
    exact htouch.goodFrom hgood hmem hsound'

variable (hmem : account ∈ accounts)
include hmem

theorem simulates_write (offset : Nat) {block : Bytes} (hblock : block ≠ []) :
    Simulates (Buffer.rooms accounts) (GoodFrom region accounts) (account.write offset block)
      (Rooms.modify (account.info region).key fun room =>
        (Arch.writeBlock offset block room.account.data).map fun data =>
          { room with account := { room.account with data } }) := by
  apply simulates_change hmem
  · intro buffer hsound
    split
    · next hle =>
        obtain ⟨data, hwrite, hroom⟩ := room_write hsound hle
        show (Arch.writeBlock offset block (account.view buffer).data).map _ = .ok (account.room _)
        rw [hwrite, hroom]
        rfl
    · next hlt =>
        have hshort : (account.view buffer).data.length < offset + block.length := by
          rw [AccountPointers.view, readBytes_length]
          omega
        show (Arch.writeBlock offset block (account.view buffer).data).map _ = .error .panic
        rw [Arch.writeBlock_panic (List.length_pos_iff.mpr hblock) hshort]
        rfl
  · intro buffer hsound buffer' hput
    split at hput
    · next hle =>
        obtain rfl := Except.ok.inj hput
        exact ⟨touches_write hsound hle, sound_write hsound hle⟩
    · cases hput

theorem simulates_setOwner (owner : Pubkey) :
    Simulates (Buffer.rooms accounts) (GoodFrom region accounts) (account.setOwner owner) (pure ()) := by
  have hlength := owner.2
  rw [← modify_ok (account.info region).key]
  apply simulates_change hmem
  · intro buffer hsound
    have hutxo := hsound.utxo
    have hblock : blockAt (buffer.region.writeBytes account.owner owner.1) account.utxo 36 =
        blockAt buffer.region account.utxo 36 := Subtype.ext (readBytes_writeBytes_of_disjoint (by omega))
    have hhigh : account.owner + owner.1.length ≤ account.utxo + 36 := by omega
    have htail := room_tail hsound (Nat.le_refl _) hhigh
    rw [hblock] at htail
    exact congrArg Except.ok htail.symm
  · intro buffer hsound buffer' hput
    obtain rfl := Except.ok.inj hput
    have hutxo := hsound.utxo
    exact ⟨touches_tail hsound (Nat.le_refl _) (by omega), sound_tail hsound (Nat.le_refl _) (by omega)⟩

theorem simulates_setUtxo (utxo : UtxoMeta) :
    Simulates (Buffer.rooms accounts) (GoodFrom region accounts) (account.setUtxo utxo)
      (Rooms.modify (account.info region).key fun room =>
        .ok { room with account := { room.account with utxo } }) := by
  have hlength := utxo.2
  apply simulates_change hmem
  · intro buffer hsound
    have hutxo := hsound.utxo
    have hblock : blockAt (buffer.region.writeBytes account.utxo utxo.1) account.utxo 36 = utxo := by
      apply Subtype.ext
      have hread := readBytes_writeBytes buffer.region account.utxo utxo.1
      rwa [hlength] at hread
    have hlow : account.owner ≤ account.utxo := by omega
    have hhigh : account.utxo + utxo.1.length ≤ account.utxo + 36 := by omega
    have htail := room_tail hsound hlow hhigh
    rw [hblock] at htail
    exact congrArg Except.ok htail.symm
  · intro buffer hsound buffer' hput
    obtain rfl := Except.ok.inj hput
    have hutxo := hsound.utxo
    exact ⟨touches_tail hsound (by omega) (by omega), sound_tail hsound (by omega) (by omega)⟩

omit hmem in
theorem realloc_eq (newLen : UInt64) (zeroInit : Bool) :
    account.realloc newLen zeroInit = Exec.modify fun buffer =>
      if newLen.toNat = buffer.lens account.data then .ok buffer
      else if maxPermittedDataIncrease < newLen.toNat - account.originalDataLen buffer then
        .error (.error .invalidRealloc)
      else .ok (account.resized newLen zeroInit buffer) := rfl

theorem simulates_realloc (newLen : UInt64) (zeroInit : Bool) :
    Simulates (Buffer.rooms accounts) (GoodFrom region accounts) (account.realloc newLen zeroInit)
      (Rooms.modify (account.info region).key fun room => room.realloc newLen.toNat zeroInit) := by
  rw [realloc_eq]
  apply simulates_change hmem
  · intro buffer hsound
    have hlength : (account.room buffer).account.data.length = buffer.lens account.data := readBytes_length ..
    have horiginal : (account.room buffer).account.originalDataLen = account.originalDataLen buffer := rfl
    rw [Room.realloc, hlength, horiginal]
    by_cases hsame : newLen.toNat = buffer.lens account.data
    · rw [if_pos hsame, if_pos hsame]
      rfl
    · rw [if_neg hsame, if_neg hsame]
      by_cases hlarge : maxPermittedDataIncrease < newLen.toNat - account.originalDataLen buffer
      · rw [if_pos hlarge, if_pos hlarge]
        rfl
      · have hle : newLen.toNat ≤ account.originalDataLen buffer + maxPermittedDataIncrease := by omega
        rw [if_neg hlarge, if_neg hlarge, ← room_resized hsound hle]
        rfl
  · intro buffer hsound buffer' hput
    split at hput
    · obtain rfl := Except.ok.inj hput
      exact ⟨⟨fun _ _ => rfl, fun _ _ => rfl⟩, hsound⟩
    · split at hput
      · cases hput
      · next hle =>
          obtain rfl := Except.ok.inj hput
          have hle' : newLen.toNat ≤ account.originalDataLen buffer + maxPermittedDataIncrease := by omega
          exact ⟨touches_resized hsound hle', sound_resized hsound hle'⟩

end Operations

/-! ### The call -/

section Call

variable {region : Region} {accounts : List AccountPointers}

/-- An index picks the same account on both sides. -/
theorem simulates_at {f : AccountPointers → Exec ProgramError Buffer Unit}
    {g : AccountInfo → Exec ProgramError Rooms Unit} (index : Nat)
    (h : ∀ account ∈ accounts, Simulates (Buffer.rooms accounts) (GoodFrom region accounts) (f account)
      (g (account.info region))) :
    Simulates (Buffer.rooms accounts) (GoodFrom region accounts) (entryAt accounts index >>= f)
      (entryAt (accounts.map (·.info region)) index >>= g) := by
  intro buffer hgood
  cases hindex : accounts[index]? with
  | none =>
      have hpointers : (entryAt accounts index).run buffer = .panic := by
        simp only [entryAt, Exec.query, hindex]
      have haccount : (entryAt (accounts.map (·.info region)) index).run (buffer.rooms accounts) = .panic := by
        simp only [entryAt, Exec.query, List.getElem?_map, hindex, Option.map_none]
      rw [Exec.run_bind_of_panic hpointers, Exec.run_bind_of_panic haccount]
      exact ⟨rfl, .panic⟩
  | some account =>
      have hpointers : (entryAt accounts index).run buffer = .ok account buffer := by
        simp only [entryAt, Exec.query, hindex]
      have haccount : (entryAt (accounts.map (·.info region)) index).run (buffer.rooms accounts) =
          .ok (account.info region) (buffer.rooms accounts) := by
        simp only [entryAt, Exec.query, List.getElem?_map, hindex, Option.map_some]
      rw [Exec.run_bind_of_ok hpointers, Exec.run_bind_of_ok haccount]
      exact h account (List.mem_of_getElem? hindex) buffer hgood

theorem simulates_command (command : AccountCommand) :
    Simulates (Buffer.rooms accounts) (GoodFrom region accounts) (command.perform accounts)
      (command.runRooms (accounts.map (·.info region))) := by
  cases command with
  | write index offset block nonempty =>
      exact simulates_at index fun account hmem => simulates_write hmem offset nonempty
  | realloc index newLen zeroInit =>
      exact simulates_at index fun account hmem => simulates_realloc hmem newLen zeroInit
  | setOwner index owner => exact simulates_at index fun account hmem => simulates_setOwner hmem owner
  | setUtxo index utxo => exact simulates_at index fun account hmem => simulates_setUtxo hmem utxo

end Call

/-! ### Without the room -/

section Rooms

variable {accounts : List AccountInfo}

theorem memory_update (rooms : Rooms) (key : Pubkey) (room : Room) :
    Rooms.memory (Function.update rooms key room) = Function.update rooms.memory key room.account := by
  funext other
  by_cases hother : other = key
  · simp only [Rooms.memory, hother, Function.update_self]
  · simp only [Rooms.memory, Function.update_of_ne hother]

/-- A change of a room that is a change of its account. -/
theorem simulates_forgetting {key : Pubkey} {change : Room → Except (Failure ProgramError) Room}
    {put : Memory → Except (Failure ProgramError) Memory}
    (h : ∀ rooms : Rooms, put rooms.memory =
      (change (rooms key)).map fun room => Function.update rooms.memory key room.account) :
    Simulates Rooms.memory (fun _ => True) (Rooms.modify key change) (Exec.modify put) := by
  apply Exec.simulates_modify
  · intro rooms _
    rw [h rooms]
    cases change (rooms key) with
    | error failure => rfl
    | ok room => exact congrArg Except.ok (memory_update rooms key room).symm
  · exact fun _ _ _ _ => trivial

theorem simulates_entryAt {f : AccountInfo → Exec ProgramError Rooms Unit} {g : AccountInfo → Prog Unit} (index : Nat)
    (h : ∀ account, Simulates Rooms.memory (fun _ => True) (f account) (g account)) :
    Simulates Rooms.memory (fun _ => True) (entryAt accounts index >>= f) (accountAt accounts index >>= g) := by
  refine Exec.Simulates.bind (fun rooms _ => ?_) h
  cases hindex : accounts[index]? with
  | none =>
      have hrooms : (entryAt accounts index).run rooms = .panic := by simp only [entryAt, Exec.query, hindex]
      have hmemory : (accountAt accounts index).run rooms.memory = .panic := by
        simp only [accountAt, Exec.query, hindex]
      rw [hrooms, hmemory]
      exact ⟨rfl, .panic⟩
  | some account =>
      have hrooms : (entryAt accounts index).run rooms = .ok account rooms := by
        simp only [entryAt, Exec.query, hindex]
      have hmemory : (accountAt accounts index).run rooms.memory = .ok account rooms.memory := by
        simp only [accountAt, Exec.query, hindex]
      rw [hrooms, hmemory]
      exact ⟨rfl, .ok trivial trivial⟩

/-- Where what is added is zeroed, the change of a room is the handlers' change of its account. -/
theorem simulates_zeroInits {command : AccountCommand} (h : command.ZeroInits) :
    Simulates Rooms.memory (fun _ => True) (command.runRooms accounts) (command.run accounts) := by
  cases command with
  | write index offset block nonempty =>
      refine simulates_entryAt index fun account => simulates_forgetting fun rooms => ?_
      show (Arch.writeBlock offset block (rooms account.key).account.data).map _ = _
      cases Arch.writeBlock offset block (rooms account.key).account.data <;> rfl
  | realloc index newLen zeroInit =>
      obtain rfl : zeroInit = true := h
      refine simulates_entryAt index fun account => simulates_forgetting fun rooms => ?_
      rw [Room.realloc]
      by_cases hsame : newLen.toNat = (rooms account.key).account.data.length
      · rw [if_pos hsame]
        refine (if_pos hsame).trans ?_
        exact congrArg Except.ok (Function.update_eq_self account.key rooms.memory).symm
      · rw [if_neg hsame]
        refine (if_neg hsame).trans ?_
        by_cases hlarge : maxPermittedDataIncrease < newLen.toNat - (rooms account.key).account.originalDataLen
        · rw [if_pos hlarge]
          exact if_pos hlarge
        · rw [if_neg hlarge]
          exact if_neg hlarge
  | setOwner index owner => exact simulates_entryAt index fun account => Exec.simulates_pure ()
  | setUtxo index utxo => exact simulates_entryAt index fun account => simulates_forgetting fun rooms => rfl

end Rooms

/-- Whatever a program does through the pointers of its call, in any order and on any of its accounts, duplicates
included, it does what the same changes do to accounts by their keys: it succeeds, fails and panics where they do,
leaves the data, the room and the utxos that they leave, and keeps each account's length serialized before its data.
Where added data is zeroed these are the handlers' changes of the accounts. -/
theorem call_simulates_memory {region : Region} {input : Input} (hinput : deserialize region = some input)
    (hloaded : Loaded region input.accounts) (commands : List AccountCommand) :
    (commands.forM fun command => command.runRooms (input.accounts.map (·.info region))).run
        ((Buffer.start region).rooms input.accounts) =
      ((commands.forM fun command => command.perform input.accounts).run (Buffer.start region)).view
        (Buffer.rooms input.accounts) ∧
    ((∀ command ∈ commands, command.ZeroInits) →
      (commands.forM fun command => command.run (input.accounts.map (·.info region))).run
          ((Buffer.start region).memory input.accounts) =
        ((commands.forM fun command => command.perform input.accounts).run (Buffer.start region)).view
          (Buffer.memory input.accounts)) ∧
    ∀ buffer, (commands.forM fun command => command.perform input.accounts).run (Buffer.start region) = .ok () buffer →
      ∀ account ∈ input.accounts, readU64 buffer.region (account.data - 8) = buffer.lens account.data := by
  have hgood : GoodFrom region input.accounts (Buffer.start region) := ⟨start_good hinput hloaded, fun _ _ => rfl⟩
  obtain ⟨hrun, hleaves⟩ := Exec.simulates_forM (fun command (_ : command ∈ commands) => simulates_command command)
    (Buffer.start region) hgood
  refine ⟨hrun, fun hzero => ?_, fun buffer hbuffer account hmem => ?_⟩
  · have hcommands : ∀ command ∈ commands, Simulates Rooms.memory (fun _ => True)
        (command.runRooms (input.accounts.map (·.info region))) (command.run (input.accounts.map (·.info region))) :=
      fun command hcommand => simulates_zeroInits (hzero command hcommand)
    obtain ⟨hforget, -⟩ := Exec.simulates_forM hcommands ((Buffer.start region).rooms input.accounts) trivial
    rw [Buffer.rooms_memory, hrun] at hforget
    rw [hforget]
    cases (commands.forM fun command => command.perform input.accounts).run (Buffer.start region) with
    | ok value buffer => exact congrArg (Outcome.ok value) (Buffer.rooms_memory ..)
    | error e buffer => exact congrArg (Outcome.error e) (Buffer.rooms_memory ..)
    | panic => rfl
  · rw [hbuffer] at hleaves
    exact (hleaves.of_ok.1.good.sound account hmem).serialized

/-- A call with one account that signs and is written, listed twice. -/
def listedTwice : Region := fun address =>
  if address = 0 then 2 else if address = 8 then 255 else if address = 13 ∨ address = 14 then 1 else 0

def listedTwiceAccount : AccountPointers where
  key := 16
  utxo := 10336
  data := 64
  owner := 10304
  isSigner := true
  isWritable := true
  isExecutable := false

def listedTwiceInput : Input where
  programId := 10392
  accounts := [listedTwiceAccount, listedTwiceAccount]
  instructionData := 10392
  instructionDataLen := 0

theorem listedTwice_deserialized : deserialize listedTwice = some listedTwiceInput := by rfl

theorem listedTwice_loaded : Loaded listedTwice listedTwiceInput.accounts := by
  have hsame : ∀ account ∈ listedTwiceInput.accounts, account = listedTwiceAccount := by
    intro account hmem
    rcases List.mem_pair.mp hmem with rfl | rfl <;> rfl
  refine ⟨fun account hmem other hother _ => by rw [hsame account hmem, hsame other hother], fun account hmem => ?_⟩
  rw [hsame account hmem]
  rfl

/-- The data grows through the second listing and is written through the first. -/
def listedTwiceCommands : List AccountCommand :=
  [.realloc 1 4 true, .write 0 1 [7, 8] (List.cons_ne_nil 7 [8]), .setUtxo 1 noAccount.utxo]

/-- It is cut off through the first listing and grows through the second, which shows again what was written. -/
def staleCommands : List AccountCommand := listedTwiceCommands ++ [.realloc 0 1 false, .realloc 1 3 false]

theorem listedTwiceCommands_zeroInits : ∀ command ∈ listedTwiceCommands, command.ZeroInits := by
  intro command hmem
  rcases List.mem_cons.mp hmem with rfl | hmem
  · rfl
  · rcases List.mem_pair.mp hmem with rfl | rfl <;> trivial

theorem staleCommands_run :
    ((staleCommands.forM fun command => command.perform listedTwiceInput.accounts).run
      (Buffer.start listedTwice)).view (fun buffer => (listedTwiceAccount.view buffer).data) = .ok () [0, 7, 8] := by
  rfl

theorem listedTwice_simulates :
    (staleCommands.forM fun command => command.runRooms (listedTwiceInput.accounts.map (·.info listedTwice))).run
        ((Buffer.start listedTwice).rooms listedTwiceInput.accounts) =
      ((staleCommands.forM fun command => command.perform listedTwiceInput.accounts).run
        (Buffer.start listedTwice)).view (Buffer.rooms listedTwiceInput.accounts) ∧
    ((staleCommands.forM fun command => command.perform listedTwiceInput.accounts).run
      (Buffer.start listedTwice)).view (fun buffer => (listedTwiceAccount.view buffer).data) = .ok () [0, 7, 8] ∧
    (listedTwiceCommands.forM fun command => command.run (listedTwiceInput.accounts.map (·.info listedTwice))).run
        ((Buffer.start listedTwice).memory listedTwiceInput.accounts) =
      ((listedTwiceCommands.forM fun command => command.perform listedTwiceInput.accounts).run
        (Buffer.start listedTwice)).view (Buffer.memory listedTwiceInput.accounts) ∧
    ∀ buffer, (staleCommands.forM fun command => command.perform listedTwiceInput.accounts).run
        (Buffer.start listedTwice) = .ok () buffer →
      ∀ account ∈ listedTwiceInput.accounts, readU64 buffer.region (account.data - 8) = buffer.lens account.data :=
  ⟨(call_simulates_memory listedTwice_deserialized listedTwice_loaded staleCommands).1, staleCommands_run,
    (call_simulates_memory listedTwice_deserialized listedTwice_loaded listedTwiceCommands).2.1
      listedTwiceCommands_zeroInits,
    (call_simulates_memory listedTwice_deserialized listedTwice_loaded staleCommands).2.2⟩

end Chainring.Sdk

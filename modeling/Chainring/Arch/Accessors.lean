import Chainring.Arch.State

/-! Which bytes each accessor of account data reads and writes, when it succeeds, and what the wallet
slots of a token account hold. -/

namespace Chainring.Arch

open Bytes (slice patch slice_eq_some slice_congr slice_mono slice_le slice_isSome slice_patch
  slice_patch_of_disjoint patch_outside patch_length patch_isSome patch_eq_some toWord ofWord toWord_lt
  toWord_ofWord ofWord_length)
open CheckedWord (bind_eq_ok)

/-! ### Regions -/

def Within (low high o : Nat) : Prop := low ≤ o ∧ o < high

/-- The address bytes of a wallet slot. -/
def AddressBytes (index : Nat) : Nat → Prop :=
  Within (balancesOffset + index * balanceSize) (balancesOffset + index * balanceSize + maxAddressSize)

/-- The amount bytes of a wallet slot. -/
def AmountBytes (index : Nat) : Nat → Prop :=
  Within (balancesOffset + index * balanceSize + balanceAmountOffset)
    (balancesOffset + index * balanceSize + balanceAmountOffset + 8)

def AnyAmount (o : Nat) : Prop := ∃ index, AmountBytes index o

/-- A change that keeps the length and every byte outside a region. -/
def Writes (put : Bytes → Except Fault Bytes) (region : Nat → Prop) : Prop :=
  ∀ data data', put data = .ok data' →
    data'.length = data.length ∧ ∀ o, ¬region o → data'[o]? = data[o]?

theorem Writes.mono {put : Bytes → Except Fault Bytes} {region region' : Nat → Prop}
    (h : Writes put region) (hle : ∀ o, region o → region' o) : Writes put region' := by
  intro data data' hput
  obtain ⟨hlength, hbytes⟩ := h data data' hput
  exact ⟨hlength, fun o ho => hbytes o fun hregion => ho (hle o hregion)⟩

theorem writes_writeBlock (offset : Nat) (block : Bytes) :
    Writes (writeBlock offset block) (Within offset (offset + block.length)) := by
  intro data data' hput
  have hpatch := writeBlock_eq_ok.mp hput
  exact ⟨patch_length hpatch, fun o ho => patch_outside hpatch ho⟩

theorem writes_bind {first : Bytes → Except Fault Bytes} {second : Bytes → Except Fault Bytes}
    {region : Nat → Prop} (hfirst : Writes first region) (hsecond : Writes second region) :
    Writes (fun data => first data >>= second) region := by
  intro data data'' hput
  obtain ⟨data', hdata', hdata''⟩ := bind_eq_ok.mp hput
  obtain ⟨hlength', hbytes'⟩ := hfirst data data' hdata'
  obtain ⟨hlength'', hbytes''⟩ := hsecond data' data'' hdata''
  exact ⟨hlength''.trans hlength', fun o ho => (hbytes'' o ho).trans (hbytes' o ho)⟩

theorem writes_setString (offset : Nat) (string : Utf8String) (maxSize : Nat) :
    Writes (setString offset string maxSize) (Within offset (offset + maxSize)) := by
  intro data data'' hput
  unfold setString at hput
  split at hput
  · cases hput
  · next hlt =>
      have hfill : Writes (writeBlock offset (List.replicate maxSize 0)) (Within offset (offset + maxSize)) := by
        have h := writes_writeBlock offset (List.replicate maxSize 0)
        rw [List.length_replicate] at h
        exact h
      have hcopy : Writes (writeBlock offset string.bytes) (Within offset (offset + maxSize)) := by
        refine (writes_writeBlock offset _).mono fun o ho => ⟨ho.1, ?_⟩
        have := ho.2
        omega
      exact writes_bind hfill hcopy data data'' hput

theorem writes_setType (accountType : AccountType) : Writes (setType accountType) (Within 0 1) :=
  writes_writeBlock 0 [accountType.encode]

theorem writes_setProgramAccount (pubkey : Pubkey) :
    Writes (TokenState.setProgramAccount pubkey) (Within 5 37) := by
  have h := writes_writeBlock programPubkeyOffset pubkey.1
  rw [pubkey.2] at h
  exact h

theorem writes_setNumBalances (numBalances : Nat) :
    Writes (TokenState.setNumBalances numBalances) (Within 69 73) :=
  writes_writeBlock balanceCountOffset (ofWord 4 numBalances)

theorem writes_setTokenId (tokenId : Utf8String) : Writes (TokenState.setTokenId tokenId) (Within 37 69) :=
  writes_setString tokenIdOffset tokenId maxTokenIdSize

theorem writes_setWalletAddress (index : Nat) (address : Utf8String) :
    Writes (Balance.setWalletAddress index address) (AddressBytes index) :=
  writes_setString (balancesOffset + index * balanceSize) address maxAddressSize

theorem writes_setWalletBalance (index : Nat) (balance : UInt64) :
    Writes (Balance.setWalletBalance index balance) (AmountBytes index) := by
  have h := writes_writeBlock (balancesOffset + index * balanceSize + balanceAmountOffset)
    (ofWord 8 balance.toNat)
  rw [ofWord_length] at h
  exact h

theorem writes_incrementWalletBalance (index : Nat) (amount : UInt64) :
    Writes (Balance.incrementWalletBalance index amount) (AmountBytes index) := by
  intro data data' hput
  obtain ⟨current, -, hset⟩ := bind_eq_ok.mp hput
  exact writes_setWalletBalance index _ data data' hset

theorem writes_decrementWalletBalance (index : Nat) (amount : UInt64) :
    Writes (Balance.decrementWalletBalance index amount) (AmountBytes index) := by
  intro data data' hput
  obtain ⟨current, -, hset⟩ := bind_eq_ok.mp hput
  split at hset
  · exact writes_setWalletBalance index _ data data' hset
  · cases hset

theorem writes_hash (offset : Nat) (hash : Hash) :
    Writes (writeBlock offset hash.1) (Within offset (offset + 32)) := by
  have h := writes_writeBlock offset hash.1
  rw [hash.2] at h
  exact h

theorem writes_setSettlementHash (hash : Hash) :
    Writes (ProgramState.setSettlementHash hash) (Within 222 254) :=
  writes_hash settlementHashOffset hash

theorem writes_setLastSettlementHash (hash : Hash) :
    Writes (ProgramState.setLastSettlementHash hash) (Within 254 286) :=
  writes_hash lastSettlementHashOffset hash

theorem writes_setHash (hash : Hash) : Writes (WithdrawState.setHash hash) (Within 37 69) :=
  writes_hash withdrawHashOffset hash

theorem writes_clearEvents : Writes ProgramState.clearEvents (Within 286 288) :=
  writes_writeBlock eventsSizeOffset (ofWord 2 0)

theorem writes_emitEvent (event : Event) : Writes (ProgramState.emitEvent event) (286 ≤ ·) := by
  intro data data'' hput
  obtain ⟨count, -, hput⟩ := bind_eq_ok.mp hput
  split at hput
  · cases hput
  · obtain ⟨encoded, -, hput⟩ := bind_eq_ok.mp hput
    have hslot : Writes (writeBlock (eventsOffset + count * eventSize) encoded) (286 ≤ ·) := by
      refine (writes_writeBlock _ encoded).mono fun o ho => ?_
      have hlow : 288 + count * 64 ≤ o := ho.1
      show 286 ≤ o
      omega
    have hsize : Writes (writeBlock eventsSizeOffset (ofWord 2 (count + 1))) (286 ≤ ·) :=
      (writes_writeBlock eventsSizeOffset _).mono fun o ho => ho.1
    exact writes_bind hslot hsize data data'' hput

/-! ### Reads -/

section Reads

variable {data data' : Bytes}

theorem readBlock_congr {offset len : Nat}
    (h : ∀ o, Within offset (offset + len) o → data'[o]? = data[o]?) :
    readBlock offset len data' = readBlock offset len data := by
  rw [readBlock, readBlock, slice_congr fun o hlow hhigh => h o ⟨hlow, hhigh⟩]

theorem readArray_congr {offset len : Nat}
    (h : ∀ o, Within offset (offset + len) o → data'[o]? = data[o]?) :
    readArray offset len data' = readArray offset len data := by
  rw [readArray, readArray, slice_congr fun o hlow hhigh => h o ⟨hlow, hhigh⟩]

/-- The type of an account and the key it belongs with are read from its first bytes. -/
theorem getType_congr (h : ∀ o < 37, data'[o]? = data[o]?) : getType data' = getType data := by
  rw [getType, getType, readArray_congr fun o ho => h o (Nat.lt_trans ho.2 (by decide))]

/-- Data that begins with a copy has the type of the copy. -/
theorem getType_of_writeBlock {block : Bytes} (hlen : 37 ≤ block.length) (hput : writeBlock 0 block data = .ok data') :
    getType data' = getType block := by
  apply getType_congr
  intro o ho
  rw [(patch_eq_some (writeBlock_eq_ok.mp hput)).2.2 o, if_pos ⟨Nat.zero_le o, by omega⟩, Nat.sub_zero]

theorem relatedAccountKey_congr (accountType : AccountType) (h : ∀ o < 37, data'[o]? = data[o]?) :
    relatedAccountKey accountType data' = relatedAccountKey accountType data := by
  have hread : readArray 5 32 data' = readArray 5 32 data := readArray_congr fun o ho => h o ho.2
  cases accountType with
  | unknown => rfl
  | _ => exact hread

theorem getFeeAccountAddress_congr (h : ∀ o < programChangeAddressOffset, data'[o]? = data[o]?) :
    ProgramState.getFeeAccountAddress data' = ProgramState.getFeeAccountAddress data := by
  unfold ProgramState.getFeeAccountAddress getAddress
  rw [readBlock_congr fun o ho => h o ho.2]

/-- The account has the type and belongs with the key. -/
def Bound (accountType : AccountType) (key : Pubkey) (data : Bytes) : Prop :=
  getType data = .ok accountType ∧ relatedAccountKey accountType data = .ok key

theorem bound_congr {accountType : AccountType} {key : Pubkey} (h : ∀ o < 37, data'[o]? = data[o]?) :
    Bound accountType key data' ↔ Bound accountType key data := by
  rw [Bound, Bound, getType_congr h, relatedAccountKey_congr accountType h]

/-- Whatever the type, the key is the same block. -/
theorem relatedAccountKey_eq_ok {accountType : AccountType} {key : Pubkey}
    (h : relatedAccountKey accountType data = .ok key) : slice data 5 32 = some key.1 := by
  cases accountType with
  | unknown => cases h
  | _ => exact readArray_eq_ok.mp h

theorem ne_nil_of_getType {accountType : AccountType} (h : getType data = .ok accountType) :
    data ≠ [] := by
  rintro rfl
  cases h

end Reads

/-! ### Wallets in use -/

def numBalances (data : Bytes) : Nat := ((slice data balanceCountOffset 4).map toWord).getD 0

theorem getNumBalances_eq_ok {data : Bytes} {n : Nat} :
    TokenState.getNumBalances data = .ok n ↔
      (∃ block, slice data balanceCountOffset 4 = some block) ∧ n = numBalances data := by
  rw [TokenState.getNumBalances, numBalances, readBlock]
  cases slice data balanceCountOffset 4 with
  | none => simp [bind, Except.bind]
  | some block => simp [bind, Except.bind, pure, Except.pure, eq_comm]

theorem getNumBalances_of_lt {data : Bytes} {index : Nat} (h : index < numBalances data) :
    TokenState.getNumBalances data = .ok (numBalances data) := by
  refine getNumBalances_eq_ok.mpr ⟨?_, rfl⟩
  cases hslice : slice data balanceCountOffset 4 with
  | none =>
      rw [numBalances, hslice] at h
      exact absurd h (Nat.not_lt_zero index)
  | some block => exact ⟨block, rfl⟩

theorem numBalances_congr {data data' : Bytes} (h : ∀ o, Within 69 73 o → data'[o]? = data[o]?) :
    numBalances data' = numBalances data := by
  have hslice : slice data' balanceCountOffset 4 = slice data balanceCountOffset 4 :=
    slice_congr fun o hlow hhigh => h o ⟨hlow, hhigh⟩
  rw [numBalances, numBalances, hslice]

theorem numBalances_setNumBalances {data data' : Bytes} {n : Nat}
    (h : TokenState.setNumBalances n data = .ok data') : numBalances data' = n % 2 ^ 32 := by
  have hslice := slice_patch (writeBlock_eq_ok.mp h)
  rw [ofWord_length] at hslice
  rw [numBalances, hslice]
  show toWord (ofWord 4 n) = n % 2 ^ 32
  rw [toWord_ofWord]
  rfl

/-- A wallet slot in use whose address ends in the four given characters. -/
structure Wallet (addressIndex : AddressIndex) (data : Bytes) : Prop where
  inUse : addressIndex.index.toNat < numBalances data
  last4 : Balance.getWalletAddressLast4 addressIndex.index.toNat data = .ok addressIndex.last4

theorem getValidatedIndex_eq_ok {addressIndex : AddressIndex} {data : Bytes} {index : Nat} :
    getValidatedIndex addressIndex data = .ok index ↔
      Wallet addressIndex data ∧ index = addressIndex.index.toNat := by
  unfold getValidatedIndex
  constructor
  · intro h
    obtain ⟨n, hn, h⟩ := bind_eq_ok.mp h
    obtain rfl := (getNumBalances_eq_ok.mp hn).2
    split at h
    · cases h
    · next hlt =>
        obtain ⟨last4, hlast4, h⟩ := bind_eq_ok.mp h
        split at h
        · next heq =>
            cases h
            rw [heq] at hlast4
            exact ⟨⟨Nat.not_le.mp hlt, hlast4⟩, rfl⟩
        · cases h
  · rintro ⟨hwallet, rfl⟩
    refine bind_eq_ok.mpr ⟨_, getNumBalances_of_lt hwallet.inUse, ?_⟩
    rw [if_neg (Nat.not_le.mpr hwallet.inUse)]
    exact bind_eq_ok.mpr ⟨_, hwallet.last4, if_pos rfl⟩

/-- An address that could be read stays what it was when its bytes do. -/
theorem getWalletAddressLast4_mono {data data' : Bytes} {index : Nat} {last4 : WalletLast4}
    (hbytes : ∀ o, AddressBytes index o → o < data.length → data'[o]? = data[o]?)
    (h : Balance.getWalletAddressLast4 index data = .ok last4) :
    Balance.getWalletAddressLast4 index data' = .ok last4 := by
  obtain ⟨tmp, htmp, hlast4⟩ := bind_eq_ok.mp h
  have hslice := slice_mono (fun o hlow hhigh ho => hbytes o ⟨hlow, hhigh⟩ ho) (readBlock_eq_ok.mp htmp)
  exact bind_eq_ok.mpr ⟨tmp, readBlock_eq_ok.mpr hslice, hlast4⟩

theorem Wallet.mono {addressIndex : AddressIndex} {data data' : Bytes}
    (hwallet : Wallet addressIndex data) (hcount : numBalances data ≤ numBalances data')
    (hbytes : ∀ o, AddressBytes addressIndex.index.toNat o → o < data.length → data'[o]? = data[o]?) :
    Wallet addressIndex data' where
  inUse := Nat.lt_of_lt_of_le hwallet.inUse hcount
  last4 := getWalletAddressLast4_mono hbytes hwallet.last4

/-! ### Amounts -/

def amountAt (data : Bytes) (index : Nat) : Nat :=
  ((slice data (balancesOffset + index * balanceSize + balanceAmountOffset) 8).map toWord).getD 0

/-- The amount of the slot lies in the data. -/
def HasAmount (data : Bytes) (index : Nat) : Prop :=
  balancesOffset + index * balanceSize + balanceAmountOffset + 8 ≤ data.length

theorem amountAt_lt (data : Bytes) (index : Nat) : amountAt data index < 2 ^ 64 := by
  unfold amountAt
  cases hslice : slice data (balancesOffset + index * balanceSize + balanceAmountOffset) 8 with
  | none => decide
  | some block =>
      have hlt := toWord_lt block
      rw [(slice_eq_some.mp hslice).1] at hlt
      exact hlt

theorem amountAt_congr {data data' : Bytes} {index : Nat}
    (h : ∀ o, AmountBytes index o → data'[o]? = data[o]?) : amountAt data' index = amountAt data index := by
  rw [amountAt, amountAt, slice_congr fun o hlow hhigh => h o ⟨hlow, hhigh⟩]

theorem getWalletBalance_eq_ok {data : Bytes} {index : Nat} {balance : UInt64} :
    Balance.getWalletBalance index data = .ok balance ↔
      HasAmount data index ∧ balance.toNat = amountAt data index := by
  have hlt := amountAt_lt data index
  rw [Balance.getWalletBalance, readBlock]
  rw [amountAt] at hlt ⊢
  cases hslice : slice data (balancesOffset + index * balanceSize + balanceAmountOffset) 8 with
  | none =>
      have hshort : ¬HasAmount data index := by
        intro hle
        obtain ⟨block, hblock⟩ := slice_isSome hle
        rw [hslice] at hblock
        cases hblock
      simp [bind, Except.bind, hshort]
  | some block =>
      have hle : HasAmount data index := slice_le (by decide) hslice
      have hword : toWord block < 2 ^ 64 := by
        rw [hslice] at hlt
        exact hlt
      simp only [bind, Except.bind, pure, Except.pure, Except.ok.injEq, hle, true_and, Option.map_some,
        Option.getD_some]
      constructor
      · rintro rfl
        rw [UInt64.toNat_ofNat', Nat.mod_eq_of_lt hword]
      · intro hbalance
        rw [← hbalance, UInt64.ofNat_toNat]

theorem setWalletBalance_isOk {data : Bytes} {index : Nat} (balance : UInt64)
    (h : HasAmount data index) : ∃ data', Balance.setWalletBalance index balance data = .ok data' := by
  have hroom : balancesOffset + index * balanceSize + balanceAmountOffset +
      (ofWord 8 balance.toNat).length ≤ data.length := by
    rw [ofWord_length]
    exact h
  obtain ⟨data', hpatch⟩ := patch_isSome hroom
  exact ⟨data', writeBlock_eq_ok.mpr hpatch⟩

theorem amountAt_setWalletBalance {data data' : Bytes} {index : Nat} {balance : UInt64}
    (h : Balance.setWalletBalance index balance data = .ok data') :
    amountAt data' index = balance.toNat := by
  have hslice := slice_patch (writeBlock_eq_ok.mp h)
  rw [ofWord_length] at hslice
  rw [amountAt, hslice]
  show toWord (ofWord 8 balance.toNat) = balance.toNat
  rw [toWord_ofWord]
  exact Nat.mod_eq_of_lt balance.toNat_lt

/-- An increment needs the amount to lie in the data, and wraps. -/
theorem incrementWalletBalance_isOk {data : Bytes} {index : Nat} {amount : UInt64} :
    (∃ data', Balance.incrementWalletBalance index amount data = .ok data') ↔ HasAmount data index := by
  constructor
  · rintro ⟨data', h⟩
    obtain ⟨current, hcurrent, -⟩ := bind_eq_ok.mp h
    exact (getWalletBalance_eq_ok.mp hcurrent).1
  · intro h
    have hcurrent : Balance.getWalletBalance index data = .ok (UInt64.ofNat (amountAt data index)) :=
      getWalletBalance_eq_ok.mpr ⟨h, by rw [UInt64.toNat_ofNat', Nat.mod_eq_of_lt (amountAt_lt data index)]⟩
    obtain ⟨data', hset⟩ := setWalletBalance_isOk (UInt64.ofNat (amountAt data index) + amount) h
    exact ⟨data', bind_eq_ok.mpr ⟨_, hcurrent, hset⟩⟩

theorem amountAt_incrementWalletBalance {data data' : Bytes} {index : Nat} {amount : UInt64}
    (h : Balance.incrementWalletBalance index amount data = .ok data') :
    amountAt data' index = (amountAt data index + amount.toNat) % 2 ^ 64 := by
  obtain ⟨current, hcurrent, hset⟩ := bind_eq_ok.mp h
  rw [amountAt_setWalletBalance hset, UInt64.toNat_add, (getWalletBalance_eq_ok.mp hcurrent).2]

/-- A decrement also needs the amount to cover it. -/
theorem decrementWalletBalance_isOk {data : Bytes} {index : Nat} {amount : UInt64} :
    (∃ data', Balance.decrementWalletBalance index amount data = .ok data') ↔
      HasAmount data index ∧ amount.toNat ≤ amountAt data index := by
  constructor
  · rintro ⟨data', h⟩
    obtain ⟨current, hcurrent, h⟩ := bind_eq_ok.mp h
    obtain ⟨hhas, hamount⟩ := getWalletBalance_eq_ok.mp hcurrent
    split at h
    · next hle => exact ⟨hhas, by rw [← hamount]; exact UInt64.le_iff_toNat_le.mp hle⟩
    · cases h
  · rintro ⟨hhas, hle⟩
    have hcurrent : Balance.getWalletBalance index data = .ok (UInt64.ofNat (amountAt data index)) :=
      getWalletBalance_eq_ok.mpr ⟨hhas, by rw [UInt64.toNat_ofNat', Nat.mod_eq_of_lt (amountAt_lt data index)]⟩
    obtain ⟨data', hset⟩ := setWalletBalance_isOk (UInt64.ofNat (amountAt data index) - amount) hhas
    refine ⟨data', bind_eq_ok.mpr ⟨_, hcurrent, ?_⟩⟩
    rw [if_pos]
    · exact hset
    · rw [UInt64.le_iff_toNat_le, UInt64.toNat_ofNat', Nat.mod_eq_of_lt (amountAt_lt data index)]
      exact hle

theorem amountAt_decrementWalletBalance {data data' : Bytes} {index : Nat} {amount : UInt64}
    (h : Balance.decrementWalletBalance index amount data = .ok data') :
    amountAt data' index = amountAt data index - amount.toNat := by
  obtain ⟨current, hcurrent, h⟩ := bind_eq_ok.mp h
  split at h
  · next hle =>
      rw [amountAt_setWalletBalance h, UInt64.toNat_sub_of_le _ _ hle,
        (getWalletBalance_eq_ok.mp hcurrent).2]
  · cases h

/-- The amounts of different slots do not overlap, nor does any overlap an address or the count. -/
theorem amountBytes_disjoint {index index' o : Nat} (hne : index' ≠ index) (h : AmountBytes index' o) :
    ¬AmountBytes index o := by
  intro h'
  have hlow : 73 + index * 100 + 92 ≤ o := h'.1
  have hhigh : o < 73 + index * 100 + 92 + 8 := h'.2
  have hlow' : 73 + index' * 100 + 92 ≤ o := h.1
  have hhigh' : o < 73 + index' * 100 + 92 + 8 := h.2
  omega

theorem addressBytes_disjoint_amountBytes {index index' o : Nat} (h : AddressBytes index' o) :
    ¬AmountBytes index o := by
  intro h'
  have hlow : 73 + index * 100 + 92 ≤ o := h'.1
  have hhigh : o < 73 + index * 100 + 92 + 8 := h'.2
  have hlow' : 73 + index' * 100 ≤ o := h.1
  have hhigh' : o < 73 + index' * 100 + 92 := h.2
  omega

theorem addressBytes_disjoint {index index' o : Nat} (hne : index' ≠ index) (h : AddressBytes index' o) :
    ¬AddressBytes index o := by
  intro h'
  have hlow : 73 + index * 100 ≤ o := h'.1
  have hhigh : o < 73 + index * 100 + 92 := h'.2
  have hlow' : 73 + index' * 100 ≤ o := h.1
  have hhigh' : o < 73 + index' * 100 + 92 := h.2
  omega

theorem AmountBytes.ge {index o : Nat} (h : AmountBytes index o) : 165 ≤ o := by
  have hlow : 73 + index * 100 + 92 ≤ o := h.1
  omega

theorem AddressBytes.ge {index o : Nat} (h : AddressBytes index o) : 73 ≤ o := by
  have hlow : 73 + index * 100 ≤ o := h.1
  omega

end Chainring.Arch

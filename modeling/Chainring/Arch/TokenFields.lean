import Chainring.Arch.NewWallets
import Chainring.Arch.StateCodecs
import Mathlib.Data.List.TakeWhile

/-! The fields of token accounts: strings that end inside their fields, room for all wallets, and the accessors
that answer for every wallet of such an account. -/

namespace Chainring.Arch

open Bytes (slice slice_eq_some slice_congr slice_isSome patch_eq_some resize resize_length resize_getElem?
  validUtf8_takeWhile)
open CheckedWord (bind_eq_ok)

/-! ### Strings in fields -/

/-- The field holds the string and a zero after it. -/
def HoldsString (offset size : Nat) (string : Utf8String) (data : Bytes) : Prop :=
  0 ∉ string.bytes ∧ ∃ rest, slice data offset size = some (string.bytes ++ 0 :: rest)

/-- The field holds an address, of at least the four characters that it is checked by. -/
def HoldsAddress (offset : Nat) (data : Bytes) : Prop :=
  ∃ address, HoldsString offset maxAddressSize address data ∧
    4 ≤ address.bytes.length ∧ address.bytes.length < maxAddressSize

/-- Addresses are short strings of ASCII characters, without zeros. -/
structure AddressLike (address : Utf8String) : Prop where
  long : 4 ≤ address.bytes.length
  short : address.bytes.length ≤ 91
  ascii : ∀ byte ∈ address.bytes, byte ≠ 0 ∧ byte < 128

section Fields

variable {offset size : Nat} {string : Utf8String} {data data' : Bytes}

theorem HoldsString.congr (h : HoldsString offset size string data)
    (hbytes : ∀ o, Within offset (offset + size) o → data'[o]? = data[o]?) : HoldsString offset size string data' := by
  obtain ⟨hnul, rest, hslice⟩ := h
  refine ⟨hnul, rest, ?_⟩
  rw [slice_congr fun o hlow hhigh => hbytes o ⟨hlow, hhigh⟩]
  exact hslice

theorem HoldsAddress.congr (h : HoldsAddress offset data)
    (hbytes : ∀ o, Within offset (offset + 92) o → data'[o]? = data[o]?) : HoldsAddress offset data' := by
  obtain ⟨address, hholds, hlengths⟩ := h
  exact ⟨address, hholds.congr hbytes, hlengths⟩

theorem takeWhile_nulFree {bytes rest : Bytes} (h : 0 ∉ bytes) :
    (bytes ++ 0 :: rest).takeWhile (· ≠ 0) = bytes := by
  have hbytes : ∀ byte ∈ bytes, decide (byte ≠ 0) = true :=
    fun byte hbyte => decide_eq_true fun hzero => h (hzero ▸ hbyte)
  rw [List.takeWhile_append_of_pos hbytes]
  simp

theorem HoldsString.parse (h : HoldsString offset size string data) :
    (readBlock offset size data >>= parseString) = .ok string := by
  obtain ⟨hnul, rest, hslice⟩ := h
  refine bind_eq_ok.mpr ⟨_, readBlock_eq_ok.mpr hslice, ?_⟩
  rw [parseString, takeWhile_nulFree hnul, string.fromUtf8_bytes]

theorem HoldsString.getWalletLast4 (h : HoldsString offset maxAddressSize string data)
    (hlong : 4 ≤ string.bytes.length) : ∃ last4, getWalletLast4 offset data = .ok last4 := by
  obtain ⟨hnul, rest, hslice⟩ := h
  obtain ⟨last4, hlast4⟩ : ∃ last4, slice (string.bytes ++ 0 :: rest) (string.bytes.length - 4) 4 = some last4 := by
    apply slice_isSome
    rw [List.length_append]
    omega
  have hlength := (slice_eq_some.mp hlast4).1
  refine ⟨⟨last4, hlength⟩, bind_eq_ok.mpr ⟨_, readBlock_eq_ok.mpr hslice, ?_⟩⟩
  dsimp only
  rw [takeWhile_nulFree hnul, if_neg (Nat.not_lt.mpr hlong)]
  exact readArray_eq_ok.mpr hlast4

/-- Zeros after a string, which may have zeros in it, end what is read back of it. -/
theorem exists_nulFree (string : Utf8String) (count : Nat) :
    ∃ string' : Utf8String, 0 ∉ string'.bytes ∧ (0 ∉ string.bytes → string' = string) ∧
      ∃ rest, string.bytes ++ List.replicate (count + 1) 0 = string'.bytes ++ 0 :: rest := by
  refine ⟨⟨string.bytes.takeWhile (· ≠ 0), validUtf8_takeWhile string.valid⟩, ?_, ?_, ?_⟩
  · intro hmem
    have hne := List.mem_takeWhile_imp (p := fun byte => decide (byte ≠ 0)) hmem
    exact absurd rfl (of_decide_eq_true hne)
  · intro hnul
    obtain ⟨bytes, hvalid⟩ := string
    congr 1
    rw [List.takeWhile_eq_self_iff]
    exact fun byte hbyte => decide_eq_true fun hzero => hnul (hzero ▸ hbyte)
  · cases hdrop : string.bytes.dropWhile (· ≠ 0) with
    | nil =>
        refine ⟨List.replicate count 0, ?_⟩
        calc string.bytes ++ List.replicate (count + 1) 0
            = string.bytes.takeWhile (· ≠ 0) ++ string.bytes.dropWhile (· ≠ 0) ++ List.replicate (count + 1) 0 := by
              rw [List.takeWhile_append_dropWhile]
          _ = string.bytes.takeWhile (· ≠ 0) ++ 0 :: List.replicate count 0 := by
              rw [hdrop, List.append_nil, List.replicate_succ]
    | cons byte bytes =>
        have hzero : byte = 0 := by
          have hhead := List.head?_dropWhile_not (· ≠ (0 : UInt8)) string.bytes
          rw [hdrop] at hhead
          simpa using hhead
        refine ⟨bytes ++ List.replicate (count + 1) 0, ?_⟩
        calc string.bytes ++ List.replicate (count + 1) 0
            = string.bytes.takeWhile (· ≠ 0) ++ string.bytes.dropWhile (· ≠ 0) ++ List.replicate (count + 1) 0 := by
              rw [List.takeWhile_append_dropWhile]
          _ = string.bytes.takeWhile (· ≠ 0) ++ 0 :: (bytes ++ List.replicate (count + 1) 0) := by
              rw [hdrop, hzero, List.append_assoc, List.cons_append]

/-- A padded string that is shorter than its field ends inside it. -/
theorem holdsString_of_padded (hslice : slice data offset size = some (withPadding string size))
    (hshort : string.bytes.length < size) :
    ∃ string', HoldsString offset size string' data ∧ (0 ∉ string.bytes → string' = string) := by
  obtain ⟨string', hnul, hsame, rest, hrest⟩ := exists_nulFree string (size - string.bytes.length - 1)
  refine ⟨string', ⟨hnul, rest, ?_⟩, hsame⟩
  rw [hslice, withPadding, ← hrest]
  congr 3
  omega

theorem holdsAddress_of_padded (hslice : slice data offset maxAddressSize = some (withPadding string maxAddressSize))
    (hshort : string.bytes.length < maxAddressSize) (hnul : 0 ∉ string.bytes) (hlong : 4 ≤ string.bytes.length) :
    HoldsAddress offset data := by
  obtain ⟨string', hholds, hsame⟩ := holdsString_of_padded hslice hshort
  rw [hsame hnul] at hholds
  exact ⟨string, hholds, hlong, hshort⟩

theorem AddressLike.nulFree {address : Utf8String} (h : AddressLike address) : 0 ∉ address.bytes :=
  fun hmem => absurd rfl (h.ascii 0 hmem).1

/-- What a field was set to. -/
theorem slice_setString (h : setString offset string size data = .ok data') :
    string.bytes.length < size ∧ slice data' offset size = some (withPadding string size) := by
  unfold setString at h
  split at h
  · cases h
  · next hlt =>
      rw [Nat.not_le] at hlt
      obtain ⟨filled, hfill, hcopy⟩ := bind_eq_ok.mp h
      have hfilled := (patch_eq_some (writeBlock_eq_ok.mp hfill)).2.2
      have hcopied := (patch_eq_some (writeBlock_eq_ok.mp hcopy)).2.2
      refine ⟨hlt, slice_eq_some.mpr ⟨withPadding_length hlt.le, fun j hj => ?_⟩⟩
      rw [hcopied, withPadding]
      by_cases hin : j < string.bytes.length
      · rw [if_pos (by omega), List.getElem?_append_left hin, Nat.add_sub_cancel_left]
      · rw [if_neg (by omega), hfilled, List.length_replicate, if_pos (by omega),
          List.getElem?_append_right (by omega), Nat.add_sub_cancel_left, List.getElem?_replicate,
          List.getElem?_replicate, if_pos hj, if_pos (by omega)]

end Fields

/-! ### Accounts -/

/-- The token id and the first wallets of a token account, in data that has grown in whole steps. -/
structure FilledUpTo (count : Nat) (data : Bytes) : Prop where
  steps : maxPermittedDataIncrease ∣ data.length
  room : balancesOffset + count * balanceSize ≤ data.length
  tokenId : ∃ tokenId, HoldsString tokenIdOffset maxTokenIdSize tokenId data
  addresses : ∀ index < count, HoldsAddress (balancesOffset + index * balanceSize) data

/-- What is relied on in the account data: the wallets of a token, the fee address of the program. -/
structure Sound (data : Bytes) : Prop where
  token : getType data = .ok .token → FilledUpTo (numBalances data) data
  program : getType data = .ok .program → HoldsAddress feeAccountOffset data

namespace FilledUpTo

variable {count : Nat} {data data' : Bytes}

theorem mono {count' : Nat} (h : FilledUpTo count data) (hle : count' ≤ count) : FilledUpTo count' data where
  steps := h.steps
  room := Nat.le_trans (Nat.add_le_add_left (Nat.mul_le_mul_right _ hle) _) h.room
  tokenId := h.tokenId
  addresses := fun index hindex => h.addresses index (Nat.lt_of_lt_of_le hindex hle)

theorem congr (h : FilledUpTo count data) (hlength : data'.length = data.length)
    (htokenId : ∀ o, Within 37 69 o → data'[o]? = data[o]?)
    (haddresses : ∀ index < count, ∀ o, AddressBytes index o → data'[o]? = data[o]?) : FilledUpTo count data' where
  steps := by
    rw [hlength]
    exact h.steps
  room := by
    rw [hlength]
    exact h.room
  tokenId := by
    obtain ⟨tokenId, hholds⟩ := h.tokenId
    exact ⟨tokenId, hholds.congr htokenId⟩
  addresses := fun index hindex => (h.addresses index hindex).congr (haddresses index hindex)

theorem write (h : FilledUpTo count data) {put : Bytes → Except Fault Bytes} {region : Nat → Prop}
    (hw : Writes put region) (hput : put data = .ok data') (htokenId : ∀ o, Within 37 69 o → ¬region o)
    (haddresses : ∀ index < count, ∀ o, AddressBytes index o → ¬region o) : FilledUpTo count data' := by
  obtain ⟨hlength, hbytes⟩ := hw data data' hput
  exact h.congr hlength (fun o ho => hbytes o (htokenId o ho))
    fun index hindex o ho => hbytes o (haddresses index hindex o ho)

/-- The bytes that are filled lie in the data. -/
theorem lt_length (h : FilledUpTo count data) {o : Nat}
    (ho : Within 37 69 o ∨ ∃ index < count, AddressBytes index o) : o < data.length := by
  have hroom : 73 + count * 100 ≤ data.length := h.room
  rcases ho with htokenId | ⟨index, hindex, haddress⟩
  · have hhigh := htokenId.2
    omega
  · have hhigh : o < 73 + index * 100 + 92 := haddress.2
    omega

/-- Growth by whole steps keeps what is filled. -/
theorem resize (h : FilledUpTo count data) {len : Nat} (hle : data.length ≤ len)
    (hsteps : maxPermittedDataIncrease ∣ len) : FilledUpTo count (resize data len) where
  steps := by
    rw [resize_length]
    exact hsteps
  room := by
    rw [resize_length]
    exact Nat.le_trans h.room hle
  tokenId := by
    obtain ⟨tokenId, hholds⟩ := h.tokenId
    exact ⟨tokenId, hholds.congr fun o ho => resize_getElem? hle (h.lt_length (Or.inl ho))⟩
  addresses := fun index hindex => (h.addresses index hindex).congr fun o ho =>
    resize_getElem? hle (h.lt_length (Or.inr ⟨index, hindex, ho⟩))

theorem setTokenId (h : FilledUpTo count data) {tokenId : Utf8String}
    (hput : TokenState.setTokenId tokenId data = .ok data') : FilledUpTo count data' := by
  obtain ⟨hlength, hbytes⟩ := writes_setTokenId tokenId data data' hput
  obtain ⟨hshort, hslice⟩ := slice_setString hput
  obtain ⟨tokenId', hholds, -⟩ := holdsString_of_padded hslice hshort
  refine ⟨hlength ▸ h.steps, hlength ▸ h.room, ⟨tokenId', hholds⟩, fun index hindex => ?_⟩
  refine (h.addresses index hindex).congr fun o ho => hbytes o fun hin => ?_
  have hge := AddressBytes.ge ho
  have hhigh := hin.2
  omega

/-- Data that grows in whole steps never ends inside an amount: where an address fits, its amount does. -/
theorem setWalletAddress (h : FilledUpTo count data) {address : Utf8String} (hnul : 0 ∉ address.bytes)
    (hlong : 4 ≤ address.bytes.length) (hput : Balance.setWalletAddress count address data = .ok data') :
    FilledUpTo (count + 1) data' := by
  obtain ⟨hlength, hbytes⟩ := writes_setWalletAddress count address data data' hput
  obtain ⟨hshort, hslice⟩ := slice_setString hput
  have hfits := setWalletAddress_le hput
  obtain ⟨steps, hsteps⟩ : 10240 ∣ data.length := h.steps
  refine ⟨hlength ▸ h.steps, ?_, ?_, fun index hindex => ?_⟩
  · show 73 + (count + 1) * 100 ≤ data'.length
    omega
  · obtain ⟨tokenId, hholds⟩ := h.tokenId
    refine ⟨tokenId, hholds.congr fun o ho => hbytes o fun hin => ?_⟩
    have hge := AddressBytes.ge hin
    have hhigh : o < 69 := ho.2
    omega
  · rcases Nat.lt_succ_iff_lt_or_eq.mp hindex with hlt | rfl
    · exact (h.addresses index hlt).congr fun o ho => hbytes o (addressBytes_disjoint (Nat.ne_of_lt hlt) ho)
    · exact holdsAddress_of_padded hslice hshort hnul hlong

theorem zeros : FilledUpTo 0 (Bytes.resize [] maxPermittedDataIncrease) where
  steps := by
    rw [resize_length]
  room := by
    rw [resize_length]
    decide
  tokenId := by
    refine ⟨⟨[], rfl⟩, List.not_mem_nil, List.replicate 31 0, slice_eq_some.mpr ⟨rfl, fun j hj => ?_⟩⟩
    have hj' : j < 32 := hj
    have hzeros : ([] : Bytes) ++ 0 :: List.replicate 31 0 = List.replicate 32 0 := rfl
    rw [hzeros, Bytes.resize, List.take_nil, List.nil_append, List.getElem?_replicate, List.getElem?_replicate,
      if_pos hj', if_pos]
    simp
    omega
  addresses := fun index hindex => absurd hindex (Nat.not_lt_zero index)

end FilledUpTo

theorem numBalances_zeros (len : Nat) : numBalances (resize [] len) = 0 := by
  unfold numBalances
  cases hslice : slice (resize [] len) balanceCountOffset 4 with
  | none => rfl
  | some block =>
      obtain ⟨hlength, hbytes⟩ := slice_eq_some.mp hslice
      apply toWord_zeros
      intro byte hmem
      obtain ⟨j, hj⟩ := List.mem_iff_getElem?.mp hmem
      have hlt : j < block.length := (List.getElem?_eq_some_iff.mp hj).1
      rcases resize_byte ((hbytes j (by omega)).trans hj) with hnone | hzero
      · cases hnone
      · exact hzero

/-- A token account while its wallets are being filled in: how many are there, and how many it counts. -/
structure Filling (count counted : Nat) (data : Bytes) : Prop extends FilledUpTo count data where
  kind : getType data = .ok .token
  counts : numBalances data = counted

namespace Filling

variable {count counted : Nat} {data data' : Bytes}

theorem sound (h : Filling count counted data) (hle : counted ≤ count) : Sound data where
  token := fun _ => by
    rw [h.counts]
    exact h.mono hle
  program := fun hprogram => by cases h.kind.symm.trans hprogram

theorem of_sound (h : Sound data) (hkind : getType data = .ok .token) :
    Filling (numBalances data) (numBalances data) data :=
  ⟨h.token hkind, hkind, rfl⟩

theorem setProgramAccount (h : Filling count counted data) {pubkey : Pubkey}
    (hput : TokenState.setProgramAccount pubkey data = .ok data') : Filling count counted data' := by
  have hw := writes_setProgramAccount pubkey
  refine ⟨h.write hw hput (fun o ho hin => ?_) fun index _ o ho hin => ?_, ?_, ?_⟩
  · exact absurd ho.1 (Nat.not_le.mpr hin.2)
  · exact absurd (AddressBytes.ge ho) (Nat.not_le.mpr (Nat.lt_trans hin.2 (by decide)))
  · exact (getType_of_writes hw (fun o ho => Nat.le_trans (by decide) ho.1) hput).trans h.kind
  · rw [← h.counts]
    exact numBalances_congr fun o ho => (hw data data' hput).2 o fun hin =>
      absurd ho.1 (Nat.not_le.mpr (Nat.lt_trans hin.2 (by decide)))

theorem setTokenId (h : Filling count counted data) {tokenId : Utf8String}
    (hput : TokenState.setTokenId tokenId data = .ok data') : Filling count counted data' := by
  have hw := writes_setTokenId tokenId
  refine ⟨h.toFilledUpTo.setTokenId hput, ?_, ?_⟩
  · exact (getType_of_writes hw (fun o ho => Nat.le_trans (by decide) ho.1) hput).trans h.kind
  · rw [← h.counts]
    exact numBalances_congr fun o ho => (hw data data' hput).2 o fun hin => absurd ho.1 (Nat.not_le.mpr hin.2)

theorem setNumBalances (h : Filling count counted data) {n : Nat}
    (hput : TokenState.setNumBalances n data = .ok data') : Filling count (n % 2 ^ 32) data' := by
  have hw := writes_setNumBalances n
  refine ⟨h.write hw hput (fun o ho hin => ?_) fun index _ o ho hin => ?_, ?_, numBalances_setNumBalances hput⟩
  · exact absurd hin.1 (Nat.not_le.mpr ho.2)
  · exact absurd (AddressBytes.ge ho) (Nat.not_le.mpr hin.2)
  · exact (getType_of_writes hw (fun o ho => Nat.le_trans (by decide) ho.1) hput).trans h.kind

theorem setWalletAddress (h : Filling count counted data) {address : Utf8String} (hnul : 0 ∉ address.bytes)
    (hlong : 4 ≤ address.bytes.length) (hput : Balance.setWalletAddress count address data = .ok data') :
    Filling (count + 1) counted data' := by
  have hw := writes_setWalletAddress count address
  refine ⟨h.toFilledUpTo.setWalletAddress hnul hlong hput, ?_, ?_⟩
  · exact (getType_of_writes hw (fun o ho => Nat.le_trans (by decide) (AddressBytes.ge ho)) hput).trans h.kind
  · rw [← h.counts]
    exact numBalances_congr fun o ho => (hw data data' hput).2 o fun hin =>
      absurd (AddressBytes.ge hin) (Nat.not_le.mpr ho.2)

end Filling

namespace Sound

variable {data data' : Bytes}

theorem of_type {accountType : AccountType} (h : getType data = .ok accountType) (htoken : accountType ≠ .token)
    (hprogram : accountType ≠ .program) : Sound data where
  token := fun hkind => absurd (Except.ok.inj (h.symm.trans hkind)) htoken
  program := fun hkind => absurd (Except.ok.inj (h.symm.trans hkind)) hprogram

theorem zeros (len : Nat) : Sound (Bytes.resize [] len) where
  token := fun hkind => by cases getType_zeros hkind
  program := fun hkind => by cases getType_zeros hkind

/-- A change to the key that an account belongs with. -/
theorem writeKey (h : Sound data) {put : Bytes → Except Fault Bytes} (hw : Writes put (Within 5 37))
    (hput : put data = .ok data') : Sound data' := by
  obtain ⟨hlength, hbytes⟩ := hw data data' hput
  have htype := getType_of_writes hw (fun o ho => Nat.le_trans (by decide) ho.1) hput
  have hsame : ∀ o, 37 ≤ o → data'[o]? = data[o]? := fun o hlow => hbytes o fun hin => by
    have hhigh := hin.2
    omega
  have hcount : numBalances data' = numBalances data :=
    numBalances_congr fun o ho => hsame o (Nat.le_trans (by decide) ho.1)
  refine ⟨fun hkind => ?_, fun hkind => ?_⟩
  · rw [hcount]
    refine (h.token (htype.symm.trans hkind)).congr hlength (fun o ho => hsame o ho.1) fun index _ o ho => ?_
    exact hsame o (Nat.le_trans (by decide) (AddressBytes.ge ho))
  · exact (h.program (htype.symm.trans hkind)).congr fun o ho => hsame o ho.1

end Sound

/-! ### What the accessors rely on -/

structure WellFormed (data : Bytes) : Prop where
  room : balancesOffset + numBalances data * balanceSize ≤ data.length
  tokenId : ∃ tokenId, HoldsString tokenIdOffset maxTokenIdSize tokenId data
  addresses : ∀ index < numBalances data, HoldsAddress (balancesOffset + index * balanceSize) data

/-- The program account has room for its events, and the token accounts are well formed. -/
structure StateWellFormed (accountData : Pubkey → Bytes) (program : Pubkey) : Prop where
  room : runeReceiverOffset ≤ (accountData program).length
  tokens : ∀ key, getType (accountData key) = .ok .token → WellFormed (accountData key)

/-- Neither a panic nor a complaint about the account data. -/
def Answered {α : Type} (result : Except Fault α) : Prop :=
  result ≠ .error .panic ∧ result ≠ .error (.error .invalidAccountData)

/-- The accessors answer for every wallet. -/
structure Answers (rt : Runtime) (data : Bytes) : Prop where
  validatedIndex : ∀ addressIndex : AddressIndex, addressIndex.index.toNat < numBalances data →
    Answered (getValidatedIndex addressIndex data)
  walletAddress : ∀ index < numBalances data, Answered (Balance.getWalletAddress index data)
  walletAddressLast4 : ∀ index < numBalances data, Answered (Balance.getWalletAddressLast4 index data)
  walletBalance : ∀ index < numBalances data, Answered (Balance.getWalletBalance index data)
  isRuneAccount : Answered (TokenState.isRuneAccount rt data)

section Accessors

variable {data : Bytes}

theorem Answered.ok {α : Type} {result : Except Fault α} {value : α} (h : result = .ok value) : Answered result := by
  subst h
  exact ⟨nofun, nofun⟩

theorem Answered.custom {α : Type} {result : Except Fault α} (code : UInt32)
    (h : result = .error (.error (.custom code))) : Answered result := by
  subst h
  exact ⟨nofun, nofun⟩

theorem WellFormed.last4 (h : WellFormed data) {index : Nat} (hindex : index < numBalances data) :
    ∃ last4, Balance.getWalletAddressLast4 index data = .ok last4 := by
  obtain ⟨address, hholds, hlong, -⟩ := h.addresses index hindex
  exact hholds.getWalletLast4 hlong

theorem WellFormed.validatedIndex (h : WellFormed data) {addressIndex : AddressIndex}
    (hindex : addressIndex.index.toNat < numBalances data) : Answered (getValidatedIndex addressIndex data) := by
  obtain ⟨last4, hlast4⟩ := h.last4 hindex
  by_cases hequal : last4 = addressIndex.last4
  · rw [hequal] at hlast4
    exact Answered.ok (getValidatedIndex_eq_ok.mpr ⟨⟨hindex, hlast4⟩, rfl⟩)
  · apply Answered.custom errorWalletLast4Mismatch
    unfold getValidatedIndex
    rw [getNumBalances_of_lt hindex]
    show (if numBalances data ≤ addressIndex.index.toNat then _ else _ : Except Fault Nat) = _
    rw [if_neg (Nat.not_le.mpr hindex), hlast4]
    exact if_neg hequal

/-- A wallet in use has room for its amount. -/
theorem WellFormed.hasAmount (h : WellFormed data) {index : Nat} (hindex : index < numBalances data) :
    HasAmount data index := by
  have hroom : 73 + numBalances data * 100 ≤ data.length := h.room
  show 73 + index * 100 + 92 + 8 ≤ data.length
  omega

theorem WellFormed.walletBalance (h : WellFormed data) {index : Nat} (hindex : index < numBalances data) :
    Balance.getWalletBalance index data = .ok (UInt64.ofNat (amountAt data index)) := by
  refine getWalletBalance_eq_ok.mpr ⟨h.hasAmount hindex, ?_⟩
  rw [UInt64.toNat_ofNat', Nat.mod_eq_of_lt (amountAt_lt data index)]

theorem ofNat_amountAt_lt_iff (data : Bytes) (index : Nat) (amount : UInt64) :
    UInt64.ofNat (amountAt data index) < amount ↔ amountAt data index < amount.toNat := by
  rw [UInt64.lt_iff_toNat_lt, UInt64.toNat_ofNat', Nat.mod_eq_of_lt (amountAt_lt _ _)]

theorem WellFormed.answers (h : WellFormed data) (rt : Runtime) : Answers rt data where
  validatedIndex := fun _ hindex => h.validatedIndex hindex
  walletAddress := by
    intro index hindex
    obtain ⟨address, hholds, -⟩ := h.addresses index hindex
    exact Answered.ok hholds.parse
  walletAddressLast4 := by
    intro index hindex
    obtain ⟨last4, hlast4⟩ := h.last4 hindex
    exact Answered.ok hlast4
  walletBalance := fun _ hindex => Answered.ok (h.walletBalance hindex)
  isRuneAccount := by
    obtain ⟨tokenId, hholds⟩ := h.tokenId
    have hread : TokenState.getTokenId data = .ok tokenId := hholds.parse
    have hrune : TokenState.isRuneAccount rt data = .ok (TokenState.isRuneId rt tokenId) := by
      rw [TokenState.isRuneAccount, hread]
      rfl
    exact Answered.ok hrune

end Accessors

/-! ### The accounts of the small world -/

theorem padded_length {size : Nat} {bytes : Bytes} (h : bytes.length ≤ size) : (padded size bytes).length = size := by
  rw [padded, zeros, List.length_append, List.length_replicate]
  omega

theorem holdsString_padded {offset size : Nat} {string : Utf8String} {data : Bytes} (before after : Bytes)
    (hnul : 0 ∉ string.bytes) (hlt : string.bytes.length < size)
    (hdata : data = before ++ padded size string.bytes ++ after) (hbefore : before.length = offset) :
    HoldsString offset size string data := by
  have hslice := Bytes.slice_of_eq before (padded size string.bytes) after hdata hbefore
    (padded_length (Nat.le_of_lt hlt))
  refine ⟨hnul, List.replicate (size - string.bytes.length - 1) 0, ?_⟩
  rw [hslice, padded, zeros, ← List.replicate_succ, Nat.sub_add_cancel (by omega)]

theorem tokenData_length {tokenId : Bytes} (htoken : tokenId.length < 32) (feeBalance first second : Nat) :
    (tokenData tokenId feeBalance first second).length = 10240 := by
  simp only [tokenData, zeros, List.length_append, List.length_replicate, List.length_cons, List.length_nil,
    padded_length (Nat.le_of_lt htoken), Bytes.ofWord_length, sampleProgram.2]
  decide

theorem numBalances_tokenData {tokenId : Bytes} (htoken : tokenId.length < 32) (feeBalance first second : Nat) :
    numBalances (tokenData tokenId feeBalance first second) = 3 := by
  have hslice : slice (tokenData tokenId feeBalance first second) balanceCountOffset 4 = some (Bytes.ofWord 4 3) := by
    apply Bytes.slice_of_eq ([2, 0, 0, 0, 0] ++ sampleProgram.1 ++ padded 32 tokenId) (Bytes.ofWord 4 3)
      (padded 92 feeAddress ++ Bytes.ofWord 8 feeBalance ++ padded 92 firstAddress ++ Bytes.ofWord 8 first ++
        padded 92 secondAddress ++ Bytes.ofWord 8 second ++ zeros 9867)
    · simp only [tokenData, List.append_assoc]
    · rw [List.length_append, padded_length (Nat.le_of_lt htoken)]
      rfl
    · rfl
  rw [numBalances, hslice]
  decide

theorem tokenData_wellFormed (tokenId : Utf8String) (hnul : 0 ∉ tokenId.bytes) (htoken : tokenId.bytes.length < 32)
    (feeBalance first second : Nat) : WellFormed (tokenData tokenId.bytes feeBalance first second) where
  room := by
    rw [tokenData_length htoken, numBalances_tokenData htoken]
    decide
  tokenId := by
    refine ⟨tokenId, holdsString_padded ([2, 0, 0, 0, 0] ++ sampleProgram.1) (Bytes.ofWord 4 3 ++
      padded 92 feeAddress ++ Bytes.ofWord 8 feeBalance ++ padded 92 firstAddress ++ Bytes.ofWord 8 first ++
      padded 92 secondAddress ++ Bytes.ofWord 8 second ++ zeros 9867) hnul htoken ?_ rfl⟩
    simp only [tokenData, List.append_assoc, maxTokenIdSize]
  addresses := by
    rw [numBalances_tokenData htoken]
    have hstart : ([2, 0, 0, 0, 0] ++ sampleProgram.1 ++ padded 32 tokenId.bytes ++ Bytes.ofWord 4 3).length = 73 := by
      rw [List.length_append, List.length_append, padded_length (Nat.le_of_lt htoken)]
      rfl
    have hamount : ∀ value, (Bytes.ofWord 8 value).length = 8 := fun value => Bytes.ofWord_length 8 value
    intro index hindex
    match index with
    | 0 =>
        refine ⟨⟨feeAddress, by decide⟩, ?_, by decide, by decide⟩
        refine holdsString_padded ([2, 0, 0, 0, 0] ++ sampleProgram.1 ++ padded 32 tokenId.bytes ++
          Bytes.ofWord 4 3) (Bytes.ofWord 8 feeBalance ++ padded 92 firstAddress ++ Bytes.ofWord 8 first ++
          padded 92 secondAddress ++ Bytes.ofWord 8 second ++ zeros 9867) (by decide) (by decide) ?_ hstart
        simp only [tokenData, List.append_assoc, maxAddressSize]
    | 1 =>
        refine ⟨⟨firstAddress, by decide⟩, ?_, by decide, by decide⟩
        refine holdsString_padded ([2, 0, 0, 0, 0] ++ sampleProgram.1 ++ padded 32 tokenId.bytes ++
          Bytes.ofWord 4 3 ++ (padded 92 feeAddress ++ Bytes.ofWord 8 feeBalance)) (Bytes.ofWord 8 first ++
          padded 92 secondAddress ++ Bytes.ofWord 8 second ++ zeros 9867) (by decide) (by decide) ?_ ?_
        · simp only [tokenData, List.append_assoc, maxAddressSize]
        · rw [List.length_append, hstart, List.length_append, hamount]
          rfl
    | 2 =>
        refine ⟨⟨secondAddress, by decide⟩, ?_, by decide, by decide⟩
        refine holdsString_padded ([2, 0, 0, 0, 0] ++ sampleProgram.1 ++ padded 32 tokenId.bytes ++
          Bytes.ofWord 4 3 ++ (padded 92 feeAddress ++ Bytes.ofWord 8 feeBalance ++ padded 92 firstAddress ++
          Bytes.ofWord 8 first)) (Bytes.ofWord 8 second ++ zeros 9867) (by decide) (by decide) ?_ ?_
        · simp only [tokenData, List.append_assoc, maxAddressSize]
        · rw [List.length_append, hstart, List.length_append, List.length_append, List.length_append, hamount,
            hamount]
          rfl

theorem sampleWorld_data {entries : List (Pubkey × Bytes)}
    (hsize : ∀ entry ∈ entries, entry.2.length ≤ maxPermittedDataLength) (key : Pubkey) :
    (sampleWorld entries key).data = ((entries.find? (·.1 = key)).map Prod.snd).getD [] := by
  apply List.take_of_length_le
  cases hfind : entries.find? (·.1 = key) with
  | none => exact Nat.zero_le _
  | some entry => exact hsize entry (List.mem_of_find?_eq_some hfind)

/-- A small world is well formed where its token accounts are. -/
theorem sampleWorld_wellFormed {entries : List (Pubkey × Bytes)} {program : Pubkey}
    (hsize : ∀ entry ∈ entries, entry.2.length ≤ maxPermittedDataLength)
    (hroom : runeReceiverOffset ≤ (sampleWorld entries program).data.length)
    (htokens : ∀ entry ∈ entries, getType entry.2 = .ok .token → WellFormed entry.2) :
    StateWellFormed (fun key => (sampleWorld entries key).data) program where
  room := hroom
  tokens := by
    intro key htoken
    rw [sampleWorld_data hsize] at htoken ⊢
    cases hfind : entries.find? (·.1 = key) with
    | none =>
        rw [hfind] at htoken
        cases htoken
    | some entry =>
        rw [hfind] at htoken
        exact htokens entry (List.mem_of_find?_eq_some hfind) htoken

end Chainring.Arch

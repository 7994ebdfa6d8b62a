import Chainring.Arch.Run
import Chainring.Arch.StateCodecs

/-! The accessors that work on the account data in place, against the encodings of the states: on the
encoding of a state and a tail they read its fields, and what they write is the encoding of the state with
that field changed and a tail. -/

namespace Chainring.Arch

open Bytes (ofWord toWord ofWord_length toWord_ofWord slice_of_eq patch_of_eq toWord_lt)

/-! ### One field between what comes before and after it -/

section Field

variable {data : Bytes} {offset len : Nat}

theorem readBlock_at (before block after : Bytes) (hdata : data = before ++ block ++ after)
    (hbefore : before.length = offset) (hblock : block.length = len) :
    readBlock offset len data = .ok block :=
  readBlock_eq_ok.mpr (slice_of_eq before block after hdata hbefore hblock)

theorem readArray_at (before : Bytes) (block : FixedBytes len) (after : Bytes)
    (hdata : data = before ++ block.1 ++ after) (hbefore : before.length = offset) :
    readArray offset len data = .ok block :=
  readArray_eq_ok.mpr (slice_of_eq before block.1 after hdata hbefore block.2)

theorem writeBlock_at {block : Bytes} (before old after : Bytes) (hdata : data = before ++ old ++ after)
    (hbefore : before.length = offset) (hblock : old.length = block.length) :
    writeBlock offset block data = .ok (before ++ block ++ after) :=
  writeBlock_eq_ok.mpr (patch_of_eq before old after hdata hbefore hblock)

theorem readWord_at {word : Nat} (before after : Bytes) (hdata : data = before ++ ofWord len word ++ after)
    (hbefore : before.length = offset) :
    (do let block ← readBlock offset len data; pure (toWord block)) = .ok (word % 256 ^ len) := by
  rw [readBlock_at before _ after hdata hbefore (ofWord_length _ _), ← toWord_ofWord]
  rfl

theorem readU64_at {word : UInt64} (before after : Bytes)
    (hdata : data = before ++ ofWord 8 word.toNat ++ after) (hbefore : before.length = offset) :
    (do let block ← readBlock offset 8 data; pure (UInt64.ofNat (toWord block))) = .ok word := by
  have hword : UInt64.ofNat (toWord (ofWord 8 word.toNat)) = word := by
    rw [toWord_ofWord, Nat.mod_eq_of_lt (show word.toNat < 256 ^ 8 from word.toNat_lt), UInt64.ofNat_toNat]
  rw [readBlock_at before _ after hdata hbefore (ofWord_length _ _)]
  exact congrArg Except.ok hword

theorem readByte_at {α : Type} {byte : UInt8} (decode : UInt8 → α) (before after : Bytes)
    (hdata : data = before ++ [byte] ++ after) (hbefore : before.length = offset) :
    (do let block ← readArray offset 1 data; pure (decode (UInt8.ofNat (toWord block.1)))) =
      .ok (decode byte) := by
  have hread : readArray offset 1 data = .ok ⟨[byte], rfl⟩ :=
    readArray_at before ⟨[byte], rfl⟩ after hdata hbefore
  have hbyte : UInt8.ofNat (toWord [byte]) = byte := by simp [toWord]
  rw [hread]
  show Except.ok (decode (UInt8.ofNat (toWord [byte]))) = _
  rw [hbyte]

theorem parseString_withPadding {v : Utf8String} (h : 0 ∉ v.bytes) :
    parseString (withPadding v len) = .ok v := by
  rw [parseString, takeWhile_withPadding h, v.fromUtf8_bytes]

theorem getAddress_at {v : Utf8String} (h : Padded v maxAddressSize) (before after : Bytes)
    (hdata : data = before ++ withPadding v maxAddressSize ++ after) (hbefore : before.length = offset) :
    getAddress offset data = .ok v := by
  rw [getAddress, readBlock_at before _ after hdata hbefore (withPadding_length h.short.le)]
  exact parseString_withPadding h.nulFree

theorem getWalletLast4_at {v : Utf8String} (h : Padded v maxAddressSize) (hlong : 4 ≤ v.bytes.length)
    (before after : Bytes) (hdata : data = before ++ withPadding v maxAddressSize ++ after)
    (hbefore : before.length = offset) :
    (getWalletLast4 offset data).map Subtype.val = .ok (v.bytes.drop (v.bytes.length - 4)) := by
  have hlast : (v.bytes.drop (v.bytes.length - 4)).length = 4 := by
    rw [List.length_drop]
    omega
  have hsplit : withPadding v maxAddressSize =
      v.bytes.take (v.bytes.length - 4) ++ v.bytes.drop (v.bytes.length - 4) ++
        List.replicate (maxAddressSize - v.bytes.length) 0 := by
    rw [List.take_append_drop]
    rfl
  have hread : readArray (v.bytes.length - 4) 4 (withPadding v maxAddressSize) =
      .ok ⟨v.bytes.drop (v.bytes.length - 4), hlast⟩ := by
    apply readArray_at _ _ _ hsplit
    rw [List.length_take]
    omega
  rw [getWalletLast4, readBlock_at before _ after hdata hbefore (withPadding_length h.short.le)]
  show (if ((withPadding v maxAddressSize).takeWhile (· ≠ 0)).length < 4 then _ else _ :
    Except Fault WalletLast4).map Subtype.val = _
  rw [takeWhile_withPadding h.nulFree, if_neg (Nat.not_lt.mpr hlong), hread]
  rfl

/-- A string that is too long for its field is refused, any other replaces what was there. -/
theorem setString_at {v : Utf8String} (h : v.bytes.length < len) (before old after : Bytes)
    (hdata : data = before ++ old ++ after) (hbefore : before.length = offset) (hold : old.length = len) :
    setString offset v len data = .ok (before ++ withPadding v len ++ after) := by
  have hzeros : List.replicate len (0 : UInt8) =
      List.replicate v.bytes.length 0 ++ List.replicate (len - v.bytes.length) 0 := by
    rw [List.replicate_append_replicate]
    congr 1
    omega
  have hfill : writeBlock offset (List.replicate len 0) data =
      .ok (before ++ List.replicate len 0 ++ after) :=
    writeBlock_at before old after hdata hbefore (by rw [hold, List.length_replicate])
  have hcopy : writeBlock offset v.bytes (before ++ List.replicate len 0 ++ after) =
      .ok (before ++ v.bytes ++ (List.replicate (len - v.bytes.length) 0 ++ after)) := by
    apply writeBlock_at before (List.replicate v.bytes.length 0) _ _ hbefore (List.length_replicate ..)
    rw [hzeros]
    simp only [List.append_assoc]
  rw [setString, if_neg (Nat.not_le.mpr h), hfill]
  show writeBlock offset v.bytes (before ++ List.replicate len 0 ++ after) = _
  rw [hcopy, withPadding]
  simp only [List.append_assoc]

theorem setString_long {v : Utf8String} (h : len ≤ v.bytes.length) :
    setString offset v len data = .error (.error (.custom errorValueTooLarge)) :=
  if_pos h

end Field

/-! ### Token accounts -/

namespace TokenState

/-- The account data is the encoding of the state and a tail. -/
def StoredAs (state : TokenState) (data tail : Bytes) : Prop :=
  ∃ bytes, state.encode = .ok bytes ∧ data = bytes ++ tail

def withAmount (state : TokenState) (index : Nat) (balance : Balance) (amount : UInt64) : TokenState :=
  { state with balances := state.balances.set index { balance with balance := amount } }

def withWallet (state : TokenState) (address : Utf8String) : TokenState :=
  { state with balances := state.balances ++ [{ address, balance := 0 }] }

/-- The readers of account data give the fields of the state. -/
structure Reads (state : TokenState) (data : Bytes) : Prop where
  decode : decodeFromSlice TokenState.decode data = .ok state
  accountType : getType data = .ok state.accountType
  numBalances : getNumBalances data = .ok state.balances.length
  tokenId : getTokenId data = .ok state.tokenId
  programStateAccount : getProgramStateAccountKey data = .ok state.programStateAccount
  walletAddress : ∀ index balance, state.balances[index]? = some balance →
    Balance.getWalletAddress index data = .ok balance.address
  walletAddressLast4 : ∀ index balance, state.balances[index]? = some balance →
    4 ≤ balance.address.bytes.length →
    (Balance.getWalletAddressLast4 index data).map Subtype.val =
      .ok (balance.address.bytes.drop (balance.address.bytes.length - 4))
  walletBalance : ∀ index balance, state.balances[index]? = some balance →
    Balance.getWalletBalance index data = .ok balance.balance

/-- When the writers of account data succeed, and the states that are stored after them. -/
structure Updates (state : TokenState) (data tail : Bytes) : Prop where
  tokenId : ∀ tokenId data', setTokenId tokenId data = .ok data' ↔
    tokenId.bytes.length < maxTokenIdSize ∧ { state with tokenId := tokenId }.StoredAs data' tail
  walletBalance : ∀ index balance amount data', state.balances[index]? = some balance →
    (Balance.setWalletBalance index amount data = .ok data' ↔
      (state.withAmount index balance amount).StoredAs data' tail)
  increment : ∀ index balance amount data', state.balances[index]? = some balance →
    (Balance.incrementWalletBalance index amount data = .ok data' ↔
      (state.withAmount index balance (balance.balance + amount)).StoredAs data' tail)
  decrement : ∀ index balance amount data', state.balances[index]? = some balance →
    (Balance.decrementWalletBalance index amount data = .ok data' ↔
      amount ≤ balance.balance ∧
        (state.withAmount index balance (balance.balance - amount)).StoredAs data' tail)
  wallet : ∀ address rest data', tail = List.replicate balanceSize 0 ++ rest →
    (Balance.setWalletAddress state.balances.length address data >>=
        setNumBalances (state.balances.length + 1) = .ok data' ↔
      address.bytes.length < maxAddressSize ∧ (state.withWallet address).StoredAs data' rest)

theorem Fits.storedAs_iff {state : TokenState} (h : state.Fits) {data tail : Bytes} :
    state.StoredAs data tail ↔ data = state.image ++ tail := by
  unfold StoredAs
  rw [h.encode_image]
  simp

theorem Fits.ok_iff {state : TokenState} (h : state.Fits) {result : Except Fault Bytes} {tail : Bytes}
    (hresult : result = .ok (state.image ++ tail)) (data' : Bytes) :
    result = .ok data' ↔ state.StoredAs data' tail := by
  rw [h.storedAs_iff, hresult, Except.ok.injEq, eq_comm]

theorem Fits.withAmount {state : TokenState} (h : state.Fits) {index : Nat} {balance : Balance}
    (hbalance : state.balances[index]? = some balance) (amount : UInt64) :
    (state.withAmount index balance amount).Fits where
  tokenId := h.tokenId
  addresses := by
    intro balance' hbalance'
    obtain hold | rfl := List.mem_or_eq_of_mem_set hbalance'
    · exact h.addresses balance' hold
    · exact h.addresses balance (List.mem_of_getElem? hbalance)

theorem Fits.withWallet {state : TokenState} (h : state.Fits) {address : Utf8String}
    (haddress : address.bytes.length ≤ maxAddressSize) : (state.withWallet address).Fits where
  tokenId := h.tokenId
  addresses := by
    intro balance hbalance
    obtain hold | hnew := List.mem_append.mp hbalance
    · exact h.addresses balance hold
    · obtain rfl := List.mem_singleton.mp hnew
      exact haddress

/-- What comes before the balances. -/
def head (state : TokenState) (numBalances : Nat) : Bytes :=
  [state.accountType.encode] ++ ofWord 4 state.version.toNat ++ state.programStateAccount.1 ++
    withPadding state.tokenId maxTokenIdSize ++ ofWord 4 numBalances

theorem Fits.head_length {state : TokenState} (h : state.Fits) (numBalances : Nat) :
    (state.head numBalances).length = balancesOffset := by
  have hkey : state.programStateAccount.1.length = 32 := state.programStateAccount.2
  have htokenId : (withPadding state.tokenId 32).length = 32 := withPadding_length h.tokenId
  simp [head, hkey, htokenId]

theorem Fits.balances_length {state : TokenState} (h : state.Fits) :
    (state.balances.flatMap Balance.image).length = state.balances.length * balanceSize :=
  flatMap_length fun balance hbalance => Balance.image_length (h.addresses balance hbalance)

/-- A balance stands at its slot, and another one may take its place. -/
theorem Fits.slot {state : TokenState} (h : state.Fits) {index : Nat} {balance : Balance}
    (hbalance : state.balances[index]? = some balance) :
    ∃ before after, before.length = balancesOffset + index * balanceSize ∧
      state.image = before ++ balance.image ++ after ∧
      ∀ amount, (state.withAmount index balance amount).image =
        before ++ ({ balance with balance := amount } : Balance).image ++ after := by
  obtain ⟨hlt, hget⟩ := List.getElem?_eq_some_iff.mp hbalance
  have hset : ∀ balance', state.balances.set index balance' =
      state.balances.take index ++ balance' :: state.balances.drop (index + 1) := by
    intro balance'
    rw [List.set_eq_take_append_cons_drop, if_pos hlt]
  have hbalances : state.balances =
      state.balances.take index ++ balance :: state.balances.drop (index + 1) := by
    rw [← hset, ← hget, List.set_getElem_self]
  refine ⟨state.head state.balances.length ++ (state.balances.take index).flatMap Balance.image,
    (state.balances.drop (index + 1)).flatMap Balance.image, ?_, ?_, fun amount => ?_⟩
  · have hsize : ((state.balances.take index).flatMap Balance.image).length = index * balanceSize := by
      rw [flatMap_length fun other hother =>
        Balance.image_length (h.addresses other (List.mem_of_mem_take hother)), List.length_take,
        Nat.min_eq_left hlt.le]
    rw [List.length_append, h.head_length, hsize]
  · calc state.image
        = state.head state.balances.length ++ state.balances.flatMap Balance.image := rfl
      _ = state.head state.balances.length ++
            (state.balances.take index ++ balance :: state.balances.drop (index + 1)).flatMap Balance.image :=
          congrArg (fun balances => _ ++ List.flatMap Balance.image balances) hbalances
      _ = _ := by simp only [List.flatMap_append, List.flatMap_cons, List.append_assoc]
  · show state.head (state.balances.set index _).length ++
      (state.balances.set index _).flatMap Balance.image = _
    rw [List.length_set, hset]
    simp only [List.flatMap_append, List.flatMap_cons, List.append_assoc]

theorem Fits.amount_offset {state : TokenState} (h : state.Fits) {index : Nat} {balance : Balance}
    (hbalance : state.balances[index]? = some balance) {before : Bytes}
    (hbefore : before.length = balancesOffset + index * balanceSize) :
    (before ++ withPadding balance.address maxAddressSize).length =
      balancesOffset + index * balanceSize + balanceAmountOffset := by
  have haddress := withPadding_length (h.addresses balance (List.mem_of_getElem? hbalance))
  rw [List.length_append, hbefore, haddress]
  rfl

theorem Fits.getWalletBalance_image {state : TokenState} (h : state.Fits) {index : Nat} {balance : Balance}
    (hbalance : state.balances[index]? = some balance) (tail : Bytes) :
    Balance.getWalletBalance index (state.image ++ tail) = .ok balance.balance := by
  obtain ⟨before, after, hbefore, himage, _⟩ := h.slot hbalance
  apply readU64_at (before ++ withPadding balance.address maxAddressSize) (after ++ tail) _
    (h.amount_offset hbalance hbefore)
  rw [himage, Balance.image]
  simp only [List.append_assoc]

theorem Fits.setWalletBalance_image {state : TokenState} (h : state.Fits) {index : Nat} {balance : Balance}
    (hbalance : state.balances[index]? = some balance) (amount : UInt64) (tail : Bytes) :
    Balance.setWalletBalance index amount (state.image ++ tail) =
      .ok ((state.withAmount index balance amount).image ++ tail) := by
  obtain ⟨before, after, hbefore, himage, himage'⟩ := h.slot hbalance
  have hwrite : Balance.setWalletBalance index amount (state.image ++ tail) =
      .ok (before ++ withPadding balance.address maxAddressSize ++ ofWord 8 amount.toNat ++ (after ++ tail)) := by
    apply writeBlock_at _ (ofWord 8 balance.balance.toNat) (after ++ tail) _
      (h.amount_offset hbalance hbefore) (by rw [ofWord_length, ofWord_length])
    rw [himage, Balance.image]
    simp only [List.append_assoc]
  rw [hwrite, himage', Balance.image]
  simp only [List.append_assoc]

theorem Fits.setTokenId_image {state : TokenState} (h : state.Fits) {tokenId : Utf8String}
    (hshort : tokenId.bytes.length < maxTokenIdSize) (tail : Bytes) :
    setTokenId tokenId (state.image ++ tail) = .ok ({ state with tokenId := tokenId }.image ++ tail) := by
  have hset : setTokenId tokenId (state.image ++ tail) =
      .ok ([state.accountType.encode] ++ ofWord 4 state.version.toNat ++ state.programStateAccount.1 ++
        withPadding tokenId maxTokenIdSize ++ (ofWord 4 state.balances.length ++
          state.balances.flatMap Balance.image ++ tail)) := by
    apply setString_at hshort _ (withPadding state.tokenId maxTokenIdSize) _ _ _
      (withPadding_length h.tokenId)
    · simp only [image, List.append_assoc]
    · have hkey : state.programStateAccount.1.length = 32 := state.programStateAccount.2
      simp [hkey]
  rw [hset]
  simp only [image, List.append_assoc]

/-- The first slot after the balances takes the address, and its amount is what the tail has there. -/
theorem Fits.appendWallet_image {state : TokenState} (h : state.Fits) {address : Utf8String}
    (hshort : address.bytes.length < maxAddressSize) (rest : Bytes) :
    (do
      let data ← Balance.setWalletAddress state.balances.length address
        (state.image ++ (List.replicate balanceSize 0 ++ rest))
      setNumBalances (state.balances.length + 1) data) =
      .ok ((state.withWallet address).image ++ rest) := by
  have hzeros : List.replicate balanceSize (0 : UInt8) = List.replicate maxAddressSize 0 ++ ofWord 8 0 := rfl
  have haddress : Balance.setWalletAddress state.balances.length address
      (state.image ++ (List.replicate balanceSize 0 ++ rest)) =
      .ok (state.image ++ withPadding address maxAddressSize ++ (ofWord 8 0 ++ rest)) := by
    apply setString_at hshort state.image (List.replicate maxAddressSize 0) _ _ _ (List.length_replicate ..)
    · rw [hzeros]
      simp only [List.append_assoc]
    · show (state.head state.balances.length ++ state.balances.flatMap Balance.image).length = _
      rw [List.length_append, h.head_length, h.balances_length]
  have hcount : setNumBalances (state.balances.length + 1)
      (state.image ++ withPadding address maxAddressSize ++ (ofWord 8 0 ++ rest)) =
      .ok ([state.accountType.encode] ++ ofWord 4 state.version.toNat ++ state.programStateAccount.1 ++
        withPadding state.tokenId maxTokenIdSize ++ ofWord 4 (state.balances.length + 1) ++
        (state.balances.flatMap Balance.image ++ withPadding address maxAddressSize ++
          (ofWord 8 0 ++ rest))) := by
    apply writeBlock_at _ (ofWord 4 state.balances.length) _ _ _ (by rw [ofWord_length, ofWord_length])
    · simp only [image, List.append_assoc]
    · have hhead := h.head_length 0
      rw [head, List.length_append, ofWord_length] at hhead
      exact Nat.add_right_cancel hhead
  rw [haddress]
  show setNumBalances _ _ = _
  rw [hcount]
  simp [image, TokenState.withWallet, Balance.image, List.append_assoc]

/-- What the writers leave is the encoding of the changed state. -/
theorem Fits.updates {state : TokenState} (h : state.Fits) (tail : Bytes) :
    state.Updates (state.image ++ tail) tail where
  tokenId := by
    intro tokenId data'
    by_cases hshort : tokenId.bytes.length < maxTokenIdSize
    · have hfits : ({ state with tokenId := tokenId } : TokenState).Fits := ⟨hshort.le, h.addresses⟩
      rw [hfits.ok_iff (h.setTokenId_image hshort tail)]
      simp only [hshort, true_and]
    · rw [setTokenId, setString_long (Nat.not_lt.mp hshort)]
      simp only [hshort, false_and, reduceCtorEq]
  walletBalance := by
    intro index balance amount data' hbalance
    exact (h.withAmount hbalance amount).ok_iff (h.setWalletBalance_image hbalance amount tail) data'
  increment := by
    intro index balance amount data' hbalance
    apply (h.withAmount hbalance (balance.balance + amount)).ok_iff
    rw [Balance.incrementWalletBalance, h.getWalletBalance_image hbalance tail]
    exact h.setWalletBalance_image hbalance (balance.balance + amount) tail
  decrement := by
    intro index balance amount data' hbalance
    rw [Balance.decrementWalletBalance, h.getWalletBalance_image hbalance tail]
    show (if amount ≤ balance.balance then
      Balance.setWalletBalance index (balance.balance - amount) (state.image ++ tail) else _) = _ ↔ _
    split
    · next hle =>
        rw [(h.withAmount hbalance (balance.balance - amount)).ok_iff
          (h.setWalletBalance_image hbalance (balance.balance - amount) tail)]
        simp only [hle, true_and]
    · next hgt => simp only [hgt, false_and, reduceCtorEq]
  wallet := by
    intro address rest data' htail
    subst htail
    by_cases hshort : address.bytes.length < maxAddressSize
    · rw [(h.withWallet hshort.le).ok_iff (h.appendWallet_image hshort rest)]
      simp only [hshort, true_and]
    · rw [Balance.setWalletAddress, setString_long (Nat.not_lt.mp hshort)]
      constructor
      · intro hok
        cases hok
      · intro hboth
        exact absurd hboth.1 hshort

/-- The readers see the fields of the state. -/
theorem Padded.reads {state : TokenState} (h : state.Padded) (hcount : state.balances.length < 2 ^ 32)
    (tail : Bytes) : state.Reads (state.image ++ tail) where
  decode := (consumes_tokenState h hcount).run_fst tail
  accountType := by
    rw [← AccountType.decode_encode state.accountType]
    exact readByte_at AccountType.decode [] ((state.image ++ tail).drop 1) rfl rfl
  numBalances := by
    rw [← Nat.mod_eq_of_lt (show state.balances.length < 256 ^ 4 from hcount)]
    apply readWord_at ([state.accountType.encode] ++ ofWord 4 state.version.toNat ++
      state.programStateAccount.1 ++ withPadding state.tokenId maxTokenIdSize)
    · simp only [image, List.append_assoc]
      rfl
    · have hhead := h.fits.head_length 0
      rw [head, List.length_append, ofWord_length] at hhead
      exact Nat.add_right_cancel hhead
  tokenId := by
    have hread : readBlock tokenIdOffset maxTokenIdSize (state.image ++ tail) =
        .ok (withPadding state.tokenId maxTokenIdSize) := by
      apply readBlock_at ([state.accountType.encode] ++ ofWord 4 state.version.toNat ++
        state.programStateAccount.1)
      · simp only [image, List.append_assoc]
        rfl
      · have hkey : state.programStateAccount.1.length = 32 := state.programStateAccount.2
        simp [hkey]
      · exact withPadding_length h.fits.tokenId
    rw [getTokenId, hread]
    exact parseString_withPadding h.tokenId.nulFree
  programStateAccount := by
    apply readArray_at ([state.accountType.encode] ++ ofWord 4 state.version.toNat)
    · simp only [image, List.append_assoc]
      rfl
    · simp
  walletAddress := by
    intro index balance hbalance
    obtain ⟨before, after, hbefore, himage, _⟩ := h.fits.slot hbalance
    apply getAddress_at (h.addresses balance (List.mem_of_getElem? hbalance)) before
      (ofWord 8 balance.balance.toNat ++ after ++ tail) _ hbefore
    rw [himage, Balance.image]
    simp only [List.append_assoc]
  walletAddressLast4 := by
    intro index balance hbalance hlong
    obtain ⟨before, after, hbefore, himage, _⟩ := h.fits.slot hbalance
    apply getWalletLast4_at (h.addresses balance (List.mem_of_getElem? hbalance)) hlong before
      (ofWord 8 balance.balance.toNat ++ after ++ tail) _ hbefore
    rw [himage, Balance.image]
    simp only [List.append_assoc]
  walletBalance := by
    intro index balance hbalance
    exact h.fits.getWalletBalance_image hbalance tail

end TokenState

/-! ### The program account -/

namespace ProgramState

/-- The account data is the encoding of the state and a tail. -/
def StoredAs (state : ProgramState) (data tail : Bytes) : Prop :=
  ∃ bytes, state.encode = .ok bytes ∧ data = bytes ++ tail

/-- The readers of account data give the fields of the state. The events are counted in 16 bits. -/
structure Reads (state : ProgramState) (data : Bytes) : Prop where
  decode : state.events.length < 2 ^ 16 → decodeFromSlice ProgramState.decode data = .ok state
  accountType : getType data = .ok state.accountType
  withdrawAccount : getWithdrawAccountKey data = .ok state.withdrawAccount
  feeAccountAddress : getFeeAccountAddress data = .ok state.feeAccountAddress
  programChangeAddress : getProgramChangeAddress data = .ok state.programChangeAddress
  networkType : getNetworkType data = .ok state.networkType
  settlementHash : getSettlementHash data = .ok state.settlementBatchHash
  eventsCount : state.events.length < 2 ^ 16 → getEventsCount data = .ok state.events.length

/-- When the writers of account data succeed, and the states that are stored after them. Events that are
cleared stay in the tail, and an event that is emitted takes the first bytes of it. -/
structure Updates (state : ProgramState) (data tail : Bytes) : Prop where
  settlementHash : ∀ hash data', setSettlementHash hash data = .ok data' ↔
    { state with settlementBatchHash := hash }.StoredAs data' tail
  clearSettlementHash : ∀ data', clearSettlementHash data = .ok data' ↔
    { state with settlementBatchHash := emptyHash }.StoredAs data' tail
  lastSettlementHash : ∀ hash data', setLastSettlementHash hash data = .ok data' ↔
    { state with lastSettlementBatchHash := hash }.StoredAs data' tail
  clearEvents : ∀ data', clearEvents data = .ok data' ↔
    { state with events := [] }.StoredAs data' (state.events.flatMap Event.image ++ tail)
  emitEvent : ∀ event slot rest data', state.events.length < maxEvents → tail = slot ++ rest →
    slot.length = eventSize →
    (emitEvent event data = .ok data' ↔
      { state with events := state.events ++ [event] }.StoredAs data' rest)
  full : ∀ event, state.events.length = maxEvents →
    ProgramState.emitEvent event data = .error (.error (.custom errorValueTooLarge))

theorem Fits.storedAs_iff {state : ProgramState} (h : state.Fits) {data tail : Bytes} :
    state.StoredAs data tail ↔ data = state.image ++ tail := by
  unfold StoredAs
  rw [h.encode_image]
  simp

theorem Fits.ok_iff {state : ProgramState} (h : state.Fits) {result : Except Fault Bytes} {tail : Bytes}
    (hresult : result = .ok (state.image ++ tail)) (data' : Bytes) :
    result = .ok data' ↔ state.StoredAs data' tail := by
  rw [h.storedAs_iff, hresult, Except.ok.injEq, eq_comm]

/-- What comes before the hashes. -/
def head (state : ProgramState) : Bytes :=
  [state.accountType.encode] ++ ofWord 4 state.version.toNat ++ state.withdrawAccount.1 ++
    withPadding state.feeAccountAddress maxAddressSize ++ withPadding state.programChangeAddress maxAddressSize ++
    [state.networkType.encode]

theorem key_length (state : ProgramState) :
    ([state.accountType.encode] ++ ofWord 4 state.version.toNat ++ state.withdrawAccount.1).length =
      feeAccountOffset := by
  have hkey : state.withdrawAccount.1.length = 32 := state.withdrawAccount.2
  simp [hkey]

theorem Fits.feeAccount_length {state : ProgramState} (h : state.Fits) :
    ([state.accountType.encode] ++ ofWord 4 state.version.toNat ++ state.withdrawAccount.1 ++
      withPadding state.feeAccountAddress maxAddressSize).length = programChangeAddressOffset := by
  rw [List.length_append, state.key_length, withPadding_length h.feeAccountAddress]
  rfl

theorem Fits.changeAddress_length {state : ProgramState} (h : state.Fits) :
    ([state.accountType.encode] ++ ofWord 4 state.version.toNat ++ state.withdrawAccount.1 ++
      withPadding state.feeAccountAddress maxAddressSize ++
      withPadding state.programChangeAddress maxAddressSize).length = networkTypeOffset := by
  rw [List.length_append, h.feeAccount_length, withPadding_length h.programChangeAddress]
  rfl

theorem Fits.head_length {state : ProgramState} (h : state.Fits) :
    state.head.length = settlementHashOffset := by
  rw [head, List.length_append, h.changeAddress_length]
  rfl

theorem Fits.settlementHash_length {state : ProgramState} (h : state.Fits) :
    (state.head ++ state.settlementBatchHash.1).length = lastSettlementHashOffset := by
  rw [List.length_append, h.head_length, state.settlementBatchHash.2]
  rfl

theorem Fits.hashes_length {state : ProgramState} (h : state.Fits) :
    (state.head ++ state.settlementBatchHash.1 ++ state.lastSettlementBatchHash.1).length =
      eventsSizeOffset := by
  rw [List.length_append, h.settlementHash_length, state.lastSettlementBatchHash.2]
  rfl

theorem Fits.events_length {state : ProgramState} (h : state.Fits) :
    state.image.length = eventsOffset + state.events.length * eventSize := by
  have hevents : (state.events.flatMap Event.image).length = state.events.length * eventSize :=
    flatMap_length fun event _ => event.image_length
  show (state.head ++ state.settlementBatchHash.1 ++ state.lastSettlementBatchHash.1 ++
    ofWord 2 state.events.length ++ state.events.flatMap Event.image).length = _
  rw [List.length_append, List.length_append, h.hashes_length, ofWord_length, hevents]
  rfl

theorem Fits.getEventsCount_image {state : ProgramState} (h : state.Fits)
    (hcount : state.events.length < 2 ^ 16) (tail : Bytes) :
    getEventsCount (state.image ++ tail) = .ok state.events.length := by
  have hread : getEventsCount (state.image ++ tail) = .ok (state.events.length % 256 ^ 2) := by
    apply readWord_at _ (state.events.flatMap Event.image ++ tail) _ h.hashes_length
    simp only [image, head, List.append_assoc]
  rw [hread, Nat.mod_eq_of_lt (show state.events.length < 256 ^ 2 from hcount)]

/-- The readers see the fields of the state. -/
theorem Padded.reads {state : ProgramState} (h : state.Padded) (tail : Bytes) :
    state.Reads (state.image ++ tail) where
  decode := fun hcount => (consumes_programState h hcount).run_fst tail
  accountType := by
    rw [← AccountType.decode_encode state.accountType]
    exact readByte_at AccountType.decode [] ((state.image ++ tail).drop 1) rfl rfl
  withdrawAccount := by
    apply readArray_at ([state.accountType.encode] ++ ofWord 4 state.version.toNat)
    · simp only [image, List.append_assoc]
      rfl
    · simp
  feeAccountAddress := by
    apply getAddress_at h.feeAccountAddress _ (withPadding state.programChangeAddress maxAddressSize ++
      [state.networkType.encode] ++ state.settlementBatchHash.1 ++ state.lastSettlementBatchHash.1 ++
      ofWord 2 state.events.length ++ state.events.flatMap Event.image ++ tail) _ state.key_length
    simp only [image, List.append_assoc]
  programChangeAddress := by
    apply getAddress_at h.programChangeAddress _ ([state.networkType.encode] ++
      state.settlementBatchHash.1 ++ state.lastSettlementBatchHash.1 ++ ofWord 2 state.events.length ++
      state.events.flatMap Event.image ++ tail) _ h.fits.feeAccount_length
    simp only [image, List.append_assoc]
  networkType := by
    rw [← NetworkType.decode_encode state.networkType]
    apply readByte_at NetworkType.decode _ (state.settlementBatchHash.1 ++
      state.lastSettlementBatchHash.1 ++ ofWord 2 state.events.length ++
      state.events.flatMap Event.image ++ tail) _ h.fits.changeAddress_length
    simp only [image, List.append_assoc]
  settlementHash := by
    apply readArray_at _ state.settlementBatchHash (state.lastSettlementBatchHash.1 ++
      ofWord 2 state.events.length ++ state.events.flatMap Event.image ++ tail) _ h.fits.head_length
    simp only [image, head, List.append_assoc]
  eventsCount := fun hcount => h.fits.getEventsCount_image hcount tail

theorem Fits.setSettlementHash_image {state : ProgramState} (h : state.Fits) (hash : Hash) (tail : Bytes) :
    setSettlementHash hash (state.image ++ tail) =
      .ok ({ state with settlementBatchHash := hash }.image ++ tail) := by
  have hwrite : setSettlementHash hash (state.image ++ tail) =
      .ok (state.head ++ hash.1 ++ (state.lastSettlementBatchHash.1 ++ ofWord 2 state.events.length ++
        state.events.flatMap Event.image ++ tail)) := by
    apply writeBlock_at _ state.settlementBatchHash.1 _ _ h.head_length
      (state.settlementBatchHash.2.trans hash.2.symm)
    simp only [image, head, List.append_assoc]
  rw [hwrite]
  simp only [image, head, List.append_assoc]

theorem Fits.setLastSettlementHash_image {state : ProgramState} (h : state.Fits) (hash : Hash)
    (tail : Bytes) :
    setLastSettlementHash hash (state.image ++ tail) =
      .ok ({ state with lastSettlementBatchHash := hash }.image ++ tail) := by
  have hwrite : setLastSettlementHash hash (state.image ++ tail) =
      .ok (state.head ++ state.settlementBatchHash.1 ++ hash.1 ++ (ofWord 2 state.events.length ++
        state.events.flatMap Event.image ++ tail)) := by
    apply writeBlock_at _ state.lastSettlementBatchHash.1 _ _ h.settlementHash_length
      (state.lastSettlementBatchHash.2.trans hash.2.symm)
    simp only [image, head, List.append_assoc]
  rw [hwrite]
  simp only [image, head, List.append_assoc]

/-- Another count before the same events. -/
theorem Fits.writeCount_image {state : ProgramState} (h : state.Fits) (count : Nat) (tail : Bytes) :
    writeBlock eventsSizeOffset (ofWord 2 count) (state.image ++ tail) =
      .ok (state.head ++ state.settlementBatchHash.1 ++ state.lastSettlementBatchHash.1 ++ ofWord 2 count ++
        (state.events.flatMap Event.image ++ tail)) := by
  apply writeBlock_at _ (ofWord 2 state.events.length) _ _ h.hashes_length
    (by rw [ofWord_length, ofWord_length])
  simp only [image, head, List.append_assoc]

theorem Fits.emitEvent_image {state : ProgramState} (h : state.Fits) (event : Event) {slot : Bytes}
    (hcount : state.events.length < maxEvents) (hslot : slot.length = eventSize) (rest : Bytes) :
    emitEvent event (state.image ++ (slot ++ rest)) =
      .ok ({ state with events := state.events ++ [event] }.image ++ rest) := by
  have hsmall : state.events.length < 2 ^ 16 := Nat.lt_trans hcount (by simp)
  have hevent : writeBlock (eventsOffset + state.events.length * eventSize) event.image
      (state.image ++ (slot ++ rest)) = .ok (state.image ++ event.image ++ rest) := by
    apply writeBlock_at _ slot _ _ h.events_length (hslot.trans event.image_length.symm)
    simp only [List.append_assoc]
  have hne : state.events.length ≠ maxEvents := hcount.ne
  rw [emitEvent, h.getEventsCount_image hsmall]
  simp only [bind, Except.bind, if_neg hne, event.encode_image, Except.mapError, hevent]
  rw [List.append_assoc, h.writeCount_image (state.events.length + 1) (event.image ++ rest)]
  simp only [image, head, List.append_assoc, List.flatMap_append, List.flatMap_cons, List.flatMap_nil,
    List.nil_append, List.length_append, List.length_singleton]

theorem Fits.withSettlementHash {state : ProgramState} (h : state.Fits) (hash : Hash) :
    { state with settlementBatchHash := hash }.Fits :=
  ⟨h.feeAccountAddress, h.programChangeAddress⟩

theorem Fits.withLastSettlementHash {state : ProgramState} (h : state.Fits) (hash : Hash) :
    { state with lastSettlementBatchHash := hash }.Fits :=
  ⟨h.feeAccountAddress, h.programChangeAddress⟩

theorem Fits.withEvents {state : ProgramState} (h : state.Fits) (events : List Event) :
    { state with events := events }.Fits :=
  ⟨h.feeAccountAddress, h.programChangeAddress⟩

/-- What the writers leave is the encoding of the changed state. -/
theorem Fits.updates {state : ProgramState} (h : state.Fits) (tail : Bytes) :
    state.Updates (state.image ++ tail) tail where
  settlementHash := fun hash => (h.withSettlementHash hash).ok_iff (h.setSettlementHash_image hash tail)
  clearSettlementHash := (h.withSettlementHash emptyHash).ok_iff (h.setSettlementHash_image emptyHash tail)
  lastSettlementHash := fun hash =>
    (h.withLastSettlementHash hash).ok_iff (h.setLastSettlementHash_image hash tail)
  clearEvents := by
    apply (h.withEvents []).ok_iff
    rw [ProgramState.clearEvents, h.writeCount_image]
    simp only [image, head, List.append_assoc, List.flatMap_nil, List.length_nil, List.nil_append]
  emitEvent := by
    intro event slot rest data' hcount htail hslot
    subst htail
    exact (h.withEvents (state.events ++ [event])).ok_iff (h.emitEvent_image event hcount hslot rest) data'
  full := by
    intro event hfull
    have hsmall : state.events.length < 2 ^ 16 := by
      rw [hfull]
      simp
    rw [ProgramState.emitEvent, h.getEventsCount_image hsmall]
    simp only [bind, Except.bind, if_pos hfull]

end ProgramState

/-! ### The withdraw account -/

namespace WithdrawState

def StoredAs (state : WithdrawState) (data tail : Bytes) : Prop := data = state.encode ++ tail

structure Reads (state : WithdrawState) (data : Bytes) : Prop where
  decode : decodeFromSlice WithdrawState.decode data = .ok state
  accountType : getType data = .ok state.accountType
  programStateAccount : getProgramStateAccountKey data = .ok state.programStateAccount
  hash : getHash data = .ok state.batchHash

structure Updates (state : WithdrawState) (data tail : Bytes) : Prop where
  hash : ∀ hash data', setHash hash data = .ok data' ↔ { state with batchHash := hash }.StoredAs data' tail
  clearHash : ∀ data', clearHash data = .ok data' ↔
    { state with batchHash := emptyHash }.StoredAs data' tail

theorem key_length (state : WithdrawState) :
    ([state.accountType.encode] ++ ofWord 4 state.version.toNat ++ state.programStateAccount.1).length =
      withdrawHashOffset := by
  have hkey : state.programStateAccount.1.length = 32 := state.programStateAccount.2
  simp [hkey]

theorem reads (state : WithdrawState) (tail : Bytes) : state.Reads (state.encode ++ tail) where
  decode := (consumes_withdrawState state).run_fst tail
  accountType := by
    rw [← AccountType.decode_encode state.accountType]
    exact readByte_at AccountType.decode [] ((state.encode ++ tail).drop 1) rfl rfl
  programStateAccount := by
    apply readArray_at ([state.accountType.encode] ++ ofWord 4 state.version.toNat)
    · simp only [encode, List.append_assoc]
      rfl
    · simp
  hash := readArray_at _ state.batchHash tail rfl state.key_length

theorem updates (state : WithdrawState) (tail : Bytes) : state.Updates (state.encode ++ tail) tail := by
  have hset : ∀ hash data', setHash hash (state.encode ++ tail) = .ok data' ↔
      { state with batchHash := hash }.StoredAs data' tail := by
    intro hash data'
    have hwrite : setHash hash (state.encode ++ tail) =
        .ok ({ state with batchHash := hash }.encode ++ tail) :=
      writeBlock_at _ state.batchHash.1 tail rfl state.key_length (state.batchHash.2.trans hash.2.symm)
    rw [hwrite, StoredAs, Except.ok.injEq, eq_comm]
  exact ⟨hset, hset emptyHash⟩

end WithdrawState

/-! ### All three accounts -/

/-- The size of an account bounds the count of its balances. -/
theorem TokenState.Padded.count_lt {state : TokenState} (h : state.Padded) {account : StoredAccount}
    {tail : Bytes} (hdata : account.data = state.image ++ tail) : state.balances.length < 2 ^ 32 := by
  have hsize := account.size_le
  have himage : state.image.length = balancesOffset + state.balances.length * balanceSize := by
    show (state.head state.balances.length ++ state.balances.flatMap Balance.image).length = _
    rw [List.length_append, h.fits.head_length, h.fits.balances_length]
  rw [hdata, List.length_append, himage] at hsize
  simp only [balancesOffset, balanceCountOffset, tokenIdOffset, programPubkeyOffset, versionSize,
    accountTypeSize, pubkeySize, maxTokenIdSize, balanceCountSize, balanceSize, maxAddressSize,
    balanceAmountSize, maxPermittedDataLength] at hsize
  omega

/-- On the data of an account that holds the encoding of a state and a tail, the accessors read the fields
of the state, and what they write is the encoding of the state with one field changed. -/
theorem accessors_refine_codecs :
    (∀ (state : TokenState) (account : StoredAccount) (tail : Bytes), state.Padded →
      state.StoredAs account.data tail → state.Reads account.data ∧ state.Updates account.data tail) ∧
    (∀ (state : ProgramState) (account : StoredAccount) (tail : Bytes), state.Padded →
      state.StoredAs account.data tail → state.Reads account.data ∧ state.Updates account.data tail) ∧
    ∀ (state : WithdrawState) (account : StoredAccount) (tail : Bytes),
      state.StoredAs account.data tail → state.Reads account.data ∧ state.Updates account.data tail := by
  refine ⟨?_, ?_, ?_⟩
  · intro state account tail hpadded hstored
    have hdata := hpadded.fits.storedAs_iff.mp hstored
    have hcount := hpadded.count_lt hdata
    rw [hdata]
    exact ⟨hpadded.reads hcount tail, hpadded.fits.updates tail⟩
  · intro state account tail hpadded hstored
    rw [hpadded.fits.storedAs_iff.mp hstored]
    exact ⟨hpadded.reads tail, hpadded.fits.updates tail⟩
  · intro state account tail hstored
    rw [hstored]
    exact ⟨state.reads tail, state.updates tail⟩

/-- A token account with three wallets; the account has room for a fourth after them. -/
def threeWallets : TokenState where
  accountType := .token
  version := 0
  programStateAccount := sampleProgram
  tokenId := ⟨[0x31], rfl⟩
  balances := [⟨⟨feeAddress, rfl⟩, 50⟩, ⟨⟨firstAddress, rfl⟩, 7⟩, ⟨⟨secondAddress, rfl⟩, 0⟩]

theorem threeWallets_accessed :
    threeWallets.Reads (stored (threeWallets.image ++ zeros 100)).data ∧
      threeWallets.Updates (stored (threeWallets.image ++ zeros 100)).data (zeros 100) := by
  have hpadded : threeWallets.Padded := by
    refine ⟨⟨by decide, by decide⟩, fun balance hbalance => ?_⟩
    simp only [threeWallets, List.mem_cons, List.not_mem_nil, or_false] at hbalance
    obtain rfl | rfl | rfl := hbalance
    · exact ⟨by decide, by decide⟩
    · exact ⟨by decide, by decide⟩
    · exact ⟨by decide, by decide⟩
  have hstored : threeWallets.StoredAs (stored (threeWallets.image ++ zeros 100)).data (zeros 100) :=
    hpadded.fits.storedAs_iff.mpr (by decide +kernel)
  exact accessors_refine_codecs.1 threeWallets (stored (threeWallets.image ++ zeros 100)) (zeros 100) hpadded hstored

end Chainring.Arch

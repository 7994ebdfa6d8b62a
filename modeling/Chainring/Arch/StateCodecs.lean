import Chainring.Arch.RoundTrip
import Chainring.Base.CheckedWord
import Chainring.Base.Pointwise

/-! The byte format of the states that the accounts hold: strings padded with zeros, the balances of a
token account and the events of the program account one after the other, counted before them. -/

namespace Chainring.Arch

open Bytes (ofWord toWord ofWord_length toWord_ofWord)
open CheckedWord (bind_eq_ok forall₂_of_mapM)
open Codec (Consumes consumes_pure)

structure Balance where
  address : Utf8String
  balance : UInt64
  deriving DecidableEq

structure TokenState where
  accountType : AccountType
  version : UInt32
  programStateAccount : Pubkey
  tokenId : Utf8String
  balances : List Balance
  deriving DecidableEq

structure WithdrawState where
  accountType : AccountType
  version : UInt32
  programStateAccount : Pubkey
  batchHash : Hash
  deriving DecidableEq

structure RuneReceiverState where
  accountType : AccountType
  version : UInt32
  programStateAccount : Pubkey
  deriving DecidableEq

/-! ### Decoding -/

def readStringWithPadding (size : Nat) : Reader Utf8String := do
  let vec ← readUpTo size
  match Utf8String.fromUtf8 (vec.takeWhile (· ≠ 0)) with
  | some str => pure str
  | none => throw (.other "Invalid UTF8 string")

def Balance.decode : Reader Balance := do
  let address ← readStringWithPadding maxAddressSize
  let balance ← readU64
  pure { address, balance }

def Event.decodeFields : Reader Event := do
  let eventType ← readU8
  if eventType = 0 then do
    let accountIndex ← readU8
    let addressIndex ← readU32
    let requestedAmount ← readU64
    let balance ← readU64
    let errorCode ← readU32
    pure (.failedSettlement accountIndex addressIndex requestedAmount balance errorCode)
  else if eventType = 1 then do
    let accountIndex ← readU8
    let addressIndex ← readU32
    let feeAccountIndex ← readU8
    let feeAddressIndex ← readU32
    let requestedAmount ← readU64
    let feeAmount ← readU64
    let balance ← readU64
    let balanceInFeeToken ← readU64
    let errorCode ← readU32
    pure (.failedWithdrawal accountIndex addressIndex feeAccountIndex feeAddressIndex requestedAmount
      feeAmount balance balanceInFeeToken errorCode)
  else throw (.other "Invalid event type")

/-- The fields of an event are read from its own slot. -/
def Event.decode : Reader Event := do
  let eventData ← readUpTo eventSize
  match decodeFromSlice decodeFields eventData with
  | .ok event => pure event
  | .error err => throw err

def TokenState.decode : Reader TokenState := do
  let accountType ← AccountType.decode <$> readU8
  let version ← readU32
  let programStateAccount ← readExact 32
  let tokenId ← readStringWithPadding maxTokenIdSize
  let balancesCount ← readU32
  let balances ← readTimes Balance.decode balancesCount.toNat
  pure { accountType, version, programStateAccount, tokenId, balances }

def ProgramState.decode : Reader ProgramState := do
  let accountType ← AccountType.decode <$> readU8
  let version ← readU32
  let withdrawAccount ← readExact 32
  let feeAccountAddress ← readStringWithPadding maxAddressSize
  let programChangeAddress ← readStringWithPadding maxAddressSize
  let networkType ← NetworkType.decode <$> readU8
  let settlementBatchHash ← readExact 32
  let lastSettlementBatchHash ← readExact 32
  let eventCount ← readU16
  let events ← readTimes Event.decode eventCount
  pure { accountType, version, withdrawAccount, feeAccountAddress, programChangeAddress, networkType,
         settlementBatchHash, lastSettlementBatchHash, events }

def WithdrawState.decode : Reader WithdrawState := do
  let accountType ← AccountType.decode <$> readU8
  let version ← readU32
  let programStateAccount ← readExact 32
  let batchHash ← readExact 32
  pure { accountType, version, programStateAccount, batchHash }

def RuneReceiverState.decode : Reader RuneReceiverState := do
  let accountType ← AccountType.decode <$> readU8
  let version ← readU32
  let programStateAccount ← readExact 32
  pure { accountType, version, programStateAccount }

/-! ### Encoding -/

def Balance.encode (balance : Balance) : Except Fault Bytes := do
  let address ← writeStringWithPadding balance.address maxAddressSize
  pure (address ++ ofWord 8 balance.balance.toNat)

def TokenState.encode (state : TokenState) : Except Fault Bytes := do
  let tokenId ← writeStringWithPadding state.tokenId maxTokenIdSize
  let balances ← state.balances.mapM Balance.encode
  pure ([state.accountType.encode] ++ ofWord 4 state.version.toNat ++ state.programStateAccount ++
    tokenId ++ ofWord 4 state.balances.length ++ balances.flatten)

def WithdrawState.encode (state : WithdrawState) : Bytes :=
  [state.accountType.encode] ++ ofWord 4 state.version.toNat ++ state.programStateAccount ++
    state.batchHash

def RuneReceiverState.encode (state : RuneReceiverState) : Bytes :=
  [state.accountType.encode] ++ ofWord 4 state.version.toNat ++ state.programStateAccount

/-! ### The bytes of a state

A state whose strings fit has these bytes for its encoding. -/

def withPadding (v : Utf8String) (size : Nat) : Bytes := v.bytes ++ List.replicate (size - v.bytes.length) 0

theorem withPadding_length {v : Utf8String} {size : Nat} (h : v.bytes.length ≤ size) :
    (withPadding v size).length = size := by
  rw [withPadding, List.length_append, List.length_replicate]
  omega

theorem writeStringWithPadding_eq_ok {v : Utf8String} {size : Nat} (h : v.bytes.length ≤ size) :
    writeStringWithPadding v size = .ok (withPadding v size) :=
  if_pos h

theorem writeStringWithPadding_eq_ok_iff {v : Utf8String} {size : Nat} {bytes : Bytes} :
    writeStringWithPadding v size = .ok bytes ↔ v.bytes.length ≤ size ∧ bytes = withPadding v size := by
  by_cases hfits : v.bytes.length ≤ size
  · rw [writeStringWithPadding_eq_ok hfits, Except.ok.injEq, and_iff_right hfits]
    exact eq_comm
  · rw [writeStringWithPadding, if_neg hfits]
    exact iff_of_false nofun fun hboth => hfits hboth.1

def Balance.image (balance : Balance) : Bytes :=
  withPadding balance.address maxAddressSize ++ ofWord 8 balance.balance.toNat

theorem Balance.encode_image {balance : Balance} (h : balance.address.bytes.length ≤ maxAddressSize) :
    balance.encode = .ok balance.image := by
  rw [encode, writeStringWithPadding_eq_ok h]
  rfl

theorem Balance.image_length {balance : Balance} (h : balance.address.bytes.length ≤ maxAddressSize) :
    balance.image.length = balanceSize := by
  rw [image, List.length_append, withPadding_length h, ofWord_length]
  rfl

def Event.image (event : Event) : Bytes :=
  event.fields ++ List.replicate (eventSize - event.fields.length) 0

theorem Event.fields_length_le (event : Event) : event.fields.length ≤ eventSize := by
  cases event <;> simp [fields]

theorem Event.encode_image (event : Event) : event.encode = .ok event.image :=
  if_neg (Nat.not_lt.mpr event.fields_length_le)

theorem Event.image_length (event : Event) : event.image.length = eventSize := by
  have hle := event.fields_length_le
  rw [image, List.length_append, List.length_replicate]
  omega

section Items

variable {ε α β : Type} {items : List α}

theorem mapM_image {encode : α → Except ε β} {image : α → β}
    (h : ∀ item ∈ items, encode item = .ok (image item)) : items.mapM encode = .ok (items.map image) := by
  induction items with
  | nil => rfl
  | cons item items ih =>
      obtain ⟨hitem, hitems⟩ := List.forall_mem_cons.mp h
      rw [List.mapM_cons, hitem, ih hitems]
      rfl

theorem flatMap_length {image : α → Bytes} {size : Nat} (h : ∀ item ∈ items, (image item).length = size) :
    (items.flatMap image).length = items.length * size := by
  induction items with
  | nil => simp
  | cons item items ih =>
      obtain ⟨hitem, hitems⟩ := List.forall_mem_cons.mp h
      rw [List.flatMap_cons, List.length_append, hitem, ih hitems, List.length_cons, Nat.succ_mul, Nat.add_comm]

end Items

def TokenState.image (state : TokenState) : Bytes :=
  [state.accountType.encode] ++ ofWord 4 state.version.toNat ++ state.programStateAccount.1 ++
    withPadding state.tokenId maxTokenIdSize ++ ofWord 4 state.balances.length ++
    state.balances.flatMap Balance.image

/-- The strings of a token state fit their fields. -/
structure TokenState.Fits (state : TokenState) : Prop where
  tokenId : state.tokenId.bytes.length ≤ maxTokenIdSize
  addresses : ∀ balance ∈ state.balances, balance.address.bytes.length ≤ maxAddressSize

theorem TokenState.Fits.encode_image {state : TokenState} (h : state.Fits) :
    state.encode = .ok state.image := by
  rw [encode, writeStringWithPadding_eq_ok h.tokenId,
    mapM_image fun balance hbalance => Balance.encode_image (h.addresses balance hbalance)]
  rfl

def ProgramState.image (state : ProgramState) : Bytes :=
  [state.accountType.encode] ++ ofWord 4 state.version.toNat ++ state.withdrawAccount.1 ++
    withPadding state.feeAccountAddress maxAddressSize ++ withPadding state.programChangeAddress maxAddressSize ++
    [state.networkType.encode] ++ state.settlementBatchHash.1 ++ state.lastSettlementBatchHash.1 ++
    ofWord 2 state.events.length ++ state.events.flatMap Event.image

/-- The strings of a program state fit their fields. -/
structure ProgramState.Fits (state : ProgramState) : Prop where
  feeAccountAddress : state.feeAccountAddress.bytes.length ≤ maxAddressSize
  programChangeAddress : state.programChangeAddress.bytes.length ≤ maxAddressSize

theorem ProgramState.Fits.encode_image {state : ProgramState} (h : state.Fits) :
    state.encode = .ok state.image := by
  rw [encode, writeStringWithPadding_eq_ok h.feeAccountAddress,
    writeStringWithPadding_eq_ok h.programChangeAddress, mapM_image fun event _ => event.encode_image]
  rfl

/-! A state is encoded exactly when its strings fit. -/

theorem Balance.encode_eq_ok {balance : Balance} {bytes : Bytes} :
    balance.encode = .ok bytes ↔ balance.address.bytes.length ≤ maxAddressSize ∧ bytes = balance.image := by
  constructor
  · intro h
    obtain ⟨address, haddress, hbytes⟩ := bind_eq_ok.mp h
    obtain ⟨hfits, rfl⟩ := writeStringWithPadding_eq_ok_iff.mp haddress
    exact ⟨hfits, (Except.ok.inj hbytes).symm⟩
  · rintro ⟨hfits, rfl⟩
    exact encode_image hfits

theorem TokenState.encode_eq_ok {state : TokenState} {bytes : Bytes} :
    state.encode = .ok bytes ↔ state.Fits ∧ bytes = state.image := by
  have himage : state.Fits → (state.encode = .ok bytes ↔ bytes = state.image) := fun hfits => by
    rw [hfits.encode_image, Except.ok.injEq]
    exact eq_comm
  constructor
  · intro h
    have hfits : state.Fits := by
      obtain ⟨tokenId, htokenId, h⟩ := bind_eq_ok.mp h
      obtain ⟨images, himages, -⟩ := bind_eq_ok.mp h
      refine ⟨(writeStringWithPadding_eq_ok_iff.mp htokenId).1, fun balance hbalance => ?_⟩
      obtain ⟨image, himage⟩ := exists_of_forall₂ (forall₂_of_mapM himages) hbalance
      exact (Balance.encode_eq_ok.mp himage).1
    exact ⟨hfits, (himage hfits).mp h⟩
  · rintro ⟨hfits, hbytes⟩
    exact (himage hfits).mpr hbytes

theorem ProgramState.encode_eq_ok {state : ProgramState} {bytes : Bytes} :
    state.encode = .ok bytes ↔ state.Fits ∧ bytes = state.image := by
  have himage : state.Fits → (state.encode = .ok bytes ↔ bytes = state.image) := fun hfits => by
    rw [hfits.encode_image, Except.ok.injEq]
    exact eq_comm
  constructor
  · intro h
    have hfits : state.Fits := by
      obtain ⟨feeAddress, hfee, h⟩ := bind_eq_ok.mp h
      obtain ⟨changeAddress, hchange, -⟩ := bind_eq_ok.mp h
      exact ⟨(writeStringWithPadding_eq_ok_iff.mp hfee).1, (writeStringWithPadding_eq_ok_iff.mp hchange).1⟩
    exact ⟨hfits, (himage hfits).mp h⟩
  · rintro ⟨hfits, hbytes⟩
    exact (himage hfits).mpr hbytes

/-! ### Round trips -/

/-- The bytes of a string without zeros end at the first zero. -/
theorem takeWhile_withPadding {v : Utf8String} {size : Nat} (h : 0 ∉ v.bytes) :
    (withPadding v size).takeWhile (· ≠ 0) = v.bytes := by
  have hbytes : ∀ byte ∈ v.bytes, decide (byte ≠ 0) = true := by
    intro byte hbyte
    exact decide_eq_true fun hzero => h (hzero ▸ hbyte)
  rw [withPadding, List.takeWhile_append_of_pos hbytes]
  cases size - v.bytes.length <;> simp [List.replicate_succ]

/-- A string that fits its field and has no zero in it. -/
structure Padded (v : Utf8String) (size : Nat) : Prop where
  short : v.bytes.length < size
  nulFree : 0 ∉ v.bytes

theorem consumes_readStringWithPadding {v : Utf8String} {size : Nat} (h : Padded v size) :
    Consumes (readStringWithPadding size) (withPadding v size) v := by
  have hupTo := consumes_readUpTo (withPadding v size)
  rw [withPadding_length h.short.le] at hupTo
  apply hupTo.bind_eq_pure
  simp only [takeWhile_withPadding h.nulFree, v.fromUtf8_bytes]

theorem consumes_accountType (accountType : AccountType) :
    Consumes (AccountType.decode <$> readU8) [accountType.encode] accountType :=
  consumes_decoded AccountType.decode_encode accountType

theorem consumes_networkType (networkType : NetworkType) :
    Consumes (NetworkType.decode <$> readU8) [networkType.encode] networkType :=
  consumes_decoded NetworkType.decode_encode networkType

theorem consumes_balance {balance : Balance} (h : Padded balance.address maxAddressSize) :
    Consumes Balance.decode balance.image balance :=
  (consumes_readStringWithPadding h).bind ((consumes_readU64 balance.balance).last _)

theorem consumes_eventFields (event : Event) : Consumes Event.decodeFields event.fields event := by
  cases event with
  | failedSettlement accountIndex addressIndex requestedAmount balance errorCode =>
      simp only [Event.fields, List.append_assoc, List.cons_append, List.nil_append]
      apply (consumes_readU8 0).bind
      apply (consumes_readU8 accountIndex).bind
      apply (consumes_readU32 addressIndex).bind
      apply (consumes_readU64 requestedAmount).bind
      apply (consumes_readU64 balance).bind
      exact (consumes_readU32 errorCode).last _
  | failedWithdrawal accountIndex addressIndex feeAccountIndex feeAddressIndex requestedAmount feeAmount
      balance balanceInFeeToken errorCode =>
      simp only [Event.fields, List.append_assoc, List.cons_append, List.nil_append]
      apply (consumes_readU8 1).bind
      apply (consumes_readU8 accountIndex).bind
      apply (consumes_readU32 addressIndex).bind
      apply (consumes_readU8 feeAccountIndex).bind
      apply (consumes_readU32 feeAddressIndex).bind
      apply (consumes_readU64 requestedAmount).bind
      apply (consumes_readU64 feeAmount).bind
      apply (consumes_readU64 balance).bind
      apply (consumes_readU64 balanceInFeeToken).bind
      exact (consumes_readU32 errorCode).last _

theorem consumes_event (event : Event) : Consumes Event.decode event.image event := by
  have hupTo := consumes_readUpTo event.image
  rw [event.image_length] at hupTo
  have hfields : decodeFromSlice Event.decodeFields event.image = .ok event :=
    (consumes_eventFields event).run_fst _
  apply hupTo.bind_eq_pure
  simp only [hfields]

/-- The strings of a token state end before their fields do. -/
structure TokenState.Padded (state : TokenState) : Prop where
  tokenId : Arch.Padded state.tokenId maxTokenIdSize
  addresses : ∀ balance ∈ state.balances, Arch.Padded balance.address maxAddressSize

theorem TokenState.Padded.fits {state : TokenState} (h : state.Padded) : state.Fits where
  tokenId := h.tokenId.short.le
  addresses := fun balance hbalance => (h.addresses balance hbalance).short.le

theorem consumes_tokenState {state : TokenState} (h : state.Padded) (hcount : state.balances.length < 2 ^ 32) :
    Consumes TokenState.decode state.image state := by
  have hlength : (UInt32.ofNat state.balances.length).toNat = state.balances.length := by
    rw [UInt32.toNat_ofNat']
    exact Nat.mod_eq_of_lt hcount
  have hcounted := consumes_readU32 (UInt32.ofNat state.balances.length)
  rw [hlength] at hcounted
  have hbalances := consumes_readTimes (fun _ => consumes_balance) h.addresses
  rw [← hlength] at hbalances
  simp only [TokenState.image, List.append_assoc]
  apply (consumes_accountType state.accountType).bind
  apply (consumes_readU32 state.version).bind
  apply (consumes_readExact state.programStateAccount).bind
  apply (consumes_readStringWithPadding h.tokenId).bind
  apply hcounted.bind
  exact hbalances.last _

/-- The strings of a program state end before their fields do. -/
structure ProgramState.Padded (state : ProgramState) : Prop where
  feeAccountAddress : Arch.Padded state.feeAccountAddress maxAddressSize
  programChangeAddress : Arch.Padded state.programChangeAddress maxAddressSize

theorem ProgramState.Padded.fits {state : ProgramState} (h : state.Padded) : state.Fits where
  feeAccountAddress := h.feeAccountAddress.short.le
  programChangeAddress := h.programChangeAddress.short.le

theorem consumes_programState {state : ProgramState} (h : state.Padded)
    (hcount : state.events.length < 2 ^ 16) : Consumes ProgramState.decode state.image state := by
  have hevents : Consumes (readTimes Event.decode state.events.length) (state.events.flatMap Event.image)
      state.events :=
    consumes_readTimes (fun event (_ : True) => consumes_event event) fun _ _ => trivial
  simp only [ProgramState.image, List.append_assoc]
  apply (consumes_accountType state.accountType).bind
  apply (consumes_readU32 state.version).bind
  apply (consumes_readExact state.withdrawAccount).bind
  apply (consumes_readStringWithPadding h.feeAccountAddress).bind
  apply (consumes_readStringWithPadding h.programChangeAddress).bind
  apply (consumes_networkType state.networkType).bind
  apply (consumes_readExact state.settlementBatchHash).bind
  apply (consumes_readExact state.lastSettlementBatchHash).bind
  apply (consumes_readU16 (Nat.le_of_lt_succ hcount)).bind
  exact hevents.last _

theorem consumes_withdrawState (state : WithdrawState) : Consumes WithdrawState.decode state.encode state := by
  simp only [WithdrawState.encode, List.append_assoc]
  apply (consumes_accountType state.accountType).bind
  apply (consumes_readU32 state.version).bind
  apply (consumes_readExact state.programStateAccount).bind
  exact (consumes_readExact state.batchHash).last _

theorem consumes_runeReceiverState (state : RuneReceiverState) :
    Consumes RuneReceiverState.decode state.encode state := by
  simp only [RuneReceiverState.encode, List.append_assoc]
  apply (consumes_accountType state.accountType).bind
  apply (consumes_readU32 state.version).bind
  exact (consumes_readExact state.programStateAccount).last _

end Chainring.Arch

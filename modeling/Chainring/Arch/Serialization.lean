import Chainring.Arch.Types

/-! The byte format of the instructions, of the events and of the initial program state. Readers
consume a prefix and leave the rest; what follows an instruction is ignored. -/

namespace Chainring.Arch

open Bytes (ofWord toWord ofWord_length)

inductive IoError where
  | unexpectedEof
  | invalidUtf8
  | other (message : String)
  deriving DecidableEq

abbrev Reader (α : Type) := StateT Bytes (Except IoError) α

/-! ### Reading -/

def readExact (n : Nat) : Reader (FixedBytes n) := fun data =>
  if h : (data.take n).length = n then .ok (⟨data.take n, h⟩, data.drop n)
  else .error .unexpectedEof

/-- Up to `n` bytes, fewer where the data ends first. -/
def readUpTo (n : Nat) : Reader Bytes := fun data => .ok (data.take n, data.drop n)

def readU8 : Reader UInt8 := do
  let val ← readExact 1
  pure (UInt8.ofNat (toWord val))

def readU16 : Reader Nat := do
  let val ← readExact 2
  pure (toWord val)

def readU32 : Reader UInt32 := do
  let val ← readExact 4
  pure (UInt32.ofNat (toWord val))

def readU64 : Reader UInt64 := do
  let val ← readExact 8
  pure (UInt64.ofNat (toWord val))

def readString : Reader Utf8String := do
  let strSize ← readU16
  let bytes ← readUpTo strSize
  match Utf8String.fromUtf8 bytes with
  | some str => pure str
  | none => throw .invalidUtf8

def readTimes {α : Type} (item : Reader α) : Nat → Reader (List α)
  | 0 => pure []
  | count + 1 => do
      let first ← item
      let rest ← readTimes item count
      pure (first :: rest)

/-- A 16-bit count and that many items. -/
def readVec {α : Type} (item : Reader α) : Reader (List α) := do
  let count ← readU16
  readTimes item count

/-! ### Instructions -/

def TokenStateSetup.decode : Reader TokenStateSetup := do
  let accountIndex ← readU8
  let walletAddresses ← readVec readString
  pure { accountIndex, walletAddresses }

def AddressIndex.decode : Reader AddressIndex := do
  let index ← readU32
  let last4 ← readExact 4
  pure { index, last4 }

def Adjustment.decode : Reader Adjustment := do
  let addressIndex ← AddressIndex.decode
  let amount ← readU64
  pure { addressIndex, amount }

def Withdrawal.decode : Reader Withdrawal := do
  let addressIndex ← AddressIndex.decode
  let amount ← readU64
  let feeAccountIndex ← readU8
  let feeAddressIndex ← AddressIndex.decode
  let feeAmount ← readU64
  pure { addressIndex, amount, feeAccountIndex, feeAddressIndex, feeAmount }

def TokenDeposits.decode : Reader TokenDeposits := do
  let accountIndex ← readU8
  let deposits ← readVec Adjustment.decode
  pure { accountIndex, deposits }

def TokenWithdrawals.decode : Reader TokenWithdrawals := do
  let accountIndex ← readU8
  let withdrawals ← readVec Withdrawal.decode
  pure { accountIndex, withdrawals }

def SettlementAdjustments.decode : Reader SettlementAdjustments := do
  let accountIndex ← readU8
  let increments ← readVec Adjustment.decode
  let decrements ← readVec Adjustment.decode
  let feeAmount ← readU64
  pure { accountIndex, increments, decrements, feeAmount }

def InitProgramStateParams.decode : Reader InitProgramStateParams := do
  let feeAccount ← readString
  let programChangeAddress ← readString
  let networkType ← NetworkType.decode <$> readU8
  pure { feeAccount, programChangeAddress, networkType }

def InitTokenStateParams.decode : Reader InitTokenStateParams := do
  let tokenId ← readString
  pure { tokenId }

def SetTokenRuneIdParams.decode : Reader SetTokenRuneIdParams := do
  let runeId ← readString
  pure { runeId }

def InitWalletBalancesParams.decode : Reader InitWalletBalancesParams := do
  let tokenStateSetups ← readVec TokenStateSetup.decode
  pure { tokenStateSetups }

def DepositBatchParams.decode : Reader DepositBatchParams := do
  let tokenDeposits ← readVec TokenDeposits.decode
  pure { tokenDeposits }

def WithdrawBatchParams.decode : Reader WithdrawBatchParams := do
  let txHexSize ← readU16
  let txHex ← readUpTo txHexSize
  let changeAmount ← readU64
  let tokenWithdrawals ← readVec TokenWithdrawals.decode
  let inputUtxoTypes ← readVec (InputUtxoType.decode <$> readU8)
  pure { txHex, changeAmount, tokenWithdrawals, inputUtxoTypes }

def UpdateWithdrawStateUtxoParams.decode : Reader UpdateWithdrawStateUtxoParams := do
  let txId ← readString
  let vout ← readU32
  pure { txId, vout }

def SettlementBatchParams.decode : Reader SettlementBatchParams := do
  let settlements ← readVec SettlementAdjustments.decode
  pure { settlements }

def RollbackWithdrawBatchParams.decode : Reader RollbackWithdrawBatchParams := do
  let tokenWithdrawals ← readVec TokenWithdrawals.decode
  pure { tokenWithdrawals }

/-- What each instruction type reads after its tag. -/
def ProgramInstruction.decodeParams (instrType : UInt8) : Reader ProgramInstruction :=
  if instrType = 0 then initProgramState <$> InitProgramStateParams.decode
  else if instrType = 1 then initTokenState <$> InitTokenStateParams.decode
  else if instrType = 2 then initWalletBalances <$> InitWalletBalancesParams.decode
  else if instrType = 3 then batchDeposit <$> DepositBatchParams.decode
  else if instrType = 4 then prepareBatchWithdraw <$> WithdrawBatchParams.decode
  else if instrType = 5 then prepareBatchSettlement <$> SettlementBatchParams.decode
  else if instrType = 6 then submitBatchSettlement <$> SettlementBatchParams.decode
  else if instrType = 7 then pure rollbackBatchSettlement
  else if instrType = 8 then rollbackBatchWithdraw <$> RollbackWithdrawBatchParams.decode
  else if instrType = 9 then submitBatchWithdraw <$> WithdrawBatchParams.decode
  else if instrType = 10 then updateWithdrawStateUtxo <$> UpdateWithdrawStateUtxoParams.decode
  else if instrType = 11 then pure initRuneReceiverState
  else if instrType = 12 then setTokeRuneId <$> SetTokenRuneIdParams.decode
  else throw (.other "Invalid instruction type")

def ProgramInstruction.decode : Reader ProgramInstruction := do
  let instrType ← readU8
  decodeParams instrType

def decodeFromSlice {α : Type} (reader : Reader α) (data : Bytes) : Except IoError α :=
  (reader data).map Prod.fst

theorem decode_cons (instrType : UInt8) (data : Bytes) :
    decodeFromSlice ProgramInstruction.decode (instrType :: data) =
      decodeFromSlice (ProgramInstruction.decodeParams instrType) data := by
  have hbyte : UInt8.ofNat (toWord [instrType]) = instrType := by
    simp [toWord]
  show (ProgramInstruction.decodeParams (UInt8.ofNat (toWord [instrType])) data).map Prod.fst = _
  rw [hbyte]
  rfl

theorem decodeFromSlice_map {α β : Type} (f : α → β) (reader : Reader α) (data : Bytes) :
    decodeFromSlice (f <$> reader) data = (decodeFromSlice reader data).map f := by
  show ((reader data >>= fun result => pure (f result.1, result.2)) : Except IoError (β × Bytes)).map
    Prod.fst = ((reader data).map Prod.fst).map f
  cases reader data <;> rfl

/-! ### Writing

Writing into a vector does not fail, and a length is cut to 16 bits. -/

def writeString (v : Utf8String) : Bytes := ofWord 2 v.bytes.length ++ v.bytes

/-- A 16-bit count and the items. -/
def writeVec {α : Type} (encode : α → Bytes) (items : List α) : Bytes :=
  ofWord 2 items.length ++ items.flatMap encode

def TokenStateSetup.encode (setup : TokenStateSetup) : Bytes :=
  [setup.accountIndex] ++ writeVec writeString setup.walletAddresses

def AddressIndex.encode (addressIndex : AddressIndex) : Bytes :=
  ofWord 4 addressIndex.index.toNat ++ addressIndex.last4.1

def Adjustment.encode (adjustment : Adjustment) : Bytes :=
  adjustment.addressIndex.encode ++ ofWord 8 adjustment.amount.toNat

def Withdrawal.encode (withdrawal : Withdrawal) : Bytes :=
  withdrawal.addressIndex.encode ++ ofWord 8 withdrawal.amount.toNat ++ [withdrawal.feeAccountIndex] ++
    withdrawal.feeAddressIndex.encode ++ ofWord 8 withdrawal.feeAmount.toNat

def TokenDeposits.encode (tokenDeposits : TokenDeposits) : Bytes :=
  [tokenDeposits.accountIndex] ++ writeVec Adjustment.encode tokenDeposits.deposits

def TokenWithdrawals.encode (tokenWithdrawals : TokenWithdrawals) : Bytes :=
  [tokenWithdrawals.accountIndex] ++ writeVec Withdrawal.encode tokenWithdrawals.withdrawals

def SettlementAdjustments.encode (settlement : SettlementAdjustments) : Bytes :=
  [settlement.accountIndex] ++ writeVec Adjustment.encode settlement.increments ++
    writeVec Adjustment.encode settlement.decrements ++ ofWord 8 settlement.feeAmount.toNat

def InitProgramStateParams.encode (params : InitProgramStateParams) : Bytes :=
  writeString params.feeAccount ++ writeString params.programChangeAddress ++ [params.networkType.encode]

def InitTokenStateParams.encode (params : InitTokenStateParams) : Bytes := writeString params.tokenId

def SetTokenRuneIdParams.encode (params : SetTokenRuneIdParams) : Bytes := writeString params.runeId

def InitWalletBalancesParams.encode (params : InitWalletBalancesParams) : Bytes :=
  writeVec TokenStateSetup.encode params.tokenStateSetups

def DepositBatchParams.encode (params : DepositBatchParams) : Bytes :=
  writeVec TokenDeposits.encode params.tokenDeposits

def WithdrawBatchParams.encode (params : WithdrawBatchParams) : Bytes :=
  ofWord 2 params.txHex.length ++ params.txHex ++ ofWord 8 params.changeAmount.toNat ++
    writeVec TokenWithdrawals.encode params.tokenWithdrawals ++
    writeVec (fun inputUtxoType => [InputUtxoType.encode inputUtxoType]) params.inputUtxoTypes

def UpdateWithdrawStateUtxoParams.encode (params : UpdateWithdrawStateUtxoParams) : Bytes :=
  writeString params.txId ++ ofWord 4 params.vout.toNat

def SettlementBatchParams.encode (params : SettlementBatchParams) : Bytes :=
  writeVec SettlementAdjustments.encode params.settlements

def RollbackWithdrawBatchParams.encode (params : RollbackWithdrawBatchParams) : Bytes :=
  writeVec TokenWithdrawals.encode params.tokenWithdrawals

namespace ProgramInstruction

/-- The tag of each instruction and the encoding of its parameters. -/
def encodeParts : ProgramInstruction → UInt8 × Bytes
  | initProgramState params => (0, params.encode)
  | initTokenState params => (1, params.encode)
  | initWalletBalances params => (2, params.encode)
  | batchDeposit params => (3, params.encode)
  | prepareBatchWithdraw params => (4, params.encode)
  | prepareBatchSettlement params => (5, params.encode)
  | submitBatchSettlement params => (6, params.encode)
  | rollbackBatchSettlement => (7, [])
  | rollbackBatchWithdraw params => (8, params.encode)
  | submitBatchWithdraw params => (9, params.encode)
  | updateWithdrawStateUtxo params => (10, params.encode)
  | initRuneReceiverState => (11, [])
  | setTokeRuneId params => (12, params.encode)

def encode (instruction : ProgramInstruction) : Bytes :=
  instruction.encodeParts.1 :: instruction.encodeParts.2

def paramsRawData (instructionData : Bytes) : Bytes := instructionData.drop 1

end ProgramInstruction

/-- A string and zeros up to a size; longer strings do not fit. -/
def writeStringWithPadding (v : Utf8String) (size : Nat) : Except Fault Bytes :=
  if v.bytes.length ≤ size then .ok (v.bytes ++ List.replicate (size - v.bytes.length) 0)
  else .error .panic

theorem writeStringWithPadding_length {v : Utf8String} {size : Nat} {bytes : Bytes}
    (h : writeStringWithPadding v size = .ok bytes) : bytes.length = size := by
  unfold writeStringWithPadding at h
  split at h
  · next hle =>
      cases h
      rw [List.length_append, List.length_replicate]
      omega
  · cases h

def Event.fields : Event → Bytes
  | .failedSettlement accountIndex addressIndex requestedAmount balance errorCode =>
      [0, accountIndex] ++ ofWord 4 addressIndex.toNat ++ ofWord 8 requestedAmount.toNat ++
        ofWord 8 balance.toNat ++ ofWord 4 errorCode.toNat
  | .failedWithdrawal accountIndex addressIndex feeAccountIndex feeAddressIndex requestedAmount
      feeAmount balance balanceInFeeToken errorCode =>
      [1, accountIndex] ++ ofWord 4 addressIndex.toNat ++ [feeAccountIndex] ++
        ofWord 4 feeAddressIndex.toNat ++ ofWord 8 requestedAmount.toNat ++
        ofWord 8 feeAmount.toNat ++ ofWord 8 balance.toNat ++ ofWord 8 balanceInFeeToken.toNat ++
        ofWord 4 errorCode.toNat

def Event.encode (event : Event) : Except IoError Bytes :=
  if eventSize < event.fields.length then .error (.other "Event is too large")
  else .ok (event.fields ++ List.replicate (eventSize - event.fields.length) 0)

/-- Every event fits its slot. -/
theorem Event.encode_eq_ok (event : Event) :
    ∃ bytes, event.encode = .ok bytes ∧ bytes.length = eventSize := by
  have hfits : event.fields.length ≤ eventSize := by
    cases event <;> simp [fields]
  refine ⟨_, if_neg (Nat.not_lt.mpr hfits), ?_⟩
  rw [List.length_append, List.length_replicate]
  omega

structure ProgramState where
  accountType : AccountType
  version : UInt32
  withdrawAccount : Pubkey
  feeAccountAddress : Utf8String
  programChangeAddress : Utf8String
  networkType : NetworkType
  settlementBatchHash : Hash
  lastSettlementBatchHash : Hash
  events : List Event

def ProgramState.encode (state : ProgramState) : Except Fault Bytes := do
  let feeAccountAddress ← writeStringWithPadding state.feeAccountAddress maxAddressSize
  let programChangeAddress ← writeStringWithPadding state.programChangeAddress maxAddressSize
  let events ← (state.events.mapM Event.encode).mapError fun _ => .panic
  pure ([state.accountType.encode] ++ ofWord 4 state.version.toNat ++ state.withdrawAccount ++
    feeAccountAddress ++ programChangeAddress ++ [state.networkType.encode] ++
    state.settlementBatchHash ++ state.lastSettlementBatchHash ++ ofWord 2 state.events.length ++
    events.flatten)

end Chainring.Arch

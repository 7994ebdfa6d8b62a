import Chainring.Base.Bytes
import Chainring.Base.Exec
import Mathlib.Logic.Function.Basic

/-! The exchange program's account layout, error codes, enumerations and instruction parameters, the
accounts a call works on, and the libraries and host calls that the program is built on. -/

namespace Chainring.Arch

/-! ### Layout of the account data -/

@[simp] def accountTypeSize : Nat := 1
@[simp] def versionSize : Nat := 4
@[simp] def pubkeySize : Nat := 32
@[simp] def programPubkeyOffset : Nat := versionSize + accountTypeSize
@[simp] def maxTokenIdSize : Nat := 32
@[simp] def tokenIdOffset : Nat := programPubkeyOffset + pubkeySize
@[simp] def balanceCountSize : Nat := 4
@[simp] def balanceCountOffset : Nat := tokenIdOffset + maxTokenIdSize
@[simp] def balancesOffset : Nat := balanceCountOffset + balanceCountSize

@[simp] def maxAddressSize : Nat := 92
@[simp] def balanceAmountSize : Nat := 8
@[simp] def balanceAmountOffset : Nat := maxAddressSize
@[simp] def balanceSize : Nat := maxAddressSize + balanceAmountSize

@[simp] def networkTypeSize : Nat := 1
@[simp] def hashSize : Nat := 32

@[simp] def withdrawAccountPubkeyOffset : Nat := versionSize + accountTypeSize
@[simp] def feeAccountOffset : Nat := withdrawAccountPubkeyOffset + pubkeySize
@[simp] def programChangeAddressOffset : Nat := feeAccountOffset + maxAddressSize
@[simp] def networkTypeOffset : Nat := programChangeAddressOffset + maxAddressSize

@[simp] def settlementHashOffset : Nat := networkTypeOffset + networkTypeSize
@[simp] def lastSettlementHashOffset : Nat := settlementHashOffset + hashSize
@[simp] def eventsSizeOffset : Nat := lastSettlementHashOffset + hashSize
@[simp] def eventsOffset : Nat := eventsSizeOffset + 2
@[simp] def eventSize : Nat := 64
@[simp] def maxEvents : Nat := 100
@[simp] def runeReceiverOffset : Nat := eventsOffset + eventSize * maxEvents

@[simp] def withdrawHashOffset : Nat := programPubkeyOffset + pubkeySize
@[simp] def withdrawAccountSize : Nat := withdrawHashOffset + hashSize
@[simp] def runeReceiverAccountSize : Nat := programPubkeyOffset + pubkeySize

def feeAddressIndex : UInt32 := 0
def dustThreshold : UInt64 := 546

@[simp] def maxPermittedDataLength : Nat := 10 * 1024 * 1024
@[simp] def maxPermittedDataIncrease : Nat := 10 * 1024

/-! ### Keys, hashes and errors -/

abbrev Pubkey := FixedBytes 32
abbrev Hash := FixedBytes 32
abbrev WalletLast4 := FixedBytes 4
abbrev UtxoMeta := FixedBytes 36

def emptyHash : Hash := ⟨List.replicate 32 0, rfl⟩

def errorInvalidAddressIndex : UInt32 := 601
def errorInvalidAccountIndex : UInt32 := 602
def errorInsufficientBalance : UInt32 := 603
def errorAddressMismatch : UInt32 := 604
def errorSettlementInProgress : UInt32 := 605
def errorNoSettlementInProgress : UInt32 := 606
def errorSettlementBatchMismatch : UInt32 := 607
def errorNetting : UInt32 := 608
def errorAlreadyInitialized : UInt32 := 609
def errorStateAccountMismatch : UInt32 := 610
def errorNoOutputsAllowed : UInt32 := 611
def errorInvalidAddress : UInt32 := 612
def errorInvalidAccountFlags : UInt32 := 613
def errorValueTooLarge : UInt32 := 614
def errorWalletLast4Mismatch : UInt32 := 615
def errorInvalidAddressNetwork : UInt32 := 616
def errorInvalidInputTx : UInt32 := 617
def errorWithdrawalInProgress : UInt32 := 618
def errorWithdrawalBatchMismatch : UInt32 := 619
def errorNoTxOutputs : UInt32 := 620
def errorInvalidAccountType : UInt32 := 621
def errorInvalidUtxoTypes : UInt32 := 622
def errorNoRuneReceiver : UInt32 := 622
def errorWithdrawalNotAllowed : UInt32 := 623
def errorInvalidRuneId : UInt32 := 624

/-- The reasons a program may fail. -/
inductive ProgramError where
  | custom (code : UInt32)
  | invalidArgument
  | invalidInstructionData
  | invalidAccountData
  | accountDataTooSmall
  | insufficientFunds
  | incorrectProgramId
  | missingRequiredSignature
  | accountAlreadyInitialized
  | uninitializedAccount
  | notEnoughAccountKeys
  | accountBorrowFailed
  | maxSeedLengthExceeded
  | invalidSeeds
  | borshIoError
  | illegalOwner
  | maxAccountsDataAllocationsExceeded
  | invalidRealloc
  | maxInstructionTraceLengthExceeded
  | builtinProgramsMustConsumeComputeUnits
  | invalidAccountOwner
  | arithmeticOverflow
  | immutable
  | incorrectAuthority
  deriving DecidableEq

/-- Built-in return values occupy the upper half. -/
def toBuiltin (error : UInt64) : UInt64 := error <<< 32

def ProgramError.toU64 : ProgramError → UInt64
  | .custom code => if code = 0 then toBuiltin 1 else code.toUInt64
  | .invalidArgument => toBuiltin 2
  | .invalidInstructionData => toBuiltin 3
  | .invalidAccountData => toBuiltin 4
  | .accountDataTooSmall => toBuiltin 5
  | .insufficientFunds => toBuiltin 6
  | .incorrectProgramId => toBuiltin 7
  | .missingRequiredSignature => toBuiltin 8
  | .accountAlreadyInitialized => toBuiltin 9
  | .uninitializedAccount => toBuiltin 10
  | .notEnoughAccountKeys => toBuiltin 11
  | .accountBorrowFailed => toBuiltin 12
  | .maxSeedLengthExceeded => toBuiltin 13
  | .invalidSeeds => toBuiltin 14
  | .borshIoError => toBuiltin 15
  | .illegalOwner => toBuiltin 18
  | .maxAccountsDataAllocationsExceeded => toBuiltin 19
  | .invalidRealloc => toBuiltin 20
  | .maxInstructionTraceLengthExceeded => toBuiltin 21
  | .builtinProgramsMustConsumeComputeUnits => toBuiltin 22
  | .invalidAccountOwner => toBuiltin 23
  | .arithmeticOverflow => toBuiltin 24
  | .immutable => toBuiltin 25
  | .incorrectAuthority => toBuiltin 26

/-- The errors with a built-in code. -/
def ProgramError.builtins : List ProgramError :=
  [.custom 0, .invalidArgument, .invalidInstructionData, .invalidAccountData, .accountDataTooSmall,
    .insufficientFunds, .incorrectProgramId, .missingRequiredSignature, .accountAlreadyInitialized,
    .uninitializedAccount, .notEnoughAccountKeys, .accountBorrowFailed, .maxSeedLengthExceeded,
    .invalidSeeds, .borshIoError, .illegalOwner, .maxAccountsDataAllocationsExceeded, .invalidRealloc,
    .maxInstructionTraceLengthExceeded, .builtinProgramsMustConsumeComputeUnits, .invalidAccountOwner,
    .arithmeticOverflow, .immutable, .incorrectAuthority]

def ProgramError.fromU64 (error : UInt64) : ProgramError :=
  (builtins.find? fun e => decide (e.toU64 = error)).getD (.custom error.toUInt32)

/-- Every error is known by its return value. -/
theorem ProgramError.fromU64_toU64 (error : ProgramError) : fromU64 error.toU64 = error := by
  cases error with
  | custom code =>
      by_cases hzero : code = 0
      · subst hzero
        decide
      · have hcode : (custom code).toU64 = code.toUInt64 := if_neg hzero
        have hlarge : ∀ e ∈ builtins, 2 ^ 32 ≤ e.toU64.toNat := by decide
        have hnone : (builtins.find? fun e => decide (e.toU64 = code.toUInt64)) = none := by
          rw [List.find?_eq_none]
          intro e he heq
          have hsmall := code.toNat_lt
          have hle := hlarge e he
          rw [of_decide_eq_true heq, UInt32.toNat_toUInt64] at hle
          omega
        rw [fromU64, hcode, hnone]
        simp
  | _ => decide

inductive AccountType where
  | program
  | token
  | withdraw
  | runeReceiver
  | unknown
  deriving DecidableEq

def AccountType.decode (byte : UInt8) : AccountType :=
  if byte = 1 then .program
  else if byte = 2 then .token
  else if byte = 3 then .withdraw
  else if byte = 4 then .runeReceiver
  else .unknown

def AccountType.encode : AccountType → UInt8
  | .program => 1
  | .token => 2
  | .withdraw => 3
  | .runeReceiver => 4
  | .unknown => 0

theorem AccountType.decode_encode (accountType : AccountType) :
    decode accountType.encode = accountType := by
  cases accountType <;> rfl

inductive NetworkType where
  | bitcoin
  | testnet
  | signet
  | regtest
  deriving DecidableEq

def NetworkType.decode (byte : UInt8) : NetworkType :=
  if byte = 0 then .bitcoin
  else if byte = 1 then .testnet
  else if byte = 2 then .signet
  else if byte = 3 then .regtest
  else .bitcoin

def NetworkType.encode : NetworkType → UInt8
  | .bitcoin => 0
  | .testnet => 1
  | .signet => 2
  | .regtest => 3

theorem NetworkType.decode_encode (networkType : NetworkType) :
    decode networkType.encode = networkType := by
  cases networkType <;> rfl

inductive InputUtxoType where
  | bitcoin
  | rune
  deriving DecidableEq

def InputUtxoType.decode (byte : UInt8) : InputUtxoType :=
  if byte = 0 then .bitcoin
  else if byte = 1 then .rune
  else .bitcoin

def InputUtxoType.encode : InputUtxoType → UInt8
  | .bitcoin => 0
  | .rune => 1

theorem InputUtxoType.decode_encode (inputUtxoType : InputUtxoType) :
    decode inputUtxoType.encode = inputUtxoType := by
  cases inputUtxoType <;> rfl

/-! ### Instruction parameters -/

structure AddressIndex where
  index : UInt32
  last4 : WalletLast4
  deriving DecidableEq

structure Adjustment where
  addressIndex : AddressIndex
  amount : UInt64
  deriving DecidableEq

structure TokenStateSetup where
  accountIndex : UInt8
  walletAddresses : List Utf8String
  deriving DecidableEq

structure Withdrawal where
  addressIndex : AddressIndex
  amount : UInt64
  feeAccountIndex : UInt8
  feeAddressIndex : AddressIndex
  feeAmount : UInt64
  deriving DecidableEq

structure TokenDeposits where
  accountIndex : UInt8
  deposits : List Adjustment
  deriving DecidableEq

structure TokenWithdrawals where
  accountIndex : UInt8
  withdrawals : List Withdrawal
  deriving DecidableEq

structure SettlementAdjustments where
  accountIndex : UInt8
  increments : List Adjustment
  decrements : List Adjustment
  feeAmount : UInt64
  deriving DecidableEq

structure InitProgramStateParams where
  feeAccount : Utf8String
  programChangeAddress : Utf8String
  networkType : NetworkType
  deriving DecidableEq

structure InitTokenStateParams where
  tokenId : Utf8String
  deriving DecidableEq

structure SetTokenRuneIdParams where
  runeId : Utf8String
  deriving DecidableEq

structure InitWalletBalancesParams where
  tokenStateSetups : List TokenStateSetup
  deriving DecidableEq

structure DepositBatchParams where
  tokenDeposits : List TokenDeposits
  deriving DecidableEq

structure WithdrawBatchParams where
  txHex : Bytes
  changeAmount : UInt64
  tokenWithdrawals : List TokenWithdrawals
  inputUtxoTypes : List InputUtxoType
  deriving DecidableEq

structure SettlementBatchParams where
  settlements : List SettlementAdjustments
  deriving DecidableEq

structure RollbackWithdrawBatchParams where
  tokenWithdrawals : List TokenWithdrawals
  deriving DecidableEq

structure UpdateWithdrawStateUtxoParams where
  txId : Utf8String
  vout : UInt32
  deriving DecidableEq

inductive ProgramInstruction where
  | initProgramState (params : InitProgramStateParams)
  | initTokenState (params : InitTokenStateParams)
  | initWalletBalances (params : InitWalletBalancesParams)
  | batchDeposit (params : DepositBatchParams)
  | prepareBatchWithdraw (params : WithdrawBatchParams)
  | prepareBatchSettlement (params : SettlementBatchParams)
  | submitBatchSettlement (params : SettlementBatchParams)
  | rollbackBatchSettlement
  | rollbackBatchWithdraw (params : RollbackWithdrawBatchParams)
  | submitBatchWithdraw (params : WithdrawBatchParams)
  | updateWithdrawStateUtxo (params : UpdateWithdrawStateUtxoParams)
  | initRuneReceiverState
  | setTokeRuneId (params : SetTokenRuneIdParams)
  deriving DecidableEq

inductive Event where
  | failedSettlement (accountIndex : UInt8) (addressIndex : UInt32) (requestedAmount : UInt64)
      (balance : UInt64) (errorCode : UInt32)
  | failedWithdrawal (accountIndex : UInt8) (addressIndex : UInt32) (feeAccountIndex : UInt8)
      (feeAddressIndex : UInt32) (requestedAmount : UInt64) (feeAmount : UInt64) (balance : UInt64)
      (balanceInFeeToken : UInt64) (errorCode : UInt32)
  deriving DecidableEq

/-! ### Bitcoin and rune values -/

inductive Network where
  | bitcoin
  | testnet
  | signet
  | regtest
  deriving DecidableEq

/-- A parsed address before its network is checked. -/
structure UncheckedAddress where
  isValidForNetwork : Network → Bool
  scriptPubkey : Bytes

structure RuneId where
  block : UInt64
  tx : UInt32
  deriving DecidableEq

structure Edict where
  id : RuneId
  amount : Nat
  output : UInt32
  deriving DecidableEq

structure TxIn where
  txid : FixedBytes 32
  vout : UInt32
  scriptSig : Bytes
  sequence : UInt32
  witness : List Bytes
  deriving DecidableEq

structure TxOut where
  value : UInt64
  scriptPubkey : Bytes
  deriving DecidableEq

structure Transaction where
  version : Nat
  lockTime : UInt32
  input : List TxIn
  output : List TxOut
  deriving DecidableEq

structure InputToSign where
  index : UInt32
  signer : Pubkey
  deriving DecidableEq

/-! ### Accounts of a call -/

structure AccountInfo where
  key : Pubkey
  isSigner : Bool
  isWritable : Bool
  deriving DecidableEq

/-- What a call holds of one account; listing an account twice shares it. -/
structure Account where
  data : Bytes
  utxo : UtxoMeta
  originalDataLen : Nat

abbrev Memory := Pubkey → Account

def Memory.setData (m : Memory) (key : Pubkey) (data : Bytes) : Memory :=
  Function.update m key { m key with data := data }

def Memory.setUtxo (m : Memory) (key : Pubkey) (utxo : UtxoMeta) : Memory :=
  Function.update m key { m key with utxo := utxo }

@[simp] theorem Memory.setData_self (m : Memory) (key : Pubkey) (data : Bytes) :
    m.setData key data key = { m key with data := data } := by
  rw [setData, Function.update_self]

theorem Memory.setData_of_ne (m : Memory) {key key' : Pubkey} (data : Bytes) (hne : key' ≠ key) :
    m.setData key data key' = m key' := by
  rw [setData, Function.update_of_ne hne]

theorem Memory.setData_data (m : Memory) (key key' : Pubkey) (data : Bytes) :
    (m.setData key data key').data = if key' = key then data else (m key').data := by
  by_cases hkey : key' = key
  · subst hkey
    rw [setData_self, if_pos rfl]
  · rw [setData_of_ne m data hkey, if_neg hkey]

@[simp] theorem Memory.setData_originalDataLen (m : Memory) (key key' : Pubkey) (data : Bytes) :
    (m.setData key data key').originalDataLen = (m key').originalDataLen := by
  by_cases hkey : key' = key
  · subst hkey
    rw [setData_self]
  · rw [setData_of_ne m data hkey]

@[simp] theorem Memory.setData_utxo (m : Memory) (key key' : Pubkey) (data : Bytes) :
    (m.setData key data key').utxo = (m key').utxo := by
  by_cases hkey : key' = key
  · subst hkey
    rw [setData_self]
  · rw [setData_of_ne m data hkey]

@[simp] theorem Memory.setUtxo_data (m : Memory) (key key' : Pubkey) (utxo : UtxoMeta) :
    (m.setUtxo key utxo key').data = (m key').data := by
  by_cases hkey : key' = key
  · subst hkey
    rw [setUtxo, Function.update_self]
  · rw [setUtxo, Function.update_of_ne hkey]

@[simp] theorem Memory.setUtxo_originalDataLen (m : Memory) (key key' : Pubkey) (utxo : UtxoMeta) :
    (m.setUtxo key utxo key').originalDataLen = (m key').originalDataLen := by
  by_cases hkey : key' = key
  · subst hkey
    rw [setUtxo, Function.update_self]
  · rw [setUtxo, Function.update_of_ne hkey]

abbrev Fault := Failure ProgramError
abbrev Prog (α : Type) := Exec ProgramError Memory α

/-- The libraries and the host that the program calls, with `none` where they refuse. -/
structure Runtime where
  digest : Bytes → Hash
  addressFromStr : Utf8String → Option UncheckedAddress
  runeIdFromStr : Utf8String → Option RuneId
  deserializeTransaction : Bytes → Option Transaction
  serializeTransaction : Transaction → Bytes
  computeTxid : Transaction → FixedBytes 32
  getBitcoinTx : FixedBytes 32 → Option Bytes
  getAccountScriptPubkey : Pubkey → FixedBytes 34
  archSetTransactionToSign : Bytes → UInt64
  encipher : List Edict → Bytes
  hashSetOrder : List RuneId → List RuneId

end Chainring.Arch

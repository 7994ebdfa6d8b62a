import Chainring.Arch.Account
import Chainring.Arch.Serialization

/-! The fields of the program's accounts: reading and writing them in the account data, growing and
initialising accounts, and the validation that every instruction begins with. -/

namespace Chainring.Arch

open Bytes (ofWord toWord)

variable (rt : Runtime)

/-! ### Strings and blocks in account data -/

/-- The bytes before the first zero, as a string. -/
def parseString (tmp : Bytes) : Except Fault Utf8String :=
  match Utf8String.fromUtf8 (tmp.takeWhile (· ≠ 0)) with
  | some string => .ok string
  | none => .error (.error .invalidAccountData)

def getAddress (offset : Nat) (data : Bytes) : Except Fault Utf8String := do
  let tmp ← readBlock offset maxAddressSize data
  parseString tmp

/-- The last four bytes before the first zero. -/
def getWalletLast4 (offset : Nat) (data : Bytes) : Except Fault WalletLast4 := do
  let tmp ← readBlock offset maxAddressSize data
  let pos := (tmp.takeWhile (· ≠ 0)).length
  if pos < 4 then .error .panic else readArray (pos - 4) 4 tmp

def setString (offset : Nat) (string : Utf8String) (maxSize : Nat) (data : Bytes) :
    Except Fault Bytes :=
  if maxSize ≤ string.bytes.length then .error (.error (.custom errorValueTooLarge))
  else do
    let data ← writeBlock offset (List.replicate maxSize 0) data
    writeBlock offset string.bytes data

def hashFromSlice (offset : Nat) (data : Bytes) : Except Fault Hash := readArray offset hashSize data

def setType (accountType : AccountType) (data : Bytes) : Except Fault Bytes :=
  writeBlock 0 [accountType.encode] data

def getType (data : Bytes) : Except Fault AccountType := do
  let block ← readArray 0 1 data
  pure (AccountType.decode (UInt8.ofNat (toWord block)))

/-! ### Token accounts -/

namespace TokenState

def getNumBalances (data : Bytes) : Except Fault Nat := do
  let block ← readBlock balanceCountOffset 4 data
  pure (toWord block)

def setNumBalances (numBalances : Nat) (data : Bytes) : Except Fault Bytes :=
  writeBlock balanceCountOffset (ofWord 4 numBalances) data

def setTokenId (tokenId : Utf8String) (data : Bytes) : Except Fault Bytes :=
  setString tokenIdOffset tokenId maxTokenIdSize data

def getTokenId (data : Bytes) : Except Fault Utf8String := do
  let tmp ← readBlock tokenIdOffset maxTokenIdSize data
  parseString tmp

def getRuneId (data : Bytes) : Except Fault RuneId := do
  let tokenId ← getTokenId data
  match rt.runeIdFromStr tokenId with
  | some runeId => .ok runeId
  | none => .error (.error .invalidAccountData)

def isRuneId (tokenId : Utf8String) : Bool := (rt.runeIdFromStr tokenId).isSome

def isRuneAccount (data : Bytes) : Except Fault Bool := do
  let tokenId ← (getTokenId data).mapError fun _ => .panic
  pure (isRuneId rt tokenId)

def canWithdraw (data : Bytes) : Except Fault Bool := do
  let tokenId ← (getTokenId data).mapError fun _ => .panic
  match rt.runeIdFromStr tokenId with
  | some runeId => pure (decide (runeId.block ≠ 0))
  | none => pure true

def getProgramStateAccountKey (data : Bytes) : Except Fault Pubkey :=
  readArray programPubkeyOffset pubkeySize data

def setProgramAccount (pubkey : Pubkey) (data : Bytes) : Except Fault Bytes :=
  writeBlock programPubkeyOffset pubkey.1 data

/-- Room for more balances, judged from the length that the account had at the start of the call. -/
def growBalanceAccountsIfNeeded (account : AccountInfo) (additionalBalances : Nat) : Prog Unit := do
  let originalDataLen ← account.originalDataLen
  let numBalances ← (if 0 < originalDataLen then account.read getNumBalances else pure 0 : Prog Nat)
  Exec.when (originalDataLen < balancesOffset + (numBalances + additionalBalances) * balanceSize)
    (account.realloc (originalDataLen + maxPermittedDataIncrease))

end TokenState

/-! ### Balances -/

namespace Balance

def getWalletBalance (index : Nat) (data : Bytes) : Except Fault UInt64 := do
  let block ← readBlock (balancesOffset + index * balanceSize + balanceAmountOffset) 8 data
  pure (UInt64.ofNat (toWord block))

def setWalletBalance (index : Nat) (balance : UInt64) (data : Bytes) : Except Fault Bytes :=
  writeBlock (balancesOffset + index * balanceSize + balanceAmountOffset) (ofWord 8 balance.toNat) data

/-- The sum wraps. -/
def incrementWalletBalance (index : Nat) (balanceAdjustment : UInt64) (data : Bytes) :
    Except Fault Bytes := do
  let currentBalance ← getWalletBalance index data
  setWalletBalance index (currentBalance + balanceAdjustment) data

def decrementWalletBalance (index : Nat) (balanceAdjustment : UInt64) (data : Bytes) :
    Except Fault Bytes := do
  let currentBalance ← getWalletBalance index data
  if balanceAdjustment ≤ currentBalance then
    setWalletBalance index (currentBalance - balanceAdjustment) data
  else .error (.error (.custom errorInsufficientBalance))

def getWalletAddress (index : Nat) (data : Bytes) : Except Fault Utf8String :=
  getAddress (balancesOffset + index * balanceSize) data

def setWalletAddress (index : Nat) (address : Utf8String) (data : Bytes) : Except Fault Bytes :=
  setString (balancesOffset + index * balanceSize) address maxAddressSize data

def getWalletAddressLast4 (index : Nat) (data : Bytes) : Except Fault WalletLast4 :=
  getWalletLast4 (balancesOffset + index * balanceSize) data

end Balance

def TokenState.initialise (account : AccountInfo) (tokenId feeAccountAddress : Utf8String)
    (pubkey : Pubkey) : Prog Unit := do
  growBalanceAccountsIfNeeded account 1
  account.write (setType .token)
  account.write (setProgramAccount pubkey)
  account.write (setTokenId tokenId)
  Exec.when (isRuneId rt tokenId = false) do
    account.write (setNumBalances 1)
    account.write (Balance.setWalletAddress 0 feeAccountAddress)

/-! ### The program state -/

namespace ProgramState

def getWithdrawAccountKey (data : Bytes) : Except Fault Pubkey :=
  readArray withdrawAccountPubkeyOffset pubkeySize data

def getFeeAccountAddress (data : Bytes) : Except Fault Utf8String := getAddress feeAccountOffset data

def getProgramChangeAddress (data : Bytes) : Except Fault Utf8String :=
  getAddress programChangeAddressOffset data

def getNetworkType (data : Bytes) : Except Fault NetworkType := do
  let block ← readArray networkTypeOffset 1 data
  pure (NetworkType.decode (UInt8.ofNat (toWord block)))

def getSettlementHash (data : Bytes) : Except Fault Hash := hashFromSlice settlementHashOffset data

def setSettlementHash (hash : Hash) (data : Bytes) : Except Fault Bytes :=
  writeBlock settlementHashOffset hash.1 data

def clearSettlementHash (data : Bytes) : Except Fault Bytes := setSettlementHash emptyHash data

def setLastSettlementHash (hash : Hash) (data : Bytes) : Except Fault Bytes :=
  writeBlock lastSettlementHashOffset hash.1 data

def clearEvents (data : Bytes) : Except Fault Bytes := writeBlock eventsSizeOffset (ofWord 2 0) data

def getEventsCount (data : Bytes) : Except Fault Nat := do
  let block ← readBlock eventsSizeOffset 2 data
  pure (toWord block)

def emitEvent (event : Event) (data : Bytes) : Except Fault Bytes := do
  let currentCount ← getEventsCount data
  if currentCount = maxEvents then .error (.error (.custom errorValueTooLarge))
  else do
    let encoded ← event.encode.mapError fun _ => .panic
    let data ← writeBlock (eventsOffset + currentCount * eventSize) encoded data
    writeBlock eventsSizeOffset (ofWord 2 (currentCount + 1)) data

def setRuneReceiver (pubkey : Pubkey) (data : Bytes) : Except Fault Bytes :=
  writeBlock runeReceiverOffset pubkey.1 data

end ProgramState

/-! ### The withdraw and rune receiver accounts -/

namespace WithdrawState

def getProgramStateAccountKey (data : Bytes) : Except Fault Pubkey :=
  readArray programPubkeyOffset pubkeySize data

def setProgramAccount (pubkey : Pubkey) (data : Bytes) : Except Fault Bytes :=
  writeBlock programPubkeyOffset pubkey.1 data

def getHash (data : Bytes) : Except Fault Hash := hashFromSlice withdrawHashOffset data

def setHash (hash : Hash) (data : Bytes) : Except Fault Bytes :=
  writeBlock withdrawHashOffset hash.1 data

def clearHash (data : Bytes) : Except Fault Bytes := setHash emptyHash data

def initialise (accounts : List AccountInfo) : Prog Unit := do
  let withdrawAccount ← accountAt accounts 1
  let isEmpty ← withdrawAccount.dataIsEmpty
  Exec.when (isEmpty = true) do
    withdrawAccount.realloc withdrawAccountSize
    withdrawAccount.write (setType .withdraw)
    let programAccount ← accountAt accounts 0
    withdrawAccount.write (setProgramAccount programAccount.key)

end WithdrawState

namespace RuneReceiverState

def getProgramStateAccountKey (data : Bytes) : Except Fault Pubkey :=
  readArray programPubkeyOffset pubkeySize data

def setProgramAccount (pubkey : Pubkey) (data : Bytes) : Except Fault Bytes :=
  writeBlock programPubkeyOffset pubkey.1 data

/-- The emptiness test and the growth are on the account at 1, the type and the key on the given one. -/
def initialise (accounts : List AccountInfo) (accountIndex : Nat) : Prog Unit := do
  let first ← accountAt accounts 1
  let isEmpty ← first.dataIsEmpty
  Exec.when (isEmpty = true) do
    first.realloc runeReceiverAccountSize
    let account ← accountAt accounts accountIndex
    account.write (setType .runeReceiver)
    let programAccount ← accountAt accounts 0
    account.write (setProgramAccount programAccount.key)
    let programLen ← programAccount.dataLen
    Exec.when (programLen = runeReceiverOffset) do
      programAccount.realloc (runeReceiverOffset + pubkeySize)
      programAccount.write (ProgramState.setRuneReceiver first.key)

end RuneReceiverState

/-! ### Validation -/

/-- The key that an account of each type stores for the account it belongs with. -/
def relatedAccountKey (accountType : AccountType) (data : Bytes) : Except Fault Pubkey :=
  match accountType with
  | .program => ProgramState.getWithdrawAccountKey data
  | .withdraw => WithdrawState.getProgramStateAccountKey data
  | .token => TokenState.getProgramStateAccountKey data
  | .runeReceiver => RuneReceiverState.getProgramStateAccountKey data
  | .unknown => .error (.error (.custom errorInvalidAccountType))

def validateAccount (accounts : List AccountInfo) (index : UInt8) (isSigner isWritable : Bool)
    (accountType : Option AccountType) (relatedAccountIndex : Option UInt8) : Prog Unit := do
  Exec.ensure (index.toNat < accounts.length) (.custom errorInvalidAccountIndex)
  let account ← accountAt accounts index.toNat
  Exec.ensure (account.isSigner = isSigner ∧ account.isWritable = isWritable)
    (.custom errorInvalidAccountFlags)
  match accountType with
  | some accountType => do
      let actualType ← account.read getType
      Exec.ensure (actualType = accountType) (.custom errorInvalidAccountType)
      match relatedAccountIndex with
      | some relatedAccountIndex => do
          let relatedKey ← account.read (relatedAccountKey accountType)
          let relatedAccount ← accountAt accounts relatedAccountIndex.toNat
          Exec.ensure (relatedKey = relatedAccount.key) (.custom errorStateAccountMismatch)
      | none => pure ()
  | none => do
      let isEmpty ← account.dataIsEmpty
      Exec.ensure (isEmpty = true) (.custom errorAlreadyInitialized)

def mapNetworkType : NetworkType → Network
  | .bitcoin => .bitcoin
  | .testnet => .testnet
  | .signet => .signet
  | .regtest => .regtest

def validateBitcoinAddress (address : Utf8String) (networkType : NetworkType) (strict : Bool) :
    Except Fault Unit :=
  match rt.addressFromStr address with
  | none => .error (.error (.custom errorInvalidAddress))
  | some uncheckedAddress =>
      if (strict = true ∨ networkType = .bitcoin) ∧
          uncheckedAddress.isValidForNetwork (mapNetworkType networkType) = false then
        .error (.error (.custom errorInvalidAddressNetwork))
      else .ok ()

/-- The script of an address, which must parse and belong to the network. -/
def getBitcoinAddress (address : Utf8String) (networkType : NetworkType) : Except Fault Bytes :=
  match rt.addressFromStr address with
  | none => .error .panic
  | some uncheckedAddress =>
      if uncheckedAddress.isValidForNetwork (mapNetworkType networkType) = true then
        .ok uncheckedAddress.scriptPubkey
      else .error .panic

def getValidatedIndex (addressIndex : AddressIndex) (data : Bytes) : Except Fault Nat := do
  let numBalances ← TokenState.getNumBalances data
  if numBalances ≤ addressIndex.index.toNat then
    .error (.error (.custom errorInvalidAddressIndex))
  else do
    let last4 ← Balance.getWalletAddressLast4 addressIndex.index.toNat data
    if last4 = addressIndex.last4 then pure addressIndex.index.toNat
    else .error (.error (.custom errorWalletLast4Mismatch))

def getValidatedIndexWithdraw (addressIndex : AddressIndex) (networkType : NetworkType)
    (data : Bytes) : Except Fault Nat := do
  let index ← getValidatedIndex addressIndex data
  let walletAddress ← Balance.getWalletAddress index data
  validateBitcoinAddress rt walletAddress networkType true
  let canWithdraw ← TokenState.canWithdraw rt data
  if canWithdraw then pure index else .error (.error (.custom errorWithdrawalNotAllowed))

end Chainring.Arch

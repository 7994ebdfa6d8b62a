import Chainring.Arch.State

/-! The thirteen instructions of the exchange program. -/

namespace Chainring.Arch

open Bytes (ofWord toWord)
open Exec (ensure when)

variable (rt : Runtime)

/-- Use a computation that does not look at the accounts. -/
def lift {α : Type} (x : Except Fault α) : Prog α := Exec.query fun _ => x

/-- Read from an account, with the error as a result. -/
def AccountInfo.tryRead {α : Type} (account : AccountInfo) (get : Bytes → Except Fault α) :
    Prog (Except ProgramError α) :=
  account.read fun data =>
    match get data with
    | .ok value => .ok (.ok value)
    | .error (.error e) => .ok (.error e)
    | .error .panic => .error .panic

/-! ### Initialisation -/

def initStateData (account : AccountInfo) (newData : Bytes) (additionalBytes : Nat) : Prog Unit := do
  ensure (newData.length + additionalBytes ≤ maxPermittedDataLength) .invalidRealloc
  account.realloc (newData.length + additionalBytes)
  account.write fun data =>
    if newData.length = eventsOffset then writeBlock 0 newData data else .error .panic

def initProgramState (accounts : List AccountInfo) (params : InitProgramStateParams) : Prog Unit := do
  validateAccount accounts 0 true true none none
  validateAccount accounts 1 false true none none
  when (accounts.length = 3) (validateAccount accounts 2 false true none none)
  lift (validateBitcoinAddress rt params.programChangeAddress params.networkType true)
  lift (validateBitcoinAddress rt params.feeAccount params.networkType true)
  let programAccount ← accountAt accounts 0
  let withdrawAccount ← accountAt accounts 1
  let newData ← lift (ProgramState.encode
    { accountType := .program
      version := 0
      withdrawAccount := withdrawAccount.key
      feeAccountAddress := params.feeAccount
      programChangeAddress := params.programChangeAddress
      networkType := params.networkType
      settlementBatchHash := emptyHash
      lastSettlementBatchHash := emptyHash
      events := [] })
  initStateData programAccount newData (eventSize * maxEvents)
  when (accounts.length = 3) (RuneReceiverState.initialise accounts 2)
  WithdrawState.initialise accounts

def initTokenState (accounts : List AccountInfo) (params : InitTokenStateParams) : Prog Unit := do
  validateAccount accounts 0 true false (some .program) none
  validateAccount accounts 1 false true none none
  let programAccount ← accountAt accounts 0
  let tokenAccount ← accountAt accounts 1
  let feeAccountAddress ← programAccount.read ProgramState.getFeeAccountAddress
  TokenState.initialise rt tokenAccount params.tokenId feeAccountAddress programAccount.key

def setTokenRuneId (accounts : List AccountInfo) (params : SetTokenRuneIdParams) : Prog Unit := do
  validateAccount accounts 0 true false (some .program) none
  validateAccount accounts 1 false true (some .token) (some 0)
  ensure (TokenState.isRuneId rt params.runeId = true) (.custom errorInvalidRuneId)
  let tokenAccount ← accountAt accounts 1
  tokenAccount.write (TokenState.setTokenId params.runeId)

def initRuneReceiverState (accounts : List AccountInfo) : Prog Unit := do
  validateAccount accounts 0 true true (some .program) none
  validateAccount accounts 1 false true none none
  RuneReceiverState.initialise accounts 1

/-- One wallet address into the slot after the ones in use. -/
def addWallet (account : AccountInfo) (networkType : NetworkType) (numBalances : Nat)
    (walletAddress : Utf8String) : Prog Nat := do
  lift (validateBitcoinAddress rt walletAddress networkType false)
  account.write (Balance.setWalletAddress numBalances walletAddress)
  pure (numBalances + 1)

def initWalletBalances (accounts : List AccountInfo) (params : InitWalletBalancesParams) :
    Prog Unit := do
  validateAccount accounts 0 true false (some .program) none
  let programAccount ← accountAt accounts 0
  let networkType ← programAccount.read ProgramState.getNetworkType
  params.tokenStateSetups.forM fun tokenStateSetup => do
    validateAccount accounts tokenStateSetup.accountIndex false true (some .token) (some 0)
    let account ← accountAt accounts tokenStateSetup.accountIndex.toNat
    TokenState.growBalanceAccountsIfNeeded account tokenStateSetup.walletAddresses.length
    let numBalances ← account.read TokenState.getNumBalances
    let numBalances ← tokenStateSetup.walletAddresses.foldlM (addWallet rt account networkType) numBalances
    account.write (TokenState.setNumBalances numBalances)

/-! ### Adjustments -/

def handleAdjustments (account : AccountInfo) (adjustments : List Adjustment) (increment : Bool) :
    Prog Unit :=
  adjustments.forM fun adjustment => do
    let index ← account.read (getValidatedIndex adjustment.addressIndex)
    if increment then account.write (Balance.incrementWalletBalance index adjustment.amount)
    else account.write (Balance.decrementWalletBalance index adjustment.amount)

def handleIncrements (account : AccountInfo) (adjustments : List Adjustment) : Prog Unit :=
  handleAdjustments account adjustments true

def handleDecrements (account : AccountInfo) (adjustments : List Adjustment) : Prog Unit :=
  handleAdjustments account adjustments false

/-- The sum of the decrements, with an event for each that exceeds its balance on its own. -/
def verifyDecrements (accounts : List AccountInfo) (accountIndex : UInt8)
    (adjustments : List Adjustment) : Prog UInt64 := do
  let account ← accountAt accounts accountIndex.toNat
  adjustments.foldlM (fun total adjustment => do
    let index ← account.read (getValidatedIndex adjustment.addressIndex)
    let currentBalance ← account.read (Balance.getWalletBalance index)
    when (currentBalance < adjustment.amount) do
      let programAccount ← accountAt accounts 0
      programAccount.write (ProgramState.emitEvent
        (.failedSettlement accountIndex adjustment.addressIndex.index adjustment.amount currentBalance
          errorInsufficientBalance))
    pure (total + adjustment.amount)) 0

def verifyIncrements (accounts : List AccountInfo) (accountIndex : UInt8)
    (adjustments : List Adjustment) : Prog UInt64 := do
  let account ← accountAt accounts accountIndex.toNat
  adjustments.foldlM (fun total adjustment => do
    let _ ← account.read (getValidatedIndex adjustment.addressIndex)
    pure (total + adjustment.amount)) 0

def depositBatch (accounts : List AccountInfo) (params : DepositBatchParams) : Prog Unit := do
  validateAccount accounts 0 true false (some .program) none
  params.tokenDeposits.forM fun tokenDeposits => do
    validateAccount accounts tokenDeposits.accountIndex false true (some .token) (some 0)
    let account ← accountAt accounts tokenDeposits.accountIndex.toNat
    handleIncrements account tokenDeposits.deposits

/-! ### Settlement -/

/-- What one entry of a batch moves: the fee to the wallet at 0, the increments, the decrements. -/
def applySettlement (accounts : List AccountInfo) (tokenSettlements : SettlementAdjustments) :
    Prog Unit := do
  validateAccount accounts tokenSettlements.accountIndex false true (some .token) (some 0)
  let account ← accountAt accounts tokenSettlements.accountIndex.toNat
  when (0 < tokenSettlements.feeAmount) do
    let last4 ← account.read (Balance.getWalletAddressLast4 feeAddressIndex.toNat)
    handleIncrements account
      [{ addressIndex := { index := feeAddressIndex, last4 := last4 }, amount := tokenSettlements.feeAmount }]
  handleIncrements account tokenSettlements.increments
  handleDecrements account tokenSettlements.decrements

def submitSettlementBatch (accounts : List AccountInfo) (params : SettlementBatchParams)
    (rawParamsData : Bytes) : Prog Unit := do
  validateAccount accounts 0 true true (some .program) none
  let programAccount ← accountAt accounts 0
  let currentHash ← programAccount.read ProgramState.getSettlementHash
  let paramsHash := rt.digest rawParamsData
  ensure (currentHash ≠ emptyHash) (.custom errorNoSettlementInProgress)
  ensure (currentHash = paramsHash) (.custom errorSettlementBatchMismatch)
  params.settlements.forM (applySettlement accounts)
  programAccount.write (ProgramState.setLastSettlementHash paramsHash)
  programAccount.write ProgramState.clearSettlementHash

/-- One entry added to the running total; all sums wrap. -/
def verifySettlement (accounts : List AccountInfo) (runningNettingTotal : Int64)
    (tokenSettlements : SettlementAdjustments) : Prog Int64 := do
  validateAccount accounts tokenSettlements.accountIndex false false (some .token) (some 0)
  let decrementSum ← verifyDecrements accounts tokenSettlements.accountIndex tokenSettlements.decrements
  let incrementTotal ← verifyIncrements accounts tokenSettlements.accountIndex tokenSettlements.increments
  let incrementSum := incrementTotal + tokenSettlements.feeAmount
  pure (runningNettingTotal + (incrementSum.toInt64 - decrementSum.toInt64))

def prepareSettlementBatch (accounts : List AccountInfo) (params : SettlementBatchParams)
    (rawParamsData : Bytes) : Prog Unit := do
  validateAccount accounts 0 true true (some .program) none
  let programAccount ← accountAt accounts 0
  let currentHash ← programAccount.read ProgramState.getSettlementHash
  ensure (currentHash = emptyHash) (.custom errorSettlementInProgress)
  programAccount.write ProgramState.clearEvents
  let runningNettingTotal ← params.settlements.foldlM (verifySettlement accounts) 0
  ensure (runningNettingTotal = 0) (.custom errorNetting)
  let eventsCount ← programAccount.read ProgramState.getEventsCount
  when (eventsCount = 0) (programAccount.write (ProgramState.setSettlementHash (rt.digest rawParamsData)))

def rollbackSettlementBatch (accounts : List AccountInfo) : Prog Unit := do
  validateAccount accounts 0 true true (some .program) none
  let programAccount ← accountAt accounts 0
  programAccount.write ProgramState.clearSettlementHash

/-! ### Withdrawals -/

/-- The outputs and edicts that a batch has built so far. -/
structure Outputs where
  txOuts : List TxOut
  edicts : List Edict
  deriving DecidableEq

def addEdictAndOutput (runeId : RuneId) (scriptBuf : Bytes) (edictAmount : UInt64)
    (outputs : Outputs) : Outputs where
  edicts := outputs.edicts ++
    [{ id := runeId, amount := edictAmount.toNat, output := UInt32.ofNat outputs.txOuts.length }]
  txOuts := outputs.txOuts ++ [{ value := dustThreshold, scriptPubkey := scriptBuf }]

def addWithdrawalOutput (account : AccountInfo) (withdrawal : Withdrawal) (networkType : NetworkType)
    (outputs : Outputs) : Prog Outputs := do
  let isRune ← account.read (TokenState.isRuneAccount rt)
  if isRune then do
    let runeId ← account.read (TokenState.getRuneId rt)
    let address ← account.read (Balance.getWalletAddress withdrawal.addressIndex.index.toNat)
    let scriptBuf ← lift (getBitcoinAddress rt address networkType)
    pure (addEdictAndOutput runeId scriptBuf withdrawal.amount outputs)
  else do
    let address ← account.read (Balance.getWalletAddress withdrawal.addressIndex.index.toNat)
    let scriptBuf ← lift (getBitcoinAddress rt address networkType)
    pure { outputs with
      txOuts := outputs.txOuts ++
        [{ value := withdrawal.amount - withdrawal.feeAmount, scriptPubkey := scriptBuf }] }

def verifyWithdrawal (accounts : List AccountInfo) (accountIndex : UInt8) (account : AccountInfo)
    (networkType : NetworkType) (withdrawal : Withdrawal) : Prog Unit := do
  let indexResult ← account.tryRead (getValidatedIndexWithdraw rt withdrawal.addressIndex networkType)
  validateAccount accounts withdrawal.feeAccountIndex false true (some .token) (some 0)
  let feeAccount ← accountAt accounts withdrawal.feeAccountIndex.toNat
  let programAccount ← accountAt accounts 0
  match indexResult with
  | .ok index => do
      let currentBalance ← account.read (Balance.getWalletBalance index)
      let feeIndex ← feeAccount.read (getValidatedIndexWithdraw rt withdrawal.feeAddressIndex networkType)
      let balanceInFeeToken ← feeAccount.read (Balance.getWalletBalance feeIndex)
      when (currentBalance < withdrawal.amount ∨ balanceInFeeToken < withdrawal.feeAmount)
        (programAccount.write (ProgramState.emitEvent
          (.failedWithdrawal accountIndex withdrawal.addressIndex.index withdrawal.feeAccountIndex
            withdrawal.feeAddressIndex.index withdrawal.amount withdrawal.feeAmount currentBalance
            balanceInFeeToken errorInsufficientBalance)))
  | .error programError =>
      programAccount.write (ProgramState.emitEvent
        (.failedWithdrawal accountIndex withdrawal.addressIndex.index withdrawal.feeAccountIndex
          withdrawal.feeAddressIndex.index withdrawal.amount withdrawal.feeAmount 0 0
          programError.toU64.toUInt32))

def verifyWithdrawals (accounts : List AccountInfo) (accountIndex : UInt8)
    (withdrawals : List Withdrawal) (networkType : NetworkType) : Prog Unit := do
  let account ← accountAt accounts accountIndex.toNat
  withdrawals.forM (verifyWithdrawal rt accounts accountIndex account networkType)

def handlePrepareWithdrawal (accounts : List AccountInfo) (account : AccountInfo)
    (feeAccountAddress : Utf8String) (networkType : NetworkType) (outputs : Outputs)
    (withdrawal : Withdrawal) : Prog Outputs := do
  account.write
    (Balance.decrementWalletBalance withdrawal.addressIndex.index.toNat withdrawal.amount)
  when (0 < withdrawal.feeAmount) do
    let feeAccount ← accountAt accounts withdrawal.feeAccountIndex.toNat
    let feeAddress ← feeAccount.read (Balance.getWalletAddress feeAddressIndex.toNat)
    ensure (feeAddress = feeAccountAddress) (.custom errorAddressMismatch)
    feeAccount.write (Balance.incrementWalletBalance feeAddressIndex.toNat withdrawal.feeAmount)
    when (feeAccount.key ≠ account.key) (feeAccount.write
      (Balance.decrementWalletBalance withdrawal.feeAddressIndex.index.toNat withdrawal.feeAmount))
  addWithdrawalOutput rt account withdrawal networkType outputs

def handlePrepareWithdrawals (accounts : List AccountInfo) (tokenWithdrawals : TokenWithdrawals)
    (feeAccountAddress : Utf8String) (networkType : NetworkType) (outputs : Outputs) :
    Prog Outputs := do
  let account ← accountAt accounts tokenWithdrawals.accountIndex.toNat
  tokenWithdrawals.withdrawals.foldlM
    (handlePrepareWithdrawal rt accounts account feeAccountAddress networkType) outputs

/-- Whether the account at 2 is the rune receiver of the program, which must then be valid. -/
def hasRuneReceiver (accounts : List AccountInfo) (isSigner : Bool) : Prog Bool := do
  let third ← accountAt accounts 2
  let accountType ← third.read getType
  if accountType = .runeReceiver then do
    validateAccount accounts 2 isSigner false (some .runeReceiver) (some 0)
    pure true
  else pure false

def prepareWithdrawBatch (accounts : List AccountInfo) (params : WithdrawBatchParams)
    (paramsRawData : Bytes) : Prog Unit := do
  validateAccount accounts 0 true true (some .program) (some 1)
  validateAccount accounts 1 false true (some .withdraw) (some 0)
  let hasReceiver ← hasRuneReceiver accounts false
  let programAccount ← accountAt accounts 0
  let withdrawAccount ← accountAt accounts 1
  let settlementHash ← programAccount.read ProgramState.getSettlementHash
  ensure (settlementHash = emptyHash) (.custom errorSettlementInProgress)
  let withdrawHash ← withdrawAccount.read WithdrawState.getHash
  ensure (withdrawHash = emptyHash) (.custom errorWithdrawalInProgress)
  match rt.deserializeTransaction params.txHex with
  | none => Exec.fail (.custom errorInvalidInputTx)
  | some tx => do
      ensure (tx.output.length = 0) (.custom errorNoOutputsAllowed)
      ensure (tx.input.length = params.inputUtxoTypes.length) (.custom errorInvalidUtxoTypes)
      programAccount.write ProgramState.clearEvents
      let networkType ← programAccount.read ProgramState.getNetworkType
      params.tokenWithdrawals.forM fun tokenWithdrawals => do
        validateAccount accounts tokenWithdrawals.accountIndex false true (some .token) (some 0)
        verifyWithdrawals rt accounts tokenWithdrawals.accountIndex tokenWithdrawals.withdrawals networkType
      let eventsCount ← programAccount.read ProgramState.getEventsCount
      if eventsCount ≠ 0 then pure ()
      else do
        let outputs ← params.tokenWithdrawals.foldlM (fun outputs tokenWithdrawals => do
            let feeAccountAddress ← programAccount.read ProgramState.getFeeAccountAddress
            handlePrepareWithdrawals rt accounts tokenWithdrawals feeAccountAddress networkType outputs)
          { txOuts := tx.output, edicts := [] }
        ensure (outputs.edicts = [] ∨ hasReceiver = true) (.custom errorNoRuneReceiver)
        ensure (outputs.txOuts.length ≠ 0) (.custom errorNoTxOutputs)
        withdrawAccount.write (WithdrawState.setHash (rt.digest paramsRawData))

def handleRollbackWithdrawal (accounts : List AccountInfo) (account : AccountInfo)
    (feeAccountAddress : Utf8String) (withdrawal : Withdrawal) : Prog Unit := do
  let index ← account.read (getValidatedIndex withdrawal.addressIndex)
  account.write (Balance.incrementWalletBalance index withdrawal.amount)
  when (0 < withdrawal.feeAmount) do
    validateAccount accounts withdrawal.feeAccountIndex false true (some .token) (some 0)
    let feeAccount ← accountAt accounts withdrawal.feeAccountIndex.toNat
    let feeAddress ← feeAccount.read (Balance.getWalletAddress feeAddressIndex.toNat)
    ensure (feeAddress = feeAccountAddress) (.custom errorAddressMismatch)
    feeAccount.write (Balance.decrementWalletBalance feeAddressIndex.toNat withdrawal.feeAmount)
    when (feeAccount.key ≠ account.key) (feeAccount.write
      (Balance.incrementWalletBalance withdrawal.feeAddressIndex.index.toNat withdrawal.feeAmount))

def rollbackWithdrawBatch (accounts : List AccountInfo) (params : RollbackWithdrawBatchParams) :
    Prog Unit := do
  validateAccount accounts 0 true false (some .program) (some 1)
  validateAccount accounts 1 false true (some .withdraw) (some 0)
  let programAccount ← accountAt accounts 0
  let withdrawAccount ← accountAt accounts 1
  params.tokenWithdrawals.forM fun tokenWithdrawals => do
    validateAccount accounts tokenWithdrawals.accountIndex false true (some .token) (some 0)
    let feeAccountAddress ← programAccount.read ProgramState.getFeeAccountAddress
    let account ← accountAt accounts tokenWithdrawals.accountIndex.toNat
    tokenWithdrawals.withdrawals.forM (handleRollbackWithdrawal accounts account feeAccountAddress)
  withdrawAccount.write WithdrawState.clearHash

/-! ### Submitting withdrawals -/

def UtxoMeta.of (txid : FixedBytes 32) (vout : UInt32) : UtxoMeta :=
  ⟨txid.1 ++ ofWord 4 vout.toNat, by rw [List.length_append, txid.2, Bytes.ofWord_length]⟩

def UtxoMeta.txid (utxo : UtxoMeta) : FixedBytes 32 :=
  ⟨utxo.1.take 32, by rw [List.length_take, utxo.2]; rfl⟩

def UtxoMeta.vout (utxo : UtxoMeta) : UInt32 := UInt32.ofNat (toWord (utxo.1.drop 32))

/-- The output of the bitcoin transaction that an account's utxo points at. -/
def utxoOutput (utxo : UtxoMeta) : Except Fault TxOut :=
  match (rt.getBitcoinTx (UtxoMeta.txid utxo)).bind rt.deserializeTransaction with
  | none => .error .panic
  | some tx =>
      match tx.output[(UtxoMeta.vout utxo).toNat]? with
      | some txOut => .ok txOut
      | none => .error .panic

def getStateTransitionTx (accounts : List AccountInfo) : Prog Transaction := do
  let writable := accounts.filter (·.isWritable)
  let input ← writable.foldlM (fun input account => do
    let utxo ← account.getUtxo
    pure (input ++ [({ txid := UtxoMeta.txid utxo, vout := UtxoMeta.vout utxo, scriptSig := [],
                       sequence := 0xffffffff, witness := [] } : TxIn)])) []
  let output ← writable.foldlM (fun output account => do
    let utxo ← account.getUtxo
    let txOut ← lift (utxoOutput rt utxo)
    pure (output ++ [({ value := txOut.value,
                        scriptPubkey := (rt.getAccountScriptPubkey account.key).1 } : TxOut)])) []
  pure { version := 2, lockTime := 0, input, output }

def handleSubmitWithdrawals (accounts : List AccountInfo) (tokenWithdrawals : TokenWithdrawals)
    (networkType : NetworkType) (outputs : Outputs) : Prog Outputs := do
  let account ← accountAt accounts tokenWithdrawals.accountIndex.toNat
  tokenWithdrawals.withdrawals.foldlM (fun outputs withdrawal => do
    validateAccount accounts withdrawal.feeAccountIndex false false (some .token) (some 0)
    let _ ← account.read (getValidatedIndex withdrawal.addressIndex)
    addWithdrawalOutput rt account withdrawal networkType outputs) outputs

/-- Who signs the input at each position: the withdraw account the first, then the program or the
rune receiver by the kind of the input. -/
def inputSigner (programId : Pubkey) (withdrawAccount runeReceiver : AccountInfo)
    (inputUtxoTypes : List InputUtxoType) (index : Nat) : Except Fault InputToSign :=
  match index with
  | 0 => .ok { index := 0, signer := withdrawAccount.key }
  | position + 1 =>
      match inputUtxoTypes[position]? with
      | none => .error .panic
      | some .bitcoin => .ok { index := UInt32.ofNat index, signer := programId }
      | some .rune => .ok { index := UInt32.ofNat index, signer := runeReceiver.key }

def serialiseTransactionToSign (txBytes : Bytes) (inputsToSign : List InputToSign) : Bytes :=
  ofWord 4 txBytes.length ++ txBytes ++ ofWord 4 inputsToSign.length ++
    inputsToSign.flatMap fun input => ofWord 4 input.index.toNat ++ input.signer.1

def setTransactionToSign (account : AccountInfo) (txBytes : Bytes)
    (inputsToSign : List InputToSign) : Prog Unit := do
  let result := rt.archSetTransactionToSign (serialiseTransactionToSign txBytes inputsToSign)
  ensure (result = 0) (ProgramError.fromU64 result)
  match rt.deserializeTransaction txBytes with
  | none => lift (.error .panic)
  | some tx =>
      inputsToSign.forM fun input =>
        when (account.key = input.signer) (account.setUtxo (UtxoMeta.of (rt.computeTxid tx) input.index))

def submitWithdrawBatch (programId : Pubkey) (accounts : List AccountInfo)
    (params : WithdrawBatchParams) (paramsRawData : Bytes) : Prog Unit := do
  validateAccount accounts 0 true false (some .program) (some 1)
  validateAccount accounts 1 true true (some .withdraw) (some 0)
  let hasReceiver ← hasRuneReceiver accounts true
  let programAccount ← accountAt accounts 0
  let withdrawAccount ← accountAt accounts 1
  let third ← accountAt accounts 2
  let withdrawHash ← withdrawAccount.read WithdrawState.getHash
  ensure (withdrawHash = rt.digest paramsRawData) (.custom errorWithdrawalBatchMismatch)
  let networkType ← programAccount.read ProgramState.getNetworkType
  let tx ← getStateTransitionTx rt accounts
  match rt.deserializeTransaction params.txHex with
  | none => Exec.fail (.custom errorInvalidInputTx)
  | some txWithInputs => do
      let input := tx.input ++ txWithInputs.input
      let outputs ← params.tokenWithdrawals.foldlM (fun outputs tokenWithdrawals => do
          validateAccount accounts tokenWithdrawals.accountIndex false false (some .token) (some 0)
          handleSubmitWithdrawals rt accounts tokenWithdrawals networkType outputs)
        { txOuts := tx.output, edicts := [] }
      ensure (outputs.edicts = [] ∨ hasReceiver = true) (.custom errorNoRuneReceiver)
      let changed := if 0 < params.changeAmount then
          { outputs with txOuts := outputs.txOuts ++
              [{ value := params.changeAmount, scriptPubkey := (rt.getAccountScriptPubkey programId).1 }] }
        else outputs
      let final := if changed.edicts = [] then changed
        else
          let withChange := (rt.hashSetOrder (changed.edicts.map Edict.id)).foldl
            (fun outputs runeId =>
              addEdictAndOutput runeId (rt.getAccountScriptPubkey third.key).1 0 outputs) changed
          { withChange with txOuts := withChange.txOuts ++
              [{ value := 0, scriptPubkey := rt.encipher withChange.edicts }] }
      let inputsToSign ← lift ((List.range input.length).mapM
        (inputSigner programId withdrawAccount third params.inputUtxoTypes))
      setTransactionToSign rt withdrawAccount
        (rt.serializeTransaction { tx with input := input, output := final.txOuts }) inputsToSign
      withdrawAccount.write WithdrawState.clearHash

def hexDigit (byte : UInt8) : Option UInt8 :=
  if 0x30 ≤ byte ∧ byte ≤ 0x39 then some (byte - 0x30)
  else if 0x41 ≤ byte ∧ byte ≤ 0x46 then some (byte - 0x41 + 10)
  else if 0x61 ≤ byte ∧ byte ≤ 0x66 then some (byte - 0x61 + 10)
  else none

def hexDecode : Bytes → Option Bytes
  | [] => some []
  | [_] => none
  | high :: low :: rest => do
      let highDigit ← hexDigit high
      let lowDigit ← hexDigit low
      let bytes ← hexDecode rest
      pure ((highDigit * 16 + lowDigit) :: bytes)

def updateWithdrawStateUtxo (accounts : List AccountInfo) (params : UpdateWithdrawStateUtxoParams) :
    Prog Unit := do
  validateAccount accounts 0 true false (some .program) (some 1)
  validateAccount accounts 1 true true (some .withdraw) (some 0)
  let withdrawAccount ← accountAt accounts 1
  match hexDecode params.txId.bytes with
  | none => lift (.error .panic)
  | some bytes =>
      if h : bytes.length = 32 then withdrawAccount.setUtxo (UtxoMeta.of ⟨bytes, h⟩ params.vout)
      else lift (.error .panic)

/-! ### The entry point -/

def runInstruction (programId : Pubkey) (accounts : List AccountInfo) (paramsRawData : Bytes) :
    ProgramInstruction → Prog Unit
  | .initProgramState params => initProgramState rt accounts params
  | .initTokenState params => initTokenState rt accounts params
  | .initWalletBalances params => initWalletBalances rt accounts params
  | .batchDeposit params => depositBatch accounts params
  | .prepareBatchWithdraw params => prepareWithdrawBatch rt accounts params paramsRawData
  | .submitBatchSettlement params => submitSettlementBatch rt accounts params paramsRawData
  | .prepareBatchSettlement params => prepareSettlementBatch rt accounts params paramsRawData
  | .rollbackBatchSettlement => rollbackSettlementBatch accounts
  | .rollbackBatchWithdraw params => rollbackWithdrawBatch accounts params
  | .submitBatchWithdraw params => submitWithdrawBatch rt programId accounts params paramsRawData
  | .updateWithdrawStateUtxo params => updateWithdrawStateUtxo accounts params
  | .initRuneReceiverState => initRuneReceiverState accounts
  | .setTokeRuneId params => setTokenRuneId rt accounts params

def processInstruction (programId : Pubkey) (accounts : List AccountInfo) (instructionData : Bytes) :
    Prog Unit :=
  match decodeFromSlice ProgramInstruction.decode instructionData with
  | .error _ => Exec.fail .invalidInstructionData
  | .ok instruction => runInstruction rt programId accounts (instructionData.drop 1) instruction

end Chainring.Arch

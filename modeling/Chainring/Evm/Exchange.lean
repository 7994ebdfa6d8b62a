import Chainring.Evm.Settlement

/-! The `Exchange` contract: its storage, its events and each of its entry points. The tokens and the
native currency live outside the contract, in an environment that transfers change. -/

namespace Chainring.Evm.Exchange

open CheckedWord (bind_eq_ok)

inductive ErrorCode where
  | invalidSignature
  | insufficientBalance
  deriving DecidableEq

inductive TransactionType where
  | withdraw
  | withdrawAll
  deriving DecidableEq

structure Withdraw where
  sender : Address
  token : Address
  amount : Uint256
  nonce : UInt64
  feeAmount : Uint256
  deriving DecidableEq

structure WithdrawWithSignature where
  sequence : UInt64
  tx : Withdraw
  signature : Bytes
  deriving DecidableEq

structure SovereignWithdrawal where
  token : Address
  amount : Uint256
  timestamp : Uint256
  deriving DecidableEq

/-- The value of a deleted or never written mapping entry. -/
def SovereignWithdrawal.absent : SovereignWithdrawal := { token := 0, amount := 0, timestamp := 0 }

inductive Event where
  | deposit (sender token : Address) (amount : Uint256)
  | withdrawal (recipient : Address) (sequence : UInt64) (token : Address) (amount fee : Uint256)
  | withdrawalRequested (sender token : Address) (amount : Uint256)
  | linkedSigner (sender linkedSigner : Address)
  | linkSignerFailed (sender linkedSigner : Address)
  | withdrawalFailed (address : Address) (sequence : UInt64) (token : Address)
      (amount balance : Uint256) (errorCode : ErrorCode)
  | settlement (event : SettlementEvent)
  deriving DecidableEq

structure State extends SettlementState where
  lastWithdrawalBatchHash : Bytes32
  sovereignWithdrawals : Address → SovereignWithdrawal
  sovereignWithdrawalDelay : Uint256
  linkedSigners : Address → Address

/-- The libraries behind withdrawals: the calldata decoder, the typed-data digest of the contract's
domain and signature recovery. -/
structure Host extends Evm.Host where
  decodeWithdrawWithSignature : Bytes → Option WithdrawWithSignature
  hashTypedDataV4 : Bytes32 → Bytes32
  recover : Bytes32 → Bytes → Option Address

/-- The tokens and the native currency, `none` being a failed transfer. A transfer of either is taken
as one step that does not call back into the contract. `holdings` is what the contract's own address
has of a token, of the native currency for address zero. -/
structure Tokens (E : Type) where
  self : Address
  payIn : E → (sender : Address) → (value : Uint256) → Option E
  transferFrom : E → (token sender recipient : Address) → (amount : Uint256) → Option E
  transfer : E → (token recipient : Address) → (amount : Uint256) → Option E
  send : E → (recipient : Address) → (amount : Uint256) → Option E
  holdings : E → (token : Address) → Nat

structure World (E : Type) where
  state : State
  env : E
  log : List Event

/-- The sender and the block of a call, and the owner at that time. -/
structure Context where
  sender : Address
  timestamp : Uint256
  owner : Address

variable {E : Type}

def World.emit (world : World E) (event : Event) : World E :=
  { world with log := world.log ++ [event] }

def World.setBalances (world : World E) (balances : Balances) : World E :=
  { world with state := { world.state with balances } }

def onlyOwner (context : Context) : Except Revert Unit :=
  if context.sender = context.owner then .ok () else .error (.unauthorizedOwner context.sender)

/-- The storage after `initialize`. -/
def initializeExchange (submitter feeAccount : Address) (sovereignWithdrawalDelay : Uint256) : State where
  balances := fun _ _ => 0
  submitter := submitter
  feeAccount := feeAccount
  batchHash := 0
  lastSettlementBatchHash := 0
  lastWithdrawalBatchHash := 0
  sovereignWithdrawals := fun _ => .absent
  sovereignWithdrawalDelay := sovereignWithdrawalDelay
  linkedSigners := fun _ => 0

variable (host : Host) (tokens : Tokens E) (context : Context) (world : World E)

/-! ### Deposits and settings -/

def receive (value : Uint256) : Except Revert (World E) := do
  let env ← orRevert .failedCall (tokens.payIn world.env context.sender value)
  let balances ← world.state.balances.increase context.sender 0 value
  return ({ world with env }.setBalances balances).emit (.deposit context.sender 0 value)

def deposit (token : Address) (amount : Uint256) : Except Revert (World E) := do
  let env ← orRevert .failedCall
    (tokens.transferFrom world.env token context.sender tokens.self amount)
  let balances ← world.state.balances.increase context.sender token amount
  return ({ world with env }.setBalances balances).emit (.deposit context.sender token amount)

def setSubmitter (submitter : Address) : Except Revert (World E) := do
  onlyOwner context
  require (submitter ≠ 0) "Not a valid address"
  return { world with state := { world.state with submitter } }

def setFeeAccount (feeAccount : Address) : Except Revert (World E) := do
  onlyOwner context
  require (feeAccount ≠ 0) "Not a valid address"
  return { world with state := { world.state with feeAccount } }

def setSovereignWithdrawalDelay (sovereignWithdrawalDelay : Uint256) : Except Revert (World E) := do
  onlyOwner context
  require (sovereignWithdrawalDelay ≥ 86400) "Not a valid sovereign withdrawal delay"
  return { world with state := { world.state with sovereignWithdrawalDelay } }

def linkSigner (linkedSigner : Address) (digest : Bytes32) (signature : Bytes) :
    Except Revert (World E) := do
  let recovered ← orRevert .invalidSignature (host.recover digest signature)
  if recovered = 0 ∨ recovered ≠ linkedSigner then
    return world.emit (.linkSignerFailed context.sender linkedSigner)
  else
    let linkedSigners := Function.update world.state.linkedSigners context.sender linkedSigner
    return { world with state := { world.state with linkedSigners } }.emit
      (.linkedSigner context.sender linkedSigner)

def removeLinkedSigner : Except Revert (World E) := do
  let linkedSigners := Function.update world.state.linkedSigners context.sender 0
  return { world with state := { world.state with linkedSigners } }.emit
    (.linkedSigner context.sender 0)

/-! ### Withdrawals -/

/-- `_withdraw`. -/
def withdraw (sequence : UInt64) (sender token : Address) (amount fee : Uint256) :
    Except Revert (World E) := do
  let balance := world.state.balances sender token
  if amount > balance then
    return world.emit (.withdrawalFailed sender sequence token amount balance .insufficientBalance)
  else
    let balances ← world.state.balances.decrease sender token amount
    let balances ← balances.increase world.state.feeAccount token fee
    let payout ← subUint amount fee
    let env ← orRevert .failedCall (
      if token = 0 then tokens.send world.env sender payout
      else tokens.transfer world.env token sender payout)
    return ({ world with env }.setBalances balances).emit
      (.withdrawal sender sequence token amount fee)

/-- `_withdrawAll`. -/
def withdrawAll (sequence : UInt64) (sender token : Address) (amount fee : Uint256) :
    Except Revert (World E) :=
  let balance := world.state.balances sender token
  if fee ≥ balance then
    .ok (world.emit (.withdrawalFailed sender sequence token amount balance .insufficientBalance))
  else
    withdraw tokens world sequence sender token (if amount > balance then balance else amount) fee

def setRequest (wallet : Address) (request : SovereignWithdrawal) : World E :=
  let sovereignWithdrawals := Function.update world.state.sovereignWithdrawals wallet request
  { world with state := { world.state with sovereignWithdrawals } }

/-- `_sovereignWithdrawal`. -/
def requestWithdrawal (token : Address) (amount : Uint256) : Except Revert (World E) := do
  require (amount ≤ world.state.balances context.sender token) "Insufficient balance"
  return (setRequest world context.sender { token, amount, timestamp := context.timestamp }).emit
    (.withdrawalRequested context.sender token amount)

def sovereignWithdrawal (token : Address) (amount : Uint256) : Except Revert (World E) := do
  let request := world.state.sovereignWithdrawals context.sender
  if request.timestamp = 0 then
    requestWithdrawal context world token amount
  else
    let ready ← addUint request.timestamp world.state.sovereignWithdrawalDelay
    if context.timestamp < ready then
      .error (.reason "Withdrawal delay not met")
    else if request.token = token ∧ request.amount = amount then
      let withdrawn :=
        if request.amount = 0 then world.state.balances context.sender token else request.amount
      let world ← withdraw tokens world 0 context.sender request.token withdrawn 0
      return setRequest world context.sender .absent
    else
      requestWithdrawal context world token amount

/-! ### Batches of withdrawals -/

/-- `_isZeroSignature`. -/
def isZeroSignature (signature : Bytes) : Bool :=
  signature.length == 65 && signature.all (· == 0)

/-- A word of `abi.encode`, most significant byte first. -/
def abiWord (value : Nat) : Bytes :=
  (List.range 32).map fun i => UInt8.ofNat (value / 256 ^ (31 - i))

def withdrawSignature : String := "Withdraw(address sender,address token,uint256 amount,uint64 nonce)"

/-- The digest that a withdrawal is signed under. -/
def withdrawalDigest (tx : Withdraw) (txType : TransactionType) : Bytes32 :=
  let amount := if txType = .withdrawAll then 0 else tx.amount
  host.hashTypedDataV4 (host.keccak256 (
    abiWord (host.keccak256 withdrawSignature.toUTF8.toList).toNat ++ abiWord tx.sender.toNat ++
      abiWord tx.token.toNat ++ abiWord amount.toNat ++ abiWord tx.nonce.toNat))

/-- `_validateWithdrawalSignature`: a wrong signer is reported, not reverted. -/
def validateWithdrawalSignature (signedTx : WithdrawWithSignature) (txType : TransactionType) :
    Except Revert (World E × Bool) := do
  let recovered ← orRevert .invalidSignature
    (host.recover (withdrawalDigest host signedTx.tx txType) signedTx.signature)
  if recovered = 0 ∨
      (recovered ≠ signedTx.tx.sender ∧
        recovered ≠ world.state.linkedSigners signedTx.tx.sender) then
    return (world.emit (.withdrawalFailed signedTx.tx.sender signedTx.sequence signedTx.tx.token
      signedTx.tx.amount 0 .invalidSignature), false)
  else
    return (world, true)

/-- `_isPendingSovereignWithdrawal`. -/
def isPendingSovereignWithdrawal (state : State) (signedTx : WithdrawWithSignature)
    (withdrawAll : Bool) : Bool :=
  let request := state.sovereignWithdrawals signedTx.tx.sender
  (request.amount == signedTx.tx.amount || request.amount == 0 && withdrawAll) &&
    request.token == signedTx.tx.token

def transactionType (tag : UInt8) : Except Revert TransactionType :=
  match tag.toNat with
  | 0 => .ok .withdraw
  | 1 => .ok .withdrawAll
  | _ => .error .enumPanic

def decodeWithdrawal (withdrawal : Bytes) : Except Revert (TransactionType × WithdrawWithSignature) := do
  let tag ← elementAt withdrawal 0
  let txType ← transactionType tag
  let signedTx ← orRevert .malformedCalldata (host.decodeWithdrawWithSignature withdrawal.tail)
  return (txType, signedTx)

/-- The entry is on the path of sovereign requests: no signature is checked. -/
def pendingSovereignWithdrawal (state : State) (txType : TransactionType)
    (signedTx : WithdrawWithSignature) : Bool :=
  isZeroSignature signedTx.signature &&
    isPendingSovereignWithdrawal state signedTx (txType == .withdrawAll)

/-- `pendingSovereignWithdrawal || _validateWithdrawalSignature`. -/
def authorizeWithdrawal (txType : TransactionType) (signedTx : WithdrawWithSignature) :
    Except Revert (World E × Bool) :=
  if pendingSovereignWithdrawal world.state txType signedTx then .ok (world, true)
  else validateWithdrawalSignature host world signedTx txType

/-- The withdrawal of an authorized entry. -/
def executeWithdrawal (txType : TransactionType) (signedTx : WithdrawWithSignature) :
    Except Revert (World E) :=
  let tx := signedTx.tx
  match txType with
  | .withdrawAll => withdrawAll tokens world signedTx.sequence tx.sender tx.token tx.amount tx.feeAmount
  | .withdraw => withdraw tokens world signedTx.sequence tx.sender tx.token tx.amount tx.feeAmount

/-- One iteration of the loop of `submitWithdrawals`. -/
def submitWithdrawal (world : World E) (withdrawal : Bytes) : Except Revert (World E) := do
  let (txType, signedTx) ← decodeWithdrawal host withdrawal
  let pending := pendingSovereignWithdrawal world.state txType signedTx
  let (world, authorized) ← authorizeWithdrawal host world txType signedTx
  if authorized then
    let world ← executeWithdrawal tokens world txType signedTx
    if pending then
      return setRequest world signedTx.tx.sender .absent
    else
      return world
  else
    return world

/-- `_calculateWithdrawalBatchHash`. -/
def calculateWithdrawalBatchHash (withdrawals : List Bytes) : Bytes32 :=
  host.keccak256 (withdrawals.flatMap fun withdrawal => abiWord (host.keccak256 withdrawal).toNat)

def submitWithdrawals (withdrawals : List Bytes) : Except Revert (World E) := do
  onlySubmitter world.state.toSettlementState context.sender
  require (world.state.batchHash = 0) "Settlement batch in process"
  let lastWithdrawalBatchHash := calculateWithdrawalBatchHash host withdrawals
  require (world.state.lastWithdrawalBatchHash ≠ lastWithdrawalBatchHash) "Matches last batch processed"
  let world ← withdrawals.foldlM (submitWithdrawal host tokens) world
  return { world with state := { world.state with lastWithdrawalBatchHash } }

/-! ### Settlement -/

/-- The outcome of the shared settlement code in this contract's world. -/
def World.settle (world : World E) (settlement : SettlementState) (log : List SettlementEvent) :
    World E :=
  { world with
    state := { world.state with toSettlementState := settlement }
    log := world.log ++ log.map .settlement }

def prepareSettlementBatch (data : Bytes) : Except Revert (World E) := do
  let (settlement, log) ←
    Evm.prepareSettlementBatch host.toHost context.sender world.state.toSettlementState data
  return world.settle settlement log

def submitSettlementBatch (data : Bytes) : Except Revert (World E) := do
  let (settlement, log) ←
    Evm.submitSettlementBatch host.toHost context.sender world.state.toSettlementState data
  return world.settle settlement log

def rollbackBatch : Except Revert (World E) := do
  let settlement ← Evm.rollbackBatch context.sender world.state.toSettlementState
  return world.settle settlement []

variable {host context world} {data : Bytes} {next : World E}

theorem prepareSettlementBatch_cases (h : prepareSettlementBatch host context world data = .ok next) :
    ∃ settlement log, Evm.prepareSettlementBatch host.toHost context.sender
        world.state.toSettlementState data = .ok (settlement, log) ∧
      next = world.settle settlement log := by
  obtain ⟨⟨settlement, log⟩, hprepare, h⟩ := bind_eq_ok.mp h
  cases h
  exact ⟨settlement, log, hprepare, rfl⟩

theorem submitSettlementBatch_cases (h : submitSettlementBatch host context world data = .ok next) :
    ∃ settlement log, Evm.submitSettlementBatch host.toHost context.sender
        world.state.toSettlementState data = .ok (settlement, log) ∧
      next = world.settle settlement log := by
  obtain ⟨⟨settlement, log⟩, hsubmit, h⟩ := bind_eq_ok.mp h
  cases h
  exact ⟨settlement, log, hsubmit, rfl⟩

theorem rollbackBatch_cases (h : rollbackBatch context world = .ok next) :
    ∃ settlement, Evm.rollbackBatch context.sender world.state.toSettlementState = .ok settlement ∧
      next = world.settle settlement [] := by
  obtain ⟨settlement, hrollback, h⟩ := bind_eq_ok.mp h
  cases h
  exact ⟨settlement, hrollback, rfl⟩

end Chainring.Evm.Exchange

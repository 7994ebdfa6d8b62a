import Chainring.Evm.Settlement

/-! The `CoinProxy` contract: a ledger of deposits and withdrawals kept by the submitter, with the
settlement code of `Exchange`. -/

namespace Chainring.Evm.CoinProxy

open CheckedWord (bind_eq_ok)

inductive ErrorCode where
  | insufficientBalance
  | insufficientFeeBalance
  deriving DecidableEq

structure Deposit where
  sequence : UInt64
  sender : Address
  token : Address
  amount : Uint256
  deriving DecidableEq

structure Withdrawal where
  sender : Address
  token : Address
  amount : Uint256
  sequence : UInt64
  feeAmount : Uint256
  deriving DecidableEq

structure BatchDepositAndWithdrawal where
  deposits : List Deposit
  withdrawals : List Withdrawal
  deriving DecidableEq

structure BatchWithdrawalRollback where
  withdrawals : List Withdrawal
  deriving DecidableEq

inductive Event where
  | depositSucceeded (sender : Address) (sequence : UInt64) (token : Address) (amount : Uint256)
  | withdrawalSucceeded (recipient : Address) (sequence : UInt64) (token : Address)
      (amount fee : Uint256)
  | withdrawalRolledBack (recipient : Address) (sequence : UInt64) (token : Address)
      (amount fee : Uint256)
  | withdrawalFailed (address : Address) (sequence : UInt64) (token : Address)
      (amount balance : Uint256) (errorCode : ErrorCode)
  | settlement (event : SettlementEvent)
  deriving DecidableEq

structure State extends SettlementState where
  lastDepositAndWithdrawBatchHash : Bytes32

/-- The decoders of the two further batches. -/
structure Host extends Evm.Host where
  decodeBatchDepositAndWithdrawal : Bytes → Option BatchDepositAndWithdrawal
  decodeBatchWithdrawalRollback : Bytes → Option BatchWithdrawalRollback

structure World where
  state : State
  log : List Event

structure Context where
  sender : Address
  owner : Address

def World.emit (world : World) (event : Event) : World :=
  { world with log := world.log ++ [event] }

def World.setBalances (world : World) (balances : Balances) : World :=
  { world with state := { world.state with balances } }

def onlyOwner (context : Context) : Except Revert Unit :=
  if context.sender = context.owner then .ok () else .error (.unauthorizedOwner context.sender)

/-- The storage after `initialize`. -/
def initializeCoinProxy (submitter feeAccount : Address) : State where
  balances := fun _ _ => 0
  submitter := submitter
  feeAccount := feeAccount
  batchHash := 0
  lastSettlementBatchHash := 0
  lastDepositAndWithdrawBatchHash := 0

variable (host : Host) (context : Context) (world : World)

def setSubmitter (submitter : Address) : Except Revert World := do
  onlyOwner context
  require (submitter ≠ 0) "Not a valid address"
  return { world with state := { world.state with submitter } }

def setFeeAccount (feeAccount : Address) : Except Revert World := do
  onlyOwner context
  require (feeAccount ≠ 0) "Not a valid address"
  return { world with state := { world.state with feeAccount } }

/-! ### Deposits and withdrawals -/

/-- One iteration of the loop over the deposits. -/
def submitDeposit (world : World) (deposit : Deposit) : Except Revert World := do
  let balances ← world.state.balances.increase deposit.sender deposit.token deposit.amount
  return (world.setBalances balances).emit
    (.depositSucceeded deposit.sender deposit.sequence deposit.token deposit.amount)

/-- `_withdraw`: for the native currency the fee is in the amount, otherwise it is separate. -/
def withdraw (world : World) (withdrawal : Withdrawal) : Except Revert World := do
  let { sender, token, amount, sequence, feeAmount := fee } := withdrawal
  let balance := world.state.balances sender token
  let feeBalance := world.state.balances sender 0
  if amount > balance then
    return world.emit (.withdrawalFailed sender sequence token amount balance .insufficientBalance)
  else if fee > 0 ∧ token ≠ 0 ∧ fee > feeBalance then
    return world.emit
      (.withdrawalFailed sender sequence token fee feeBalance .insufficientFeeBalance)
  else
    let balances ←
      if fee > 0 ∧ token ≠ 0 then world.state.balances.decrease sender 0 fee
      else .ok world.state.balances
    let balances ← balances.decrease sender token amount
    let balances ← balances.increase world.state.feeAccount 0 fee
    return (world.setBalances balances).emit (.withdrawalSucceeded sender sequence token amount fee)

/-- `_rollbackWithdraw`. -/
def rollbackWithdraw (world : World) (withdrawal : Withdrawal) : Except Revert World := do
  let { sender, token, amount, sequence, feeAmount := fee } := withdrawal
  let balances ← world.state.balances.increase sender token amount
  let balances ←
    if fee > 0 ∧ token ≠ 0 then balances.increase sender 0 fee
    else .ok balances
  let balances ← balances.decrease world.state.feeAccount 0 fee
  return (world.setBalances balances).emit (.withdrawalRolledBack sender sequence token amount fee)

def submitDepositAndWithdrawalBatch (data : Bytes) : Except Revert World := do
  onlySubmitter world.state.toSettlementState context.sender
  require (world.state.batchHash = 0) "Settlement batch in progress"
  require (world.state.lastDepositAndWithdrawBatchHash ≠ host.keccak256 data)
    "Matches last batch processed"
  let batch ← orRevert .malformedCalldata (host.decodeBatchDepositAndWithdrawal data)
  require (batch.withdrawals ≠ [] ∨ batch.deposits ≠ []) "Must be at least 1 deposit or withdrawal"
  let world ← batch.deposits.foldlM submitDeposit world
  let world ← batch.withdrawals.foldlM withdraw world
  return { world with
    state := { world.state with lastDepositAndWithdrawBatchHash := host.keccak256 data } }

def rollbackWithdrawalBatch (data : Bytes) : Except Revert World := do
  onlySubmitter world.state.toSettlementState context.sender
  let batch ← orRevert .malformedCalldata (host.decodeBatchWithdrawalRollback data)
  batch.withdrawals.foldlM rollbackWithdraw world

/-! ### Settlement -/

/-- The outcome of the shared settlement code in this contract's world. -/
def World.settle (world : World) (settlement : SettlementState) (log : List SettlementEvent) : World where
  state := { world.state with toSettlementState := settlement }
  log := world.log ++ log.map .settlement

def prepareSettlementBatch (data : Bytes) : Except Revert World := do
  let (settlement, log) ←
    Evm.prepareSettlementBatch host.toHost context.sender world.state.toSettlementState data
  return world.settle settlement log

def submitSettlementBatch (data : Bytes) : Except Revert World := do
  let (settlement, log) ←
    Evm.submitSettlementBatch host.toHost context.sender world.state.toSettlementState data
  return world.settle settlement log

def rollbackBatch : Except Revert World := do
  let settlement ← Evm.rollbackBatch context.sender world.state.toSettlementState
  return world.settle settlement []

variable {host context world} {data : Bytes} {next : World}

theorem prepareSettlementBatch_cases (h : prepareSettlementBatch host context world data = .ok next) :
    ∃ settlement log, Evm.prepareSettlementBatch host.toHost context.sender
        world.state.toSettlementState data = .ok (settlement, log) ∧
      next = world.settle settlement log := by
  obtain ⟨⟨settlement, log⟩, hprepare, h⟩ := bind_eq_ok.mp h
  cases h
  exact ⟨settlement, log, hprepare, rfl⟩

theorem submitSettlementBatch_cases (h : submitSettlementBatch host context world data = .ok next) :
    ∃ settlement log, Evm.submitSettlementBatch host.toHost context.sender
        world.state.toSettlementState data = .ok (settlement, log) ∧
      next = world.settle settlement log := by
  obtain ⟨⟨settlement, log⟩, hsubmit, h⟩ := bind_eq_ok.mp h
  cases h
  exact ⟨settlement, log, hsubmit, rfl⟩

end Chainring.Evm.CoinProxy

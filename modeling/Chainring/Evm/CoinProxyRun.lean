import Chainring.Base.TwoPhase
import Chainring.Evm.CoinProxy
import Chainring.Evm.Exchange

/-! Runs of the coin proxy: calls by anyone in any order, a reverted call leaving no trace. What a
deposit, a withdrawal and the rollback of a withdrawal post when they go through. -/

namespace Chainring.Evm.CoinProxy

open Ledger (Entry)
open Balances (Slot slots wordModulus)
open CheckedWord (bind_eq_ok)

inductive Call where
  | submitDepositAndWithdrawalBatch (data : Bytes)
  | rollbackWithdrawalBatch (data : Bytes)
  | prepareSettlementBatch (data : Bytes)
  | submitSettlementBatch (data : Bytes)
  | rollbackBatch
  | setSubmitter (submitter : Address)
  | setFeeAccount (feeAccount : Address)
  deriving DecidableEq

structure Input where
  context : Context
  call : Call

def execute (host : Host) (context : Context) (world : World) : Call → Except Revert World
  | .submitDepositAndWithdrawalBatch data => submitDepositAndWithdrawalBatch host context world data
  | .rollbackWithdrawalBatch data => rollbackWithdrawalBatch host context world data
  | .prepareSettlementBatch data => prepareSettlementBatch host context world data
  | .submitSettlementBatch data => submitSettlementBatch host context world data
  | .rollbackBatch => rollbackBatch context world
  | .setSubmitter submitter => setSubmitter context world submitter
  | .setFeeAccount feeAccount => setFeeAccount context world feeAccount

def step (host : Host) (world : World) (input : Input) : World :=
  match execute host input.context world input.call with
  | .ok next => next
  | .error _ => world

/-- The world that a run of inputs reaches. -/
def run (host : Host) (world : World) (inputs : List Input) : World := inputs.foldl (step host) world

/-- The world of a contract just initialized. -/
def start (submitter feeAccount : Address) : World where
  state := initializeCoinProxy submitter feeAccount
  log := []

theorem step_cases (host : Host) (world : World) (input : Input) :
    (∃ next, execute host input.context world input.call = .ok next ∧ step host world input = next) ∨
      step host world input = world := by
  cases hexecute : execute host input.context world input.call with
  | ok next => exact Or.inl ⟨next, rfl, by simp only [step, hexecute]⟩
  | error revert => exact Or.inr (by simp only [step, hexecute])

variable {host : Host} {context : Context} {world next : World} {data : Bytes}

theorem rollbackBatch_cases (h : rollbackBatch context world = .ok next) :
    ∃ settlement, Evm.rollbackBatch context.sender world.state.toSettlementState = .ok settlement ∧
      next = world.settle settlement [] := by
  obtain ⟨settlement, hrollback, h⟩ := bind_eq_ok.mp h
  cases h
  exact ⟨settlement, hrollback, rfl⟩

theorem setSubmitter_cases {submitter : Address} (h : setSubmitter context world submitter = .ok next) :
    next = { world with state := { world.state with submitter } } := by
  obtain ⟨_, -, h⟩ := bind_eq_ok.mp h
  obtain ⟨_, -, h⟩ := bind_eq_ok.mp h
  cases h
  rfl

theorem setFeeAccount_cases {feeAccount : Address}
    (h : setFeeAccount context world feeAccount = .ok next) :
    next = { world with state := { world.state with feeAccount } } := by
  obtain ⟨_, -, h⟩ := bind_eq_ok.mp h
  obtain ⟨_, -, h⟩ := bind_eq_ok.mp h
  cases h
  rfl

/-! ### Batches -/

theorem submitDepositAndWithdrawalBatch_cases
    (h : submitDepositAndWithdrawalBatch host context world data = .ok next) :
    context.sender = world.state.submitter ∧ world.state.batchHash = 0 ∧
      world.state.lastDepositAndWithdrawBatchHash ≠ host.keccak256 data ∧
      ∃ batch deposited withdrawn, host.decodeBatchDepositAndWithdrawal data = some batch ∧
        batch.deposits.foldlM submitDeposit world = .ok deposited ∧
        batch.withdrawals.foldlM withdraw deposited = .ok withdrawn ∧
        next = { withdrawn with
          state := { withdrawn.state with lastDepositAndWithdrawBatchHash := host.keccak256 data } } := by
  obtain ⟨_, hsender, h⟩ := bind_eq_ok.mp h
  obtain ⟨_, hidle, h⟩ := bind_eq_ok.mp h
  obtain ⟨_, hnew, h⟩ := bind_eq_ok.mp h
  obtain ⟨batch, hdecode, h⟩ := bind_eq_ok.mp h
  obtain ⟨_, -, h⟩ := bind_eq_ok.mp h
  obtain ⟨deposited, hdeposited, h⟩ := bind_eq_ok.mp h
  obtain ⟨withdrawn, hwithdrawn, h⟩ := bind_eq_ok.mp h
  cases h
  exact ⟨require_eq_ok.mp hsender, require_eq_ok.mp hidle, require_eq_ok.mp hnew, batch, deposited,
    withdrawn, orRevert_eq_ok.mp hdecode, hdeposited, hwithdrawn, rfl⟩

theorem rollbackWithdrawalBatch_cases (h : rollbackWithdrawalBatch host context world data = .ok next) :
    context.sender = world.state.submitter ∧
      ∃ batch, host.decodeBatchWithdrawalRollback data = some batch ∧
        batch.withdrawals.foldlM rollbackWithdraw world = .ok next := by
  obtain ⟨_, hsender, h⟩ := bind_eq_ok.mp h
  obtain ⟨batch, hdecode, h⟩ := bind_eq_ok.mp h
  exact ⟨require_eq_ok.mp hsender, batch, orRevert_eq_ok.mp hdecode, h⟩

/-! ### One deposit or withdrawal -/

/-- What a deposit posts. -/
def Deposit.entries (deposit : Deposit) : List (Entry Slot) :=
  [.credit (deposit.sender, deposit.token) deposit.amount.toNat]

/-- The fee is charged to the native balance, on top of the amount. -/
def Withdrawal.SeparateFee (withdrawal : Withdrawal) : Prop :=
  withdrawal.feeAmount > 0 ∧ withdrawal.token ≠ 0

instance (withdrawal : Withdrawal) : Decidable withdrawal.SeparateFee :=
  inferInstanceAs (Decidable (_ ∧ _))

/-- A fee on a token that is not charged on its own is zero. -/
theorem Withdrawal.feeAmount_eq_zero {withdrawal : Withdrawal} (hseparate : ¬withdrawal.SeparateFee)
    (htoken : withdrawal.token ≠ 0) : withdrawal.feeAmount.toNat = 0 := by
  rw [SeparateFee, not_and_or] at hseparate
  have hle := BitVec.not_lt.mp (hseparate.resolve_right (not_not.mpr htoken))
  exact Nat.le_zero.mp (BitVec.le_def.mp hle)

/-- What a withdrawal posts when it goes through. -/
def Withdrawal.entries (feeAccount : Address) (withdrawal : Withdrawal) : List (Entry Slot) :=
  (if withdrawal.SeparateFee then [.debit (withdrawal.sender, 0) withdrawal.feeAmount.toNat] else []) ++
    [.debit (withdrawal.sender, withdrawal.token) withdrawal.amount.toNat,
      .credit (feeAccount, 0) withdrawal.feeAmount.toNat]

/-- What the rollback of a withdrawal posts. -/
def Withdrawal.rollbackEntries (feeAccount : Address) (withdrawal : Withdrawal) : List (Entry Slot) :=
  [.credit (withdrawal.sender, withdrawal.token) withdrawal.amount.toNat] ++
    (if withdrawal.SeparateFee then [.credit (withdrawal.sender, 0) withdrawal.feeAmount.toNat] else []) ++
    [.debit (feeAccount, 0) withdrawal.feeAmount.toNat]

def Deposit.succeeded (deposit : Deposit) : Event :=
  .depositSucceeded deposit.sender deposit.sequence deposit.token deposit.amount

def Withdrawal.succeeded (withdrawal : Withdrawal) : Event :=
  .withdrawalSucceeded withdrawal.sender withdrawal.sequence withdrawal.token withdrawal.amount
    withdrawal.feeAmount

def Withdrawal.rolledBack (withdrawal : Withdrawal) : Event :=
  .withdrawalRolledBack withdrawal.sender withdrawal.sequence withdrawal.token withdrawal.amount
    withdrawal.feeAmount

/-- The entries are posted and the event is logged, and nothing else changes. -/
def Posts (world : World) (entries : List (Entry Slot)) (event : Event) (next : World) : Prop :=
  Ledger.run .reverts wordModulus (slots world.state.balances) entries =
      some (slots next.state.balances) ∧
    next = (world.setBalances next.state.balances).emit event

/-- The event that reports why a withdrawal is not covered. -/
def Withdrawal.Reports (withdrawal : Withdrawal) (balances : Balances) (event : Event) : Prop :=
  (withdrawal.amount > balances withdrawal.sender withdrawal.token ∧
      event = .withdrawalFailed withdrawal.sender withdrawal.sequence withdrawal.token withdrawal.amount
        (balances withdrawal.sender withdrawal.token) .insufficientBalance) ∨
    (withdrawal.SeparateFee ∧ withdrawal.feeAmount > balances withdrawal.sender 0 ∧
      event = .withdrawalFailed withdrawal.sender withdrawal.sequence withdrawal.token
        withdrawal.feeAmount (balances withdrawal.sender 0) .insufficientFeeBalance)

theorem submitDeposit_cases {deposit : Deposit} (h : submitDeposit world deposit = .ok next) :
    Posts world deposit.entries deposit.succeeded next := by
  obtain ⟨balances, hbalances, h⟩ := bind_eq_ok.mp h
  cases h
  refine ⟨?_, rfl⟩
  rw [Deposit.entries, Ledger.run_singleton]
  exact Balances.post_increase hbalances

theorem withdraw_cases {withdrawal : Withdrawal} (h : withdraw world withdrawal = .ok next) :
    (∃ event, withdrawal.Reports world.state.balances event ∧ next = world.emit event) ∨
      Posts world (withdrawal.entries world.state.feeAccount) withdrawal.succeeded next := by
  dsimp only [withdraw] at h
  split at h
  · next hshort =>
      cases h
      exact Or.inl ⟨_, Or.inl ⟨hshort, rfl⟩, rfl⟩
  · split at h
    · next hfee =>
        cases h
        exact Or.inl ⟨_, Or.inr ⟨⟨hfee.1, hfee.2.1⟩, hfee.2.2, rfl⟩, rfl⟩
    · have hcharged : ∃ charged, Ledger.run .reverts wordModulus (slots world.state.balances)
          (if withdrawal.SeparateFee then [.debit (withdrawal.sender, 0) withdrawal.feeAmount.toNat]
            else []) = some (slots charged) ∧ (do
            let balances ← charged.decrease withdrawal.sender withdrawal.token withdrawal.amount
            let balances ← balances.increase world.state.feeAccount 0 withdrawal.feeAmount
            return (world.setBalances balances).emit withdrawal.succeeded) = .ok next := by
        split at h
        · next hseparate =>
            obtain ⟨charged, hcharged, h⟩ := bind_eq_ok.mp h
            refine ⟨charged, ?_, h⟩
            rw [if_pos (show withdrawal.SeparateFee from hseparate), Ledger.run_singleton]
            exact Balances.post_decrease hcharged
        · next hincluded =>
            rw [if_neg (show ¬withdrawal.SeparateFee from hincluded)]
            exact ⟨world.state.balances, rfl, h⟩
      obtain ⟨charged, hcharge, h⟩ := hcharged
      obtain ⟨debited, hdebited, h⟩ := bind_eq_ok.mp h
      obtain ⟨credited, hcredited, h⟩ := bind_eq_ok.mp h
      cases h
      refine Or.inr ⟨?_, rfl⟩
      rw [Withdrawal.entries, Ledger.run_append, hcharge, Option.bind_some, Ledger.run,
        Balances.post_decrease hdebited, Option.bind_some, Ledger.run_singleton]
      exact Balances.post_increase hcredited

theorem rollbackWithdraw_cases {withdrawal : Withdrawal} (h : rollbackWithdraw world withdrawal = .ok next) :
    Posts world (withdrawal.rollbackEntries world.state.feeAccount) withdrawal.rolledBack next := by
  obtain ⟨credited, hcredited, h⟩ := bind_eq_ok.mp h
  have hrefunded : ∃ refunded, Ledger.run .reverts wordModulus (slots credited)
      (if withdrawal.SeparateFee then [.credit (withdrawal.sender, 0) withdrawal.feeAmount.toNat]
        else []) = some (slots refunded) ∧ (do
        let balances ← refunded.decrease world.state.feeAccount 0 withdrawal.feeAmount
        return (world.setBalances balances).emit withdrawal.rolledBack) = .ok next := by
    dsimp only at h
    split at h
    · next hseparate =>
        obtain ⟨refunded, hrefunded, h⟩ := bind_eq_ok.mp h
        refine ⟨refunded, ?_, h⟩
        rw [if_pos (show withdrawal.SeparateFee from hseparate), Ledger.run_singleton]
        exact Balances.post_increase hrefunded
    · next hincluded =>
        rw [if_neg (show ¬withdrawal.SeparateFee from hincluded)]
        exact ⟨credited, rfl, h⟩
  obtain ⟨refunded, hrefund, h⟩ := hrefunded
  obtain ⟨debited, hdebited, h⟩ := bind_eq_ok.mp h
  cases h
  refine ⟨?_, rfl⟩
  rw [Withdrawal.rollbackEntries, Ledger.run_append, Ledger.run_append, Ledger.run_singleton,
    Balances.post_increase hcredited, Option.bind_some, hrefund, Option.bind_some, Ledger.run_singleton]
  exact Balances.post_decrease hdebited

/-! ### Sample calldata -/

def Deposit.words (deposit : Deposit) : List Nat :=
  [deposit.sequence.toNat, deposit.sender.toNat, deposit.token.toNat, deposit.amount.toNat]

def Withdrawal.words (withdrawal : Withdrawal) : List Nat :=
  [withdrawal.sender.toNat, withdrawal.token.toNat, withdrawal.amount.toNat, withdrawal.sequence.toNat,
    withdrawal.feeAmount.toNat]

/-- `abi.encode` of a batch. -/
def BatchDepositAndWithdrawal.encode (batch : BatchDepositAndWithdrawal) : Bytes :=
  ([0x20, 0x40, 0x60 + 0x80 * batch.deposits.length, batch.deposits.length] ++
    batch.deposits.flatMap Deposit.words ++ [batch.withdrawals.length] ++
    batch.withdrawals.flatMap Withdrawal.words).flatMap Exchange.abiWord

def BatchWithdrawalRollback.encode (batch : BatchWithdrawalRollback) : Bytes :=
  ([0x20, 0x20, batch.withdrawals.length] ++
    batch.withdrawals.flatMap Withdrawal.words).flatMap Exchange.abiWord

/-- The host on some batches of deposits and withdrawals and the rollbacks of these, with the hashes of the
data of a run. -/
def ledgerHost (hashes : List (Bytes × Bytes32)) (batches : List BatchDepositAndWithdrawal)
    (settlements : List (Bytes × BatchSettlement)) : Host where
  keccak256 := fun data => (hashes.lookup data).getD 0
  decodeBatchSettlement := fun data => settlements.lookup data
  decodeBatchDepositAndWithdrawal := fun data => batches.find? fun batch => batch.encode == data
  decodeBatchWithdrawalRollback := fun data =>
    (batches.map fun batch => BatchWithdrawalRollback.mk batch.withdrawals).find? fun batch =>
      batch.encode == data

end Chainring.Evm.CoinProxy

import Chainring.Base.TwoPhase
import Chainring.Evm.ExchangeEffects

/-! Runs of the exchange: calls by anyone in any order, a reverted call leaving no trace, with other
changes of the tokens in between. -/

namespace Chainring.Evm.Exchange

open CheckedWord (bind_eq_ok)

inductive Call where
  | receive (value : Uint256)
  | deposit (token : Address) (amount : Uint256)
  | sovereignWithdrawal (token : Address) (amount : Uint256)
  | submitWithdrawals (withdrawals : List Bytes)
  | prepareSettlementBatch (data : Bytes)
  | submitSettlementBatch (data : Bytes)
  | rollbackBatch
  | setSubmitter (submitter : Address)
  | setFeeAccount (feeAccount : Address)
  | setSovereignWithdrawalDelay (sovereignWithdrawalDelay : Uint256)
  | linkSigner (linkedSigner : Address) (digest : Bytes32) (signature : Bytes)
  | removeLinkedSigner
  deriving DecidableEq

variable {E : Type}

/-- A call of the contract, or a change of the tokens by anything else. -/
inductive Input (E : Type) where
  | call (context : Context) (call : Call)
  | outside (change : E → E)

def execute (host : Host) (tokens : Tokens E) (context : Context) (world : World E) :
    Call → Except Revert (World E)
  | .receive value => receive tokens context world value
  | .deposit token amount => deposit tokens context world token amount
  | .sovereignWithdrawal token amount => sovereignWithdrawal tokens context world token amount
  | .submitWithdrawals withdrawals => submitWithdrawals host tokens context world withdrawals
  | .prepareSettlementBatch data => prepareSettlementBatch host context world data
  | .submitSettlementBatch data => submitSettlementBatch host context world data
  | .rollbackBatch => rollbackBatch context world
  | .setSubmitter submitter => setSubmitter context world submitter
  | .setFeeAccount feeAccount => setFeeAccount context world feeAccount
  | .setSovereignWithdrawalDelay delay => setSovereignWithdrawalDelay context world delay
  | .linkSigner linkedSigner digest signature =>
      linkSigner host context world linkedSigner digest signature
  | .removeLinkedSigner => removeLinkedSigner context world

def step (host : Host) (tokens : Tokens E) (world : World E) : Input E → World E
  | .call context call =>
      match execute host tokens context world call with
      | .ok next => next
      | .error _ => world
  | .outside change => { world with env := change world.env }

/-- The world that a run of inputs reaches. -/
def run (host : Host) (tokens : Tokens E) (world : World E) (inputs : List (Input E)) : World E :=
  inputs.foldl (step host tokens) world

/-- The world of a contract just initialized. -/
def start (submitter feeAccount : Address) (sovereignWithdrawalDelay : Uint256) (env : E) : World E where
  state := initializeExchange submitter feeAccount sovereignWithdrawalDelay
  env := env
  log := []

theorem step_call (host : Host) (tokens : Tokens E) (context : Context) (world : World E)
    (call : Call) :
    (∃ next, execute host tokens context world call = .ok next ∧
        step host tokens world (.call context call) = next) ∨
      step host tokens world (.call context call) = world := by
  cases hexecute : execute host tokens context world call with
  | ok next => exact Or.inl ⟨next, rfl, by simp only [step, hexecute]⟩
  | error revert => exact Or.inr (by simp only [step, hexecute])

variable {host : Host} {tokens : Tokens E} {context : Context} {world next : World E}

/-- The calls that only change who may do what. -/
def Call.IsSetting : Call → Prop
  | .setSubmitter _ => True
  | .setFeeAccount _ => True
  | .setSovereignWithdrawalDelay _ => True
  | .linkSigner _ _ _ => True
  | .removeLinkedSigner => True
  | _ => False

theorem setting_cases {call : Call} (h : execute host tokens context world call = .ok next)
    (hcall : call.IsSetting) :
    ∃ submitter feeAccount sovereignWithdrawalDelay linkedSigners log,
      next = { world with
        state := { world.state with submitter, feeAccount, sovereignWithdrawalDelay, linkedSigners }
        log := log } := by
  cases call with
  | setSubmitter submitter =>
      obtain ⟨_, -, hrest⟩ := bind_eq_ok.mp h
      obtain ⟨_, -, hrest⟩ := bind_eq_ok.mp hrest
      cases hrest
      exact ⟨_, _, _, _, _, rfl⟩
  | setFeeAccount feeAccount =>
      obtain ⟨_, -, hrest⟩ := bind_eq_ok.mp h
      obtain ⟨_, -, hrest⟩ := bind_eq_ok.mp hrest
      cases hrest
      exact ⟨_, _, _, _, _, rfl⟩
  | setSovereignWithdrawalDelay delay =>
      obtain ⟨_, -, hrest⟩ := bind_eq_ok.mp h
      obtain ⟨_, -, hrest⟩ := bind_eq_ok.mp hrest
      cases hrest
      exact ⟨_, _, _, _, _, rfl⟩
  | linkSigner linkedSigner digest signature =>
      obtain ⟨recovered, -, hrest⟩ := bind_eq_ok.mp h
      split at hrest <;> cases hrest <;> exact ⟨_, _, _, _, _, rfl⟩
  | removeLinkedSigner =>
      cases h
      exact ⟨_, _, _, _, _, rfl⟩
  | receive value => exact absurd hcall id
  | deposit token amount => exact absurd hcall id
  | sovereignWithdrawal token amount => exact absurd hcall id
  | submitWithdrawals withdrawals => exact absurd hcall id
  | prepareSettlementBatch data => exact absurd hcall id
  | submitSettlementBatch data => exact absurd hcall id
  | rollbackBatch => exact absurd hcall id

/-! ### The entries of a batch of withdrawals -/

/-- A successful call on `world` takes the contract from `before` to `after` with the entry
`withdrawal` of its batch. -/
structure Processes (host : Host) (tokens : Tokens E) (context : Context) (world : World E)
    (withdrawals : List Bytes) (before : World E) (withdrawal : Bytes) (after : World E) : Prop where
  succeeds : ∃ final, submitWithdrawals host tokens context world withdrawals = .ok final
  reaches : ∃ earlier later, withdrawals = earlier ++ withdrawal :: later ∧
    earlier.foldlM (submitWithdrawal host tokens) world = .ok before
  executes : submitWithdrawal host tokens before withdrawal = .ok after

theorem submitWithdrawals_cases {withdrawals : List Bytes}
    (h : submitWithdrawals host tokens context world withdrawals = .ok next) :
    context.sender = world.state.submitter ∧ world.state.batchHash = 0 ∧
      world.state.lastWithdrawalBatchHash ≠ calculateWithdrawalBatchHash host withdrawals ∧
      ∃ processed, withdrawals.foldlM (submitWithdrawal host tokens) world = .ok processed ∧
        next = { processed with state := { processed.state with
          lastWithdrawalBatchHash := calculateWithdrawalBatchHash host withdrawals } } := by
  obtain ⟨_, hsender, h⟩ := bind_eq_ok.mp h
  obtain ⟨_, hempty, h⟩ := bind_eq_ok.mp h
  obtain ⟨_, hnew, h⟩ := bind_eq_ok.mp h
  obtain ⟨processed, hprocessed, h⟩ := bind_eq_ok.mp h
  cases h
  exact ⟨require_eq_ok.mp hsender, require_eq_ok.mp hempty, require_eq_ok.mp hnew, processed,
    hprocessed, rfl⟩

/-- The entry of a batch of one. -/
theorem processes_singleton {withdrawal : Bytes}
    (h : submitWithdrawals host tokens context world [withdrawal] = .ok next) :
    ∃ after, Processes host tokens context world [withdrawal] world withdrawal after := by
  obtain ⟨-, -, -, processed, hprocessed, -⟩ := submitWithdrawals_cases h
  rw [List.foldlM_cons] at hprocessed
  obtain ⟨after, hafter, -⟩ := bind_eq_ok.mp hprocessed
  exact ⟨after, ⟨next, h⟩, ⟨[], [], rfl, rfl⟩, hafter⟩

/-- What every entry preserves holds once all are processed. -/
theorem submitted_induction (P : World E → Prop) {withdrawals : List Bytes}
    (hentry : ∀ before withdrawal after, P before →
      submitWithdrawal host tokens before withdrawal = .ok after → P after)
    (hworld : P world) (h : withdrawals.foldlM (submitWithdrawal host tokens) world = .ok next) :
    P next := by
  induction withdrawals generalizing world with
  | nil =>
      cases h
      exact hworld
  | cons withdrawal withdrawals ih =>
      rw [List.foldlM_cons] at h
      obtain ⟨after, hafter, hrest⟩ := bind_eq_ok.mp h
      exact ih (hentry world withdrawal after hworld hafter) hrest

/-- What differs after the batch was changed by one of its entries. -/
theorem exists_entry_of_ne {V : Type} (value : World E → V) {withdrawals : List Bytes}
    (h : withdrawals.foldlM (submitWithdrawal host tokens) world = .ok next)
    (hne : value next ≠ value world) :
    ∃ before withdrawal after, (∃ earlier later, withdrawals = earlier ++ withdrawal :: later ∧
        earlier.foldlM (submitWithdrawal host tokens) world = .ok before) ∧
      submitWithdrawal host tokens before withdrawal = .ok after ∧
      value before = value world ∧ value after ≠ value world := by
  induction withdrawals using List.reverseRecOn generalizing next with
  | nil =>
      cases h
      exact absurd rfl hne
  | append_singleton withdrawals withdrawal ih =>
      rw [List.foldlM_append] at h
      obtain ⟨before, hbefore, hlast⟩ := bind_eq_ok.mp h
      rw [List.foldlM_cons] at hlast
      obtain ⟨after, hafter, hnil⟩ := bind_eq_ok.mp hlast
      cases hnil
      by_cases hsame : value before = value world
      · exact ⟨before, withdrawal, next, ⟨withdrawals, [], rfl, hbefore⟩, hafter, hsame, hne⟩
      · obtain ⟨first, changing, changed, ⟨earlier, later, hsplit, hfirst⟩, hrest⟩ := ih hbefore hsame
        refine ⟨first, changing, changed, ⟨earlier, later ++ [withdrawal], ?_, hfirst⟩, hrest⟩
        rw [hsplit, List.append_assoc, List.cons_append]

end Chainring.Evm.Exchange

import Chainring.Evm.CoinProxyRun
import Chainring.Evm.ExchangeSolvency

/-! The life of a settlement batch over any run of either contract: its hash is a two-phase register that
only the submitter moves, and while it is taken no other batch begins. -/

namespace Chainring.Evm

open TwoPhase (Act Move Consumes consumes_of_submit last_submitted)
open CheckedWord (bind_eq_ok)

/-- How an act moves the registers of the settlement code, and by whose call. -/
structure Moves (keccak256 : Bytes → Bytes32) (state : SettlementState) (act : Act Bytes)
    (next : SettlementState) (sender : Option Address) : Prop where
  hash : Move keccak256 0 state.batchHash act next.batchHash
  last : (∃ data, act = .submit data ∧ next.lastSettlementBatchHash = keccak256 data) ∨
    ((∀ data, act ≠ .submit data) ∧ next.lastSettlementBatchHash = state.lastSettlementBatchHash)
  sender : next.batchHash ≠ state.batchHash → sender = some state.submitter

def SameRegisters (state next : SettlementState) : Prop :=
  next.batchHash = state.batchHash ∧ next.lastSettlementBatchHash = state.lastSettlementBatchHash

theorem SameRegisters.trans {state middle next : SettlementState} (first : SameRegisters state middle)
    (second : SameRegisters middle next) : SameRegisters state next :=
  ⟨second.1.trans first.1, second.2.trans first.2⟩

theorem SameRegisters.moves {keccak256 : Bytes → Bytes32} {state next : SettlementState}
    {sender : Option Address} (h : SameRegisters state next) : Moves keccak256 state .other next sender where
  hash := h.1
  last := Or.inr ⟨by simp, h.2⟩
  sender := fun hne => absurd h.1 hne

/-! ### Contracts with the settlement code -/

/-- A contract, as far as the life of its settlement batches goes. -/
structure Contract (σ ι : Type) where
  execute : σ → ι → Except Revert σ
  settlement : σ → SettlementState
  /-- What an input that goes through, with the storage it leaves, does to the hash of the pending batch. -/
  actOf : ι → SettlementState → Act Bytes
  /-- Who makes the call, if the input is one. -/
  sender : ι → Option Address
  /-- The input prepares a settlement or submits withdrawals. -/
  Begins : ι → Prop

namespace Contract

variable {σ ι : Type} (contract : Contract σ ι) (keccak256 : Bytes → Bytes32)

/-- An input that fails leaves no trace. -/
def step (world : σ) (input : ι) : σ :=
  match contract.execute world input with
  | .ok next => next
  | .error _ => world

def act (world : σ) (input : ι) : Act Bytes :=
  match contract.execute world input with
  | .ok next => contract.actOf input (contract.settlement next)
  | .error _ => .other

/-- What an input that goes through does to the storage of the settlement code. -/
structure Lawful : Prop where
  moves : ∀ {world input next}, contract.execute world input = .ok next →
    Moves keccak256 (contract.settlement world) (contract.actOf input (contract.settlement next))
      (contract.settlement next) (contract.sender input)
  idle : ∀ {world input next}, contract.execute world input = .ok next → contract.Begins input →
    (contract.settlement world).batchHash = 0

variable (start : σ) (inputs : List ι)

/-- The settlement storage before input `n`. -/
def settlementAt (n : Nat) : SettlementState :=
  contract.settlement (Run.stateAt contract.step start inputs n)

def actAt (n : Nat) : Act Bytes :=
  match inputs[n]? with
  | some input => contract.act (Run.stateAt contract.step start inputs n) input
  | none => .other

/-- The life of the settlement batches over a run. -/
structure Lifecycle : Prop where
  /-- Every submission was prepared from the same data, with no submission and no rollback in between. -/
  settled : ∀ n data, contract.actAt start inputs n = .submit data →
    ∃ j, Consumes (contract.actAt start inputs) data j n
  settledOnce : ∀ j n n' data data', Consumes (contract.actAt start inputs) data j n →
    Consumes (contract.actAt start inputs) data' j n' → n = n'
  /-- Such a preparation is one that set the hash. -/
  prepared : ∀ n data, contract.actAt start inputs n = .prepare data →
    (contract.settlementAt start inputs n).batchHash = 0 ∧
      (contract.settlementAt start inputs (n + 1)).batchHash = keccak256 data ∧ keccak256 data ≠ 0
  locked : ∀ n input, inputs[n]? = some input → (contract.settlementAt start inputs n).batchHash ≠ 0 →
    contract.Begins input →
    ∃ revert, contract.execute (Run.stateAt contract.step start inputs n) input = .error revert
  last : ∀ n ≤ inputs.length,
    ((contract.settlementAt start inputs n).lastSettlementBatchHash = 0 ∧
      ∀ i < n, ∀ data, contract.actAt start inputs i ≠ .submit data) ∨
    ∃ i < n, ∃ data, contract.actAt start inputs i = .submit data ∧
      (contract.settlementAt start inputs n).lastSettlementBatchHash = keccak256 data ∧
      ∀ k, i < k → k < n → ∀ data', contract.actAt start inputs k ≠ .submit data'
  changed : ∀ n input, inputs[n]? = some input →
    (contract.settlementAt start inputs (n + 1)).batchHash ≠
      (contract.settlementAt start inputs n).batchHash →
    contract.sender input = some (contract.settlementAt start inputs n).submitter

variable {contract keccak256 start inputs}

theorem stateAt_next {n : Nat} {input : ι} (h : inputs[n]? = some input) :
    Run.stateAt contract.step start inputs (n + 1) =
      contract.step (Run.stateAt contract.step start inputs n) input := by
  obtain ⟨hn, rfl⟩ := List.getElem?_eq_some_iff.mp h
  exact Run.stateAt_succ contract.step start inputs n hn

theorem settlementAt_next {n : Nat} {input : ι} (h : inputs[n]? = some input) :
    contract.settlementAt start inputs (n + 1) =
      contract.settlement (contract.step (Run.stateAt contract.step start inputs n) input) := by
  rw [settlementAt, stateAt_next h]

theorem actAt_eq {n : Nat} {input : ι} (h : inputs[n]? = some input) :
    contract.actAt start inputs n = contract.act (Run.stateAt contract.step start inputs n) input := by
  rw [actAt, h]

theorem exists_of_actAt {n : Nat} (h : contract.actAt start inputs n ≠ .other) :
    ∃ input, inputs[n]? = some input := by
  cases hinput : inputs[n]? with
  | none =>
      rw [actAt, hinput] at h
      exact absurd rfl h
  | some input => exact ⟨input, rfl⟩

/-- Every input follows the laws, also one that fails. -/
theorem Lawful.step (h : contract.Lawful keccak256) (world : σ) (input : ι) :
    Moves keccak256 (contract.settlement world) (contract.act world input)
      (contract.settlement (contract.step world input)) (contract.sender input) := by
  unfold act Contract.step
  cases hexecute : contract.execute world input with
  | error revert => exact SameRegisters.moves ⟨rfl, rfl⟩
  | ok next => exact h.moves hexecute

/-- The contract's batches are prepared and then submitted in order, where the hash tells the data of
the preparations and submissions of the run apart. -/
theorem Lawful.lifecycle (h : contract.Lawful keccak256) (hhash : (contract.settlement start).batchHash = 0)
    (hlast : (contract.settlement start).lastSettlementBatchHash = 0)
    (hinj : ∀ j n prepared submitted, contract.actAt start inputs j = .prepare prepared →
      contract.actAt start inputs n = .submit submitted → keccak256 prepared = keccak256 submitted →
      prepared = submitted) :
    contract.Lifecycle keccak256 start inputs := by
  have hmoves : ∀ i < inputs.length, Move keccak256 0 (contract.settlementAt start inputs i).batchHash
      (contract.actAt start inputs i) (contract.settlementAt start inputs (i + 1)).batchHash := by
    intro i hi
    have hinput := List.getElem?_eq_getElem hi
    rw [actAt_eq hinput, settlementAt_next hinput]
    exact (h.step _ _).hash
  refine ⟨fun n data hsubmit => ?_, fun j n n' data data' hused hused' => hused.unique hused',
    fun n data hprepare => ?_, fun n input _ hne hbegins => ?_, ?_, ?_⟩
  · obtain ⟨input, hinput⟩ := exists_of_actAt (n := n) (by rw [hsubmit]; simp)
    obtain ⟨hn, -⟩ := List.getElem?_eq_some_iff.mp hinput
    refine @consumes_of_submit _ _ keccak256 0 (fun n => (contract.settlementAt start inputs n).batchHash) _
      hhash n data (fun i hi => hmoves i (Nat.lt_of_le_of_lt hi hn)) (fun j _ prepared hprepare => ?_) hsubmit
    exact hinj j n prepared data hprepare hsubmit
  · obtain ⟨input, hinput⟩ := exists_of_actAt (n := n) (by rw [hprepare]; simp)
    obtain ⟨hn, -⟩ := List.getElem?_eq_some_iff.mp hinput
    have hmove := hmoves n hn
    rw [hprepare] at hmove
    obtain ⟨hempty, hset, hne⟩ := hmove
    exact ⟨hempty, hset, hne⟩
  · cases hexecute : contract.execute (Run.stateAt contract.step start inputs n) input with
    | error revert => exact ⟨revert, rfl⟩
    | ok next => exact absurd (h.idle hexecute hbegins) hne
  · intro n hn
    refine @last_submitted _ _ keccak256 0 (contract.actAt start inputs)
      (fun n => (contract.settlementAt start inputs n).lastSettlementBatchHash) n hlast fun i hi => ?_
    have hinput := List.getElem?_eq_getElem (Nat.lt_of_lt_of_le hi hn)
    rw [actAt_eq hinput, settlementAt_next hinput]
    exact (h.step _ _).last
  · intro n input hinput hchanged
    rw [settlementAt_next hinput] at hchanged
    exact (h.step _ _).sender hchanged

end Contract

/-! ### Calls of the settlement code -/

section Shared

variable {host : Host} {sender : Address} {state next : SettlementState} {data : Bytes}
  {log : List SettlementEvent}

/-- The act of a preparation that goes through. -/
def preparationAct (next : SettlementState) (data : Bytes) : Act Bytes :=
  if next.batchHash = 0 then .other else .prepare data

theorem prepareSettlementBatch_moves (h : prepareSettlementBatch host sender state data = .ok (next, log)) :
    Moves host.keccak256 state (preparationAct next data) next (some sender) := by
  obtain ⟨hsender, hempty, _, verification, -, -, -, -, ⟨-, rfl⟩ | ⟨-, rfl⟩⟩ :=
    prepareSettlementBatch_cases h
  · by_cases hzero : host.keccak256 data = 0
    · rw [preparationAct, if_pos hzero]
      exact SameRegisters.moves ⟨hzero.trans hempty.symm, rfl⟩
    · rw [preparationAct, if_neg hzero]
      exact ⟨⟨hempty, rfl, hzero⟩, Or.inr ⟨by simp, rfl⟩, fun _ => congrArg some hsender⟩
  · rw [preparationAct, if_pos hempty]
    exact SameRegisters.moves ⟨rfl, rfl⟩

theorem submitSettlementBatch_moves (h : submitSettlementBatch host sender state data = .ok (next, log)) :
    Moves host.keccak256 state (.submit data) next (some sender) := by
  obtain ⟨hsender, hpending, hhash, _, _, -, -, -, rfl⟩ := submitSettlementBatch_cases h
  exact ⟨⟨hhash, hpending, rfl⟩, Or.inl ⟨data, rfl, hhash⟩, fun _ => congrArg some hsender⟩

theorem rollbackBatch_moves {keccak256 : Bytes → Bytes32} (h : rollbackBatch sender state = .ok next) :
    Moves keccak256 state .rollback next (some sender) := by
  obtain ⟨hsender, rfl⟩ := rollbackBatch_cases h
  exact ⟨rfl, Or.inr ⟨by simp, rfl⟩, fun _ => congrArg some hsender⟩

end Shared

/-! ### The exchange -/

namespace Exchange

variable {E : Type} (host : Host) (tokens : Tokens E)

def Call.act (next : SettlementState) : Call → Act Bytes
  | .prepareSettlementBatch data => preparationAct next data
  | .submitSettlementBatch data => .submit data
  | .rollbackBatch => .rollback
  | _ => .other

def Call.Begins : Call → Prop
  | .prepareSettlementBatch _ => True
  | .submitWithdrawals _ => True
  | _ => False

def contract : Contract (World E) (Input E) where
  execute := fun world input =>
    match input with
    | .call context call => execute host tokens context world call
    | .outside change => .ok { world with env := change world.env }
  settlement := fun world => world.state.toSettlementState
  actOf := fun input next =>
    match input with
    | .call _ call => call.act next
    | .outside _ => .other
  sender := fun input =>
    match input with
    | .call context _ => some context.sender
    | .outside _ => none
  Begins := fun input =>
    match input with
    | .call _ call => call.Begins
    | .outside _ => False

theorem contract_step : (contract host tokens).step = step host tokens := by
  funext world input
  cases input with
  | call context call =>
      cases hexecute : execute host tokens context world call with
      | ok next => simp only [Contract.step, contract, step, hexecute]
      | error revert => simp only [Contract.step, contract, step, hexecute]
  | outside change => rfl

variable {host tokens} {context : Context} {world next : World E}

/-- The registers of the settlement code are the same in both worlds. -/
def Same (world next : World E) : Prop :=
  SameRegisters world.state.toSettlementState next.state.toSettlementState

theorem Pays.registers {sequence : UInt64} {sender token : Address} {amount fee : Uint256}
    (h : Pays tokens world sequence sender token amount fee next) : Same world next := by
  obtain ⟨_, _, _, -, -, -, -, rfl⟩ := h
  exact ⟨rfl, rfl⟩

theorem withdraw_registers {sequence : UInt64} {sender token : Address} {amount fee : Uint256}
    (h : withdraw tokens world sequence sender token amount fee = .ok next) : Same world next := by
  rcases withdraw_cases h with ⟨-, rfl⟩ | hpays
  · exact ⟨rfl, rfl⟩
  · exact hpays.registers

theorem executeWithdrawal_registers {txType : TransactionType} {signedTx : WithdrawWithSignature}
    (h : executeWithdrawal tokens world txType signedTx = .ok next) : Same world next := by
  rcases executeWithdrawal_cases h with ⟨-, rfl⟩ | ⟨-, hpays⟩
  · exact ⟨rfl, rfl⟩
  · exact hpays.registers

theorem submitWithdrawal_registers {withdrawal : Bytes}
    (h : submitWithdrawal host tokens world withdrawal = .ok next) : Same world next := by
  obtain ⟨_, _, -, ⟨-, -, rfl⟩ | ⟨-, -, hexecuted⟩ | ⟨-, executed, hexecuted, rfl⟩⟩ :=
    submitWithdrawal_cases h
  · exact ⟨rfl, rfl⟩
  · exact executeWithdrawal_registers hexecuted
  · exact (executeWithdrawal_registers hexecuted).trans ⟨rfl, rfl⟩

theorem submitWithdrawals_registers {withdrawals : List Bytes}
    (h : submitWithdrawals host tokens context world withdrawals = .ok next) : Same world next := by
  obtain ⟨-, -, -, processed, hprocessed, rfl⟩ := submitWithdrawals_cases h
  have hsame : Same world processed :=
    submitted_induction _ (fun _ _ _ hsame hentry => hsame.trans (submitWithdrawal_registers hentry))
      ⟨rfl, rfl⟩ hprocessed
  exact hsame.trans ⟨rfl, rfl⟩

theorem sovereignWithdrawal_registers {token : Address} {amount : Uint256}
    (h : sovereignWithdrawal tokens context world token amount = .ok next) : Same world next := by
  rcases sovereignWithdrawal_cases h with hasks | ⟨-, -, -, -, executed, hexecuted, rfl⟩
  · obtain ⟨-, rfl⟩ := requestWithdrawal_cases hasks.stored
    exact ⟨rfl, rfl⟩
  · exact (withdraw_registers hexecuted).trans ⟨rfl, rfl⟩

/-- The calls that leave the registers of the settlement code alone. -/
def Call.IsUnrelated : Call → Prop
  | .prepareSettlementBatch _ => False
  | .submitSettlementBatch _ => False
  | .rollbackBatch => False
  | _ => True

theorem unrelated_registers {call : Call} (h : execute host tokens context world call = .ok next)
    (hcall : call.IsUnrelated) : Same world next := by
  have hsetting : call.IsSetting → Same world next := by
    intro hsetting
    obtain ⟨_, _, _, _, _, rfl⟩ := setting_cases h hsetting
    exact ⟨rfl, rfl⟩
  cases call with
  | receive value =>
      obtain ⟨env, -, h⟩ := bind_eq_ok.mp h
      obtain ⟨balances, -, h⟩ := bind_eq_ok.mp h
      cases h
      exact ⟨rfl, rfl⟩
  | deposit token amount =>
      obtain ⟨env, -, h⟩ := bind_eq_ok.mp h
      obtain ⟨balances, -, h⟩ := bind_eq_ok.mp h
      cases h
      exact ⟨rfl, rfl⟩
  | sovereignWithdrawal token amount => exact sovereignWithdrawal_registers h
  | submitWithdrawals withdrawals => exact submitWithdrawals_registers h
  | prepareSettlementBatch data => exact absurd hcall id
  | submitSettlementBatch data => exact absurd hcall id
  | rollbackBatch => exact absurd hcall id
  | setSubmitter submitter => exact hsetting trivial
  | setFeeAccount feeAccount => exact hsetting trivial
  | setSovereignWithdrawalDelay delay => exact hsetting trivial
  | linkSigner linkedSigner digest signature => exact hsetting trivial
  | removeLinkedSigner => exact hsetting trivial

theorem act_of_unrelated {call : Call} (hcall : call.IsUnrelated) (next : SettlementState) :
    call.act next = .other := by
  cases call <;> first | rfl | exact absurd hcall id

/-- What the settlement storage sees of a call that goes through. -/
theorem execute_moves {call : Call} (h : execute host tokens context world call = .ok next) :
    Moves host.keccak256 world.state.toSettlementState (call.act next.state.toSettlementState)
      next.state.toSettlementState (some context.sender) := by
  by_cases hcall : call.IsUnrelated
  · rw [act_of_unrelated hcall]
    exact (unrelated_registers h hcall).moves
  · cases call with
    | prepareSettlementBatch data =>
        obtain ⟨settlement, log, hshared, rfl⟩ := prepareSettlementBatch_cases h
        exact prepareSettlementBatch_moves hshared
    | submitSettlementBatch data =>
        obtain ⟨settlement, log, hshared, rfl⟩ := submitSettlementBatch_cases h
        exact submitSettlementBatch_moves hshared
    | rollbackBatch =>
        obtain ⟨settlement, hshared, rfl⟩ := rollbackBatch_cases h
        exact rollbackBatch_moves hshared
    | _ => exact absurd trivial hcall

theorem contract_lawful : (contract host tokens).Lawful host.keccak256 where
  moves := by
    intro world input next h
    cases input with
    | call context call => exact execute_moves h
    | outside change =>
        cases h
        exact SameRegisters.moves ⟨rfl, rfl⟩
  idle := by
    intro world input next h hbegins
    cases input with
    | outside change => exact absurd hbegins id
    | call context call =>
        cases call with
        | prepareSettlementBatch data =>
            obtain ⟨settlement, log, hshared, -⟩ := prepareSettlementBatch_cases h
            exact (Evm.prepareSettlementBatch_cases hshared).2.1
        | submitWithdrawals withdrawals => exact (submitWithdrawals_cases h).2.1
        | _ => exact absurd hbegins id

/-- The data of an act is that of its call. -/
theorem mem_settlementData {inputs : List (Input E)} {n : Nat} {data : Bytes}
    (h : (contract host tokens).actAt world inputs n = .prepare data ∨
      (contract host tokens).actAt world inputs n = .submit data) : data ∈ settlementData inputs := by
  obtain ⟨input, hinput⟩ := Contract.exists_of_actAt (n := n) fun hother => by
    rw [hother] at h
    simp at h
  rw [Contract.actAt_eq hinput, Contract.act] at h
  refine List.mem_filterMap.mpr ⟨input, List.mem_of_getElem? hinput, ?_⟩
  split at h
  · cases input with
    | outside change => simp [contract] at h
    | call context call =>
        cases call with
        | prepareSettlementBatch data' =>
            simp only [contract, Call.act, preparationAct] at h
            split at h <;> simp at h
            rw [h]
        | submitSettlementBatch data' => simpa [contract, Call.act] using h
        | _ => simp [contract, Call.act] at h
  · simp at h

end Exchange

/-! ### The coin proxy -/

namespace CoinProxy

variable (host : Host)

def Call.act (next : SettlementState) : Call → Act Bytes
  | .prepareSettlementBatch data => preparationAct next data
  | .submitSettlementBatch data => .submit data
  | .rollbackBatch => .rollback
  | _ => .other

def Call.Begins : Call → Prop
  | .prepareSettlementBatch _ => True
  | .submitDepositAndWithdrawalBatch _ => True
  | _ => False

def contract : Contract World Input where
  execute := fun world input => execute host input.context world input.call
  settlement := fun world => world.state.toSettlementState
  actOf := fun input next => input.call.act next
  sender := fun input => some input.context.sender
  Begins := fun input => input.call.Begins

theorem contract_step : (contract host).step = step host := by
  funext world input
  cases hexecute : execute host input.context world input.call with
  | ok next => simp only [Contract.step, contract, step, hexecute]
  | error revert => simp only [Contract.step, contract, step, hexecute]

/-- The settlement data of the calls of a run. -/
def settlementData (inputs : List Input) : List Bytes :=
  inputs.filterMap fun input =>
    match input.call with
    | .prepareSettlementBatch data => some data
    | .submitSettlementBatch data => some data
    | _ => none

variable {host} {context : Context} {world next : World} {data : Bytes}

/-- The registers of the settlement code are the same in both worlds. -/
def Same (world next : World) : Prop :=
  SameRegisters world.state.toSettlementState next.state.toSettlementState

theorem Posts.registers {entries : List (Ledger.Entry Balances.Slot)} {event : Event}
    (h : Posts world entries event next) : Same world next := by
  rw [h.2]
  exact ⟨rfl, rfl⟩

theorem withdraw_registers {withdrawal : Withdrawal} (h : withdraw world withdrawal = .ok next) :
    Same world next := by
  rcases withdraw_cases h with ⟨event, -, rfl⟩ | hposts
  · exact ⟨rfl, rfl⟩
  · exact hposts.registers

/-- What every iteration preserves holds after the loop. -/
theorem loop_induction {α : Type} {body : World → α → Except Revert World} (P : World → Prop)
    (hbody : ∀ before item after, P before → body before item = .ok after → P after) {items : List α}
    (hworld : P world) (h : items.foldlM body world = .ok next) : P next := by
  induction items generalizing world with
  | nil =>
      cases h
      exact hworld
  | cons item items ih =>
      rw [List.foldlM_cons] at h
      obtain ⟨after, hafter, hrest⟩ := bind_eq_ok.mp h
      exact ih (hbody world item after hworld hafter) hrest

theorem submitDepositAndWithdrawalBatch_registers
    (h : submitDepositAndWithdrawalBatch host context world data = .ok next) : Same world next := by
  obtain ⟨-, -, -, batch, deposited, withdrawn, -, hdeposited, hwithdrawn, rfl⟩ :=
    submitDepositAndWithdrawalBatch_cases h
  have hdeposits : Same world deposited :=
    loop_induction _ (fun _ _ _ hsame hdeposit => hsame.trans (submitDeposit_cases hdeposit).registers)
      ⟨rfl, rfl⟩ hdeposited
  have hwithdrawals : Same world withdrawn :=
    loop_induction _ (fun _ _ _ hsame hwithdrawal => hsame.trans (withdraw_registers hwithdrawal))
      hdeposits hwithdrawn
  exact hwithdrawals.trans ⟨rfl, rfl⟩

theorem rollbackWithdrawalBatch_registers
    (h : rollbackWithdrawalBatch host context world data = .ok next) : Same world next := by
  obtain ⟨-, batch, -, hrolledBack⟩ := rollbackWithdrawalBatch_cases h
  exact loop_induction _
    (fun _ _ _ hsame hwithdrawal => SameRegisters.trans hsame (rollbackWithdraw_cases hwithdrawal).registers)
    ⟨rfl, rfl⟩ hrolledBack

/-- What the settlement storage sees of a call that goes through. -/
theorem execute_moves {call : Call} (h : execute host context world call = .ok next) :
    Moves host.keccak256 world.state.toSettlementState (call.act next.state.toSettlementState)
      next.state.toSettlementState (some context.sender) := by
  cases call with
  | prepareSettlementBatch data =>
      obtain ⟨settlement, log, hshared, rfl⟩ := prepareSettlementBatch_cases h
      exact prepareSettlementBatch_moves hshared
  | submitSettlementBatch data =>
      obtain ⟨settlement, log, hshared, rfl⟩ := submitSettlementBatch_cases h
      exact submitSettlementBatch_moves hshared
  | rollbackBatch =>
      obtain ⟨settlement, hshared, rfl⟩ := rollbackBatch_cases h
      exact rollbackBatch_moves hshared
  | submitDepositAndWithdrawalBatch data =>
      exact (submitDepositAndWithdrawalBatch_registers h).moves
  | rollbackWithdrawalBatch data =>
      exact (rollbackWithdrawalBatch_registers h).moves
  | setSubmitter submitter =>
      obtain rfl := setSubmitter_cases h
      exact SameRegisters.moves ⟨rfl, rfl⟩
  | setFeeAccount feeAccount =>
      obtain rfl := setFeeAccount_cases h
      exact SameRegisters.moves ⟨rfl, rfl⟩

theorem contract_lawful : (contract host).Lawful host.keccak256 where
  moves := execute_moves
  idle := by
    intro world input next h hbegins
    obtain ⟨context, call⟩ := input
    cases call with
    | prepareSettlementBatch data =>
        obtain ⟨settlement, log, hshared, -⟩ := prepareSettlementBatch_cases h
        exact (Evm.prepareSettlementBatch_cases hshared).2.1
    | submitDepositAndWithdrawalBatch data => exact (submitDepositAndWithdrawalBatch_cases h).2.1
    | _ => exact absurd hbegins id

theorem mem_settlementData {inputs : List Input} {n : Nat} {data : Bytes}
    (h : (contract host).actAt world inputs n = .prepare data ∨
      (contract host).actAt world inputs n = .submit data) : data ∈ settlementData inputs := by
  obtain ⟨⟨context, call⟩, hinput⟩ := Contract.exists_of_actAt (n := n) fun hother => by
    rw [hother] at h
    simp at h
  rw [Contract.actAt_eq hinput, Contract.act] at h
  refine List.mem_filterMap.mpr ⟨⟨context, call⟩, List.mem_of_getElem? hinput, ?_⟩
  split at h
  · cases call with
    | prepareSettlementBatch data' =>
        simp only [contract, Call.act, preparationAct] at h
        split at h <;> simp at h
        rw [h]
    | submitSettlementBatch data' => simpa [contract, Call.act] using h
    | _ => simp [contract, Call.act] at h
  · simp at h

end CoinProxy

/-! ### Both contracts -/

/-- From its initialization on, either contract prepares, submits and rolls back its settlement batches in
order, where the hash tells the settlement data of the run apart. -/
theorem settlement_lifecycle :
    (∀ (E : Type) (host : Exchange.Host) (tokens : Exchange.Tokens E) (submitter feeAccount : Address)
      (delay : Uint256) (env : E) (inputs : List (Exchange.Input E)),
      (∀ first ∈ Exchange.settlementData inputs, ∀ second ∈ Exchange.settlementData inputs,
        host.keccak256 first = host.keccak256 second → first = second) →
      (Exchange.contract host tokens).Lifecycle host.keccak256
        (Exchange.start submitter feeAccount delay env) inputs) ∧
    (∀ (host : CoinProxy.Host) (submitter feeAccount : Address) (inputs : List CoinProxy.Input),
      (∀ first ∈ CoinProxy.settlementData inputs, ∀ second ∈ CoinProxy.settlementData inputs,
        host.keccak256 first = host.keccak256 second → first = second) →
      (CoinProxy.contract host).Lifecycle host.keccak256 (CoinProxy.start submitter feeAccount) inputs) := by
  constructor
  · intro E host tokens submitter feeAccount delay env inputs hcollision
    refine Exchange.contract_lawful.lifecycle rfl rfl fun j n prepared submitted hprepare hsubmit => ?_
    exact hcollision _ (Exchange.mem_settlementData (Or.inl hprepare)) _
      (Exchange.mem_settlementData (Or.inr hsubmit))
  · intro host submitter feeAccount inputs hcollision
    refine CoinProxy.contract_lawful.lifecycle rfl rfl fun j n prepared submitted hprepare hsubmit => ?_
    exact hcollision _ (CoinProxy.mem_settlementData (Or.inl hprepare)) _
      (CoinProxy.mem_settlementData (Or.inr hsubmit))

/-! The proxy's first wallet is credited five units and trades them with another. -/

namespace CoinProxy

def fiveUnits : BatchDepositAndWithdrawal where
  deposits := [{ sequence := 1, sender := 0xa1, token := 0x70, amount := 5 }]
  withdrawals := []

def tradingHost : Host :=
  ledgerHost
    [(fiveUnits.encode, 0x895a70abeebef11dbb0b7101e18f50d283664b55da4f5261d7e3136a006e477e),
      (evenData, 0xef31cc2db62bdbd5b577c649509cabe709edb688278b78e707ddcd6acc382f0b)]
    [fiveUnits] [(evenData, evenTrade)]

def trading : List Input :=
  [⟨⟨0x5b, 0x0e⟩, .submitDepositAndWithdrawalBatch fiveUnits.encode⟩,
    ⟨⟨0x5b, 0x0e⟩, .prepareSettlementBatch evenData⟩, ⟨⟨0x5b, 0x0e⟩, .submitSettlementBatch evenData⟩]

end CoinProxy

theorem trading_lifecycle :
    (Exchange.contract (exchangeHost evenHost) Exchange.bookTokens).Lifecycle evenHost.keccak256
        (Exchange.start 0x5b 0xfe 86400 fun _ _ => 10) Exchange.tradingInputs ∧
      (CoinProxy.contract CoinProxy.tradingHost).Lifecycle CoinProxy.tradingHost.keccak256
        (CoinProxy.start 0x5b 0xfe) CoinProxy.trading := by
  constructor
  · apply settlement_lifecycle.1
    rw [Exchange.settlementData_tradingInputs]
    simp
  · apply settlement_lifecycle.2
    show ∀ first ∈ [evenData, evenData], ∀ second ∈ [evenData, evenData], _
    simp

end Chainring.Evm

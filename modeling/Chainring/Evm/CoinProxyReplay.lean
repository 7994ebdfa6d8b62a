import Chainring.Evm.CoinProxyRollback
import Chainring.Evm.SettlementLifecycle

/-! Which batches of deposits and withdrawals can go through again. The contract remembers the hash of the
last one only: a batch is refused right after itself, and accepted again after another. -/

namespace Chainring.Evm.CoinProxy

open CheckedWord (bind_eq_ok exists_eq_ok)

variable (host : Host) (origin : World) (inputs : List Input)

/-- The world before input `n`. -/
def worldAt (n : Nat) : World := Run.stateAt (step host) origin inputs n

/-- Input `n` submits the batch and goes through. -/
def SubmitsAt (n : Nat) (data : Bytes) : Prop :=
  ∃ context next, inputs[n]? = some ⟨context, .submitDepositAndWithdrawalBatch data⟩ ∧
    submitDepositAndWithdrawalBatch host context (worldAt host origin inputs n) data = .ok next

variable {host origin inputs} {context : Context} {world next : World} {data : Bytes}

/-! ### The register of the last batch -/

theorem Posts.lastBatch {entries : List (Ledger.Entry Balances.Slot)} {event : Event}
    (h : Posts world entries event next) :
    next.state.lastDepositAndWithdrawBatchHash = world.state.lastDepositAndWithdrawBatchHash := by
  rw [h.2]
  rfl

/-- Only a batch that goes through writes the register. -/
theorem execute_lastBatch {call : Call} (h : execute host context world call = .ok next) :
    next.state.lastDepositAndWithdrawBatchHash = world.state.lastDepositAndWithdrawBatchHash ∨
      ∃ data, call = .submitDepositAndWithdrawalBatch data ∧
        next.state.lastDepositAndWithdrawBatchHash = host.keccak256 data := by
  cases call with
  | submitDepositAndWithdrawalBatch data =>
      obtain ⟨-, -, -, batch, deposited, withdrawn, -, -, -, rfl⟩ := submitDepositAndWithdrawalBatch_cases h
      exact Or.inr ⟨data, rfl, rfl⟩
  | rollbackWithdrawalBatch data =>
      obtain ⟨-, batch, -, hrolledBack⟩ := rollbackWithdrawalBatch_cases h
      left
      refine loop_induction (fun reached => reached.state.lastDepositAndWithdrawBatchHash =
        world.state.lastDepositAndWithdrawBatchHash) (fun _ _ _ hsame hwithdrawal => ?_) rfl hrolledBack
      exact (rollbackWithdraw_cases hwithdrawal).lastBatch.trans hsame
  | prepareSettlementBatch data =>
      obtain ⟨settlement, log, -, rfl⟩ := prepareSettlementBatch_cases h
      exact Or.inl rfl
  | submitSettlementBatch data =>
      obtain ⟨settlement, log, -, rfl⟩ := submitSettlementBatch_cases h
      exact Or.inl rfl
  | rollbackBatch =>
      obtain ⟨settlement, -, rfl⟩ := rollbackBatch_cases h
      exact Or.inl rfl
  | setSubmitter submitter =>
      obtain rfl := setSubmitter_cases h
      exact Or.inl rfl
  | setFeeAccount feeAccount =>
      obtain rfl := setFeeAccount_cases h
      exact Or.inl rfl

theorem worldAt_next {n : Nat} {input : Input} (h : inputs[n]? = some input) :
    worldAt host origin inputs (n + 1) = step host (worldAt host origin inputs n) input := by
  obtain ⟨hn, rfl⟩ := List.getElem?_eq_some_iff.mp h
  exact Run.stateAt_succ (step host) origin inputs n hn

/-- The register before an input is what it was, or the hash of the batch that just went through. -/
theorem worldAt_lastBatch {n : Nat} (hn : n < inputs.length) :
    (worldAt host origin inputs (n + 1)).state.lastDepositAndWithdrawBatchHash =
        (worldAt host origin inputs n).state.lastDepositAndWithdrawBatchHash ∨
      ∃ data, SubmitsAt host origin inputs n data ∧
        (worldAt host origin inputs (n + 1)).state.lastDepositAndWithdrawBatchHash =
          host.keccak256 data := by
  have hinput := List.getElem?_eq_getElem hn
  rw [worldAt_next hinput]
  rcases step_cases host (worldAt host origin inputs n) inputs[n] with ⟨next, hexecute, hstep⟩ | hstep
  · rw [hstep]
    rcases execute_lastBatch hexecute with hsame | ⟨data, hcall, hlast⟩
    · exact Or.inl hsame
    · rw [hcall] at hexecute
      refine Or.inr ⟨data, ⟨inputs[n].context, next, ?_, hexecute⟩, hlast⟩
      rw [hinput, ← hcall]
  · rw [hstep]
    exact Or.inl rfl

theorem SubmitsAt.lastBatch {n : Nat} (h : SubmitsAt host origin inputs n data) :
    (worldAt host origin inputs n).state.lastDepositAndWithdrawBatchHash ≠ host.keccak256 data ∧
      (worldAt host origin inputs (n + 1)).state.lastDepositAndWithdrawBatchHash = host.keccak256 data := by
  obtain ⟨context, next, hinput, hsubmit⟩ := h
  obtain ⟨-, -, hnew, batch, deposited, withdrawn, -, -, -, rfl⟩ :=
    submitDepositAndWithdrawalBatch_cases hsubmit
  refine ⟨hnew, ?_⟩
  rw [worldAt_next hinput]
  simp only [step, execute, hsubmit]

theorem SubmitsAt.lt {n : Nat} (h : SubmitsAt host origin inputs n data) : n < inputs.length := by
  obtain ⟨context, next, hinput, -⟩ := h
  exact (List.getElem?_eq_some_iff.mp hinput).1

/-- A batch that goes through twice is not the last one in between: another batch went through then. -/
theorem resubmitted_after_another (host : Host) (submitter feeAccount : Address) (inputs : List Input)
    (data : Bytes) (n n' : Nat) (hlt : n < n')
    (hfirst : SubmitsAt host (start submitter feeAccount) inputs n data)
    (hsecond : SubmitsAt host (start submitter feeAccount) inputs n' data) :
    ∃ m data', n < m ∧ m < n' ∧ SubmitsAt host (start submitter feeAccount) inputs m data' ∧
      host.keccak256 data' ≠ host.keccak256 data := by
  obtain ⟨m, hlow, hhigh, hsame, hchanged⟩ := Run.exists_left
    (fun n => (worldAt host (start submitter feeAccount) inputs n).state.lastDepositAndWithdrawBatchHash)
    hlt hfirst.lastBatch.2 hsecond.lastBatch.1
  rcases worldAt_lastBatch (Nat.lt_trans hhigh hsecond.lt) with hkept | ⟨data', hother, hlast⟩
  · exact absurd (hkept.trans hsame) hchanged
  · refine ⟨m, data', hlow, hhigh, hother, fun hequal => hchanged ?_⟩
    exact hlast.trans hequal

/-! The same ten units are credited before and after a deposit of seven by another wallet. -/

def sevenNative : BatchDepositAndWithdrawal where
  deposits := [{ sequence := 2, sender := 0xb2, token := 0, amount := 7 }]
  withdrawals := []

def depositHost : Host :=
  ledgerHost
    [(tenNative.encode, 0x3230fbcb3217c6ecd6141596f0f3aa676d634bdb53ecf3963468df0abf2eccf6),
      (sevenNative.encode, 0xfb9ead6bd2ac1b487541576f43b54fc16f666fbce0c00ca894e0650eeed8f2d2)]
    [tenNative, sevenNative] []

def resubmitting : List Input :=
  [⟨⟨0x5b, 0x0e⟩, .submitDepositAndWithdrawalBatch tenNative.encode⟩,
    ⟨⟨0x5b, 0x0e⟩, .submitDepositAndWithdrawalBatch sevenNative.encode⟩,
    ⟨⟨0x5b, 0x0e⟩, .submitDepositAndWithdrawalBatch tenNative.encode⟩]

theorem submitsAt_of_isOk {n : Nat} (hinput : inputs[n]? = some ⟨context, .submitDepositAndWithdrawalBatch data⟩)
    (h : (submitDepositAndWithdrawalBatch host context (worldAt host origin inputs n) data).toOption.isSome) :
    SubmitsAt host origin inputs n data := by
  obtain ⟨next, hnext⟩ := Option.isSome_iff_exists.mp h
  cases hsubmit : submitDepositAndWithdrawalBatch host context (worldAt host origin inputs n) data with
  | error revert =>
      rw [hsubmit] at hnext
      cases hnext
  | ok next => exact ⟨context, next, hinput, hsubmit⟩

theorem resubmitting_credits_twice :
    SubmitsAt depositHost (start 0x5b 0xfe) resubmitting 0 tenNative.encode ∧
      SubmitsAt depositHost (start 0x5b 0xfe) resubmitting 2 tenNative.encode ∧
      (run depositHost (start 0x5b 0xfe) resubmitting).state.balances 0xa1 0 = 20 := by
  refine ⟨submitsAt_of_isOk rfl ?_, submitsAt_of_isOk rfl ?_, ?_⟩ <;> decide +kernel

theorem resubmitting_after_another : ∃ m data', 0 < m ∧ m < 2 ∧
    SubmitsAt depositHost (start 0x5b 0xfe) resubmitting m data' ∧
    depositHost.keccak256 data' ≠ depositHost.keccak256 tenNative.encode :=
  resubmitted_after_another depositHost 0x5b 0xfe resubmitting tenNative.encode 0 2 (by decide)
    (submitsAt_of_isOk rfl (by decide +kernel)) (submitsAt_of_isOk rfl (by decide +kernel))

end Chainring.Evm.CoinProxy

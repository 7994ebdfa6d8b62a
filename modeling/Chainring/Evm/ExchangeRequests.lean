import Chainring.Evm.ExchangeRun

/-! The sovereign requests of the exchange: which calls and entries change them, and that a request
that stands goes back to a call of its wallet. -/

namespace Chainring.Evm.Exchange

open CheckedWord (bind_eq_ok)

variable {E : Type} {host : Host} {tokens : Tokens E} {context : Context} {world next : World E}

/-- A withdrawal leaves the requests as they are. -/
theorem Pays.requests {sequence : UInt64} {sender token : Address} {amount fee : Uint256}
    (h : Pays tokens world sequence sender token amount fee next) :
    next.state.sovereignWithdrawals = world.state.sovereignWithdrawals := by
  obtain ⟨_, _, _, -, -, -, -, rfl⟩ := h
  rfl

theorem executeWithdrawal_requests {txType : TransactionType} {signedTx : WithdrawWithSignature}
    (h : executeWithdrawal tokens world txType signedTx = .ok next) :
    next.state.sovereignWithdrawals = world.state.sovereignWithdrawals := by
  rcases executeWithdrawal_cases h with ⟨-, hdeclines⟩ | ⟨-, hpays⟩
  · rw [hdeclines]
    rfl
  · exact hpays.requests

/-- An entry deletes the request of its sender when it is on the path of requests, and changes no
other. -/
theorem submitWithdrawal_requests {withdrawal : Bytes}
    (h : submitWithdrawal host tokens world withdrawal = .ok next) :
    ∃ txType signedTx, decodeWithdrawal host withdrawal = .ok (txType, signedTx) ∧
      next.state.sovereignWithdrawals =
        if pendingSovereignWithdrawal world.state txType signedTx then
          Function.update world.state.sovereignWithdrawals signedTx.tx.sender .absent
        else world.state.sovereignWithdrawals := by
  obtain ⟨txType, signedTx, hdecode, hcases⟩ := submitWithdrawal_cases h
  refine ⟨txType, signedTx, hdecode, ?_⟩
  rcases hcases with ⟨hpending, -, rfl⟩ | ⟨hpending, -, hexecuted⟩ |
    ⟨hpending, executed, hexecuted, rfl⟩
  · rw [hpending]
    rfl
  · rw [hpending, executeWithdrawal_requests hexecuted]
    rfl
  · rw [hpending, if_pos rfl, ← executeWithdrawal_requests hexecuted]
    rfl

theorem withdraw_requests {sequence : UInt64} {sender token : Address} {amount fee : Uint256}
    (h : withdraw tokens world sequence sender token amount fee = .ok next) :
    next.state.sovereignWithdrawals = world.state.sovereignWithdrawals := by
  rcases withdraw_cases h with ⟨-, rfl⟩ | hpays
  · rfl
  · exact hpays.requests

/-! ### One step -/

/-- The step stores `request`: its wallet asked for it and the event says so. -/
def Stores (host : Host) (tokens : Tokens E) (world : World E) (input : Input E) (wallet : Address)
    (request : SovereignWithdrawal) : Prop :=
  ∃ context, input = .call context (.sovereignWithdrawal request.token request.amount) ∧
    context.sender = wallet ∧ context.timestamp = request.timestamp ∧
    (step host tokens world input).log =
      world.log ++ [.withdrawalRequested wallet request.token request.amount]

/-- The entries of a batch leave a request alone or delete it. -/
theorem processed_requests {withdrawals : List Bytes}
    (h : withdrawals.foldlM (submitWithdrawal host tokens) world = .ok next) (wallet : Address) :
    next.state.sovereignWithdrawals wallet = world.state.sovereignWithdrawals wallet ∨
      next.state.sovereignWithdrawals wallet = .absent := by
  refine submitted_induction
    (fun reached => reached.state.sovereignWithdrawals wallet = world.state.sovereignWithdrawals wallet ∨
      reached.state.sovereignWithdrawals wallet = .absent)
    (fun before withdrawal after hbefore hentry => ?_) (Or.inl rfl) h
  obtain ⟨txType, signedTx, -, hrequests⟩ := submitWithdrawal_requests hentry
  rw [hrequests]
  split
  · by_cases hwallet : wallet = signedTx.tx.sender
    · rw [hwallet, Function.update_self]
      exact Or.inr rfl
    · rw [Function.update_of_ne hwallet]
      exact hbefore
  · exact hbefore

/-- A step keeps the request of a wallet, deletes it or stores one that the wallet asked for. -/
theorem step_requests (host : Host) (tokens : Tokens E) (world : World E) (input : Input E)
    (wallet : Address) :
    (step host tokens world input).state.sovereignWithdrawals wallet =
        world.state.sovereignWithdrawals wallet ∨
      (step host tokens world input).state.sovereignWithdrawals wallet = .absent ∨
      Stores host tokens world input wallet
        ((step host tokens world input).state.sovereignWithdrawals wallet) := by
  cases input with
  | outside change => exact Or.inl rfl
  | call context call =>
      rcases step_call host tokens context world call with ⟨next, hexecute, hstep⟩ | hstep
      · rw [Stores, hstep]
        cases call with
        | receive value =>
            obtain ⟨env, -, hrest⟩ := bind_eq_ok.mp hexecute
            obtain ⟨balances, -, hrest⟩ := bind_eq_ok.mp hrest
            cases hrest
            exact Or.inl rfl
        | deposit token amount =>
            obtain ⟨env, -, hrest⟩ := bind_eq_ok.mp hexecute
            obtain ⟨balances, -, hrest⟩ := bind_eq_ok.mp hrest
            cases hrest
            exact Or.inl rfl
        | sovereignWithdrawal token amount =>
            rcases sovereignWithdrawal_cases hexecute with
              hasks | ⟨-, -, -, -, executed, hexecuted, rfl⟩
            · obtain ⟨-, rfl⟩ := requestWithdrawal_cases hasks.stored
              by_cases hwallet : wallet = context.sender
              · refine Or.inr (Or.inr ⟨context, ?_, hwallet.symm, ?_, ?_⟩)
                all_goals simp [World.emit, setRequest, hwallet]
              · exact Or.inl (Function.update_of_ne hwallet _ _)
            · by_cases hwallet : wallet = context.sender
              · refine Or.inr (Or.inl ?_)
                simp [setRequest, hwallet]
              · refine Or.inl ?_
                rw [← withdraw_requests hexecuted]
                exact Function.update_of_ne hwallet _ _
        | submitWithdrawals withdrawals =>
            obtain ⟨-, -, -, processed, hprocessed, rfl⟩ := submitWithdrawals_cases hexecute
            rcases processed_requests hprocessed wallet with hkept | hdeleted
            · exact Or.inl hkept
            · exact Or.inr (Or.inl hdeleted)
        | prepareSettlementBatch data =>
            obtain ⟨settlement, log, -, rfl⟩ := prepareSettlementBatch_cases hexecute
            exact Or.inl rfl
        | submitSettlementBatch data =>
            obtain ⟨settlement, log, -, rfl⟩ := submitSettlementBatch_cases hexecute
            exact Or.inl rfl
        | rollbackBatch =>
            obtain ⟨settlement, -, rfl⟩ := rollbackBatch_cases hexecute
            exact Or.inl rfl
        | setSubmitter submitter =>
            obtain ⟨_, _, _, _, _, rfl⟩ := setting_cases hexecute trivial
            exact Or.inl rfl
        | setFeeAccount feeAccount =>
            obtain ⟨_, _, _, _, _, rfl⟩ := setting_cases hexecute trivial
            exact Or.inl rfl
        | setSovereignWithdrawalDelay delay =>
            obtain ⟨_, _, _, _, _, rfl⟩ := setting_cases hexecute trivial
            exact Or.inl rfl
        | linkSigner linkedSigner digest signature =>
            obtain ⟨_, _, _, _, _, rfl⟩ := setting_cases hexecute trivial
            exact Or.inl rfl
        | removeLinkedSigner =>
            obtain ⟨_, _, _, _, _, rfl⟩ := setting_cases hexecute trivial
            exact Or.inl rfl
      · exact Or.inl (by rw [hstep])

/-! ### Runs -/

/-- The world before input `n` of a run. -/
def worldAt (host : Host) (tokens : Tokens E) (origin : World E) (inputs : List (Input E)) (n : Nat) :
    World E :=
  Run.stateAt (step host tokens) origin inputs n

theorem worldAt_succ (host : Host) (tokens : Tokens E) (origin : World E) (inputs : List (Input E)) {n : Nat}
    (hn : n < inputs.length) :
    worldAt host tokens origin inputs (n + 1) = step host tokens (worldAt host tokens origin inputs n) inputs[n] :=
  Run.stateAt_succ _ _ _ _ hn

/-- The request of `wallet` was stored by a call of its own, and has stood since. -/
def StandsSinceRequested (host : Host) (tokens : Tokens E) (origin : World E)
    (inputs : List (Input E)) (wallet : Address) (request : SovereignWithdrawal) : Prop :=
  ∃ j, ∃ hj : j < inputs.length,
    Stores host tokens (worldAt host tokens origin inputs j) inputs[j] wallet request ∧
    ∀ k, j < k → k ≤ inputs.length →
      (worldAt host tokens origin inputs k).state.sovereignWithdrawals wallet = request

/-- A request that stands before input `n` was stored by an earlier one, and has stood since. -/
theorem requested_since (host : Host) (tokens : Tokens E) (submitter feeAccount : Address)
    (delay : Uint256) (env : E) (inputs : List (Input E)) (wallet : Address) {n : Nat}
    (hn : n ≤ inputs.length)
    (hactive : ((worldAt host tokens (start submitter feeAccount delay env) inputs
      n).state.sovereignWithdrawals wallet).timestamp ≠ 0) :
    ∃ j < n, ∃ hj : j < inputs.length,
      Stores host tokens (worldAt host tokens (start submitter feeAccount delay env) inputs j) inputs[j]
        wallet ((worldAt host tokens (start submitter feeAccount delay env) inputs
          n).state.sovereignWithdrawals wallet) ∧
      ∀ k, j < k → k ≤ n →
        (worldAt host tokens (start submitter feeAccount delay env) inputs k).state.sovereignWithdrawals
            wallet =
          (worldAt host tokens (start submitter feeAccount delay env) inputs n).state.sovereignWithdrawals
            wallet := by
  let origin := start submitter feeAccount delay env
  have hsteps : ∀ i < n,
      (worldAt host tokens origin inputs (i + 1)).state.sovereignWithdrawals wallet =
          (worldAt host tokens origin inputs i).state.sovereignWithdrawals wallet ∨
        (worldAt host tokens origin inputs (i + 1)).state.sovereignWithdrawals wallet = .absent ∨
        ∃ hi : i < inputs.length, Stores host tokens (worldAt host tokens origin inputs i) inputs[i]
          wallet ((worldAt host tokens origin inputs (i + 1)).state.sovereignWithdrawals wallet) := by
    intro i hi
    have hi : i < inputs.length := Nat.lt_of_lt_of_le hi hn
    have hstep := step_requests host tokens (worldAt host tokens origin inputs i) inputs[i] wallet
    rw [worldAt_succ host tokens origin inputs hi]
    exact hstep.imp_right fun h => h.imp_right fun hstores => ⟨hi, hstores⟩
  have hne : (worldAt host tokens origin inputs n).state.sovereignWithdrawals wallet ≠ .absent :=
    fun habsent => hactive (congrArg SovereignWithdrawal.timestamp habsent)
  obtain ⟨j, hj, ⟨hlength, hstores⟩, hsince⟩ := Run.written_since
    (fun i => (worldAt host tokens origin inputs i).state.sovereignWithdrawals wallet)
    (fun i request => ∃ hi : i < inputs.length,
      Stores host tokens (worldAt host tokens origin inputs i) inputs[i] wallet request)
    rfl n hsteps hne
  exact ⟨j, hj, hlength, hstores, hsince⟩

theorem stands_of_active (host : Host) (tokens : Tokens E) (submitter feeAccount : Address)
    (delay : Uint256) (env : E) (inputs : List (Input E)) (wallet : Address)
    (hactive : ((run host tokens (start submitter feeAccount delay env)
      inputs).state.sovereignWithdrawals wallet).timestamp ≠ 0) :
    StandsSinceRequested host tokens (start submitter feeAccount delay env) inputs wallet
      ((run host tokens (start submitter feeAccount delay env)
        inputs).state.sovereignWithdrawals wallet) := by
  have hfinal : run host tokens (start submitter feeAccount delay env) inputs =
      worldAt host tokens (start submitter feeAccount delay env) inputs inputs.length :=
    (Run.stateAt_length _ _ _).symm
  rw [hfinal] at hactive ⊢
  obtain ⟨j, -, hj, hstores, hsince⟩ := requested_since host tokens submitter feeAccount delay env inputs
    wallet (Nat.le_refl _) hactive
  exact ⟨j, hj, hstores, hsince⟩

end Chainring.Evm.Exchange

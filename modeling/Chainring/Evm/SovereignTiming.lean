import Chainring.Evm.WithdrawalAuthority

/-! When a sovereign withdrawal pays out: a wallet is paid by its own call only what it asked for, the
delay after it asked, and only once for each time it asked. -/

namespace Chainring.Evm.Exchange

variable {E : Type}

section Runs

variable (host : Host) (tokens : Tokens E) (origin : World E) (inputs : List (Input E))

/-- Input `n` is a call of `sovereignWithdrawal` by the sender of `context`, and goes through. -/
structure Succeeds (n : Nat) (context : Context) (token : Address) (amount : Uint256) : Prop where
  called : inputs[n]? = some (.call context (.sovereignWithdrawal token amount))
  succeeds : sovereignWithdrawal tokens context (worldAt host tokens origin inputs n) token amount =
    .ok (worldAt host tokens origin inputs (n + 1))

/-- The request of `wallet` that input `j` stored is still there at input `n`, and no other call of
`sovereignWithdrawal` by the wallet went through in between. -/
structure StandsUntil (j n : Nat) (wallet : Address) (request : SovereignWithdrawal) : Prop where
  earlier : j < n
  stores : ∃ context, context.sender = wallet ∧ context.timestamp = request.timestamp ∧
    Succeeds host tokens origin inputs j context request.token request.amount
  stands : ∀ k, j < k → k ≤ n →
    (worldAt host tokens origin inputs k).state.sovereignWithdrawals wallet = request
  undisturbed : ∀ k, j < k → k < n → ∀ context token amount, context.sender = wallet →
    ¬Succeeds host tokens origin inputs k context token amount

/-- Input `n` pays the sender of `context` the request that input `j` stored: the delay is over, and the
whole amount is debited and transferred without a fee. -/
structure Redeems (j n : Nat) (context : Context) (token : Address) (amount : Uint256) : Prop where
  succeeds : Succeeds host tokens origin inputs n context token amount
  requested : ∃ timestamp,
    StandsUntil host tokens origin inputs j n context.sender { token, amount, timestamp } ∧
    timestamp.toNat + (worldAt host tokens origin inputs n).state.sovereignWithdrawalDelay.toNat ≤
      context.timestamp.toNat
  paid : ∃ executed,
    Pays tokens (worldAt host tokens origin inputs n) 0 context.sender token
      (if amount = 0 then (worldAt host tokens origin inputs n).state.balances context.sender token
        else amount) 0 executed ∧
    worldAt host tokens origin inputs (n + 1) = setRequest executed context.sender .absent
  debited :
    ((worldAt host tokens origin inputs (n + 1)).state.balances context.sender token).toNat +
        (if amount = 0 then (worldAt host tokens origin inputs n).state.balances context.sender token
          else amount).toNat =
      ((worldAt host tokens origin inputs n).state.balances context.sender token).toNat

variable {host tokens origin inputs} {n : Nat} {context : Context} {token : Address} {amount : Uint256}

/-- A call that changed the world has gone through. -/
theorem succeeds_of_ne (hcalled : inputs[n]? = some (.call context (.sovereignWithdrawal token amount)))
    (hne : worldAt host tokens origin inputs (n + 1) ≠ worldAt host tokens origin inputs n) :
    Succeeds host tokens origin inputs n context token amount := by
  obtain ⟨hn, hinput⟩ := List.getElem?_eq_some_iff.mp hcalled
  have hstep := worldAt_succ host tokens origin inputs hn
  rw [hinput] at hstep
  refine ⟨hcalled, ?_⟩
  rcases step_call host tokens context (worldAt host tokens origin inputs n)
    (.sovereignWithdrawal token amount) with ⟨next, hnext, hworld⟩ | hsame
  · rw [show worldAt host tokens origin inputs (n + 1) = next from hstep.trans hworld]
    exact hnext
  · exact absurd (hstep.trans hsame) hne

/-- A call that goes through either deletes the request of its sender or stores one that differs. -/
theorem Succeeds.changes (h : Succeeds host tokens origin inputs n context token amount)
    (hactive : ((worldAt host tokens origin inputs n).state.sovereignWithdrawals
      context.sender).timestamp ≠ 0) :
    (worldAt host tokens origin inputs (n + 1)).state.sovereignWithdrawals context.sender ≠
      (worldAt host tokens origin inputs n).state.sovereignWithdrawals context.sender := by
  intro hsame
  rcases sovereignWithdrawal_cases h.succeeds with hasks | ⟨-, -, -, -, executed, -, hnext⟩
  · obtain ⟨-, hnext⟩ := requestWithdrawal_cases hasks.stored
    have hstored : (worldAt host tokens origin inputs (n + 1)).state.sovereignWithdrawals context.sender =
        { token, amount, timestamp := context.timestamp } := by
      rw [hnext]
      exact Function.update_self _ _ _
    rw [hsame] at hstored
    apply hasks.other hactive
    rw [hstored]
    exact ⟨rfl, rfl⟩
  · have habsent : (worldAt host tokens origin inputs (n + 1)).state.sovereignWithdrawals
        context.sender = .absent := by
      rw [hnext]
      exact Function.update_self _ _ _
    rw [hsame] at habsent
    exact hactive (congrArg SovereignWithdrawal.timestamp habsent)

/-- The call that stores a request goes through. -/
theorem succeeds_of_stores {wallet : Address} {request : SovereignWithdrawal} {j : Nat}
    (hj : j < inputs.length)
    (h : Stores host tokens (worldAt host tokens origin inputs j) inputs[j] wallet request) :
    ∃ context, context.sender = wallet ∧ context.timestamp = request.timestamp ∧
      Succeeds host tokens origin inputs j context request.token request.amount := by
  obtain ⟨context, hinput, hsender, htimestamp, hlog⟩ := h
  refine ⟨context, hsender, htimestamp, succeeds_of_ne ?_ fun hsame => ?_⟩
  · rw [List.getElem?_eq_getElem hj, hinput]
  · rw [← worldAt_succ host tokens origin inputs hj] at hlog
    have hlengths := congrArg List.length ((congrArg World.log hsame).symm.trans hlog)
    simp at hlengths

/-- A call of `sovereignWithdrawal` that lowers a balance completes a request. -/
theorem completes_of_lowers (h : Succeeds host tokens origin inputs n context token amount)
    {wallet t : Address}
    (hlower : (worldAt host tokens origin inputs (n + 1)).state.balances wallet t <
      (worldAt host tokens origin inputs n).state.balances wallet t) :
    Completes tokens context (worldAt host tokens origin inputs n) token amount
      (worldAt host tokens origin inputs (n + 1)) := by
  rcases sovereignWithdrawal_cases h.succeeds with hasks | hcompletes
  · obtain ⟨-, hnext⟩ := requestWithdrawal_cases hasks.stored
    rw [hnext] at hlower
    exact absurd hlower (BitVec.lt_irrefl _)
  · exact hcompletes

end Runs

variable {host : Host} {tokens : Tokens E} {submitter feeAccount : Address} {delay : Uint256} {env : E}
  {inputs : List (Input E)} {n : Nat} {context : Context} {token : Address} {amount : Uint256}

/-- A request that stands was stored by the last call of its wallet that went through. -/
theorem standsUntil_of_active {wallet : Address} (hn : n ≤ inputs.length)
    (hactive : ((worldAt host tokens (start submitter feeAccount delay env) inputs
      n).state.sovereignWithdrawals wallet).timestamp ≠ 0) :
    ∃ j, StandsUntil host tokens (start submitter feeAccount delay env) inputs j n wallet
      ((worldAt host tokens (start submitter feeAccount delay env) inputs
        n).state.sovereignWithdrawals wallet) := by
  obtain ⟨j, hj, hlength, hstores, hsince⟩ := requested_since host tokens submitter feeAccount delay env
    inputs wallet hn hactive
  refine ⟨j, hj, succeeds_of_stores hlength hstores, hsince, ?_⟩
  rintro k hlow hhigh context token amount rfl hsucceeds
  have hbefore := hsince k hlow (Nat.le_of_lt hhigh)
  have hafter := hsince (k + 1) (Nat.lt_succ_of_lt hlow) hhigh
  apply hsucceeds.changes
  · rw [hbefore]
    exact hactive
  · exact hafter.trans hbefore.symm

/-- The completion of a request debits its sender by the amount, with no fee. -/
theorem Completes.paid {world next : World E} (h : Completes tokens context world token amount next)
    (hlower : next.state.balances context.sender token < world.state.balances context.sender token) :
    ∃ executed, Pays tokens world 0 context.sender token
        (if amount = 0 then world.state.balances context.sender token else amount) 0 executed ∧
      next = setRequest executed context.sender .absent := by
  obtain ⟨executed, hexecuted, rfl⟩ := h.executes
  rcases withdraw_cases hexecuted with ⟨-, rfl⟩ | hpays
  · exact absurd hlower (BitVec.lt_irrefl _)
  · exact ⟨executed, hpays, rfl⟩

/-- A request that one input redeems is not there for a later one. -/
theorem Redeems.not_later {origin : World E} {j n' : Nat} {context' : Context} {token' : Address}
    {amount' : Uint256} (h : Redeems host tokens origin inputs j n context token amount)
    (h' : Redeems host tokens origin inputs j n' context' token' amount') : n' ≤ n := by
  obtain ⟨timestamp, hstands, -⟩ := h.requested
  obtain ⟨timestamp', hstands', -⟩ := h'.requested
  obtain ⟨requester, hsender, -, hstored⟩ := hstands.stores
  obtain ⟨requester', hsender', -, hstored'⟩ := hstands'.stores
  have hsame : requester = requester' := by
    injection Option.some.inj (hstored.called.symm.trans hstored'.called)
  by_contra hlater
  apply hstands'.undisturbed n hstands.earlier (Nat.not_le.mp hlater) context token amount _ h.succeeds
  rw [← hsender, hsame, hsender']

/-- In every run, a call by a wallet of `sovereignWithdrawal` that lowers its balance redeems a request
that the wallet stored for that token and amount, and no request is redeemed twice. -/
theorem sovereignWithdrawals_timed (host : Host) (tokens : Tokens E) (submitter feeAccount : Address)
    (delay : Uint256) (env : E) (inputs : List (Input E)) :
    (∀ n context token amount,
      inputs[n]? = some (.call context (.sovereignWithdrawal token amount)) →
      (worldAt host tokens (start submitter feeAccount delay env) inputs (n + 1)).state.balances
          context.sender token <
        (worldAt host tokens (start submitter feeAccount delay env) inputs n).state.balances
          context.sender token →
      ∃ j, Redeems host tokens (start submitter feeAccount delay env) inputs j n context token amount) ∧
    ∀ j n n' context context' token token' amount amount',
      Redeems host tokens (start submitter feeAccount delay env) inputs j n context token amount →
      Redeems host tokens (start submitter feeAccount delay env) inputs j n' context' token' amount' →
      n = n' := by
  refine ⟨?_, ?_⟩
  · intro n context token amount hcalled hlower
    have hn : n < inputs.length := (List.getElem?_eq_some_iff.mp hcalled).1
    have hsucceeds := succeeds_of_ne hcalled fun hsame => by
      rw [hsame] at hlower
      exact BitVec.lt_irrefl _ hlower
    have hcompletes := completes_of_lowers hsucceeds hlower
    obtain ⟨j, hstands⟩ := standsUntil_of_active (Nat.le_of_lt hn) hcompletes.active
    obtain ⟨executed, hpays, hnext⟩ := hcompletes.paid hlower
    refine ⟨j, hsucceeds, ⟨_, ?_, hcompletes.due⟩, ⟨executed, hpays, hnext⟩, ?_⟩
    · rw [← hcompletes.sameToken, ← hcompletes.sameAmount]
      exact hstands
    · have hbalance := hpays.balance context.sender token
      rw [hnext]
      simpa [setRequest] using hbalance.symm
  · intro j n n' context context' token token' amount amount' h h'
    exact Nat.le_antisymm (h'.not_later h) (h.not_later h')

/-! The first wallet asks for its ten units at second 2, and calls again a day later. -/

def redeeming : List (Input Book) :=
  requesting ++ [.call ⟨0xa1, 86402, 0x0e⟩ (.sovereignWithdrawal 0 10)]

theorem redeeming_timed : ∃ j,
    Redeems requestedHost bookTokens bookStart redeeming j 2 ⟨0xa1, 86402, 0x0e⟩ 0 10 :=
  (sovereignWithdrawals_timed requestedHost bookTokens 0x5b 0xfe 86400 _ redeeming).1 2
    ⟨0xa1, 86402, 0x0e⟩ 0 10 rfl (by decide +kernel)

end Chainring.Evm.Exchange

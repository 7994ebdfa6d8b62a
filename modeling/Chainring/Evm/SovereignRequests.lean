import Chainring.Evm.WithdrawalAuthority

/-! What a batch of withdrawals does to the sovereign requests. An entry on the path of requests
deletes the request of its sender whether or not the withdrawal goes through. -/

namespace Chainring.Evm.Exchange

open CheckedWord (exists_eq_ok)

variable {E : Type} {host : Host} {tokens : Tokens E}

/-- The entry ends in a failed withdrawal. -/
def Fails (before after : World E) : Prop :=
  ∃ address sequence token amount balance errorCode,
    after.log = before.log ++ [.withdrawalFailed address sequence token amount balance errorCode]

/-- An entry that changes a request is for its wallet and token, lowers the balance and reports the
withdrawal, and an entry that fails changes no request. -/
def CompletesRequests (host : Host) (before : World E) (withdrawal : Bytes) (after : World E) : Prop :=
  ∀ wallet, (before.state.sovereignWithdrawals wallet).timestamp ≠ 0 →
    (after.state.sovereignWithdrawals wallet ≠ before.state.sovereignWithdrawals wallet →
      ∃ txType signedTx, decodeWithdrawal host withdrawal = .ok (txType, signedTx) ∧
        signedTx.tx.sender = wallet ∧
        signedTx.tx.token = (before.state.sovereignWithdrawals wallet).token ∧
        after.state.balances wallet signedTx.tx.token <
          before.state.balances wallet signedTx.tx.token ∧
        ∃ amount, after.log = before.log ++
          [.withdrawal wallet signedTx.sequence signedTx.tx.token amount signedTx.tx.feeAmount]) ∧
    (Fails before after →
      after.state.sovereignWithdrawals wallet = before.state.sovereignWithdrawals wallet)

/-- The entry is on the path of a request that stands, and moves no money. -/
def DropsRequest (state : State) (txType : TransactionType) (signedTx : WithdrawWithSignature) :
    Prop :=
  pendingSovereignWithdrawal state txType signedTx = true ∧
    (state.sovereignWithdrawals signedTx.tx.sender).timestamp ≠ 0 ∧
    ¬MovesMoney state txType signedTx.tx

instance (state : State) (txType : TransactionType) (signedTx : WithdrawWithSignature) :
    Decidable (DropsRequest state txType signedTx) :=
  inferInstanceAs (Decidable (_ = true ∧ ¬_ = _ ∧ ¬MovesMoney state txType signedTx.tx))

theorem execution_reports {world next : World E} {txType : TransactionType}
    {signedTx : WithdrawWithSignature}
    (h : executeWithdrawal tokens world txType signedTx = .ok next)
    (hexecutable : Executable world.state txType signedTx.tx) :
    ∃ amount, next.log = world.log ++ [.withdrawal signedTx.tx.sender signedTx.sequence
      signedTx.tx.token amount signedTx.tx.feeAmount] := by
  rcases executeWithdrawal_cases h with ⟨hunable, -⟩ | ⟨-, _, _, _, -, -, -, -, rfl⟩
  · exact absurd hexecutable hunable
  · exact ⟨_, rfl⟩

theorem not_completesRequests {before after : World E} {withdrawal : Bytes}
    {txType : TransactionType} {signedTx : WithdrawWithSignature}
    (hentry : submitWithdrawal host tokens before withdrawal = .ok after)
    (hdecode : decodeWithdrawal host withdrawal = .ok (txType, signedTx))
    (hdrops : DropsRequest before.state txType signedTx) :
    ¬CompletesRequests host before withdrawal after := by
  intro hcompletes
  obtain ⟨hpending, hactive, hstays⟩ := hdrops
  obtain ⟨txType', signedTx', hdecode', hrequests⟩ := submitWithdrawal_requests hentry
  obtain ⟨rfl, rfl⟩ := Prod.mk.inj (Except.ok.inj (hdecode'.symm.trans hdecode))
  have hdeleted : after.state.sovereignWithdrawals signedTx'.tx.sender = .absent := by
    rw [hrequests, if_pos hpending, Function.update_self]
  have hchanged : after.state.sovereignWithdrawals signedTx'.tx.sender ≠
      before.state.sovereignWithdrawals signedTx'.tx.sender := by
    rw [hdeleted]
    intro habsent
    exact hactive (congrArg SovereignWithdrawal.timestamp habsent.symm)
  obtain ⟨txType'', signedTx'', hdecode'', hsender, -, hlower, -⟩ := (hcompletes _ hactive).1 hchanged
  obtain ⟨rfl, rfl⟩ := Prod.mk.inj (Except.ok.inj (hdecode''.symm.trans hdecode))
  exact hstays ((submitWithdrawal_lowers_iff hentry hdecode _ _).mp hlower).2.1

theorem completesRequests {before after : World E} {withdrawal : Bytes}
    (hentry : submitWithdrawal host tokens before withdrawal = .ok after)
    (hkeeps : ∀ txType signedTx, decodeWithdrawal host withdrawal = .ok (txType, signedTx) →
      ¬DropsRequest before.state txType signedTx) :
    CompletesRequests host before withdrawal after := by
  intro wallet hactive
  obtain ⟨txType, signedTx, hdecode, hcases⟩ := submitWithdrawal_cases hentry
  obtain ⟨txType', signedTx', hdecode', hrequests⟩ := submitWithdrawal_requests hentry
  obtain ⟨rfl, rfl⟩ := Prod.mk.inj (Except.ok.inj (hdecode'.symm.trans hdecode))
  -- Only the sender of an entry on the path of requests can lose a request.
  by_cases hown : pendingSovereignWithdrawal before.state txType' signedTx' = true ∧
      wallet = signedTx'.tx.sender
  · obtain ⟨hpending, rfl⟩ := hown
    have hmoves : MovesMoney before.state txType' signedTx'.tx := by
      by_contra hstays
      exact hkeeps _ _ hdecode ⟨hpending, hactive, hstays⟩
    have hlower := (submitWithdrawal_lowers_iff hentry hdecode _ _).mpr
      ⟨⟨rfl, rfl⟩, hmoves, Or.inl hpending⟩
    have hreport : ∃ amount, after.log = before.log ++ [.withdrawal signedTx'.tx.sender
        signedTx'.sequence signedTx'.tx.token amount signedTx'.tx.feeAmount] := by
      rcases hcases with ⟨hnot, -⟩ | ⟨hnot, -⟩ | ⟨-, executed, hexecuted, rfl⟩
      · rw [hpending] at hnot
        cases hnot
      · rw [hpending] at hnot
        cases hnot
      · obtain ⟨amount, hlog⟩ := execution_reports hexecuted hmoves.1
        exact ⟨amount, hlog⟩
    refine ⟨fun _ => ⟨txType', signedTx', hdecode, rfl, (pending_matches hpending).1.symm, hlower,
      hreport⟩, ?_⟩
    rintro ⟨_, _, _, _, _, _, hfails⟩
    obtain ⟨amount, hlog⟩ := hreport
    have hevents := List.append_cancel_left (hlog.symm.trans hfails)
    cases hevents
  · have hkept : after.state.sovereignWithdrawals wallet =
        before.state.sovereignWithdrawals wallet := by
      rw [hrequests]
      split
      · next hpending => exact Function.update_of_ne (fun hsender => hown ⟨hpending, hsender⟩) _ _
      · rfl
    exact ⟨fun hchanged => absurd hkept hchanged, fun _ => hkept⟩

/-- In a batch submitted after any run a request changes only with an entry, and an entry completes
the requests it changes exactly when it does not drop a request without moving money. -/
theorem completesRequests_iff (host : Host) (tokens : Tokens E) (submitter feeAccount : Address)
    (delay : Uint256) (env : E) (inputs : List (Input E)) (context : Context)
    (withdrawals : List Bytes) (final : World E)
    (hsubmit : submitWithdrawals host tokens context
      (run host tokens (start submitter feeAccount delay env) inputs) withdrawals = .ok final) :
    (∀ wallet, final.state.sovereignWithdrawals wallet ≠
        (run host tokens (start submitter feeAccount delay env) inputs).state.sovereignWithdrawals
          wallet →
      ∃ before withdrawal after, Processes host tokens context
          (run host tokens (start submitter feeAccount delay env) inputs) withdrawals before withdrawal
          after ∧
        before.state.sovereignWithdrawals wallet =
          (run host tokens (start submitter feeAccount delay env) inputs).state.sovereignWithdrawals
            wallet ∧
        after.state.sovereignWithdrawals wallet ≠ before.state.sovereignWithdrawals wallet) ∧
    ∀ before withdrawal after, Processes host tokens context
        (run host tokens (start submitter feeAccount delay env) inputs) withdrawals before withdrawal
        after →
      (CompletesRequests host before withdrawal after ↔
        ∀ txType signedTx, decodeWithdrawal host withdrawal = .ok (txType, signedTx) →
          ¬DropsRequest before.state txType signedTx) := by
  refine ⟨?_, ?_⟩
  · intro wallet hchanged
    obtain ⟨-, -, -, processed, hprocessed, rfl⟩ := submitWithdrawals_cases hsubmit
    obtain ⟨before, withdrawal, after, hreaches, hentry, hbefore, hafter⟩ :=
      exists_entry_of_ne (fun world => world.state.sovereignWithdrawals wallet) hprocessed hchanged
    exact ⟨before, withdrawal, after, ⟨⟨_, hsubmit⟩, hreaches, hentry⟩, hbefore,
      fun hsame => hafter (hsame.trans hbefore)⟩
  · intro before withdrawal after hprocesses
    constructor
    · intro hcompletes txType signedTx hdecode hdrops
      exact not_completesRequests hprocesses.executes hdecode hdrops hcompletes
    · exact completesRequests hprocesses.executes

/-! The wallet asks for its ten units, and the submitter answers with a fee of ten. -/

def burdenedHost : Host :=
  withdrawalHost (zeroSigned 1 0xa1 0 10 10) (zeroSignedTx 0xa1 0 10 10)
    0x3879ef54d83c61710dfe203e4dc5612e6b73c2b8d6e1c0d0e4cea881342d016a
    0xc76f42bf24b578976a917c74bbfda762c866128119c1a4a974dc73829aa93c43

theorem requested_completesRequests_iff : ∃ before withdrawal after,
    Processes requestedHost bookTokens ⟨0x5b, 3, 0x0e⟩
        (run requestedHost bookTokens bookStart requesting) [zeroSigned 0 0xa1 0 10 0] before
        withdrawal after ∧
      (CompletesRequests requestedHost before withdrawal after ↔
        ∀ txType signedTx, decodeWithdrawal requestedHost withdrawal = .ok (txType, signedTx) →
          ¬DropsRequest before.state txType signedTx) := by
  have hsubmit : (submitWithdrawals requestedHost bookTokens ⟨0x5b, 3, 0x0e⟩
      (run requestedHost bookTokens bookStart requesting)
      [zeroSigned 0 0xa1 0 10 0]).toOption.map (fun final => final.state.balances 0xa1 0) =
        some 0 := by
    decide +kernel
  obtain ⟨final, hfinal, -⟩ := exists_eq_ok hsubmit
  obtain ⟨after, hprocesses⟩ := processes_singleton hfinal
  exact ⟨_, _, after, hprocesses, (completesRequests_iff requestedHost bookTokens 0x5b 0xfe 86400 _
    requesting _ _ final hfinal).2 _ _ _ hprocesses⟩

/-- The withdrawal fails, and the request is gone with it. -/
theorem burdened_dropsRequest : ∃ after,
    Processes burdenedHost bookTokens ⟨0x5b, 3, 0x0e⟩
        (run burdenedHost bookTokens bookStart requesting) [zeroSigned 1 0xa1 0 10 10]
        (run burdenedHost bookTokens bookStart requesting) (zeroSigned 1 0xa1 0 10 10) after ∧
      ¬CompletesRequests burdenedHost (run burdenedHost bookTokens bookStart requesting)
        (zeroSigned 1 0xa1 0 10 10) after := by
  have hsubmit : (submitWithdrawals burdenedHost bookTokens ⟨0x5b, 3, 0x0e⟩
      (run burdenedHost bookTokens bookStart requesting)
      [zeroSigned 1 0xa1 0 10 10]).toOption.map (fun final => final.state.balances 0xa1 0) =
        some 10 := by
    decide +kernel
  have hdecode : decodeWithdrawal burdenedHost (zeroSigned 1 0xa1 0 10 10) =
      .ok (.withdrawAll, zeroSignedTx 0xa1 0 10 10) := by
    decide +kernel
  obtain ⟨final, hfinal, -⟩ := exists_eq_ok hsubmit
  obtain ⟨after, hprocesses⟩ := processes_singleton hfinal
  exact ⟨after, hprocesses, not_completesRequests hprocesses.executes hdecode (by decide +kernel)⟩

end Chainring.Evm.Exchange

import Chainring.Evm.ExchangeRequests
import Chainring.Evm.TokenBook

/-! Who can lower a balance of the exchange by a batch of withdrawals: its wallet, by a signature or
by a request that stands. The entries that escape this are those that match the empty record of a
wallet without a request. -/

namespace Chainring.Evm.Exchange

open CheckedWord (exists_eq_ok)

variable {E : Type} {host : Host} {tokens : Tokens E}

/-- The sender of an entry signed it, or has asked for it by a request that still stands. -/
def Authorized (host : Host) (tokens : Tokens E) (origin : World E) (inputs : List (Input E))
    (before : World E) (txType : TransactionType) (signedTx : WithdrawWithSignature) : Prop :=
  let request := before.state.sovereignWithdrawals signedTx.tx.sender
  SignedBySender host before.state txType signedTx ∨
    (request.timestamp ≠ 0 ∧
      StandsSinceRequested host tokens origin inputs signedTx.tx.sender request ∧
      request.token = signedTx.tx.token ∧
      (request.amount = signedTx.tx.amount ∨ request.amount = 0 ∧ txType = .withdrawAll))

/-- An entry lowers no balance but that of its sender in its token, and only when authorized. -/
def LowersOnlyAuthorized (host : Host) (tokens : Tokens E) (origin : World E)
    (inputs : List (Input E)) (before : World E) (withdrawal : Bytes) (after : World E) : Prop :=
  ∀ wallet token, after.state.balances wallet token < before.state.balances wallet token →
    ∃ txType signedTx, decodeWithdrawal host withdrawal = .ok (txType, signedTx) ∧
      wallet = signedTx.tx.sender ∧ token = signedTx.tx.token ∧
      Authorized host tokens origin inputs before txType signedTx

/-- The entry moves money on the strength of a record that is no request. -/
def TakesAbsentRequest (host : Host) (state : State) (txType : TransactionType)
    (signedTx : WithdrawWithSignature) : Prop :=
  pendingSovereignWithdrawal state txType signedTx = true ∧
    (state.sovereignWithdrawals signedTx.tx.sender).timestamp = 0 ∧
    MovesMoney state txType signedTx.tx ∧ ¬SignedBySender host state txType signedTx

theorem pending_matches {state : State} {txType : TransactionType} {signedTx : WithdrawWithSignature}
    (h : pendingSovereignWithdrawal state txType signedTx = true) :
    (state.sovereignWithdrawals signedTx.tx.sender).token = signedTx.tx.token ∧
      ((state.sovereignWithdrawals signedTx.tx.sender).amount = signedTx.tx.amount ∨
        (state.sovereignWithdrawals signedTx.tx.sender).amount = 0 ∧ txType = .withdrawAll) := by
  simp only [pendingSovereignWithdrawal, isPendingSovereignWithdrawal, Bool.and_eq_true,
    Bool.or_eq_true, beq_iff_eq] at h
  exact ⟨h.2.2, h.2.1⟩

theorem not_lowersOnlyAuthorized {origin before after : World E} {inputs : List (Input E)}
    {withdrawal : Bytes} {txType : TransactionType} {signedTx : WithdrawWithSignature}
    (hentry : submitWithdrawal host tokens before withdrawal = .ok after)
    (hdecode : decodeWithdrawal host withdrawal = .ok (txType, signedTx))
    (htakes : TakesAbsentRequest host before.state txType signedTx) :
    ¬LowersOnlyAuthorized host tokens origin inputs before withdrawal after := by
  intro hauthorized
  obtain ⟨hpending, hinactive, hmoves, hunsigned⟩ := htakes
  have hlower := (submitWithdrawal_lowers_iff hentry hdecode signedTx.tx.sender signedTx.tx.token).mpr
    ⟨⟨rfl, rfl⟩, hmoves, Or.inl hpending⟩
  obtain ⟨txType', signedTx', hdecode', -, -, hreason⟩ := hauthorized _ _ hlower
  obtain ⟨rfl, rfl⟩ := Prod.mk.inj (Except.ok.inj (hdecode'.symm.trans hdecode))
  rcases hreason with hsigned | ⟨hactive, -⟩
  · exact hunsigned hsigned
  · exact hactive hinactive

/-- An entry of a batch submitted after any run lowers only balances whose wallet authorized it,
exactly when it does not move money on the strength of a record that is no request. -/
theorem lowersOnlyAuthorized_iff (host : Host) (tokens : Tokens E) (submitter feeAccount : Address)
    (delay : Uint256) (env : E) (inputs : List (Input E)) (context : Context)
    (withdrawals : List Bytes) (before after : World E) (withdrawal : Bytes)
    (hprocesses : Processes host tokens context
      (run host tokens (start submitter feeAccount delay env) inputs) withdrawals before withdrawal
      after) :
    LowersOnlyAuthorized host tokens (start submitter feeAccount delay env) inputs before withdrawal
        after ↔
      ∀ txType signedTx, decodeWithdrawal host withdrawal = .ok (txType, signedTx) →
        ¬TakesAbsentRequest host before.state txType signedTx := by
  constructor
  · intro hauthorized txType signedTx hdecode htakes
    exact not_lowersOnlyAuthorized hprocesses.executes hdecode htakes hauthorized
  · intro hpresent wallet token hlower
    obtain ⟨txType, signedTx, hdecode, -⟩ := submitWithdrawal_cases hprocesses.executes
    obtain ⟨⟨rfl, rfl⟩, hmoves, hreason⟩ :=
      (submitWithdrawal_lowers_iff hprocesses.executes hdecode wallet token).mp hlower
    refine ⟨txType, signedTx, hdecode, rfl, rfl, ?_⟩
    by_cases hsigned : SignedBySender host before.state txType signedTx
    · exact Or.inl hsigned
    · have hpending := hreason.resolve_right hsigned
      have hactive : (before.state.sovereignWithdrawals signedTx.tx.sender).timestamp ≠ 0 :=
        fun hinactive => hpresent txType signedTx hdecode ⟨hpending, hinactive, hmoves, hsigned⟩
      obtain ⟨earlier, later, -, hearlier⟩ := hprocesses.reaches
      have hkept := (processed_requests hearlier signedTx.tx.sender).resolve_right
        fun habsent => hactive (congrArg SovereignWithdrawal.timestamp habsent)
      refine Or.inr ⟨hactive, ?_, pending_matches hpending⟩
      rw [hkept] at hactive ⊢
      exact stands_of_active host tokens submitter feeAccount delay env inputs _ hactive

/-! The first wallet deposits ten units of the native currency. It then asks to withdraw them, or it
does not and the submitter withdraws nine as the fee. -/

def depositing : List (Input Book) := [.call ⟨0xa1, 1, 0x0e⟩ (.receive 10)]

def requesting : List (Input Book) :=
  depositing ++ [.call ⟨0xa1, 2, 0x0e⟩ (.sovereignWithdrawal 0 10)]

def bookStart : World Book := start 0x5b 0xfe 86400 fun _ _ => 10

def requestedHost : Host :=
  withdrawalHost (zeroSigned 0 0xa1 0 10 0) (zeroSignedTx 0xa1 0 10 0)
    0xc08fdd004241642f1c51033364a028336501015855c5a9857985dd334f4badac
    0xe08fb7729c466aa5a9ff5a8a63cf9f5f4dd2d09d8d1cf685005af53381bc23c6

def forgedHost : Host :=
  withdrawalHost (zeroSigned 1 0xa1 0 10 9) (zeroSignedTx 0xa1 0 10 9)
    0x5514d98e2e29c4616f7703b4bd53e1fcc2b6241c5033340ee928501a682a2af7
    0xd7bac83288575d5a0d2b793096fda5c30abecfc2680587583ad4cb4f3a28525f

/-- The request stands, so its entry takes the wallet's money rightly. -/
theorem requested_lowersOnlyAuthorized_iff : ∃ after,
    Processes requestedHost bookTokens ⟨0x5b, 3, 0x0e⟩ (run requestedHost bookTokens bookStart requesting)
        [zeroSigned 0 0xa1 0 10 0] (run requestedHost bookTokens bookStart requesting)
        (zeroSigned 0 0xa1 0 10 0) after ∧
      (LowersOnlyAuthorized requestedHost bookTokens bookStart requesting
          (run requestedHost bookTokens bookStart requesting) (zeroSigned 0 0xa1 0 10 0) after ↔
        ∀ txType signedTx,
          decodeWithdrawal requestedHost (zeroSigned 0 0xa1 0 10 0) = .ok (txType, signedTx) →
          ¬TakesAbsentRequest requestedHost (run requestedHost bookTokens bookStart requesting).state
            txType signedTx) ∧
      LowersOnlyAuthorized requestedHost bookTokens bookStart requesting
        (run requestedHost bookTokens bookStart requesting) (zeroSigned 0 0xa1 0 10 0) after := by
  have hsubmit : (submitWithdrawals requestedHost bookTokens ⟨0x5b, 3, 0x0e⟩
      (run requestedHost bookTokens bookStart requesting)
      [zeroSigned 0 0xa1 0 10 0]).toOption.map (fun final => final.state.balances 0xa1 0) =
        some 0 := by
    decide +kernel
  obtain ⟨final, hfinal, -⟩ := exists_eq_ok hsubmit
  obtain ⟨after, hprocesses⟩ := processes_singleton hfinal
  have hiff := lowersOnlyAuthorized_iff requestedHost bookTokens 0x5b 0xfe 86400 _ requesting _ _ _
    after _ hprocesses
  refine ⟨after, hprocesses, hiff, hiff.mpr fun txType signedTx hdecode htakes => ?_⟩
  have hdecoded : decodeWithdrawal requestedHost (zeroSigned 0 0xa1 0 10 0) =
      .ok (.withdraw, zeroSignedTx 0xa1 0 10 0) := by
    decide +kernel
  have hactive : ((run requestedHost bookTokens bookStart requesting).state.sovereignWithdrawals
      0xa1).timestamp ≠ 0 := by
    decide +kernel
  obtain ⟨-, rfl⟩ := Prod.mk.inj (Except.ok.inj (hdecode.symm.trans hdecoded))
  exact hactive htakes.2.1

/-- Without a signature and without a request the submitter takes the wallet's money as a fee. -/
theorem forged_lowersUnauthorized : ∃ after,
    Processes forgedHost bookTokens ⟨0x5b, 2, 0x0e⟩ (run forgedHost bookTokens bookStart depositing)
        [zeroSigned 1 0xa1 0 10 9] (run forgedHost bookTokens bookStart depositing)
        (zeroSigned 1 0xa1 0 10 9) after ∧
      ¬LowersOnlyAuthorized forgedHost bookTokens bookStart depositing
        (run forgedHost bookTokens bookStart depositing) (zeroSigned 1 0xa1 0 10 9) after := by
  have hsubmit : (submitWithdrawals forgedHost bookTokens ⟨0x5b, 2, 0x0e⟩
      (run forgedHost bookTokens bookStart depositing)
      [zeroSigned 1 0xa1 0 10 9]).toOption.map (fun final => final.state.balances 0xfe 0) =
        some 9 := by
    decide +kernel
  have hdecode : decodeWithdrawal forgedHost (zeroSigned 1 0xa1 0 10 9) =
      .ok (.withdrawAll, zeroSignedTx 0xa1 0 10 9) := by
    decide +kernel
  obtain ⟨final, hfinal, -⟩ := exists_eq_ok hsubmit
  obtain ⟨after, hprocesses⟩ := processes_singleton hfinal
  refine ⟨after, hprocesses, not_lowersOnlyAuthorized hprocesses.executes hdecode
    ⟨by decide +kernel, by decide +kernel, by decide +kernel, ?_⟩⟩
  rintro ⟨recovered, hrecovered, -⟩
  cases hrecovered

end Chainring.Evm.Exchange

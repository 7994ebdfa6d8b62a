import Chainring.Evm.CoinProxyRun

/-! Taking a batch of withdrawals back. The rollback gives the amounts back and takes the fees back from the
fee account in the order of the batch, so that it meets balances that the batch never had; where it goes
through, every balance is what it was. -/

namespace Chainring.Evm.CoinProxy

open Ledger (Entry)
open Balances (Slot slots wordModulus)
open CheckedWord (bind_eq_ok exists_eq_ok errorOf errorOf_eq_some)

variable {host : Host} {context : Context} {world next : World} {data : Bytes}

/-! ### What the batch posted -/

/-- Every withdrawal logs one event, and one that succeeds posts its entries. -/
theorem withdraw_log {withdrawal : Withdrawal} (h : withdraw world withdrawal = .ok next) :
    next.state.feeAccount = world.state.feeAccount ∧ ∃ event, next.log = world.log ++ [event] ∧
      (event = withdrawal.succeeded →
        Ledger.run .reverts wordModulus (slots world.state.balances)
          (withdrawal.entries world.state.feeAccount) = some (slots next.state.balances)) := by
  rcases withdraw_cases h with ⟨event, hreports, rfl⟩ | ⟨hrun, hnext⟩
  · refine ⟨rfl, event, rfl, fun hsucceeded => ?_⟩
    rcases hreports with ⟨-, rfl⟩ | ⟨-, -, rfl⟩ <;> cases hsucceeded
  · rw [hnext]
    exact ⟨rfl, withdrawal.succeeded, rfl, fun _ => hrun⟩

theorem withdrawals_log {withdrawals : List Withdrawal} (h : withdrawals.foldlM withdraw world = .ok next) :
    ∃ events, next.log = world.log ++ events ∧ events.length = withdrawals.length := by
  induction withdrawals generalizing world with
  | nil =>
      cases h
      exact ⟨[], (List.append_nil _).symm, rfl⟩
  | cons withdrawal withdrawals ih =>
      rw [List.foldlM_cons] at h
      obtain ⟨middle, hmiddle, hrest⟩ := bind_eq_ok.mp h
      obtain ⟨-, event, hevent, -⟩ := withdraw_log hmiddle
      obtain ⟨events, hevents, hlength⟩ := ih hrest
      refine ⟨event :: events, ?_, congrArg (· + 1) hlength⟩
      rw [hevents, hevent, List.append_assoc]
      rfl

/-- Withdrawals that all succeed post their entries one after the other. -/
theorem withdrawals_post {withdrawals : List Withdrawal} (h : withdrawals.foldlM withdraw world = .ok next)
    (hsucceeded : next.log = world.log ++ withdrawals.map Withdrawal.succeeded) :
    next.state.feeAccount = world.state.feeAccount ∧
      Ledger.run .reverts wordModulus (slots world.state.balances)
        (withdrawals.flatMap (Withdrawal.entries world.state.feeAccount)) =
          some (slots next.state.balances) := by
  induction withdrawals generalizing world with
  | nil =>
      cases h
      exact ⟨rfl, rfl⟩
  | cons withdrawal withdrawals ih =>
      rw [List.foldlM_cons] at h
      obtain ⟨middle, hmiddle, hrest⟩ := bind_eq_ok.mp h
      obtain ⟨hfeeAccount, event, hevent, hposts⟩ := withdraw_log hmiddle
      obtain ⟨events, hevents, -⟩ := withdrawals_log hrest
      have hlogs : event :: events = withdrawal.succeeded :: withdrawals.map Withdrawal.succeeded := by
        rw [hevents, hevent, List.append_assoc, List.append_cancel_left_eq] at hsucceeded
        exact hsucceeded
      obtain ⟨hfirst, hothers⟩ := List.cons.inj hlogs
      rw [hothers] at hevents
      obtain ⟨hkept, hrun⟩ := ih hrest hevents
      rw [hfeeAccount] at hkept hrun
      refine ⟨hkept, ?_⟩
      rw [List.flatMap_cons, Ledger.run_append, hposts hfirst]
      exact hrun

/-! ### When the rollback goes through -/

theorem rollbackWithdraw_isOk {withdrawal : Withdrawal} :
    (∃ next, rollbackWithdraw world withdrawal = .ok next) ↔
      (Ledger.run .reverts wordModulus (slots world.state.balances)
        (withdrawal.rollbackEntries world.state.feeAccount)).isSome := by
  constructor
  · rintro ⟨next, h⟩
    rw [(rollbackWithdraw_cases h).1]
    rfl
  · intro h
    rw [Withdrawal.rollbackEntries, List.append_assoc] at h
    obtain ⟨_, hcredit, h⟩ := (Ledger.isSome_append .reverts wordModulus).mp h
    obtain ⟨credited, hcredited⟩ := Balances.increase_isOk.mpr (Option.isSome_of_eq_some hcredit)
    rw [Ledger.run_singleton, Balances.post_increase hcredited] at hcredit
    obtain rfl := Option.some.inj hcredit
    obtain ⟨_, hrefund, h⟩ := (Ledger.isSome_append .reverts wordModulus).mp h
    have hrefunded : ∃ refunded, (if withdrawal.feeAmount > 0 ∧ withdrawal.token ≠ 0 then
        credited.increase withdrawal.sender 0 withdrawal.feeAmount else .ok credited) = .ok refunded ∧
        (Ledger.run .reverts wordModulus (slots refunded)
          [.debit (world.state.feeAccount, 0) withdrawal.feeAmount.toNat]).isSome := by
      by_cases hseparate : withdrawal.SeparateFee
      · rw [if_pos hseparate] at hrefund
        obtain ⟨refunded, hrefunded⟩ := Balances.increase_isOk.mpr (Option.isSome_of_eq_some hrefund)
        rw [Ledger.run_singleton, Balances.post_increase hrefunded] at hrefund
        obtain rfl := Option.some.inj hrefund
        exact ⟨refunded, (if_pos hseparate).trans hrefunded, h⟩
      · rw [if_neg hseparate] at hrefund
        obtain rfl := Option.some.inj hrefund
        exact ⟨credited, if_neg hseparate, h⟩
    obtain ⟨refunded, hrefunded, h⟩ := hrefunded
    obtain ⟨debited, hdebited⟩ := Balances.decrease_isOk.mpr h
    refine ⟨(world.setBalances debited).emit withdrawal.rolledBack, bind_eq_ok.mpr ⟨credited, hcredited, ?_⟩⟩
    dsimp only
    split at hrefunded
    · next hseparate =>
        rw [if_pos hseparate]
        exact bind_eq_ok.mpr ⟨refunded, hrefunded, bind_eq_ok.mpr ⟨debited, hdebited, rfl⟩⟩
    · next hincluded =>
        rw [if_neg hincluded]
        exact bind_eq_ok.mpr ⟨refunded, hrefunded, bind_eq_ok.mpr ⟨debited, hdebited, rfl⟩⟩

theorem rollbacks_post {withdrawals : List Withdrawal}
    (h : withdrawals.foldlM rollbackWithdraw world = .ok next) :
    Ledger.run .reverts wordModulus (slots world.state.balances)
      (withdrawals.flatMap (Withdrawal.rollbackEntries world.state.feeAccount)) =
        some (slots next.state.balances) := by
  induction withdrawals generalizing world with
  | nil =>
      cases h
      rfl
  | cons withdrawal withdrawals ih =>
      rw [List.foldlM_cons] at h
      obtain ⟨middle, hmiddle, hrest⟩ := bind_eq_ok.mp h
      obtain ⟨hrun, hmiddleWorld⟩ := rollbackWithdraw_cases hmiddle
      have hfeeAccount : middle.state.feeAccount = world.state.feeAccount := by
        rw [hmiddleWorld]
        rfl
      rw [List.flatMap_cons, Ledger.run_append, hrun, ← hfeeAccount]
      exact ih hrest

theorem rollbacks_isOk {withdrawals : List Withdrawal} :
    (∃ next, withdrawals.foldlM rollbackWithdraw world = .ok next) ↔
      (Ledger.run .reverts wordModulus (slots world.state.balances)
        (withdrawals.flatMap (Withdrawal.rollbackEntries world.state.feeAccount))).isSome := by
  constructor
  · rintro ⟨next, h⟩
    rw [rollbacks_post h]
    rfl
  · intro h
    induction withdrawals generalizing world with
    | nil => exact ⟨world, rfl⟩
    | cons withdrawal withdrawals ih =>
        rw [List.flatMap_cons] at h
        obtain ⟨balances, hfirst, hothers⟩ := (Ledger.isSome_append .reverts wordModulus).mp h
        obtain ⟨middle, hmiddle⟩ := rollbackWithdraw_isOk.mpr (Option.isSome_of_eq_some hfirst)
        obtain ⟨hrun, hmiddleWorld⟩ := rollbackWithdraw_cases hmiddle
        have hfeeAccount : middle.state.feeAccount = world.state.feeAccount := by
          rw [hmiddleWorld]
          rfl
        obtain rfl := Option.some.inj (hfirst.symm.trans hrun)
        rw [← hfeeAccount] at hothers
        obtain ⟨next, hnext⟩ := ih hothers
        exact ⟨next, by rw [List.foldlM_cons]; exact bind_eq_ok.mpr ⟨middle, hmiddle, hnext⟩⟩

/-! ### There and back -/

theorem credited_rollbackEntries (feeAccount : Address) (withdrawal : Withdrawal) (slot : Slot) :
    Ledger.credited (withdrawal.rollbackEntries feeAccount) slot =
        Ledger.debited (withdrawal.entries feeAccount) slot ∧
      Ledger.debited (withdrawal.rollbackEntries feeAccount) slot =
        Ledger.credited (withdrawal.entries feeAccount) slot := by
  unfold Withdrawal.rollbackEntries Withdrawal.entries
  by_cases hseparate : withdrawal.SeparateFee
  · rw [if_pos hseparate, if_pos hseparate]
    simp [Ledger.credited, Ledger.debited, Entry.creditTo, Entry.debitTo, Nat.add_comm]
  · rw [if_neg hseparate, if_neg hseparate]
    simp [Ledger.credited, Ledger.debited, Entry.creditTo, Entry.debitTo]

theorem credited_rollback (feeAccount : Address) (withdrawals : List Withdrawal) (slot : Slot) :
    Ledger.credited (withdrawals.flatMap (Withdrawal.rollbackEntries feeAccount)) slot =
        Ledger.debited (withdrawals.flatMap (Withdrawal.entries feeAccount)) slot ∧
      Ledger.debited (withdrawals.flatMap (Withdrawal.rollbackEntries feeAccount)) slot =
        Ledger.credited (withdrawals.flatMap (Withdrawal.entries feeAccount)) slot := by
  induction withdrawals with
  | nil => exact ⟨rfl, rfl⟩
  | cons withdrawal withdrawals ih =>
      obtain ⟨hcredited, hdebited⟩ := credited_rollbackEntries feeAccount withdrawal slot
      simp only [List.flatMap_cons, Ledger.credited_append, Ledger.debited_append]
      rw [ih.1, ih.2, hcredited, hdebited]
      exact ⟨rfl, rfl⟩

/-- After a batch of withdrawals that all succeeded, the rollback of the same withdrawals goes through and
restores every balance exactly when, from the balances before the batch, its entries and then those of the
rollback in its order are covered and stay within the word. -/
theorem rollbackBatch_inverts_iff (host : Host) (context context' : Context) (world withdrawn : World)
    (data rollbackData : Bytes) (batch : BatchDepositAndWithdrawal)
    (hdecode : host.decodeBatchDepositAndWithdrawal data = some batch)
    (hrollback : host.decodeBatchWithdrawalRollback rollbackData = some ⟨batch.withdrawals⟩)
    (hdeposits : batch.deposits = [])
    (hsubmit : submitDepositAndWithdrawalBatch host context world data = .ok withdrawn)
    (hsucceeded : withdrawn.log = world.log ++ batch.withdrawals.map Withdrawal.succeeded)
    (hsender : context'.sender = withdrawn.state.submitter) :
    (∃ restored, rollbackWithdrawalBatch host context' withdrawn rollbackData = .ok restored ∧
        restored.state.balances = world.state.balances) ↔
      Ledger.Covered wordModulus (slots world.state.balances)
          (batch.withdrawals.flatMap (Withdrawal.entries world.state.feeAccount) ++
            batch.withdrawals.flatMap (Withdrawal.rollbackEntries world.state.feeAccount)) ∧
        Ledger.Fits wordModulus (slots world.state.balances)
          (batch.withdrawals.flatMap (Withdrawal.entries world.state.feeAccount) ++
            batch.withdrawals.flatMap (Withdrawal.rollbackEntries world.state.feeAccount)) := by
  obtain ⟨-, -, -, submitted, deposited, reached, hsubmitted, hdeposited, hreached, rfl⟩ :=
    submitDepositAndWithdrawalBatch_cases hsubmit
  obtain rfl := Option.some.inj (hsubmitted.symm.trans hdecode)
  rw [hdeposits] at hdeposited
  cases hdeposited
  obtain ⟨hfeeAccount, hrun⟩ := withdrawals_post hreached hsucceeded
  rw [← Ledger.run_reverts_isSome_iff wordModulus (Nat.two_pow_pos _) (Balances.slots_lt _),
    Ledger.run_append, hrun, Option.bind_some]
  have hback := @rollbacks_isOk { reached with
    state := { reached.state with lastDepositAndWithdrawBatchHash := host.keccak256 data } } submitted.withdrawals
  rw [show Withdrawal.rollbackEntries world.state.feeAccount =
    Withdrawal.rollbackEntries reached.state.feeAccount by rw [hfeeAccount]]
  refine Iff.trans ?_ hback
  constructor
  · rintro ⟨restored, hrestored, -⟩
    obtain ⟨-, rolledBack, hrolledBack, hloop⟩ := rollbackWithdrawalBatch_cases hrestored
    obtain rfl := Option.some.inj (hrolledBack.symm.trans hrollback)
    exact ⟨restored, hloop⟩
  · rintro ⟨restored, hloop⟩
    refine ⟨restored, ?_, ?_⟩
    · apply bind_eq_ok.mpr ⟨(), require_eq_ok.mpr hsender, ?_⟩
      exact bind_eq_ok.mpr ⟨_, orRevert_eq_ok.mpr hrollback, hloop⟩
    · have hrestored := rollbacks_post hloop
      funext wallet token
      apply BitVec.eq_of_toNat_eq
      obtain ⟨_, hthere, hexact⟩ := Ledger.run_balance .reverts wordModulus hrun (wallet, token)
      obtain ⟨_, hagain, hexact'⟩ := Ledger.run_balance .reverts wordModulus hrestored (wallet, token)
      obtain ⟨hcredited, hdebited⟩ :=
        credited_rollback reached.state.feeAccount submitted.withdrawals (wallet, token)
      rw [hexact rfl] at hthere
      rw [hexact' rfl, hcredited, hdebited, hfeeAccount] at hagain
      simp only [slots] at hthere hagain
      omega

/-! The wallet's ten native units are withdrawn in part, or in full with all of them as the fee, which the
fee account withdraws in its turn. -/

def tenNative : BatchDepositAndWithdrawal where
  deposits := [{ sequence := 1, sender := 0xa1, token := 0, amount := 10 }]
  withdrawals := []

def sixNative : BatchDepositAndWithdrawal where
  deposits := []
  withdrawals := [{ sender := 0xa1, token := 0, amount := 6, sequence := 1, feeAmount := 1 }]

def feeSpent : BatchDepositAndWithdrawal where
  deposits := []
  withdrawals := [{ sender := 0xa1, token := 0, amount := 10, sequence := 1, feeAmount := 10 },
    { sender := 0xfe, token := 0, amount := 10, sequence := 2, feeAmount := 0 }]

def nativeHost : Host :=
  ledgerHost
    [(tenNative.encode, 0x3230fbcb3217c6ecd6141596f0f3aa676d634bdb53ecf3963468df0abf2eccf6),
      (sixNative.encode, 0xeecdc05f38494f60a58d2c819dc2200e9bbe1e8a63faaae07621cb46a26dcb34),
      (feeSpent.encode, 0x0a896fe1286a6469a9e3a5d90e949c04bba33f2bf224b9f9f810ea9685223222)]
    [tenNative, sixNative, feeSpent] []

def nativeWorld : World :=
  run nativeHost (start 0x5b 0xfe) [⟨⟨0x5b, 0x0e⟩, .submitDepositAndWithdrawalBatch tenNative.encode⟩]

theorem sixNative_inverts : ∃ withdrawn restored,
    submitDepositAndWithdrawalBatch nativeHost ⟨0x5b, 0x0e⟩ nativeWorld sixNative.encode = .ok withdrawn ∧
      rollbackWithdrawalBatch nativeHost ⟨0x5b, 0x0e⟩ withdrawn
        (BatchWithdrawalRollback.mk sixNative.withdrawals).encode = .ok restored ∧
      restored.state.balances = nativeWorld.state.balances := by
  have hrun : (submitDepositAndWithdrawalBatch nativeHost ⟨0x5b, 0x0e⟩ nativeWorld
      sixNative.encode).toOption.map (fun withdrawn =>
        (decide (withdrawn.log = nativeWorld.log ++ sixNative.withdrawals.map Withdrawal.succeeded),
          withdrawn.state.submitter == 0x5b)) = some (true, true) := by
    decide +kernel
  have hgoes : (Ledger.run .reverts wordModulus (slots nativeWorld.state.balances)
      (sixNative.withdrawals.flatMap (Withdrawal.entries nativeWorld.state.feeAccount) ++
        sixNative.withdrawals.flatMap (Withdrawal.rollbackEntries nativeWorld.state.feeAccount))).isSome := by
    decide +kernel
  obtain ⟨withdrawn, hwithdrawn, hvalues⟩ := exists_eq_ok hrun
  simp only [Prod.mk.injEq, decide_eq_true_eq, beq_iff_eq] at hvalues
  obtain ⟨restored, hrestored, hbalances⟩ := (rollbackBatch_inverts_iff nativeHost ⟨0x5b, 0x0e⟩ ⟨0x5b, 0x0e⟩
    nativeWorld withdrawn sixNative.encode (BatchWithdrawalRollback.mk sixNative.withdrawals).encode sixNative
    (by decide +kernel) (by decide +kernel) rfl hwithdrawn hvalues.1 hvalues.2.symm).mpr
    ((Ledger.run_reverts_isSome_iff wordModulus (Nat.two_pow_pos _) (Balances.slots_lt _)).mp hgoes)
  exact ⟨withdrawn, restored, hwithdrawn, hrestored, hbalances⟩

/-- Both withdrawals succeed, and the rollback cannot take back a fee that has been spent. -/
theorem feeSpent_reverts : ∃ withdrawn,
    submitDepositAndWithdrawalBatch nativeHost ⟨0x5b, 0x0e⟩ nativeWorld feeSpent.encode = .ok withdrawn ∧
      withdrawn.log = nativeWorld.log ++ feeSpent.withdrawals.map Withdrawal.succeeded ∧
      rollbackWithdrawalBatch nativeHost ⟨0x5b, 0x0e⟩ withdrawn
        (BatchWithdrawalRollback.mk feeSpent.withdrawals).encode = .error .arithmeticPanic := by
  have hrun : (submitDepositAndWithdrawalBatch nativeHost ⟨0x5b, 0x0e⟩ nativeWorld
      feeSpent.encode).toOption.map (fun withdrawn =>
        (decide (withdrawn.log = nativeWorld.log ++ feeSpent.withdrawals.map Withdrawal.succeeded),
          errorOf (rollbackWithdrawalBatch nativeHost ⟨0x5b, 0x0e⟩ withdrawn
            (BatchWithdrawalRollback.mk feeSpent.withdrawals).encode))) = some (true, some .arithmeticPanic) := by
    decide +kernel
  obtain ⟨withdrawn, hwithdrawn, hvalues⟩ := exists_eq_ok hrun
  simp only [Prod.mk.injEq, decide_eq_true_eq] at hvalues
  obtain ⟨hsucceeded, hreverts⟩ := hvalues
  exact ⟨withdrawn, hwithdrawn, hsucceeded, errorOf_eq_some.mp hreverts⟩

end Chainring.Evm.CoinProxy

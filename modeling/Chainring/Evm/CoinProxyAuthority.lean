import Chainring.Evm.CoinProxyLedger
import Chainring.Evm.CoinProxyReplay
import Chainring.Evm.ExchangeAuthority

/-! Who can lower a balance of the coin proxy. Wallets make no calls of their own there: every balance that goes
down was lowered by the submitter of the time, which `initialize` or the owner appointed, in a batch that names the
wallet. -/

namespace Chainring.Evm.CoinProxy

open Balances (Slot slots wordModulus)
open CheckedWord (bind_eq_ok)
open Exchange (DecrementOf decrementOf_of_lowers)
open Ledger (Entry)

/-- The contract has had the submitter from the start, or the owner set it in an earlier call and it stayed. -/
def Appointed (host : Host) (origin : World) (inputs : List Input) (n : Nat) (submitter : Address) : Prop :=
  (∀ k ≤ n, (worldAt host origin inputs k).state.submitter = submitter) ∨
    ∃ j < n, ∃ context, inputs[j]? = some ⟨context, .setSubmitter submitter⟩ ∧ context.sender = context.owner ∧
      submitter ≠ 0 ∧ ∀ k, j < k → k ≤ n → (worldAt host origin inputs k).state.submitter = submitter

/-- The withdrawal is of the wallet, in the token or with its fee on top in the native currency. -/
def Withdrawal.TakesFrom (withdrawal : Withdrawal) (wallet token : Address) : Prop :=
  withdrawal.sender = wallet ∧ (withdrawal.token = token ∨ withdrawal.SeparateFee ∧ token = 0)

/-- The call is a batch that names the wallet. A rollback takes back what the fee account got. -/
def MayLower (host : Host) (world : World) (call : Call) (wallet token : Address) : Prop :=
  (∃ data batch, call = .submitDepositAndWithdrawalBatch data ∧
      host.decodeBatchDepositAndWithdrawal data = some batch ∧
      ∃ withdrawal ∈ batch.withdrawals, withdrawal.TakesFrom wallet token) ∨
    (∃ data batch, call = .rollbackWithdrawalBatch data ∧ host.decodeBatchWithdrawalRollback data = some batch ∧
      wallet = world.state.feeAccount ∧ token = 0 ∧ ∃ withdrawal ∈ batch.withdrawals, withdrawal.feeAmount ≠ 0) ∨
    ∃ data batchSettlement, call = .submitSettlementBatch data ∧ world.state.batchHash = host.keccak256 data ∧
      host.decodeBatchSettlement data = some batchSettlement ∧ DecrementOf batchSettlement wallet token

/-! ### One call -/

section Calls

variable {host : Host} {context : Context} {world next : World} {wallet token : Address}

/-- Entries that debit nothing from a slot do not lower it. -/
theorem Posts.le_of_debited {entries : List (Entry Slot)} {event : Event} (h : Posts world entries event next)
    (hnone : ∀ entry ∈ entries, entry.debitTo (wallet, token) = 0) :
    world.state.balances wallet token ≤ next.state.balances wallet token := by
  obtain ⟨lost, hbalance, hlost⟩ := Ledger.run_balance .reverts wordModulus h.1 (wallet, token)
  rw [hlost rfl, Ledger.debited_eq_zero hnone] at hbalance
  rw [BitVec.le_def]
  exact Nat.le.intro hbalance

theorem submitDeposit_le {deposit : Deposit} (h : submitDeposit world deposit = .ok next) :
    world.state.balances wallet token ≤ next.state.balances wallet token := by
  apply (submitDeposit_cases h).le_of_debited
  intro entry hentry
  rw [List.mem_singleton.mp hentry]
  rfl

theorem withdraw_takesFrom {withdrawal : Withdrawal} (h : withdraw world withdrawal = .ok next)
    (hlower : next.state.balances wallet token < world.state.balances wallet token) :
    withdrawal.TakesFrom wallet token := by
  rcases withdraw_cases h with ⟨event, -, rfl⟩ | hposts
  · exact absurd hlower (BitVec.lt_irrefl _)
  · by_contra hother
    refine absurd (hposts.le_of_debited fun entry hentry => ?_) (BitVec.not_le.mpr hlower)
    rw [Withdrawal.entries, List.mem_append] at hentry
    rcases hentry with hfee | hamount
    · split at hfee
      · next hseparate =>
          rw [List.mem_singleton.mp hfee]
          refine if_neg fun hslot => ?_
          obtain ⟨hwallet, htoken⟩ := Prod.mk.inj hslot
          exact hother ⟨hwallet, Or.inr ⟨hseparate, htoken.symm⟩⟩
      · cases hfee
    · rcases List.mem_pair.mp hamount with rfl | rfl
      · refine if_neg fun hslot => ?_
        obtain ⟨hwallet, htoken⟩ := Prod.mk.inj hslot
        exact hother ⟨hwallet, Or.inl htoken⟩
      · rfl

theorem rollbackWithdraw_takesFee {withdrawal : Withdrawal} (h : rollbackWithdraw world withdrawal = .ok next)
    (hlower : next.state.balances wallet token < world.state.balances wallet token) :
    wallet = world.state.feeAccount ∧ token = 0 ∧ withdrawal.feeAmount ≠ 0 := by
  by_contra hother
  refine absurd ((rollbackWithdraw_cases h).le_of_debited fun entry hentry => ?_) (BitVec.not_le.mpr hlower)
  rw [Withdrawal.rollbackEntries, List.mem_append, List.mem_append] at hentry
  rcases hentry with (hamount | hfee) | hreturned
  · rw [List.mem_singleton.mp hamount]
    rfl
  · split at hfee
    · rw [List.mem_singleton.mp hfee]
      rfl
    · cases hfee
  · rw [List.mem_singleton.mp hreturned, Entry.debitTo]
    split
    · next hslot =>
        obtain ⟨hwallet, htoken⟩ := Prod.mk.inj hslot
        by_contra hfee
        exact hother ⟨hwallet.symm, htoken.symm, fun hzero => hfee (by rw [hzero]; rfl)⟩
    · rfl

/-- A balance that a loop lowers was lowered by one of its items, in a world that the loop reached. -/
theorem exists_item_lowering {α : Type} {body : World → α → Except Revert World} {I : World → Prop}
    (hbody : ∀ before item after, I before → body before item = .ok after → I after) {items : List α} (hworld : I world)
    (h : items.foldlM body world = .ok next)
    (hlower : next.state.balances wallet token < world.state.balances wallet token) :
    ∃ item ∈ items, ∃ before after, I before ∧ body before item = .ok after ∧
      after.state.balances wallet token < before.state.balances wallet token := by
  induction items generalizing world with
  | nil =>
      cases h
      exact absurd hlower (BitVec.lt_irrefl _)
  | cons item items ih =>
      rw [List.foldlM_cons] at h
      obtain ⟨after, hafter, hrest⟩ := bind_eq_ok.mp h
      by_cases hitem : after.state.balances wallet token < world.state.balances wallet token
      · exact ⟨item, List.mem_cons_self, world, after, hworld, hafter, hitem⟩
      · have hle : (world.state.balances wallet token).toNat ≤ (after.state.balances wallet token).toNat :=
          BitVec.not_lt.mp hitem
        obtain ⟨later, hmem, hlater⟩ := ih (hbody _ _ _ hworld hafter) hrest (Nat.lt_of_lt_of_le hlower hle)
        exact ⟨later, List.mem_cons_of_mem _ hmem, hlater⟩

/-- Every call that lowers a balance is the submitter's, and names the wallet. -/
theorem execute_mayLower {call : Call} (h : execute host context world call = .ok next)
    (hlower : next.state.balances wallet token < world.state.balances wallet token) :
    context.sender = world.state.submitter ∧ MayLower host world call wallet token := by
  have hmoved : next.state.balances ≠ world.state.balances := by
    intro hsame
    rw [hsame] at hlower
    exact BitVec.lt_irrefl _ hlower
  cases call with
  | submitDepositAndWithdrawalBatch data =>
      obtain ⟨hsender, -, -, batch, deposited, withdrawn, hdecode, hdeposited, hwithdrawn, rfl⟩ :=
        submitDepositAndWithdrawalBatch_cases h
      have hraised : (world.state.balances wallet token).toNat ≤ (deposited.state.balances wallet token).toNat :=
        loop_induction (fun reached => (world.state.balances wallet token).toNat ≤
          (reached.state.balances wallet token).toNat)
          (fun _ _ _ hle hdeposit => Nat.le_trans hle (submitDeposit_le hdeposit)) (Nat.le_refl _) hdeposited
      obtain ⟨withdrawal, hmem, before, after, -, hwithdrawal, hlowered⟩ := exists_item_lowering (I := fun _ => True)
        (fun _ _ _ _ _ => trivial) trivial hwithdrawn (Nat.lt_of_lt_of_le hlower hraised)
      exact ⟨hsender, Or.inl ⟨data, batch, rfl, hdecode, withdrawal, hmem, withdraw_takesFrom hwithdrawal hlowered⟩⟩
  | rollbackWithdrawalBatch data =>
      obtain ⟨hsender, batch, hdecode, hrolledBack⟩ := rollbackWithdrawalBatch_cases h
      obtain ⟨withdrawal, hmem, before, after, hfeeAccount, hwithdrawal, hlowered⟩ := exists_item_lowering
        (I := fun reached => reached.state.feeAccount = world.state.feeAccount)
        (fun _ _ _ hsame hrollback => by
          rw [(rollbackWithdraw_cases hrollback).2]
          exact hsame) rfl hrolledBack hlower
      obtain ⟨hwallet, htoken, hfee⟩ := rollbackWithdraw_takesFee hwithdrawal hlowered
      exact ⟨hsender, Or.inr (Or.inl ⟨data, batch, rfl, hdecode, hwallet.trans hfeeAccount, htoken, withdrawal, hmem,
        hfee⟩)⟩
  | prepareSettlementBatch data =>
      obtain ⟨settlement, log, hshared, rfl⟩ := prepareSettlementBatch_cases h
      obtain ⟨-, -, batchSettlement, verification, -, -, -, -, hcases⟩ := Evm.prepareSettlementBatch_cases hshared
      rcases hcases with ⟨-, rfl⟩ | ⟨-, rfl⟩ <;> exact absurd rfl hmoved
  | submitSettlementBatch data =>
      obtain ⟨settlement, log, hshared, rfl⟩ := submitSettlementBatch_cases h
      obtain ⟨hsender, -, hhash, batchSettlement, balances, hdecode, happlied, -, rfl⟩ :=
        Evm.submitSettlementBatch_cases hshared
      exact ⟨hsender, Or.inr (Or.inr ⟨data, batchSettlement, rfl, hhash, hdecode,
        decrementOf_of_lowers happlied hlower⟩)⟩
  | rollbackBatch =>
      obtain ⟨settlement, hshared, rfl⟩ := rollbackBatch_cases h
      obtain ⟨-, rfl⟩ := Evm.rollbackBatch_cases hshared
      exact absurd rfl hmoved
  | setSubmitter submitter =>
      obtain rfl := setSubmitter_cases h
      exact absurd rfl hmoved
  | setFeeAccount feeAccount =>
      obtain rfl := setFeeAccount_cases h
      exact absurd rfl hmoved

/-- The submitter changes in a call of the owner alone. -/
theorem execute_submitter {call : Call} (h : execute host context world call = .ok next) :
    next.state.submitter = world.state.submitter ∨
      call = .setSubmitter next.state.submitter ∧ context.sender = context.owner ∧ next.state.submitter ≠ 0 := by
  cases call with
  | submitDepositAndWithdrawalBatch data =>
      obtain ⟨-, -, -, batch, deposited, withdrawn, -, hdeposited, hwithdrawn, rfl⟩ :=
        submitDepositAndWithdrawalBatch_cases h
      left
      have hsame : deposited.state.submitter = world.state.submitter :=
        loop_induction (fun reached => reached.state.submitter = world.state.submitter)
          (fun _ _ _ hsame hdeposit => by
            rw [(submitDeposit_cases hdeposit).2]
            exact hsame) rfl hdeposited
      have hfinal : withdrawn.state.submitter = world.state.submitter :=
        loop_induction (fun reached => reached.state.submitter = world.state.submitter)
          (fun _ _ _ hsame hwithdrawal => by
            rcases withdraw_cases hwithdrawal with ⟨event, -, rfl⟩ | hposts
            · exact hsame
            · rw [hposts.2]
              exact hsame) hsame hwithdrawn
      exact hfinal
  | rollbackWithdrawalBatch data =>
      obtain ⟨-, batch, -, hrolledBack⟩ := rollbackWithdrawalBatch_cases h
      left
      exact loop_induction (fun reached => reached.state.submitter = world.state.submitter)
        (fun _ _ _ hsame hrollback => by
          rw [(rollbackWithdraw_cases hrollback).2]
          exact hsame) rfl hrolledBack
  | prepareSettlementBatch data =>
      obtain ⟨settlement, log, hshared, rfl⟩ := prepareSettlementBatch_cases h
      obtain ⟨-, -, batchSettlement, verification, -, -, -, -, hcases⟩ := Evm.prepareSettlementBatch_cases hshared
      rcases hcases with ⟨-, rfl⟩ | ⟨-, rfl⟩ <;> exact Or.inl rfl
  | submitSettlementBatch data =>
      obtain ⟨settlement, log, hshared, rfl⟩ := submitSettlementBatch_cases h
      obtain ⟨-, -, -, batchSettlement, balances, -, -, -, rfl⟩ := Evm.submitSettlementBatch_cases hshared
      exact Or.inl rfl
  | rollbackBatch =>
      obtain ⟨settlement, hshared, rfl⟩ := rollbackBatch_cases h
      obtain ⟨-, rfl⟩ := Evm.rollbackBatch_cases hshared
      exact Or.inl rfl
  | setSubmitter submitter =>
      obtain ⟨_, howner, h⟩ := bind_eq_ok.mp h
      obtain ⟨_, hvalid, h⟩ := bind_eq_ok.mp h
      cases h
      refine Or.inr ⟨rfl, ?_, require_eq_ok.mp hvalid⟩
      rw [onlyOwner] at howner
      split at howner
      · assumption
      · cases howner
  | setFeeAccount feeAccount =>
      obtain rfl := setFeeAccount_cases h
      exact Or.inl rfl

end Calls

/-! ### Runs -/

section Runs

variable {host : Host} {origin : World} {inputs : List Input}

/-- The submitter at any moment of a run was appointed. -/
theorem worldAt_appointed {n : Nat} (hn : n ≤ inputs.length) :
    Appointed host origin inputs n (worldAt host origin inputs n).state.submitter := by
  rcases Run.kept_or_written (fun i => (worldAt host origin inputs i).state.submitter)
    (fun i submitter => ∃ context, inputs[i]? = some ⟨context, .setSubmitter submitter⟩ ∧
      context.sender = context.owner ∧ submitter ≠ 0)
    n (fun i hi => by
      have hinput := List.getElem?_eq_getElem (Nat.lt_of_lt_of_le hi hn)
      rw [worldAt_next hinput]
      rcases step_cases host (worldAt host origin inputs i) inputs[i] with ⟨next, hexecute, hstep⟩ | hstep
      · rw [hstep]
        rcases execute_submitter hexecute with hsame | ⟨hcall, howner, hvalid⟩
        · exact Or.inl hsame
        · refine Or.inr ⟨inputs[i].context, ?_, howner, hvalid⟩
          rw [hinput, ← hcall]
      · rw [hstep]
        exact Or.inl rfl) with hstart | ⟨j, hj, ⟨context, hinput, howner, hvalid⟩, hsince⟩
  · exact Or.inl hstart
  · exact Or.inr ⟨j, hj, context, hinput, howner, hvalid, hsince⟩

end Runs

/-- Along any run, a balance that is lower later was lowered in between by a call of the submitter of that moment, whom
the contract has had from the start or the owner appointed, in a batch that names the wallet. -/
theorem lowered_by_submitter (host : Host) (origin : World) (inputs : List Input) (wallet token : Address) (m n : Nat)
    (hle : m ≤ n) (hlower : (worldAt host origin inputs n).state.balances wallet token <
      (worldAt host origin inputs m).state.balances wallet token) :
    ∃ k context call, m ≤ k ∧ k < n ∧ inputs[k]? = some ⟨context, call⟩ ∧
      (worldAt host origin inputs (k + 1)).state.balances wallet token <
        (worldAt host origin inputs k).state.balances wallet token ∧
      context.sender = (worldAt host origin inputs k).state.submitter ∧
      Appointed host origin inputs k context.sender ∧
      MayLower host (worldAt host origin inputs k) call wallet token := by
  obtain ⟨k, hlow, hhigh, hk, hlowered⟩ := Run.exists_lowering (step host)
    (fun world => (world.state.balances wallet token).toNat) hle hlower
  replace hlowered : (step host (worldAt host origin inputs k) inputs[k]).state.balances wallet token <
    (worldAt host origin inputs k).state.balances wallet token := hlowered
  have hinput := List.getElem?_eq_getElem hk
  refine ⟨k, inputs[k].context, inputs[k].call, hlow, hhigh, hinput, ?_, ?_⟩
  · rw [worldAt_next hinput]
    exact hlowered
  rcases step_cases host (worldAt host origin inputs k) inputs[k] with ⟨next, hexecute, hstep⟩ | hstep
  · rw [hstep] at hlowered
    obtain ⟨hsender, hnames⟩ := execute_mayLower hexecute hlowered
    refine ⟨hsender, ?_, hnames⟩
    rw [hsender]
    exact worldAt_appointed (Nat.le_of_lt hk)
  · rw [hstep] at hlowered
    exact absurd hlowered (BitVec.lt_irrefl _)

/-! The first wallet has its five units after the deposit, and none after the trade. -/

theorem returning_lowered : ∃ k context call, 1 ≤ k ∧ k < 3 ∧ returning[k]? = some ⟨context, call⟩ ∧
    (worldAt returningHost (start 0x5b 0xfe) returning (k + 1)).state.balances 0xa1 0x70 <
      (worldAt returningHost (start 0x5b 0xfe) returning k).state.balances 0xa1 0x70 ∧
    context.sender = (worldAt returningHost (start 0x5b 0xfe) returning k).state.submitter ∧
    Appointed returningHost (start 0x5b 0xfe) returning k context.sender ∧
    MayLower returningHost (worldAt returningHost (start 0x5b 0xfe) returning k) call 0xa1 0x70 :=
  lowered_by_submitter returningHost (start 0x5b 0xfe) returning 0xa1 0x70 1 3 (by decide) (by decide +kernel)

end Chainring.Evm.CoinProxy

import Chainring.Evm.SettlementLifecycle

/-! The coin proxy's balances can be read off its events: for each token they add up to what was deposited,
less what was withdrawn, plus what was rolled back, the fees staying in the ledger. -/

namespace Chainring.Evm.CoinProxy

open Ledger (Entry)
open Balances (Slot slots tokenSlots wordModulus)
open CheckedWord (bind_eq_ok)

/-! ### The events of a token -/

/-- What a withdrawal takes out of the ledger: a native one leaves its fee, which is in the amount. -/
def taken (token : Address) (amount fee : Uint256) : Int :=
  if token = 0 then amount.toNat - fee.toNat else amount.toNat

def Event.deposited (token : Address) : Event → Int
  | .depositSucceeded _ _ t amount => if t = token then amount.toNat else 0
  | _ => 0

def Event.withdrawn (token : Address) : Event → Int
  | .withdrawalSucceeded _ _ t amount fee => if t = token then taken t amount fee else 0
  | _ => 0

def Event.restored (token : Address) : Event → Int
  | .withdrawalRolledBack _ _ t amount fee => if t = token then taken t amount fee else 0
  | _ => 0

/-- The sum of what the events of a log say. -/
def logTotal (amount : Event → Int) (log : List Event) : Int := (log.map amount).sum

@[simp] theorem logTotal_nil (amount : Event → Int) : logTotal amount [] = 0 := rfl

@[simp] theorem logTotal_append (amount : Event → Int) (first second : List Event) :
    logTotal amount (first ++ second) = logTotal amount first + logTotal amount second := by
  simp [logTotal]

@[simp] theorem logTotal_singleton (amount : Event → Int) (event : Event) :
    logTotal amount [event] = amount event := by
  simp [logTotal]

theorem logTotal_settlement {amount : Event → Int} (h : ∀ event, amount (.settlement event) = 0)
    (log : List SettlementEvent) : logTotal amount (log.map .settlement) = 0 := by
  induction log with
  | nil => rfl
  | cons event log ih =>
      calc logTotal amount ((event :: log).map .settlement)
          = amount (.settlement event) + logTotal amount (log.map .settlement) := by simp [logTotal]
        _ = 0 := by rw [h, ih, add_zero]

/-- What one event adds to the ledger. -/
def Event.added (token : Address) (event : Event) : Int :=
  event.deposited token - event.withdrawn token + event.restored token

/-! ### One deposit or withdrawal -/

variable {host : Host} {context : Context} {world next : World} {data : Bytes}

/-- The balances of each token add up to what the log says. -/
def Reconciles (world : World) : Prop :=
  ∀ token, (world.state.balances.tokenTotal token : Int) =
    logTotal (Event.deposited token) world.log - logTotal (Event.withdrawn token) world.log +
      logTotal (Event.restored token) world.log

/-- The step keeps the ledger reconciled and touches no prepared batch. -/
def Keeps (world next : World) : Prop :=
  (Reconciles world → Reconciles next) ∧ Same world next

theorem Keeps.trans {middle : World} (first : Keeps world middle) (second : Keeps middle next) :
    Keeps world next :=
  ⟨fun h => second.1 (first.1 h), first.2.trans second.2⟩

/-- The credits less the debits of the entries, in one token. -/
def netOf (token : Address) (entries : List (Entry Slot)) : Int :=
  ((entries.map (Entry.creditIn (tokenSlots token))).sum : Int) -
    ((entries.map (Entry.debitIn (tokenSlots token))).sum : Int)

theorem Posts.keeps {entries : List (Entry Slot)} {event : Event} (h : Posts world entries event next)
    (hnet : ∀ token, netOf token entries = event.added token) : Keeps world next := by
  refine ⟨fun hreconciles token => ?_, h.registers⟩
  have htotal := Balances.tokenTotal_of_run h.1 token
  have hbefore := hreconciles token
  have hadded := hnet token
  have hlog : next.log = world.log ++ [event] := by
    rw [h.2]
    rfl
  rw [hlog]
  simp only [logTotal_append, logTotal_singleton]
  simp only [netOf, Event.added] at hadded
  omega

theorem submitDeposit_keeps {deposit : Deposit} (h : submitDeposit world deposit = .ok next) :
    Keeps world next := by
  apply (submitDeposit_cases h).keeps
  intro token
  simp [netOf, Deposit.entries, Event.added, Deposit.succeeded, Event.deposited, Event.withdrawn, Event.restored]

/-- A fee that is charged on its own is paid to the fee account. -/
theorem netOf_entries (feeAccount token : Address) (withdrawal : Withdrawal) :
    netOf token (withdrawal.entries feeAccount) =
      -(if withdrawal.token = token then taken withdrawal.token withdrawal.amount withdrawal.feeAmount
        else 0) := by
  by_cases hseparate : withdrawal.SeparateFee
  · rw [netOf, Withdrawal.entries, if_pos hseparate, taken, if_neg hseparate.2]
    simp
  · rw [netOf, Withdrawal.entries, if_neg hseparate, taken]
    by_cases hnative : withdrawal.token = 0
    · simp [hnative]
      split <;> simp
    · rw [Withdrawal.feeAmount_eq_zero hseparate hnative, if_neg hnative]
      simp

theorem netOf_rollbackEntries (feeAccount token : Address) (withdrawal : Withdrawal) :
    netOf token (withdrawal.rollbackEntries feeAccount) = -netOf token (withdrawal.entries feeAccount) := by
  by_cases hseparate : withdrawal.SeparateFee
  · rw [netOf, netOf, Withdrawal.rollbackEntries, Withdrawal.entries, if_pos hseparate, if_pos hseparate]
    simp
  · rw [netOf, netOf, Withdrawal.rollbackEntries, Withdrawal.entries, if_neg hseparate, if_neg hseparate]
    simp

theorem withdraw_keeps {withdrawal : Withdrawal} (h : withdraw world withdrawal = .ok next) :
    Keeps world next := by
  rcases withdraw_cases h with ⟨event, hreports, rfl⟩ | hposts
  · refine ⟨fun hreconciles token => ?_, ⟨rfl, rfl⟩⟩
    have hbefore := hreconciles token
    have hnone : event.deposited token = 0 ∧ event.withdrawn token = 0 ∧ event.restored token = 0 := by
      rcases hreports with ⟨-, rfl⟩ | ⟨-, -, rfl⟩ <;> exact ⟨rfl, rfl, rfl⟩
    show (world.state.balances.tokenTotal token : Int) = _
    rw [World.emit]
    simp only [logTotal_append, logTotal_singleton, hnone]
    omega
  · apply hposts.keeps
    intro token
    rw [netOf_entries]
    simp [Event.added, Withdrawal.succeeded, Event.deposited, Event.withdrawn, Event.restored]

theorem rollbackWithdraw_keeps {withdrawal : Withdrawal} (h : rollbackWithdraw world withdrawal = .ok next) :
    Keeps world next := by
  apply (rollbackWithdraw_cases h).keeps
  intro token
  rw [netOf_rollbackEntries, netOf_entries]
  simp [Event.added, Withdrawal.rolledBack, Event.deposited, Event.withdrawn, Event.restored]

/-! ### Batches -/

theorem loop_keeps {α : Type} {body : World → α → Except Revert World}
    (hbody : ∀ before item after, body before item = .ok after → Keeps before after) {items : List α}
    (h : items.foldlM body world = .ok next) : Keeps world next :=
  loop_induction (Keeps world) (fun before item after hkeeps hitem => hkeeps.trans (hbody before item after hitem))
    ⟨id, rfl, rfl⟩ h

theorem submitDepositAndWithdrawalBatch_keeps
    (h : submitDepositAndWithdrawalBatch host context world data = .ok next) : Keeps world next := by
  obtain ⟨-, -, -, batch, deposited, withdrawn, -, hdeposited, hwithdrawn, rfl⟩ :=
    submitDepositAndWithdrawalBatch_cases h
  have hdeposits := loop_keeps (fun _ _ _ => submitDeposit_keeps) hdeposited
  have hwithdrawals := loop_keeps (fun _ _ _ => withdraw_keeps) hwithdrawn
  exact (hdeposits.trans hwithdrawals).trans ⟨id, rfl, rfl⟩

theorem rollbackWithdrawalBatch_keeps
    (h : rollbackWithdrawalBatch host context world data = .ok next) : Keeps world next := by
  obtain ⟨-, batch, -, hrolledBack⟩ := rollbackWithdrawalBatch_cases h
  exact loop_keeps (fun _ _ _ => rollbackWithdraw_keeps) hrolledBack

/-- Settlement events move nothing. -/
theorem Reconciles.settle (h : Reconciles world) {settlement : SettlementState} {log : List SettlementEvent}
    (htotal : ∀ token, settlement.balances.tokenTotal token = world.state.balances.tokenTotal token) :
    Reconciles (world.settle settlement log) := by
  intro token
  show (settlement.balances.tokenTotal token : Int) = _
  rw [htotal, h token, World.settle]
  simp only [logTotal_append]
  rw [logTotal_settlement (fun _ => rfl), logTotal_settlement (fun _ => rfl),
    logTotal_settlement (fun _ => rfl)]
  omega

/-! ### Runs -/

/-- A batch that nets, of the data of the run, stands behind every hash stored. -/
def Prepared (host : Host) (inputs : List Input) (world : World) : Prop :=
  world.state.batchHash ≠ 0 → ∃ data ∈ settlementData inputs, ∃ batchSettlement,
    host.decodeBatchSettlement data = some batchSettlement ∧ batchSettlement.Nets ∧
      world.state.batchHash = host.keccak256 data

structure Audited (host : Host) (inputs : List Input) (world : World) : Prop where
  reconciles : Reconciles world
  prepared : Prepared host inputs world

variable {inputs : List Input}

theorem Keeps.audited (hkeeps : Keeps world next) (h : Audited host inputs world) :
    Audited host inputs next := by
  refine ⟨hkeeps.1 h.reconciles, ?_⟩
  rw [Prepared, hkeeps.2.1]
  exact h.prepared

theorem prepareSettlementBatch_audited (hdata : data ∈ settlementData inputs)
    (hamounts : ∀ batchSettlement, host.decodeBatchSettlement data = some batchSettlement →
      Exchange.AmountsBelow batchSettlement)
    (h : prepareSettlementBatch host context world data = .ok next) (haudited : Audited host inputs world) :
    Audited host inputs next := by
  obtain ⟨settlement, log, hshared, rfl⟩ := prepareSettlementBatch_cases h
  obtain ⟨-, -, batchSettlement, verification, hdecode, -, hverified, -, hcases⟩ :=
    Evm.prepareSettlementBatch_cases hshared
  rcases hcases with ⟨-, rfl⟩ | ⟨-, rfl⟩
  · refine ⟨haudited.reconciles.settle fun _ => rfl, fun _ => ⟨data, hdata, batchSettlement, hdecode, ?_, rfl⟩⟩
    exact (nets_iff_evenlySigned hverified).mpr (Exchange.nets_of_amountsBelow (hamounts _ hdecode))
  · exact ⟨haudited.reconciles.settle fun _ => rfl, haudited.prepared⟩

theorem submitSettlementBatch_audited (hdata : data ∈ settlementData inputs)
    (hcollision : ∀ first ∈ settlementData inputs, ∀ second ∈ settlementData inputs,
      host.keccak256 first = host.keccak256 second → first = second)
    (h : submitSettlementBatch host context world data = .ok next) (haudited : Audited host inputs world) :
    Audited host inputs next := by
  obtain ⟨settlement, log, hshared, rfl⟩ := submitSettlementBatch_cases h
  obtain ⟨-, hpending, hhash, batchSettlement, balances, hdecode, -, -, hnext⟩ :=
    Evm.submitSettlementBatch_cases hshared
  obtain ⟨prepared, hprepared, netted, hnetted, hnets, hstored⟩ := haudited.prepared hpending
  obtain rfl := hcollision prepared hprepared data hdata (hstored.symm.trans hhash)
  obtain rfl := Option.some.inj (hnetted.symm.trans hdecode)
  refine ⟨haudited.reconciles.settle (tokenTotal_of_nets hshared hdecode hnets), fun hne => ?_⟩
  exact absurd (congrArg SettlementState.batchHash hnext) hne

/-- Every step of a run keeps the ledger reconciled and its prepared batch netting. -/
theorem step_audited
    (hcollision : ∀ first ∈ settlementData inputs, ∀ second ∈ settlementData inputs,
      host.keccak256 first = host.keccak256 second → first = second)
    (hamounts : ∀ data ∈ settlementData inputs, ∀ batchSettlement,
      host.decodeBatchSettlement data = some batchSettlement → Exchange.AmountsBelow batchSettlement)
    (world : World) (input : Input) (hinput : input ∈ inputs) (h : Audited host inputs world) :
    Audited host inputs (step host world input) := by
  rcases step_cases host world input with ⟨next, hexecute, hstep⟩ | hstep
  · rw [hstep]
    obtain ⟨context, call⟩ := input
    cases call with
    | submitDepositAndWithdrawalBatch data => exact (submitDepositAndWithdrawalBatch_keeps hexecute).audited h
    | rollbackWithdrawalBatch data => exact (rollbackWithdrawalBatch_keeps hexecute).audited h
    | prepareSettlementBatch data =>
        have hdata : data ∈ settlementData inputs := List.mem_filterMap.mpr ⟨_, hinput, rfl⟩
        exact prepareSettlementBatch_audited hdata (hamounts data hdata) hexecute h
    | submitSettlementBatch data =>
        have hdata : data ∈ settlementData inputs := List.mem_filterMap.mpr ⟨_, hinput, rfl⟩
        exact submitSettlementBatch_audited hdata hcollision hexecute h
    | rollbackBatch =>
        obtain ⟨settlement, hshared, rfl⟩ := rollbackBatch_cases hexecute
        obtain ⟨-, rfl⟩ := Evm.rollbackBatch_cases hshared
        exact ⟨h.reconciles.settle fun _ => rfl, fun hne => absurd rfl hne⟩
    | setSubmitter submitter =>
        obtain rfl := setSubmitter_cases hexecute
        exact ⟨h.reconciles, h.prepared⟩
    | setFeeAccount feeAccount =>
        obtain rfl := setFeeAccount_cases hexecute
        exact ⟨h.reconciles, h.prepared⟩
  · rw [hstep]
    exact h

/-- In every state that a run reaches the balances of a token add up to what its events say. -/
theorem ledger_reconciles (host : Host) (submitter feeAccount : Address) (inputs : List Input) (token : Address)
    (hcollision : ∀ first ∈ settlementData inputs, ∀ second ∈ settlementData inputs,
      host.keccak256 first = host.keccak256 second → first = second)
    (hamounts : ∀ data ∈ settlementData inputs, ∀ batchSettlement,
      host.decodeBatchSettlement data = some batchSettlement → Exchange.AmountsBelow batchSettlement) :
    ((run host (start submitter feeAccount) inputs).state.balances.tokenTotal token : Int) =
      logTotal (Event.deposited token) (run host (start submitter feeAccount) inputs).log -
        logTotal (Event.withdrawn token) (run host (start submitter feeAccount) inputs).log +
        logTotal (Event.restored token) (run host (start submitter feeAccount) inputs).log := by
  have hstart : Audited host inputs (start submitter feeAccount) := by
    refine ⟨fun token => ?_, fun hne => absurd rfl hne⟩
    have hzero : (start submitter feeAccount).state.balances.tokenTotal token = 0 :=
      Finset.sum_eq_zero fun _ _ => rfl
    rw [hzero]
    rfl
  have hreached := Run.foldl_induction (step host) hstart (step_audited hcollision hamounts)
  exact hreached.reconciles token

/-! The five units are traded, withdrawn by their new owner and given back. -/

def fiveBack : BatchDepositAndWithdrawal where
  deposits := []
  withdrawals := [{ sender := 0xb2, token := 0x70, amount := 5, sequence := 1, feeAmount := 0 }]

def returningHost : Host :=
  ledgerHost
    [(fiveUnits.encode, 0x895a70abeebef11dbb0b7101e18f50d283664b55da4f5261d7e3136a006e477e),
      (evenData, 0xef31cc2db62bdbd5b577c649509cabe709edb688278b78e707ddcd6acc382f0b),
      (fiveBack.encode, 0x68985cab784fad2265011b99962e1bbf6765c2130696b21606e772da5a868e10)]
    [fiveUnits, fiveBack] [(evenData, evenTrade)]

def returning : List Input :=
  trading ++ [⟨⟨0x5b, 0x0e⟩, .submitDepositAndWithdrawalBatch fiveBack.encode⟩,
    ⟨⟨0x5b, 0x0e⟩, .rollbackWithdrawalBatch (BatchWithdrawalRollback.mk fiveBack.withdrawals).encode⟩]

example : logTotal (Event.deposited 0x70) (run returningHost (start 0x5b 0xfe) returning).log = 5 ∧
    logTotal (Event.withdrawn 0x70) (run returningHost (start 0x5b 0xfe) returning).log = 5 ∧
    logTotal (Event.restored 0x70) (run returningHost (start 0x5b 0xfe) returning).log = 5 := by
  decide +kernel

theorem returning_reconciles :
    ((run returningHost (start 0x5b 0xfe) returning).state.balances.tokenTotal 0x70 : Int) =
      logTotal (Event.deposited 0x70) (run returningHost (start 0x5b 0xfe) returning).log -
        logTotal (Event.withdrawn 0x70) (run returningHost (start 0x5b 0xfe) returning).log +
        logTotal (Event.restored 0x70) (run returningHost (start 0x5b 0xfe) returning).log := by
  have hdata : settlementData returning = [evenData, evenData] := rfl
  have hdecode : returningHost.decodeBatchSettlement evenData = some evenTrade := by decide +kernel
  apply ledger_reconciles
  · rw [hdata]
    simp
  · rw [hdata]
    intro data hmem batchSettlement hbatch
    simp only [List.mem_cons, List.not_mem_nil, or_false, or_self] at hmem
    rw [hmem] at hbatch
    obtain rfl := Option.some.inj (hdecode.symm.trans hbatch)
    exact Exchange.evenTrade_amountsBelow

end Chainring.Evm.CoinProxy

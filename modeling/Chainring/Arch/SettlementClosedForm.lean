import Chainring.Arch.SettlementCompletion
import Chainring.Arch.SettlementPreparation

/-! What the submission of a settlement does where its entries name different accounts: every wallet first gets all
its increments and its fee, then loses all its decrements, so that only their sums matter and not their order. -/

namespace Chainring.Arch

open Ledger (Entry CreditsFirst credited debited credited_append debited_append credited_cons debited_cons
  credited_eq_zero debited_eq_zero)

/-! ### Sums for a wallet -/

/-- What the adjustments of a wallet add up to. -/
def amountsAt (adjustments : List Adjustment) (index : Nat) : Nat :=
  ((adjustments.filter fun adjustment => adjustment.addressIndex.index.toNat = index).map fun adjustment =>
    adjustment.amount.toNat).sum

/-- The balance of a wallet with its increments and its fee, which wrap. -/
def SettlementAdjustments.raisedAt (tokenSettlements : SettlementAdjustments) (data : Bytes) (index : Nat) : Nat :=
  (amountAt data index + amountsAt tokenSettlements.increments index +
    if index = 0 then tokenSettlements.feeAmount.toNat else 0) % 2 ^ 64

/-- Two entries that differ in the order of their adjustments only. -/
structure Reordered (tokenSettlements tokenSettlements' : SettlementAdjustments) : Prop where
  accountIndex : tokenSettlements'.accountIndex = tokenSettlements.accountIndex
  increments : tokenSettlements'.increments.Perm tokenSettlements.increments
  decrements : tokenSettlements'.decrements.Perm tokenSettlements.decrements
  feeAmount : tokenSettlements'.feeAmount = tokenSettlements.feeAmount

theorem amountsAt_cons (adjustment : Adjustment) (adjustments : List Adjustment) (index : Nat) :
    amountsAt (adjustment :: adjustments) index =
      (if adjustment.addressIndex.index.toNat = index then adjustment.amount.toNat else 0) +
        amountsAt adjustments index := by
  unfold amountsAt
  by_cases hindex : adjustment.addressIndex.index.toNat = index
  · simp [hindex]
  · simp [hindex]

theorem amountsAt_perm {adjustments adjustments' : List Adjustment} (h : adjustments'.Perm adjustments) (index : Nat) :
    amountsAt adjustments' index = amountsAt adjustments index :=
  ((h.filter _).map _).sum_eq

theorem Reordered.raisedAt_eq {tokenSettlements tokenSettlements' : SettlementAdjustments}
    (h : Reordered tokenSettlements tokenSettlements') (data : Bytes) (index : Nat) :
    tokenSettlements'.raisedAt data index = tokenSettlements.raisedAt data index := by
  rw [SettlementAdjustments.raisedAt, SettlementAdjustments.raisedAt, amountsAt_perm h.increments, h.feeAmount]

/-! ### What an entry posts to a wallet -/

section Entries

variable {accounts : List AccountInfo} {key : Pubkey}

theorem credited_credits (adjustments : List Adjustment) (index : Nat) :
    credited (credits key adjustments) (key, index) = amountsAt adjustments index := by
  induction adjustments with
  | nil => rfl
  | cons adjustment adjustments ih =>
      rw [credits, List.flatMap_cons, credited_append, amountsAt_cons, ← ih]
      simp [credited_cons, Entry.creditTo, credits]

theorem debited_debits (adjustments : List Adjustment) (index : Nat) :
    debited (debits key adjustments) (key, index) = amountsAt adjustments index := by
  induction adjustments with
  | nil => rfl
  | cons adjustment adjustments ih =>
      rw [debits, List.flatMap_cons, debited_append, amountsAt_cons, ← ih]
      simp [debited_cons, Entry.debitTo, debits]

theorem debited_credits (adjustments : List Adjustment) (slot : Pubkey × Nat) :
    debited (credits key adjustments) slot = 0 := by
  apply debited_eq_zero
  intro entry hmem
  obtain ⟨adjustment, -, hentry⟩ := List.mem_flatMap.mp hmem
  rw [List.mem_singleton.mp hentry]
  rfl

theorem credited_debits (adjustments : List Adjustment) (slot : Pubkey × Nat) :
    credited (debits key adjustments) slot = 0 := by
  apply credited_eq_zero
  intro entry hmem
  obtain ⟨adjustment, -, hentry⟩ := List.mem_flatMap.mp hmem
  rw [List.mem_singleton.mp hentry]
  rfl

/-- The fee and the increments of an entry, which come first. -/
def SettlementAdjustments.creditEntries (key : Pubkey) (tokenSettlements : SettlementAdjustments) :
    List (Entry (Pubkey × Nat)) :=
  (if 0 < tokenSettlements.feeAmount then [.credit (key, 0) tokenSettlements.feeAmount.toNat] else []) ++
    credits key tokenSettlements.increments

theorem SettlementAdjustments.entries_eq (key : Pubkey) (tokenSettlements : SettlementAdjustments) :
    tokenSettlements.entries key = tokenSettlements.creditEntries key ++ debits key tokenSettlements.decrements := by
  rw [entries, creditEntries, List.append_assoc]

theorem credited_creditEntries (tokenSettlements : SettlementAdjustments) (index : Nat) :
    credited (tokenSettlements.creditEntries key) (key, index) =
      amountsAt tokenSettlements.increments index + if index = 0 then tokenSettlements.feeAmount.toNat else 0 := by
  rw [SettlementAdjustments.creditEntries, credited_append, credited_credits, Nat.add_comm]
  congr 1
  by_cases hfee : 0 < tokenSettlements.feeAmount
  · rw [if_pos hfee, credited_cons, Ledger.credited_nil, Nat.add_zero, Entry.creditTo]
    simp [eq_comm]
  · have hzero : tokenSettlements.feeAmount.toNat = 0 := by
      rw [UInt64.lt_iff_toNat_lt] at hfee
      exact Nat.eq_zero_of_not_pos hfee
    rw [if_neg hfee, hzero, ite_self]
    rfl

theorem debited_creditEntries (tokenSettlements : SettlementAdjustments) (slot : Pubkey × Nat) :
    debited (tokenSettlements.creditEntries key) slot = 0 := by
  rw [SettlementAdjustments.creditEntries, debited_append, debited_credits, Nat.add_zero]
  split
  · rfl
  · rfl

/-- An entry posts to wallets of its own account only. -/
theorem entriesOf_elsewhere {tokenSettlements : SettlementAdjustments}
    (hkey : keyAt accounts tokenSettlements.accountIndex ≠ some key) (index : Nat) :
    ∀ entry ∈ entriesOf accounts tokenSettlements,
      entry.creditTo (key, index) = 0 ∧ entry.debitTo (key, index) = 0 := by
  intro entry hmem
  unfold entriesOf at hmem
  cases hat : keyAt accounts tokenSettlements.accountIndex with
  | none =>
      rw [hat] at hmem
      cases hmem
  | some key' =>
      have hne : key' ≠ key := fun heq => hkey (by rw [hat, heq])
      rw [hat] at hmem
      simp only [SettlementAdjustments.entries, credits, debits, List.mem_append, List.mem_flatMap,
        List.mem_singleton] at hmem
      rcases hmem with hfee | ⟨adjustment, -, rfl⟩ | ⟨adjustment, -, rfl⟩
      · split at hfee
        · obtain rfl := List.mem_singleton.mp hfee
          simp [Entry.creditTo, Entry.debitTo, hne]
        · cases hfee
      · simp [Entry.creditTo, Entry.debitTo, hne]
      · simp [Entry.creditTo, Entry.debitTo, hne]

theorem flatMap_entriesOf_elsewhere {settlements : List SettlementAdjustments}
    (hkeys : ∀ tokenSettlements ∈ settlements, keyAt accounts tokenSettlements.accountIndex ≠ some key) (index : Nat) :
    credited (settlements.flatMap (entriesOf accounts)) (key, index) = 0 ∧
      debited (settlements.flatMap (entriesOf accounts)) (key, index) = 0 := by
  constructor
  · apply credited_eq_zero
    intro entry hmem
    obtain ⟨tokenSettlements, hsettlements, hentry⟩ := List.mem_flatMap.mp hmem
    exact (entriesOf_elsewhere (hkeys tokenSettlements hsettlements) index entry hentry).1
  · apply debited_eq_zero
    intro entry hmem
    obtain ⟨tokenSettlements, hsettlements, hentry⟩ := List.mem_flatMap.mp hmem
    exact (entriesOf_elsewhere (hkeys tokenSettlements hsettlements) index entry hentry).2

end Entries

/-! ### What a batch posts to a wallet -/

section Batch

variable {accounts : List AccountInfo} {settlements : List SettlementAdjustments}

/-- No two entries of the batch name the same account. -/
def DistinctAccounts (accounts : List AccountInfo) (settlements : List SettlementAdjustments) : Prop :=
  (settlements.map fun tokenSettlements => keyAt accounts tokenSettlements.accountIndex).Nodup

theorem DistinctAccounts.split (hdistinct : DistinctAccounts accounts settlements)
    {tokenSettlements : SettlementAdjustments} (hmem : tokenSettlements ∈ settlements) :
    ∃ before after, settlements = before ++ tokenSettlements :: after ∧
      ∀ other ∈ before ++ after,
        keyAt accounts other.accountIndex ≠ keyAt accounts tokenSettlements.accountIndex := by
  obtain ⟨before, after, rfl⟩ := List.append_of_mem hmem
  refine ⟨before, after, rfl, fun other hother heq => ?_⟩
  rw [DistinctAccounts, List.map_append, List.map_cons] at hdistinct
  have hnotin := (List.nodup_middle.mp hdistinct).notMem
  rw [← List.map_append, ← heq] at hnotin
  exact hnotin (List.mem_map_of_mem hother)

/-- To a wallet of an account that it names, a batch first posts the credits of that entry and then its debits. -/
theorem DistinctAccounts.postings (hdistinct : DistinctAccounts accounts settlements)
    {tokenSettlements : SettlementAdjustments} (hmem : tokenSettlements ∈ settlements) {key : Pubkey}
    (hkey : keyAt accounts tokenSettlements.accountIndex = some key) (index : Nat) :
    ∃ before after, settlements.flatMap (entriesOf accounts) = before ++ after ∧
      debited before (key, index) = 0 ∧ credited after (key, index) = 0 ∧
      credited before (key, index) = amountsAt tokenSettlements.increments index +
        (if index = 0 then tokenSettlements.feeAmount.toNat else 0) ∧
      debited after (key, index) = amountsAt tokenSettlements.decrements index := by
  obtain ⟨first, last, rfl, hothers⟩ := hdistinct.split hmem
  rw [hkey] at hothers
  obtain ⟨hfirst, hlast⟩ := List.forall_mem_append.mp hothers
  obtain ⟨hcredited, hdebited⟩ := flatMap_entriesOf_elsewhere hfirst index
  obtain ⟨hcredited', hdebited'⟩ := flatMap_entriesOf_elsewhere hlast index
  refine ⟨first.flatMap (entriesOf accounts) ++ tokenSettlements.creditEntries key,
    debits key tokenSettlements.decrements ++ last.flatMap (entriesOf accounts), ?_, ?_, ?_, ?_, ?_⟩
  · rw [List.flatMap_append, List.flatMap_cons, entriesOf, hkey]
    simp only [SettlementAdjustments.entries_eq, List.append_assoc]
  · rw [debited_append, hdebited, debited_creditEntries]
  · rw [credited_append, credited_debits, hcredited']
  · rw [credited_append, hcredited, credited_creditEntries, Nat.zero_add]
  · rw [debited_append, hdebited', debited_debits, Nat.add_zero]

theorem DistinctAccounts.raised_eq (hdistinct : DistinctAccounts accounts settlements)
    {tokenSettlements : SettlementAdjustments} (hmem : tokenSettlements ∈ settlements) {key : Pubkey}
    (hkey : keyAt accounts tokenSettlements.accountIndex = some key) (m : Memory) (index : Nat) :
    Ledger.raised amountModulus (balances m) (settlements.flatMap (entriesOf accounts)) (key, index) =
      tokenSettlements.raisedAt (m key).data index := by
  obtain ⟨before, after, hsplit, -, hafter, hcredited, -⟩ := hdistinct.postings hmem hkey index
  rw [Ledger.raised, hsplit, credited_append, hafter, hcredited, SettlementAdjustments.raisedAt, Nat.add_zero,
    Nat.add_assoc]
  rfl

theorem DistinctAccounts.debited_eq (hdistinct : DistinctAccounts accounts settlements)
    {tokenSettlements : SettlementAdjustments} (hmem : tokenSettlements ∈ settlements) {key : Pubkey}
    (hkey : keyAt accounts tokenSettlements.accountIndex = some key) (index : Nat) :
    debited (settlements.flatMap (entriesOf accounts)) (key, index) = amountsAt tokenSettlements.decrements index := by
  obtain ⟨before, after, hsplit, hbefore, -, -, hdebited⟩ := hdistinct.postings hmem hkey index
  rw [hsplit, debited_append, hbefore, hdebited, Nat.zero_add]

theorem DistinctAccounts.creditsFirst (hdistinct : DistinctAccounts accounts settlements) :
    CreditsFirst (settlements.flatMap (entriesOf accounts)) := by
  rintro ⟨key, index⟩
  by_cases hnamed : ∃ tokenSettlements ∈ settlements, keyAt accounts tokenSettlements.accountIndex = some key
  · obtain ⟨tokenSettlements, hmem, hkey⟩ := hnamed
    obtain ⟨before, after, hsplit, hdebited, hcredited, -⟩ := hdistinct.postings hmem hkey index
    exact ⟨before, after, hsplit, hdebited, hcredited⟩
  · have hkeys : ∀ tokenSettlements ∈ settlements, keyAt accounts tokenSettlements.accountIndex ≠ some key :=
      fun tokenSettlements hmem hkey => hnamed ⟨tokenSettlements, hmem, hkey⟩
    exact ⟨_, [], (List.append_nil _).symm, (flatMap_entriesOf_elsewhere hkeys index).2, rfl⟩

/-- The posting of a batch goes through exactly when every wallet can pay its decrements from what it is raised to. -/
theorem DistinctAccounts.run_isSome_iff (hdistinct : DistinctAccounts accounts settlements) (m : Memory) :
    (Ledger.run .wraps amountModulus (balances m) (settlements.flatMap (entriesOf accounts))).isSome ↔
      ∀ tokenSettlements ∈ settlements, ∀ key, keyAt accounts tokenSettlements.accountIndex = some key →
        ∀ index, amountsAt tokenSettlements.decrements index ≤ tokenSettlements.raisedAt (m key).data index := by
  rw [Ledger.run_isSome_iff_debited_le amountModulus (by decide) (balances_lt m) hdistinct.creditsFirst]
  constructor
  · intro h tokenSettlements hmem key hkey index
    rw [← hdistinct.debited_eq hmem hkey, ← hdistinct.raised_eq hmem hkey]
    exact h (key, index)
  · rintro h ⟨key, index⟩
    by_cases hnamed : ∃ tokenSettlements ∈ settlements, keyAt accounts tokenSettlements.accountIndex = some key
    · obtain ⟨tokenSettlements, hmem, hkey⟩ := hnamed
      rw [hdistinct.debited_eq hmem hkey, hdistinct.raised_eq hmem hkey]
      exact h tokenSettlements hmem key hkey index
    · have hkeys : ∀ tokenSettlements ∈ settlements, keyAt accounts tokenSettlements.accountIndex ≠ some key :=
        fun tokenSettlements hmem hkey => hnamed ⟨tokenSettlements, hmem, hkey⟩
      rw [(flatMap_entriesOf_elsewhere hkeys index).2]
      exact Nat.zero_le _

end Batch

/-! ### Accounts that a batch does not name -/

section Others

variable {accounts : List AccountInfo} {m m' : Memory} {u : Unit} {key : Pubkey}

theorem handleAdjustments_others {account : AccountInfo} {adjustments : List Adjustment} {increment : Bool}
    (hne : key ≠ account.key) (h : (handleAdjustments account adjustments increment).run m = .ok u m') :
    (m' key).data = (m key).data := by
  refine Exec.forM_ok_invariant (I := fun s => (s key).data = (m key).data) ?_ rfl h
  intro adjustment _ s s' hs hbody
  obtain ⟨index, -, hbody⟩ := read_bind_eq_ok.mp hbody
  rw [← hs]
  split at hbody
  · obtain ⟨data, -, rfl⟩ := write_eq_ok.mp hbody
    rw [Memory.setData_of_ne _ _ hne]
  · obtain ⟨data, -, rfl⟩ := write_eq_ok.mp hbody
    rw [Memory.setData_of_ne _ _ hne]

theorem applySettlement_others {tokenSettlements : SettlementAdjustments}
    (hkey : keyAt accounts tokenSettlements.accountIndex ≠ some key)
    (h : (applySettlement accounts tokenSettlements).run m = .ok u m') : (m' key).data = (m key).data := by
  obtain ⟨-, h⟩ := validate_bind_eq_ok.mp h
  obtain ⟨account, haccount, h⟩ := accountAt_bind_eq_ok.mp h
  have hne : key ≠ account.key := by
    rintro rfl
    exact hkey (keyAt_of_listed haccount)
  obtain ⟨_, paid, hfee, h⟩ := Exec.bind_eq_ok.mp h
  obtain ⟨_, raised, hincrements, hdecrements⟩ := Exec.bind_eq_ok.mp h
  rw [handleAdjustments_others hne hdecrements, handleAdjustments_others hne hincrements]
  rcases Exec.when_eq_ok.mp hfee with ⟨-, hcredit⟩ | ⟨-, rfl⟩
  · obtain ⟨last4, -, hcredit⟩ := read_bind_eq_ok.mp hcredit
    exact handleAdjustments_others hne hcredit
  · rfl

theorem settlements_others {settlements : List SettlementAdjustments}
    (hkeys : ∀ tokenSettlements ∈ settlements, keyAt accounts tokenSettlements.accountIndex ≠ some key)
    (h : (settlements.forM (applySettlement accounts)).run m = .ok u m') : (m' key).data = (m key).data :=
  Exec.forM_ok_invariant (I := fun s => (s key).data = (m key).data)
    (fun tokenSettlements hmem _ _ hs hbody => (applySettlement_others (hkeys tokenSettlements hmem) hbody).trans hs)
    rfl h

end Others

/-! ### The submission -/

/-- What a submission needs before its amounts: the batch is the one in progress, its entries name different accounts
and are valid, and the wallet for fees is in use where there is a fee. -/
structure SubmissionValid (rt : Runtime) (w : World) (accounts : List AccountInfo) (program : AccountInfo)
    (rawParamsData : Bytes) (params : SettlementBatchParams) : Prop where
  decoded : decodeFromSlice SettlementBatchParams.decode rawParamsData = .ok params
  listed : accounts[0]? = some program
  validated : Validated accounts 0 true true (some .program) none (load w)
  state : StateWellFormed (fun key => (w key).data) program.key
  hash : ProgramState.getSettlementHash (w program.key).data = .ok (rt.digest rawParamsData)
  digest : rt.digest rawParamsData ≠ emptyHash
  entries : ∀ tokenSettlements ∈ params.settlements, EntryValid accounts true (load w) tokenSettlements
  fees : ∀ tokenSettlements ∈ params.settlements, 0 < tokenSettlements.feeAmount →
    ∀ key, keyAt accounts tokenSettlements.accountIndex = some key → 0 < numBalances (w key).data
  distinct : DistinctAccounts accounts params.settlements

/-- Every wallet can pay its decrements from what it is raised to. -/
def Payable (accounts : List AccountInfo) (accountData : Pubkey → Bytes) (settlements : List SettlementAdjustments) :
    Prop :=
  ∀ tokenSettlements ∈ settlements, ∀ key, keyAt accounts tokenSettlements.accountIndex = some key →
    ∀ index, amountsAt tokenSettlements.decrements index ≤ tokenSettlements.raisedAt (accountData key) index

/-- What a submission leaves behind. -/
structure SettlementApplied (accounts : List AccountInfo) (settlements : List SettlementAdjustments)
    (program : Pubkey) (digest : Hash) (accountData accountData' : Pubkey → Bytes) : Prop where
  wallets : ∀ tokenSettlements ∈ settlements, ∀ key, keyAt accounts tokenSettlements.accountIndex = some key →
    ∀ index, amountAt (accountData' key) index =
      tokenSettlements.raisedAt (accountData key) index - amountsAt tokenSettlements.decrements index
  others : ∀ key, key ≠ program →
    (∀ tokenSettlements ∈ settlements, keyAt accounts tokenSettlements.accountIndex ≠ some key) →
    accountData' key = accountData key
  bytes : ∀ key, key ≠ program → ∀ o, ¬AnyAmount o → (accountData' key)[o]? = (accountData key)[o]?
  settlementHash : ProgramState.getSettlementHash (accountData' program) = .ok emptyHash
  lastSettlementHash : hashFromSlice lastSettlementHashOffset (accountData' program) = .ok digest

section Submission

variable {rt : Runtime} {w w' : World} {accounts : List AccountInfo} {program : AccountInfo} {rawParamsData : Bytes}
  {params : SettlementBatchParams} {programId : Pubkey}

theorem SubmissionValid.ready (h : SubmissionValid rt w accounts program rawParamsData params)
    {tokenSettlements : SettlementAdjustments} (hmem : tokenSettlements ∈ params.settlements) :
    SettlementReady accounts (load w) tokenSettlements := by
  obtain ⟨hvalidated, hwallets⟩ := h.entries tokenSettlements hmem
  refine ⟨hvalidated, fun key hkey => ?_⟩
  have hwell : WellFormed (w key).data := h.state.tokens key (hvalidated.type_of_keyAt hkey)
  have hready : ∀ adjustment ∈ tokenSettlements.increments ++ tokenSettlements.decrements,
      Ready adjustment.addressIndex (load w key).data := by
    intro adjustment hadjustment
    have hwallet := hwallets key hkey adjustment hadjustment
    exact ⟨hwallet, hwell.hasAmount hwallet.inUse⟩
  obtain ⟨hincrements, hdecrements⟩ := List.forall_mem_append.mp hready
  refine ⟨fun hfee => ?_, hincrements, hdecrements⟩
  have hinUse := h.fees tokenSettlements hmem hfee key hkey
  exact ⟨hinUse, hwell.last4 hinUse, hwell.hasAmount hinUse⟩

theorem SubmissionValid.isSome_iff (h : SubmissionValid rt w accounts program rawParamsData params) :
    (execute rt w (settlementCall 6 programId accounts rawParamsData)).isSome ↔
      Payable accounts (fun key => (w key).data) params.settlements := by
  obtain ⟨account, haccount, hsigner, hwritable, hkind⟩ := id h.validated
  obtain rfl : account = program := Option.some.inj (haccount.symm.trans h.listed)
  have hlength : eventsOffset ≤ (w account.key).data.length := Nat.le_trans (by decide) h.state.room
  rw [execute_submit_isSome_iff h.decoded h.listed hsigner hwritable hkind h.hash h.digest hlength,
    admits_settlements params.settlements _ (AmountsOnly.refl _), h.distinct.run_isSome_iff]
  exact and_iff_right fun tokenSettlements hmem => h.ready hmem

theorem SubmissionValid.applied (h : SubmissionValid rt w accounts program rawParamsData params)
    (hexecute : execute rt w (settlementCall 6 programId accounts rawParamsData) = some w') :
    SettlementApplied accounts params.settlements program.key (rt.digest rawParamsData) (fun key => (w key).data)
      fun key => (w' key).data := by
  obtain ⟨instruction, m, hinstruction, hrun, -, hdata⟩ := execute_cases hexecute
  obtain rfl := Except.ok.inj (hinstruction.symm.trans (settlementCall_submit h.decoded programId accounts))
  obtain ⟨-, -, hcleared, hlast⟩ := submitSettlementBatch_hash hrun h.listed
  obtain ⟨program', applied, marked, -, hprogram, -, -, happly, hmark, hclear⟩ := submitSettlementBatch_cases hrun
  obtain rfl : program' = program := Option.some.inj (hprogram.symm.trans h.listed)
  obtain ⟨-, hamounts, hposted⟩ := posts_settlements params.settlements (load w) () applied (AmountsOnly.refl _) happly
  have hothers : ∀ key, key ≠ program'.key → (w' key).data = (applied key).data := by
    intro key hne
    obtain ⟨_, -, rfl⟩ := write_eq_ok.mp hmark
    obtain ⟨_, -, rfl⟩ := write_eq_ok.mp hclear
    rw [hdata, Memory.setData_of_ne _ _ hne, Memory.setData_of_ne _ _ hne]
  refine ⟨fun tokenSettlements hmem key hkey index => ?_, fun key hne hkeys => ?_, fun key hne o ho => ?_, ?_, ?_⟩
  · have htoken := (h.entries tokenSettlements hmem).1.type_of_keyAt hkey
    have hne : key ≠ program'.key := by
      rintro rfl
      cases htoken.symm.trans (h.validated.type_eq h.listed)
    have hclosing := Ledger.run_eq_raised_sub amountModulus (by decide) (balances_lt _) h.distinct.creditsFirst
      hposted (key, index)
    rw [h.distinct.raised_eq hmem hkey, h.distinct.debited_eq hmem hkey] at hclosing
    rw [hothers key hne]
    exact hclosing
  · rw [hothers key hne]
    exact settlements_others hkeys happly
  · rw [hothers key hne]
    exact hamounts.bytes key o ho
  · rw [hdata]
    exact hcleared
  · rw [hdata]
    exact hlast

/-! ### The order of the adjustments -/

theorem forall_mem_of_forall₂ {α : Type} {R : α → α → Prop} {P : α → Prop} {xs ys : List α} (h : List.Forall₂ R xs ys)
    (hR : ∀ x y, R x y → (P x ↔ P y)) : (∀ x ∈ xs, P x) ↔ ∀ y ∈ ys, P y := by
  induction h with
  | nil => simp
  | cons hhead _ ih => rw [List.forall_mem_cons, List.forall_mem_cons, hR _ _ hhead, ih]

variable {settlements settlements' : List SettlementAdjustments}

theorem reordered_accounts (h : List.Forall₂ Reordered settlements settlements') :
    (settlements'.map fun tokenSettlements => keyAt accounts tokenSettlements.accountIndex) =
      settlements.map fun tokenSettlements => keyAt accounts tokenSettlements.accountIndex := by
  rw [← List.forall₂_eq_eq_eq, List.forall₂_map_left_iff, List.forall₂_map_right_iff]
  refine List.Forall₂.flip (h.imp fun _ _ hreordered => ?_)
  show keyAt accounts _ = keyAt accounts _
  rw [hreordered.accountIndex]

theorem reordered_payable (h : List.Forall₂ Reordered settlements settlements') (accountData : Pubkey → Bytes) :
    Payable accounts accountData settlements ↔ Payable accounts accountData settlements' := by
  apply forall_mem_of_forall₂ h
  intro tokenSettlements tokenSettlements' hreordered
  simp only [hreordered.accountIndex, hreordered.raisedAt_eq, amountsAt_perm hreordered.decrements]

theorem EntryValid.reordered_iff {isWritable : Bool} {m : Memory}
    {tokenSettlements tokenSettlements' : SettlementAdjustments} (h : Reordered tokenSettlements tokenSettlements') :
    EntryValid accounts isWritable m tokenSettlements ↔ EntryValid accounts isWritable m tokenSettlements' := by
  have hmem : ∀ adjustment, adjustment ∈ tokenSettlements'.increments ++ tokenSettlements'.decrements ↔
      adjustment ∈ tokenSettlements.increments ++ tokenSettlements.decrements :=
    fun adjustment => (h.increments.append h.decrements).mem_iff
  unfold EntryValid
  simp only [h.accountIndex, hmem]

/-- What the wallets of a reordered batch end up with is what those of the batch do. -/
theorem SettlementApplied.of_reordered {digest : Hash} {accountData accountData' : Pubkey → Bytes} {program : Pubkey}
    (h : List.Forall₂ Reordered settlements settlements')
    (happlied : SettlementApplied accounts settlements' program digest accountData accountData') :
    SettlementApplied accounts settlements program digest accountData accountData' where
  wallets := by
    refine (forall_mem_of_forall₂ h fun tokenSettlements tokenSettlements' hreordered => ?_).mpr happlied.wallets
    simp only [hreordered.accountIndex, hreordered.raisedAt_eq, amountsAt_perm hreordered.decrements]
  others := by
    intro key hne hkeys
    apply happlied.others key hne
    refine (forall_mem_of_forall₂ h fun tokenSettlements tokenSettlements' hreordered => ?_).mp hkeys
    rw [hreordered.accountIndex]
  bytes := happlied.bytes
  settlementHash := happlied.settlementHash
  lastSettlementHash := happlied.lastSettlementHash

/-- Neither looks at the data of the program account. -/
theorem Payable.of_eq {accountData accountData' : Pubkey → Bytes} {program : Pubkey}
    (h : Payable accounts accountData settlements)
    (hkeys : ∀ tokenSettlements ∈ settlements, keyAt accounts tokenSettlements.accountIndex ≠ some program)
    (hdata : ∀ key, key ≠ program → accountData' key = accountData key) :
    Payable accounts accountData' settlements := by
  intro tokenSettlements hmem key hkey index
  rw [hdata key fun heq => hkeys tokenSettlements hmem (heq ▸ hkey)]
  exact h tokenSettlements hmem key hkey index

theorem SettlementApplied.of_eq {digest : Hash} {accountData accountData' final : Pubkey → Bytes} {program : Pubkey}
    (h : SettlementApplied accounts settlements program digest accountData final)
    (hkeys : ∀ tokenSettlements ∈ settlements, keyAt accounts tokenSettlements.accountIndex ≠ some program)
    (hdata : ∀ key, key ≠ program → accountData' key = accountData key) :
    SettlementApplied accounts settlements program digest accountData' final where
  wallets := by
    intro tokenSettlements hmem key hkey index
    rw [hdata key fun heq => hkeys tokenSettlements hmem (heq ▸ hkey)]
    exact h.wallets tokenSettlements hmem key hkey index
  others := by
    intro key hne hunnamed
    rw [hdata key hne]
    exact h.others key hne hunnamed
  bytes := by
    intro key hne
    rw [hdata key hne]
    exact h.bytes key hne
  settlementHash := h.settlementHash
  lastSettlementHash := h.lastSettlementHash

theorem SubmissionValid.keyAt_ne (h : SubmissionValid rt w accounts program rawParamsData params) :
    ∀ tokenSettlements ∈ params.settlements, keyAt accounts tokenSettlements.accountIndex ≠ some program.key := by
  intro tokenSettlements hmem hkey
  have htoken := (h.entries tokenSettlements hmem).1.type_of_keyAt hkey
  cases htoken.symm.trans (h.validated.type_eq h.listed)

/-- The batch can be submitted in another order to the same state with the hash of that order in it. -/
theorem SubmissionValid.reordered {v : World} {rawParamsData' : Bytes} {params' : SettlementBatchParams}
    (h : SubmissionValid rt w accounts program rawParamsData params)
    (hdecoded : decodeFromSlice SettlementBatchParams.decode rawParamsData' = .ok params')
    (hreordered : List.Forall₂ Reordered params.settlements params'.settlements)
    (hdigest : rt.digest rawParamsData' ≠ emptyHash)
    (hothers : ∀ key, key ≠ program.key → (v key).data = (w key).data)
    (hset : ProgramState.setSettlementHash (rt.digest rawParamsData') (w program.key).data = .ok (v program.key).data) :
    SubmissionValid rt v accounts program rawParamsData' params' := by
  have hkind := h.validated.type_eq h.listed
  obtain ⟨hlength, hbytes⟩ := writes_setSettlementHash _ _ _ hset
  have htypes : getType (v program.key).data = getType (w program.key).data := by
    apply getType_congr
    intro o ho
    apply hbytes
    intro hwithin
    have hlow := hwithin.1
    omega
  have htokens : ∀ key, getType (w key).data = .ok .token → (v key).data = (w key).data := by
    intro key htoken
    apply hothers
    rintro rfl
    cases htoken.symm.trans hkind
  refine ⟨hdecoded, h.listed, ?_, ⟨?_, ?_⟩, hashFromSlice_writeBlock hset, hdigest, ?_, ?_, ?_⟩
  · obtain ⟨account, haccount, hsigner, hwritable, htype⟩ := h.validated
    obtain rfl : account = program := Option.some.inj (haccount.symm.trans h.listed)
    exact ⟨account, haccount, hsigner, hwritable, htypes.trans htype⟩
  · show runeReceiverOffset ≤ (v program.key).data.length
    rw [hlength]
    exact h.state.room
  · intro key htoken
    by_cases hkey : key = program.key
    · rw [hkey] at htoken
      cases htoken.symm.trans (htypes.trans hkind)
    · have hsame := hothers key hkey
      rw [hsame] at htoken ⊢
      exact h.state.tokens key htoken
  · refine (forall_mem_of_forall₂ hreordered fun _ _ hentry => EntryValid.reordered_iff hentry).mp ?_
    intro tokenSettlements hmem
    obtain ⟨hvalidated, hwallets⟩ := h.entries tokenSettlements hmem
    refine ⟨hvalidated.of_eq htokens, fun key hkey => ?_⟩
    rw [show (load v key).data = (w key).data from htokens key (hvalidated.type_of_keyAt hkey)]
    exact hwallets key hkey
  · refine (forall_mem_of_forall₂ hreordered fun _ _ hentry => ?_).mp fun tokenSettlements hmem hfee key hkey => ?_
    · rw [hentry.feeAmount, hentry.accountIndex]
    · rw [htokens key ((h.entries tokenSettlements hmem).1.type_of_keyAt hkey)]
      exact h.fees tokenSettlements hmem hfee key hkey
  · rw [DistinctAccounts, reordered_accounts hreordered]
    exact h.distinct

end Submission

/-- A valid submission returns exactly when every wallet can pay its decrements from what it is raised to, and then
leaves it the difference; and so it does in whatever order the adjustments of its entries come. -/
theorem submission_outcome (rt : Runtime) (w : World) (programId : Pubkey) (accounts : List AccountInfo)
    (program : AccountInfo) (rawParamsData : Bytes) (params : SettlementBatchParams)
    (h : SubmissionValid rt w accounts program rawParamsData params) :
    ((execute rt w (settlementCall 6 programId accounts rawParamsData)).isSome ↔
        Payable accounts (fun key => (w key).data) params.settlements) ∧
      (∀ w', execute rt w (settlementCall 6 programId accounts rawParamsData) = some w' →
        SettlementApplied accounts params.settlements program.key (rt.digest rawParamsData) (fun key => (w key).data)
          fun key => (w' key).data) ∧
      ∀ (v : World) (rawParamsData' : Bytes) (params' : SettlementBatchParams),
        decodeFromSlice SettlementBatchParams.decode rawParamsData' = .ok params' →
        List.Forall₂ Reordered params.settlements params'.settlements → rt.digest rawParamsData' ≠ emptyHash →
        (∀ key, key ≠ program.key → (v key).data = (w key).data) →
        ProgramState.setSettlementHash (rt.digest rawParamsData') (w program.key).data = .ok (v program.key).data →
        ((execute rt v (settlementCall 6 programId accounts rawParamsData')).isSome ↔
            (execute rt w (settlementCall 6 programId accounts rawParamsData)).isSome) ∧
          ∀ v', execute rt v (settlementCall 6 programId accounts rawParamsData') = some v' →
            SettlementApplied accounts params.settlements program.key (rt.digest rawParamsData')
              (fun key => (w key).data) fun key => (v' key).data := by
  refine ⟨h.isSome_iff, fun w' hexecute => h.applied hexecute, ?_⟩
  intro v rawParamsData' params' hdecoded hreordered hdigest hothers hset
  have hvalid := h.reordered hdecoded hreordered hdigest hothers hset
  have hothers' : ∀ key, key ≠ program.key → (w key).data = (v key).data := fun key hne => (hothers key hne).symm
  constructor
  · rw [hvalid.isSome_iff, h.isSome_iff, ← reordered_payable hreordered]
    exact ⟨fun hpayable => hpayable.of_eq h.keyAt_ne hothers', fun hpayable => hpayable.of_eq h.keyAt_ne hothers⟩
  · intro v' hexecute
    exact ((hvalid.applied hexecute).of_reordered hreordered).of_eq h.keyAt_ne hothers'

/-- The even trade in progress. -/
def lodgedTradeWorld : World := sampleWorld
  [(sampleProgram, programData evenTradeDigest emptyHash), (firstToken, tokenData [0x31] 0 0 100)]

theorem lodgedTradeWorld_wellFormed : StateWellFormed (fun key => (lodgedTradeWorld key).data) sampleProgram := by
  apply sampleWorld_wellFormed (by decide +kernel) (by decide +kernel)
  intro entry hentry htoken
  simp only [List.mem_cons, List.not_mem_nil, or_false] at hentry
  rcases hentry with rfl | rfl
  · exact absurd htoken (by decide +kernel)
  · exact tokenData_wellFormed ⟨[0x31], by decide⟩ (by decide) (by decide) 0 0 100

/-- The second wallet pays all that it holds, to the first wallet and to the fee wallet. -/
theorem evenTrade_applied :
    ∃ w', execute tradingRuntime lodgedTradeWorld (tradeCall 6 true evenTrade) = some w' ∧
      amountAt (w' firstToken).data 0 = 5 ∧ amountAt (w' firstToken).data 1 = 95 ∧
      amountAt (w' firstToken).data 2 = 0 := by
  have hkind : getType (load lodgedTradeWorld sampleProgram).data = .ok .program := by decide +kernel
  have hvalid : SubmissionValid tradingRuntime lodgedTradeWorld (tokenAccounts true) ⟨sampleProgram, true, true⟩
      evenTrade evenTradeParams := by
    refine ⟨by decide +kernel, rfl, ⟨⟨sampleProgram, true, true⟩, rfl, rfl, rfl, hkind⟩, lodgedTradeWorld_wellFormed,
      by decide +kernel, by decide, ?_, ?_, ?_⟩
    · intro tokenSettlements hmem
      obtain rfl := List.mem_singleton.mp hmem
      exact entryValid_of_listed ⟨sampleProgram, true, true⟩ ⟨firstToken, false, true⟩ rfl rfl rfl
        ⟨by decide +kernel, by decide +kernel⟩ (by decide +kernel)
    · intro tokenSettlements hmem _ key hkey
      obtain rfl := List.mem_singleton.mp hmem
      obtain rfl : firstToken = key := Option.some.inj hkey
      decide +kernel
    · exact List.nodup_singleton _
  have hsome : (execute tradingRuntime lodgedTradeWorld (tradeCall 6 true evenTrade)).isSome = true := by
    decide +kernel
  obtain ⟨w', hexecute⟩ := Option.isSome_iff_exists.mp hsome
  have happlied := (submission_outcome tradingRuntime lodgedTradeWorld (sampleKey 0xee) (tokenAccounts true)
    ⟨sampleProgram, true, true⟩ evenTrade evenTradeParams hvalid).2.1 w' hexecute
  have hwallets := happlied.wallets _ (List.mem_singleton.mpr rfl) firstToken rfl
  refine ⟨w', hexecute, ?_, ?_, ?_⟩
  · rw [hwallets]
    decide +kernel
  · rw [hwallets]
    decide +kernel
  · rw [hwallets]
    decide +kernel

end Chainring.Arch

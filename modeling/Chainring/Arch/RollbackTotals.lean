import Chainring.Arch.PendingBatch

/-! What rollbacks give back over a run. A rollback posts the opposite of its own list, with no record of what
was prepared, so its credits are covered by debits only where it repeats a batch that was prepared. -/

namespace Chainring.Arch

open Ledger (Entry)

def RollbackWithdrawBatchParams.entries (accounts : List AccountInfo) (params : RollbackWithdrawBatchParams) :
    List (Entry (Pubkey × Nat)) :=
  (params.tokenWithdrawals.flatMap (TokenWithdrawals.entries accounts)).map Entry.opposite

variable (rt : Runtime)

/-- What a call debits and credits as a preparation that leaves its hash behind. -/
def preparedEntries (w : World) (call : Call) : List (Entry (Pubkey × Nat)) :=
  match execute rt w call, call.instruction, call.accounts[1]? with
  | some next, .ok (.prepareBatchWithdraw params), some withdraw =>
      if withdrawHash next withdraw.key = .ok emptyHash then [] else params.entries call.accounts
  | _, _, _ => []

/-- What a call credits and debits as a rollback that goes through. -/
def rolledBackEntries (w : World) (call : Call) : List (Entry (Pubkey × Nat)) :=
  match execute rt w call, call.instruction with
  | some _, .ok (.rollbackBatchWithdraw params) => params.entries call.accounts
  | _, _ => []

/-- The entries of the call at a position of a run. -/
def entriesAt (entriesOf : World → Call → List (Entry (Pubkey × Nat))) (start : World) (calls : List Call) (n : Nat) :
    List (Entry (Pubkey × Nat)) :=
  match calls[n]? with
  | some call => entriesOf (worldAt rt start calls n) call
  | none => []

/-- What the first calls of a run debit from a slot by preparations. -/
def preparedDebits (start : World) (calls : List Call) (n : Nat) (slot : Pubkey × Nat) : Nat :=
  ∑ k ∈ Finset.range n, Ledger.debited (entriesAt rt (preparedEntries rt) start calls k) slot

/-- What they credit to it by rollbacks. -/
def rolledBackCredits (start : World) (calls : List Call) (n : Nat) (slot : Pubkey × Nat) : Nat :=
  ∑ k ∈ Finset.range n, Ledger.credited (entriesAt rt (rolledBackEntries rt) start calls k) slot

/-! ### What the entries do -/

section Calls

variable {rt} {w next : World} {call : Call}

theorem balances_load_congr {m : Memory} (hdata : ∀ key, (next key).data = (m key).data) :
    balances (load next) = balances m := by
  funext ⟨key, index⟩
  show amountAt (next key).data index = amountAt (m key).data index
  rw [hdata]

theorem preparedEntries_cases (hne : preparedEntries rt w call ≠ []) :
    ∃ next params withdraw, execute rt w call = some next ∧
      call.instruction = .ok (.prepareBatchWithdraw params) ∧ call.accounts[1]? = some withdraw ∧
      withdrawHash next withdraw.key ≠ .ok emptyHash ∧ preparedEntries rt w call = params.entries call.accounts := by
  unfold preparedEntries at hne ⊢
  split at hne
  · next next params withdraw hexecute hinstruction hwithdraw =>
      by_cases hempty : withdrawHash next withdraw.key = .ok emptyHash
      · rw [if_pos hempty] at hne
        exact absurd rfl hne
      · exact ⟨next, params, withdraw, hexecute, hinstruction, hwithdraw, hempty, if_neg hempty⟩
  · exact absurd rfl hne

theorem rolledBackEntries_cases (hne : rolledBackEntries rt w call ≠ []) :
    ∃ next params, execute rt w call = some next ∧ call.instruction = .ok (.rollbackBatchWithdraw params) ∧
      rolledBackEntries rt w call = params.entries call.accounts := by
  unfold rolledBackEntries at hne ⊢
  split at hne
  · next next params hexecute hinstruction =>
      exact ⟨next, params, hexecute, hinstruction, rfl⟩
  · exact absurd rfl hne

/-- A preparation moves the balances by its entries, -/
theorem step_posts_prepared (hne : preparedEntries rt w call ≠ []) :
    Ledger.run .wraps amountModulus (balances (load w)) (preparedEntries rt w call) =
      some (balances (load (step rt w call))) := by
  obtain ⟨next, params, withdraw, hexecute, hinstruction, hwithdraw, hset, hentries⟩ := preparedEntries_cases hne
  obtain ⟨instruction, m, hinstruction', hrun, -, hdata⟩ := execute_cases hexecute
  obtain rfl := Except.ok.inj (hinstruction'.symm.trans hinstruction)
  obtain ⟨program, -, -, -, -, -, -, -, -, hprogram, -⟩ := prepareWithdrawBatch_cases hrun
  rw [withdrawHash, hdata] at hset
  obtain ⟨networkType, hprepares⟩ :=
    prepareWithdrawBatch_prepares (load_loaded call.accounts w) hrun hprogram hwithdraw hset
  rw [hentries, step_of_execute hexecute]
  exact (hprepares.of_eq hdata).posted

/-- and so does a rollback. -/
theorem step_posts_rolledBack (hne : rolledBackEntries rt w call ≠ []) :
    Ledger.run .wraps amountModulus (balances (load w)) (rolledBackEntries rt w call) =
      some (balances (load (step rt w call))) := by
  obtain ⟨next, params, hexecute, hinstruction, hentries⟩ := rolledBackEntries_cases hne
  obtain ⟨instruction, m, hinstruction', hrun, -, hdata⟩ := execute_cases hexecute
  obtain rfl := Except.ok.inj (hinstruction'.symm.trans hinstruction)
  obtain ⟨⟨program, hprogram, -⟩, ⟨withdraw, hwithdraw, -⟩, -⟩ :=
    (validate_bind_eq_ok.mp hrun).imp_right fun hrest => validate_bind_eq_ok.mp hrest
  have hposted := (@rollbackWithdrawBatch_posts _ _ _ ⟨[], 0, params.tokenWithdrawals, []⟩ _ _ _ hprogram hwithdraw
    hrun).1
  rw [hentries, step_of_execute hexecute, balances_load_congr hdata]
  exact hposted

end Calls

/-! ### Runs -/

/-- The call at `k` rolls back what the call at `j`, before it, prepared: the same withdrawals on the same
accounts. -/
structure Repeats (start : World) (calls : List Call) (j k : Nat) : Prop where
  before : j < k
  batch : ∃ prepare rollback params, calls[j]? = some prepare ∧ calls[k]? = some rollback ∧
    prepare.instruction = .ok (.prepareBatchWithdraw params) ∧
    rollback.instruction = .ok (.rollbackBatchWithdraw ⟨params.tokenWithdrawals⟩) ∧
    (∀ index, keyAt rollback.accounts index = keyAt prepare.accounts index) ∧
    ∃ withdraw next, prepare.accounts[1]? = some withdraw ∧
      execute rt (worldAt rt start calls j) prepare = some next ∧ withdrawHash next withdraw.key ≠ .ok emptyHash

section Runs

variable {rt} {start : World} {calls : List Call}

theorem entriesAt_eq {entriesOf : World → Call → List (Entry (Pubkey × Nat))} {n : Nat} {call : Call}
    (h : calls[n]? = some call) :
    entriesAt rt entriesOf start calls n = entriesOf (worldAt rt start calls n) call := by
  rw [entriesAt, h]

/-- A rollback credits what the preparation that it repeats debited. -/
theorem Repeats.credited_eq {j k : Nat} (h : Repeats rt start calls j k)
    (hrolls : entriesAt rt (rolledBackEntries rt) start calls k ≠ []) (slot : Pubkey × Nat) :
    Ledger.credited (entriesAt rt (rolledBackEntries rt) start calls k) slot =
      Ledger.debited (entriesAt rt (preparedEntries rt) start calls j) slot := by
  obtain ⟨prepare, rollback, params, hj, hk, hprepare, hrollback, hkeys, withdraw, next, hwithdraw, hexecute,
    hset⟩ := h.batch
  rw [entriesAt_eq hk] at hrolls ⊢
  obtain ⟨_, params', -, hrollback', hentries⟩ := rolledBackEntries_cases hrolls
  cases hrollback.symm.trans hrollback'
  have hprepared : preparedEntries rt (worldAt rt start calls j) prepare = params.entries prepare.accounts := by
    simp only [preparedEntries, hexecute, hprepare, hwithdraw, if_neg hset]
  have hsame : params.entries rollback.accounts = params.entries prepare.accounts := by
    unfold WithdrawBatchParams.entries TokenWithdrawals.entries Withdrawal.entries Withdrawal.feeEntries
    simp only [hkeys]
  rw [hentries, entriesAt_eq hj, hprepared, ← hsame]
  exact Ledger.credited_opposite _ slot

/-- In every run whose rollbacks each repeat a preparation of their own, what rollbacks have credited to a slot
is covered by what preparations have debited from it; and both move the balances by just these amounts. -/
theorem rolledBack_le_prepared (rt : Runtime) (start : World) (calls : List Call) (source : Nat → Nat)
    (hrepeats : ∀ k, entriesAt rt (rolledBackEntries rt) start calls k ≠ [] → Repeats rt start calls (source k) k)
    (hinj : ∀ k k', entriesAt rt (rolledBackEntries rt) start calls k ≠ [] →
      entriesAt rt (rolledBackEntries rt) start calls k' ≠ [] → source k = source k' → k = k') :
    (∀ n slot, rolledBackCredits rt start calls n slot ≤ preparedDebits rt start calls n slot) ∧
    ∀ n < calls.length, ∀ entriesOf ∈ [preparedEntries rt, rolledBackEntries rt],
      entriesAt rt entriesOf start calls n ≠ [] →
      Ledger.run .wraps amountModulus (balances (load (worldAt rt start calls n)))
          (entriesAt rt entriesOf start calls n) =
        some (balances (load (worldAt rt start calls (n + 1)))) := by
  constructor
  · intro n slot
    have hused : ∀ k, Ledger.credited (entriesAt rt (rolledBackEntries rt) start calls k) slot ≠ 0 →
        entriesAt rt (rolledBackEntries rt) start calls k ≠ [] := by
      intro k hne hnil
      rw [hnil] at hne
      exact hne rfl
    apply Ledger.sum_le_sum_of_charge
    · intro k hk hne
      have hrepeat := hrepeats k (hused k hne)
      exact ⟨Nat.lt_trans hrepeat.before hk, Nat.le_of_eq (hrepeat.credited_eq (hused k hne) slot)⟩
    · exact fun k _ k' _ hne hne' => hinj k k' (hused k hne) (hused k' hne')
  · intro n hn entriesOf hmem hne
    rw [entriesAt_eq (List.getElem?_eq_getElem hn)] at hne ⊢
    rw [worldAt_succ hn]
    rcases List.mem_pair.mp hmem with rfl | rfl
    · exact step_posts_prepared hne
    · exact step_posts_rolledBack hne

end Runs

/-! ### With and without a preparation -/

/-- The plain batch and its rollback. -/
theorem plainRollback_le_prepared :
    rolledBackCredits plainRuntime plainWorld [preparePlain, rollbackOf plainWithdrawals] 2 (withdrawnToken, 1) ≤
      preparedDebits plainRuntime plainWorld [preparePlain, rollbackOf plainWithdrawals] 2 (withdrawnToken, 1) := by
  have hrun : (execute plainRuntime plainWorld preparePlain).map (withdrawHash · sampleWithdraw) =
      some (.ok plainDigest) := by
    decide +kernel
  obtain ⟨prepared, hprepared, hset⟩ := Option.map_eq_some_iff.mp hrun
  have hrepeats : ∀ k, entriesAt plainRuntime (rolledBackEntries plainRuntime) plainWorld
      [preparePlain, rollbackOf plainWithdrawals] k ≠ [] →
      k = 1 ∧ Repeats plainRuntime plainWorld [preparePlain, rollbackOf plainWithdrawals] 0 k := by
    rintro (_ | _ | k) hne
    · rw [entriesAt_eq List.getElem?_cons_zero] at hne
      obtain ⟨_, params, -, hrollback, -⟩ := rolledBackEntries_cases hne
      cases preparePlain_instruction.symm.trans hrollback
    · refine ⟨rfl, Nat.zero_lt_one, preparePlain, rollbackOf plainWithdrawals, plainParams, List.getElem?_cons_zero,
        List.getElem?_cons_succ.trans List.getElem?_cons_zero, preparePlain_instruction, rollbackPlain_instruction,
        fun index => ?_, ⟨sampleWithdraw, false, true⟩, prepared, rfl, hprepared, ?_⟩
      · have hrolls : RollsBack (withdrawAccounts true) (withdrawAccounts false) := by
          refine ⟨rfl, ?_⟩
          rintro (_ | index) hindex
          · exact absurd rfl hindex
          · rfl
        exact hrolls.keyAt_eq index
      · rw [hset]
        decide
    · exact absurd rfl hne
  exact (rolledBack_le_prepared plainRuntime plainWorld [preparePlain, rollbackOf plainWithdrawals] (fun _ => 0)
    (fun k hne => (hrepeats k hne).2)
    (fun k k' hne hne' _ => (hrepeats k hne).1.trans (hrepeats k' hne').1.symm)).1 2 (withdrawnToken, 1)

/-- Nothing was prepared, and the second wallet is credited all the same. -/
theorem unprepared_credited :
    preparedDebits plainRuntime plainWorld [rollbackOf earlierWithdrawals] 1 (withdrawnToken, 2) = 0 ∧
      rolledBackCredits plainRuntime plainWorld [rollbackOf earlierWithdrawals] 1 (withdrawnToken, 2) = 7 ∧
      amountAt (plainWorld withdrawnToken).data 2 = 7 ∧
      amountAt (worldAt plainRuntime plainWorld [rollbackOf earlierWithdrawals] 1 withdrawnToken).data 2 = 14 := by
  decide +kernel

end Chainring.Arch

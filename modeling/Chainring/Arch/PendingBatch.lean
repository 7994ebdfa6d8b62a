import Chainring.Arch.Lifecycle
import Chainring.Arch.WithdrawalRollback

/-! The batch of withdrawals that is pending: prepared, and neither submitted nor rolled back. Its hash stands
in the one register of the withdraw account until the batch is submitted, or until any rollback. -/

namespace Chainring.Arch

open TwoPhase (Act Follows prepared_of_pending register_of_prepared)

variable (rt : Runtime)

/-- The batch that a run prepares stays in the register of its withdraw account while it is neither submitted
nor rolled back with its own withdrawals. -/
def KeepsPending (withdraw : Pubkey) (start : World) (calls : List Call) : Prop :=
  ∀ j n prepare params, calls[j]? = some prepare → prepare.instruction = .ok (.prepareBatchWithdraw params) →
    actAt rt (withdrawAct rt withdraw) start calls j = .prepare prepare.rawParamsData → j < n → n ≤ calls.length →
    (∀ k, j < k → k < n →
      actAt rt (withdrawAct rt withdraw) start calls k ≠ .submit prepare.rawParamsData) →
    (∀ k, j < k → k < n → actAt rt (withdrawAct rt withdraw) start calls k = .rollback →
      ∀ call rolledBack, calls[k]? = some call → call.instruction = .ok (.rollbackBatchWithdraw rolledBack) →
        rolledBack.tokenWithdrawals ≠ params.tokenWithdrawals) →
    withdrawHash (worldAt rt start calls n) withdraw = registered rt prepare.rawParamsData

/-- A rollback that goes through while the register holds the hash of one of the batches rolls back the
withdrawals of that batch. -/
def RollsBackPending (withdraw : Pubkey) (calls : List Call) (w : World) (call : Call) : Prop :=
  withdrawAct rt withdraw w call = .rollback → withdrawHash w withdraw ≠ .ok emptyHash →
    ∀ rolledBack, call.instruction = .ok (.rollbackBatchWithdraw rolledBack) →
    ∀ prepare ∈ calls, ∀ params, prepare.instruction = .ok (.prepareBatchWithdraw params) →
      withdrawHash w withdraw = registered rt prepare.rawParamsData →
      rolledBack.tokenWithdrawals = params.tokenWithdrawals

/-! ### Acts and their instructions -/

section Acts

variable {rt} {w : World} {call : Call} {withdraw : Pubkey}

theorem prepare_of_withdrawAct {data : Bytes} (h : withdrawAct rt withdraw w call = .prepare data) :
    ∃ params, call.instruction = .ok (.prepareBatchWithdraw params) := by
  unfold withdrawAct at h
  split at h
  · cases h
  · split at h
    · split at h
      · next params hinstruction => exact ⟨params, hinstruction⟩
      · cases h
      · cases h
      · cases h
    · cases h

theorem rollback_of_withdrawAct (h : withdrawAct rt withdraw w call = .rollback) :
    ∃ params, call.instruction = .ok (.rollbackBatchWithdraw params) := by
  unfold withdrawAct at h
  split at h
  · cases h
  · split at h
    · split at h
      · split at h <;> cases h
      · cases h
      · next params hinstruction => exact ⟨params, hinstruction⟩
      · cases h
    · cases h

theorem decodeFromSlice_of_else {c : Prop} [Decidable c] {first rest : Reader ProgramInstruction} {data : Bytes}
    {instruction : ProgramInstruction} (hfirst : decodeFromSlice first data ≠ .ok instruction)
    (h : decodeFromSlice (if c then first else rest) data = .ok instruction) :
    decodeFromSlice rest data = .ok instruction := by
  by_cases hc : c
  · rw [if_pos hc] at h
    exact absurd h hfirst
  · rw [if_neg hc] at h
    exact h

/-- A reader that wraps what it reads in another instruction reads no preparation. -/
theorem decodeFromSlice_ne_prepare {α : Type} {wrap : α → ProgramInstruction} {reader : Reader α} {data : Bytes}
    {params : WithdrawBatchParams} (hwrap : ∀ value, wrap value ≠ .prepareBatchWithdraw params) :
    decodeFromSlice (wrap <$> reader) data ≠ .ok (.prepareBatchWithdraw params) := by
  rw [decodeFromSlice_map]
  cases decodeFromSlice reader data with
  | error e => exact fun h => by cases h
  | ok value => exact fun h => hwrap value (Except.ok.inj h)

/-- What is prepared is read from the data after the tag. -/
theorem prepareParams_eq {params : WithdrawBatchParams}
    (h : call.instruction = .ok (.prepareBatchWithdraw params)) :
    decodeFromSlice WithdrawBatchParams.decode call.rawParamsData = .ok params := by
  unfold Call.instruction at h
  unfold Call.rawParamsData
  cases hdata : call.instructionData with
  | nil =>
      rw [hdata] at h
      cases h
  | cons tag data =>
      rw [hdata, decode_cons] at h
      unfold ProgramInstruction.decodeParams at h
      iterate 4 replace h := decodeFromSlice_of_else (decodeFromSlice_ne_prepare fun _ hvalue => by cases hvalue) h
      by_cases htag : tag = 4
      · rw [if_pos htag, decodeFromSlice_map] at h
        show decodeFromSlice WithdrawBatchParams.decode data = .ok params
        cases hread : decodeFromSlice WithdrawBatchParams.decode data with
        | error e =>
            rw [hread] at h
            cases h
        | ok read =>
            rw [hread] at h
            cases h
            rfl
      · rw [if_neg htag] at h
        iterate 2 replace h := decodeFromSlice_of_else (decodeFromSlice_ne_prepare fun _ hvalue => by cases hvalue) h
        replace h := decodeFromSlice_of_else (fun hpure => by cases hpure) h
        iterate 3 replace h := decodeFromSlice_of_else (decodeFromSlice_ne_prepare fun _ hvalue => by cases hvalue) h
        replace h := decodeFromSlice_of_else (fun hpure => by cases hpure) h
        replace h := decodeFromSlice_of_else (decodeFromSlice_ne_prepare fun _ hvalue => by cases hvalue) h
        cases h

end Acts

/-! ### Runs -/

section Runs

variable {rt} {start : World} {calls : List Call} {program withdraw : Pubkey}

theorem worldAt_follows (rt : Runtime) (hlodged : Lodged program withdraw (accountData start))
    (htype : getType (start withdraw).data = .ok .withdraw) {i : Nat} (hi : i < calls.length) :
    Follows (registered rt) (.ok emptyHash) (withdrawHash (worldAt rt start calls i) withdraw)
      (actAt rt (withdrawAct rt withdraw) start calls i) (withdrawHash (worldAt rt start calls (i + 1)) withdraw) := by
  rw [actAt_eq hi, worldAt_succ hi]
  exact withdraw_follows rt calls[i] (lodged_worldAt hlodged i) ((withdrawType_worldAt hlodged i).trans htype)

/-- The data of a prepare or a submit is that of its call. -/
theorem actAt_data {n : Nat} {call : Call} {data : Bytes} (hcall : calls[n]? = some call)
    (h : actAt rt (withdrawAct rt withdraw) start calls n = .prepare data ∨
      actAt rt (withdrawAct rt withdraw) start calls n = .submit data) : data = call.rawParamsData := by
  unfold actAt at h
  rw [hcall] at h
  exact withdrawAct_data h

/-- From a program account and its withdraw account with no batch pending on, a run keeps its pending batches
exactly when each rollback that meets one rolls back its withdrawals, where the digest tells the data of the
calls apart. -/
theorem keepsPending_iff (rt : Runtime) (start : World) (calls : List Call) (program withdraw : Pubkey)
    (hlodged : Lodged program withdraw (accountData start))
    (htype : getType (start withdraw).data = .ok .withdraw) (hempty : withdrawHash start withdraw = .ok emptyHash)
    (hinj : ∀ first ∈ calls, ∀ second ∈ calls,
      rt.digest first.rawParamsData = rt.digest second.rawParamsData →
      first.rawParamsData = second.rawParamsData) :
    KeepsPending rt withdraw start calls ↔
      ∀ n call, calls[n]? = some call → RollsBackPending rt withdraw calls (worldAt rt start calls n) call := by
  constructor
  · intro hkeeps n call hcall hrollback hused rolledBack hrolledBack prepare hmem params hparams hregister
    have hn : n < calls.length := (List.getElem?_eq_some_iff.mp hcall).1
    have hact : actAt rt (withdrawAct rt withdraw) start calls n = .rollback := by
      rw [actAt, hcall]
      exact hrollback
    obtain ⟨j, hj, data, hprepare, hset, hother⟩ := @prepared_of_pending _ _ (registered rt) _
      (fun i => withdrawHash (worldAt rt start calls i) withdraw) _ hempty n
      (fun i hi => worldAt_follows rt hlodged htype (Nat.lt_trans hi hn)) hused
    have hjn : j < calls.length := Nat.lt_trans hj hn
    obtain rfl := actAt_data (List.getElem?_eq_getElem hjn) (Or.inl hprepare)
    obtain ⟨params', hparams'⟩ := prepare_of_withdrawAct ((actAt_eq hjn).symm.trans hprepare)
    have hraw := hinj _ (List.getElem_mem hjn) prepare hmem (Except.ok.inj (hset.symm.trans hregister))
    have hsame : params' = params := by
      apply Except.ok.inj
      calc Except.ok params' = decodeFromSlice WithdrawBatchParams.decode calls[j].rawParamsData :=
            (prepareParams_eq hparams').symm
        _ = decodeFromSlice WithdrawBatchParams.decode prepare.rawParamsData := by rw [hraw]
        _ = .ok params := prepareParams_eq hparams
    subst hsame
    -- the rollback empties the register, so the batch would be lost if the rollback were of another list
    by_contra hdifferent
    have hkept := hkeeps j (n + 1) calls[j] params' (List.getElem?_eq_getElem hjn) hparams' hprepare
      (Nat.lt_succ_of_lt hj) hn (fun k hlow hhigh => ?_) fun k hlow hhigh hk call' rolledBack' hcall' hrolledBack' => ?_
    · have hcleared := worldAt_follows rt hlodged htype hn
      rw [hact] at hcleared
      rw [show withdrawHash (worldAt rt start calls (n + 1)) withdraw = .ok emptyHash from hcleared] at hkept
      exact hused (hset.trans hkept.symm)
    · rcases Nat.lt_succ_iff_lt_or_eq.mp hhigh with hk | rfl
      · simp [hother k hlow hk]
      · simp [hact]
    · rcases Nat.lt_succ_iff_lt_or_eq.mp hhigh with hlt | rfl
      · rw [hother k hlow hlt] at hk
        cases hk
      · obtain rfl := Option.some.inj (hcall.symm.trans hcall')
        cases hrolledBack.symm.trans hrolledBack'
        exact hdifferent
  · intro hpending j n prepare params hcall hparams hprepare hjn hn hsubmits hrollbacks
    have hmem : prepare ∈ calls := List.mem_of_getElem? hcall
    have hset := worldAt_follows rt hlodged htype (Nat.lt_of_lt_of_le hjn hn)
    rw [hprepare] at hset
    refine @register_of_prepared _ _ (registered rt) _ (fun i => withdrawHash (worldAt rt start calls i) withdraw) _
      j n _ hjn (fun i _ hi => worldAt_follows rt hlodged htype (Nat.lt_of_lt_of_le hi hn)) hprepare
      (fun k hlow hhigh data hsubmit hdigest => ?_) fun k hlow hhigh hregister hrollback => ?_
    · have hk : k < calls.length := Nat.lt_of_lt_of_le hhigh hn
      obtain rfl := actAt_data (List.getElem?_eq_getElem hk) (Or.inr hsubmit)
      rw [hinj _ (List.getElem_mem hk) prepare hmem (Except.ok.inj hdigest)] at hsubmit
      exact hsubmits k hlow hhigh hsubmit
    · have hk : k < calls.length := Nat.lt_of_lt_of_le hhigh hn
      have hact := (actAt_eq hk).symm.trans hrollback
      obtain ⟨rolledBack, hrolledBack⟩ := rollback_of_withdrawAct hact
      refine hrollbacks k hlow hhigh hrollback calls[k] rolledBack (List.getElem?_eq_getElem hk) hrolledBack ?_
      refine hpending k calls[k] (List.getElem?_eq_getElem hk) hact (fun hnone => hset.2.2 ?_) rolledBack hrolledBack
        prepare hmem params hparams hregister
      exact hregister.symm.trans hnone

end Runs

/-! ### Two rollbacks of a pending batch -/

section Pairs

variable (act : World → Call → Act Bytes) (start : World) (first second : Call)

theorem actAt_first : actAt rt act start [first, second] 0 = act start first := rfl

theorem actAt_second : actAt rt act start [first, second] 1 = act (step rt start first) second := rfl

theorem worldAt_second : worldAt rt start [first, second] 2 = step rt (step rt start first) second := rfl

end Pairs

def plainWorld : World := withdrawWorld 5 100 7

theorem plainWorld_lodged : Lodged sampleProgram sampleWithdraw (accountData plainWorld) where
  kind := Or.inl (show getType (plainWorld sampleProgram).data = .ok .program by decide +kernel)
  nonempty := show (plainWorld sampleWithdraw).data ≠ [] by decide +kernel
  notToken := show getType (plainWorld sampleWithdraw).data ≠ .ok .token by decide +kernel
  bound := fun _ => show relatedAccountKey .withdraw (plainWorld sampleWithdraw).data = .ok sampleProgram ∧
    relatedAccountKey .program (plainWorld sampleProgram).data = .ok sampleWithdraw by decide +kernel

def preparePlain : Call :=
  withdrawCall 4 (sampleKey 0xee) (withdrawAccounts true) (withdrawBatchBytes plainWithdrawals)

theorem preparePlain_instruction : preparePlain.instruction = .ok (.prepareBatchWithdraw plainParams) :=
  withdrawCall_prepare _ _ (by decide +kernel)

def rollbackOf (tokenWithdrawals : List Bytes) : Call :=
  withdrawCall 8 (sampleKey 0xee) (withdrawAccounts false) (batchBytes tokenWithdrawals)

theorem rollbackPlain_instruction :
    (rollbackOf plainWithdrawals).instruction = .ok (.rollbackBatchWithdraw ⟨plainParams.tokenWithdrawals⟩) :=
  withdrawCall_rollback _ _ (by decide +kernel)

/-- A batch that is rolled back itself is kept until then. -/
theorem plainRollback_keepsPending :
    KeepsPending plainRuntime sampleWithdraw plainWorld
      [preparePlain, rollbackOf plainWithdrawals] := by
  apply (keepsPending_iff plainRuntime plainWorld [preparePlain, rollbackOf plainWithdrawals]
    sampleProgram sampleWithdraw (plainWorld_lodged) (by decide +kernel) (by decide +kernel)
    (by decide +kernel)).mpr
  rintro (_ | _ | n) call hcall _ _ rolledBack hrolledBack prepare hmem params hparams _
  · obtain rfl := Option.some.inj hcall
    cases preparePlain_instruction.symm.trans hrolledBack
  · obtain rfl := Option.some.inj hcall
    cases rollbackPlain_instruction.symm.trans hrolledBack
    rcases List.mem_pair.mp hmem with rfl | rfl
    · cases preparePlain_instruction.symm.trans hparams
      rfl
    · cases rollbackPlain_instruction.symm.trans hparams
  · cases hcall

/-- A withdrawal of 7 by the second wallet, from an earlier batch. -/
def earlierWithdrawals : List Bytes :=
  [tokenWithdrawalsBytes 2 [withdrawalBytes 2 secondAddress 7 2 2 secondAddress 0]]

/-- Its late rollback drops the plain batch, which stays debited. -/
theorem lateRollback_loses :
    Lodged sampleProgram sampleWithdraw (accountData plainWorld) ∧
      withdrawHash plainWorld sampleWithdraw = .ok emptyHash ∧
      ¬KeepsPending plainRuntime sampleWithdraw plainWorld
        [preparePlain, rollbackOf earlierWithdrawals] := by
  refine ⟨plainWorld_lodged, by decide +kernel, fun hkeeps => ?_⟩
  have hrun : (execute plainRuntime plainWorld preparePlain).map (fun prepared =>
      (withdrawHash prepared sampleWithdraw,
        (execute plainRuntime prepared (rollbackOf earlierWithdrawals)).map (withdrawHash · sampleWithdraw))) =
      some (.ok plainDigest, some (.ok emptyHash)) := by
    decide +kernel
  obtain ⟨prepared, hprepared, hvalues⟩ := Option.map_eq_some_iff.mp hrun
  obtain ⟨hset, hrolled⟩ := Prod.mk.inj hvalues
  obtain ⟨rolled, hrolls, hcleared⟩ := Option.map_eq_some_iff.mp hrolled
  have hact : actAt plainRuntime (withdrawAct plainRuntime sampleWithdraw) plainWorld
      [preparePlain, rollbackOf earlierWithdrawals] 0 = .prepare preparePlain.rawParamsData := by
    have hne : withdrawHash prepared sampleWithdraw ≠ .ok emptyHash := by
      rw [hset]
      decide
    rw [actAt_first]
    simp only [withdrawAct, hprepared, preparePlain_instruction, if_neg hne]
    exact if_pos (by decide)
  have hearlier : (rollbackOf earlierWithdrawals).instruction = .ok (.rollbackBatchWithdraw
      ⟨[⟨2, [⟨⟨2, ⟨secondAddress.drop 40, rfl⟩⟩, 7, 2, ⟨2, ⟨secondAddress.drop 40, rfl⟩⟩, 0⟩]⟩]⟩) :=
    withdrawCall_rollback _ _ (by decide +kernel)
  have hkept := hkeeps 0 2 preparePlain plainParams rfl preparePlain_instruction hact Nat.zero_lt_two (Nat.le_refl 2)
    (fun k hlow hhigh => ?_) fun k hlow hhigh _ call rolledBack hcall hrolledBack => ?_
  · rw [worldAt_second, step_of_execute hprepared, step_of_execute hrolls, hcleared] at hkept
    exact absurd hkept (by decide +kernel)
  · obtain rfl : k = 1 := by omega
    rw [actAt_second, step_of_execute hprepared]
    simp only [withdrawAct, hrolls, hearlier]
    split <;> simp
  · obtain rfl : k = 1 := by omega
    obtain rfl := Option.some.inj hcall
    cases hearlier.symm.trans hrolledBack
    decide

end Chainring.Arch

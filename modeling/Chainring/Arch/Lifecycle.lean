import Chainring.Arch.Initialisation

/-! The life of a batch: it is prepared once, and then submitted or rolled back. Over any run from the
initialisation of a program account on, its hash registers are two-phase registers that no other
instruction touches. -/

namespace Chainring.Arch

open Bytes (ofWord)
open TwoPhase (Act Move Follows Consumes consumes_of_submit last_submitted)

variable (rt : Runtime)

/-! ### Acts on the registers -/

/-- What a call does to the settlement hash of a program account. -/
def settlementAct (program : Pubkey) (w : World) (call : Call) : Act Bytes :=
  match execute rt w call with
  | none => .other
  | some next =>
      if call.HasAccount 0 program then
        match call.instruction with
        | .ok (.prepareBatchSettlement _) =>
            if settlementHash next program = .ok emptyHash then .other else .prepare call.rawParamsData
        | .ok (.submitBatchSettlement _) => .submit call.rawParamsData
        | .ok .rollbackBatchSettlement => .rollback
        | _ => .other
      else .other

/-- What a call does to the hash of a withdraw account. -/
def withdrawAct (withdraw : Pubkey) (w : World) (call : Call) : Act Bytes :=
  match execute rt w call with
  | none => .other
  | some next =>
      if call.HasAccount 1 withdraw then
        match call.instruction with
        | .ok (.prepareBatchWithdraw _) =>
            if withdrawHash next withdraw = .ok emptyHash then .other else .prepare call.rawParamsData
        | .ok (.submitBatchWithdraw _) => .submit call.rawParamsData
        | .ok (.rollbackBatchWithdraw _) => .rollback
        | _ => .other
      else .other

/-- The digest that a register holds for the data of a batch. -/
def registered (data : Bytes) : Except Fault Hash := .ok (rt.digest data)

/-! ### Which instructions reach the registers -/

theorem reach_settlementHash {instruction : ProgramInstruction} {o : Nat} (ho : Within 222 254 o)
    (h : instruction.reach.program o) :
    (∃ params, instruction = .prepareBatchSettlement params) ∨
      (∃ params, instruction = .submitBatchSettlement params) ∨
      instruction = .rollbackBatchSettlement := by
  have hhigh := ho.2
  cases instruction with
  | prepareBatchSettlement params => exact Or.inl ⟨params, rfl⟩
  | submitBatchSettlement params => exact Or.inr (Or.inl ⟨params, rfl⟩)
  | rollbackBatchSettlement => exact Or.inr (Or.inr rfl)
  | prepareBatchWithdraw params =>
      have hlow : 286 ≤ o := h
      omega
  | initRuneReceiverState =>
      have hlow : 6688 ≤ o := h
      omega
  | _ => exact absurd h id

theorem reach_lastSettlementHash {instruction : ProgramInstruction} {o : Nat} (ho : Within 254 286 o)
    (h : instruction.reach.program o) : ∃ params, instruction = .submitBatchSettlement params := by
  have hlow := ho.1
  have hhigh := ho.2
  cases instruction with
  | submitBatchSettlement params => exact ⟨params, rfl⟩
  | prepareBatchSettlement params =>
      rcases h with hhash | (hevents : 286 ≤ o)
      · have := hhash.2
        omega
      · omega
  | rollbackBatchSettlement =>
      have := h.2
      omega
  | prepareBatchWithdraw params =>
      have hevents : 286 ≤ o := h
      omega
  | initRuneReceiverState =>
      have hend : 6688 ≤ o := h
      omega
  | _ => exact absurd h id

theorem reach_withdrawHash {instruction : ProgramInstruction} {o : Nat}
    (h : instruction.reach.withdraw o) :
    (∃ params, instruction = .prepareBatchWithdraw params) ∨
      (∃ params, instruction = .submitBatchWithdraw params) ∨
      ∃ params, instruction = .rollbackBatchWithdraw params := by
  cases instruction with
  | prepareBatchWithdraw params => exact Or.inl ⟨params, rfl⟩
  | submitBatchWithdraw params => exact Or.inr (Or.inl ⟨params, rfl⟩)
  | rollbackBatchWithdraw params => exact Or.inr (Or.inr ⟨params, rfl⟩)
  | _ => exact absurd h id

/-! ### One call -/

section Calls

variable {rt} {w next : World} {call : Call} {program withdraw : Pubkey}

/-- The data of the accounts of a world. -/
def accountData (w : World) (key : Pubkey) : Bytes := (w key).data

theorem Lodged.step (h : Lodged program withdraw (accountData w)) (rt : Runtime) (call : Call) :
    Lodged program withdraw (accountData (step rt w call)) :=
  h.congr fun _ hne => step_header hne

theorem account_of_hasAccount {index : Nat} {key : Pubkey} (h : call.HasAccount index key) :
    ∃ account, call.accounts[index]? = some account ∧ account.key = key :=
  Option.map_eq_some_iff.mp h

/-- A register of the program account that a call changed lies in its reach, and the call leads with
the account. -/
theorem programHash_changed (hlodged : Lodged program withdraw (accountData w))
    (hexecute : execute rt w call = some next) (offset : Nat)
    (hchanged : hashFromSlice offset (next program).data ≠ hashFromSlice offset (w program).data) :
    call.HasAccount 0 program ∧ ∃ instruction, call.instruction = .ok instruction ∧
      ∃ o, Within offset (offset + 32) o ∧ instruction.reach.program o := by
  obtain ⟨instruction, m, hinstruction, -, htouches, hdata⟩ := execute_cases hexecute
  rw [reachOf_eq hinstruction] at htouches
  have hbyte : ∃ o, Within offset (offset + 32) o ∧ (m program).data[o]? ≠ (load w program).data[o]? := by
    by_contra hsame
    apply hchanged
    apply hashFromSlice_congr
    intro o ho
    by_contra hne
    rw [hdata] at hne
    exact hsame ⟨o, ho, hne⟩
  obtain ⟨o, ho, hne⟩ := hbyte
  have hkind := hlodged.kind
  obtain ⟨hfirst, hreach⟩ := htouches.program_byte
    (hkind.elim ne_nil_of_getType ne_nil_of_getType)
    (fun htoken => by
      rw [show getType (accountData w program) = .ok .token from htoken] at hkind
      simp at hkind)
    (fun hwithdraw => by
      rw [show getType (accountData w program) = .ok .withdraw from hwithdraw] at hkind
      simp at hkind)
    hne
  exact ⟨hfirst, instruction, hinstruction, o, ho, hreach⟩

/-- The settlement hash moves as a two-phase register. -/
theorem settlement_move (rt : Runtime) (call : Call) (hlodged : Lodged program withdraw (accountData w)) :
    Move (registered rt) (.ok emptyHash) (settlementHash w program) (settlementAct rt program w call)
      (settlementHash (step rt w call) program) := by
  unfold settlementAct
  cases hexecute : execute rt w call with
  | none =>
      rw [step_of_none hexecute]
      rfl
  | some next =>
      rw [step_of_execute hexecute]
      have hchanged := programHash_changed hlodged hexecute settlementHashOffset
      by_cases hfirst : call.HasAccount 0 program
      · simp only [if_pos hfirst]
        obtain ⟨instruction, m, hinstruction, hrun, -, hdata⟩ := execute_cases hexecute
        obtain ⟨account, haccount, rfl⟩ := account_of_hasAccount hfirst
        have hnext : settlementHash next account.key = ProgramState.getSettlementHash (m account.key).data := by
          rw [settlementHash, hdata]
        cases instruction with
        | prepareBatchSettlement params =>
            obtain ⟨hbefore, hafter⟩ := prepareSettlementBatch_hash (load_loaded _ _) hrun haccount
            rw [← hnext] at hafter
            simp only [hinstruction]
            split
            · next hempty => exact hempty.trans hbefore.symm
            · next hne =>
                rcases hafter with hempty | hdigest
                · exact absurd hempty hne
                · rw [hdigest] at hne ⊢
                  exact ⟨hbefore, rfl, hne⟩
        | submitBatchSettlement params =>
            obtain ⟨hbefore, hne, hafter, -⟩ := submitSettlementBatch_hash hrun haccount
            rw [← hnext] at hafter
            simp only [hinstruction]
            refine ⟨hbefore, fun hempty => hne ?_, hafter⟩
            exact Except.ok.inj (hbefore.symm.trans hempty)
        | rollbackBatchSettlement =>
            have hafter := rollbackSettlementBatch_hash hrun haccount
            rw [← hnext] at hafter
            simp only [hinstruction]
            exact hafter
        | _ =>
            simp only [hinstruction]
            by_contra hne
            obtain ⟨-, instruction, hdecoded, o, ho, hreach⟩ := hchanged hne
            rw [hinstruction] at hdecoded
            rcases reach_settlementHash ho hreach with ⟨_, rfl⟩ | ⟨_, rfl⟩ | rfl <;> cases hdecoded
      · simp only [if_neg hfirst]
        by_contra hne
        exact hfirst (hchanged hne).1

/-- Only a submission changes the last settlement hash, to the digest of its data. -/
theorem lastSettlement_move (rt : Runtime) (call : Call)
    (hlodged : Lodged program withdraw (accountData w)) :
    (∃ data, settlementAct rt program w call = .submit data ∧
        lastSettlementHash (step rt w call) program = registered rt data) ∨
      ((∀ data, settlementAct rt program w call ≠ .submit data) ∧
        lastSettlementHash (step rt w call) program = lastSettlementHash w program) := by
  unfold settlementAct
  cases hexecute : execute rt w call with
  | none =>
      rw [step_of_none hexecute]
      exact Or.inr ⟨by simp, rfl⟩
  | some next =>
      rw [step_of_execute hexecute]
      have hchanged := programHash_changed hlodged hexecute lastSettlementHashOffset
      by_cases hfirst : call.HasAccount 0 program
      · simp only [if_pos hfirst]
        obtain ⟨instruction, m, hinstruction, hrun, -, hdata⟩ := execute_cases hexecute
        obtain ⟨account, haccount, rfl⟩ := account_of_hasAccount hfirst
        have hkept : (∀ params, instruction ≠ .submitBatchSettlement params) →
            lastSettlementHash next account.key = lastSettlementHash w account.key := by
          intro hother
          by_contra hne
          obtain ⟨-, instruction', hdecoded, o, ho, hreach⟩ := hchanged hne
          obtain ⟨params, hsubmit⟩ := reach_lastSettlementHash ho hreach
          exact hother params (Except.ok.inj (hinstruction.symm.trans (hdecoded.trans (congrArg _ hsubmit))))
        cases instruction with
        | submitBatchSettlement params =>
            obtain ⟨-, -, -, hlast⟩ := submitSettlementBatch_hash hrun haccount
            left
            refine ⟨call.rawParamsData, by simp only [hinstruction], ?_⟩
            rw [lastSettlementHash, hdata]
            exact hlast
        | prepareBatchSettlement params =>
            right
            refine ⟨fun data => ?_, hkept fun _ h => by cases h⟩
            simp only [hinstruction]
            split <;> simp
        | _ =>
            right
            exact ⟨fun data => by simp only [hinstruction]; simp, hkept fun _ h => by cases h⟩
      · simp only [if_neg hfirst]
        refine Or.inr ⟨by simp, ?_⟩
        by_contra hne
        exact hfirst (hchanged hne).1

/-- Only a withdraw account has acts on its hash. -/
theorem withdraw_of_act (h : withdrawAct rt withdraw w call ≠ .other) :
    getType (w withdraw).data = .ok .withdraw := by
  unfold withdrawAct at h
  cases hexecute : execute rt w call with
  | none => simp [hexecute] at h
  | some next =>
      simp only [hexecute] at h
      by_cases hsecond : call.HasAccount 1 withdraw
      · simp only [if_pos hsecond] at h
        obtain ⟨instruction, m, hinstruction, hrun, -, -⟩ := execute_cases hexecute
        obtain ⟨account, haccount, rfl⟩ := account_of_hasAccount hsecond
        have htype : ∀ {isSigner : Bool},
            Validated call.accounts 1 isSigner true (some .withdraw) (some 0) (load w) →
            getType (w account.key).data = .ok .withdraw :=
          fun hvalidated => hvalidated.type_eq haccount
        cases instruction with
        | prepareBatchWithdraw params =>
            obtain ⟨_, _, _, _, _, _, _, -, hvalidated, -⟩ := prepareWithdrawBatch_cases hrun
            exact htype hvalidated
        | submitBatchWithdraw params =>
            obtain ⟨_, _, _, _, _, _, -, hvalidated, -⟩ := submitWithdrawBatch_cases hrun
            exact htype hvalidated
        | rollbackBatchWithdraw params =>
            obtain ⟨_, _, -, hvalidated, -⟩ := rollbackWithdrawBatch_cases hrun
            exact htype hvalidated
        | _ => simp [hinstruction] at h
      · simp [if_neg hsecond] at h

/-- The hash of a withdraw account changes only by a withdraw instruction that lists it. -/
theorem withdrawHash_changed (hlodged : Lodged program withdraw (accountData w))
    (htype : getType (w withdraw).data = .ok .withdraw) (hexecute : execute rt w call = some next)
    (hchanged : withdrawHash next withdraw ≠ withdrawHash w withdraw) :
    call.HasAccount 1 withdraw ∧ ∃ instruction, call.instruction = .ok instruction ∧
      ∃ o, instruction.reach.withdraw o := by
  obtain ⟨instruction, m, hinstruction, hrun, htouches, hdata⟩ := execute_cases hexecute
  rw [reachOf_eq hinstruction] at htouches
  obtain ⟨howner, hrelated⟩ := hlodged.bound htype
  have hbyte : ∃ o, Within 37 69 o ∧ (m withdraw).data[o]? ≠ (load w withdraw).data[o]? := by
    by_contra hsame
    apply hchanged
    apply hashFromSlice_congr
    intro o ho
    by_contra hne
    rw [hdata] at hne
    exact hsame ⟨o, ho, hne⟩
  obtain ⟨o, ho, hne⟩ := hbyte
  obtain ⟨hfirst, hreach⟩ := htouches.withdraw_byte ⟨htype, howner⟩ (Nat.lt_trans ho.2 (by decide)) hne
  refine ⟨?_, instruction, hinstruction, o, hreach⟩
  rcases reach_withdrawHash hreach with ⟨params, rfl⟩ | ⟨params, rfl⟩ | ⟨params, rfl⟩
  · obtain ⟨_, _, _, _, _, _, _, hvalidated, -⟩ := prepareWithdrawBatch_cases hrun
    exact withdraw_listed hvalidated hfirst hrelated
  · obtain ⟨_, _, _, _, _, _, hvalidated, -⟩ := submitWithdrawBatch_cases hrun
    exact withdraw_listed hvalidated hfirst hrelated
  · obtain ⟨_, _, hvalidated, -⟩ := rollbackWithdrawBatch_cases hrun
    exact withdraw_listed hvalidated hfirst hrelated

/-- Every call on the hash of a withdraw account follows the moves of a two-phase register. -/
theorem withdraw_follows (rt : Runtime) (call : Call) (hlodged : Lodged program withdraw (accountData w))
    (htype : getType (w withdraw).data = .ok .withdraw) :
    Follows (registered rt) (.ok emptyHash) (withdrawHash w withdraw) (withdrawAct rt withdraw w call)
      (withdrawHash (step rt w call) withdraw) := by
  unfold withdrawAct
  cases hexecute : execute rt w call with
  | none =>
      rw [step_of_none hexecute]
      rfl
  | some next =>
      rw [step_of_execute hexecute]
      have hchanged := withdrawHash_changed hlodged htype hexecute
      by_cases hsecond : call.HasAccount 1 withdraw
      · simp only [if_pos hsecond]
        obtain ⟨instruction, m, hinstruction, hrun, -, hdata⟩ := execute_cases hexecute
        obtain ⟨account, haccount, rfl⟩ := account_of_hasAccount hsecond
        have hnext : withdrawHash next account.key = WithdrawState.getHash (m account.key).data := by
          rw [withdrawHash, hdata]
        cases instruction with
        | prepareBatchWithdraw params =>
            obtain ⟨hbefore, hafter⟩ := prepareWithdrawBatch_hash (load_loaded _ _) hrun haccount
            rw [← hnext] at hafter
            simp only [hinstruction]
            split
            · next hempty => exact hempty.trans hbefore.symm
            · next hused =>
                rcases hafter with hempty | hdigest
                · exact absurd hempty hused
                · rw [hdigest] at hused ⊢
                  exact ⟨hbefore, rfl, hused⟩
        | submitBatchWithdraw params =>
            obtain ⟨hbefore, hafter⟩ := submitWithdrawBatch_hash hrun haccount
            rw [← hnext] at hafter
            simp only [hinstruction]
            exact ⟨hbefore, hafter⟩
        | rollbackBatchWithdraw params =>
            have hafter := rollbackWithdrawBatch_hash hrun haccount
            rw [← hnext] at hafter
            simp only [hinstruction]
            exact hafter
        | _ =>
            simp only [hinstruction]
            by_contra hne
            obtain ⟨-, instruction, hdecoded, o, hreach⟩ := hchanged hne
            rw [hinstruction] at hdecoded
            rcases reach_withdrawHash hreach with ⟨_, rfl⟩ | ⟨_, rfl⟩ | ⟨_, rfl⟩ <;> cases hdecoded
      · simp only [if_neg hsecond]
        by_contra hne
        exact hsecond (hchanged hne).1

theorem withdrawAct_data {data : Bytes} (h : withdrawAct rt withdraw w call = .prepare data ∨
    withdrawAct rt withdraw w call = .submit data) : data = call.rawParamsData := by
  unfold withdrawAct at h
  split at h
  · simp at h
  · split at h
    · split at h
      · split at h <;> simp at h
        exact h.symm
      · simp at h
        exact h.symm
      · simp at h
      · simp at h
    · simp at h

/-- Where the digest is not empty on its data, it moves as one. -/
theorem withdraw_move (rt : Runtime) (call : Call) (hlodged : Lodged program withdraw (accountData w))
    (htype : getType (w withdraw).data = .ok .withdraw)
    (hne : rt.digest call.rawParamsData ≠ emptyHash) :
    Move (registered rt) (.ok emptyHash) (withdrawHash w withdraw) (withdrawAct rt withdraw w call)
      (withdrawHash (step rt w call) withdraw) := by
  have hfollows := withdraw_follows rt call hlodged htype
  cases hact : withdrawAct rt withdraw w call with
  | submit data =>
      rw [hact] at hfollows
      obtain rfl := withdrawAct_data (Or.inr hact)
      refine ⟨hfollows.1, fun hempty => hne ?_, hfollows.2⟩
      exact Except.ok.inj (hfollows.1.symm.trans hempty)
  | _ =>
      rw [hact] at hfollows
      exact hfollows

/-- No call changes these bytes of an account of another type. -/
theorem withdrawHash_kept (hlodged : Lodged program withdraw (accountData w))
    (htype : getType (w withdraw).data ≠ .ok .withdraw) :
    withdrawHash (step rt w call) withdraw = withdrawHash w withdraw := by
  obtain ⟨m, htouches, hdata⟩ := step_touches rt w call
  rw [withdrawHash, hdata]
  apply hashFromSlice_congr
  intro o ho
  by_contra hne
  have hhigh : o < 37 + 32 := ho.2
  obtain ⟨-, hempty | ⟨first, -, -, -, ⟨-, hreach⟩ | ⟨htoken, -⟩ | ⟨hbound, -⟩⟩⟩ := htouches.bytes withdraw o hne
  · exact hlodged.nonempty hempty
  · have hge : 222 ≤ o := Reach.program_ge _ o hreach
    omega
  · exact hlodged.notToken htoken.1
  · exact htype hbound.1

theorem settlementAct_data {data : Bytes} (h : settlementAct rt program w call = .prepare data ∨
    settlementAct rt program w call = .submit data) : data = call.rawParamsData := by
  unfold settlementAct at h
  split at h
  · simp at h
  · split at h
    · split at h
      · split at h <;> simp at h
        exact h.symm
      · simp at h
        exact h.symm
      · simp at h
      · simp at h
    · simp at h

/-- Neither preparation goes through while the settlement hash is set. -/
theorem prepare_refused (hset : settlementHash w program ≠ .ok emptyHash)
    (hfirst : call.HasAccount 0 program)
    (hprepare : (∃ params, call.instruction = .ok (.prepareBatchSettlement params)) ∨
      ∃ params, call.instruction = .ok (.prepareBatchWithdraw params)) :
    execute rt w call = none := by
  cases hexecute : execute rt w call with
  | none => rfl
  | some next =>
      obtain ⟨instruction, m, hinstruction, hrun, -, -⟩ := execute_cases hexecute
      obtain ⟨account, haccount, rfl⟩ := account_of_hasAccount hfirst
      rcases hprepare with ⟨params, hdecoded⟩ | ⟨params, hdecoded⟩
      · obtain rfl := Except.ok.inj (hinstruction.symm.trans hdecoded)
        exact absurd (prepareSettlementBatch_hash (load_loaded _ _) hrun haccount).1 hset
      · obtain rfl := Except.ok.inj (hinstruction.symm.trans hdecoded)
        obtain ⟨account', _, _, _, _, _, _, -, -, haccount', -, hempty, -⟩ := prepareWithdrawBatch_cases hrun
        obtain rfl : account' = account := Option.some.inj (haccount'.symm.trans haccount)
        exact absurd hempty hset

end Calls

/-! ### Runs -/

/-- The act of the call at a position of a run. -/
def actAt (act : World → Call → Act Bytes) (start : World) (calls : List Call) (n : Nat) : Act Bytes :=
  match calls[n]? with
  | some call => act (worldAt rt start calls n) call
  | none => .other

/-- The program account of the run has just been initialised, with the withdraw account next to it. -/
structure Initialises (before : World) (init : Call) (program withdraw : Pubkey) (start : World) : Prop where
  instruction : ∃ params, init.instruction = .ok (.initProgramState params)
  program : init.HasAccount 0 program
  withdraw : init.HasAccount 1 withdraw
  succeeds : execute rt before init = some start

/-- The life of the batches of a program account and its withdraw account over a run. -/
structure Lifecycle (program withdraw : Pubkey) (start : World) (calls : List Call) : Prop where
  /-- Every submitted settlement was prepared from the same data, with no other end in between. -/
  settled : ∀ n data, actAt rt (settlementAct rt program) start calls n = .submit data →
    ∃ j, Consumes (actAt rt (settlementAct rt program) start calls) data j n
  settledOnce : ∀ j n n' data data',
    Consumes (actAt rt (settlementAct rt program) start calls) data j n →
    Consumes (actAt rt (settlementAct rt program) start calls) data' j n' → n = n'
  prepareRefused : ∀ n call, calls[n]? = some call →
    settlementHash (worldAt rt start calls n) program ≠ .ok emptyHash → call.HasAccount 0 program →
    ((∃ params, call.instruction = .ok (.prepareBatchSettlement params)) ∨
      ∃ params, call.instruction = .ok (.prepareBatchWithdraw params)) →
    execute rt (worldAt rt start calls n) call = none
  /-- The last settlement hash is the digest of the last submitted settlement. -/
  last : ∀ n ≤ calls.length,
    (lastSettlementHash (worldAt rt start calls n) program = .ok emptyHash ∧
      ∀ i < n, ∀ data, actAt rt (settlementAct rt program) start calls i ≠ .submit data) ∨
    ∃ i < n, ∃ data, actAt rt (settlementAct rt program) start calls i = .submit data ∧
      lastSettlementHash (worldAt rt start calls n) program = .ok (rt.digest data) ∧
      ∀ k, i < k → k < n → ∀ data', actAt rt (settlementAct rt program) start calls k ≠ .submit data'
  withdrawn : ∀ n data, actAt rt (withdrawAct rt withdraw) start calls n = .submit data →
    ∃ j, Consumes (actAt rt (withdrawAct rt withdraw) start calls) data j n
  /-- No other call changes any of the three hashes. -/
  kept : ∀ n < calls.length,
    (actAt rt (settlementAct rt program) start calls n = .other →
      settlementHash (worldAt rt start calls (n + 1)) program =
        settlementHash (worldAt rt start calls n) program) ∧
    ((∀ data, actAt rt (settlementAct rt program) start calls n ≠ .submit data) →
      lastSettlementHash (worldAt rt start calls (n + 1)) program =
        lastSettlementHash (worldAt rt start calls n) program) ∧
    (actAt rt (withdrawAct rt withdraw) start calls n = .other →
      withdrawHash (worldAt rt start calls (n + 1)) withdraw =
        withdrawHash (worldAt rt start calls n) withdraw)

section Runs

variable {rt} {start : World} {calls : List Call} {program withdraw : Pubkey}

theorem actAt_eq {act : World → Call → Act Bytes} {n : Nat} (hn : n < calls.length) :
    actAt rt act start calls n = act (worldAt rt start calls n) calls[n] := by
  rw [actAt, List.getElem?_eq_getElem hn]

theorem lt_of_actAt {act : World → Call → Act Bytes} {n : Nat}
    (h : actAt rt act start calls n ≠ .other) : n < calls.length := by
  by_contra hn
  rw [actAt, List.getElem?_eq_none (Nat.not_lt.mp hn)] at h
  exact h rfl

theorem arranged_of_initialises {before : World} {init : Call}
    (h : Initialises rt before init program withdraw start) :
    Arranged program withdraw (accountData start) := by
  obtain ⟨params, hinit⟩ := h.instruction
  obtain ⟨instruction, m, hinstruction, hrun, -, hdata⟩ := execute_cases h.succeeds
  obtain rfl := Except.ok.inj (hinstruction.symm.trans hinit)
  obtain ⟨programAccount, hprogram, rfl⟩ := account_of_hasAccount h.program
  obtain ⟨first, hfirst, rfl⟩ := account_of_hasAccount h.withdraw
  have harranged := initProgramState_arranged hrun hprogram hfirst
  rwa [show (fun key => (m key).data) = accountData start from funext fun key => (hdata key).symm]
    at harranged

theorem lodged_worldAt (h : Lodged program withdraw (accountData start)) (n : Nat) :
    Lodged program withdraw (accountData (worldAt rt start calls n)) :=
  Run.stateAt_induction (P := fun w => Lodged program withdraw (accountData w)) (step rt) h
    (fun _ call _ hw => hw.step rt call) n

/-- Every account of the type keeps it. -/
theorem withdrawType_worldAt (h : Lodged program withdraw (accountData start)) (n : Nat) :
    getType (worldAt rt start calls n withdraw).data = getType (start withdraw).data :=
  (Run.stateAt_induction (P := fun w => Lodged program withdraw (accountData w) ∧
      getType (w withdraw).data = getType (start withdraw).data) (step rt) ⟨h, rfl⟩
    (fun _ call _ hw => ⟨hw.1.step rt call, (getType_congr (step_header hw.1.nonempty)).trans hw.2⟩) n).2

/-- From the initialisation of a program account on, its batches go through prepare and submit in
order, when the digest tells the batches of the run apart and is never empty on them. -/
theorem lifecycle_of_run (rt : Runtime) (before start : World) (init : Call) (calls : List Call)
    (program withdraw : Pubkey) (hinit : Initialises rt before init program withdraw start)
    (hinj : ∀ first ∈ calls, ∀ second ∈ calls,
      rt.digest first.rawParamsData = rt.digest second.rawParamsData →
      first.rawParamsData = second.rawParamsData)
    (hne : ∀ call ∈ calls, rt.digest call.rawParamsData ≠ emptyHash) :
    Lifecycle rt program withdraw start calls := by
  have harranged := arranged_of_initialises hinit
  have hlodged : ∀ n, Lodged program withdraw (accountData (worldAt rt start calls n)) :=
    lodged_worldAt harranged.lodged
  have hmoves : ∀ i < calls.length, Move (registered rt) (.ok emptyHash)
      (settlementHash (worldAt rt start calls i) program)
      (actAt rt (settlementAct rt program) start calls i)
      (settlementHash (worldAt rt start calls (i + 1)) program) := by
    intro i hi
    rw [actAt_eq hi, worldAt_succ hi]
    exact settlement_move rt calls[i] (hlodged i)
  have hlast : ∀ i < calls.length,
      (∃ data, actAt rt (settlementAct rt program) start calls i = .submit data ∧
        lastSettlementHash (worldAt rt start calls (i + 1)) program = registered rt data) ∨
      ((∀ data, actAt rt (settlementAct rt program) start calls i ≠ .submit data) ∧
        lastSettlementHash (worldAt rt start calls (i + 1)) program =
          lastSettlementHash (worldAt rt start calls i) program) := by
    intro i hi
    rw [actAt_eq hi, worldAt_succ hi]
    exact lastSettlement_move rt calls[i] (hlodged i)
  refine ⟨fun n data hsubmit => ?_, fun j n n' data data' h h' => h.unique h', ?_, fun n hn => ?_, ?_, ?_⟩
  · have hn : n < calls.length := lt_of_actAt (by rw [hsubmit]; simp)
    refine @consumes_of_submit _ _ (registered rt) _
      (fun n => settlementHash (worldAt rt start calls n) program) _ harranged.settlementHash _ _
      (fun i hi => hmoves i (Nat.lt_of_le_of_lt hi hn)) (fun j hj prepared hprepare hdigest => ?_) hsubmit
    have hjn := Nat.lt_trans hj hn
    rw [actAt_eq hjn] at hprepare
    rw [actAt_eq hn] at hsubmit
    obtain rfl := settlementAct_data (Or.inl hprepare)
    obtain rfl := settlementAct_data (Or.inr hsubmit)
    exact hinj _ (List.getElem_mem hjn) _ (List.getElem_mem hn) (Except.ok.inj hdigest)
  · exact fun n call _ hset hfirst hprepare => prepare_refused hset hfirst hprepare
  · exact @last_submitted _ _ (registered rt) _ (actAt rt (settlementAct rt program) start calls)
      (fun n => lastSettlementHash (worldAt rt start calls n) program) n harranged.lastSettlementHash
      fun i hi => hlast i (Nat.lt_of_lt_of_le hi hn)
  · intro n data hsubmit
    have hn : n < calls.length := lt_of_actAt (by rw [hsubmit]; simp)
    have htype : getType (start withdraw).data = .ok .withdraw := by
      rw [← withdrawType_worldAt harranged.lodged n]
      have hact : actAt rt (withdrawAct rt withdraw) start calls n ≠ .other := by
        rw [hsubmit]
        simp
      rw [actAt_eq hn] at hact
      exact withdraw_of_act hact
    refine @consumes_of_submit _ _ (registered rt) _
      (fun n => withdrawHash (worldAt rt start calls n) withdraw) _ (harranged.withdrawHash htype) _ _
      (fun i hi => ?_)
      (fun j hj prepared hprepare hdigest => ?_) hsubmit
    · have hin := Nat.lt_of_le_of_lt hi hn
      rw [actAt_eq hin, worldAt_succ hin]
      refine withdraw_move rt calls[i] (hlodged i) ?_ (hne _ (List.getElem_mem hin))
      rw [withdrawType_worldAt harranged.lodged i]
      exact htype
    · have hjn := Nat.lt_trans hj hn
      rw [actAt_eq hjn] at hprepare
      rw [actAt_eq hn] at hsubmit
      obtain rfl := withdrawAct_data (Or.inl hprepare)
      obtain rfl := withdrawAct_data (Or.inr hsubmit)
      exact hinj _ (List.getElem_mem hjn) _ (List.getElem_mem hn) (Except.ok.inj hdigest)
  · intro n hn
    refine ⟨fun hother => ?_, fun hother => ?_, fun hother => ?_⟩
    · have hmove := hmoves n hn
      rw [hother] at hmove
      exact hmove
    · rcases hlast n hn with ⟨data, hsubmit, -⟩ | ⟨-, hkept⟩
      · exact absurd hsubmit (hother data)
      · exact hkept
    · rw [worldAt_succ hn]
      by_cases htype : getType (worldAt rt start calls n withdraw).data = .ok .withdraw
      · have hmove := withdraw_move rt calls[n] (hlodged n) htype (hne _ (List.getElem_mem hn))
        rw [actAt_eq hn] at hother
        rw [hother] at hmove
        exact hmove
      · exact withdrawHash_kept (hlodged n) htype

end Runs

/-! A batch without entries, prepared and submitted after the initialisation. -/

def initCall : Call where
  programId := sampleKey 0xee
  accounts := [⟨sampleProgram, true, true⟩, ⟨sampleWithdraw, false, true⟩]
  instructionData := [0] ++ ofWord 2 44 ++ feeAddress ++ ofWord 2 44 ++ feeAddress ++ [3]

def emptyBatchDigest : Hash :=
  ⟨[0x96, 0xa2, 0x96, 0xd2, 0x24, 0xf2, 0x85, 0xc6, 0x7b, 0xee, 0x93, 0xc3, 0xf, 0x8a, 0x30, 0x91,
    0x57, 0xf0, 0xda, 0xa3, 0x5d, 0xc5, 0xb8, 0x7e, 0x41, 0xb, 0x78, 0x63, 0xa, 0x9, 0xcf, 0xc7], rfl⟩

def emptyBatchRuntime : Runtime := sampleRuntime [([0, 0], emptyBatchDigest)]

def emptyBatchCall (instrType : UInt8) : Call where
  programId := sampleKey 0xee
  accounts := [⟨sampleProgram, true, true⟩]
  instructionData := [instrType, 0, 0]

def initialisedWorld : World :=
  (execute emptyBatchRuntime (sampleWorld []) initCall).getD (sampleWorld [])

theorem emptyBatch_lifecycle :
    Lifecycle emptyBatchRuntime sampleProgram sampleWithdraw initialisedWorld
      [emptyBatchCall 5, emptyBatchCall 6] := by
  have hexecute : (execute emptyBatchRuntime (sampleWorld []) initCall).isSome = true := by
    decide +kernel
  have hinstruction : (initCall.instruction.toOption.map fun instruction =>
      match instruction with
      | .initProgramState _ => true
      | _ => false) = some true := by
    decide +kernel
  refine lifecycle_of_run emptyBatchRuntime (sampleWorld []) initialisedWorld initCall _ _ _
    ⟨?_, by decide, by decide, ?_⟩ ?_ ?_
  · cases hdecoded : initCall.instruction with
    | error e => simp [hdecoded, Except.toOption] at hinstruction
    | ok instruction =>
        cases instruction with
        | initProgramState params => exact ⟨params, rfl⟩
        | _ => simp [hdecoded, Except.toOption] at hinstruction
  · obtain ⟨start, hstart⟩ := Option.isSome_iff_exists.mp hexecute
    rw [initialisedWorld, hstart]
    rfl
  · decide +kernel
  · decide +kernel

end Chainring.Arch

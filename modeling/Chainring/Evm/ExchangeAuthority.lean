import Chainring.Evm.SovereignTiming

/-! Who may change the storage of the exchange. One lemma says what each call that went through did;
along a run the variables that decide who may do what go back to the calls that set them, and a balance
that went down goes back to its wallet or to the submitter of the time. -/

namespace Chainring.Evm.Exchange

open Ledger (Entry)
open Balances (Slot slots wordModulus)
open CheckedWord (bind_eq_ok)

variable {E : Type} {host : Host} {tokens : Tokens E} {context : Context} {world next : World E}

/-- What a call that went through did. -/
inductive Effect (host : Host) (tokens : Tokens E) (context : Context) (world : World E) (call : Call)
    (next : World E) : Prop where
  | deposits (token : Address) (amount : Uint256) (env : E) (balances : Balances) (event : Event)
      (credited : world.state.balances.increase context.sender token amount = .ok balances)
      (shape : next = ({ world with env }.setBalances balances).emit event)
  | asks (token : Address) (amount : Uint256) (called : call = .sovereignWithdrawal token amount)
      (stores : Asks context world token amount next)
  | completes (token : Address) (amount : Uint256) (called : call = .sovereignWithdrawal token amount)
      (completed : Completes tokens context world token amount next)
  | submits (withdrawals : List Bytes) (processed : World E) (called : call = .submitWithdrawals withdrawals)
      (sender : context.sender = world.state.submitter)
      (entries : withdrawals.foldlM (submitWithdrawal host tokens) world = .ok processed)
      (shape : next = { processed with state := { processed.state with
        lastWithdrawalBatchHash := calculateWithdrawalBatchHash host withdrawals } })
  | marks (batchHash : Bytes32) (log : List Event) (sender : context.sender = world.state.submitter)
      (shape : next = { world with state := { world.state with batchHash }, log })
  | settles (data : Bytes) (batchSettlement : BatchSettlement) (balances : Balances)
      (lastSettlementBatchHash : Bytes32) (log : List Event) (called : call = .submitSettlementBatch data)
      (sender : context.sender = world.state.submitter)
      (pending : world.state.batchHash = host.keccak256 data)
      (decoded : host.decodeBatchSettlement data = some batchSettlement)
      (applied : batchSettlement.tokenAdjustmentLists.foldlM
        (applyTokenAdjustmentList batchSettlement world.state.feeAccount) world.state.balances =
          .ok balances)
      (shape : next = { world with
        state := { world.state with balances, lastSettlementBatchHash, batchHash := 0 }, log })
  | sets (setting : call.IsSetting)

theorem execute_effect {call : Call} (h : execute host tokens context world call = .ok next) :
    Effect host tokens context world call next := by
  cases call with
  | receive value =>
      obtain ⟨env, -, hrest⟩ := bind_eq_ok.mp h
      obtain ⟨balances, hbalances, hrest⟩ := bind_eq_ok.mp hrest
      cases hrest
      exact .deposits 0 value env balances _ hbalances rfl
  | deposit token amount =>
      obtain ⟨env, -, hrest⟩ := bind_eq_ok.mp h
      obtain ⟨balances, hbalances, hrest⟩ := bind_eq_ok.mp hrest
      cases hrest
      exact .deposits token amount env balances _ hbalances rfl
  | sovereignWithdrawal token amount =>
      rcases sovereignWithdrawal_cases h with hasks | hcompletes
      · exact .asks token amount rfl hasks
      · exact .completes token amount rfl hcompletes
  | submitWithdrawals withdrawals =>
      obtain ⟨hsender, -, -, processed, hprocessed, hnext⟩ := submitWithdrawals_cases h
      exact .submits withdrawals processed rfl hsender hprocessed hnext
  | prepareSettlementBatch data =>
      obtain ⟨settlement, log, hshared, rfl⟩ := prepareSettlementBatch_cases h
      obtain ⟨hsender, -, _, _, -, -, -, -, hcases⟩ := Evm.prepareSettlementBatch_cases hshared
      rcases hcases with ⟨-, rfl⟩ | ⟨-, rfl⟩
      · exact .marks _ _ hsender rfl
      · exact .marks _ _ hsender rfl
  | submitSettlementBatch data =>
      obtain ⟨settlement, log, hshared, rfl⟩ := submitSettlementBatch_cases h
      obtain ⟨hsender, -, hhash, batchSettlement, balances, hdecode, happlied, -, rfl⟩ :=
        Evm.submitSettlementBatch_cases hshared
      exact .settles data batchSettlement balances _ _ rfl hsender hhash hdecode happlied rfl
  | rollbackBatch =>
      obtain ⟨settlement, hshared, rfl⟩ := rollbackBatch_cases h
      obtain ⟨hsender, rfl⟩ := Evm.rollbackBatch_cases hshared
      exact .marks _ _ hsender rfl
  | setSubmitter submitter => exact .sets trivial
  | setFeeAccount feeAccount => exact .sets trivial
  | setSovereignWithdrawalDelay delay => exact .sets trivial
  | linkSigner linkedSigner digest signature => exact .sets trivial
  | removeLinkedSigner => exact .sets trivial

/-! ### The variables that settings change -/

structure Roles where
  submitter : Address
  feeAccount : Address
  sovereignWithdrawalDelay : Uint256
  linkedSigners : Address → Address

def State.roles (state : State) : Roles where
  submitter := state.submitter
  feeAccount := state.feeAccount
  sovereignWithdrawalDelay := state.sovereignWithdrawalDelay
  linkedSigners := state.linkedSigners

theorem Pays.roles {sequence : UInt64} {sender token : Address} {amount fee : Uint256}
    (h : Pays tokens world sequence sender token amount fee next) :
    next.state.roles = world.state.roles := by
  obtain ⟨_, _, _, -, -, -, -, rfl⟩ := h
  rfl

theorem withdraw_roles {sequence : UInt64} {sender token : Address} {amount fee : Uint256}
    (h : withdraw tokens world sequence sender token amount fee = .ok next) :
    next.state.roles = world.state.roles := by
  rcases withdraw_cases h with ⟨-, rfl⟩ | hpays
  · rfl
  · exact hpays.roles

theorem submitWithdrawal_roles {withdrawal : Bytes}
    (h : submitWithdrawal host tokens world withdrawal = .ok next) :
    next.state.roles = world.state.roles := by
  have hexecution : ∀ txType signedTx executed,
      executeWithdrawal tokens world txType signedTx = .ok executed →
      executed.state.roles = world.state.roles := by
    intro txType signedTx executed hexecuted
    rcases executeWithdrawal_cases hexecuted with ⟨-, rfl⟩ | ⟨-, hpays⟩
    · rfl
    · exact hpays.roles
  obtain ⟨txType, signedTx, -, hcases⟩ := submitWithdrawal_cases h
  rcases hcases with ⟨-, -, rfl⟩ | ⟨-, -, hexecuted⟩ | ⟨-, executed, hexecuted, rfl⟩
  · rfl
  · exact hexecution txType signedTx next hexecuted
  · exact hexecution txType signedTx executed hexecuted

/-- Any other call leaves them as they are. -/
theorem execute_roles {call : Call} (h : execute host tokens context world call = .ok next)
    (hcall : ¬call.IsSetting) : next.state.roles = world.state.roles := by
  cases execute_effect h with
  | deposits token amount env balances event hcredited hnext =>
      rw [hnext]
      rfl
  | asks token amount hcalled hasks =>
      rw [(requestWithdrawal_cases hasks.stored).2]
      rfl
  | completes token amount hcalled hcompletes =>
      obtain ⟨executed, hexecuted, rfl⟩ := hcompletes.executes
      have hroles := withdraw_roles hexecuted
      exact hroles
  | submits withdrawals processed hcalled hsender hprocessed hnext =>
      have hroles := submitted_induction (fun reached => reached.state.roles = world.state.roles)
        (fun _ _ _ hbefore hentry => (submitWithdrawal_roles hentry).trans hbefore) rfl hprocessed
      rw [hnext]
      exact hroles
  | marks batchHash log hsender hnext =>
      rw [hnext]
      rfl
  | settles data batchSettlement balances last log hcalled hsender hpending hdecode happlied hnext =>
      rw [hnext]
      rfl
  | sets hsetting => exact absurd hsetting hcall

/-- The owner makes `submitter` the submitter. -/
def SetsSubmitter (context : Context) (call : Call) (submitter : Address) : Prop :=
  context.sender = context.owner ∧ call = .setSubmitter submitter ∧ submitter ≠ 0

def SetsFeeAccount (context : Context) (call : Call) (feeAccount : Address) : Prop :=
  context.sender = context.owner ∧ call = .setFeeAccount feeAccount ∧ feeAccount ≠ 0

def SetsDelay (context : Context) (call : Call) (delay : Uint256) : Prop :=
  context.sender = context.owner ∧ call = .setSovereignWithdrawalDelay delay ∧ 86400 ≤ delay

/-- The wallet links a signer that signed for it. -/
def LinksSigner (host : Host) (wallet : Address) (context : Context) (call : Call)
    (linkedSigner : Address) : Prop :=
  context.sender = wallet ∧ linkedSigner ≠ 0 ∧ ∃ digest signature,
    call = .linkSigner linkedSigner digest signature ∧
      host.recover digest signature = some linkedSigner

/-- What a call may do to the variables that settings change. -/
structure MaySet (host : Host) (context : Context) (call : Call) (roles next : Roles) : Prop where
  submitter : next.submitter = roles.submitter ∨ SetsSubmitter context call next.submitter
  feeAccount : next.feeAccount = roles.feeAccount ∨ SetsFeeAccount context call next.feeAccount
  delay : next.sovereignWithdrawalDelay = roles.sovereignWithdrawalDelay ∨
    SetsDelay context call next.sovereignWithdrawalDelay
  linkedSigner : ∀ wallet, next.linkedSigners wallet = roles.linkedSigners wallet ∨
    (context.sender = wallet ∧ call = .removeLinkedSigner ∧ next.linkedSigners wallet = 0) ∨
    LinksSigner host wallet context call (next.linkedSigners wallet)

theorem MaySet.refl (host : Host) (context : Context) (call : Call) (roles : Roles) :
    MaySet host context call roles roles :=
  ⟨Or.inl rfl, Or.inl rfl, Or.inl rfl, fun _ => Or.inl rfl⟩

theorem onlyOwner_eq_ok {u : Unit} : onlyOwner context = .ok u ↔ context.sender = context.owner := by
  unfold onlyOwner
  split <;> simp_all

theorem execute_maySet {call : Call} (h : execute host tokens context world call = .ok next) :
    MaySet host context call world.state.roles next.state.roles := by
  have hrefl := MaySet.refl host context call world.state.roles
  by_cases hcall : call.IsSetting
  · cases call with
    | setSubmitter submitter =>
        obtain ⟨_, howner, hrest⟩ := bind_eq_ok.mp h
        obtain ⟨_, hvalid, hrest⟩ := bind_eq_ok.mp hrest
        cases hrest
        exact { hrefl with
          submitter := Or.inr ⟨onlyOwner_eq_ok.mp howner, rfl, require_eq_ok.mp hvalid⟩ }
    | setFeeAccount feeAccount =>
        obtain ⟨_, howner, hrest⟩ := bind_eq_ok.mp h
        obtain ⟨_, hvalid, hrest⟩ := bind_eq_ok.mp hrest
        cases hrest
        exact { hrefl with
          feeAccount := Or.inr ⟨onlyOwner_eq_ok.mp howner, rfl, require_eq_ok.mp hvalid⟩ }
    | setSovereignWithdrawalDelay delay =>
        obtain ⟨_, howner, hrest⟩ := bind_eq_ok.mp h
        obtain ⟨_, hvalid, hrest⟩ := bind_eq_ok.mp hrest
        cases hrest
        exact { hrefl with
          delay := Or.inr ⟨onlyOwner_eq_ok.mp howner, rfl, require_eq_ok.mp hvalid⟩ }
    | linkSigner linkedSigner digest signature =>
        obtain ⟨recovered, hrecovered, hrest⟩ := bind_eq_ok.mp h
        split at hrest
        · cases hrest
          exact hrefl
        · next hsigner =>
            cases hrest
            rw [not_or, not_not] at hsigner
            obtain ⟨hne, rfl⟩ := hsigner
            refine { hrefl with linkedSigner := fun wallet => ?_ }
            by_cases hwallet : wallet = context.sender
            · have hlinked : Function.update world.state.linkedSigners context.sender recovered wallet =
                  recovered := by
                rw [hwallet, Function.update_self]
              simp only [State.roles, World.emit, hlinked]
              exact Or.inr (Or.inr ⟨hwallet.symm, hne, digest, signature, rfl,
                orRevert_eq_ok.mp hrecovered⟩)
            · exact Or.inl (Function.update_of_ne hwallet _ _)
    | removeLinkedSigner =>
        cases h
        refine { hrefl with linkedSigner := fun wallet => ?_ }
        by_cases hwallet : wallet = context.sender
        · refine Or.inr (Or.inl ⟨hwallet.symm, rfl, ?_⟩)
          simp [State.roles, World.emit, hwallet]
        · exact Or.inl (Function.update_of_ne hwallet _ _)
    | receive value => exact absurd hcall id
    | deposit token amount => exact absurd hcall id
    | sovereignWithdrawal token amount => exact absurd hcall id
    | submitWithdrawals withdrawals => exact absurd hcall id
    | prepareSettlementBatch data => exact absurd hcall id
    | submitSettlementBatch data => exact absurd hcall id
    | rollbackBatch => exact absurd hcall id
  · rw [execute_roles h hcall]
    exact hrefl

/-- The value after the run is the initial one, or what the last call to change it set it to. -/
def SetSince {V : Type} (host : Host) (tokens : Tokens E) (origin : World E) (inputs : List (Input E))
    (value : Roles → V) (initial : V) (Sets : Context → Call → V → Prop) : Prop :=
  let final := value (run host tokens origin inputs).state.roles
  final = initial ∨
    ∃ j < inputs.length, ∃ context call, inputs[j]? = some (.call context call) ∧
      execute host tokens context (worldAt host tokens origin inputs j) call =
        .ok (worldAt host tokens origin inputs (j + 1)) ∧
      Sets context call final ∧
      ∀ k, j < k → k ≤ inputs.length → value (worldAt host tokens origin inputs k).state.roles = final

/-- A step changes no variable, or it is a call that went through. -/
theorem worldAt_roles (host : Host) (tokens : Tokens E) (origin : World E) (inputs : List (Input E))
    {n : Nat} (hn : n < inputs.length) :
    (worldAt host tokens origin inputs (n + 1)).state.roles =
        (worldAt host tokens origin inputs n).state.roles ∨
      ∃ context call, inputs[n]? = some (.call context call) ∧
        execute host tokens context (worldAt host tokens origin inputs n) call =
          .ok (worldAt host tokens origin inputs (n + 1)) := by
  rw [worldAt_succ host tokens origin inputs hn, List.getElem?_eq_getElem hn]
  cases inputs[n] with
  | outside change => exact Or.inl rfl
  | call context call =>
      rcases step_call host tokens context (worldAt host tokens origin inputs n) call with
        ⟨next, hexecute, hstep⟩ | hstep
      · rw [hstep]
        exact Or.inr ⟨context, call, rfl, hexecute⟩
      · rw [hstep]
        exact Or.inl rfl

theorem setSince_of_maySet {V : Type} (host : Host) (tokens : Tokens E) {origin : World E}
    (inputs : List (Input E)) (value : Roles → V) {initial : V} {Sets : Context → Call → V → Prop}
    (hstart : value origin.state.roles = initial)
    (hcalls : ∀ context call roles next, MaySet host context call roles next →
      value next = value roles ∨ value next = initial ∨ Sets context call (value next)) :
    SetSince host tokens origin inputs value initial Sets := by
  let valueAt := fun i => value (worldAt host tokens origin inputs i).state.roles
  have hfinal : run host tokens origin inputs = worldAt host tokens origin inputs inputs.length :=
    (Run.stateAt_length _ _ _).symm
  dsimp only [SetSince]
  rw [hfinal]
  by_cases hne : valueAt inputs.length = initial
  · exact Or.inl hne
  have hsteps : ∀ i < inputs.length, valueAt (i + 1) = valueAt i ∨ valueAt (i + 1) = initial ∨
      ∃ context call, inputs[i]? = some (.call context call) ∧
        execute host tokens context (worldAt host tokens origin inputs i) call =
          .ok (worldAt host tokens origin inputs (i + 1)) ∧ Sets context call (valueAt (i + 1)) := by
    intro i hi
    rcases worldAt_roles host tokens origin inputs hi with hkept | ⟨context, call, hcalled, hexecute⟩
    · exact Or.inl (congrArg value hkept)
    · refine (hcalls context call _ _ (execute_maySet hexecute)).imp_right fun h => h.imp_right ?_
      exact fun hsets => ⟨context, call, hcalled, hexecute, hsets⟩
  obtain ⟨j, hj, ⟨context, call, hcalled, hexecute, hsets⟩, hsince⟩ := Run.written_since valueAt
    (fun i v => ∃ context call, inputs[i]? = some (.call context call) ∧
      execute host tokens context (worldAt host tokens origin inputs i) call =
        .ok (worldAt host tokens origin inputs (i + 1)) ∧ Sets context call v)
    hstart inputs.length hsteps hne
  exact Or.inr ⟨j, hj, context, call, hcalled, hexecute, hsets, hsince⟩

/-- After every run the submitter, the fee account and the delay are those of `initialize` or of a later
call of the owner, and a signer linked to a wallet was linked by the wallet, showing its signature. -/
theorem roles_set_since (host : Host) (tokens : Tokens E) (submitter feeAccount : Address)
    (delay : Uint256) (env : E) (inputs : List (Input E)) :
    SetSince host tokens (start submitter feeAccount delay env) inputs Roles.submitter submitter
        SetsSubmitter ∧
      SetSince host tokens (start submitter feeAccount delay env) inputs Roles.feeAccount feeAccount
        SetsFeeAccount ∧
      SetSince host tokens (start submitter feeAccount delay env) inputs
        Roles.sovereignWithdrawalDelay delay SetsDelay ∧
      ∀ wallet, SetSince host tokens (start submitter feeAccount delay env) inputs
        (fun roles => roles.linkedSigners wallet) 0 (LinksSigner host wallet) := by
  refine ⟨?_, ?_, ?_, fun wallet => ?_⟩
  · exact setSince_of_maySet host tokens inputs _ rfl fun _ _ _ _ h => h.submitter.imp_right Or.inr
  · exact setSince_of_maySet host tokens inputs _ rfl fun _ _ _ _ h => h.feeAccount.imp_right Or.inr
  · exact setSince_of_maySet host tokens inputs _ rfl fun _ _ _ _ h => h.delay.imp_right Or.inr
  · refine setSince_of_maySet host tokens inputs (fun roles => roles.linkedSigners wallet) rfl
      fun context call roles next h => ?_
    rcases h.linkedSigner wallet with hkept | ⟨-, -, hremoved⟩ | hlinks
    · exact Or.inl hkept
    · exact Or.inr (Or.inl hremoved)
    · exact Or.inr (Or.inr hlinks)

/-! ### Balances that go down -/

/-- The entry is of the wallet in the token, and it is signed or on the path of requests. -/
def EntryOf (host : Host) (state : State) (withdrawal : Bytes) (wallet token : Address) : Prop :=
  ∃ txType signedTx, decodeWithdrawal host withdrawal = .ok (txType, signedTx) ∧
    signedTx.tx.sender = wallet ∧ signedTx.tx.token = token ∧
    (pendingSovereignWithdrawal state txType signedTx = true ∨
      SignedBySender host state txType signedTx)

/-- A decrement of the batch is of the wallet in the token. -/
def DecrementOf (batchSettlement : BatchSettlement) (wallet token : Address) : Prop :=
  ∃ list ∈ batchSettlement.tokenAdjustmentLists, list.token = token ∧
    ∃ decrement ∈ list.decrements, walletAt batchSettlement decrement = wallet

/-- The call is the completion by the wallet of its request, or a batch of the submitter that names the
wallet. -/
def MayLower (host : Host) (tokens : Tokens E) (context : Context) (world : World E) (call : Call)
    (next : World E) (wallet token : Address) : Prop :=
  (context.sender = wallet ∧ ∃ amount, call = .sovereignWithdrawal token amount ∧
      Completes tokens context world token amount next) ∨
    (context.sender = world.state.submitter ∧
      ((∃ withdrawals before withdrawal after, call = .submitWithdrawals withdrawals ∧
          Processes host tokens context world withdrawals before withdrawal after ∧
          EntryOf host before.state withdrawal wallet token) ∨
        ∃ data batchSettlement, call = .submitSettlementBatch data ∧
          world.state.batchHash = host.keccak256 data ∧
          host.decodeBatchSettlement data = some batchSettlement ∧
          DecrementOf batchSettlement wallet token))

theorem entryOf_of_lowers {withdrawal : Bytes} {wallet token : Address}
    (h : submitWithdrawal host tokens world withdrawal = .ok next)
    (hlower : next.state.balances wallet token < world.state.balances wallet token) :
    EntryOf host world.state withdrawal wallet token := by
  obtain ⟨txType, signedTx, hdecode, -⟩ := submitWithdrawal_cases h
  obtain ⟨⟨hwallet, htoken⟩, -, hreason⟩ :=
    (submitWithdrawal_lowers_iff h hdecode wallet token).mp hlower
  exact ⟨txType, signedTx, hdecode, hwallet.symm, htoken.symm, hreason⟩

/-- A balance that a batch lowers was lowered by one of its entries. -/
theorem exists_entry_lowering {withdrawals : List Bytes} {wallet token : Address}
    (h : withdrawals.foldlM (submitWithdrawal host tokens) world = .ok next)
    (hlower : next.state.balances wallet token < world.state.balances wallet token) :
    ∃ before withdrawal after, (∃ earlier later, withdrawals = earlier ++ withdrawal :: later ∧
        earlier.foldlM (submitWithdrawal host tokens) world = .ok before) ∧
      submitWithdrawal host tokens before withdrawal = .ok after ∧
      after.state.balances wallet token < before.state.balances wallet token := by
  induction withdrawals using List.reverseRecOn generalizing next with
  | nil =>
      cases h
      exact absurd hlower (BitVec.lt_irrefl _)
  | append_singleton withdrawals withdrawal ih =>
      rw [List.foldlM_append] at h
      obtain ⟨before, hbefore, hlast⟩ := bind_eq_ok.mp h
      rw [List.foldlM_cons] at hlast
      obtain ⟨after, hafter, hnil⟩ := bind_eq_ok.mp hlast
      cases hnil
      by_cases hentry : next.state.balances wallet token < before.state.balances wallet token
      · exact ⟨before, withdrawal, next, ⟨withdrawals, [], rfl, hbefore⟩, hafter, hentry⟩
      · have hle : (before.state.balances wallet token).toNat ≤ (next.state.balances wallet token).toNat :=
          BitVec.not_lt.mp hentry
        obtain ⟨first, lowering, lowered, ⟨earlier, later, hsplit, hfirst⟩, hrest⟩ :=
          ih hbefore (Nat.lt_of_le_of_lt hle hlower)
        refine ⟨first, lowering, lowered, ⟨earlier, later ++ [withdrawal], ?_, hfirst⟩, hrest⟩
        rw [hsplit, List.append_assoc, List.cons_append]

theorem debitTo_entries {batchSettlement : BatchSettlement} {feeAccount wallet token : Address}
    {list : TokenAdjustmentList}
    (hnone : list.token = token → ∀ decrement ∈ list.decrements, walletAt batchSettlement decrement ≠ wallet) :
    ∀ entry ∈ list.entries batchSettlement feeAccount, entry.debitTo (wallet, token) = 0 := by
  intro entry hentry
  simp only [TokenAdjustmentList.entries, List.mem_append, List.mem_map] at hentry
  rcases hentry with (⟨increment, -, rfl⟩ | ⟨decrement, hdecrement, rfl⟩) | hfee
  · rfl
  · refine if_neg fun hslot => ?_
    obtain ⟨hwallet, htoken⟩ := Prod.mk.inj hslot
    exact hnone htoken decrement hdecrement hwallet
  · split at hfee
    · rw [List.mem_singleton.mp hfee]
      rfl
    · cases hfee

/-- A balance that a settlement lowers is one that it decrements. -/
theorem decrementOf_of_lowers {batchSettlement : BatchSettlement} {feeAccount wallet token : Address}
    {balances final : Balances}
    (h : batchSettlement.tokenAdjustmentLists.foldlM
      (applyTokenAdjustmentList batchSettlement feeAccount) balances = .ok final)
    (hlower : final wallet token < balances wallet token) :
    DecrementOf batchSettlement wallet token := by
  by_contra hnone
  have hrun := Ledger.run_of_foldlM .reverts wordModulus (fun _ _ _ => run_applyTokenAdjustmentList) h
  obtain ⟨lost, hbalance, hzero⟩ := Ledger.run_balance .reverts wordModulus hrun (wallet, token)
  have hdebited : Ledger.debited (batchSettlement.tokenAdjustmentLists.flatMap fun list =>
      list.entries batchSettlement feeAccount) (wallet, token) = 0 := by
    refine Ledger.debited_eq_zero fun entry hentry => ?_
    obtain ⟨list, hlist, hentry⟩ := List.mem_flatMap.mp hentry
    exact debitTo_entries (fun htoken decrement hdecrement hwallet =>
      hnone ⟨list, hlist, htoken, decrement, hdecrement, hwallet⟩) entry hentry
  have hlt : slots final (wallet, token) < slots balances (wallet, token) := hlower
  rw [hzero rfl, hdebited] at hbalance
  omega

theorem withdraw_lowers {sequence : UInt64} {sender token wallet t : Address} {amount fee : Uint256}
    (h : withdraw tokens world sequence sender token amount fee = .ok next)
    (hlower : next.state.balances wallet t < world.state.balances wallet t) :
    sender = wallet ∧ token = t := by
  rcases withdraw_cases h with ⟨-, rfl⟩ | hpays
  · exact absurd hlower (BitVec.lt_irrefl _)
  · by_contra hother
    have hbalance := hpays.balance wallet t
    rw [if_neg hother] at hbalance
    have hlt : (next.state.balances wallet t).toNat < (world.state.balances wallet t).toNat := hlower
    omega

/-- Every call that lowers a balance may. -/
theorem execute_mayLower {call : Call} {wallet token : Address}
    (h : execute host tokens context world call = .ok next)
    (hlower : next.state.balances wallet token < world.state.balances wallet token) :
    MayLower host tokens context world call next wallet token := by
  have hmoved : next.state.balances ≠ world.state.balances := by
    intro hsame
    rw [hsame] at hlower
    exact BitVec.lt_irrefl _ hlower
  cases execute_effect h with
  | deposits t amount env balances event hcredited hnext =>
      rw [hnext] at hlower
      exact absurd (Balances.le_increase hcredited wallet token) (BitVec.not_le.mpr hlower)
  | asks t amount hcalled hasks =>
      refine absurd ?_ hmoved
      rw [(requestWithdrawal_cases hasks.stored).2]
      rfl
  | completes t amount hcalled hcompletes =>
      obtain ⟨executed, hexecuted, rfl⟩ := hcompletes.executes
      obtain ⟨rfl, rfl⟩ := withdraw_lowers hexecuted hlower
      exact Or.inl ⟨rfl, amount, hcalled, hcompletes⟩
  | submits withdrawals processed hcalled hsender hprocessed hnext =>
      rw [hnext] at hlower
      obtain ⟨before, withdrawal, after, hreaches, hentry, hlowered⟩ :=
        exists_entry_lowering hprocessed hlower
      rw [hcalled] at h
      exact Or.inr ⟨hsender, Or.inl ⟨withdrawals, before, withdrawal, after, hcalled,
        ⟨⟨next, h⟩, hreaches, hentry⟩, entryOf_of_lowers hentry hlowered⟩⟩
  | marks batchHash log hsender hnext =>
      refine absurd ?_ hmoved
      rw [hnext]
  | settles data batchSettlement balances last log hcalled hsender hpending hdecode happlied hnext =>
      rw [hnext] at hlower
      exact Or.inr ⟨hsender, Or.inr ⟨data, batchSettlement, hcalled, hpending, hdecode,
        decrementOf_of_lowers happlied hlower⟩⟩
  | sets hsetting =>
      obtain ⟨_, _, _, _, _, rfl⟩ := setting_cases h hsetting
      exact absurd rfl hmoved

/-- Along any run, a balance that is lower later was lowered in between by its wallet, completing its
request, or by a batch of the submitter of the time that names the wallet. -/
theorem lowered_by (host : Host) (tokens : Tokens E) (origin : World E) (inputs : List (Input E))
    (wallet token : Address) (m n : Nat) (hle : m ≤ n)
    (hlower : (worldAt host tokens origin inputs n).state.balances wallet token <
      (worldAt host tokens origin inputs m).state.balances wallet token) :
    ∃ k context call, m ≤ k ∧ k < n ∧ inputs[k]? = some (.call context call) ∧
      (worldAt host tokens origin inputs (k + 1)).state.balances wallet token <
        (worldAt host tokens origin inputs k).state.balances wallet token ∧
      MayLower host tokens context (worldAt host tokens origin inputs k) call
        (worldAt host tokens origin inputs (k + 1)) wallet token := by
  obtain ⟨k, hlow, hhigh, hk, hlowered⟩ := Run.exists_lowering (step host tokens)
    (fun world => (world.state.balances wallet token).toNat) hle hlower
  replace hlowered :
    (step host tokens (worldAt host tokens origin inputs k) inputs[k]).state.balances wallet token <
      (worldAt host tokens origin inputs k).state.balances wallet token := hlowered
  have hstep := worldAt_succ host tokens origin inputs hk
  cases hinput : inputs[k] with
  | outside change =>
      rw [hinput] at hlowered
      exact absurd hlowered (BitVec.lt_irrefl _)
  | call context call =>
      refine ⟨k, context, call, hlow, hhigh, ?_, ?_⟩
      · rw [List.getElem?_eq_getElem hk, hinput]
      rw [hstep]
      rw [hinput] at hlowered ⊢
      rcases step_call host tokens context (worldAt host tokens origin inputs k) call with
        ⟨next, hexecute, hnext⟩ | hsame
      · rw [hnext] at hlowered ⊢
        exact ⟨hlowered, execute_mayLower hexecute hlowered⟩
      · rw [hsame] at hlowered
        exact absurd hlowered (BitVec.lt_irrefl _)

/-! The wallet of the run above is paid at input 2. -/

theorem redeeming_lowered : ∃ k context call, 2 ≤ k ∧ k < 3 ∧
    redeeming[k]? = some (.call context call) ∧
    (worldAt requestedHost bookTokens bookStart redeeming (k + 1)).state.balances 0xa1 0 <
      (worldAt requestedHost bookTokens bookStart redeeming k).state.balances 0xa1 0 ∧
    MayLower requestedHost bookTokens context (worldAt requestedHost bookTokens bookStart redeeming k)
      call (worldAt requestedHost bookTokens bookStart redeeming (k + 1)) 0xa1 0 :=
  lowered_by requestedHost bookTokens bookStart redeeming 0xa1 0 2 3 (by decide) (by decide +kernel)

end Chainring.Evm.Exchange

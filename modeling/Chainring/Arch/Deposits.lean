import Chainring.Arch.SettlementClosedForm

/-! What a batch of deposits does: each wallet gains the sum of the amounts deposited to it, and nothing but the
amounts of these wallets changes. The sums wrap at a word, so that the batch is exact as long as no balance does. -/

namespace Chainring.Arch

open Exec (Posts posts_forM)
open Ledger (Entry credited debited credited_append debited_append)

/-! ### The sums of a batch -/

/-- What the batch deposits to a wallet of an account. -/
def depositedTo (accounts : List AccountInfo) (params : DepositBatchParams) (key : Pubkey) (index : Nat) : Nat :=
  (params.tokenDeposits.map fun tokenDeposits =>
    if keyAt accounts tokenDeposits.accountIndex = some key then amountsAt tokenDeposits.deposits index
    else 0).sum

/-- The byte belongs to the amount of a wallet that the batch deposits to. -/
def Deposited (accounts : List AccountInfo) (params : DepositBatchParams) (key : Pubkey) (o : Nat) : Prop :=
  ∃ tokenDeposits ∈ params.tokenDeposits, keyAt accounts tokenDeposits.accountIndex = some key ∧
    ∃ deposit ∈ tokenDeposits.deposits, AmountBytes deposit.addressIndex.index.toNat o

/-- Every wallet gains what is deposited to it, as a number, and all else is as before. -/
structure DepositsExact (accounts : List AccountInfo) (params : DepositBatchParams) (w w' : World) : Prop where
  wallets : ∀ key index,
    amountAt (w' key).data index = amountAt (w key).data index + depositedTo accounts params key index
  lengths : ∀ key, (w' key).data.length = (w key).data.length
  bytes : ∀ key o, ¬Deposited accounts params key o → (w' key).data[o]? = (w key).data[o]?
  utxos : ∀ key, (w' key).utxo = (w key).utxo

/-! ### What a batch posts -/

def depositEntries (accounts : List AccountInfo) (tokenDeposits : TokenDeposits) : List (Entry (Pubkey × Nat)) :=
  match keyAt accounts tokenDeposits.accountIndex with
  | some key => credits key tokenDeposits.deposits
  | none => []

theorem credited_credits_of_ne {key key' : Pubkey} (hne : key' ≠ key) (adjustments : List Adjustment) (index : Nat) :
    credited (credits key' adjustments) (key, index) = 0 := by
  apply Ledger.credited_eq_zero
  intro entry hmem
  obtain ⟨adjustment, -, hentry⟩ := List.mem_flatMap.mp hmem
  rw [List.mem_singleton.mp hentry, Entry.creditTo, if_neg]
  simp [hne]

theorem credited_depositEntries (accounts : List AccountInfo) (tokenDeposits : TokenDeposits) (key : Pubkey)
    (index : Nat) :
    credited (depositEntries accounts tokenDeposits) (key, index) =
      if keyAt accounts tokenDeposits.accountIndex = some key then amountsAt tokenDeposits.deposits index else 0 := by
  rw [depositEntries]
  cases hat : keyAt accounts tokenDeposits.accountIndex with
  | none => simp
  | some key' =>
      by_cases hkey : key' = key
      · subst hkey
        simp [credited_credits]
      · simp [hkey, credited_credits_of_ne hkey]

theorem debited_depositEntries (accounts : List AccountInfo) (tokenDeposits : TokenDeposits)
    (slot : Pubkey × Nat) : debited (depositEntries accounts tokenDeposits) slot = 0 := by
  rw [depositEntries]
  split
  · exact debited_credits _ _
  · rfl

theorem credited_deposits (accounts : List AccountInfo) (params : DepositBatchParams) (key : Pubkey) (index : Nat) :
    credited (params.tokenDeposits.flatMap (depositEntries accounts)) (key, index) =
      depositedTo accounts params key index := by
  rw [depositedTo]
  induction params.tokenDeposits with
  | nil => rfl
  | cons tokenDeposits rest ih =>
      simp only [List.flatMap_cons, credited_append, credited_depositEntries, ih, List.map_cons, List.sum_cons]

theorem debited_deposits (accounts : List AccountInfo) (params : DepositBatchParams) (slot : Pubkey × Nat) :
    debited (params.tokenDeposits.flatMap (depositEntries accounts)) slot = 0 := by
  induction params.tokenDeposits with
  | nil => rfl
  | cons tokenDeposits rest ih => simp only [List.flatMap_cons, debited_append, debited_depositEntries, ih]

section Batch

variable {m₀ m m' : Memory} {accounts : List AccountInfo} {params : DepositBatchParams} {u : Unit}

theorem posts_depositBatch (params : DepositBatchParams) :
    Posts amountModulus (AmountsOnly m₀) balances (depositBatch accounts params) (fun _ => True)
      (params.tokenDeposits.flatMap (depositEntries accounts)) := by
  refine (posts_validate _ _ _ _ _).bind_nil fun _ _ => posts_forM fun tokenDeposits _ => ?_
  refine (posts_validate _ _ _ _ _).bind_nil fun _ _ => (posts_accountAt _).bind_nil fun account haccount => ?_
  rw [depositEntries, keyAt_of_listed haccount]
  exact posts_handleIncrements account tokenDeposits.deposits

/-! ### What a batch leaves alone -/

theorem handleIncrements_keeps {account : AccountInfo} {adjustments : List Adjustment}
    (h : (handleIncrements account adjustments).run m = .ok u m') :
    (∀ key, (m' key).utxo = (m key).utxo) ∧
      ∀ key o, (key = account.key → ∀ adjustment ∈ adjustments,
        ¬AmountBytes adjustment.addressIndex.index.toNat o) → (m' key).data[o]? = (m key).data[o]? := by
  refine Exec.forM_ok_invariant (I := fun s => (∀ key, (s key).utxo = (m key).utxo) ∧
    ∀ key o, (key = account.key → ∀ adjustment ∈ adjustments,
      ¬AmountBytes adjustment.addressIndex.index.toNat o) → (s key).data[o]? = (m key).data[o]?)
    ?_ ⟨fun _ => rfl, fun _ _ _ => rfl⟩ h
  intro adjustment hmem s s' hs hbody
  obtain ⟨index, hindex, hbody⟩ := read_bind_eq_ok.mp hbody
  obtain rfl := (getValidatedIndex_eq_ok.mp hindex).2
  obtain ⟨data, hput, rfl⟩ := write_eq_ok.mp hbody
  refine ⟨fun key => ?_, fun key o ho => ?_⟩
  · rw [Memory.setData_utxo]
    exact hs.1 key
  · rw [Memory.setData_data]
    split
    · next hkey =>
        rw [(writes_incrementWalletBalance _ _ _ _ hput).2 o (ho hkey adjustment hmem), ← hkey]
        exact hs.2 key o ho
    · exact hs.2 key o ho

theorem depositBatch_keeps (h : (depositBatch accounts params).run m = .ok u m') :
    (∀ key, (m' key).utxo = (m key).utxo) ∧
      ∀ key o, ¬Deposited accounts params key o → (m' key).data[o]? = (m key).data[o]? := by
  obtain ⟨-, h⟩ := validate_bind_eq_ok.mp h
  refine Exec.forM_ok_invariant (I := fun s => (∀ key, (s key).utxo = (m key).utxo) ∧
    ∀ key o, ¬Deposited accounts params key o → (s key).data[o]? = (m key).data[o]?)
    ?_ ⟨fun _ => rfl, fun _ _ _ => rfl⟩ h
  intro tokenDeposits hmem s s' hs hbody
  obtain ⟨-, hbody⟩ := validate_bind_eq_ok.mp hbody
  obtain ⟨account, haccount, hbody⟩ := accountAt_bind_eq_ok.mp hbody
  obtain ⟨hutxos, hbytes⟩ := handleIncrements_keeps hbody
  refine ⟨fun key => (hutxos key).trans (hs.1 key), fun key o ho => ?_⟩
  rw [hbytes key o, hs.2 key o ho]
  rintro rfl deposit hdeposit hamount
  exact ho ⟨tokenDeposits, hmem, keyAt_of_listed haccount, deposit, hdeposit, hamount⟩

end Batch

/-! ### The call -/

section Calls

variable {rt : Runtime} {w w' : World} {call : Call} {params : DepositBatchParams}

theorem execute_utxo {m : Memory} {instruction : ProgramInstruction} (hexecute : execute rt w call = some w')
    (hinstruction : call.instruction = .ok instruction)
    (hrun : (runInstruction rt call.programId call.accounts call.rawParamsData instruction).run (load w) = .ok () m)
    (hkept : ∀ key, (m key).utxo = (w key).utxo) (key : Pubkey) : (w' key).utxo = (w key).utxo := by
  obtain ⟨m', houtcome, hsize, rfl⟩ := execute_eq_some.mp hexecute
  rw [outcome_eq hinstruction, hrun] at houtcome
  cases houtcome
  unfold store
  split
  · exact hkept key
  · rfl

/-- A call that goes through credits every wallet, past the word if need be. -/
theorem deposits_standing (hinstruction : call.instruction = .ok (.batchDeposit params))
    (hexecute : execute rt w call = some w') :
    (∀ key index, amountAt (w' key).data index =
        (amountAt (w key).data index + depositedTo call.accounts params key index) % 2 ^ 64) ∧
      (∀ key, (w' key).data.length = (w key).data.length) ∧
      (∀ key o, ¬Deposited call.accounts params key o → (w' key).data[o]? = (w key).data[o]?) ∧
      ∀ key, (w' key).utxo = (w key).utxo := by
  obtain ⟨instruction, m, hdecoded, hrun, -, hdata⟩ := execute_cases hexecute
  obtain rfl := Except.ok.inj (hdecoded.symm.trans hinstruction)
  obtain ⟨-, hamounts, hposted⟩ := posts_depositBatch params (load w) () m (AmountsOnly.refl _) hrun
  obtain ⟨hutxos, hbytes⟩ := depositBatch_keeps hrun
  refine ⟨fun key index => ?_, fun key => ?_, fun key o ho => ?_, execute_utxo hexecute hinstruction hrun hutxos⟩
  · have hstanding := (Ledger.run_standing .wraps amountModulus (by decide) (balances_lt _) hposted (key, index)).1
    rw [Ledger.standing, credited_deposits, debited_deposits, Nat.sub_zero] at hstanding
    rw [hdata]
    exact hstanding
  · rw [hdata]
    exact hamounts.length key
  · rw [hdata]
    exact hbytes key o ho

/-- A batch of deposits that goes through is exact exactly when no balance it adds to goes past the word. -/
theorem deposits_exact_iff (rt : Runtime) (w w' : World) (call : Call) (params : DepositBatchParams)
    (hinstruction : call.instruction = .ok (.batchDeposit params)) (hexecute : execute rt w call = some w') :
    DepositsExact call.accounts params w w' ↔
      ∀ key index, amountAt (w key).data index + depositedTo call.accounts params key index < 2 ^ 64 := by
  obtain ⟨hwallets, hlengths, hbytes, hutxos⟩ := deposits_standing hinstruction hexecute
  constructor
  · intro hexact key index
    rw [← hexact.wallets key index]
    exact amountAt_lt _ _
  · intro hfits
    refine ⟨fun key index => ?_, hlengths, hbytes, hutxos⟩
    rw [hwallets, Nat.mod_eq_of_lt (hfits key index)]

end Calls

/-! Seven of the first token for the first wallet, which holds none of it or all that a word can hold. -/

def sevenDeposited : DepositBatchParams where
  tokenDeposits := [{ accountIndex := 1, deposits := [⟨⟨1, ⟨firstAddress.drop 40, firstAddress_last4⟩⟩, 7⟩] }]

def fullWorld : World := sampleWorld
  [(sampleProgram, programData emptyHash emptyHash), (firstToken, tokenData [0x31] 0 (2 ^ 64 - 1) 0)]

theorem sevenDeposited_runs : depositCall.instruction = .ok (.batchDeposit sevenDeposited) ∧
    (execute tradingRuntime tradingWorld depositCall).isSome ∧
    (execute tradingRuntime fullWorld depositCall).map (fun w' => amountAt (w' firstToken).data 1) = some 6 := by
  decide +kernel

/-- The wallet that holds none of the token has room for all that is deposited. -/
theorem sevenDeposited_fits (key : Pubkey) (index : Nat) :
    amountAt (tradingWorld key).data index + depositedTo depositAccounts sevenDeposited key index < 2 ^ 64 := by
  have hdeposited : depositedTo depositAccounts sevenDeposited key index =
      (if some firstToken = some key then amountsAt [⟨⟨1, ⟨firstAddress.drop 40, firstAddress_last4⟩⟩, 7⟩] index else 0) :=
    Nat.add_zero _
  have hbounded := amountAt_lt (tradingWorld key).data index
  rw [hdeposited]
  by_cases hkey : some firstToken = some key
  · obtain rfl := Option.some.inj hkey
    by_cases hindex : index = 1
    · subst hindex
      decide +kernel
    · have hnone : amountsAt [⟨⟨1, ⟨firstAddress.drop 40, firstAddress_last4⟩⟩, 7⟩] index = 0 := by
        simp [amountsAt, Ne.symm hindex]
      rw [if_pos rfl, hnone]
      exact hbounded
  · rw [if_neg hkey]
    exact hbounded

theorem sevenDeposited_exact_iff : ∃ w', execute tradingRuntime tradingWorld depositCall = some w' ∧
    (DepositsExact depositAccounts sevenDeposited tradingWorld w' ↔ ∀ key index,
      amountAt (tradingWorld key).data index + depositedTo depositAccounts sevenDeposited key index < 2 ^ 64) ∧
    DepositsExact depositAccounts sevenDeposited tradingWorld w' := by
  obtain ⟨hinstruction, hsome, -⟩ := sevenDeposited_runs
  obtain ⟨w', hexecute⟩ := Option.isSome_iff_exists.mp hsome
  have hiff := deposits_exact_iff tradingRuntime tradingWorld w' depositCall sevenDeposited hinstruction hexecute
  exact ⟨w', hexecute, hiff, hiff.mpr sevenDeposited_fits⟩

/-- The deposit goes through and the wallet is left with six. -/
theorem sevenDeposited_wraps : ∃ w', execute tradingRuntime fullWorld depositCall = some w' ∧
    amountAt (fullWorld firstToken).data 1 = 2 ^ 64 - 1 ∧ amountAt (w' firstToken).data 1 = 6 ∧
    ¬DepositsExact depositAccounts sevenDeposited fullWorld w' := by
  obtain ⟨w', hexecute, hwrapped⟩ := Option.map_eq_some_iff.mp sevenDeposited_runs.2.2
  have hfull : amountAt (fullWorld firstToken).data 1 = 2 ^ 64 - 1 := by decide +kernel
  refine ⟨w', hexecute, hfull, hwrapped, fun hexact => ?_⟩
  have hwallet := hexact.wallets firstToken 1
  rw [hwrapped, hfull] at hwallet
  omega

end Chainring.Arch

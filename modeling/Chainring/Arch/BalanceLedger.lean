import Chainring.Arch.Deposits
import Chainring.Arch.RollbackTotals
import Chainring.Arch.SettlementCompletion

/-! The account books of a token. Deposits, settlements, preparations of withdrawals and rollbacks post entries,
and no other call moves a balance: between any two moments of a run, a balance moves by what was posted to it. -/

namespace Chainring.Arch

open Exec (bind_eq_ok)
open Ledger (Entry)

/-! ### What a call posts -/

/-- The program account of the call holds no report of a failure. -/
def ReportsNothing (next : World) (call : Call) : Prop :=
  (call.accounts[0]?).map (fun program => ProgramState.getEventsCount (next program.key).data) = some (.ok 0)

instance (next : World) (call : Call) : Decidable (ReportsNothing next call) := inferInstanceAs (Decidable (_ = _))

variable (rt : Runtime)

/-- What a call that goes through posts to the wallets. A preparation that reports a failure posts nothing. -/
def postedEntries (w : World) (call : Call) : List (Entry (Pubkey × Nat)) :=
  match execute rt w call, call.instruction with
  | some _, .ok (.batchDeposit params) => params.tokenDeposits.flatMap (depositEntries call.accounts)
  | some next, .ok (.prepareBatchWithdraw params) =>
      if ReportsNothing next call then params.entries call.accounts else []
  | some _, .ok (.submitBatchSettlement params) => params.settlements.flatMap (entriesOf call.accounts)
  | some _, .ok (.rollbackBatchWithdraw params) => params.entries call.accounts
  | _, _ => []

/-- What the calls of a run post from one moment to a later one. -/
def postedBetween (start : World) (calls : List Call) (n k : Nat) : List (Entry (Pubkey × Nat)) :=
  (List.range' n (k - n)).flatMap (entriesAt rt (postedEntries rt) start calls)

section Preparation

variable {rt} {accounts : List AccountInfo} {m m' : Memory}

theorem getEventsCount_congr {data data' : Bytes} (h : ∀ o, Within 286 288 o → data'[o]? = data[o]?) :
    ProgramState.getEventsCount data' = ProgramState.getEventsCount data := by
  rw [ProgramState.getEventsCount, ProgramState.getEventsCount, readBlock_congr fun o ho => h o ho]

/-- A preparation that reports nothing posts the batch, and one that reports a failure leaves the tokens alone. -/
theorem prepareWithdrawBatch_posts {params : WithdrawBatchParams} {raw : Bytes} {u : Unit}
    (hload : Loaded accounts m) (h : (prepareWithdrawBatch rt accounts params raw).run m = .ok u m') :
    ∃ program, accounts[0]? = some program ∧
      ((ProgramState.getEventsCount (m' program.key).data = .ok 0 ∧
          Ledger.run .wraps amountModulus (balances m) (params.entries accounts) = some (balances m')) ∨
        (ProgramState.getEventsCount (m' program.key).data ≠ .ok 0 ∧
          ∀ key, getType (m key).data = .ok .token → (m' key).data = (m key).data)) := by
  obtain ⟨program, withdraw, hasReceiver, tx, networkType, cleared, verified, hvalidated, hvalidated', hprogram,
    hwithdraw, -, -, -, hnone, hclear, -, hverify, count, hcount, hcase⟩ := prepareWithdrawBatch_cases h
  obtain ⟨first, hled⟩ := led_of_validated hvalidated
  obtain rfl : first = program := Option.some.inj (hled.listed.symm.trans hprogram)
  refine ⟨first, hprogram, ?_⟩
  rcases hcase with ⟨hreports, rfl⟩ | ⟨rfl, outputs, paid, hpay, -, -, hwrite⟩
  · right
    refine ⟨fun hzero => hreports (Except.ok.inj (hcount.symm.trans hzero)), fun key htoken => ?_⟩
    have htouches := verifiedWithdrawals_touches hload hvalidated hprogram hclear hverify
    apply List.ext_getElem?
    intro o
    by_contra hchanged
    obtain ⟨-, hempty | ⟨_, -, -, hkind, ⟨rfl, -⟩ | ⟨-, hreach⟩ | ⟨hkind', -⟩⟩⟩ := htouches.bytes key o hchanged
    · exact ne_nil_of_getType htoken hempty
    · cases htoken.symm.trans hkind
    · exact hreach
    · cases htoken.symm.trans hkind'.1
  · left
    have hcleared : Cleared first m cleared := ⟨hclear, hled.program⟩
    obtain ⟨rfl, -⟩ := verified_quiet hprogram hcleared hverify hcount
    rw [List.eq_nil_of_length_eq_zero hnone] at hpay
    obtain ⟨hamounts, hposted, -⟩ := preparingLoop_eq_ok hpay
    obtain ⟨hashData, hhash, rfl⟩ := write_eq_ok.mp hwrite
    have hne : first.key ≠ withdraw.key :=
      ne_of_getType hled.program (hvalidated'.type_eq hwithdraw) (by decide)
    constructor
    · rw [Memory.setData_of_ne _ _ hne, ← hcount]
      exact getEventsCount_congr fun o ho => hamounts.bytes first.key o (not_anyAmount_eventsCount ho)
    · rw [balances_setData_of_disjoint (writes_setHash _) (fun o ho => not_anyAmount_of_lt ?_) hhash]
      · rw [hcleared.balances_eq] at hposted
        exact hposted
      · have hhigh := ho.2
        omega

end Preparation

/-! ### One step -/

section Steps

variable {rt} {w : World} {call : Call} {token : Pubkey} {index : Nat}

/-- A slot goes from the earlier balance to the later one by the entries, and may lose whole words. -/
def Moves (earlier later : Nat) (entries : List (Entry (Pubkey × Nat))) (slot : Pubkey × Nat) : Prop :=
  ∃ lost, earlier + Ledger.credited entries slot = later + Ledger.debited entries slot + amountModulus * lost

theorem Moves.refl (balance : Nat) (slot : Pubkey × Nat) : Moves balance balance [] slot :=
  ⟨0, rfl⟩

theorem Moves.trans {earlier middle later : Nat} {first second : List (Entry (Pubkey × Nat))}
    {slot : Pubkey × Nat} (h : Moves earlier middle first slot) (h' : Moves middle later second slot) :
    Moves earlier later (first ++ second) slot := by
  obtain ⟨lost, hlost⟩ := h
  obtain ⟨lost', hlost'⟩ := h'
  refine ⟨lost + lost', ?_⟩
  rw [Ledger.credited_append, Ledger.debited_append, Nat.mul_add]
  omega

/-- The later balance and the words lost are the remainder and the quotient of what was there and posted. -/
theorem Moves.standing {earlier later : Nat} {entries : List (Entry (Pubkey × Nat))} {slot : Pubkey × Nat}
    (h : Moves earlier later entries slot) (hlater : later < amountModulus) :
    Ledger.debited entries slot ≤ earlier + Ledger.credited entries slot ∧
      later = (earlier + Ledger.credited entries slot - Ledger.debited entries slot) % amountModulus := by
  obtain ⟨lost, hlost⟩ := h
  have hnet : earlier + Ledger.credited entries slot - Ledger.debited entries slot = later + amountModulus * lost := by
    omega
  refine ⟨by omega, ?_⟩
  rw [hnet, Nat.add_mul_mod_self_left, Nat.mod_eq_of_lt hlater]

theorem moves_of_run {m m' : Memory} {entries : List (Entry (Pubkey × Nat))}
    (h : Ledger.run .wraps amountModulus (balances m) entries = some (balances m')) (token : Pubkey) (index : Nat) :
    Moves (amountAt (m token).data index) (amountAt (m' token).data index) entries (token, index) := by
  obtain ⟨lost, hlost, -⟩ := Ledger.run_balance .wraps amountModulus h (token, index)
  exact ⟨lost, hlost⟩

/-- A call that does not reach the amount leaves it alone. -/
theorem step_amount_kept (htoken : getType (w token).data = .ok .token) (hamount : HasAmount (w token).data index)
    (hreach : ∀ o, AmountBytes index o → o < (w token).data.length →
      ¬(reachOf call.instructionData).token (w token).data o) :
    amountAt (step rt w call token).data index = amountAt (w token).data index := by
  apply amountAt_congr
  intro o ho
  by_contra hchanged
  exact hreach o ho (Nat.lt_of_lt_of_le ho.2 hamount) (step_token_byte htoken hchanged)

/-- The slots that a call may use for new wallets are past those in use, and their amounts are no address. -/
theorem not_newWallets_of_amount {data : Bytes} {o : Nat} (ho : AmountBytes index o) (hlt : o < data.length) :
    ¬NewWallets data o := by
  rintro ⟨-, hcount | ⟨index', -, haddress⟩ | hpast⟩
  · have hge := ho.ge
    have hhigh := hcount.2
    omega
  · exact addressBytes_disjoint_amountBytes haddress ho
  · omega

/-- Every step moves a balance by what its call posts to it. -/
theorem step_moves_balance (htoken : getType (w token).data = .ok .token) (hamount : HasAmount (w token).data index) :
    Moves (amountAt (w token).data index) (amountAt (step rt w call token).data index)
      (postedEntries rt w call) (token, index) := by
  cases hexecute : execute rt w call with
  | none =>
      rw [step_of_none hexecute]
      simp only [postedEntries, hexecute]
      exact Moves.refl _ _
  | some next =>
      obtain ⟨instruction, m, hinstruction, hrun, -, hdata⟩ := execute_cases hexecute
      have hkept : (∀ o, AmountBytes index o → o < (w token).data.length →
          ¬instruction.reach.token (w token).data o) →
          Moves (amountAt (w token).data index) (amountAt (step rt w call token).data index) [] (token, index) := by
        intro hreach
        rw [← reachOf_eq hinstruction] at hreach
        rw [step_amount_kept htoken hamount hreach]
        exact Moves.refl _ _
      have hposts : ∀ entries, Ledger.run .wraps amountModulus (balances (load w)) entries = some (balances m) →
          Moves (amountAt (w token).data index) (amountAt (step rt w call token).data index) entries
            (token, index) := by
        intro entries hposted
        rw [step_of_execute hexecute, hdata]
        exact moves_of_run hposted token index
      cases instruction with
      | batchDeposit params =>
          simp only [postedEntries, hexecute, hinstruction]
          exact hposts _ (posts_depositBatch params (load w) () m (AmountsOnly.refl _) hrun).2.2
      | prepareBatchWithdraw params =>
          obtain ⟨program, hprogram, hcases⟩ := prepareWithdrawBatch_posts (load_loaded call.accounts w) hrun
          have hiff : ReportsNothing next call ↔ ProgramState.getEventsCount (m program.key).data = .ok 0 := by
            rw [ReportsNothing, hprogram, Option.map_some, Option.some.injEq, hdata]
          simp only [postedEntries, hexecute, hinstruction]
          rcases hcases with ⟨hquiet, hposted⟩ | ⟨hreports, htokens⟩
          · rw [if_pos (hiff.mpr hquiet)]
            exact hposts _ hposted
          · rw [if_neg fun hquiet => hreports (hiff.mp hquiet), step_of_execute hexecute, hdata, htokens token htoken]
            exact Moves.refl _ _
      | submitBatchSettlement params =>
          simp only [postedEntries, hexecute, hinstruction]
          obtain ⟨program, applied, marked, hvalidated, hprogram, -, -, happly, hmark, hclear⟩ :=
            submitSettlementBatch_cases hrun
          obtain ⟨-, -, hposted⟩ := posts_settlements _ _ _ _ (AmountsOnly.refl _) happly
          obtain ⟨first, hled⟩ := led_of_validated hvalidated
          obtain rfl : first = program := Option.some.inj (hled.listed.symm.trans hprogram)
          have hne : token ≠ first.key := ne_of_getType htoken hled.program (by decide)
          obtain ⟨markedData, -, rfl⟩ := write_eq_ok.mp hmark
          obtain ⟨clearedData, -, rfl⟩ := write_eq_ok.mp hclear
          rw [step_of_execute hexecute, hdata, Memory.setData_of_ne _ _ hne, Memory.setData_of_ne _ _ hne]
          exact moves_of_run hposted token index
      | rollbackBatchWithdraw params =>
          simp only [postedEntries, hexecute, hinstruction]
          obtain ⟨⟨program, hprogram, -⟩, ⟨withdraw, hwithdraw, -⟩, -⟩ :=
            (validate_bind_eq_ok.mp hrun).imp_right fun hrest => validate_bind_eq_ok.mp hrest
          exact hposts _ (@rollbackWithdrawBatch_posts _ _ _ ⟨[], 0, params.tokenWithdrawals, []⟩ _ _ _ hprogram
            hwithdraw hrun).1
      | initWalletBalances params =>
          simp only [postedEntries, hexecute, hinstruction]
          exact hkept fun o ho hlt => not_newWallets_of_amount ho hlt
      | setTokeRuneId params =>
          simp only [postedEntries, hexecute, hinstruction]
          refine hkept fun o ho _ hid => ?_
          have hge := ho.ge
          have hhigh := hid.2
          omega
      | _ =>
          simp only [postedEntries, hexecute, hinstruction]
          exact hkept fun _ _ _ hreach => hreach

end Steps

/-! ### Runs -/

section Runs

variable {rt} {start : World} {calls : List Call}

theorem postedBetween_self (n : Nat) : postedBetween rt start calls n n = [] := by
  simp [postedBetween]

theorem postedBetween_succ {n k : Nat} (hnk : n ≤ k) :
    postedBetween rt start calls n (k + 1) =
      postedBetween rt start calls n k ++ entriesAt rt (postedEntries rt) start calls k := by
  have hrange : List.range' n (k + 1 - n) = List.range' n (k - n) ++ [k] := by
    rw [Nat.sub_add_comm hnk, List.range'_1_concat, Nat.add_sub_cancel' hnk]
  rw [postedBetween, hrange, List.flatMap_append, List.flatMap_singleton, postedBetween]

end Runs

/-- Between any two moments of a run a balance of a token account moves by what the calls posted to it, past the
word if need be, and is never overdrawn. -/
theorem balance_of_entries (rt : Runtime) (start : World) (calls : List Call) {n k : Nat} (hnk : n ≤ k)
    (hk : k ≤ calls.length) {token : Pubkey} (htoken : getType (worldAt rt start calls n token).data = .ok .token)
    {index : Nat} (hamount : HasAmount (worldAt rt start calls n token).data index) :
    Ledger.debited (postedBetween rt start calls n k) (token, index) ≤
        amountAt (worldAt rt start calls n token).data index +
          Ledger.credited (postedBetween rt start calls n k) (token, index) ∧
      amountAt (worldAt rt start calls k token).data index =
        (amountAt (worldAt rt start calls n token).data index +
            Ledger.credited (postedBetween rt start calls n k) (token, index) -
          Ledger.debited (postedBetween rt start calls n k) (token, index)) % 2 ^ 64 := by
  have hmoves : Moves (amountAt (worldAt rt start calls n token).data index)
      (amountAt (worldAt rt start calls k token).data index) (postedBetween rt start calls n k) (token, index) := by
    induction k, hnk using Nat.le_induction with
    | base =>
        rw [postedBetween_self]
        exact Moves.refl _ _
    | succ k hnk ih =>
        have hkept := worldAt_kept hnk (Nat.le_of_succ_le hk) htoken
        rw [postedBetween_succ hnk, worldAt_succ hk, entriesAt_eq (List.getElem?_eq_getElem hk)]
        exact (ih (Nat.le_of_succ_le hk)).trans
          (step_moves_balance (hkept.getType_eq.trans htoken) (hkept.hasAmount hamount))
  exact hmoves.standing (amountAt_lt _ _)

/-! Seven of the first token are deposited for the first wallet, which then buys 95 more. -/

def boughtCalls : List Call := [depositCall, tradeCall 5 false evenTrade, tradeCall 6 true evenTrade]

example : Ledger.credited (postedBetween tradingRuntime tradingWorld boughtCalls 0 3) (firstToken, 1) = 102 ∧
    amountAt (worldAt tradingRuntime tradingWorld boughtCalls 3 firstToken).data 1 = 102 := by
  decide +kernel

theorem boughtCalls_posted :
    Ledger.debited (postedBetween tradingRuntime tradingWorld boughtCalls 0 3) (firstToken, 1) ≤
        amountAt (worldAt tradingRuntime tradingWorld boughtCalls 0 firstToken).data 1 +
          Ledger.credited (postedBetween tradingRuntime tradingWorld boughtCalls 0 3) (firstToken, 1) ∧
      amountAt (worldAt tradingRuntime tradingWorld boughtCalls 3 firstToken).data 1 =
        (amountAt (worldAt tradingRuntime tradingWorld boughtCalls 0 firstToken).data 1 +
            Ledger.credited (postedBetween tradingRuntime tradingWorld boughtCalls 0 3) (firstToken, 1) -
          Ledger.debited (postedBetween tradingRuntime tradingWorld boughtCalls 0 3) (firstToken, 1)) % 2 ^ 64 := by
  apply balance_of_entries tradingRuntime tradingWorld boughtCalls (n := 0) (k := 3) (by decide) (by decide)
  · decide +kernel
  · show 73 + 1 * 100 + 92 + 8 ≤ (tradingWorld firstToken).data.length
    decide +kernel

end Chainring.Arch

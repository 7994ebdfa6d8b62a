import Chainring.Arch.Deposits
import Mathlib.Data.List.Perm.Basic

/-! The order of deposits. Whether a batch of deposits goes through depends on everything but the amounts, and what it
does is to add to amounts, so deposits commute: any order of the same batches ends in the same world. -/

namespace Chainring.Arch

open Bytes (slice slice_eq_some slice_isSome ofWord_toWord)
open Exec (Posts Admits admits_forM)

/-! ### When a batch goes through -/

/-- What a batch of deposits asks of the accounts, none of it about amounts. -/
structure DepositsReady (accounts : List AccountInfo) (params : DepositBatchParams) (m : Memory) : Prop where
  program : Validated accounts 0 true false (some .program) none m
  tokens : ∀ tokenDeposits ∈ params.tokenDeposits,
    Validated accounts tokenDeposits.accountIndex false true (some .token) (some 0) m
  wallets : ∀ tokenDeposits ∈ params.tokenDeposits, ∀ key, keyAt accounts tokenDeposits.accountIndex = some key →
    ∀ deposit ∈ tokenDeposits.deposits, Ready deposit.addressIndex (m key).data

section Batch

variable {m₀ m m' : Memory} {accounts : List AccountInfo} {params : DepositBatchParams} {u : Unit}

/-- One entry of a batch of deposits. -/
def depositTo (accounts : List AccountInfo) (tokenDeposits : TokenDeposits) : Prog Unit := do
  validateAccount accounts tokenDeposits.accountIndex false true (some .token) (some 0)
  let account ← accountAt accounts tokenDeposits.accountIndex.toNat
  handleIncrements account tokenDeposits.deposits

theorem posts_depositTo (tokenDeposits : TokenDeposits) :
    Posts amountModulus (AmountsOnly m₀) balances (depositTo accounts tokenDeposits) (fun _ => True)
      (depositEntries accounts tokenDeposits) := by
  refine (posts_validate _ _ _ _ _).bind_nil fun _ _ => (posts_accountAt _).bind_nil fun account haccount => ?_
  rw [depositEntries, keyAt_of_listed haccount]
  exact posts_handleIncrements account tokenDeposits.deposits

theorem admits_depositTo (tokenDeposits : TokenDeposits) :
    Admits amountModulus (AmountsOnly m₀) balances (depositTo accounts tokenDeposits)
      (Validated accounts tokenDeposits.accountIndex false true (some .token) (some 0) m₀ ∧
        ∀ key, keyAt accounts tokenDeposits.accountIndex = some key →
          ∀ deposit ∈ tokenDeposits.deposits, Ready deposit.addressIndex (m₀ key).data)
      (depositEntries accounts tokenDeposits) := by
  have hrest : ∀ account, accounts[tokenDeposits.accountIndex.toNat]? = some account →
      Admits amountModulus (AmountsOnly m₀) balances (handleIncrements account tokenDeposits.deposits)
        (∀ key, keyAt accounts tokenDeposits.accountIndex = some key →
          ∀ deposit ∈ tokenDeposits.deposits, Ready deposit.addressIndex (m₀ key).data)
        (depositEntries accounts tokenDeposits) := by
    intro account haccount
    rw [depositEntries, keyAt_of_listed haccount]
    refine (admits_handleIncrements account tokenDeposits.deposits).congr ⟨fun hready key hkey => ?_, fun h => ?_⟩
    · obtain rfl := Option.some.inj hkey
      exact hready
    · exact h account.key rfl
  refine (Admits.bind_nil (posts_validate _ _ _ _ _) (admits_validate _ _ _ _ _) fun _ _ =>
    Admits.bind_nil (posts_accountAt _) (admits_accountAt _) hrest).congr ⟨fun h => ⟨h.1, h.2.2⟩, fun h => ?_⟩
  obtain ⟨account, haccount, -⟩ := h.1
  exact ⟨h.1, ⟨account, haccount⟩, h.2⟩

theorem admits_depositBatch (params : DepositBatchParams) :
    Admits amountModulus (AmountsOnly m₀) balances (depositBatch accounts params) (DepositsReady accounts params m₀)
      (params.tokenDeposits.flatMap (depositEntries accounts)) := by
  refine (Admits.bind_nil (posts_validate _ _ _ _ _) (admits_validate _ _ _ _ _) fun _ _ =>
    admits_forM (fun tokenDeposits _ => posts_depositTo tokenDeposits) fun tokenDeposits _ =>
      admits_depositTo tokenDeposits).congr ⟨fun h => ?_, fun h => ?_⟩
  · exact ⟨h.1, fun tokenDeposits hmem => (h.2 tokenDeposits hmem).1,
      fun tokenDeposits hmem => (h.2 tokenDeposits hmem).2⟩
  · exact ⟨h.program, fun tokenDeposits hmem => ⟨h.tokens tokenDeposits hmem, h.wallets tokenDeposits hmem⟩⟩

/-- A batch goes through exactly when the accounts are ready for it; credits that wrap refuse nothing. -/
theorem depositBatch_isOk_iff :
    (∃ m', (depositBatch accounts params).run m = .ok () m') ↔ DepositsReady accounts params m := by
  have hadmits : Admits amountModulus (AmountsOnly m) balances (depositBatch accounts params) _ _ :=
    admits_depositBatch params
  have hadmits := hadmits m (AmountsOnly.refl m)
  have hposts : (Ledger.run .wraps amountModulus (balances m)
      (params.tokenDeposits.flatMap (depositEntries accounts))).isSome := by
    refine (Ledger.run_isSome_iff_debited_le amountModulus (by decide) (balances_lt m) fun slot =>
      ⟨_, [], (List.append_nil _).symm, debited_deposits _ _ slot, rfl⟩).mpr fun slot => ?_
    rw [debited_deposits]
    exact Nat.zero_le _
  constructor
  · rintro ⟨m', hok⟩
    exact (hadmits.mp ⟨(), m', hok⟩).1
  · intro hready
    obtain ⟨_, m', hok⟩ := hadmits.mpr ⟨hready, hposts⟩
    exact ⟨m', hok⟩

theorem DepositsReady.congr (h : AmountsOnly m m') :
    DepositsReady accounts params m' ↔ DepositsReady accounts params m := by
  have hready : ∀ {m m' : Memory}, AmountsOnly m m' → DepositsReady accounts params m →
      DepositsReady accounts params m' := by
    intro m m' hamounts hold
    refine ⟨hamounts.validated_iff.mpr hold.program, fun tokenDeposits hmem =>
      hamounts.validated_iff.mpr (hold.tokens tokenDeposits hmem), fun tokenDeposits hmem key hkey deposit hdeposit => ?_⟩
    obtain ⟨hwallet, hamount⟩ := hold.wallets tokenDeposits hmem key hkey deposit hdeposit
    exact ⟨(hamounts.wallet_iff key _).mpr hwallet, (hamounts.hasAmount_iff key _).mpr hamount⟩
  exact ⟨hready h.symm, hready h⟩

end Batch

/-! ### Calls -/

/-- The call sends a batch of deposits. -/
def Call.Deposits (call : Call) : Prop := ∃ params, call.instruction = .ok (.batchDeposit params)

section Calls

variable {rt : Runtime} {w w' : World} {call : Call} {params : DepositBatchParams}

/-- The data of an amount is what the amount says. -/
theorem amountBytes_eq {data data' : Bytes} (hlength : data'.length = data.length) {index o : Nat}
    (hroom : HasAmount data index) (hamount : amountAt data' index = amountAt data index) (ho : AmountBytes index o) :
    data'[o]? = data[o]? := by
  obtain ⟨block, hslice⟩ := slice_isSome hroom
  have hroom' : HasAmount data' index := by
    rw [HasAmount, hlength]
    exact hroom
  obtain ⟨block', hslice'⟩ := slice_isSome hroom'
  obtain ⟨hblock, hbytes⟩ := slice_eq_some.mp hslice
  obtain ⟨hblock', hbytes'⟩ := slice_eq_some.mp hslice'
  rw [amountAt, amountAt, hslice, hslice'] at hamount
  have hsame : block' = block := by
    have hword : Bytes.toWord block' = Bytes.toWord block := hamount
    rw [← ofWord_toWord block, ← ofWord_toWord block', hword, hblock, hblock']
  have hlt : o - (balancesOffset + index * balanceSize + balanceAmountOffset) < 8 := by
    have hlow := ho.1
    have hhigh := ho.2
    omega
  have hoffset := Nat.add_sub_cancel' ho.1
  have hold := hbytes _ hlt
  have hnew := hbytes' _ hlt
  rw [hoffset] at hold hnew
  rw [hnew, hold, hsame]

/-- What a call with a batch of deposits does: where the accounts are ready it adds the deposits, and nothing else. -/
structure Credits (call : Call) (params : DepositBatchParams) (w w' : World) : Prop where
  amounts : ∀ key index,
    amountAt (w' key).data index = (amountAt (w key).data index + depositedTo call.accounts params key index) % 2 ^ 64
  lengths : ∀ key, (w' key).data.length = (w key).data.length
  bytes : ∀ key o, ¬Deposited call.accounts params key o → (w' key).data[o]? = (w key).data[o]?
  utxos : ∀ key, (w' key).utxo = (w key).utxo

theorem Credits.amountsOnly (h : Credits call params w w') : AmountsOnly (load w) (load w') where
  length := h.lengths
  bytes := by
    intro key o ho
    refine h.bytes key o ?_
    rintro ⟨_, -, -, deposit, -, hamount⟩
    exact ho ⟨_, hamount⟩

theorem execute_isSome_iff (hinstruction : call.instruction = .ok (.batchDeposit params)) :
    (execute rt w call).isSome ↔ DepositsReady call.accounts params (load w) := by
  constructor
  · intro hsome
    obtain ⟨w', hexecute⟩ := Option.isSome_iff_exists.mp hsome
    obtain ⟨instruction, m, hdecoded, hrun, -⟩ := execute_cases hexecute
    obtain rfl := Except.ok.inj (hdecoded.symm.trans hinstruction)
    exact depositBatch_isOk_iff.mp ⟨m, hrun⟩
  · intro hready
    obtain ⟨m, hrun⟩ := depositBatch_isOk_iff.mpr hready
    obtain ⟨-, hamounts, -⟩ := posts_depositBatch params (load w) () m (AmountsOnly.refl _) hrun
    obtain ⟨w', hexecute, -⟩ : ∃ w', execute rt w call = some w' ∧ ∀ key, (w' key).data = (m key).data :=
      execute_of_run hinstruction hrun hamounts.length
    rw [hexecute]
    rfl

/-- A step with deposits adds them, unless the accounts are not ready for the batch. -/
theorem step_deposits (rt : Runtime) (w : World) (hinstruction : call.instruction = .ok (.batchDeposit params)) :
    (DepositsReady call.accounts params (load w) ∧ Credits call params w (step rt w call)) ∨
      (¬DepositsReady call.accounts params (load w) ∧ step rt w call = w) := by
  have hiff : (execute rt w call).isSome ↔ DepositsReady call.accounts params (load w) :=
    execute_isSome_iff hinstruction
  cases hexecute : execute rt w call with
  | none =>
      refine Or.inr ⟨fun hready => ?_, step_of_none hexecute⟩
      have hsome := hiff.mpr hready
      rw [hexecute] at hsome
      cases hsome
  | some w' =>
      refine Or.inl ⟨hiff.mp (by rw [hexecute]; rfl), ?_⟩
      obtain ⟨hamounts, hlengths, hbytes, hutxos⟩ := deposits_standing hinstruction hexecute
      rw [step_of_execute hexecute]
      exact ⟨hamounts, hlengths, hbytes, hutxos⟩

theorem Deposited.hasAmount {m : Memory} (hready : DepositsReady call.accounts params m) {key : Pubkey} {o : Nat}
    (h : Deposited call.accounts params key o) : ∃ index, HasAmount (m key).data index ∧ AmountBytes index o := by
  obtain ⟨tokenDeposits, hmem, hkey, deposit, hdeposit, hamount⟩ := h
  exact ⟨_, (hready.wallets tokenDeposits hmem key hkey deposit hdeposit).2, hamount⟩

theorem storedAccount_ext {account account' : StoredAccount} (hdata : account.data = account'.data)
    (hutxo : account.utxo = account'.utxo) : account = account' := by
  cases account
  cases account'
  cases hdata
  cases hutxo
  rfl

/-- Two batches that both go through end in one world, whichever comes first. -/
theorem credits_comm {first second : Call} {params params' : DepositBatchParams} {one two wOne wTwo : World}
    (hready : DepositsReady first.accounts params (load w)) (hready' : DepositsReady second.accounts params' (load w))
    (hfirst : Credits first params w wOne) (hsecond : Credits second params' wOne two)
    (hsecond' : Credits second params' w wTwo) (hfirst' : Credits first params wTwo one) : two = one := by
  have hlength : ∀ key, (two key).data.length = (one key).data.length := by
    intro key
    rw [hsecond.lengths, hfirst.lengths, hfirst'.lengths, hsecond'.lengths]
  have hamount : ∀ key index, amountAt (two key).data index = amountAt (one key).data index := by
    intro key index
    rw [hsecond.amounts, hfirst.amounts, hfirst'.amounts, hsecond'.amounts, Nat.mod_add_mod, Nat.mod_add_mod,
      Nat.add_right_comm]
  have hroom : ∀ key index, HasAmount (w key).data index → HasAmount (one key).data index := by
    intro key index h
    rw [HasAmount, hfirst'.lengths, hsecond'.lengths]
    exact h
  funext key
  refine storedAccount_ext (List.ext_getElem? fun o => ?_) ?_
  · by_cases hdeposited : Deposited first.accounts params key o ∨ Deposited second.accounts params' key o
    · obtain ⟨index, hin, ho⟩ : ∃ index, HasAmount (w key).data index ∧ AmountBytes index o :=
        hdeposited.elim (Deposited.hasAmount hready) (Deposited.hasAmount hready')
      exact amountBytes_eq (hlength key) (hroom key index hin) (hamount key index) ho
    · obtain ⟨hnot, hnot'⟩ := not_or.mp hdeposited
      rw [hsecond.bytes key o hnot', hfirst.bytes key o hnot, hfirst'.bytes key o hnot, hsecond'.bytes key o hnot']
  · rw [hsecond.utxos, hfirst.utxos, hfirst'.utxos, hsecond'.utxos]

theorem step_deposits_comm (rt : Runtime) (w : World) {first second : Call} (hfirst : first.Deposits)
    (hsecond : second.Deposits) : step rt (step rt w first) second = step rt (step rt w second) first := by
  obtain ⟨params, hparams⟩ := hfirst
  obtain ⟨params', hparams'⟩ := hsecond
  rcases step_deposits rt w hparams with ⟨hready, hfirst⟩ | ⟨hready, hfirst⟩ <;>
    rcases step_deposits rt w hparams' with ⟨hready', hsecond⟩ | ⟨hready', hsecond⟩
  · -- Neither batch changes whether the other goes through.
    rcases step_deposits rt (step rt w first) hparams' with ⟨-, htwo⟩ | ⟨hnot, -⟩
    · rcases step_deposits rt (step rt w second) hparams with ⟨-, hone⟩ | ⟨hnot, -⟩
      · exact credits_comm hready hready' hfirst htwo hsecond hone
      · exact absurd ((DepositsReady.congr hsecond.amountsOnly).mpr hready) hnot
    · exact absurd ((DepositsReady.congr hfirst.amountsOnly).mpr hready') hnot
  · rw [hsecond]
    rcases step_deposits rt (step rt w first) hparams' with ⟨hnow, -⟩ | ⟨-, hkept⟩
    · exact absurd ((DepositsReady.congr hfirst.amountsOnly).mp hnow) hready'
    · exact hkept
  · rw [hfirst]
    rcases step_deposits rt (step rt w second) hparams with ⟨hnow, -⟩ | ⟨-, hkept⟩
    · exact absurd ((DepositsReady.congr hsecond.amountsOnly).mp hnow) hready
    · exact hkept.symm
  · rw [hfirst, hsecond, hfirst]

end Calls

/-- Any order of the same deposits leads to the same world, those included that do not go through. -/
theorem deposits_any_order (rt : Runtime) (start : World) {calls calls' : List Call} (hperm : calls.Perm calls')
    (hdeposits : ∀ call ∈ calls, call.Deposits) :
    worldAt rt start calls calls.length = worldAt rt start calls' calls'.length := by
  rw [worldAt, worldAt, Run.stateAt_length, Run.stateAt_length]
  exact hperm.foldl_eq' (fun first hfirst second hsecond w =>
    step_deposits_comm rt w (hdeposits first hfirst) (hdeposits second hsecond)) start

/-- As much for the same wallet as a word can hold. -/
def fullDepositCall : Call :=
  { depositCall with
    instructionData := [3] ++ batchBytes [[1] ++ batchBytes [adjustmentBytes 1 firstAddress 18446744073709551615]] }

def fullDeposited : DepositBatchParams where
  tokenDeposits :=
    [{ accountIndex := 1
       deposits := [⟨⟨1, ⟨firstAddress.drop 40, firstAddress_last4⟩⟩, 18446744073709551615⟩] }]

theorem fullDepositCall_instruction : fullDepositCall.instruction = .ok (.batchDeposit fullDeposited) := by
  decide +kernel

/-- The two deposits go past the word together, in whichever order they come. -/
theorem fullDeposited_any_order :
    worldAt tradingRuntime tradingWorld [depositCall, fullDepositCall] 2 =
      worldAt tradingRuntime tradingWorld [fullDepositCall, depositCall] 2 := by
  refine deposits_any_order tradingRuntime tradingWorld (List.Perm.swap _ _ _) fun call hmem => ?_
  rcases List.mem_pair.mp hmem with rfl | rfl
  · exact ⟨sevenDeposited, sevenDeposited_runs.1⟩
  · exact ⟨fullDeposited, fullDepositCall_instruction⟩

end Chainring.Arch

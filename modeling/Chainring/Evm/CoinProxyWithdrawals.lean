import Chainring.Evm.CoinProxyLedger

/-! A batch of the coin proxy against its purpose: the deposits are credited, then each withdrawal is carried out
in full or reported and left out, and the batch as a whole goes through. A native withdrawal may still hand the
fee account more than it takes from its sender. -/

namespace Chainring.Evm.CoinProxy

open Ledger (Entry)
open Balances (Slot slots wordModulus)
open CheckedWord (bind_eq_ok exists_eq_ok)

/-! ### What a batch is for -/

/-- Balances as the numbers that a batch is meant to leave. -/
abbrev Accounts := Slot → Int

def accounts (balances : Balances) : Accounts := fun slot => slots balances slot

def Deposit.applyTo (accounts : Accounts) (deposit : Deposit) : Accounts := fun slot =>
  accounts slot + if (deposit.sender, deposit.token) = slot then (deposit.amount.toNat : Int) else 0

/-- The amount exceeds the balance, or a fee of its own exceeds the native balance. -/
def Withdrawal.Uncovered (withdrawal : Withdrawal) (accounts : Accounts) : Prop :=
  accounts (withdrawal.sender, withdrawal.token) < withdrawal.amount.toNat ∨
    withdrawal.SeparateFee ∧ accounts (withdrawal.sender, 0) < withdrawal.feeAmount.toNat

instance (withdrawal : Withdrawal) (accounts : Accounts) : Decidable (withdrawal.Uncovered accounts) :=
  inferInstanceAs (Decidable (_ ∨ _))

/-- What a withdrawal changes; the changes of one balance add up. -/
def Withdrawal.change (feeAccount : Address) (withdrawal : Withdrawal) (slot : Slot) : Int :=
  (if (withdrawal.sender, withdrawal.token) = slot then -(withdrawal.amount.toNat : Int) else 0) +
    (if withdrawal.token ≠ 0 ∧ (withdrawal.sender, 0) = slot then -(withdrawal.feeAmount.toNat : Int) else 0) +
    if (feeAccount, 0) = slot then (withdrawal.feeAmount.toNat : Int) else 0

def Withdrawal.applyTo (feeAccount : Address) (accounts : Accounts) (withdrawal : Withdrawal) : Accounts :=
  if withdrawal.Uncovered accounts then accounts
  else fun slot => accounts slot + withdrawal.change feeAccount slot

/-- The one event of a withdrawal. -/
def Withdrawal.outcome (accounts : Accounts) (withdrawal : Withdrawal) : Event :=
  if accounts (withdrawal.sender, withdrawal.token) < withdrawal.amount.toNat then
    .withdrawalFailed withdrawal.sender withdrawal.sequence withdrawal.token withdrawal.amount
      (BitVec.ofInt 256 (accounts (withdrawal.sender, withdrawal.token))) .insufficientBalance
  else if withdrawal.Uncovered accounts then
    .withdrawalFailed withdrawal.sender withdrawal.sequence withdrawal.token withdrawal.feeAmount
      (BitVec.ofInt 256 (accounts (withdrawal.sender, 0))) .insufficientFeeBalance
  else withdrawal.succeeded

/-- The events of the withdrawals, each at the balances that the ones before it leave. -/
def outcomes (feeAccount : Address) (accounts : Accounts) : List Withdrawal → List Event
  | [] => []
  | withdrawal :: withdrawals =>
      withdrawal.outcome accounts :: outcomes feeAccount (withdrawal.applyTo feeAccount accounts) withdrawals

/-- The sums that crediting the deposits computes are in range. -/
def DepositsInRange (accounts : Accounts) : List Deposit → Prop
  | [] => True
  | deposit :: deposits =>
      accounts (deposit.sender, deposit.token) + deposit.amount.toNat < wordModulus ∧
        DepositsInRange (deposit.applyTo accounts) deposits

/-- The sums that crediting the fees computes are in range; the fee is credited last. -/
def FeesInRange (feeAccount : Address) (accounts : Accounts) : List Withdrawal → Prop
  | [] => True
  | withdrawal :: withdrawals =>
      (¬withdrawal.Uncovered accounts →
          accounts (feeAccount, 0) + withdrawal.change feeAccount (feeAccount, 0) < wordModulus) ∧
        FeesInRange feeAccount (withdrawal.applyTo feeAccount accounts) withdrawals

/-- What the batch is meant to leave. -/
def BatchDepositAndWithdrawal.applyTo (feeAccount : Address) (accounts : Accounts)
    (batch : BatchDepositAndWithdrawal) : Accounts :=
  batch.withdrawals.foldl (Withdrawal.applyTo feeAccount) (batch.deposits.foldl Deposit.applyTo accounts)

def BatchDepositAndWithdrawal.events (feeAccount : Address) (accounts : Accounts)
    (batch : BatchDepositAndWithdrawal) : List Event :=
  batch.deposits.map Deposit.succeeded ++
    outcomes feeAccount (batch.deposits.foldl Deposit.applyTo accounts) batch.withdrawals

/-- Every addition of the batch is in range. -/
def BatchDepositAndWithdrawal.AdditionsInRange (feeAccount : Address) (accounts : Accounts)
    (batch : BatchDepositAndWithdrawal) : Prop :=
  DepositsInRange accounts batch.deposits ∧
    FeesInRange feeAccount (batch.deposits.foldl Deposit.applyTo accounts) batch.withdrawals

/-! ### One deposit or withdrawal -/

variable {host : Host} {context : Context} {world next : World} {data : Bytes}

theorem Posts.accounts_eq {entries : List (Entry Slot)} {event : Event} (h : Posts world entries event next)
    (slot : Slot) :
    accounts next.state.balances slot = accounts world.state.balances slot +
      (Ledger.credited entries slot : Int) - (Ledger.debited entries slot : Int) := by
  obtain ⟨lost, hbalance, hlost⟩ := Ledger.run_balance .reverts wordModulus h.1 slot
  rw [hlost rfl] at hbalance
  simp only [accounts]
  omega

theorem submitDeposit_applies {deposit : Deposit}
    (hrange : accounts world.state.balances (deposit.sender, deposit.token) + deposit.amount.toNat < wordModulus) :
    ∃ next, submitDeposit world deposit = .ok next ∧
      accounts next.state.balances = deposit.applyTo (accounts world.state.balances) ∧
      next = (world.setBalances next.state.balances).emit deposit.succeeded := by
  have hfits : (Ledger.run .reverts wordModulus (slots world.state.balances)
      [.credit (deposit.sender, deposit.token) deposit.amount.toNat]).isSome := by
    rw [Ledger.run_singleton, Ledger.isSome_post_credit]
    simp only [accounts] at hrange
    omega
  obtain ⟨balances, hbalances⟩ := Balances.increase_isOk.mpr hfits
  have hsubmit : submitDeposit world deposit = .ok ((world.setBalances balances).emit deposit.succeeded) :=
    bind_eq_ok.mpr ⟨balances, hbalances, rfl⟩
  have hposts := submitDeposit_cases hsubmit
  refine ⟨_, hsubmit, ?_, hposts.2⟩
  funext slot
  rw [hposts.accounts_eq, Deposit.applyTo]
  simp [Deposit.entries, Ledger.credited, Ledger.debited, Entry.creditTo, Entry.debitTo]

/-- The entries of a withdrawal make its change. -/
theorem Withdrawal.change_eq (feeAccount : Address) (withdrawal : Withdrawal) (slot : Slot) :
    withdrawal.change feeAccount slot = (Ledger.credited (withdrawal.entries feeAccount) slot : Int) -
      (Ledger.debited (withdrawal.entries feeAccount) slot : Int) := by
  rw [Withdrawal.change, Withdrawal.entries, Ledger.credited_append, Ledger.debited_append]
  by_cases hseparate : withdrawal.SeparateFee
  · rw [if_pos hseparate]
    simp only [Ledger.credited, Ledger.debited, List.map_cons, List.map_nil, List.sum_cons, List.sum_nil,
      Entry.creditTo, Entry.debitTo, hseparate.2, ne_eq, not_false_eq_true, true_and]
    split_ifs <;> omega
  · rw [if_neg hseparate]
    simp only [Ledger.credited, Ledger.debited, List.map_cons, List.map_nil, List.sum_cons, List.sum_nil,
      Entry.creditTo, Entry.debitTo]
    by_cases hnative : withdrawal.token = 0
    · simp only [hnative, ne_eq, not_true_eq_false, false_and, if_false]
      split_ifs <;> omega
    · rw [Withdrawal.feeAmount_eq_zero hseparate hnative]
      split_ifs <;> omega

/-- A withdrawal that is not covered is reported and left out. -/
theorem withdraw_uncovered {withdrawal : Withdrawal}
    (h : withdrawal.Uncovered (accounts world.state.balances)) :
    withdraw world withdrawal =
      .ok (world.emit (withdrawal.outcome (accounts world.state.balances))) := by
  have hword : ∀ balance : Uint256, BitVec.ofInt 256 (balance.toNat : Int) = balance := by
    intro balance
    rw [BitVec.ofInt_natCast, BitVec.ofNat_toNat, BitVec.setWidth_eq]
  dsimp only [withdraw]
  by_cases hshort : withdrawal.amount > world.state.balances withdrawal.sender withdrawal.token
  · have hlt : accounts world.state.balances (withdrawal.sender, withdrawal.token) < withdrawal.amount.toNat :=
      Int.ofNat_lt.mpr hshort
    rw [if_pos hshort, Withdrawal.outcome, if_pos hlt, accounts, slots, hword]
    rfl
  · have hge : ¬accounts world.state.balances (withdrawal.sender, withdrawal.token) < withdrawal.amount.toNat :=
      fun hlt => hshort (Int.ofNat_lt.mp hlt)
    obtain ⟨hseparate, hfee⟩ := h.resolve_left hge
    have hfee : withdrawal.feeAmount > 0 ∧ withdrawal.token ≠ 0 ∧
        withdrawal.feeAmount > world.state.balances withdrawal.sender 0 :=
      ⟨hseparate.1, hseparate.2, Int.ofNat_lt.mp hfee⟩
    rw [if_neg hshort, if_pos hfee, Withdrawal.outcome, if_neg hge, if_pos h, accounts, slots, hword]
    rfl

/-- The balances of a covered withdrawal once the fee of its own, if any, is charged. -/
theorem charge_covered {withdrawal : Withdrawal} (hcovered : ¬withdrawal.Uncovered (accounts world.state.balances)) :
    ∃ charged, (if withdrawal.feeAmount > 0 ∧ withdrawal.token ≠ 0 then
        world.state.balances.decrease withdrawal.sender 0 withdrawal.feeAmount
      else .ok world.state.balances) = .ok charged ∧
      Ledger.run .reverts wordModulus (slots world.state.balances)
        (if withdrawal.SeparateFee then [.debit (withdrawal.sender, 0) withdrawal.feeAmount.toNat] else []) =
          some (slots charged) ∧
      withdrawal.amount.toNat ≤ slots charged (withdrawal.sender, withdrawal.token) := by
  rw [Withdrawal.Uncovered, not_or] at hcovered
  obtain ⟨hamount, hfee⟩ := hcovered
  have hamount : withdrawal.amount.toNat ≤ slots world.state.balances (withdrawal.sender, withdrawal.token) :=
    Int.ofNat_le.mp (Int.not_lt.mp hamount)
  by_cases hseparate : withdrawal.SeparateFee
  · have hfee : withdrawal.feeAmount.toNat ≤ slots world.state.balances (withdrawal.sender, 0) :=
      Int.ofNat_le.mp (Int.not_lt.mp fun hlt => hfee ⟨hseparate, hlt⟩)
    have hdebit : (Ledger.run .reverts wordModulus (slots world.state.balances)
        [.debit (withdrawal.sender, 0) withdrawal.feeAmount.toNat]).isSome := by
      rw [Ledger.run_singleton, Ledger.isSome_post_debit]
      exact hfee
    obtain ⟨charged, hcharged⟩ := Balances.decrease_isOk.mpr hdebit
    have hpost := Balances.post_decrease hcharged
    refine ⟨charged, (if_pos hseparate).trans hcharged, ?_, ?_⟩
    · rw [if_pos hseparate, Ledger.run_singleton, hpost]
    · have hother : (withdrawal.sender, withdrawal.token) ≠ (withdrawal.sender, 0) :=
        fun heq => hseparate.2 (Prod.mk.inj heq).2
      rw [Ledger.post, if_pos hfee] at hpost
      rw [← Option.some.inj hpost, Function.update_of_ne hother]
      exact hamount
  · refine ⟨world.state.balances, if_neg hseparate, ?_, hamount⟩
    rw [if_neg hseparate]
    rfl

/-- A covered withdrawal whose fee is in range is carried out in full. -/
theorem withdraw_covered {withdrawal : Withdrawal}
    (hcovered : ¬withdrawal.Uncovered (accounts world.state.balances))
    (hrange : accounts world.state.balances (world.state.feeAccount, 0) +
      withdrawal.change world.state.feeAccount (world.state.feeAccount, 0) < wordModulus) :
    ∃ next, withdraw world withdrawal = .ok next ∧
      Posts world (withdrawal.entries world.state.feeAccount) withdrawal.succeeded next := by
  obtain ⟨charged, hcharge, hcharged, hamount⟩ := charge_covered hcovered
  have hdebit : (Ledger.run .reverts wordModulus (slots charged)
      [.debit (withdrawal.sender, withdrawal.token) withdrawal.amount.toNat]).isSome := by
    rw [Ledger.run_singleton, Ledger.isSome_post_debit]
    exact hamount
  obtain ⟨debited, hdebited⟩ := Balances.decrease_isOk.mpr hdebit
  have hcredit : (Ledger.run .reverts wordModulus (slots debited)
      [.credit (world.state.feeAccount, 0) withdrawal.feeAmount.toNat]).isSome := by
    have hrun : Ledger.run .reverts wordModulus (slots world.state.balances)
        ((if withdrawal.SeparateFee then [.debit (withdrawal.sender, 0) withdrawal.feeAmount.toNat] else []) ++
          [.debit (withdrawal.sender, withdrawal.token) withdrawal.amount.toNat]) = some (slots debited) := by
      rw [Ledger.run_append, hcharged, Option.bind_some, Ledger.run_singleton]
      exact Balances.post_decrease hdebited
    obtain ⟨lost, hbalance, hlost⟩ := Ledger.run_balance .reverts wordModulus hrun (world.state.feeAccount, 0)
    rw [hlost rfl, Ledger.credited_append, Ledger.debited_append] at hbalance
    rw [Withdrawal.change_eq, Withdrawal.entries, Ledger.credited_append, Ledger.debited_append] at hrange
    rw [Ledger.run_singleton, Ledger.isSome_post_credit]
    simp only [accounts, Ledger.credited_cons, Ledger.debited_cons, Ledger.credited_nil, Ledger.debited_nil,
      Entry.creditTo, Entry.debitTo, if_pos] at hbalance hrange
    omega
  obtain ⟨credited, hcredited⟩ := Balances.increase_isOk.mpr hcredit
  have hwithdraw : withdraw world withdrawal = .ok ((world.setBalances credited).emit withdrawal.succeeded) := by
    have hshort : ¬withdrawal.amount > world.state.balances withdrawal.sender withdrawal.token :=
      fun hlt => hcovered (Or.inl (Int.ofNat_lt.mpr hlt))
    have hfee : ¬(withdrawal.feeAmount > 0 ∧ withdrawal.token ≠ 0 ∧
        withdrawal.feeAmount > world.state.balances withdrawal.sender 0) :=
      fun hfee => hcovered (Or.inr ⟨⟨hfee.1, hfee.2.1⟩, Int.ofNat_lt.mpr hfee.2.2⟩)
    dsimp only [withdraw]
    rw [if_neg hshort, if_neg hfee]
    split at hcharge
    · next hseparate =>
        rw [if_pos hseparate]
        refine bind_eq_ok.mpr ⟨charged, hcharge, ?_⟩
        exact bind_eq_ok.mpr ⟨debited, hdebited, bind_eq_ok.mpr ⟨credited, hcredited, rfl⟩⟩
    · next hincluded =>
        cases hcharge
        rw [if_neg hincluded]
        refine bind_eq_ok.mpr ⟨_, rfl, ?_⟩
        exact bind_eq_ok.mpr ⟨debited, hdebited, bind_eq_ok.mpr ⟨credited, hcredited, rfl⟩⟩
  refine ⟨_, hwithdraw, ?_⟩
  rcases withdraw_cases hwithdraw with ⟨event, hreports, -⟩ | hposts
  · rcases hreports with ⟨hshort, -⟩ | ⟨hseparate, hfee, -⟩
    · exact absurd (Or.inl (Int.ofNat_lt.mpr hshort)) hcovered
    · exact absurd (Or.inr ⟨hseparate, Int.ofNat_lt.mpr hfee⟩) hcovered
  · exact hposts

theorem withdraw_applies {withdrawal : Withdrawal}
    (hrange : ¬withdrawal.Uncovered (accounts world.state.balances) →
      accounts world.state.balances (world.state.feeAccount, 0) +
        withdrawal.change world.state.feeAccount (world.state.feeAccount, 0) < wordModulus) :
    ∃ next, withdraw world withdrawal = .ok next ∧
      accounts next.state.balances =
        withdrawal.applyTo world.state.feeAccount (accounts world.state.balances) ∧
      next = (world.setBalances next.state.balances).emit
        (withdrawal.outcome (accounts world.state.balances)) := by
  by_cases h : withdrawal.Uncovered (accounts world.state.balances)
  · exact ⟨_, withdraw_uncovered h, (if_pos h).symm, rfl⟩
  · obtain ⟨next, hwithdraw, hposts⟩ := withdraw_covered h (hrange h)
    refine ⟨next, hwithdraw, ?_, ?_⟩
    · funext slot
      rw [hposts.accounts_eq, Withdrawal.applyTo, if_neg h, Withdrawal.change_eq]
      omega
    · have hshort := fun hlt => h (Or.inl hlt)
      rw [Withdrawal.outcome, if_neg hshort, if_neg h]
      exact hposts.2

/-! ### A batch -/

theorem submitDeposits_apply {deposits : List Deposit}
    (hrange : DepositsInRange (accounts world.state.balances) deposits) :
    ∃ next, deposits.foldlM submitDeposit world = .ok next ∧
      accounts next.state.balances = deposits.foldl Deposit.applyTo (accounts world.state.balances) ∧
      next = { world.setBalances next.state.balances with
        log := world.log ++ deposits.map Deposit.succeeded } := by
  induction deposits generalizing world with
  | nil => exact ⟨world, rfl, rfl, by rw [List.map_nil, List.append_nil]; rfl⟩
  | cons deposit deposits ih =>
      obtain ⟨middle, hsubmit, haccounts, hmiddle⟩ := submitDeposit_applies hrange.1
      have hrest := hrange.2
      rw [← haccounts] at hrest
      obtain ⟨next, hnext, hfinal, hworld⟩ := ih hrest
      refine ⟨next, ?_, ?_, ?_⟩
      · rw [List.foldlM_cons, hsubmit]
        exact hnext
      · rw [List.foldl_cons, ← haccounts]
        exact hfinal
      · rw [hworld, hmiddle]
        simp [World.emit, World.setBalances]

theorem withdrawals_apply {withdrawals : List Withdrawal}
    (hrange : FeesInRange world.state.feeAccount (accounts world.state.balances) withdrawals) :
    ∃ next, withdrawals.foldlM withdraw world = .ok next ∧
      accounts next.state.balances =
        withdrawals.foldl (Withdrawal.applyTo world.state.feeAccount) (accounts world.state.balances) ∧
      next = { world.setBalances next.state.balances with
        log := world.log ++ outcomes world.state.feeAccount (accounts world.state.balances) withdrawals } := by
  induction withdrawals generalizing world with
  | nil => exact ⟨world, rfl, rfl, by rw [outcomes, List.append_nil]; rfl⟩
  | cons withdrawal withdrawals ih =>
      obtain ⟨middle, hwithdraw, haccounts, hmiddle⟩ := withdraw_applies hrange.1
      have hfeeAccount : middle.state.feeAccount = world.state.feeAccount := by
        rw [hmiddle]
        rfl
      have hrest := hrange.2
      rw [← haccounts, ← hfeeAccount] at hrest
      obtain ⟨next, hnext, hfinal, hworld⟩ := ih hrest
      refine ⟨next, ?_, ?_, ?_⟩
      · rw [List.foldlM_cons, hwithdraw]
        exact hnext
      · rw [List.foldl_cons, ← haccounts, ← hfeeAccount]
        exact hfinal
      · rw [outcomes, ← haccounts, ← hfeeAccount, hworld, hmiddle]
        simp [World.emit, World.setBalances]

/-- A fresh batch of the submitter goes through when its additions are in range: the deposits are credited, and
every withdrawal is carried out in full or reported and left out. -/
theorem batch_applies_each_fully (host : Host) (context : Context) (world : World) (data : Bytes)
    (batch : BatchDepositAndWithdrawal) (hsender : context.sender = world.state.submitter)
    (hidle : world.state.batchHash = 0)
    (hnew : world.state.lastDepositAndWithdrawBatchHash ≠ host.keccak256 data)
    (hdecode : host.decodeBatchDepositAndWithdrawal data = some batch)
    (hnonempty : batch.withdrawals ≠ [] ∨ batch.deposits ≠ [])
    (hrange : batch.AdditionsInRange world.state.feeAccount (accounts world.state.balances)) :
    ∃ next, submitDepositAndWithdrawalBatch host context world data = .ok next ∧
      accounts next.state.balances =
        batch.applyTo world.state.feeAccount (accounts world.state.balances) ∧
      next.log = world.log ++ batch.events world.state.feeAccount (accounts world.state.balances) ∧
      next.state = { world.state with
        balances := next.state.balances
        lastDepositAndWithdrawBatchHash := host.keccak256 data } := by
  obtain ⟨deposited, hdeposited, hcredited, hworld⟩ := submitDeposits_apply hrange.1
  have hfeeAccount : deposited.state.feeAccount = world.state.feeAccount := by
    rw [hworld]
    rfl
  have hfees := hrange.2
  rw [← hcredited, ← hfeeAccount] at hfees
  obtain ⟨withdrawn, hwithdrawn, hfinal, hnext⟩ := withdrawals_apply hfees
  refine ⟨{ withdrawn with
    state := { withdrawn.state with lastDepositAndWithdrawBatchHash := host.keccak256 data } }, ?_, ?_, ?_, ?_⟩
  · refine bind_eq_ok.mpr ⟨(), require_eq_ok.mpr hsender, bind_eq_ok.mpr ⟨(), require_eq_ok.mpr hidle, ?_⟩⟩
    refine bind_eq_ok.mpr ⟨(), require_eq_ok.mpr hnew, bind_eq_ok.mpr ⟨batch, orRevert_eq_ok.mpr hdecode, ?_⟩⟩
    refine bind_eq_ok.mpr ⟨(), require_eq_ok.mpr hnonempty, bind_eq_ok.mpr ⟨deposited, hdeposited, ?_⟩⟩
    exact bind_eq_ok.mpr ⟨withdrawn, hwithdrawn, rfl⟩
  · show accounts withdrawn.state.balances = _
    rw [hfinal, hcredited, hfeeAccount]
    rfl
  · show withdrawn.log = _
    rw [hnext, BatchDepositAndWithdrawal.events, ← hcredited, ← hfeeAccount, ← List.append_assoc]
    rw [hworld]
  · rw [hnext, hworld]
    rfl

/-! The wallet withdraws three units with a fee of two, more than it has, and a unit with a fee that it cannot
pay; the fee account withdraws both units of its fee and pays one of them to itself. -/

instance decidableDepositsInRange :
    (accounts : Accounts) → (deposits : List Deposit) → Decidable (DepositsInRange accounts deposits)
  | _, [] => .isTrue trivial
  | accounts, deposit :: deposits =>
      have := decidableDepositsInRange (deposit.applyTo accounts) deposits
      inferInstanceAs (Decidable (_ ∧ _))

instance decidableFeesInRange (feeAccount : Address) :
    (accounts : Accounts) → (withdrawals : List Withdrawal) → Decidable (FeesInRange feeAccount accounts withdrawals)
  | _, [] => .isTrue trivial
  | accounts, withdrawal :: withdrawals =>
      have := decidableFeesInRange feeAccount (withdrawal.applyTo feeAccount accounts) withdrawals
      inferInstanceAs (Decidable (_ ∧ _))

def mixedBatch : BatchDepositAndWithdrawal where
  deposits := [{ sequence := 1, sender := 0xa1, token := 0, amount := 7 },
    { sequence := 2, sender := 0xa1, token := 0x70, amount := 5 }]
  withdrawals := [{ sender := 0xa1, token := 0x70, amount := 3, sequence := 1, feeAmount := 2 },
    { sender := 0xa1, token := 0x70, amount := 9, sequence := 2, feeAmount := 0 },
    { sender := 0xa1, token := 0x70, amount := 1, sequence := 3, feeAmount := 50 },
    { sender := 0xfe, token := 0, amount := 2, sequence := 4, feeAmount := 1 }]

def mixedHost : Host :=
  ledgerHost [(mixedBatch.encode, 0x37fc76136db88184de541f4c68a3f6a01c07f446ae7c303f8a5ea1ba32cfec36)]
    [mixedBatch] []

theorem mixedBatch_applies : ∃ next,
    submitDepositAndWithdrawalBatch mixedHost ⟨0x5b, 0x0e⟩ (start 0x5b 0xfe) mixedBatch.encode = .ok next ∧
      accounts next.state.balances = mixedBatch.applyTo 0xfe (accounts fun _ _ => 0) ∧
      next.log = mixedBatch.events 0xfe (accounts fun _ _ => 0) ∧
      next.state = { (start 0x5b 0xfe).state with
        balances := next.state.balances
        lastDepositAndWithdrawBatchHash := mixedHost.keccak256 mixedBatch.encode } :=
  batch_applies_each_fully mixedHost ⟨0x5b, 0x0e⟩ (start 0x5b 0xfe) mixedBatch.encode mixedBatch rfl rfl
    (by decide +kernel) (by decide +kernel) (by decide) ⟨by decide +kernel, by decide +kernel⟩

example : mixedBatch.events 0xfe (accounts fun _ _ => 0) =
    [.depositSucceeded 0xa1 1 0 7, .depositSucceeded 0xa1 2 0x70 5, .withdrawalSucceeded 0xa1 1 0x70 3 2,
      .withdrawalFailed 0xa1 2 0x70 9 2 .insufficientBalance,
      .withdrawalFailed 0xa1 3 0x70 50 5 .insufficientFeeBalance, .withdrawalSucceeded 0xfe 4 0 2 1] := by
  decide +kernel

/-! ### What a withdrawal adds to the ledger -/

/-- The withdrawal raises the total of no token, and what a native one hands the fee account its sender gave. -/
structure DoesNotInflate (world : World) (withdrawal : Withdrawal) (next : World) : Prop where
  totals : ∀ token, next.state.balances.tokenTotal token ≤ world.state.balances.tokenTotal token
  nativeFee : withdrawal.token = 0 →
    accounts next.state.balances (world.state.feeAccount, 0) -
        accounts world.state.balances (world.state.feeAccount, 0) ≤
      accounts world.state.balances (withdrawal.sender, 0) - accounts next.state.balances (withdrawal.sender, 0)

/-- A native withdrawal that its sender can pay has a fee within its amount. -/
def Withdrawal.FeeWithinAmount (withdrawal : Withdrawal) (balances : Balances) : Prop :=
  withdrawal.token = 0 → withdrawal.amount ≤ balances withdrawal.sender 0 →
    withdrawal.feeAmount ≤ withdrawal.amount

/-- A withdrawal that goes through moves the total of a token by what its entries do. -/
theorem Posts.tokenTotal_eq {withdrawal : Withdrawal}
    (h : Posts world (withdrawal.entries world.state.feeAccount) withdrawal.succeeded next) (token : Address) :
    (next.state.balances.tokenTotal token : Int) = world.state.balances.tokenTotal token -
      if withdrawal.token = token then taken withdrawal.token withdrawal.amount withdrawal.feeAmount else 0 := by
  have htotal := Balances.tokenTotal_of_run h.1 token
  have hnet := netOf_entries world.state.feeAccount token withdrawal
  rw [netOf] at hnet
  omega

theorem withdraw_doesNotInflate_iff {withdrawal : Withdrawal} (h : withdraw world withdrawal = .ok next) :
    DoesNotInflate world withdrawal next ↔ withdrawal.FeeWithinAmount world.state.balances := by
  rcases withdraw_cases h with ⟨event, hreports, rfl⟩ | hposts
  · refine iff_of_true ⟨fun _ => le_rfl, fun _ => ?_⟩ fun hnative hpays => ?_
    · simp [World.emit]
    · rcases hreports with ⟨hshort, -⟩ | ⟨hseparate, -⟩
      · rw [hnative] at hshort
        exact absurd hpays (BitVec.not_le.mpr hshort)
      · exact absurd hnative hseparate.2
  by_cases hnative : withdrawal.token = 0
  · have hseparate : ¬withdrawal.SeparateFee := fun h => h.2 hnative
    have hpays : withdrawal.amount ≤ world.state.balances withdrawal.sender 0 := by
      have hrun := hposts.1
      rw [Withdrawal.entries, if_neg hseparate, hnative] at hrun
      obtain ⟨_, hdebit, -⟩ := Option.bind_eq_some_iff.mp hrun
      show withdrawal.amount.toNat ≤ slots world.state.balances (withdrawal.sender, 0)
      exact (Ledger.isSome_post_debit .reverts wordModulus).mp (Option.isSome_of_eq_some hdebit)
    have htotal : (next.state.balances.tokenTotal 0 : Int) = world.state.balances.tokenTotal 0 -
        (withdrawal.amount.toNat - withdrawal.feeAmount.toNat) := by
      rw [hposts.tokenTotal_eq, if_pos hnative, taken, if_pos hnative]
    constructor
    · intro hsound _ _
      have hzero := hsound.totals 0
      show withdrawal.feeAmount.toNat ≤ withdrawal.amount.toNat
      omega
    · intro hwithin
      have hfee : withdrawal.feeAmount.toNat ≤ withdrawal.amount.toNat := hwithin hnative hpays
      refine ⟨fun token => ?_, fun _ => ?_⟩
      · by_cases htoken : token = 0
        · rw [htoken]
          omega
        · have hother := hposts.tokenTotal_eq token
          rw [if_neg (hnative ▸ Ne.symm htoken)] at hother
          omega
      · have hcollected := hposts.accounts_eq (world.state.feeAccount, 0)
        have hpaid := hposts.accounts_eq (withdrawal.sender, 0)
        simp only [Withdrawal.entries, if_neg hseparate, hnative, List.nil_append, Ledger.credited_cons,
          Ledger.debited_cons, Ledger.credited_nil, Ledger.debited_nil, Entry.creditTo, Entry.debitTo,
          if_pos] at hcollected hpaid
        by_cases hsame : withdrawal.sender = world.state.feeAccount
        · rw [hsame] at hpaid ⊢
          simp only [if_true] at hpaid
          omega
        · simp only [Prod.mk.injEq, and_true, hsame, Ne.symm hsame, if_false] at hcollected hpaid
          omega
  · refine iff_of_true ⟨fun token => ?_, fun h => absurd h hnative⟩ fun h => absurd h hnative
    have htotal := hposts.tokenTotal_eq token
    rw [taken, if_neg hnative] at htotal
    split_ifs at htotal <;> omega

/-- In a batch that goes through, a withdrawal inflates no total exactly when, native and payable, its fee is
within its amount. -/
theorem submitted_withdrawal_inflates_iff (host : Host) (context : Context) (world next : World) (data : Bytes)
    (batch : BatchDepositAndWithdrawal) (before : List Withdrawal) (withdrawal : Withdrawal)
    (after : List Withdrawal) (hdecode : host.decodeBatchDepositAndWithdrawal data = some batch)
    (hsplit : batch.withdrawals = before ++ withdrawal :: after)
    (hsubmit : submitDepositAndWithdrawalBatch host context world data = .ok next) :
    ∃ deposited reached settled, batch.deposits.foldlM submitDeposit world = .ok deposited ∧
      before.foldlM withdraw deposited = .ok reached ∧ withdraw reached withdrawal = .ok settled ∧
      (DoesNotInflate reached withdrawal settled ↔ withdrawal.FeeWithinAmount reached.state.balances) := by
  obtain ⟨-, -, -, batch', deposited, withdrawn, hdecode', hdeposited, hwithdrawn, -⟩ :=
    submitDepositAndWithdrawalBatch_cases hsubmit
  obtain rfl := Option.some.inj (hdecode.symm.trans hdecode')
  rw [hsplit, List.foldlM_append] at hwithdrawn
  obtain ⟨reached, hreached, hwithdrawn⟩ := bind_eq_ok.mp hwithdrawn
  rw [List.foldlM_cons] at hwithdrawn
  obtain ⟨settled, hsettled, -⟩ := bind_eq_ok.mp hwithdrawn
  exact ⟨deposited, reached, settled, hdeposited, hreached, hsettled, withdraw_doesNotInflate_iff hsettled⟩

/-! A wallet withdraws five of its seven native units, two of them the fee; a wallet without any withdraws none
with a fee of five. -/

def feeInAmount : BatchDepositAndWithdrawal where
  deposits := [{ sequence := 1, sender := 0xa1, token := 0, amount := 7 }]
  withdrawals := [{ sender := 0xa1, token := 0, amount := 5, sequence := 1, feeAmount := 2 }]

def unfundedFee : BatchDepositAndWithdrawal where
  deposits := []
  withdrawals := [{ sender := 0xa1, token := 0, amount := 0, sequence := 1, feeAmount := 5 }]

def feeHost : Host :=
  ledgerHost
    [(feeInAmount.encode, 0x24592ba8a351440e8b0929c81a96ed23f1bbeab8a069c4b404491cee0b10d60d),
      (unfundedFee.encode, 0x545147dd5c68450b945a2485e0599b080e450803cdf75e91b23cfab185b02642)]
    [feeInAmount, unfundedFee] []

theorem feeInAmount_inflates_iff : ∃ deposited reached settled,
    feeInAmount.deposits.foldlM submitDeposit (start 0x5b 0xfe) = .ok deposited ∧
      ([] : List Withdrawal).foldlM withdraw deposited = .ok reached ∧
      withdraw reached ⟨0xa1, 0, 5, 1, 2⟩ = .ok settled ∧
      (DoesNotInflate reached ⟨0xa1, 0, 5, 1, 2⟩ settled ↔
        Withdrawal.FeeWithinAmount ⟨0xa1, 0, 5, 1, 2⟩ reached.state.balances) ∧
      DoesNotInflate reached ⟨0xa1, 0, 5, 1, 2⟩ settled := by
  have hisOk : (submitDepositAndWithdrawalBatch feeHost ⟨0x5b, 0x0e⟩ (start 0x5b 0xfe)
      feeInAmount.encode).toOption.map (fun _ => ()) = some () := by
    decide +kernel
  obtain ⟨next, hsubmit, -⟩ := exists_eq_ok hisOk
  obtain ⟨deposited, reached, settled, hdeposited, hreached, hsettled, hiff⟩ :=
    submitted_withdrawal_inflates_iff feeHost ⟨0x5b, 0x0e⟩ (start 0x5b 0xfe) next feeInAmount.encode
      feeInAmount [] ⟨0xa1, 0, 5, 1, 2⟩ [] (by decide +kernel) rfl hsubmit
  exact ⟨deposited, reached, settled, hdeposited, hreached, hsettled, hiff, hiff.mpr fun _ _ => by decide⟩

/-- The batch goes through and the fee account holds five native units that nobody deposited. -/
theorem unfundedFee_inflates : ∃ next settled,
    submitDepositAndWithdrawalBatch feeHost ⟨0x5b, 0x0e⟩ (start 0x5b 0xfe) unfundedFee.encode = .ok next ∧
      withdraw (start 0x5b 0xfe) ⟨0xa1, 0, 0, 1, 5⟩ = .ok settled ∧
      settled.state.balances = next.state.balances ∧
      accounts next.state.balances (0xfe, 0) = 5 ∧
      ¬DoesNotInflate (start 0x5b 0xfe) ⟨0xa1, 0, 0, 1, 5⟩ settled := by
  have hrun : (submitDepositAndWithdrawalBatch feeHost ⟨0x5b, 0x0e⟩ (start 0x5b 0xfe)
      unfundedFee.encode).toOption.map (fun next => next.state.balances 0xfe 0) = some 5 := by
    decide +kernel
  obtain ⟨next, hsubmit, hfee⟩ := exists_eq_ok hrun
  obtain ⟨-, -, -, batch, deposited, withdrawn, hdecode, hdeposited, hwithdrawn, hnext⟩ :=
    submitDepositAndWithdrawalBatch_cases hsubmit
  have hbatch : feeHost.decodeBatchDepositAndWithdrawal unfundedFee.encode = some unfundedFee := by
    decide +kernel
  obtain rfl := Option.some.inj (hbatch.symm.trans hdecode)
  cases hdeposited
  obtain ⟨settled, hsettled, hdone⟩ := bind_eq_ok.mp hwithdrawn
  cases hdone
  refine ⟨next, withdrawn, hsubmit, hsettled, ?_, ?_, ?_⟩
  · rw [hnext]
  · rw [accounts, slots, hfee]
    rfl
  · rw [withdraw_doesNotInflate_iff hsettled]
    exact fun h => absurd (h rfl (by decide)) (by decide)

end Chainring.Evm.CoinProxy

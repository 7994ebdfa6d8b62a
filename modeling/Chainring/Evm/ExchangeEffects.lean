import Chainring.Evm.Exchange

/-! What the withdrawals of the exchange did when they went through: a withdrawal is paid or it is
declined, an entry of a batch is refused for its signature or executed, and a sovereign request is
stored or completed. -/

namespace Chainring.Evm.Exchange

open Balances (slots wordModulus)
open CheckedWord (bind_eq_ok)

variable {E : Type} {host : Host} {tokens : Tokens E} {context : Context} {world next : World E}

/-! ### One withdrawal -/

/-- The sender is debited, the fee account credited and the rest transferred. -/
def Pays (tokens : Tokens E) (world : World E) (sequence : UInt64) (sender token : Address)
    (amount fee : Uint256) (next : World E) : Prop :=
  ∃ balances env payout, amount ≤ world.state.balances sender token ∧
    payout.toNat + fee.toNat = amount.toNat ∧
    (if token = 0 then tokens.send world.env sender payout
      else tokens.transfer world.env token sender payout) = some env ∧
    Ledger.run .reverts wordModulus (slots world.state.balances)
      [.debit (sender, token) amount.toNat, .credit (world.state.feeAccount, token) fee.toNat] =
        some (slots balances) ∧
    next = ({ world with env }.setBalances balances).emit
      (.withdrawal sender sequence token amount fee)

/-- The withdrawal only reports that the balance does not cover it. -/
def Declines (world : World E) (sequence : UInt64) (sender token : Address) (amount : Uint256)
    (next : World E) : Prop :=
  next = world.emit (.withdrawalFailed sender sequence token amount
    (world.state.balances sender token) .insufficientBalance)

theorem withdraw_cases {sequence : UInt64} {sender token : Address} {amount fee : Uint256}
    (h : withdraw tokens world sequence sender token amount fee = .ok next) :
    (world.state.balances sender token < amount ∧
        Declines world sequence sender token amount next) ∨
      Pays tokens world sequence sender token amount fee next := by
  dsimp only [withdraw] at h
  by_cases hshort : amount > world.state.balances sender token
  · rw [if_pos hshort] at h
    cases h
    exact Or.inl ⟨hshort, rfl⟩
  · rw [if_neg hshort] at h
    obtain ⟨debited, hdebited, h⟩ := bind_eq_ok.mp h
    obtain ⟨balances, hcredited, h⟩ := bind_eq_ok.mp h
    obtain ⟨payout, hpayout, h⟩ := bind_eq_ok.mp h
    obtain ⟨env, henv, h⟩ := bind_eq_ok.mp h
    cases h
    refine Or.inr ⟨balances, env, payout, BitVec.not_lt.mp hshort, subUint_eq_ok.mp hpayout,
      orRevert_eq_ok.mp henv, ?_, rfl⟩
    rw [Ledger.run, Balances.post_decrease hdebited, Option.bind_some, Ledger.run,
      Balances.post_increase hcredited]
    rfl

/-- What a withdrawal debits: all of it, or as much of it as there is. -/
def debit (state : State) (txType : TransactionType) (tx : Withdraw) : Uint256 :=
  let balance := state.balances tx.sender tx.token
  match txType with
  | .withdraw => tx.amount
  | .withdrawAll => if tx.amount > balance then balance else tx.amount

/-- The balance covers the withdrawal. -/
def Executable (state : State) (txType : TransactionType) (tx : Withdraw) : Prop :=
  let balance := state.balances tx.sender tx.token
  match txType with
  | .withdraw => tx.amount ≤ balance
  | .withdrawAll => tx.feeAmount < balance

instance (state : State) (txType : TransactionType) (tx : Withdraw) :
    Decidable (Executable state txType tx) :=
  match txType with
  | .withdraw => inferInstanceAs (Decidable (tx.amount ≤ _))
  | .withdrawAll => inferInstanceAs (Decidable (tx.feeAmount < _))

theorem executeWithdrawal_cases {txType : TransactionType} {signedTx : WithdrawWithSignature}
    (h : executeWithdrawal tokens world txType signedTx = .ok next) :
    (¬Executable world.state txType signedTx.tx ∧
        Declines world signedTx.sequence signedTx.tx.sender signedTx.tx.token signedTx.tx.amount next) ∨
      (Executable world.state txType signedTx.tx ∧
        Pays tokens world signedTx.sequence signedTx.tx.sender signedTx.tx.token
          (debit world.state txType signedTx.tx) signedTx.tx.feeAmount next) := by
  cases txType with
  | withdraw =>
      rcases withdraw_cases h with ⟨hshort, hdeclines⟩ | hpays
      · exact Or.inl ⟨BitVec.not_le.mpr hshort, hdeclines⟩
      · obtain ⟨_, _, _, hcovered, -⟩ := id hpays
        exact Or.inr ⟨hcovered, hpays⟩
  | withdrawAll =>
      simp only [executeWithdrawal, withdrawAll] at h
      split at h
      · next hfee =>
          cases h
          exact Or.inl ⟨BitVec.not_lt.mpr hfee, rfl⟩
      · next hfee =>
          refine Or.inr ⟨BitVec.not_le.mp hfee, ?_⟩
          rcases withdraw_cases h with ⟨hshort, -⟩ | hpays
          · exfalso
            split at hshort
            · exact absurd hshort (BitVec.lt_irrefl _)
            · next hle => exact hle hshort
          · exact hpays

/-- The balance that a paid withdrawal leaves in a register. -/
theorem Pays.balance {sequence : UInt64} {sender token : Address} {amount fee : Uint256}
    (h : Pays tokens world sequence sender token amount fee next) (wallet t : Address) :
    (world.state.balances wallet t).toNat +
        (if world.state.feeAccount = wallet ∧ token = t then fee.toNat else 0) =
      (next.state.balances wallet t).toNat +
        (if sender = wallet ∧ token = t then amount.toNat else 0) := by
  obtain ⟨balances, env, payout, -, -, -, hrun, rfl⟩ := h
  obtain ⟨lost, hbalance, hzero⟩ := Ledger.run_balance .reverts wordModulus hrun (wallet, t)
  rw [hzero rfl] at hbalance
  simpa [Ledger.credited, Ledger.debited, Ledger.Entry.creditTo, Ledger.Entry.debitTo, slots,
    World.emit, World.setBalances] using hbalance

/-- A withdrawal moves money: it is covered, and debits more than the fee its sender gets back. -/
def MovesMoney (state : State) (txType : TransactionType) (tx : Withdraw) : Prop :=
  Executable state txType tx ∧
    if state.feeAccount = tx.sender then tx.feeAmount < debit state txType tx
    else 0 < debit state txType tx

instance (state : State) (txType : TransactionType) (tx : Withdraw) :
    Decidable (MovesMoney state txType tx) :=
  inferInstanceAs (Decidable (Executable state txType tx ∧
    if state.feeAccount = tx.sender then tx.feeAmount < debit state txType tx
    else 0 < debit state txType tx))

/-- An execution lowers its sender's balance exactly when it moves money. -/
theorem executeWithdrawal_lowers_iff {txType : TransactionType} {signedTx : WithdrawWithSignature}
    (h : executeWithdrawal tokens world txType signedTx = .ok next) :
    next.state.balances signedTx.tx.sender signedTx.tx.token <
        world.state.balances signedTx.tx.sender signedTx.tx.token ↔
      MovesMoney world.state txType signedTx.tx := by
  rcases executeWithdrawal_cases h with ⟨hunable, rfl⟩ | ⟨hexecutable, hpays⟩
  · exact iff_of_false (BitVec.lt_irrefl _) fun hmoves => hunable hmoves.1
  · have hbalance := hpays.balance signedTx.tx.sender signedTx.tx.token
    simp only [and_true, if_true] at hbalance
    rw [MovesMoney, and_iff_right hexecutable, BitVec.lt_def]
    by_cases hfee : world.state.feeAccount = signedTx.tx.sender
    · rw [if_pos hfee] at hbalance
      rw [if_pos hfee, BitVec.lt_def]
      omega
    · rw [if_neg hfee] at hbalance
      rw [if_neg hfee, BitVec.lt_def]
      show _ ↔ 0 < _
      omega

/-- No other balance goes down. -/
theorem executeWithdrawal_lowers {txType : TransactionType} {signedTx : WithdrawWithSignature}
    (h : executeWithdrawal tokens world txType signedTx = .ok next) {wallet token : Address}
    (hlower : next.state.balances wallet token < world.state.balances wallet token) :
    wallet = signedTx.tx.sender ∧ token = signedTx.tx.token := by
  rcases executeWithdrawal_cases h with ⟨-, rfl⟩ | ⟨-, hpays⟩
  · exact absurd hlower (BitVec.lt_irrefl _)
  · by_contra hother
    have hbalance := hpays.balance wallet token
    rw [if_neg fun h : signedTx.tx.sender = wallet ∧ signedTx.tx.token = token =>
      hother ⟨h.1.symm, h.2.symm⟩] at hbalance
    have hlt : (next.state.balances wallet token).toNat < (world.state.balances wallet token).toNat :=
      hlower
    omega

/-! ### One entry of a batch -/

/-- The signature of an entry recovers to its sender or to the signer linked to it. -/
def SignedBySender (host : Host) (state : State) (txType : TransactionType)
    (signedTx : WithdrawWithSignature) : Prop :=
  ∃ recovered, host.recover (withdrawalDigest host signedTx.tx txType) signedTx.signature =
      some recovered ∧ recovered ≠ 0 ∧
    (recovered = signedTx.tx.sender ∨ recovered = state.linkedSigners signedTx.tx.sender)

theorem authorizeWithdrawal_cases {txType : TransactionType} {signedTx : WithdrawWithSignature}
    {authorized : Bool} (h : authorizeWithdrawal host world txType signedTx = .ok (next, authorized)) :
    (authorized = true ∧ next = world ∧
        (pendingSovereignWithdrawal world.state txType signedTx = true ∨
          SignedBySender host world.state txType signedTx)) ∨
      (authorized = false ∧ pendingSovereignWithdrawal world.state txType signedTx = false ∧
        ¬SignedBySender host world.state txType signedTx ∧
        next = world.emit (.withdrawalFailed signedTx.tx.sender signedTx.sequence signedTx.tx.token
          signedTx.tx.amount 0 .invalidSignature)) := by
  unfold authorizeWithdrawal at h
  split at h
  · next hpending =>
      cases h
      exact Or.inl ⟨rfl, rfl, Or.inl hpending⟩
  · next hpending =>
      obtain ⟨recovered, hrecovered, h⟩ := bind_eq_ok.mp h
      have hrecovered := orRevert_eq_ok.mp hrecovered
      split at h
      · next hrefused =>
          cases h
          refine Or.inr ⟨rfl, eq_false_of_ne_true hpending, ?_, rfl⟩
          rintro ⟨signer, hsigner, hne, hknown⟩
          obtain rfl := Option.some.inj (hrecovered.symm.trans hsigner)
          rcases hrefused with hzero | ⟨hsender, hlinked⟩
          · exact hne hzero
          · exact hknown.elim hsender hlinked
      · next hsigner =>
          cases h
          rw [not_or, not_and_or, not_not, not_not] at hsigner
          exact Or.inl ⟨rfl, rfl, Or.inr ⟨recovered, hrecovered, hsigner⟩⟩

theorem submitWithdrawal_cases {withdrawal : Bytes}
    (h : submitWithdrawal host tokens world withdrawal = .ok next) :
    ∃ txType signedTx, decodeWithdrawal host withdrawal = .ok (txType, signedTx) ∧
      ((pendingSovereignWithdrawal world.state txType signedTx = false ∧
          ¬SignedBySender host world.state txType signedTx ∧
          next = world.emit (.withdrawalFailed signedTx.tx.sender signedTx.sequence signedTx.tx.token
            signedTx.tx.amount 0 .invalidSignature)) ∨
        (pendingSovereignWithdrawal world.state txType signedTx = false ∧
          SignedBySender host world.state txType signedTx ∧
          executeWithdrawal tokens world txType signedTx = .ok next) ∨
        (pendingSovereignWithdrawal world.state txType signedTx = true ∧
          ∃ executed, executeWithdrawal tokens world txType signedTx = .ok executed ∧
            next = setRequest executed signedTx.tx.sender .absent)) := by
  obtain ⟨⟨txType, signedTx⟩, hdecode, h⟩ := bind_eq_ok.mp h
  obtain ⟨⟨authorizedWorld, authorized⟩, hauthorize, h⟩ := bind_eq_ok.mp h
  refine ⟨txType, signedTx, hdecode, ?_⟩
  rcases authorizeWithdrawal_cases hauthorize with ⟨rfl, rfl, hreason⟩ | ⟨rfl, hpending, hunsigned, rfl⟩
  · obtain ⟨executed, hexecuted, h⟩ := bind_eq_ok.mp h
    cases hpending : pendingSovereignWithdrawal authorizedWorld.state txType signedTx with
    | true =>
        rw [if_pos hpending] at h
        cases h
        exact Or.inr (Or.inr ⟨rfl, executed, hexecuted, rfl⟩)
    | false =>
        rw [hpending] at h hreason
        cases h
        exact Or.inr (Or.inl ⟨rfl, hreason.resolve_left Bool.false_ne_true, hexecuted⟩)
  · cases h
    exact Or.inl ⟨hpending, hunsigned, rfl⟩

/-- An entry lowers a balance exactly when it is authorized and moves its sender's money. -/
theorem submitWithdrawal_lowers_iff {withdrawal : Bytes} {txType : TransactionType}
    {signedTx : WithdrawWithSignature} (h : submitWithdrawal host tokens world withdrawal = .ok next)
    (hdecode : decodeWithdrawal host withdrawal = .ok (txType, signedTx)) (wallet token : Address) :
    next.state.balances wallet token < world.state.balances wallet token ↔
      (wallet = signedTx.tx.sender ∧ token = signedTx.tx.token) ∧
        MovesMoney world.state txType signedTx.tx ∧
        (pendingSovereignWithdrawal world.state txType signedTx = true ∨
          SignedBySender host world.state txType signedTx) := by
  obtain ⟨txType', signedTx', hdecode', hcases⟩ := submitWithdrawal_cases h
  obtain ⟨rfl, rfl⟩ := Prod.mk.inj (Except.ok.inj (hdecode'.symm.trans hdecode))
  have hexecution : ∀ executed, executeWithdrawal tokens world txType' signedTx' = .ok executed →
      (executed.state.balances wallet token < world.state.balances wallet token ↔
        (wallet = signedTx'.tx.sender ∧ token = signedTx'.tx.token) ∧
          MovesMoney world.state txType' signedTx'.tx) := by
    intro executed hexecuted
    constructor
    · intro hlower
      obtain ⟨rfl, rfl⟩ := executeWithdrawal_lowers hexecuted hlower
      exact ⟨⟨rfl, rfl⟩, (executeWithdrawal_lowers_iff hexecuted).mp hlower⟩
    · rintro ⟨⟨rfl, rfl⟩, hmoves⟩
      exact (executeWithdrawal_lowers_iff hexecuted).mpr hmoves
  rcases hcases with ⟨hpending, hunsigned, rfl⟩ | ⟨-, hsigned, hexecuted⟩ |
    ⟨hpending, executed, hexecuted, rfl⟩
  · refine iff_of_false (BitVec.lt_irrefl _) fun h => ?_
    rcases h.2.2 with htrue | hsigned
    · rw [hpending] at htrue
      cases htrue
    · exact hunsigned hsigned
  · rw [hexecution next hexecuted, and_iff_left_of_imp fun _ => Or.inr hsigned]
  · rw [and_iff_left_of_imp fun _ => Or.inl hpending]
    exact hexecution executed hexecuted

/-! ### Sovereign requests -/

theorem requestWithdrawal_cases {token : Address} {amount : Uint256}
    (h : requestWithdrawal context world token amount = .ok next) :
    amount ≤ world.state.balances context.sender token ∧
      next = (setRequest world context.sender { token, amount, timestamp := context.timestamp }).emit
        (.withdrawalRequested context.sender token amount) := by
  obtain ⟨_, hcovered, h⟩ := bind_eq_ok.mp h
  cases h
  exact ⟨require_eq_ok.mp hcovered, rfl⟩

/-- A new request is stored; one that stood was for another token or amount. -/
structure Asks (context : Context) (world : World E) (token : Address) (amount : Uint256)
    (next : World E) : Prop where
  stored : requestWithdrawal context world token amount = .ok next
  other : (world.state.sovereignWithdrawals context.sender).timestamp ≠ 0 →
    ¬((world.state.sovereignWithdrawals context.sender).token = token ∧
      (world.state.sovereignWithdrawals context.sender).amount = amount)

/-- The request that stands is due and for this token and amount: it is paid without a fee and deleted. -/
structure Completes (tokens : Tokens E) (context : Context) (world : World E) (token : Address)
    (amount : Uint256) (next : World E) : Prop where
  active : (world.state.sovereignWithdrawals context.sender).timestamp ≠ 0
  sameToken : (world.state.sovereignWithdrawals context.sender).token = token
  sameAmount : (world.state.sovereignWithdrawals context.sender).amount = amount
  due : (world.state.sovereignWithdrawals context.sender).timestamp.toNat +
    world.state.sovereignWithdrawalDelay.toNat ≤ context.timestamp.toNat
  executes : ∃ executed, withdraw tokens world 0 context.sender token
      (if amount = 0 then world.state.balances context.sender token else amount) 0 = .ok executed ∧
    next = setRequest executed context.sender .absent

/-- A call of `sovereignWithdrawal` stores a request, or completes the one that is due. -/
theorem sovereignWithdrawal_cases {token : Address} {amount : Uint256}
    (h : sovereignWithdrawal tokens context world token amount = .ok next) :
    Asks context world token amount next ∨ Completes tokens context world token amount next := by
  dsimp only [sovereignWithdrawal] at h
  split at h
  · next hinactive => exact Or.inl ⟨h, fun hactive => absurd hinactive hactive⟩
  · next hactive =>
      obtain ⟨ready, hready, h⟩ := bind_eq_ok.mp h
      have hready := addUint_eq_ok.mp hready
      split at h
      · cases h
      · next hdue =>
          have hdue : ready.toNat ≤ context.timestamp.toNat := BitVec.not_lt.mp hdue
          split at h
          · next hmatch =>
              obtain ⟨executed, hexecuted, h⟩ := bind_eq_ok.mp h
              cases h
              rw [hmatch.1, hmatch.2] at hexecuted
              refine Or.inr ⟨hactive, hmatch.1, hmatch.2, ?_, executed, hexecuted, rfl⟩
              rw [← hready]
              exact hdue
          · next hmatch => exact Or.inl ⟨h, fun _ => hmatch⟩

end Chainring.Evm.Exchange

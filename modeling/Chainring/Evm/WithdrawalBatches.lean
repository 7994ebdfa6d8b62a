import Chainring.Evm.ExchangeRun
import Chainring.Evm.TokenBook

/-! A batch of the exchange against its purpose: each entry is paid in full, or it is reported and changes no
balance. An entry with a wrong signer or a short balance is passed over, and one whose fee exceeds what it
withdraws makes the whole batch revert. -/

namespace Chainring.Evm

open CheckedWord (bind_eq_ok exists_eq_ok errorOf errorOf_eq_some)

namespace Balances

def minus (balances : Balances) (wallet token : Address) (amount : Uint256) : Balances :=
  balances.set wallet token (balances wallet token - amount)

def plus (balances : Balances) (wallet token : Address) (amount : Uint256) : Balances :=
  balances.set wallet token (balances wallet token + amount)

theorem decrease_eq_minus {balances : Balances} {wallet token : Address} {amount : Uint256}
    (h : amount ≤ balances wallet token) :
    balances.decrease wallet token amount = .ok (balances.minus wallet token amount) := by
  refine bind_eq_ok.mpr ⟨_, subUint_eq_ok.mpr ?_, rfl⟩
  rw [BitVec.toNat_sub_of_le h, Nat.sub_add_cancel h]

theorem increase_eq_plus {balances : Balances} {wallet token : Address} {amount : Uint256}
    (h : (balances wallet token).toNat + amount.toNat < 2 ^ 256) :
    balances.increase wallet token amount = .ok (balances.plus wallet token amount) := by
  refine bind_eq_ok.mpr ⟨_, addUint_eq_ok.mpr ?_, rfl⟩
  rw [BitVec.toNat_add, Nat.mod_eq_of_lt h]

end Balances

namespace Exchange

variable {E : Type}

/-! ### What a batch is for -/

/-- The storage and the tokens, without the log. -/
structure Standing (E : Type) where
  state : State
  env : E

def World.standing (world : World E) : Standing E where
  state := world.state
  env := world.env

instance (host : Host) (state : State) (txType : TransactionType) (signedTx : WithdrawWithSignature) :
    Decidable (SignedBySender host state txType signedTx) :=
  match h : host.recover (withdrawalDigest host signedTx.tx txType) signedTx.signature with
  | none => .isFalse fun ⟨_, hrecovered, _⟩ => nomatch h.symm.trans hrecovered
  | some recovered =>
      decidable_of_iff (recovered ≠ 0 ∧
          (recovered = signedTx.tx.sender ∨ recovered = state.linkedSigners signedTx.tx.sender))
        ⟨fun hknown => ⟨recovered, h, hknown⟩, fun ⟨_, hrecovered, hknown⟩ => by
          rw [Option.some.inj (h.symm.trans hrecovered)]
          exact hknown⟩

/-- The entry stands for a request of its sender or is signed for it. -/
def Accepted (host : Host) (state : State) (txType : TransactionType) (signedTx : WithdrawWithSignature) :
    Prop :=
  pendingSovereignWithdrawal state txType signedTx = true ∨ SignedBySender host state txType signedTx

instance (host : Host) (state : State) (txType : TransactionType) (signedTx : WithdrawWithSignature) :
    Decidable (Accepted host state txType signedTx) :=
  inferInstanceAs (Decidable (_ ∨ _))

/-- What is withdrawn covers the fee. -/
def CoversFee (state : State) (txType : TransactionType) (tx : Withdraw) : Prop :=
  tx.feeAmount ≤ debit state txType tx

instance (state : State) (txType : TransactionType) (tx : Withdraw) : Decidable (CoversFee state txType tx) :=
  inferInstanceAs (Decidable (_ ≤ _))

/-- The entry can be executed. -/
def Payable (host : Host) (state : State) (txType : TransactionType) (signedTx : WithdrawWithSignature) :
    Prop :=
  Accepted host state txType signedTx ∧ Executable state txType signedTx.tx ∧
    CoversFee state txType signedTx.tx

instance (host : Host) (state : State) (txType : TransactionType) (signedTx : WithdrawWithSignature) :
    Decidable (Payable host state txType signedTx) :=
  inferInstanceAs (Decidable (_ ∧ _))

/-- The balances after the amount is debited, which the fee is then credited to. -/
def debited (state : State) (txType : TransactionType) (tx : Withdraw) : Balances :=
  state.balances.minus tx.sender tx.token (debit state txType tx)

/-- The transfer of what is left of the amount to the sender. -/
def outgoing (tokens : Tokens E) (standing : Standing E) (txType : TransactionType) (tx : Withdraw) : Option E :=
  let payout := debit standing.state txType tx - tx.feeAmount
  if tx.token = 0 then tokens.send standing.env tx.sender payout
  else tokens.transfer standing.env tx.token tx.sender payout

def Standing.pay (tokens : Tokens E) (standing : Standing E) (txType : TransactionType) (tx : Withdraw) :
    Standing E where
  state := { standing.state with
    balances := (debited standing.state txType tx).plus standing.state.feeAccount tx.token tx.feeAmount }
  env := (outgoing tokens standing txType tx).getD standing.env

/-- The request of a wallet is answered. -/
def Standing.answer (standing : Standing E) (wallet : Address) : Standing E :=
  { standing with state := { standing.state with
    sovereignWithdrawals := Function.update standing.state.sovereignWithdrawals wallet .absent } }

/-- What an entry is meant to leave: an entry that cannot be executed changes no balance. -/
def Standing.apply (host : Host) (tokens : Tokens E) (standing : Standing E)
    (entry : TransactionType × WithdrawWithSignature) : Standing E :=
  let (txType, signedTx) := entry
  let paid := if Payable host standing.state txType signedTx then standing.pay tokens txType signedTx.tx
    else standing
  if pendingSovereignWithdrawal standing.state txType signedTx then paid.answer signedTx.tx.sender else paid

/-- The property holds of every entry, at what the entries before it are meant to leave. -/
def InOrder (host : Host) (tokens : Tokens E)
    (P : Standing E → TransactionType → WithdrawWithSignature → Prop) (standing : Standing E) :
    List (TransactionType × WithdrawWithSignature) → Prop
  | [] => True
  | entry :: entries => P standing entry.1 entry.2 ∧ InOrder host tokens P (standing.apply host tokens entry) entries

/-- A signature that is checked recovers to an address. -/
def Recovers (host : Host) (standing : Standing E) (txType : TransactionType) (signedTx : WithdrawWithSignature) :
    Prop :=
  pendingSovereignWithdrawal standing.state txType signedTx = false →
    (host.recover (withdrawalDigest host signedTx.tx txType) signedTx.signature).isSome

/-- The fee of an entry that can be executed fits into the balance that it is added to. -/
def FeeFits (host : Host) (standing : Standing E) (txType : TransactionType) (signedTx : WithdrawWithSignature) :
    Prop :=
  Payable host standing.state txType signedTx →
    (debited standing.state txType signedTx.tx standing.state.feeAccount signedTx.tx.token).toNat +
      signedTx.tx.feeAmount.toNat < 2 ^ 256

def Transfers (host : Host) (tokens : Tokens E) (standing : Standing E) (txType : TransactionType)
    (signedTx : WithdrawWithSignature) : Prop :=
  Payable host standing.state txType signedTx → (outgoing tokens standing txType signedTx.tx).isSome

/-- An entry that is accepted and that the balance covers withdraws no less than its fee. -/
def FeeCovered (host : Host) (standing : Standing E) (txType : TransactionType)
    (signedTx : WithdrawWithSignature) : Prop :=
  Accepted host standing.state txType signedTx → Executable standing.state txType signedTx.tx →
    CoversFee standing.state txType signedTx.tx

/-! ### One entry -/

variable {host : Host} {tokens : Tokens E} {context : Context} {world next : World E}

theorem withdraw_eq_paid {sequence : UInt64} {sender token : Address} {amount fee : Uint256} {env : E}
    (hcovered : amount ≤ world.state.balances sender token) (hfee : fee ≤ amount)
    (hfits : (world.state.balances.minus sender token amount world.state.feeAccount token).toNat +
      fee.toNat < 2 ^ 256)
    (henv : (if token = 0 then tokens.send world.env sender (amount - fee)
      else tokens.transfer world.env token sender (amount - fee)) = some env) :
    withdraw tokens world sequence sender token amount fee = .ok (({ world with env }.setBalances
      ((world.state.balances.minus sender token amount).plus world.state.feeAccount token fee)).emit
        (.withdrawal sender sequence token amount fee)) := by
  have hpayout : subUint amount fee = .ok (amount - fee) := by
    rw [subUint_eq_ok, BitVec.toNat_sub_of_le hfee, Nat.sub_add_cancel hfee]
  dsimp only [withdraw]
  rw [if_neg (BitVec.not_lt.mpr hcovered)]
  refine bind_eq_ok.mpr ⟨_, Balances.decrease_eq_minus hcovered, ?_⟩
  refine bind_eq_ok.mpr ⟨_, Balances.increase_eq_plus hfits, bind_eq_ok.mpr ⟨_, hpayout, ?_⟩⟩
  exact bind_eq_ok.mpr ⟨env, orRevert_eq_ok.mpr henv, rfl⟩

theorem executeWithdrawal_declined {txType : TransactionType} {signedTx : WithdrawWithSignature}
    (hshort : ¬Executable world.state txType signedTx.tx) :
    ∃ event, executeWithdrawal tokens world txType signedTx = .ok (world.emit event) := by
  cases txType with
  | withdraw =>
      dsimp only [executeWithdrawal, withdraw]
      rw [if_pos (BitVec.not_le.mp hshort)]
      exact ⟨_, rfl⟩
  | withdrawAll =>
      dsimp only [executeWithdrawal, withdrawAll]
      rw [if_pos (BitVec.not_lt.mp hshort)]
      exact ⟨_, rfl⟩

theorem executeWithdrawal_paid {txType : TransactionType} {signedTx : WithdrawWithSignature} {env : E}
    (hcovered : Executable world.state txType signedTx.tx) (hfee : CoversFee world.state txType signedTx.tx)
    (hfits : (debited world.state txType signedTx.tx world.state.feeAccount signedTx.tx.token).toNat +
      signedTx.tx.feeAmount.toNat < 2 ^ 256)
    (henv : outgoing tokens world.standing txType signedTx.tx = some env) :
    ∃ paid, executeWithdrawal tokens world txType signedTx = .ok paid ∧
      paid.standing = world.standing.pay tokens txType signedTx.tx := by
  have hpay : ∃ event, executeWithdrawal tokens world txType signedTx = .ok (({ world with env }.setBalances
      ((debited world.state txType signedTx.tx).plus world.state.feeAccount signedTx.tx.token
        signedTx.tx.feeAmount)).emit event) := by
    cases txType with
    | withdraw => exact ⟨_, withdraw_eq_paid hcovered hfee hfits henv⟩
    | withdrawAll =>
        have hle : debit world.state .withdrawAll signedTx.tx ≤
            world.state.balances signedTx.tx.sender signedTx.tx.token := by
          dsimp only [debit]
          split
          · exact BitVec.le_refl _
          · next hle => exact BitVec.not_lt.mp hle
        dsimp only [executeWithdrawal, withdrawAll]
        rw [if_neg (BitVec.not_le.mpr hcovered)]
        exact ⟨_, withdraw_eq_paid hle hfee hfits henv⟩
  obtain ⟨event, hpay⟩ := hpay
  refine ⟨_, hpay, ?_⟩
  rw [Standing.pay, henv]
  rfl

/-- An entry whose fee is not covered makes the call revert. -/
theorem executeWithdrawal_reverts {txType : TransactionType} {signedTx : WithdrawWithSignature}
    (hcovered : Executable world.state txType signedTx.tx) (hfee : ¬CoversFee world.state txType signedTx.tx) :
    executeWithdrawal tokens world txType signedTx ≠ .ok next := by
  intro h
  rcases executeWithdrawal_cases h with ⟨hshort, -⟩ | ⟨-, hpays⟩
  · exact hshort hcovered
  · obtain ⟨_, _, payout, -, hpayout, -⟩ := hpays
    apply hfee
    show signedTx.tx.feeAmount.toNat ≤ (debit world.state txType signedTx.tx).toNat
    omega

theorem authorizeWithdrawal_accepted {txType : TransactionType} {signedTx : WithdrawWithSignature}
    (h : Accepted host world.state txType signedTx) :
    authorizeWithdrawal host world txType signedTx = .ok (world, true) := by
  unfold authorizeWithdrawal
  split
  · rfl
  · next hpending =>
      obtain ⟨recovered, hrecovered, hne, hknown⟩ := h.resolve_left hpending
      refine bind_eq_ok.mpr ⟨recovered, orRevert_eq_ok.mpr hrecovered, if_neg ?_⟩
      rw [not_or, not_and_or, not_not, not_not]
      exact ⟨hne, hknown⟩

theorem authorizeWithdrawal_unaccepted {txType : TransactionType} {signedTx : WithdrawWithSignature}
    (hrecovers : Recovers host world.standing txType signedTx) (h : ¬Accepted host world.state txType signedTx) :
    ∃ event, authorizeWithdrawal host world txType signedTx = .ok (world.emit event, false) := by
  rw [Accepted, not_or] at h
  obtain ⟨hpending, hunsigned⟩ := h
  obtain ⟨recovered, hrecovered⟩ := Option.isSome_iff_exists.mp (hrecovers (eq_false_of_ne_true hpending))
  unfold authorizeWithdrawal
  rw [if_neg hpending]
  refine ⟨_, bind_eq_ok.mpr ⟨recovered, orRevert_eq_ok.mpr hrecovered, if_pos ?_⟩⟩
  by_contra hknown
  rw [not_or, not_and_or, not_not, not_not] at hknown
  exact hunsigned ⟨recovered, hrecovered, hknown⟩

/-- An entry whose fee is covered, if it is to be paid at all, is paid or passed over. -/
theorem submitWithdrawal_applies {withdrawal : Bytes} {txType : TransactionType} {signedTx : WithdrawWithSignature}
    (hdecode : decodeWithdrawal host withdrawal = .ok (txType, signedTx))
    (hrecovers : Recovers host world.standing txType signedTx)
    (hfits : FeeFits host world.standing txType signedTx)
    (htransfers : Transfers host tokens world.standing txType signedTx)
    (hcovered : FeeCovered host world.standing txType signedTx) :
    ∃ next, submitWithdrawal host tokens world withdrawal = .ok next ∧
      next.standing = world.standing.apply host tokens (txType, signedTx) := by
  by_cases haccepted : Accepted host world.state txType signedTx
  · have hexecuted : ∃ executed, executeWithdrawal tokens world txType signedTx = .ok executed ∧
        executed.standing = if Payable host world.state txType signedTx then
          world.standing.pay tokens txType signedTx.tx else world.standing := by
      by_cases hexecutable : Executable world.state txType signedTx.tx
      · have hpayable : Payable host world.state txType signedTx :=
          ⟨haccepted, hexecutable, hcovered haccepted hexecutable⟩
        obtain ⟨env, henv⟩ := Option.isSome_iff_exists.mp (htransfers hpayable)
        rw [if_pos hpayable]
        exact executeWithdrawal_paid hexecutable hpayable.2.2 (hfits hpayable) henv
      · have hdeclines : ∃ event, executeWithdrawal tokens world txType signedTx = .ok (world.emit event) :=
          executeWithdrawal_declined hexecutable
        obtain ⟨event, hdeclined⟩ := hdeclines
        rw [if_neg fun hpayable => hexecutable hpayable.2.1]
        exact ⟨_, hdeclined, rfl⟩
    obtain ⟨executed, hexecuted, hstanding⟩ := hexecuted
    have hentry : submitWithdrawal host tokens world withdrawal =
        .ok (if pendingSovereignWithdrawal world.state txType signedTx then
          setRequest executed signedTx.tx.sender .absent else executed) := by
      refine bind_eq_ok.mpr ⟨_, hdecode, bind_eq_ok.mpr ⟨_, authorizeWithdrawal_accepted haccepted, ?_⟩⟩
      refine bind_eq_ok.mpr ⟨executed, hexecuted, ?_⟩
      split <;> rfl
    refine ⟨_, hentry, ?_⟩
    show World.standing _ = if pendingSovereignWithdrawal world.state txType signedTx then _ else _
    split
    · show executed.standing.answer signedTx.tx.sender = _
      rw [hstanding]
      rfl
    · exact hstanding
  · obtain ⟨event, hrefused⟩ := authorizeWithdrawal_unaccepted hrecovers haccepted
    have hpending : ¬pendingSovereignWithdrawal world.state txType signedTx = true :=
      fun hpending => haccepted (Or.inl hpending)
    have hunpayable : ¬Payable host world.state txType signedTx := fun hpayable => haccepted hpayable.1
    refine ⟨world.emit event, bind_eq_ok.mpr ⟨_, hdecode, bind_eq_ok.mpr ⟨_, hrefused, rfl⟩⟩, ?_⟩
    show world.standing = if pendingSovereignWithdrawal world.state txType signedTx then _ else _
    rw [if_neg hpending]
    exact (if_neg hunpayable).symm

/-- An entry that goes through covers its fee. -/
theorem submitWithdrawal_feeCovered {withdrawal : Bytes} {txType : TransactionType}
    {signedTx : WithdrawWithSignature} (hdecode : decodeWithdrawal host withdrawal = .ok (txType, signedTx))
    (h : submitWithdrawal host tokens world withdrawal = .ok next) :
    FeeCovered host world.standing txType signedTx := by
  intro haccepted hexecutable
  by_contra hfee
  obtain ⟨entry, hentry, h⟩ := bind_eq_ok.mp h
  obtain rfl := Except.ok.inj (hdecode.symm.trans hentry)
  obtain ⟨authorized, hauthorized, h⟩ := bind_eq_ok.mp h
  obtain rfl := Except.ok.inj ((authorizeWithdrawal_accepted haccepted).symm.trans hauthorized)
  obtain ⟨executed, hexecuted, -⟩ := bind_eq_ok.mp h
  exact executeWithdrawal_reverts hexecutable hfee hexecuted

/-! ### A batch -/

theorem submitted_apply {withdrawals : List Bytes} {entries : List (TransactionType × WithdrawWithSignature)}
    (hdecode : withdrawals.mapM (decodeWithdrawal host) = .ok entries)
    (hrecovers : InOrder host tokens (Recovers host) world.standing entries)
    (hfits : InOrder host tokens (FeeFits host) world.standing entries)
    (htransfers : InOrder host tokens (Transfers host tokens) world.standing entries)
    (hcovered : InOrder host tokens (FeeCovered host) world.standing entries) :
    ∃ next, withdrawals.foldlM (submitWithdrawal host tokens) world = .ok next ∧
      next.standing = entries.foldl (Standing.apply host tokens) world.standing := by
  induction withdrawals generalizing world entries with
  | nil =>
      cases hdecode
      exact ⟨world, rfl, rfl⟩
  | cons withdrawal withdrawals ih =>
      rw [List.mapM_cons] at hdecode
      obtain ⟨entry, hentry, hdecode⟩ := bind_eq_ok.mp hdecode
      obtain ⟨rest, hrest, hdecode⟩ := bind_eq_ok.mp hdecode
      cases hdecode
      obtain ⟨middle, hmiddle, hstanding⟩ :=
        submitWithdrawal_applies hentry hrecovers.1 hfits.1 htransfers.1 hcovered.1
      have hrecovers := hrecovers.2
      have hfits := hfits.2
      have htransfers := htransfers.2
      have hcovered := hcovered.2
      rw [← hstanding] at hrecovers hfits htransfers hcovered
      obtain ⟨next, hnext, hfinal⟩ := ih hrest hrecovers hfits htransfers hcovered
      refine ⟨next, ?_, ?_⟩
      · rw [List.foldlM_cons, hmiddle]
        exact hnext
      · rw [List.foldl_cons, ← hstanding]
        exact hfinal

/-- Every entry of a loop that goes through covers its fee. -/
theorem submitted_feeCovered {withdrawals : List Bytes}
    {entries : List (TransactionType × WithdrawWithSignature)}
    (hdecode : withdrawals.mapM (decodeWithdrawal host) = .ok entries)
    (hrecovers : InOrder host tokens (Recovers host) world.standing entries)
    (hfits : InOrder host tokens (FeeFits host) world.standing entries)
    (htransfers : InOrder host tokens (Transfers host tokens) world.standing entries)
    (h : withdrawals.foldlM (submitWithdrawal host tokens) world = .ok next) :
    InOrder host tokens (FeeCovered host) world.standing entries := by
  induction withdrawals generalizing world entries with
  | nil =>
      cases hdecode
      trivial
  | cons withdrawal withdrawals ih =>
      rw [List.mapM_cons] at hdecode
      obtain ⟨entry, hentry, hdecode⟩ := bind_eq_ok.mp hdecode
      obtain ⟨rest, hrest, hdecode⟩ := bind_eq_ok.mp hdecode
      cases hdecode
      rw [List.foldlM_cons] at h
      obtain ⟨middle, hmiddle, h⟩ := bind_eq_ok.mp h
      have hfirst := submitWithdrawal_feeCovered hentry hmiddle
      obtain ⟨middle', hmiddle', hstanding⟩ :=
        submitWithdrawal_applies hentry hrecovers.1 hfits.1 htransfers.1 hfirst
      obtain rfl := Except.ok.inj (hmiddle.symm.trans hmiddle')
      refine ⟨hfirst, ?_⟩
      have hrecovers := hrecovers.2
      have hfits := hfits.2
      have htransfers := htransfers.2
      rw [← hstanding] at hrecovers hfits htransfers ⊢
      exact ih hrest hrecovers hfits htransfers h

/-- A fresh batch whose checked signatures recover and whose sums and transfers go through leaves what it is
meant to leave, exactly when every entry to be paid covers its fee. -/
theorem submitWithdrawals_applies_iff (host : Host) (tokens : Tokens E) (context : Context) (world : World E)
    (withdrawals : List Bytes) (entries : List (TransactionType × WithdrawWithSignature))
    (hsender : context.sender = world.state.submitter) (hidle : world.state.batchHash = 0)
    (hnew : world.state.lastWithdrawalBatchHash ≠ calculateWithdrawalBatchHash host withdrawals)
    (hdecode : withdrawals.mapM (decodeWithdrawal host) = .ok entries)
    (hrecovers : InOrder host tokens (Recovers host) world.standing entries)
    (hfits : InOrder host tokens (FeeFits host) world.standing entries)
    (htransfers : InOrder host tokens (Transfers host tokens) world.standing entries) :
    (∃ next, submitWithdrawals host tokens context world withdrawals = .ok next ∧
        next.state.balances = (entries.foldl (Standing.apply host tokens) world.standing).state.balances) ↔
      InOrder host tokens (FeeCovered host) world.standing entries := by
  constructor
  · rintro ⟨next, hsubmit, -⟩
    obtain ⟨-, -, -, processed, hprocessed, -⟩ := submitWithdrawals_cases hsubmit
    exact submitted_feeCovered hdecode hrecovers hfits htransfers hprocessed
  · intro hcovered
    obtain ⟨processed, hprocessed, hstanding⟩ := submitted_apply hdecode hrecovers hfits htransfers hcovered
    refine ⟨{ processed with state := { processed.state with
      lastWithdrawalBatchHash := calculateWithdrawalBatchHash host withdrawals } }, ?_,
      congrArg (fun standing => standing.state.balances) hstanding⟩
    refine bind_eq_ok.mpr ⟨(), require_eq_ok.mpr hsender, bind_eq_ok.mpr ⟨(), require_eq_ok.mpr hidle, ?_⟩⟩
    exact bind_eq_ok.mpr ⟨(), require_eq_ok.mpr hnew, bind_eq_ok.mpr ⟨processed, hprocessed, rfl⟩⟩

instance decidableInOrder (P : Standing E → TransactionType → WithdrawWithSignature → Prop)
    [∀ standing txType signedTx, Decidable (P standing txType signedTx)] :
    (standing : Standing E) → (entries : List (TransactionType × WithdrawWithSignature)) →
      Decidable (InOrder host tokens P standing entries)
  | _, [] => .isTrue trivial
  | standing, entry :: entries =>
      have := decidableInOrder P (standing.apply host tokens entry) entries
      inferInstanceAs (Decidable (_ ∧ _))

instance (standing : Standing E) (txType : TransactionType) (signedTx : WithdrawWithSignature) :
    Decidable (Recovers host standing txType signedTx) :=
  inferInstanceAs (Decidable (_ → _))

instance (standing : Standing E) (txType : TransactionType) (signedTx : WithdrawWithSignature) :
    Decidable (FeeCovered host standing txType signedTx) :=
  inferInstanceAs (Decidable (_ → _))

instance (standing : Standing E) (txType : TransactionType) (signedTx : WithdrawWithSignature) :
    Decidable (FeeFits host standing txType signedTx) :=
  inferInstanceAs (Decidable (_ → _))

instance (standing : Standing E) (txType : TransactionType) (signedTx : WithdrawWithSignature) :
    Decidable (Transfers host tokens standing txType signedTx) :=
  inferInstanceAs (Decidable (_ → _))

/-! Two wallets deposit and ask for some of it back; the submitter answers both, for a fee that the second one
does not withdraw in the second batch. -/

/-- The host on entries with all-zero signatures, with their hashes and the hash of the batch. -/
def entriesHost (entries : List (Bytes × WithdrawWithSignature × Bytes32)) (batchHash : Bytes32) : Host where
  keccak256 := fun data =>
    match entries.find? fun entry => entry.1 == data with
    | some (_, _, hash) => hash
    | none => if data = entries.flatMap (fun entry => abiWord entry.2.2.toNat) then batchHash else 0
  decodeBatchSettlement := fun _ => none
  decodeWithdrawWithSignature := fun data =>
    (entries.find? fun entry => entry.1.tail == data).map fun entry => entry.2.1
  hashTypedDataV4 := id
  recover := fun _ _ => none

def answeredHost : Host :=
  entriesHost
    [(zeroSigned 0 0xb2 0 2 1, zeroSignedTx 0xb2 0 2 1,
        0x0df07cc0e4ba32d6c72f0e45a10ca8bc289eba669dd4fdc17a62a5242d0487bc),
      (zeroSigned 0 0xa1 0 3 1, zeroSignedTx 0xa1 0 3 1,
        0x09b5d1652846bdbcab3bfd6a77c49b332dd5c6a205280ea8826ab90d45ae4366)]
    0x7010f5347caeba17f2cef43347affe90be2ee408e00b1128ff185269e31bb674

def blockedHost : Host :=
  entriesHost
    [(zeroSigned 0 0xb2 0 2 1, zeroSignedTx 0xb2 0 2 1,
        0x0df07cc0e4ba32d6c72f0e45a10ca8bc289eba669dd4fdc17a62a5242d0487bc),
      (zeroSigned 0 0xa1 0 3 5, zeroSignedTx 0xa1 0 3 5,
        0x74a37adcb784e2a7f9055a028d0cb3aa1c2052e3cd3352dc178d6364775f71c2)]
    0x6ecd93786067b2c492ed321771ff2788eb5e0a61cc4a1043038df5b4980bf688

def askingBoth : List (Input Book) :=
  [.call ⟨0xa1, 1, 0x0e⟩ (.receive 10), .call ⟨0xb2, 1, 0x0e⟩ (.receive 10),
    .call ⟨0xa1, 2, 0x0e⟩ (.sovereignWithdrawal 0 3), .call ⟨0xb2, 2, 0x0e⟩ (.sovereignWithdrawal 0 2)]

def askedWorld : World Book := run answeredHost bookTokens (start 0x5b 0xfe 86400 fun _ _ => 10) askingBoth

def askedEntries (fee : Uint256) : List (TransactionType × WithdrawWithSignature) :=
  [(.withdraw, zeroSignedTx 0xb2 0 2 1), (.withdraw, zeroSignedTx 0xa1 0 3 fee)]

theorem answered_applies_iff :
    InOrder answeredHost bookTokens (FeeCovered answeredHost) askedWorld.standing (askedEntries 1) ∧
    ((∃ next, submitWithdrawals answeredHost bookTokens ⟨0x5b, 3, 0x0e⟩ askedWorld
        [zeroSigned 0 0xb2 0 2 1, zeroSigned 0 0xa1 0 3 1] = .ok next ∧
        next.state.balances = ((askedEntries 1).foldl (Standing.apply answeredHost bookTokens)
          askedWorld.standing).state.balances) ↔
      InOrder answeredHost bookTokens (FeeCovered answeredHost) askedWorld.standing (askedEntries 1)) :=
  ⟨by decide +kernel, submitWithdrawals_applies_iff answeredHost bookTokens ⟨0x5b, 3, 0x0e⟩ askedWorld
    [zeroSigned 0 0xb2 0 2 1, zeroSigned 0 0xa1 0 3 1] (askedEntries 1) (by decide +kernel) (by decide +kernel)
    (by decide +kernel) (by decide +kernel) (by decide +kernel) (by decide +kernel) (by decide +kernel)⟩

/-- The fee of the second entry keeps the first wallet from its answer as well. -/
theorem blocked_reverts :
    InOrder blockedHost bookTokens (Recovers blockedHost) askedWorld.standing (askedEntries 5) ∧
      InOrder blockedHost bookTokens (FeeFits blockedHost) askedWorld.standing (askedEntries 5) ∧
      InOrder blockedHost bookTokens (Transfers blockedHost bookTokens) askedWorld.standing (askedEntries 5) ∧
      submitWithdrawals blockedHost bookTokens ⟨0x5b, 3, 0x0e⟩ askedWorld
        [zeroSigned 0 0xb2 0 2 1, zeroSigned 0 0xa1 0 3 5] = .error .arithmeticPanic := by
  refine ⟨by decide +kernel, by decide +kernel, by decide +kernel, ?_⟩
  have hreverts : errorOf (submitWithdrawals blockedHost bookTokens ⟨0x5b, 3, 0x0e⟩ askedWorld
      [zeroSigned 0 0xb2 0 2 1, zeroSigned 0 0xa1 0 3 5]) = some .arithmeticPanic := by
    decide +kernel
  exact errorOf_eq_some.mp hreverts

end Exchange

end Chainring.Evm

import Chainring.Arch.Footprint

/-! Calls led by a signing program account: the accounts they validate belong with it, and the loops of
the instructions write only amounts, events and the fields of accounts that belong. -/

namespace Chainring.Arch

open Exec (Leaves Keeps keeps_pure keeps_fail keeps_ensure keeps_query keeps_modify keeps_forM keeps_foldlM
  keeps_query_bind keeps_when leaves_bind leaves_modify)

/-- The account that a call is led by: a signing program account. -/
structure Led (accounts : List AccountInfo) (m₀ : Memory) (first : AccountInfo) : Prop where
  listed : accounts[0]? = some first
  signer : first.isSigner = true
  program : getType (m₀ first.key).data = .ok .program

/-- A listed account that was empty, or has the type and belongs with the owner. -/
def Belongs (accounts : List AccountInfo) (m₀ : Memory) (accountType : AccountType)
    (owner key : Pubkey) : Prop :=
  Listed accounts key ∧ ((m₀ key).data = [] ∨ Bound accountType owner (m₀ key).data)

section Led

variable {reach : Reach} {accounts : List AccountInfo} {m₀ : Memory} {first : AccountInfo}

theorem Led.permits_program (hled : Led accounts m₀ first) {o : Nat} (hreach : reach.program o) :
    Permits reach accounts m₀ first.key o :=
  ⟨listed_of_getElem? hled.listed,
    Or.inr ⟨first, hled.listed, hled.signer, hled.program, Or.inl ⟨rfl, hreach⟩⟩⟩

theorem Led.permits_token (hled : Led accounts m₀ first) {key : Pubkey} {o : Nat}
    (hbelongs : Belongs accounts m₀ .token first.key key) (hreach : reach.token (m₀ key).data o) :
    Permits reach accounts m₀ key o := by
  refine ⟨hbelongs.1, ?_⟩
  rcases hbelongs.2 with hempty | hbound
  · exact Or.inl hempty
  · exact Or.inr ⟨first, hled.listed, hled.signer, hled.program, Or.inr (Or.inl ⟨hbound, hreach⟩)⟩

theorem Led.permits_withdraw (hled : Led accounts m₀ first) {key : Pubkey} {o : Nat}
    (hbelongs : Belongs accounts m₀ .withdraw first.key key) (hreach : reach.withdraw o) :
    Permits reach accounts m₀ key o := by
  refine ⟨hbelongs.1, ?_⟩
  rcases hbelongs.2 with hempty | hbound
  · exact Or.inl hempty
  · exact Or.inr ⟨first, hled.listed, hled.signer, hled.program, Or.inr (Or.inr ⟨hbound, hreach⟩)⟩

theorem keeps_write_program (hled : Led accounts m₀ first) {account : AccountInfo}
    {put : Bytes → Except Fault Bytes} {region : Nat → Prop} (haccount : accounts[0]? = some account)
    (hw : Writes put region) (hreach : ∀ o, region o → reach.program o) :
    Keeps (Touches reach accounts m₀) (account.write put) fun _ => True := by
  obtain rfl : first = account := Option.some.inj (hled.listed.symm.trans haccount)
  refine keeps_write hw (fun o ho => hled.permits_program (hreach o ho)) fun htoken => ?_
  rw [hled.program] at htoken
  cases htoken

theorem keeps_write_token (hled : Led accounts m₀ first) {account : AccountInfo}
    {put : Bytes → Except Fault Bytes} {region : Nat → Prop}
    (hbelongs : Belongs accounts m₀ .token first.key account.key) (hw : Writes put region)
    (hreach : ∀ o, region o → reach.token (m₀ account.key).data o)
    (hcount : ∀ o, region o → ¬Within 69 73 o) :
    Keeps (Touches reach accounts m₀) (account.write put) fun _ => True :=
  keeps_write hw (fun o ho => hled.permits_token hbelongs (hreach o ho)) fun _ => hcount

theorem keeps_write_withdraw (hled : Led accounts m₀ first) {account : AccountInfo}
    {put : Bytes → Except Fault Bytes} {region : Nat → Prop}
    (hbelongs : Belongs accounts m₀ .withdraw first.key account.key) (hw : Writes put region)
    (hreach : ∀ o, region o → reach.withdraw o) :
    Keeps (Touches reach accounts m₀) (account.write put) fun _ => True := by
  refine keeps_write hw (fun o ho => hled.permits_withdraw hbelongs (hreach o ho)) fun htoken => ?_
  rcases hbelongs.2 with hempty | hbound
  · exact absurd hempty (ne_nil_of_getType htoken)
  · rw [hbound.1] at htoken
    cases htoken

/-- An account validated during the call belonged with the leading account at its start. -/
theorem keeps_validate_bound (hled : Led accounts m₀ first) {index : UInt8} {isSigner isWritable : Bool}
    {accountType : AccountType} :
    Keeps (Touches reach accounts m₀)
      (validateAccount accounts index isSigner isWritable (some accountType) (some 0)) fun _ =>
      ∀ account, accounts[index.toNat]? = some account →
        Belongs accounts m₀ accountType first.key account.key := by
  apply keeps_validate
  intro m hm hvalidated account haccount
  obtain ⟨-, -, related, hrelated, hbound⟩ := hvalidated.of_listed haccount
  obtain rfl : first = related := Option.some.inj (hled.listed.symm.trans hrelated)
  refine ⟨listed_of_getElem? haccount, ?_⟩
  by_cases hempty : (m₀ account.key).data = []
  · exact Or.inl hempty
  · exact Or.inr ((hm.bound_iff hempty).mp hbound)

theorem keeps_validate_empty {index : UInt8} {isSigner isWritable : Bool} :
    Keeps (Touches reach accounts m₀) (validateAccount accounts index isSigner isWritable none none)
      fun _ => ∀ account, accounts[index.toNat]? = some account → Blank accounts m₀ account.key := by
  apply keeps_validate
  intro m hm hvalidated account haccount
  exact ⟨listed_of_getElem? haccount, hm.empty (hvalidated.of_listed haccount).2.2⟩

/-- A call that begins by validating its first account as the program goes on led by it. -/
theorem leaves_of_led (hload : Loaded accounts m₀) {isWritable : Bool} {related : Option UInt8} {p : Prog Unit}
    (h : ∀ first, Led accounts m₀ first → Keeps (Touches reach accounts m₀) p fun _ => True) :
    Leaves (Touches reach accounts m₀) (fun _ => True)
      ((validateAccount accounts 0 true isWritable (some .program) related >>= fun _ => p).run m₀) := by
  have hvalidate := validateAccount_leaves accounts 0 true isWritable (some .program) related m₀
  refine leaves_bind (Q := fun _ => ∃ first, Led accounts m₀ first) (hvalidate.mono ?_ ?_) fun _ hled => ?_
  · rintro m rfl
    exact hload.touches
  · rintro _ ⟨first, hfirst, hsigner, -, hfits⟩
    refine ⟨first, hfirst, hsigner, ?_⟩
    cases related with
    | none => exact hfits
    | some related =>
        obtain ⟨_, -, hbound⟩ := hfits
        exact hbound.1
  · obtain ⟨first, hled⟩ := hled
    exact h first hled

end Led

/-! ### Adjustments and events -/

section Loops

variable (rt : Runtime) {reach : Reach} {accounts : List AccountInfo} {m₀ : Memory} {first : AccountInfo}

theorem keeps_lift {α : Type} {I : Memory → Prop} {x : Except Fault α} :
    Keeps I (lift x) fun _ => True :=
  keeps_query fun _ _ _ _ => trivial

theorem keeps_any_read {α : Type} {I : Memory → Prop} {account : AccountInfo}
    {get : Bytes → Except Fault α} : Keeps I (account.read get) fun _ => True :=
  keeps_query fun _ _ _ _ => trivial

theorem keeps_write_amount (hled : Led accounts m₀ first)
    (hamounts : ∀ data o, AnyAmount o → reach.token data o) {account : AccountInfo}
    (hbelongs : Belongs accounts m₀ .token first.key account.key) {put : Bytes → Except Fault Bytes} {index : Nat}
    (hw : Writes put (AmountBytes index)) :
    Keeps (Touches reach accounts m₀) (account.write put) fun _ => True := by
  refine keeps_write_token hled hbelongs hw (fun o ho => hamounts _ o ⟨index, ho⟩) fun o ho hcount => ?_
  have hge := ho.ge
  have hlt := hcount.2
  omega

theorem keeps_handleAdjustments (hled : Led accounts m₀ first)
    (hamounts : ∀ data o, AnyAmount o → reach.token data o) {account : AccountInfo}
    (hbelongs : Belongs accounts m₀ .token first.key account.key) (adjustments : List Adjustment)
    (increment : Bool) :
    Keeps (Touches reach accounts m₀) (handleAdjustments account adjustments increment)
      fun _ => True := by
  refine (keeps_forM (P := fun _ => True) fun adjustment _ => ?_).weaken fun _ _ => trivial
  refine keeps_any_read.bind fun index _ => ?_
  cases increment with
  | true => exact keeps_write_amount hled hamounts hbelongs (writes_incrementWalletBalance _ _)
  | false => exact keeps_write_amount hled hamounts hbelongs (writes_decrementWalletBalance _ _)

theorem keeps_emitEvent (hled : Led accounts m₀ first) (hevents : ∀ o, 286 ≤ o → reach.program o)
    {account : AccountInfo} (haccount : accounts[0]? = some account) (event : Event) :
    Keeps (Touches reach accounts m₀) (account.write (ProgramState.emitEvent event)) fun _ => True :=
  keeps_write_program hled haccount (writes_emitEvent event) hevents

theorem keeps_clearEvents (hled : Led accounts m₀ first) (hevents : ∀ o, 286 ≤ o → reach.program o)
    {account : AccountInfo} (haccount : accounts[0]? = some account) :
    Keeps (Touches reach accounts m₀) (account.write ProgramState.clearEvents) fun _ => True :=
  keeps_write_program hled haccount writes_clearEvents fun o ho => hevents o ho.1

/-! ### Settlement -/

theorem keeps_verifyDecrements (hled : Led accounts m₀ first) (hevents : ∀ o, 286 ≤ o → reach.program o)
    (accountIndex : UInt8) (adjustments : List Adjustment) :
    Keeps (Touches reach accounts m₀) (verifyDecrements accounts accountIndex adjustments)
      fun _ => True := by
  refine keeps_accountAt.bind fun account _ => ?_
  refine keeps_foldlM trivial fun total adjustment _ _ => ?_
  refine keeps_any_read.bind fun index _ => ?_
  refine keeps_any_read.bind fun currentBalance _ => ?_
  refine (keeps_when fun _ => ?_).bind fun _ _ => keeps_pure trivial
  exact keeps_accountAt.bind fun programAccount hprogram => keeps_emitEvent hled hevents hprogram _

theorem keeps_verifyIncrements {I : Memory → Prop} (accountIndex : UInt8) (adjustments : List Adjustment) :
    Keeps I (verifyIncrements accounts accountIndex adjustments) fun _ => True := by
  refine keeps_accountAt.bind fun account _ => ?_
  refine keeps_foldlM trivial fun total adjustment _ _ => ?_
  exact keeps_any_read.bind fun _ _ => keeps_pure trivial

theorem keeps_verifySettlement (hled : Led accounts m₀ first) (hevents : ∀ o, 286 ≤ o → reach.program o)
    (runningNettingTotal : Int64) (tokenSettlements : SettlementAdjustments) :
    Keeps (Touches reach accounts m₀) (verifySettlement accounts runningNettingTotal tokenSettlements)
      fun _ => True := by
  refine (keeps_validate_bound hled).bind fun _ _ => ?_
  refine (keeps_verifyDecrements hled hevents _ _).bind fun _ _ => ?_
  exact (keeps_verifyIncrements _ _).bind fun _ _ => keeps_pure trivial

theorem keeps_applySettlement (hled : Led accounts m₀ first)
    (hamounts : ∀ data o, AnyAmount o → reach.token data o) (tokenSettlements : SettlementAdjustments) :
    Keeps (Touches reach accounts m₀) (applySettlement accounts tokenSettlements) fun _ => True := by
  refine (keeps_validate_bound hled).bind fun _ hvalid => ?_
  refine keeps_accountAt.bind fun account haccount => ?_
  have hadjust := keeps_handleAdjustments hled hamounts (hvalid account haccount)
  refine (keeps_when fun _ => ?_).bind fun _ _ => (hadjust _ true).bind fun _ _ => hadjust _ false
  exact keeps_any_read.bind fun last4 _ => hadjust _ true

/-! ### Withdrawals -/

theorem keeps_addWithdrawalOutput {I : Memory → Prop} (account : AccountInfo) (withdrawal : Withdrawal)
    (networkType : NetworkType) (outputs : Outputs) :
    Keeps I (addWithdrawalOutput rt account withdrawal networkType outputs) fun _ => True := by
  refine keeps_any_read.bind fun isRune _ => ?_
  split
  · refine keeps_any_read.bind fun runeId _ => ?_
    refine keeps_any_read.bind fun address _ => ?_
    exact keeps_lift.bind fun scriptBuf _ => keeps_pure trivial
  · refine keeps_any_read.bind fun address _ => ?_
    exact keeps_lift.bind fun scriptBuf _ => keeps_pure trivial

/-- Verifying a withdrawal establishes that its fee account belongs with the program. -/
theorem keeps_verifyWithdrawal (hled : Led accounts m₀ first) (hevents : ∀ o, 286 ≤ o → reach.program o)
    (accountIndex : UInt8) (account : AccountInfo) (networkType : NetworkType) (withdrawal : Withdrawal) :
    Keeps (Touches reach accounts m₀)
      (verifyWithdrawal rt accounts accountIndex account networkType withdrawal) fun _ =>
      ∀ feeAccount, accounts[withdrawal.feeAccountIndex.toNat]? = some feeAccount →
        Belongs accounts m₀ .token first.key feeAccount.key := by
  refine keeps_any_read.bind fun indexResult _ => ?_
  refine (keeps_validate_bound hled).bind fun _ hfee => ?_
  refine keeps_accountAt.bind fun feeAccount _ => ?_
  refine keeps_accountAt.bind fun programAccount hprogram => ?_
  refine Keeps.weaken (Q := fun _ => True) ?_ fun _ _ => hfee
  cases indexResult with
  | error programError => exact keeps_emitEvent hled hevents hprogram _
  | ok index =>
      refine keeps_any_read.bind fun currentBalance _ => ?_
      refine keeps_any_read.bind fun feeIndex _ => ?_
      refine keeps_any_read.bind fun balanceInFeeToken _ => ?_
      exact keeps_when fun _ => keeps_emitEvent hled hevents hprogram _

theorem keeps_verifyWithdrawals (hled : Led accounts m₀ first) (hevents : ∀ o, 286 ≤ o → reach.program o)
    (accountIndex : UInt8) (withdrawals : List Withdrawal) (networkType : NetworkType) :
    Keeps (Touches reach accounts m₀) (verifyWithdrawals rt accounts accountIndex withdrawals networkType)
      fun _ => ∀ withdrawal ∈ withdrawals,
        ∀ feeAccount, accounts[withdrawal.feeAccountIndex.toNat]? = some feeAccount →
          Belongs accounts m₀ .token first.key feeAccount.key := by
  refine keeps_accountAt.bind fun account _ => ?_
  exact keeps_forM fun withdrawal _ => keeps_verifyWithdrawal rt hled hevents _ _ _ _

theorem keeps_handlePrepareWithdrawal (hled : Led accounts m₀ first)
    (hamounts : ∀ data o, AnyAmount o → reach.token data o) {account : AccountInfo}
    (hbelongs : Belongs accounts m₀ .token first.key account.key) {withdrawal : Withdrawal}
    (hfee : ∀ feeAccount, accounts[withdrawal.feeAccountIndex.toNat]? = some feeAccount →
      Belongs accounts m₀ .token first.key feeAccount.key)
    (feeAccountAddress : Utf8String) (networkType : NetworkType) (outputs : Outputs) :
    Keeps (Touches reach accounts m₀)
      (handlePrepareWithdrawal rt accounts account feeAccountAddress networkType outputs withdrawal)
      fun _ => True := by
  refine (keeps_write_amount hled hamounts hbelongs (writes_decrementWalletBalance _ _)).bind fun _ _ => ?_
  refine (keeps_when fun _ => ?_).bind fun _ _ => keeps_addWithdrawalOutput rt _ _ _ _
  refine keeps_accountAt.bind fun feeAccount hfeeAccount => ?_
  have hfeeBelongs := hfee feeAccount hfeeAccount
  refine keeps_any_read.bind fun feeAddress _ => ?_
  refine keeps_ensure.bind fun _ _ => ?_
  refine (keeps_write_amount hled hamounts hfeeBelongs (writes_incrementWalletBalance _ _)).bind
    fun _ _ => ?_
  exact keeps_when fun _ => keeps_write_amount hled hamounts hfeeBelongs (writes_decrementWalletBalance _ _)

theorem keeps_handleRollbackWithdrawal (hled : Led accounts m₀ first)
    (hamounts : ∀ data o, AnyAmount o → reach.token data o) {account : AccountInfo}
    (hbelongs : Belongs accounts m₀ .token first.key account.key) (feeAccountAddress : Utf8String)
    (withdrawal : Withdrawal) :
    Keeps (Touches reach accounts m₀)
      (handleRollbackWithdrawal accounts account feeAccountAddress withdrawal) fun _ => True := by
  refine keeps_any_read.bind fun index _ => ?_
  refine (keeps_write_amount hled hamounts hbelongs (writes_incrementWalletBalance _ _)).bind fun _ _ => ?_
  refine keeps_when fun _ => ?_
  refine (keeps_validate_bound hled).bind fun _ hfee => ?_
  refine keeps_accountAt.bind fun feeAccount hfeeAccount => ?_
  have hfeeBelongs := hfee feeAccount hfeeAccount
  refine keeps_any_read.bind fun feeAddress _ => ?_
  refine keeps_ensure.bind fun _ _ => ?_
  refine (keeps_write_amount hled hamounts hfeeBelongs (writes_decrementWalletBalance _ _)).bind
    fun _ _ => ?_
  exact keeps_when fun _ => keeps_write_amount hled hamounts hfeeBelongs (writes_incrementWalletBalance _ _)

theorem keeps_any_validate {I : Memory → Prop} {index : UInt8} {isSigner isWritable : Bool}
    {accountType : Option AccountType} {related : Option UInt8} :
    Keeps I (validateAccount accounts index isSigner isWritable accountType related) fun _ => True :=
  keeps_validate fun _ _ _ => trivial

theorem keeps_handleSubmitWithdrawals {I : Memory → Prop} (tokenWithdrawals : TokenWithdrawals)
    (networkType : NetworkType) (outputs : Outputs) :
    Keeps I (handleSubmitWithdrawals rt accounts tokenWithdrawals networkType outputs) fun _ => True := by
  refine keeps_accountAt.bind fun account _ => ?_
  refine keeps_foldlM trivial fun outputs withdrawal _ _ => ?_
  refine keeps_any_validate.bind fun _ _ => ?_
  exact keeps_any_read.bind fun _ _ => keeps_addWithdrawalOutput rt _ _ _ _

theorem keeps_hasRuneReceiver {I : Memory → Prop} (isSigner : Bool) :
    Keeps I (hasRuneReceiver accounts isSigner) fun _ => True := by
  refine keeps_accountAt.bind fun third _ => ?_
  refine keeps_any_read.bind fun accountType _ => ?_
  split
  · exact keeps_any_validate.bind fun _ _ => keeps_pure trivial
  · exact keeps_pure trivial

theorem keeps_getStateTransitionTx {I : Memory → Prop} :
    Keeps I (getStateTransitionTx rt accounts) fun _ => True := by
  refine Keeps.bind (Q := fun _ => True) (keeps_foldlM trivial fun input account _ _ => ?_) fun input _ => ?_
  · exact (keeps_query (Q := fun _ => True) fun _ _ _ _ => trivial).bind fun _ _ => keeps_pure trivial
  · refine Keeps.bind (Q := fun _ => True) (keeps_foldlM trivial fun output account _ _ => ?_)
      fun output _ => keeps_pure trivial
    refine (keeps_query (Q := fun _ => True) fun _ _ _ _ => trivial).bind fun _ _ => ?_
    exact keeps_lift.bind fun _ _ => keeps_pure trivial

theorem keeps_setTransactionToSign (account : AccountInfo) (txBytes : Bytes)
    (inputsToSign : List InputToSign) :
    Keeps (Touches reach accounts m₀) (setTransactionToSign rt account txBytes inputsToSign)
      fun _ => True := by
  refine keeps_ensure.bind fun _ _ => ?_
  split
  · exact keeps_lift
  · exact (keeps_forM (P := fun _ => True) fun input _ => keeps_when fun _ => keeps_setUtxo).weaken
      fun _ _ => trivial

end Loops

end Chainring.Arch

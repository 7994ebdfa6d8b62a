import Chainring.Arch.Verification

/-! What the preparation of withdrawals has checked once it goes on to debit: no event was emitted, so
every withdrawal and its fee come from wallets in use whose addresses are valid, and each is covered by
its balance on its own. -/

namespace Chainring.Arch

open CheckedWord (bind_eq_ok)
open Exec (Silent silent_done silent_query silent_when silent_forM silent_foldlM)

/-! ### Wallets that can withdraw -/

/-- A wallet in use that may withdraw from a token that can be withdrawn. -/
structure WithdrawWallet (rt : Runtime) (networkType : NetworkType) (addressIndex : AddressIndex)
    (data : Bytes) : Prop where
  wallet : Wallet addressIndex data
  address : ∃ address, Balance.getWalletAddress addressIndex.index.toNat data = .ok address ∧
    validateBitcoinAddress rt address networkType true = .ok ()
  canWithdraw : TokenState.canWithdraw rt data = .ok true

theorem getValidatedIndexWithdraw_eq_ok {rt : Runtime} {networkType : NetworkType}
    {addressIndex : AddressIndex} {data : Bytes} {index : Nat} :
    getValidatedIndexWithdraw rt addressIndex networkType data = .ok index ↔
      WithdrawWallet rt networkType addressIndex data ∧ index = addressIndex.index.toNat := by
  unfold getValidatedIndexWithdraw
  constructor
  · intro h
    obtain ⟨index', hindex, h⟩ := bind_eq_ok.mp h
    obtain ⟨address, haddress, h⟩ := bind_eq_ok.mp h
    obtain ⟨_, hvalid, h⟩ := bind_eq_ok.mp h
    obtain ⟨canWithdraw, hcan, h⟩ := bind_eq_ok.mp h
    obtain ⟨hwallet, rfl⟩ := getValidatedIndex_eq_ok.mp hindex
    split at h
    · next htrue =>
        rw [htrue] at hcan
        exact ⟨⟨hwallet, ⟨address, haddress, hvalid⟩, hcan⟩, (Except.ok.inj h).symm⟩
    · cases h
  · rintro ⟨⟨hwallet, ⟨address, haddress, hvalid⟩, hcan⟩, rfl⟩
    apply bind_eq_ok.mpr
    refine ⟨_, getValidatedIndex_eq_ok.mpr ⟨hwallet, rfl⟩, bind_eq_ok.mpr ⟨address, haddress, ?_⟩⟩
    apply bind_eq_ok.mpr
    exact ⟨(), hvalid, bind_eq_ok.mpr ⟨true, hcan, rfl⟩⟩

section Verification

variable {rt : Runtime} {networkType : NetworkType} {accounts : List AccountInfo} {program : AccountInfo}

/-- A wallet that may withdraw and holds at least the amount. -/
structure Pays (rt : Runtime) (networkType : NetworkType) (addressIndex : AddressIndex) (amount : UInt64)
    (data : Bytes) : Prop where
  wallet : WithdrawWallet rt networkType addressIndex data
  hasAmount : HasAmount data addressIndex.index.toNat
  covered : amount.toNat ≤ amountAt data addressIndex.index.toNat

/-- What is known of a withdrawal from the account of the key. -/
structure WithdrawalVerified (rt : Runtime) (networkType : NetworkType) (accounts : List AccountInfo)
    (m : Memory) (key : Pubkey) (withdrawal : Withdrawal) : Prop where
  payer : Pays rt networkType withdrawal.addressIndex withdrawal.amount (m key).data
  feeAccount : Validated accounts withdrawal.feeAccountIndex false true (some .token) (some 0) m
  feePayer : ∀ feeKey, keyAt accounts withdrawal.feeAccountIndex = some feeKey →
    Pays rt networkType withdrawal.feeAddressIndex withdrawal.feeAmount (m feeKey).data

def WithdrawalsVerified (rt : Runtime) (networkType : NetworkType) (accounts : List AccountInfo)
    (m : Memory) (tokenWithdrawals : TokenWithdrawals) : Prop :=
  Validated accounts tokenWithdrawals.accountIndex false true (some .token) (some 0) m ∧
    ∀ key, keyAt accounts tokenWithdrawals.accountIndex = some key →
      ∀ withdrawal ∈ tokenWithdrawals.withdrawals,
        WithdrawalVerified rt networkType accounts m key withdrawal

/-! ### Silent checks -/

theorem silent_tryRead {bounded silent : Memory → Prop} {α : Type} (account : AccountInfo)
    (get : Bytes → Except Fault α) :
    Silent bounded silent (account.tryRead get) fun m result =>
      ∀ a, result = .ok a → get (m account.key).data = .ok a := by
  refine Silent.weaken (silent_read account _) ?_
  rintro m result hread a rfl
  cases hget : get (m account.key).data with
  | ok a' =>
      rw [hget] at hread
      cases hread
      rfl
  | error fault =>
      rw [hget] at hread
      cases fault <;> cases hread

/-- Whatever comes after the program account is fetched may use that it is the first of the call. -/
theorem silent_accountAt_bind {bounded silent : Memory → Prop} {β : Type} {index : Nat}
    {f : AccountInfo → Prog β} {R : AccountInfo → Memory → β → Prop}
    (h : ∀ account, accounts[index]? = some account → Silent bounded silent (f account) (R account)) :
    Silent bounded silent (accountAt accounts index >>= f) fun m b =>
      ∃ account, accounts[index]? = some account ∧ R account m b := by
  intro m b m' hm hok
  obtain ⟨account, haccount, hrest⟩ := accountAt_bind_eq_ok.mp hok
  obtain ⟨hbounded, hquiet⟩ := h account haccount m b m' hm hrest
  refine ⟨hbounded, fun hsilent => ?_⟩
  obtain ⟨heq, hR⟩ := hquiet hsilent
  exact ⟨heq, account, haccount, hR⟩

theorem silent_writeEvent (hprogram : accounts[0]? = some program) (event : Event) :
    Silent (EventsBounded program.key) (NoEvents program.key)
      (program.write (ProgramState.emitEvent event)) fun _ _ => False := by
  intro m u m' hm hok
  exact silent_emitEvent hprogram event m u m' hm (accountAt_bind_eq_ok.mpr ⟨program, hprogram, hok⟩)

theorem silent_verifyWithdrawal (hprogram : accounts[0]? = some program) (accountIndex : UInt8)
    (account : AccountInfo) (withdrawal : Withdrawal) :
    Silent (EventsBounded program.key) (NoEvents program.key)
      (verifyWithdrawal rt accounts accountIndex account networkType withdrawal) fun m _ =>
      WithdrawalVerified rt networkType accounts m account.key withdrawal := by
  unfold verifyWithdrawal
  refine Silent.weaken ((silent_tryRead account _).bind fun indexResult =>
    (silent_validate _ _ _ _ _).bind fun _ => (silent_accountAt _).bind fun feeAccount =>
    silent_accountAt_bind (R := fun _ m _ => ∃ index balance feeIndex feeBalance,
      indexResult = .ok index ∧
      Balance.getWalletBalance index (m account.key).data = .ok balance ∧
      getValidatedIndexWithdraw rt withdrawal.feeAddressIndex networkType (m feeAccount.key).data =
        .ok feeIndex ∧
      Balance.getWalletBalance feeIndex (m feeAccount.key).data = .ok feeBalance ∧
      ¬(balance < withdrawal.amount ∨ feeBalance < withdrawal.feeAmount))
      fun programAccount hfirst => ?_) ?_
  · obtain rfl : program = programAccount := Option.some.inj (hprogram.symm.trans hfirst)
    cases indexResult with
    | error e => exact Silent.weaken (silent_writeEvent hprogram _) fun _ _ h => h.elim
    | ok index =>
        refine Silent.weaken ((silent_read account _).bind fun balance =>
          (silent_read feeAccount _).bind fun feeIndex => (silent_read feeAccount _).bind fun feeBalance =>
          silent_when fun _ => silent_writeEvent hprogram _) ?_
        rintro m _ ⟨balance, hbalance, feeIndex, hfeeIndex, feeBalance, hfeeBalance, hcovered⟩
        exact ⟨index, balance, feeIndex, feeBalance, rfl, hbalance, hfeeIndex, hfeeBalance, hcovered⟩
  · rintro m _ ⟨_, hindex, _, hvalidated, feeAccount, hfee, _, -, index, balance, feeIndex, feeBalance, rfl,
      hbalance, hfeeIndex, hfeeBalance, hcovered⟩
    obtain ⟨hwallet, rfl⟩ := getValidatedIndexWithdraw_eq_ok.mp (hindex index rfl)
    obtain ⟨hfeeWallet, rfl⟩ := getValidatedIndexWithdraw_eq_ok.mp hfeeIndex
    obtain ⟨hamount, hvalue⟩ := getWalletBalance_eq_ok.mp hbalance
    obtain ⟨hfeeAmount, hfeeValue⟩ := getWalletBalance_eq_ok.mp hfeeBalance
    rw [not_or, UInt64.not_lt, UInt64.not_lt, UInt64.le_iff_toNat_le, UInt64.le_iff_toNat_le, hvalue,
      hfeeValue] at hcovered
    refine ⟨⟨hwallet, hamount, hcovered.1⟩, hvalidated, fun feeKey hfeeKey => ?_⟩
    obtain rfl := Option.some.inj (hfeeKey.symm.trans (keyAt_of_listed hfee))
    exact ⟨hfeeWallet, hfeeAmount, hcovered.2⟩

variable (rt networkType) in
theorem silent_verifyTokenWithdrawals (hprogram : accounts[0]? = some program)
    (tokenWithdrawals : TokenWithdrawals) :
    Silent (EventsBounded program.key) (NoEvents program.key)
      (do
        validateAccount accounts tokenWithdrawals.accountIndex false true (some .token) (some 0)
        verifyWithdrawals rt accounts tokenWithdrawals.accountIndex tokenWithdrawals.withdrawals networkType)
      fun m _ => WithdrawalsVerified rt networkType accounts m tokenWithdrawals := by
  refine Silent.weaken ((silent_validate _ _ _ _ _).bind fun _ => (silent_accountAt _).bind fun account =>
    silent_forM fun withdrawal _ => silent_verifyWithdrawal hprogram _ account withdrawal) ?_
  rintro m _ ⟨_, hvalidated, account, haccount, hverified⟩
  refine ⟨hvalidated, fun key hkey => ?_⟩
  obtain rfl := Option.some.inj (hkey.symm.trans (keyAt_of_listed haccount))
  exact hverified

end Verification

end Chainring.Arch

import Chainring.Arch.EventLog
import Chainring.Arch.TokenFields
import Chainring.Arch.WithdrawalBatch

/-! What the verification of withdrawals reports, for every batch: an event for each withdrawal whose wallet is not
valid or whose amount or fee is not covered on its own. -/

namespace Chainring.Arch

open CheckedWord (bind_eq_ok bind_ne_error)
open Exec (Logs Keeps logs_when logs_forM keeps_forM)

/-! ### Wallets of well-formed accounts -/

section Wallets

variable {rt : Runtime} {networkType : NetworkType} {data : Bytes}

theorem WellFormed.getNumBalances (h : WellFormed data) : TokenState.getNumBalances data = .ok (numBalances data) := by
  have hroom : 73 + numBalances data * 100 ≤ data.length := h.room
  have hcount : balanceCountOffset + 4 ≤ data.length := by
    show 69 + 4 ≤ data.length
    omega
  obtain ⟨block, hblock⟩ := Bytes.slice_isSome hcount
  exact getNumBalances_eq_ok.mpr ⟨⟨block, hblock⟩, rfl⟩

theorem WellFormed.getTokenId (h : WellFormed data) : ∃ tokenId, TokenState.getTokenId data = .ok tokenId := by
  obtain ⟨tokenId, hholds⟩ := h.tokenId
  exact ⟨tokenId, hholds.parse⟩

theorem WellFormed.walletAddress (h : WellFormed data) {index : Nat} (hindex : index < numBalances data) :
    ∃ address, Balance.getWalletAddress index data = .ok address := by
  obtain ⟨address, hholds, -⟩ := h.addresses index hindex
  exact ⟨address, hholds.parse⟩

theorem WellFormed.validatedIndex_ne_panic (h : WellFormed data) (addressIndex : AddressIndex) :
    getValidatedIndex addressIndex data ≠ .error .panic := by
  by_cases hindex : addressIndex.index.toNat < numBalances data
  · exact (h.validatedIndex hindex).1
  · unfold getValidatedIndex
    rw [h.getNumBalances]
    show (if _ then _ else _ : Except Fault Nat) ≠ _
    rw [if_pos (Nat.not_lt.mp hindex)]
    nofun

theorem validateBitcoinAddress_ne_panic (rt : Runtime) (address : Utf8String) (networkType : NetworkType)
    (strict : Bool) : validateBitcoinAddress rt address networkType strict ≠ .error .panic := by
  unfold validateBitcoinAddress
  cases rt.addressFromStr address with
  | none => nofun
  | some uncheckedAddress =>
      dsimp only
      split
      · nofun
      · nofun

theorem WellFormed.canWithdraw (h : WellFormed data) (rt : Runtime) :
    ∃ canWithdraw, TokenState.canWithdraw rt data = .ok canWithdraw := by
  obtain ⟨tokenId, htokenId⟩ := h.getTokenId
  unfold TokenState.canWithdraw
  rw [htokenId]
  cases hrune : rt.runeIdFromStr tokenId with
  | none => exact ⟨true, by simp [Except.mapError, hrune, bind, Except.bind, pure, Except.pure]⟩
  | some runeId =>
      exact ⟨decide (runeId.block ≠ 0), by simp [Except.mapError, hrune, bind, Except.bind, pure, Except.pure]⟩

/-- The index of a wallet is valid for a withdrawal or refused with an error. -/
theorem WellFormed.validatedIndexWithdraw_ne_panic (h : WellFormed data) (rt : Runtime) (addressIndex : AddressIndex)
    (networkType : NetworkType) : getValidatedIndexWithdraw rt addressIndex networkType data ≠ .error .panic := by
  refine bind_ne_error (h.validatedIndex_ne_panic addressIndex) fun index hindex => ?_
  obtain ⟨hwallet, rfl⟩ := getValidatedIndex_eq_ok.mp hindex
  obtain ⟨address, haddress⟩ := h.walletAddress hwallet.inUse
  obtain ⟨canWithdraw, hcan⟩ := h.canWithdraw rt
  rw [haddress]
  show (validateBitcoinAddress rt address networkType true >>= _) ≠ _
  refine bind_ne_error (validateBitcoinAddress_ne_panic rt address networkType true) fun _ _ => ?_
  rw [hcan]
  intro h
  cases canWithdraw with
  | true => cases h
  | false => cases h

end Wallets

/-! ### Reports -/

/-- The event for a withdrawal that the verification does not let through. -/
def Withdrawal.report (rt : Runtime) (networkType : NetworkType) (accountIndex : UInt8) (data feeData : Bytes)
    (withdrawal : Withdrawal) : List Event :=
  match getValidatedIndexWithdraw rt withdrawal.addressIndex networkType data with
  | .ok index =>
      if amountAt data index < withdrawal.amount.toNat ∨
          amountAt feeData withdrawal.feeAddressIndex.index.toNat < withdrawal.feeAmount.toNat then
        [.failedWithdrawal accountIndex withdrawal.addressIndex.index withdrawal.feeAccountIndex
          withdrawal.feeAddressIndex.index withdrawal.amount withdrawal.feeAmount (UInt64.ofNat (amountAt data index))
          (UInt64.ofNat (amountAt feeData withdrawal.feeAddressIndex.index.toNat)) errorInsufficientBalance]
      else []
  | .error (.error programError) =>
      [.failedWithdrawal accountIndex withdrawal.addressIndex.index withdrawal.feeAccountIndex
        withdrawal.feeAddressIndex.index withdrawal.amount withdrawal.feeAmount 0 0 programError.toU64.toUInt32]
  | .error .panic => []

def Withdrawal.reportAt (rt : Runtime) (networkType : NetworkType) (accounts : List AccountInfo)
    (accountData : Pubkey → Bytes) (accountIndex : UInt8) (key : Pubkey) (withdrawal : Withdrawal) : List Event :=
  match keyAt accounts withdrawal.feeAccountIndex with
  | some feeKey => withdrawal.report rt networkType accountIndex (accountData key) (accountData feeKey)
  | none => []

def TokenWithdrawals.reports (rt : Runtime) (networkType : NetworkType) (accounts : List AccountInfo)
    (accountData : Pubkey → Bytes) (tokenWithdrawals : TokenWithdrawals) : List Event :=
  match keyAt accounts tokenWithdrawals.accountIndex with
  | some key => tokenWithdrawals.withdrawals.flatMap
      (Withdrawal.reportAt rt networkType accounts accountData tokenWithdrawals.accountIndex key)
  | none => []

/-- The events of a batch, in order. -/
def WithdrawBatchParams.reports (rt : Runtime) (networkType : NetworkType) (accounts : List AccountInfo)
    (accountData : Pubkey → Bytes) (params : WithdrawBatchParams) : List Event :=
  params.tokenWithdrawals.flatMap (TokenWithdrawals.reports rt networkType accounts accountData)

/-- The fee wallet that a withdrawal names is valid for withdrawals where its own wallet is. -/
def Withdrawal.FeeWalletValid (rt : Runtime) (networkType : NetworkType) (accounts : List AccountInfo)
    (accountData : Pubkey → Bytes) (key : Pubkey) (withdrawal : Withdrawal) : Prop :=
  ∀ feeKey, keyAt accounts withdrawal.feeAccountIndex = some feeKey →
    WithdrawWallet rt networkType withdrawal.addressIndex (accountData key) →
    WithdrawWallet rt networkType withdrawal.feeAddressIndex (accountData feeKey)

/-- So is every fee wallet of a batch. -/
def WithdrawBatchParams.FeeWalletsValid (rt : Runtime) (networkType : NetworkType) (accounts : List AccountInfo)
    (accountData : Pubkey → Bytes) (params : WithdrawBatchParams) : Prop :=
  ∀ tokenWithdrawals ∈ params.tokenWithdrawals, ∀ key, keyAt accounts tokenWithdrawals.accountIndex = some key →
    ∀ withdrawal ∈ tokenWithdrawals.withdrawals,
      withdrawal.FeeWalletValid rt networkType accounts accountData key

/-- The accounts that a batch withdraws from and those that it takes fees from are tokens of the program. -/
structure TokensValid (accounts : List AccountInfo) (m : Memory) (tokenWithdrawals : TokenWithdrawals) : Prop where
  account : Validated accounts tokenWithdrawals.accountIndex false true (some .token) (some 0) m
  feeAccounts : ∀ withdrawal ∈ tokenWithdrawals.withdrawals,
    Validated accounts withdrawal.feeAccountIndex false true (some .token) (some 0) m

section Verification

variable {rt : Runtime} {networkType : NetworkType} {accounts : List AccountInfo} {m₀ : Memory}
  {program account : AccountInfo}

theorem logs_tryRead {α : Type} {get : Bytes → Except Fault α} (result : Except ProgramError α)
    (hne : account.key ≠ program.key)
    (h : get (m₀ account.key).data = result.mapError Failure.error) :
    Logs maxEvents (.custom errorValueTooLarge) (Logged m₀ program.key) (account.tryRead get) result [] := by
  apply logs_read hne
  rw [h]
  cases result with
  | ok a => rfl
  | error e => rfl

/-- A withdrawal is reported or not, but does not fail, where its fee wallet is valid. -/
theorem logs_verifyWithdrawal (hroom : runeReceiverOffset ≤ (m₀ program.key).data.length)
    (hprogram : accounts[0]? = some program) (hkind : getType (m₀ program.key).data = .ok .program)
    (hwell : ∀ key, getType (m₀ key).data = .ok .token → WellFormed (m₀ key).data)
    (htoken : getType (m₀ account.key).data = .ok .token) (accountIndex : UInt8) {withdrawal : Withdrawal}
    (hfeeAccount : Validated accounts withdrawal.feeAccountIndex false true (some .token) (some 0) m₀)
    (hfee : withdrawal.FeeWalletValid rt networkType accounts (fun key => (m₀ key).data) account.key) :
    Logs maxEvents (.custom errorValueTooLarge) (Logged m₀ program.key)
      (verifyWithdrawal rt accounts accountIndex account networkType withdrawal) ()
      (withdrawal.reportAt rt networkType accounts (fun key => (m₀ key).data) accountIndex account.key) := by
  obtain ⟨feeAccount, hlisted, -⟩ := id hfeeAccount
  have hfeeToken := hfeeAccount.type_eq hlisted
  have hne : account.key ≠ program.key := ne_of_getType htoken hkind (by decide)
  have hfeeNe : feeAccount.key ≠ program.key := ne_of_getType hfeeToken hkind (by decide)
  have hdata := hwell _ htoken
  have hfeeData := hwell _ hfeeToken
  rw [Withdrawal.reportAt, keyAt_of_listed hlisted]
  unfold verifyWithdrawal Withdrawal.report
  cases hresult : getValidatedIndexWithdraw rt withdrawal.addressIndex networkType (m₀ account.key).data with
  | error fault =>
      cases fault with
      | panic => exact absurd hresult (hdata.validatedIndexWithdraw_ne_panic rt _ networkType)
      | error programError =>
          refine (logs_tryRead (.error programError) hne hresult).bind_nil ?_
          refine (logs_validate hkind (by decide) hfeeAccount).bind_nil ?_
          refine (logs_accountAt hlisted).bind_nil ((logs_accountAt hprogram).bind_nil ?_)
          exact logs_writeEvent hroom _
  | ok index =>
      obtain ⟨hwallet, rfl⟩ := getValidatedIndexWithdraw_eq_ok.mp hresult
      have hfeeWallet := hfee feeAccount.key (keyAt_of_listed hlisted) hwallet
      refine (logs_tryRead (.ok _) hne hresult).bind_nil ?_
      refine (logs_validate hkind (by decide) hfeeAccount).bind_nil ?_
      refine (logs_accountAt hlisted).bind_nil ((logs_accountAt hprogram).bind_nil ?_)
      refine (logs_read hne (hdata.walletBalance hwallet.wallet.inUse)).bind_nil ?_
      refine (logs_read hfeeNe (getValidatedIndexWithdraw_eq_ok.mpr ⟨hfeeWallet, rfl⟩)).bind_nil ?_
      refine (logs_read hfeeNe (hfeeData.walletBalance hfeeWallet.wallet.inUse)).bind_nil ?_
      simp only [← ofNat_amountAt_lt_iff]
      exact logs_when fun _ => logs_writeEvent hroom _

/-- The verification of all withdrawals from one account, as the loop over the batch does it. -/
def verifyTokenWithdrawals (rt : Runtime) (accounts : List AccountInfo) (networkType : NetworkType)
    (tokenWithdrawals : TokenWithdrawals) : Prog Unit := do
  validateAccount accounts tokenWithdrawals.accountIndex false true (some .token) (some 0)
  verifyWithdrawals rt accounts tokenWithdrawals.accountIndex tokenWithdrawals.withdrawals networkType

theorem logs_verifyTokenWithdrawals (hroom : runeReceiverOffset ≤ (m₀ program.key).data.length)
    (hprogram : accounts[0]? = some program) (hkind : getType (m₀ program.key).data = .ok .program)
    (hwell : ∀ key, getType (m₀ key).data = .ok .token → WellFormed (m₀ key).data)
    {tokenWithdrawals : TokenWithdrawals} (htokens : TokensValid accounts m₀ tokenWithdrawals)
    (hfees : ∀ key, keyAt accounts tokenWithdrawals.accountIndex = some key →
      ∀ withdrawal ∈ tokenWithdrawals.withdrawals,
        withdrawal.FeeWalletValid rt networkType accounts (fun key => (m₀ key).data) key) :
    Logs maxEvents (.custom errorValueTooLarge) (Logged m₀ program.key)
      (verifyTokenWithdrawals rt accounts networkType tokenWithdrawals) ()
      (tokenWithdrawals.reports rt networkType accounts fun key => (m₀ key).data) := by
  obtain ⟨account, haccount, -⟩ := id htokens.account
  have hkey := keyAt_of_listed haccount
  rw [TokenWithdrawals.reports, hkey]
  refine (logs_validate hkind (by decide) htokens.account).bind_nil ((logs_accountAt haccount).bind_nil ?_)
  exact logs_forM fun withdrawal hmem => logs_verifyWithdrawal hroom hprogram hkind hwell
    (htokens.account.type_eq haccount) tokenWithdrawals.accountIndex (htokens.feeAccounts withdrawal hmem)
    (hfees account.key hkey withdrawal hmem)

/-- A batch whose fee wallets are valid is verified to the end, with its reports. -/
theorem logs_verifyBatch (hroom : runeReceiverOffset ≤ (m₀ program.key).data.length)
    (hprogram : accounts[0]? = some program) (hkind : getType (m₀ program.key).data = .ok .program)
    (hwell : ∀ key, getType (m₀ key).data = .ok .token → WellFormed (m₀ key).data) {params : WithdrawBatchParams}
    (htokens : ∀ tokenWithdrawals ∈ params.tokenWithdrawals, TokensValid accounts m₀ tokenWithdrawals)
    (hfees : params.FeeWalletsValid rt networkType accounts fun key => (m₀ key).data) :
    Logs maxEvents (.custom errorValueTooLarge) (Logged m₀ program.key)
      (params.tokenWithdrawals.forM (verifyTokenWithdrawals rt accounts networkType)) ()
      (params.reports rt networkType accounts fun key => (m₀ key).data) :=
  logs_forM fun tokenWithdrawals hmem => logs_verifyTokenWithdrawals hroom hprogram hkind hwell
    (htokens tokenWithdrawals hmem) (hfees tokenWithdrawals hmem)

/-! ### Fee wallets of a verified batch -/

/-- All accounts but the program's have the data that they had. -/
def OthersKept (m₀ : Memory) (program : Pubkey) (m : Memory) : Prop :=
  ∀ key, key ≠ program → (m key).data = (m₀ key).data

theorem keeps_tryRead {α : Type} {get : Bytes → Except Fault α} (hne : account.key ≠ program.key) :
    Keeps (OthersKept m₀ program.key) (account.tryRead get) fun result =>
      get (m₀ account.key).data = result.mapError Failure.error := by
  apply keeps_read
  intro m hm result hget
  rw [hm account.key hne] at hget
  cases hread : get (m₀ account.key).data with
  | ok a =>
      rw [hread] at hget
      cases hget
      rfl
  | error fault =>
      rw [hread] at hget
      cases fault <;> cases hget
      rfl

theorem keeps_writeProgram (put : Bytes → Except Fault Bytes) :
    Keeps (OthersKept m₀ program.key) (program.write put) fun _ => True := by
  apply Exec.keeps_modify
  intro m hm m' hput
  refine ⟨fun key hne => ?_, trivial⟩
  cases hdata : put (m program.key).data with
  | error fault =>
      rw [hdata] at hput
      cases hput
  | ok data =>
      rw [hdata] at hput
      cases hput
      rw [Memory.setData_of_ne _ _ hne]
      exact hm key hne

/-- A verification that gets past a withdrawal has found its fee wallet valid, or its own wallet not. -/
theorem keeps_verifyWithdrawal_feeWallet (hprogram : accounts[0]? = some program)
    (hne : account.key ≠ program.key) (accountIndex : UInt8) {withdrawal : Withdrawal}
    (hfeeNe : ∀ feeKey, keyAt accounts withdrawal.feeAccountIndex = some feeKey → feeKey ≠ program.key) :
    Keeps (OthersKept m₀ program.key) (verifyWithdrawal rt accounts accountIndex account networkType withdrawal)
      fun _ => withdrawal.FeeWalletValid rt networkType accounts (fun key => (m₀ key).data) account.key := by
  refine (keeps_tryRead hne).bind fun indexResult hresult => ?_
  refine (keeps_validate (Q := True) fun _ _ _ => trivial).bind fun _ _ => ?_
  refine keeps_accountAt.bind fun feeAccount hfeeAccount => keeps_accountAt.bind fun first hfirst => ?_
  obtain rfl := Option.some.inj (hfirst.symm.trans hprogram)
  have hfeeKey := keyAt_of_listed hfeeAccount
  cases indexResult with
  | error programError =>
      refine (keeps_writeProgram _).weaken fun _ _ feeKey _ hwallet => ?_
      have hok := getValidatedIndexWithdraw_eq_ok.mpr ⟨hwallet, rfl⟩
      cases hresult.symm.trans hok
  | ok index =>
      refine (keeps_read (Q := fun _ => True) fun _ _ _ _ => trivial).bind fun currentBalance _ => ?_
      have hread : Keeps (OthersKept m₀ first.key)
          (feeAccount.read (getValidatedIndexWithdraw rt withdrawal.feeAddressIndex networkType)) fun _ =>
            WithdrawWallet rt networkType withdrawal.feeAddressIndex (m₀ feeAccount.key).data := by
        apply keeps_read
        intro m hm feeIndex hget
        rw [hm feeAccount.key (hfeeNe _ hfeeKey)] at hget
        exact (getValidatedIndexWithdraw_eq_ok.mp hget).1
      refine hread.bind fun feeIndex hfeeWallet => ?_
      refine (keeps_read (Q := fun _ => True) fun _ _ _ _ => trivial).bind fun feeBalance _ => ?_
      refine (Exec.keeps_when fun _ => keeps_writeProgram _).weaken fun _ _ feeKey hkey _ => ?_
      obtain rfl := Option.some.inj (hfeeKey.symm.trans hkey)
      exact hfeeWallet

theorem keeps_verifyTokenWithdrawals_feeWallets (hprogram : accounts[0]? = some program)
    (hkind : getType (m₀ program.key).data = .ok .program) {tokenWithdrawals : TokenWithdrawals}
    (htokens : TokensValid accounts m₀ tokenWithdrawals) :
    Keeps (OthersKept m₀ program.key) (verifyTokenWithdrawals rt accounts networkType tokenWithdrawals) fun _ =>
      ∀ key, keyAt accounts tokenWithdrawals.accountIndex = some key →
        ∀ withdrawal ∈ tokenWithdrawals.withdrawals,
          withdrawal.FeeWalletValid rt networkType accounts (fun key => (m₀ key).data) key := by
  refine (keeps_validate (Q := True) fun _ _ _ => trivial).bind fun _ _ => ?_
  refine keeps_accountAt.bind fun account haccount => ?_
  have hkey := keyAt_of_listed haccount
  have hne : account.key ≠ program.key := ne_of_getType (htokens.account.type_eq haccount) hkind (by decide)
  refine (keeps_forM fun withdrawal hmem => keeps_verifyWithdrawal_feeWallet hprogram hne
    tokenWithdrawals.accountIndex fun feeKey hfeeKey => ?_).weaken fun _ hvalid key hkey' => ?_
  · exact ne_of_getType ((htokens.feeAccounts withdrawal hmem).type_of_keyAt hfeeKey) hkind (by decide)
  · obtain rfl := Option.some.inj (hkey.symm.trans hkey')
    exact hvalid

/-- A verification that succeeds has found all fee wallets valid. -/
theorem verifyBatch_feeWallets (hprogram : accounts[0]? = some program)
    (hkind : getType (m₀ program.key).data = .ok .program) {params : WithdrawBatchParams} {m m' : Memory} {u : Unit}
    (htokens : ∀ tokenWithdrawals ∈ params.tokenWithdrawals, TokensValid accounts m₀ tokenWithdrawals)
    (hm : OthersKept m₀ program.key m)
    (hrun : (params.tokenWithdrawals.forM (verifyTokenWithdrawals rt accounts networkType)).run m = .ok u m') :
    params.FeeWalletsValid rt networkType accounts fun key => (m₀ key).data :=
  ((keeps_forM fun tokenWithdrawals hmem =>
    keeps_verifyTokenWithdrawals_feeWallets hprogram hkind (htokens tokenWithdrawals hmem)).of_ok hm hrun).2

end Verification

/-! ### Batches without reports -/

/-- How many withdrawals a batch has. -/
def WithdrawBatchParams.withdrawalCount (params : WithdrawBatchParams) : Nat :=
  (params.tokenWithdrawals.map fun tokenWithdrawals => tokenWithdrawals.withdrawals.length).sum

/-- Every withdrawal comes from a wallet that may withdraw, and its amount and its fee are covered on their own. -/
def WithdrawBatchParams.Affordable (rt : Runtime) (networkType : NetworkType) (accounts : List AccountInfo)
    (accountData : Pubkey → Bytes) (params : WithdrawBatchParams) : Prop :=
  ∀ tokenWithdrawals ∈ params.tokenWithdrawals, ∀ key, keyAt accounts tokenWithdrawals.accountIndex = some key →
    ∀ withdrawal ∈ tokenWithdrawals.withdrawals, ∀ feeKey, keyAt accounts withdrawal.feeAccountIndex = some feeKey →
      WithdrawWallet rt networkType withdrawal.addressIndex (accountData key) ∧
        withdrawal.amount.toNat ≤ amountAt (accountData key) withdrawal.addressIndex.index.toNat ∧
        withdrawal.feeAmount.toNat ≤ amountAt (accountData feeKey) withdrawal.feeAddressIndex.index.toNat

section Reports

variable {rt : Runtime} {networkType : NetworkType} {accounts : List AccountInfo} {accountData : Pubkey → Bytes}

theorem report_length_le (accountIndex : UInt8) (data feeData : Bytes) (withdrawal : Withdrawal) :
    (withdrawal.report rt networkType accountIndex data feeData).length ≤ 1 := by
  unfold Withdrawal.report
  split
  · split
    · exact Nat.le_refl 1
    · exact Nat.zero_le 1
  · exact Nat.le_refl 1
  · exact Nat.zero_le 1

theorem flatMap_length_le {α β : Type} {f : α → List β} {xs : List α} (h : ∀ x ∈ xs, (f x).length ≤ 1) :
    (xs.flatMap f).length ≤ xs.length := by
  induction xs with
  | nil => exact Nat.le_refl 0
  | cons x xs ih =>
      rw [List.flatMap_cons, List.length_append, List.length_cons]
      have hfirst := h x List.mem_cons_self
      have hrest := ih fun y hy => h y (List.mem_cons_of_mem _ hy)
      omega

/-- A batch has no more reports than withdrawals. -/
theorem reports_length_le (params : WithdrawBatchParams) :
    (params.reports rt networkType accounts accountData).length ≤ params.withdrawalCount := by
  rw [WithdrawBatchParams.reports, List.length_flatMap, WithdrawBatchParams.withdrawalCount]
  apply List.sum_le_sum
  intro tokenWithdrawals _
  unfold TokenWithdrawals.reports
  split
  · apply flatMap_length_le
    intro withdrawal _
    unfold Withdrawal.reportAt
    split
    · exact report_length_le _ _ _ withdrawal
    · exact Nat.zero_le 1
  · exact Nat.zero_le _

theorem report_eq_nil {data feeData : Bytes} (h : WellFormed data) {accountIndex : UInt8} {withdrawal : Withdrawal} :
    withdrawal.report rt networkType accountIndex data feeData = [] ↔
      WithdrawWallet rt networkType withdrawal.addressIndex data ∧
        withdrawal.amount.toNat ≤ amountAt data withdrawal.addressIndex.index.toNat ∧
        withdrawal.feeAmount.toNat ≤ amountAt feeData withdrawal.feeAddressIndex.index.toNat := by
  unfold Withdrawal.report
  cases hresult : getValidatedIndexWithdraw rt withdrawal.addressIndex networkType data with
  | error fault =>
      have hnot : ¬WithdrawWallet rt networkType withdrawal.addressIndex data := fun hwallet => by
        cases hresult.symm.trans (getValidatedIndexWithdraw_eq_ok.mpr ⟨hwallet, rfl⟩)
      cases fault with
      | panic => exact absurd hresult (h.validatedIndexWithdraw_ne_panic rt _ networkType)
      | error programError => exact iff_of_false (List.cons_ne_nil _ _) fun hall => hnot hall.1
  | ok index =>
      obtain ⟨hwallet, rfl⟩ := getValidatedIndexWithdraw_eq_ok.mp hresult
      simp only [hwallet, true_and]
      constructor
      · intro hnil
        by_contra hshort
        rw [not_and_or, Nat.not_le, Nat.not_le] at hshort
        rw [if_pos hshort] at hnil
        cases hnil
      · rintro ⟨hamount, hfee⟩
        rw [if_neg (not_or.mpr ⟨Nat.not_lt.mpr hamount, Nat.not_lt.mpr hfee⟩)]

/-- Nothing is reported exactly where every withdrawal is affordable on its own. -/
theorem reports_eq_nil {m : Memory} {params : WithdrawBatchParams}
    (hwell : ∀ key, getType (m key).data = .ok .token → WellFormed (m key).data)
    (htokens : ∀ tokenWithdrawals ∈ params.tokenWithdrawals, TokensValid accounts m tokenWithdrawals) :
    params.reports rt networkType accounts (fun key => (m key).data) = [] ↔
      params.Affordable rt networkType accounts fun key => (m key).data := by
  rw [WithdrawBatchParams.reports, List.flatMap_eq_nil_iff]
  refine forall₂_congr fun tokenWithdrawals hmem => ?_
  obtain ⟨hvalidated, hfeeAccounts⟩ := htokens tokenWithdrawals hmem
  obtain ⟨account, haccount, -⟩ := id hvalidated
  have hkey := keyAt_of_listed haccount
  have hdata := hwell _ (hvalidated.type_eq haccount)
  simp only [TokenWithdrawals.reports, hkey, Option.some.injEq, forall_eq', List.flatMap_eq_nil_iff]
  refine forall₂_congr fun withdrawal hwithdrawal => ?_
  obtain ⟨feeAccount, hfeeAccount, -⟩ := hfeeAccounts withdrawal hwithdrawal
  simp only [Withdrawal.reportAt, keyAt_of_listed hfeeAccount, Option.some.injEq, forall_eq']
  exact report_eq_nil hdata

/-- The event is that of a failed withdrawal. -/
def Event.isFailedWithdrawal : Event → Bool
  | .failedSettlement _ _ _ _ _ => false
  | .failedWithdrawal _ _ _ _ _ _ _ _ _ => true

theorem mem_reports {params : WithdrawBatchParams} {event : Event}
    (h : event ∈ params.reports rt networkType accounts accountData) : event.isFailedWithdrawal = true := by
  obtain ⟨tokenWithdrawals, -, hmem⟩ := List.mem_flatMap.mp h
  unfold TokenWithdrawals.reports at hmem
  split at hmem
  · obtain ⟨withdrawal, -, hmem⟩ := List.mem_flatMap.mp hmem
    unfold Withdrawal.reportAt at hmem
    split at hmem
    · unfold Withdrawal.report at hmem
      split at hmem
      · split at hmem
        · rw [List.mem_singleton.mp hmem]
          rfl
        · cases hmem
      · rw [List.mem_singleton.mp hmem]
        rfl
      · cases hmem
    · cases hmem
  · cases hmem

end Reports

end Chainring.Arch

import Chainring.Arch.TokenHistory
import Chainring.Arch.WithdrawalBatch

/-! The rollback of withdrawals right after their preparation. It takes the fees back in the order in
which they were paid, so it goes through exactly when the fee wallets still cover each of them; and once
it goes through every balance is what it was. -/

namespace Chainring.Arch

open Exec (bind_eq_ok posts_forM admits_forM)
open Ledger (Entry)

def AccountInfo.asReadonly (account : AccountInfo) : AccountInfo := { account with isWritable := false }

/-- The accounts of a rollback are those of the preparation, the program account now read-only. -/
structure RollsBack (accounts accounts' : List AccountInfo) : Prop where
  program : accounts'[0]? = (accounts[0]?).map AccountInfo.asReadonly
  others : ∀ i, i ≠ 0 → accounts'[i]? = accounts[i]?

section Accounts

variable {accounts accounts' : List AccountInfo}

theorem RollsBack.keyAt_eq (h : RollsBack accounts accounts') (index : UInt8) :
    keyAt accounts' index = keyAt accounts index := by
  unfold keyAt
  by_cases hzero : index.toNat = 0
  · rw [hzero, h.program, Option.map_map]
    rfl
  · rw [h.others _ hzero]

theorem RollsBack.entries_eq (h : RollsBack accounts accounts') (params : WithdrawBatchParams) :
    params.entries accounts' = params.entries accounts := by
  unfold WithdrawBatchParams.entries TokenWithdrawals.entries Withdrawal.entries Withdrawal.feeEntries
  simp only [h.keyAt_eq]

theorem RollsBack.listed {program : AccountInfo} (h : RollsBack accounts accounts')
    (hprogram : accounts[0]? = some program) : accounts'[0]? = some program.asReadonly := by
  rw [h.program, hprogram]
  rfl

/-- A token account is not the program account, so it is listed with the same flags. -/
theorem RollsBack.validated (h : RollsBack accounts accounts') {m m' : Memory} {index : UInt8}
    {isSigner isWritable : Bool} {accountType : AccountType} {program : AccountInfo}
    (hprogram : accounts[0]? = some program) (htype : getType (m program.key).data = .ok .program)
    (hne : accountType ≠ .program)
    (hvalidated : Validated accounts index isSigner isWritable (some accountType) (some 0) m)
    (hkept : ∀ key, (m key).data ≠ [] → ∀ o < 37, (m' key).data[o]? = (m key).data[o]?) :
    Validated accounts' index isSigner isWritable (some accountType) (some 0) m' := by
  obtain ⟨account, haccount, hsigner, hwritable, related, hrelated, hbound⟩ := hvalidated
  obtain rfl : program = related := Option.some.inj (hprogram.symm.trans hrelated)
  have hindex : index.toNat ≠ 0 := by
    intro hzero
    rw [hzero, hprogram] at haccount
    obtain rfl := Option.some.inj haccount
    exact hne (Except.ok.inj (hbound.1.symm.trans htype))
  refine ⟨account, ?_, hsigner, hwritable, program.asReadonly, ?_, ?_⟩
  · rw [h.others _ hindex]
    exact haccount
  · exact h.listed hprogram
  · exact (bound_congr (hkept account.key (ne_nil_of_getType hbound.1))).mpr hbound

/-- The program account is validated as before, except that it is read-only. -/
theorem RollsBack.validated_program (h : RollsBack accounts accounts') {m m' : Memory} {program : AccountInfo}
    (hprogram : accounts[0]? = some program) (htype : getType (m program.key).data = .ok .program)
    (hvalidated : Validated accounts 0 true true (some .program) (some 1) m)
    (hkept : ∀ key, (m key).data ≠ [] → ∀ o < 37, (m' key).data[o]? = (m key).data[o]?) :
    Validated accounts' 0 true false (some .program) (some 1) m' := by
  obtain ⟨hsigner, -, related, hrelated, hbound⟩ := hvalidated.of_listed hprogram
  refine ⟨program.asReadonly, h.listed hprogram, hsigner, rfl, related, ?_, ?_⟩
  · exact (h.others 1 (by decide)).trans hrelated
  · exact (bound_congr (hkept program.key (ne_nil_of_getType htype))).mpr hbound

end Accounts

/-! ### The rollback of a batch -/

section Batch

variable {rt : Runtime} {accounts : List AccountInfo} {m m' : Memory}

/-- The loop of a rollback. -/
def rollbackTokenWithdrawals (accounts : List AccountInfo) (program : AccountInfo)
    (tokenWithdrawals : TokenWithdrawals) : Prog Unit := do
  validateAccount accounts tokenWithdrawals.accountIndex false true (some .token) (some 0)
  let feeAccountAddress ← program.read ProgramState.getFeeAccountAddress
  let account ← accountAt accounts tokenWithdrawals.accountIndex.toNat
  tokenWithdrawals.withdrawals.forM (handleRollbackWithdrawal accounts account feeAccountAddress)

/-- A rollback succeeds when its loop does on the right accounts; it changes amounts and the hash. -/
theorem rollbackWithdrawBatch_eq_ok {params : RollbackWithdrawBatchParams} {u : Unit}
    {program withdraw : AccountInfo} (hprogram : accounts[0]? = some program)
    (hwithdraw : accounts[1]? = some withdraw) :
    (rollbackWithdrawBatch accounts params).run m = .ok u m' ↔
      Validated accounts 0 true false (some .program) (some 1) m ∧
      Validated accounts 1 false true (some .withdraw) (some 0) m ∧
      ∃ looped, (params.tokenWithdrawals.forM (rollbackTokenWithdrawals accounts program)).run m =
          .ok () looped ∧
        (withdraw.write WithdrawState.clearHash).run looped = .ok u m' := by
  constructor
  · intro h
    obtain ⟨hvalidated, h⟩ := validate_bind_eq_ok.mp h
    obtain ⟨hvalidated', h⟩ := validate_bind_eq_ok.mp h
    obtain ⟨program', hfirst, h⟩ := accountAt_bind_eq_ok.mp h
    obtain ⟨withdraw', hsecond, h⟩ := accountAt_bind_eq_ok.mp h
    obtain ⟨_, looped, hloop, h⟩ := bind_eq_ok.mp h
    obtain rfl : program' = program := Option.some.inj (hfirst.symm.trans hprogram)
    obtain rfl : withdraw' = withdraw := Option.some.inj (hsecond.symm.trans hwithdraw)
    exact ⟨hvalidated, hvalidated', looped, hloop, h⟩
  · rintro ⟨hvalidated, hvalidated', looped, hloop, hclear⟩
    apply validate_bind_eq_ok.mpr
    refine ⟨hvalidated, validate_bind_eq_ok.mpr ⟨hvalidated', accountAt_bind_eq_ok.mpr ⟨program, hprogram, ?_⟩⟩⟩
    apply accountAt_bind_eq_ok.mpr
    exact ⟨withdraw, hwithdraw, bind_eq_ok.mpr ⟨(), looped, hloop, hclear⟩⟩

/-- After its loop a rollback finds room to clear the hash. -/
theorem rollbackWithdrawBatch_run {params : RollbackWithdrawBatchParams} {u : Unit} {program withdraw : AccountInfo}
    (hprogram : accounts[0]? = some program) (hwithdraw : accounts[1]? = some withdraw)
    (hvalidated : Validated accounts 0 true false (some .program) (some 1) m)
    (hvalidated' : Validated accounts 1 false true (some .withdraw) (some 0) m)
    (hroom : withdrawHashOffset + hashSize ≤ (m' withdraw.key).data.length)
    (hloop : (params.tokenWithdrawals.forM (rollbackTokenWithdrawals accounts program)).run m = .ok u m') :
    ∃ m'', (rollbackWithdrawBatch accounts params).run m = .ok () m'' := by
  obtain ⟨data, -, hclear⟩ : ∃ data, data.length = (m' withdraw.key).data.length ∧
      (withdraw.write WithdrawState.clearHash).run m' = .ok () (m'.setData withdraw.key data) :=
    write_isOk (emptyHash.2.symm ▸ hroom)
  exact ⟨_, (rollbackWithdrawBatch_eq_ok hprogram hwithdraw).mpr ⟨hvalidated, hvalidated', m', hloop, hclear⟩⟩

/-- What a batch gives back is posted entry by entry, each one the opposite of the entry prepared. -/
theorem rollbackWithdrawBatch_posts {params : WithdrawBatchParams} {u : Unit} {program withdraw : AccountInfo}
    (hprogram : accounts[0]? = some program) (hwithdraw : accounts[1]? = some withdraw)
    (h : (rollbackWithdrawBatch accounts ⟨params.tokenWithdrawals⟩).run m = .ok u m') :
    Ledger.run .wraps amountModulus (balances m) ((params.entries accounts).map Entry.opposite) =
        some (balances m') ∧
      ∀ key, (m' key).data.length = (m key).data.length := by
  obtain ⟨-, -, looped, hloop, hclear⟩ := (rollbackWithdrawBatch_eq_ok hprogram hwithdraw).mp h
  obtain ⟨-, hamounts, hposted⟩ := posts_forM (fun tokenWithdrawals _ =>
    posts_rollbackTokenWithdrawals program tokenWithdrawals) m () looped (AmountsOnly.refl m) hloop
  obtain ⟨data, hput, rfl⟩ := write_eq_ok.mp hclear
  rw [balances_setData_of_disjoint (writes_setHash _) (fun o ho => not_anyAmount_of_lt ?_) hput,
    WithdrawBatchParams.entries, List.map_flatMap]
  · refine ⟨hposted, fun key => ?_⟩
    rw [setData_length (writes_setHash _) hput, hamounts.length]
  · have hhigh := ho.2
    omega

theorem rollback_loop_amounts {program : AccountInfo} {tokenWithdrawals : List TokenWithdrawals} {u : Unit}
    (h : (tokenWithdrawals.forM (rollbackTokenWithdrawals accounts program)).run m = .ok u m') :
    AmountsOnly m m' :=
  (posts_forM (fun tokenWithdrawals _ => posts_rollbackTokenWithdrawals program tokenWithdrawals) m u m'
    (AmountsOnly.refl m) h).2.1

/-- The loop of a rollback goes through exactly when its entries do, once the accounts are ready. -/
theorem rollback_loop_iff {params : WithdrawBatchParams} {program : AccountInfo}
    (hready : ∀ tokenWithdrawals ∈ params.tokenWithdrawals,
      TokenRollbackReady accounts m program tokenWithdrawals) :
    (∃ u looped, (params.tokenWithdrawals.forM (rollbackTokenWithdrawals accounts program)).run m =
        .ok u looped) ↔
      Ledger.Covered amountModulus (balances m) ((params.entries accounts).map Entry.opposite) := by
  have hadmits : Exec.Admits amountModulus (AmountsOnly m) balances
      (params.tokenWithdrawals.forM (rollbackTokenWithdrawals accounts program)) _ _ :=
    admits_forM (fun tokenWithdrawals _ => posts_rollbackTokenWithdrawals program tokenWithdrawals)
      fun tokenWithdrawals _ => admits_rollbackTokenWithdrawals program tokenWithdrawals
  rw [← Ledger.run_isSome_iff amountModulus (by decide) (balances_lt m), WithdrawBatchParams.entries,
    List.map_flatMap]
  exact (hadmits m (AmountsOnly.refl m)).trans (and_iff_right hready)

end Batch

/-! ### From the preparation to the rollback -/

section Run

variable {rt : Runtime} {networkType : NetworkType} {before prepared : World}
  {accounts accounts' : List AccountInfo} {program : AccountInfo} {params : WithdrawBatchParams}

/-- The accounts of a prepared batch are ready for its rollback. -/
theorem Prepares.rollbackReady
    (h : Prepares rt networkType accounts program params (load before) (load prepared))
    (hprogram : accounts[0]? = some program) (htype : getType (before program.key).data = .ok .program)
    (hsame : RollsBack accounts accounts')
    (hheader : ∀ key, (before key).data ≠ [] → ∀ o < 37, (prepared key).data[o]? = (before key).data[o]?)
    (hkept : ∀ token, getType (before token).data = .ok .token →
      Kept (before token).data (prepared token).data)
    (hfee : ProgramState.getFeeAccountAddress (prepared program.key).data =
      ProgramState.getFeeAccountAddress (before program.key).data) :
    ∀ tokenWithdrawals ∈ params.tokenWithdrawals,
      TokenRollbackReady accounts' (load prepared) program tokenWithdrawals := by
  intro tokenWithdrawals hmem
  have hverified := h.verified tokenWithdrawals hmem
  obtain ⟨payoutLists, hpayoutLists⟩ := h.paidOut
  obtain ⟨payouts, key, address, hkey, haddress, hpaid⟩ := exists_of_forall₂ hpayoutLists hmem
  refine ⟨hsame.validated hprogram htype (by decide) hverified.1 hheader, address, hfee.trans haddress, ?_⟩
  intro key' hkey' withdrawal hwithdrawal
  rw [hsame.keyAt_eq] at hkey'
  obtain rfl : key = key' := Option.some.inj (hkey.symm.trans hkey')
  have htoken := hkept key (hverified.token hkey)
  obtain ⟨hpayer, hfeeAccount, hfeePayer⟩ := hverified.2 key hkey withdrawal hwithdrawal
  obtain ⟨payout, hpaidWithdrawal⟩ := exists_of_forall₂ hpaid hwithdrawal
  refine ⟨⟨htoken.wallet hpayer.wallet.wallet, htoken.hasAmount hpayer.hasAmount⟩,
    fun _ => hsame.validated hprogram htype (by decide) hfeeAccount hheader, fun hpos feeKey hfeeKey => ?_⟩
  rw [hsame.keyAt_eq] at hfeeKey
  have hpays := hfeePayer feeKey hfeeKey
  have hfeeKept := hkept feeKey ((hverified.2 key hkey withdrawal hwithdrawal).feeToken hfeeKey)
  obtain ⟨hfeeWallet, hfeeAmount⟩ := hpaidWithdrawal.fee hpos feeKey hfeeKey
  refine ⟨⟨hfeeKept.walletAddress ?_ hfeeWallet, hfeeKept.hasAmount hfeeAmount⟩,
    fun _ => hfeeKept.hasAmount hpays.hasAmount⟩
  exact Nat.lt_of_le_of_lt (Nat.zero_le _) hpays.wallet.wallet.inUse

end Run

/-- A prepared batch of withdrawals can be rolled back exactly when the fees it paid can be taken back one
after the other, and then every balance is what it was and the hash is gone. -/
theorem rollback_restores_iff (rt : Runtime) (before prepared : World) (programId programId' : Pubkey)
    (accounts accounts' : List AccountInfo) (program withdraw : AccountInfo) (raw rollbackRaw : Bytes)
    (params : WithdrawBatchParams)
    (hparams : decodeFromSlice WithdrawBatchParams.decode raw = .ok params)
    (hrollback : decodeFromSlice RollbackWithdrawBatchParams.decode rollbackRaw =
      .ok ⟨params.tokenWithdrawals⟩)
    (hprogram : accounts[0]? = some program) (hwithdraw : accounts[1]? = some withdraw)
    (hsame : RollsBack accounts accounts')
    (hprepare : execute rt before (withdrawCall 4 programId accounts raw) = some prepared)
    (hset : withdrawHash prepared withdraw.key ≠ .ok emptyHash) :
    (∃ restored, execute rt prepared (withdrawCall 8 programId' accounts' rollbackRaw) = some restored ∧
      (∀ token, getType (before token).data = .ok .token →
        ∀ index, amountAt (restored token).data index = amountAt (before token).data index) ∧
      withdrawHash restored withdraw.key = .ok emptyHash) ↔
    Ledger.Covered amountModulus (balances (load prepared))
      ((params.entries accounts).map Entry.opposite) := by
  obtain ⟨hvalidated, hvalidated', hdigest, networkType, hprepares⟩ :=
    execute_prepares hparams hprogram hwithdraw hprepare hset
  have hstep := step_of_execute hprepare
  obtain ⟨first, hled⟩ := led_of_validated hvalidated
  obtain rfl : first = program := Option.some.inj (hled.listed.symm.trans hprogram)
  have htype : getType (before first.key).data = .ok .program := hled.program
  have hheader : ∀ key, (before key).data ≠ [] → ∀ o < 37, (prepared key).data[o]? = (before key).data[o]? := by
    intro key hne
    rw [← hstep]
    exact step_header hne
  have hkept : ∀ token, getType (before token).data = .ok .token →
      Kept (before token).data (prepared token).data := by
    intro token htoken
    rw [← hstep]
    exact step_kept rt before _ htoken
  have hfee : ProgramState.getFeeAccountAddress (prepared first.key).data =
      ProgramState.getFeeAccountAddress (before first.key).data := by
    rw [← hstep]
    exact getFeeAccountAddress_congr fun _ ho => step_program_byte htype (Nat.lt_trans ho (by decide))
  have hready := hprepares.rollbackReady hprogram htype hsame hheader hkept hfee
  have hloop := rollback_loop_iff hready
  rw [hsame.entries_eq] at hloop
  have hprogram' := hsame.listed hprogram
  have hwithdraw' : accounts'[1]? = some withdraw := (hsame.others 1 (by decide)).trans hwithdraw
  have hinstruction := withdrawCall_rollback programId' accounts' hrollback
  rw [← hloop]
  constructor
  · rintro ⟨restored, hrestored, -, -⟩
    obtain ⟨instruction, m, hinstruction', hrun, -, -⟩ := execute_cases hrestored
    obtain rfl := Except.ok.inj (hinstruction'.symm.trans hinstruction)
    obtain ⟨-, -, looped, hlooped, -⟩ := (rollbackWithdrawBatch_eq_ok hprogram' hwithdraw').mp hrun
    exact ⟨(), looped, hlooped⟩
  · rintro ⟨_, looped, hlooped⟩
    have hroom : withdrawHashOffset + hashSize ≤ (looped withdraw.key).data.length := by
      rw [(rollback_loop_amounts hlooped).length]
      exact Bytes.slice_le (by decide) (readArray_eq_ok.mp hdigest)
    obtain ⟨m, hrun⟩ : ∃ m, (rollbackWithdrawBatch accounts' ⟨params.tokenWithdrawals⟩).run (load prepared) =
        .ok () m :=
      rollbackWithdrawBatch_run hprogram' hwithdraw' (hsame.validated_program hprogram htype hvalidated hheader)
        (hsame.validated hprogram htype (by decide) hvalidated' hheader) hroom hlooped
    obtain ⟨hposted, hlengths'⟩ := rollbackWithdrawBatch_posts hprogram' hwithdraw' hrun
    obtain ⟨restored, hrestored, hdata⟩ := execute_of_run hinstruction hrun hlengths'
    refine ⟨restored, hrestored, fun token _ index => ?_, ?_⟩
    · rw [hsame.entries_eq] at hposted
      have hbalances := Ledger.run_opposite amountModulus (by decide) (balances_lt _) hprepares.posted hposted
      have hbalance := congrFun hbalances (token, index)
      rw [hdata]
      exact hbalance
    · rw [withdrawHash, hdata]
      exact rollbackWithdrawBatch_hash hrun hwithdraw'

/-! ### Two rollbacks -/

def withdrawnToken : Pubkey := sampleKey 0x31

/-- The first wallet takes out 100 and pays a fee of 10 in the same token. -/
def plainWithdrawals : List Bytes :=
  [tokenWithdrawalsBytes 2 [withdrawalBytes 1 firstAddress 100 2 1 firstAddress 10]]

def plainParams : WithdrawBatchParams where
  txHex := inputTxBytes
  changeAmount := 0
  tokenWithdrawals :=
    [{ accountIndex := 2
       withdrawals := [⟨⟨1, ⟨firstAddress.drop 40, firstAddress_last4⟩⟩, 100, 2,
         ⟨1, ⟨firstAddress.drop 40, firstAddress_last4⟩⟩, 10⟩] }]
  inputUtxoTypes := [.bitcoin]

def plainDigest : Hash :=
  ⟨[0x9e, 0xff, 0xd5, 0x5a, 0x42, 0x9a, 0xd0, 0x63, 0x82, 0x0f, 0xb9, 0x21, 0x57, 0xb6, 0x22, 0x30,
    0x02, 0x3b, 0x7f, 0xc2, 0xe0, 0x6b, 0xf2, 0x97, 0x3e, 0x61, 0x84, 0x36, 0x9a, 0xc1, 0x8c, 0x87], rfl⟩

def plainRuntime : Runtime := withdrawRuntime [(withdrawBatchBytes plainWithdrawals, plainDigest)]

/-- The plain batch is rolled back to where it started. -/
theorem plain_restores :
    ∃ prepared, execute plainRuntime (withdrawWorld 5 100 7)
        (withdrawCall 4 (sampleKey 0xee) (withdrawAccounts true) (withdrawBatchBytes plainWithdrawals)) =
        some prepared ∧
      amountAt (prepared withdrawnToken).data 0 = 15 ∧ amountAt (prepared withdrawnToken).data 1 = 0 ∧
      ∃ restored, execute plainRuntime prepared
          (withdrawCall 8 (sampleKey 0xee) (withdrawAccounts false) (batchBytes plainWithdrawals)) =
          some restored ∧
        (∀ token, getType (withdrawWorld 5 100 7 token).data = .ok .token →
          ∀ index, amountAt (restored token).data index = amountAt (withdrawWorld 5 100 7 token).data index) ∧
        withdrawHash restored sampleWithdraw = .ok emptyHash := by
  have hrun : ((execute plainRuntime (withdrawWorld 5 100 7)
      (withdrawCall 4 (sampleKey 0xee) (withdrawAccounts true) (withdrawBatchBytes plainWithdrawals))).map
        fun prepared => (withdrawHash prepared sampleWithdraw, amountAt (prepared withdrawnToken).data 0,
          amountAt (prepared withdrawnToken).data 1,
          (Ledger.run .wraps amountModulus (balances (load prepared))
            ((plainParams.entries (withdrawAccounts true)).map Entry.opposite)).isSome)) =
      some (.ok plainDigest, 15, 0, true) := by
    decide +kernel
  obtain ⟨prepared, hprepared, hvalues⟩ := Option.map_eq_some_iff.mp hrun
  simp only [Prod.mk.injEq] at hvalues
  obtain ⟨hset, hfee, hfirst, hgoes⟩ := hvalues
  refine ⟨prepared, hprepared, hfee, hfirst, ?_⟩
  apply (rollback_restores_iff plainRuntime (withdrawWorld 5 100 7) prepared (sampleKey 0xee)
    (sampleKey 0xee) (withdrawAccounts true) (withdrawAccounts false) ⟨sampleProgram, true, true⟩
    ⟨sampleWithdraw, false, true⟩ (withdrawBatchBytes plainWithdrawals) (batchBytes plainWithdrawals)
    plainParams (by decide +kernel) (by decide +kernel) rfl rfl ⟨rfl, ?_⟩ hprepared ?_).mpr
  · exact (Ledger.run_isSome_iff amountModulus (by decide) (balances_lt _)).mp hgoes
  · rintro (_ | index) hindex
    · exact absurd rfl hindex
    · rfl
  · rw [hset]
    decide

/-- The first wallet takes out 20 and pays a fee of 10; the fee wallet, which held 10, takes out 10,
twice. -/
def feeSpendingWithdrawals : List Bytes :=
  [tokenWithdrawalsBytes 2 [withdrawalBytes 1 firstAddress 20 2 1 firstAddress 10,
    withdrawalBytes 0 feeAddress 10 2 0 feeAddress 0, withdrawalBytes 0 feeAddress 10 2 0 feeAddress 0]]

def feeSpendingDigest : Hash :=
  ⟨[0xc3, 0x11, 0x27, 0x91, 0x10, 0xbf, 0xbb, 0x36, 0x57, 0x8d, 0x12, 0xd5, 0xf8, 0x5d, 0xcf, 0x96,
    0x8e, 0x4f, 0x30, 0x22, 0x36, 0xf4, 0x03, 0x94, 0x22, 0x15, 0x8b, 0x9c, 0x6c, 0xb8, 0xaa, 0x0b], rfl⟩

def feeSpendingRuntime : Runtime :=
  withdrawRuntime [(withdrawBatchBytes feeSpendingWithdrawals, feeSpendingDigest)]

/-- The rollback takes the fee back before it gives back what the fee wallet took out: it runs out of
balance, and the batch stays debited. -/
theorem feeSpending_stays :
    ∃ prepared, execute feeSpendingRuntime (withdrawWorld 10 20 0)
        (withdrawCall 4 (sampleKey 0xee) (withdrawAccounts true) (withdrawBatchBytes feeSpendingWithdrawals)) =
        some prepared ∧
      withdrawHash prepared sampleWithdraw = .ok feeSpendingDigest ∧
      execute feeSpendingRuntime prepared
        (withdrawCall 8 (sampleKey 0xee) (withdrawAccounts false) (batchBytes feeSpendingWithdrawals)) = none ∧
      ∃ m, (withdrawCall 8 (sampleKey 0xee) (withdrawAccounts false)
          (batchBytes feeSpendingWithdrawals)).outcome feeSpendingRuntime prepared =
        .error (.custom errorInsufficientBalance) m := by
  have hrun : ((execute feeSpendingRuntime (withdrawWorld 10 20 0)
      (withdrawCall 4 (sampleKey 0xee) (withdrawAccounts true)
        (withdrawBatchBytes feeSpendingWithdrawals))).map fun prepared =>
      (withdrawHash prepared sampleWithdraw,
        ((withdrawCall 8 (sampleKey 0xee) (withdrawAccounts false)
          (batchBytes feeSpendingWithdrawals)).outcome feeSpendingRuntime prepared).failure)) =
      some (.ok feeSpendingDigest, some (.custom errorInsufficientBalance)) := by
    decide +kernel
  obtain ⟨prepared, hprepared, hvalues⟩ := Option.map_eq_some_iff.mp hrun
  obtain ⟨hset, hfails⟩ := Prod.mk.inj hvalues
  obtain ⟨m, houtcome⟩ := Outcome.failure_eq_some.mp hfails
  refine ⟨prepared, hprepared, hset, ?_, m, houtcome⟩
  rw [execute, houtcome]

end Chainring.Arch

import Chainring.Arch.Run

/-! The instructions that write nothing but the data of accounts: all except the submission of withdrawals and the
update of the withdraw account's utxo. What new data for one account keeps, these keep. -/

namespace Chainring.Arch

open Exec (Keeps keeps_pure keeps_fail keeps_ensure keeps_query keeps_modify keeps_forM keeps_foldlM keeps_when)

/-- Instructions that may set a utxo. -/
def ProgramInstruction.SetsUtxo : ProgramInstruction → Prop
  | .submitBatchWithdraw _ => True
  | .updateWithdrawStateUtxo _ => True
  | _ => False

section Data

variable (rt : Runtime) {accounts : List AccountInfo} {I : Memory → Prop}
  (hdata : ∀ m key data, I m → I (m.setData key data))

include hdata

theorem keeps_data_write (account : AccountInfo) (put : Bytes → Except Fault Bytes) :
    Keeps I (account.write put) fun _ => True := by
  apply keeps_modify
  intro m hm m' hput
  obtain ⟨data, -, rfl⟩ := write_eq_ok.mp (Exec.modify_eq_ok.mpr hput : (account.write put).run m = .ok () m')
  exact ⟨hdata m account.key data hm, trivial⟩

theorem keeps_data_realloc (account : AccountInfo) (newLen : Nat) :
    Keeps I (account.realloc newLen) fun _ => True := by
  apply keeps_modify
  intro m hm m' hput
  split at hput
  · cases hput
    exact ⟨hm, trivial⟩
  · split at hput
    · cases hput
    · cases hput
      exact ⟨hdata m account.key _ hm, trivial⟩

/-! ### Initialisation -/

theorem keeps_data_growBalanceAccounts (account : AccountInfo) (additionalBalances : Nat) :
    Keeps I (TokenState.growBalanceAccountsIfNeeded account additionalBalances) fun _ => True := by
  refine Keeps.bind (Q := fun _ => True) (keeps_query fun _ _ _ _ => trivial) fun originalDataLen _ => ?_
  refine Keeps.bind (Q := fun _ => True) ?_ fun numBalances _ => keeps_when fun _ => keeps_data_realloc hdata _ _
  split
  · exact keeps_any_read
  · exact keeps_pure trivial

theorem keeps_data_withdrawInitialise : Keeps I (WithdrawState.initialise accounts) fun _ => True := by
  refine keeps_accountAt.bind fun withdrawAccount _ => ?_
  refine keeps_any_read.bind fun isEmpty _ => keeps_when fun _ => ?_
  refine (keeps_data_realloc hdata _ _).bind fun _ _ => ?_
  refine (keeps_data_write hdata _ _).bind fun _ _ => ?_
  exact keeps_accountAt.bind fun programAccount _ => keeps_data_write hdata _ _

theorem keeps_data_runeReceiverInitialise (accountIndex : Nat) :
    Keeps I (RuneReceiverState.initialise accounts accountIndex) fun _ => True := by
  refine keeps_accountAt.bind fun firstAccount _ => ?_
  refine keeps_any_read.bind fun isEmpty _ => keeps_when fun _ => ?_
  refine (keeps_data_realloc hdata _ _).bind fun _ _ => ?_
  refine keeps_accountAt.bind fun account _ => ?_
  refine (keeps_data_write hdata _ _).bind fun _ _ => ?_
  refine keeps_accountAt.bind fun programAccount _ => ?_
  refine (keeps_data_write hdata _ _).bind fun _ _ => ?_
  refine keeps_any_read.bind fun programLen _ => keeps_when fun _ => ?_
  exact (keeps_data_realloc hdata _ _).bind fun _ _ => keeps_data_write hdata _ _

theorem keeps_data_initProgramState (params : InitProgramStateParams) :
    Keeps I (initProgramState rt accounts params) fun _ => True := by
  refine keeps_any_validate.bind fun _ _ => keeps_any_validate.bind fun _ _ => ?_
  refine (keeps_when fun _ => keeps_any_validate).bind fun _ _ => ?_
  refine keeps_lift.bind fun _ _ => keeps_lift.bind fun _ _ => ?_
  refine keeps_accountAt.bind fun programAccount _ => keeps_accountAt.bind fun withdrawAccount _ => ?_
  refine keeps_lift.bind fun newData _ => ?_
  have hinit : Keeps I (initStateData programAccount newData (eventSize * maxEvents)) fun _ => True := by
    refine keeps_ensure.bind fun _ _ => ?_
    exact (keeps_data_realloc hdata _ _).bind fun _ _ => keeps_data_write hdata _ _
  refine hinit.bind fun _ _ => ?_
  refine (keeps_when fun _ => keeps_data_runeReceiverInitialise hdata 2).bind fun _ _ => ?_
  exact keeps_data_withdrawInitialise hdata

theorem keeps_data_initTokenState (params : InitTokenStateParams) :
    Keeps I (initTokenState rt accounts params) fun _ => True := by
  refine keeps_any_validate.bind fun _ _ => keeps_any_validate.bind fun _ _ => ?_
  refine keeps_accountAt.bind fun programAccount _ => keeps_accountAt.bind fun tokenAccount _ => ?_
  refine keeps_any_read.bind fun feeAccountAddress _ => ?_
  refine (keeps_data_growBalanceAccounts hdata _ _).bind fun _ _ => ?_
  refine (keeps_data_write hdata _ _).bind fun _ _ => (keeps_data_write hdata _ _).bind fun _ _ => ?_
  refine (keeps_data_write hdata _ _).bind fun _ _ => keeps_when fun _ => ?_
  exact (keeps_data_write hdata _ _).bind fun _ _ => keeps_data_write hdata _ _

theorem keeps_data_setTokenRuneId (params : SetTokenRuneIdParams) :
    Keeps I (setTokenRuneId rt accounts params) fun _ => True := by
  refine keeps_any_validate.bind fun _ _ => keeps_any_validate.bind fun _ _ => ?_
  refine keeps_ensure.bind fun _ _ => keeps_accountAt.bind fun tokenAccount _ => ?_
  exact keeps_data_write hdata _ _

theorem keeps_data_initRuneReceiverState : Keeps I (initRuneReceiverState accounts) fun _ => True := by
  refine keeps_any_validate.bind fun _ _ => keeps_any_validate.bind fun _ _ => ?_
  exact keeps_data_runeReceiverInitialise hdata 1

theorem keeps_data_initWalletBalances (params : InitWalletBalancesParams) :
    Keeps I (initWalletBalances rt accounts params) fun _ => True := by
  refine keeps_any_validate.bind fun _ _ => keeps_accountAt.bind fun programAccount _ => ?_
  refine keeps_any_read.bind fun networkType _ => ?_
  refine (keeps_forM (P := fun _ => True) fun tokenStateSetup _ => ?_).weaken fun _ _ => trivial
  refine keeps_any_validate.bind fun _ _ => keeps_accountAt.bind fun account _ => ?_
  refine (keeps_data_growBalanceAccounts hdata _ _).bind fun _ _ => ?_
  refine keeps_any_read.bind fun numBalances _ => ?_
  refine (keeps_foldlM (P := fun _ => True) trivial fun count address _ _ => ?_).bind fun _ _ =>
    keeps_data_write hdata _ _
  exact keeps_lift.bind fun _ _ => (keeps_data_write hdata _ _).bind fun _ _ => keeps_pure trivial

/-! ### Adjustments -/

theorem keeps_data_handleAdjustments (account : AccountInfo) (adjustments : List Adjustment) (increment : Bool) :
    Keeps I (handleAdjustments account adjustments increment) fun _ => True := by
  refine (keeps_forM (P := fun _ => True) fun adjustment _ => ?_).weaken fun _ _ => trivial
  refine keeps_any_read.bind fun index _ => ?_
  split
  · exact keeps_data_write hdata _ _
  · exact keeps_data_write hdata _ _

theorem keeps_data_depositBatch (params : DepositBatchParams) : Keeps I (depositBatch accounts params) fun _ => True := by
  refine keeps_any_validate.bind fun _ _ => ?_
  refine (keeps_forM (P := fun _ => True) fun tokenDeposits _ => ?_).weaken fun _ _ => trivial
  refine keeps_any_validate.bind fun _ _ => keeps_accountAt.bind fun account _ => ?_
  exact keeps_data_handleAdjustments hdata account _ true

theorem keeps_data_submitSettlementBatch (params : SettlementBatchParams) (raw : Bytes) :
    Keeps I (submitSettlementBatch rt accounts params raw) fun _ => True := by
  refine keeps_any_validate.bind fun _ _ => keeps_accountAt.bind fun programAccount _ => ?_
  refine keeps_any_read.bind fun currentHash _ => keeps_ensure.bind fun _ _ => keeps_ensure.bind fun _ _ => ?_
  refine (keeps_forM (P := fun _ => True) fun tokenSettlements _ => ?_).bind fun _ _ =>
    (keeps_data_write hdata _ _).bind fun _ _ => keeps_data_write hdata _ _
  refine keeps_any_validate.bind fun _ _ => keeps_accountAt.bind fun account _ => ?_
  refine (keeps_when fun _ => ?_).bind fun _ _ => ?_
  · exact keeps_any_read.bind fun last4 _ => keeps_data_handleAdjustments hdata account _ true
  · refine (keeps_data_handleAdjustments hdata account _ true).bind fun _ _ => ?_
    exact keeps_data_handleAdjustments hdata account _ false

theorem keeps_data_prepareSettlementBatch (params : SettlementBatchParams) (raw : Bytes) :
    Keeps I (prepareSettlementBatch rt accounts params raw) fun _ => True := by
  have hdecrements : ∀ (accountIndex : UInt8) (adjustments : List Adjustment),
      Keeps I (verifyDecrements accounts accountIndex adjustments) fun _ => True := by
    intro accountIndex adjustments
    refine keeps_accountAt.bind fun account _ => keeps_foldlM trivial fun total adjustment _ _ => ?_
    refine keeps_any_read.bind fun index _ => keeps_any_read.bind fun currentBalance _ => ?_
    refine (keeps_when fun _ => ?_).bind fun _ _ => keeps_pure trivial
    exact keeps_accountAt.bind fun programAccount _ => keeps_data_write hdata _ _
  refine keeps_any_validate.bind fun _ _ => keeps_accountAt.bind fun programAccount _ => ?_
  refine keeps_any_read.bind fun currentHash _ => keeps_ensure.bind fun _ _ => ?_
  refine (keeps_data_write hdata _ _).bind fun _ _ => ?_
  refine (keeps_foldlM (P := fun _ => True) trivial fun total tokenSettlements _ _ => ?_).bind fun total _ => ?_
  · refine keeps_any_validate.bind fun _ _ => (hdecrements _ _).bind fun _ _ => ?_
    exact (keeps_verifyIncrements _ _).bind fun _ _ => keeps_pure trivial
  · refine keeps_ensure.bind fun _ _ => keeps_any_read.bind fun eventsCount _ => keeps_when fun _ => ?_
    exact keeps_data_write hdata _ _

theorem keeps_data_rollbackSettlementBatch : Keeps I (rollbackSettlementBatch accounts) fun _ => True := by
  refine keeps_any_validate.bind fun _ _ => keeps_accountAt.bind fun programAccount _ => ?_
  exact keeps_data_write hdata _ _

/-! ### Withdrawals -/

theorem keeps_data_verifyWithdrawals (accountIndex : UInt8) (withdrawals : List Withdrawal) (networkType : NetworkType) :
    Keeps I (verifyWithdrawals rt accounts accountIndex withdrawals networkType) fun _ => True := by
  refine keeps_accountAt.bind fun account _ => ?_
  refine (keeps_forM (P := fun _ => True) fun withdrawal _ => ?_).weaken fun _ _ => trivial
  refine keeps_any_read.bind fun indexResult _ => keeps_any_validate.bind fun _ _ => ?_
  refine keeps_accountAt.bind fun feeAccount _ => keeps_accountAt.bind fun programAccount _ => ?_
  cases indexResult with
  | error programError => exact keeps_data_write hdata _ _
  | ok index =>
      refine keeps_any_read.bind fun currentBalance _ => keeps_any_read.bind fun feeIndex _ => ?_
      exact keeps_any_read.bind fun balanceInFeeToken _ => keeps_when fun _ => keeps_data_write hdata _ _

theorem keeps_data_handlePrepareWithdrawals (tokenWithdrawals : TokenWithdrawals) (feeAccountAddress : Utf8String)
    (networkType : NetworkType) (outputs : Outputs) :
    Keeps I (handlePrepareWithdrawals rt accounts tokenWithdrawals feeAccountAddress networkType outputs)
      fun _ => True := by
  refine keeps_accountAt.bind fun account _ => keeps_foldlM trivial fun outputs withdrawal _ _ => ?_
  refine (keeps_data_write hdata _ _).bind fun _ _ => ?_
  refine (keeps_when fun _ => ?_).bind fun _ _ => keeps_addWithdrawalOutput rt _ _ _ _
  refine keeps_accountAt.bind fun feeAccount _ => keeps_any_read.bind fun feeAddress _ => ?_
  refine keeps_ensure.bind fun _ _ => (keeps_data_write hdata _ _).bind fun _ _ => ?_
  exact keeps_when fun _ => keeps_data_write hdata _ _

theorem keeps_data_prepareWithdrawBatch (params : WithdrawBatchParams) (raw : Bytes) :
    Keeps I (prepareWithdrawBatch rt accounts params raw) fun _ => True := by
  refine keeps_any_validate.bind fun _ _ => keeps_any_validate.bind fun _ _ => ?_
  refine (keeps_hasRuneReceiver _).bind fun hasReceiver _ => ?_
  refine keeps_accountAt.bind fun programAccount _ => keeps_accountAt.bind fun withdrawAccount _ => ?_
  refine keeps_any_read.bind fun settlementHash _ => keeps_ensure.bind fun _ _ => ?_
  refine keeps_any_read.bind fun withdrawHash _ => keeps_ensure.bind fun _ _ => ?_
  split
  · exact keeps_fail
  · refine keeps_ensure.bind fun _ _ => keeps_ensure.bind fun _ _ => ?_
    refine (keeps_data_write hdata _ _).bind fun _ _ => keeps_any_read.bind fun networkType _ => ?_
    refine (keeps_forM (P := fun _ => True) fun tokenWithdrawals _ => ?_).bind fun _ _ => ?_
    · exact keeps_any_validate.bind fun _ _ => keeps_data_verifyWithdrawals rt hdata _ _ _
    · refine keeps_any_read.bind fun eventsCount _ => ?_
      split
      · exact keeps_pure trivial
      · refine (keeps_foldlM (P := fun _ => True) trivial fun outputs tokenWithdrawals _ _ => ?_).bind fun outputs _ => ?_
        · exact keeps_any_read.bind fun feeAccountAddress _ => keeps_data_handlePrepareWithdrawals rt hdata _ _ _ _
        · refine keeps_ensure.bind fun _ _ => keeps_ensure.bind fun _ _ => ?_
          exact keeps_data_write hdata _ _

theorem keeps_data_rollbackWithdrawBatch (params : RollbackWithdrawBatchParams) :
    Keeps I (rollbackWithdrawBatch accounts params) fun _ => True := by
  refine keeps_any_validate.bind fun _ _ => keeps_any_validate.bind fun _ _ => ?_
  refine keeps_accountAt.bind fun programAccount _ => keeps_accountAt.bind fun withdrawAccount _ => ?_
  refine (keeps_forM (P := fun _ => True) fun tokenWithdrawals _ => ?_).bind fun _ _ => keeps_data_write hdata _ _
  refine keeps_any_validate.bind fun _ _ => keeps_any_read.bind fun feeAccountAddress _ => ?_
  refine keeps_accountAt.bind fun account _ => ?_
  refine (keeps_forM (P := fun _ => True) fun withdrawal _ => ?_).weaken fun _ _ => trivial
  refine keeps_any_read.bind fun index _ => (keeps_data_write hdata _ _).bind fun _ _ => keeps_when fun _ => ?_
  refine keeps_any_validate.bind fun _ _ => keeps_accountAt.bind fun feeAccount _ => ?_
  refine keeps_any_read.bind fun feeAddress _ => keeps_ensure.bind fun _ _ => ?_
  refine (keeps_data_write hdata _ _).bind fun _ _ => ?_
  exact keeps_when fun _ => keeps_data_write hdata _ _

/-- What new data keeps, every instruction keeps that sets no utxo. -/
theorem keeps_data_runInstruction (programId : Pubkey) (raw : Bytes) {instruction : ProgramInstruction}
    (hnot : ¬instruction.SetsUtxo) : Keeps I (runInstruction rt programId accounts raw instruction) fun _ => True := by
  cases instruction with
  | initProgramState params => exact keeps_data_initProgramState rt hdata params
  | initTokenState params => exact keeps_data_initTokenState rt hdata params
  | initWalletBalances params => exact keeps_data_initWalletBalances rt hdata params
  | batchDeposit params => exact keeps_data_depositBatch hdata params
  | prepareBatchWithdraw params => exact keeps_data_prepareWithdrawBatch rt hdata params raw
  | prepareBatchSettlement params => exact keeps_data_prepareSettlementBatch rt hdata params raw
  | submitBatchSettlement params => exact keeps_data_submitSettlementBatch rt hdata params raw
  | rollbackBatchSettlement => exact keeps_data_rollbackSettlementBatch hdata
  | rollbackBatchWithdraw params => exact keeps_data_rollbackWithdrawBatch hdata params
  | submitBatchWithdraw params => exact absurd trivial hnot
  | updateWithdrawStateUtxo params => exact absurd trivial hnot
  | initRuneReceiverState => exact keeps_data_initRuneReceiverState hdata
  | setTokeRuneId params => exact keeps_data_setTokenRuneId rt hdata params

end Data

end Chainring.Arch

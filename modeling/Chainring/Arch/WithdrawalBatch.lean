import Chainring.Arch.WithdrawalPosting
import Chainring.Base.Pointwise

/-! A withdrawal batch that was prepared and set the hash: what its preparation has checked, posted and
built. -/

namespace Chainring.Arch

open Exec (Silent silent_forM posts_foldlM keeps_foldlM_forall₂)
open Ledger (Entry)

/-- What a batch posts by the accounts of its call. -/
def WithdrawBatchParams.entries (accounts : List AccountInfo) (params : WithdrawBatchParams) :
    List (Entry (Pubkey × Nat)) :=
  params.tokenWithdrawals.flatMap (TokenWithdrawals.entries accounts)

/-- From `m` to `m'` the batch was verified, its entries posted and its payouts built. -/
structure Prepares (rt : Runtime) (networkType : NetworkType) (accounts : List AccountInfo)
    (program : AccountInfo) (params : WithdrawBatchParams) (m m' : Memory) : Prop where
  network : ProgramState.getNetworkType (m program.key).data = .ok networkType
  verified : ∀ tokenWithdrawals ∈ params.tokenWithdrawals,
    WithdrawalsVerified rt networkType accounts m tokenWithdrawals
  paidOut : ∃ payouts, List.Forall₂ (PaidOut rt networkType accounts m program) params.tokenWithdrawals payouts
  posted : Ledger.run .wraps amountModulus (balances m) (params.entries accounts) = some (balances m')
  lengths : ∀ key, (m' key).data.length = (m key).data.length
  bytes : ∀ key, getType (m key).data = .ok .token →
    ∀ o, ¬AnyAmount o → (m' key).data[o]? = (m key).data[o]?

section Batch

variable {rt : Runtime} {networkType : NetworkType} {accounts : List AccountInfo} {program : AccountInfo}
  {m m' : Memory}

/-! ### Verified accounts in another memory -/

/-- What was verified of token accounts holds wherever these have the same data. -/
theorem WithdrawalsVerified.of_eq {tokenWithdrawals : TokenWithdrawals}
    (h : WithdrawalsVerified rt networkType accounts m tokenWithdrawals)
    (hdata : ∀ key, getType (m key).data = .ok .token → (m' key).data = (m key).data) :
    WithdrawalsVerified rt networkType accounts m' tokenWithdrawals := by
  obtain ⟨hvalidated, hverified⟩ := h
  refine ⟨hvalidated.of_eq hdata, fun key hkey withdrawal hmem => ?_⟩
  obtain ⟨hpayer, hfeeAccount, hfeePayer⟩ := hverified key hkey withdrawal hmem
  refine ⟨?_, hfeeAccount.of_eq hdata, fun feeKey hfeeKey => ?_⟩
  · rw [hdata key (hvalidated.type_of_keyAt hkey)]
    exact hpayer
  · rw [hdata feeKey (hfeeAccount.type_of_keyAt hfeeKey)]
    exact hfeePayer feeKey hfeeKey

/-- The accounts that a verified entry names are token accounts. -/
theorem WithdrawalsVerified.token {tokenWithdrawals : TokenWithdrawals}
    (h : WithdrawalsVerified rt networkType accounts m tokenWithdrawals) {key : Pubkey}
    (hkey : keyAt accounts tokenWithdrawals.accountIndex = some key) : getType (m key).data = .ok .token :=
  h.1.type_of_keyAt hkey

theorem WithdrawalVerified.feeToken {key : Pubkey} {withdrawal : Withdrawal}
    (h : WithdrawalVerified rt networkType accounts m key withdrawal) {feeKey : Pubkey}
    (hkey : keyAt accounts withdrawal.feeAccountIndex = some feeKey) :
    getType (m feeKey).data = .ok .token :=
  h.feeAccount.type_of_keyAt hkey

/-! ### The preparation -/

theorem ne_of_getType {key key' : Pubkey} {accountType accountType' : AccountType}
    (h : getType (m key).data = .ok accountType) (h' : getType (m key').data = .ok accountType')
    (hne : accountType ≠ accountType') : key ≠ key' := by
  rintro rfl
  exact hne (Except.ok.inj (h.symm.trans h'))

theorem getNetworkType_of_writes {data data' : Bytes} {put : Bytes → Except Fault Bytes}
    (hw : Writes put (286 ≤ ·)) (hput : put data = .ok data') :
    ProgramState.getNetworkType data' = ProgramState.getNetworkType data := by
  unfold ProgramState.getNetworkType
  rw [readArray_congr fun o ho => (hw _ _ hput).2 o fun hin => ?_]
  have hhigh : o < 221 + 1 := ho.2
  omega

theorem getFeeAccountAddress_of_writes {data data' : Bytes} {put : Bytes → Except Fault Bytes}
    (hw : Writes put (286 ≤ ·)) (hput : put data = .ok data') :
    ProgramState.getFeeAccountAddress data' = ProgramState.getFeeAccountAddress data := by
  apply getFeeAccountAddress_congr
  intro o ho
  apply (hw _ _ hput).2
  intro hin
  have hhigh : o < 129 := ho
  omega

theorem not_anyAmount_of_lt {o : Nat} (h : o < 165) : ¬AnyAmount o := by
  rintro ⟨index, hamount⟩
  have hge := hamount.ge
  omega

/-- The event count lies between the amounts of two wallets. -/
theorem not_anyAmount_eventsCount {o : Nat} (h : Within 286 288 o) : ¬AnyAmount o := by
  rintro ⟨index, hlow, hhigh⟩
  have hlow' : 73 + index * 100 + 92 ≤ o := hlow
  have hhigh' : o < 73 + index * 100 + 92 + 8 := hhigh
  have hge := h.1
  have hlt := h.2
  omega

theorem writes_clearEvents_from : Writes ProgramState.clearEvents (286 ≤ ·) :=
  writes_clearEvents.mono fun _ ho => ho.1

/-- The memory of a preparation once the program account's events are cleared. -/
structure Cleared (program : AccountInfo) (m m' : Memory) : Prop where
  write : (program.write ProgramState.clearEvents).run m = .ok () m'
  program : getType (m program.key).data = .ok .program

namespace Cleared

variable (h : Cleared program m m')

include h

theorem setData : ∃ data, ProgramState.clearEvents (m program.key).data = .ok data ∧
    m' = m.setData program.key data :=
  write_eq_ok.mp h.write

/-- Only the program account has changed, so the token accounts have not. -/
theorem token_data {key : Pubkey} (htoken : getType (m key).data = .ok .token) : (m' key).data = (m key).data := by
  obtain ⟨data, hdata, rfl⟩ := h.setData
  rw [Memory.setData_of_ne _ _ (ne_of_getType htoken h.program (by decide))]

theorem token_data_back {key : Pubkey} (htoken : getType (m' key).data = .ok .token) :
    (m key).data = (m' key).data := by
  obtain ⟨data, hdata, rfl⟩ := h.setData
  have htype : getType (m.setData program.key data program.key).data = .ok .program := by
    rw [Memory.setData_self, getType_congr fun o ho => (writes_clearEvents_from _ _ hdata).2 o (by omega)]
    exact h.program
  rw [Memory.setData_of_ne _ _ (ne_of_getType htoken htype (by decide))]

theorem networkType_eq : ProgramState.getNetworkType (m' program.key).data =
    ProgramState.getNetworkType (m program.key).data := by
  obtain ⟨data, hdata, rfl⟩ := h.setData
  rw [Memory.setData_self, getNetworkType_of_writes writes_clearEvents_from hdata]

theorem feeAccountAddress_eq : ProgramState.getFeeAccountAddress (m' program.key).data =
    ProgramState.getFeeAccountAddress (m program.key).data := by
  obtain ⟨data, hdata, rfl⟩ := h.setData
  rw [Memory.setData_self, getFeeAccountAddress_of_writes writes_clearEvents_from hdata]

theorem eventsBounded : EventsBounded program.key m' := by
  obtain ⟨data, hdata, rfl⟩ := h.setData
  refine ⟨0, Nat.zero_le _, ?_⟩
  rw [Memory.setData_self]
  exact getEventsCount_clearEvents hdata

theorem balances_eq : balances m' = balances m := by
  obtain ⟨data, hdata, rfl⟩ := h.setData
  exact balances_setData_of_disjoint writes_clearEvents (fun o ho => not_anyAmount_eventsCount ho) hdata

theorem length (key : Pubkey) : (m' key).data.length = (m key).data.length := by
  obtain ⟨data, hdata, rfl⟩ := h.setData
  exact setData_length writes_clearEvents_from hdata key

end Cleared

theorem PaidOut.of_cleared {cleared : Memory} {tokenWithdrawals : TokenWithdrawals} {payouts : List Payout}
    (h : PaidOut rt networkType accounts cleared program tokenWithdrawals payouts)
    (hcleared : Cleared program m cleared)
    (hverified : WithdrawalsVerified rt networkType accounts m tokenWithdrawals) :
    PaidOut rt networkType accounts m program tokenWithdrawals payouts := by
  obtain ⟨key, feeAccountAddress, hkey, haddress, hpaid⟩ := h
  rw [hcleared.feeAccountAddress_eq] at haddress
  refine ⟨key, feeAccountAddress, hkey, haddress, ?_⟩
  refine ((List.forall₂_and_left _ _).mpr ⟨hverified.2 key hkey, hpaid⟩).imp ?_
  rintro withdrawal payout ⟨hwithdrawal, hpaid⟩
  refine ⟨?_, fun hpos feeKey hfeeKey => ?_⟩
  · rw [← hcleared.token_data (hverified.token hkey)]
    exact hpaid.payout
  · rw [← hcleared.token_data (hwithdrawal.feeToken hfeeKey)]
    exact hpaid.fee hpos feeKey hfeeKey

/-- A verification that reports nothing leaves the memory alone and has verified the whole batch. -/
theorem verified_quiet {tokenWithdrawals : List TokenWithdrawals} {cleared verified : Memory}
    (hprogram : accounts[0]? = some program) (hcleared : Cleared program m cleared)
    (hverify : (tokenWithdrawals.forM fun tokenWithdrawals => do
      validateAccount accounts tokenWithdrawals.accountIndex false true (some .token) (some 0)
      verifyWithdrawals rt accounts tokenWithdrawals.accountIndex tokenWithdrawals.withdrawals
        networkType).run cleared = .ok () verified)
    (hcount : ProgramState.getEventsCount (verified program.key).data = .ok 0) :
    verified = cleared ∧
      ∀ entry ∈ tokenWithdrawals, WithdrawalsVerified rt networkType accounts m entry := by
  obtain ⟨-, hquiet⟩ := silent_forM (fun tokenWithdrawals _ =>
    silent_verifyTokenWithdrawals rt networkType hprogram tokenWithdrawals)
    _ _ _ hcleared.eventsBounded hverify
  obtain ⟨rfl, hverified⟩ := hquiet hcount
  exact ⟨rfl, fun entry hmem => (hverified entry hmem).of_eq fun key htoken => hcleared.token_data_back htoken⟩

/-- A preparation that sets the hash has reported nothing, so it verifies the whole batch in the memory in
which it then builds the payouts. -/
theorem prepareWithdrawBatch_quiet {params : WithdrawBatchParams} {raw : Bytes} {withdraw : AccountInfo}
    {u : Unit} (hload : Loaded accounts m)
    (h : (prepareWithdrawBatch rt accounts params raw).run m = .ok u m')
    (hprogram : accounts[0]? = some program) (hwithdraw : accounts[1]? = some withdraw)
    (hset : WithdrawState.getHash (m' withdraw.key).data ≠ .ok emptyHash) :
    ∃ networkType cleared outputs paid, Cleared program m cleared ∧
      getType (m withdraw.key).data = .ok .withdraw ∧
      ProgramState.getNetworkType (m program.key).data = .ok networkType ∧
      (∀ tokenWithdrawals ∈ params.tokenWithdrawals,
        WithdrawalsVerified rt networkType accounts m tokenWithdrawals) ∧
      (params.tokenWithdrawals.forM fun tokenWithdrawals => do
        validateAccount accounts tokenWithdrawals.accountIndex false true (some .token) (some 0)
        verifyWithdrawals rt accounts tokenWithdrawals.accountIndex tokenWithdrawals.withdrawals
          networkType).run cleared = .ok () cleared ∧
      (params.tokenWithdrawals.foldlM (fun outputs tokenWithdrawals => do
        let feeAccountAddress ← program.read ProgramState.getFeeAccountAddress
        handlePrepareWithdrawals rt accounts tokenWithdrawals feeAccountAddress networkType outputs)
        { txOuts := [], edicts := [] }).run cleared = .ok outputs paid ∧
      (withdraw.write (WithdrawState.setHash (rt.digest raw))).run paid = .ok () m' := by
  obtain ⟨program', withdraw', hasReceiver, tx, networkType, cleared, verified, hvalidated, hvalidated',
    hfirst, hsecond, -, hempty, -, hnone, hclear, hnetwork, hverify, count, hcount, hcase⟩ :=
    prepareWithdrawBatch_cases h
  obtain rfl : program' = program := Option.some.inj (hfirst.symm.trans hprogram)
  obtain rfl : withdraw' = withdraw := Option.some.inj (hsecond.symm.trans hwithdraw)
  have htouches := verifiedWithdrawals_touches hload hvalidated hfirst hclear hverify
  rcases hcase with ⟨-, rfl⟩ | ⟨rfl, outputs, paid, hpay, -, -, hwrite⟩
  · rw [verifiedWithdrawals_hash hvalidated' hsecond htouches] at hset
    exact absurd hempty hset
  obtain ⟨first, hled⟩ := led_of_validated hvalidated
  obtain rfl : first = program' := Option.some.inj (hled.listed.symm.trans hfirst)
  have hwithdrawType := hvalidated'.type_eq hsecond
  have hcleared : Cleared first m cleared := ⟨hclear, hled.program⟩
  obtain ⟨rfl, hverified⟩ := verified_quiet hfirst hcleared hverify hcount
  rw [List.eq_nil_of_length_eq_zero hnone] at hpay
  refine ⟨networkType, verified, outputs, paid, hcleared, hwithdrawType, ?_, hverified, hverify, hpay, hwrite⟩
  rw [← hnetwork, hcleared.networkType_eq]

theorem foldl_pay_flatten (payouts : List (List Payout)) (outputs : Outputs) :
    payouts.foldl (fun outputs payouts => payouts.foldl Outputs.pay outputs) outputs =
      payouts.flatten.foldl Outputs.pay outputs :=
  List.foldl_flatten.symm

/-- The loop of a preparation posts the entries of the batch, changes amounts only and builds the payouts. -/
theorem preparingLoop_eq_ok {params : WithdrawBatchParams} {outputs : Outputs}
    (hrun : (params.tokenWithdrawals.foldlM (fun outputs tokenWithdrawals => do
      let feeAccountAddress ← program.read ProgramState.getFeeAccountAddress
      handlePrepareWithdrawals rt accounts tokenWithdrawals feeAccountAddress networkType outputs)
      { txOuts := [], edicts := [] }).run m = .ok outputs m') :
    AmountsOnly m m' ∧
      Ledger.run .wraps amountModulus (balances m) (params.entries accounts) = some (balances m') ∧
      ∃ payouts, List.Forall₂ (PaidOut rt networkType accounts m program) params.tokenWithdrawals payouts ∧
        outputs = payouts.flatten.foldl Outputs.pay { txOuts := [], edicts := [] } := by
  obtain ⟨-, hamounts, hposted⟩ := posts_foldlM (fun outputs tokenWithdrawals _ =>
    posts_tokenWithdrawals rt networkType program tokenWithdrawals outputs)
    _ _ _ (AmountsOnly.refl _) hrun
  obtain ⟨-, payouts, hpaid, hbuilt⟩ := Exec.Keeps.of_ok (keeps_foldlM_forall₂ fun outputs tokenWithdrawals _ =>
    builds_tokenWithdrawals rt networkType program tokenWithdrawals outputs)
    (AmountsOnly.refl _) hrun
  rw [foldl_pay_flatten] at hbuilt
  exact ⟨hamounts, hposted, payouts, hpaid, hbuilt⟩

/-- A preparation that sets the hash has verified and posted the whole batch. -/
theorem prepareWithdrawBatch_prepares {params : WithdrawBatchParams} {raw : Bytes} {withdraw : AccountInfo}
    {u : Unit} (hload : Loaded accounts m)
    (h : (prepareWithdrawBatch rt accounts params raw).run m = .ok u m')
    (hprogram : accounts[0]? = some program) (hwithdraw : accounts[1]? = some withdraw)
    (hset : WithdrawState.getHash (m' withdraw.key).data ≠ .ok emptyHash) :
    ∃ networkType, Prepares rt networkType accounts program params m m' := by
  obtain ⟨networkType, cleared, outputs, paid, hcleared, hwithdrawType, hnetwork, hverified, -, hpay, hwrite⟩ :=
    prepareWithdrawBatch_quiet hload h hprogram hwithdraw hset
  obtain ⟨hamounts, hposted, payouts, hpaid, -⟩ := preparingLoop_eq_ok hpay
  obtain ⟨hashData, hhash, rfl⟩ := write_eq_ok.mp hwrite
  refine ⟨networkType, hnetwork, hverified, ⟨payouts, ?_⟩, ?_, fun key => ?_, fun key htoken o ho => ?_⟩
  · refine ((List.forall₂_and_left _ _).mpr ⟨hverified, hpaid⟩).imp ?_
    rintro tokenWithdrawals paid ⟨hwithdrawals, hpaid⟩
    exact hpaid.of_cleared hcleared hwithdrawals
  · rw [balances_setData_of_disjoint (writes_setHash _) (fun o ho => not_anyAmount_of_lt ?_) hhash]
    · rw [hcleared.balances_eq] at hposted
      exact hposted
    · have hhigh := ho.2
      omega
  · rw [setData_length (writes_setHash _) hhash, hamounts.length, hcleared.length]
  · rw [Memory.setData_of_ne _ _ (ne_of_getType htoken hwithdrawType (by decide)), hamounts.bytes key o ho,
      hcleared.token_data htoken]

theorem Prepares.of_eq {params : WithdrawBatchParams} {m'' : Memory}
    (h : Prepares rt networkType accounts program params m m')
    (hdata : ∀ key, (m'' key).data = (m' key).data) :
    Prepares rt networkType accounts program params m m'' where
  network := h.network
  verified := h.verified
  paidOut := h.paidOut
  posted := by
    have hbalances : balances m'' = balances m' := by
      funext ⟨key, index⟩
      rw [balances, balances, hdata]
    rw [hbalances]
    exact h.posted
  lengths := fun key => by rw [hdata, h.lengths]
  bytes := fun key htoken o ho => by rw [hdata, h.bytes key htoken o ho]

end Batch

/-! ### Calls -/

/-- The call that runs a withdrawal instruction on the raw data of its parameters. -/
def withdrawCall (instrType : UInt8) (programId : Pubkey) (accounts : List AccountInfo)
    (rawParamsData : Bytes) : Call where
  programId := programId
  accounts := accounts
  instructionData := instrType :: rawParamsData

section Calls

variable {raw : Bytes} (programId : Pubkey) (accounts : List AccountInfo)

theorem withdrawCall_prepare {params : WithdrawBatchParams}
    (hparams : decodeFromSlice WithdrawBatchParams.decode raw = .ok params) :
    (withdrawCall 4 programId accounts raw).instruction = .ok (.prepareBatchWithdraw params) := by
  rw [Call.instruction, withdrawCall, decode_cons]
  show decodeFromSlice (ProgramInstruction.prepareBatchWithdraw <$> WithdrawBatchParams.decode) _ = _
  rw [decodeFromSlice_map, hparams]
  rfl

theorem withdrawCall_rollback {params : RollbackWithdrawBatchParams}
    (hparams : decodeFromSlice RollbackWithdrawBatchParams.decode raw = .ok params) :
    (withdrawCall 8 programId accounts raw).instruction = .ok (.rollbackBatchWithdraw params) := by
  rw [Call.instruction, withdrawCall, decode_cons]
  show decodeFromSlice (ProgramInstruction.rollbackBatchWithdraw <$> RollbackWithdrawBatchParams.decode) _ = _
  rw [decodeFromSlice_map, hparams]
  rfl

theorem withdrawCall_submit {params : WithdrawBatchParams}
    (hparams : decodeFromSlice WithdrawBatchParams.decode raw = .ok params) :
    (withdrawCall 9 programId accounts raw).instruction = .ok (.submitBatchWithdraw params) := by
  rw [Call.instruction, withdrawCall, decode_cons]
  show decodeFromSlice (ProgramInstruction.submitBatchWithdraw <$> WithdrawBatchParams.decode) _ = _
  rw [decodeFromSlice_map, hparams]
  rfl

end Calls

/-- A call that prepares withdrawals and leaves a hash has prepared the whole batch. -/
theorem execute_prepares {rt : Runtime} {before prepared : World} {programId : Pubkey}
    {accounts : List AccountInfo} {program withdraw : AccountInfo} {raw : Bytes} {params : WithdrawBatchParams}
    (hparams : decodeFromSlice WithdrawBatchParams.decode raw = .ok params)
    (hprogram : accounts[0]? = some program) (hwithdraw : accounts[1]? = some withdraw)
    (hprepare : execute rt before (withdrawCall 4 programId accounts raw) = some prepared)
    (hset : withdrawHash prepared withdraw.key ≠ .ok emptyHash) :
    Validated accounts 0 true true (some .program) (some 1) (load before) ∧
      Validated accounts 1 false true (some .withdraw) (some 0) (load before) ∧
      withdrawHash prepared withdraw.key = .ok (rt.digest raw) ∧
      ∃ networkType, Prepares rt networkType accounts program params (load before) (load prepared) := by
  obtain ⟨instruction, m, hinstruction, hrun, -, hdata⟩ := execute_cases hprepare
  obtain rfl := Except.ok.inj (hinstruction.symm.trans (withdrawCall_prepare programId accounts hparams))
  have hload := load_loaded accounts before
  rw [withdrawHash, hdata] at hset ⊢
  obtain ⟨program', withdraw', -, -, -, -, -, hvalidated, hvalidated', -⟩ := prepareWithdrawBatch_cases hrun
  obtain ⟨-, hempty | hdigest⟩ := prepareWithdrawBatch_hash hload hrun hwithdraw
  · exact absurd hempty hset
  obtain ⟨networkType, hprepares⟩ := prepareWithdrawBatch_prepares hload hrun hprogram hwithdraw hset
  exact ⟨hvalidated, hvalidated', hdigest, networkType, hprepares.of_eq hdata⟩

/-! ### Batches as they are sent -/

/-- A withdrawal of an amount by a wallet, its fee paid by a wallet of the fee account. -/
def withdrawalBytes (index : Nat) (address : Bytes) (amount : Nat) (feeAccountIndex : UInt8)
    (feeIndex : Nat) (feeAddress : Bytes) (feeAmount : Nat) : Bytes :=
  adjustmentBytes index address amount ++ [feeAccountIndex] ++ adjustmentBytes feeIndex feeAddress feeAmount

def tokenWithdrawalsBytes (accountIndex : UInt8) (withdrawals : List Bytes) : Bytes :=
  [accountIndex] ++ batchBytes withdrawals

/-- A transaction of one input and no output, as it is sent and as it is read. -/
def inputTxBytes : Bytes :=
  [2, 0, 0, 0, 1] ++ List.replicate 32 0x11 ++ zeros 5 ++ [0xff, 0xff, 0xff, 0xff] ++ zeros 5

def inputTx : Transaction where
  version := 2
  lockTime := 0
  input := [{ txid := sampleKey 0x11, vout := 0, scriptSig := [], sequence := 0xffffffff, witness := [] }]
  output := []

/-- A batch that brings this transaction, asks for no change and spends a bitcoin input. -/
def withdrawBatchBytes (tokenWithdrawals : List Bytes) : Bytes :=
  Bytes.ofWord 2 inputTxBytes.length ++ inputTxBytes ++ zeros 8 ++ batchBytes tokenWithdrawals ++
    batchBytes [[0]]

/-- The libraries on the inputs of such runs. -/
def withdrawRuntime (digests : List (Bytes × Hash)) : Runtime :=
  { sampleRuntime digests with
    deserializeTransaction := fun bytes => if bytes = inputTxBytes then some inputTx else none }

/-- A program, its withdraw account and one token with the balances of the fee wallet and two others. -/
def withdrawWorld (feeBalance first second : Nat) : World := sampleWorld
  [(sampleProgram, programData emptyHash emptyHash), (sampleWithdraw, withdrawData emptyHash),
    (sampleKey 0x31, tokenData [0x31] feeBalance first second)]

def withdrawAccounts (isWritable : Bool) : List AccountInfo :=
  [⟨sampleProgram, true, isWritable⟩, ⟨sampleWithdraw, false, true⟩, ⟨sampleKey 0x31, false, true⟩]

end Chainring.Arch

import Chainring.Arch.TokenHistory
import Chainring.Arch.WithdrawalBatch

/-! What a withdrawal batch pays out, built once when the balances are debited and again when the batch is
submitted, from the token id, the addresses and the network as they then are. -/

namespace Chainring.Arch

open CheckedWord (bind_eq_ok)
open Exec (Keeps keeps_foldlM_forall₂)

/-! ### Payouts by the rune id -/

/-- The rune that the token id of an account names, if it names one. -/
def runeOf (rt : Runtime) (data : Bytes) : Except Fault (Option RuneId) :=
  (TokenState.getTokenId data).map rt.runeIdFromStr

def Withdrawal.payoutFor (withdrawal : Withdrawal) (rune : Option RuneId) (scriptBuf : Bytes) : Payout :=
  match rune with
  | some runeId =>
      { txOut := { value := dustThreshold, scriptPubkey := scriptBuf }, edict := some (runeId, withdrawal.amount) }
  | none =>
      { txOut := { value := withdrawal.amount - withdrawal.feeAmount, scriptPubkey := scriptBuf }, edict := none }

section Payouts

variable {rt : Runtime} {networkType : NetworkType} {withdrawal : Withdrawal} {data data' : Bytes}

theorem payoutOf_of_tokenId {tokenId : Utf8String} (h : TokenState.getTokenId data = .ok tokenId) :
    payoutOf rt networkType withdrawal data = (do
      let address ← Balance.getWalletAddress withdrawal.addressIndex.index.toNat data
      let scriptBuf ← getBitcoinAddress rt address networkType
      pure (withdrawal.payoutFor (rt.runeIdFromStr tokenId) scriptBuf)) := by
  unfold payoutOf TokenState.isRuneAccount TokenState.getRuneId TokenState.isRuneId
  cases hrune : rt.runeIdFromStr tokenId <;>
    simp [h, hrune, Except.mapError, bind, Except.bind, pure, Except.pure, Withdrawal.payoutFor]

/-- A payout is known by the rune of the account and the script of the wallet. -/
theorem payoutOf_eq_ok {payout : Payout} : payoutOf rt networkType withdrawal data = .ok payout ↔
    ∃ rune, runeOf rt data = .ok rune ∧ ∃ address,
      Balance.getWalletAddress withdrawal.addressIndex.index.toNat data = .ok address ∧ ∃ scriptBuf,
      getBitcoinAddress rt address networkType = .ok scriptBuf ∧
      withdrawal.payoutFor rune scriptBuf = payout := by
  cases hid : TokenState.getTokenId data with
  | error fault =>
      simp [payoutOf, runeOf, TokenState.isRuneAccount, hid, Except.mapError, Except.map, bind, Except.bind]
  | ok tokenId =>
      have hrune : ∀ rune, runeOf rt data = .ok rune ↔ rt.runeIdFromStr tokenId = rune := by
        intro rune
        rw [runeOf, hid, Except.map, Except.ok.injEq]
      simp only [payoutOf_of_tokenId hid, hrune, exists_eq_left', bind_eq_ok, pure, Except.pure, Except.ok.injEq]

/-- Two payouts of one wallet agree exactly when the accounts name the same rune. -/
theorem payoutOf_eq_iff {payout payout' : Payout} (hpayout : payoutOf rt networkType withdrawal data = .ok payout)
    (hpayout' : payoutOf rt networkType withdrawal data' = .ok payout')
    (haddress : ∀ address, Balance.getWalletAddress withdrawal.addressIndex.index.toNat data = .ok address →
      Balance.getWalletAddress withdrawal.addressIndex.index.toNat data' = .ok address) :
    payout' = payout ↔ runeOf rt data' = runeOf rt data := by
  obtain ⟨rune, hrune, address, hwallet, scriptBuf, hscript, rfl⟩ := payoutOf_eq_ok.mp hpayout
  obtain ⟨rune', hrune', address', hwallet', scriptBuf', hscript', rfl⟩ := payoutOf_eq_ok.mp hpayout'
  obtain rfl : address' = address := Except.ok.inj (hwallet'.symm.trans (haddress address hwallet))
  obtain rfl : scriptBuf' = scriptBuf := Except.ok.inj (hscript'.symm.trans hscript)
  rw [hrune, hrune', Except.ok.injEq]
  constructor
  · intro hequal
    cases rune <;> cases rune' <;> simp_all [Withdrawal.payoutFor]
  · rintro rfl
    rfl

end Payouts

/-! ### The outputs of payouts in order -/

/-- The edict of a payout whose output is at the position. -/
def Payout.edictAt (payout : Payout) (output : Nat) : Option Edict :=
  payout.edict.map fun edict => { id := edict.1, amount := edict.2.toNat, output := UInt32.ofNat output }

theorem Outputs.pay_edicts (outputs : Outputs) (payout : Payout) :
    (outputs.pay payout).edicts = outputs.edicts ++ (payout.edictAt outputs.txOuts.length).toList := by
  rw [pay, Payout.edictAt]
  cases payout.edict with
  | none => rfl
  | some edict => rfl

theorem Outputs.foldl_pay_txOuts (payouts : List Payout) (outputs : Outputs) :
    (payouts.foldl pay outputs).txOuts = outputs.txOuts ++ payouts.map Payout.txOut := by
  induction payouts generalizing outputs with
  | nil => exact (List.append_nil _).symm
  | cons payout payouts ih =>
      rw [List.foldl_cons, ih, List.map_cons, pay, List.append_assoc]
      rfl

/-- The edicts of payouts whose outputs are at positions from `start` on. -/
def edictsAt (payouts : List Payout) (start : Nat) : List Edict :=
  (payouts.zipIdx start).flatMap fun entry => (entry.1.edictAt entry.2).toList

theorem edictsAt_cons (payout : Payout) (payouts : List Payout) (start : Nat) :
    edictsAt (payout :: payouts) start = (payout.edictAt start).toList ++ edictsAt payouts (start + 1) := by
  rw [edictsAt, List.zipIdx_cons, List.flatMap_cons]
  rfl

theorem edictsAt_append (payouts payouts' : List Payout) (start : Nat) :
    edictsAt (payouts ++ payouts') start = edictsAt payouts start ++ edictsAt payouts' (start + payouts.length) := by
  rw [edictsAt, List.zipIdx_append, List.flatMap_append]
  rfl

theorem edictsAt_eq_nil {payouts : List Payout} (h : ∀ payout ∈ payouts, payout.edict = none) (start : Nat) :
    edictsAt payouts start = [] := by
  rw [edictsAt, List.flatMap_eq_nil_iff]
  rintro ⟨payout, output⟩ hmem
  rw [Payout.edictAt, h payout (List.fst_mem_of_mem_zipIdx hmem)]
  rfl

/-- Every payout that has an edict adds it, at the position of its output. -/
theorem Outputs.foldl_pay_edicts (payouts : List Payout) (outputs : Outputs) :
    (payouts.foldl pay outputs).edicts = outputs.edicts ++ edictsAt payouts outputs.txOuts.length := by
  induction payouts generalizing outputs with
  | nil => exact (List.append_nil _).symm
  | cons payout payouts ih =>
      have hlength : (outputs.pay payout).txOuts.length = outputs.txOuts.length + 1 := by
        rw [pay, List.length_append, List.length_singleton]
      rw [List.foldl_cons, ih, hlength, pay_edicts, edictsAt_cons, List.append_assoc]

theorem Outputs.foldl_pay_eq (payouts : List Payout) (outputs : Outputs) :
    payouts.foldl pay outputs =
      { txOuts := outputs.txOuts ++ payouts.map Payout.txOut
        edicts := outputs.edicts ++ edictsAt payouts outputs.txOuts.length } := by
  rw [← foldl_pay_txOuts, ← foldl_pay_edicts]

/-! ### Outputs after others -/

/-- The same edict when this many outputs come first. -/
def Edict.shift (count : Nat) (edict : Edict) : Edict :=
  { edict with output := edict.output + UInt32.ofNat count }

/-- The outputs placed after others. -/
def Outputs.after (transition : List TxOut) (outputs : Outputs) : Outputs where
  txOuts := transition ++ outputs.txOuts
  edicts := outputs.edicts.map (Edict.shift transition.length)

theorem Outputs.pay_after (transition : List TxOut) (outputs : Outputs) (payout : Payout) :
    (outputs.after transition).pay payout = (outputs.pay payout).after transition := by
  cases hedict : payout.edict with
  | none => simp [Outputs.pay, Outputs.after, hedict]
  | some edict =>
      simp [Outputs.pay, Outputs.after, Edict.shift, hedict, UInt32.add_comm]

/-- Payouts built after other outputs are the payouts, placed after these. -/
theorem Outputs.foldl_pay_after (transition : List TxOut) (payouts : List Payout) (outputs : Outputs) :
    payouts.foldl Outputs.pay (outputs.after transition) = (payouts.foldl Outputs.pay outputs).after transition := by
  induction payouts generalizing outputs with
  | nil => rfl
  | cons payout payouts ih => rw [List.foldl_cons, List.foldl_cons, Outputs.pay_after, ih]

/-! ### The two times a batch is built -/

/-- What a preparation builds: its steps, without the checks that come before them. -/
def prepareOutputs (rt : Runtime) (accounts : List AccountInfo) (params : WithdrawBatchParams) :
    Prog Outputs := do
  let programAccount ← accountAt accounts 0
  programAccount.write ProgramState.clearEvents
  let networkType ← programAccount.read ProgramState.getNetworkType
  params.tokenWithdrawals.forM fun tokenWithdrawals => do
    validateAccount accounts tokenWithdrawals.accountIndex false true (some .token) (some 0)
    verifyWithdrawals rt accounts tokenWithdrawals.accountIndex tokenWithdrawals.withdrawals networkType
  params.tokenWithdrawals.foldlM (fun outputs tokenWithdrawals => do
      let feeAccountAddress ← programAccount.read ProgramState.getFeeAccountAddress
      handlePrepareWithdrawals rt accounts tokenWithdrawals feeAccountAddress networkType outputs)
    { txOuts := [], edicts := [] }

/-- What a submission builds after the outputs of the state transition, which it gives first. -/
def submitOutputs (rt : Runtime) (accounts : List AccountInfo) (params : WithdrawBatchParams) :
    Prog (List TxOut × Outputs) := do
  let programAccount ← accountAt accounts 0
  let networkType ← programAccount.read ProgramState.getNetworkType
  let tx ← getStateTransitionTx rt accounts
  let outputs ← params.tokenWithdrawals.foldlM (fun outputs tokenWithdrawals => do
      validateAccount accounts tokenWithdrawals.accountIndex false false (some .token) (some 0)
      handleSubmitWithdrawals rt accounts tokenWithdrawals networkType outputs)
    { txOuts := tx.output, edicts := [] }
  pure (tx.output, outputs)

section Building

variable {rt : Runtime} {networkType : NetworkType} {accounts : List AccountInfo} {program : AccountInfo}
  {m m' : Memory} {params : WithdrawBatchParams} {raw : Bytes} {u : Unit}

/-- A preparation that sets the hash goes through the steps that build its outputs, which are the payouts of
its withdrawals. -/
theorem prepareWithdrawBatch_builds (h : (prepareWithdrawBatch rt accounts params raw).run m = .ok u m')
    (hload : Loaded accounts m) (hprogram : accounts[0]? = some program) {withdraw : AccountInfo}
    (hwithdraw : accounts[1]? = some withdraw)
    (hset : WithdrawState.getHash (m' withdraw.key).data ≠ .ok emptyHash) :
    ∃ networkType paid payouts, ProgramState.getNetworkType (m program.key).data = .ok networkType ∧
      (prepareOutputs rt accounts params).run m =
        .ok (payouts.flatten.foldl Outputs.pay { txOuts := [], edicts := [] }) paid ∧
      (∀ tokenWithdrawals ∈ params.tokenWithdrawals,
        WithdrawalsVerified rt networkType accounts m tokenWithdrawals) ∧
      List.Forall₂ (PaidOut rt networkType accounts m program) params.tokenWithdrawals payouts := by
  obtain ⟨networkType, cleared, outputs, paid, hcleared, -, hnetwork, hverified, hverify, hpay, -⟩ :=
    prepareWithdrawBatch_quiet hload h hprogram hwithdraw hset
  obtain ⟨-, -, payouts, hpaid, rfl⟩ := preparingLoop_eq_ok hpay
  refine ⟨networkType, paid, payouts, hnetwork, ?_, hverified, ?_⟩
  · refine accountAt_bind_eq_ok.mpr ⟨program, hprogram, ?_⟩
    refine Exec.bind_eq_ok.mpr ⟨(), cleared, hcleared.write, ?_⟩
    refine read_bind_eq_ok.mpr ⟨networkType, hcleared.networkType_eq.trans hnetwork, ?_⟩
    exact Exec.bind_eq_ok.mpr ⟨(), cleared, hverify, hpay⟩
  · refine ((List.forall₂_and_left _ _).mpr ⟨hverified, hpaid⟩).imp ?_
    rintro tokenWithdrawals paid ⟨hwithdrawals, hpaid⟩
    exact hpaid.of_cleared hcleared hwithdrawals

/-- A submission finds the wallet of a withdrawal and the fee account, and builds the payout. -/
structure Repaid (rt : Runtime) (networkType : NetworkType) (accounts : List AccountInfo) (m : Memory)
    (key : Pubkey) (withdrawal : Withdrawal) (payout : Payout) : Prop where
  wallet : Wallet withdrawal.addressIndex (m key).data
  feeAccount : Validated accounts withdrawal.feeAccountIndex false false (some .token) (some 0) m
  payout : payoutOf rt networkType withdrawal (m key).data = .ok payout

/-- The payouts of a submission for the withdrawals from one account. -/
def RepaidOut (rt : Runtime) (networkType : NetworkType) (accounts : List AccountInfo) (m : Memory)
    (tokenWithdrawals : TokenWithdrawals) (payouts : List Payout) : Prop :=
  Validated accounts tokenWithdrawals.accountIndex false false (some .token) (some 0) m ∧
    ∃ key, keyAt accounts tokenWithdrawals.accountIndex = some key ∧
      List.Forall₂ (Repaid rt networkType accounts m key) tokenWithdrawals.withdrawals payouts

theorem builds_handleSubmitWithdrawals (tokenWithdrawals : TokenWithdrawals) (outputs : Outputs) :
    Keeps (· = m)
      (do
        validateAccount accounts tokenWithdrawals.accountIndex false false (some .token) (some 0)
        handleSubmitWithdrawals rt accounts tokenWithdrawals networkType outputs)
      fun outputs' => ∃ payouts, RepaidOut rt networkType accounts m tokenWithdrawals payouts ∧
        outputs' = payouts.foldl Outputs.pay outputs := by
  have hvalidate : ∀ index, Keeps (· = m)
      (validateAccount accounts index false false (some .token) (some 0))
      fun _ => Validated accounts index false false (some .token) (some 0) m := by
    intro index
    apply keeps_validate
    rintro m rfl hvalidated
    exact hvalidated
  refine (hvalidate _).bind fun _ hvalidated => keeps_accountAt.bind fun account haccount => ?_
  have hbody : ∀ (outputs : Outputs) (withdrawal : Withdrawal), Keeps (· = m)
      (do
        validateAccount accounts withdrawal.feeAccountIndex false false (some .token) (some 0)
        let _ ← account.read (getValidatedIndex withdrawal.addressIndex)
        addWithdrawalOutput rt account withdrawal networkType outputs)
      fun outputs' => ∃ payout, Repaid rt networkType accounts m account.key withdrawal payout ∧
        outputs' = outputs.pay payout := by
    intro outputs withdrawal
    have hwallet : Keeps (· = m) (account.read (getValidatedIndex withdrawal.addressIndex))
        fun _ => Wallet withdrawal.addressIndex (m account.key).data := by
      apply keeps_read
      rintro m rfl index hindex
      exact (getValidatedIndex_eq_ok.mp hindex).1
    refine (hvalidate _).bind fun _ hfee => hwallet.bind fun _ hwallet => ?_
    apply (keeps_addWithdrawalOutput rt account withdrawal networkType outputs).strengthen
    rintro m outputs' m' rfl hok
    obtain ⟨-, payout, hpayout, hpay⟩ := addWithdrawalOutput_eq_ok hok
    exact ⟨payout, ⟨hwallet, hfee, hpayout⟩, hpay⟩
  refine (keeps_foldlM_forall₂ fun outputs withdrawal _ => hbody outputs withdrawal).weaken ?_
  rintro outputs' ⟨payouts, hpayouts, hpay⟩
  exact ⟨payouts, ⟨hvalidated, account.key, keyAt_of_listed haccount, hpayouts⟩, hpay⟩

/-- A submission goes through the steps that build its outputs, which are the payouts of its withdrawals
after the outputs of the state transition, and signs them closed. -/
theorem submitWithdrawBatch_builds {programId : Pubkey}
    (h : (submitWithdrawBatch rt programId accounts params raw).run m = .ok u m')
    (hprogram : accounts[0]? = some program) :
    ∃ networkType tx payouts withdraw signed, ProgramState.getNetworkType (m program.key).data = .ok networkType ∧
      (submitOutputs rt accounts params).run m =
        .ok (tx.output, payouts.flatten.foldl Outputs.pay { txOuts := tx.output, edicts := [] }) m ∧
      List.Forall₂ (RepaidOut rt networkType accounts m) params.tokenWithdrawals payouts ∧
      (getStateTransitionTx rt accounts).run m = .ok tx m ∧ accounts[1]? = some withdraw ∧
      SignsClosed rt accounts programId params withdraw tx
        (payouts.flatten.foldl Outputs.pay { txOuts := tx.output, edicts := [] }) m signed := by
  obtain ⟨program', withdraw, networkType, tx, outputs, signed, -, -, hfirst, hsecond, -, hnetwork, htransition,
    hbuild, hsigns, -⟩ := submitWithdrawBatch_cases h
  obtain rfl : program' = program := Option.some.inj (hfirst.symm.trans hprogram)
  have hbuilds : Keeps (· = m) (params.tokenWithdrawals.foldlM (fun outputs tokenWithdrawals => do
      validateAccount accounts tokenWithdrawals.accountIndex false false (some .token) (some 0)
      handleSubmitWithdrawals rt accounts tokenWithdrawals networkType outputs)
      { txOuts := tx.output, edicts := [] }) fun outputs =>
      ∃ payouts, List.Forall₂ (RepaidOut rt networkType accounts m) params.tokenWithdrawals payouts ∧
        outputs = payouts.foldl (fun outputs payouts => payouts.foldl Outputs.pay outputs)
          { txOuts := tx.output, edicts := [] } :=
    keeps_foldlM_forall₂ fun outputs tokenWithdrawals _ =>
      builds_handleSubmitWithdrawals tokenWithdrawals outputs
  obtain ⟨-, payouts, hpaid, rfl⟩ := hbuilds.of_ok rfl hbuild
  rw [foldl_pay_flatten] at hbuild hsigns
  refine ⟨networkType, tx, payouts, withdraw, signed, hnetwork, ?_, hpaid, htransition, hsecond, hsigns⟩
  refine accountAt_bind_eq_ok.mpr ⟨program', hprogram, ?_⟩
  refine read_bind_eq_ok.mpr ⟨networkType, hnetwork, ?_⟩
  refine Exec.bind_eq_ok.mpr ⟨tx, m, htransition, ?_⟩
  exact Exec.bind_eq_ok.mpr ⟨_, m, hbuild, rfl⟩

end Building

/-! ### A preparation and a later submission -/

/-- Call `n` of the run prepares the batch and sets the hash, and the later call `k` submits it. -/
structure PreparedThenSubmitted (rt : Runtime) (start : World) (calls : List Call) (n k : Nat)
    (accounts accounts' : List AccountInfo) (raw : Bytes) (params : WithdrawBatchParams) : Prop where
  decoded : decodeFromSlice WithdrawBatchParams.decode raw = .ok params
  order : n < k
  prepares : ∃ programId, Returns rt start calls n (withdrawCall 4 programId accounts raw)
  sets : ∀ withdraw, accounts[1]? = some withdraw →
    withdrawHash (worldAt rt start calls (n + 1)) withdraw.key ≠ .ok emptyHash
  submits : ∃ programId, Returns rt start calls k (withdrawCall 9 programId accounts' raw)

/-- The submission appends, after the outputs of the state transition, what the preparation built. -/
def Repays (rt : Runtime) (before after : World) (accounts accounts' : List AccountInfo)
    (params : WithdrawBatchParams) : Prop :=
  ∃ outputs paid transition, (prepareOutputs rt accounts params).run (load before) = .ok outputs paid ∧
    (submitOutputs rt accounts' params).run (load after) =
      .ok (transition, outputs.after transition) (load after)

section Runs

variable {rt : Runtime} {start : World} {calls : List Call} {n k : Nat} {accounts accounts' : List AccountInfo}
  {raw : Bytes} {params : WithdrawBatchParams}

theorem PreparedThenSubmitted.prepared
    (h : PreparedThenSubmitted rt start calls n k accounts accounts' raw params) :
    ∃ program networkType paid payouts, accounts[0]? = some program ∧
      getType (worldAt rt start calls n program.key).data = .ok .program ∧
      ProgramState.getNetworkType (worldAt rt start calls n program.key).data = .ok networkType ∧
      (prepareOutputs rt accounts params).run (load (worldAt rt start calls n)) =
        .ok (payouts.flatten.foldl Outputs.pay { txOuts := [], edicts := [] }) paid ∧
      (∀ tokenWithdrawals ∈ params.tokenWithdrawals,
        WithdrawalsVerified rt networkType accounts (load (worldAt rt start calls n)) tokenWithdrawals) ∧
      List.Forall₂ (PaidOut rt networkType accounts (load (worldAt rt start calls n)) program)
        params.tokenWithdrawals payouts := by
  obtain ⟨programId, hprepares⟩ := h.prepares
  obtain ⟨instruction, m, hinstruction, hrun, -, hdata⟩ := execute_cases hprepares.execute
  obtain rfl := Except.ok.inj (hinstruction.symm.trans (withdrawCall_prepare programId accounts h.decoded))
  obtain ⟨program, withdraw, -, -, -, -, -, hvalidated, -, hfirst, hsecond, -⟩ := prepareWithdrawBatch_cases hrun
  have hset := h.sets withdraw hsecond
  rw [withdrawHash, hdata] at hset
  obtain ⟨networkType, paid, payouts, hnetwork, hbuilds, hverified, hpaid⟩ :=
    prepareWithdrawBatch_builds hrun (load_loaded accounts _) hfirst hsecond hset
  have htype := hvalidated.type_eq hfirst
  exact ⟨program, networkType, paid, payouts, hfirst, htype, hnetwork, hbuilds, hverified, hpaid⟩

theorem PreparedThenSubmitted.submitted
    (h : PreparedThenSubmitted rt start calls n k accounts accounts' raw params) :
    ∃ program networkType transition payouts, accounts'[0]? = some program ∧
      ProgramState.getNetworkType (worldAt rt start calls k program.key).data = .ok networkType ∧
      (submitOutputs rt accounts' params).run (load (worldAt rt start calls k)) =
        .ok (transition, payouts.flatten.foldl Outputs.pay { txOuts := transition, edicts := [] })
          (load (worldAt rt start calls k)) ∧
      List.Forall₂ (RepaidOut rt networkType accounts' (load (worldAt rt start calls k)))
        params.tokenWithdrawals payouts := by
  obtain ⟨programId, hsubmits⟩ := h.submits
  obtain ⟨instruction, m, hinstruction, hrun, -, hdata⟩ := execute_cases hsubmits.execute
  obtain rfl := Except.ok.inj (hinstruction.symm.trans (withdrawCall_submit programId accounts' h.decoded))
  obtain ⟨program, -, -, -, -, -, -, -, hfirst, -⟩ := submitWithdrawBatch_cases hrun
  obtain ⟨networkType, tx, payouts, -, -, hnetwork, hbuilds, hpaid, -⟩ := submitWithdrawBatch_builds hrun hfirst
  exact ⟨program, networkType, tx.output, payouts, hfirst, hnetwork, hbuilds, hpaid⟩

theorem PreparedThenSubmitted.le_length
    (h : PreparedThenSubmitted rt start calls n k accounts accounts' raw params) : k ≤ calls.length := by
  obtain ⟨programId, hsubmits⟩ := h.submits
  exact hsubmits.lt.le

theorem worldAt_networkType (hnk : n ≤ k) (hk : k ≤ calls.length) {program : Pubkey}
    (hprogram : getType (worldAt rt start calls n program).data = .ok .program) :
    ProgramState.getNetworkType (worldAt rt start calls k program).data =
      ProgramState.getNetworkType (worldAt rt start calls n program).data := by
  unfold ProgramState.getNetworkType
  rw [readArray_congr fun o ho => worldAt_program_byte hnk hk hprogram ?_]
  have hhigh : o < 221 + 1 := ho.2
  show o < 222
  omega

/-- The token account of an entry belongs to the same program account when it is submitted, so that both
times are on the same network. -/
theorem networkType_of_same {program program' : AccountInfo} {networkType networkType' : NetworkType}
    (hnk : n ≤ k) (hk : k ≤ calls.length)
    (hprogram : getType (worldAt rt start calls n program.key).data = .ok .program)
    (hnetwork : ProgramState.getNetworkType (worldAt rt start calls n program.key).data = .ok networkType)
    (hnetwork' : ProgramState.getNetworkType (worldAt rt start calls k program'.key).data = .ok networkType')
    {token : Pubkey} (hbound : Bound .token program.key (worldAt rt start calls n token).data)
    (hbound' : Bound .token program'.key (worldAt rt start calls k token).data) :
    networkType' = networkType := by
  have hkept := worldAt_kept hnk hk hbound.1
  have hkey : program'.key = program.key :=
    Except.ok.inj (hbound'.2.symm.trans (hkept.bound hbound).2)
  rw [hkey, worldAt_networkType hnk hk hprogram] at hnetwork'
  exact Except.ok.inj (hnetwork'.symm.trans hnetwork)

/-- A batch that is submitted on the token accounts that it was prepared on pays what was built when the
balances were debited, as long as their token ids name the runes that they named then. -/
theorem submitted_repays (h : PreparedThenSubmitted rt start calls n k accounts accounts' raw params)
    (hsame : ∀ tokenWithdrawals ∈ params.tokenWithdrawals,
      keyAt accounts' tokenWithdrawals.accountIndex = keyAt accounts tokenWithdrawals.accountIndex)
    (hrunes : ∀ tokenWithdrawals ∈ params.tokenWithdrawals, ∀ key,
      keyAt accounts tokenWithdrawals.accountIndex = some key →
      runeOf rt (worldAt rt start calls k key).data = runeOf rt (worldAt rt start calls n key).data) :
    Repays rt (worldAt rt start calls n) (worldAt rt start calls k) accounts accounts' params := by
  obtain ⟨program, networkType, paid, payouts, hfirst, hprogram, hnetwork, hprepare, hverified, hpaid⟩ :=
    h.prepared
  obtain ⟨program', networkType', transition, payouts', hfirst', hnetwork', hsubmit, hrepaid⟩ := h.submitted
  have hnk := h.order.le
  have hk := h.le_length
  have hpayouts : payouts' = payouts := by
    refine forall₂_unique ?_ hpaid hrepaid
    rintro tokenWithdrawals hmem paid repaid ⟨key, _, hkey, -, hwithdrawn⟩ ⟨hvalidated', key', hkey', hresubmitted⟩
    obtain rfl : key' = key := Option.some.inj (hkey'.symm.trans ((hsame tokenWithdrawals hmem).trans hkey))
    obtain ⟨⟨account, haccount, -, -, related, hrelated, hbound⟩, hwithdrawals⟩ := hverified tokenWithdrawals hmem
    obtain ⟨account', haccount', -, -, related', hrelated', hbound'⟩ := hvalidated'
    obtain rfl : account.key = key' := Option.some.inj ((keyAt_of_listed haccount).symm.trans hkey)
    obtain haccounts : account'.key = account.key :=
      Option.some.inj ((keyAt_of_listed haccount').symm.trans hkey')
    obtain rfl : related = program := Option.some.inj (hrelated.symm.trans hfirst)
    obtain rfl : related' = program' := Option.some.inj (hrelated'.symm.trans hfirst')
    rw [haccounts] at hbound'
    obtain rfl : networkType' = networkType :=
      networkType_of_same hnk hk hprogram hnetwork hnetwork' hbound hbound'
    refine forall₂_unique ?_ hwithdrawn hresubmitted
    intro withdrawal hwithdrawal payout payout' hpayout hpayout'
    apply (payoutOf_eq_iff hpayout.payout hpayout'.payout _).mpr (hrunes tokenWithdrawals hmem account.key hkey)
    have hinUse := (hwithdrawals account.key hkey withdrawal hwithdrawal).payer.wallet.wallet.inUse
    intro address haddress
    exact (worldAt_kept hnk hk hbound.1).walletAddress hinUse haddress
  refine ⟨_, paid, transition, hprepare, ?_⟩
  rw [hsubmit, hpayouts, ← Outputs.foldl_pay_after]
  simp [Outputs.after]

end Runs

/-! ### A small submission

A withdrawal of 5000 from a token that names no rune, the transaction that pays it, and the one that pays it
once the token is renamed to a rune. -/

def transactionBytes (tx : Transaction) : Bytes :=
  Bytes.ofWord 4 tx.version ++ [UInt8.ofNat tx.input.length] ++
    tx.input.flatMap (fun input => input.txid.1.reverse ++ Bytes.ofWord 4 input.vout.toNat ++
      [UInt8.ofNat input.scriptSig.length] ++ input.scriptSig ++ Bytes.ofWord 4 input.sequence.toNat) ++
    [UInt8.ofNat tx.output.length] ++
    tx.output.flatMap (fun output => Bytes.ofWord 8 output.value.toNat ++
      [UInt8.ofNat output.scriptPubkey.length] ++ output.scriptPubkey) ++
    Bytes.ofWord 4 tx.lockTime.toNat

def spend (txid : FixedBytes 32) : TxIn :=
  { txid := txid, vout := 0, scriptSig := [], sequence := 0xffffffff, witness := [] }

/-- The transaction whose output the withdraw account holds. -/
def stateTx : Transaction where
  version := 2
  lockTime := 0
  input := [spend (sampleKey 0x22)]
  output := [{ value := 10000, scriptPubkey := [0x51, 0x20] ++ sampleWithdraw.1 }]

def stateTxid : FixedBytes 32 :=
  ⟨[0xcf, 0x42, 0xff, 0xb7, 0xde, 0x5b, 0x77, 0xee, 0xaf, 0x24, 0xc9, 0x00, 0xa5, 0xd6, 0xd4, 0x9c,
    0x15, 0x68, 0x25, 0xbe, 0x1e, 0xb3, 0x10, 0xde, 0xa6, 0x07, 0x07, 0x8a, 0x43, 0xe8, 0x57, 0xd5], rfl⟩

def sampleReceiver : Pubkey := sampleKey 0x40

def sampleRune : RuneId where
  block := 840000
  tx := 3

/-- The text "840000:3". -/
def sampleRuneText : Bytes := [0x38, 0x34, 0x30, 0x30, 0x30, 0x30, 0x3a, 0x33]

def spendingTx (paid : List TxOut) : Transaction :=
  { stateTx with input := [spend stateTxid, spend (sampleKey 0x11)], output := stateTx.output ++ paid }

def firstScript : Bytes := [0x00, 0x14] ++ List.replicate 20 0xa1

def plainTx : Transaction := spendingTx [{ value := 4950, scriptPubkey := firstScript }]

def plainTxid : FixedBytes 32 :=
  ⟨[0x85, 0xbb, 0xc8, 0x2b, 0xf5, 0xac, 0x84, 0xb5, 0x96, 0x1c, 0x1d, 0x38, 0x5f, 0x56, 0xc8, 0x8a,
    0x3a, 0x9c, 0x5b, 0x81, 0x24, 0xe1, 0x8c, 0xf8, 0x03, 0xce, 0xa6, 0x74, 0xb5, 0xdc, 0xb9, 0x82], rfl⟩

def runestone : Bytes :=
  [0x6a, 0x5d, 0x0c, 0x00, 0xc0, 0xa2, 0x33, 0x03, 0x88, 0x27, 0x01, 0x00, 0x00, 0x00, 0x02]

def runeTx : Transaction := spendingTx
  [{ value := dustThreshold, scriptPubkey := firstScript },
    { value := dustThreshold, scriptPubkey := [0x51, 0x20] ++ sampleReceiver.1 },
    { value := 0, scriptPubkey := runestone }]

def runeTxid : FixedBytes 32 :=
  ⟨[0x52, 0x94, 0x78, 0xfd, 0x2f, 0x5d, 0x6d, 0x66, 0xfe, 0x4e, 0x67, 0x28, 0x24, 0x5c, 0x28, 0x3b,
    0xa8, 0xe8, 0x12, 0xfa, 0x11, 0x9c, 0x90, 0x1a, 0x3a, 0x41, 0x0e, 0x58, 0x6a, 0xdc, 0x90, 0x3b], rfl⟩

def sampleTxids : List (Transaction × FixedBytes 32) :=
  [(stateTx, stateTxid), (plainTx, plainTxid), (runeTx, runeTxid)]

/-- The libraries on the transactions and the rune of such runs. -/
def submitRuntime (digests : List (Bytes × Hash)) : Runtime :=
  { sampleRuntime digests with
    runeIdFromStr := fun text => if text.bytes = sampleRuneText then some sampleRune else none
    deserializeTransaction := fun bytes =>
      (inputTx :: sampleTxids.map Prod.fst).find? (transactionBytes · = bytes)
    serializeTransaction := transactionBytes
    computeTxid := fun tx => ((sampleTxids.find? (·.1 = tx)).map Prod.snd).getD (sampleKey 0)
    getBitcoinTx := fun txid => (sampleTxids.find? (·.2 = txid)).map fun entry => transactionBytes entry.1
    encipher := fun edicts =>
      if edicts = [⟨sampleRune, 5000, 1⟩, ⟨sampleRune, 0, 2⟩] then runestone else [] }

/-- A program with its withdraw account and rune receiver, and tokens with the given ids. -/
def submitWorld (tokens : List (Pubkey × Bytes)) : World := fun key =>
  if key = sampleWithdraw then
    { stored (withdrawData emptyHash) with utxo := UtxoMeta.of stateTxid 0 }
  else sampleWorld ([(sampleProgram, programData emptyHash emptyHash),
    (sampleReceiver, [4, 0, 0, 0, 0] ++ sampleProgram.1)] ++
    tokens.map fun token => (token.1, tokenData token.2 0 8000 0)) key

/-- The accounts of a preparation, then those of a submission. -/
def preparingAccounts (token : Pubkey) : List AccountInfo :=
  [⟨sampleProgram, true, true⟩, ⟨sampleWithdraw, false, true⟩, ⟨sampleReceiver, false, false⟩,
    ⟨token, false, true⟩]

def submittingAccounts (token : Pubkey) : List AccountInfo :=
  [⟨sampleProgram, true, false⟩, ⟨sampleWithdraw, true, true⟩, ⟨sampleReceiver, true, false⟩,
    ⟨token, false, false⟩]

def smallBatch : Bytes :=
  withdrawBatchBytes [tokenWithdrawalsBytes 3 [withdrawalBytes 1 firstAddress 5000 3 1 firstAddress 50]]

def smallBatchDigest : Hash :=
  ⟨[0xdc, 0x57, 0x05, 0xe5, 0xc0, 0x41, 0x04, 0xc5, 0x56, 0x97, 0x69, 0x8d, 0x66, 0x47, 0x37, 0x83,
    0xa0, 0x0a, 0x97, 0xb9, 0x79, 0x48, 0x5a, 0x7f, 0xf5, 0xa9, 0x4d, 0x6c, 0xe7, 0x0b, 0x24, 0xf8], rfl⟩

def smallBatchParams : WithdrawBatchParams where
  txHex := inputTxBytes
  changeAmount := 0
  tokenWithdrawals := [
    { accountIndex := 3
      withdrawals := [
        { addressIndex := { index := 1, last4 := ⟨firstAddress.drop 40, firstAddress_last4⟩ }
          amount := 5000
          feeAccountIndex := 3
          feeAddressIndex := { index := 1, last4 := ⟨firstAddress.drop 40, firstAddress_last4⟩ }
          feeAmount := 50 }] }]
  inputUtxoTypes := [.bitcoin]

def smallRuntime : Runtime := submitRuntime [(smallBatch, smallBatchDigest)]

def smallWorld : World := submitWorld [(sampleKey 0x31, [0x31])]

/-- The same world with a token of the rune. -/
def runeWorld : World := submitWorld [(sampleKey 0x31, sampleRuneText)]

def smallPrepare : Call :=
  withdrawCall 4 (sampleKey 0xee) (preparingAccounts (sampleKey 0x31)) smallBatch

def smallSubmit : Call :=
  withdrawCall 9 (sampleKey 0xee) (submittingAccounts (sampleKey 0x31)) smallBatch

/-- The token is given the id of the rune. -/
def renameCall : Call where
  programId := sampleKey 0xee
  accounts := [⟨sampleProgram, true, false⟩, ⟨sampleKey 0x31, false, true⟩]
  instructionData := [12] ++ Bytes.ofWord 2 sampleRuneText.length ++ sampleRuneText

/-- The batch is prepared and submitted, and the token names no rune at either time. -/
theorem small_runs :
    (execute smallRuntime (worldAt smallRuntime smallWorld [smallPrepare, smallSubmit] 0) smallPrepare).isSome ∧
    withdrawHash (worldAt smallRuntime smallWorld [smallPrepare, smallSubmit] 1) sampleWithdraw ≠ .ok emptyHash ∧
    (execute smallRuntime (worldAt smallRuntime smallWorld [smallPrepare, smallSubmit] 1) smallSubmit).isSome ∧
    runeOf smallRuntime (worldAt smallRuntime smallWorld [smallPrepare, smallSubmit] 1 (sampleKey 0x31)).data =
      runeOf smallRuntime (worldAt smallRuntime smallWorld [smallPrepare, smallSubmit] 0 (sampleKey 0x31)).data := by
  decide +kernel

theorem small_submitted :
    PreparedThenSubmitted smallRuntime smallWorld [smallPrepare, smallSubmit] 0 1
      (preparingAccounts (sampleKey 0x31)) (submittingAccounts (sampleKey 0x31)) smallBatch smallBatchParams where
  decoded := by decide +kernel
  order := by decide
  prepares := ⟨sampleKey 0xee, rfl, small_runs.1⟩
  sets := by
    intro withdraw hwithdraw
    obtain rfl := Option.some.inj hwithdraw
    exact small_runs.2.1
  submits := ⟨sampleKey 0xee, rfl, small_runs.2.2.1⟩

/-- With the new name in between both calls still go through, and only the second builds an edict. -/
theorem renamed_runs :
    (execute smallRuntime (worldAt smallRuntime smallWorld [smallPrepare, renameCall, smallSubmit] 0)
      smallPrepare).isSome ∧
    withdrawHash (worldAt smallRuntime smallWorld [smallPrepare, renameCall, smallSubmit] 1) sampleWithdraw ≠
      .ok emptyHash ∧
    (execute smallRuntime (worldAt smallRuntime smallWorld [smallPrepare, renameCall, smallSubmit] 2)
      smallSubmit).isSome ∧
    ((prepareOutputs smallRuntime (preparingAccounts (sampleKey 0x31)) smallBatchParams).run
      (load (worldAt smallRuntime smallWorld [smallPrepare, renameCall, smallSubmit] 0))).value.map
        Outputs.edicts = some [] ∧
    ((submitOutputs smallRuntime (submittingAccounts (sampleKey 0x31)) smallBatchParams).run
      (load (worldAt smallRuntime smallWorld [smallPrepare, renameCall, smallSubmit] 2))).value.map
        (fun built => built.2.edicts.length) = some 1 := by
  decide +kernel

theorem renamed_submitted :
    PreparedThenSubmitted smallRuntime smallWorld [smallPrepare, renameCall, smallSubmit] 0 2
      (preparingAccounts (sampleKey 0x31)) (submittingAccounts (sampleKey 0x31)) smallBatch smallBatchParams where
  decoded := small_submitted.decoded
  order := by decide
  prepares := ⟨sampleKey 0xee, rfl, renamed_runs.1⟩
  sets := by
    intro withdraw hwithdraw
    obtain rfl := Option.some.inj hwithdraw
    exact renamed_runs.2.1
  submits := ⟨sampleKey 0xee, rfl, renamed_runs.2.2.1⟩

theorem small_same : ∀ tokenWithdrawals ∈ smallBatchParams.tokenWithdrawals,
    keyAt (submittingAccounts (sampleKey 0x31)) tokenWithdrawals.accountIndex =
      keyAt (preparingAccounts (sampleKey 0x31)) tokenWithdrawals.accountIndex := by
  decide

theorem small_repaid : Repays smallRuntime (worldAt smallRuntime smallWorld [smallPrepare, smallSubmit] 0)
    (worldAt smallRuntime smallWorld [smallPrepare, smallSubmit] 1)
    (preparingAccounts (sampleKey 0x31)) (submittingAccounts (sampleKey 0x31)) smallBatchParams := by
  apply submitted_repays small_submitted small_same
  intro tokenWithdrawals hmem key hkey
  obtain rfl := List.mem_singleton.mp hmem
  obtain rfl : sampleKey 0x31 = key := Option.some.inj hkey
  exact small_runs.2.2.2

/-- A token that is renamed to a rune in between is paid with an edict, where none was built. -/
theorem renamed_not_repaid :
    ¬∀ (rt : Runtime) (start : World) (calls : List Call) (n k : Nat) (accounts accounts' : List AccountInfo)
      (raw : Bytes) (params : WithdrawBatchParams),
      PreparedThenSubmitted rt start calls n k accounts accounts' raw params →
      (∀ tokenWithdrawals ∈ params.tokenWithdrawals,
        keyAt accounts' tokenWithdrawals.accountIndex = keyAt accounts tokenWithdrawals.accountIndex) →
      Repays rt (worldAt rt start calls n) (worldAt rt start calls k) accounts accounts' params := by
  intro hrepays
  obtain ⟨outputs, paid, transition, hprepare, hsubmit⟩ :=
    hrepays _ _ _ _ _ _ _ _ _ renamed_submitted small_same
  obtain ⟨-, -, -, hbuilt, hrebuilt⟩ := renamed_runs
  rw [hprepare] at hbuilt
  rw [hsubmit] at hrebuilt
  have hnone : outputs.edicts = [] := Option.some.inj hbuilt
  have hone : (outputs.edicts.map (Edict.shift transition.length)).length = 1 := Option.some.inj hrebuilt
  rw [hnone] at hone
  cases hone

end Chainring.Arch

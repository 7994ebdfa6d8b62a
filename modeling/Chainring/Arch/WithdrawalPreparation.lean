import Chainring.Arch.WithdrawalPayouts
import Chainring.Arch.WithdrawalReports
import Chainring.Arch.WithdrawalRollback

/-! When a preparation of withdrawals reports what it cannot do or does all of it. Every withdrawal is checked
against the balances as they are, one by one, and only then are they debited one after the other. -/

namespace Chainring.Arch

open CheckedWord (bind_eq_ok)
open Exec (Logs Posts Admits run_bind_of_ok posts_foldlM admits_foldlM keeps_foldlM_forall₂)
open Ledger (Entry)

/-! ### What a preparation is given and what it leaves -/

/-- The fees of these withdrawals go to accounts whose wallet at 0 has the fee address. -/
def TokenWithdrawals.FeesCollected (accounts : List AccountInfo) (m : Memory) (feeAccountAddress : Utf8String)
    (tokenWithdrawals : TokenWithdrawals) : Prop :=
  ∀ withdrawal ∈ tokenWithdrawals.withdrawals, 0 < withdrawal.feeAmount → ∀ feeKey,
    keyAt accounts withdrawal.feeAccountIndex = some feeKey →
      0 < numBalances (m feeKey).data ∧ Balance.getWalletAddress 0 (m feeKey).data = .ok feeAccountAddress

/-- The accounts, the state and the transaction of a preparation are valid, whatever its wallets and amounts. -/
structure PreparationValid (rt : Runtime) (w : World) (accounts : List AccountInfo) (program withdraw : AccountInfo)
    (networkType : NetworkType) (feeAccountAddress : Utf8String) (rawParamsData : Bytes)
    (params : WithdrawBatchParams) : Prop where
  decoded : decodeFromSlice WithdrawBatchParams.decode rawParamsData = .ok params
  programListed : accounts[0]? = some program
  withdrawListed : accounts[1]? = some withdraw
  programValid : Validated accounts 0 true true (some .program) (some 1) (load w)
  withdrawValid : Validated accounts 1 false true (some .withdraw) (some 0) (load w)
  receiver : ∃ third accountType, accounts[2]? = some third ∧ getType (w third.key).data = .ok accountType ∧
    (accountType = .runeReceiver → Validated accounts 2 false false (some .runeReceiver) (some 0) (load w)) ∧
    (accountType ≠ .runeReceiver → ∀ tokenWithdrawals ∈ params.tokenWithdrawals, ∀ key,
      keyAt accounts tokenWithdrawals.accountIndex = some key → TokenState.isRuneAccount rt (w key).data = .ok false)
  state : StateWellFormed (fun key => (w key).data) program.key
  network : ProgramState.getNetworkType (w program.key).data = .ok networkType
  feeAddress : ProgramState.getFeeAccountAddress (w program.key).data = .ok feeAccountAddress
  noSettlement : ProgramState.getSettlementHash (w program.key).data = .ok emptyHash
  noWithdrawal : withdrawHash w withdraw.key = .ok emptyHash
  transaction : ∃ tx, rt.deserializeTransaction params.txHex = some tx ∧ tx.output = [] ∧
    tx.input.length = params.inputUtxoTypes.length
  tokens : ∀ tokenWithdrawals ∈ params.tokenWithdrawals, TokensValid accounts (load w) tokenWithdrawals
  fees : ∀ tokenWithdrawals ∈ params.tokenWithdrawals,
    tokenWithdrawals.FeesCollected accounts (load w) feeAccountAddress
  count : 1 ≤ params.withdrawalCount ∧ params.withdrawalCount ≤ 100

/-- All withdrawals are debited, nothing is reported and the hash is set. -/
structure WithdrawalsApplied (w w' : World) (accounts : List AccountInfo) (program withdraw : Pubkey)
    (params : WithdrawBatchParams) (digest : Hash) : Prop where
  log : storedEvents (w' program).data = .ok []
  posted : Ledger.run .wraps amountModulus (balances (load w)) (params.entries accounts) = some (balances (load w'))
  hash : withdrawHash w' withdraw = .ok digest

/-- A failed withdrawal is reported, and nothing but the program account changes. -/
structure WithdrawalsReported (w w' : World) (program withdraw : Pubkey) : Prop where
  log : ∃ events, storedEvents (w' program).data = .ok events ∧ ∃ event ∈ events, event.isFailedWithdrawal = true
  others : ∀ key, key ≠ program → (w' key).data = (w key).data
  hash : withdrawHash w' withdraw = withdrawHash w withdraw

/-- The call returns, and it has applied all withdrawals or reported some and applied none. -/
def AppliesOrReports (rt : Runtime) (w : World) (programId : Pubkey) (accounts : List AccountInfo)
    (program withdraw : Pubkey) (rawParamsData : Bytes) (params : WithdrawBatchParams) : Prop :=
  ∃ w', execute rt w (withdrawCall 4 programId accounts rawParamsData) = some w' ∧
    (WithdrawalsApplied w w' accounts program withdraw params (rt.digest rawParamsData) ∨
      WithdrawalsReported w w' program withdraw)

/-! ### The steps after the checks -/

/-- The withdrawals debited one after the other, with what they build. -/
def applyWithdrawals (rt : Runtime) (accounts : List AccountInfo) (program : AccountInfo) (networkType : NetworkType)
    (params : WithdrawBatchParams) : Prog Outputs :=
  params.tokenWithdrawals.foldlM (fun outputs tokenWithdrawals => do
      let feeAccountAddress ← program.read ProgramState.getFeeAccountAddress
      handlePrepareWithdrawals rt accounts tokenWithdrawals feeAccountAddress networkType outputs)
    { txOuts := [], edicts := [] }

/-- What follows the verification. -/
def finishWithdrawals (rt : Runtime) (accounts : List AccountInfo) (program withdraw : AccountInfo)
    (hasReceiver : Bool) (networkType : NetworkType) (params : WithdrawBatchParams) (digest : Hash) : Prog Unit := do
  let eventsCount ← program.read ProgramState.getEventsCount
  if eventsCount ≠ 0 then pure ()
  else do
    let outputs ← applyWithdrawals rt accounts program networkType params
    Exec.ensure (outputs.edicts = [] ∨ hasReceiver = true) (.custom errorNoRuneReceiver)
    Exec.ensure (outputs.txOuts.length ≠ 0) (.custom errorNoTxOutputs)
    withdraw.write (WithdrawState.setHash digest)

section Steps

variable {rt : Runtime} {w : World} {accounts : List AccountInfo} {program withdraw : AccountInfo}
  {networkType : NetworkType} {feeAccountAddress : Utf8String} {rawParamsData : Bytes} {params : WithdrawBatchParams}

theorem hasRuneReceiver_run {isSigner : Bool} {third : AccountInfo} {accountType : AccountType} {m : Memory}
    (hthird : accounts[2]? = some third) (htype : getType (m third.key).data = .ok accountType)
    (hvalid : accountType = .runeReceiver →
      Validated accounts 2 isSigner false (some .runeReceiver) (some 0) m) :
    (hasRuneReceiver accounts isSigner).run m = .ok (decide (accountType = .runeReceiver)) m := by
  rw [hasRuneReceiver, run_bind_of_ok (accountAt_eq_ok.mpr ⟨hthird, rfl⟩), run_bind_of_ok (read_eq_ok.mpr ⟨htype, rfl⟩)]
  by_cases hreceiver : accountType = .runeReceiver
  · rw [if_pos hreceiver, run_bind_of_ok ((validateAccount_eq_ok (u := ())).mpr ⟨hvalid hreceiver, rfl⟩),
      decide_eq_true hreceiver]
    rfl
  · rw [if_neg hreceiver, decide_eq_false hreceiver]
    rfl

theorem PreparationValid.programType
    (h : PreparationValid rt w accounts program withdraw networkType feeAccountAddress rawParamsData params) :
    getType (w program.key).data = .ok .program :=
  h.programValid.type_eq h.programListed

theorem PreparationValid.withdrawType
    (h : PreparationValid rt w accounts program withdraw networkType feeAccountAddress rawParamsData params) :
    getType (w withdraw.key).data = .ok .withdraw :=
  h.withdrawValid.type_eq h.withdrawListed

theorem PreparationValid.program_ne
    (h : PreparationValid rt w accounts program withdraw networkType feeAccountAddress rawParamsData params) :
    program.key ≠ withdraw.key := by
  intro heq
  have htype := h.programType
  rw [heq, h.withdrawType] at htype
  cases htype

/-- Past its checks and the clearing of the events, a preparation verifies its withdrawals from an empty log. -/
theorem PreparationValid.run_eq
    (h : PreparationValid rt w accounts program withdraw networkType feeAccountAddress rawParamsData params) :
    ∃ cleared hasReceiver, Logged (load w) program.key [] cleared ∧ Cleared program (load w) cleared ∧
      (hasReceiver = false → ∀ tokenWithdrawals ∈ params.tokenWithdrawals, ∀ key,
        keyAt accounts tokenWithdrawals.accountIndex = some key →
          TokenState.isRuneAccount rt (w key).data = .ok false) ∧
      (prepareWithdrawBatch rt accounts params rawParamsData).run (load w) =
        (params.tokenWithdrawals.forM (verifyTokenWithdrawals rt accounts networkType) >>= fun _ =>
          finishWithdrawals rt accounts program withdraw hasReceiver networkType params
            (rt.digest rawParamsData)).run cleared := by
  obtain ⟨third, accountType, hthird, htype, hreceiver, hplain⟩ := h.receiver
  obtain ⟨tx, htx, houtput, hinput⟩ := h.transaction
  have hroom : runeReceiverOffset ≤ (load w program.key).data.length := h.state.room
  obtain ⟨cleared, hclear, hlogged⟩ := clearEvents_logged hroom
  have hcleared : Cleared program (load w) cleared := ⟨hclear, h.programType⟩
  have hnetwork : ProgramState.getNetworkType (cleared program.key).data = .ok networkType :=
    hcleared.networkType_eq.trans h.network
  refine ⟨cleared, decide (accountType = .runeReceiver), hlogged, hcleared, fun hfalse => ?_, ?_⟩
  · exact hplain (of_decide_eq_false hfalse)
  · rw [prepareWithdrawBatch, run_bind_of_ok ((validateAccount_eq_ok (u := ())).mpr ⟨h.programValid, rfl⟩),
      run_bind_of_ok ((validateAccount_eq_ok (u := ())).mpr ⟨h.withdrawValid, rfl⟩),
      run_bind_of_ok (hasRuneReceiver_run hthird htype hreceiver),
      run_bind_of_ok (accountAt_eq_ok.mpr ⟨h.programListed, rfl⟩),
      run_bind_of_ok (accountAt_eq_ok.mpr ⟨h.withdrawListed, rfl⟩),
      run_bind_of_ok (read_eq_ok.mpr ⟨h.noSettlement, rfl⟩),
      run_bind_of_ok ((Exec.ensure_eq_ok (u := ())).mpr ⟨rfl, rfl⟩),
      run_bind_of_ok (read_eq_ok.mpr ⟨h.noWithdrawal, rfl⟩),
      run_bind_of_ok ((Exec.ensure_eq_ok (u := ())).mpr ⟨rfl, rfl⟩), htx]
    dsimp only
    rw [run_bind_of_ok ((Exec.ensure_eq_ok (u := ())).mpr ⟨by rw [houtput]; rfl, rfl⟩),
      run_bind_of_ok ((Exec.ensure_eq_ok (u := ())).mpr ⟨hinput, rfl⟩), run_bind_of_ok hclear,
      run_bind_of_ok (read_eq_ok.mpr ⟨hnetwork, rfl⟩), houtput]
    rfl

/-! ### The outputs -/

theorem getBitcoinAddress_of_valid {address : Utf8String}
    (h : validateBitcoinAddress rt address networkType true = .ok ()) :
    ∃ scriptBuf, getBitcoinAddress rt address networkType = .ok scriptBuf := by
  unfold validateBitcoinAddress at h
  unfold getBitcoinAddress
  cases hparse : rt.addressFromStr address with
  | none =>
      rw [hparse] at h
      cases h
  | some uncheckedAddress =>
      rw [hparse] at h
      dsimp only at h ⊢
      split at h
      · cases h
      · next hvalid =>
          rw [not_and, Bool.not_eq_false] at hvalid
          rw [if_pos (hvalid (Or.inl rfl))]
          exact ⟨_, rfl⟩

/-- A wallet that may withdraw can be paid. -/
theorem WithdrawWallet.payout {withdrawal : Withdrawal} {data : Bytes} (hwell : WellFormed data)
    (h : WithdrawWallet rt networkType withdrawal.addressIndex data) :
    ∃ payout, payoutOf rt networkType withdrawal data = .ok payout := by
  obtain ⟨tokenId, htokenId⟩ := hwell.getTokenId
  obtain ⟨address, haddress, hvalid⟩ := h.address
  obtain ⟨scriptBuf, hscript⟩ := getBitcoinAddress_of_valid hvalid
  have hrune : runeOf rt data = .ok (rt.runeIdFromStr tokenId) := by
    rw [runeOf, htokenId]
    rfl
  exact ⟨_, payoutOf_eq_ok.mpr ⟨_, hrune, address, haddress, scriptBuf, hscript, rfl⟩⟩

/-- A verified entry needs nothing but its amounts to be debited. -/
theorem WithdrawalsVerified.ready {m : Memory} {tokenWithdrawals : TokenWithdrawals}
    (h : WithdrawalsVerified rt networkType accounts m tokenWithdrawals)
    (hwell : ∀ key, getType (m key).data = .ok .token → WellFormed (m key).data)
    (hfees : tokenWithdrawals.FeesCollected accounts m feeAccountAddress) :
    TokenWithdrawalsReady rt networkType accounts m feeAccountAddress tokenWithdrawals := by
  obtain ⟨hvalidated, hverified⟩ := h
  obtain ⟨account, haccount, -⟩ := id hvalidated
  refine ⟨⟨account, haccount⟩, fun key hkey withdrawal hmem => ?_⟩
  obtain ⟨hpayer, hfeeAccount, hfeePayer⟩ := hverified key hkey withdrawal hmem
  have hpayout := hpayer.wallet.payout (hwell key (hvalidated.type_of_keyAt hkey))
  refine ⟨hpayer.hasAmount, fun hpos => ?_, hpayout⟩
  obtain ⟨feeAccount, hlisted, -⟩ := id hfeeAccount
  refine ⟨⟨feeAccount, hlisted⟩, fun feeKey hfeeKey => ?_, fun feeKey hfeeKey _ => ?_⟩
  · obtain ⟨hinUse, haddress⟩ := hfees withdrawal hmem hpos feeKey hfeeKey
    exact ⟨haddress, (hwell feeKey (hfeeAccount.type_of_keyAt hfeeKey)).hasAmount hinUse⟩
  · exact (hfeePayer feeKey hfeeKey).hasAmount

theorem edict_eq_none {withdrawal : Withdrawal} {data : Bytes} {payout : Payout}
    (h : payoutOf rt networkType withdrawal data = .ok payout) (hplain : TokenState.isRuneAccount rt data = .ok false) :
    payout.edict = none := by
  obtain ⟨isRune, hisRune, h⟩ := bind_eq_ok.mp h
  obtain rfl := Except.ok.inj (hisRune.symm.trans hplain)
  obtain ⟨address, -, h⟩ := bind_eq_ok.mp h
  obtain ⟨scriptBuf, -, h⟩ := bind_eq_ok.mp h
  cases h
  rfl

/-- The payouts of entries without a rune have no edict. -/
theorem edicts_eq_none {m : Memory} {payouts : List (List Payout)}
    (hpaid : List.Forall₂ (PaidOut rt networkType accounts m program) params.tokenWithdrawals payouts)
    (hplain : ∀ tokenWithdrawals ∈ params.tokenWithdrawals, ∀ key,
      keyAt accounts tokenWithdrawals.accountIndex = some key →
        TokenState.isRuneAccount rt (m key).data = .ok false) :
    ∀ payout ∈ payouts.flatten, payout.edict = none := by
  intro payout hmem
  obtain ⟨paid, hpayouts, hmem⟩ := List.mem_flatten.mp hmem
  have hboth := ((List.forall₂_and_left _ _).mpr ⟨hplain, hpaid⟩).flip
  obtain ⟨tokenWithdrawals, hkeys, key, _, hkey, -, hwithdrawn⟩ := exists_of_forall₂ hboth hpayouts
  obtain ⟨withdrawal, hpaid⟩ := exists_of_forall₂ hwithdrawn.flip hmem
  exact edict_eq_none hpaid.payout (hkeys key hkey)

/-- Every withdrawal has one payout. -/
theorem payouts_length {m : Memory} {payouts : List (List Payout)}
    (hpaid : List.Forall₂ (PaidOut rt networkType accounts m program) params.tokenWithdrawals payouts) :
    payouts.flatten.length = params.withdrawalCount := by
  have hlengths : payouts.map List.length =
      params.tokenWithdrawals.map fun tokenWithdrawals => tokenWithdrawals.withdrawals.length := by
    rw [← List.forall₂_eq_eq_eq, List.forall₂_map_left_iff, List.forall₂_map_right_iff]
    refine hpaid.flip.imp ?_
    rintro paid tokenWithdrawals ⟨key, _, -, -, hwithdrawn⟩
    exact hwithdrawn.length_eq.symm
  rw [List.length_flatten, hlengths, WithdrawBatchParams.withdrawalCount]

/-! ### Debiting the batch -/

variable {cleared : Memory}

/-- A verified batch is debited exactly when every debit is covered at its turn. -/
theorem PreparationValid.applies_iff
    (h : PreparationValid rt w accounts program withdraw networkType feeAccountAddress rawParamsData params)
    (hcleared : Cleared program (load w) cleared)
    (hverified : ∀ tokenWithdrawals ∈ params.tokenWithdrawals,
      WithdrawalsVerified rt networkType accounts (load w) tokenWithdrawals) :
    (∃ outputs paid, (applyWithdrawals rt accounts program networkType params).run cleared = .ok outputs paid) ↔
      Ledger.Covered amountModulus (balances (load w)) (params.entries accounts) := by
  have haddress : ProgramState.getFeeAccountAddress (cleared program.key).data = .ok feeAccountAddress :=
    hcleared.feeAccountAddress_eq.trans h.feeAddress
  have hadmits : Admits amountModulus (AmountsOnly cleared) balances
      (applyWithdrawals rt accounts program networkType params)
      (∀ tokenWithdrawals ∈ params.tokenWithdrawals,
        TokenWithdrawalsReady rt networkType accounts cleared feeAccountAddress tokenWithdrawals)
      (params.entries accounts) :=
    admits_foldlM (fun outputs tokenWithdrawals _ =>
        posts_tokenWithdrawals rt networkType program tokenWithdrawals outputs)
      fun outputs tokenWithdrawals _ => admits_tokenWithdrawals rt networkType program haddress tokenWithdrawals outputs
  rw [hadmits cleared (AmountsOnly.refl _), hcleared.balances_eq,
    Ledger.run_isSome_iff amountModulus (by decide) (balances_lt _)]
  refine and_iff_right fun tokenWithdrawals hmem => ?_
  refine ((hverified tokenWithdrawals hmem).of_eq fun key htoken => hcleared.token_data htoken).ready ?_ ?_
  · intro key htoken
    have hdata := hcleared.token_data_back htoken
    rw [← hdata] at htoken ⊢
    exact h.state.tokens key htoken
  · intro withdrawal hwithdrawal hpos feeKey hfeeKey
    have htoken := ((h.tokens tokenWithdrawals hmem).feeAccounts withdrawal hwithdrawal).type_of_keyAt hfeeKey
    rw [hcleared.token_data htoken]
    exact h.fees tokenWithdrawals hmem withdrawal hwithdrawal hpos feeKey hfeeKey

/-- The outputs of a batch pass the last checks. -/
theorem PreparationValid.outputs_pass
    (h : PreparationValid rt w accounts program withdraw networkType feeAccountAddress rawParamsData params)
    (hcleared : Cleared program (load w) cleared) {hasReceiver : Bool}
    (hplain : hasReceiver = false → ∀ tokenWithdrawals ∈ params.tokenWithdrawals, ∀ key,
      keyAt accounts tokenWithdrawals.accountIndex = some key → TokenState.isRuneAccount rt (w key).data = .ok false)
    {payouts : List (List Payout)}
    (hpaid : List.Forall₂ (PaidOut rt networkType accounts cleared program) params.tokenWithdrawals payouts) :
    ((payouts.flatten.foldl Outputs.pay { txOuts := [], edicts := [] }).edicts = [] ∨ hasReceiver = true) ∧
      (payouts.flatten.foldl Outputs.pay { txOuts := [], edicts := [] }).txOuts.length ≠ 0 := by
  constructor
  · cases hreceiver : hasReceiver with
    | true => exact Or.inr rfl
    | false =>
        left
        rw [Outputs.foldl_pay_edicts, List.nil_append]
        apply edictsAt_eq_nil
        apply edicts_eq_none hpaid
        intro tokenWithdrawals hmem key hkey
        rw [hcleared.token_data ((h.tokens tokenWithdrawals hmem).account.type_of_keyAt hkey)]
        exact hplain hreceiver tokenWithdrawals hmem key hkey
  · rw [Outputs.foldl_pay_txOuts, List.nil_append, List.length_map, payouts_length hpaid]
    exact Nat.one_le_iff_ne_zero.mp h.count.1

/-- A batch that can be debited is, and its hash is set. -/
theorem PreparationValid.finishes
    (h : PreparationValid rt w accounts program withdraw networkType feeAccountAddress rawParamsData params)
    (hlogged : Logged (load w) program.key [] cleared) (hcleared : Cleared program (load w) cleared)
    {hasReceiver : Bool} (hplain : hasReceiver = false → ∀ tokenWithdrawals ∈ params.tokenWithdrawals, ∀ key,
      keyAt accounts tokenWithdrawals.accountIndex = some key → TokenState.isRuneAccount rt (w key).data = .ok false)
    (digest : Hash) {outputs : Outputs} {paid : Memory}
    (hrun : (applyWithdrawals rt accounts program networkType params).run cleared = .ok outputs paid) :
    ∃ data, WithdrawState.setHash digest (paid withdraw.key).data = .ok data ∧
      (finishWithdrawals rt accounts program withdraw hasReceiver networkType params digest).run cleared =
        .ok () (paid.setData withdraw.key data) := by
  obtain ⟨hamounts, -, payouts, hpaid, rfl⟩ := preparingLoop_eq_ok hrun
  obtain ⟨hedicts, houtputs⟩ := h.outputs_pass hcleared hplain hpaid
  have hfits : withdrawHashOffset + digest.1.length ≤ (paid withdraw.key).data.length := by
    rw [digest.2, hamounts.length, hcleared.length]
    exact hashFromSlice_room h.noWithdrawal
  obtain ⟨data, hset⟩ : ∃ data, WithdrawState.setHash digest (paid withdraw.key).data = .ok data :=
    writeBlock_run hfits
  refine ⟨data, hset, ?_⟩
  rw [finishWithdrawals, run_bind_of_ok (read_eq_ok.mpr ⟨hlogged.events.count, rfl⟩), if_neg (by simp),
    run_bind_of_ok hrun, run_bind_of_ok ((Exec.ensure_eq_ok (u := ())).mpr ⟨hedicts, rfl⟩),
    run_bind_of_ok ((Exec.ensure_eq_ok (u := ())).mpr ⟨houtputs, rfl⟩)]
  exact write_run hset

theorem AmountsOnly.getEventsCount_eq {m₀ m : Memory} (h : AmountsOnly m₀ m) (key : Pubkey) :
    ProgramState.getEventsCount (m key).data = ProgramState.getEventsCount (m₀ key).data := by
  unfold ProgramState.getEventsCount
  rw [readBlock_congr fun o ho => h.bytes key o (not_anyAmount_eventsCount ho)]

theorem PreparationValid.applied
    (h : PreparationValid rt w accounts program withdraw networkType feeAccountAddress rawParamsData params)
    (hlogged : Logged (load w) program.key [] cleared) (hcleared : Cleared program (load w) cleared) {w' : World}
    {outputs : Outputs} {paid : Memory} {data : Bytes} {digest : Hash}
    (hrun : (applyWithdrawals rt accounts program networkType params).run cleared = .ok outputs paid)
    (hset : WithdrawState.setHash digest (paid withdraw.key).data = .ok data)
    (hdata : ∀ key, (w' key).data = (paid.setData withdraw.key data key).data) :
    WithdrawalsApplied w w' accounts program.key withdraw.key params digest := by
  obtain ⟨hamounts, hposted, -⟩ := preparingLoop_eq_ok hrun
  refine ⟨?_, ?_, ?_⟩
  · have hcount : ProgramState.getEventsCount (paid program.key).data = .ok 0 :=
      (hamounts.getEventsCount_eq program.key).trans hlogged.events.count
    rw [hdata, Memory.setData_of_ne _ _ h.program_ne]
    exact EventsAt.storedEvents ⟨hcount, nofun⟩
  · have hbalances : balances (load w') = balances paid := by
      rw [← balances_setData_of_disjoint (writes_setHash _) (fun o ho => not_anyAmount_of_lt ?_) hset]
      · funext ⟨key, index⟩
        rw [balances, balances, ← hdata]
        rfl
      · have hhigh := ho.2
        omega
    rw [hbalances, ← hcleared.balances_eq]
    exact hposted
  · rw [withdrawHash, hdata, Memory.setData_self]
    exact hashFromSlice_writeBlock hset

/-- A preparation that reports stops after its verification. -/
theorem PreparationValid.reported
    (h : PreparationValid rt w accounts program withdraw networkType feeAccountAddress rawParamsData params)
    {verified : Memory} {w' : World}
    (hlogged : Logged (load w) program.key (params.reports rt networkType accounts fun key => (w key).data) verified)
    (hreports : (params.reports rt networkType accounts fun key => (w key).data) ≠ [])
    (hdata : ∀ key, (w' key).data = (verified key).data) :
    WithdrawalsReported w w' program.key withdraw.key := by
  have hothers : ∀ key, key ≠ program.key → (w' key).data = (w key).data := by
    intro key hkey
    rw [hdata]
    exact hlogged.others key hkey
  obtain ⟨event, hmem⟩ := List.exists_mem_of_ne_nil _ hreports
  refine ⟨⟨_, ?_, event, hmem, mem_reports hmem⟩, hothers, ?_⟩
  · rw [hdata]
    exact hlogged.events.storedEvents
  · rw [withdrawHash, hothers withdraw.key h.program_ne.symm]
    rfl

/-! ### The call -/

variable {programId : Pubkey}

/-- A batch whose fee wallets are valid is verified to the end. -/
theorem PreparationValid.verifies
    (h : PreparationValid rt w accounts program withdraw networkType feeAccountAddress rawParamsData params)
    (hfees : params.FeeWalletsValid rt networkType accounts fun key => (w key).data)
    (hlogged : Logged (load w) program.key [] cleared) :
    ∃ verified,
      (params.tokenWithdrawals.forM (verifyTokenWithdrawals rt accounts networkType)).run cleared = .ok () verified ∧
      Logged (load w) program.key (params.reports rt networkType accounts fun key => (w key).data) verified := by
  have hlogs := logs_verifyBatch h.state.room h.programListed h.programType h.state.tokens h.tokens hfees
  obtain ⟨hfits, -⟩ := hlogs [] cleared (Nat.zero_le _) hlogged
  exact hfits (Nat.le_trans (reports_length_le params) h.count.2)

/-- A batch that can pay and reports nothing is verified without a change. -/
theorem PreparationValid.verifies_quietly
    (h : PreparationValid rt w accounts program withdraw networkType feeAccountAddress rawParamsData params)
    (hfees : params.FeeWalletsValid rt networkType accounts fun key => (w key).data)
    (hlogged : Logged (load w) program.key [] cleared) (hcleared : Cleared program (load w) cleared)
    (haffordable : params.Affordable rt networkType accounts fun key => (w key).data) :
    (params.tokenWithdrawals.forM (verifyTokenWithdrawals rt accounts networkType)).run cleared = .ok () cleared ∧
      ∀ tokenWithdrawals ∈ params.tokenWithdrawals,
        WithdrawalsVerified rt networkType accounts (load w) tokenWithdrawals := by
  obtain ⟨verified, hverify, hverified⟩ := h.verifies hfees hlogged
  have hquiet : (params.reports rt networkType accounts fun key => (w key).data) = [] :=
    (reports_eq_nil h.state.tokens h.tokens).mpr haffordable
  rw [hquiet] at hverified
  obtain ⟨rfl, hall⟩ := verified_quiet h.programListed hcleared hverify hverified.events.count
  exact ⟨hverify, hall⟩

theorem PreparationValid.executes_reports
    (h : PreparationValid rt w accounts program withdraw networkType feeAccountAddress rawParamsData params)
    (hfees : params.FeeWalletsValid rt networkType accounts fun key => (w key).data)
    (hreports : (params.reports rt networkType accounts fun key => (w key).data) ≠ []) :
    ∃ w', execute rt w (withdrawCall 4 programId accounts rawParamsData) = some w' ∧
      WithdrawalsReported w w' program.key withdraw.key := by
  obtain ⟨cleared, hasReceiver, hlogged, -, -, hrun⟩ := h.run_eq
  obtain ⟨verified, hverify, hverified⟩ := h.verifies hfees hlogged
  have hfinish : (finishWithdrawals rt accounts program withdraw hasReceiver networkType params
      (rt.digest rawParamsData)).run verified = .ok () verified := by
    rw [finishWithdrawals, run_bind_of_ok (read_eq_ok.mpr ⟨hverified.events.count, rfl⟩),
      if_pos (mt List.eq_nil_of_length_eq_zero hreports)]
    rfl
  have hok : (prepareWithdrawBatch rt accounts params rawParamsData).run (load w) = .ok () verified :=
    hrun.trans ((run_bind_of_ok hverify).trans hfinish)
  have hlengths : ∀ key, (verified key).data.length = (w key).data.length := by
    intro key
    by_cases hkey : key = program.key
    · rw [hkey]
      exact hverified.length
    · exact congrArg List.length (hverified.others key hkey)
  obtain ⟨w', hexecute, hdata⟩ := execute_of_run (withdrawCall_prepare programId accounts h.decoded) hok hlengths
  exact ⟨w', hexecute, h.reported hverified hreports hdata⟩

theorem PreparationValid.executes_applies
    (h : PreparationValid rt w accounts program withdraw networkType feeAccountAddress rawParamsData params)
    (hfees : params.FeeWalletsValid rt networkType accounts fun key => (w key).data)
    (haffordable : params.Affordable rt networkType accounts fun key => (w key).data)
    (hcovered : Ledger.Covered amountModulus (balances (load w)) (params.entries accounts)) :
    ∃ w', execute rt w (withdrawCall 4 programId accounts rawParamsData) = some w' ∧
      WithdrawalsApplied w w' accounts program.key withdraw.key params (rt.digest rawParamsData) := by
  obtain ⟨cleared, hasReceiver, hlogged, hcleared, hplain, hrun⟩ := h.run_eq
  obtain ⟨hverify, hverified⟩ := h.verifies_quietly hfees hlogged hcleared haffordable
  obtain ⟨outputs, paid, happly⟩ := (h.applies_iff hcleared hverified).mpr hcovered
  obtain ⟨data, hset, hfinish⟩ := h.finishes hlogged hcleared hplain (rt.digest rawParamsData) happly
  have hok : (prepareWithdrawBatch rt accounts params rawParamsData).run (load w) =
      .ok () (paid.setData withdraw.key data) :=
    hrun.trans ((run_bind_of_ok hverify).trans hfinish)
  have hlengths : ∀ key, (paid.setData withdraw.key data key).data.length = (w key).data.length := by
    intro key
    obtain ⟨hamounts, -⟩ := preparingLoop_eq_ok happly
    rw [setData_length (writes_setHash _) hset, hamounts.length, hcleared.length]
    rfl
  obtain ⟨w', hexecute, hdata⟩ := execute_of_run (withdrawCall_prepare programId accounts h.decoded) hok hlengths
  exact ⟨w', hexecute, h.applied hlogged hcleared happly hset hdata⟩

/-- A preparation that returns has found the fee wallets valid. -/
theorem PreparationValid.feeWallets
    (h : PreparationValid rt w accounts program withdraw networkType feeAccountAddress rawParamsData params) {w' : World}
    (hexecute : execute rt w (withdrawCall 4 programId accounts rawParamsData) = some w') :
    params.FeeWalletsValid rt networkType accounts fun key => (w key).data := by
  obtain ⟨instruction, m, hinstruction, hok, -⟩ := execute_cases hexecute
  obtain rfl := Except.ok.inj (hinstruction.symm.trans (withdrawCall_prepare programId accounts h.decoded))
  obtain ⟨cleared, hasReceiver, hlogged, -, -, hrun⟩ := h.run_eq
  obtain ⟨_, verified, hverify, -⟩ := Exec.bind_eq_ok.mp (hrun.symm.trans hok)
  exact verifyBatch_feeWallets h.programListed h.programType h.tokens hlogged.others hverify

/-- A preparation that returns and can report nothing has debited the whole batch. -/
theorem PreparationValid.covered
    (h : PreparationValid rt w accounts program withdraw networkType feeAccountAddress rawParamsData params) {w' : World}
    (hexecute : execute rt w (withdrawCall 4 programId accounts rawParamsData) = some w')
    (haffordable : params.Affordable rt networkType accounts fun key => (w key).data) :
    Ledger.Covered amountModulus (balances (load w)) (params.entries accounts) := by
  have hfees := h.feeWallets hexecute
  obtain ⟨instruction, m, hinstruction, hok, -⟩ := execute_cases hexecute
  obtain rfl := Except.ok.inj (hinstruction.symm.trans (withdrawCall_prepare programId accounts h.decoded))
  obtain ⟨cleared, hasReceiver, hlogged, hcleared, -, hrun⟩ := h.run_eq
  obtain ⟨hverify, hverified⟩ := h.verifies_quietly hfees hlogged hcleared haffordable
  have hfinish : (finishWithdrawals rt accounts program withdraw hasReceiver networkType params
      (rt.digest rawParamsData)).run cleared = .ok () m :=
    (run_bind_of_ok hverify).symm.trans (hrun.symm.trans hok)
  rw [finishWithdrawals, run_bind_of_ok (read_eq_ok.mpr ⟨hlogged.events.count, rfl⟩), if_neg (by simp)] at hfinish
  obtain ⟨outputs, paid, happly, -⟩ := Exec.bind_eq_ok.mp hfinish
  exact (h.applies_iff hcleared hverified).mp ⟨outputs, paid, happly⟩

end Steps

/-- A preparation of valid accounts applies all withdrawals or reports some and applies none exactly where every fee
wallet is valid and withdrawals that are all affordable on their own are covered one after the other. -/
theorem withdrawalPreparation_outcome (rt : Runtime) (w : World) (programId : Pubkey) (accounts : List AccountInfo)
    (program withdraw : AccountInfo) (networkType : NetworkType) (feeAccountAddress : Utf8String)
    (rawParamsData : Bytes) (params : WithdrawBatchParams)
    (h : PreparationValid rt w accounts program withdraw networkType feeAccountAddress rawParamsData params) :
    AppliesOrReports rt w programId accounts program.key withdraw.key rawParamsData params ↔
      params.FeeWalletsValid rt networkType accounts (fun key => (w key).data) ∧
      (params.Affordable rt networkType accounts (fun key => (w key).data) →
        Ledger.Covered amountModulus (balances (load w)) (params.entries accounts)) := by
  constructor
  · rintro ⟨w', hexecute, -⟩
    exact ⟨h.feeWallets hexecute, h.covered hexecute⟩
  · rintro ⟨hfees, hcovered⟩
    by_cases hreports : (params.reports rt networkType accounts fun key => (w key).data) = []
    · have haffordable := (reports_eq_nil h.state.tokens h.tokens).mp hreports
      obtain ⟨w', hexecute, happlied⟩ := h.executes_applies hfees haffordable (hcovered haffordable)
      exact ⟨w', hexecute, Or.inl happlied⟩
    · obtain ⟨w', hexecute, hreported⟩ := h.executes_reports hfees hreports
      exact ⟨w', hexecute, Or.inr hreported⟩

/-! ### Small batches -/

/-- A batch of withdrawals from the one token of the small world. -/
def tokenBatch (withdrawals : List Withdrawal) : WithdrawBatchParams where
  txHex := inputTxBytes
  changeAmount := 0
  tokenWithdrawals := [{ accountIndex := 2, withdrawals := withdrawals }]
  inputUtxoTypes := [.bitcoin]

theorem withdrawWorld_wellFormed : StateWellFormed (fun key => (withdrawWorld 5 100 7 key).data) sampleProgram := by
  apply sampleWorld_wellFormed (by decide +kernel) (by decide +kernel)
  intro entry hentry htoken
  simp only [List.mem_cons, List.not_mem_nil, or_false] at hentry
  rcases hentry with rfl | rfl | rfl
  · exact absurd htoken (by decide +kernel)
  · exact absurd htoken (by decide +kernel)
  · exact tokenData_wellFormed ⟨[0x31], by decide⟩ (by decide) (by decide) 5 100 7

/-- In the small world a batch from its token is prepared from valid accounts. -/
theorem tokenBatch_valid {raw : Bytes} {withdrawals : List Withdrawal} (digests : List (Bytes × Hash))
    (hdecoded : decodeFromSlice WithdrawBatchParams.decode raw = .ok (tokenBatch withdrawals))
    (hfees : ∀ withdrawal ∈ withdrawals, withdrawal.feeAccountIndex = 2)
    (hcount : 1 ≤ withdrawals.length ∧ withdrawals.length ≤ 100) :
    PreparationValid (withdrawRuntime digests) (withdrawWorld 5 100 7) (withdrawAccounts true)
      ⟨sampleProgram, true, true⟩ ⟨sampleWithdraw, false, true⟩ .regtest ⟨feeAddress, by decide⟩ raw
      (tokenBatch withdrawals) := by
  have hprogramType : Bound .program sampleWithdraw (load (withdrawWorld 5 100 7) sampleProgram).data :=
    ⟨by decide +kernel, by decide +kernel⟩
  have hwithdrawType : Bound .withdraw sampleProgram (load (withdrawWorld 5 100 7) sampleWithdraw).data :=
    ⟨by decide +kernel, by decide +kernel⟩
  have htokenType : Bound .token sampleProgram (load (withdrawWorld 5 100 7) withdrawnToken).data :=
    ⟨by decide +kernel, by decide +kernel⟩
  have htoken : Validated (withdrawAccounts true) 2 false true (some .token) (some 0)
      (load (withdrawWorld 5 100 7)) :=
    ⟨⟨withdrawnToken, false, true⟩, rfl, rfl, rfl, ⟨sampleProgram, true, true⟩, rfl, htokenType⟩
  have hplain : TokenState.isRuneAccount (withdrawRuntime digests) (withdrawWorld 5 100 7 withdrawnToken).data =
      .ok false := by
    have htokenId : TokenState.getTokenId (withdrawWorld 5 100 7 withdrawnToken).data = .ok ⟨[0x31], by decide⟩ := by
      decide +kernel
    rw [TokenState.isRuneAccount, htokenId]
    rfl
  have hkey : ∀ key, keyAt (withdrawAccounts true) 2 = some key → key = withdrawnToken := by
    intro key hkey
    cases hkey
    rfl
  refine ⟨hdecoded, rfl, rfl, ?_, ?_, ?_, withdrawWorld_wellFormed, by decide +kernel, by decide +kernel,
    by decide +kernel, by decide +kernel, ?_, ?_, ?_, ?_⟩
  · exact ⟨_, rfl, rfl, rfl, ⟨sampleWithdraw, false, true⟩, rfl, hprogramType⟩
  · exact ⟨_, rfl, rfl, rfl, ⟨sampleProgram, true, true⟩, rfl, hwithdrawType⟩
  · refine ⟨⟨withdrawnToken, false, true⟩, .token, rfl, htokenType.1, nofun, fun _ tokenWithdrawals hmem key hat => ?_⟩
    obtain rfl := List.mem_singleton.mp hmem
    rw [hkey key hat]
    exact hplain
  · exact ⟨inputTx, rfl, rfl, rfl⟩
  · intro tokenWithdrawals hmem
    obtain rfl := List.mem_singleton.mp hmem
    refine ⟨htoken, fun withdrawal hwithdrawal => ?_⟩
    rw [hfees withdrawal hwithdrawal]
    exact htoken
  · intro tokenWithdrawals hmem withdrawal hwithdrawal _ feeKey hat
    obtain rfl := List.mem_singleton.mp hmem
    rw [hfees withdrawal hwithdrawal] at hat
    rw [hkey feeKey hat]
    have hwallet : 0 < numBalances (withdrawWorld 5 100 7 withdrawnToken).data ∧
        Balance.getWalletAddress 0 (withdrawWorld 5 100 7 withdrawnToken).data = .ok ⟨feeAddress, by decide⟩ := by
      decide +kernel
    exact hwallet
  · exact hcount

/-- The first wallet takes out all that it holds, its fee included, which is applied. -/
theorem plainBatch_applied :
    AppliesOrReports plainRuntime (withdrawWorld 5 100 7) (sampleKey 0xee) (withdrawAccounts true) sampleProgram
      sampleWithdraw (withdrawBatchBytes plainWithdrawals) plainParams := by
  have hvalid : PreparationValid plainRuntime (withdrawWorld 5 100 7) (withdrawAccounts true)
      ⟨sampleProgram, true, true⟩ ⟨sampleWithdraw, false, true⟩ .regtest ⟨feeAddress, by decide⟩
      (withdrawBatchBytes plainWithdrawals) plainParams :=
    tokenBatch_valid _ (by decide +kernel) (by decide) (by decide)
  refine (withdrawalPreparation_outcome plainRuntime (withdrawWorld 5 100 7) (sampleKey 0xee) (withdrawAccounts true)
    ⟨sampleProgram, true, true⟩ ⟨sampleWithdraw, false, true⟩ .regtest ⟨feeAddress, by decide⟩
    (withdrawBatchBytes plainWithdrawals) plainParams hvalid).mpr ⟨?_, fun _ => ?_⟩
  · intro tokenWithdrawals hmem key hkey withdrawal hwithdrawal feeKey hfeeKey _
    obtain rfl := List.mem_singleton.mp hmem
    obtain rfl := List.mem_singleton.mp hwithdrawal
    cases hkey
    cases hfeeKey
    have hindex : getValidatedIndexWithdraw plainRuntime ⟨1, ⟨firstAddress.drop 40, rfl⟩⟩ .regtest
        (withdrawWorld 5 100 7 withdrawnToken).data = .ok 1 := by
      decide +kernel
    exact (getValidatedIndexWithdraw_eq_ok.mp hindex).1
  · have hgoes : (Ledger.run .wraps amountModulus (balances (load (withdrawWorld 5 100 7)))
        (plainParams.entries (withdrawAccounts true))).isSome = true := by
      decide +kernel
    exact (Ledger.run_isSome_iff amountModulus (by decide) (balances_lt _)).mp hgoes

/-- The first wallet, which holds 100, takes out 60 twice. -/
def doubleWithdrawals : List Bytes :=
  [tokenWithdrawalsBytes 2 [withdrawalBytes 1 firstAddress 60 2 1 firstAddress 0,
    withdrawalBytes 1 firstAddress 60 2 1 firstAddress 0]]

def doubleParams : WithdrawBatchParams :=
  tokenBatch [
    ⟨⟨1, ⟨firstAddress.drop 40, firstAddress_last4⟩⟩, 60, 2, ⟨1, ⟨firstAddress.drop 40, firstAddress_last4⟩⟩, 0⟩,
    ⟨⟨1, ⟨firstAddress.drop 40, firstAddress_last4⟩⟩, 60, 2, ⟨1, ⟨firstAddress.drop 40, firstAddress_last4⟩⟩, 0⟩]

def doubleDigest : Hash :=
  ⟨[0xdc, 0x38, 0x98, 0x51, 0x26, 0x2a, 0x3a, 0xe3, 0xd1, 0xed, 0x7a, 0x20, 0xf0, 0x21, 0x5b, 0xf1,
    0x26, 0x06, 0xda, 0xf8, 0xc4, 0xa6, 0x1e, 0x7a, 0xff, 0x22, 0xeb, 0x0c, 0x83, 0xc2, 0x09, 0x38], rfl⟩

def doubleRuntime : Runtime := withdrawRuntime [(withdrawBatchBytes doubleWithdrawals, doubleDigest)]

/-- The first wallet takes out 60 without a fee, and names a wallet for the fee that is not in use. -/
def unusedFeeWithdrawals : List Bytes :=
  [tokenWithdrawalsBytes 2 [withdrawalBytes 1 firstAddress 60 2 3 firstAddress 0]]

def unusedFeeParams : WithdrawBatchParams :=
  tokenBatch [
    ⟨⟨1, ⟨firstAddress.drop 40, firstAddress_last4⟩⟩, 60, 2, ⟨3, ⟨firstAddress.drop 40, firstAddress_last4⟩⟩, 0⟩]

def unusedFeeDigest : Hash :=
  ⟨[0x48, 0x5e, 0x1c, 0x3e, 0x41, 0xa3, 0x52, 0x0d, 0x20, 0x24, 0xad, 0x45, 0xe3, 0x05, 0x38, 0xf4,
    0xda, 0x4e, 0xbe, 0x73, 0x56, 0x78, 0xe4, 0xaa, 0x73, 0xdc, 0x92, 0xae, 0xcc, 0xa3, 0xb6, 0x87], rfl⟩

def unusedFeeRuntime : Runtime := withdrawRuntime [(withdrawBatchBytes unusedFeeWithdrawals, unusedFeeDigest)]

/-- Both batches have valid accounts, and both fail: one for a balance and one for an index. -/
theorem preparation_fails :
    (PreparationValid doubleRuntime (withdrawWorld 5 100 7) (withdrawAccounts true) ⟨sampleProgram, true, true⟩
        ⟨sampleWithdraw, false, true⟩ .regtest ⟨feeAddress, by decide⟩ (withdrawBatchBytes doubleWithdrawals)
        doubleParams ∧
      ((withdrawCall 4 (sampleKey 0xee) (withdrawAccounts true) (withdrawBatchBytes doubleWithdrawals)).outcome
        doubleRuntime (withdrawWorld 5 100 7)).failure = some (.custom errorInsufficientBalance) ∧
      ¬AppliesOrReports doubleRuntime (withdrawWorld 5 100 7) (sampleKey 0xee) (withdrawAccounts true) sampleProgram
        sampleWithdraw (withdrawBatchBytes doubleWithdrawals) doubleParams) ∧
    (PreparationValid unusedFeeRuntime (withdrawWorld 5 100 7) (withdrawAccounts true) ⟨sampleProgram, true, true⟩
        ⟨sampleWithdraw, false, true⟩ .regtest ⟨feeAddress, by decide⟩ (withdrawBatchBytes unusedFeeWithdrawals)
        unusedFeeParams ∧
      ((withdrawCall 4 (sampleKey 0xee) (withdrawAccounts true) (withdrawBatchBytes unusedFeeWithdrawals)).outcome
        unusedFeeRuntime (withdrawWorld 5 100 7)).failure = some (.custom errorInvalidAddressIndex) ∧
      ¬AppliesOrReports unusedFeeRuntime (withdrawWorld 5 100 7) (sampleKey 0xee) (withdrawAccounts true)
        sampleProgram sampleWithdraw (withdrawBatchBytes unusedFeeWithdrawals) unusedFeeParams) := by
  have hdouble : ((withdrawCall 4 (sampleKey 0xee) (withdrawAccounts true)
      (withdrawBatchBytes doubleWithdrawals)).outcome doubleRuntime (withdrawWorld 5 100 7)).failure =
        some (.custom errorInsufficientBalance) := by
    decide +kernel
  have hunused : ((withdrawCall 4 (sampleKey 0xee) (withdrawAccounts true)
      (withdrawBatchBytes unusedFeeWithdrawals)).outcome unusedFeeRuntime (withdrawWorld 5 100 7)).failure =
        some (.custom errorInvalidAddressIndex) := by
    decide +kernel
  refine ⟨⟨?_, hdouble, ?_⟩, ?_, hunused, ?_⟩
  · exact tokenBatch_valid _ (by decide +kernel) (by decide) (by decide)
  · rintro ⟨w', hexecute, -⟩
    cases (execute_of_failure hdouble).symm.trans hexecute
  · exact tokenBatch_valid _ (by decide +kernel) (by decide) (by decide)
  · rintro ⟨w', hexecute, -⟩
    cases (execute_of_failure hunused).symm.trans hexecute

end Chainring.Arch

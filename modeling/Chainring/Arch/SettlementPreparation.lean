import Chainring.Arch.EventLog
import Chainring.Arch.SettlementConservation
import Chainring.Arch.TokenFields

/-! What the preparation of a settlement does, for every batch: which events it stores, when it runs out of room
for them, when the batch does not net, and when it sets the hash. -/

namespace Chainring.Arch

open Exec (Logs logs_pure logs_when logs_foldlM run_bind_of_ok run_bind_of_error ensure_run_of_not)

/-! ### The failed decrements -/

/-- The event for a decrement that exceeds the stored balance. -/
def shortfall (accountIndex : UInt8) (data : Bytes) (adjustment : Adjustment) : List Event :=
  if amountAt data adjustment.addressIndex.index.toNat < adjustment.amount.toNat then
    [.failedSettlement accountIndex adjustment.addressIndex.index adjustment.amount
      (UInt64.ofNat (amountAt data adjustment.addressIndex.index.toNat)) errorInsufficientBalance]
  else []

def SettlementAdjustments.shortfalls (accounts : List AccountInfo) (accountData : Pubkey → Bytes)
    (tokenSettlements : SettlementAdjustments) : List Event :=
  match keyAt accounts tokenSettlements.accountIndex with
  | some key => tokenSettlements.decrements.flatMap (shortfall tokenSettlements.accountIndex (accountData key))
  | none => []

/-- The decrements of a batch, in order, that exceed the balances stored for them. -/
def failedDecrements (accounts : List AccountInfo) (accountData : Pubkey → Bytes)
    (settlements : List SettlementAdjustments) : List Event :=
  settlements.flatMap (SettlementAdjustments.shortfalls accounts accountData)

/-- The account is a token of the program, passed as the instruction wants it, and all wallets of the entry are in
use. -/
def EntryValid (accounts : List AccountInfo) (isWritable : Bool) (m : Memory)
    (tokenSettlements : SettlementAdjustments) : Prop :=
  Validated accounts tokenSettlements.accountIndex false isWritable (some .token) (some 0) m ∧
    ∀ key, keyAt accounts tokenSettlements.accountIndex = some key →
      ∀ adjustment ∈ tokenSettlements.increments ++ tokenSettlements.decrements,
        Wallet adjustment.addressIndex (m key).data

/-! ### The netting total -/

def amountsTotal (adjustments : List Adjustment) : UInt64 :=
  adjustments.foldl (fun total adjustment => total + adjustment.amount) 0

def nettingStep (runningNettingTotal : Int64) (tokenSettlements : SettlementAdjustments) : Int64 :=
  runningNettingTotal + ((amountsTotal tokenSettlements.increments + tokenSettlements.feeAmount).toInt64 -
    (amountsTotal tokenSettlements.decrements).toInt64)

def amountsSum (adjustments : List Adjustment) : Int :=
  (adjustments.map fun adjustment => (adjustment.amount.toNat : Int)).sum

/-- What the entries of a batch add up to: increments and fees, less the decrements. -/
def nettingSum (settlements : List SettlementAdjustments) : Int :=
  (settlements.map fun tokenSettlements => amountsSum tokenSettlements.increments +
    tokenSettlements.feeAmount.toNat - amountsSum tokenSettlements.decrements).sum

section Netting

theorem toBitVec_eq_ofInt (value : UInt64) : value.toBitVec = BitVec.ofInt 64 value.toNat := by
  apply BitVec.eq_of_toNat_eq
  rw [BitVec.ofInt_natCast, BitVec.toNat_ofNat]
  exact (Nat.mod_eq_of_lt value.toNat_lt).symm

theorem foldl_amounts_toBitVec (adjustments : List Adjustment) (total : UInt64) (sum : Int)
    (htotal : total.toBitVec = BitVec.ofInt 64 sum) :
    (adjustments.foldl (fun total adjustment => total + adjustment.amount) total).toBitVec =
      BitVec.ofInt 64 (sum + amountsSum adjustments) := by
  induction adjustments generalizing total sum with
  | nil =>
      rw [amountsSum, List.map_nil, List.sum_nil, Int.add_zero]
      exact htotal
  | cons adjustment adjustments ih =>
      rw [List.foldl_cons, ih _ (sum + adjustment.amount.toNat)]
      · congr 1
        simp only [amountsSum, List.map_cons, List.sum_cons]
        omega
      · rw [UInt64.toBitVec_add, htotal, toBitVec_eq_ofInt, BitVec.ofInt_add]

theorem amountsTotal_toBitVec (adjustments : List Adjustment) :
    (amountsTotal adjustments).toBitVec = BitVec.ofInt 64 (amountsSum adjustments) := by
  rw [amountsTotal, foldl_amounts_toBitVec adjustments 0 0 rfl, Int.zero_add]

theorem foldl_nettingStep_toBitVec (settlements : List SettlementAdjustments) (total : Int64) (sum : Int)
    (htotal : total.toBitVec = BitVec.ofInt 64 sum) :
    (settlements.foldl nettingStep total).toBitVec = BitVec.ofInt 64 (sum + nettingSum settlements) := by
  induction settlements generalizing total sum with
  | nil =>
      rw [nettingSum, List.map_nil, List.sum_nil, Int.add_zero]
      exact htotal
  | cons tokenSettlements settlements ih =>
      rw [List.foldl_cons, ih _ (sum + (amountsSum tokenSettlements.increments +
        tokenSettlements.feeAmount.toNat - amountsSum tokenSettlements.decrements))]
      · congr 1
        simp only [nettingSum, List.map_cons, List.sum_cons]
        omega
      · rw [nettingStep, Int64.toBitVec_add, Int64.toBitVec_sub, UInt64.toBitVec_toInt64, UInt64.toBitVec_toInt64,
          UInt64.toBitVec_add, htotal, amountsTotal_toBitVec, amountsTotal_toBitVec, toBitVec_eq_ofInt,
          BitVec.ofInt_add, Int.sub_eq_add_neg, BitVec.ofInt_add, BitVec.ofInt_add, BitVec.ofInt_neg,
          BitVec.sub_eq_add_neg]

/-- The running total is zero exactly when the sum is a multiple of the modulus. -/
theorem nettingTotal_eq_zero (settlements : List SettlementAdjustments) :
    settlements.foldl nettingStep 0 = 0 ↔ nettingSum settlements % 2 ^ 64 = 0 := by
  rw [← Int64.toBitVec_inj, foldl_nettingStep_toBitVec settlements 0 0 rfl, Int.zero_add, ← BitVec.toNat_inj,
    BitVec.toNat_ofInt]
  show (nettingSum settlements % ((2 ^ 64 : Nat) : Int)).toNat = 0 ↔ _
  omega

end Netting

/-! ### The verification of the entries -/

section Verification

variable {accounts : List AccountInfo} {m₀ : Memory} {program : AccountInfo}

theorem logs_validatedIndex {account : AccountInfo} {addressIndex : AddressIndex} (hne : account.key ≠ program.key)
    (hwallet : Wallet addressIndex (m₀ account.key).data) :
    Logs maxEvents (.custom errorValueTooLarge) (Logged m₀ program.key)
      (account.read (getValidatedIndex addressIndex)) addressIndex.index.toNat [] :=
  logs_read hne (getValidatedIndex_eq_ok.mpr ⟨hwallet, rfl⟩)

theorem logs_verifyDecrements (hroom : runeReceiverOffset ≤ (m₀ program.key).data.length)
    (hprogram : accounts[0]? = some program) {accountIndex : UInt8} {account : AccountInfo}
    (haccount : accounts[accountIndex.toNat]? = some account) (hne : account.key ≠ program.key)
    (hwell : WellFormed (m₀ account.key).data) {adjustments : List Adjustment}
    (hwallets : ∀ adjustment ∈ adjustments, Wallet adjustment.addressIndex (m₀ account.key).data) :
    Logs maxEvents (.custom errorValueTooLarge) (Logged m₀ program.key)
      (verifyDecrements accounts accountIndex adjustments) (amountsTotal adjustments)
      (adjustments.flatMap (shortfall accountIndex (m₀ account.key).data)) := by
  refine (logs_accountAt haccount).bind_nil (logs_foldlM (fun total adjustment hmem => ?_) 0)
  have hwallet := hwallets adjustment hmem
  refine (logs_validatedIndex hne hwallet).bind_nil ?_
  refine (logs_read hne (hwell.walletBalance hwallet.inUse)).bind_nil ?_
  refine Logs.then_nil (a := ()) ?_ logs_pure
  unfold shortfall
  simp only [← ofNat_amountAt_lt_iff]
  exact logs_when fun _ => logs_emitEvent hroom hprogram _

theorem logs_verifyIncrements {accountIndex : UInt8} {account : AccountInfo}
    (haccount : accounts[accountIndex.toNat]? = some account) (hne : account.key ≠ program.key)
    {adjustments : List Adjustment}
    (hwallets : ∀ adjustment ∈ adjustments, Wallet adjustment.addressIndex (m₀ account.key).data) :
    Logs maxEvents (.custom errorValueTooLarge) (Logged m₀ program.key)
      (verifyIncrements accounts accountIndex adjustments) (amountsTotal adjustments) [] := by
  have hnone : adjustments.flatMap (fun _ => ([] : List Event)) = [] := by simp
  rw [← hnone]
  refine (logs_accountAt haccount).bind_nil (logs_foldlM (fun total adjustment hmem => ?_) 0)
  exact (logs_validatedIndex hne (hwallets adjustment hmem)).bind_nil logs_pure

/-- One entry adds to the netting total and logs its failed decrements. -/
theorem logs_verifySettlement (hroom : runeReceiverOffset ≤ (m₀ program.key).data.length)
    (hprogram : accounts[0]? = some program) (hkind : getType (m₀ program.key).data = .ok .program)
    (hwell : ∀ key, getType (m₀ key).data = .ok .token → WellFormed (m₀ key).data)
    {tokenSettlements : SettlementAdjustments} (hvalid : EntryValid accounts false m₀ tokenSettlements) (total : Int64) :
    Logs maxEvents (.custom errorValueTooLarge) (Logged m₀ program.key)
      (verifySettlement accounts total tokenSettlements) (nettingStep total tokenSettlements)
      (tokenSettlements.shortfalls accounts fun key => (m₀ key).data) := by
  obtain ⟨hvalidated, hwallets⟩ := hvalid
  obtain ⟨account, haccount, -⟩ := id hvalidated
  have hkey := keyAt_of_listed haccount
  have htoken := hvalidated.type_eq haccount
  have hne : account.key ≠ program.key := by
    intro heq
    rw [heq, hkind] at htoken
    cases htoken
  have hall := List.forall_mem_append.mp (hwallets account.key hkey)
  rw [SettlementAdjustments.shortfalls, hkey]
  refine (logs_validate hkind (by decide) hvalidated).bind_nil ?_
  refine Logs.then_nil (logs_verifyDecrements hroom hprogram haccount hne (hwell _ htoken) hall.2) ?_
  exact (logs_verifyIncrements haccount hne hall.1).bind_nil logs_pure

end Verification

/-! ### The preparation -/

/-- What a preparation leaves behind: the log, the hash where it is empty, and nothing else. -/
structure SettlementPrepared (accountData : Pubkey → Bytes) (program : Pubkey) (events : List Event) (digest : Hash)
    (accountData' : Pubkey → Bytes) : Prop where
  others : ∀ key, key ≠ program → accountData' key = accountData key
  length : (accountData' program).length = (accountData program).length
  lastSettlementHash : hashFromSlice lastSettlementHashOffset (accountData' program) =
    hashFromSlice lastSettlementHashOffset (accountData program)
  log : storedEvents (accountData' program) = .ok events
  settlementHash : ProgramState.getSettlementHash (accountData' program) =
    .ok (if events = [] then digest else emptyHash)

section Preparation

variable {accounts : List AccountInfo} {m₀ verified : Memory} {program : AccountInfo}

/-- The end of a preparation that found the batch to net. -/
def finishPreparation (program : AccountInfo) (digest : Hash) : Prog Unit := do
  let eventsCount ← program.read ProgramState.getEventsCount
  Exec.when (eventsCount = 0) (program.write (ProgramState.setSettlementHash digest))

theorem finishPreparation_of_events {event : Event} {events : List Event} {digest : Hash}
    (hhash : ProgramState.getSettlementHash (m₀ program.key).data = .ok emptyHash)
    (hverified : Logged m₀ program.key (event :: events) verified) :
    ∃ m, (finishPreparation program digest).run verified = .ok () m ∧
      SettlementPrepared (fun key => (m₀ key).data) program.key (event :: events) digest fun key => (m key).data := by
  refine ⟨verified, read_bind_eq_ok.mpr ⟨_, hverified.events.count, ?_⟩, ?_⟩
  · exact Exec.when_eq_ok.mpr (Or.inr ⟨Nat.succ_ne_zero _, rfl⟩)
  · refine ⟨hverified.others, hverified.length, ?_, hverified.events.storedEvents, ?_⟩
    · exact hashFromSlice_congr fun o ho => hverified.low o ho.2
    · rw [if_neg (List.cons_ne_nil _ _), ← hhash]
      exact hashFromSlice_congr fun o ho => hverified.low o (Nat.lt_trans ho.2 (by decide))

theorem finishPreparation_of_nil {digest : Hash} (hroom : runeReceiverOffset ≤ (m₀ program.key).data.length)
    (hverified : Logged m₀ program.key [] verified) :
    ∃ m, (finishPreparation program digest).run verified = .ok () m ∧
      SettlementPrepared (fun key => (m₀ key).data) program.key [] digest fun key => (m key).data := by
  obtain ⟨data, hdata⟩ : ∃ data, ProgramState.setSettlementHash digest (verified program.key).data = .ok data := by
    have hfits : settlementHashOffset + digest.1.length ≤ (verified program.key).data.length := by
      rw [digest.2, hverified.length]
      exact Nat.le_trans (by decide) hroom
    exact writeBlock_run hfits
  obtain ⟨hlength, hsame⟩ := writes_setSettlementHash digest _ _ hdata
  refine ⟨verified.setData program.key data, read_bind_eq_ok.mpr ⟨_, hverified.events.count, ?_⟩, ?_⟩
  · exact Exec.when_eq_ok.mpr (Or.inl ⟨rfl, write_run hdata⟩)
  · refine ⟨fun key hne => ?_, ?_, ?_, ?_, ?_⟩
    · rw [Memory.setData_of_ne _ _ hne]
      exact hverified.others key hne
    · rw [Memory.setData_self, ← hverified.length]
      exact hlength
    · rw [Memory.setData_self]
      apply hashFromSlice_congr
      intro o ho
      rw [hsame o fun hwithin => Nat.not_le.mpr hwithin.2 ho.1]
      exact hverified.low o ho.2
    · rw [Memory.setData_self]
      apply EventsAt.storedEvents
      apply hverified.events.of_eq
      intro o ho
      have hlow : 286 ≤ o := ho
      apply hsame
      intro hwithin
      have hhigh := hwithin.2
      omega
    · rw [Memory.setData_self, if_pos rfl]
      exact hashFromSlice_writeBlock hdata

/-- Once the batch is known to net, the preparation succeeds. -/
theorem finishPreparation_run {events : List Event} {digest : Hash}
    (hroom : runeReceiverOffset ≤ (m₀ program.key).data.length)
    (hhash : ProgramState.getSettlementHash (m₀ program.key).data = .ok emptyHash)
    (hverified : Logged m₀ program.key events verified) :
    ∃ m, (finishPreparation program digest).run verified = .ok () m ∧
      SettlementPrepared (fun key => (m₀ key).data) program.key events digest fun key => (m key).data := by
  cases events with
  | nil => exact finishPreparation_of_nil hroom hverified
  | cons event events => exact finishPreparation_of_events hhash hverified

/-- Past its checks and the clearing of the events, a preparation verifies its entries from an empty log. -/
theorem prepareSettlementBatch_verifies (rt : Runtime) (params : SettlementBatchParams) (rawParamsData : Bytes)
    (hprogram : accounts[0]? = some program) (hvalidated : Validated accounts 0 true true (some .program) none m₀)
    (hroom : runeReceiverOffset ≤ (m₀ program.key).data.length)
    (hhash : ProgramState.getSettlementHash (m₀ program.key).data = .ok emptyHash) :
    ∃ cleared, Logged m₀ program.key [] cleared ∧
      (prepareSettlementBatch rt accounts params rawParamsData).run m₀ =
        (params.settlements.foldlM (verifySettlement accounts) 0 >>= fun runningNettingTotal =>
          Exec.ensure (runningNettingTotal = 0) (.custom errorNetting) >>= fun _ =>
            finishPreparation program (rt.digest rawParamsData)).run cleared := by
  obtain ⟨cleared, hclear, hlogged⟩ := clearEvents_logged hroom
  refine ⟨cleared, hlogged, ?_⟩
  rw [prepareSettlementBatch, run_bind_of_ok ((validateAccount_eq_ok (u := ())).mpr ⟨hvalidated, rfl⟩),
    run_bind_of_ok (accountAt_eq_ok.mpr ⟨hprogram, rfl⟩), run_bind_of_ok (read_eq_ok.mpr ⟨hhash, rfl⟩),
    run_bind_of_ok ((Exec.ensure_eq_ok (u := ())).mpr ⟨rfl, rfl⟩), run_bind_of_ok hclear]
  rfl

/-- The three ways in which a preparation with valid entries ends. -/
theorem prepareSettlementBatch_ends (rt : Runtime) (params : SettlementBatchParams) (rawParamsData : Bytes)
    (hprogram : accounts[0]? = some program) (hvalidated : Validated accounts 0 true true (some .program) none m₀)
    (hstate : StateWellFormed (fun key => (m₀ key).data) program.key)
    (hhash : ProgramState.getSettlementHash (m₀ program.key).data = .ok emptyHash)
    (hentries : ∀ tokenSettlements ∈ params.settlements, EntryValid accounts false m₀ tokenSettlements) :
    (maxEvents < (failedDecrements accounts (fun key => (m₀ key).data) params.settlements).length →
      ∃ m, (prepareSettlementBatch rt accounts params rawParamsData).run m₀ =
        .error (.custom errorValueTooLarge) m) ∧
    ((failedDecrements accounts (fun key => (m₀ key).data) params.settlements).length ≤ maxEvents →
      nettingSum params.settlements % 2 ^ 64 ≠ 0 →
      ∃ m, (prepareSettlementBatch rt accounts params rawParamsData).run m₀ = .error (.custom errorNetting) m) ∧
    ((failedDecrements accounts (fun key => (m₀ key).data) params.settlements).length ≤ maxEvents →
      nettingSum params.settlements % 2 ^ 64 = 0 →
      ∃ m, (prepareSettlementBatch rt accounts params rawParamsData).run m₀ = .ok () m ∧
        SettlementPrepared (fun key => (m₀ key).data) program.key
          (failedDecrements accounts (fun key => (m₀ key).data) params.settlements) (rt.digest rawParamsData)
          fun key => (m key).data) := by
  obtain ⟨cleared, hlogged, hrun⟩ :=
    prepareSettlementBatch_verifies rt params rawParamsData hprogram hvalidated hstate.room hhash
  have hkind := hvalidated.type_eq hprogram
  have hverify : Logs maxEvents (.custom errorValueTooLarge) (Logged m₀ program.key)
      (params.settlements.foldlM (verifySettlement accounts) 0) (params.settlements.foldl nettingStep 0)
      (failedDecrements accounts (fun key => (m₀ key).data) params.settlements) :=
    logs_foldlM (fun total tokenSettlements hmem =>
      logs_verifySettlement hstate.room hprogram hkind hstate.tokens (hentries tokenSettlements hmem) total) 0
  obtain ⟨hfits, hoverflows⟩ := hverify [] cleared (Nat.zero_le _) hlogged
  rw [List.nil_append] at hfits hoverflows
  rw [hrun]
  refine ⟨fun hover => ?_, fun hroom hnets => ?_, fun hroom hnets => ?_⟩
  · obtain ⟨m, herror⟩ := hoverflows hover
    exact ⟨m, run_bind_of_error herror⟩
  · obtain ⟨verified, hok, hverified⟩ := hfits hroom
    have htotal := mt (nettingTotal_eq_zero params.settlements).mp hnets
    rw [run_bind_of_ok hok]
    exact ⟨verified, run_bind_of_error (ensure_run_of_not htotal verified)⟩
  · obtain ⟨verified, hok, hverified⟩ := hfits hroom
    have htotal := (nettingTotal_eq_zero params.settlements).mpr hnets
    rw [run_bind_of_ok hok, run_bind_of_ok ((Exec.ensure_eq_ok (u := ())).mpr ⟨htotal, rfl⟩)]
    exact finishPreparation_run hstate.room hhash hverified

end Preparation

/-! ### The call -/

/-- What a preparation does, for every batch whose accounts and wallets are valid: too many failed decrements, a
batch that does not net, or a log of the failed decrements with the hash set where there are none. -/
theorem settlementPreparation_outcome (rt : Runtime) (w : World) (programId : Pubkey) (accounts : List AccountInfo)
    (program : AccountInfo) (rawParamsData : Bytes) (params : SettlementBatchParams)
    (hparams : decodeFromSlice SettlementBatchParams.decode rawParamsData = .ok params)
    (hprogram : accounts[0]? = some program)
    (hvalidated : Validated accounts 0 true true (some .program) none (load w))
    (hstate : StateWellFormed (fun key => (w key).data) program.key)
    (hhash : ProgramState.getSettlementHash (w program.key).data = .ok emptyHash)
    (hentries : ∀ tokenSettlements ∈ params.settlements, EntryValid accounts false (load w) tokenSettlements) :
    (maxEvents < (failedDecrements accounts (fun key => (w key).data) params.settlements).length →
      ((settlementCall 5 programId accounts rawParamsData).outcome rt w).failure =
        some (.custom errorValueTooLarge)) ∧
    ((failedDecrements accounts (fun key => (w key).data) params.settlements).length ≤ maxEvents →
      nettingSum params.settlements % 2 ^ 64 ≠ 0 →
      ((settlementCall 5 programId accounts rawParamsData).outcome rt w).failure = some (.custom errorNetting)) ∧
    ((failedDecrements accounts (fun key => (w key).data) params.settlements).length ≤ maxEvents →
      nettingSum params.settlements % 2 ^ 64 = 0 →
      ∃ w', execute rt w (settlementCall 5 programId accounts rawParamsData) = some w' ∧
        SettlementPrepared (fun key => (w key).data) program.key
          (failedDecrements accounts (fun key => (w key).data) params.settlements) (rt.digest rawParamsData)
          fun key => (w' key).data) := by
  have hinstruction := settlementCall_prepare hparams programId accounts
  obtain ⟨hoverflows, hunbalanced, hsucceeds⟩ :=
    prepareSettlementBatch_ends rt params rawParamsData hprogram hvalidated hstate hhash hentries
  refine ⟨fun hover => ?_, fun hroom hnets => ?_, fun hroom hnets => ?_⟩
  · obtain ⟨m, herror⟩ := hoverflows hover
    exact Outcome.failure_eq_some.mpr ⟨m, (outcome_eq hinstruction).trans herror⟩
  · obtain ⟨m, herror⟩ := hunbalanced hroom hnets
    exact Outcome.failure_eq_some.mpr ⟨m, (outcome_eq hinstruction).trans herror⟩
  · obtain ⟨m, hok, hprepared⟩ := hsucceeds hroom hnets
    have hlengths : ∀ key, (m key).data.length = (w key).data.length := by
      intro key
      by_cases hkey : key = program.key
      · rw [hkey]
        exact hprepared.length
      · exact congrArg List.length (hprepared.others key hkey)
    obtain ⟨w', hexecute, hdata⟩ := execute_of_run hinstruction hok hlengths
    have hsame : (fun key => (w' key).data) = fun key => (m key).data := funext hdata
    refine ⟨w', hexecute, ?_⟩
    rw [hsame]
    exact hprepared

/-- An entry is valid by the account at its position. -/
theorem entryValid_of_listed (program account : AccountInfo) {accounts : List AccountInfo} {m : Memory}
    {tokenSettlements : SettlementAdjustments} (hprogram : accounts[0]? = some program)
    (haccount : accounts[tokenSettlements.accountIndex.toNat]? = some account) (hsigner : account.isSigner = false)
    (hbound : Bound .token program.key (m account.key).data)
    (hwallets : ∀ adjustment ∈ tokenSettlements.increments ++ tokenSettlements.decrements,
      adjustment.addressIndex.index.toNat < numBalances (m account.key).data ∧
        Balance.getWalletAddressLast4 adjustment.addressIndex.index.toNat (m account.key).data =
          .ok adjustment.addressIndex.last4) :
    EntryValid accounts account.isWritable m tokenSettlements := by
  refine ⟨⟨account, haccount, hsigner, rfl, program, hprogram, hbound⟩, fun key hkey adjustment hmem => ?_⟩
  obtain rfl := Option.some.inj (hkey.symm.trans (keyAt_of_listed haccount))
  obtain ⟨hinUse, hlast4⟩ := hwallets adjustment hmem
  exact ⟨hinUse, hlast4⟩

/-- The second wallet, which holds 100 of the first token, pays 150 to the first wallet. -/
def overdrawnTrade : Bytes :=
  batchBytes [settlementBytes 1 [adjustmentBytes 1 firstAddress 150] [adjustmentBytes 2 secondAddress 150] 0]

def overdrawnTradeParams : SettlementBatchParams where
  settlements :=
    [{ accountIndex := 1
       increments := [⟨⟨1, ⟨firstAddress.drop 40, firstAddress_last4⟩⟩, 150⟩]
       decrements := [⟨⟨2, ⟨secondAddress.drop 40, secondAddress_last4⟩⟩, 150⟩]
       feeAmount := 0 }]

def overdrawnTradeDigest : Hash :=
  ⟨[0x2c, 0x95, 0x66, 0x82, 0x91, 0x63, 0x3e, 0xc0, 0xe6, 0x8d, 0xcd, 0x01, 0x83, 0xc7, 0x94, 0xf6,
    0x2e, 0xc9, 0xcf, 0xb3, 0x5a, 0xaa, 0x2e, 0x91, 0x01, 0x02, 0x54, 0xa0, 0xa0, 0x9f, 0x14, 0xa5], rfl⟩

def overdrawnTradeRuntime : Runtime := sampleRuntime [(overdrawnTrade, overdrawnTradeDigest)]

theorem tradingWorld_wellFormed : StateWellFormed (fun key => (tradingWorld key).data) sampleProgram := by
  apply sampleWorld_wellFormed (by decide +kernel) (by decide +kernel)
  intro entry hentry htoken
  simp only [List.mem_cons, List.not_mem_nil, or_false] at hentry
  rcases hentry with rfl | rfl | rfl
  · exact absurd htoken (by decide +kernel)
  · exact tokenData_wellFormed ⟨[0x31], by decide⟩ (by decide) (by decide) 0 0 100
  · exact tokenData_wellFormed ⟨[0x32], by decide⟩ (by decide) (by decide) 0 100 0

/-- The overdrawn trade nets, so that it is reported and its hash is not set. -/
theorem overdrawnTrade_reported :
    ∃ w', execute overdrawnTradeRuntime tradingWorld (tradeCall 5 false overdrawnTrade) = some w' ∧
      SettlementPrepared (fun key => (tradingWorld key).data) sampleProgram
        [.failedSettlement 1 2 150 100 errorInsufficientBalance] overdrawnTradeDigest fun key => (w' key).data := by
  have hfailed : failedDecrements (tokenAccounts false) (fun key => (tradingWorld key).data)
      overdrawnTradeParams.settlements = [.failedSettlement 1 2 150 100 errorInsufficientBalance] := by
    decide +kernel
  have hvalidated : Validated (tokenAccounts false) 0 true true (some .program) none (load tradingWorld) := by
    have hkind : getType (load tradingWorld sampleProgram).data = .ok .program := by decide +kernel
    exact ⟨⟨sampleProgram, true, true⟩, rfl, rfl, rfl, hkind⟩
  have hentries : ∀ tokenSettlements ∈ overdrawnTradeParams.settlements,
      EntryValid (tokenAccounts false) false (load tradingWorld) tokenSettlements := by
    intro tokenSettlements hmem
    obtain rfl := List.mem_singleton.mp hmem
    exact entryValid_of_listed ⟨sampleProgram, true, true⟩ ⟨firstToken, false, false⟩ rfl rfl rfl
      ⟨by decide +kernel, by decide +kernel⟩ (by decide +kernel)
  have hparams : decodeFromSlice SettlementBatchParams.decode overdrawnTrade = .ok overdrawnTradeParams := by
    decide +kernel
  have hhash : ProgramState.getSettlementHash (tradingWorld sampleProgram).data = .ok emptyHash := by decide +kernel
  obtain ⟨w', hexecute, hprepared⟩ := (settlementPreparation_outcome overdrawnTradeRuntime tradingWorld
    (sampleKey 0xee) (tokenAccounts false) ⟨sampleProgram, true, true⟩ overdrawnTrade overdrawnTradeParams hparams rfl
    hvalidated tradingWorld_wellFormed hhash hentries).2.2 (by rw [hfailed]; decide) (by decide)
  rw [hfailed] at hprepared
  exact ⟨w', hexecute, hprepared⟩

end Chainring.Arch

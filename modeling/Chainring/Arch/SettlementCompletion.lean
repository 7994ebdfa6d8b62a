import Chainring.Arch.SettlementConservation
import Chainring.Arch.TokenHistory

/-! When a prepared settlement can be submitted. Whatever ran in between, what the preparation has
verified of accounts and wallets still stands; what it has not verified is that the debits are covered
one after the other, and that the fees and increments have slots to go to. -/

namespace Chainring.Arch

def AccountInfo.asWritable (account : AccountInfo) : AccountInfo := { account with isWritable := true }

/-- The accounts of a submission are those of the preparation, the token accounts now writable. -/
structure Resubmits (settlements : List SettlementAdjustments) (accounts accounts' : List AccountInfo) :
    Prop where
  program : accounts'[0]? = accounts[0]?
  tokens : ∀ tokenSettlements ∈ settlements, accounts'[tokenSettlements.accountIndex.toNat]? =
    (accounts[tokenSettlements.accountIndex.toNat]?).map AccountInfo.asWritable

/-- The slots that a submission needs and the preparation does not look at. -/
structure HasSlots (tokenSettlements : SettlementAdjustments) (data : Bytes) : Prop where
  fee : 0 < tokenSettlements.feeAmount → FeeReady data
  increments : ∀ adjustment ∈ tokenSettlements.increments,
    HasAmount data adjustment.addressIndex.index.toNat

def Submittable (w : World) (accounts : List AccountInfo) (settlements : List SettlementAdjustments) : Prop :=
  (∀ tokenSettlements ∈ settlements, ∀ token,
    keyAt accounts tokenSettlements.accountIndex = some token → HasSlots tokenSettlements (w token).data) ∧
  Ledger.Covered amountModulus (balances (load w)) (settlements.flatMap (entriesOf accounts))

section Resubmits

variable {settlements : List SettlementAdjustments} {accounts accounts' : List AccountInfo}

theorem Resubmits.sameTokenAccounts (h : Resubmits settlements accounts accounts') :
    SameTokenAccounts settlements accounts accounts' := by
  intro tokenSettlements hmem
  rw [keyAt, keyAt, h.tokens tokenSettlements hmem, Option.map_map]
  rfl

/-! ### What stands at the submission -/

theorem HasSlots.adjustmentsReady {tokenSettlements : SettlementAdjustments} {data data' : Bytes}
    (h : HasSlots tokenSettlements data') (hverified : AdjustmentsVerified tokenSettlements data)
    (hkept : Kept data data') : AdjustmentsReady tokenSettlements data' where
  fee := h.fee
  increments := fun adjustment hmem =>
    ⟨hkept.wallet (hverified.increments adjustment hmem), h.increments adjustment hmem⟩
  decrements := fun adjustment hmem => by
    obtain ⟨⟨hwallet, hamount⟩, -⟩ := hverified.decrements adjustment hmem
    exact ⟨hkept.wallet hwallet, hkept.hasAmount hamount⟩

theorem AdjustmentsReady.hasSlots {tokenSettlements : SettlementAdjustments} {data : Bytes}
    (h : AdjustmentsReady tokenSettlements data) : HasSlots tokenSettlements data where
  fee := h.fee
  increments := fun adjustment hmem => (h.increments adjustment hmem).2

/-- A verified entry is ready once the slots are there. -/
theorem settlementReady_iff {tokenSettlements : SettlementAdjustments} {before now : World}
    (hresubmits : Resubmits settlements accounts accounts') (hmem : tokenSettlements ∈ settlements)
    (hverified : SettlementVerified accounts (load before) tokenSettlements)
    (hkept : ∀ token, getType (before token).data = .ok .token → Kept (before token).data (now token).data) :
    SettlementReady accounts' (load now) tokenSettlements ↔
      ∀ token, keyAt accounts tokenSettlements.accountIndex = some token →
        HasSlots tokenSettlements (now token).data := by
  have hsame := hresubmits.sameTokenAccounts tokenSettlements hmem
  constructor
  · rintro ⟨-, hready⟩ token htoken
    rw [← hsame] at htoken
    exact (hready token htoken).hasSlots
  · intro hslots
    obtain ⟨⟨account, haccount, hsigner, -, related, hrelated, hbound⟩, hadjustments⟩ := hverified
    have hkeptAccount := hkept account.key hbound.1
    constructor
    · refine ⟨account.asWritable, ?_, hsigner, rfl, related, ?_, hkeptAccount.bound hbound⟩
      · rw [hresubmits.tokens tokenSettlements hmem, haccount]
        rfl
      · exact hresubmits.program.trans hrelated
    · intro token htoken
      rw [hsame] at htoken
      obtain rfl := Option.some.inj ((keyAt_of_listed haccount).symm.trans htoken)
      exact (hslots account.key htoken).adjustmentsReady (hadjustments account.key htoken) hkeptAccount

end Resubmits

/-! ### The submission -/

section Submission

variable {rt : Runtime} {accounts : List AccountInfo} {m : Memory} {raw : Bytes}

/-- With the hash in the register a submission succeeds when its loop does, and keeps all lengths. -/
theorem submitSettlementBatch_isOk {params : SettlementBatchParams} {program : AccountInfo}
    (hprogram : accounts[0]? = some program)
    (hvalidated : Validated accounts 0 true true (some .program) none m)
    (hhash : ProgramState.getSettlementHash (m program.key).data = .ok (rt.digest raw))
    (hne : rt.digest raw ≠ emptyHash) (hlength : eventsOffset ≤ (m program.key).data.length)
    (happly : ∃ u applied, (params.settlements.forM (applySettlement accounts)).run m = .ok u applied) :
    ∃ m', (submitSettlementBatch rt accounts params raw).run m = .ok () m' ∧
      ∀ key, (m' key).data.length = (m key).data.length := by
  obtain ⟨u, applied, happly⟩ := happly
  obtain ⟨-, hamounts, -⟩ := posts_settlements params.settlements m u applied (AmountsOnly.refl m) happly
  have hroom : lastSettlementHashOffset + (rt.digest raw).1.length ≤ (applied program.key).data.length := by
    rw [hamounts.length, (rt.digest raw).2]
    exact Nat.le_trans (by decide) hlength
  obtain ⟨marked, hmarkedLength, hmark⟩ := write_isOk hroom
  have hroom' : settlementHashOffset + emptyHash.1.length ≤
      ((applied.setData program.key marked) program.key).data.length := by
    rw [Memory.setData_self, hmarkedLength, hamounts.length, emptyHash.2]
    exact Nat.le_trans (by decide) hlength
  obtain ⟨cleared, hclearedLength, hclear⟩ := write_isOk hroom'
  refine ⟨(applied.setData program.key marked).setData program.key cleared, ?_, fun key => ?_⟩
  · apply validate_bind_eq_ok.mpr
    refine ⟨hvalidated, accountAt_bind_eq_ok.mpr ⟨program, hprogram, read_bind_eq_ok.mpr ⟨_, hhash, ?_⟩⟩⟩
    apply Exec.ensure_bind_eq_ok.mpr
    refine ⟨hne, Exec.ensure_bind_eq_ok.mpr ⟨rfl, ?_⟩⟩
    exact Exec.bind_eq_ok.mpr ⟨u, applied, happly, Exec.bind_eq_ok.mpr ⟨(), _, hmark, hclear⟩⟩
  · rw [Memory.setData_data]
    split
    · next hkey => rw [hclearedLength, Memory.setData_self, hmarkedLength, hamounts.length, hkey]
    · next hkey => rw [Memory.setData_of_ne _ _ hkey, hamounts.length]

end Submission

/-! ### From the preparation to the submission -/

section Run

variable {rt : Runtime} {before prepared : World} {accounts accounts' : List AccountInfo} {raw : Bytes}
  {params : SettlementBatchParams} {programId : Pubkey} {program : AccountInfo}

/-- What a preparation that sets the hash leaves behind. -/
theorem prepared_facts (hparams : decodeFromSlice SettlementBatchParams.decode raw = .ok params)
    (hprogram : accounts[0]? = some program)
    (hprepare : execute rt before (settlementCall 5 programId accounts raw) = some prepared)
    (hset : settlementHash prepared program.key ≠ .ok emptyHash) :
    (∀ tokenSettlements ∈ params.settlements, SettlementVerified accounts (load before) tokenSettlements) ∧
      settlementHash prepared program.key = .ok (rt.digest raw) ∧
      getType (prepared program.key).data = .ok .program ∧
      program.isSigner = true ∧ program.isWritable = true ∧
      eventsOffset ≤ (prepared program.key).data.length := by
  obtain ⟨instruction, m, hinstruction, hrun, htouches, hdata⟩ := execute_cases hprepare
  obtain rfl := Except.ok.inj (hinstruction.symm.trans (settlementCall_prepare hparams programId accounts))
  have hload := load_loaded accounts before
  rw [settlementHash, hdata] at hset
  obtain ⟨-, hempty | hdigest⟩ := prepareSettlementBatch_hash hload hrun hprogram
  · exact absurd hempty hset
  obtain ⟨program', cleared, verified, hvalidated, hfirst, -, -, -, count, hcount, hcase⟩ :=
    prepareSettlementBatch_cases hrun
  obtain rfl : program' = program := Option.some.inj (hfirst.symm.trans hprogram)
  obtain ⟨account, haccount, hsigner, hwritable, htype⟩ := hvalidated
  obtain rfl : account = program' := Option.some.inj (haccount.symm.trans hfirst)
  have hlength : eventsOffset ≤ (m account.key).data.length := by
    obtain ⟨block, hblock, -⟩ := CheckedWord.bind_eq_ok.mp hcount
    have hle := Bytes.slice_le (by decide) (readBlock_eq_ok.mp hblock)
    rcases hcase with ⟨-, hwrite⟩ | ⟨-, rfl⟩
    · obtain ⟨data, hput, rfl⟩ := write_eq_ok.mp hwrite
      rw [Memory.setData_self, (writes_setSettlementHash _ _ _ hput).1]
      exact hle
    · exact hle
  refine ⟨prepareSettlementBatch_verified hload hrun hprogram hset, ?_, ?_, hsigner, hwritable, ?_⟩
  · rw [settlementHash, hdata]
    exact hdigest
  · rw [hdata]
    exact (htouches.getType_eq (ne_nil_of_getType htype)).trans htype
  · rw [hdata]
    exact hlength

/-- With the hash in the register the submission returns exactly when its loop does. -/
theorem execute_submit_isSome_iff {w : World}
    (hparams : decodeFromSlice SettlementBatchParams.decode raw = .ok params)
    (hprogram : accounts[0]? = some program) (hsigner : program.isSigner = true)
    (hwritable : program.isWritable = true) (htype : getType (w program.key).data = .ok .program)
    (hhash : settlementHash w program.key = .ok (rt.digest raw)) (hne : rt.digest raw ≠ emptyHash)
    (hlength : eventsOffset ≤ (w program.key).data.length) :
    (execute rt w (settlementCall 6 programId accounts raw)).isSome ↔
      ∃ u applied, (params.settlements.forM (applySettlement accounts)).run (load w) = .ok u applied := by
  have hinstruction := settlementCall_submit hparams programId accounts
  constructor
  · intro hsome
    obtain ⟨w', hexecute⟩ := Option.isSome_iff_exists.mp hsome
    obtain ⟨instruction, m, hinstruction', hrun, -, -⟩ := execute_cases hexecute
    obtain rfl := Except.ok.inj (hinstruction'.symm.trans hinstruction)
    obtain ⟨_, applied, _, -, -, -, -, happly, -, -⟩ := submitSettlementBatch_cases hrun
    exact ⟨(), applied, happly⟩
  · intro happly
    obtain ⟨m, hrun, hlengths⟩ := submitSettlementBatch_isOk (m := load w) hprogram
      ⟨program, hprogram, hsigner, hwritable, htype⟩ hhash hne hlength happly
    obtain ⟨w', hexecute, -⟩ := execute_of_run hinstruction hrun hlengths
    exact Option.isSome_iff_exists.mpr ⟨w', hexecute⟩

/-- A run does not shrink an account. -/
theorem worldAt_length_le {start : World} {calls : List Call} {n k : Nat} (hnk : n ≤ k)
    (hk : k ≤ calls.length) (key : Pubkey) :
    (worldAt rt start calls n key).data.length ≤ (worldAt rt start calls k key).data.length :=
  worldAt_relates rt start calls (R := fun w w' => (w key).data.length ≤ (w' key).data.length)
    (fun _ => Nat.le_refl _) (fun _ w' call ih => Nat.le_trans ih (step_length_le rt w' call key)) hnk hk

end Run

/-- A prepared settlement can be submitted exactly when its debits are covered one after the other and
its fees and increments have slots to go to, whatever calls came in between that left the hash. -/
theorem prepared_submits_iff (rt : Runtime) (before prepared : World) (others : List Call)
    (programId programId' : Pubkey) (accounts accounts' : List AccountInfo) (program : AccountInfo)
    (raw : Bytes) (params : SettlementBatchParams)
    (hparams : decodeFromSlice SettlementBatchParams.decode raw = .ok params)
    (hprogram : accounts[0]? = some program)
    (hresubmits : Resubmits params.settlements accounts accounts')
    (hprepare : execute rt before (settlementCall 5 programId accounts raw) = some prepared)
    (hset : settlementHash prepared program.key ≠ .ok emptyHash)
    (hleft : settlementHash (worldAt rt prepared others others.length) program.key =
      settlementHash prepared program.key) :
    (execute rt (worldAt rt prepared others others.length)
        (settlementCall 6 programId' accounts' raw)).isSome ↔
      Submittable (worldAt rt prepared others others.length) accounts params.settlements := by
  obtain ⟨hverified, hdigest, htype, hsigner, hwritable, hlength⟩ :=
    prepared_facts hparams hprogram hprepare hset
  have hne : rt.digest raw ≠ emptyHash := by
    intro hempty
    rw [hdigest, hempty] at hset
    exact hset rfl
  have htypeNow : getType (worldAt rt prepared others others.length program.key).data = .ok .program :=
    (getType_congr (worldAt_header (Nat.zero_le _) (Nat.le_refl _) (ne_nil_of_getType htype))).trans htype
  have hlengthNow : eventsOffset ≤ (worldAt rt prepared others others.length program.key).data.length :=
    Nat.le_trans hlength (worldAt_length_le (Nat.zero_le _) (Nat.le_refl _) program.key)
  have hkept : ∀ token, getType (before token).data = .ok .token →
      Kept (before token).data (worldAt rt prepared others others.length token).data := by
    intro token htoken
    have hstep := step_kept rt before (settlementCall 5 programId accounts raw) htoken
    rw [step_of_execute hprepare] at hstep
    exact hstep.trans (worldAt_kept (Nat.zero_le _) (Nat.le_refl _) (hstep.getType_eq.trans htoken))
  rw [execute_submit_isSome_iff hparams (hresubmits.program.trans hprogram) hsigner hwritable htypeNow
      (hleft.trans hdigest) hne hlengthNow,
    admits_settlements params.settlements _ (AmountsOnly.refl _),
    Ledger.run_isSome_iff amountModulus (by decide) (balances_lt _),
    hresubmits.sameTokenAccounts.flatMap_entriesOf]
  apply and_congr_left
  intro _
  exact forall₂_congr fun tokenSettlements hmem =>
    settlementReady_iff hresubmits hmem (hverified tokenSettlements hmem) hkept

/-! ### Two settlements -/

/-- The accounts of a deposit to the first token. -/
def depositAccounts : List AccountInfo := [⟨sampleProgram, true, false⟩, ⟨firstToken, false, true⟩]

/-- Seven of the first token for the first wallet. -/
def depositCall : Call where
  programId := sampleKey 0xee
  accounts := depositAccounts
  instructionData := [3] ++ batchBytes [[1] ++ batchBytes [adjustmentBytes 1 firstAddress 7]]

/-- The even trade, prepared, still goes through after a deposit. -/
theorem evenTrade_submittable :
    ∃ prepared, execute tradingRuntime tradingWorld (tradeCall 5 false evenTrade) = some prepared ∧
      Submittable (worldAt tradingRuntime prepared [depositCall] 1) (tokenAccounts false)
        evenTradeParams.settlements := by
  have hrun : ((execute tradingRuntime tradingWorld (tradeCall 5 false evenTrade)).map fun prepared =>
      (settlementHash prepared sampleProgram,
        settlementHash (worldAt tradingRuntime prepared [depositCall] 1) sampleProgram,
        (execute tradingRuntime (worldAt tradingRuntime prepared [depositCall] 1)
          (tradeCall 6 true evenTrade)).isSome)) =
      some (.ok evenTradeDigest, .ok evenTradeDigest, true) := by
    decide +kernel
  obtain ⟨prepared, hprepared, hvalues⟩ := Option.map_eq_some_iff.mp hrun
  simp only [Prod.mk.injEq] at hvalues
  obtain ⟨hset, hleft, hsubmits⟩ := hvalues
  refine ⟨prepared, hprepared, ?_⟩
  apply (prepared_submits_iff tradingRuntime tradingWorld prepared [depositCall] (sampleKey 0xee)
    (sampleKey 0xee) (tokenAccounts false) (tokenAccounts true) ⟨sampleProgram, true, true⟩ evenTrade
    evenTradeParams (by decide +kernel) rfl ⟨rfl, by decide⟩ hprepared ?_ (hleft.trans hset.symm)).mp hsubmits
  rw [hset]
  decide

/-- The first wallet, which holds 100, pays 60 to the second wallet, twice. -/
def doubleTrade : Bytes :=
  batchBytes [settlementBytes 1 [adjustmentBytes 2 secondAddress 120]
    [adjustmentBytes 1 firstAddress 60, adjustmentBytes 1 firstAddress 60] 0]

def doubleTradeDigest : Hash :=
  ⟨[0x8a, 0x65, 0x46, 0x92, 0x0d, 0xff, 0xb3, 0x0d, 0x7a, 0x59, 0xb6, 0xee, 0x31, 0x02, 0x38, 0x11,
    0x7c, 0xb0, 0xd2, 0xf4, 0xde, 0x38, 0x39, 0x04, 0xeb, 0x82, 0xbb, 0x9a, 0xbe, 0x2f, 0x44, 0xbb], rfl⟩

def doubleTradeRuntime : Runtime := sampleRuntime [(doubleTrade, doubleTradeDigest)]

def doubleTradeWorld : World := sampleWorld
  [(sampleProgram, programData emptyHash emptyHash), (firstToken, tokenData [0x31] 0 100 0)]

/-- Each payment is covered on its own, so the preparation sets the hash; the submission runs out of
balance at the second. -/
theorem doubleTrade_fails :
    ∃ prepared, execute doubleTradeRuntime doubleTradeWorld (tradeCall 5 false doubleTrade) = some prepared ∧
      settlementHash prepared sampleProgram = .ok doubleTradeDigest ∧
      execute doubleTradeRuntime prepared (tradeCall 6 true doubleTrade) = none ∧
      ∃ m, (tradeCall 6 true doubleTrade).outcome doubleTradeRuntime prepared =
        .error (.custom errorInsufficientBalance) m := by
  have hrun : ((execute doubleTradeRuntime doubleTradeWorld (tradeCall 5 false doubleTrade)).map fun prepared =>
      (settlementHash prepared sampleProgram,
        ((tradeCall 6 true doubleTrade).outcome doubleTradeRuntime prepared).failure)) =
      some (.ok doubleTradeDigest, some (.custom errorInsufficientBalance)) := by
    decide +kernel
  obtain ⟨prepared, hprepared, hvalues⟩ := Option.map_eq_some_iff.mp hrun
  obtain ⟨hset, hfails⟩ := Prod.mk.inj hvalues
  obtain ⟨m, houtcome⟩ := Outcome.failure_eq_some.mp hfails
  refine ⟨prepared, hprepared, hset, ?_, m, houtcome⟩
  rw [execute, houtcome]

end Chainring.Arch

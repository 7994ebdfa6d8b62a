import Chainring.Arch.Run

/-! The three hash registers: the settlement hash and the last settlement hash of a program account
and the hash of a withdraw account. What a successful prepare, submit or rollback finds in its
register and leaves there. -/

namespace Chainring.Arch

open Bytes (slice_patch slice_eq_some)
open Exec (Keeps keeps_foldlM keeps_forM bind_eq_ok ensure_bind_eq_ok when_eq_ok)

/-! ### Registers in account data -/

theorem hashFromSlice_congr {offset : Nat} {data data' : Bytes}
    (h : ∀ o, Within offset (offset + 32) o → data'[o]? = data[o]?) :
    hashFromSlice offset data' = hashFromSlice offset data :=
  readArray_congr h

theorem hashFromSlice_writeBlock {offset : Nat} {hash : Hash} {data data' : Bytes}
    (h : writeBlock offset hash.1 data = .ok data') : hashFromSlice offset data' = .ok hash := by
  have hslice := slice_patch (writeBlock_eq_ok.mp h)
  rw [hash.2] at hslice
  exact readArray_eq_ok.mpr hslice

theorem hashFromSlice_room {offset : Nat} {data : Bytes} {hash : Hash} (h : hashFromSlice offset data = .ok hash) :
    offset + hashSize ≤ data.length := by
  obtain ⟨hlength, hbytes⟩ := slice_eq_some.mp (readArray_eq_ok.mp h)
  have hlast : data[offset + 31]? = hash.1[31]? := hbytes 31 (by decide)
  have hlt : 31 < hash.1.length := by
    rw [hlength]
    decide
  rw [List.getElem?_eq_getElem hlt] at hlast
  exact (List.getElem?_eq_some_iff.mp hlast).1

def settlementHash (w : World) (program : Pubkey) : Except Fault Hash :=
  ProgramState.getSettlementHash (w program).data

def lastSettlementHash (w : World) (program : Pubkey) : Except Fault Hash :=
  hashFromSlice lastSettlementHashOffset (w program).data

def withdrawHash (w : World) (withdraw : Pubkey) : Except Fault Hash :=
  WithdrawState.getHash (w withdraw).data

section Instructions

variable {rt : Runtime} {accounts : List AccountInfo} {raw : Bytes} {m m' : Memory} {u : Unit}

theorem led_of_validated {isWritable : Bool} {related : Option UInt8}
    (h : Validated accounts 0 true isWritable (some .program) related m) :
    ∃ first, Led accounts m first := by
  obtain ⟨first, hfirst, hsigner, -, hfits⟩ := h
  refine ⟨first, hfirst, hsigner, ?_⟩
  cases related with
  | none => exact hfits
  | some related =>
      obtain ⟨_, -, hbound⟩ := hfits
      exact hbound.1

/-! ### Settlements -/

theorem prepareSettlementBatch_cases {params : SettlementBatchParams}
    (h : (prepareSettlementBatch rt accounts params raw).run m = .ok u m') :
    ∃ program cleared verified, Validated accounts 0 true true (some .program) none m ∧
      accounts[0]? = some program ∧
      ProgramState.getSettlementHash (m program.key).data = .ok emptyHash ∧
      (program.write ProgramState.clearEvents).run m = .ok () cleared ∧
      (params.settlements.foldlM (verifySettlement accounts) 0).run cleared = .ok 0 verified ∧
      ∃ count, ProgramState.getEventsCount (verified program.key).data = .ok count ∧
        ((count = 0 ∧
            (program.write (ProgramState.setSettlementHash (rt.digest raw))).run verified = .ok () m') ∨
          (count ≠ 0 ∧ m' = verified)) := by
  obtain ⟨hvalidated, h⟩ := validate_bind_eq_ok.mp h
  obtain ⟨program, hfirst, h⟩ := accountAt_bind_eq_ok.mp h
  obtain ⟨currentHash, hhash, h⟩ := read_bind_eq_ok.mp h
  obtain ⟨hempty, h⟩ := ensure_bind_eq_ok.mp h
  obtain ⟨_, cleared, hclear, h⟩ := bind_eq_ok.mp h
  obtain ⟨total, verified, hverify, h⟩ := bind_eq_ok.mp h
  obtain ⟨hzero, h⟩ := ensure_bind_eq_ok.mp h
  obtain ⟨count, hcount, h⟩ := read_bind_eq_ok.mp h
  rw [hempty] at hhash
  rw [hzero] at hverify
  exact ⟨program, cleared, verified, hvalidated, hfirst, hhash, hclear, hverify, count, hcount, when_eq_ok.mp h⟩

theorem submitSettlementBatch_cases {params : SettlementBatchParams}
    (h : (submitSettlementBatch rt accounts params raw).run m = .ok u m') :
    ∃ program applied marked, Validated accounts 0 true true (some .program) none m ∧
      accounts[0]? = some program ∧
      ProgramState.getSettlementHash (m program.key).data = .ok (rt.digest raw) ∧
      rt.digest raw ≠ emptyHash ∧
      (params.settlements.forM (applySettlement accounts)).run m = .ok () applied ∧
      (program.write (ProgramState.setLastSettlementHash (rt.digest raw))).run applied = .ok () marked ∧
      (program.write ProgramState.clearSettlementHash).run marked = .ok () m' := by
  obtain ⟨hvalidated, h⟩ := validate_bind_eq_ok.mp h
  obtain ⟨program, hfirst, h⟩ := accountAt_bind_eq_ok.mp h
  obtain ⟨currentHash, hhash, h⟩ := read_bind_eq_ok.mp h
  obtain ⟨hne, h⟩ := ensure_bind_eq_ok.mp h
  obtain ⟨hequal, h⟩ := ensure_bind_eq_ok.mp h
  obtain ⟨_, applied, happly, h⟩ := bind_eq_ok.mp h
  obtain ⟨_, marked, hmark, h⟩ := bind_eq_ok.mp h
  rw [hequal] at hhash hne
  exact ⟨program, applied, marked, hvalidated, hfirst, hhash, hne, happly, hmark, h⟩

theorem rollbackSettlementBatch_cases (h : (rollbackSettlementBatch accounts).run m = .ok u m') :
    ∃ program, Validated accounts 0 true true (some .program) none m ∧ accounts[0]? = some program ∧
      (program.write ProgramState.clearSettlementHash).run m = .ok () m' := by
  obtain ⟨hvalidated, h⟩ := validate_bind_eq_ok.mp h
  obtain ⟨program, hfirst, h⟩ := accountAt_bind_eq_ok.mp h
  exact ⟨program, hvalidated, hfirst, h⟩

/-- Verification changes the program account only from the event count on. -/
theorem verified_touches {program : AccountInfo} {settlements : List SettlementAdjustments}
    {cleared verified : Memory} {total total' : Int64} (hload : Loaded accounts m)
    (hvalidated : Validated accounts 0 true true (some .program) none m)
    (hprogram : accounts[0]? = some program)
    (hclear : (program.write ProgramState.clearEvents).run m = .ok () cleared)
    (hverify : (settlements.foldlM (verifySettlement accounts) total).run cleared = .ok total' verified) :
    Touches Reach.events accounts m verified := by
  obtain ⟨first, hled⟩ := led_of_validated hvalidated
  have hevents : ∀ o, 286 ≤ o → Reach.events.program o := fun _ h => h
  have hcleared := (keeps_clearEvents hled hevents hprogram).of_ok hload.touches hclear
  have hloop : Keeps (Touches Reach.events accounts m)
      (settlements.foldlM (verifySettlement accounts) total) fun _ => True :=
    keeps_foldlM trivial fun total settlement _ _ => keeps_verifySettlement hled hevents total settlement
  exact (hloop.of_ok hcleared.1 hverify).1

/-- A byte of a program account that changed is in the reach of the call, which it leads. -/
theorem Touches.program_byte {reach : Reach} (h : Touches reach accounts m m') {key : Pubkey}
    (hne : (m key).data ≠ []) (htoken : getType (m key).data ≠ .ok .token)
    (hwithdraw : getType (m key).data ≠ .ok .withdraw) {o : Nat}
    (hchanged : (m' key).data[o]? ≠ (m key).data[o]?) :
    (accounts[0]?).map AccountInfo.key = some key ∧ reach.program o := by
  obtain ⟨-, hempty | ⟨first, hfirst, -, -, ⟨rfl, hreach⟩ | ⟨hbound, -⟩ | ⟨hbound, -⟩⟩⟩ := h.bytes key o hchanged
  · exact absurd hempty hne
  · exact ⟨by rw [hfirst]; rfl, hreach⟩
  · exact absurd hbound.1 htoken
  · exact absurd hbound.1 hwithdraw

/-- Verification leaves the settlement hash alone. -/
theorem verified_settlementHash {isWritable : Bool} {related : Option UInt8} {program : AccountInfo}
    (hvalidated : Validated accounts 0 true isWritable (some .program) related m)
    (hprogram : accounts[0]? = some program) (htouches : Touches Reach.events accounts m m') :
    ProgramState.getSettlementHash (m' program.key).data =
      ProgramState.getSettlementHash (m program.key).data := by
  obtain ⟨first, hled⟩ := led_of_validated hvalidated
  obtain rfl : first = program := Option.some.inj (hled.listed.symm.trans hprogram)
  apply hashFromSlice_congr
  intro o ho
  by_contra hchanged
  have hhigh : o < 222 + 32 := ho.2
  have hreach : 286 ≤ o := (htouches.program_byte (ne_nil_of_getType hled.program)
    (by rw [hled.program]; simp) (by rw [hled.program]; simp) hchanged).2
  omega

/-- A preparation finds the register empty, and leaves the digest there or leaves it empty. -/
theorem prepareSettlementBatch_hash {params : SettlementBatchParams} (hload : Loaded accounts m)
    (h : (prepareSettlementBatch rt accounts params raw).run m = .ok u m') {program : AccountInfo}
    (hprogram : accounts[0]? = some program) :
    ProgramState.getSettlementHash (m program.key).data = .ok emptyHash ∧
      (ProgramState.getSettlementHash (m' program.key).data = .ok emptyHash ∨
        ProgramState.getSettlementHash (m' program.key).data = .ok (rt.digest raw)) := by
  obtain ⟨program', cleared, verified, hvalidated, hfirst, hhash, hclear, hverify, count, -, hcase⟩ :=
    prepareSettlementBatch_cases h
  obtain rfl : program' = program := Option.some.inj (hfirst.symm.trans hprogram)
  refine ⟨hhash, ?_⟩
  rcases hcase with ⟨-, hset⟩ | ⟨-, rfl⟩
  · obtain ⟨data, hdata, rfl⟩ := write_eq_ok.mp hset
    right
    rw [Memory.setData_self]
    exact hashFromSlice_writeBlock hdata
  · have htouches := verified_touches hload hvalidated hfirst hclear hverify
    left
    rw [← hhash]
    exact verified_settlementHash hvalidated hfirst htouches

/-- A submission finds the digest of its data, records it as the last and empties the register. -/
theorem submitSettlementBatch_hash {params : SettlementBatchParams}
    (h : (submitSettlementBatch rt accounts params raw).run m = .ok u m') {program : AccountInfo}
    (hprogram : accounts[0]? = some program) :
    ProgramState.getSettlementHash (m program.key).data = .ok (rt.digest raw) ∧
      rt.digest raw ≠ emptyHash ∧
      ProgramState.getSettlementHash (m' program.key).data = .ok emptyHash ∧
      hashFromSlice lastSettlementHashOffset (m' program.key).data = .ok (rt.digest raw) := by
  obtain ⟨program', applied, marked, -, hfirst, hhash, hne, -, hmark, hclear⟩ := submitSettlementBatch_cases h
  obtain rfl : program' = program := Option.some.inj (hfirst.symm.trans hprogram)
  obtain ⟨markedData, hmarked, rfl⟩ := write_eq_ok.mp hmark
  obtain ⟨clearedData, hcleared, rfl⟩ := write_eq_ok.mp hclear
  simp only [Memory.setData_self] at hcleared ⊢
  refine ⟨hhash, hne, hashFromSlice_writeBlock hcleared, ?_⟩
  rw [← hashFromSlice_writeBlock hmarked]
  apply hashFromSlice_congr
  intro o ho
  apply (writes_setSettlementHash emptyHash _ _ hcleared).2
  intro hregion
  have hlow : 254 ≤ o := ho.1
  have hhigh := hregion.2
  omega

theorem rollbackSettlementBatch_hash (h : (rollbackSettlementBatch accounts).run m = .ok u m')
    {program : AccountInfo} (hprogram : accounts[0]? = some program) :
    ProgramState.getSettlementHash (m' program.key).data = .ok emptyHash := by
  obtain ⟨program', -, hfirst, hclear⟩ := rollbackSettlementBatch_cases h
  obtain rfl : program' = program := Option.some.inj (hfirst.symm.trans hprogram)
  obtain ⟨data, hdata, rfl⟩ := write_eq_ok.mp hclear
  rw [Memory.setData_self]
  exact hashFromSlice_writeBlock hdata

/-! ### Withdrawals -/

theorem run_of_keeps {α : Type} {p : Prog α} {a : α} {Q : α → Prop} (hp : Keeps (· = m) p Q)
    (h : p.run m = .ok a m') : m' = m :=
  (hp.of_ok rfl h).1

theorem prepareWithdrawBatch_cases {params : WithdrawBatchParams}
    (h : (prepareWithdrawBatch rt accounts params raw).run m = .ok u m') :
    ∃ program withdraw hasReceiver tx networkType cleared verified,
      Validated accounts 0 true true (some .program) (some 1) m ∧
      Validated accounts 1 false true (some .withdraw) (some 0) m ∧
      accounts[0]? = some program ∧ accounts[1]? = some withdraw ∧
      ProgramState.getSettlementHash (m program.key).data = .ok emptyHash ∧
      WithdrawState.getHash (m withdraw.key).data = .ok emptyHash ∧
      rt.deserializeTransaction params.txHex = some tx ∧ tx.output.length = 0 ∧
      (program.write ProgramState.clearEvents).run m = .ok () cleared ∧
      ProgramState.getNetworkType (cleared program.key).data = .ok networkType ∧
      (params.tokenWithdrawals.forM fun tokenWithdrawals => do
        validateAccount accounts tokenWithdrawals.accountIndex false true (some .token) (some 0)
        verifyWithdrawals rt accounts tokenWithdrawals.accountIndex tokenWithdrawals.withdrawals
          networkType).run cleared = .ok () verified ∧
      ∃ count, ProgramState.getEventsCount (verified program.key).data = .ok count ∧
        ((count ≠ 0 ∧ m' = verified) ∨
          (count = 0 ∧ ∃ outputs paid,
            (params.tokenWithdrawals.foldlM (fun outputs tokenWithdrawals => do
              let feeAccountAddress ← program.read ProgramState.getFeeAccountAddress
              handlePrepareWithdrawals rt accounts tokenWithdrawals feeAccountAddress networkType outputs)
              { txOuts := tx.output, edicts := [] }).run verified = .ok outputs paid ∧
            (outputs.edicts = [] ∨ hasReceiver = true) ∧ outputs.txOuts.length ≠ 0 ∧
            (withdraw.write (WithdrawState.setHash (rt.digest raw))).run paid = .ok () m')) := by
  obtain ⟨hvalidated, h⟩ := validate_bind_eq_ok.mp h
  obtain ⟨hvalidated', h⟩ := validate_bind_eq_ok.mp h
  obtain ⟨hasReceiver, received, hreceiver, h⟩ := bind_eq_ok.mp h
  rw [run_of_keeps (keeps_hasRuneReceiver false) hreceiver] at h
  obtain ⟨program, hfirst, h⟩ := accountAt_bind_eq_ok.mp h
  obtain ⟨withdraw, hsecond, h⟩ := accountAt_bind_eq_ok.mp h
  obtain ⟨currentHash, hhash, h⟩ := read_bind_eq_ok.mp h
  obtain ⟨hempty, h⟩ := ensure_bind_eq_ok.mp h
  obtain ⟨currentWithdraw, hwithdraw, h⟩ := read_bind_eq_ok.mp h
  obtain ⟨hempty', h⟩ := ensure_bind_eq_ok.mp h
  rw [hempty] at hhash
  rw [hempty'] at hwithdraw
  cases htx : rt.deserializeTransaction params.txHex with
  | none =>
      rw [htx] at h
      exact absurd h Exec.fail_ne_ok
  | some tx =>
      rw [htx] at h
      obtain ⟨houtput, h⟩ := ensure_bind_eq_ok.mp h
      obtain ⟨-, h⟩ := ensure_bind_eq_ok.mp h
      obtain ⟨_, cleared, hclear, h⟩ := bind_eq_ok.mp h
      obtain ⟨networkType, hnetwork, h⟩ := read_bind_eq_ok.mp h
      obtain ⟨_, verified, hverify, h⟩ := bind_eq_ok.mp h
      obtain ⟨count, hcount, h⟩ := read_bind_eq_ok.mp h
      refine ⟨program, withdraw, hasReceiver, tx, networkType, cleared, verified, hvalidated, hvalidated',
        hfirst, hsecond, hhash, hwithdraw, rfl, houtput, hclear, hnetwork, hverify, count, hcount, ?_⟩
      split at h
      · next hne => exact Or.inl ⟨hne, (Exec.pure_eq_ok.mp h).2⟩
      · next hzero =>
          obtain ⟨outputs, paid, hpay, h⟩ := bind_eq_ok.mp h
          obtain ⟨hedicts, h⟩ := ensure_bind_eq_ok.mp h
          obtain ⟨houts, h⟩ := ensure_bind_eq_ok.mp h
          exact Or.inr ⟨not_not.mp hzero, outputs, paid, hpay, hedicts, houts, h⟩

/-- What a submission adds to the outputs of the withdrawals: its change, an edict for what is left of each rune,
and the runestone. -/
def closeOutputs (rt : Runtime) (programId receiver : Pubkey) (changeAmount : UInt64) (outputs : Outputs) : Outputs :=
  let changed := if 0 < changeAmount then
      { outputs with txOuts := outputs.txOuts ++
          [{ value := changeAmount, scriptPubkey := (rt.getAccountScriptPubkey programId).1 }] }
    else outputs
  if changed.edicts = [] then changed
  else
    let withChange := (rt.hashSetOrder (changed.edicts.map Edict.id)).foldl
      (fun outputs runeId => addEdictAndOutput runeId (rt.getAccountScriptPubkey receiver).1 0 outputs) changed
    { withChange with txOuts := withChange.txOuts ++
        [{ value := 0, scriptPubkey := rt.encipher withChange.edicts }] }

/-- The transaction with the closed outputs is set to be signed, after a check of the rune receiver. -/
def SignsClosed (rt : Runtime) (accounts : List AccountInfo) (programId : Pubkey) (params : WithdrawBatchParams)
    (withdraw : AccountInfo) (tx : Transaction) (outputs : Outputs) (m signed : Memory) : Prop :=
  ∃ receiver txWithInputs inputsToSign, accounts[2]? = some receiver ∧
    (outputs.edicts = [] ∨ Validated accounts 2 true false (some .runeReceiver) (some 0) m) ∧
    rt.deserializeTransaction params.txHex = some txWithInputs ∧
    (setTransactionToSign rt withdraw (rt.serializeTransaction { tx with
      input := tx.input ++ txWithInputs.input
      output := (closeOutputs rt programId receiver.key params.changeAmount outputs).txOuts })
      inputsToSign).run m = .ok () signed

theorem hasRuneReceiver_eq_ok {isSigner : Bool} (h : (hasRuneReceiver accounts isSigner).run m = .ok true m') :
    Validated accounts 2 isSigner false (some .runeReceiver) (some 0) m := by
  obtain ⟨third, -, h⟩ := accountAt_bind_eq_ok.mp h
  obtain ⟨accountType, -, h⟩ := read_bind_eq_ok.mp h
  split at h
  · exact (validate_bind_eq_ok.mp h).1
  · cases (Exec.pure_eq_ok.mp h).1

/-- The steps of a submission: it reads the accounts until it sets the transaction, with a signer for every input,
and empties the register. -/
theorem submitWithdrawBatch_steps {programId : Pubkey} {params : WithdrawBatchParams}
    (h : (submitWithdrawBatch rt programId accounts params raw).run m = .ok u m') :
    ∃ program withdraw receiver networkType, ∃ tx txWithInputs : Transaction, ∃ outputs inputsToSign signed,
      Validated accounts 0 true false (some .program) (some 1) m ∧
      Validated accounts 1 true true (some .withdraw) (some 0) m ∧
      accounts[0]? = some program ∧ accounts[1]? = some withdraw ∧ accounts[2]? = some receiver ∧
      WithdrawState.getHash (m withdraw.key).data = .ok (rt.digest raw) ∧
      ProgramState.getNetworkType (m program.key).data = .ok networkType ∧
      (getStateTransitionTx rt accounts).run m = .ok tx m ∧
      rt.deserializeTransaction params.txHex = some txWithInputs ∧
      (params.tokenWithdrawals.foldlM (fun outputs (tokenWithdrawals : TokenWithdrawals) => do
        validateAccount accounts tokenWithdrawals.accountIndex false false (some .token) (some 0)
        handleSubmitWithdrawals rt accounts tokenWithdrawals networkType outputs)
        { txOuts := tx.output, edicts := [] }).run m = .ok outputs m ∧
      (outputs.edicts = [] ∨ Validated accounts 2 true false (some .runeReceiver) (some 0) m) ∧
      (List.range (tx.input ++ txWithInputs.input).length).mapM
        (inputSigner programId withdraw receiver params.inputUtxoTypes) = .ok inputsToSign ∧
      (setTransactionToSign rt withdraw (rt.serializeTransaction { tx with
        input := tx.input ++ txWithInputs.input
        output := (closeOutputs rt programId receiver.key params.changeAmount outputs).txOuts })
        inputsToSign).run m = .ok () signed ∧
      (withdraw.write WithdrawState.clearHash).run signed = .ok () m' := by
  obtain ⟨hvalidated, h⟩ := validate_bind_eq_ok.mp h
  obtain ⟨hvalidated', h⟩ := validate_bind_eq_ok.mp h
  obtain ⟨hasReceiver, received, hreceiver, h⟩ := bind_eq_ok.mp h
  rw [run_of_keeps (keeps_hasRuneReceiver true) hreceiver] at h
  obtain ⟨program, hfirst, h⟩ := accountAt_bind_eq_ok.mp h
  obtain ⟨withdraw, hsecond, h⟩ := accountAt_bind_eq_ok.mp h
  obtain ⟨third, hthird, h⟩ := accountAt_bind_eq_ok.mp h
  obtain ⟨currentHash, hhash, h⟩ := read_bind_eq_ok.mp h
  obtain ⟨hequal, h⟩ := ensure_bind_eq_ok.mp h
  rw [hequal] at hhash
  obtain ⟨networkType, hnetwork, h⟩ := read_bind_eq_ok.mp h
  obtain ⟨tx, transitioned, htransition, h⟩ := bind_eq_ok.mp h
  rw [run_of_keeps (keeps_getStateTransitionTx rt) htransition] at h htransition
  cases htx : rt.deserializeTransaction params.txHex with
  | none =>
      rw [htx] at h
      exact absurd h Exec.fail_ne_ok
  | some txWithInputs =>
      rw [htx] at h
      obtain ⟨outputs, built, hbuild, h⟩ := bind_eq_ok.mp h
      have hsame : built = m := by
        refine run_of_keeps (keeps_foldlM (P := fun _ => True) trivial fun outputs tokenWithdrawals _ _ => ?_) hbuild
        exact keeps_any_validate.bind fun _ _ => keeps_handleSubmitWithdrawals rt _ _ _
      rw [hsame] at hbuild h
      obtain ⟨hedicts, h⟩ := ensure_bind_eq_ok.mp h
      obtain ⟨inputsToSign, hinputs, h⟩ := Exec.query_bind_eq_ok.mp h
      obtain ⟨_, signed, hsign, h⟩ := bind_eq_ok.mp h
      refine ⟨program, withdraw, third, networkType, tx, txWithInputs, outputs, inputsToSign, signed, hvalidated,
        hvalidated', hfirst, hsecond, hthird, hhash, hnetwork, htransition, rfl, hbuild, ?_, hinputs, hsign, h⟩
      refine hedicts.imp_right fun htrue => ?_
      rw [htrue] at hreceiver
      exact hasRuneReceiver_eq_ok hreceiver

/-- A submission in terms of the outputs that it closes. -/
theorem submitWithdrawBatch_cases {programId : Pubkey} {params : WithdrawBatchParams}
    (h : (submitWithdrawBatch rt programId accounts params raw).run m = .ok u m') :
    ∃ program withdraw networkType, ∃ tx : Transaction, ∃ outputs signed,
      Validated accounts 0 true false (some .program) (some 1) m ∧
      Validated accounts 1 true true (some .withdraw) (some 0) m ∧
      accounts[0]? = some program ∧ accounts[1]? = some withdraw ∧
      WithdrawState.getHash (m withdraw.key).data = .ok (rt.digest raw) ∧
      ProgramState.getNetworkType (m program.key).data = .ok networkType ∧
      (getStateTransitionTx rt accounts).run m = .ok tx m ∧
      (params.tokenWithdrawals.foldlM (fun outputs (tokenWithdrawals : TokenWithdrawals) => do
        validateAccount accounts tokenWithdrawals.accountIndex false false (some .token) (some 0)
        handleSubmitWithdrawals rt accounts tokenWithdrawals networkType outputs)
        { txOuts := tx.output, edicts := [] }).run m = .ok outputs m ∧
      SignsClosed rt accounts programId params withdraw tx outputs m signed ∧
      (withdraw.write WithdrawState.clearHash).run signed = .ok () m' := by
  obtain ⟨program, withdraw, receiver, networkType, tx, txWithInputs, outputs, inputsToSign, signed, hvalidated,
    hvalidated', hfirst, hsecond, hthird, hhash, hnetwork, htransition, htx, hbuild, hedicts, -, hsign, hclear⟩ :=
    submitWithdrawBatch_steps h
  exact ⟨program, withdraw, networkType, tx, outputs, signed, hvalidated, hvalidated', hfirst, hsecond, hhash,
    hnetwork, htransition, hbuild, ⟨receiver, txWithInputs, inputsToSign, hthird, hedicts, htx, hsign⟩, hclear⟩

theorem rollbackWithdrawBatch_cases {params : RollbackWithdrawBatchParams}
    (h : (rollbackWithdrawBatch accounts params).run m = .ok u m') :
    ∃ withdraw restored, Validated accounts 0 true false (some .program) (some 1) m ∧
      Validated accounts 1 false true (some .withdraw) (some 0) m ∧ accounts[1]? = some withdraw ∧
      (withdraw.write WithdrawState.clearHash).run restored = .ok () m' := by
  obtain ⟨hvalidated, h⟩ := validate_bind_eq_ok.mp h
  obtain ⟨hvalidated', h⟩ := validate_bind_eq_ok.mp h
  obtain ⟨program, hfirst, h⟩ := accountAt_bind_eq_ok.mp h
  obtain ⟨withdraw, hsecond, h⟩ := accountAt_bind_eq_ok.mp h
  obtain ⟨_, restored, hrestore, h⟩ := bind_eq_ok.mp h
  exact ⟨withdraw, restored, hvalidated, hvalidated', hsecond, h⟩

/-- Verification of withdrawals changes the program account only from the event count on. -/
theorem verifiedWithdrawals_touches {program : AccountInfo} {tokenWithdrawals : List TokenWithdrawals}
    {networkType : NetworkType} {cleared verified : Memory} (hload : Loaded accounts m)
    (hvalidated : Validated accounts 0 true true (some .program) (some 1) m)
    (hprogram : accounts[0]? = some program)
    (hclear : (program.write ProgramState.clearEvents).run m = .ok () cleared)
    (hverify : (tokenWithdrawals.forM fun tokenWithdrawals => do
      validateAccount accounts tokenWithdrawals.accountIndex false true (some .token) (some 0)
      verifyWithdrawals rt accounts tokenWithdrawals.accountIndex tokenWithdrawals.withdrawals
        networkType).run cleared = .ok () verified) :
    Touches Reach.events accounts m verified := by
  obtain ⟨first, hled⟩ := led_of_validated hvalidated
  have hevents : ∀ o, 286 ≤ o → Reach.events.program o := fun _ h => h
  have hcleared := (keeps_clearEvents hled hevents hprogram).of_ok hload.touches hclear
  have hloop : Keeps (Touches Reach.events accounts m) (tokenWithdrawals.forM fun tokenWithdrawals => do
      validateAccount accounts tokenWithdrawals.accountIndex false true (some .token) (some 0)
      verifyWithdrawals rt accounts tokenWithdrawals.accountIndex tokenWithdrawals.withdrawals
        networkType) fun _ => ∀ x ∈ tokenWithdrawals, True := by
    refine keeps_forM fun tokenWithdrawals _ => ?_
    refine keeps_any_validate.bind fun _ _ => ?_
    exact (keeps_verifyWithdrawals rt hled hevents _ _ _).weaken fun _ _ => trivial
  exact (hloop.of_ok hcleared.1 hverify).1

/-- A byte of a withdraw account that changed is in the reach of a call led by its program. -/
theorem Touches.withdraw_byte {reach : Reach} (h : Touches reach accounts m m') {key owner : Pubkey}
    (hbound : Bound .withdraw owner (m key).data) {o : Nat} (hlow : o < 222)
    (hchanged : (m' key).data[o]? ≠ (m key).data[o]?) :
    (accounts[0]?).map AccountInfo.key = some owner ∧ reach.withdraw o := by
  obtain ⟨-, hempty | ⟨first, hfirst, -, -, ⟨-, hreach⟩ | ⟨htoken, -⟩ | ⟨hbound', hreach⟩⟩⟩ := h.bytes key o hchanged
  · exact absurd hempty (ne_nil_of_getType hbound.1)
  · have hge : 222 ≤ o := reach.program_ge o hreach
    omega
  · have htype := hbound.1.symm.trans htoken.1
    cases htype
  · have howner : owner = first.key := Except.ok.inj (hbound.2.symm.trans hbound'.2)
    exact ⟨by rw [hfirst, howner]; rfl, hreach⟩

/-- A withdraw instruction lists the withdraw account of its program account next. -/
theorem withdraw_listed {isWritable : Bool} {withdraw owner : Pubkey}
    (hvalidated : Validated accounts 0 true isWritable (some .program) (some 1) m)
    (hfirst : (accounts[0]?).map AccountInfo.key = some owner)
    (hrelated : relatedAccountKey .program (m owner).data = .ok withdraw) :
    (accounts[1]?).map AccountInfo.key = some withdraw := by
  obtain ⟨first, hlisted, -, -, second, hsecond, -, hkey⟩ := hvalidated
  rw [show accounts[0]? = some first from hlisted] at hfirst
  obtain rfl : first.key = owner := Option.some.inj hfirst
  have hequal : second.key = withdraw := Except.ok.inj (hkey.symm.trans hrelated)
  rw [show accounts[1]? = some second from hsecond, ← hequal]
  rfl

/-- Verification leaves the withdraw hash alone. -/
theorem verifiedWithdrawals_hash {withdraw : AccountInfo} {verified : Memory}
    (hvalidated : Validated accounts 1 false true (some .withdraw) (some 0) m)
    (hwithdraw : accounts[1]? = some withdraw) (htouches : Touches Reach.events accounts m verified) :
    WithdrawState.getHash (verified withdraw.key).data = WithdrawState.getHash (m withdraw.key).data := by
  obtain ⟨-, -, related, -, hbound⟩ := hvalidated.of_listed hwithdraw
  apply hashFromSlice_congr
  intro o ho
  by_contra hchanged
  have hhigh : o < 37 + 32 := ho.2
  exact (htouches.withdraw_byte hbound (by omega) hchanged).2

theorem prepareWithdrawBatch_hash {params : WithdrawBatchParams} (hload : Loaded accounts m)
    (h : (prepareWithdrawBatch rt accounts params raw).run m = .ok u m') {withdraw : AccountInfo}
    (hwithdraw : accounts[1]? = some withdraw) :
    WithdrawState.getHash (m withdraw.key).data = .ok emptyHash ∧
      (WithdrawState.getHash (m' withdraw.key).data = .ok emptyHash ∨
        WithdrawState.getHash (m' withdraw.key).data = .ok (rt.digest raw)) := by
  obtain ⟨program, withdraw', hasReceiver, tx, networkType, cleared, verified, hvalidated, hvalidated',
    hfirst, hsecond, -, hhash, -, -, hclear, -, hverify, count, -, hcase⟩ := prepareWithdrawBatch_cases h
  obtain rfl : withdraw' = withdraw := Option.some.inj (hsecond.symm.trans hwithdraw)
  refine ⟨hhash, ?_⟩
  rcases hcase with ⟨-, rfl⟩ | ⟨-, outputs, paid, -, -, -, hset⟩
  · have htouches := verifiedWithdrawals_touches hload hvalidated hfirst hclear hverify
    left
    rw [← hhash]
    exact verifiedWithdrawals_hash hvalidated' hsecond htouches
  · obtain ⟨data, hdata, rfl⟩ := write_eq_ok.mp hset
    right
    rw [Memory.setData_self]
    exact hashFromSlice_writeBlock hdata

theorem submitWithdrawBatch_hash {programId : Pubkey} {params : WithdrawBatchParams}
    (h : (submitWithdrawBatch rt programId accounts params raw).run m = .ok u m')
    {withdraw : AccountInfo} (hwithdraw : accounts[1]? = some withdraw) :
    WithdrawState.getHash (m withdraw.key).data = .ok (rt.digest raw) ∧
      WithdrawState.getHash (m' withdraw.key).data = .ok emptyHash := by
  obtain ⟨program, withdraw', networkType, tx, outputs, signed, -, -, -, hsecond, hhash, -, -, -, -, hclear⟩ :=
    submitWithdrawBatch_cases h
  obtain rfl : withdraw' = withdraw := Option.some.inj (hsecond.symm.trans hwithdraw)
  obtain ⟨data, hdata, rfl⟩ := write_eq_ok.mp hclear
  rw [Memory.setData_self]
  exact ⟨hhash, hashFromSlice_writeBlock hdata⟩

theorem rollbackWithdrawBatch_hash {params : RollbackWithdrawBatchParams}
    (h : (rollbackWithdrawBatch accounts params).run m = .ok u m') {withdraw : AccountInfo}
    (hwithdraw : accounts[1]? = some withdraw) :
    WithdrawState.getHash (m' withdraw.key).data = .ok emptyHash := by
  obtain ⟨withdraw', restored, -, -, hsecond, hclear⟩ := rollbackWithdrawBatch_cases h
  obtain rfl : withdraw' = withdraw := Option.some.inj (hsecond.symm.trans hwithdraw)
  obtain ⟨data, hdata, rfl⟩ := write_eq_ok.mp hclear
  rw [Memory.setData_self]
  exact hashFromSlice_writeBlock hdata

end Instructions

end Chainring.Arch

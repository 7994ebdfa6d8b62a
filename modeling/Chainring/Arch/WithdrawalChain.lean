import Chainring.Arch.DataWrites
import Chainring.Arch.Deposits
import Chainring.Arch.InputSigners
import Chainring.Base.Linked

/-! The output that stands for a withdraw account. A submission spends it with its first input and moves the account to
an output of the new transaction, so the transactions of a run form one chain. -/

namespace Chainring.Arch

open Bytes (ofWord toWord)
open Exec (Keeps)

abbrev Outpoint := FixedBytes 32 × UInt32

def UtxoMeta.outpoint (utxo : UtxoMeta) : Outpoint := (UtxoMeta.txid utxo, UtxoMeta.vout utxo)

def TxIn.outpoint (input : TxIn) : Outpoint := (input.txid, input.vout)

@[simp] theorem UtxoMeta.outpoint_of (txid : FixedBytes 32) (vout : UInt32) :
    UtxoMeta.outpoint (UtxoMeta.of txid vout) = (txid, vout) := by
  have htake : (txid.1 ++ ofWord 4 vout.toNat).take 32 = txid.1 := List.take_left' txid.2
  have hdrop : (txid.1 ++ ofWord 4 vout.toNat).drop 32 = ofWord 4 vout.toNat := List.drop_left' txid.2
  refine Prod.ext (Subtype.ext htake) ?_
  show UInt32.ofNat (toWord ((txid.1 ++ ofWord 4 vout.toNat).drop 32)) = vout
  have hlt : vout.toNat < 256 ^ 4 := vout.toNat_lt
  rw [hdrop, Bytes.toWord_ofWord, Nat.mod_eq_of_lt hlt, UInt32.ofNat_toNat]

/-! ### Moves of the state output -/

/-- What moves the output of a withdraw account: a submission to the output of its transaction at the position, or an
update that names the new one. -/
inductive StateMove where
  | submits (transaction : Transaction) (txid : FixedBytes 32) (vout : UInt32)
  | updates (before after : Outpoint)
  deriving DecidableEq

namespace StateMove

/-- The output spent, which is that of the first input. -/
def takes : StateMove → Option Outpoint
  | submits transaction _ _ => transaction.input.head?.map TxIn.outpoint
  | updates before _ => some before

def leaves : StateMove → Option Outpoint
  | submits _ txid vout => some (txid, vout)
  | updates _ after => some after

/-- A submission spends the output, and an update only leaves it. -/
def spends : StateMove → Bool
  | submits _ _ _ => true
  | updates _ _ => false

end StateMove

/-- The position of the last input that the key signs. -/
def lastSigned (key : Pubkey) (inputsToSign : List InputToSign) : UInt32 :=
  ((inputsToSign.filter (·.signer = key)).getLast?.map InputToSign.index).getD 0

/-- The transaction that a submission signs, with its id and the output that the withdraw account is moved to. -/
def submittedMove (rt : Runtime) (withdraw : Pubkey) (w : World) (programId : Pubkey) (accounts : List AccountInfo)
    (params : WithdrawBatchParams) : Option StateMove := do
  let built ← ((submittedTransaction rt programId accounts params).run (load w)).value
  let inputs ← ((submittedInputs rt programId accounts params).run (load w)).value
  let signed ← rt.deserializeTransaction (rt.serializeTransaction built.1)
  pure (.submits built.1 (rt.computeTxid signed) (lastSigned withdraw inputs.inputsToSign))

def updatedMove (withdraw : Pubkey) (w : World) (params : UpdateWithdrawStateUtxoParams) : Option StateMove := do
  let bytes ← hexDecode params.txId.bytes
  if h : bytes.length = 32 then
    some (.updates (UtxoMeta.outpoint (w withdraw).utxo) (⟨bytes, h⟩, params.vout))
  else none

/-- How a call moves the output of the withdraw account, if it does. -/
def stateMove (rt : Runtime) (withdraw : Pubkey) (w : World) (call : Call) : Option StateMove :=
  match execute rt w call with
  | none => none
  | some _ =>
      if call.HasAccount 1 withdraw then
        match call.instruction with
        | .ok (.submitBatchWithdraw params) => submittedMove rt withdraw w call.programId call.accounts params
        | .ok (.updateWithdrawStateUtxo params) => updatedMove withdraw w params
        | _ => none
      else none

/-! ### Signing a transaction -/

section Signing

variable {rt : Runtime} {account : AccountInfo} {inputsToSign : List InputToSign} {m m' : Memory} {u : Unit}

theorem setUtxos_utxo {txid : FixedBytes 32} (h : (inputsToSign.forM fun input => Exec.when (account.key = input.signer)
      (account.setUtxo (UtxoMeta.of txid input.index))).run m = .ok u m') :
    (∀ key, key ≠ account.key → (m' key).utxo = (m key).utxo) ∧
      (m' account.key).utxo = ((inputsToSign.filter (·.signer = account.key)).getLast?.map fun input =>
        UtxoMeta.of txid input.index).getD (m account.key).utxo := by
  induction inputsToSign generalizing m with
  | nil =>
      obtain ⟨-, rfl⟩ := Exec.pure_eq_ok.mp h
      exact ⟨fun _ _ => rfl, rfl⟩
  | cons input inputsToSign ih =>
      obtain ⟨next, hfirst, hrest⟩ := Exec.forM_cons_eq_ok.mp h
      obtain ⟨hothers, hlast⟩ := ih hrest
      rcases Exec.when_eq_ok.mp hfirst with ⟨hsigner, hset⟩ | ⟨hsigner, rfl⟩
      · obtain rfl := Except.ok.inj (Exec.modify_eq_ok.mp hset)
        rw [List.filter_cons_of_pos (by simp [hsigner]), List.getLast?_cons]
        refine ⟨fun key hkey => (hothers key hkey).trans (by simp [Memory.setUtxo, Function.update_of_ne hkey]), ?_⟩
        rw [hlast]
        cases (inputsToSign.filter (·.signer = account.key)).getLast? with
        | none => simp [Memory.setUtxo]
        | some last => rfl
      · rw [List.filter_cons_of_neg (by simp [Ne.symm hsigner])]
        exact ⟨hothers, hlast⟩

/-- Setting a transaction to be signed moves the account to the output at the position of its last input. -/
theorem setTransactionToSign_utxo {txBytes : Bytes}
    (h : (setTransactionToSign rt account txBytes inputsToSign).run m = .ok u m')
    (hsigns : ∃ input ∈ inputsToSign, input.signer = account.key) :
    (∀ key, key ≠ account.key → (m' key).utxo = (m key).utxo) ∧
      ∃ tx, rt.deserializeTransaction txBytes = some tx ∧
        (m' account.key).utxo = UtxoMeta.of (rt.computeTxid tx) (lastSigned account.key inputsToSign) := by
  obtain ⟨-, h⟩ := Exec.ensure_bind_eq_ok.mp h
  cases hdecode : rt.deserializeTransaction txBytes with
  | none =>
      rw [hdecode] at h
      cases (Exec.query_eq_ok.mp h).1
  | some tx =>
      rw [hdecode] at h
      obtain ⟨hothers, hlast⟩ := setUtxos_utxo h
      obtain ⟨input, hmem, hsigner⟩ := hsigns
      have hne : inputsToSign.filter (·.signer = account.key) ≠ [] :=
        List.ne_nil_of_mem (List.mem_filter.mpr ⟨hmem, by simp [hsigner]⟩)
      rw [List.getLast?_eq_some_getLast hne] at hlast
      refine ⟨hothers, tx, rfl, hlast.trans ?_⟩
      rw [lastSigned, List.getLast?_eq_some_getLast hne]
      rfl

end Signing

/-! ### The instructions that move it -/

section Instructions

variable {rt : Runtime} {programId : Pubkey} {accounts : List AccountInfo} {m m' : Memory} {u : Unit}

/-- The input at the front is all that a key signs that neither the program nor the third account has. -/
theorem lastSigned_eq_zero {withdraw third : AccountInfo} {types : List InputUtxoType} {count : Nat}
    {inputsToSign : List InputToSign}
    (h : (List.range count).mapM (inputSigner programId withdraw third types) = .ok inputsToSign) {key : Pubkey}
    (hprogram : programId ≠ key) (hthird : third.key ≠ key) : lastSigned key inputsToSign = 0 := by
  rw [lastSigned]
  cases hlast : (inputsToSign.filter (·.signer = key)).getLast? with
  | none => rfl
  | some entry =>
      obtain ⟨hmem, hsigner⟩ := List.mem_filter.mp (List.mem_of_getLast? hlast)
      obtain ⟨i, hi, hget⟩ := List.getElem_of_mem hmem
      rw [inputsToSign_length h] at hi
      obtain ⟨entry', hentry', hinput⟩ := entry_of_lt h hi
      obtain rfl : entry = entry' := Option.some.inj ((List.getElem?_eq_some_iff.mpr ⟨_, hget⟩).symm.trans hentry')
      match i with
      | 0 => exact inputSigner_index hinput
      | position + 1 =>
          obtain ⟨type, -, htype⟩ := Option.map_eq_some_iff.mp (inputSigner_succ hinput)
          have hequal : typeSigner programId third.key type = key := htype.trans (of_decide_eq_true hsigner)
          cases type with
          | bitcoin => exact absurd hequal hprogram
          | rune => exact absurd hequal hthird

/-- What a submission hands over to be signed: it spends the output of the withdraw account first, pays that account
first, and has the account among its signers. -/
structure Hands (rt : Runtime) (w : World) (programId : Pubkey) (accounts : List AccountInfo) (params : WithdrawBatchParams)
    (withdraw : AccountInfo) (transaction : Transaction) (inputs : SignedInputs) : Prop where
  listed : accounts[1]? = some withdraw
  built : ∃ edicts, (submittedTransaction rt programId accounts params).run (load w) = .ok (transaction, edicts) (load w)
  computed : (submittedInputs rt programId accounts params).run (load w) = .ok inputs (load w)
  spends : transaction.input.head?.map TxIn.outpoint = some (UtxoMeta.outpoint (w withdraw.key).utxo)
  pays : transaction.output.head?.map TxOut.scriptPubkey = some (rt.getAccountScriptPubkey withdraw.key).1
  signs : ∃ input ∈ inputs.inputsToSign, input.signer = withdraw.key
  first : programId ≠ withdraw.key → (∀ third, accounts[2]? = some third → third.key ≠ withdraw.key) →
    lastSigned withdraw.key inputs.inputsToSign = 0

theorem Hands.submittedMove {w : World} {params : WithdrawBatchParams} {withdraw : AccountInfo} {transaction : Transaction}
    {inputs : SignedInputs} (h : Hands rt w programId accounts params withdraw transaction inputs) {signed : Transaction}
    (hsigned : rt.deserializeTransaction (rt.serializeTransaction transaction) = some signed) :
    submittedMove rt withdraw.key w programId accounts params =
      some (.submits transaction (rt.computeTxid signed) (lastSigned withdraw.key inputs.inputsToSign)) := by
  obtain ⟨edicts, hbuilt⟩ := h.built
  rw [Arch.submittedMove, hbuilt, h.computed]
  simp only [Outcome.value, Option.bind_eq_bind, Option.bind_some, hsigned, Option.pure_def]

theorem submitWithdrawBatch_hands {w : World} {params : WithdrawBatchParams} {raw : Bytes}
    (h : (submitWithdrawBatch rt programId accounts params raw).run (load w) = .ok u m') :
    ∃ withdraw transaction inputs signed, Hands rt w programId accounts params withdraw transaction inputs ∧
      (setTransactionToSign rt withdraw (rt.serializeTransaction transaction) inputs.inputsToSign).run (load w) =
        .ok () signed ∧
      (withdraw.write WithdrawState.clearHash).run signed = .ok () m' := by
  obtain ⟨program, withdraw, third, networkType, tx, txWithInputs, outputs, inputsToSign, signed, hvalidated,
    hvalidated', hfirst, hsecond, hthird, -, hnetwork, htransition, htx, hbuild, -, hinputs, hsign, hclear⟩ :=
    submitWithdrawBatch_steps h
  obtain ⟨further, hwritable⟩ := writable_of_validated hvalidated hvalidated' hsecond
  have hbuilt : (submittedTransaction rt programId accounts params).run (load w) =
      .ok ({ tx with
        input := tx.input ++ txWithInputs.input
        output := (closeOutputs rt programId third.key params.changeAmount outputs).txOuts },
        (closeOutputs rt programId third.key params.changeAmount outputs).edicts) (load w) := by
    refine accountAt_bind_eq_ok.mpr ⟨third, hthird, Exec.bind_eq_ok.mpr ⟨tx, load w, htransition, ?_⟩⟩
    rw [htx]
    refine Exec.bind_eq_ok.mpr ⟨(tx.output, outputs), load w, ?_, rfl⟩
    refine accountAt_bind_eq_ok.mpr ⟨program, hfirst, read_bind_eq_ok.mpr ⟨networkType, hnetwork, ?_⟩⟩
    exact Exec.bind_eq_ok.mpr ⟨tx, load w, htransition, Exec.bind_eq_ok.mpr ⟨outputs, load w, hbuild, rfl⟩⟩
  have hinput := getStateTransitionTx_input htransition
  rw [hwritable, List.map_cons] at hinput
  have hcount : 0 < (tx.input ++ txWithInputs.input).length := by
    rw [hinput]
    exact Nat.succ_pos _
  refine ⟨withdraw, _, { transition := tx.input, taken := txWithInputs.input, inputsToSign }, signed,
    ⟨hsecond, ⟨_, hbuilt⟩, ?_, ?_, ?_, ?_, ?_⟩, hsign, hclear⟩
  · refine accountAt_bind_eq_ok.mpr ⟨withdraw, hsecond, accountAt_bind_eq_ok.mpr ⟨third, hthird, ?_⟩⟩
    refine Exec.bind_eq_ok.mpr ⟨tx, load w, htransition, ?_⟩
    rw [htx]
    exact Exec.query_bind_eq_ok.mpr ⟨inputsToSign, hinputs, rfl⟩
  · rw [hinput]
    rfl
  · obtain ⟨_, _, tx', transaction, payouts, -, houtputs, -, hsubmits⟩ := submitWithdrawBatch_signs h
    obtain ⟨rfl, -⟩ := Prod.mk.inj ((Outcome.ok.inj (hbuilt.symm.trans hsubmits.built)).1)
    have hscripts := hsubmits.transitionScripts
    rw [hwritable, List.map_cons] at hscripts
    obtain ⟨first, rest, htransition', hscript, -⟩ := List.map_eq_cons_iff.mp hscripts
    rw [houtputs, closeOutputs_payouts, htransition', ← hscript]
    rfl
  · obtain ⟨input, hget, hsigner⟩ := Option.map_eq_some_iff.mp (signer_zero hinputs hcount)
    exact ⟨input, List.mem_of_getElem? hget, hsigner⟩
  · exact fun hprogram hother => lastSigned_eq_zero hinputs hprogram (hother third hthird)

/-- A submission moves the account at 1 to an output of the transaction, and no other. -/
theorem submitWithdrawBatch_moves {w : World} {params : WithdrawBatchParams} {raw : Bytes}
    (h : (submitWithdrawBatch rt programId accounts params raw).run (load w) = .ok u m') :
    ∃ withdraw transaction inputs signed, Hands rt w programId accounts params withdraw transaction inputs ∧
      rt.deserializeTransaction (rt.serializeTransaction transaction) = some signed ∧
      (m' withdraw.key).utxo = UtxoMeta.of (rt.computeTxid signed) (lastSigned withdraw.key inputs.inputsToSign) ∧
      ∀ key, key ≠ withdraw.key → (m' key).utxo = (w key).utxo := by
  obtain ⟨withdraw, transaction, inputs, set, hhands, hsign, hclear⟩ := submitWithdrawBatch_hands h
  obtain ⟨hothers, signed, hsigned, hmoved⟩ := setTransactionToSign_utxo hsign hhands.signs
  obtain ⟨data, -, rfl⟩ := write_eq_ok.mp hclear
  refine ⟨withdraw, transaction, inputs, signed, hhands, hsigned, ?_, fun key hkey => ?_⟩
  · rw [Memory.setData_utxo]
    exact hmoved
  · rw [Memory.setData_utxo]
    exact hothers key hkey

theorem updateWithdrawStateUtxo_moves {params : UpdateWithdrawStateUtxoParams}
    (h : (updateWithdrawStateUtxo accounts params).run m = .ok u m') :
    ∃ withdraw bytes, ∃ hlength : bytes.length = 32, accounts[1]? = some withdraw ∧
      hexDecode params.txId.bytes = some bytes ∧
      m' = m.setUtxo withdraw.key (UtxoMeta.of ⟨bytes, hlength⟩ params.vout) := by
  obtain ⟨-, h⟩ := validate_bind_eq_ok.mp h
  obtain ⟨-, h⟩ := validate_bind_eq_ok.mp h
  obtain ⟨withdraw, hsecond, h⟩ := accountAt_bind_eq_ok.mp h
  cases hdecode : hexDecode params.txId.bytes with
  | none =>
      rw [hdecode] at h
      cases (Exec.query_eq_ok.mp h).1
  | some bytes =>
      rw [hdecode] at h
      dsimp only at h
      split at h
      · next hlength => exact ⟨withdraw, bytes, hlength, hsecond, rfl, (Except.ok.inj (Exec.modify_eq_ok.mp h)).symm⟩
      · cases (Exec.query_eq_ok.mp h).1

end Instructions

/-! ### Calls -/

section Calls

variable {rt : Runtime} {w w' : World} {call : Call} {withdraw : Pubkey}

/-- A call writes back the utxos of the accounts that it lists. -/
theorem execute_store {instruction : ProgramInstruction} {m : Memory} (hexecute : execute rt w call = some w')
    (hinstruction : call.instruction = .ok instruction)
    (hrun : (runInstruction rt call.programId call.accounts call.rawParamsData instruction).run (load w) = .ok () m)
    (key : Pubkey) :
    (w' key).utxo = (m key).utxo ∨ ¬Listed call.accounts key ∧ (w' key).utxo = (w key).utxo := by
  obtain ⟨m', houtcome, hsize, rfl⟩ := execute_eq_some.mp hexecute
  rw [outcome_eq hinstruction, hrun] at houtcome
  cases houtcome
  unfold store
  split
  · exact Or.inl rfl
  · next hkey => exact Or.inr ⟨hkey, rfl⟩

/-- Instructions that set no utxo leave all of them alone. -/
theorem execute_utxo_kept {instruction : ProgramInstruction} (hexecute : execute rt w call = some w')
    (hinstruction : call.instruction = .ok instruction) (hnot : ¬instruction.SetsUtxo) (key : Pubkey) :
    (w' key).utxo = (w key).utxo := by
  obtain ⟨instruction', m, hinstruction', hrun, -⟩ := execute_cases hexecute
  obtain rfl := Except.ok.inj (hinstruction.symm.trans hinstruction')
  have hkeeps : Keeps (fun m : Memory => ∀ key, (m key).utxo = (w key).utxo)
      (runInstruction rt call.programId call.accounts call.rawParamsData instruction) fun _ => True :=
    keeps_data_runInstruction rt (fun m key data hm key' => (m.setData_utxo key key' data).trans (hm key')) _ _ hnot
  exact execute_utxo hexecute hinstruction hrun (hkeeps.of_ok (fun _ => rfl) hrun).1 key

theorem stateMove_of_listed (hexecute : execute rt w call = some w') (haccount : call.HasAccount 1 withdraw) :
    stateMove rt withdraw w call =
      match call.instruction with
      | .ok (.submitBatchWithdraw params) => submittedMove rt withdraw w call.programId call.accounts params
      | .ok (.updateWithdrawStateUtxo params) => updatedMove withdraw w params
      | _ => none := by
  rw [stateMove, hexecute]
  exact if_pos haccount

/-- What one call does to the output of a withdraw account. -/
structure Moved (rt : Runtime) (withdraw : Pubkey) (w : World) (call : Call) (move : StateMove) : Prop where
  moves : stateMove rt withdraw w call = some move
  takes : move.takes = some (UtxoMeta.outpoint (w withdraw).utxo)
  leaves : move.leaves = some (UtxoMeta.outpoint (step rt w call withdraw).utxo)
  pays : ∀ transaction txid vout, move = .submits transaction txid vout →
    transaction.output.head?.map TxOut.scriptPubkey = some (rt.getAccountScriptPubkey withdraw).1
  first : call.programId ≠ withdraw → ¬call.HasAccount 2 withdraw →
    ∀ transaction txid vout, move = .submits transaction txid vout → vout = 0

theorem hasAccount_of_listed {index : Nat} {account : AccountInfo} (h : call.accounts[index]? = some account) :
    call.HasAccount index account.key := by
  rw [Call.HasAccount, h]
  rfl

theorem submission_moves (withdraw : Pubkey) {params : WithdrawBatchParams} (hexecute : execute rt w call = some w')
    (hinstruction : call.instruction = .ok (.submitBatchWithdraw params)) :
    (¬call.HasAccount 1 withdraw ∧ (w' withdraw).utxo = (w withdraw).utxo) ∨
      ∃ account transaction inputs txid vout, account.key = withdraw ∧
        Hands rt w call.programId call.accounts params account transaction inputs ∧
        Moved rt withdraw w call (.submits transaction txid vout) := by
  obtain ⟨instruction, m, hinstruction', hrun, -⟩ := execute_cases hexecute
  obtain rfl := Except.ok.inj (hinstruction.symm.trans hinstruction')
  obtain ⟨account, transaction, inputs, signed, hhands, hsigned, hmoved, hothers⟩ := submitWithdrawBatch_moves hrun
  have hstored := execute_store hexecute hinstruction hrun
  by_cases haccount : account.key = withdraw
  · subst haccount
    have hutxo := (hstored account.key).resolve_right fun hunlisted =>
      hunlisted.1 (listed_of_getElem? hhands.listed)
    refine Or.inr ⟨account, transaction, inputs, rt.computeTxid signed, lastSigned account.key inputs.inputsToSign, rfl,
      hhands, ?_, hhands.spends, ?_, ?_, ?_⟩
    · rw [stateMove_of_listed hexecute (hasAccount_of_listed hhands.listed), hinstruction]
      exact hhands.submittedMove hsigned
    · rw [step_of_execute hexecute, hutxo, hmoved, UtxoMeta.outpoint_of]
      rfl
    · rintro _ _ _ ⟨⟩
      exact hhands.pays
    · rintro hprogram hthird _ _ _ ⟨⟩
      refine hhands.first hprogram fun third hget hequal => hthird ?_
      rw [← hequal]
      exact hasAccount_of_listed hget
  · refine Or.inl ⟨fun hlisted => ?_, ?_⟩
    · obtain ⟨account', hget, rfl⟩ := Option.map_eq_some_iff.mp hlisted
      exact haccount (congrArg AccountInfo.key (Option.some.inj (hhands.listed.symm.trans hget)))
    · rcases hstored withdraw with hwritten | ⟨-, hkept⟩
      · exact hwritten.trans (hothers withdraw (Ne.symm haccount))
      · exact hkept

end Calls

/-! ### Runs -/

section Spending

variable {first : Outpoint} {last : Option Outpoint} {earlier later : List StateMove} {transaction : Transaction}
  {txid : FixedBytes 32} {vout : UInt32}

end Spending

end Chainring.Arch

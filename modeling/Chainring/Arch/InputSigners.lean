import Chainring.Arch.RoundTrip
import Chainring.Arch.WithdrawalTransaction
import Chainring.Base.CheckedWord

/-! Who signs the inputs of a withdrawal transaction. The signers are chosen by position, as if the state transition
had the one input of the withdraw account; it has one for every writable account of the list. -/

namespace Chainring.Arch

/-! ### The inputs of a submission -/

/-- The input that spends the output an account holds. -/
def transitionInput (m : Memory) (account : AccountInfo) : TxIn where
  txid := UtxoMeta.txid (m account.key).utxo
  vout := UtxoMeta.vout (m account.key).utxo
  scriptSig := []
  sequence := 0xffffffff
  witness := []

/-- The inputs of a transaction, those of the state transition and those taken from the batch, and their signers. -/
structure SignedInputs where
  transition : List TxIn
  taken : List TxIn
  inputsToSign : List InputToSign
  deriving DecidableEq

def SignedInputs.signerAt (inputs : SignedInputs) (i : Nat) : Option Pubkey :=
  (inputs.inputsToSign[i]?).map InputToSign.signer

/-- What a submission signs: its steps on the inputs, without the checks that come before them. -/
def submittedInputs (rt : Runtime) (programId : Pubkey) (accounts : List AccountInfo)
    (params : WithdrawBatchParams) : Prog SignedInputs := do
  let withdrawAccount ← accountAt accounts 1
  let third ← accountAt accounts 2
  let tx ← getStateTransitionTx rt accounts
  match rt.deserializeTransaction params.txHex with
  | none => Exec.fail (.custom errorInvalidInputTx)
  | some txWithInputs => do
      let inputsToSign ← lift ((List.range (tx.input ++ txWithInputs.input).length).mapM
        (inputSigner programId withdrawAccount third params.inputUtxoTypes))
      pure { transition := tx.input, taken := txWithInputs.input, inputsToSign }

/-- A submission sets a transaction of these inputs to be signed by these signers, then empties the register. -/
structure SubmitsInputs (rt : Runtime) (programId : Pubkey) (accounts : List AccountInfo)
    (params : WithdrawBatchParams) (m m' : Memory) (inputs : SignedInputs) : Prop where
  computed : (submittedInputs rt programId accounts params).run m = .ok inputs m
  signed : ∃ withdraw, ∃ transaction : Transaction, ∃ signed, accounts[1]? = some withdraw ∧
    transaction.input = inputs.transition ++ inputs.taken ∧
    (setTransactionToSign rt withdraw (rt.serializeTransaction transaction) inputs.inputsToSign).run m = .ok () signed ∧
    (withdraw.write WithdrawState.clearHash).run signed = .ok () m'

/-- Every input has one entry, in the order of the inputs. An input of the state transition is signed by the account
whose output it spends, one taken from the batch by the program or by the rune receiver, as its type says. -/
structure SignedByOwners (programId : Pubkey) (accounts : List AccountInfo) (types : List InputUtxoType) (m : Memory)
    (inputs : SignedInputs) : Prop where
  one : inputs.inputsToSign.map (fun entry => entry.index.toNat) =
    List.range (inputs.transition ++ inputs.taken).length
  owner : ∀ i input, inputs.transition[i]? = some input → ∃ account,
    (accounts.filter (·.isWritable))[i]? = some account ∧ input = transitionInput m account ∧
      inputs.signerAt i = some account.key
  program : ∀ k, k < inputs.taken.length → types[k]? = some .bitcoin →
    inputs.signerAt (inputs.transition.length + k) = some programId
  receiver : ∀ k, k < inputs.taken.length → types[k]? = some .rune → ∃ receiver, accounts[2]? = some receiver ∧
    getType (m receiver.key).data = .ok .runeReceiver ∧
      inputs.signerAt (inputs.transition.length + k) = some receiver.key

/-! ### The signers by position -/

/-- The signer that the type of an input asks for. -/
def typeSigner (programId receiver : Pubkey) : InputUtxoType → Pubkey
  | .bitcoin => programId
  | .rune => receiver

section Transition

variable {rt : Runtime} {accounts : List AccountInfo} {m m' : Memory}

theorem transitionInputs_run (writable : List AccountInfo) (input : List TxIn) :
    (writable.foldlM (fun input account => do
      let utxo ← account.getUtxo
      pure (input ++ [({ txid := UtxoMeta.txid utxo, vout := UtxoMeta.vout utxo, scriptSig := [],
                         sequence := 0xffffffff, witness := [] } : TxIn)])) input : Prog (List TxIn)).run m =
      .ok (input ++ writable.map (transitionInput m)) m := by
  induction writable generalizing input with
  | nil =>
      rw [List.map_nil, List.append_nil]
      rfl
  | cons account writable ih =>
      rw [List.foldlM_cons, List.map_cons, ← List.singleton_append, ← List.append_assoc]
      exact ih (input ++ [transitionInput m account])

/-- The state transition spends the outputs of the writable accounts, in their order. -/
theorem getStateTransitionTx_input {tx : Transaction} (h : (getStateTransitionTx rt accounts).run m = .ok tx m') :
    tx.input = (accounts.filter (·.isWritable)).map (transitionInput m) := by
  obtain ⟨input, read, hinput, h⟩ := Exec.bind_eq_ok.mp h
  obtain ⟨output, written, -, h⟩ := Exec.bind_eq_ok.mp h
  obtain ⟨rfl, -⟩ := Exec.pure_eq_ok.mp h
  rw [transitionInputs_run] at hinput
  cases hinput
  rfl

variable {programId : Pubkey} {withdraw third : AccountInfo} {types : List InputUtxoType} {index : Nat}
  {entry : InputToSign}

theorem inputSigner_index (h : inputSigner programId withdraw third types index = .ok entry) :
    entry.index = UInt32.ofNat index := by
  unfold inputSigner at h
  split at h
  · cases h
    rfl
  · split at h <;> cases h <;> rfl

theorem inputSigner_succ (h : inputSigner programId withdraw third types (index + 1) = .ok entry) :
    (types[index]?).map (typeSigner programId third.key) = some entry.signer := by
  unfold inputSigner at h
  split at h
  · contradiction
  · next position hposition =>
      obtain rfl : index = position := Nat.succ.inj hposition
      split at h
      · cases h
      · next htype =>
          cases h
          rw [htype]
          rfl
      · next htype =>
          cases h
          rw [htype]
          rfl

end Transition

section Signers

variable {programId : Pubkey} {withdraw third : AccountInfo} {types : List InputUtxoType} {count : Nat}
  {inputsToSign : List InputToSign}
  (h : (List.range count).mapM (inputSigner programId withdraw third types) = .ok inputsToSign)

include h

theorem entry_of_lt {i : Nat} (hi : i < count) :
    ∃ entry, inputsToSign[i]? = some entry ∧ inputSigner programId withdraw third types i = .ok entry := by
  have hrange : (List.range count)[i]? = some i := by simp [hi]
  exact getElem?_of_forall₂ (CheckedWord.forall₂_of_mapM h) hrange

theorem inputsToSign_length : inputsToSign.length = count := by
  rw [← (CheckedWord.forall₂_of_mapM h).length_eq, List.length_range]

theorem signer_zero (hcount : 0 < count) : (inputsToSign[0]?).map InputToSign.signer = some withdraw.key := by
  obtain ⟨entry, hentry, hsigner⟩ := entry_of_lt h hcount
  cases hsigner
  rw [hentry]
  rfl

/-- After the first input, the signer is the one that the type before its position asks for. -/
theorem signer_succ {i : Nat} (hi : i + 1 < count) :
    ∃ type, types[i]? = some type ∧
      (inputsToSign[i + 1]?).map InputToSign.signer = some (typeSigner programId third.key type) := by
  obtain ⟨entry, hentry, hsigner⟩ := entry_of_lt h hi
  have htype := inputSigner_succ hsigner
  obtain ⟨type, hget, heq⟩ := Option.map_eq_some_iff.mp htype
  refine ⟨type, hget, ?_⟩
  rw [hentry, heq]
  rfl

theorem count_le : count ≤ types.length + 1 := by
  by_contra hgt
  obtain ⟨type, hget, -⟩ := signer_succ h (show types.length + 1 < count by omega)
  rw [List.getElem?_eq_none (le_refl types.length)] at hget
  cases hget

theorem inputsToSign_indices (hfew : count ≤ 2 ^ 32) :
    inputsToSign.map (fun entry => entry.index.toNat) = List.range count := by
  apply List.ext_getElem?
  intro i
  rw [List.getElem?_map]
  by_cases hi : i < count
  · obtain ⟨entry, hentry, hsigner⟩ := entry_of_lt h hi
    rw [hentry, Option.map_some, inputSigner_index hsigner, UInt32.toNat_ofNat_of_lt' (show i < 2 ^ 32 by omega)]
    simp [hi]
  · have hlength := inputsToSign_length h
    rw [List.getElem?_eq_none (by omega), Option.map_none, List.getElem?_eq_none (by rw [List.length_range]; omega)]

end Signers

/-! ### The owners of the inputs -/

/-- The signers chosen by position are the owners: the types name the further writable accounts and, moved on by
their number, the same signers as before; where a rune input is taken, the third account is a rune receiver. -/
structure OwnersAligned (programId receiver : Pubkey) (accounts : List AccountInfo) (types : List InputUtxoType)
    (m : Memory) (taken : Nat) : Prop where
  further : ∀ i account, (accounts.filter (·.isWritable))[i + 1]? = some account →
    (types[i]?).map (typeSigner programId receiver) = some account.key
  moved : ∀ k, k < taken →
    (types[(accounts.filter (·.isWritable)).length - 1 + k]?).map (typeSigner programId receiver) =
      (types[k]?).map (typeSigner programId receiver)
  received : ∀ k, k < taken → types[k]? = some .rune → getType (m receiver).data = .ok .runeReceiver

/-- Where the withdraw account is the only writable one, only the third account matters. -/
theorem ownersAligned_of_only {programId receiver : Pubkey} {accounts : List AccountInfo} {types : List InputUtxoType}
    {m : Memory} {taken : Nat} (honly : (accounts.filter (·.isWritable)).length = 1) :
    OwnersAligned programId receiver accounts types m taken ↔
      ∀ k, k < taken → types[k]? = some .rune → getType (m receiver).data = .ok .runeReceiver := by
  refine ⟨OwnersAligned.received, fun hreceived => ⟨fun i account hget => ?_, fun k _ => ?_, hreceived⟩⟩
  · rw [List.getElem?_eq_none (by omega)] at hget
    cases hget
  · rw [honly, Nat.sub_self, Nat.zero_add]

theorem writable_of_validated {accounts : List AccountInfo} {m : Memory} {withdraw : AccountInfo}
    (hfirst : Validated accounts 0 true false (some .program) (some 1) m)
    (hsecond : Validated accounts 1 true true (some .withdraw) (some 0) m) (hlisted : accounts[1]? = some withdraw) :
    ∃ further, accounts.filter (·.isWritable) = withdraw :: further := by
  obtain ⟨program, hprogram, -, hreadOnly, -⟩ := hfirst
  obtain ⟨-, hwritable, -⟩ := hsecond.of_listed hlisted
  match accounts with
  | [] => cases hlisted
  | [_] => cases hlisted
  | first :: second :: rest =>
      obtain rfl : first = program := Option.some.inj hprogram
      obtain rfl : second = withdraw := Option.some.inj hlisted
      exact ⟨rest.filter (·.isWritable), by simp [hreadOnly, hwritable]⟩

section Owners

variable {programId : Pubkey} {accounts further : List AccountInfo} {withdraw third : AccountInfo}
  {types : List InputUtxoType} {m : Memory} {inputs : SignedInputs}
  (hwritable : accounts.filter (·.isWritable) = withdraw :: further) (hthird : accounts[2]? = some third)
  (htransition : inputs.transition = (accounts.filter (·.isWritable)).map (transitionInput m))
  (hsigners : (List.range (inputs.transition ++ inputs.taken).length).mapM
    (inputSigner programId withdraw third types) = .ok inputs.inputsToSign)

include hwritable htransition

theorem transition_length : inputs.transition.length = further.length + 1 := by
  rw [htransition, List.length_map, hwritable, List.length_cons]

include hsigners

/-- The signer of an input that is taken from the batch. -/
theorem takenSigner {k : Nat} (hk : k < inputs.taken.length) :
    ∃ type, types[further.length + k]? = some type ∧
      inputs.signerAt (inputs.transition.length + k) = some (typeSigner programId third.key type) := by
  have hlength := transition_length hwritable htransition
  have hlt : further.length + k + 1 < (inputs.transition ++ inputs.taken).length := by
    rw [List.length_append]
    omega
  obtain ⟨type, hget, hsigner⟩ := signer_succ hsigners hlt
  refine ⟨type, hget, ?_⟩
  rw [SignedInputs.signerAt, hlength, Nat.add_right_comm]
  exact hsigner

theorem transitionSigner {i : Nat} {account : AccountInfo} (hget : further[i]? = some account) :
    inputs.signerAt (i + 1) = (types[i]?).map (typeSigner programId third.key) := by
  have hlength := transition_length hwritable htransition
  obtain ⟨hi, -⟩ := List.getElem?_eq_some_iff.mp hget
  have hlt : i + 1 < (inputs.transition ++ inputs.taken).length := by
    rw [List.length_append]
    omega
  obtain ⟨type, htype, hsigner⟩ := signer_succ hsigners hlt
  rw [htype]
  exact hsigner

include hthird

theorem aligned_of_signed (h : SignedByOwners programId accounts types m inputs) :
    OwnersAligned programId third.key accounts types m inputs.taken.length where
  further := by
    intro i account hget
    have hinput : inputs.transition[i + 1]? = some (transitionInput m account) := by
      rw [htransition, List.getElem?_map, hget, Option.map_some]
    obtain ⟨account', hget', -, hsigner⟩ := h.owner (i + 1) _ hinput
    obtain rfl : account' = account := Option.some.inj (hget'.symm.trans hget)
    rw [hwritable, List.getElem?_cons_succ] at hget
    rw [← transitionSigner hwritable htransition hsigners hget]
    exact hsigner
  moved := by
    intro k hk
    obtain ⟨type, hget, hsigner⟩ := takenSigner hwritable htransition hsigners hk
    obtain ⟨hlt, -⟩ := List.getElem?_eq_some_iff.mp hget
    rw [hwritable, List.length_cons, Nat.add_sub_cancel, hget, Option.map_some, ← hsigner]
    cases hown : types[k]? with
    | none => exact absurd (List.getElem?_eq_none_iff.mp hown) (by omega)
    | some own =>
        cases own with
        | bitcoin => exact h.program k hk hown
        | rune =>
            obtain ⟨receiver, hreceiver, -, hsigned⟩ := h.receiver k hk hown
            obtain rfl : receiver = third := Option.some.inj (hreceiver.symm.trans hthird)
            exact hsigned
  received := by
    intro k hk hrune
    obtain ⟨receiver, hreceiver, htype, -⟩ := h.receiver k hk hrune
    obtain rfl : receiver = third := Option.some.inj (hreceiver.symm.trans hthird)
    exact htype

theorem signed_of_aligned (hfew : types.length ≤ 65535)
    (h : OwnersAligned programId third.key accounts types m inputs.taken.length) :
    SignedByOwners programId accounts types m inputs := by
  have htaken : ∀ k, k < inputs.taken.length →
      inputs.signerAt (inputs.transition.length + k) = (types[k]?).map (typeSigner programId third.key) := by
    intro k hk
    obtain ⟨type, hget, hsigner⟩ := takenSigner hwritable htransition hsigners hk
    have hmoved := h.moved k hk
    rw [hwritable, List.length_cons, Nat.add_sub_cancel, hget, Option.map_some] at hmoved
    exact hsigner.trans hmoved
  refine ⟨?_, fun i input hget => ?_, fun k hk htype => ?_, fun k hk htype => ?_⟩
  · have hcount := count_le hsigners
    exact inputsToSign_indices hsigners (by omega)
  · rw [htransition, List.getElem?_map] at hget
    obtain ⟨account, haccount, rfl⟩ := Option.map_eq_some_iff.mp hget
    refine ⟨account, haccount, rfl, ?_⟩
    cases i with
    | zero =>
        rw [hwritable] at haccount
        obtain rfl : withdraw = account := Option.some.inj haccount
        have hlength := transition_length hwritable htransition
        exact signer_zero hsigners (by rw [List.length_append]; omega)
    | succ i =>
        have hsigner := h.further i account haccount
        rw [hwritable, List.getElem?_cons_succ] at haccount
        rw [transitionSigner hwritable htransition hsigners haccount]
        exact hsigner
  · rw [htaken k hk, htype]
    rfl
  · refine ⟨third, hthird, h.received k hk htype, ?_⟩
    rw [htaken k hk, htype]
    rfl

end Owners

/-! ### The submission -/

section Submission

variable {rt : Runtime} {programId : Pubkey} {accounts : List AccountInfo} {params : WithdrawBatchParams}
  {raw : Bytes} {m m' : Memory} {u : Unit}

theorem submitWithdrawBatch_inputs (h : (submitWithdrawBatch rt programId accounts params raw).run m = .ok u m') :
    ∃ inputs further withdraw third, SubmitsInputs rt programId accounts params m m' inputs ∧
      accounts.filter (·.isWritable) = withdraw :: further ∧ accounts[2]? = some third ∧
      inputs.transition = (accounts.filter (·.isWritable)).map (transitionInput m) ∧
      (List.range (inputs.transition ++ inputs.taken).length).mapM
        (inputSigner programId withdraw third params.inputUtxoTypes) = .ok inputs.inputsToSign := by
  obtain ⟨program, withdraw, third, networkType, tx, txWithInputs, outputs, inputsToSign, signed, hvalidated,
    hvalidated', -, hsecond, hthird, -, -, htransition, htx, -, -, hinputs, hsign, hclear⟩ := submitWithdrawBatch_steps h
  obtain ⟨further, hwritable⟩ := writable_of_validated hvalidated hvalidated' hsecond
  refine ⟨{ transition := tx.input, taken := txWithInputs.input, inputsToSign }, further, withdraw, third,
    ⟨?_, withdraw, _, signed, hsecond, ?_, hsign, hclear⟩, hwritable, hthird,
    getStateTransitionTx_input htransition, hinputs⟩
  · refine accountAt_bind_eq_ok.mpr ⟨withdraw, hsecond, accountAt_bind_eq_ok.mpr ⟨third, hthird, ?_⟩⟩
    refine Exec.bind_eq_ok.mpr ⟨tx, m, htransition, ?_⟩
    rw [htx]
    exact Exec.query_bind_eq_ok.mpr ⟨inputsToSign, hinputs, rfl⟩
  · rfl

/-- A call that goes through ran the submission of its batch. -/
theorem submits_of_execute {w : World} (hparams : decodeFromSlice WithdrawBatchParams.decode raw = .ok params)
    (hexecute : (execute rt w (withdrawCall 9 programId accounts raw)).isSome) :
    ∃ m', (submitWithdrawBatch rt programId accounts params raw).run (load w) = .ok () m' := by
  obtain ⟨w', hsome⟩ := Option.isSome_iff_exists.mp hexecute
  obtain ⟨instruction, m', hinstruction, hrun, -⟩ := execute_cases hsome
  obtain rfl := Except.ok.inj (hinstruction.symm.trans (withdrawCall_submit programId accounts hparams))
  exact ⟨m', hrun⟩

end Submission

/-- Every submission that succeeds signs its inputs by their owners exactly when these are aligned with the types.
The batch of a preparation has one type for each input that it takes; there the withdraw account is the only writable
one, and the owners sign exactly when no rune input is taken or the third account is a rune receiver. -/
theorem submission_signers (rt : Runtime) (programId : Pubkey) (accounts : List AccountInfo)
    (params : WithdrawBatchParams) (raw : Bytes) (m m' : Memory)
    (hparams : decodeFromSlice WithdrawBatchParams.decode raw = .ok params)
    (hsubmit : (submitWithdrawBatch rt programId accounts params raw).run m = .ok () m') :
    ∃ inputs third, SubmitsInputs rt programId accounts params m m' inputs ∧ accounts[2]? = some third ∧
      (SignedByOwners programId accounts params.inputUtxoTypes m inputs ↔
        OwnersAligned programId third.key accounts params.inputUtxoTypes m inputs.taken.length) ∧
      (params.inputUtxoTypes.length = inputs.taken.length →
        (accounts.filter (·.isWritable)).length = 1 ∧
        (SignedByOwners programId accounts params.inputUtxoTypes m inputs ↔
          (.rune ∈ params.inputUtxoTypes → getType (m third.key).data = .ok .runeReceiver))) := by
  have hfew : params.inputUtxoTypes.length ≤ 65535 := (produces_withdrawBatchParams.of_run_fst hparams).2.2.1
  obtain ⟨inputs, further, withdraw, third, hsubmits, hwritable, hthird, htransition, hsigners⟩ :=
    submitWithdrawBatch_inputs hsubmit
  have hiff : SignedByOwners programId accounts params.inputUtxoTypes m inputs ↔
      OwnersAligned programId third.key accounts params.inputUtxoTypes m inputs.taken.length :=
    ⟨aligned_of_signed hwritable hthird htransition hsigners,
      signed_of_aligned hwritable hthird htransition hsigners hfew⟩
  refine ⟨inputs, third, hsubmits, hthird, hiff, fun hequal => ?_⟩
  have honly : (accounts.filter (·.isWritable)).length = 1 := by
    have hcount := count_le hsigners
    have hlength := transition_length hwritable htransition
    rw [List.length_append] at hcount
    rw [hwritable, List.length_cons]
    omega
  refine ⟨honly, hiff.trans ((ownersAligned_of_only honly).trans ?_)⟩
  constructor
  · intro hreceived hmem
    obtain ⟨k, hk, hget⟩ := List.getElem_of_mem hmem
    exact hreceived k (by omega) (List.getElem?_eq_some_iff.mpr ⟨hk, hget⟩)
  · exact fun hreceived k _ hget => hreceived (List.mem_of_getElem? hget)

theorem small_signs_one :
    ((submittedInputs smallRuntime (sampleKey 0xee) (submittingAccounts (sampleKey 0x31)) smallBatchParams).run
      (load (worldAt smallRuntime smallWorld [smallPrepare, smallSubmit] 1))).value.map
        (fun inputs => inputs.taken.length) = some 1 := by
  decide +kernel

/-- The small batch takes a bitcoin input, and its inputs are signed by their owners. -/
theorem smallBatch_signers :
    ∃ m' inputs, SubmitsInputs smallRuntime (sampleKey 0xee) (submittingAccounts (sampleKey 0x31)) smallBatchParams
        (load (worldAt smallRuntime smallWorld [smallPrepare, smallSubmit] 1)) m' inputs ∧
      SignedByOwners (sampleKey 0xee) (submittingAccounts (sampleKey 0x31)) smallBatchParams.inputUtxoTypes
        (load (worldAt smallRuntime smallWorld [smallPrepare, smallSubmit] 1)) inputs := by
  have hparams := small_submitted.decoded
  obtain ⟨m', hrun⟩ := submits_of_execute hparams small_runs.2.2.1
  obtain ⟨inputs, third, hsubmits, -, -, hprepared⟩ := submission_signers smallRuntime (sampleKey 0xee)
    (submittingAccounts (sampleKey 0x31)) smallBatchParams smallBatch
    (load (worldAt smallRuntime smallWorld [smallPrepare, smallSubmit] 1)) m' hparams hrun
  have hone := small_signs_one
  rw [hsubmits.computed] at hone
  have htaken : inputs.taken.length = 1 := Option.some.inj hone
  refine ⟨m', inputs, hsubmits, (hprepared htaken.symm).2.mpr fun hmem => ?_⟩
  cases List.mem_singleton.mp hmem

/-! ### Inputs that others sign -/

/-- The small batch with the type of its input changed to a rune, and with the types of two inputs. -/
def runeInputBatch : Bytes := smallBatch.take 99 ++ [1, 0, 1]

def runeInputParams : WithdrawBatchParams := { smallBatchParams with inputUtxoTypes := [.rune] }

def twoTypesBatch : Bytes := smallBatch.take 99 ++ [2, 0, 0, 0]

def twoTypesParams : WithdrawBatchParams := { smallBatchParams with inputUtxoTypes := [.bitcoin, .bitcoin] }

def twoTypesDigest : Hash :=
  ⟨[0x04, 0x32, 0xef, 0xbb, 0x7b, 0xba, 0x98, 0x80, 0x57, 0x7f, 0x97, 0x97, 0x95, 0x5d, 0x63, 0xc1,
    0x03, 0x49, 0x48, 0x7d, 0x07, 0x70, 0xd7, 0xb7, 0x7f, 0xb8, 0xcd, 0xe7, 0x65, 0x1b, 0x88, 0x14], rfl⟩

/-- The transaction of a list with a further writable account. -/
def furtherTx : Transaction where
  version := 2
  lockTime := 0
  input := [spend stateTxid, spend plainTxid, spend (sampleKey 0x11)]
  output := stateTx.output ++ [{ value := 10000, scriptPubkey := [0x51, 0x20] ++ (sampleKey 0x60).1 },
    { value := 4950, scriptPubkey := firstScript }]

def furtherTxid : FixedBytes 32 :=
  ⟨[0x3c, 0x45, 0x4b, 0x20, 0x1e, 0x81, 0x09, 0x83, 0x36, 0xd6, 0xef, 0x7f, 0xdb, 0x3a, 0x14, 0x71,
    0xae, 0x9c, 0xcc, 0xf8, 0xcd, 0x70, 0x35, 0x27, 0x64, 0xca, 0xb7, 0x38, 0x07, 0x35, 0x99, 0x78], rfl⟩

def signersTxids : List (Transaction × FixedBytes 32) := (furtherTx, furtherTxid) :: sampleTxids

def signersRuntime : Runtime :=
  { submitRuntime [(runeInputBatch,
      ⟨[0xd5, 0xb3, 0x74, 0x94, 0x69, 0xf6, 0x77, 0xae, 0x27, 0x48, 0xe2, 0x75, 0xbc, 0xfa, 0xe9, 0x0d,
        0x99, 0xc9, 0x19, 0x24, 0x6f, 0x73, 0x49, 0x9c, 0x70, 0xc1, 0x4e, 0x3d, 0x6e, 0x8f, 0xf7, 0xb5], rfl⟩),
      (twoTypesBatch, twoTypesDigest)] with
    deserializeTransaction := fun bytes =>
      (inputTx :: signersTxids.map Prod.fst).find? (transactionBytes · = bytes)
    computeTxid := fun tx => ((signersTxids.find? (·.1 = tx)).map Prod.snd).getD (sampleKey 0) }

/-- Two tokens, of which the batch names one. -/
def twoTokensWorld : World := submitWorld [(sampleKey 0x31, [0x31]), (sampleKey 0x32, [0x32])]

def runeInputPrepare : Call :=
  withdrawCall 4 (sampleKey 0xee) [⟨sampleProgram, true, true⟩, ⟨sampleWithdraw, false, true⟩,
    ⟨sampleKey 0x32, false, false⟩, ⟨sampleKey 0x31, false, true⟩] runeInputBatch

/-- The other token where the rune receiver is expected. -/
def unreceivedAccounts : List AccountInfo :=
  [⟨sampleProgram, true, false⟩, ⟨sampleWithdraw, true, true⟩, ⟨sampleKey 0x32, false, false⟩,
    ⟨sampleKey 0x31, false, false⟩]

/-- A batch of two types is about to be submitted, and an account of the list holds an output of its own. -/
def furtherWorld : World := fun key =>
  if key = sampleWithdraw then { stored (withdrawData twoTypesDigest) with utxo := UtxoMeta.of stateTxid 0 }
  else if key = sampleKey 0x60 then { stored [] with utxo := UtxoMeta.of plainTxid 0 }
  else twoTokensWorld key

def furtherAccounts : List AccountInfo :=
  submittingAccounts (sampleKey 0x31) ++ [⟨sampleKey 0x60, false, true⟩]

theorem runeInput_runs :
    (execute signersRuntime twoTokensWorld runeInputPrepare).isSome ∧
    ((submitWithdrawBatch signersRuntime (sampleKey 0xee) unreceivedAccounts runeInputParams runeInputBatch).run
      (load (worldAt signersRuntime twoTokensWorld [runeInputPrepare] 1))).okState.isSome ∧
    ((submittedInputs signersRuntime (sampleKey 0xee) unreceivedAccounts runeInputParams).run
      (load (worldAt signersRuntime twoTokensWorld [runeInputPrepare] 1))).value.map
        (fun inputs => (inputs.taken.length, inputs.signerAt 1)) = some (1, some (sampleKey 0x32)) ∧
    getType (load (worldAt signersRuntime twoTokensWorld [runeInputPrepare] 1) (sampleKey 0x32)).data ≠
      .ok .runeReceiver := by
  decide +kernel

theorem further_runs :
    ((submitWithdrawBatch signersRuntime (sampleKey 0xee) furtherAccounts twoTypesParams twoTypesBatch).run
      (load furtherWorld)).okState.isSome ∧
    ((submittedInputs signersRuntime (sampleKey 0xee) furtherAccounts twoTypesParams).run
      (load furtherWorld)).value.map
        (fun inputs => (inputs.transition.length, inputs.signerAt 1)) = some (2, some (sampleKey 0xee)) := by
  decide +kernel

/-- Prepared and submitted with another token in the third place, a rune input is signed by that token. And with a
further writable account, the program signs the input that spends this account's output. -/
theorem signers_misplaced :
    (decodeFromSlice WithdrawBatchParams.decode runeInputBatch = .ok runeInputParams ∧
      (execute signersRuntime twoTokensWorld runeInputPrepare).isSome ∧
      ∃ m' inputs, (submitWithdrawBatch signersRuntime (sampleKey 0xee) unreceivedAccounts runeInputParams
          runeInputBatch).run (load (worldAt signersRuntime twoTokensWorld [runeInputPrepare] 1)) = .ok () m' ∧
        SubmitsInputs signersRuntime (sampleKey 0xee) unreceivedAccounts runeInputParams
          (load (worldAt signersRuntime twoTokensWorld [runeInputPrepare] 1)) m' inputs ∧
        inputs.signerAt 1 = some (sampleKey 0x32) ∧
        ¬SignedByOwners (sampleKey 0xee) unreceivedAccounts runeInputParams.inputUtxoTypes
          (load (worldAt signersRuntime twoTokensWorld [runeInputPrepare] 1)) inputs) ∧
    (decodeFromSlice WithdrawBatchParams.decode twoTypesBatch = .ok twoTypesParams ∧
      ∃ m' inputs, (submitWithdrawBatch signersRuntime (sampleKey 0xee) furtherAccounts twoTypesParams
          twoTypesBatch).run (load furtherWorld) = .ok () m' ∧
        SubmitsInputs signersRuntime (sampleKey 0xee) furtherAccounts twoTypesParams (load furtherWorld) m' inputs ∧
        inputs.signerAt 1 = some (sampleKey 0xee) ∧
        ¬SignedByOwners (sampleKey 0xee) furtherAccounts twoTypesParams.inputUtxoTypes (load furtherWorld) inputs) := by
  refine ⟨⟨by decide +kernel, runeInput_runs.1, ?_⟩, by decide +kernel, ?_⟩
  · obtain ⟨m', hstate⟩ := Option.isSome_iff_exists.mp runeInput_runs.2.1
    obtain ⟨⟨⟩, hrun⟩ := Outcome.okState_eq_some.mp hstate
    obtain ⟨inputs, -, -, -, hsubmits, -⟩ := submitWithdrawBatch_inputs hrun
    have hinputs := runeInput_runs.2.2.1
    rw [hsubmits.computed] at hinputs
    obtain ⟨htaken, hsigner⟩ := Prod.mk.inj (Option.some.inj hinputs)
    refine ⟨m', inputs, hrun, hsubmits, hsigner, fun hsigned => ?_⟩
    obtain ⟨receiver, hreceiver, htype, -⟩ := hsigned.receiver 0 (by omega) rfl
    obtain rfl : ⟨sampleKey 0x32, false, false⟩ = receiver := Option.some.inj hreceiver
    exact runeInput_runs.2.2.2 htype
  · obtain ⟨m', hstate⟩ := Option.isSome_iff_exists.mp further_runs.1
    obtain ⟨⟨⟩, hrun⟩ := Outcome.okState_eq_some.mp hstate
    obtain ⟨inputs, -, -, -, hsubmits, -⟩ := submitWithdrawBatch_inputs hrun
    have hinputs := further_runs.2
    rw [hsubmits.computed] at hinputs
    obtain ⟨hlength, hsigner⟩ := Prod.mk.inj (Option.some.inj hinputs)
    refine ⟨m', inputs, hrun, hsubmits, hsigner, fun hsigned => ?_⟩
    have hlt : 1 < inputs.transition.length := by omega
    obtain ⟨account, haccount, -, howner⟩ := hsigned.owner 1 _ (List.getElem?_eq_getElem hlt)
    obtain rfl : ⟨sampleKey 0x60, false, true⟩ = account := Option.some.inj haccount
    exact absurd (Option.some.inj (hsigner.symm.trans howner)) (by decide)

end Chainring.Arch

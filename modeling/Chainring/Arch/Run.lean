import Chainring.Arch.InstructionReach
import Chainring.Base.TwoPhase

/-! Runs of the program: calls by anyone on any accounts in any order, where a call that fails leaves
no trace. What a call changes in the stored accounts is read off its reach, and the header of an
account, once written, stays what it is. -/

namespace Chainring.Arch

open Bytes (ofWord)

/-- An account between calls, within the size that the host permits. -/
structure StoredAccount where
  data : Bytes
  utxo : UtxoMeta
  size_le : data.length ≤ maxPermittedDataLength

abbrev World := Pubkey → StoredAccount

structure Call where
  programId : Pubkey
  accounts : List AccountInfo
  instructionData : Bytes
  deriving DecidableEq

/-- The memory that a call starts with. -/
def load (w : World) : Memory := fun key =>
  { data := (w key).data, utxo := (w key).utxo, originalDataLen := (w key).data.length }

def WithinSize (accounts : List AccountInfo) (m : Memory) : Prop :=
  ∀ account ∈ accounts, (m account.key).data.length ≤ maxPermittedDataLength

instance (accounts : List AccountInfo) (m : Memory) : Decidable (WithinSize accounts m) :=
  inferInstanceAs (Decidable (∀ _ ∈ accounts, _))

instance (accounts : List AccountInfo) (key : Pubkey) : Decidable (Listed accounts key) :=
  inferInstanceAs (Decidable (∃ _ ∈ accounts, _))

/-- What a call made of its accounts, written back. -/
def store (w : World) (accounts : List AccountInfo) (m : Memory) (hsize : WithinSize accounts m) :
    World := fun key =>
  if hkey : Listed accounts key then
    { data := (m key).data
      utxo := (m key).utxo
      size_le := by
        obtain ⟨account, hmem, rfl⟩ := hkey
        exact hsize account hmem }
  else w key

namespace Call

def instruction (call : Call) : Except IoError ProgramInstruction :=
  decodeFromSlice ProgramInstruction.decode call.instructionData

/-- What follows the tag: the part of the data that batches are known by. -/
def rawParamsData (call : Call) : Bytes := call.instructionData.drop 1

/-- The call's account at the position has the key. -/
def HasAccount (call : Call) (index : Nat) (key : Pubkey) : Prop :=
  (call.accounts[index]?).map AccountInfo.key = some key

instance (call : Call) (index : Nat) (key : Pubkey) : Decidable (call.HasAccount index key) :=
  inferInstanceAs (Decidable (_ = _))

def outcome (rt : Runtime) (call : Call) (w : World) : Outcome ProgramError Memory Unit :=
  (processInstruction rt call.programId call.accounts call.instructionData).run (load w)

end Call

variable (rt : Runtime)

/-- The world after a call that returns, unless it made an account larger than the host permits. -/
def execute (w : World) (call : Call) : Option World :=
  match call.outcome rt w with
  | .ok _ m => if hsize : WithinSize call.accounts m then some (store w call.accounts m hsize) else none
  | .error _ _ => none
  | .panic => none

def step (w : World) (call : Call) : World := (execute rt w call).getD w

section Calls

variable {rt} {w w' : World} {call : Call}

theorem load_loaded (accounts : List AccountInfo) (w : World) : Loaded accounts (load w) where
  originalDataLen := fun _ => rfl
  size_le := fun account _ => (w account.key).size_le

theorem execute_eq_some :
    execute rt w call = some w' ↔ ∃ m, call.outcome rt w = .ok () m ∧
      ∃ hsize : WithinSize call.accounts m, w' = store w call.accounts m hsize := by
  unfold execute
  cases call.outcome rt w with
  | ok u m =>
      simp only [Outcome.ok.injEq, true_and, exists_eq_left']
      split
      · next hsize => simp [hsize, eq_comm]
      · next hsize => simp [hsize]
  | error e m => simp
  | panic => simp

/-- What a call leaves behind stays within the reach of its instruction. -/
theorem outcome_touches {m : Memory}
    (h : call.outcome rt w = .ok () m ∨ ∃ e, call.outcome rt w = .error e m) :
    Touches (reachOf call.instructionData) call.accounts (load w) m := by
  have hleaves := processInstruction_leaves rt (load_loaded call.accounts w) call.programId
    call.instructionData
  rw [← Call.outcome] at hleaves
  rcases h with hok | ⟨e, herror⟩
  · rw [hok] at hleaves
    exact hleaves.of_ok.1
  · rw [herror] at hleaves
    exact hleaves.of_error

/-- A call that returns has decoded its instruction and run it, and its data is written back. -/
theorem execute_cases (h : execute rt w call = some w') :
    ∃ instruction m, call.instruction = .ok instruction ∧
      (runInstruction rt call.programId call.accounts call.rawParamsData instruction).run (load w) =
        .ok () m ∧
      Touches (reachOf call.instructionData) call.accounts (load w) m ∧
      ∀ key, (w' key).data = (m key).data := by
  obtain ⟨m, hok, hsize, rfl⟩ := execute_eq_some.mp h
  have htouches := outcome_touches (Or.inl hok)
  have hdata : ∀ key, (store w call.accounts m hsize key).data = (m key).data := by
    intro key
    unfold store
    split
    · rfl
    · next hkey => exact (htouches.unlisted hkey).symm
  rw [Call.outcome, processInstruction] at hok
  rw [Call.instruction]
  cases hdecode : decodeFromSlice ProgramInstruction.decode call.instructionData with
  | error e =>
      rw [hdecode] at hok
      exact absurd hok Exec.fail_ne_ok
  | ok instruction =>
      rw [hdecode] at hok
      exact ⟨instruction, m, rfl, hok, htouches, hdata⟩

theorem outcome_eq {instruction : ProgramInstruction} (h : call.instruction = .ok instruction) :
    call.outcome rt w =
      (runInstruction rt call.programId call.accounts call.rawParamsData instruction).run (load w) := by
  rw [Call.outcome, processInstruction]
  rw [show decodeFromSlice ProgramInstruction.decode call.instructionData = .ok instruction from h]
  rfl

theorem execute_of_failure {e : ProgramError} (h : (call.outcome rt w).failure = some e) : execute rt w call = none := by
  obtain ⟨state, herror⟩ := Outcome.failure_eq_some.mp h
  cases hexecute : execute rt w call with
  | none => rfl
  | some w' =>
      obtain ⟨m, hok, -⟩ := execute_eq_some.mp hexecute
      cases hok.symm.trans herror

/-- An instruction that runs and keeps all lengths makes its call return. -/
theorem execute_of_run {instruction : ProgramInstruction} {m : Memory}
    (hinstruction : call.instruction = .ok instruction)
    (hrun : (runInstruction rt call.programId call.accounts call.rawParamsData instruction).run (load w) =
      .ok () m)
    (hlengths : ∀ key, (m key).data.length = (w key).data.length) :
    ∃ w', execute rt w call = some w' ∧ ∀ key, (w' key).data = (m key).data := by
  have houtcome : call.outcome rt w = .ok () m := (outcome_eq hinstruction).trans hrun
  have hsize : WithinSize call.accounts m := by
    intro account _
    rw [hlengths]
    exact (w account.key).size_le
  refine ⟨_, execute_eq_some.mpr ⟨m, houtcome, hsize, rfl⟩, fun key => ?_⟩
  unfold store
  split
  · rfl
  · next hkey => exact ((outcome_touches (Or.inl houtcome)).unlisted hkey).symm

/-- A step changes no more than the reach of its instruction allows. -/
theorem step_touches (rt : Runtime) (w : World) (call : Call) :
    ∃ m, Touches (reachOf call.instructionData) call.accounts (load w) m ∧
      ∀ key, (step rt w call key).data = (m key).data := by
  unfold step
  cases h : execute rt w call with
  | none => exact ⟨load w, (load_loaded call.accounts w).touches, fun _ => rfl⟩
  | some w' =>
      obtain ⟨_, m, -, -, htouches, hdata⟩ := execute_cases h
      exact ⟨m, htouches, hdata⟩

theorem reachOf_eq {instruction : ProgramInstruction} (h : call.instruction = .ok instruction) :
    reachOf call.instructionData = instruction.reach := by
  rw [reachOf, show decodeFromSlice ProgramInstruction.decode call.instructionData = .ok instruction
    from h]

theorem step_of_execute (h : execute rt w call = some w') : step rt w call = w' := by
  rw [step, h]
  rfl

theorem step_of_none (h : execute rt w call = none) : step rt w call = w := by
  rw [step, h]
  rfl

theorem step_header {key : Pubkey} (hne : (w key).data ≠ []) :
    ∀ o < 37, (step rt w call key).data[o]? = (w key).data[o]? := by
  obtain ⟨m, htouches, hstep⟩ := step_touches rt w call
  rw [hstep key]
  exact htouches.header hne

theorem step_length_le (rt : Runtime) (w : World) (call : Call) (key : Pubkey) :
    (w key).data.length ≤ (step rt w call key).data.length := by
  obtain ⟨m, htouches, hstep⟩ := step_touches rt w call
  rw [hstep key]
  exact htouches.length_ge key

end Calls

/-! ### Runs -/

/-- The world after the first calls of a run. -/
abbrev worldAt (start : World) (calls : List Call) (n : Nat) : World :=
  Run.stateAt (step rt) start calls n

section Runs

variable {rt} {start : World} {calls : List Call} {call : Call}

theorem worldAt_succ {n : Nat} (hn : n < calls.length) :
    worldAt rt start calls (n + 1) = step rt (worldAt rt start calls n) calls[n] :=
  Run.stateAt_succ _ _ _ _ hn

/-- The call stands at that place of the run, and it returns there. -/
def Returns (rt : Runtime) (start : World) (calls : List Call) (n : Nat) (call : Call) : Prop :=
  calls[n]? = some call ∧ (execute rt (worldAt rt start calls n) call).isSome

theorem Returns.lt {n : Nat} (h : Returns rt start calls n call) : n < calls.length :=
  (List.getElem?_eq_some_iff.mp h.1).1

theorem Returns.execute {n : Nat} (h : Returns rt start calls n call) :
    execute rt (worldAt rt start calls n) call = some (worldAt rt start calls (n + 1)) := by
  obtain ⟨hn, hget⟩ := List.getElem?_eq_some_iff.mp h.1
  obtain ⟨w', hw'⟩ := Option.isSome_iff_exists.mp h.2
  rw [worldAt_succ hn, hget, step_of_execute hw', hw']

/-- A relation that steps keep holds between any two worlds of a run. -/
theorem worldAt_relates (rt : Runtime) (start : World) (calls : List Call) {R : World → World → Prop} (hrefl : ∀ w, R w w)
    (hstep : ∀ w w' call, R w w' → R w (step rt w' call)) {n k : Nat} (hnk : n ≤ k)
    (hk : k ≤ calls.length) : R (worldAt rt start calls n) (worldAt rt start calls k) := by
  induction k, hnk using Nat.le_induction with
  | base => exact hrefl _
  | succ k _ ih =>
      rw [worldAt_succ hk]
      exact hstep _ _ _ (ih (Nat.le_of_succ_le hk))

/-- Accounts do not shrink, and the header of one that is not empty stays. -/
theorem worldAt_header {n k : Nat} (hnk : n ≤ k) (hk : k ≤ calls.length) {key : Pubkey}
    (hne : (worldAt rt start calls n key).data ≠ []) :
    ∀ o < 37, (worldAt rt start calls k key).data[o]? = (worldAt rt start calls n key).data[o]? := by
  have hkept := worldAt_relates rt start calls
    (R := fun w w' => (w key).data ≠ [] →
      (w' key).data ≠ [] ∧ ∀ o < 37, (w' key).data[o]? = (w key).data[o]?)
    (fun w hw => ⟨hw, fun _ _ => rfl⟩)
    (fun w w' call ih hw => by
      obtain ⟨hne', hbytes⟩ := ih hw
      refine ⟨fun hempty => hne' ?_, fun o ho => (step_header hne' o ho).trans (hbytes o ho)⟩
      have hle := step_length_le rt w' call key
      rw [hempty, List.length_nil] at hle
      exact List.eq_nil_of_length_eq_zero (Nat.le_zero.mp hle))
    hnk hk
  exact (hkept hne).2

end Runs

/-! ### A small world

Accounts as the program lays them out, on the regtest network, for runs on fixed inputs. -/

def zeros (n : Nat) : Bytes := List.replicate n 0

def padded (size : Nat) (bytes : Bytes) : Bytes := bytes ++ zeros (size - bytes.length)

def sampleKey (byte : UInt8) : Pubkey := ⟨List.replicate 32 byte, List.length_replicate⟩

def sampleProgram : Pubkey := sampleKey 0x10

def sampleWithdraw : Pubkey := sampleKey 0x20

/-- The addresses of the fee account and of two wallets. -/
def feeAddress : Bytes :=
  [0x62, 0x63, 0x72, 0x74, 0x31, 0x71, 0x6c, 0x6d, 0x6c, 0x30, 0x61, 0x6c, 0x68, 0x37, 0x6c, 0x6d, 0x6c,
   0x30, 0x61, 0x6c, 0x68, 0x37, 0x6c, 0x6d, 0x6c, 0x30, 0x61, 0x6c, 0x68, 0x37, 0x6c, 0x6d, 0x6c, 0x30,
   0x61, 0x6c, 0x68, 0x37, 0x71, 0x68, 0x75, 0x79, 0x7a, 0x70]

def firstAddress : Bytes :=
  [0x62, 0x63, 0x72, 0x74, 0x31, 0x71, 0x35, 0x78, 0x73, 0x36, 0x72, 0x67, 0x64, 0x70, 0x35, 0x78, 0x73,
   0x36, 0x72, 0x67, 0x64, 0x70, 0x35, 0x78, 0x73, 0x36, 0x72, 0x67, 0x64, 0x70, 0x35, 0x78, 0x73, 0x36,
   0x72, 0x67, 0x64, 0x70, 0x61, 0x38, 0x35, 0x34, 0x6d, 0x63]

def secondAddress : Bytes :=
  [0x62, 0x63, 0x72, 0x74, 0x31, 0x71, 0x6b, 0x32, 0x65, 0x74, 0x39, 0x76, 0x34, 0x6a, 0x6b, 0x32, 0x65,
   0x74, 0x39, 0x76, 0x34, 0x6a, 0x6b, 0x32, 0x65, 0x74, 0x39, 0x76, 0x34, 0x6a, 0x6b, 0x32, 0x65, 0x74,
   0x39, 0x76, 0x34, 0x6a, 0x6c, 0x64, 0x79, 0x76, 0x30, 0x61]

theorem feeAddress_valid : Bytes.validUtf8 feeAddress = true := by decide

theorem firstAddress_valid : Bytes.validUtf8 firstAddress = true := by decide

theorem secondAddress_valid : Bytes.validUtf8 secondAddress = true := by decide

theorem sampleTokenId_valid : Bytes.validUtf8 [0x31] = true := by decide

theorem firstAddress_last4 : (firstAddress.drop 40).length = 4 := rfl

theorem secondAddress_last4 : (secondAddress.drop 40).length = 4 := rfl

def programData (settlementHash lastSettlementHash : Hash) : Bytes :=
  [1, 0, 0, 0, 0] ++ sampleWithdraw.1 ++ padded 92 feeAddress ++ padded 92 feeAddress ++ [3] ++
    settlementHash.1 ++ lastSettlementHash.1 ++ zeros 2 ++ zeros 6400

def withdrawData (withdrawHash : Hash) : Bytes := [3, 0, 0, 0, 0] ++ sampleProgram.1 ++ withdrawHash.1

/-- A token account with the fee wallet and the two others, and the amounts that they hold. -/
def tokenData (tokenId : Bytes) (feeBalance first second : Nat) : Bytes :=
  [2, 0, 0, 0, 0] ++ sampleProgram.1 ++ padded 32 tokenId ++ ofWord 4 3 ++
    padded 92 feeAddress ++ ofWord 8 feeBalance ++ padded 92 firstAddress ++ ofWord 8 first ++
    padded 92 secondAddress ++ ofWord 8 second ++ zeros 9867

def stored (data : Bytes) : StoredAccount where
  data := data.take maxPermittedDataLength
  utxo := ⟨zeros 36, List.length_replicate⟩
  size_le := List.length_take_le _ _

/-- The listed accounts with their data, all others empty. -/
def sampleWorld (entries : List (Pubkey × Bytes)) : World := fun key =>
  stored (((entries.find? (·.1 = key)).map Prod.snd).getD [])

/-- Batches as they are sent: an amount for a wallet, the adjustments of an account, the whole batch. -/
def adjustmentBytes (index : Nat) (address : Bytes) (amount : Nat) : Bytes :=
  ofWord 4 index ++ address.drop 40 ++ ofWord 8 amount

def settlementBytes (accountIndex : UInt8) (increments decrements : List Bytes) (feeAmount : Nat) : Bytes :=
  [accountIndex] ++ ofWord 2 increments.length ++ increments.flatten ++ ofWord 2 decrements.length ++
    decrements.flatten ++ ofWord 8 feeAmount

def batchBytes (items : List Bytes) : Bytes := ofWord 2 items.length ++ items.flatten

def sampleAddress (address : Utf8String) : Option UncheckedAddress :=
  if address.bytes = feeAddress then some ⟨(· = .regtest), [0x00, 0x14] ++ List.replicate 20 0xfe⟩
  else if address.bytes = firstAddress then some ⟨(· = .regtest), [0x00, 0x14] ++ List.replicate 20 0xa1⟩
  else if address.bytes = secondAddress then some ⟨(· = .regtest), [0x00, 0x14] ++ List.replicate 20 0xb2⟩
  else none

/-- The libraries on the inputs of such runs, given the digests of their batches. -/
def sampleRuntime (digests : List (Bytes × Hash)) : Runtime where
  digest := fun data => ((digests.find? (·.1 = data)).map Prod.snd).getD (sampleKey 0xff)
  addressFromStr := sampleAddress
  runeIdFromStr := fun _ => none
  deserializeTransaction := fun _ => none
  serializeTransaction := fun _ => []
  computeTxid := fun _ => sampleKey 0
  getBitcoinTx := fun _ => none
  getAccountScriptPubkey := fun key =>
    ⟨[0x51, 0x20] ++ key.1, by rw [List.length_append, key.2]; rfl⟩
  archSetTransactionToSign := fun _ => 0
  encipher := fun _ => []
  hashSetOrder := id

end Chainring.Arch

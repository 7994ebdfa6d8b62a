import Chainring.Arch.Types
import Chainring.Base.Places

/-! The bytes that a transaction is signed, hashed and sent as. A transaction is read back exactly when its lists fit
the bytes that count them, and it is read from all bytes that differ from what is written for it in the flags of its
accounts alone. -/

namespace Chainring.Sdk

open Arch (Pubkey)
open Bytes (ofWord toWord ofWord_length)
open Codec (Consumes Takes takes_pure)
open Cursor (takeBytes takeBlock takeU8 takeWord takeU32 counted consumes_takeBytes consumes_takeBlock consumes_takeU8
  consumes_takeWord consumes_takeU32 takes_takeBytes takes_takeBlock takes_takeU8 takes_takeWord takes_takeU32)
open Place (Exact Fill ofBytes canonical ofBytes_canonical counted_canonical fill_ofBytes fill_append exact_takeBlock)

/-- Why a value is not decoded, other than a slice that is too short. -/
inductive DecodeError where
  | invalidUtf8
  | invalidHex
  deriving DecidableEq

abbrev Decoder (α : Type) := Cursor DecodeError α

/-- Decode from a slice; what is left over is ignored. -/
def fromSlice {α : Type} (reader : Decoder α) (data : Bytes) : Except (Failure DecodeError) α :=
  (reader data).map Prod.fst

structure AccountMeta where
  pubkey : Pubkey
  isSigner : Bool
  isWritable : Bool
  deriving DecidableEq

structure Instruction where
  programId : Pubkey
  accounts : List AccountMeta
  data : Bytes
  deriving DecidableEq

structure Message where
  signers : List Pubkey
  instructions : List Instruction
  deriving DecidableEq

/-- A signature of any length; what is read has 64 bytes. -/
abbrev Signature := Bytes

structure RuntimeTransaction where
  version : UInt32
  signatures : List Signature
  message : Message
  deriving DecidableEq

/-! ### Writing -/

def AccountMeta.serialize (accountMeta : AccountMeta) : Bytes :=
  accountMeta.pubkey.1 ++ [accountMeta.isSigner.toUInt8, accountMeta.isWritable.toUInt8]

def Instruction.serialize (instruction : Instruction) : Bytes :=
  instruction.programId.1 ++
    ([UInt8.ofNat instruction.accounts.length] ++ instruction.accounts.flatMap AccountMeta.serialize) ++
    ofWord 8 instruction.data.length ++ instruction.data

def Message.serialize (message : Message) : Bytes :=
  ([UInt8.ofNat message.signers.length] ++ message.signers.flatMap Subtype.val) ++
    ([UInt8.ofNat message.instructions.length] ++ message.instructions.flatMap Instruction.serialize)

def RuntimeTransaction.serialize (transaction : RuntimeTransaction) : Bytes :=
  ofWord 4 transaction.version.toNat ++
    ([UInt8.ofNat transaction.signatures.length] ++ transaction.signatures.flatMap id) ++
    transaction.message.serialize

/-! ### Reading -/

def AccountMeta.read : Decoder AccountMeta := do
  let pubkey ← takeBlock 32
  let isSigner ← takeU8
  let isWritable ← takeU8
  pure { pubkey, isSigner := isSigner != 0, isWritable := isWritable != 0 }

def Instruction.read : Decoder Instruction := do
  let programId ← takeBlock 32
  let accounts ← counted AccountMeta.read
  let dataLen ← takeWord 8
  let data ← takeBytes dataLen
  pure { programId, accounts, data }

def Instruction.fromSlice (data : Bytes) : Except (Failure DecodeError) Instruction := Sdk.fromSlice read data

/-- The instruction that the rest of the slice begins with; the position moves on by what it is written as. -/
def Message.readInstruction : Decoder Instruction := fun data => do
  let instruction ← Instruction.fromSlice data
  pure (instruction, data.drop instruction.serialize.length)

def Message.read : Decoder Message := do
  let signers ← counted (takeBlock 32)
  let instructions ← counted readInstruction
  pure { signers, instructions }

def Message.fromSlice (data : Bytes) : Except (Failure DecodeError) Message := Sdk.fromSlice read data

def RuntimeTransaction.read : Decoder RuntimeTransaction := do
  let version ← takeU32
  let signatures ← counted (Subtype.val <$> takeBlock 64)
  let message ← Message.read
  pure { version, signatures, message }

def RuntimeTransaction.fromSlice (data : Bytes) : Except (Failure DecodeError) RuntimeTransaction :=
  Sdk.fromSlice read data

/-! ### What fits -/

/-- The counts of an instruction fit a byte and a word. -/
def Instruction.Fits (instruction : Instruction) : Prop :=
  instruction.accounts.length ≤ 255 ∧ instruction.data.length < 256 ^ 8

instance : DecidablePred Instruction.Fits := fun _ => inferInstanceAs (Decidable (_ ∧ _))

structure Message.Fits (message : Message) : Prop where
  signers : message.signers.length ≤ 255
  instructions : message.instructions.length ≤ 255
  each : ∀ instruction ∈ message.instructions, instruction.Fits

structure RuntimeTransaction.Fits (transaction : RuntimeTransaction) : Prop where
  signatures : transaction.signatures.length ≤ 255
  each : ∀ signature ∈ transaction.signatures, signature.length = 64
  message : transaction.message.Fits

/-! ### Places

What is written, with the flags of the accounts marked. -/

def AccountMeta.places (accountMeta : AccountMeta) : List Place :=
  ofBytes accountMeta.pubkey.1 ++ [.flag accountMeta.isSigner, .flag accountMeta.isWritable]

def Instruction.places (instruction : Instruction) : List Place :=
  ofBytes instruction.programId.1 ++ Place.counted AccountMeta.places instruction.accounts ++
    ofBytes (ofWord 8 instruction.data.length) ++ ofBytes instruction.data

def Message.places (message : Message) : List Place :=
  Place.counted (fun signer => ofBytes signer.1) message.signers ++
    Place.counted Instruction.places message.instructions

def RuntimeTransaction.places (transaction : RuntimeTransaction) : List Place :=
  ofBytes (ofWord 4 transaction.version.toNat) ++ Place.counted ofBytes transaction.signatures ++
    transaction.message.places

theorem AccountMeta.places_canonical (accountMeta : AccountMeta) :
    accountMeta.places.map canonical = accountMeta.serialize := by
  rw [places, List.map_append, ofBytes_canonical]
  rfl

theorem Instruction.places_canonical (instruction : Instruction) :
    instruction.places.map canonical = instruction.serialize := by
  simp only [places, List.map_append, ofBytes_canonical, counted_canonical, AccountMeta.places_canonical]
  rfl

theorem Message.places_canonical (message : Message) : message.places.map canonical = message.serialize := by
  simp only [places, List.map_append, ofBytes_canonical, counted_canonical, Instruction.places_canonical]
  rfl

theorem RuntimeTransaction.places_canonical (transaction : RuntimeTransaction) :
    transaction.places.map canonical = transaction.serialize := by
  simp only [places, List.map_append, ofBytes_canonical, counted_canonical, Message.places_canonical]
  rfl

/-! ### What is read -/

theorem exact_accountMeta : Exact AccountMeta.read (fun _ => True) AccountMeta.places where
  takes := by
    apply (takes_takeBlock 32).bind
    rintro pubkey _ rfl
    apply takes_takeU8.bind
    rintro isSigner _ rfl
    apply takes_takeU8.bind
    rintro isWritable _ rfl
    apply takes_pure
    exact ⟨trivial, fill_append.mpr ⟨pubkey.1, [isSigner, isWritable], rfl, fill_ofBytes.mpr rfl,
      .cons rfl (.cons rfl .nil)⟩⟩
  consumes := by
    rintro ⟨pubkey, _, _⟩ bytes - hfill
    obtain ⟨_, flags, rfl, hpubkey, hflags⟩ := fill_append.mp hfill
    obtain rfl := fill_ofBytes.mp hpubkey
    rcases hflags with _ | ⟨rfl, _ | ⟨rfl, _ | _⟩⟩
    apply (consumes_takeBlock pubkey).bind
    apply (consumes_takeU8 _).bind
    exact (consumes_takeU8 _).last _

theorem exact_instruction : Exact Instruction.read Instruction.Fits Instruction.places where
  takes := by
    apply (takes_takeBlock 32).bind
    rintro programId _ rfl
    apply exact_accountMeta.counted.takes.bind
    rintro accounts bytes ⟨⟨hcount, -⟩, haccounts⟩
    apply (takes_takeWord 8).bind
    rintro dataLen _ ⟨rfl, hlt⟩
    apply (takes_takeBytes dataLen).bind
    rintro data _ ⟨rfl, rfl⟩
    apply takes_pure
    refine ⟨⟨hcount, hlt⟩, ?_⟩
    rw [List.append_nil, ← List.append_assoc, ← List.append_assoc]
    exact ((fill_ofBytes.mpr rfl).append haccounts).append (fill_ofBytes.mpr rfl) |>.append (fill_ofBytes.mpr rfl)
  consumes := by
    rintro instruction bytes ⟨hcount, hlt⟩ hfill
    obtain ⟨_, data, rfl, hfill, hdata⟩ := fill_append.mp hfill
    obtain ⟨_, dataLen, rfl, hfill, hdataLen⟩ := fill_append.mp hfill
    obtain ⟨programId, accounts, rfl, hprogramId, haccounts⟩ := fill_append.mp hfill
    obtain rfl := fill_ofBytes.mp hprogramId
    obtain rfl := fill_ofBytes.mp hdataLen
    obtain rfl := fill_ofBytes.mp hdata
    rw [List.append_assoc, List.append_assoc]
    apply (consumes_takeBlock instruction.programId).bind
    apply (exact_accountMeta.counted.consumes ⟨hcount, fun _ _ => trivial⟩ haccounts).bind
    apply (consumes_takeWord hlt).bind
    exact (consumes_takeBytes instruction.data).last _

/-- The position moves on by as much as was read. -/
theorem exact_readInstruction : Exact Message.readInstruction Instruction.Fits Instruction.places where
  takes := by
    intro data instruction rest hread
    cases hresult : Instruction.read data with
    | error fault =>
        rw [Message.readInstruction, Instruction.fromSlice, fromSlice, hresult] at hread
        cases hread
    | ok result =>
        rw [Message.readInstruction, Instruction.fromSlice, fromSlice, hresult] at hread
        cases hread
        obtain ⟨bytes, hdata, hfits, hfill⟩ := exact_instruction.takes data result.1 result.2 hresult
        refine ⟨bytes, ?_, hfits, hfill⟩
        rw [← Instruction.places_canonical, List.length_map, ← hfill.length_eq, hdata, List.drop_left]
  consumes := by
    intro instruction bytes hfits hfill rest
    have hslice : Instruction.fromSlice (bytes ++ rest) = .ok instruction :=
      (exact_instruction.consumes hfits hfill).run_fst rest
    rw [Message.readInstruction, hslice]
    show Except.ok (instruction, (bytes ++ rest).drop instruction.serialize.length) = _
    rw [← Instruction.places_canonical, List.length_map, ← hfill.length_eq, List.drop_left]

theorem exact_message : Exact Message.read Message.Fits Message.places where
  takes := by
    apply (exact_takeBlock 32).counted.takes.bind
    rintro signers bytes ⟨⟨hsigners, -⟩, hbytes⟩
    apply exact_readInstruction.counted.takes.bind
    rintro instructions bytes' ⟨⟨hinstructions, heach⟩, hbytes'⟩
    apply takes_pure
    rw [List.append_nil]
    exact ⟨⟨hsigners, hinstructions, heach⟩, hbytes.append hbytes'⟩
  consumes := by
    intro message bytes hfits hfill
    obtain ⟨signers, instructions, rfl, hsigners, hinstructions⟩ := fill_append.mp hfill
    apply ((exact_takeBlock 32).counted.consumes ⟨hfits.signers, fun _ _ => trivial⟩ hsigners).bind
    exact (exact_readInstruction.counted.consumes ⟨hfits.instructions, hfits.each⟩ hinstructions).last _

theorem exact_signature :
    Exact (Subtype.val <$> takeBlock 64 : Decoder Signature) (·.length = 64) ofBytes where
  takes := (takes_takeBlock 64).map Subtype.val fun signature _ hbytes => ⟨signature.2, fill_ofBytes.mpr hbytes⟩
  consumes := by
    intro signature bytes hlength hfill
    obtain rfl := fill_ofBytes.mp hfill
    exact (consumes_takeBlock (⟨bytes, hlength⟩ : FixedBytes 64)).map Subtype.val

theorem exact_runtimeTransaction :
    Exact RuntimeTransaction.read RuntimeTransaction.Fits RuntimeTransaction.places where
  takes := by
    apply takes_takeU32.bind
    rintro version _ rfl
    apply exact_signature.counted.takes.bind
    rintro signatures bytes ⟨⟨hsignatures, heach⟩, hbytes⟩
    apply exact_message.takes.bind
    rintro message bytes' ⟨hmessage, hbytes'⟩
    apply takes_pure
    refine ⟨⟨hsignatures, heach, hmessage⟩, ?_⟩
    rw [List.append_nil, ← List.append_assoc]
    exact ((fill_ofBytes.mpr rfl).append hbytes).append hbytes'
  consumes := by
    intro transaction bytes hfits hfill
    obtain ⟨_, message, rfl, hfill, hmessage⟩ := fill_append.mp hfill
    obtain ⟨version, signatures, rfl, hversion, hsignatures⟩ := fill_append.mp hfill
    obtain rfl := fill_ofBytes.mp hversion
    rw [List.append_assoc]
    apply (consumes_takeU32 transaction.version).bind
    apply (exact_signature.counted.consumes ⟨hfits.signatures, hfits.each⟩ hsignatures).bind
    exact (exact_message.consumes hfits.message hmessage).last _

/-! ### Round trips -/

theorem consumes_message {message : Message} (h : message.Fits) :
    Consumes Message.read message.serialize message := by
  have hcanonical := exact_message.consumes_canonical h
  rw [message.places_canonical] at hcanonical
  exact hcanonical

theorem consumes_runtimeTransaction {transaction : RuntimeTransaction} (h : transaction.Fits) :
    Consumes RuntimeTransaction.read transaction.serialize transaction := by
  have hcanonical := exact_runtimeTransaction.consumes_canonical h
  rw [transaction.places_canonical] at hcanonical
  exact hcanonical

namespace RuntimeTransaction

variable {transaction : RuntimeTransaction}

/-- A transaction that fits is read back, whatever follows it. -/
theorem fromSlice_of_fits (h : transaction.Fits) (tail : Bytes) :
    fromSlice (transaction.serialize ++ tail) = .ok transaction :=
  (consumes_runtimeTransaction h).run_fst tail

theorem fromSlice_iff {data : Bytes} :
    fromSlice data = .ok transaction ↔
      transaction.Fits ∧ ∃ bytes rest, data = bytes ++ rest ∧ Fill transaction.places bytes :=
  exact_runtimeTransaction.run_fst_iff

theorem fits_of_fromSlice {data : Bytes} (h : fromSlice data = .ok transaction) : transaction.Fits :=
  (fromSlice_iff.mp h).1

/-- What was read from a slice fits its counts, and is written as no more bytes. -/
theorem serialize_length_le {data : Bytes} (h : fromSlice data = .ok transaction) :
    transaction.Fits ∧ transaction.serialize.length ≤ data.length := by
  obtain ⟨hfits, bytes, rest, rfl, hfill⟩ := fromSlice_iff.mp h
  rw [← transaction.places_canonical, List.length_map, List.length_append, hfill.length_eq]
  exact ⟨hfits, Nat.le_add_right _ _⟩

/-- A transaction is read back from its bytes exactly when its lists fit their counts and each of its signatures
has 64 bytes. -/
theorem fromSlice_serialize_iff (transaction : RuntimeTransaction) (tail : Bytes) :
    fromSlice (transaction.serialize ++ tail) = .ok transaction ↔ transaction.Fits :=
  ⟨fits_of_fromSlice, fun hfits => fromSlice_of_fits hfits tail⟩

/-- A transaction is read from a slice exactly when it fits and the slice begins with bytes that fill its places, which
are the bytes that it is written as, with the flags of its accounts free to be any byte that sets them. It is read from
its own bytes, in their place, as well. -/
theorem fromSlice_normalises (data : Bytes) (transaction : RuntimeTransaction) :
    transaction.places.map canonical = transaction.serialize ∧
      (fromSlice data = .ok transaction ↔ transaction.Fits ∧ ∃ bytes rest, data = bytes ++ rest ∧
        Fill transaction.places bytes ∧ fromSlice (transaction.serialize ++ rest) = .ok transaction) := by
  refine ⟨transaction.places_canonical, ?_⟩
  rw [fromSlice_iff]
  apply and_congr_right
  intro hfits
  constructor
  · rintro ⟨bytes, rest, hdata, hfill⟩
    exact ⟨bytes, rest, hdata, hfill, fromSlice_of_fits hfits rest⟩
  · rintro ⟨bytes, rest, hdata, hfill, -⟩
    exact ⟨bytes, rest, hdata, hfill⟩

end RuntimeTransaction

/-- A transaction of one instruction, with 2 and 9 for the flags of its account. -/
def flaggedBytes : Bytes :=
  [1, 0, 0, 0] ++ [0] ++ [0] ++ [1] ++ List.replicate 32 7 ++ [1] ++ List.replicate 32 3 ++ [2, 9] ++ [1, 0, 0, 0, 0, 0, 0, 0] ++
    [5]

def flaggedTransaction : RuntimeTransaction where
  version := 1
  signatures := []
  message :=
    { signers := []
      instructions :=
        [{ programId := ⟨List.replicate 32 7, List.length_replicate⟩
           accounts := [{ pubkey := ⟨List.replicate 32 3, List.length_replicate⟩, isSigner := true, isWritable := true }]
           data := [5] }] }

example : RuntimeTransaction.fromSlice flaggedBytes = .ok flaggedTransaction := rfl

end Chainring.Sdk

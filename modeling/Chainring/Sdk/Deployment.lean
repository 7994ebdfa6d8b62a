import Chainring.Base.Image
import Chainring.Sdk.SignedMessages

/-! Deploying a program in parts. Each transaction stays within the size limit and carries the next block of the
program with its offset; whoever writes the blocks at their offsets, in whatever order and however often, has the
program. -/

namespace Chainring.Sdk

open Arch (Pubkey UtxoMeta)
open Bytes (ofWord toWord toWord_ofWord patch chunks IsPart WritesPart ofWord_length length_chunks chunk_bounds
  flatten_take_chunks flatten_chunks isPart_chunk chunks_cover foldlM_parts)
open Cursor (takeBlock consumes_takeBlock)

/-! ### Instructions of the system program -/

inductive SystemInstruction where
  | createAccount (utxo : UtxoMeta)
  | extendBytes (bytes : Bytes)
  deriving DecidableEq

def SystemInstruction.serialise : SystemInstruction → Bytes
  | .createAccount utxo => 0 :: utxo.1
  | .extendBytes bytes => 1 :: bytes

def SystemInstruction.fromSlice : Bytes → Except (Failure DecodeError) SystemInstruction
  | [] => .error .panic
  | tag :: data =>
      if tag = 0 then (Sdk.fromSlice (takeBlock 36) data).map createAccount
      else if tag = 1 then .ok (extendBytes data)
      else .error .panic

theorem SystemInstruction.fromSlice_serialise (instruction : SystemInstruction) :
    fromSlice instruction.serialise = .ok instruction := by
  cases instruction with
  | createAccount utxo =>
      have hread := (consumes_takeBlock (ε := DecodeError) utxo).run_fst []
      rw [List.append_nil] at hread
      show (Sdk.fromSlice (takeBlock 36) utxo.1).map createAccount = _
      rw [Sdk.fromSlice, hread]
      rfl
  | extendBytes bytes => rfl

def systemProgram : Pubkey := ⟨List.replicate 31 0 ++ [1], rfl⟩

/-- An instruction of the system program for an account that signs and is written. -/
def SystemInstruction.toInstruction (instruction : SystemInstruction) (pubkey : Pubkey) : Instruction where
  programId := systemProgram
  accounts := [{ pubkey, isSigner := true, isWritable := true }]
  data := instruction.serialise

def newExtendBytesInstruction (data : Bytes) (pubkey : Pubkey) : Instruction :=
  (SystemInstruction.extendBytes data).toInstruction pubkey

/-! ### The transactions of a deployment -/

def runtimeTxSizeLimit : Nat := 10240

/-- The length of a transaction that is too long. -/
def RuntimeTransaction.checkTxSizeLimit (transaction : RuntimeTransaction) : Except Nat Unit :=
  if transaction.serialize.length > runtimeTxSizeLimit then .error transaction.serialize.length else .ok ()

/-- A transaction that extends a program by no bytes: an offset and a length. -/
def emptyExtension : RuntimeTransaction where
  version := 0
  signatures := [List.replicate 64 0]
  message :=
    { signers := [systemProgram]
      instructions := [newExtendBytesInstruction (List.replicate 8 0) systemProgram] }

def extendBytesMaxLen : Nat := runtimeTxSizeLimit - emptyExtension.serialize.length

/-- The offset of a chunk, its length and its bytes. -/
def extensionBytes (offset : Nat) (chunk : Bytes) : Bytes :=
  ofWord 4 offset ++ (ofWord 4 chunk.length ++ chunk)

def deployProgramTxs (crypto : Crypto) (programKeypair : crypto.Keypair) (elf : Bytes) :
    Except (Failure Bip322Error) (List RuntimeTransaction) :=
  (chunks extendBytesMaxLen elf).zipIdx.mapM fun indexed =>
    signInstructions crypto
      [newExtendBytesInstruction (extensionBytes (indexed.2 * extendBytesMaxLen) indexed.1)
        (crypto.xOnlyPublicKey programKeypair)]
      [programKeypair]

/-! ### What they carry -/

/-- What the instructions of a transaction extend accounts by. -/
def RuntimeTransaction.extensions (transaction : RuntimeTransaction) : List Bytes :=
  transaction.message.instructions.filterMap fun instruction =>
    match SystemInstruction.fromSlice instruction.data with
    | .ok (.extendBytes bytes) => some bytes
    | _ => none

/-- A way to extend accounts that writes the bytes of an extension at its offset, where they lie in the account. -/
def WritesExtensions (extend : Bytes → Bytes → Option Bytes) : Prop :=
  ∀ account offset block, offset < 2 ^ 32 → block.length < 2 ^ 32 → offset + block.length ≤ account.length →
    extend account (extensionBytes offset block) = patch account offset block

/-- The transaction fits the limit, arrives as it was sent, is signed by the key and carries the block with its
offset. -/
structure Extends (crypto : Crypto) (pubkey : Pubkey) (offset : Nat) (block : Bytes)
    (transaction : RuntimeTransaction) : Prop where
  checked : transaction.checkTxSizeLimit = .ok ()
  arrives : RuntimeTransaction.fromSlice transaction.serialize = .ok transaction
  signers : transaction.message.signers = [pubkey]
  signed : List.Forall₂ (SignedBy crypto transaction.message) transaction.message.signers transaction.signatures
  instructions : transaction.message.instructions = [newExtendBytesInstruction (extensionBytes offset block) pubkey]
  words : offset < 2 ^ 32 ∧ block.length < 2 ^ 32

theorem Extends.extensions_eq {crypto : Crypto} {pubkey : Pubkey} {offset : Nat} {block : Bytes}
    {transaction : RuntimeTransaction} (h : Extends crypto pubkey offset block transaction) :
    transaction.extensions = [extensionBytes offset block] := by
  have hread : SystemInstruction.fromSlice (newExtendBytesInstruction (extensionBytes offset block) pubkey).data =
      .ok (.extendBytes (extensionBytes offset block)) :=
    SystemInstruction.fromSlice_serialise (.extendBytes (extensionBytes offset block))
  rw [RuntimeTransaction.extensions, h.instructions, List.filterMap_cons, hread]
  rfl

theorem serialize_length_extension {signature : Signature} (h : signature.length = 64) (data : Bytes) (pubkey : Pubkey) :
    (RuntimeTransaction.serialize
      { version := 0, signatures := [signature],
        message := { signers := [pubkey], instructions := [newExtendBytesInstruction data pubkey] } }).length =
      179 + data.length := by
  have hsystem := systemProgram.2
  simp [RuntimeTransaction.serialize, Message.serialize, Instruction.serialize, AccountMeta.serialize,
    newExtendBytesInstruction, SystemInstruction.toInstruction, SystemInstruction.serialise, h, pubkey.2, hsystem]
  omega

theorem extendBytesMaxLen_eq : extendBytesMaxLen = 10053 := by
  have hsignature : (List.replicate 64 0 : Signature).length = 64 := List.length_replicate
  have hlength := serialize_length_extension hsignature (List.replicate 8 0) systemProgram
  rw [List.length_replicate] at hlength
  rw [extendBytesMaxLen, emptyExtension, hlength]
  rfl

section Deployment

variable {crypto : Crypto} {programKeypair : crypto.Keypair}

theorem extends_chunk (hcrypto : crypto.Lawful) {offset : Nat} {chunk : Bytes} (hoffset : offset < 2 ^ 32)
    (hlength : chunk.length ≤ extendBytesMaxLen) :
    ∃ transaction,
      signInstructions crypto
        [newExtendBytesInstruction (extensionBytes offset chunk) (crypto.xOnlyPublicKey programKeypair)]
        [programKeypair] = .ok transaction ∧
      Extends crypto (crypto.xOnlyPublicKey programKeypair) offset chunk transaction := by
  have hbytes : (extensionBytes offset chunk).length = 8 + chunk.length := by
    rw [extensionBytes, List.length_append, List.length_append, ofWord_length, ofWord_length]
    omega
  have hmax := extendBytesMaxLen_eq
  have hinstruction :
      (newExtendBytesInstruction (extensionBytes offset chunk) (crypto.xOnlyPublicKey programKeypair)).Fits := by
    refine ⟨Nat.le_of_ble_eq_true rfl, ?_⟩
    show (1 :: extensionBytes offset chunk).length < 256 ^ 8
    rw [List.length_cons, hbytes]
    omega
  have hfits : Message.Fits
      { signers := [programKeypair].map crypto.xOnlyPublicKey,
        instructions :=
          [newExtendBytesInstruction (extensionBytes offset chunk) (crypto.xOnlyPublicKey programKeypair)] } :=
    ⟨Nat.le_of_ble_eq_true rfl, Nat.le_of_ble_eq_true rfl, List.forall_mem_singleton.mpr hinstruction⟩
  obtain ⟨signatures, hsign, hsigned⟩ := signInstructions_eq hcrypto
    [newExtendBytesInstruction (extensionBytes offset chunk) (crypto.xOnlyPublicKey programKeypair)] [programKeypair]
  have htransaction := fits_of_signedBy hfits hsigned
  have harrives := RuntimeTransaction.fromSlice_of_fits htransaction []
  rw [List.append_nil] at harrives
  obtain ⟨signature, rfl⟩ := List.length_eq_one_iff.mp hsigned.length_eq.symm
  have hserialized := serialize_length_extension (htransaction.each signature List.mem_cons_self)
    (extensionBytes offset chunk) (crypto.xOnlyPublicKey programKeypair)
  refine ⟨_, hsign, ⟨?_, harrives, rfl, hsigned, rfl, hoffset, by omega⟩⟩
  rw [RuntimeTransaction.checkTxSizeLimit, if_neg]
  show ¬(RuntimeTransaction.serialize _).length > runtimeTxSizeLimit
  rw [List.map_singleton, hserialized, hbytes, runtimeTxSizeLimit]
  omega

/-- The transaction of each chunk. -/
theorem deployProgramTxs_chunks (hcrypto : crypto.Lawful) (programKeypair : crypto.Keypair) {elf : Bytes}
    (helf : elf.length ≤ 2 ^ 32) :
    ∃ txs, deployProgramTxs crypto programKeypair elf = .ok txs ∧
      List.Forall₂ (fun indexed tx => (chunks extendBytesMaxLen elf)[indexed.2]? = some indexed.1 ∧
        Extends crypto (crypto.xOnlyPublicKey programKeypair) (indexed.2 * extendBytesMaxLen) indexed.1 tx)
        (chunks extendBytesMaxLen elf).zipIdx txs := by
  apply mapM_forall₂
  rintro ⟨chunk, i⟩ hindexed
  have hchunk := List.mem_zipIdx_iff_getElem?.mp hindexed
  obtain ⟨hoffset, -, hlength⟩ := chunk_bounds (by rw [extendBytesMaxLen_eq]; decide) hchunk
  obtain ⟨tx, hsign, hextends⟩ := extends_chunk hcrypto (Nat.lt_of_lt_of_le hoffset helf) hlength
  exact ⟨tx, hsign, hchunk, hextends⟩

/-- Extending by a chunk is writing it as a part of the program. -/
theorem writesPart_chunk {extend : Bytes → Bytes → Option Bytes} (hextend : WritesExtensions extend)
    {elf chunk : Bytes} {i : Nat} (helf : elf.length ≤ 2 ^ 32) (hchunk : (chunks extendBytesMaxLen elf)[i]? = some chunk) :
    WritesPart extend elf (extensionBytes (i * extendBytesMaxLen) chunk) (i * extendBytesMaxLen, chunk) := by
  have hmax := extendBytesMaxLen_eq
  obtain ⟨hoffset, hinside, hlength⟩ := chunk_bounds (by rw [hmax]; decide) hchunk
  refine ⟨isPart_chunk hchunk, fun account haccount => ?_⟩
  exact hextend account _ _ (by omega) (by omega) (by omega)

/-- A program of up to 4 GiB is deployed by transactions that stay within the size limit, that are read back from their
bytes and that the program's key has signed. They carry consecutive blocks of the program, each with the length of the
blocks before it as its offset; and whoever extends an account of the program's size by what each of them carries, at
least once and in any order, and writes the bytes of an extension at its offset, has the program. -/
theorem deployment_carries_program (hcrypto : crypto.Lawful) (programKeypair : crypto.Keypair) (elf : Bytes)
    (helf : elf.length ≤ 2 ^ 32) :
    ∃ (txs : List RuntimeTransaction) (blocks : List Bytes),
      deployProgramTxs crypto programKeypair elf = .ok txs ∧ blocks.flatten = elf ∧
      txs.length = blocks.length ∧ blocks.length = (elf.length + extendBytesMaxLen - 1) / extendBytesMaxLen ∧
      (∀ i tx block, txs[i]? = some tx → blocks[i]? = some block →
        Extends crypto (crypto.xOnlyPublicKey programKeypair) (blocks.take i).flatten.length block tx) ∧
      ∀ extend, WritesExtensions extend → ∀ sent : List RuntimeTransaction, (∀ tx, tx ∈ sent ↔ tx ∈ txs) →
        ∀ account : Bytes, account.length = elf.length →
          (sent.flatMap RuntimeTransaction.extensions).foldlM extend account = some elf := by
  have hmax : 0 < extendBytesMaxLen := by
    rw [extendBytesMaxLen_eq]
    decide
  obtain ⟨txs, htxs, hextends⟩ := deployProgramTxs_chunks hcrypto programKeypair helf
  refine ⟨txs, chunks extendBytesMaxLen elf, htxs, flatten_chunks hmax elf, ?_, length_chunks _ _,
    fun i tx block htx hblock => ?_, fun extend hextend sent hsent account haccount => ?_⟩
  · rw [← hextends.length_eq, List.length_zipIdx]
  · obtain ⟨hoffset, -, -⟩ := chunk_bounds hmax hblock
    have hi : i ≤ (chunks extendBytesMaxLen elf).length := (List.getElem?_eq_some_iff.mp hblock).1.le
    have hindexed : (chunks extendBytesMaxLen elf).zipIdx[i]? = some (block, i) := by
      rw [List.getElem?_zipIdx, hblock, Option.map_some, Nat.zero_add]
    obtain ⟨tx', htx', -, hextend⟩ := getElem?_of_forall₂ hextends hindexed
    obtain rfl := Option.some.inj (htx.symm.trans htx')
    rw [flatten_take_chunks hi, List.length_take_of_le hoffset.le]
    exact hextend
  · apply foldlM_parts haccount
    · intro item hitem
      obtain ⟨tx, htx, hextension⟩ := List.mem_flatMap.mp hitem
      obtain ⟨indexed, hchunk, hextended⟩ := exists_of_forall₂ hextends.flip ((hsent tx).mp htx)
      rw [hextended.extensions_eq, List.mem_singleton] at hextension
      subst hextension
      exact ⟨_, writesPart_chunk hextend helf hchunk⟩
    · intro o ho
      obtain ⟨i, chunk, hchunk, hin⟩ := chunks_cover hmax ho
      have hindexed : (chunks extendBytesMaxLen elf).zipIdx[i]? = some (chunk, i) := by
        rw [List.getElem?_zipIdx, hchunk, Option.map_some, Nat.zero_add]
      obtain ⟨tx, htx, -, hextended⟩ := getElem?_of_forall₂ hextends hindexed
      have hsent' := (hsent tx).mpr (List.mem_of_getElem? htx)
      refine Or.inr ⟨_, List.mem_flatMap.mpr ⟨tx, hsent', ?_⟩, _, writesPart_chunk hextend helf hchunk, hin⟩
      rw [hextended.extensions_eq]
      exact List.mem_singleton.mpr rfl

end Deployment

/-- Writes the bytes after the two words at the first of them. -/
def sampleExtend (account payload : Bytes) : Option Bytes := patch account (toWord (payload.take 4)) (payload.drop 8)

theorem sampleExtend_writes : WritesExtensions sampleExtend := by
  intro account offset block hoffset _ _
  have htake : (extensionBytes offset block).take 4 = ofWord 4 offset := List.take_left' (ofWord_length 4 offset)
  have hdrop : (extensionBytes offset block).drop 8 = block := by
    rw [extensionBytes, ← List.append_assoc]
    exact List.drop_left' (by rw [List.length_append, ofWord_length, ofWord_length])
  rw [sampleExtend, htake, hdrop, toWord_ofWord, Nat.mod_eq_of_lt (show offset < 256 ^ 4 from hoffset)]

/-- One byte more than a transaction takes is deployed in two. -/
theorem sample_deployment_carries :
    ∃ (txs : List RuntimeTransaction) (blocks : List Bytes),
      deployProgramTxs sampleCrypto false (List.replicate 10054 0x7f) = .ok txs ∧
      blocks.flatten = List.replicate 10054 0x7f ∧ txs.length = 2 ∧
      (∀ i tx block, txs[i]? = some tx → blocks[i]? = some block →
        Extends sampleCrypto sampleSigner (blocks.take i).flatten.length block tx) ∧
      ∀ sent : List RuntimeTransaction, (∀ tx, tx ∈ sent ↔ tx ∈ txs) → ∀ account : Bytes, account.length = 10054 →
        (sent.flatMap RuntimeTransaction.extensions).foldlM sampleExtend account =
          some (List.replicate 10054 0x7f) := by
  have hlength : (List.replicate 10054 0x7f : Bytes).length = 10054 := List.length_replicate
  obtain ⟨txs, blocks, hdeploy, hblocks, htxs, hcount, hextends, hwrites⟩ :=
    deployment_carries_program sampleCrypto_lawful false (List.replicate 10054 0x7f) (by rw [hlength]; decide)
  rw [hlength, extendBytesMaxLen_eq] at hcount
  refine ⟨txs, blocks, hdeploy, hblocks, htxs.trans hcount, hextends, fun sent hsent account haccount => ?_⟩
  exact hwrites sampleExtend sampleExtend_writes sent hsent account (haccount.trans hlength.symm)

end Chainring.Sdk

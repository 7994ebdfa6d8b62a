import Chainring.Base.Pointwise
import Chainring.Sdk.Bip322
import Chainring.Sdk.Hex
import Chainring.Sdk.Transactions

/-! What signers commit to. A message is hashed twice, with its first hash in hexadecimal text, and each of its signers
signs the result. What arrives with that hash is the message that was signed, unless one of the two hashes collides. -/

namespace Chainring.Sdk

open Arch (Hash Pubkey)
open Bip322 (signMessage verifyMessage verifyMessage_signMessage)
open Bytes (ofWord ofWord_length)

/-! ### Hashing -/

section Hashing

variable (sha256 : Bytes → Hash)

/-- The text of the hash of the text of the hash. -/
def digestTwice (bytes : Bytes) : Bytes := hexEncode (sha256 (hexEncode (sha256 bytes).1)).1

def Instruction.hash (instruction : Instruction) : Bytes := digestTwice sha256 instruction.serialize

def Message.hash (message : Message) : Bytes := digestTwice sha256 message.serialize

def RuntimeTransaction.txid (transaction : RuntimeTransaction) : Bytes := digestTwice sha256 transaction.serialize

/-- Two inputs with one hash. -/
def Collides (bytes bytes' : Bytes) : Prop := bytes ≠ bytes' ∧ sha256 bytes = sha256 bytes'

/-- The two rounds of hashing, one of which has to collide. -/
def CollidesTwice (bytes bytes' : Bytes) : Prop :=
  Collides sha256 bytes bytes' ∨ Collides sha256 (hexEncode (sha256 bytes).1) (hexEncode (sha256 bytes').1)

variable {sha256}

theorem eq_or_collidesTwice {bytes bytes' : Bytes} (h : digestTwice sha256 bytes = digestTwice sha256 bytes') :
    bytes = bytes' ∨ CollidesTwice sha256 bytes bytes' := by
  have houter : sha256 (hexEncode (sha256 bytes).1) = sha256 (hexEncode (sha256 bytes').1) :=
    Subtype.ext (hexEncode_injective h)
  by_cases hbytes : bytes = bytes'
  · exact Or.inl hbytes
  · right
    by_cases htext : hexEncode (sha256 bytes).1 = hexEncode (sha256 bytes').1
    · exact Or.inl ⟨hbytes, Subtype.ext (hexEncode_injective htext)⟩
    · exact Or.inr ⟨htext, houter⟩

theorem Message.serialize_injective {message message' : Message} (h : message.Fits) (h' : message'.Fits)
    (heq : message.serialize = message'.serialize) : message = message' := by
  have hread := consumes_message h []
  rw [heq, consumes_message h' []] at hread
  cases hread
  rfl

theorem RuntimeTransaction.serialize_injective {transaction transaction' : RuntimeTransaction} (h : transaction.Fits)
    (h' : transaction'.Fits) (heq : transaction.serialize = transaction'.serialize) : transaction = transaction' := by
  have hread := consumes_runtimeTransaction h []
  rw [heq, consumes_runtimeTransaction h' []] at hread
  cases hread
  rfl

end Hashing

/-- Whatever bytes arrive, a transaction read from them whose message has the hash of a message that fits carries that
very message, or SHA-256 collides on what the two are hashed as. -/
theorem received_message_is_signed {sha256 : Bytes → Hash} {message : Message} (hfits : message.Fits) {data : Bytes}
    {transaction : RuntimeTransaction} (hread : RuntimeTransaction.fromSlice data = .ok transaction)
    (hhash : transaction.message.hash sha256 = message.hash sha256) :
    transaction.message = message ∨ CollidesTwice sha256 transaction.message.serialize message.serialize := by
  have hmessage := (RuntimeTransaction.fits_of_fromSlice hread).message
  exact (eq_or_collidesTwice hhash).imp_left (Message.serialize_injective hmessage hfits)

/-- Two transactions that were read and have one identifier are one transaction, or SHA-256 collides on what they are
hashed as. -/
theorem received_transactions_with_one_txid {sha256 : Bytes → Hash} {data data' : Bytes}
    {transaction transaction' : RuntimeTransaction} (hread : RuntimeTransaction.fromSlice data = .ok transaction)
    (hread' : RuntimeTransaction.fromSlice data' = .ok transaction')
    (htxid : transaction.txid sha256 = transaction'.txid sha256) :
    transaction = transaction' ∨ CollidesTwice sha256 transaction.serialize transaction'.serialize :=
  (eq_or_collidesTwice htxid).imp_left (RuntimeTransaction.serialize_injective
    (RuntimeTransaction.fits_of_fromSlice hread) (RuntimeTransaction.fits_of_fromSlice hread'))

/-! ### Signing -/

section Signing

variable (crypto : Crypto)

/-- A transaction with the signature of each signer. -/
def signInstructions (instructions : List Instruction) (signers : List crypto.Keypair) :
    Except (Failure Bip322Error) RuntimeTransaction := do
  let message : Message := { signers := signers.map crypto.xOnlyPublicKey, instructions }
  let digestSlice := message.hash crypto.sha256
  let signatures ← signers.mapM fun signer => Subtype.val <$> signMessage crypto signer digestSlice
  pure { version := 0, signatures, message }

/-- A signature of a message under a key, which says that it commits to all of the transaction. -/
def SignedBy (message : Message) (signer : Pubkey) (signature : Signature) : Prop :=
  ∃ block : FixedBytes 64, block.1 = signature ∧
    verifyMessage crypto (message.hash crypto.sha256) signer block true = .ok ()

variable {crypto}

theorem mapM_signatures (hcrypto : crypto.Lawful) (message : Message) (signers : List crypto.Keypair) :
    ∃ signatures : List Signature,
      signers.mapM (fun signer => Subtype.val <$> signMessage crypto signer (message.hash crypto.sha256)) =
        .ok signatures ∧ List.Forall₂ (SignedBy crypto message) (signers.map crypto.xOnlyPublicKey) signatures := by
  simp only [List.forall₂_map_left_iff]
  apply mapM_forall₂
  intro signer _
  obtain ⟨block, hblock, hverify⟩ := verifyMessage_signMessage crypto hcrypto signer (message.hash crypto.sha256)
  refine ⟨block.1, ?_, block, rfl, hverify⟩
  rw [hblock]
  rfl

theorem signatures_length {message : Message} {signers : List Pubkey} {signatures : List Signature}
    (h : List.Forall₂ (SignedBy crypto message) signers signatures) :
    ∀ signature ∈ signatures, signature.length = 64 := by
  induction h with
  | nil => exact fun signature hmem => absurd hmem List.not_mem_nil
  | cons hsigned _ ih =>
      obtain ⟨block, rfl, -⟩ := hsigned
      exact List.forall_mem_cons.mpr ⟨block.2, ih⟩

/-- Signing never fails, and there is one signature for each signer. -/
theorem signInstructions_eq (hcrypto : crypto.Lawful) (instructions : List Instruction) (signers : List crypto.Keypair) :
    ∃ signatures,
      signInstructions crypto instructions signers =
        .ok { version := 0, signatures := signatures,
              message := { signers := signers.map crypto.xOnlyPublicKey, instructions := instructions } } ∧
      List.Forall₂ (SignedBy crypto { signers := signers.map crypto.xOnlyPublicKey, instructions := instructions })
        (signers.map crypto.xOnlyPublicKey) signatures := by
  obtain ⟨signatures, hmapM, hsigned⟩ := mapM_signatures hcrypto
    { signers := signers.map crypto.xOnlyPublicKey, instructions := instructions } signers
  refine ⟨signatures, ?_, hsigned⟩
  rw [signInstructions]
  simp only [hmapM]
  rfl

theorem fits_of_signedBy {message : Message} {signatures : List Signature} (hfits : message.Fits)
    (h : List.Forall₂ (SignedBy crypto message) message.signers signatures) :
    RuntimeTransaction.Fits { version := 0, signatures := signatures, message := message } :=
  ⟨h.length_eq ▸ hfits.signers, signatures_length h, hfits⟩

/-- What is signed is read back from its bytes, whatever follows them, with one signature for each signer, which is
accepted under the signer's key. -/
theorem signed_transaction_arrives (hcrypto : crypto.Lawful) (instructions : List Instruction)
    (signers : List crypto.Keypair)
    (hfits : Message.Fits { signers := signers.map crypto.xOnlyPublicKey, instructions := instructions }) (tail : Bytes) :
    ∃ transaction, signInstructions crypto instructions signers = .ok transaction ∧
      RuntimeTransaction.fromSlice (transaction.serialize ++ tail) = .ok transaction ∧
      transaction.message = { signers := signers.map crypto.xOnlyPublicKey, instructions := instructions } ∧
      List.Forall₂ (SignedBy crypto transaction.message) transaction.message.signers transaction.signatures := by
  obtain ⟨signatures, hsign, hsigned⟩ := signInstructions_eq hcrypto instructions signers
  exact ⟨_, hsign, RuntimeTransaction.fromSlice_of_fits (fits_of_signedBy hfits hsigned) tail, rfl, hsigned⟩

end Signing

/-! ### A signed deployment -/

section SignedDeployment

def sampleBlock (n word : Nat) : FixedBytes n := ⟨ofWord n word, ofWord_length n word⟩

/-- The public key of the secret key 3. -/
def sampleSigner : Pubkey := sampleBlock 32 0xf936e0bc13f10186b0996f8345c831b529529df8854f344910c35892018a30f9

def sampleInstruction : Instruction where
  programId := sampleBlock 32 (2 ^ 248)
  accounts := [{ pubkey := sampleSigner, isSigner := true, isWritable := true }]
  data := [1, 0, 0, 0, 0, 4, 0, 0, 0, 0x7f, 0x45, 0x4c, 0x46]

def sampleMessage : Message where
  signers := [sampleSigner]
  instructions := [sampleInstruction]

def sampleDigest : Hash := sampleBlock 32 0xc1185dcc732fef75aa6b700802190c4064e1359310bcddf19648db44cc4ab60c

def sampleTextDigest : Hash := sampleBlock 32 0x23465edcdb746b809f411b6b945ad3be186f644322908e75b48f4d5d0d2fdb53

def sampleTagDigest : Hash := sampleBlock 32 0x492ce6db134e18da4c8ae5b479dd424912d638a0ff4e554100a12f87a1846574

def sampleMessageDigest : Hash := sampleBlock 32 0xb2a0040d7ffbf3385a717ddebc6999d957e01537284b7e3b042f7d11aa713e55

/-- SHA-256 on what is hashed for the deployment. -/
def sampleSha256 (bytes : Bytes) : Hash :=
  if bytes = sampleMessage.serialize then sampleDigest
  else if bytes = hexEncode sampleDigest.1 then sampleTextDigest
  else if bytes = Bip322.tag then sampleTagDigest
  else sampleMessageDigest

def sampleOutputKey : Pubkey := sampleBlock 32 0xfac5e31607abf10b7a9ee3d4b2c3dc6f776e33425be3583f681a9e6d63468c41

def sampleSignature : FixedBytes 64 := sampleBlock 64
  (0x4321a08a99c5bfc6667bf6c3389eb9aebacb997293eba87e6285ef545e807164 * 2 ^ 256 +
    0x5ccb684d18808a10aebefa8274f95e941e70cfd6506c46ecc70817b076cb4bea)

def TapSighashType.toU8 : TapSighashType → UInt8
  | .default => 0x00
  | .all => 0x01
  | .none => 0x02
  | .single => 0x03
  | .allPlusAnyoneCanPay => 0x81
  | .nonePlusAnyoneCanPay => 0x82
  | .singlePlusAnyoneCanPay => 0x83

def sampleExtractTx (psbt : Psbt) : Arch.Transaction :=
  { psbt.unsignedTx with
    input := psbt.unsignedTx.input.map fun txIn =>
      { txIn with scriptSig := [], witness := psbt.finalScriptWitness.getD [] } }

/-- The curve on the two key pairs of the deployment, the signer's and its tweak. -/
def sampleCrypto : Crypto where
  Keypair := Bool
  sha256 := sampleSha256
  xOnlyPublicKey tweaked := if tweaked then sampleOutputKey else sampleSigner
  isXOnly _ := true
  outputKey _ := sampleOutputKey
  tapTweak _ := true
  signSchnorr _ _ := sampleSignature
  verifySchnorr signature _ _ := decide (signature = sampleSignature)
  computeTxid _ := sampleBlock 32 0xa78c6cf61937771f8a586a635cd66ff1c368029fb9f58c2915ecfc2b087481b5
  taprootKeySpendSignatureHash _ _ _ _ :=
    sampleBlock 32 0xc26b12d200fd687caf4a49915d0cea5d10ecc6c4e208473d1a16cb95eaa9cfd5
  p2tr _ :=
    { witnessProgram := some { version := 1, program := sampleOutputKey.1 },
      scriptPubkey := [0x51, 0x20] ++ sampleOutputKey.1 }
  extractTx psbt := some (sampleExtractTx psbt)
  signatureToVec signature sighashType :=
    if sighashType = .default then signature.1 else signature.1 ++ [sighashType.toU8]
  fromConsensusU8 byte :=
    [TapSighashType.default, .all, .none, .single, .allPlusAnyoneCanPay, .nonePlusAnyoneCanPay,
      .singlePlusAnyoneCanPay].find? fun sighashType => decide (sighashType.toU8 = byte)

theorem sampleCrypto_lawful : sampleCrypto.Lawful where
  isXOnly_xOnlyPublicKey _ := rfl
  xOnlyPublicKey_tapTweak _ := rfl
  verifySchnorr_signSchnorr _ _ := @decide_eq_true (sampleSignature = sampleSignature) _ rfl
  witnessProgram_p2tr _ := rfl
  extractTx_eq psbt txIn _ hinput _ _ := by
    show some (sampleExtractTx psbt) = _
    rw [sampleExtractTx, hinput]
    rfl
  signatureToVec_all _ := rfl
  fromConsensusU8_all := by decide

def sampleTransaction : RuntimeTransaction where
  version := 0
  signatures := [sampleSignature.1]
  message := sampleMessage

theorem sampleMessage_fits : sampleMessage.Fits where
  signers := by decide
  instructions := by decide
  each := by decide

theorem sampleTransaction_fits : sampleTransaction.Fits where
  signatures := by decide
  each := by decide
  message := sampleMessage_fits

end SignedDeployment

/-- The signed deployment is read as what was signed. -/
theorem sampleTransaction_is_signed :
    sampleTransaction.message = sampleMessage ∨
      CollidesTwice sampleSha256 sampleTransaction.message.serialize sampleMessage.serialize :=
  received_message_is_signed sampleMessage_fits
    (RuntimeTransaction.fromSlice_of_fits sampleTransaction_fits []) rfl

theorem sampleMessage_arrives :
    ∃ transaction, signInstructions sampleCrypto [sampleInstruction] [false] = .ok transaction ∧
      RuntimeTransaction.fromSlice (transaction.serialize ++ [0]) = .ok transaction ∧
      transaction.message = sampleMessage ∧
      List.Forall₂ (SignedBy sampleCrypto transaction.message) transaction.message.signers transaction.signatures :=
  signed_transaction_arrives sampleCrypto_lawful [sampleInstruction] [false] sampleMessage_fits [0]

end Chainring.Sdk

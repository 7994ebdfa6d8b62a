import Chainring.Arch.Types
import Chainring.Base.CheckedWord

/-! Signing a message with a taproot key: the message is made into a transaction that pays the key's address, and its
signature is the one of a transaction that spends it. -/

namespace Chainring.Sdk

open Arch (Hash emptyHash Transaction TxIn TxOut)
open CheckedWord (bind_eq_ok)

/-- The ways a signature may commit to a transaction. -/
inductive TapSighashType where
  | default
  | all
  | none
  | single
  | allPlusAnyoneCanPay
  | nonePlusAnyoneCanPay
  | singlePlusAnyoneCanPay
  deriving DecidableEq

inductive Bip322Error where
  | unsupportedAddress
  | invalidPublicKey
  | transactionExtract
  | toSignInvalid
  | witnessEmpty
  | signatureLength (length : Nat)
  | sigHashTypeInvalid (byte : UInt8)
  | sigHashTypeUnsupported (sighashType : TapSighashType)
  | signatureInvalid
  deriving DecidableEq

structure WitnessProgram where
  version : Nat
  program : Bytes

structure Address where
  witnessProgram : Option WitnessProgram
  scriptPubkey : Bytes

/-- A transaction to be signed, with what is known of its first input. -/
structure Psbt where
  unsignedTx : Transaction
  witnessUtxo : Option TxOut
  finalScriptWitness : Option (List Bytes)

/-- What the hash, the curve and the transaction library provide. -/
structure Crypto where
  Keypair : Type
  sha256 : Bytes → Hash
  xOnlyPublicKey : Keypair → FixedBytes 32
  /-- Whether 32 bytes are the abscissa of a point. -/
  isXOnly : FixedBytes 32 → Bool
  /-- The output key of a key that commits to no script. -/
  outputKey : FixedBytes 32 → FixedBytes 32
  tapTweak : Keypair → Keypair
  signSchnorr : Hash → Keypair → FixedBytes 64
  verifySchnorr : FixedBytes 64 → Hash → FixedBytes 32 → Bool
  computeTxid : Transaction → FixedBytes 32
  taprootKeySpendSignatureHash : Transaction → Nat → List TxOut → TapSighashType → Hash
  /-- The address of a key that commits to no script. -/
  p2tr : FixedBytes 32 → Address
  /-- The transaction with its final witness, if its fee is acceptable. -/
  extractTx : Psbt → Option Transaction
  /-- A signature with the type that it was made for. -/
  signatureToVec : FixedBytes 64 → TapSighashType → Bytes
  fromConsensusU8 : UInt8 → Option TapSighashType

/-- Keys are points, tweaking a pair and its key agree, and a signature is verified under the key of the pair that
made it. The address of a key is the one of its output key, a transaction that pays no fee is extracted, and the byte 1
after a signature stands for all of the transaction. -/
structure Crypto.Lawful (crypto : Crypto) : Prop where
  isXOnly_xOnlyPublicKey : ∀ keypair, crypto.isXOnly (crypto.xOnlyPublicKey keypair) = true
  xOnlyPublicKey_tapTweak : ∀ keypair,
    crypto.xOnlyPublicKey (crypto.tapTweak keypair) = crypto.outputKey (crypto.xOnlyPublicKey keypair)
  verifySchnorr_signSchnorr : ∀ hash keypair,
    crypto.verifySchnorr (crypto.signSchnorr hash keypair) hash (crypto.xOnlyPublicKey keypair) = true
  witnessProgram_p2tr : ∀ xpubk,
    (crypto.p2tr xpubk).witnessProgram = some { version := 1, program := (crypto.outputKey xpubk).1 }
  extractTx_eq : ∀ psbt txIn utxo, psbt.unsignedTx.input = [txIn] → psbt.witnessUtxo = some utxo →
    (psbt.unsignedTx.output.map fun txOut => txOut.value.toNat).sum = utxo.value.toNat →
    crypto.extractTx psbt = some
      { psbt.unsignedTx with
        input := [{ txIn with scriptSig := [], witness := psbt.finalScriptWitness.getD [] }] }
  signatureToVec_all : ∀ signature, crypto.signatureToVec signature .all = signature.1 ++ [1]
  fromConsensusU8_all : crypto.fromConsensusU8 1 = some .all

namespace Bip322

/-- The bytes of `BIP0322-signed-message`. -/
def tag : Bytes :=
  [0x42, 0x49, 0x50, 0x30, 0x33, 0x32, 0x32, 0x2d, 0x73, 0x69, 0x67, 0x6e, 0x65, 0x64, 0x2d, 0x6d, 0x65, 0x73, 0x73,
    0x61, 0x67, 0x65]

section Messages

variable (crypto : Crypto)

def messageHash (message : Bytes) : Hash :=
  crypto.sha256 ((crypto.sha256 tag).1 ++ (crypto.sha256 tag).1 ++ message)

def createToSpend (address : Address) (message : Bytes) : Transaction where
  version := 0
  lockTime := 0
  input := [{ txid := emptyHash, vout := 0xFFFFFFFF, scriptSig := [0x00, 0x20] ++ (messageHash crypto message).1,
              sequence := 0, witness := [] }]
  output := [{ value := 0, scriptPubkey := address.scriptPubkey }]

/-- The transaction that spends the first output of another. -/
def toSignTransaction (toSpend : Transaction) : Transaction where
  version := 0
  lockTime := 0
  input := [{ txid := crypto.computeTxid toSpend, vout := 0, scriptSig := [], sequence := 0, witness := [] }]
  output := [{ value := 0, scriptPubkey := [0x6a] }]

def createToSign (toSpend : Transaction) (witness : Option (List Bytes)) : Except (Failure Bip322Error) Psbt :=
  match toSpend.output with
  | [] => .error .panic
  | spent :: _ =>
      .ok { unsignedTx := toSignTransaction crypto toSpend,
            witnessUtxo := some { value := 0, scriptPubkey := spent.scriptPubkey },
            finalScriptWitness := witness }

/-- What a signature commits to. -/
def spendHash (toSpend : Transaction) (toSign : Psbt) (sighashType : TapSighashType) : Except (Failure Bip322Error) Hash :=
  match toSpend.output with
  | [] => .error .panic
  | spent :: _ => .ok (crypto.taprootKeySpendSignatureHash toSign.unsignedTx 0
      [{ value := 0, scriptPubkey := spent.scriptPubkey }] sighashType)

def createMessageSignatureTaproot (toSpend : Transaction) (toSign : Psbt) (keypair : crypto.Keypair) :
    Except (Failure Bip322Error) (List Bytes) := do
  let sighash ← spendHash crypto toSpend toSign .all
  pure [crypto.signatureToVec (crypto.signSchnorr sighash (crypto.tapTweak keypair)) .all]

/-- The first 64 bytes of the first element of the first input's witness. -/
def firstSignature (transaction : Transaction) : Except (Failure Bip322Error) (FixedBytes 64) :=
  match transaction.input.head?.bind (·.witness.head?) with
  | none => .error .panic
  | some encoded => if h : (encoded.take 64).length = 64 then .ok ⟨encoded.take 64, h⟩ else .error .panic

def signMessage (keypair : crypto.Keypair) (msg : Bytes) : Except (Failure Bip322Error) (FixedBytes 64) := do
  let address := crypto.p2tr (crypto.xOnlyPublicKey keypair)
  let toSpend := createToSpend crypto address msg
  let toSign ← createToSign crypto toSpend none
  match address.witnessProgram with
  | none => .error .panic
  | some witnessProgram =>
      if witnessProgram.version = 1 ∧ witnessProgram.program.length = 32 then do
        let witness ← createMessageSignatureTaproot crypto toSpend toSign keypair
        match crypto.extractTx { toSign with finalScriptWitness := some witness } with
        | none => .error .panic
        | some transaction => firstSignature transaction
      else .error .panic

/-- The signature and the type of an encoded signature. -/
def decodeSignature (encoded : Bytes) : Except (Failure Bip322Error) (FixedBytes 64 × TapSighashType) :=
  if h : encoded.length = 64 then .ok (⟨encoded, h⟩, .default)
  else
    match encoded.drop 64 with
    | [sighashType] =>
        match crypto.fromConsensusU8 sighashType with
        | none => .error (.error (.sigHashTypeInvalid sighashType))
        | some type =>
            if h : (encoded.take 64).length = 64 then .ok (⟨encoded.take 64, h⟩, type) else .error .panic
    | _ => .error (.error (.signatureLength encoded.length))

def require (c : Prop) [Decidable c] (error : Bip322Error) : Except (Failure Bip322Error) Unit :=
  if c then .ok () else .error (.error error)

/-- The last part of `verifyFullP2tr`, on the encoded signature. -/
def verifySignature (toSpend : Transaction) (toSign : Psbt) (pubKey : FixedBytes 32) (encodedSignature : Bytes) :
    Except (Failure Bip322Error) Unit := do
  let (signature, sighashType) ← decodeSignature crypto encodedSignature
  require (sighashType = .all ∨ sighashType = .default) (.sigHashTypeUnsupported sighashType)
  let sighash ← spendHash crypto toSpend toSign sighashType
  require (crypto.verifySchnorr signature sighash pubKey = true) .signatureInvalid

def verifyFullP2tr (address : Address) (message : Bytes) (toSign : Transaction) (pubKey : FixedBytes 32) :
    Except (Failure Bip322Error) Unit := do
  let toSpend := createToSpend crypto address message
  match toSign.input with
  | [] => .error .panic
  | spending :: _ => do
      let toSign ← createToSign crypto toSpend (some spending.witness)
      if toSign.unsignedTx.input.head?.map (fun txIn => (txIn.txid, txIn.vout)) ≠ some (crypto.computeTxid toSpend, 0) then
        .error (.error .toSignInvalid)
      else
        match toSign.finalScriptWitness with
        | none => .error (.error .witnessEmpty)
        | some [] => .error .panic
        | some (encodedSignature :: _) => verifySignature crypto toSpend toSign pubKey encodedSignature

def verifyFull (address : Address) (message : Bytes) (toSign : Transaction) : Except (Failure Bip322Error) Unit :=
  match address.witnessProgram with
  | none => .error (.error .unsupportedAddress)
  | some witness =>
      if h : witness.version = 1 ∧ witness.program.length = 32 then
        if crypto.isXOnly ⟨witness.program, h.2⟩ then
          verifyFullP2tr crypto address message toSign ⟨witness.program, h.2⟩
        else .error (.error .invalidPublicKey)
      else .error (.error .unsupportedAddress)

def verifySimple (address : Address) (message : Bytes) (signature : List Bytes) :
    Except (Failure Bip322Error) Unit := do
  let toSign ← createToSign crypto (createToSpend crypto address message) (some signature)
  match crypto.extractTx toSign with
  | none => .error (.error .transactionExtract)
  | some transaction => verifyFull crypto address message transaction

def verifyMessage (msg : Bytes) (pubkey : FixedBytes 32) (signature : FixedBytes 64) (usesSighashAll : Bool) :
    Except (Failure Bip322Error) Unit :=
  let encoded := if usesSighashAll then signature.1 ++ [1] else signature.1
  if crypto.isXOnly pubkey then verifySimple crypto (crypto.p2tr pubkey) msg [encoded] else .error .panic

/-! ### What is signed and what is accepted -/

variable {crypto}

theorem decodeSignature_default (signature : FixedBytes 64) :
    decodeSignature crypto signature.1 = .ok (signature, .default) := dif_pos signature.2

theorem decodeSignature_all (hcrypto : crypto.Lawful) (signature : FixedBytes 64) :
    decodeSignature crypto (signature.1 ++ [1]) = .ok (signature, .all) := by
  obtain ⟨bytes, hbytes⟩ := signature
  have htake : (bytes ++ [1]).take 64 = bytes := List.take_left' hbytes
  have hdrop : (bytes ++ [1]).drop 64 = [1] := List.drop_left' hbytes
  have hlength : (bytes ++ [1]).length ≠ 64 := by
    rw [List.length_append, hbytes]
    decide
  rw [decodeSignature, dif_neg hlength]
  simp only [hdrop, hcrypto.fromConsensusU8_all, htake, hbytes, dif_pos]

/-- The hash that a signature of a message under a key commits to. -/
def messageDigest (crypto : Crypto) (xpubk : FixedBytes 32) (msg : Bytes) (sighashType : TapSighashType) : Hash :=
  crypto.taprootKeySpendSignatureHash (toSignTransaction crypto (createToSpend crypto (crypto.p2tr xpubk) msg)) 0
    [{ value := 0, scriptPubkey := (crypto.p2tr xpubk).scriptPubkey }] sighashType

/-- The transaction that spends the one of a message, with its witness. -/
def messagePsbt (crypto : Crypto) (address : Address) (message : Bytes) (witness : Option (List Bytes)) : Psbt where
  unsignedTx := toSignTransaction crypto (createToSpend crypto address message)
  witnessUtxo := some { value := 0, scriptPubkey := address.scriptPubkey }
  finalScriptWitness := witness

theorem createToSign_eq (address : Address) (message : Bytes) (witness : Option (List Bytes)) :
    createToSign crypto (createToSpend crypto address message) witness =
      .ok (messagePsbt crypto address message witness) := rfl

theorem spendHash_eq (xpubk : FixedBytes 32) (msg : Bytes) (witness : Option (List Bytes))
    (sighashType : TapSighashType) :
    spendHash crypto (createToSpend crypto (crypto.p2tr xpubk) msg) (messagePsbt crypto (crypto.p2tr xpubk) msg witness)
      sighashType = .ok (messageDigest crypto xpubk msg sighashType) := rfl

/-- The spending transaction is extracted with its witness. -/
theorem extractTx_messagePsbt (hcrypto : crypto.Lawful) (address : Address) (message : Bytes) (witness : List Bytes) :
    ∃ transaction spending, crypto.extractTx (messagePsbt crypto address message (some witness)) = some transaction ∧
      transaction.input = [spending] ∧ spending.witness = witness :=
  ⟨_, _, hcrypto.extractTx_eq _ _ _ rfl rfl rfl, rfl, rfl⟩

theorem firstSignature_eq {transaction : Transaction} {spending : TxIn} (signature : FixedBytes 64) (suffix : Bytes)
    (hinput : transaction.input = [spending]) (hwitness : spending.witness = [signature.1 ++ suffix]) :
    firstSignature transaction = .ok signature := by
  have htake : (signature.1 ++ suffix).take 64 = signature.1 := List.take_left' signature.2
  simp only [firstSignature, hinput, hwitness, List.head?_cons, Option.bind_some, htake, signature.2, dif_pos]

/-- Signing always gives the 64 bytes of the curve's signature, without the type. -/
theorem signMessage_eq (hcrypto : crypto.Lawful) (keypair : crypto.Keypair) (msg : Bytes) :
    signMessage crypto keypair msg =
      .ok (crypto.signSchnorr (messageDigest crypto (crypto.xOnlyPublicKey keypair) msg .all) (crypto.tapTweak keypair)) := by
  have hlength := (crypto.outputKey (crypto.xOnlyPublicKey keypair)).2
  have hwitness : createMessageSignatureTaproot crypto
      (createToSpend crypto (crypto.p2tr (crypto.xOnlyPublicKey keypair)) msg)
      (messagePsbt crypto (crypto.p2tr (crypto.xOnlyPublicKey keypair)) msg none) keypair =
      .ok [(crypto.signSchnorr (messageDigest crypto (crypto.xOnlyPublicKey keypair) msg .all)
        (crypto.tapTweak keypair)).1 ++ [1]] := by
    rw [createMessageSignatureTaproot, spendHash_eq, ← hcrypto.signatureToVec_all]
    rfl
  obtain ⟨transaction, spending, hextract, hinput, hspending⟩ := extractTx_messagePsbt hcrypto
    (crypto.p2tr (crypto.xOnlyPublicKey keypair)) msg
    [(crypto.signSchnorr (messageDigest crypto (crypto.xOnlyPublicKey keypair) msg .all)
      (crypto.tapTweak keypair)).1 ++ [1]]
  have hprogram := hcrypto.witnessProgram_p2tr (crypto.xOnlyPublicKey keypair)
  refine bind_eq_ok.mpr ⟨_, createToSign_eq _ _ _, ?_⟩
  simp only [hprogram, hlength, and_self, if_true]
  refine bind_eq_ok.mpr ⟨_, hwitness, ?_⟩
  show (match crypto.extractTx (messagePsbt crypto _ msg (some _)) with
    | none => Except.error Failure.panic
    | some transaction => firstSignature transaction) = _
  rw [hextract]
  exact firstSignature_eq _ _ hinput hspending

theorem verifySignature_eq (toSpend : Transaction) (toSign : Psbt) (pubKey : FixedBytes 32) {encoded : Bytes}
    {signature : FixedBytes 64} {sighashType : TapSighashType}
    (hdecode : decodeSignature crypto encoded = .ok (signature, sighashType))
    (hsupported : sighashType = .all ∨ sighashType = .default) :
    verifySignature crypto toSpend toSign pubKey encoded =
      (spendHash crypto toSpend toSign sighashType >>= fun sighash =>
        require (crypto.verifySchnorr signature sighash pubKey = true) .signatureInvalid) := by
  rw [verifySignature, hdecode]
  rcases hsupported with rfl | rfl <;> rfl

theorem verifyFullP2tr_eq_ok_iff (pubkey outputKey : FixedBytes 32) (msg encoded : Bytes) (signature : FixedBytes 64)
    (sighashType : TapSighashType) (hdecode : decodeSignature crypto encoded = .ok (signature, sighashType))
    (hsupported : sighashType = .all ∨ sighashType = .default) {toSign : Transaction} {spending : TxIn}
    (hinput : toSign.input = [spending]) (hwitness : spending.witness = [encoded]) :
    verifyFullP2tr crypto (crypto.p2tr pubkey) msg toSign outputKey = .ok () ↔
      crypto.verifySchnorr signature (messageDigest crypto pubkey msg sighashType) outputKey = true := by
  have hverify : verifyFullP2tr crypto (crypto.p2tr pubkey) msg toSign outputKey =
      verifySignature crypto (createToSpend crypto (crypto.p2tr pubkey) msg)
        (messagePsbt crypto (crypto.p2tr pubkey) msg (some [encoded])) outputKey encoded := by
    simp only [verifyFullP2tr, hinput, hwitness, createToSign_eq]
    exact if_neg (not_not.mpr rfl)
  have hrequire : verifyFullP2tr crypto (crypto.p2tr pubkey) msg toSign outputKey =
      require (crypto.verifySchnorr signature (messageDigest crypto pubkey msg sighashType) outputKey = true)
        .signatureInvalid := by
    rw [hverify, verifySignature_eq _ _ _ hdecode hsupported, spendHash_eq]
    rfl
  rw [hrequire, require]
  simp

/-- A signature is accepted exactly when the keys are points and the curve accepts it for the hash of its type. -/
theorem verifyMessage_eq_ok_iff (hcrypto : crypto.Lawful) (msg : Bytes) (pubkey : FixedBytes 32)
    (signature : FixedBytes 64) (usesSighashAll : Bool) :
    verifyMessage crypto msg pubkey signature usesSighashAll = .ok () ↔
      crypto.isXOnly pubkey = true ∧ crypto.isXOnly (crypto.outputKey pubkey) = true ∧
        crypto.verifySchnorr signature
          (messageDigest crypto pubkey msg (if usesSighashAll then .all else .default)) (crypto.outputKey pubkey) = true := by
  have hlength := (crypto.outputKey pubkey).2
  obtain ⟨transaction, spending, hextract, hinput, hspending⟩ := extractTx_messagePsbt hcrypto (crypto.p2tr pubkey) msg
    [if usesSighashAll then signature.1 ++ [1] else signature.1]
  have hsimple : verifySimple crypto (crypto.p2tr pubkey) msg
      [if usesSighashAll then signature.1 ++ [1] else signature.1] =
      verifyFull crypto (crypto.p2tr pubkey) msg transaction := by
    rw [verifySimple, createToSign_eq]
    show (match crypto.extractTx _ with
      | none => Except.error (Failure.error Bip322Error.transactionExtract)
      | some transaction => verifyFull crypto _ msg transaction) = _
    rw [hextract]
  by_cases hpubkey : crypto.isXOnly pubkey = true
  · by_cases houtput : crypto.isXOnly (crypto.outputKey pubkey) = true
    · simp only [verifyMessage, hpubkey, if_true, hsimple, verifyFull, hcrypto.witnessProgram_p2tr, hlength, and_self,
        dif_pos, houtput, true_and]
      cases usesSighashAll with
      | true =>
          exact verifyFullP2tr_eq_ok_iff pubkey _ msg _ _ _ (decodeSignature_all hcrypto signature) (Or.inl rfl) hinput
            hspending
      | false =>
          exact verifyFullP2tr_eq_ok_iff pubkey _ msg _ _ _ (decodeSignature_default signature) (Or.inr rfl) hinput hspending
    · simp [verifyMessage, hpubkey, hsimple, verifyFull, hcrypto.witnessProgram_p2tr, hlength, houtput]
  · simp [verifyMessage, hpubkey]

variable (crypto) in
/-- What is signed is accepted, under the type that it was signed with. -/
theorem verifyMessage_signMessage (hcrypto : crypto.Lawful) (keypair : crypto.Keypair) (msg : Bytes) :
    ∃ signature, signMessage crypto keypair msg = .ok signature ∧
      verifyMessage crypto msg (crypto.xOnlyPublicKey keypair) signature true = .ok () := by
  refine ⟨_, signMessage_eq hcrypto keypair msg, ?_⟩
  rw [verifyMessage_eq_ok_iff hcrypto]
  have hverify := hcrypto.verifySchnorr_signSchnorr (messageDigest crypto (crypto.xOnlyPublicKey keypair) msg .all)
    (crypto.tapTweak keypair)
  have houtput := hcrypto.isXOnly_xOnlyPublicKey (crypto.tapTweak keypair)
  rw [hcrypto.xOnlyPublicKey_tapTweak] at hverify houtput
  exact ⟨hcrypto.isXOnly_xOnlyPublicKey keypair, houtput, hverify⟩

end Messages

end Bip322

end Chainring.Sdk

import Chainring.Base.Pointwise
import Chainring.Sdk.Hex
import Chainring.Sdk.Transactions

/-! The bytes that a processed transaction is stored as. The transactions that can be read at all are those that are
read back from what they are written as. -/

namespace Chainring.Sdk

open Arch (hexDecode)
open Bytes (ofWord)
open Codec (Consumes consumes_pure Takes takes_pure)
open Cursor (takeBytes takeU8 takeWord times result consumes_takeBytes consumes_takeU8 consumes_takeWord consumes_times
  consumes_result takes_takeU8 takes_takeBytes takes_takeWord takes_times takes_result)

inductive Status where
  | processing
  | processed
  | failed (error : Utf8String)
  deriving DecidableEq

structure ProcessedTransaction where
  runtimeTransaction : RuntimeTransaction
  status : Status
  bitcoinTxid : Option Utf8String
  accountsTags : List Utf8String
  deriving DecidableEq

/-! ### Writing -/

def decodeHex (text : Utf8String) : Except (Failure DecodeError) Bytes :=
  match hexDecode text.bytes with
  | none => .error (.error .invalidHex)
  | some bytes => .ok bytes

def Status.serialize : Status → Bytes
  | .processing => [0]
  | .processed => [1]
  | .failed error => [2] ++ (ofWord 8 error.bytes.length ++ error.bytes)

/-- A byte that says whether there is an identifier, and the identifier. -/
def serializeTxid : Option Utf8String → Except (Failure DecodeError) Bytes
  | some txid => do
      let bytes ← decodeHex txid
      pure ([1] ++ bytes)
  | none => pure [0]

def ProcessedTransaction.toVec (transaction : ProcessedTransaction) : Except (Failure DecodeError) Bytes := do
  let txid ← serializeTxid transaction.bitcoinTxid
  let tags ← transaction.accountsTags.mapM decodeHex
  pure (ofWord 8 transaction.runtimeTransaction.serialize.length ++ (transaction.runtimeTransaction.serialize ++
    (txid ++ (ofWord 8 transaction.accountsTags.length ++ (tags.flatten ++ transaction.status.serialize)))))

/-! ### Reading -/

def readError : Decoder Utf8String := do
  let errorLen ← takeWord 8
  let bytes ← takeBytes errorLen
  match Utf8String.fromUtf8 bytes with
  | none => result (.error (.error .invalidUtf8))
  | some error => pure error

def Status.read : Decoder Status := do
  let status ← takeU8
  if status = 0 then pure .processing
  else if status = 1 then pure .processed
  else if status = 2 then Status.failed <$> readError
  else result (.error .panic)

def readHash : Decoder Utf8String := hexString <$> takeBytes 32

def readTxid : Decoder (Option Utf8String) := do
  let present ← takeU8
  if present = 1 then some <$> readHash else pure none

def ProcessedTransaction.read : Decoder ProcessedTransaction := do
  let runtimeTransactionLen ← takeWord 8
  let slice ← takeBytes runtimeTransactionLen
  let runtimeTransaction ← result (RuntimeTransaction.fromSlice slice)
  let bitcoinTxid ← readTxid
  let accountsTagsLen ← takeWord 8
  let accountsTags ← times readHash accountsTagsLen
  let status ← Status.read
  pure { runtimeTransaction, status, bitcoinTxid, accountsTags }

def ProcessedTransaction.fromVec (data : Bytes) : Except (Failure DecodeError) ProcessedTransaction :=
  fromSlice read data

/-! ### What fits -/

def Status.Fits : Status → Prop
  | .failed error => error.bytes.length < 256 ^ 8
  | _ => True

/-- The lengths fit a word, and the identifier and the tags are hashes in lower case. -/
structure ProcessedTransaction.Fits (transaction : ProcessedTransaction) : Prop where
  runtimeTransaction : transaction.runtimeTransaction.Fits
  runtimeTransactionLen : transaction.runtimeTransaction.serialize.length < 256 ^ 8
  status : transaction.status.Fits
  bitcoinTxid : ∀ txid ∈ transaction.bitcoinTxid, IsHash txid
  accountsTagsLen : transaction.accountsTags.length < 256 ^ 8
  accountsTags : ∀ tag ∈ transaction.accountsTags, IsHash tag

theorem consumes_status {status : Status} (h : status.Fits) : Consumes Status.read status.serialize status := by
  cases status with
  | processing => exact (consumes_takeU8 0).bind_eq_pure rfl
  | processed => exact (consumes_takeU8 1).bind_eq_pure rfl
  | failed error =>
      have herror : Consumes readError (ofWord 8 error.bytes.length ++ error.bytes) error := by
        apply (consumes_takeWord h).bind
        apply (consumes_takeBytes error.bytes).bind_eq_pure
        rw [Utf8String.fromUtf8_bytes]
      exact (consumes_takeU8 2).bind (herror.map Status.failed)

/-- A hash is written, and the bytes are read as it. -/
theorem IsHash.consumes {hash : Utf8String} (h : IsHash hash) :
    ∃ bytes, decodeHex hash = .ok bytes ∧ Consumes readHash bytes hash := by
  obtain ⟨block, hdecode, rfl⟩ := isHash_iff.mp h
  refine ⟨block.1, ?_, ?_⟩
  · rw [decodeHex, hdecode]
  · have hread := (consumes_takeBytes (ε := DecodeError) block.1).map hexString
    rwa [block.2] at hread

theorem consumes_txid {txid : Option Utf8String} (h : ∀ hash ∈ txid, IsHash hash) :
    ∃ bytes, serializeTxid txid = .ok bytes ∧ Consumes readTxid bytes txid := by
  cases txid with
  | none => exact ⟨[0], rfl, (consumes_takeU8 0).bind_eq_pure rfl⟩
  | some hash =>
      obtain ⟨bytes, hdecode, hread⟩ := (h hash rfl).consumes
      refine ⟨[1] ++ bytes, ?_, (consumes_takeU8 1).bind (hread.map some)⟩
      rw [serializeTxid, hdecode]
      rfl

theorem consumes_tags {tags : List Utf8String} (h : ∀ tag ∈ tags, IsHash tag) :
    ∃ blocks, tags.mapM decodeHex = .ok blocks ∧ Consumes (times readHash tags.length) blocks.flatten tags := by
  obtain ⟨blocks, hmapM, hblocks⟩ := mapM_forall₂ fun tag htag => (h tag htag).consumes
  refine ⟨blocks, hmapM, ?_⟩
  clear hmapM
  induction hblocks with
  | nil => exact consumes_pure []
  | cons hread _ ih => exact hread.bind ((ih (List.forall_mem_cons.mp h).2).last _)

theorem ProcessedTransaction.Fits.toVec {transaction : ProcessedTransaction} (h : transaction.Fits) :
    ∃ bytes, transaction.toVec = .ok bytes ∧ Consumes read bytes transaction := by
  obtain ⟨txid, htxid, hreadTxid⟩ := consumes_txid h.bitcoinTxid
  obtain ⟨tags, htags, hreadTags⟩ := consumes_tags h.accountsTags
  refine ⟨ofWord 8 transaction.runtimeTransaction.serialize.length ++ (transaction.runtimeTransaction.serialize ++
    (txid ++ (ofWord 8 transaction.accountsTags.length ++ (tags.flatten ++ transaction.status.serialize)))), ?_, ?_⟩
  · rw [ProcessedTransaction.toVec, htxid, htags]
    rfl
  · have hruntime := RuntimeTransaction.fromSlice_of_fits h.runtimeTransaction []
    rw [List.append_nil] at hruntime
    apply (consumes_takeWord h.runtimeTransactionLen).bind
    apply (consumes_takeBytes transaction.runtimeTransaction.serialize).bind
    rw [hruntime, ← List.nil_append (txid ++ _)]
    apply (consumes_result transaction.runtimeTransaction).bind
    apply hreadTxid.bind
    apply (consumes_takeWord h.accountsTagsLen).bind
    apply hreadTags.bind
    exact (consumes_status h.status).last _

/-! ### What is read -/

theorem takes_readError : Takes readError fun error _ => error.bytes.length < 256 ^ 8 := by
  apply (takes_takeWord 8).bind
  rintro errorLen _ ⟨-, hlt⟩
  apply (takes_takeBytes errorLen).bind
  rintro bytes _ ⟨-, hlength⟩
  rw [Utf8String.fromUtf8]
  split
  · next herror =>
      split at herror
      · cases herror
      · exact (takes_result _).imp nofun
  · next error herror =>
      apply takes_pure
      split at herror
      · cases herror
        rw [hlength]
        exact hlt
      · cases herror

theorem takes_status : Takes Status.read fun status _ => status.Fits := by
  apply takes_takeU8.bind
  rintro status _ -
  split
  · exact takes_pure trivial
  · split
    · exact takes_pure trivial
    · split
      · exact takes_readError.map Status.failed fun _ _ h => h
      · exact (takes_result _).imp nofun

theorem takes_readHash : Takes readHash fun hash _ => IsHash hash :=
  (takes_takeBytes 32).map hexString fun _ _ h => isHash_hexString h.2

theorem takes_readTxid : Takes readTxid fun txid _ => ∀ hash ∈ txid, IsHash hash := by
  apply takes_takeU8.bind
  rintro present _ -
  split
  · apply takes_readHash.map some
    rintro hash _ hhash _ ⟨⟩
    exact hhash
  · exact takes_pure nofun

theorem takes_processedTransaction :
    Takes ProcessedTransaction.read fun transaction _ => transaction.Fits := by
  apply (takes_takeWord 8).bind
  rintro runtimeTransactionLen _ ⟨-, hlt⟩
  apply (takes_takeBytes runtimeTransactionLen).bind
  rintro slice _ ⟨-, hslice⟩
  apply (takes_result (RuntimeTransaction.fromSlice slice)).bind
  rintro runtimeTransaction _ ⟨hruntime, -⟩
  obtain ⟨hfits, hlength⟩ := RuntimeTransaction.serialize_length_le hruntime
  apply takes_readTxid.bind
  rintro bitcoinTxid _ htxid
  apply (takes_takeWord 8).bind
  rintro accountsTagsLen _ ⟨-, hcount⟩
  apply (takes_times takes_readHash accountsTagsLen).bind
  rintro accountsTags _ ⟨rfl, images, himages, -⟩
  apply takes_status.bind
  rintro status _ hstatus
  apply takes_pure
  refine ⟨hfits, Nat.lt_of_le_of_lt hlength (hslice ▸ hlt), hstatus, htxid, hcount, fun tag htag => ?_⟩
  obtain ⟨_, hhash⟩ := exists_of_forall₂ himages htag
  exact hhash

/-- A processed transaction can be read from some bytes exactly when it fits, and exactly then it is written and read
back, whatever follows it. -/
theorem ProcessedTransaction.readable_iff (transaction : ProcessedTransaction) (tail : Bytes) :
    ((∃ data, fromVec data = .ok transaction) ↔ transaction.Fits) ∧
      ((∃ bytes, transaction.toVec = .ok bytes ∧ fromVec (bytes ++ tail) = .ok transaction) ↔ transaction.Fits) := by
  have hread : ∀ data, fromVec data = .ok transaction → transaction.Fits := fun _ =>
    takes_processedTransaction.produces.of_run_fst
  have hwrite : transaction.Fits →
      ∃ bytes, transaction.toVec = .ok bytes ∧ fromVec (bytes ++ tail) = .ok transaction := by
    intro h
    obtain ⟨bytes, hbytes, hconsumes⟩ := h.toVec
    exact ⟨bytes, hbytes, hconsumes.run_fst tail⟩
  constructor
  · refine ⟨fun ⟨data, h⟩ => hread data h, fun h => ?_⟩
    obtain ⟨bytes, -, h⟩ := hwrite h
    exact ⟨bytes ++ tail, h⟩
  · exact ⟨fun ⟨bytes, _, h⟩ => hread _ h, hwrite⟩

end Chainring.Sdk

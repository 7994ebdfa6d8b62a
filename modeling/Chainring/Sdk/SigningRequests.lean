import Chainring.Arch.WithdrawalChain
import Chainring.Sdk.Transactions

/-! What a program hands to the host to have a transaction signed, and what is read from it there. -/

namespace Chainring.Sdk

open Arch (InputToSign)
open Bytes (ofWord)
open Codec (Consumes Takes takes_pure)
open Cursor (takeBytes takeBlock takeU32 times consumes_takeBytes consumes_takeBlock consumes_takeU32 consumes_times
  takes_takeBytes takes_takeBlock takes_takeU32 takes_times)

structure TransactionToSign where
  txBytes : Bytes
  inputsToSign : List InputToSign
  deriving DecidableEq

def TransactionToSign.serialise (request : TransactionToSign) : Bytes :=
  Arch.serialiseTransactionToSign request.txBytes request.inputsToSign

def readInputToSign : Decoder InputToSign := do
  let index ← takeU32
  let signer ← takeBlock 32
  pure { index, signer }

def TransactionToSign.read : Decoder TransactionToSign := do
  let txBytesLen ← takeU32
  let txBytes ← takeBytes txBytesLen.toNat
  let inputsToSignLen ← takeU32
  let inputsToSign ← times readInputToSign inputsToSignLen.toNat
  pure { txBytes, inputsToSign }

def TransactionToSign.fromSlice (data : Bytes) : Except (Failure DecodeError) TransactionToSign :=
  Sdk.fromSlice read data

/-! ### Requests that fit -/

/-- The lengths fit the words that they are written as. -/
structure TransactionToSign.Fits (request : TransactionToSign) : Prop where
  txBytes : request.txBytes.length < 2 ^ 32
  inputsToSign : request.inputsToSign.length < 2 ^ 32

def inputImage (input : InputToSign) : Bytes := ofWord 4 input.index.toNat ++ input.signer.1

theorem consumes_inputToSign (input : InputToSign) : Consumes readInputToSign (inputImage input) input :=
  (consumes_takeU32 input.index).bind ((consumes_takeBlock input.signer).last _)

theorem takes_inputToSign : Takes readInputToSign fun input bytes => bytes = inputImage input := by
  apply takes_takeU32.bind
  rintro index _ rfl
  apply (takes_takeBlock 32).bind
  rintro signer _ rfl
  apply takes_pure
  rw [List.append_nil]
  rfl

/-- A length that fits a word, before what it counts. -/
theorem consumes_length {length : Nat} (h : length < 2 ^ 32) :
    (UInt32.ofNat length).toNat = length ∧
      Consumes (takeU32 : Decoder UInt32) (ofWord 4 length) (UInt32.ofNat length) := by
  have hlength : (UInt32.ofNat length).toNat = length := by
    rw [UInt32.toNat_ofNat', Nat.mod_eq_of_lt h]
  have hword := consumes_takeU32 (ε := DecodeError) (UInt32.ofNat length)
  rw [hlength] at hword
  exact ⟨hlength, hword⟩

theorem consumes_transactionToSign {request : TransactionToSign} (h : request.Fits) :
    Consumes TransactionToSign.read request.serialise request := by
  obtain ⟨hbytes, hbytesLength⟩ := consumes_length h.txBytes
  obtain ⟨hinputs, hinputsLength⟩ := consumes_length h.inputsToSign
  have htxBytes := consumes_takeBytes (ε := DecodeError) request.txBytes
  have heach := consumes_times fun input (_ : input ∈ request.inputsToSign) => consumes_inputToSign input
  rw [← hbytes] at htxBytes
  rw [← hinputs] at heach
  rw [TransactionToSign.serialise, Arch.serialiseTransactionToSign, List.append_assoc, List.append_assoc]
  apply hbytesLength.bind
  apply htxBytes.bind
  apply hinputsLength.bind
  exact heach.last _

theorem flatten_images {α : Type} {encode : α → Bytes} {values : List α} {images : List Bytes}
    (h : List.Forall₂ (fun value image => image = encode value) values images) :
    images.flatten = values.flatMap encode := by
  induction h with
  | nil => rfl
  | cons hvalue _ ih => rw [List.flatten_cons, List.flatMap_cons, hvalue, ih]

/-- What is read fits, and was written as the bytes that it is read from. -/
theorem takes_transactionToSign :
    Takes TransactionToSign.read fun request bytes => request.Fits ∧ bytes = request.serialise := by
  apply takes_takeU32.bind
  rintro txBytesLen _ rfl
  apply (takes_takeBytes txBytesLen.toNat).bind
  rintro txBytes _ ⟨rfl, hbytes⟩
  apply takes_takeU32.bind
  rintro inputsToSignLen _ rfl
  apply (takes_times takes_inputToSign inputsToSignLen.toNat).bind
  rintro inputsToSign _ ⟨hinputs, images, himages, rfl⟩
  apply takes_pure
  have hflatten := flatten_images himages
  refine ⟨⟨?_, ?_⟩, ?_⟩
  · rw [hbytes]
    exact txBytesLen.toNat_lt
  · rw [hinputs]
    exact inputsToSignLen.toNat_lt
  · rw [TransactionToSign.serialise, Arch.serialiseTransactionToSign, hbytes, hinputs, hflatten, List.append_nil,
      List.append_assoc, List.append_assoc]
    rfl

/-- A request is read from a slice exactly when it fits and the slice begins with the bytes that it is written as. -/
theorem TransactionToSign.fromSlice_eq_ok_iff (data : Bytes) (request : TransactionToSign) :
    fromSlice data = .ok request ↔ request.Fits ∧ request.serialise <+: data := by
  constructor
  · intro hread
    cases hresult : read data with
    | error fault =>
        rw [fromSlice, Sdk.fromSlice, hresult] at hread
        cases hread
    | ok result =>
        rw [fromSlice, Sdk.fromSlice, hresult] at hread
        cases hread
        obtain ⟨bytes, rfl, hfits, rfl⟩ := takes_transactionToSign data result.1 result.2 hresult
        exact ⟨hfits, List.prefix_append _ _⟩
  · rintro ⟨hfits, rest, rfl⟩
    exact (consumes_transactionToSign hfits).run_fst rest

/-! ### The request of a submission -/

/-- What a submission of withdrawals leaves with the host: the bytes of a request that the host accepted, which is read
back as the transaction that the program built and as the signers of its inputs. -/
structure Requested (rt : Arch.Runtime) (w : Arch.World) (call : Arch.Call) (params : Arch.WithdrawBatchParams)
    (request : TransactionToSign) : Prop where
  accepted : rt.archSetTransactionToSign request.serialise = 0
  read : request.Fits → ∀ tail, TransactionToSign.fromSlice (request.serialise ++ tail) = .ok request
  built : ∃ withdraw transaction inputs,
    Arch.Hands rt w call.programId call.accounts params withdraw transaction inputs ∧
      request = ⟨rt.serializeTransaction transaction, inputs.inputsToSign⟩

theorem submission_requested {rt : Arch.Runtime} {w w' : Arch.World} {call : Arch.Call}
    {params : Arch.WithdrawBatchParams} (hinstruction : call.instruction = .ok (.submitBatchWithdraw params))
    (h : Arch.execute rt w call = some w') : ∃ request, Requested rt w call params request := by
  obtain ⟨instruction, m, hdecoded, hrun, -, -⟩ := Arch.execute_cases h
  obtain rfl := Except.ok.inj (hdecoded.symm.trans hinstruction)
  obtain ⟨withdraw, transaction, inputs, signed, hhands, hsign, -⟩ := Arch.submitWithdrawBatch_hands hrun
  obtain ⟨haccepted, -⟩ := Exec.ensure_bind_eq_ok.mp hsign
  refine ⟨⟨rt.serializeTransaction transaction, inputs.inputsToSign⟩, haccepted, fun hfits tail => ?_,
    withdraw, transaction, inputs, hhands, rfl⟩
  exact (consumes_transactionToSign hfits).run_fst tail

/-- A withdrawal that was prepared is submitted. -/
theorem smallSubmit_requested :
    ∃ request, Requested Arch.smallRuntime
      (Arch.worldAt Arch.smallRuntime Arch.smallWorld [Arch.smallPrepare, Arch.smallSubmit] 1) Arch.smallSubmit
      Arch.smallBatchParams request := by
  have hexecutes : (Arch.execute Arch.smallRuntime
      (Arch.worldAt Arch.smallRuntime Arch.smallWorld [Arch.smallPrepare, Arch.smallSubmit] 1)
      Arch.smallSubmit).isSome := by
    decide +kernel
  obtain ⟨w', hexecutes⟩ := Option.isSome_iff_exists.mp hexecutes
  exact submission_requested (by decide +kernel) hexecutes

end Chainring.Sdk

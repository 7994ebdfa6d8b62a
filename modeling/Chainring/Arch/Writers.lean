import Chainring.Arch.StateCodecs
import Chainring.Base.Appending

/-! The encoders as they write to a growing buffer: each of them appends the bytes of its parts, one after the other,
and returns a count that it adds up from theirs. -/

namespace Chainring.Arch

open Bytes (ofWord ofWord_length)
open Exec (Appends Counts appends_pure appends_modify appends_panic counts_foldlM)

abbrev Writer (α : Type) := Exec IoError Bytes α

/-! ### What all encoders write with

The counts are of bytes in memory, so that no sum of them leaves a `usize`. -/

namespace WriteExt

/-- A vector takes all that is written to it. -/
def writeAll (bytes : Bytes) : Writer Unit := Exec.modify fun data => .ok (data ++ bytes)

def writeU8 (v : UInt8) : Writer Nat := do
  writeAll [v]
  pure 1

/-- A word of `n` bytes, the lowest first; a longer number is cut to them. -/
def writeWord (n v : Nat) : Writer Nat := do
  let bytes := ofWord n v
  writeAll bytes
  pure bytes.length

def writeUsizeAsU16 (v : Nat) : Writer Nat := writeWord 2 v

def writeU32 (v : UInt32) : Writer Nat := writeWord 4 v.toNat

def writeUsizeAsU32 (v : Nat) : Writer Nat := writeWord 4 v

def writeU64 (v : UInt64) : Writer Nat := writeWord 8 v.toNat

def writeString (v : Utf8String) : Writer Nat := do
  let mut bytesWritten ← writeUsizeAsU16 v.bytes.length
  writeAll v.bytes
  bytesWritten := bytesWritten + v.bytes.length
  pure bytesWritten

def writePadding (paddingLen : Nat) : Writer Nat :=
  if paddingLen > 0 then do
    writeAll (List.replicate paddingLen 0)
    pure paddingLen
  else pure 0

/-- For a string above the size the length of the padding wraps, and no vector can have it. -/
def writeStringWithPadding (v : Utf8String) (size : Nat) : Writer Nat := do
  writeAll v.bytes
  let padding ← (if v.bytes.length ≤ size then writePadding (size - v.bytes.length)
    else Exec.query fun _ => .error .panic : Writer Nat)
  pure (v.bytes.length + padding)

def writePubkey (v : Pubkey) : Writer Nat := do
  writeAll v.1
  pure v.1.length

def writeHash (v : Hash) : Writer Nat := do
  writeAll v.1
  pure v.1.length

/-! ### What they append -/

theorem appends_writeAll (bytes : Bytes) : Appends True (writeAll bytes) () bytes := appends_modify

theorem counts_writeU8 (v : UInt8) : Counts True (writeU8 v) [v] := (appends_writeAll [v]).last _

theorem counts_writeWord (n v : Nat) : Counts True (writeWord n v) (ofWord n v) := (appends_writeAll _).last _

theorem counts_writeUsizeAsU16 (v : Nat) : Counts True (writeUsizeAsU16 v) (ofWord 2 v) := counts_writeWord 2 v

theorem counts_writeU32 (v : UInt32) : Counts True (writeU32 v) (ofWord 4 v.toNat) := counts_writeWord 4 v.toNat

theorem counts_writeUsizeAsU32 (v : Nat) : Counts True (writeUsizeAsU32 v) (ofWord 4 v) := counts_writeWord 4 v

theorem counts_writeU64 (v : UInt64) : Counts True (writeU64 v) (ofWord 8 v.toNat) := counts_writeWord 8 v.toNat

theorem counts_writeString (v : Utf8String) : Counts True (writeString v) (Arch.writeString v) := by
  refine ((counts_writeUsizeAsU16 _).next ((appends_writeAll v.bytes).last _)).counts rfl ?_
  rw [Arch.writeString, List.length_append]

theorem counts_writePadding (paddingLen : Nat) :
    Counts True (writePadding paddingLen) (List.replicate paddingLen 0) := by
  unfold writePadding
  split
  · refine ((appends_writeAll _).last _).counts rfl ?_
    rw [List.length_replicate]
  · next hzero =>
      obtain rfl : paddingLen = 0 := by omega
      exact appends_pure

theorem counts_writeStringWithPadding (v : Utf8String) (size : Nat) :
    Counts (v.bytes.length ≤ size) (writeStringWithPadding v size) (withPadding v size) := by
  have hpadding : Counts (v.bytes.length ≤ size)
      (if v.bytes.length ≤ size then writePadding (size - v.bytes.length)
        else Exec.query fun _ => .error .panic) (List.replicate (size - v.bytes.length) 0) := by
    split
    · next hfits => exact (counts_writePadding _).imp (iff_of_true trivial hfits)
    · next hfits => exact appends_panic hfits
  refine ((appends_writeAll v.bytes).next (hpadding.last _)).counts rfl ?_
  rw [withPadding, List.length_append]

theorem counts_writePubkey (v : Pubkey) : Counts True (writePubkey v) v.1 := (appends_writeAll v.1).last _

theorem counts_writeHash (v : Hash) : Counts True (writeHash v) v.1 := (appends_writeAll v.1).last _

end WriteExt

open WriteExt (writeAll writeU8 writeUsizeAsU16 writeU32 writeUsizeAsU32 writeU64 writePadding writePubkey writeHash
  appends_writeAll counts_writeU8 counts_writeUsizeAsU16 counts_writeU32 counts_writeUsizeAsU32 counts_writeU64
  counts_writeString counts_writePadding counts_writeStringWithPadding counts_writePubkey counts_writeHash)

/-- The types that encode themselves to a writer and return how many bytes they wrote. -/
class Codable (α : Type) where
  encode : α → Writer Nat

open Codable (encode)

def Codable.encodeToVec {α : Type} [Codable α] (value : α) : Except (Failure IoError) Bytes :=
  match (encode value).run [] with
  | .ok _ buffer => .ok buffer
  | .error e _ => .error (.error e)
  | .panic => .error .panic

/-- An encoder that appends the bytes of a value makes a vector of them. -/
theorem encodeToVec_eq_ok {α : Type} [Codable α] {fits : Prop} {value : α} {count : Nat} {image bytes : Bytes}
    (h : Appends fits (encode value) count image) :
    Codable.encodeToVec value = .ok bytes ↔ fits ∧ bytes = image := by
  unfold Codable.encodeToVec
  by_cases hfits : fits
  · rw [h.returns hfits [], List.nil_append, Except.ok.injEq, and_iff_right hfits]
    exact eq_comm
  · rw [h.panics hfits []]
    exact iff_of_false nofun fun hboth => hfits hboth.1

/-- Encode the items of a list and add what they return to the count. -/
def writeItems {α : Type} (write : α → Writer Nat) (items : List α) (bytesWritten : Nat) : Writer Nat :=
  items.foldlM (fun bytesWritten item => do let n ← write item; pure (bytesWritten + n)) bytesWritten

/-! ### Instructions -/

instance : Codable NetworkType where
  encode networkType := writeU8 networkType.encode

instance : Codable InputUtxoType where
  encode inputUtxoType := writeU8 inputUtxoType.encode

instance : Codable TokenStateSetup where
  encode setup := do
    let mut bytesWritten ← writeU8 setup.accountIndex
    bytesWritten := bytesWritten + (← writeUsizeAsU16 setup.walletAddresses.length)
    writeItems WriteExt.writeString setup.walletAddresses bytesWritten

instance : Codable AddressIndex where
  encode addressIndex := do
    let mut bytesWritten ← writeU32 addressIndex.index
    writeAll addressIndex.last4.1
    bytesWritten := bytesWritten + addressIndex.last4.1.length
    pure bytesWritten

instance : Codable Adjustment where
  encode adjustment := do
    pure ((← encode adjustment.addressIndex) + (← writeU64 adjustment.amount))

instance : Codable Withdrawal where
  encode withdrawal := do
    pure ((← encode withdrawal.addressIndex) + (← writeU64 withdrawal.amount) +
      (← writeU8 withdrawal.feeAccountIndex) + (← encode withdrawal.feeAddressIndex) +
      (← writeU64 withdrawal.feeAmount))

instance : Codable TokenDeposits where
  encode tokenDeposits := do
    let mut bytesWritten ← writeU8 tokenDeposits.accountIndex
    bytesWritten := bytesWritten + (← writeUsizeAsU16 tokenDeposits.deposits.length)
    writeItems encode tokenDeposits.deposits bytesWritten

instance : Codable TokenWithdrawals where
  encode tokenWithdrawals := do
    let mut bytesWritten ← writeU8 tokenWithdrawals.accountIndex
    bytesWritten := bytesWritten + (← writeUsizeAsU16 tokenWithdrawals.withdrawals.length)
    writeItems encode tokenWithdrawals.withdrawals bytesWritten

instance : Codable SettlementAdjustments where
  encode settlement := do
    let mut bytesWritten ← writeU8 settlement.accountIndex
    bytesWritten := bytesWritten + (← writeUsizeAsU16 settlement.increments.length)
    bytesWritten ← writeItems encode settlement.increments bytesWritten
    bytesWritten := bytesWritten + (← writeUsizeAsU16 settlement.decrements.length)
    bytesWritten ← writeItems encode settlement.decrements bytesWritten
    bytesWritten := bytesWritten + (← writeU64 settlement.feeAmount)
    pure bytesWritten

instance : Codable InitProgramStateParams where
  encode params := do
    pure ((← WriteExt.writeString params.feeAccount) + (← WriteExt.writeString params.programChangeAddress) +
      (← encode params.networkType))

instance : Codable InitTokenStateParams where
  encode params := WriteExt.writeString params.tokenId

instance : Codable SetTokenRuneIdParams where
  encode params := WriteExt.writeString params.runeId

instance : Codable InitWalletBalancesParams where
  encode params := do
    let bytesWritten ← writeUsizeAsU16 params.tokenStateSetups.length
    writeItems encode params.tokenStateSetups bytesWritten

instance : Codable DepositBatchParams where
  encode params := do
    let bytesWritten ← writeUsizeAsU16 params.tokenDeposits.length
    writeItems encode params.tokenDeposits bytesWritten

instance : Codable WithdrawBatchParams where
  encode params := do
    let mut bytesWritten ← writeUsizeAsU16 params.txHex.length
    writeAll params.txHex
    bytesWritten := bytesWritten + params.txHex.length
    bytesWritten := bytesWritten + (← writeU64 params.changeAmount)
    bytesWritten := bytesWritten + (← writeUsizeAsU16 params.tokenWithdrawals.length)
    bytesWritten ← writeItems encode params.tokenWithdrawals bytesWritten
    bytesWritten := bytesWritten + (← writeUsizeAsU16 params.inputUtxoTypes.length)
    writeItems encode params.inputUtxoTypes bytesWritten

instance : Codable UpdateWithdrawStateUtxoParams where
  encode params := do
    let mut bytesWritten ← WriteExt.writeString params.txId
    bytesWritten := bytesWritten + (← writeU32 params.vout)
    pure bytesWritten

instance : Codable SettlementBatchParams where
  encode params := do
    let bytesWritten ← writeUsizeAsU16 params.settlements.length
    writeItems encode params.settlements bytesWritten

instance : Codable RollbackWithdrawBatchParams where
  encode params := do
    let bytesWritten ← writeUsizeAsU16 params.tokenWithdrawals.length
    writeItems encode params.tokenWithdrawals bytesWritten

instance : Codable ProgramInstruction where
  encode
    | .initProgramState params => do pure ((← writeU8 0) + (← encode params))
    | .initTokenState params => do pure ((← writeU8 1) + (← encode params))
    | .initWalletBalances params => do pure ((← writeU8 2) + (← encode params))
    | .batchDeposit params => do pure ((← writeU8 3) + (← encode params))
    | .prepareBatchWithdraw params => do pure ((← writeU8 4) + (← encode params))
    | .prepareBatchSettlement params => do pure ((← writeU8 5) + (← encode params))
    | .submitBatchSettlement params => do pure ((← writeU8 6) + (← encode params))
    | .rollbackBatchSettlement => writeU8 7
    | .rollbackBatchWithdraw params => do pure ((← writeU8 8) + (← encode params))
    | .submitBatchWithdraw params => do pure ((← writeU8 9) + (← encode params))
    | .updateWithdrawStateUtxo params => do pure ((← writeU8 10) + (← encode params))
    | .initRuneReceiverState => writeU8 11
    | .setTokeRuneId params => do pure ((← writeU8 12) + (← encode params))

/-! ### What the instructions append -/

theorem counts_networkType (networkType : NetworkType) : Counts True (encode networkType) [networkType.encode] :=
  counts_writeU8 networkType.encode

theorem counts_inputUtxoType (inputUtxoType : InputUtxoType) :
    Counts True (encode inputUtxoType) [inputUtxoType.encode] :=
  counts_writeU8 inputUtxoType.encode

section Vectors

variable {α : Type} {write : α → Writer Nat} {image : α → Bytes}

/-- A loop over items that always fit. -/
theorem appends_writeItems (h : ∀ item, Counts True (write item) (image item)) (items : List α) (bytesWritten : Nat) :
    Appends True (writeItems write items bytesWritten) (bytesWritten + (items.flatMap image).length)
      (items.flatMap image) :=
  (counts_foldlM h items bytesWritten).imp (iff_of_true (fun _ _ => trivial) trivial)

/-- A count and its items. -/
theorem counts_vec (h : ∀ item, Counts True (write item) (image item)) (items : List α) :
    Counts True (do let bytesWritten ← writeUsizeAsU16 items.length; writeItems write items bytesWritten)
      (writeVec image items) := by
  refine ((counts_writeUsizeAsU16 _).next (appends_writeItems h items _)).counts rfl ?_
  rw [writeVec, List.length_append]

/-- An account's index before the count and the items for the account. -/
theorem counts_indexedVec (h : ∀ item, Counts True (write item) (image item)) (accountIndex : UInt8) (items : List α) :
    Counts True (do
        let mut bytesWritten ← writeU8 accountIndex
        bytesWritten := bytesWritten + (← writeUsizeAsU16 items.length)
        writeItems write items bytesWritten)
      ([accountIndex] ++ writeVec image items) := by
  apply Appends.counts
  · apply (counts_writeU8 _).next
    apply (counts_writeUsizeAsU16 _).next
    exact appends_writeItems h items _
  · rfl
  · simp only [writeVec, List.length_append, Nat.add_assoc]

end Vectors

theorem counts_tokenStateSetup (setup : TokenStateSetup) : Counts True (encode setup) setup.encode :=
  counts_indexedVec counts_writeString setup.accountIndex setup.walletAddresses

theorem counts_addressIndex (addressIndex : AddressIndex) : Counts True (encode addressIndex) addressIndex.encode := by
  refine ((counts_writeU32 _).next ((appends_writeAll _).last _)).counts rfl ?_
  rw [AddressIndex.encode, List.length_append]

theorem counts_adjustment (adjustment : Adjustment) : Counts True (encode adjustment) adjustment.encode := by
  refine ((counts_addressIndex _).next ((counts_writeU64 _).last _)).counts rfl ?_
  rw [Adjustment.encode, List.length_append]

theorem counts_withdrawal (withdrawal : Withdrawal) : Counts True (encode withdrawal) withdrawal.encode := by
  apply Appends.counts
  · apply (counts_addressIndex _).next
    apply (counts_writeU64 _).next
    apply (counts_writeU8 _).next
    apply (counts_addressIndex _).next
    exact (counts_writeU64 _).last _
  · simp only [Withdrawal.encode, List.append_assoc]
  · simp only [Withdrawal.encode, List.length_append]

theorem counts_tokenDeposits (tokenDeposits : TokenDeposits) :
    Counts True (encode tokenDeposits) tokenDeposits.encode :=
  counts_indexedVec counts_adjustment tokenDeposits.accountIndex tokenDeposits.deposits

theorem counts_tokenWithdrawals (tokenWithdrawals : TokenWithdrawals) :
    Counts True (encode tokenWithdrawals) tokenWithdrawals.encode :=
  counts_indexedVec counts_withdrawal tokenWithdrawals.accountIndex tokenWithdrawals.withdrawals

theorem counts_settlementAdjustments (settlement : SettlementAdjustments) :
    Counts True (encode settlement) settlement.encode := by
  apply Appends.counts
  · apply (counts_writeU8 _).next
    apply (counts_writeUsizeAsU16 _).next
    apply (appends_writeItems counts_adjustment _ _).next
    apply (counts_writeUsizeAsU16 _).next
    apply (appends_writeItems counts_adjustment _ _).next
    exact (counts_writeU64 _).last _
  · simp only [SettlementAdjustments.encode, writeVec, List.append_assoc]
  · simp only [SettlementAdjustments.encode, writeVec, List.length_append, Nat.add_assoc]

theorem counts_initProgramStateParams (params : InitProgramStateParams) :
    Counts True (encode params) params.encode := by
  apply Appends.counts
  · apply (counts_writeString _).next
    apply (counts_writeString _).next
    exact (counts_networkType _).last _
  · simp only [InitProgramStateParams.encode, List.append_assoc]
  · simp only [InitProgramStateParams.encode, List.length_append]

theorem counts_initTokenStateParams (params : InitTokenStateParams) : Counts True (encode params) params.encode :=
  counts_writeString params.tokenId

theorem counts_setTokenRuneIdParams (params : SetTokenRuneIdParams) : Counts True (encode params) params.encode :=
  counts_writeString params.runeId

theorem counts_initWalletBalancesParams (params : InitWalletBalancesParams) :
    Counts True (encode params) params.encode :=
  counts_vec counts_tokenStateSetup params.tokenStateSetups

theorem counts_depositBatchParams (params : DepositBatchParams) : Counts True (encode params) params.encode :=
  counts_vec counts_tokenDeposits params.tokenDeposits

theorem counts_withdrawBatchParams (params : WithdrawBatchParams) : Counts True (encode params) params.encode := by
  apply Appends.counts
  · apply (counts_writeUsizeAsU16 _).next
    apply (appends_writeAll _).next
    apply (counts_writeU64 _).next
    apply (counts_writeUsizeAsU16 _).next
    apply (appends_writeItems counts_tokenWithdrawals _ _).next
    apply (counts_writeUsizeAsU16 _).next
    exact appends_writeItems counts_inputUtxoType _ _
  · simp only [WithdrawBatchParams.encode, writeVec, List.append_assoc]
  · simp only [WithdrawBatchParams.encode, writeVec, List.length_append, Nat.add_assoc]

theorem counts_updateWithdrawStateUtxoParams (params : UpdateWithdrawStateUtxoParams) :
    Counts True (encode params) params.encode := by
  refine ((counts_writeString _).next ((counts_writeU32 _).last _)).counts rfl ?_
  rw [UpdateWithdrawStateUtxoParams.encode, List.length_append]

theorem counts_settlementBatchParams (params : SettlementBatchParams) : Counts True (encode params) params.encode :=
  counts_vec counts_settlementAdjustments params.settlements

theorem counts_rollbackWithdrawBatchParams (params : RollbackWithdrawBatchParams) :
    Counts True (encode params) params.encode :=
  counts_vec counts_tokenWithdrawals params.tokenWithdrawals

/-- The tag of an instruction before its parameters. -/
theorem counts_tagged {α : Type} [Codable α] {params : α} {bytes : Bytes} (h : Counts True (encode params) bytes)
    (instrType : UInt8) :
    Counts True (do pure ((← writeU8 instrType) + (← encode params))) (instrType :: bytes) := by
  refine ((counts_writeU8 _).next (h.last _)).counts rfl ?_
  rw [List.length_singleton, List.length_cons, Nat.add_comm]

theorem counts_programInstruction (instruction : ProgramInstruction) :
    Counts True (encode instruction) instruction.encode := by
  cases instruction with
  | initProgramState params => exact counts_tagged (counts_initProgramStateParams params) 0
  | initTokenState params => exact counts_tagged (counts_initTokenStateParams params) 1
  | initWalletBalances params => exact counts_tagged (counts_initWalletBalancesParams params) 2
  | batchDeposit params => exact counts_tagged (counts_depositBatchParams params) 3
  | prepareBatchWithdraw params => exact counts_tagged (counts_withdrawBatchParams params) 4
  | prepareBatchSettlement params => exact counts_tagged (counts_settlementBatchParams params) 5
  | submitBatchSettlement params => exact counts_tagged (counts_settlementBatchParams params) 6
  | rollbackBatchSettlement => exact counts_writeU8 7
  | rollbackBatchWithdraw params => exact counts_tagged (counts_rollbackWithdrawBatchParams params) 8
  | submitBatchWithdraw params => exact counts_tagged (counts_withdrawBatchParams params) 9
  | updateWithdrawStateUtxo params => exact counts_tagged (counts_updateWithdrawStateUtxoParams params) 10
  | initRuneReceiverState => exact counts_writeU8 11
  | setTokeRuneId params => exact counts_tagged (counts_setTokenRuneIdParams params) 12

end Chainring.Arch

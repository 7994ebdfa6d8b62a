import Chainring.Arch.Serialization
import Chainring.Base.Codec

/-! Every instruction whose strings and lists fit their 16-bit lengths is read back from its encoding,
whatever follows it. -/

namespace Chainring.Arch

open Bytes (ofWord toWord ofWord_length toWord_ofWord)
open Codec (Consumes consumes_pure Produces produces_pure produces_true)

/-! ### Words, strings and lists -/

theorem consumes_readExact {n : Nat} (block : FixedBytes n) : Consumes (readExact n) block.1 block := by
  intro rest
  obtain ⟨bytes, rfl⟩ := block
  simp [readExact]

theorem consumes_readUpTo (bytes : Bytes) : Consumes (readUpTo bytes.length) bytes bytes := by
  intro rest
  rw [readUpTo, List.take_left, List.drop_left]

theorem consumes_readU8 (val : UInt8) : Consumes readU8 [val] val := by
  have hexact := (consumes_readExact (n := 1) ⟨[val], rfl⟩).last fun block => UInt8.ofNat (toWord block.1)
  have hval : UInt8.ofNat (toWord [val]) = val := by simp [toWord]
  rw [hval] at hexact
  exact hexact

/-- A value that one byte encodes is read back. -/
theorem consumes_decoded {α : Type} {encode : α → UInt8} {decode : UInt8 → α} (h : ∀ a, decode (encode a) = a) (a : α) :
    Consumes (decode <$> readU8) [encode a] a := by
  have hbyte := (consumes_readU8 (encode a)).map decode
  rw [h] at hbyte
  exact hbyte

/-- A word of `n` bytes is read back when it fits them. -/
theorem consumes_word {n word : Nat} (hword : word < 256 ^ n) :
    Consumes (do let block ← readExact n; pure (toWord block.1)) (ofWord n word) word := by
  have hexact := (consumes_readExact (n := n) ⟨ofWord n word, ofWord_length n word⟩).last fun block =>
    toWord block.1
  rw [toWord_ofWord, Nat.mod_eq_of_lt hword] at hexact
  exact hexact

theorem consumes_readU16 {val : Nat} (hval : val ≤ 65535) : Consumes readU16 (ofWord 2 val) val :=
  consumes_word (Nat.lt_succ_of_le hval)

theorem consumes_readU32 (val : UInt32) : Consumes readU32 (ofWord 4 val.toNat) val := by
  have hword := (consumes_readExact (n := 4) ⟨ofWord 4 val.toNat, ofWord_length _ _⟩).last fun block =>
    UInt32.ofNat (toWord block.1)
  rw [toWord_ofWord, Nat.mod_eq_of_lt (show val.toNat < 256 ^ 4 from val.toNat_lt), UInt32.ofNat_toNat] at hword
  exact hword

theorem consumes_readU64 (val : UInt64) : Consumes readU64 (ofWord 8 val.toNat) val := by
  have hword := (consumes_readExact (n := 8) ⟨ofWord 8 val.toNat, ofWord_length _ _⟩).last fun block =>
    UInt64.ofNat (toWord block.1)
  rw [toWord_ofWord, Nat.mod_eq_of_lt (show val.toNat < 256 ^ 8 from val.toNat_lt), UInt64.ofNat_toNat] at hword
  exact hword

/-- A string whose length fits 16 bits. -/
def ShortString (v : Utf8String) : Prop := v.bytes.length ≤ 65535

/-- A list whose length fits 16 bits, of items that fit. -/
def ShortList {α : Type} (Short : α → Prop) (items : List α) : Prop :=
  items.length ≤ 65535 ∧ ∀ item ∈ items, Short item

theorem consumes_readString {v : Utf8String} (h : ShortString v) : Consumes readString (writeString v) v := by
  refine (consumes_readU16 h).bind ((consumes_readUpTo v.bytes).bind_eq_pure ?_)
  simp only [v.fromUtf8_bytes]

section Lists

variable {α : Type} {item : Reader α} {encode : α → Bytes} {Short : α → Prop}

theorem consumes_readTimes (hitem : ∀ value, Short value → Consumes item (encode value) value) {items : List α}
    (hshort : ∀ value ∈ items, Short value) :
    Consumes (readTimes item items.length) (items.flatMap encode) items := by
  induction items with
  | nil => exact consumes_pure []
  | cons value items ih =>
      obtain ⟨hvalue, hitems⟩ := List.forall_mem_cons.mp hshort
      exact (hitem value hvalue).bind ((ih hitems).last _)

theorem consumes_readVec (hitem : ∀ value, Short value → Consumes item (encode value) value) {items : List α}
    (h : ShortList Short items) : Consumes (readVec item) (writeVec encode items) items :=
  (consumes_readU16 h.1).bind (consumes_readTimes hitem h.2)

end Lists

/-! ### Parameters -/

def TokenStateSetup.Short (setup : TokenStateSetup) : Prop := ShortList ShortString setup.walletAddresses

def TokenDeposits.Short (tokenDeposits : TokenDeposits) : Prop :=
  ShortList (fun _ => True) tokenDeposits.deposits

def TokenWithdrawals.Short (tokenWithdrawals : TokenWithdrawals) : Prop :=
  ShortList (fun _ => True) tokenWithdrawals.withdrawals

def SettlementAdjustments.Short (settlement : SettlementAdjustments) : Prop :=
  ShortList (fun _ => True) settlement.increments ∧ ShortList (fun _ => True) settlement.decrements

def InitProgramStateParams.Short (params : InitProgramStateParams) : Prop :=
  ShortString params.feeAccount ∧ ShortString params.programChangeAddress

def WithdrawBatchParams.Short (params : WithdrawBatchParams) : Prop :=
  params.txHex.length ≤ 65535 ∧ ShortList TokenWithdrawals.Short params.tokenWithdrawals ∧
    ShortList (fun _ => True) params.inputUtxoTypes

/-- Every string, byte vector and list of the instruction has a length that fits 16 bits. -/
def ProgramInstruction.Short : ProgramInstruction → Prop
  | initProgramState params => params.Short
  | initTokenState params => ShortString params.tokenId
  | initWalletBalances params => ShortList TokenStateSetup.Short params.tokenStateSetups
  | batchDeposit params => ShortList TokenDeposits.Short params.tokenDeposits
  | prepareBatchWithdraw params => params.Short
  | prepareBatchSettlement params => ShortList SettlementAdjustments.Short params.settlements
  | submitBatchSettlement params => ShortList SettlementAdjustments.Short params.settlements
  | rollbackBatchSettlement => True
  | rollbackBatchWithdraw params => ShortList TokenWithdrawals.Short params.tokenWithdrawals
  | submitBatchWithdraw params => params.Short
  | updateWithdrawStateUtxo params => ShortString params.txId
  | initRuneReceiverState => True
  | setTokeRuneId params => ShortString params.runeId

theorem consumes_tokenStateSetup {setup : TokenStateSetup} (h : setup.Short) :
    Consumes TokenStateSetup.decode setup.encode setup :=
  (consumes_readU8 setup.accountIndex).bind ((consumes_readVec (fun _ => consumes_readString) h).last _)

theorem consumes_addressIndex (addressIndex : AddressIndex) :
    Consumes AddressIndex.decode addressIndex.encode addressIndex :=
  (consumes_readU32 addressIndex.index).bind ((consumes_readExact addressIndex.last4).last _)

theorem consumes_adjustment (adjustment : Adjustment) :
    Consumes Adjustment.decode adjustment.encode adjustment :=
  (consumes_addressIndex adjustment.addressIndex).bind ((consumes_readU64 adjustment.amount).last _)

theorem consumes_adjustments {adjustments : List Adjustment} (h : ShortList (fun _ => True) adjustments) :
    Consumes (readVec Adjustment.decode) (writeVec Adjustment.encode adjustments) adjustments :=
  consumes_readVec (fun adjustment _ => consumes_adjustment adjustment) h

theorem consumes_withdrawal (withdrawal : Withdrawal) :
    Consumes Withdrawal.decode withdrawal.encode withdrawal := by
  simp only [Withdrawal.encode, List.append_assoc]
  apply (consumes_addressIndex withdrawal.addressIndex).bind
  apply (consumes_readU64 withdrawal.amount).bind
  apply (consumes_readU8 withdrawal.feeAccountIndex).bind
  apply (consumes_addressIndex withdrawal.feeAddressIndex).bind
  exact (consumes_readU64 withdrawal.feeAmount).last _

theorem consumes_tokenDeposits {tokenDeposits : TokenDeposits} (h : tokenDeposits.Short) :
    Consumes TokenDeposits.decode tokenDeposits.encode tokenDeposits :=
  (consumes_readU8 tokenDeposits.accountIndex).bind ((consumes_adjustments h).last _)

theorem consumes_tokenWithdrawals {tokenWithdrawals : TokenWithdrawals} (h : tokenWithdrawals.Short) :
    Consumes TokenWithdrawals.decode tokenWithdrawals.encode tokenWithdrawals :=
  (consumes_readU8 tokenWithdrawals.accountIndex).bind
    ((consumes_readVec (fun withdrawal _ => consumes_withdrawal withdrawal) h).last _)

theorem consumes_settlementAdjustments {settlement : SettlementAdjustments} (h : settlement.Short) :
    Consumes SettlementAdjustments.decode settlement.encode settlement := by
  simp only [SettlementAdjustments.encode, List.append_assoc]
  apply (consumes_readU8 settlement.accountIndex).bind
  apply (consumes_adjustments h.1).bind
  apply (consumes_adjustments h.2).bind
  exact (consumes_readU64 settlement.feeAmount).last _

theorem consumes_initProgramStateParams {params : InitProgramStateParams} (h : params.Short) :
    Consumes InitProgramStateParams.decode params.encode params := by
  simp only [InitProgramStateParams.encode, List.append_assoc]
  apply (consumes_readString h.1).bind
  apply (consumes_readString h.2).bind
  have htype := (consumes_readU8 params.networkType.encode).map NetworkType.decode
  rw [NetworkType.decode_encode] at htype
  exact htype.last _

theorem consumes_tokenWithdrawalsList {tokenWithdrawals : List TokenWithdrawals}
    (h : ShortList TokenWithdrawals.Short tokenWithdrawals) :
    Consumes (readVec TokenWithdrawals.decode) (writeVec TokenWithdrawals.encode tokenWithdrawals)
      tokenWithdrawals :=
  consumes_readVec (fun _ => consumes_tokenWithdrawals) h

theorem consumes_inputUtxoType (inputUtxoType : InputUtxoType) :
    Consumes (InputUtxoType.decode <$> readU8) [inputUtxoType.encode] inputUtxoType :=
  consumes_decoded InputUtxoType.decode_encode inputUtxoType

theorem consumes_withdrawBatchParams {params : WithdrawBatchParams} (h : params.Short) :
    Consumes WithdrawBatchParams.decode params.encode params := by
  simp only [WithdrawBatchParams.encode, List.append_assoc]
  apply (consumes_readU16 h.1).bind
  apply (consumes_readUpTo params.txHex).bind
  apply (consumes_readU64 params.changeAmount).bind
  apply (consumes_tokenWithdrawalsList h.2.1).bind
  exact (consumes_readVec (fun inputUtxoType _ => consumes_inputUtxoType inputUtxoType) h.2.2).last _

theorem consumes_settlementBatchParams {params : SettlementBatchParams}
    (h : ShortList SettlementAdjustments.Short params.settlements) :
    Consumes SettlementBatchParams.decode params.encode params :=
  (consumes_readVec (fun _ => consumes_settlementAdjustments) h).last _

theorem consumes_updateWithdrawStateUtxoParams {params : UpdateWithdrawStateUtxoParams}
    (h : ShortString params.txId) : Consumes UpdateWithdrawStateUtxoParams.decode params.encode params :=
  (consumes_readString h).bind ((consumes_readU32 params.vout).last _)

/-! ### The lengths of what is read -/

theorem produces_readU16 : Produces readU16 fun val => val ≤ 65535 := by
  refine produces_true.bind fun block _ => produces_pure ?_
  have hlt := Bytes.toWord_lt block.1
  rw [block.2] at hlt
  omega

theorem produces_readUpTo (n : Nat) : Produces (readUpTo n) fun bytes => bytes.length ≤ n := by
  intro data bytes rest hread
  cases hread
  exact List.length_take_le _ _

section Lists

variable {α : Type} {item : Reader α} {Short : α → Prop}

theorem produces_readTimes (hitem : Produces item Short) (count : Nat) :
    Produces (readTimes item count) fun items => items.length = count ∧ ∀ value ∈ items, Short value := by
  induction count with
  | zero => exact produces_pure ⟨rfl, List.forall_mem_nil _⟩
  | succ count ih =>
      refine hitem.bind fun first hfirst => ih.bind fun rest hrest => produces_pure ?_
      exact ⟨congrArg Nat.succ hrest.1, List.forall_mem_cons.mpr ⟨hfirst, hrest.2⟩⟩

theorem produces_readVec (hitem : Produces item Short) : Produces (readVec item) (ShortList Short) :=
  produces_readU16.bind fun count hcount =>
    (produces_readTimes hitem count).imp fun _ hitems => ⟨hitems.1.trans_le hcount, hitems.2⟩

end Lists

theorem produces_tokenWithdrawals : Produces TokenWithdrawals.decode TokenWithdrawals.Short :=
  produces_true.bind fun _ _ => (produces_readVec produces_true).bind fun _ hwithdrawals => produces_pure hwithdrawals

/-- A batch that is read fits its 16-bit lengths. -/
theorem produces_withdrawBatchParams : Produces WithdrawBatchParams.decode WithdrawBatchParams.Short := by
  refine produces_readU16.bind fun txHexSize hsize => (produces_readUpTo txHexSize).bind fun txHex htxHex => ?_
  refine produces_true.bind fun changeAmount _ => ?_
  refine (produces_readVec produces_tokenWithdrawals).bind fun tokenWithdrawals htokenWithdrawals => ?_
  refine (produces_readVec produces_true).bind fun inputUtxoTypes htypes => produces_pure ?_
  exact ⟨htxHex.trans hsize, htokenWithdrawals, htypes⟩

/-! ### Instructions -/

/-- After its tag, an instruction consumes the encoding of its parameters. -/
theorem consumes_decodeParams {instruction : ProgramInstruction} (h : instruction.Short) :
    Consumes (ProgramInstruction.decodeParams instruction.encodeParts.1) instruction.encodeParts.2
      instruction := by
  cases instruction with
  | initProgramState params => exact (consumes_initProgramStateParams h).map _
  | initTokenState params => exact ((consumes_readString h).last InitTokenStateParams.mk).map _
  | initWalletBalances params =>
      exact ((consumes_readVec (fun _ => consumes_tokenStateSetup) h).last InitWalletBalancesParams.mk).map _
  | batchDeposit params =>
      exact ((consumes_readVec (fun _ => consumes_tokenDeposits) h).last DepositBatchParams.mk).map _
  | prepareBatchWithdraw params => exact (consumes_withdrawBatchParams h).map _
  | prepareBatchSettlement params => exact (consumes_settlementBatchParams h).map _
  | submitBatchSettlement params => exact (consumes_settlementBatchParams h).map _
  | rollbackBatchSettlement => exact consumes_pure _
  | rollbackBatchWithdraw params =>
      exact ((consumes_tokenWithdrawalsList h).last RollbackWithdrawBatchParams.mk).map _
  | submitBatchWithdraw params => exact (consumes_withdrawBatchParams h).map _
  | updateWithdrawStateUtxo params => exact (consumes_updateWithdrawStateUtxoParams h).map _
  | initRuneReceiverState => exact consumes_pure _
  | setTokeRuneId params => exact ((consumes_readString h).last SetTokenRuneIdParams.mk).map _

/-- An instruction is read back from its encoding, whatever follows it, and what comes after its tag is the
encoding of its parameters. -/
theorem instruction_roundTrip (instruction : ProgramInstruction) (rest : Bytes) (h : instruction.Short) :
    decodeFromSlice ProgramInstruction.decode (instruction.encode ++ rest) = .ok instruction ∧
      ProgramInstruction.paramsRawData instruction.encode = instruction.encodeParts.2 := by
  have hconsumes : Consumes ProgramInstruction.decode instruction.encode instruction :=
    (consumes_readU8 instruction.encodeParts.1).bind (consumes_decodeParams h)
  exact ⟨hconsumes.run_fst rest, rfl⟩

/-- A withdrawal of one wallet of the token at account 2, and a rune and a bitcoin input. -/
def mixedWithdrawBatch : WithdrawBatchParams where
  txHex := [2, 0, 0, 0]
  changeAmount := 700
  tokenWithdrawals := [
    { accountIndex := 2
      withdrawals := [
        { addressIndex := { index := 1, last4 := ⟨[0x61, 0x62, 0x63, 0x64], rfl⟩ }
          amount := 5000
          feeAccountIndex := 2
          feeAddressIndex := { index := 0, last4 := ⟨[0x65, 0x66, 0x67, 0x68], rfl⟩ }
          feeAmount := 50 }] }]
  inputUtxoTypes := [.rune, .bitcoin]

theorem mixedWithdrawBatch_readsBack :
    decodeFromSlice ProgramInstruction.decode
        ((ProgramInstruction.prepareBatchWithdraw mixedWithdrawBatch).encode ++ [0xff]) =
      .ok (.prepareBatchWithdraw mixedWithdrawBatch) ∧
      ProgramInstruction.paramsRawData (ProgramInstruction.prepareBatchWithdraw mixedWithdrawBatch).encode =
        mixedWithdrawBatch.encode := by
  have hshort : mixedWithdrawBatch.Short := by
    simp [WithdrawBatchParams.Short, ShortList, TokenWithdrawals.Short, mixedWithdrawBatch]
  exact instruction_roundTrip (.prepareBatchWithdraw mixedWithdrawBatch) [0xff] hshort

end Chainring.Arch

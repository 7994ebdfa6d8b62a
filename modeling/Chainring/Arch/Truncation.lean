import Chainring.Arch.RoundTrip

/-! Instructions that are cut off. Every field is read whole or not at all, but for strings and byte vectors, which
are read up to the end of the data. A field that follows catches the cut, so an instruction is accepted cut off
only within the string that it ends with. -/

namespace Chainring.Arch

open Bytes (ofWord toWord ofWord_length)
open Codec (AcceptsCut RejectsCut rejectsCut_nil)

/-! ### Words, strings and lists -/

theorem rejectsCut_readExact {n : Nat} (block : FixedBytes n) : RejectsCut (readExact n) block.1 := by
  intro cut hbegins hstrict
  have hshort : (cut.take n).length ≠ n := by
    intro hlength
    have hle : block.1.length ≤ cut.length := by
      rw [block.2, ← hlength]
      exact List.length_take_le' n cut
    exact hstrict (hbegins.eq_of_length_le hle)
  exact .inr ⟨id, _, dif_neg hshort⟩

theorem rejectsCut_readU8 (val : UInt8) : RejectsCut readU8 [val] :=
  (rejectsCut_readExact (n := 1) ⟨[val], rfl⟩).last _

theorem rejectsCut_readU16 (val : Nat) : RejectsCut readU16 (ofWord 2 val) :=
  (rejectsCut_readExact (n := 2) ⟨ofWord 2 val, ofWord_length _ _⟩).last _

theorem rejectsCut_readU32 (val : Nat) : RejectsCut readU32 (ofWord 4 val) :=
  (rejectsCut_readExact (n := 4) ⟨ofWord 4 val, ofWord_length _ _⟩).last _

theorem rejectsCut_readU64 (val : Nat) : RejectsCut readU64 (ofWord 8 val) :=
  (rejectsCut_readExact (n := 8) ⟨ofWord 8 val, ofWord_length _ _⟩).last _

theorem readUpTo_cut {n : Nat} {bytes cut : Bytes} (hbegins : cut <+: bytes) (hlength : bytes.length ≤ n) :
    readUpTo n cut = .ok (cut, []) := by
  have hle : cut.length ≤ n := hbegins.length_le.trans hlength
  rw [readUpTo, List.take_of_length_le hle, List.drop_of_length_le hle]

/-- Byte vectors are accepted wherever they are cut. -/
theorem acceptsCut_readUpTo (bytes : Bytes) : AcceptsCut (readUpTo bytes.length) bytes fun _ => True :=
  fun cut hbegins _ => .inl ⟨trivial, cut, readUpTo_cut hbegins le_rfl⟩

/-- What is cut off is a part of the string that the encoding ends with, and a string is left of it. -/
def CutsLastString (last : Option Utf8String) (bytes cut : Bytes) : Prop :=
  ∃ str head kept, last = some str ∧ bytes = head ++ str.bytes ∧ cut = head ++ kept ∧ Bytes.validUtf8 kept = true

/-- The encoding ends with the string if there is one, and is accepted cut off only there. -/
structure CutOnlyWithin {α : Type} (reader : Reader α) (bytes : Bytes) (last : Option Utf8String) : Prop where
  ends : ∀ str, last = some str → str.bytes <:+ bytes
  accepts : AcceptsCut reader bytes (CutsLastString last bytes)

theorem not_cutsLastString_none {bytes cut : Bytes} : ¬CutsLastString none bytes cut := by
  rintro ⟨str, head, kept, hlast, -⟩
  cases hlast

theorem cutsLastString_append {last : Option Utf8String} {bytes bytes' cut : Bytes}
    (hends : ∀ str, last = some str → str.bytes <:+ bytes') :
    CutsLastString last (bytes ++ bytes') cut ↔ ∃ kept, cut = bytes ++ kept ∧ CutsLastString last bytes' kept := by
  constructor
  · rintro ⟨str, head, kept, hlast, hbytes, rfl, hvalid⟩
    obtain ⟨head', rfl⟩ := hends str hlast
    rw [← List.append_assoc] at hbytes
    obtain rfl : bytes ++ head' = head := List.append_cancel_right hbytes
    exact ⟨head' ++ kept, List.append_assoc .., str, head', kept, hlast, rfl, rfl, hvalid⟩
  · rintro ⟨-, rfl, str, head, kept, hlast, rfl, rfl, hvalid⟩
    exact ⟨str, bytes ++ head, kept, hlast, (List.append_assoc ..).symm, (List.append_assoc ..).symm, hvalid⟩

section CutOnlyWithin

variable {α β : Type} {reader : Reader α} {bytes bytes' : Bytes} {ending : Option Utf8String}

theorem RejectsCut.only (h : RejectsCut reader bytes) : CutOnlyWithin reader bytes none where
  ends := fun _ hlast => by cases hlast
  accepts := h.congr fun _ => iff_false_intro not_cutsLastString_none

theorem CutOnlyWithin.rejects (h : CutOnlyWithin reader bytes none) : RejectsCut reader bytes :=
  h.accepts.congr fun _ => (iff_false_intro not_cutsLastString_none).symm

theorem CutOnlyWithin.last (h : CutOnlyWithin reader bytes ending) (g : α → β) :
    CutOnlyWithin (reader >>= fun value => pure (g value)) bytes ending :=
  ⟨h.ends, h.accepts.last g⟩

/-- What follows is caught where the first reader accepts a cut of its own. -/
theorem CutOnlyWithin.bind {P : Bytes → Prop} {f : α → Reader β} {a : α} (hcut : AcceptsCut reader bytes P)
    (h : Codec.Consumes reader bytes a) (hstop : ∀ cut value, P cut → ∃ fault, f value [] = .error fault)
    (h' : CutOnlyWithin (f a) bytes' ending) : CutOnlyWithin (reader >>= f) (bytes ++ bytes') ending where
  ends := fun str hlast => (h'.ends str hlast).trans (List.suffix_append bytes bytes')
  accepts := (hcut.bind h hstop h'.accepts).congr fun _ => cutsLastString_append h'.ends

end CutOnlyWithin

theorem cutOnlyWithin_readString {v : Utf8String} (h : ShortString v) :
    CutOnlyWithin readString (writeString v) (some v) := by
  refine CutOnlyWithin.bind (rejectsCut_readU16 v.bytes.length) (consumes_readU16 h) (fun _ _ h => h.elim) ?_
  refine ⟨fun str hstr => by cases hstr; exact List.suffix_rfl, fun cut hbegins _ => ?_⟩
  have hbind : ∀ f : Bytes → Reader Utf8String, (readUpTo v.bytes.length >>= f) cut = f cut [] := by
    intro f
    show (readUpTo v.bytes.length cut >>= fun result => f result.1 result.2) = _
    rw [readUpTo_cut hbegins le_rfl]
    rfl
  have hcuts : CutsLastString (some v) v.bytes cut ↔ Bytes.validUtf8 cut = true := by
    constructor
    · rintro ⟨str, head, kept, hstr, hbytes, rfl, hvalid⟩
      cases hstr
      obtain rfl : head = [] := List.append_left_eq_self.mp hbytes.symm
      exact hvalid
    · exact fun hvalid => ⟨v, [], cut, rfl, rfl, rfl, hvalid⟩
  rw [hbind, hcuts]
  by_cases hvalid : Bytes.validUtf8 cut = true
  · left
    rw [Utf8String.fromUtf8, dif_pos hvalid]
    exact ⟨hvalid, ⟨cut, hvalid⟩, rfl⟩
  · right
    rw [Utf8String.fromUtf8, dif_neg hvalid]
    exact ⟨hvalid, .invalidUtf8, rfl⟩

section Lists

variable {α : Type} {item : Reader α} {encode : α → Bytes} {Short : α → Prop} {lastOf : α → Option Utf8String}

/-- A list is accepted cut off where its last item is. -/
theorem cutOnlyWithin_readTimes (hempty : ∃ fault, item [] = .error fault)
    (hitem : ∀ value, Short value → Codec.Consumes item (encode value) value)
    (hcut : ∀ value, Short value → CutOnlyWithin item (encode value) (lastOf value)) {items : List α}
    (hshort : ∀ value ∈ items, Short value) :
    CutOnlyWithin (readTimes item items.length) (items.flatMap encode) (items.getLast?.bind lastOf) := by
  induction items with
  | nil => exact RejectsCut.only rejectsCut_nil
  | cons first items ih =>
      obtain ⟨hfirst, hitems⟩ := List.forall_mem_cons.mp hshort
      cases items with
      | nil =>
          rw [List.flatMap_singleton]
          exact (hcut first hfirst).last fun first => [first]
      | cons second items =>
          rw [List.getLast?_cons_cons]
          refine CutOnlyWithin.bind (hcut first hfirst).accepts (hitem first hfirst) ?_ ((ih hitems).last _)
          intro _ value _
          obtain ⟨fault, hfault⟩ := hempty
          refine ⟨fault, ?_⟩
          show ((item [] >>= fun result => _) >>= fun result => _) = _
          rw [hfault]
          rfl

theorem cutOnlyWithin_readVec (hempty : ∃ fault, item [] = .error fault)
    (hitem : ∀ value, Short value → Codec.Consumes item (encode value) value)
    (hcut : ∀ value, Short value → CutOnlyWithin item (encode value) (lastOf value)) {items : List α}
    (h : ShortList Short items) :
    CutOnlyWithin (readVec item) (writeVec encode items) (items.getLast?.bind lastOf) :=
  CutOnlyWithin.bind (rejectsCut_readU16 items.length) (consumes_readU16 h.1) (fun _ _ h => h.elim)
    (cutOnlyWithin_readTimes hempty hitem hcut h.2)

theorem rejectsCut_readVec (hempty : ∃ fault, item [] = .error fault)
    (hitem : ∀ value, Short value → Codec.Consumes item (encode value) value)
    (hcut : ∀ value, Short value → RejectsCut item (encode value)) {items : List α} (h : ShortList Short items) :
    RejectsCut (readVec item) (writeVec encode items) := by
  have honly := cutOnlyWithin_readVec hempty hitem (fun value hvalue => RejectsCut.only (hcut value hvalue)) h
  rw [Option.bind_fun_none] at honly
  exact honly.rejects

end Lists

/-! ### Parameters -/

theorem rejectsCut_addressIndex (addressIndex : AddressIndex) :
    RejectsCut AddressIndex.decode addressIndex.encode :=
  (rejectsCut_readU32 addressIndex.index.toNat).bind_rejects (consumes_readU32 addressIndex.index)
    ((rejectsCut_readExact addressIndex.last4).last _)

theorem rejectsCut_adjustment (adjustment : Adjustment) : RejectsCut Adjustment.decode adjustment.encode :=
  (rejectsCut_addressIndex adjustment.addressIndex).bind_rejects (consumes_addressIndex adjustment.addressIndex)
    ((rejectsCut_readU64 adjustment.amount.toNat).last _)

theorem rejectsCut_adjustments {adjustments : List Adjustment} (h : ShortList (fun _ => True) adjustments) :
    RejectsCut (readVec Adjustment.decode) (writeVec Adjustment.encode adjustments) :=
  rejectsCut_readVec ⟨_, rfl⟩ (fun adjustment _ => consumes_adjustment adjustment)
    (fun adjustment _ => rejectsCut_adjustment adjustment) h

theorem rejectsCut_withdrawal (withdrawal : Withdrawal) : RejectsCut Withdrawal.decode withdrawal.encode := by
  simp only [Withdrawal.encode, List.append_assoc]
  apply (rejectsCut_addressIndex withdrawal.addressIndex).bind_rejects (consumes_addressIndex withdrawal.addressIndex)
  apply (rejectsCut_readU64 withdrawal.amount.toNat).bind_rejects (consumes_readU64 withdrawal.amount)
  apply (rejectsCut_readU8 withdrawal.feeAccountIndex).bind_rejects (consumes_readU8 withdrawal.feeAccountIndex)
  apply (rejectsCut_addressIndex withdrawal.feeAddressIndex).bind_rejects
    (consumes_addressIndex withdrawal.feeAddressIndex)
  exact (rejectsCut_readU64 withdrawal.feeAmount.toNat).last _

theorem rejectsCut_tokenDeposits {tokenDeposits : TokenDeposits} (h : tokenDeposits.Short) :
    RejectsCut TokenDeposits.decode tokenDeposits.encode :=
  (rejectsCut_readU8 tokenDeposits.accountIndex).bind_rejects (consumes_readU8 tokenDeposits.accountIndex)
    ((rejectsCut_adjustments h).last _)

theorem rejectsCut_tokenWithdrawals {tokenWithdrawals : TokenWithdrawals} (h : tokenWithdrawals.Short) :
    RejectsCut TokenWithdrawals.decode tokenWithdrawals.encode := by
  apply (rejectsCut_readU8 tokenWithdrawals.accountIndex).bind_rejects (consumes_readU8 tokenWithdrawals.accountIndex)
  have hwithdrawals := rejectsCut_readVec ⟨_, rfl⟩ (fun withdrawal _ => consumes_withdrawal withdrawal)
    (fun withdrawal _ => rejectsCut_withdrawal withdrawal) h
  exact hwithdrawals.last _

theorem rejectsCut_tokenWithdrawalsList {tokenWithdrawals : List TokenWithdrawals}
    (h : ShortList TokenWithdrawals.Short tokenWithdrawals) :
    RejectsCut (readVec TokenWithdrawals.decode) (writeVec TokenWithdrawals.encode tokenWithdrawals) :=
  rejectsCut_readVec ⟨_, rfl⟩ (fun _ => consumes_tokenWithdrawals) (fun _ => rejectsCut_tokenWithdrawals) h

theorem rejectsCut_settlementAdjustments {settlement : SettlementAdjustments} (h : settlement.Short) :
    RejectsCut SettlementAdjustments.decode settlement.encode := by
  simp only [SettlementAdjustments.encode, List.append_assoc]
  apply (rejectsCut_readU8 settlement.accountIndex).bind_rejects (consumes_readU8 settlement.accountIndex)
  apply (rejectsCut_adjustments h.1).bind_rejects (consumes_adjustments h.1)
  apply (rejectsCut_adjustments h.2).bind_rejects (consumes_adjustments h.2)
  exact (rejectsCut_readU64 settlement.feeAmount.toNat).last _

theorem rejectsCut_settlementBatchParams {params : SettlementBatchParams}
    (h : ShortList SettlementAdjustments.Short params.settlements) :
    RejectsCut SettlementBatchParams.decode params.encode := by
  have hsettlements := rejectsCut_readVec ⟨_, rfl⟩ (fun _ => consumes_settlementAdjustments)
    (fun _ => rejectsCut_settlementAdjustments) h
  exact hsettlements.last _

/-- The network type is missing wherever one of the addresses is cut. -/
theorem rejectsCut_initProgramStateParams {params : InitProgramStateParams} (h : params.Short) :
    RejectsCut InitProgramStateParams.decode params.encode := by
  simp only [InitProgramStateParams.encode, List.append_assoc]
  apply (cutOnlyWithin_readString h.1).accepts.bind_rejects (consumes_readString h.1) fun _ _ _ => ⟨_, rfl⟩
  apply (cutOnlyWithin_readString h.2).accepts.bind_rejects (consumes_readString h.2) fun _ _ _ => ⟨_, rfl⟩
  exact ((rejectsCut_readU8 params.networkType.encode).map NetworkType.decode).last _

/-- The change amount is missing wherever the transaction is cut. -/
theorem rejectsCut_withdrawBatchParams {params : WithdrawBatchParams} (h : params.Short) :
    RejectsCut WithdrawBatchParams.decode params.encode := by
  simp only [WithdrawBatchParams.encode, List.append_assoc]
  apply (rejectsCut_readU16 params.txHex.length).bind_rejects (consumes_readU16 h.1)
  apply (acceptsCut_readUpTo params.txHex).bind_rejects (consumes_readUpTo params.txHex) fun _ _ _ => ⟨_, rfl⟩
  apply (rejectsCut_readU64 params.changeAmount.toNat).bind_rejects (consumes_readU64 params.changeAmount)
  apply (rejectsCut_tokenWithdrawalsList h.2.1).bind_rejects (consumes_tokenWithdrawalsList h.2.1)
  have htypes := rejectsCut_readVec ⟨_, rfl⟩ (fun inputUtxoType _ => consumes_inputUtxoType inputUtxoType)
    (fun inputUtxoType _ => (rejectsCut_readU8 inputUtxoType.encode).map InputUtxoType.decode) h.2.2
  exact htypes.last _

/-- The output index is missing wherever the transaction id is cut. -/
theorem rejectsCut_updateWithdrawStateUtxoParams {params : UpdateWithdrawStateUtxoParams}
    (h : ShortString params.txId) : RejectsCut UpdateWithdrawStateUtxoParams.decode params.encode := by
  apply (cutOnlyWithin_readString h).accepts.bind_rejects (consumes_readString h) fun _ _ _ => ⟨_, rfl⟩
  exact (rejectsCut_readU32 params.vout.toNat).last _

/-! ### Instructions -/

theorem TokenStateSetup.cutOnlyWithin {setup : TokenStateSetup} (h : setup.Short) :
    CutOnlyWithin TokenStateSetup.decode setup.encode setup.walletAddresses.getLast? := by
  have haddresses := cutOnlyWithin_readVec ⟨_, rfl⟩ (fun _ => consumes_readString)
    (fun _ => cutOnlyWithin_readString) h
  rw [Option.bind_fun_some] at haddresses
  exact CutOnlyWithin.bind (rejectsCut_readU8 setup.accountIndex) (consumes_readU8 setup.accountIndex)
    (fun _ _ h => h.elim) (haddresses.last _)

namespace ProgramInstruction

/-- The string that an encoded instruction ends with. -/
def lastString : ProgramInstruction → Option Utf8String
  | initTokenState params => some params.tokenId
  | setTokeRuneId params => some params.runeId
  | initWalletBalances params =>
      params.tokenStateSetups.getLast?.bind fun setup => setup.walletAddresses.getLast?
  | _ => none

theorem cutOnlyWithin_decodeParams {instruction : ProgramInstruction} (h : instruction.Short) :
    CutOnlyWithin (decodeParams instruction.encodeParts.1) instruction.encodeParts.2 instruction.lastString := by
  cases instruction with
  | initProgramState params => exact RejectsCut.only ((rejectsCut_initProgramStateParams h).map _)
  | initTokenState params => exact ((cutOnlyWithin_readString h).last InitTokenStateParams.mk).last initTokenState
  | initWalletBalances params =>
      have hsetups := cutOnlyWithin_readVec ⟨_, rfl⟩ (fun _ => consumes_tokenStateSetup)
        (fun _ => TokenStateSetup.cutOnlyWithin) h
      exact (hsetups.last InitWalletBalancesParams.mk).last initWalletBalances
  | batchDeposit params =>
      have hdeposits := rejectsCut_readVec ⟨_, rfl⟩ (fun _ => consumes_tokenDeposits)
        (fun _ => rejectsCut_tokenDeposits) h
      exact RejectsCut.only ((hdeposits.last DepositBatchParams.mk).map batchDeposit)
  | prepareBatchWithdraw params => exact RejectsCut.only ((rejectsCut_withdrawBatchParams h).map _)
  | prepareBatchSettlement params => exact RejectsCut.only ((rejectsCut_settlementBatchParams h).map _)
  | submitBatchSettlement params => exact RejectsCut.only ((rejectsCut_settlementBatchParams h).map _)
  | rollbackBatchSettlement => exact RejectsCut.only rejectsCut_nil
  | rollbackBatchWithdraw params =>
      have hwithdrawals := (rejectsCut_tokenWithdrawalsList h).last RollbackWithdrawBatchParams.mk
      exact RejectsCut.only (hwithdrawals.map rollbackBatchWithdraw)
  | submitBatchWithdraw params => exact RejectsCut.only ((rejectsCut_withdrawBatchParams h).map _)
  | updateWithdrawStateUtxo params => exact RejectsCut.only ((rejectsCut_updateWithdrawStateUtxoParams h).map _)
  | initRuneReceiverState => exact RejectsCut.only rejectsCut_nil
  | setTokeRuneId params => exact ((cutOnlyWithin_readString h).last SetTokenRuneIdParams.mk).last setTokeRuneId

theorem cutOnlyWithin_decode {instruction : ProgramInstruction} (h : instruction.Short) :
    CutOnlyWithin decode instruction.encode instruction.lastString :=
  CutOnlyWithin.bind (rejectsCut_readU8 instruction.encodeParts.1) (consumes_readU8 instruction.encodeParts.1)
    (fun _ _ h => h.elim) (cutOnlyWithin_decodeParams h)

/-- A nonempty string at the end can be cut away whole. -/
theorem cutsLastString_of_ends {instruction : ProgramInstruction} (h : instruction.Short) {str : Utf8String}
    (hlast : instruction.lastString = some str) (hne : str.bytes ≠ []) :
    ∃ cut, cut <+: instruction.encode ∧ cut ≠ instruction.encode ∧
      CutsLastString instruction.lastString instruction.encode cut := by
  obtain ⟨head, hhead⟩ := (cutOnlyWithin_decode h).ends str hlast
  refine ⟨head, ⟨str.bytes, hhead⟩, ?_, str, head, [], hlast, hhead.symm, (List.append_nil head).symm, rfl⟩
  intro heq
  rw [← hhead] at heq
  exact hne (List.append_right_eq_self.mp heq.symm)

/-- An instruction that is cut off is rejected unless only a part of the string that it ends with is missing and
what is left of that is a string. So the instructions that are rejected wherever they are cut are those that end
with no string or with an empty one. -/
theorem cutInstruction_rejected_iff (instruction : ProgramInstruction) (h : instruction.Short) :
    (∀ cut, cut <+: instruction.encode → cut ≠ instruction.encode →
      ((∃ fault, decodeFromSlice decode cut = .error fault) ↔
        ¬CutsLastString instruction.lastString instruction.encode cut)) ∧
    ((∀ cut, cut <+: instruction.encode → cut ≠ instruction.encode →
      ∃ fault, decodeFromSlice decode cut = .error fault) ↔
        ∀ str, instruction.lastString = some str → str.bytes = []) := by
  have heach : ∀ cut, cut <+: instruction.encode → cut ≠ instruction.encode →
      ((∃ fault, decodeFromSlice decode cut = .error fault) ↔
        ¬CutsLastString instruction.lastString instruction.encode cut) :=
    fun cut hbegins hstrict => (cutOnlyWithin_decode h).accepts.error_iff hbegins hstrict
  refine ⟨heach, fun hall str hlast => ?_, fun hempty cut hbegins hstrict => ?_⟩
  · by_contra hne
    obtain ⟨cut, hbegins, hstrict, hcut⟩ := cutsLastString_of_ends h hlast hne
    exact (heach cut hbegins hstrict).mp (hall cut hbegins hstrict) hcut
  · refine (heach cut hbegins hstrict).mpr ?_
    rintro ⟨str, head, kept, hlast, hencode, rfl, -⟩
    rw [hempty str hlast, List.append_nil] at hencode
    rw [hencode] at hbegins
    have hlength := hbegins.length_le
    rw [List.length_append] at hlength
    have hkept : kept = [] := List.eq_nil_of_length_eq_zero (by omega)
    rw [hkept, List.append_nil, hencode] at hstrict
    exact hstrict rfl

/-- The token BTC is initialised. -/
def initBtc : ProgramInstruction := initTokenState { tokenId := ⟨[0x42, 0x54, 0x43], by decide⟩ }

theorem initBtc_rejected_iff :
    ShortString ⟨[0x42, 0x54, 0x43], by decide⟩ ∧
    (∀ cut, cut <+: initBtc.encode → cut ≠ initBtc.encode →
      ((∃ fault, decodeFromSlice decode cut = .error fault) ↔
        ¬CutsLastString initBtc.lastString initBtc.encode cut)) ∧
    ((∀ cut, cut <+: initBtc.encode → cut ≠ initBtc.encode →
      ∃ fault, decodeFromSlice decode cut = .error fault) ↔
        ∀ str, initBtc.lastString = some str → str.bytes = []) ∧
    ¬∀ cut, cut <+: initBtc.encode → cut ≠ initBtc.encode → ∃ fault, decodeFromSlice decode cut = .error fault := by
  have hshort : ShortString ⟨[0x42, 0x54, 0x43], by decide⟩ := by
    simp [ShortString]
  obtain ⟨heach, hall⟩ := cutInstruction_rejected_iff initBtc hshort
  refine ⟨hshort, heach, hall, fun hrejected => ?_⟩
  cases hall.mp hrejected ⟨[0x42, 0x54, 0x43], by decide⟩ rfl

/-- Cut off after its first letter, the token BTC is read as the token B. -/
theorem initBtc_cut_accepted :
    initBtc.Short ∧ initBtc.encode = [1, 3, 0, 0x42, 0x54, 0x43] ∧
    [1, 3, 0, 0x42] <+: initBtc.encode ∧ [1, 3, 0, 0x42] ≠ initBtc.encode ∧
    decodeFromSlice decode [1, 3, 0, 0x42] = .ok (initTokenState { tokenId := ⟨[0x42], by decide⟩ }) := by
  have hshort : initBtc.Short := by
    show [0x42, 0x54, 0x43].length ≤ 65535
    decide
  exact ⟨hshort, by decide, by decide, by decide, by decide +kernel⟩

end ProgramInstruction

end Chainring.Arch

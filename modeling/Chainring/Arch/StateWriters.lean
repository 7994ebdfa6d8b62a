import Chainring.Arch.Writers

/-! How the stored states and their parts are written, and for every type with an encoder by how much the count that
it returns is too small. Only an event is not counted in full: its encoder returns the length of the padding alone,
without that of the fields before it. -/

namespace Chainring.Arch

open Bytes (ofWord ofWord_length)
open Exec (Appends Counts CountsAllBut appends_foldlM counts_foldlM)
open WriteExt (writeU8 writeUsizeAsU16 writeU32 writeUsizeAsU32 writeU64 writePadding writePubkey writeHash
  counts_writeU8 counts_writeUsizeAsU16 counts_writeU32 counts_writeUsizeAsU32 counts_writeU64 counts_writePadding
  counts_writeStringWithPadding counts_writePubkey counts_writeHash)
open Codable (encode encodeToVec)

/-! ### States -/

instance : Codable AccountType where
  encode accountType := writeU8 accountType.encode

instance : Codable Balance where
  encode balance := do
    pure ((← WriteExt.writeStringWithPadding balance.address maxAddressSize) + (← writeU64 balance.balance))

def Event.writeFields : Event → Writer Nat
  | .failedSettlement accountIndex addressIndex requestedAmount balance errorCode => do
      pure ((← writeU8 0) + (← writeU8 accountIndex) + (← writeU32 addressIndex) + (← writeU64 requestedAmount) +
        (← writeU64 balance) + (← writeU32 errorCode))
  | .failedWithdrawal accountIndex addressIndex feeAccountIndex feeAddressIndex requestedAmount feeAmount balance
      balanceInFeeToken errorCode => do
      pure ((← writeU8 1) + (← writeU8 accountIndex) + (← writeU32 addressIndex) + (← writeU8 feeAccountIndex) +
        (← writeU32 feeAddressIndex) + (← writeU64 requestedAmount) + (← writeU64 feeAmount) + (← writeU64 balance) +
        (← writeU64 balanceInFeeToken) + (← writeU32 errorCode))

/-- What is returned is what the padding returns. -/
instance : Codable Event where
  encode event := do
    let bytesWritten ← event.writeFields
    if bytesWritten > eventSize then Exec.fail (.other "Event is too large")
    else writePadding (eventSize - bytesWritten)

instance : Codable TokenState where
  encode state := do
    let mut bytesWritten ← encode state.accountType
    bytesWritten := bytesWritten + (← writeU32 state.version)
    bytesWritten := bytesWritten + (← writePubkey state.programStateAccount)
    bytesWritten := bytesWritten + (← WriteExt.writeStringWithPadding state.tokenId maxTokenIdSize)
    bytesWritten := bytesWritten + (← writeUsizeAsU32 state.balances.length)
    writeItems encode state.balances bytesWritten

instance : Codable ProgramState where
  encode state := do
    let bytesWritten := (← encode state.accountType) + (← writeU32 state.version) +
      (← writePubkey state.withdrawAccount) +
      (← WriteExt.writeStringWithPadding state.feeAccountAddress maxAddressSize) +
      (← WriteExt.writeStringWithPadding state.programChangeAddress maxAddressSize) +
      (← encode state.networkType) + (← writeHash state.settlementBatchHash) +
      (← writeHash state.lastSettlementBatchHash) + (← writeUsizeAsU16 state.events.length)
    writeItems encode state.events bytesWritten

instance : Codable WithdrawState where
  encode state := do
    pure ((← encode state.accountType) + (← writeU32 state.version) + (← writePubkey state.programStateAccount) +
      (← writeHash state.batchHash))

instance : Codable RuneReceiverState where
  encode state := do
    pure ((← encode state.accountType) + (← writeU32 state.version) + (← writePubkey state.programStateAccount))

/-! ### What the states append -/

theorem counts_accountType (accountType : AccountType) : Counts True (encode accountType) [accountType.encode] :=
  counts_writeU8 accountType.encode

theorem counts_balance (balance : Balance) :
    Counts (balance.address.bytes.length ≤ maxAddressSize) (encode balance) balance.image := by
  apply Appends.counts
  · apply ((counts_writeStringWithPadding _ _).bind ((counts_writeU64 _).last _)).imp
    exact and_iff_left trivial
  · rfl
  · rw [Balance.image, List.length_append]

theorem counts_eventFields (event : Event) : Counts True event.writeFields event.fields := by
  cases event with
  | failedSettlement accountIndex addressIndex requestedAmount balance errorCode =>
      apply Appends.counts
      · apply (counts_writeU8 0).next
        apply (counts_writeU8 accountIndex).next
        apply (counts_writeU32 addressIndex).next
        apply (counts_writeU64 requestedAmount).next
        apply (counts_writeU64 balance).next
        exact (counts_writeU32 errorCode).last _
      · simp [Event.fields]
      · simp [Event.fields]
  | failedWithdrawal accountIndex addressIndex feeAccountIndex feeAddressIndex requestedAmount feeAmount balance
      balanceInFeeToken errorCode =>
      apply Appends.counts
      · apply (counts_writeU8 1).next
        apply (counts_writeU8 accountIndex).next
        apply (counts_writeU32 addressIndex).next
        apply (counts_writeU8 feeAccountIndex).next
        apply (counts_writeU32 feeAddressIndex).next
        apply (counts_writeU64 requestedAmount).next
        apply (counts_writeU64 feeAmount).next
        apply (counts_writeU64 balance).next
        apply (counts_writeU64 balanceInFeeToken).next
        exact (counts_writeU32 errorCode).last _
      · simp [Event.fields]
      · simp [Event.fields]

/-- The whole slot is written, and the padding returned. -/
theorem appends_event (event : Event) :
    Appends True (encode event) (eventSize - event.fields.length) event.image := by
  apply (counts_eventFields event).next
  rw [if_neg (Nat.not_lt.mpr event.fields_length_le)]
  have hpadding := counts_writePadding (eventSize - event.fields.length)
  rw [Counts, List.length_replicate] at hpadding
  exact hpadding

theorem counts_tokenState (state : TokenState) : Counts state.Fits (encode state) state.image := by
  apply Appends.counts
  · apply Appends.imp
    · apply (counts_accountType _).next
      apply (counts_writeU32 _).next
      apply (counts_writePubkey _).next
      apply (counts_writeStringWithPadding _ _).bind
      apply (counts_writeUsizeAsU32 _).next
      exact counts_foldlM counts_balance state.balances _
    · exact ⟨fun h => ⟨h.1, h.2⟩, fun h => ⟨h.tokenId, h.addresses⟩⟩
  · simp only [TokenState.image, List.append_assoc]
  · simp only [TokenState.image, List.length_append, Nat.add_assoc]

/-- The bytes of the fields of events. -/
def fieldBytes (events : List Event) : Nat := (events.map fun event => event.fields.length).sum

theorem sum_padding (events : List Event) :
    (events.map fun event => eventSize - event.fields.length).sum + fieldBytes events =
      (events.flatMap Event.image).length := by
  induction events with
  | nil => rfl
  | cons event events ih =>
      have hle := event.fields_length_le
      have hlength := event.image_length
      simp only [fieldBytes, List.map_cons, List.sum_cons, List.flatMap_cons, List.length_append] at ih ⊢
      omega

theorem fieldBytes_eq_zero_iff (events : List Event) : fieldBytes events = 0 ↔ events = [] := by
  cases events with
  | nil => exact iff_of_true rfl rfl
  | cons event events =>
      have hpos : 0 < event.fields.length := by
        cases event <;> simp [Event.fields]
      refine iff_of_false (fun hzero => ?_) (List.cons_ne_nil _ _)
      rw [fieldBytes, List.map_cons, List.sum_cons] at hzero
      omega

theorem ProgramState.fieldBytes_le (state : ProgramState) : fieldBytes state.events ≤ state.image.length := by
  have hpadding := sum_padding state.events
  simp only [image, List.length_append]
  omega

/-- All is counted but the fields of the events. -/
theorem appends_programState (state : ProgramState) :
    Appends state.Fits (encode state) (state.image.length - fieldBytes state.events) state.image := by
  apply Appends.congr
  · apply Appends.imp
    · apply (counts_accountType _).next
      apply (counts_writeU32 _).next
      apply (counts_writePubkey _).next
      apply (counts_writeStringWithPadding _ _).bind
      apply (counts_writeStringWithPadding _ _).bind
      apply (counts_networkType _).next
      apply (counts_writeHash _).next
      apply (counts_writeHash _).next
      apply (counts_writeUsizeAsU16 _).next
      exact appends_foldlM (fun event _ => appends_event event) _
    · exact ⟨fun h => ⟨h.1, h.2.1⟩, fun h => ⟨h.feeAccountAddress, h.programChangeAddress, fun _ _ => trivial⟩⟩
  · simp only [ProgramState.image, List.append_assoc]
  · have hpadding := sum_padding state.events
    simp only [ProgramState.image, List.length_append]
    omega

theorem counts_withdrawState (state : WithdrawState) : Counts True (encode state) state.encode := by
  apply Appends.counts
  · apply (counts_accountType _).next
    apply (counts_writeU32 _).next
    apply (counts_writePubkey _).next
    exact (counts_writeHash _).last _
  · simp only [WithdrawState.encode, List.append_assoc]
  · simp only [WithdrawState.encode, List.length_append]

theorem counts_runeReceiverState (state : RuneReceiverState) : Counts True (encode state) state.encode := by
  apply Appends.counts
  · apply (counts_accountType _).next
    apply (counts_writeU32 _).next
    exact (counts_writePubkey _).last _
  · simp only [RuneReceiverState.encode, List.append_assoc]
  · simp only [RuneReceiverState.encode, List.length_append]

/-! ### The encodings as vectors -/

theorem encodeToVec_programInstruction (instruction : ProgramInstruction) :
    encodeToVec instruction = .ok instruction.encode :=
  (encodeToVec_eq_ok (counts_programInstruction instruction)).mpr ⟨trivial, rfl⟩

theorem encodeToVec_event (event : Event) : encodeToVec event = .ok event.image :=
  (encodeToVec_eq_ok (appends_event event)).mpr ⟨trivial, rfl⟩

theorem encodeToVec_tokenState {state : TokenState} {bytes : Bytes} :
    encodeToVec state = .ok bytes ↔ state.encode = .ok bytes :=
  (encodeToVec_eq_ok (counts_tokenState state)).trans TokenState.encode_eq_ok.symm

theorem encodeToVec_programState {state : ProgramState} {bytes : Bytes} :
    encodeToVec state = .ok bytes ↔ state.encode = .ok bytes :=
  (encodeToVec_eq_ok (appends_programState state)).trans ProgramState.encode_eq_ok.symm

/-! ### All counts -/

/-- A value of any type with an encoder. -/
inductive CodableValue where
  | programInstruction (instruction : ProgramInstruction)
  | networkType (networkType : NetworkType)
  | inputUtxoType (inputUtxoType : InputUtxoType)
  | tokenStateSetup (setup : TokenStateSetup)
  | addressIndex (addressIndex : AddressIndex)
  | adjustment (adjustment : Adjustment)
  | withdrawal (withdrawal : Withdrawal)
  | tokenDeposits (tokenDeposits : TokenDeposits)
  | tokenWithdrawals (tokenWithdrawals : TokenWithdrawals)
  | settlementAdjustments (settlement : SettlementAdjustments)
  | initProgramStateParams (params : InitProgramStateParams)
  | initTokenStateParams (params : InitTokenStateParams)
  | setTokenRuneIdParams (params : SetTokenRuneIdParams)
  | initWalletBalancesParams (params : InitWalletBalancesParams)
  | depositBatchParams (params : DepositBatchParams)
  | withdrawBatchParams (params : WithdrawBatchParams)
  | updateWithdrawStateUtxoParams (params : UpdateWithdrawStateUtxoParams)
  | settlementBatchParams (params : SettlementBatchParams)
  | rollbackWithdrawBatchParams (params : RollbackWithdrawBatchParams)
  | balance (balance : Balance)
  | event (event : Event)
  | tokenState (state : TokenState)
  | programState (state : ProgramState)
  | withdrawState (state : WithdrawState)
  | runeReceiverState (state : RuneReceiverState)
  | accountType (accountType : AccountType)

namespace CodableValue

def encode : CodableValue → Writer Nat
  | .programInstruction value => Codable.encode value
  | .networkType value => Codable.encode value
  | .inputUtxoType value => Codable.encode value
  | .tokenStateSetup value => Codable.encode value
  | .addressIndex value => Codable.encode value
  | .adjustment value => Codable.encode value
  | .withdrawal value => Codable.encode value
  | .tokenDeposits value => Codable.encode value
  | .tokenWithdrawals value => Codable.encode value
  | .settlementAdjustments value => Codable.encode value
  | .initProgramStateParams value => Codable.encode value
  | .initTokenStateParams value => Codable.encode value
  | .setTokenRuneIdParams value => Codable.encode value
  | .initWalletBalancesParams value => Codable.encode value
  | .depositBatchParams value => Codable.encode value
  | .withdrawBatchParams value => Codable.encode value
  | .updateWithdrawStateUtxoParams value => Codable.encode value
  | .settlementBatchParams value => Codable.encode value
  | .rollbackWithdrawBatchParams value => Codable.encode value
  | .balance value => Codable.encode value
  | .event value => Codable.encode value
  | .tokenState value => Codable.encode value
  | .programState value => Codable.encode value
  | .withdrawState value => Codable.encode value
  | .runeReceiverState value => Codable.encode value
  | .accountType value => Codable.encode value

/-- The events that are encoded with the value. -/
def events : CodableValue → List Event
  | .event value => [value]
  | .programState value => value.events
  | _ => []

theorem countsAllBut (value : CodableValue) : CountsAllBut (fieldBytes value.events) value.encode := by
  cases value with
  | programInstruction value => exact (counts_programInstruction value).countsAll
  | networkType value => exact (counts_networkType value).countsAll
  | inputUtxoType value => exact (counts_inputUtxoType value).countsAll
  | tokenStateSetup value => exact (counts_tokenStateSetup value).countsAll
  | addressIndex value => exact (counts_addressIndex value).countsAll
  | adjustment value => exact (counts_adjustment value).countsAll
  | withdrawal value => exact (counts_withdrawal value).countsAll
  | tokenDeposits value => exact (counts_tokenDeposits value).countsAll
  | tokenWithdrawals value => exact (counts_tokenWithdrawals value).countsAll
  | settlementAdjustments value => exact (counts_settlementAdjustments value).countsAll
  | initProgramStateParams value => exact (counts_initProgramStateParams value).countsAll
  | initTokenStateParams value => exact (counts_initTokenStateParams value).countsAll
  | setTokenRuneIdParams value => exact (counts_setTokenRuneIdParams value).countsAll
  | initWalletBalancesParams value => exact (counts_initWalletBalancesParams value).countsAll
  | depositBatchParams value => exact (counts_depositBatchParams value).countsAll
  | withdrawBatchParams value => exact (counts_withdrawBatchParams value).countsAll
  | updateWithdrawStateUtxoParams value => exact (counts_updateWithdrawStateUtxoParams value).countsAll
  | settlementBatchParams value => exact (counts_settlementBatchParams value).countsAll
  | rollbackWithdrawBatchParams value => exact (counts_rollbackWithdrawBatchParams value).countsAll
  | balance value => exact (counts_balance value).countsAll
  | event value =>
      apply (appends_event value).countsAllBut
      intro _
      rw [value.image_length]
      exact Nat.sub_add_cancel value.fields_length_le
  | tokenState value => exact (counts_tokenState value).countsAll
  | programState value =>
      apply (appends_programState value).countsAllBut
      intro _
      exact Nat.sub_add_cancel value.fieldBytes_le
  | withdrawState value => exact (counts_withdrawState value).countsAll
  | runeReceiverState value => exact (counts_runeReceiverState value).countsAll
  | accountType value => exact (counts_accountType value).countsAll

/-- Whatever was written before, an encoder that succeeds returns how many bytes it appended exactly when no event is
encoded with the value. -/
theorem count_eq_length_iff (value : CodableValue) {data data' : Bytes} {count : Nat}
    (h : value.encode.run data = .ok count data') :
    (∃ appended, data' = data ++ appended ∧ count = appended.length) ↔ value.events = [] :=
  (value.countsAllBut.exact_iff h).trans (fieldBytes_eq_zero_iff value.events)

theorem seventhIndex_counted :
    (CodableValue.addressIndex ⟨7, ⟨[1, 2, 3, 4], rfl⟩⟩).encode.run [0xff] = .ok 8 [0xff, 7, 0, 0, 0, 1, 2, 3, 4] ∧
      ((∃ appended, ([0xff, 7, 0, 0, 0, 1, 2, 3, 4] : Bytes) = [0xff] ++ appended ∧ 8 = appended.length) ↔
        (CodableValue.addressIndex ⟨7, ⟨[1, 2, 3, 4], rfl⟩⟩).events = []) :=
  ⟨rfl, count_eq_length_iff _ rfl⟩

/-- The report on a trade of five units whose seller holds three. -/
def unpaidTrade : Event := .failedSettlement 1 7 5 3 errorInsufficientBalance

/-- Of the 64 bytes of the report only the 38 of its padding are counted. -/
theorem unpaidTrade_miscounted :
    (CodableValue.event unpaidTrade).encode.run [] = .ok 38 unpaidTrade.image ∧ unpaidTrade.image.length = 64 ∧
      ¬∀ (value : CodableValue) (data data' : Bytes) (count : Nat), value.encode.run data = .ok count data' →
        ∃ appended, data' = data ++ appended ∧ count = appended.length := by
  have hrun : (CodableValue.event unpaidTrade).encode.run [] = .ok 38 unpaidTrade.image := rfl
  have hlength : unpaidTrade.image.length = 64 := unpaidTrade.image_length
  refine ⟨hrun, hlength, fun hall => ?_⟩
  obtain ⟨appended, happended, hcount⟩ := hall _ _ _ _ hrun
  rw [List.nil_append] at happended
  rw [← happended, hlength] at hcount
  cases hcount

end CodableValue

end Chainring.Arch

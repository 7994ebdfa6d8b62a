import Chainring.Arch.EventLog
import Chainring.Arch.TokenRegistry
import Chainring.Arch.WithdrawalBatch

/-! Program accounts as the off-chain side sees them. A program account of a run always decodes, with no more events
than there are slots, and only the hashes and the events of what it decodes to ever change. -/

namespace Chainring.Arch

open Bytes (slice slice_isSome slice_congr slice_of_eq slice_mono toWord toWord_ofWord ofWord ofWord_length resize
  resize_length resize_getElem?)
open CheckedWord (bind_eq_ok)
open Codec (Finds finds_pure)
open Exec (Keeps keeps_pure keeps_ensure keeps_forM keeps_foldlM keeps_when when_eq_ok ensure_bind_eq_ok)

/-! ### What a program account holds -/

/-- Room for all events, a change address, and a log in the slots that its count covers. -/
structure Recorded (data : Bytes) : Prop where
  room : runeReceiverOffset ≤ data.length
  changeAddress : HoldsAddress programChangeAddressOffset data
  log : ∃ log : List Event, log.length ≤ maxEvents ∧ EventsAt log data

/-- The bytes of the change address and of the events. -/
def RecordBytes (o : Nat) : Prop := Within 129 221 o ∨ Within 286 6688 o

section Data

variable {data data' : Bytes} {put : Bytes → Except Fault Bytes} {region : Nat → Prop}

theorem EventsAt.of_slots {log : List Event} (h : EventsAt log data) (hlength : log.length ≤ maxEvents)
    (hsame : ∀ o, Within 286 6688 o → data'[o]? = data[o]?) : EventsAt log data' where
  count := by
    rw [← h.count, ProgramState.getEventsCount, ProgramState.getEventsCount, readBlock_congr fun o ho => ?_]
    exact hsame o ⟨ho.1, Nat.lt_of_lt_of_le ho.2 (by decide)⟩
  slots := fun i event hevent => by
    have hi : i < log.length := (List.getElem?_eq_some_iff.mp hevent).1
    have hbound : log.length ≤ 100 := hlength
    rw [← h.slots i event hevent]
    apply slice_congr
    intro o hlow hhigh
    have hlow : 288 + i * 64 ≤ o := hlow
    have hhigh : o < 288 + i * 64 + 64 := hhigh
    exact hsame o ⟨by omega, by omega⟩

theorem Recorded.congr (h : Recorded data) (hle : data.length ≤ data'.length)
    (hsame : ∀ o, RecordBytes o → data'[o]? = data[o]?) : Recorded data' where
  room := Nat.le_trans h.room hle
  changeAddress := h.changeAddress.congr fun o ho => hsame o (Or.inl ho)
  log := by
    obtain ⟨log, hlength, hevents⟩ := h.log
    exact ⟨log, hlength, hevents.of_slots hlength fun o ho => hsame o (Or.inr ho)⟩

theorem Recorded.clearEvents (h : Recorded data) (hput : ProgramState.clearEvents data = .ok data') :
    Recorded data' where
  room := (writes_clearEvents data data' hput).1 ▸ h.room
  changeAddress := h.changeAddress.congr fun o ho =>
    (writes_clearEvents data data' hput).2 o fun hin => absurd (Nat.lt_of_le_of_lt hin.1 ho.2) (by decide)
  log := ⟨[], Nat.zero_le _, eventsAt_clearEvents hput⟩

/-- An event that is emitted goes after the log, where there is room for it. -/
theorem Recorded.emitEvent (h : Recorded data) {event : Event}
    (hput : ProgramState.emitEvent event data = .ok data') : Recorded data' := by
  obtain ⟨log, hlength, hevents⟩ := h.log
  rcases Nat.lt_or_eq_of_le hlength with hlt | hfull
  · obtain ⟨appended, happend, hlog⟩ := emitEvent_of_room event hevents hlt h.room
    obtain rfl := Except.ok.inj (happend.symm.trans hput)
    refine ⟨(writes_emitEvent event data _ hput).1 ▸ h.room, h.changeAddress.congr fun o ho => ?_, _, ?_, hlog⟩
    · exact (writes_emitEvent event data _ hput).2 o fun (hin : 286 ≤ o) =>
        absurd (Nat.lt_of_le_of_lt hin ho.2) (by decide)
    · rw [List.length_append]
      exact hlt
  · rw [emitEvent_of_full event hevents hfull] at hput
    cases hput

end Data

/-! ### Decoding -/

/-- The state has the fields that the accessors read in the data. -/
structure ProgramState.Mirrors (state : ProgramState) (data : Bytes) : Prop where
  bound : Bound .program state.withdrawAccount data
  accountType : state.accountType = .program
  feeAccountAddress : ProgramState.getFeeAccountAddress data = .ok state.feeAccountAddress
  programChangeAddress : ProgramState.getProgramChangeAddress data = .ok state.programChangeAddress
  networkType : ProgramState.getNetworkType data = .ok state.networkType
  settlementBatchHash : ProgramState.getSettlementHash data = .ok state.settlementBatchHash
  events : storedEvents data = .ok state.events
  eventsBounded : state.events.length ≤ maxEvents

def ProgramState.DecodedFrom (state : ProgramState) (data : Bytes) : Prop :=
  decodeFromSlice ProgramState.decode data = .ok state ∧ state.Mirrors data

section Decoding

variable {data : Bytes} {o : Nat}

theorem finds_event {event : Event} (h : slice data o eventSize = some event.image) :
    Finds Event.decode data o event (o + eventSize) := by
  have hfields : decodeFromSlice Event.decodeFields event.image = .ok event :=
    (consumes_eventFields event).run_fst _
  refine (finds_readUpTo h).bind ?_
  rw [hfields]
  exact finds_pure data (o + eventSize) event

theorem finds_networkType {networkType : NetworkType} (h : ProgramState.getNetworkType data = .ok networkType) :
    Finds (NetworkType.decode <$> readU8) data networkTypeOffset networkType settlementHashOffset := by
  obtain ⟨block, hblock, hdecode⟩ := bind_eq_ok.mp h
  obtain rfl := Except.ok.inj hdecode
  exact (finds_word (g := UInt8.ofNat) (readArray_eq_ok.mp hblock)).map NetworkType.decode

/-- Data with the fields of a program account decodes, to the state that the accessors read. -/
theorem decodes_of_recorded {withdraw : Pubkey} (hbound : Bound .program withdraw data)
    (hfee : HoldsAddress feeAccountOffset data) (h : Recorded data) :
    ∃ state : ProgramState, state.DecodedFrom data := by
  have hroom : 6688 ≤ data.length := h.room
  have hfixed : ∀ offset len, offset + len ≤ 6688 → ∃ block : FixedBytes len, slice data offset len = some block.1 := by
    intro offset len hle
    obtain ⟨block, hblock⟩ := slice_isSome (Nat.le_trans hle hroom)
    exact ⟨⟨block, (Bytes.slice_eq_some.mp hblock).1⟩, hblock⟩
  obtain ⟨version, hversion⟩ := hfixed 1 4 (by decide)
  obtain ⟨network, hnetwork⟩ := hfixed networkTypeOffset 1 (by decide)
  obtain ⟨settlementHash, hsettlement⟩ := hfixed settlementHashOffset 32 (by decide)
  obtain ⟨lastSettlementHash, hlast⟩ := hfixed lastSettlementHashOffset 32 (by decide)
  obtain ⟨feeAddress, hfeeAddress, -⟩ := hfee
  obtain ⟨changeAddress, hchangeAddress, -⟩ := h.changeAddress
  obtain ⟨log, hlength, hevents⟩ := h.log
  have hnetworkType : ProgramState.getNetworkType data =
      .ok (NetworkType.decode (UInt8.ofNat (toWord network.1))) :=
    bind_eq_ok.mpr ⟨network, readArray_eq_ok.mpr hnetwork, rfl⟩
  have hlog : Finds (readTimes Event.decode log.length) data eventsOffset log
      (eventsOffset + log.length * eventSize) :=
    finds_readTimes log fun i event hevent => finds_event (hevents.slots i event hevent)
  have hcount : Finds readU16 data eventsSizeOffset log.length eventsOffset := by
    obtain ⟨block, hblock, hword⟩ := bind_eq_ok.mp hevents.count
    have hread := finds_word (g := id) (readBlock_eq_ok.mp hblock)
    rw [show id (toWord block) = log.length from Except.ok.inj hword] at hread
    exact hread
  refine ⟨⟨.program, UInt32.ofNat (toWord version.1), withdraw, feeAddress, changeAddress,
    NetworkType.decode (UInt8.ofNat (toWord network.1)), settlementHash, lastSettlementHash, log⟩, ?_, ?_⟩
  · have hstate : Finds ProgramState.decode data 0
        ⟨.program, UInt32.ofNat (toWord version.1), withdraw, feeAddress, changeAddress,
          NetworkType.decode (UInt8.ofNat (toWord network.1)), settlementHash, lastSettlementHash, log⟩
        (eventsOffset + log.length * eventSize) := by
      apply (finds_accountType hbound.1).bind
      apply (finds_word hversion : Finds readU32 data 1 _ 5).bind
      apply (finds_readExact (relatedAccountKey_eq_ok hbound.2)).bind
      apply (finds_readStringWithPadding hfeeAddress).bind
      apply (finds_readStringWithPadding hchangeAddress).bind
      apply (finds_networkType hnetworkType).bind
      apply (finds_readExact hsettlement).bind
      apply (finds_readExact hlast).bind
      apply hcount.bind
      exact hlog.last _
    exact hstate.run_fst
  · exact
      { bound := hbound
        accountType := rfl
        feeAccountAddress := hfeeAddress.parse
        programChangeAddress := hchangeAddress.parse
        networkType := hnetworkType
        settlementBatchHash := readArray_eq_ok.mpr hsettlement
        events := hevents.storedEvents
        eventsBounded := hlength }

end Decoding

/-! ### Calls that set up accounts -/

def AllRecorded (m : Memory) : Prop := ∀ key, getType (m key).data = .ok .program → Recorded (m key).data

section Initialisation

variable {rt : Runtime} {accounts : List AccountInfo} {m m' : Memory} {u : Unit}

theorem AllRecorded.setData (hm : AllRecorded m) {key : Pubkey} {data : Bytes}
    (hdata : getType data = .ok .program → Recorded data) : AllRecorded (m.setData key data) := by
  intro key'
  rw [Memory.setData_data]
  split
  · exact hdata
  · exact hm key'

theorem AllRecorded.write (hm : AllRecorded m) {account : AccountInfo} {put : Bytes → Except Fault Bytes}
    (h : (account.write put).run m = .ok u m')
    (hput : ∀ data, put (m account.key).data = .ok data → getType data = .ok .program → Recorded data) :
    AllRecorded m' := by
  obtain ⟨data, hdata, rfl⟩ := write_eq_ok.mp h
  exact hm.setData (hput data hdata)

/-- A write past the type and away from the record. -/
theorem AllRecorded.writeAway (hm : AllRecorded m) {account : AccountInfo} {put : Bytes → Except Fault Bytes}
    {region : Nat → Prop} (h : (account.write put).run m = .ok u m') (hw : Writes put region)
    (hregion : ∀ o, region o → 1 ≤ o ∧ ¬RecordBytes o) : AllRecorded m' := by
  refine hm.write h fun data hdata htype => ?_
  rw [getType_of_writes hw (fun o ho => (hregion o ho).1) hdata] at htype
  exact (hm account.key htype).congr (hw _ _ hdata).1.ge fun o ho =>
    (hw _ _ hdata).2 o fun hin => (hregion o hin).2 ho

theorem AllRecorded.writeType (hm : AllRecorded m) {account : AccountInfo} {accountType : AccountType}
    (hne : accountType ≠ .program) (h : (account.write (setType accountType)).run m = .ok u m') : AllRecorded m' :=
  hm.write h fun _ hdata htype => absurd (Except.ok.inj ((getType_setType hdata).symm.trans htype)) hne

theorem AllRecorded.writeKey (hm : AllRecorded m) {account : AccountInfo} {put : Bytes → Except Fault Bytes}
    (hw : Writes put (Within 5 37)) (h : (account.write put).run m = .ok u m') : AllRecorded m' := by
  refine hm.writeAway h hw fun o ho => ⟨Nat.le_trans (by decide) ho.1, fun hrecord => ?_⟩
  have hhigh := ho.2
  rcases hrecord with hin | hin
  · have hlow := hin.1
    omega
  · have hlow := hin.1
    omega

/-- An empty account grows to zeros, which are of no type. -/
theorem AllRecorded.reallocEmpty (hm : AllRecorded m) {account : AccountInfo} {newLen : Nat}
    (hempty : (m account.key).data = []) (h : (account.realloc newLen).run m = .ok u m') : AllRecorded m' := by
  intro key
  rw [realloc_data h]
  split
  · rw [hempty]
    intro htype
    cases newLen with
    | zero => cases htype
    | succ len => cases htype
  · exact hm key

theorem AllRecorded.addReceiver {program : AccountInfo} {pubkey : Pubkey} (hm : AllRecorded m)
    (hlength : (m program.key).data.length = runeReceiverOffset)
    (h : (do
      program.realloc (runeReceiverOffset + pubkeySize)
      program.write (ProgramState.setRuneReceiver pubkey)).run m = .ok u m') : AllRecorded m' := by
  obtain ⟨_, extended, hextend, hset⟩ := Exec.bind_eq_ok.mp h
  have hlonger : (m program.key).data.length ≤ runeReceiverOffset + pubkeySize := by
    rw [hlength]
    exact Nat.le_add_right _ _
  have hextended : AllRecorded extended := by
    intro key
    rw [realloc_data hextend]
    split
    · intro htype
      have hsame : ∀ o < runeReceiverOffset, (resize (m program.key).data (runeReceiverOffset + pubkeySize))[o]? =
          (m program.key).data[o]? := fun o ho => resize_getElem? hlonger (by rw [hlength]; exact ho)
      rw [getType_congr fun o ho => hsame o (Nat.lt_trans ho (by decide))] at htype
      refine (hm program.key htype).congr (by rw [resize_length]; exact hlonger) fun o ho => hsame o ?_
      rcases ho with hin | hin
      · exact Nat.lt_trans hin.2 (by decide)
      · exact hin.2
    · exact hm key
  refine hextended.writeAway hset (writes_setRuneReceiver pubkey) fun o (ho : 6688 ≤ o) => ⟨by omega, ?_⟩
  rintro (hin | hin)
  · have hhigh := hin.2
    omega
  · have hhigh := hin.2
    omega

theorem allRecorded_runeReceiverInitialise {accountIndex : Nat} (hm : AllRecorded m)
    (h : (RuneReceiverState.initialise accounts accountIndex).run m = .ok u m') : AllRecorded m' := by
  obtain ⟨first, -, h⟩ := accountAt_bind_eq_ok.mp h
  obtain ⟨isEmpty, hisEmpty, h⟩ := read_bind_eq_ok.mp h
  obtain rfl := Except.ok.inj hisEmpty
  rcases when_eq_ok.mp h with ⟨hempty, h⟩ | ⟨-, rfl⟩
  · rw [List.isEmpty_iff] at hempty
    obtain ⟨_, grown, hgrow, h⟩ := Exec.bind_eq_ok.mp h
    have hgrown := hm.reallocEmpty hempty hgrow
    obtain ⟨account, -, h⟩ := accountAt_bind_eq_ok.mp h
    obtain ⟨_, typed, htype, h⟩ := Exec.bind_eq_ok.mp h
    have htyped := hgrown.writeType (by decide) htype
    obtain ⟨program, -, h⟩ := accountAt_bind_eq_ok.mp h
    obtain ⟨_, keyed, hkey, h⟩ := Exec.bind_eq_ok.mp h
    have hkeyed := htyped.writeKey (writes_setProgramAccount _) hkey
    obtain ⟨programLen, hlen, h⟩ := read_bind_eq_ok.mp h
    obtain rfl := Except.ok.inj hlen
    rcases when_eq_ok.mp h with ⟨hlength, h⟩ | ⟨-, rfl⟩
    · exact hkeyed.addReceiver hlength h
    · exact hkeyed
  · exact hm

theorem allRecorded_withdrawInitialise (hm : AllRecorded m)
    (h : (WithdrawState.initialise accounts).run m = .ok u m') : AllRecorded m' := by
  obtain ⟨withdraw, -, h⟩ := accountAt_bind_eq_ok.mp h
  obtain ⟨isEmpty, hisEmpty, h⟩ := read_bind_eq_ok.mp h
  obtain rfl := Except.ok.inj hisEmpty
  rcases when_eq_ok.mp h with ⟨hempty, h⟩ | ⟨-, rfl⟩
  · rw [List.isEmpty_iff] at hempty
    obtain ⟨_, grown, hgrow, h⟩ := Exec.bind_eq_ok.mp h
    have hgrown := hm.reallocEmpty hempty hgrow
    obtain ⟨_, typed, htype, h⟩ := Exec.bind_eq_ok.mp h
    obtain ⟨program, -, h⟩ := accountAt_bind_eq_ok.mp h
    exact (hgrown.writeType (by decide) htype).writeKey (writes_setProgramAccount _) h
  · exact hm

/-- The data that a state without events is written to. -/
theorem recorded_of_image {state : ProgramState} (hfits : state.Fits) (hevents : state.events = [])
    (hchange : AddressLike state.programChangeAddress) {data : Bytes} (hroom : runeReceiverOffset ≤ data.length)
    (hdata : ∀ o < eventsOffset, data[o]? = state.image[o]?) : Recorded data := by
  have hfield : ∀ offset len, offset + len ≤ eventsOffset → slice data offset len = slice state.image offset len :=
    fun offset len hle => slice_congr fun o _ hhigh => hdata o (Nat.lt_of_lt_of_le hhigh hle)
  have haddress : slice state.image programChangeAddressOffset maxAddressSize =
      some (withPadding state.programChangeAddress maxAddressSize) := by
    refine slice_of_eq ([state.accountType.encode] ++ ofWord 4 state.version.toNat ++ state.withdrawAccount.1 ++
      withPadding state.feeAccountAddress maxAddressSize) _ ([state.networkType.encode] ++
      state.settlementBatchHash.1 ++ state.lastSettlementBatchHash.1 ++ ofWord 2 state.events.length ++
      state.events.flatMap Event.image) ?_ ?_ (withPadding_length hfits.programChangeAddress)
    · simp only [ProgramState.image, List.append_assoc]
    · simp only [List.length_append, List.length_singleton, ofWord_length, state.withdrawAccount.2,
        withPadding_length hfits.feeAccountAddress]
      rfl
  have hcount : slice state.image eventsSizeOffset 2 = some (ofWord 2 0) := by
    refine slice_of_eq ([state.accountType.encode] ++ ofWord 4 state.version.toNat ++ state.withdrawAccount.1 ++
      withPadding state.feeAccountAddress maxAddressSize ++ withPadding state.programChangeAddress maxAddressSize ++
      [state.networkType.encode] ++ state.settlementBatchHash.1 ++ state.lastSettlementBatchHash.1) _ [] ?_ ?_
      (ofWord_length 2 0)
    · simp only [ProgramState.image, hevents, List.length_nil, List.flatMap_nil]
    · simp only [List.length_append, List.length_singleton, ofWord_length, state.withdrawAccount.2,
        withPadding_length hfits.feeAccountAddress, withPadding_length hfits.programChangeAddress,
        state.settlementBatchHash.2, state.lastSettlementBatchHash.2]
      rfl
  refine ⟨hroom, ?_, [], Nat.zero_le _, ?_, fun _ _ hevent => absurd hevent (Option.some_ne_none _).symm⟩
  · apply holdsAddress_of_padded _ (Nat.lt_succ_of_le hchange.short) hchange.nulFree hchange.long
    exact (hfield _ _ (by decide)).trans haddress
  · refine bind_eq_ok.mpr ⟨_, readBlock_eq_ok.mpr ((hfield _ _ (by decide)).trans hcount), ?_⟩
    exact congrArg Except.ok (toWord_ofWord 2 0)

theorem initStateData_length {account : AccountInfo} {newData : Bytes} {additionalBytes : Nat}
    (h : (initStateData account newData additionalBytes).run m = .ok u m') :
    (m' account.key).data.length = newData.length + additionalBytes := by
  obtain ⟨-, h⟩ := ensure_bind_eq_ok.mp h
  obtain ⟨_, grown, hgrow, hwrite⟩ := Exec.bind_eq_ok.mp h
  obtain ⟨data, hdata, hafter⟩ := write_data hwrite
  rw [hafter, if_pos rfl]
  split at hdata
  · rw [(writes_writeBlock 0 newData _ _ hdata).1, realloc_data hgrow, if_pos rfl, resize_length]
  · cases hdata

theorem allRecorded_initProgramState
    (haddresses : ∀ address, (rt.addressFromStr address).isSome → AddressLike address)
    {params : InitProgramStateParams} (hm : AllRecorded m)
    (h : (initProgramState rt accounts params).run m = .ok u m') : AllRecorded m' := by
  obtain ⟨-, h⟩ := validate_bind_eq_ok.mp h
  obtain ⟨-, h⟩ := validate_bind_eq_ok.mp h
  obtain ⟨_, third, hthird, h⟩ := Exec.bind_eq_ok.mp h
  have hsame : third = m := by
    rcases when_eq_ok.mp hthird with ⟨-, hvalidate⟩ | ⟨-, hsame⟩
    · exact (validateAccount_eq_ok.mp hvalidate).2
    · exact hsame
  rw [hsame] at h
  obtain ⟨_, hchange, h⟩ := Exec.query_bind_eq_ok.mp h
  obtain ⟨_, -, h⟩ := Exec.query_bind_eq_ok.mp h
  have hlike := haddresses _ (addressFromStr_of_valid hchange)
  obtain ⟨program, -, h⟩ := accountAt_bind_eq_ok.mp h
  obtain ⟨withdraw, -, h⟩ := accountAt_bind_eq_ok.mp h
  obtain ⟨newData, hencode, h⟩ := Exec.query_bind_eq_ok.mp h
  obtain ⟨_, stated, hstate, h⟩ := Exec.bind_eq_ok.mp h
  obtain ⟨_, received, hreceive, hinit⟩ := Exec.bind_eq_ok.mp h
  obtain ⟨hfits, rfl⟩ := ProgramState.encode_eq_ok.mp hencode
  obtain ⟨data, hstated, hlength, hbytes⟩ := initStateData_data hstate
  have hroom := initStateData_length hstate
  rw [hstated, if_pos rfl, hlength] at hroom
  have hstatedRecorded : AllRecorded stated := by
    intro key
    rw [hstated]
    split
    · exact fun _ => recorded_of_image hfits rfl hlike hroom.ge hbytes
    · exact hm key
  refine allRecorded_withdrawInitialise ?_ hinit
  rcases when_eq_ok.mp hreceive with ⟨-, hreceive⟩ | ⟨-, rfl⟩
  · exact allRecorded_runeReceiverInitialise hstatedRecorded hreceive
  · exact hstatedRecorded

end Initialisation

/-! ### Preparations -/

section Preparations

variable (rt : Runtime) {accounts : List AccountInfo} {m m' : Memory}

theorem keeps_recorded_write (account : AccountInfo) {put : Bytes → Except Fault Bytes} {region : Nat → Prop}
    (hw : Writes put region) (hregion : ∀ o, region o → 1 ≤ o)
    (hput : ∀ data data', Recorded data → put data = .ok data' → Recorded data') :
    Keeps AllRecorded (account.write put) fun _ => True := by
  apply Exec.keeps_modify
  intro m hm m' hwrite
  refine ⟨hm.write (Exec.modify_eq_ok.mpr hwrite : (account.write put).run m = .ok () m') fun data hdata htype => ?_,
    trivial⟩
  rw [getType_of_writes hw hregion hdata] at htype
  exact hput _ data (hm account.key htype) hdata

theorem keeps_recorded_clearEvents (account : AccountInfo) :
    Keeps AllRecorded (account.write ProgramState.clearEvents) fun _ => True :=
  keeps_recorded_write account writes_clearEvents (fun _ ho => Nat.le_trans (by decide) ho.1)
    fun _ _ h hput => h.clearEvents hput

theorem keeps_recorded_emitEvent (account : AccountInfo) (event : Event) :
    Keeps AllRecorded (account.write (ProgramState.emitEvent event)) fun _ => True :=
  keeps_recorded_write account (writes_emitEvent event) (fun _ (ho : 286 ≤ _) => Nat.le_trans (by decide) ho)
    fun _ _ h hput => h.emitEvent hput

theorem keeps_recorded_setSettlementHash (account : AccountInfo) (hash : Hash) :
    Keeps AllRecorded (account.write (ProgramState.setSettlementHash hash)) fun _ => True := by
  have hw := writes_setSettlementHash hash
  refine keeps_recorded_write account hw (fun _ ho => Nat.le_trans (by decide) ho.1) fun data data' h hput => ?_
  refine h.congr (hw data data' hput).1.ge fun o ho => (hw data data' hput).2 o fun hin => ?_
  have hlow := hin.1
  have hhigh := hin.2
  rcases ho with hother | hother
  · have := hother.2
    omega
  · have := hother.1
    omega

theorem keeps_recorded_prepareSettlementBatch (params : SettlementBatchParams) (raw : Bytes) :
    Keeps AllRecorded (prepareSettlementBatch rt accounts params raw) fun _ => True := by
  have hdecrements : ∀ (accountIndex : UInt8) (adjustments : List Adjustment),
      Keeps AllRecorded (verifyDecrements accounts accountIndex adjustments) fun _ => True := by
    intro accountIndex adjustments
    refine keeps_accountAt.bind fun account _ => keeps_foldlM trivial fun total adjustment _ _ => ?_
    refine keeps_any_read.bind fun index _ => keeps_any_read.bind fun currentBalance _ => ?_
    refine (keeps_when fun _ => ?_).bind fun _ _ => keeps_pure trivial
    exact keeps_accountAt.bind fun programAccount _ => keeps_recorded_emitEvent programAccount _
  refine keeps_any_validate.bind fun _ _ => keeps_accountAt.bind fun programAccount _ => ?_
  refine keeps_any_read.bind fun currentHash _ => keeps_ensure.bind fun _ _ => ?_
  refine (keeps_recorded_clearEvents programAccount).bind fun _ _ => ?_
  refine (keeps_foldlM (P := fun _ => True) trivial fun total tokenSettlements _ _ => ?_).bind fun total _ => ?_
  · refine keeps_any_validate.bind fun _ _ => (hdecrements _ _).bind fun _ _ => ?_
    exact (keeps_verifyIncrements _ _).bind fun _ _ => keeps_pure trivial
  · refine keeps_ensure.bind fun _ _ => keeps_any_read.bind fun eventsCount _ => keeps_when fun _ => ?_
    exact keeps_recorded_setSettlementHash programAccount _

theorem keeps_recorded_verifyWithdrawals (accountIndex : UInt8) (withdrawals : List Withdrawal)
    (networkType : NetworkType) :
    Keeps AllRecorded (verifyWithdrawals rt accounts accountIndex withdrawals networkType) fun _ => True := by
  refine keeps_accountAt.bind fun account _ => ?_
  refine (keeps_forM (P := fun _ => True) fun withdrawal _ => ?_).weaken fun _ _ => trivial
  refine keeps_any_read.bind fun indexResult _ => keeps_any_validate.bind fun _ _ => ?_
  refine keeps_accountAt.bind fun feeAccount _ => keeps_accountAt.bind fun programAccount _ => ?_
  cases indexResult with
  | error programError => exact keeps_recorded_emitEvent programAccount _
  | ok index =>
      refine keeps_any_read.bind fun currentBalance _ => keeps_any_read.bind fun feeIndex _ => ?_
      exact keeps_any_read.bind fun balanceInFeeToken _ => keeps_when fun _ =>
        keeps_recorded_emitEvent programAccount _

/-- The program accounts are as they were. -/
def SamePrograms (m₀ m : Memory) : Prop :=
  (∀ key, getType (m key).data = getType (m₀ key).data) ∧
    ∀ key, getType (m₀ key).data = .ok .program → (m key).data = (m₀ key).data

theorem keeps_samePrograms {m₀ : Memory} {account : AccountInfo} {put : Bytes → Except Fault Bytes}
    {region : Nat → Prop} {accountType : AccountType} (hw : Writes put region) (hregion : ∀ o, region o → 1 ≤ o)
    (hkind : getType (m₀ account.key).data = .ok accountType) (hne : accountType ≠ .program) :
    Keeps (SamePrograms m₀) (account.write put) fun _ => True := by
  apply Exec.keeps_modify
  intro m hm m' hwrite
  obtain ⟨data, hdata, rfl⟩ := write_eq_ok.mp (Exec.modify_eq_ok.mpr hwrite : (account.write put).run m = .ok () m')
  refine ⟨⟨fun key => ?_, fun key hkey => ?_⟩, trivial⟩
  · rw [Memory.setData_data]
    split
    · next heq =>
        subst heq
        rw [getType_of_writes hw hregion hdata]
        exact hm.1 _
    · exact hm.1 key
  · have hother : key ≠ account.key := by
      rintro rfl
      exact hne (Except.ok.inj (hkind.symm.trans hkey))
    rw [Memory.setData_of_ne _ _ hother]
    exact hm.2 key hkey

/-- Payouts write amounts of token accounts. -/
theorem keeps_samePrograms_handlePrepareWithdrawals {m₀ : Memory} {networkType networkType' : NetworkType}
    {tokenWithdrawals : TokenWithdrawals} (hverified : WithdrawalsVerified rt networkType accounts m₀ tokenWithdrawals)
    (feeAccountAddress : Utf8String) (outputs : Outputs) :
    Keeps (SamePrograms m₀)
      (handlePrepareWithdrawals rt accounts tokenWithdrawals feeAccountAddress networkType' outputs)
      fun _ => True := by
  have hamount : ∀ index o, AmountBytes index o → 1 ≤ o := fun index o ho => Nat.le_trans (by omega) ho.ge
  refine keeps_accountAt.bind fun account haccount => keeps_foldlM trivial fun outputs withdrawal hmem _ => ?_
  have hkey := keyAt_of_listed haccount
  have hkind := hverified.1.type_of_keyAt hkey
  refine (keeps_samePrograms (writes_decrementWalletBalance _ _) (hamount _) hkind (by decide)).bind fun _ _ => ?_
  refine (keeps_when fun _ => ?_).bind fun _ _ => keeps_addWithdrawalOutput rt _ _ _ _
  refine keeps_accountAt.bind fun feeAccount hfeeAccount => ?_
  have hfeeKind := (hverified.2 _ hkey withdrawal hmem).feeAccount.type_of_keyAt (keyAt_of_listed hfeeAccount)
  refine keeps_any_read.bind fun feeAddress _ => keeps_ensure.bind fun _ _ => ?_
  refine (keeps_samePrograms (writes_incrementWalletBalance _ _) (hamount _) hfeeKind (by decide)).bind
    fun _ _ => keeps_when fun _ => ?_
  exact keeps_samePrograms (writes_decrementWalletBalance _ _) (hamount _) hfeeKind (by decide)

theorem allRecorded_prepareWithdrawBatch {params : WithdrawBatchParams} {raw : Bytes} {u : Unit}
    (hm : AllRecorded m) (h : (prepareWithdrawBatch rt accounts params raw).run m = .ok u m') : AllRecorded m' := by
  obtain ⟨program, withdraw, hasReceiver, tx, networkType, cleared, verified, hvalidated, hvalidated', hfirst, hsecond,
    -, -, -, -, hclear, -, hverify, count, hcount, hcase⟩ := prepareWithdrawBatch_cases h
  have hcleared := ((keeps_recorded_clearEvents program).of_ok hm hclear).1
  have hloop : Keeps AllRecorded (params.tokenWithdrawals.forM fun tokenWithdrawals => do
      validateAccount accounts tokenWithdrawals.accountIndex false true (some .token) (some 0)
      verifyWithdrawals rt accounts tokenWithdrawals.accountIndex tokenWithdrawals.withdrawals networkType)
      fun _ => True :=
    (keeps_forM (P := fun _ => True) fun tokenWithdrawals _ => keeps_any_validate.bind fun _ _ =>
      keeps_recorded_verifyWithdrawals rt _ _ _).weaken fun _ _ => trivial
  have hrecorded := (hloop.of_ok hcleared hverify).1
  rcases hcase with ⟨-, rfl⟩ | ⟨rfl, outputs, paid, hpay, -, -, hwrite⟩
  · exact hrecorded
  · obtain ⟨first, hled⟩ := led_of_validated hvalidated
    obtain rfl : first = program := Option.some.inj (hled.listed.symm.trans hfirst)
    have hstart : Cleared first m cleared := ⟨hclear, hled.program⟩
    obtain ⟨rfl, hverified⟩ := verified_quiet hfirst hstart hverify hcount
    have hpays : Keeps (SamePrograms verified) (params.tokenWithdrawals.foldlM (fun outputs tokenWithdrawals => do
        let feeAccountAddress ← first.read ProgramState.getFeeAccountAddress
        handlePrepareWithdrawals rt accounts tokenWithdrawals feeAccountAddress networkType outputs)
        { txOuts := tx.output, edicts := [] }) fun _ => True := by
      refine keeps_foldlM trivial fun outputs tokenWithdrawals hmem _ => keeps_any_read.bind fun feeAddress _ => ?_
      have hbatch : WithdrawalsVerified rt networkType accounts verified tokenWithdrawals :=
        (hverified tokenWithdrawals hmem).of_eq fun key htoken => hstart.token_data htoken
      exact keeps_samePrograms_handlePrepareWithdrawals rt hbatch _ _
    obtain ⟨htypes, hsame⟩ := (hpays.of_ok ⟨fun _ => rfl, fun _ _ => rfl⟩ hpay).1
    have hpaid : AllRecorded paid := fun key hkey => by
      have hbefore := (htypes key).symm.trans hkey
      rw [hsame key hbefore]
      exact hrecorded key hbefore
    refine hpaid.writeAway hwrite (writes_setHash _) fun o ho => ⟨Nat.le_trans (by decide) ho.1, ?_⟩
    have hhigh := ho.2
    rintro (hin | hin)
    · have hlow := hin.1
      omega
    · have hlow := hin.1
      omega

end Preparations

/-! ### Accounts that are set up for tokens -/

/-- No empty account has become a program account. -/
def NoNewProgram (m₀ m : Memory) : Prop :=
  ∀ key, (m₀ key).data = [] → getType (m key).data ≠ .ok .program

section NoNewProgram

variable (rt : Runtime) {accounts : List AccountInfo} {m₀ : Memory}

theorem keeps_noNewProgram_write (account : AccountInfo) {put : Bytes → Except Fault Bytes}
    (hput : ∀ data data', put data = .ok data' → getType data' = .ok .program → getType data = .ok .program) :
    Keeps (NoNewProgram m₀) (account.write put) fun _ => True := by
  apply Exec.keeps_modify
  intro m hm m' hwrite
  obtain ⟨data, hdata, rfl⟩ := write_eq_ok.mp (Exec.modify_eq_ok.mpr hwrite : (account.write put).run m = .ok () m')
  refine ⟨fun key hempty htype => ?_, trivial⟩
  rw [Memory.setData_data] at htype
  split at htype
  · next heq =>
      subst heq
      exact hm account.key hempty (hput _ data hdata htype)
  · exact hm key hempty htype

theorem keeps_noNewProgram_away (account : AccountInfo) {put : Bytes → Except Fault Bytes} {region : Nat → Prop}
    (hw : Writes put region) (hregion : ∀ o, region o → 1 ≤ o) :
    Keeps (NoNewProgram m₀) (account.write put) fun _ => True :=
  keeps_noNewProgram_write account fun _ _ hput htype => (getType_of_writes hw hregion hput).symm.trans htype

theorem keeps_noNewProgram_setType (account : AccountInfo) {accountType : AccountType}
    (hne : accountType ≠ .program) : Keeps (NoNewProgram m₀) (account.write (setType accountType)) fun _ => True :=
  keeps_noNewProgram_write account fun _ _ hput htype =>
    absurd (Except.ok.inj ((getType_setType hput).symm.trans htype)) hne

/-- The first byte of resized data is that of the data or a zero. -/
theorem getType_of_resize {data : Bytes} {len : Nat} (h : getType (resize data len) = .ok .program) :
    getType data = .ok .program := by
  cases len with
  | zero =>
      rw [resize, List.take_zero, Nat.zero_sub] at h
      cases h
  | succ len =>
      cases data with
      | nil => cases h
      | cons byte rest => exact h

theorem keeps_noNewProgram_realloc (account : AccountInfo) (newLen : Nat) :
    Keeps (NoNewProgram m₀) (account.realloc newLen) fun _ => True := by
  apply Exec.keeps_modify
  intro m hm m' hput
  refine ⟨fun key hempty htype => ?_, trivial⟩
  rw [realloc_data (Exec.modify_eq_ok.mpr hput : (account.realloc newLen).run m = .ok () m')] at htype
  split at htype
  · next heq =>
      subst heq
      exact hm account.key hempty (getType_of_resize htype)
  · exact hm key hempty htype

theorem keeps_noNewProgram_grow (account : AccountInfo) (additionalBalances : Nat) :
    Keeps (NoNewProgram m₀) (TokenState.growBalanceAccountsIfNeeded account additionalBalances) fun _ => True := by
  refine Keeps.bind (Q := fun _ => True) (Exec.keeps_query fun _ _ _ _ => trivial) fun originalDataLen _ => ?_
  refine Keeps.bind (Q := fun _ => True) ?_ fun numBalances _ => keeps_when fun _ =>
    keeps_noNewProgram_realloc account _
  split
  · exact keeps_any_read
  · exact keeps_pure trivial

theorem keeps_noNewProgram_setWalletAddress (account : AccountInfo) (index : Nat) (address : Utf8String) :
    Keeps (NoNewProgram m₀) (account.write (Balance.setWalletAddress index address)) fun _ => True :=
  keeps_noNewProgram_away account (writes_setWalletAddress index address) fun _ ho => Nat.le_trans (by omega) ho.ge

theorem keeps_noNewProgram_setNumBalances (account : AccountInfo) (count : Nat) :
    Keeps (NoNewProgram m₀) (account.write (TokenState.setNumBalances count)) fun _ => True :=
  keeps_noNewProgram_away account (writes_setNumBalances count) fun _ ho => Nat.le_trans (by decide) ho.1

theorem keeps_noNewProgram_setTokenId (account : AccountInfo) (tokenId : Utf8String) :
    Keeps (NoNewProgram m₀) (account.write (TokenState.setTokenId tokenId)) fun _ => True :=
  keeps_noNewProgram_away account (writes_setTokenId tokenId) fun _ ho => Nat.le_trans (by decide) ho.1

theorem keeps_noNewProgram_initTokenState (params : InitTokenStateParams) :
    Keeps (NoNewProgram m₀) (initTokenState rt accounts params) fun _ => True := by
  refine keeps_any_validate.bind fun _ _ => keeps_any_validate.bind fun _ _ => ?_
  refine keeps_accountAt.bind fun programAccount _ => keeps_accountAt.bind fun tokenAccount _ => ?_
  refine keeps_any_read.bind fun feeAccountAddress _ => ?_
  refine (keeps_noNewProgram_grow tokenAccount 1).bind fun _ _ => ?_
  refine (keeps_noNewProgram_setType tokenAccount (by decide)).bind fun _ _ => ?_
  refine (keeps_noNewProgram_away tokenAccount (writes_setProgramAccount _)
    fun _ ho => Nat.le_trans (by decide) ho.1).bind fun _ _ => ?_
  refine (keeps_noNewProgram_setTokenId tokenAccount _).bind fun _ _ => keeps_when fun _ => ?_
  exact (keeps_noNewProgram_setNumBalances tokenAccount _).bind fun _ _ =>
    keeps_noNewProgram_setWalletAddress tokenAccount _ _

theorem keeps_noNewProgram_setTokenRuneId (params : SetTokenRuneIdParams) :
    Keeps (NoNewProgram m₀) (setTokenRuneId rt accounts params) fun _ => True := by
  refine keeps_any_validate.bind fun _ _ => keeps_any_validate.bind fun _ _ => ?_
  refine keeps_ensure.bind fun _ _ => keeps_accountAt.bind fun tokenAccount _ => ?_
  exact keeps_noNewProgram_setTokenId tokenAccount _

theorem keeps_noNewProgram_initWalletBalances (params : InitWalletBalancesParams) :
    Keeps (NoNewProgram m₀) (initWalletBalances rt accounts params) fun _ => True := by
  refine keeps_any_validate.bind fun _ _ => keeps_accountAt.bind fun programAccount _ => ?_
  refine keeps_any_read.bind fun networkType _ => ?_
  refine (keeps_forM (P := fun _ => True) fun tokenStateSetup _ => ?_).weaken fun _ _ => trivial
  refine keeps_any_validate.bind fun _ _ => keeps_accountAt.bind fun account _ => ?_
  refine (keeps_noNewProgram_grow account _).bind fun _ _ => keeps_any_read.bind fun numBalances _ => ?_
  refine (keeps_foldlM (P := fun _ => True) trivial fun count address _ _ => ?_).bind fun _ _ =>
    keeps_noNewProgram_setNumBalances account _
  exact keeps_lift.bind fun _ _ => (keeps_noNewProgram_setWalletAddress account _ _).bind fun _ _ =>
    keeps_pure trivial

end NoNewProgram

/-! ### Runs -/

section Runs

variable {rt : Runtime} {accounts : List AccountInfo} {m₀ m : Memory} {w w' : World} {call : Call}

/-- A call whose reach misses the records keeps those of the accounts that were program accounts. -/
theorem recorded_of_reach {reach : Reach} (htouches : Touches reach accounts m₀ m)
    (hreach : ∀ o, reach.program o → ¬RecordBytes o) (hnew : NoNewProgram m₀ m) (hm : AllRecorded m₀) :
    AllRecorded m := by
  intro key hkind
  have hne : (m₀ key).data ≠ [] := fun hempty => hnew key hempty hkind
  have hbefore := (htouches.getType_eq hne).symm.trans hkind
  refine (hm key hbefore).congr (htouches.length_ge key) fun o ho => ?_
  by_contra hchanged
  obtain ⟨-, hempty | ⟨first, -, -, -, ⟨-, hin⟩ | ⟨htoken, -⟩ | ⟨hwithdraw, -⟩⟩⟩ := htouches.bytes key o hchanged
  · exact hne hempty
  · exact hreach o hin ho
  · cases hbefore.symm.trans htoken.1
  · cases hbefore.symm.trans hwithdraw.1

theorem ProgramInstruction.Posting.noNewProgram {instruction : ProgramInstruction} (h : instruction.Posting)
    {programId : Pubkey} {raw : Bytes} {u : Unit}
    (hrun : (runInstruction rt programId accounts raw instruction).run m₀ = .ok u m) : NoNewProgram m₀ m := by
  intro key hempty hkind
  have hlength := h.lengths hrun key
  rw [hempty, List.length_nil] at hlength
  rw [List.eq_nil_of_length_eq_zero hlength] at hkind
  cases hkind

/-- Every call leaves recorded program accounts recorded. -/
theorem execute_recorded (haddresses : ∀ address, (rt.addressFromStr address).isSome → AddressLike address)
    (h : execute rt w call = some w') (hw : AllRecorded (load w)) : AllRecorded (load w') := by
  obtain ⟨instruction, m, hinstruction, hrun, htouches, hsame⟩ := execute_cases h
  rw [reachOf_eq hinstruction] at htouches
  have hnone : ∀ o, Reach.nothing.program o → ¬RecordBytes o := fun _ hin => False.elim hin
  have hhashes : ∀ o, Within 222 286 o → ¬RecordBytes o := by
    rintro o ho (hin | hin)
    · have hlow := ho.1
      have hhigh := hin.2
      omega
    · have hlow := hin.1
      have hhigh := ho.2
      omega
  have hposted : instruction.Posting → NoNewProgram (load w) m := fun hposting => hposting.noNewProgram hrun
  have hm : AllRecorded m := by
    cases instruction with
    | initProgramState params => exact allRecorded_initProgramState haddresses hw hrun
    | initTokenState params =>
        exact recorded_of_reach htouches hnone ((keeps_noNewProgram_initTokenState rt params).of_ok
          (fun key hempty htype => ne_nil_of_getType htype hempty) hrun).1 hw
    | initWalletBalances params =>
        exact recorded_of_reach htouches hnone ((keeps_noNewProgram_initWalletBalances rt params).of_ok
          (fun key hempty htype => ne_nil_of_getType htype hempty) hrun).1 hw
    | setTokeRuneId params =>
        exact recorded_of_reach htouches hnone ((keeps_noNewProgram_setTokenRuneId rt params).of_ok
          (fun key hempty htype => ne_nil_of_getType htype hempty) hrun).1 hw
    | initRuneReceiverState =>
        obtain ⟨-, hrun⟩ := validate_bind_eq_ok.mp hrun
        obtain ⟨-, hrun⟩ := validate_bind_eq_ok.mp hrun
        exact allRecorded_runeReceiverInitialise hw hrun
    | prepareBatchSettlement params =>
        exact ((keeps_recorded_prepareSettlementBatch rt params call.rawParamsData).of_ok hw hrun).1
    | prepareBatchWithdraw params => exact allRecorded_prepareWithdrawBatch rt hw hrun
    | batchDeposit params =>
        exact recorded_of_reach htouches hnone (hposted trivial) hw
    | submitBatchSettlement params =>
        exact recorded_of_reach htouches hhashes (hposted trivial) hw
    | rollbackBatchSettlement =>
        refine recorded_of_reach htouches (fun o ho => hhashes o ⟨ho.1, ?_⟩) (hposted trivial) hw
        exact Nat.lt_of_lt_of_le ho.2 (by decide)
    | rollbackBatchWithdraw params =>
        exact recorded_of_reach htouches hnone (hposted trivial) hw
    | submitBatchWithdraw params =>
        exact recorded_of_reach htouches hnone (hposted trivial) hw
    | updateWithdrawStateUtxo params =>
        exact recorded_of_reach htouches hnone (hposted trivial) hw
  intro key hkind
  have hdata : (load w' key).data = (m key).data := hsame key
  rw [hdata] at hkind ⊢
  exact hm key hkind

theorem worldAt_recorded (haddresses : ∀ address, (rt.addressFromStr address).isSome → AddressLike address)
    {start : World} {calls : List Call} (hstart : AllRecorded (load start)) {n : Nat} (hn : n ≤ calls.length) :
    AllRecorded (load (worldAt rt start calls n)) := by
  induction n with
  | zero => exact hstart
  | succ n ih =>
      rw [worldAt_succ hn]
      have hbefore := ih (Nat.le_of_succ_le hn)
      cases h : execute rt (worldAt rt start calls n) calls[n] with
      | none =>
          rw [step_of_none h]
          exact hbefore
      | some w' =>
          rw [step_of_execute h]
          exact execute_recorded haddresses h hbefore

/-- The later state is of the same program: nothing but hashes and events differs. -/
structure ProgramState.SameProgram (earlier later : ProgramState) : Prop where
  withdrawAccount : later.withdrawAccount = earlier.withdrawAccount
  feeAccountAddress : later.feeAccountAddress = earlier.feeAccountAddress
  programChangeAddress : later.programChangeAddress = earlier.programChangeAddress
  networkType : later.networkType = earlier.networkType

theorem sameProgram_of_bytes {earlier later : ProgramState} {data data' : Bytes}
    (hsame : ∀ o < settlementHashOffset, data'[o]? = data[o]?) (hearlier : earlier.Mirrors data)
    (hlater : later.Mirrors data') : earlier.SameProgram later := by
  have haddress : ∀ offset, offset + maxAddressSize ≤ settlementHashOffset →
      getAddress offset data' = getAddress offset data := by
    intro offset hle
    rw [getAddress, getAddress, readBlock_congr fun o ho => hsame o (Nat.lt_of_lt_of_le ho.2 hle)]
  have hbound : Bound .program earlier.withdrawAccount data' :=
    (bound_congr fun o ho => hsame o (Nat.lt_trans ho (by decide))).mpr hearlier.bound
  have hnetwork : ProgramState.getNetworkType data' = ProgramState.getNetworkType data := by
    rw [ProgramState.getNetworkType, ProgramState.getNetworkType, readArray_congr fun o ho => ?_]
    exact hsame o (Nat.lt_of_lt_of_le ho.2 (by decide))
  exact
    { withdrawAccount := Except.ok.inj (hlater.bound.2.symm.trans hbound.2)
      feeAccountAddress := Except.ok.inj
        (hlater.feeAccountAddress.symm.trans ((haddress _ (by decide)).trans hearlier.feeAccountAddress))
      programChangeAddress := Except.ok.inj
        (hlater.programChangeAddress.symm.trans ((haddress _ (by decide)).trans hearlier.programChangeAddress))
      networkType := Except.ok.inj (hlater.networkType.symm.trans (hnetwork.trans hearlier.networkType)) }

/-- From a world without program and token accounts: a program account decodes at any time of the run, to the state
that the accessors read and with at most as many events as there are slots, and at any later time to a state of the
same program. -/
theorem program_records (rt : Runtime)
    (haddresses : ∀ address, (rt.addressFromStr address).isSome → AddressLike address)
    (start : World) (calls : List Call)
    (hstart : ∀ key, getType (start key).data ≠ .ok .token ∧ getType (start key).data ≠ .ok .program)
    {n k : Nat} (hnk : n ≤ k) (hk : k ≤ calls.length) {program : Pubkey}
    (hprogram : getType (worldAt rt start calls n program).data = .ok .program) :
    ∃ earlier later : ProgramState,
      earlier.DecodedFrom (worldAt rt start calls n program).data ∧
      later.DecodedFrom (worldAt rt start calls k program).data ∧ earlier.SameProgram later := by
  have hsame : ∀ o < settlementHashOffset,
      (worldAt rt start calls k program).data[o]? = (worldAt rt start calls n program).data[o]? :=
    fun o ho => worldAt_program_byte hnk hk hprogram ho
  have hprogram' : getType (worldAt rt start calls k program).data = .ok .program :=
    (getType_congr fun o ho => hsame o (Nat.lt_trans ho (by decide))).trans hprogram
  have hdecodes : ∀ m ≤ calls.length, getType (worldAt rt start calls m program).data = .ok .program →
      ∃ state : ProgramState, state.DecodedFrom (worldAt rt start calls m program).data := by
    intro m hm hkind
    have hrecorded := worldAt_recorded haddresses (fun key hkind => absurd hkind (hstart key).2) hm program hkind
    have hfee := (worldAt_sound haddresses (sound_start hstart) hm program).program hkind
    have hroom : 6688 ≤ (worldAt rt start calls m program).data.length := hrecorded.room
    have howner : 5 + 32 ≤ (worldAt rt start calls m program).data.length := Nat.le_trans (by decide) hroom
    obtain ⟨block, hblock⟩ := slice_isSome howner
    have hbound : Bound .program ⟨block, (Bytes.slice_eq_some.mp hblock).1⟩ (worldAt rt start calls m program).data :=
      ⟨hkind, readArray_eq_ok.mpr hblock⟩
    exact decodes_of_recorded hbound hfee hrecorded
  obtain ⟨earlier, hearlier⟩ := hdecodes n (Nat.le_trans hnk hk) hprogram
  obtain ⟨later, hlater⟩ := hdecodes k hk hprogram'
  exact ⟨earlier, later, hearlier, hlater, sameProgram_of_bytes hsame hearlier.2 hlater.2⟩

end Runs

/-- The program is set up by the first call and keeps its addresses through the others. -/
theorem setUpCalls_records :
    getType (worldAt (sampleRuntime []) (sampleWorld []) setUpCalls 1 sampleProgram).data = .ok .program ∧
      ∃ earlier later : ProgramState,
        earlier.DecodedFrom (worldAt (sampleRuntime []) (sampleWorld []) setUpCalls 1 sampleProgram).data ∧
        later.DecodedFrom (worldAt (sampleRuntime []) (sampleWorld []) setUpCalls 3 sampleProgram).data ∧
        earlier.SameProgram later := by
  have hprogram : getType (worldAt (sampleRuntime []) (sampleWorld []) setUpCalls 1 sampleProgram).data =
      .ok .program := by
    decide +kernel
  exact ⟨hprogram, program_records (sampleRuntime []) (sampleRuntime_addressLike []) (sampleWorld []) setUpCalls
    emptyWorld_types (n := 1) (k := 3) (by decide) (by decide) hprogram⟩

end Chainring.Arch

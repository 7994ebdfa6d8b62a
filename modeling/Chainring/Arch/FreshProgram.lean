import Chainring.Arch.Initialisation
import Chainring.Arch.StateCodecs
import Chainring.Arch.TokenAccounts

/-! A program state that is initialised on empty accounts. With its withdraw account alone every field is set; with
a rune receiver the growth goes to the account before it, and the program stops on the empty receiver. -/

namespace Chainring.Arch

open Bytes (slice patch_of_eq resize ofWord)

/-- The accounts of an initialisation: none listed twice, with the flags that it requires, and all empty. -/
structure FreshAccounts (program withdraw : AccountInfo) (receiver : Option AccountInfo) (w : World) : Prop where
  distinct : ((program :: withdraw :: receiver.toList).map AccountInfo.key).Nodup
  programFlags : program.isSigner = true ∧ program.isWritable = true
  otherFlags : ∀ account ∈ withdraw :: receiver.toList, account.isSigner = false ∧ account.isWritable = true
  empty : ∀ account ∈ program :: withdraw :: receiver.toList, (w account.key).data = []

/-- The state of a program with the given parameters and nothing in progress. -/
def freshState (params : InitProgramStateParams) (withdraw : Pubkey) : ProgramState where
  accountType := .program
  version := 0
  withdrawAccount := withdraw
  feeAccountAddress := params.feeAccount
  programChangeAddress := params.programChangeAddress
  networkType := params.networkType
  settlementBatchHash := emptyHash
  lastSettlementBatchHash := emptyHash
  events := []

/-- What the accounts hold after an initialisation. -/
structure StateInitialised (params : InitProgramStateParams) (program withdraw : AccountInfo)
    (receiver : Option AccountInfo) (m : Memory) : Prop where
  programDecodes : decodeFromSlice ProgramState.decode (m program.key).data = .ok (freshState params withdraw.key)
  withdrawDecodes : decodeFromSlice WithdrawState.decode (m withdraw.key).data =
    .ok { accountType := .withdraw, version := 0, programStateAccount := program.key, batchHash := emptyHash }
  receiverRecorded : ∀ account ∈ receiver,
    slice (m program.key).data runeReceiverOffset pubkeySize = some account.key.1
  receiverDecodes : ∀ account ∈ receiver, decodeFromSlice RuneReceiverState.decode (m account.key).data =
    .ok { accountType := .runeReceiver, version := 0, programStateAccount := program.key }

/-- The initialisation succeeds and leaves these accounts. -/
def InitialisesFresh (rt : Runtime) (params : InitProgramStateParams) (program withdraw : AccountInfo)
    (receiver : Option AccountInfo) (w : World) : Prop :=
  ∃ m, (initProgramState rt (program :: withdraw :: receiver.toList) params).run (load w) = .ok () m ∧
    StateInitialised params program withdraw receiver m

/-! ### Empty accounts -/

section Empty

variable {account : AccountInfo} {m : Memory} {put : Bytes → Except Fault Bytes} {data : Bytes}

/-- An account that is empty since the start of the call is filled with zeros. -/
theorem realloc_run {newLen : Nat} (hempty : (m account.key).data = []) (hstart : (m account.key).originalDataLen = 0)
    (hpos : newLen ≠ 0) (hle : newLen ≤ maxPermittedDataIncrease) :
    (account.realloc newLen).run m = .ok () (m.setData account.key (List.replicate newLen 0)) := by
  have hresize : resize [] newLen = List.replicate newLen 0 := by
    simp [resize]
  apply Exec.modify_eq_ok.mpr
  rw [hempty, hstart, if_neg (by simpa using hpos), if_neg (by omega), hresize]

/-- An empty account becomes the initial state followed by zeros. -/
theorem initStateData_run {newData : Bytes} (additionalBytes : Nat) (hempty : (m account.key).data = [])
    (hstart : (m account.key).originalDataLen = 0) (hlength : newData.length = eventsOffset)
    (hle : eventsOffset + additionalBytes ≤ maxPermittedDataIncrease) :
    ∃ m', (initStateData account newData additionalBytes).run m = .ok () m' ∧
      (m' account.key).data = newData ++ List.replicate additionalBytes 0 ∧
      ∀ key, key ≠ account.key → m' key = m key := by
  have hpatch : writeBlock 0 newData (List.replicate (eventsOffset + additionalBytes) 0) =
      .ok (newData ++ List.replicate additionalBytes 0) := by
    apply writeBlock_eq_ok.mpr
    have hsplit : List.replicate (eventsOffset + additionalBytes) (0 : UInt8) =
        [] ++ List.replicate eventsOffset 0 ++ List.replicate additionalBytes 0 := by
      rw [List.nil_append, List.replicate_append_replicate]
    have hold : (List.replicate eventsOffset (0 : UInt8)).length = newData.length := by
      rw [List.length_replicate, hlength]
    exact patch_of_eq [] (List.replicate eventsOffset 0) (List.replicate additionalBytes 0) hsplit rfl hold
  refine ⟨(m.setData account.key (List.replicate (eventsOffset + additionalBytes) 0)).setData account.key
    (newData ++ List.replicate additionalBytes 0), ?_, ?_, fun key hne => ?_⟩
  · unfold initStateData
    rw [hlength]
    refine Exec.ensure_bind_eq_ok.mpr ⟨Nat.le_trans hle (by decide), ?_⟩
    refine Exec.bind_eq_ok.mpr ⟨(), _, realloc_run hempty hstart (by simp) hle, ?_⟩
    apply write_run
    rw [Memory.setData_self, if_pos rfl]
    exact hpatch
  · rw [Memory.setData_self]
  · rw [Memory.setData_of_ne _ _ hne, Memory.setData_of_ne _ _ hne]

/-- An empty account at the second place becomes the withdraw account of the first. -/
theorem withdrawInitialise_run (program : AccountInfo) {withdraw : AccountInfo} (rest : List AccountInfo)
    (hempty : (m withdraw.key).data = []) (hstart : (m withdraw.key).originalDataLen = 0) :
    ∃ m', (WithdrawState.initialise (program :: withdraw :: rest)).run m = .ok () m' ∧
      (m' withdraw.key).data = WithdrawState.encode
        { accountType := .withdraw, version := 0, programStateAccount := program.key, batchHash := emptyHash } ∧
      ∀ key, key ≠ withdraw.key → m' key = m key := by
  have htype : setType .withdraw (List.replicate withdrawAccountSize 0) =
      .ok ([3, 0, 0, 0, 0] ++ List.replicate 32 0 ++ List.replicate 32 0) := by
    decide +kernel
  have hkey : WithdrawState.setProgramAccount program.key ([3, 0, 0, 0, 0] ++ List.replicate 32 0 ++
      List.replicate 32 0) = .ok ([3, 0, 0, 0, 0] ++ program.key.1 ++ List.replicate 32 0) :=
    writeBlock_eq_ok.mpr (patch_of_eq [3, 0, 0, 0, 0] _ _ rfl rfl (by rw [List.length_replicate, program.key.2]))
  refine ⟨((m.setData withdraw.key (List.replicate withdrawAccountSize 0)).setData withdraw.key
    ([3, 0, 0, 0, 0] ++ List.replicate 32 0 ++ List.replicate 32 0)).setData withdraw.key
      ([3, 0, 0, 0, 0] ++ program.key.1 ++ List.replicate 32 0), ?_, ?_, fun key hne => ?_⟩
  · refine accountAt_bind_eq_ok.mpr ⟨withdraw, rfl, read_bind_eq_ok.mpr ⟨true, ?_, ?_⟩⟩
    · rw [hempty]
      rfl
    · refine Exec.when_eq_ok.mpr (Or.inl ⟨rfl, ?_⟩)
      refine Exec.bind_eq_ok.mpr ⟨(), _, realloc_run hempty hstart (by simp) (by simp), ?_⟩
      refine Exec.bind_eq_ok.mpr ⟨(), _, write_run ?_, accountAt_bind_eq_ok.mpr ⟨program, rfl, write_run ?_⟩⟩
      · rw [Memory.setData_self]
        exact htype
      · rw [Memory.setData_self]
        exact hkey
  · have hheader : [AccountType.withdraw.encode] ++ ofWord 4 (0 : UInt32).toNat = [3, 0, 0, 0, 0] := by
      decide
    rw [Memory.setData_self, WithdrawState.encode, hheader]
    rfl
  · rw [Memory.setData_of_ne _ _ hne, Memory.setData_of_ne _ _ hne, Memory.setData_of_ne _ _ hne]

end Empty

/-! ### The initialisation -/

section Initialisation

variable {rt : Runtime} {params : InitProgramStateParams} {program withdraw : AccountInfo}
  {receiver : Option AccountInfo} {w : World}

theorem freshState_padded (hfee : AddressLike params.feeAccount) (hchange : AddressLike params.programChangeAddress)
    (key : Pubkey) : (freshState params key).Padded where
  feeAccountAddress := ⟨Nat.lt_succ_of_le hfee.short, hfee.nulFree⟩
  programChangeAddress := ⟨Nat.lt_succ_of_le hchange.short, hchange.nulFree⟩

theorem image_length {state : ProgramState} (h : state.Fits) (hevents : state.events = []) :
    state.image.length = eventsOffset := by
  rw [ProgramState.image, hevents]
  simp only [List.length_append, List.length_singleton, Bytes.ofWord_length, withPadding_length h.feeAccountAddress,
    withPadding_length h.programChangeAddress, state.withdrawAccount.2, state.settlementBatchHash.2,
    state.lastSettlementBatchHash.2, List.flatMap_nil, List.length_nil]
  rfl

/-- With the program and its withdraw account alone, the initialisation goes through. -/
theorem initialises_pair (haddresses : ∀ address, (rt.addressFromStr address).isSome → AddressLike address)
    (hchange : validateBitcoinAddress rt params.programChangeAddress params.networkType true = .ok ())
    (hfee : validateBitcoinAddress rt params.feeAccount params.networkType true = .ok ())
    (hfresh : FreshAccounts program withdraw none w) : InitialisesFresh rt params program withdraw none w := by
  have hpadded := freshState_padded (haddresses _ (addressFromStr_of_valid hfee))
    (haddresses _ (addressFromStr_of_valid hchange)) withdraw.key
  have hne : program.key ≠ withdraw.key := by simpa using hfresh.distinct
  have hempty : (w program.key).data = [] := hfresh.empty program (by simp)
  have hempty' : (w withdraw.key).data = [] := hfresh.empty withdraw (by simp)
  obtain ⟨hsigner, hwritable⟩ := hfresh.otherFlags withdraw (by simp)
  have hlength := image_length hpadded.fits rfl
  have hload : (load w program.key).data = [] := hempty
  obtain ⟨stated, hstate, hprogram, hother⟩ := initStateData_run (eventSize * maxEvents) hload
    (by simp [load, hempty]) hlength (by simp)
  have hstated : stated withdraw.key = load w withdraw.key := hother _ hne.symm
  have hunused : (stated withdraw.key).data = [] := by
    rw [hstated]
    exact hempty'
  obtain ⟨m, hinit, hwithdraw, hkept⟩ := withdrawInitialise_run program [] hunused
    (by rw [hstated]; simp [load, hempty'])
  refine ⟨m, ?_, ?_, ?_, fun _ hnone => (Option.not_mem_none _ hnone).elim,
    fun _ hnone => (Option.not_mem_none _ hnone).elim⟩
  · refine validate_bind_eq_ok.mpr ⟨⟨program, rfl, hfresh.programFlags.1, hfresh.programFlags.2, hempty⟩, ?_⟩
    refine validate_bind_eq_ok.mpr ⟨⟨withdraw, rfl, hsigner, hwritable, hempty'⟩, ?_⟩
    refine Exec.bind_eq_ok.mpr ⟨(), load w, Exec.when_eq_ok.mpr (Or.inr ⟨by simp, rfl⟩), ?_⟩
    refine Exec.query_bind_eq_ok.mpr ⟨(), hchange, Exec.query_bind_eq_ok.mpr ⟨(), hfee, ?_⟩⟩
    refine accountAt_bind_eq_ok.mpr ⟨program, rfl, accountAt_bind_eq_ok.mpr ⟨withdraw, rfl, ?_⟩⟩
    refine Exec.query_bind_eq_ok.mpr ⟨_, hpadded.fits.encode_image, Exec.bind_eq_ok.mpr ⟨(), stated, hstate, ?_⟩⟩
    exact Exec.bind_eq_ok.mpr ⟨(), stated, Exec.when_eq_ok.mpr (Or.inr ⟨by simp, rfl⟩), hinit⟩
  · rw [hkept _ hne, hprogram]
    exact (consumes_programState hpadded (Nat.zero_lt_succ _)).run_fst _
  · rw [hwithdraw, ← List.append_nil (WithdrawState.encode _)]
    exact (consumes_withdrawState _).run_fst _

/-- With a rune receiver it never goes through: the type is set on the receiver, which is still empty. -/
theorem not_initialises_receiver {third : AccountInfo} (hfresh : FreshAccounts program withdraw (some third) w) :
    ¬InitialisesFresh rt params program withdraw (some third) w := by
  rintro ⟨m, hrun, -⟩
  obtain ⟨-, data, stated, received, hstated, -, -, -, hreceive, -⟩ := initProgramState_cases hrun rfl rfl
  have hdistinct := hfresh.distinct
  simp only [Option.toList_some, List.map_cons, List.map_nil, List.nodup_cons, List.mem_cons, List.not_mem_nil,
    or_false, not_or] at hdistinct
  obtain ⟨⟨hprogramWithdraw, hprogramThird⟩, hwithdrawThird, -⟩ := hdistinct
  have hthird : (stated third.key).data = [] := by
    rw [hstated, if_neg (Ne.symm hprogramThird)]
    exact hfresh.empty third (by simp)
  have hwithdraw : (stated withdraw.key).data = [] := by
    rw [hstated, if_neg (Ne.symm hprogramWithdraw)]
    exact hfresh.empty withdraw (by simp)
  rcases Exec.when_eq_ok.mp hreceive with ⟨-, hreceive⟩ | ⟨hcount, -⟩
  · obtain ⟨first, hfirst, h⟩ := accountAt_bind_eq_ok.mp hreceive
    obtain rfl : withdraw = first := Option.some.inj hfirst
    obtain ⟨isEmpty, hisEmpty, h⟩ := read_bind_eq_ok.mp h
    obtain rfl := Except.ok.inj hisEmpty
    rcases Exec.when_eq_ok.mp h with ⟨-, h⟩ | ⟨hinUse, -⟩
    · obtain ⟨_, grown, hgrow, h⟩ := Exec.bind_eq_ok.mp h
      obtain ⟨account, haccount, h⟩ := accountAt_bind_eq_ok.mp h
      obtain rfl : third = account := Option.some.inj haccount
      obtain ⟨_, typed, htype, -⟩ := Exec.bind_eq_ok.mp h
      obtain ⟨typedData, htyped, -⟩ := write_eq_ok.mp htype
      rw [realloc_data hgrow, if_neg (Ne.symm hwithdrawThird), hthird] at htyped
      cases htyped
    · rw [hwithdraw] at hinUse
      exact hinUse rfl
  · exact hcount rfl

end Initialisation

/-- Empty accounts with the required flags and valid addresses are initialised exactly when no rune receiver is
among them. -/
theorem initialises_iff (rt : Runtime) (haddresses : ∀ address, (rt.addressFromStr address).isSome → AddressLike address)
    (params : InitProgramStateParams) (program withdraw : AccountInfo) (receiver : Option AccountInfo) (w : World)
    (hchange : validateBitcoinAddress rt params.programChangeAddress params.networkType true = .ok ())
    (hfee : validateBitcoinAddress rt params.feeAccount params.networkType true = .ok ())
    (hfresh : FreshAccounts program withdraw receiver w) :
    InitialisesFresh rt params program withdraw receiver w ↔ receiver = none := by
  cases receiver with
  | none => exact iff_of_true (initialises_pair haddresses hchange hfee hfresh) rfl
  | some third => exact iff_of_false (not_initialises_receiver hfresh) (Option.some_ne_none third)

/-- Empty accounts of a program, its withdraw account and a rune receiver. -/
def freshProgram : AccountInfo := ⟨sampleProgram, true, true⟩

def freshWithdraw : AccountInfo := ⟨sampleWithdraw, false, true⟩

def freshReceiver : AccountInfo := ⟨sampleKey 0x40, false, true⟩

def freshParams : InitProgramStateParams :=
  ⟨⟨feeAddress, feeAddress_valid⟩, ⟨firstAddress, firstAddress_valid⟩, .regtest⟩

theorem freshParams_valid :
    validateBitcoinAddress (sampleRuntime []) freshParams.programChangeAddress freshParams.networkType true = .ok () ∧
    validateBitcoinAddress (sampleRuntime []) freshParams.feeAccount freshParams.networkType true = .ok () := by
  decide +kernel

theorem freshAccounts_sample (receiver : Option AccountInfo) (hreceiver : receiver = none ∨ receiver = some freshReceiver) :
    FreshAccounts freshProgram freshWithdraw receiver (sampleWorld []) := by
  have hempty : ∀ key, (sampleWorld [] key).data = [] := fun _ => rfl
  rcases hreceiver with rfl | rfl
  · exact ⟨by decide, by decide, by decide, fun _ _ => hempty _⟩
  · exact ⟨by decide, by decide, by decide, fun _ _ => hempty _⟩

/-- The pair is initialised. -/
theorem freshPair_initialises :
    InitialisesFresh (sampleRuntime []) freshParams freshProgram freshWithdraw none (sampleWorld []) :=
  (initialises_iff (sampleRuntime []) (sampleRuntime_addressLike []) freshParams freshProgram freshWithdraw none
    (sampleWorld []) freshParams_valid.1 freshParams_valid.2 (freshAccounts_sample none (Or.inl rfl))).mpr rfl

/-- With the rune receiver, the program stops without a result. -/
theorem freshReceiver_stops :
    FreshAccounts freshProgram freshWithdraw (some freshReceiver) (sampleWorld []) ∧
    validateBitcoinAddress (sampleRuntime []) freshParams.programChangeAddress freshParams.networkType true = .ok () ∧
    validateBitcoinAddress (sampleRuntime []) freshParams.feeAccount freshParams.networkType true = .ok () ∧
    (initProgramState (sampleRuntime []) [freshProgram, freshWithdraw, freshReceiver] freshParams).run
      (load (sampleWorld [])) = .panic ∧
    ¬InitialisesFresh (sampleRuntime []) freshParams freshProgram freshWithdraw (some freshReceiver) (sampleWorld []) := by
  have hfresh := freshAccounts_sample (some freshReceiver) (Or.inr rfl)
  refine ⟨hfresh, freshParams_valid.1, freshParams_valid.2, ?_, not_initialises_receiver hfresh⟩
  cases hrun : (initProgramState (sampleRuntime []) [freshProgram, freshWithdraw, freshReceiver] freshParams).run
      (load (sampleWorld [])) with
  | panic => rfl
  | ok _ m =>
      have hstopped : ((initProgramState (sampleRuntime []) [freshProgram, freshWithdraw, freshReceiver]
          freshParams).run (load (sampleWorld []))).value = none := by
        decide +kernel
      rw [hrun] at hstopped
      cases hstopped
  | error e m =>
      have hfailure : ((initProgramState (sampleRuntime []) [freshProgram, freshWithdraw, freshReceiver]
          freshParams).run (load (sampleWorld []))).failure = none := by
        decide +kernel
      rw [hrun] at hfailure
      cases hfailure

end Chainring.Arch

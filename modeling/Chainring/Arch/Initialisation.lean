import Chainring.Arch.BatchHashes

/-! The accounts that an initialisation leaves behind: the program account with empty hash registers,
and the account listed after it, which is its withdraw account unless the call listed an account twice. -/

namespace Chainring.Arch

open Bytes (slice slice_append slice_congr resize resize_length resize_getElem? ofWord ofWord_length patch_eq_some)
open CheckedWord (bind_eq_ok)
open Exec (when_eq_ok ensure_bind_eq_ok)

/-- How an initialised program account and the account listed after it lie from then on. -/
structure Lodged (program withdraw : Pubkey) (accountData : Pubkey → Bytes) : Prop where
  kind : getType (accountData program) = .ok .program ∨ getType (accountData program) = .ok .runeReceiver
  nonempty : accountData withdraw ≠ []
  notToken : getType (accountData withdraw) ≠ .ok .token
  bound : getType (accountData withdraw) = .ok .withdraw →
    relatedAccountKey .withdraw (accountData withdraw) = .ok program ∧
      relatedAccountKey .program (accountData program) = .ok withdraw

theorem Lodged.congr {program withdraw : Pubkey} {accountData accountData' : Pubkey → Bytes}
    (h : Lodged program withdraw accountData)
    (hheader : ∀ key, accountData key ≠ [] → ∀ o < 37, (accountData' key)[o]? = (accountData key)[o]?) :
    Lodged program withdraw accountData' := by
  have hprogram := hheader program (h.kind.elim ne_nil_of_getType ne_nil_of_getType)
  have hwithdraw := hheader withdraw h.nonempty
  refine ⟨?_, ?_, ?_, ?_⟩
  · rw [getType_congr hprogram]
    exact h.kind
  · intro hempty
    have hzero := hwithdraw 0 (by decide)
    rw [hempty, List.getElem?_nil] at hzero
    exact h.nonempty (List.eq_nil_of_length_eq_zero (Nat.le_zero.mp (List.getElem?_eq_none_iff.mp hzero.symm)))
  · rw [getType_congr hwithdraw]
    exact h.notToken
  · rw [getType_congr hwithdraw, relatedAccountKey_congr _ hwithdraw, relatedAccountKey_congr _ hprogram]
    exact h.bound

/-! ### Types and fields -/

theorem getType_of_slice {data : Bytes} {byte : UInt8} (h : slice data 0 1 = some [byte]) :
    getType data = .ok (AccountType.decode byte) := by
  have hread : readArray 0 1 data = .ok ⟨[byte], rfl⟩ := readArray_eq_ok.mpr h
  rw [getType, hread]
  show Except.ok (AccountType.decode (UInt8.ofNat (Bytes.toWord [byte]))) = _
  simp [Bytes.toWord]

theorem getType_setType {accountType : AccountType} {data data' : Bytes}
    (h : setType accountType data = .ok data') : getType data' = .ok accountType := by
  rw [getType_of_slice (Bytes.slice_patch (writeBlock_eq_ok.mp h)), AccountType.decode_encode]

/-- A change past the first byte does not change the type. -/
theorem getType_of_writes {put : Bytes → Except Fault Bytes} {region : Nat → Prop} (hw : Writes put region)
    (hregion : ∀ o, region o → 1 ≤ o) {data data' : Bytes} (h : put data = .ok data') :
    getType data' = getType data := by
  rw [getType, getType]
  rw [readArray_congr fun o ho => (hw data data' h).2 o fun hin => ?_]
  have hpos := hregion o hin
  have hzero : o < 0 + 1 := ho.2
  omega

/-- The fields that later reads depend on, at their places in the encoded state. -/
theorem programState_encode {state : ProgramState} {bytes : Bytes} (h : state.encode = .ok bytes) :
    slice bytes 0 1 = some [state.accountType.encode] ∧
      slice bytes withdrawAccountPubkeyOffset pubkeySize = some state.withdrawAccount.1 ∧
      slice bytes settlementHashOffset hashSize = some state.settlementBatchHash.1 ∧
      slice bytes lastSettlementHashOffset hashSize = some state.lastSettlementBatchHash.1 := by
  obtain ⟨feeAddress, hfee, h⟩ := bind_eq_ok.mp h
  obtain ⟨changeAddress, hchange, h⟩ := bind_eq_ok.mp h
  obtain ⟨events, -, h⟩ := bind_eq_ok.mp h
  cases h
  have hfeeLength := writeStringWithPadding_length hfee
  have hchangeLength := writeStringWithPadding_length hchange
  have hwithdraw := state.withdrawAccount.2
  have hhash := state.settlementBatchHash.2
  have hlast := state.lastSettlementBatchHash.2
  refine ⟨rfl, ?_, ?_, ?_⟩
  · have hslice := slice_append ([state.accountType.encode] ++ ofWord 4 state.version.toNat)
      state.withdrawAccount.1 (feeAddress ++ changeAddress ++ [state.networkType.encode] ++
        state.settlementBatchHash.1 ++ state.lastSettlementBatchHash.1 ++ ofWord 2 state.events.length ++
        events.flatten)
    simp only [List.append_assoc, List.length_append, List.length_singleton, ofWord_length, hwithdraw] at hslice ⊢
    exact hslice
  · have hslice := slice_append ([state.accountType.encode] ++ ofWord 4 state.version.toNat ++
        state.withdrawAccount.1 ++ feeAddress ++ changeAddress ++ [state.networkType.encode])
      state.settlementBatchHash.1 (state.lastSettlementBatchHash.1 ++ ofWord 2 state.events.length ++
        events.flatten)
    simp only [List.append_assoc, List.length_append, List.length_singleton, ofWord_length, hwithdraw,
      hfeeLength, hchangeLength, hhash] at hslice ⊢
    exact hslice
  · have hslice := slice_append ([state.accountType.encode] ++ ofWord 4 state.version.toNat ++
        state.withdrawAccount.1 ++ feeAddress ++ changeAddress ++ [state.networkType.encode] ++
        state.settlementBatchHash.1)
      state.lastSettlementBatchHash.1 (ofWord 2 state.events.length ++ events.flatten)
    simp only [List.append_assoc, List.length_append, List.length_singleton, ofWord_length, hwithdraw,
      hfeeLength, hchangeLength, hhash, hlast] at hslice ⊢
    exact hslice

/-! ### The accounts after each part -/

section Parts

variable {rt : Runtime} {accounts : List AccountInfo} {m m' : Memory} {u : Unit}

theorem write_data {account : AccountInfo} {put : Bytes → Except Fault Bytes}
    (h : (account.write put).run m = .ok u m') :
    ∃ data, put (m account.key).data = .ok data ∧
      ∀ key, (m' key).data = if key = account.key then data else (m key).data := by
  obtain ⟨data, hdata, rfl⟩ := write_eq_ok.mp h
  exact ⟨data, hdata, fun key => Memory.setData_data _ _ _ _⟩

theorem realloc_data {account : AccountInfo} {newLen : Nat}
    (h : (account.realloc newLen).run m = .ok u m') (key : Pubkey) :
    (m' key).data = if key = account.key then resize (m account.key).data newLen else (m key).data := by
  have hput := Exec.modify_eq_ok.mp h
  split at hput
  · next hlen =>
      cases hput
      split
      · next hkey =>
          subst hkey
          rw [hlen, resize, List.take_length, Nat.sub_self]
          simp
      · rfl
  · split at hput
    · cases hput
    · cases hput
      exact Memory.setData_data _ _ _ _

theorem initStateData_data {account : AccountInfo} {newData : Bytes} {additionalBytes : Nat}
    (h : (initStateData account newData additionalBytes).run m = .ok u m') :
    ∃ data, (∀ key, (m' key).data = if key = account.key then data else (m key).data) ∧
      newData.length = eventsOffset ∧ ∀ o < eventsOffset, data[o]? = newData[o]? := by
  obtain ⟨-, h⟩ := ensure_bind_eq_ok.mp h
  obtain ⟨_, grown, hgrow, hwrite⟩ := Exec.bind_eq_ok.mp h
  obtain ⟨data, hdata, hafter⟩ := write_data hwrite
  split at hdata
  · next hlength =>
      refine ⟨data, fun key => ?_, hlength, fun o ho => ?_⟩
      · rw [hafter]
        split
        · rfl
        · next hkey => rw [realloc_data hgrow, if_neg hkey]
      · rw [(patch_eq_some (writeBlock_eq_ok.mp hdata)).2.2 o, if_pos ⟨Nat.zero_le o, by omega⟩, Nat.sub_zero]
  · cases hdata

/-- The accounts while the rune receiver is set up: the hash registers are those of `base`. -/
structure Arranging (program withdraw : Pubkey) (base : Bytes) (m : Memory) : Prop where
  kind : getType (m program).data = .ok .program ∨ getType (m program).data = .ok .runeReceiver
  hashes : ∀ o, Within 222 286 o → (m program).data[o]? = base[o]?
  withdrawKind : getType (m withdraw).data = .ok .unknown ∨ getType (m withdraw).data = .ok .runeReceiver

variable {program withdraw : Pubkey} {base : Bytes}

theorem Arranging.change {m' : Memory} (hm : Arranging program withdraw base m) {key : Pubkey}
    {data : Bytes} (hdata : ∀ key', (m' key').data = if key' = key then data else (m key').data)
    (htype : getType data = getType (m key).data ∨ getType data = .ok .runeReceiver)
    (hhashes : ∀ o, Within 222 286 o → data[o]? = (m key).data[o]?) :
    Arranging program withdraw base m' := by
  refine ⟨?_, fun o ho => ?_, ?_⟩
  · rw [hdata]
    split
    · next hkey =>
        subst hkey
        rcases htype with hsame | hreceiver
        · rw [hsame]
          exact hm.kind
        · exact Or.inr hreceiver
    · exact hm.kind
  · rw [hdata]
    split
    · next hkey =>
        subst hkey
        rw [hhashes o ho]
        exact hm.hashes o ho
    · exact hm.hashes o ho
  · rw [hdata]
    split
    · next hkey =>
        subst hkey
        rcases htype with hsame | hreceiver
        · rw [hsame]
          exact hm.withdrawKind
        · exact Or.inr hreceiver
    · exact hm.withdrawKind

theorem Arranging.write {account : AccountInfo} {put : Bytes → Except Fault Bytes} {region : Nat → Prop}
    (hm : Arranging program withdraw base m) (hw : Writes put region)
    (hregion : ∀ o, region o → ¬Within 222 286 o)
    (htype : ∀ data data', put data = .ok data' →
      getType data' = getType data ∨ getType data' = .ok .runeReceiver)
    (h : (account.write put).run m = .ok u m') : Arranging program withdraw base m' := by
  obtain ⟨data, hput, hdata⟩ := write_data h
  exact hm.change hdata (htype _ _ hput) fun o ho => (hw _ _ hput).2 o fun hin => hregion o hin ho

/-- Setting up a rune receiver does nothing when the account after the program is in use; otherwise
that account is left with another type, and the hashes of the program account stay. -/
theorem runeReceiverInitialise_cases {accountIndex : Nat} {programAccount first : AccountInfo}
    (h : (RuneReceiverState.initialise accounts accountIndex).run m = .ok u m')
    (hprogram : accounts[0]? = some programAccount) (hfirst : accounts[1]? = some first)
    (htype : getType (m programAccount.key).data = .ok .program) :
    ((m first.key).data ≠ [] ∧ m' = m) ∨
      Arranging programAccount.key first.key (m programAccount.key).data m' := by
  obtain ⟨first', hfirst', h⟩ := accountAt_bind_eq_ok.mp h
  obtain rfl : first' = first := Option.some.inj (hfirst'.symm.trans hfirst)
  obtain ⟨isEmpty, hisEmpty, h⟩ := read_bind_eq_ok.mp h
  obtain rfl := Except.ok.inj hisEmpty
  rcases when_eq_ok.mp h with ⟨hempty, h⟩ | ⟨hne, hsame⟩
  · right
    rw [List.isEmpty_iff] at hempty
    have hneq : programAccount.key ≠ first'.key := by
      intro heq
      rw [heq] at htype
      exact ne_nil_of_getType htype hempty
    obtain ⟨_, grown, hgrow, h⟩ := Exec.bind_eq_ok.mp h
    have hgrown : Arranging programAccount.key first'.key (m programAccount.key).data grown := by
      have hdata := realloc_data hgrow
      refine ⟨?_, fun o _ => ?_, ?_⟩
      · rw [hdata, if_neg hneq]
        exact Or.inl htype
      · rw [hdata, if_neg hneq]
      · rw [hdata, if_pos rfl, hempty]
        left
        rfl
    obtain ⟨account, -, h⟩ := accountAt_bind_eq_ok.mp h
    obtain ⟨_, typed, htyped, h⟩ := Exec.bind_eq_ok.mp h
    have htypedArranging := hgrown.write (writes_setType _)
      (fun o hin ho => by
        have hlow := ho.1
        have hhigh := hin.2
        omega)
      (fun data data' hput => Or.inr (getType_setType hput)) htyped
    obtain ⟨programAccount', hprogram', h⟩ := accountAt_bind_eq_ok.mp h
    obtain rfl : programAccount' = programAccount := Option.some.inj (hprogram'.symm.trans hprogram)
    obtain ⟨_, keyed, hkeyed, h⟩ := Exec.bind_eq_ok.mp h
    have hkeyedArranging := htypedArranging.write (writes_setProgramAccount _)
      (fun o hin ho => by
        have hlow := ho.1
        have hhigh := hin.2
        omega)
      (fun data data' hput => Or.inl (getType_of_writes (writes_setProgramAccount _)
        (fun o ho => Nat.le_trans (by decide) ho.1) hput)) hkeyed
    obtain ⟨programLen, hlen, h⟩ := read_bind_eq_ok.mp h
    obtain rfl := Except.ok.inj hlen
    rcases when_eq_ok.mp h with ⟨hlength, h⟩ | ⟨-, hsame⟩
    · obtain ⟨_, extended, hextend, hset⟩ := Exec.bind_eq_ok.mp h
      have hlong : (keyed programAccount'.key).data.length ≤ runeReceiverOffset + pubkeySize := by
        rw [hlength]
        exact Nat.le_add_right _ _
      have hsame : ∀ o < 6688, (resize (keyed programAccount'.key).data (runeReceiverOffset + pubkeySize))[o]? =
          (keyed programAccount'.key).data[o]? :=
        fun o ho => resize_getElem? hlong (by rw [hlength]; exact ho)
      have hextended := hkeyedArranging.change (realloc_data hextend)
        (Or.inl (getType_congr fun o ho => hsame o (Nat.lt_trans ho (by decide))))
        fun o ho => hsame o (Nat.lt_trans ho.2 (by decide))
      exact hextended.write (writes_setRuneReceiver _)
        (fun o (hin : 6688 ≤ o) ho => by
          have hhigh := ho.2
          omega)
        (fun data data' hput => Or.inl (getType_of_writes (writes_setRuneReceiver _)
          (fun o ho => Nat.le_trans (by decide) ho) hput)) hset
    · rw [hsame]
      exact hkeyedArranging
  · left
    rw [List.isEmpty_iff] at hne
    exact ⟨hne, hsame⟩

/-- An account not in use becomes the withdraw account of the program, with an empty hash. -/
theorem withdrawInitialise_cases {programAccount first : AccountInfo}
    (h : (WithdrawState.initialise accounts).run m = .ok u m')
    (hprogram : accounts[0]? = some programAccount) (hfirst : accounts[1]? = some first) :
    ((m first.key).data ≠ [] ∧ m' = m) ∨
      ((m first.key).data = [] ∧ ∃ data, (∀ key, (m' key).data = if key = first.key then data else (m key).data) ∧
        Bound .withdraw programAccount.key data ∧ WithdrawState.getHash data = .ok emptyHash) := by
  obtain ⟨first', hfirst', h⟩ := accountAt_bind_eq_ok.mp h
  obtain rfl : first' = first := Option.some.inj (hfirst'.symm.trans hfirst)
  obtain ⟨isEmpty, hisEmpty, h⟩ := read_bind_eq_ok.mp h
  obtain rfl := Except.ok.inj hisEmpty
  rcases when_eq_ok.mp h with ⟨hempty, h⟩ | ⟨hne, hsame⟩
  · right
    rw [List.isEmpty_iff] at hempty
    obtain ⟨_, grown, hgrow, h⟩ := Exec.bind_eq_ok.mp h
    obtain ⟨_, typed, htype, h⟩ := Exec.bind_eq_ok.mp h
    obtain ⟨programAccount', hprogram', h⟩ := accountAt_bind_eq_ok.mp h
    obtain rfl : programAccount' = programAccount := Option.some.inj (hprogram'.symm.trans hprogram)
    obtain ⟨typedData, htyped, htypedAll⟩ := write_data htype
    obtain ⟨data, hdata, hdataAll⟩ := write_data h
    rw [htypedAll, if_pos rfl] at hdata
    rw [realloc_data hgrow, if_pos rfl, hempty] at htyped
    refine ⟨hempty, data, fun key => ?_, ⟨?_, ?_⟩, ?_⟩
    · rw [hdataAll]
      split
      · rfl
      · next hkey => rw [htypedAll, if_neg hkey, realloc_data hgrow, if_neg hkey]
    · rw [getType_of_writes (writes_setProgramAccount _) (fun o ho => Nat.le_trans (by decide) ho.1) hdata]
      exact getType_setType htyped
    · have hslice := Bytes.slice_patch (writeBlock_eq_ok.mp hdata)
      rw [programAccount'.key.2] at hslice
      exact readArray_eq_ok.mpr hslice
    · have hzeros : hashFromSlice withdrawHashOffset (resize [] withdrawAccountSize) = .ok emptyHash := by
        decide
      show hashFromSlice withdrawHashOffset data = .ok emptyHash
      rw [← hzeros]
      apply hashFromSlice_congr
      intro o ho
      have hlow : 37 ≤ o := ho.1
      rw [(writes_setProgramAccount _ _ _ hdata).2 o fun hin => by
        have hhigh := hin.2
        omega]
      exact (writes_setType _ _ _ htyped).2 o fun hin => by
        have hhigh := hin.2
        omega
  · left
    rw [List.isEmpty_iff] at hne
    exact ⟨hne, hsame⟩

/-- What an initialisation leaves behind. -/
structure Arranged (program withdraw : Pubkey) (accountData : Pubkey → Bytes) : Prop where
  lodged : Lodged program withdraw accountData
  settlementHash : ProgramState.getSettlementHash (accountData program) = .ok emptyHash
  lastSettlementHash : hashFromSlice lastSettlementHashOffset (accountData program) = .ok emptyHash
  withdrawHash : getType (accountData withdraw) = .ok .withdraw →
    WithdrawState.getHash (accountData withdraw) = .ok emptyHash

/-- An initialisation writes a fresh state to the empty program account and then looks at the account
after it. -/
theorem initProgramState_cases {params : InitProgramStateParams} {programAccount first : AccountInfo}
    (h : (initProgramState rt accounts params).run m = .ok u m')
    (hprogram : accounts[0]? = some programAccount) (hfirst : accounts[1]? = some first) :
    (m first.key).data = [] ∧ ∃ data stated received,
      (∀ key, (stated key).data = if key = programAccount.key then data else (m key).data) ∧
      Bound .program first.key data ∧ ProgramState.getSettlementHash data = .ok emptyHash ∧
      hashFromSlice lastSettlementHashOffset data = .ok emptyHash ∧
      (Exec.when (accounts.length = 3) (RuneReceiverState.initialise accounts 2)).run stated =
        .ok () received ∧
      (WithdrawState.initialise accounts).run received = .ok u m' := by
  obtain ⟨-, h⟩ := validate_bind_eq_ok.mp h
  obtain ⟨hvalidated, h⟩ := validate_bind_eq_ok.mp h
  obtain ⟨-, -, hfirstEmpty⟩ := hvalidated.of_listed hfirst
  obtain ⟨_, third, hthird, h⟩ := Exec.bind_eq_ok.mp h
  have hsame : third = m := by
    rcases when_eq_ok.mp hthird with ⟨-, hvalidate⟩ | ⟨-, hsame⟩
    · exact (validateAccount_eq_ok.mp hvalidate).2
    · exact hsame
  rw [hsame] at h
  obtain ⟨_, -, h⟩ := Exec.query_bind_eq_ok.mp h
  obtain ⟨_, -, h⟩ := Exec.query_bind_eq_ok.mp h
  obtain ⟨programAccount', hprogram', h⟩ := accountAt_bind_eq_ok.mp h
  obtain rfl : programAccount' = programAccount := Option.some.inj (hprogram'.symm.trans hprogram)
  obtain ⟨withdrawAccount, hwithdraw, h⟩ := accountAt_bind_eq_ok.mp h
  obtain rfl : withdrawAccount = first := Option.some.inj (hwithdraw.symm.trans hfirst)
  obtain ⟨newData, hencode, h⟩ := Exec.query_bind_eq_ok.mp h
  obtain ⟨_, stated, hstate, h⟩ := Exec.bind_eq_ok.mp h
  obtain ⟨_, received, hreceive, hinit⟩ := Exec.bind_eq_ok.mp h
  obtain ⟨data, hstated, -, hbytes⟩ := initStateData_data hstate
  obtain ⟨hkind, hkey, hhash, hlast⟩ := programState_encode hencode
  have hfield : ∀ offset len, offset + len ≤ eventsOffset → slice data offset len = slice newData offset len :=
    fun offset len hle => slice_congr fun o _ hhigh => hbytes o (Nat.lt_of_lt_of_le hhigh hle)
  have htype := getType_of_slice ((hfield 0 1 (by decide)).trans hkind)
  exact ⟨hfirstEmpty, data, stated, received, hstated,
    ⟨htype, readArray_eq_ok.mpr ((hfield _ _ (by decide)).trans hkey)⟩,
    readArray_eq_ok.mpr ((hfield _ _ (by decide)).trans hhash),
    readArray_eq_ok.mpr ((hfield _ _ (by decide)).trans hlast), hreceive, hinit⟩

theorem initProgramState_arranged {params : InitProgramStateParams} {programAccount first : AccountInfo}
    (h : (initProgramState rt accounts params).run m = .ok u m')
    (hprogram : accounts[0]? = some programAccount) (hfirst : accounts[1]? = some first) :
    Arranged programAccount.key first.key fun key => (m' key).data := by
  obtain ⟨hfirstEmpty, data, stated, received, hstated, ⟨htype, hrelated⟩, hsettlement, hlastHash, hreceive,
    hinit⟩ := initProgramState_cases h hprogram hfirst
  have hstatedProgram : (stated programAccount.key).data = data := by
    rw [hstated, if_pos rfl]
  have hcases : ((stated first.key).data ≠ [] ∧ received = stated) ∨
      Arranging programAccount.key first.key data received ∨
      ((stated first.key).data = [] ∧ received = stated) := by
    rcases when_eq_ok.mp hreceive with ⟨-, hreceive⟩ | ⟨-, hsame⟩
    · rcases runeReceiverInitialise_cases hreceive hprogram hfirst (by rw [hstatedProgram]; exact htype) with
        hkept | harranging
      · exact Or.inl hkept
      · rw [hstatedProgram] at harranging
        exact Or.inr (Or.inl harranging)
    · by_cases hempty : (stated first.key).data = []
      · exact Or.inr (Or.inr ⟨hempty, hsame⟩)
      · exact Or.inl ⟨hempty, hsame⟩
  rcases hcases with ⟨hne, rfl⟩ | harranging | ⟨hempty, rfl⟩
  · -- The program account is listed twice.
    have hequal : first.key = programAccount.key := by
      by_contra hneq
      rw [hstated, if_neg hneq] at hne
      exact hne hfirstEmpty
    rcases withdrawInitialise_cases hinit hprogram hfirst with ⟨-, rfl⟩ | ⟨hempty, -⟩
    · rw [hequal]
      have hdata := hstatedProgram
      refine ⟨⟨?_, ?_, ?_, ?_⟩, ?_, ?_, ?_⟩ <;> simp only [hdata]
      · exact Or.inl htype
      · exact ne_nil_of_getType htype
      · simp [htype]
      · simp [htype]
      · exact hsettlement
      · exact hlastHash
      · simp [htype]
    · exact absurd hempty hne
  · have hnotWithdraw : getType (received first.key).data ≠ .ok .withdraw := by
      rcases harranging.withdrawKind with h | h <;> rw [h] <;> simp
    have hne : (received first.key).data ≠ [] :=
      harranging.withdrawKind.elim ne_nil_of_getType ne_nil_of_getType
    rcases withdrawInitialise_cases hinit hprogram hfirst with ⟨-, rfl⟩ | ⟨hempty, -⟩
    · refine ⟨⟨harranging.kind, hne, ?_, fun h => absurd h hnotWithdraw⟩, ?_, ?_, fun h => absurd h hnotWithdraw⟩
      · rcases harranging.withdrawKind with h | h <;> simp only [h] <;> simp
      · rw [← hsettlement]
        exact hashFromSlice_congr fun o ho => harranging.hashes o ⟨ho.1, Nat.lt_trans ho.2 (by decide)⟩
      · rw [← hlastHash]
        exact hashFromSlice_congr fun o ho => harranging.hashes o ⟨Nat.le_trans (by decide) ho.1, ho.2⟩
    · exact absurd hempty hne
  · rcases withdrawInitialise_cases hinit hprogram hfirst with ⟨hne, -⟩ | ⟨-, withdrawData, hdata, hbound, hgetHash⟩
    · exact absurd hempty hne
    · have hneq : programAccount.key ≠ first.key := by
        intro heq
        rw [← heq, hstatedProgram] at hempty
        exact ne_nil_of_getType htype hempty
      have hprogramData : (m' programAccount.key).data = data := by
        rw [hdata, if_neg hneq, hstatedProgram]
      have hwithdrawData : (m' first.key).data = withdrawData := by
        rw [hdata, if_pos rfl]
      refine ⟨⟨?_, ?_, ?_, ?_⟩, ?_, ?_, ?_⟩ <;> simp only [hprogramData, hwithdrawData]
      · exact Or.inl htype
      · exact ne_nil_of_getType hbound.1
      · rw [hbound.1]
        simp
      · exact fun _ => ⟨hbound.2, hrelated⟩
      · exact hsettlement
      · exact hlastHash
      · exact fun _ => hgetHash

end Parts

end Chainring.Arch

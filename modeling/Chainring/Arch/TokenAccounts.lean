import Chainring.Arch.TokenFields

/-! Token accounts are well formed in every run: initialisations, new wallets and new token ids keep the fields
in order, and no other instruction writes to them. -/

namespace Chainring.Arch

open Bytes (slice slice_congr slice_mono slice_append ofWord ofWord_length resize resize_length resize_getElem?)
open CheckedWord (bind_eq_ok)
open Exec (Keeps keeps_ensure keeps_forM keeps_when when_eq_ok ensure_bind_eq_ok)

/-! ### Calls that set accounts up -/

def AllSound (m : Memory) : Prop := ∀ key, Sound (m key).data

section Initialisation

variable {rt : Runtime} {accounts : List AccountInfo} {m m' : Memory} {u : Unit}

theorem AllSound.setData (hm : AllSound m) {key : Pubkey} {data : Bytes} (hdata : Sound data) :
    AllSound (m.setData key data) := by
  intro key'
  rw [Memory.setData_data]
  split
  · exact hdata
  · exact hm key'

theorem AllSound.write (hm : AllSound m) {account : AccountInfo} {put : Bytes → Except Fault Bytes}
    (h : (account.write put).run m = .ok u m')
    (hput : ∀ data, put (m account.key).data = .ok data → Sound data) : AllSound m' := by
  obtain ⟨data, hdata, rfl⟩ := write_eq_ok.mp h
  exact hm.setData (hput data hdata)

theorem AllSound.realloc (hm : AllSound m) {account : AccountInfo} {newLen : Nat}
    (h : (account.realloc newLen).run m = .ok u m') (hdata : Sound (resize (m account.key).data newLen)) :
    AllSound m' := by
  intro key
  rw [realloc_data h]
  split
  · exact hdata
  · exact hm key

/-- The program account grows by the key of the rune receiver, past everything it holds. -/
theorem allSound_addReceiver {program : AccountInfo} {pubkey : Pubkey} (hm : AllSound m)
    (hlength : (m program.key).data.length = runeReceiverOffset)
    (h : (do
      program.realloc (runeReceiverOffset + pubkeySize)
      program.write (ProgramState.setRuneReceiver pubkey)).run m = .ok u m') : AllSound m' := by
  obtain ⟨_, extended, hextend, hset⟩ := Exec.bind_eq_ok.mp h
  obtain ⟨data, hdata, hafter⟩ := write_data hset
  have hlonger : (m program.key).data.length ≤ runeReceiverOffset + pubkeySize := by
    rw [hlength]
    exact Nat.le_add_right _ _
  have hsame : ∀ o < 6688, data[o]? = (m program.key).data[o]? := by
    intro o ho
    rw [(writes_setRuneReceiver pubkey _ _ hdata).2 o (Nat.not_le.mpr ho), realloc_data hextend, if_pos rfl]
    exact resize_getElem? hlonger (by rw [hlength]; exact ho)
  have htype : getType data = getType (m program.key).data :=
    getType_congr fun o ho => hsame o (Nat.lt_trans ho (by decide))
  intro key
  rw [hafter]
  split
  · refine ⟨fun htoken => ?_, fun hprogram => ?_⟩
    · have hsteps : 10240 ∣ (m program.key).data.length := ((hm program.key).token (htype.symm.trans htoken)).steps
      rw [hlength] at hsteps
      exact absurd hsteps (by decide)
    · exact ((hm program.key).program (htype.symm.trans hprogram)).congr fun o ho =>
        hsame o (Nat.lt_trans ho.2 (by decide))
  · next hkey =>
      rw [realloc_data hextend, if_neg hkey]
      exact hm key

theorem allSound_runeReceiverInitialise {accountIndex : Nat} (hm : AllSound m)
    (h : (RuneReceiverState.initialise accounts accountIndex).run m = .ok u m') : AllSound m' := by
  obtain ⟨first, -, h⟩ := accountAt_bind_eq_ok.mp h
  obtain ⟨isEmpty, hisEmpty, h⟩ := read_bind_eq_ok.mp h
  obtain rfl := Except.ok.inj hisEmpty
  rcases when_eq_ok.mp h with ⟨hempty, h⟩ | ⟨-, rfl⟩
  · rw [List.isEmpty_iff] at hempty
    obtain ⟨_, grown, hgrow, h⟩ := Exec.bind_eq_ok.mp h
    have hgrown : AllSound grown := hm.realloc hgrow (by rw [hempty]; exact Sound.zeros _)
    obtain ⟨account, -, h⟩ := accountAt_bind_eq_ok.mp h
    obtain ⟨_, typed, htype, h⟩ := Exec.bind_eq_ok.mp h
    have htyped : AllSound typed := hgrown.write htype fun data hput =>
      Sound.of_type (getType_setType hput) (by decide) (by decide)
    obtain ⟨program, -, h⟩ := accountAt_bind_eq_ok.mp h
    obtain ⟨_, keyed, hkey, h⟩ := Exec.bind_eq_ok.mp h
    have hkeyed : AllSound keyed := htyped.write hkey fun data hput =>
      (htyped account.key).writeKey (writes_setProgramAccount _) hput
    obtain ⟨programLen, hlen, h⟩ := read_bind_eq_ok.mp h
    obtain rfl := Except.ok.inj hlen
    rcases when_eq_ok.mp h with ⟨hlength, h⟩ | ⟨-, rfl⟩
    · exact allSound_addReceiver hkeyed hlength h
    · exact hkeyed
  · exact hm

theorem allSound_withdrawInitialise (hm : AllSound m) (h : (WithdrawState.initialise accounts).run m = .ok u m') :
    AllSound m' := by
  obtain ⟨withdraw, -, h⟩ := accountAt_bind_eq_ok.mp h
  obtain ⟨isEmpty, hisEmpty, h⟩ := read_bind_eq_ok.mp h
  obtain rfl := Except.ok.inj hisEmpty
  rcases when_eq_ok.mp h with ⟨hempty, h⟩ | ⟨-, rfl⟩
  · rw [List.isEmpty_iff] at hempty
    obtain ⟨_, grown, hgrow, h⟩ := Exec.bind_eq_ok.mp h
    have hgrown : AllSound grown := hm.realloc hgrow (by rw [hempty]; exact Sound.zeros _)
    obtain ⟨_, typed, htype, h⟩ := Exec.bind_eq_ok.mp h
    have htyped : AllSound typed := hgrown.write htype fun data hput =>
      Sound.of_type (getType_setType hput) (by decide) (by decide)
    obtain ⟨program, -, h⟩ := accountAt_bind_eq_ok.mp h
    exact htyped.write h fun data hput => (htyped withdraw.key).writeKey (writes_setProgramAccount _) hput
  · exact hm

/-- The fee address at its place in the encoded state. -/
theorem programState_encode_feeAccount {state : ProgramState} {bytes : Bytes} (h : state.encode = .ok bytes) :
    slice bytes feeAccountOffset maxAddressSize = some (withPadding state.feeAccountAddress maxAddressSize) := by
  obtain ⟨feeAddress, hfee, h⟩ := bind_eq_ok.mp h
  obtain ⟨changeAddress, hchange, h⟩ := bind_eq_ok.mp h
  obtain ⟨events, -, h⟩ := bind_eq_ok.mp h
  cases h
  have hfeeLength := writeStringWithPadding_length hfee
  have hpadded := (writeStringWithPadding_eq_ok_iff.mp hfee).2
  have hwithdraw := state.withdrawAccount.2
  rw [← hpadded]
  have hslice := slice_append ([state.accountType.encode] ++ ofWord 4 state.version.toNat ++
      state.withdrawAccount.1) feeAddress (changeAddress ++ [state.networkType.encode] ++
      state.settlementBatchHash.1 ++ state.lastSettlementBatchHash.1 ++ ofWord 2 state.events.length ++
      events.flatten)
  simp only [List.append_assoc, List.length_append, List.length_singleton, ofWord_length, hwithdraw,
    hfeeLength] at hslice ⊢
  exact hslice

theorem addressFromStr_of_valid {address : Utf8String} {networkType : NetworkType} {strict : Bool}
    (h : validateBitcoinAddress rt address networkType strict = .ok u) : (rt.addressFromStr address).isSome := by
  unfold validateBitcoinAddress at h
  split at h
  · cases h
  · next hsome =>
      rw [hsome]
      rfl

theorem allSound_initProgramState (haddresses : ∀ address, (rt.addressFromStr address).isSome → AddressLike address)
    {params : InitProgramStateParams} (hm : AllSound m)
    (h : (initProgramState rt accounts params).run m = .ok u m') : AllSound m' := by
  obtain ⟨-, h⟩ := validate_bind_eq_ok.mp h
  obtain ⟨-, h⟩ := validate_bind_eq_ok.mp h
  obtain ⟨_, third, hthird, h⟩ := Exec.bind_eq_ok.mp h
  have hsame : third = m := by
    rcases when_eq_ok.mp hthird with ⟨-, hvalidate⟩ | ⟨-, hsame⟩
    · exact (validateAccount_eq_ok.mp hvalidate).2
    · exact hsame
  rw [hsame] at h
  obtain ⟨_, -, h⟩ := Exec.query_bind_eq_ok.mp h
  obtain ⟨_, hfee, h⟩ := Exec.query_bind_eq_ok.mp h
  have hlike := haddresses _ (addressFromStr_of_valid hfee)
  obtain ⟨program, -, h⟩ := accountAt_bind_eq_ok.mp h
  obtain ⟨withdraw, -, h⟩ := accountAt_bind_eq_ok.mp h
  obtain ⟨newData, hencode, h⟩ := Exec.query_bind_eq_ok.mp h
  obtain ⟨_, stated, hstate, h⟩ := Exec.bind_eq_ok.mp h
  obtain ⟨_, received, hreceive, hinit⟩ := Exec.bind_eq_ok.mp h
  obtain ⟨data, hstated, -, hbytes⟩ := initStateData_data hstate
  have hfield : ∀ offset len, offset + len ≤ eventsOffset → slice data offset len = slice newData offset len :=
    fun offset len hle => slice_congr fun o _ hhigh => hbytes o (Nat.lt_of_lt_of_le hhigh hle)
  have htype := getType_of_slice ((hfield 0 1 (by decide)).trans (programState_encode hencode).1)
  have hstatedSound : AllSound stated := by
    intro key
    rw [hstated]
    split
    · refine ⟨fun htoken => ?_, fun _ => ?_⟩
      · cases htype.symm.trans htoken
      · apply holdsAddress_of_padded _ (Nat.lt_succ_of_le hlike.short) hlike.nulFree hlike.long
        exact (hfield _ _ (by decide)).trans (programState_encode_feeAccount hencode)
    · exact hm key
  have hreceived : AllSound received := by
    rcases when_eq_ok.mp hreceive with ⟨-, hreceive⟩ | ⟨-, rfl⟩
    · exact allSound_runeReceiverInitialise hstatedSound hreceive
    · exact hstatedSound
  exact allSound_withdrawInitialise hreceived hinit

/-! ### Token accounts of a call -/

theorem realloc_originalDataLen {account : AccountInfo} {newLen : Nat}
    (h : (account.realloc newLen).run m = .ok u m') (key : Pubkey) :
    (m' key).originalDataLen = (m key).originalDataLen := by
  have hput := Exec.modify_eq_ok.mp h
  split at hput
  · cases hput
    rfl
  · split at hput
    · cases hput
    · cases hput
      exact Memory.setData_originalDataLen _ _ _ _

theorem grow_cases {account : AccountInfo} {additionalBalances : Nat}
    (h : (TokenState.growBalanceAccountsIfNeeded account additionalBalances).run m = .ok u m') :
    m' = m ∨ (∀ key, (m' key).originalDataLen = (m key).originalDataLen) ∧
      ∀ key, (m' key).data = if key = account.key then
        resize (m account.key).data ((m account.key).originalDataLen + maxPermittedDataIncrease) else (m key).data := by
  obtain ⟨originalDataLen, hlen, h⟩ := Exec.query_bind_eq_ok.mp h
  obtain rfl := Except.ok.inj hlen
  obtain ⟨count, counted, hcount, h⟩ := Exec.bind_eq_ok.mp h
  have hsame : counted = m := by
    split at hcount
    · exact (read_eq_ok.mp hcount).2
    · exact (Exec.pure_eq_ok.mp hcount).2
  subst hsame
  rcases when_eq_ok.mp h with ⟨-, hrealloc⟩ | ⟨-, rfl⟩
  · exact Or.inr ⟨realloc_originalDataLen hrealloc, realloc_data hrealloc⟩
  · exact Or.inl rfl

/-- One token account is being filled in, all other accounts are sound. -/
structure FillingAt (key : Pubkey) (count counted : Nat) (m : Memory) : Prop where
  others : ∀ key', key' ≠ key → Sound (m key').data
  filling : Filling count counted (m key).data

theorem FillingAt.allSound {key : Pubkey} {count counted : Nat} (h : FillingAt key count counted m)
    (hle : counted ≤ count) : AllSound m := by
  intro key'
  by_cases hkey : key' = key
  · subst hkey
    exact h.filling.sound hle
  · exact h.others key' hkey

theorem FillingAt.write {account : AccountInfo} {count counted count' counted' : Nat}
    (h : FillingAt account.key count counted m) {put : Bytes → Except Fault Bytes}
    (hrun : (account.write put).run m = .ok u m')
    (hput : ∀ data, put (m account.key).data = .ok data → Filling count' counted' data) :
    FillingAt account.key count' counted' m' := by
  obtain ⟨data, hdata, rfl⟩ := write_eq_ok.mp hrun
  refine ⟨fun key' hne => ?_, ?_⟩
  · rw [Memory.setData_of_ne m data hne]
    exact h.others key' hne
  · rw [Memory.setData_self]
    exact hput data hdata

/-- An empty account grows by one step of zeros and gets its type. -/
theorem fillingAt_setType {account : AccountInfo} {additionalBalances : Nat} {grown typed : Memory} {u' : Unit}
    (hm : AllSound m) (hempty : (m account.key).data = [])
    (horiginal : (m account.key).originalDataLen = (m account.key).data.length)
    (hgrow : (TokenState.growBalanceAccountsIfNeeded account additionalBalances).run m = .ok u grown)
    (htype : (account.write (setType .token)).run grown = .ok u' typed) : FillingAt account.key 0 0 typed := by
  obtain ⟨data, hdata, rfl⟩ := write_eq_ok.mp htype
  have hw := writes_setType .token
  rcases grow_cases hgrow with rfl | ⟨-, hgrown⟩
  · rw [hempty] at hdata
    cases hdata
  · rw [horiginal, hempty, List.length_nil, Nat.zero_add] at hgrown
    rw [hgrown, if_pos rfl] at hdata
    refine ⟨fun key' hne => ?_, ?_⟩
    · rw [Memory.setData_of_ne grown data hne, hgrown, if_neg hne]
      exact hm key'
    · rw [Memory.setData_self]
      refine ⟨FilledUpTo.zeros.write hw hdata (fun o ho hin => ?_) fun index hindex => ?_, getType_setType hdata, ?_⟩
      · exact absurd ho.1 (Nat.not_le.mpr (Nat.lt_trans hin.2 (by decide)))
      · exact absurd hindex (Nat.not_lt_zero index)
      · rw [← numBalances_zeros maxPermittedDataIncrease]
        exact numBalances_congr fun o ho => (hw _ _ hdata).2 o fun hin =>
          absurd ho.1 (Nat.not_le.mpr (Nat.lt_trans hin.2 (by decide)))

/-- A new token account has the fee wallet and no other, and none yet where the token is a rune. -/
theorem allSound_initTokenState {params : InitTokenStateParams} (hm : AllSound m)
    (horiginal : ∀ key, (m key).originalDataLen = (m key).data.length)
    (h : (initTokenState rt accounts params).run m = .ok u m') : AllSound m' := by
  obtain ⟨hprogramValid, h⟩ := validate_bind_eq_ok.mp h
  obtain ⟨htokenValid, h⟩ := validate_bind_eq_ok.mp h
  obtain ⟨program, hprogram, h⟩ := accountAt_bind_eq_ok.mp h
  obtain ⟨token, htoken, h⟩ := accountAt_bind_eq_ok.mp h
  obtain ⟨feeAddress, hfee, h⟩ := read_bind_eq_ok.mp h
  obtain ⟨-, -, hempty⟩ := htokenValid.of_listed htoken
  have hempty : (m token.key).data = [] := hempty
  obtain ⟨address, hholds, hlong, -⟩ := (hm program.key).program (hprogramValid.type_eq hprogram)
  obtain rfl : address = feeAddress := Except.ok.inj (hholds.parse.symm.trans hfee)
  obtain ⟨_, grown, hgrow, h⟩ := Exec.bind_eq_ok.mp h
  obtain ⟨_, typed, htype, h⟩ := Exec.bind_eq_ok.mp h
  obtain ⟨_, keyed, hkey, h⟩ := Exec.bind_eq_ok.mp h
  obtain ⟨_, named, hname, h⟩ := Exec.bind_eq_ok.mp h
  have htyped : FillingAt token.key 0 0 typed := fillingAt_setType hm hempty (horiginal token.key) hgrow htype
  have hkeyed := htyped.write hkey fun data hput => htyped.filling.setProgramAccount hput
  have hnamed := hkeyed.write hname fun data hput => hkeyed.filling.setTokenId hput
  rcases when_eq_ok.mp h with ⟨-, h⟩ | ⟨-, rfl⟩
  · obtain ⟨_, counted, hcount, haddress⟩ := Exec.bind_eq_ok.mp h
    have hcounted := hnamed.write hcount fun data hput => hnamed.filling.setNumBalances hput
    have hdone := hcounted.write haddress fun data hput => hcounted.filling.setWalletAddress hholds.1 hlong hput
    exact hdone.allSound (by decide)
  · exact hnamed.allSound (Nat.le_refl 0)

theorem FillingAt.of_allSound {key : Pubkey} (hm : AllSound m) (hkind : getType (m key).data = .ok .token) :
    FillingAt key (numBalances (m key).data) (numBalances (m key).data) m where
  others := fun key' _ => hm key'
  filling := Filling.of_sound (hm key) hkind

theorem allSound_setTokenRuneId {params : SetTokenRuneIdParams} (hm : AllSound m)
    (h : (setTokenRuneId rt accounts params).run m = .ok u m') : AllSound m' := by
  obtain ⟨-, h⟩ := validate_bind_eq_ok.mp h
  obtain ⟨hvalidated, h⟩ := validate_bind_eq_ok.mp h
  obtain ⟨-, h⟩ := ensure_bind_eq_ok.mp h
  obtain ⟨token, htoken, h⟩ := accountAt_bind_eq_ok.mp h
  have hstart := FillingAt.of_allSound hm (hvalidated.type_eq htoken)
  have hdone := hstart.write h fun data hput => hstart.filling.setTokenId hput
  exact hdone.allSound (Nat.le_refl _)

/-- Accounts that hold tokens have grown by no more than one step in the call. -/
def Measured (m : Memory) : Prop :=
  ∀ key, getType (m key).data = .ok .token → maxPermittedDataIncrease ∣ (m key).originalDataLen ∧
    (m key).data.length ≤ (m key).originalDataLen + maxPermittedDataIncrease

theorem Measured.write (hm : Measured m) {account : AccountInfo} {put : Bytes → Except Fault Bytes}
    {region : Nat → Prop} (hw : Writes put region) (hregion : ∀ o, region o → 1 ≤ o)
    (h : (account.write put).run m = .ok u m') : Measured m' := by
  obtain ⟨data, hdata, rfl⟩ := write_eq_ok.mp h
  intro key hkind
  rw [Memory.setData_originalDataLen]
  rw [Memory.setData_data] at hkind ⊢
  split at hkind
  · next hkey =>
      subst hkey
      rw [if_pos rfl, (hw _ _ hdata).1]
      exact hm account.key ((getType_of_writes hw hregion hdata).symm.trans hkind)
  · next hkey =>
      rw [if_neg hkey]
      exact hm key hkind

/-- A token account that grows keeps its wallets. -/
theorem growing_grow {account : AccountInfo} {additionalBalances : Nat} (hm : AllSound m) (hmeasured : Measured m)
    (hkind : getType (m account.key).data = .ok .token)
    (h : (TokenState.growBalanceAccountsIfNeeded account additionalBalances).run m = .ok u m') :
    AllSound m' ∧ Measured m' ∧ getType (m' account.key).data = .ok .token := by
  rcases grow_cases h with rfl | ⟨horiginal, hdata⟩
  · exact ⟨hm, hmeasured, hkind⟩
  · obtain ⟨hsteps, hle⟩ := hmeasured account.key hkind
    have hlonger : 0 < (m account.key).originalDataLen + maxPermittedDataIncrease :=
      Nat.lt_of_lt_of_le (by decide) (Nat.le_add_left maxPermittedDataIncrease _)
    have htype := getType_resize (ne_nil_of_getType hkind) hlonger
    have hcount : numBalances (resize (m account.key).data ((m account.key).originalDataLen + maxPermittedDataIncrease)) =
        numBalances (m account.key).data := by
      have hroom := ((hm account.key).token hkind).room
      refine numBalances_congr fun o ho => resize_getElem? hle ?_
      exact Nat.lt_of_lt_of_le ho.2 (Nat.le_trans (Nat.le_add_right balancesOffset _) hroom)
    refine ⟨fun key => ?_, fun key htoken => ?_, ?_⟩
    · rw [hdata]
      split
      · refine ⟨fun _ => ?_, fun hprogram => ?_⟩
        · rw [hcount]
          exact ((hm account.key).token hkind).resize hle (Nat.dvd_add_self_right.mpr hsteps)
        · cases (htype.trans hkind).symm.trans hprogram
      · exact hm key
    · rw [horiginal]
      rw [hdata] at htoken ⊢
      split at htoken
      · next hkey =>
          subst hkey
          rw [if_pos rfl, resize_length]
          exact ⟨hsteps, Nat.le_refl _⟩
      · next hkey =>
          rw [if_neg hkey]
          exact hmeasured key htoken
    · rw [hdata, if_pos rfl]
      exact htype.trans hkind

/-- Each new wallet fills the next slot. -/
theorem fillingAt_addWallets (haddresses : ∀ address, (rt.addressFromStr address).isSome → AddressLike address)
    {account : AccountInfo} {networkType : NetworkType} {walletAddresses : List Utf8String} {count counted n : Nat}
    (hm : FillingAt account.key count counted m) (hmeasured : Measured m)
    (h : (walletAddresses.foldlM (addWallet rt account networkType) count).run m = .ok n m') :
    FillingAt account.key n counted m' ∧ Measured m' := by
  induction walletAddresses generalizing count m with
  | nil =>
      obtain ⟨rfl, rfl⟩ := Exec.pure_eq_ok.mp h
      exact ⟨hm, hmeasured⟩
  | cons walletAddress walletAddresses ih =>
      rw [List.foldlM_cons] at h
      obtain ⟨next, added, hadd, hrest⟩ := Exec.bind_eq_ok.mp h
      obtain ⟨_, hvalid, hadd⟩ := Exec.query_bind_eq_ok.mp hadd
      have hlike := haddresses walletAddress (addressFromStr_of_valid hvalid)
      obtain ⟨_, written, hwrite, hnext⟩ := Exec.bind_eq_ok.mp hadd
      obtain ⟨rfl, rfl⟩ := Exec.pure_eq_ok.mp hnext
      apply ih _ _ hrest
      · exact hm.write hwrite fun data hput => hm.filling.setWalletAddress hlike.nulFree hlike.long hput
      · exact hmeasured.write (writes_setWalletAddress _ _)
          (fun o ho => Nat.le_trans (by decide) (AddressBytes.ge ho)) hwrite

theorem allSound_initWalletBalances
    (haddresses : ∀ address, (rt.addressFromStr address).isSome → AddressLike address)
    {params : InitWalletBalancesParams} (hm : AllSound m) (hmeasured : Measured m)
    (h : (initWalletBalances rt accounts params).run m = .ok u m') : AllSound m' := by
  obtain ⟨-, h⟩ := validate_bind_eq_ok.mp h
  obtain ⟨program, -, h⟩ := accountAt_bind_eq_ok.mp h
  obtain ⟨networkType, -, h⟩ := read_bind_eq_ok.mp h
  have hloop : AllSound m' ∧ Measured m' := by
    refine Exec.forM_ok_invariant (I := fun m => AllSound m ∧ Measured m) (fun setup _ m m' hm hbody => ?_)
      ⟨hm, hmeasured⟩ h
    obtain ⟨hvalidated, hbody⟩ := validate_bind_eq_ok.mp hbody
    obtain ⟨account, haccount, hbody⟩ := accountAt_bind_eq_ok.mp hbody
    obtain ⟨_, grown, hgrow, hbody⟩ := Exec.bind_eq_ok.mp hbody
    obtain ⟨hgrown, hmeasuredGrown, hkind⟩ := growing_grow hm.1 hm.2 (hvalidated.type_eq haccount) hgrow
    obtain ⟨count, hcount, hbody⟩ := read_bind_eq_ok.mp hbody
    obtain rfl := (getNumBalances_eq_ok.mp hcount).2
    obtain ⟨n, added, hadd, hset⟩ := Exec.bind_eq_ok.mp hbody
    obtain ⟨hadded, hmeasuredAdded⟩ := fillingAt_addWallets haddresses (FillingAt.of_allSound hgrown hkind)
      hmeasuredGrown hadd
    have hdone := hadded.write hset fun data hput => hadded.filling.setNumBalances hput
    refine ⟨hdone.allSound (Nat.mod_le n _), ?_⟩
    exact hmeasuredAdded.write (writes_setNumBalances n) (fun o ho => Nat.le_trans (by decide) ho.1) hset
  exact hloop.1

end Initialisation

/-! ### Calls that write amounts and registers only -/

section Amounts

variable {rt : Runtime} {accounts : List AccountInfo} {m₀ : Memory}

def SameLengths (m₀ m : Memory) : Prop := ∀ key, (m key).data.length = (m₀ key).data.length

theorem keeps_lengths_write {account : AccountInfo} {put : Bytes → Except Fault Bytes} {region : Nat → Prop}
    (hw : Writes put region) : Keeps (SameLengths m₀) (account.write put) fun _ => True := by
  apply Exec.keeps_modify
  intro m hm m' hput
  obtain ⟨data, hdata, rfl⟩ := write_eq_ok.mp (Exec.modify_eq_ok.mpr hput : (account.write put).run m = .ok () m')
  refine ⟨fun key => ?_, trivial⟩
  rw [Memory.setData_data]
  split
  · next hkey =>
      subst hkey
      rw [(hw _ _ hdata).1]
      exact hm account.key
  · exact hm key

theorem keeps_lengths_rollbackWithdrawBatch (params : RollbackWithdrawBatchParams) :
    Keeps (SameLengths m₀) (rollbackWithdrawBatch accounts params) fun _ => True := by
  refine keeps_any_validate.bind fun _ _ => keeps_any_validate.bind fun _ _ => ?_
  refine keeps_accountAt.bind fun program _ => keeps_accountAt.bind fun withdraw _ => ?_
  refine (keeps_forM (P := fun _ => True) fun tokenWithdrawals _ => ?_).bind fun _ _ =>
    keeps_lengths_write (writes_setHash _)
  refine keeps_any_validate.bind fun _ _ => keeps_any_read.bind fun feeAccountAddress _ => ?_
  refine keeps_accountAt.bind fun account _ => ?_
  refine (keeps_forM (P := fun _ => True) fun withdrawal _ => ?_).weaken fun _ _ => trivial
  refine keeps_any_read.bind fun index _ => ?_
  refine (keeps_lengths_write (writes_incrementWalletBalance _ _)).bind fun _ _ => keeps_when fun _ => ?_
  refine keeps_any_validate.bind fun _ _ => keeps_accountAt.bind fun feeAccount _ => ?_
  refine keeps_any_read.bind fun feeAddress _ => keeps_ensure.bind fun _ _ => ?_
  refine (keeps_lengths_write (writes_decrementWalletBalance _ _)).bind fun _ _ => keeps_when fun _ => ?_
  exact keeps_lengths_write (writes_incrementWalletBalance _ _)

/-- The instructions that write no strings, no counts and no types. -/
def ProgramInstruction.Posting : ProgramInstruction → Prop
  | .initProgramState _ | .initTokenState _ | .initWalletBalances _ | .initRuneReceiverState
  | .setTokeRuneId _ => False
  | _ => True

theorem ProgramInstruction.Posting.reach_token {instruction : ProgramInstruction} (h : instruction.Posting)
    {data : Bytes} {o : Nat} (hreach : instruction.reach.token data o) : AnyAmount o := by
  cases instruction with
  | batchDeposit _ => exact hreach
  | prepareBatchWithdraw _ => exact hreach
  | submitBatchSettlement _ => exact hreach
  | rollbackBatchWithdraw _ => exact hreach
  | initWalletBalances _ => exact False.elim h
  | setTokeRuneId _ => exact False.elim h
  | _ => exact False.elim hreach

theorem ProgramInstruction.Posting.lengths {instruction : ProgramInstruction} (h : instruction.Posting)
    {programId : Pubkey} {raw : Bytes} {m : Memory} {u : Unit}
    (hrun : (runInstruction rt programId accounts raw instruction).run m₀ = .ok u m) : SameLengths m₀ m := by
  have hsteady := Steady.refl m₀
  cases instruction with
  | batchDeposit params => exact ((keeps_steady_depositBatch params).of_ok hsteady hrun).1.lengths
  | prepareBatchWithdraw params => exact (steady_of_prepareWithdrawBatch rt hrun).lengths
  | submitBatchSettlement params =>
      exact ((keeps_steady_submitSettlementBatch rt params raw).of_ok hsteady hrun).1.lengths
  | prepareBatchSettlement params =>
      exact ((keeps_steady_prepareSettlementBatch rt params raw).of_ok hsteady hrun).1.lengths
  | rollbackBatchSettlement => exact (keeps_steady_rollbackSettlementBatch.of_ok hsteady hrun).1.lengths
  | rollbackBatchWithdraw params =>
      exact ((keeps_lengths_rollbackWithdrawBatch params).of_ok (fun _ => rfl) hrun).1
  | submitBatchWithdraw params =>
      exact ((keeps_steady_submitWithdrawBatch rt programId params raw).of_ok hsteady hrun).1.lengths
  | updateWithdrawStateUtxo params =>
      exact ((keeps_steady_updateWithdrawStateUtxo params).of_ok hsteady hrun).1.lengths
  | _ => exact False.elim h

end Amounts

/-! ### Runs -/

section Runs

variable {rt : Runtime} {w w' : World} {call : Call}

theorem sound_of_posting {instruction : ProgramInstruction} {m : Memory} (hposting : instruction.Posting)
    (hinstruction : call.instruction = .ok instruction)
    (hrun : (runInstruction rt call.programId call.accounts call.rawParamsData instruction).run (load w) = .ok () m)
    (hsame : ∀ key, (w' key).data = (m key).data) (h : execute rt w call = some w')
    (hw : ∀ key, Sound (w key).data) (key : Pubkey) : Sound (w' key).data := by
  have hlength : (w' key).data.length = (w key).data.length := by
    rw [hsame key]
    exact hposting.lengths hrun key
  by_cases hempty : (w key).data = []
  · rw [hempty] at hlength
    rw [List.eq_nil_of_length_eq_zero hlength, ← hempty]
    exact hw key
  · have hstep := step_of_execute h
    have htype : getType (w' key).data = getType (w key).data := by
      rw [← hstep]
      exact getType_congr (step_header hempty)
    refine ⟨fun htoken => ?_, fun hprogram => ?_⟩
    · have htokenBefore := htype.symm.trans htoken
      have hbytes : ∀ o, ¬AnyAmount o → (w' key).data[o]? = (w key).data[o]? := by
        intro o ho
        by_contra hchanged
        rw [← hstep] at hchanged
        have hreach := step_token_byte htokenBefore hchanged
        rw [reachOf_eq hinstruction] at hreach
        exact ho (hposting.reach_token hreach)
      have hlow : ∀ o < 73, (w' key).data[o]? = (w key).data[o]? := fun o ho =>
        hbytes o (not_anyAmount_of_lt (Nat.lt_trans ho (by decide)))
      rw [numBalances_congr fun o ho => hlow o ho.2]
      refine ((hw key).token htokenBefore).congr hlength (fun o ho => hlow o (Nat.lt_trans ho.2 (by decide))) ?_
      intro index _ o ho
      exact hbytes o fun ⟨index', hamount⟩ => addressBytes_disjoint_amountBytes ho hamount
    · refine ((hw key).program (htype.symm.trans hprogram)).congr fun o ho => ?_
      rw [← hstep]
      exact step_program_byte (htype.symm.trans hprogram) (Nat.lt_trans ho.2 (by decide))

/-- Every call leaves sound accounts sound. -/
theorem execute_sound (haddresses : ∀ address, (rt.addressFromStr address).isSome → AddressLike address)
    (h : execute rt w call = some w') (hw : ∀ key, Sound (w key).data) (key : Pubkey) : Sound (w' key).data := by
  obtain ⟨instruction, m, hinstruction, hrun, -, hsame⟩ := execute_cases h
  by_cases hposting : instruction.Posting
  · exact sound_of_posting hposting hinstruction hrun hsame h hw key
  · have hload : AllSound (load w) := hw
    rw [hsame key]
    cases instruction with
    | initProgramState params => exact allSound_initProgramState haddresses hload hrun key
    | initTokenState params => exact allSound_initTokenState hload (fun _ => rfl) hrun key
    | initWalletBalances params =>
        refine allSound_initWalletBalances haddresses hload (fun key htoken => ?_) hrun key
        exact ⟨((hw key).token htoken).steps, Nat.le_add_right _ _⟩
    | initRuneReceiverState =>
        obtain ⟨-, hrun⟩ := validate_bind_eq_ok.mp hrun
        obtain ⟨-, hrun⟩ := validate_bind_eq_ok.mp hrun
        exact allSound_runeReceiverInitialise hload hrun key
    | setTokeRuneId params => exact allSound_setTokenRuneId hload hrun key
    | _ => exact absurd trivial hposting

theorem worldAt_sound (haddresses : ∀ address, (rt.addressFromStr address).isSome → AddressLike address)
    {start : World} {calls : List Call} (hstart : ∀ key, Sound (start key).data) {n : Nat} (hn : n ≤ calls.length)
    (key : Pubkey) : Sound (worldAt rt start calls n key).data := by
  induction n generalizing key with
  | zero => exact hstart key
  | succ n ih =>
      rw [worldAt_succ hn]
      have hbefore := ih (Nat.le_of_succ_le hn)
      cases h : execute rt (worldAt rt start calls n) calls[n] with
      | none =>
          rw [step_of_none h]
          exact hbefore key
      | some w' =>
          rw [step_of_execute h]
          exact execute_sound haddresses h hbefore key

end Runs

/-- Accounts that are neither program nor token accounts. -/
theorem sound_start {start : World}
    (hstart : ∀ key, getType (start key).data ≠ .ok .token ∧ getType (start key).data ≠ .ok .program) (key : Pubkey) :
    Sound (start key).data :=
  ⟨fun hkind => absurd hkind (hstart key).1, fun hkind => absurd hkind (hstart key).2⟩

/-- From a world without program and token accounts, where only short strings of ASCII characters parse as
addresses: every token account is well formed, the addresses of its wallets never change from then on, and the
accessors answer for every wallet. -/
theorem worldAt_wellFormed (rt : Runtime)
    (haddresses : ∀ address, (rt.addressFromStr address).isSome → AddressLike address)
    (start : World) (calls : List Call)
    (hstart : ∀ key, getType (start key).data ≠ .ok .token ∧ getType (start key).data ≠ .ok .program) {n : Nat}
    (hn : n ≤ calls.length) {token : Pubkey} (htoken : getType (worldAt rt start calls n token).data = .ok .token) :
    WellFormed (worldAt rt start calls n token).data ∧
      (∀ k, n ≤ k → k ≤ calls.length → ∀ index < numBalances (worldAt rt start calls n token).data,
        index < numBalances (worldAt rt start calls k token).data ∧
          slice (worldAt rt start calls k token).data (balancesOffset + index * balanceSize) maxAddressSize =
            slice (worldAt rt start calls n token).data (balancesOffset + index * balanceSize) maxAddressSize) ∧
      Answers rt (worldAt rt start calls n token).data := by
  have hsound : Sound (worldAt rt start calls n token).data := worldAt_sound haddresses (sound_start hstart) hn token
  have hfilled := hsound.token htoken
  have hwell : WellFormed (worldAt rt start calls n token).data :=
    ⟨hfilled.room, hfilled.tokenId, hfilled.addresses⟩
  refine ⟨hwell, fun k hnk hk index hindex => ?_, hwell.answers rt⟩
  have hkept := worldAt_kept hnk hk htoken
  refine ⟨Nat.lt_of_lt_of_le hindex hkept.counts, ?_⟩
  obtain ⟨address, ⟨-, rest, hslice⟩, -⟩ := hwell.addresses index hindex
  rw [hslice]
  exact slice_mono (fun o hlow hhigh ho => hkept.addresses index hindex o ⟨hlow, hhigh⟩ ho) hslice

/-! ### Accounts set up from nothing -/

theorem sampleRuntime_addressLike (digests : List (Bytes × Hash)) (address : Utf8String)
    (h : ((sampleRuntime digests).addressFromStr address).isSome) : AddressLike address := by
  have hsome : (sampleAddress address).isSome = true := h
  have hlike : ∀ bytes ∈ [feeAddress, firstAddress, secondAddress],
      4 ≤ bytes.length ∧ bytes.length ≤ 91 ∧ ∀ byte ∈ bytes, byte ≠ 0 ∧ byte < 128 := by decide +kernel
  have hlisted : address.bytes ∈ [feeAddress, firstAddress, secondAddress] := by
    unfold sampleAddress at hsome
    simp only [List.mem_cons, List.not_mem_nil, or_false]
    split_ifs at hsome with hfee hfirst hsecond
    · exact Or.inl hfee
    · exact Or.inr (Or.inl hfirst)
    · exact Or.inr (Or.inr hsecond)
    · cases hsome
  obtain ⟨hlong, hshort, hascii⟩ := hlike _ hlisted
  exact ⟨hlong, hshort, hascii⟩

/-- The program, a token and two wallets are set up. -/
def setUpCalls : List Call :=
  [{ programId := sampleKey 0xee
     accounts := [⟨sampleProgram, true, true⟩, ⟨sampleWithdraw, false, true⟩]
     instructionData := (ProgramInstruction.initProgramState
       ⟨⟨feeAddress, feeAddress_valid⟩, ⟨feeAddress, feeAddress_valid⟩, .regtest⟩).encode },
   ledCall [⟨sampleKey 0x31, false, true⟩] (.initTokenState ⟨⟨[0x31], sampleTokenId_valid⟩⟩),
   ledCall [⟨sampleKey 0x31, false, true⟩]
     (.initWalletBalances ⟨[⟨1, [⟨firstAddress, firstAddress_valid⟩, ⟨secondAddress, secondAddress_valid⟩]⟩]⟩)]

theorem setUpCalls_wellFormed :
    numBalances (worldAt (sampleRuntime []) (sampleWorld []) setUpCalls 3 (sampleKey 0x31)).data = 3 ∧
      WellFormed (worldAt (sampleRuntime []) (sampleWorld []) setUpCalls 3 (sampleKey 0x31)).data := by
  have hvalues : (getType (worldAt (sampleRuntime []) (sampleWorld []) setUpCalls 3 (sampleKey 0x31)).data,
      numBalances (worldAt (sampleRuntime []) (sampleWorld []) setUpCalls 3 (sampleKey 0x31)).data) =
      (.ok .token, 3) := by
    decide +kernel
  simp only [Prod.mk.injEq] at hvalues
  have hstart : ∀ key, getType (sampleWorld [] key).data ≠ .ok .token ∧
      getType (sampleWorld [] key).data ≠ .ok .program := by
    intro key
    show getType [] ≠ .ok .token ∧ getType [] ≠ .ok .program
    decide
  refine ⟨hvalues.2, ?_⟩
  exact (worldAt_wellFormed (sampleRuntime []) (sampleRuntime_addressLike []) (sampleWorld []) setUpCalls hstart
    (n := 3) (by decide) hvalues.1).1

end Chainring.Arch

import Chainring.Arch.SettlementConservation
import Chainring.Arch.WalletSlots
import Chainring.Arch.WithdrawalPayouts

/-! The wallet that settlement fees go to. Token accounts are made by InitTokenState alone, their first wallet
comes with it or with an InitWalletBalances, and its address never changes from then on. -/

namespace Chainring.Arch

open Bytes (slice slice_congr resize patch_eq_some)
open Exec (Keeps keeps_ensure keeps_query keeps_modify keeps_forM keeps_foldlM keeps_when keeps_pure)
open Ledger (Entry)

/-! ### New token accounts -/

/-- Token accounts were token accounts before. -/
def NoNewTokens (m₀ m : Memory) : Prop :=
  ∀ key, getType (m key).data = .ok .token → getType (m₀ key).data = .ok .token

section Types

variable {rt : Runtime} {accounts : List AccountInfo} {m₀ : Memory}

theorem NoNewTokens.setData {m : Memory} (h : NoNewTokens m₀ m) {key : Pubkey} {data : Bytes}
    (hdata : getType data = .ok .token → getType (m key).data = .ok .token) : NoNewTokens m₀ (m.setData key data) := by
  intro key' htoken
  rw [Memory.setData_data] at htoken
  split at htoken
  · next hkey =>
      subst hkey
      exact h key' (hdata htoken)
  · exact h key' htoken

theorem keeps_types_put {account : AccountInfo} {put : Bytes → Except Fault Bytes}
    (hput : ∀ data data', put data = .ok data' → getType data' = .ok .token → getType data = .ok .token) :
    Keeps (NoNewTokens m₀) (account.write put) fun _ => True := by
  apply keeps_modify
  intro m hm m' hwrite
  obtain ⟨data, hdata, rfl⟩ := write_eq_ok.mp (Exec.modify_eq_ok.mpr hwrite : (account.write put).run m = .ok () m')
  exact ⟨hm.setData (hput _ _ hdata), trivial⟩

theorem keeps_types_write {account : AccountInfo} {put : Bytes → Except Fault Bytes} {region : Nat → Prop}
    (hw : Writes put region) (hregion : ∀ o, region o → 1 ≤ o) :
    Keeps (NoNewTokens m₀) (account.write put) fun _ => True :=
  keeps_types_put fun _ _ hput htoken => (getType_of_writes hw hregion hput).symm.trans htoken

theorem keeps_types_setType {account : AccountInfo} {accountType : AccountType} (hne : accountType ≠ .token) :
    Keeps (NoNewTokens m₀) (account.write (setType accountType)) fun _ => True :=
  keeps_types_put fun _ _ hput htoken => absurd (Except.ok.inj ((getType_setType hput).symm.trans htoken)) hne

/-- Zeros are of no token, and other data keeps its first byte. -/
theorem token_of_resize {data : Bytes} {len : Nat} (h : getType (resize data len) = .ok .token) :
    getType data = .ok .token := by
  by_cases hempty : data = []
  · subst hempty
    cases getType_zeros h
  · rcases Nat.eq_zero_or_pos len with rfl | hpos
    · rw [resize, List.take_zero, Nat.zero_sub] at h
      cases h
    · exact (getType_resize hempty hpos).symm.trans h

theorem keeps_types_realloc {account : AccountInfo} {newLen : Nat} :
    Keeps (NoNewTokens m₀) (account.realloc newLen) fun _ => True := by
  apply keeps_modify
  intro m hm m' hrealloc
  split at hrealloc
  · cases hrealloc
    exact ⟨hm, trivial⟩
  · split at hrealloc
    · cases hrealloc
    · cases hrealloc
      exact ⟨hm.setData token_of_resize, trivial⟩

theorem keeps_types_initStateData {account : AccountInfo} {newData : Bytes} {additionalBytes : Nat}
    (hkind : getType newData = .ok .program) :
    Keeps (NoNewTokens m₀) (initStateData account newData additionalBytes) fun _ => True := by
  refine keeps_ensure.bind fun _ _ => keeps_types_realloc.bind fun _ _ => ?_
  refine keeps_types_put fun data data' hput htoken => ?_
  split at hput
  · next hlen =>
      have hlong : 37 ≤ newData.length := by
        rw [hlen]
        decide
      rw [getType_of_writeBlock hlong hput, hkind] at htoken
      cases htoken
  · cases hput

theorem keeps_types_runeReceiverInitialise {accountIndex : Nat} :
    Keeps (NoNewTokens m₀) (RuneReceiverState.initialise accounts accountIndex) fun _ => True := by
  refine keeps_accountAt.bind fun first _ => keeps_any_read.bind fun isEmpty _ => keeps_when fun _ => ?_
  refine keeps_types_realloc.bind fun _ _ => keeps_accountAt.bind fun account _ => ?_
  refine (keeps_types_setType (by decide)).bind fun _ _ => keeps_accountAt.bind fun program _ => ?_
  refine (keeps_types_write (writes_setProgramAccount _) fun o ho => ?_).bind fun _ _ => ?_
  · exact Nat.le_trans (by decide) ho.1
  · refine keeps_any_read.bind fun programLen _ => keeps_when fun _ => keeps_types_realloc.bind fun _ _ => ?_
    refine keeps_types_write (writes_setRuneReceiver _) fun o ho => Nat.le_trans (by decide) ho

theorem keeps_types_withdrawInitialise :
    Keeps (NoNewTokens m₀) (WithdrawState.initialise accounts) fun _ => True := by
  refine keeps_accountAt.bind fun withdraw _ => keeps_any_read.bind fun isEmpty _ => keeps_when fun _ => ?_
  refine keeps_types_realloc.bind fun _ _ => (keeps_types_setType (by decide)).bind fun _ _ => ?_
  refine keeps_accountAt.bind fun program _ => keeps_types_write (writes_setProgramAccount _) fun o ho => ?_
  exact Nat.le_trans (by decide) ho.1

theorem keeps_types_initProgramState (params : InitProgramStateParams) :
    Keeps (NoNewTokens m₀) (initProgramState rt accounts params) fun _ => True := by
  refine keeps_any_validate.bind fun _ _ => keeps_any_validate.bind fun _ _ => ?_
  refine (keeps_when fun _ => keeps_any_validate).bind fun _ _ => ?_
  refine keeps_lift.bind fun _ _ => keeps_lift.bind fun _ _ => ?_
  refine keeps_accountAt.bind fun program _ => keeps_accountAt.bind fun withdraw _ => ?_
  refine (keeps_query (Q := fun newData => getType newData = .ok .program) fun m _ newData hencode => ?_).bind
    fun newData hkind => ?_
  · exact getType_of_slice (programState_encode hencode).1
  · refine (keeps_types_initStateData hkind).bind fun _ _ => ?_
    exact (keeps_when fun _ => keeps_types_runeReceiverInitialise).bind fun _ _ => keeps_types_withdrawInitialise

theorem keeps_types_initWalletBalances (params : InitWalletBalancesParams) :
    Keeps (NoNewTokens m₀) (initWalletBalances rt accounts params) fun _ => True := by
  refine keeps_any_validate.bind fun _ _ => keeps_accountAt.bind fun program _ => ?_
  refine keeps_any_read.bind fun networkType _ => ?_
  refine (keeps_forM (P := fun _ => True) fun setup _ => ?_).weaken fun _ _ => trivial
  refine keeps_any_validate.bind fun _ _ => keeps_accountAt.bind fun account _ => ?_
  refine Keeps.bind (Q := fun _ => True) ?_ fun _ _ => keeps_any_read.bind fun count _ => ?_
  · refine (keeps_query (Q := fun _ => True) fun _ _ _ _ => trivial).bind fun originalDataLen _ => ?_
    refine Keeps.bind (Q := fun _ => True) ?_ fun numBalances _ => keeps_when fun _ => keeps_types_realloc
    split
    · exact keeps_any_read
    · exact keeps_pure trivial
  · refine (keeps_foldlM (P := fun _ => True) trivial fun count address _ _ => ?_).bind fun count _ => ?_
    · refine keeps_lift.bind fun _ _ => Keeps.bind (Q := fun _ => True) ?_ fun _ _ => keeps_pure trivial
      exact keeps_types_write (writes_setWalletAddress _ _) fun o ho => Nat.le_trans (by decide) (AddressBytes.ge ho)
    · exact keeps_types_write (writes_setNumBalances _) fun o ho => Nat.le_trans (by decide) ho.1

end Types

section Calls

variable {rt : Runtime} {w w' : World} {call : Call} {token : Pubkey}

/-- Only InitTokenState makes token accounts. -/
theorem token_of_execute (h : execute rt w call = some w')
    (hinit : ∀ params, call.instruction ≠ .ok (.initTokenState params)) (htoken : getType (w' token).data = .ok .token) :
    getType (w token).data = .ok .token := by
  by_cases hempty : (w token).data = []
  · obtain ⟨instruction, m, hinstruction, hrun, -, hdata⟩ := execute_cases h
    rw [hdata] at htoken
    have hstart : NoNewTokens (load w) (load w) := fun _ htoken => htoken
    have hgrows : (m token).data.length ≠ (w token).data.length := by
      rw [hempty]
      exact fun hlength => ne_nil_of_getType htoken (List.eq_nil_of_length_eq_zero hlength)
    by_cases hposting : instruction.Posting
    · exact absurd (hposting.lengths hrun token) hgrows
    · cases instruction with
      | initProgramState params =>
          exact ((keeps_types_initProgramState params).of_ok hstart hrun).1 token htoken
      | initTokenState params => exact absurd hinstruction (hinit params)
      | initWalletBalances params =>
          exact ((keeps_types_initWalletBalances params).of_ok hstart hrun).1 token htoken
      | initRuneReceiverState =>
          have hkeeps : Keeps (NoNewTokens (load w)) (initRuneReceiverState call.accounts) fun _ => True :=
            keeps_any_validate.bind fun _ _ => keeps_any_validate.bind fun _ _ => keeps_types_runeReceiverInitialise
          exact (hkeeps.of_ok hstart hrun).1 token htoken
      | setTokeRuneId params =>
          have hsteady := ((keeps_steady_setTokenRuneId rt params).of_ok (Steady.refl (load w)) hrun).1
          exact absurd (hsteady.lengths token) hgrows
      | _ => exact absurd trivial hposting
  · have hheader : ∀ o < 37, (step rt w call token).data[o]? = (w token).data[o]? := step_header hempty
    rw [step_of_execute h] at hheader
    exact (getType_congr hheader).symm.trans htoken

/-- Only InitWalletBalances changes the number of wallets. -/
theorem numBalances_of_execute (h : execute rt w call = some w')
    (hinit : ∀ params, call.instruction ≠ .ok (.initWalletBalances params))
    (htoken : getType (w token).data = .ok .token) : numBalances (w' token).data = numBalances (w token).data := by
  refine numBalances_congr fun o ho => ?_
  by_contra hchanged
  obtain ⟨instruction, -, hinstruction, -⟩ := execute_cases h
  rw [← step_of_execute h] at hchanged
  have hreach := step_token_byte htoken hchanged
  rw [reachOf_eq hinstruction] at hreach
  have hamount : ¬AnyAmount o := not_anyAmount_of_lt (Nat.lt_trans ho.2 (by decide))
  cases instruction with
  | initWalletBalances params => exact hinit params hinstruction
  | setTokeRuneId _ => exact absurd hreach.2 (Nat.not_lt.mpr ho.1)
  | batchDeposit _ => exact hamount hreach
  | prepareBatchWithdraw _ => exact hamount hreach
  | submitBatchSettlement _ => exact hamount hreach
  | rollbackBatchWithdraw _ => exact hamount hreach
  | _ => exact hreach

/-- An account with a first wallet. -/
def InUse (data : Bytes) : Prop := getType data = .ok .token ∧ 0 < numBalances data

/-- A token account that is initialised belongs to the program, and it has the fee account's address in its first
slot or no wallet at all. -/
theorem tokenInitialise_cases {account : AccountInfo} {tokenId address : Utf8String} {pubkey : Pubkey} {m m' : Memory}
    {u : Unit} (hm : AllSound m) (hempty : (m account.key).data = [])
    (horiginal : (m account.key).originalDataLen = (m account.key).data.length) (hnul : 0 ∉ address.bytes)
    (h : (TokenState.initialise rt account tokenId address pubkey).run m = .ok u m') :
    (∀ key, key ≠ account.key → (m' key).data = (m key).data) ∧
      relatedAccountKey .token (m' account.key).data = .ok pubkey ∧
      (numBalances (m' account.key).data = 0 ∨ HoldsWallet 0 address (m' account.key).data) := by
  obtain ⟨_, grown, hgrow, h⟩ := Exec.bind_eq_ok.mp h
  obtain ⟨_, typed, htype, h⟩ := Exec.bind_eq_ok.mp h
  obtain ⟨_, keyed, hkey, h⟩ := Exec.bind_eq_ok.mp h
  obtain ⟨_, named, hname, h⟩ := Exec.bind_eq_ok.mp h
  have htyped : FillingAt account.key 0 0 typed := fillingAt_setType hm hempty horiginal hgrow htype
  have hkeyed := htyped.write hkey fun data hput => htyped.filling.setProgramAccount hput
  have hnamed := hkeyed.write hname fun data hput => hkeyed.filling.setTokenId hput
  obtain ⟨_, -, htypedSame⟩ := write_data htype
  obtain ⟨keyedData, hkeyedData, hkeyedSame⟩ := write_data hkey
  obtain ⟨namedData, hnamedData, hnamedSame⟩ := write_data hname
  have hrelated : relatedAccountKey .token (named account.key).data = .ok pubkey := by
    rw [hkeyedSame, if_pos rfl] at hnamedData
    rw [hnamedSame, if_pos rfl]
    have hslice := Bytes.slice_patch (writeBlock_eq_ok.mp hkeyedData)
    rw [pubkey.2] at hslice
    have hread : relatedAccountKey .token keyedData = .ok pubkey := readArray_eq_ok.mpr hslice
    refine (relatedAccountKey_congr .token fun o ho => ?_).trans hread
    exact (writes_setTokenId _ _ _ hnamedData).2 o fun hin => absurd hin.1 (Nat.not_le.mpr ho)
  have hothers : ∀ key, key ≠ account.key → (named key).data = (m key).data := by
    intro key hne
    rw [hnamedSame, if_neg hne, hkeyedSame, if_neg hne, htypedSame, if_neg hne]
    rcases grow_cases hgrow with rfl | ⟨-, hgrown⟩
    · rfl
    · rw [hgrown, if_neg hne]
  rcases Exec.when_eq_ok.mp h with ⟨-, h⟩ | ⟨-, rfl⟩
  · obtain ⟨_, counted, hcount, haddress⟩ := Exec.bind_eq_ok.mp h
    obtain ⟨countedData, hcountedData, hcountedSame⟩ := write_data hcount
    obtain ⟨finalData, hfinalData, hfinalSame⟩ := write_data haddress
    refine ⟨fun key hne => ?_, ?_, Or.inr ?_⟩
    · rw [hfinalSame, if_neg hne, hcountedSame, if_neg hne, hothers key hne]
    · rw [hcountedSame, if_pos rfl] at hfinalData
      rw [hfinalSame, if_pos rfl]
      refine (relatedAccountKey_congr .token fun o ho => ?_).trans hrelated
      calc finalData[o]? = countedData[o]? :=
            (writes_setWalletAddress 0 address _ _ hfinalData).2 o fun hin =>
              absurd (AddressBytes.ge hin) (Nat.not_le.mpr (Nat.lt_trans ho (by decide)))
        _ = (named account.key).data[o]? :=
            (writes_setNumBalances 1 _ _ hcountedData).2 o fun hin =>
              absurd hin.1 (Nat.not_le.mpr (Nat.lt_trans ho (by decide)))
    · rw [hfinalSame, if_pos rfl]
      exact holdsWallet_setWalletAddress hnul hfinalData
  · exact ⟨hothers, hrelated, Or.inl hnamed.filling.counts⟩

/-- The first wallet that a token account gets by its initialisation is the fee account of the program. -/
theorem initTokenState_firstWallet {accounts : List AccountInfo} {params : InitTokenStateParams} {m : Memory}
    (hsound : ∀ key, Sound (w key).data) (h : (initTokenState rt accounts params).run (load w) = .ok () m)
    (hbefore : ¬InUse (w token).data) (hafter : InUse (m token).data) :
    ∃ program address, keyAt accounts 0 = some program ∧ getType (w program).data = .ok .program ∧
      ProgramState.getFeeAccountAddress (w program).data = .ok address ∧
      relatedAccountKey .token (m token).data = .ok program ∧ HoldsWallet 0 address (m token).data := by
  have hload : AllSound (load w) := hsound
  obtain ⟨hprogramValid, h⟩ := validate_bind_eq_ok.mp h
  obtain ⟨htokenValid, h⟩ := validate_bind_eq_ok.mp h
  obtain ⟨program, hprogram, h⟩ := accountAt_bind_eq_ok.mp h
  obtain ⟨account, haccount, h⟩ := accountAt_bind_eq_ok.mp h
  obtain ⟨feeAddress, hfee, h⟩ := read_bind_eq_ok.mp h
  obtain ⟨-, -, hempty⟩ := htokenValid.of_listed haccount
  have hkind := hprogramValid.type_eq hprogram
  obtain ⟨address, hholds, -⟩ := (hload program.key).program hkind
  obtain rfl : address = feeAddress := Except.ok.inj (hholds.parse.symm.trans hfee)
  obtain ⟨hothers, hrelated, hfirst⟩ := tokenInitialise_cases hload hempty rfl hholds.1 h
  obtain rfl : token = account.key := by
    by_contra hne
    rw [hothers token hne] at hafter
    exact hbefore hafter
  refine ⟨program.key, address, keyAt_of_listed hprogram, hkind, hfee, hrelated, hfirst.resolve_left ?_⟩
  exact Nat.pos_iff_ne_zero.mp hafter.2

theorem counted_of_sound (hsound : ∀ key, Sound (w key).data) : Counted w := fun key htoken =>
  (Nat.le_add_right _ _).trans ((hsound key).token htoken).room

/-- The first address that the setups bring to an account without wallets is its first wallet. -/
theorem initWalletBalances_firstWallet (haddresses : ∀ address, (rt.addressFromStr address).isSome → AddressLike address)
    (hsound : ∀ key, Sound (w key).data) {accounts : List AccountInfo} {params : InitWalletBalancesParams} {m : Memory}
    (h : (initWalletBalances rt accounts params).run (load w) = .ok () m) (hnone : numBalances (w token).data = 0) :
    numBalances (m token).data = (walletsFor accounts params.tokenStateSetups token).length ∧
      ∀ address, (walletsFor accounts params.tokenStateSetups token).head? = some address →
        ∃ program, keyAt accounts 0 = some program ∧ getType (w program).data = .ok .program ∧
          Bound .token program (w token).data ∧ HoldsWallet 0 address (m token).data := by
  obtain ⟨hvalidated, hall, hjoined⟩ := initWalletBalances_joined haddresses (counted_of_sound hsound) h
  have hcounts : numBalances (m token).data =
      numBalances (w token).data + (walletsFor accounts params.tokenStateSetups token).length := (hjoined token).counts
  rw [hnone, Nat.zero_add] at hcounts
  refine ⟨hcounts, fun address hhead => ?_⟩
  obtain ⟨program, hprogram, -⟩ := id hvalidated
  have hkey := keyAt_of_listed hprogram
  obtain ⟨rest, hwallets⟩ := List.head?_eq_some_iff.mp hhead
  have hbound : Bound .token program.key (w token).data := hall.bound hkey fun hnil => by
    rw [hnil] at hwallets
    cases hwallets
  have hfirst := (hjoined token).wallets 0 (by rw [hwallets]; exact Nat.succ_pos _)
  rw [show numBalances (load w token).data = 0 from hnone] at hfirst
  simp only [hwallets, List.getElem_cons_zero] at hfirst
  exact ⟨program.key, hkey, hvalidated.type_eq hprogram, hbound, hfirst⟩

/-- The call that brings the first wallet: the fee account's address with the initialisation, or what the setups
of an InitWalletBalances list first. -/
theorem execute_firstWallet (haddresses : ∀ address, (rt.addressFromStr address).isSome → AddressLike address)
    (hsound : ∀ key, Sound (w key).data) (h : execute rt w call = some w') (hbefore : ¬InUse (w token).data)
    (hafter : InUse (w' token).data) :
    ∃ program address, keyAt call.accounts 0 = some program ∧ getType (w program).data = .ok .program ∧
      relatedAccountKey .token (w' token).data = .ok program ∧ HoldsWallet 0 address (w' token).data ∧
      (ProgramState.getFeeAccountAddress (w program).data = .ok address ∨
        ∃ params, call.instruction = .ok (.initWalletBalances params) ∧ numBalances (w token).data = 0 ∧
          (walletsFor call.accounts params.tokenStateSetups token).head? = some address) := by
  obtain ⟨instruction, m, hinstruction, hrun, -, hdata⟩ := execute_cases h
  by_cases hinit : ∃ params, instruction = .initTokenState params
  · obtain ⟨params, rfl⟩ := hinit
    rw [hdata] at hafter ⊢
    obtain ⟨program, address, hprogram, hkind, hfee, hrelated, hfirst⟩ :=
      initTokenState_firstWallet hsound hrun hbefore hafter
    exact ⟨program, address, hprogram, hkind, hrelated, hfirst, Or.inl hfee⟩
  · have htoken : getType (w token).data = .ok .token := token_of_execute h (fun params heq =>
      hinit ⟨params, Except.ok.inj (hinstruction.symm.trans heq)⟩) hafter.1
    have hnone : numBalances (w token).data = 0 := by
      by_contra hsome
      exact hbefore ⟨htoken, Nat.pos_of_ne_zero hsome⟩
    by_cases hwallets : ∃ params, instruction = .initWalletBalances params
    · obtain ⟨params, rfl⟩ := hwallets
      obtain ⟨hcounts, hfirst⟩ := initWalletBalances_firstWallet haddresses hsound hrun hnone
      cases hhead : (walletsFor call.accounts params.tokenStateSetups token).head? with
      | none =>
          rw [List.head?_eq_none_iff.mp hhead, List.length_nil, ← hdata] at hcounts
          exact absurd hafter.2 (Nat.not_lt.mpr (Nat.le_of_eq hcounts))
      | some address =>
          obtain ⟨program, hprogram, hkind, hbound, hholds⟩ := hfirst address hhead
          have hheader : ∀ o < 37, (step rt w call token).data[o]? = (w token).data[o]? :=
            step_header (ne_nil_of_getType htoken)
          rw [step_of_execute h] at hheader
          rw [← hdata] at hholds
          exact ⟨program, address, hprogram, hkind, ((bound_congr hheader).mpr hbound).2, hholds,
            Or.inr ⟨params, hinstruction, hnone, hhead⟩⟩
    · have hsame := numBalances_of_execute h (fun params heq =>
        hwallets ⟨params, Except.ok.inj (hinstruction.symm.trans heq)⟩) htoken
      rw [hnone] at hsame
      exact absurd hafter.2 (Nat.not_lt.mpr (Nat.le_of_eq hsame))

end Calls

/-! ### What a submission posts -/

/-- What the fee of an entry posts to the wallets of its account. -/
def SettlementAdjustments.feeEntries (key : Pubkey) (tokenSettlements : SettlementAdjustments) :
    List (Entry (Pubkey × Nat)) :=
  if 0 < tokenSettlements.feeAmount then
    [.credit (key, feeAddressIndex.toNat) tokenSettlements.feeAmount.toNat] else []

/-- What the increments and the decrements of an entry post. -/
def SettlementAdjustments.adjustmentEntries (key : Pubkey) (tokenSettlements : SettlementAdjustments) :
    List (Entry (Pubkey × Nat)) :=
  credits key tokenSettlements.increments ++ debits key tokenSettlements.decrements

/-- What an entry posts as its fee by the account at its position. -/
def feeEntriesOf (accounts : List AccountInfo) (tokenSettlements : SettlementAdjustments) :
    List (Entry (Pubkey × Nat)) :=
  match keyAt accounts tokenSettlements.accountIndex with
  | some key => tokenSettlements.feeEntries key
  | none => []

def adjustmentEntriesOf (accounts : List AccountInfo) (tokenSettlements : SettlementAdjustments) :
    List (Entry (Pubkey × Nat)) :=
  match keyAt accounts tokenSettlements.accountIndex with
  | some key => tokenSettlements.adjustmentEntries key
  | none => []

/-- The balances of the token accounts are those before with the entries posted to them in their order. -/
def Posted (w w' : World) (entries : List (Entry (Pubkey × Nat))) : Prop :=
  ∃ final, Ledger.run .wraps amountModulus (balances (load w)) entries = some final ∧
    ∀ slot, getType (w slot.1).data = .ok .token → balances (load w') slot = final slot

theorem entriesOf_eq (accounts : List AccountInfo) (tokenSettlements : SettlementAdjustments) :
    entriesOf accounts tokenSettlements =
      feeEntriesOf accounts tokenSettlements ++ adjustmentEntriesOf accounts tokenSettlements := by
  rw [entriesOf, feeEntriesOf, adjustmentEntriesOf]
  cases keyAt accounts tokenSettlements.accountIndex <;> rfl

/-- A fee is credited to the wallet at the fee's index of the account that its entry names. -/
theorem mem_feeEntriesOf {accounts : List AccountInfo} {tokenSettlements : SettlementAdjustments}
    {slot : Pubkey × Nat} {amount : Nat} :
    .credit slot amount ∈ feeEntriesOf accounts tokenSettlements ↔
      0 < tokenSettlements.feeAmount ∧ keyAt accounts tokenSettlements.accountIndex = some slot.1 ∧
        slot.2 = feeAddressIndex.toNat ∧ amount = tokenSettlements.feeAmount.toNat := by
  rw [feeEntriesOf]
  cases hkey : keyAt accounts tokenSettlements.accountIndex with
  | none => simp
  | some key =>
      by_cases hfee : 0 < tokenSettlements.feeAmount
      · simp [SettlementAdjustments.feeEntries, hfee, Prod.ext_iff, eq_comm, and_assoc]
      · simp [SettlementAdjustments.feeEntries, hfee]

section Submissions

variable {rt : Runtime} {w w' : World} {call : Call} {params : SettlementBatchParams} {token : Pubkey}

/-- A submission posts the fee and the adjustments of each entry in their order, and no wallet of a token account
gets another address by it. -/
theorem submits_posted (hinstruction : call.instruction = .ok (.submitBatchSettlement params))
    (h : execute rt w call = some w') :
    Posted w w' (params.settlements.flatMap fun tokenSettlements =>
        feeEntriesOf call.accounts tokenSettlements ++ adjustmentEntriesOf call.accounts tokenSettlements) ∧
      ∀ key index, getType (w key).data = .ok .token →
        Balance.getWalletAddress index (w' key).data = Balance.getWalletAddress index (w key).data := by
  obtain ⟨instruction, m, hinstruction', hrun, -, hdata⟩ := execute_cases h
  obtain rfl := Except.ok.inj (hinstruction'.symm.trans hinstruction)
  obtain ⟨program, applied, marked, hvalidated, hprogram, -, -, happly, hmark, hclear⟩ :=
    submitSettlementBatch_cases hrun
  obtain ⟨-, hamounts, hposts⟩ := posts_settlements params.settlements (load w) () applied (AmountsOnly.refl _) happly
  obtain ⟨markedData, -, rfl⟩ := write_eq_ok.mp hmark
  obtain ⟨clearedData, -, rfl⟩ := write_eq_ok.mp hclear
  have hafter : ∀ key, getType (w key).data = .ok .token → (w' key).data = (applied key).data := by
    intro key htoken
    have hne : key ≠ program.key := by
      rintro rfl
      have hkind := htoken.symm.trans (hvalidated.type_eq hprogram)
      cases hkind
    rw [hdata, Memory.setData_of_ne _ _ hne, Memory.setData_of_ne _ _ hne]
  refine ⟨⟨balances applied, ?_, fun slot htoken => ?_⟩, fun key index htoken => ?_⟩
  · calc Ledger.run .wraps amountModulus (balances (load w)) _
        = Ledger.run .wraps amountModulus (balances (load w)) (params.settlements.flatMap (entriesOf call.accounts)) := by
          rw [List.flatMap_congr fun tokenSettlements _ => (entriesOf_eq call.accounts tokenSettlements).symm]
      _ = some (balances applied) := hposts
  · show amountAt (w' slot.1).data slot.2 = amountAt (applied slot.1).data slot.2
    rw [hafter slot.1 htoken]
  · rw [hafter key htoken]
    exact hamounts.getWalletAddress_eq key index

/-- A settlement that goes through takes its fees on token accounts of the program that have a wallet. -/
theorem submits_bound (hinstruction : call.instruction = .ok (.submitBatchSettlement params))
    (h : execute rt w call = some w') {tokenSettlements : SettlementAdjustments}
    (hmem : tokenSettlements ∈ params.settlements) (hfee : 0 < tokenSettlements.feeAmount)
    (htoken : keyAt call.accounts tokenSettlements.accountIndex = some token) :
    ∃ program, keyAt call.accounts 0 = some program ∧ getType (w program).data = .ok .program ∧
      Bound .token program (w token).data ∧ 0 < numBalances (w token).data := by
  obtain ⟨instruction, m, hinstruction', hrun, -, -⟩ := execute_cases h
  obtain rfl := Except.ok.inj (hinstruction'.symm.trans hinstruction)
  obtain ⟨program, applied, _, hprogramValid, hprogram, -, -, happly, -, -⟩ := submitSettlementBatch_cases hrun
  obtain ⟨hready, -⟩ := (admits_settlements params.settlements _ (AmountsOnly.refl _)).mp ⟨(), applied, happly⟩
  obtain ⟨hvalidated, hadjusts⟩ := hready tokenSettlements hmem
  obtain ⟨account, haccount, rfl⟩ := Option.map_eq_some_iff.mp htoken
  obtain ⟨-, -, related, hrelated, hbound⟩ := hvalidated.of_listed haccount
  obtain rfl : related = program := Option.some.inj (hrelated.symm.trans hprogram)
  exact ⟨related.key, keyAt_of_listed hprogram, hprogramValid.type_eq hprogram, hbound,
    ((hadjusts account.key htoken).fee hfee).1⟩

end Submissions

/-! ### Runs -/

/-- The wallet has the address that the program has stored for its fee account. -/
def HeldByFeeAccount (w : World) (program : Pubkey) (slot : Pubkey × Nat) : Prop :=
  ∃ feeAccountAddress, ProgramState.getFeeAccountAddress (w program).data = .ok feeAccountAddress ∧
    Balance.getWalletAddress slot.2 (w slot.1).data = .ok feeAccountAddress

/-- Every wallet that a fee of the batch is credited to belongs to the fee account. -/
def FeesReach (w : World) (accounts : List AccountInfo) (settlements : List SettlementAdjustments) : Prop :=
  ∀ slot amount, .credit slot amount ∈ settlements.flatMap (feeEntriesOf accounts) → ∀ program,
    keyAt accounts 0 = some program → HeldByFeeAccount w program slot

/-- A call that brings wallets to a token account without any lists the fee account's address first. -/
def FeeAccountFirst (w : World) (call : Call) (token : Pubkey) : Prop :=
  ∀ params program address, call.instruction = .ok (.initWalletBalances params) →
    keyAt call.accounts 0 = some program → numBalances (w token).data = 0 →
    (walletsFor call.accounts params.tokenStateSetups token).head? = some address →
    ProgramState.getFeeAccountAddress (w program).data = .ok address

section Runs

variable {rt : Runtime} {start : World} {calls : List Call} {n : Nat} {program token : Pubkey}

/-- A first wallet came with some call. -/
theorem exists_firstWallet (hstart : ∀ key, getType (start key).data ≠ .ok .token) (hn : n ≤ calls.length)
    (hused : InUse (worldAt rt start calls n token).data) :
    ∃ k call, k < n ∧ Returns rt start calls k call ∧ ¬InUse (worldAt rt start calls k token).data ∧
      InUse (worldAt rt start calls (k + 1) token).data := by
  induction n with
  | zero => exact absurd hused.1 (hstart token)
  | succ n ih =>
      by_cases hbefore : InUse (worldAt rt start calls n token).data
      · obtain ⟨k, call, hk, hcall⟩ := ih (Nat.le_of_succ_le hn) hbefore
        exact ⟨k, call, Nat.lt_succ_of_lt hk, hcall⟩
      · refine ⟨n, calls[n], Nat.lt_succ_self n, ⟨List.getElem?_eq_getElem hn, ?_⟩, hbefore, hused⟩
        cases h : execute rt (worldAt rt start calls n) calls[n] with
        | some w' => rfl
        | none =>
            rw [worldAt_succ hn, step_of_none h] at hused
            exact absurd hused hbefore

/-- The fee account of a program never changes. -/
theorem worldAt_feeAccountAddress {k : Nat} (hnk : n ≤ k) (hk : k ≤ calls.length)
    (hprogram : getType (worldAt rt start calls n program).data = .ok .program) :
    ProgramState.getFeeAccountAddress (worldAt rt start calls k program).data =
      ProgramState.getFeeAccountAddress (worldAt rt start calls n program).data :=
  getFeeAccountAddress_congr fun _ ho => worldAt_program_byte hnk hk hprogram (Nat.lt_trans ho (by decide))

/-- A wallet in use is still there at any later point. -/
theorem worldAt_firstWallet {k : Nat} (hnk : n ≤ k) (hk : k ≤ calls.length)
    (hused : InUse (worldAt rt start calls n token).data) {address : Utf8String}
    (hholds : HoldsWallet 0 address (worldAt rt start calls n token).data) :
    Balance.getWalletAddress 0 (worldAt rt start calls k token).data = .ok address :=
  (worldAt_kept hnk hk hused.1).walletAddress hused.2 hholds.getWalletAddress

/-- The first wallet of a token account that is in use has the fee account's address exactly when no call has
brought another one first. -/
theorem firstWallet_held_iff (haddresses : ∀ address, (rt.addressFromStr address).isSome → AddressLike address)
    (hstart : ∀ key, getType (start key).data ≠ .ok .token ∧ getType (start key).data ≠ .ok .program)
    (hn : n ≤ calls.length) (hbound : Bound .token program (worldAt rt start calls n token).data)
    (hcount : 0 < numBalances (worldAt rt start calls n token).data) :
    HeldByFeeAccount (worldAt rt start calls n) program (token, feeAddressIndex.toNat) ↔
      ∀ k call, k < n → Returns rt start calls k call → FeeAccountFirst (worldAt rt start calls k) call token := by
  have hsound : ∀ {k}, k ≤ calls.length → ∀ key, Sound (worldAt rt start calls k key).data := fun hk =>
    worldAt_sound haddresses (sound_start hstart) hk
  have howner : ∀ {k owner}, k ≤ n → getType (worldAt rt start calls k token).data = .ok .token →
      relatedAccountKey .token (worldAt rt start calls k token).data = .ok owner → owner = program := by
    intro k owner hkn htoken howner
    have hkept := (worldAt_kept hkn hn htoken).bound ⟨htoken, howner⟩
    exact Except.ok.inj (hkept.2.symm.trans hbound.2)
  constructor
  · rintro ⟨feeAddress, hfee, hslot⟩ k call hkn hreturns params first address hinstruction hfirst hnone hhead
    have hk : k ≤ calls.length := hreturns.lt.le
    obtain ⟨instruction, m, hinstruction', hrun, -, hdata⟩ := execute_cases hreturns.execute
    obtain rfl := Except.ok.inj (hinstruction'.symm.trans hinstruction)
    obtain ⟨hcounts, hjoins⟩ := initWalletBalances_firstWallet haddresses (hsound hk) hrun hnone
    obtain ⟨owner, howned, hkind, hbound', hholds⟩ := hjoins address hhead
    obtain rfl : owner = first := Option.some.inj (howned.symm.trans hfirst)
    obtain rfl : owner = program := howner hkn.le hbound'.1 hbound'.2
    have hused : InUse (worldAt rt start calls (k + 1) token).data := by
      refine ⟨(worldAt_kept k.le_succ hreturns.lt hbound'.1).getType_eq.trans hbound'.1, ?_⟩
      rw [hdata, hcounts]
      exact List.length_pos_of_ne_nil fun hnil => by rw [hnil] at hhead; cases hhead
    rw [← hdata] at hholds
    have haddress := worldAt_firstWallet hkn hn hused hholds
    obtain rfl : feeAddress = address := Except.ok.inj (hslot.symm.trans haddress)
    rw [← worldAt_feeAccountAddress hkn.le hn hkind]
    exact hfee
  · intro hcalls
    obtain ⟨k, call, hkn, hreturns, hbefore, hused⟩ :=
      exists_firstWallet (fun key => (hstart key).1) hn ⟨hbound.1, hcount⟩
    obtain ⟨owner, address, howned, hkind, hrelated, hholds, hcases⟩ :=
      execute_firstWallet haddresses (hsound hreturns.lt.le) hreturns.execute hbefore hused
    obtain rfl : owner = program := howner hkn hused.1 hrelated
    have hfee : ProgramState.getFeeAccountAddress (worldAt rt start calls k owner).data = .ok address := by
      rcases hcases with hfee | ⟨params, hinstruction, hnone, hhead⟩
      · exact hfee
      · exact hcalls k call hkn hreturns params owner address hinstruction howned hnone hhead
    refine ⟨address, ?_, worldAt_firstWallet hkn hn hused hholds⟩
    rw [worldAt_feeAccountAddress hkn.le hn hkind]
    exact hfee

end Runs

/-! ### A rune token

Its first wallet is the given one; a deposit follows and a settlement is prepared. -/

def runeTokenCalls (firstWallet : Utf8String) : List Call :=
  [{ programId := sampleKey 0xee
     accounts := [⟨sampleProgram, true, true⟩, ⟨sampleWithdraw, false, true⟩]
     instructionData := (ProgramInstruction.initProgramState
       ⟨⟨feeAddress, feeAddress_valid⟩, ⟨feeAddress, feeAddress_valid⟩, .regtest⟩).encode },
   ledCall [⟨firstToken, false, true⟩] (.initTokenState ⟨⟨sampleRuneText, by decide⟩⟩),
   ledCall [⟨firstToken, false, true⟩] (.initWalletBalances
     ⟨[⟨1, [firstWallet, ⟨firstAddress, firstAddress_valid⟩, ⟨secondAddress, secondAddress_valid⟩]⟩]⟩),
   ledCall [⟨firstToken, false, true⟩] (.batchDeposit
     ⟨[{ accountIndex := 1, deposits := [⟨⟨2, ⟨secondAddress.drop 40, secondAddress_last4⟩⟩, 100⟩] }]⟩),
   tradeCall 5 false evenTrade]

def runeFeeRuntime : Runtime := submitRuntime [(evenTrade, evenTradeDigest)]

def runeFeeWorld (firstWallet : Utf8String) : World :=
  worldAt runeFeeRuntime (sampleWorld []) (runeTokenCalls firstWallet) 5

theorem evenTrade_submitted (isWritable : Bool) :
    (tradeCall 6 isWritable evenTrade).instruction = .ok (.submitBatchSettlement evenTradeParams) :=
  settlementCall_submit (by decide +kernel) _ _

theorem sampleWorld_nil_kinds (key : Pubkey) :
    getType (sampleWorld [] key).data ≠ .ok .token ∧ getType (sampleWorld [] key).data ≠ .ok .program := by
  show getType [] ≠ .ok .token ∧ getType [] ≠ .ok .program
  decide

theorem evenTrade_fees (isWritable : Bool) :
    evenTradeParams.settlements.flatMap (feeEntriesOf (tokenAccounts isWritable)) = [.credit (firstToken, 0) 5] := by
  cases isWritable <;> decide +kernel

/-- The fee account's address, the address of the first wallet of the rune token and its amount after the trade. -/
def feesOutcome (w : World) : Except Fault Utf8String × Except Fault Utf8String × Nat :=
  (ProgramState.getFeeAccountAddress (w sampleProgram).data, Balance.getWalletAddress 0 (w firstToken).data,
    amountAt (w firstToken).data 0)

theorem runeFee_outcomes :
    (execute runeFeeRuntime (runeFeeWorld ⟨feeAddress, by decide⟩) (tradeCall 6 true evenTrade)).map feesOutcome =
        some (.ok ⟨feeAddress, by decide⟩, .ok ⟨feeAddress, by decide⟩, 5) ∧
      (execute runeFeeRuntime (runeFeeWorld ⟨firstAddress, by decide⟩) (tradeCall 6 true evenTrade)).map feesOutcome =
        some (.ok ⟨feeAddress, by decide⟩, .ok ⟨firstAddress, by decide⟩, 5) := by
  decide +kernel

/-- In a run from a world without program and token accounts: a settlement that goes through posts the fee and the
adjustments of each entry in their order, and the wallets that its fees are credited to belong to the fee account
exactly when, for every account that a fee is taken on, every call that brought wallets to it while it had none
listed the fee account's address first. -/
theorem settlementFees_reach_iff (rt : Runtime)
    (haddresses : ∀ address, (rt.addressFromStr address).isSome → AddressLike address) (start : World)
    (calls : List Call)
    (hstart : ∀ key, getType (start key).data ≠ .ok .token ∧ getType (start key).data ≠ .ok .program) {n : Nat}
    (hn : n ≤ calls.length) (call : Call) (params : SettlementBatchParams) (w' : World)
    (hinstruction : call.instruction = .ok (.submitBatchSettlement params))
    (hsubmits : execute rt (worldAt rt start calls n) call = some w') :
    Posted (worldAt rt start calls n) w' (params.settlements.flatMap fun tokenSettlements =>
        feeEntriesOf call.accounts tokenSettlements ++ adjustmentEntriesOf call.accounts tokenSettlements) ∧
      (FeesReach w' call.accounts params.settlements ↔
        ∀ tokenSettlements ∈ params.settlements, 0 < tokenSettlements.feeAmount → ∀ token,
          keyAt call.accounts tokenSettlements.accountIndex = some token → ∀ k earlier, k < n →
          Returns rt start calls k earlier → FeeAccountFirst (worldAt rt start calls k) earlier token) := by
  obtain ⟨hposted, hwallets⟩ := submits_posted hinstruction hsubmits
  have hheld : ∀ {program token}, getType (worldAt rt start calls n program).data = .ok .program →
      Bound .token program (worldAt rt start calls n token).data →
      0 < numBalances (worldAt rt start calls n token).data →
      (HeldByFeeAccount w' program (token, feeAddressIndex.toNat) ↔ ∀ k earlier, k < n →
        Returns rt start calls k earlier → FeeAccountFirst (worldAt rt start calls k) earlier token) := by
    intro program token hprogram hbound hcount
    rw [← firstWallet_held_iff haddresses hstart hn hbound hcount, HeldByFeeAccount, HeldByFeeAccount,
      hwallets token _ hbound.1, ← step_of_execute hsubmits, getFeeAccountAddress_congr fun o ho =>
        step_program_byte hprogram (Nat.lt_trans ho (by decide))]
  refine ⟨hposted, fun h tokenSettlements hmem hfee token htoken => ?_, fun h slot amount hcredit program hkey => ?_⟩
  · obtain ⟨program, hprogram, hkind, hbound, hcount⟩ := submits_bound hinstruction hsubmits hmem hfee htoken
    refine (hheld hkind hbound hcount).mp (h _ tokenSettlements.feeAmount.toNat ?_ program hprogram)
    exact List.mem_flatMap.mpr ⟨tokenSettlements, hmem, mem_feeEntriesOf.mpr ⟨hfee, htoken, rfl, rfl⟩⟩
  · obtain ⟨tokenSettlements, hmem, hentry⟩ := List.mem_flatMap.mp hcredit
    obtain ⟨token, index⟩ := slot
    obtain ⟨hfee, htoken, rfl, -⟩ := mem_feeEntriesOf.mp hentry
    obtain ⟨owner, howner, hkind, hbound, hcount⟩ := submits_bound hinstruction hsubmits hmem hfee htoken
    obtain rfl : owner = program := Option.some.inj (howner.symm.trans hkey)
    exact (hheld hkind hbound hcount).mpr (h tokenSettlements hmem hfee token htoken)

/-- The wallets of the rune token were brought with the fee account's address first, and the fee of 5 reaches it. -/
theorem runeFees_reach :
    ∃ w', execute runeFeeRuntime (runeFeeWorld ⟨feeAddress, by decide⟩) (tradeCall 6 true evenTrade) = some w' ∧
      Posted (runeFeeWorld ⟨feeAddress, by decide⟩) w'
        [.credit (firstToken, 0) 5, .credit (firstToken, 1) 95, .debit (firstToken, 2) 100] ∧
      FeesReach w' (tokenAccounts true) evenTradeParams.settlements ∧
      ∀ k earlier, k < 5 →
        Returns runeFeeRuntime (sampleWorld []) (runeTokenCalls ⟨feeAddress, by decide⟩) k earlier →
        FeeAccountFirst (worldAt runeFeeRuntime (sampleWorld []) (runeTokenCalls ⟨feeAddress, by decide⟩) k) earlier
          firstToken := by
  obtain ⟨w', hexecute, hvalues⟩ := Option.map_eq_some_iff.mp runeFee_outcomes.1
  obtain ⟨hfee, hrest⟩ := Prod.mk.inj hvalues
  obtain ⟨hwallet, -⟩ := Prod.mk.inj hrest
  have hreach : FeesReach w' (tokenAccounts true) evenTradeParams.settlements := by
    intro slot amount hcredit program hprogram
    rw [evenTrade_fees, List.mem_singleton] at hcredit
    obtain ⟨rfl, -⟩ := Entry.credit.inj hcredit
    obtain rfl : sampleProgram = program := Option.some.inj hprogram
    exact ⟨_, hfee, hwallet⟩
  obtain ⟨hposted, hiff⟩ := settlementFees_reach_iff runeFeeRuntime (sampleRuntime_addressLike []) (sampleWorld [])
    (runeTokenCalls ⟨feeAddress, by decide⟩) sampleWorld_nil_kinds (Nat.le_refl 5) (tradeCall 6 true evenTrade)
    evenTradeParams w' (evenTrade_submitted true) hexecute
  refine ⟨w', hexecute, ?_, hreach, hiff.mp hreach _ (List.mem_singleton.mpr rfl) (by decide) firstToken rfl⟩
  have hentries : (evenTradeParams.settlements.flatMap fun tokenSettlements =>
      feeEntriesOf (tokenAccounts true) tokenSettlements ++ adjustmentEntriesOf (tokenAccounts true) tokenSettlements) =
      [.credit (firstToken, 0) 5, .credit (firstToken, 1) 95, .debit (firstToken, 2) 100] := by
    decide +kernel
  rw [← hentries]
  exact hposted

/-- With a user's address first, the fee of 5 is credited to the wallet of that user. -/
theorem runeFees_miss :
    (tradeCall 6 true evenTrade).instruction = .ok (.submitBatchSettlement evenTradeParams) ∧
    evenTradeParams.settlements.flatMap (feeEntriesOf (tokenAccounts true)) = [.credit (firstToken, 0) 5] ∧
    ∃ w', execute runeFeeRuntime (runeFeeWorld ⟨firstAddress, by decide⟩) (tradeCall 6 true evenTrade) = some w' ∧
      amountAt (w' firstToken).data 0 = 5 ∧
      Balance.getWalletAddress 0 (w' firstToken).data = .ok ⟨firstAddress, by decide⟩ ∧
      ProgramState.getFeeAccountAddress (w' sampleProgram).data = .ok ⟨feeAddress, by decide⟩ ∧
      ¬FeesReach w' (tokenAccounts true) evenTradeParams.settlements := by
  obtain ⟨w', hexecute, hvalues⟩ := Option.map_eq_some_iff.mp runeFee_outcomes.2
  obtain ⟨hfee, hrest⟩ := Prod.mk.inj hvalues
  obtain ⟨hwallet, hamount⟩ := Prod.mk.inj hrest
  refine ⟨evenTrade_submitted true, evenTrade_fees true, w', hexecute, hamount, hwallet, hfee, fun hreach => ?_⟩
  have hcredit : Entry.credit (firstToken, 0) 5 ∈ evenTradeParams.settlements.flatMap
      (feeEntriesOf (tokenAccounts true)) := by
    rw [evenTrade_fees]
    exact List.mem_singleton.mpr rfl
  obtain ⟨address, hstored, hheld⟩ := hreach _ _ hcredit sampleProgram rfl
  have hsame : (⟨feeAddress, by decide⟩ : Utf8String) = ⟨firstAddress, by decide⟩ :=
    Except.ok.inj ((hfee.symm.trans hstored).trans (hheld.symm.trans hwallet))
  exact absurd hsame (by decide)

end Chainring.Arch

import Chainring.Arch.RoundTrip
import Chainring.Arch.TokenHistory
import Chainring.Arch.UnusedSlots

/-! The balance that a new wallet starts with. Accounts are set up and grow with zeros, so the slots past the
wallets in use hold nothing, as long as no rollback gives a fee back to one of them. -/

namespace Chainring.Arch

open Bytes (patch_eq_some)
open Exec (Keeps keeps_pure keeps_ensure keeps_query keeps_modify keeps_forM keeps_foldlM keeps_when keeps_when_imp)

/-! ### Setting up accounts -/

section Initialisation

variable (rt : Runtime) {accounts : List AccountInfo} {m₀ : Memory}

/-- An account that a call finds to be empty was empty when it began. -/
theorem keeps_spares_validate_empty {index : UInt8} {isSigner isWritable : Bool} :
    Keeps (Spares m₀) (validateAccount accounts index isSigner isWritable none none) fun _ =>
      ∀ account, accounts[index.toNat]? = some account → (m₀ account.key).data = [] := by
  apply keeps_validate
  intro m hm hvalidated account haccount
  obtain ⟨-, -, hempty⟩ := hvalidated.of_listed haccount
  by_contra hne
  have htype := hm.types account.key hne
  rw [show (m account.key).data = [] from hempty] at htype
  exact hne (eq_nil_of_getType htype.symm)

/-- Data that is not a token's, on an account that was empty. -/
theorem keeps_spares_fresh {account : AccountInfo} {put : Bytes → Except Fault Bytes}
    (hempty : (m₀ account.key).data = []) (hkind : ∀ data data', put data = .ok data' → getType data' ≠ .ok .token) :
    Keeps (Spares m₀) (account.write put) fun _ => True := by
  apply keeps_modify
  intro m hm m' hput
  obtain ⟨data, hdata, rfl⟩ := write_eq_ok.mp (Exec.modify_eq_ok.mpr hput : (account.write put).run m = .ok () m')
  refine ⟨hm.setData (fun hne => absurd hempty hne) fun htoken => ?_, trivial⟩
  exact absurd htoken (hkind _ _ hdata)

theorem keeps_spares_initStateData {account : AccountInfo} {newData : Bytes} {additionalBytes : Nat}
    (hempty : (m₀ account.key).data = []) (hkind : getType newData = .ok .program) :
    Keeps (Spares m₀) (initStateData account newData additionalBytes) fun _ => True := by
  have hlength := List.length_pos_of_ne_nil (ne_nil_of_getType hkind)
  refine keeps_ensure.bind fun _ _ => ?_
  refine (keeps_spares_realloc (by omega)).bind fun _ _ => ?_
  refine keeps_spares_fresh hempty fun data data' hput htoken => ?_
  split at hput
  · next hlen =>
      have hlong : 37 ≤ newData.length := by
        rw [hlen]
        decide
      rw [getType_of_writeBlock hlong hput, hkind] at htoken
      cases htoken
  · cases hput

/-- The key of the rune receiver lies between the amounts of two slots. -/
theorem keeps_spares_setRuneReceiver {account : AccountInfo} (pubkey : Pubkey) :
    Keeps (Spares m₀) (account.write (ProgramState.setRuneReceiver pubkey)) fun _ => True := by
  refine keeps_spares_write (writes_writeBlock runeReceiverOffset pubkey.1)
    (Misses.of_anyAmount (fun o ho => ?_) (fun o ho => ?_) _ _)
  · exact Nat.le_trans (by decide) ho.1
  · rintro ⟨index, hamount⟩
    have hlow : 6688 ≤ o := ho.1
    have hhigh : o < 6688 + pubkey.1.length := ho.2
    rw [pubkey.2] at hhigh
    have hlow' : 73 + index * 100 + 92 ≤ o := hamount.1
    have hhigh' : o < 73 + index * 100 + 92 + 8 := hamount.2
    omega

theorem keeps_spares_runeReceiverInitialise {accountIndex : Nat}
    (hempty : ∀ account, accounts[accountIndex]? = some account → (m₀ account.key).data = []) :
    Keeps (Spares m₀) (RuneReceiverState.initialise accounts accountIndex) fun _ => True := by
  refine keeps_accountAt.bind fun first _ => keeps_any_read.bind fun isEmpty _ => keeps_when fun _ => ?_
  refine (keeps_spares_realloc (by decide)).bind fun _ _ => keeps_accountAt.bind fun account haccount => ?_
  refine (keeps_spares_setType (hempty account haccount) (by decide)).bind fun _ _ => ?_
  refine keeps_accountAt.bind fun program _ => ?_
  refine (keeps_spares_write (writes_setProgramAccount _) (Misses.of_anyAmount (fun o ho => ?_) (fun o ho => ?_) _ _)).bind
    fun _ _ => ?_
  · exact Nat.le_trans (by decide) ho.1
  · exact not_anyAmount_of_lt (Nat.lt_trans ho.2 (by decide))
  · refine keeps_any_read.bind fun programLen _ => keeps_when fun _ => ?_
    exact (keeps_spares_realloc (by decide)).bind fun _ _ => keeps_spares_setRuneReceiver first.key

theorem keeps_spares_withdrawInitialise
    (hempty : ∀ account, accounts[1]? = some account → (m₀ account.key).data = []) :
    Keeps (Spares m₀) (WithdrawState.initialise accounts) fun _ => True := by
  refine keeps_accountAt.bind fun withdraw hwithdraw => keeps_any_read.bind fun isEmpty _ => keeps_when fun _ => ?_
  refine (keeps_spares_realloc (by decide)).bind fun _ _ => ?_
  refine (keeps_spares_setType (hempty withdraw hwithdraw) (by decide)).bind fun _ _ => ?_
  refine keeps_accountAt.bind fun program _ => keeps_spares_write (writes_setProgramAccount _)
    (Misses.of_anyAmount (fun o ho => ?_) (fun o ho => ?_) _ _)
  · exact Nat.le_trans (by decide) ho.1
  · exact not_anyAmount_of_lt (Nat.lt_trans ho.2 (by decide))

theorem keeps_spares_initProgramState (params : InitProgramStateParams) :
    Keeps (Spares m₀) (initProgramState rt accounts params) fun _ => True := by
  refine keeps_spares_validate_empty.bind fun _ hempty0 => keeps_spares_validate_empty.bind fun _ hempty1 => ?_
  refine (keeps_when_imp fun _ => keeps_spares_validate_empty).bind fun _ hempty2 => ?_
  refine keeps_lift.bind fun _ _ => keeps_lift.bind fun _ _ => ?_
  refine keeps_accountAt.bind fun program hprogram => keeps_accountAt.bind fun withdraw _ => ?_
  refine (keeps_query (Q := fun newData => getType newData = .ok .program) fun m _ newData hencode => ?_).bind
    fun newData hkind => ?_
  · exact getType_of_slice (programState_encode hencode).1
  · refine (keeps_spares_initStateData (hempty0 program hprogram) hkind).bind fun _ _ => ?_
    refine (keeps_when fun hlen => ?_).bind fun _ _ => keeps_spares_withdrawInitialise hempty1
    exact keeps_spares_runeReceiverInitialise (hempty2 hlen)

theorem keeps_spares_initRuneReceiverState :
    Keeps (Spares m₀) (initRuneReceiverState accounts) fun _ => True :=
  keeps_any_validate.bind fun _ _ => keeps_spares_validate_empty.bind fun _ hempty =>
    keeps_spares_runeReceiverInitialise hempty

/-- An account that was empty and holds no amounts yet, whatever its type. -/
structure Blanked (m₀ : Memory) (key : Pubkey) (m : Memory) : Prop extends Spares m₀ m where
  blank : SparesAt [] (m key).data

theorem Blanked.setData {m : Memory} {key : Pubkey} {data : Bytes} (h : Blanked m₀ key m)
    (hempty : (m₀ key).data = []) (hdata : SparesAt [] data) : Blanked m₀ key (m.setData key data) where
  toSpares := h.toSpares.setData (fun hne => absurd hempty hne) fun _ => by
    rw [hempty]
    exact hdata
  blank := by
    rw [Memory.setData_data, if_pos rfl]
    exact hdata

theorem keeps_blanked_write {account : AccountInfo} {put : Bytes → Except Fault Bytes} {region : Nat → Prop}
    (hempty : (m₀ account.key).data = []) (hw : Writes put region) (hregion : ∀ o, region o → ¬AnyAmount o) :
    Keeps (Blanked m₀ account.key) (account.write put) fun _ => True := by
  apply keeps_modify
  intro m hm m' hput
  obtain ⟨data, hdata, rfl⟩ := write_eq_ok.mp (Exec.modify_eq_ok.mpr hput : (account.write put).run m = .ok () m')
  exact ⟨hm.setData hempty (hm.blank.write hw hdata fun index _ o ho hin => hregion o hin ⟨index, ho⟩), trivial⟩

theorem keeps_blanked_realloc {account : AccountInfo} {newLen : Nat} (hempty : (m₀ account.key).data = []) :
    Keeps (Blanked m₀ account.key) (account.realloc newLen) fun _ => True := by
  apply keeps_modify
  intro m hm m' hput
  split at hput
  · cases hput
    exact ⟨hm, trivial⟩
  · split at hput
    · cases hput
    · cases hput
      exact ⟨hm.setData hempty (hm.blank.resize newLen), trivial⟩

theorem keeps_blanked_tokenInitialise {account : AccountInfo} (hempty : (m₀ account.key).data = [])
    (tokenId feeAccountAddress : Utf8String) (pubkey : Pubkey) :
    Keeps (Blanked m₀ account.key) (TokenState.initialise rt account tokenId feeAccountAddress pubkey)
      fun _ => True := by
  have hlow : ∀ {put : Bytes → Except Fault Bytes} {low high : Nat}, Writes put (Within low high) → high ≤ 165 →
      Keeps (Blanked m₀ account.key) (account.write put) fun _ => True := fun hw hhigh =>
    keeps_blanked_write hempty hw fun o ho => not_anyAmount_of_lt (Nat.lt_of_lt_of_le ho.2 hhigh)
  have hgrow : Keeps (Blanked m₀ account.key) (TokenState.growBalanceAccountsIfNeeded account 1) fun _ => True := by
    refine (keeps_query (Q := fun _ => True) fun _ _ _ _ => trivial).bind fun originalDataLen _ => ?_
    refine Keeps.bind (Q := fun _ => True) ?_ fun count _ => keeps_when fun _ => keeps_blanked_realloc hempty
    split
    · exact keeps_any_read
    · exact keeps_pure trivial
  refine hgrow.bind fun _ _ => (hlow (writes_setType _) (by decide)).bind fun _ _ => ?_
  refine (hlow (writes_setProgramAccount _) (by decide)).bind fun _ _ => ?_
  refine (hlow (writes_setTokenId _) (by decide)).bind fun _ _ => keeps_when fun _ => ?_
  refine (hlow (writes_setNumBalances _) (by decide)).bind fun _ _ => ?_
  exact keeps_blanked_write hempty (writes_setWalletAddress _ _) fun o ho ⟨index, hamount⟩ =>
    addressBytes_disjoint_amountBytes ho hamount

theorem spares_of_initTokenState {params : InitTokenStateParams} {m : Memory} {u : Unit}
    (h : (initTokenState rt accounts params).run m₀ = .ok u m) : Spares m₀ m := by
  obtain ⟨-, h⟩ := validate_bind_eq_ok.mp h
  obtain ⟨hvalidated, h⟩ := validate_bind_eq_ok.mp h
  obtain ⟨program, -, h⟩ := accountAt_bind_eq_ok.mp h
  obtain ⟨token, htoken, h⟩ := accountAt_bind_eq_ok.mp h
  obtain ⟨-, -, hempty⟩ := hvalidated.of_listed htoken
  obtain ⟨feeAccountAddress, -, h⟩ := read_bind_eq_ok.mp h
  have hstart : Blanked m₀ token.key m₀ := by
    refine ⟨Spares.refl m₀, ?_⟩
    rw [show (m₀ token.key).data = [] from hempty]
    exact SparesAt.refl []
  exact ((keeps_blanked_tokenInitialise rt hempty _ _ _).of_ok hstart h).1.toSpares

end Initialisation

/-! ### Wallets and calls -/

section Wallets

variable (rt : Runtime) {accounts : List AccountInfo} {m₀ : Memory}

theorem keeps_steady_setTokenRuneId (params : SetTokenRuneIdParams) :
    Keeps (Steady m₀) (setTokenRuneId rt accounts params) fun _ => True := by
  refine keeps_any_validate.bind fun _ _ => keeps_any_validate.bind fun _ _ => keeps_ensure.bind fun _ _ => ?_
  refine keeps_accountAt.bind fun token _ => keeps_steady_write (writes_setTokenId _)
    (Misses.of_anyAmount (fun o ho => ?_) (fun o ho => ?_) _ _) fun o ho hcount => ?_
  · exact Nat.le_trans (by decide) ho.1
  · exact not_anyAmount_of_lt (Nat.lt_trans ho.2 (by decide))
  · have hhigh := ho.2
    have hlow := hcount.1
    omega

/-- A new wallet gets its address and nothing else. -/
theorem keeps_spares_initWalletBalances (params : InitWalletBalancesParams) :
    Keeps (Spares m₀) (initWalletBalances rt accounts params) fun _ => True := by
  refine keeps_any_validate.bind fun _ _ => keeps_accountAt.bind fun program _ => ?_
  refine keeps_any_read.bind fun networkType _ => ?_
  refine (keeps_forM (P := fun _ => True) fun setup _ => ?_).weaken fun _ _ => trivial
  refine keeps_any_validate.bind fun _ _ => keeps_accountAt.bind fun account _ => ?_
  refine Keeps.bind (Q := fun _ => True) ?_ fun _ _ => keeps_any_read.bind fun count _ => ?_
  · refine (keeps_query (Q := fun _ => True) fun _ _ _ _ => trivial).bind fun originalDataLen _ => ?_
    refine Keeps.bind (Q := fun _ => True) ?_ fun count _ => keeps_when fun _ =>
      keeps_spares_realloc (Nat.lt_of_lt_of_le (by decide) (Nat.le_add_left maxPermittedDataIncrease _))
    split
    · exact keeps_any_read
    · exact keeps_pure trivial
  · refine (keeps_foldlM (P := fun _ => True) trivial fun count walletAddress _ _ => ?_).bind fun count _ => ?_
    · refine keeps_lift.bind fun _ _ => (keeps_spares_write (writes_setWalletAddress _ _)
        (Misses.of_anyAmount (fun o ho => ?_) (fun o ho => ?_) _ _)).bind fun _ _ => keeps_pure trivial
      · exact Nat.le_trans (by decide) ho.ge
      · rintro ⟨index, hamount⟩
        exact addressBytes_disjoint_amountBytes ho hamount
    · refine keeps_spares_write (writes_setNumBalances _) (Misses.of_anyAmount (fun o ho => ?_) (fun o ho => ?_) _ _)
      · exact Nat.le_trans (by decide) ho.1
      · exact not_anyAmount_of_lt (Nat.lt_trans ho.2 (by decide))

end Wallets

/-- No token account has an amount past its wallets. -/
def Clean (w : World) : Prop := ∀ token, getType (w token).data = .ok .token → Unused (w token).data

/-- The fees that a rollback gives back from another account return to wallets in use there. -/
def RefundsInUse (w : World) (call : Call) : Prop :=
  ∀ params, call.instruction = .ok (.rollbackBatchWithdraw params) →
    ∀ tokenWithdrawals ∈ params.tokenWithdrawals, ∀ withdrawal ∈ tokenWithdrawals.withdrawals,
      0 < withdrawal.feeAmount → ∀ feeKey, keyAt call.accounts withdrawal.feeAccountIndex = some feeKey →
      keyAt call.accounts tokenWithdrawals.accountIndex ≠ some feeKey →
      withdrawal.feeAddressIndex.index.toNat < numBalances (w feeKey).data

section Runs

variable {rt : Runtime} {w w' : World} {call : Call}

/-- Every instruction spares the slots not in use. -/
theorem execute_spares (h : execute rt w call = some w') (hclean : Clean w) (hrefunds : RefundsInUse w call) :
    ∃ m, Spares (load w) m ∧ Touches (reachOf call.instructionData) call.accounts (load w) m ∧
      ∀ key, (w' key).data = (m key).data := by
  obtain ⟨instruction, m, hinstruction, hrun, htouches, hdata⟩ := execute_cases h
  refine ⟨m, ?_, htouches, hdata⟩
  have hstart := Spares.refl (load w)
  have hsteady := Steady.refl (load w)
  cases instruction with
  | initProgramState params => exact ((keeps_spares_initProgramState rt params).of_ok hstart hrun).1
  | initTokenState params => exact spares_of_initTokenState rt hrun
  | initWalletBalances params => exact ((keeps_spares_initWalletBalances rt params).of_ok hstart hrun).1
  | batchDeposit params => exact ((keeps_steady_depositBatch params).of_ok hsteady hrun).1.toSpares
  | prepareBatchWithdraw params => exact (steady_of_prepareWithdrawBatch rt hrun).toSpares
  | submitBatchSettlement params =>
      exact ((keeps_steady_submitSettlementBatch rt params _).of_ok hsteady hrun).1.toSpares
  | prepareBatchSettlement params =>
      exact ((keeps_steady_prepareSettlementBatch rt params _).of_ok hsteady hrun).1.toSpares
  | rollbackBatchSettlement => exact (keeps_steady_rollbackSettlementBatch.of_ok hsteady hrun).1.toSpares
  | rollbackBatchWithdraw params =>
      have hkeeps : Keeps (Steady (load w)) (rollbackWithdrawBatch call.accounts params) fun _ => True :=
        keeps_steady_rollbackWithdrawBatch params (fun key htoken => hclean key htoken) (hrefunds params hinstruction)
      exact (hkeeps.of_ok hsteady hrun).1.toSpares
  | submitBatchWithdraw params =>
      exact ((keeps_steady_submitWithdrawBatch rt call.programId params _).of_ok hsteady hrun).1.toSpares
  | updateWithdrawStateUtxo params => exact ((keeps_steady_updateWithdrawStateUtxo params).of_ok hsteady hrun).1.toSpares
  | initRuneReceiverState => exact (keeps_spares_initRuneReceiverState.of_ok hstart hrun).1
  | setTokeRuneId params => exact ((keeps_steady_setTokenRuneId rt params).of_ok hsteady hrun).1.toSpares

/-- What a token account is after a call: it was one or was empty, it has no fewer wallets, and the slots past
those it had are spared. -/
theorem execute_sparesAt (h : execute rt w call = some w') (hclean : Clean w) (hrefunds : RefundsInUse w call)
    {token : Pubkey} (htoken : getType (w' token).data = .ok .token) :
    Unused (w token).data ∧ SparesAt (w token).data (w' token).data ∧
      numBalances (w token).data ≤ numBalances (w' token).data := by
  obtain ⟨m, hspares, htouches, hdata⟩ := execute_spares h hclean hrefunds
  rw [hdata] at htoken ⊢
  have hamounts : SparesAt (w token).data (m token).data := hspares.amounts token htoken
  by_cases hempty : (w token).data = []
  · rw [hempty] at hamounts ⊢
    refine ⟨fun index _ o _ byte hbyte => ?_, hamounts, Nat.zero_le _⟩
    cases hbyte
  · have hbefore : getType (w token).data = .ok .token := (hspares.types token hempty).symm.trans htoken
    exact ⟨hclean token hbefore, hamounts, htouches.counts token hbefore⟩

/-- A step keeps the slots past the wallets empty. -/
theorem step_clean (hclean : Clean w) (hrefunds : (execute rt w call).isSome → RefundsInUse w call) :
    Clean (step rt w call) := by
  cases h : execute rt w call with
  | none =>
      rw [step_of_none h]
      exact hclean
  | some w' =>
      rw [step_of_execute h]
      intro token htoken
      obtain ⟨hunused, hspares, hcount⟩ := execute_sparesAt h hclean (hrefunds (h ▸ rfl)) htoken
      exact hunused.spared hspares hcount

variable {start : World} {calls : List Call}

/-- So does a run. -/
theorem worldAt_clean (hclean : Clean start)
    (hrefunds : ∀ n call, Returns rt start calls n call → RefundsInUse (worldAt rt start calls n) call) {n : Nat}
    (hn : n ≤ calls.length) : Clean (worldAt rt start calls n) := by
  induction n with
  | zero => exact hclean
  | succ n ih =>
      rw [worldAt_succ hn]
      exact step_clean (ih (Nat.le_of_succ_le hn)) fun hreturns =>
        hrefunds n calls[n] ⟨List.getElem?_eq_getElem hn, hreturns⟩

/-- The slots from the count on hold nothing. -/
def EmptyFrom (count : Nat) (data : Bytes) : Prop :=
  ∀ index, count ≤ index → ∀ balance, Balance.getWalletBalance index data = .ok balance → balance = 0

theorem Unused.emptyFrom {before data : Bytes} (h : Unused before) (hspares : SparesAt before data) :
    EmptyFrom (numBalances before) data := by
  intro index hindex balance hbalance
  apply UInt64.toNat_inj.mp
  calc balance.toNat = amountAt data index := (getWalletBalance_eq_ok.mp hbalance).2
    _ = 0 := h.amountAt_eq hspares hindex

/-- From a world without token accounts, as long as rollbacks give fees back to wallets in use: the slots past
the wallets of a token account hold nothing, and those past the wallets it had before a step hold nothing
after it, whether they are in use by then or not. -/
theorem worldAt_emptyFrom (rt : Runtime) (start : World) (calls : List Call)
    (hstart : ∀ token, getType (start token).data ≠ .ok .token)
    (hrefunds : ∀ n call, Returns rt start calls n call → RefundsInUse (worldAt rt start calls n) call) {n : Nat}
    (hn : n ≤ calls.length) :
    (∀ token, getType (worldAt rt start calls n token).data = .ok .token →
      EmptyFrom (numBalances (worldAt rt start calls n token).data) (worldAt rt start calls n token).data) ∧
    (n < calls.length → ∀ token, getType (worldAt rt start calls (n + 1) token).data = .ok .token →
      EmptyFrom (numBalances (worldAt rt start calls n token).data)
        (worldAt rt start calls (n + 1) token).data) := by
  have hclean := worldAt_clean (fun token htoken => absurd htoken (hstart token)) hrefunds hn
  constructor
  · intro token htoken
    exact (hclean token htoken).emptyFrom (SparesAt.refl _)
  · intro hlt token htoken
    rw [worldAt_succ hlt] at htoken ⊢
    cases h : execute rt (worldAt rt start calls n) calls[n] with
    | none =>
        rw [step_of_none h] at htoken ⊢
        exact (hclean token htoken).emptyFrom (SparesAt.refl _)
    | some w' =>
        rw [step_of_execute h] at htoken ⊢
        have hreturns : Returns rt start calls n calls[n] := ⟨List.getElem?_eq_getElem hlt, h ▸ rfl⟩
        obtain ⟨hunused, hspares, -⟩ := execute_sparesAt h hclean (hrefunds n _ hreturns) htoken
        exact hunused.emptyFrom hspares

end Runs

/-! ### A fee given back to no one -/

def noTokensWorld : World :=
  sampleWorld [(sampleProgram, programData emptyHash emptyHash), (sampleWithdraw, withdrawData emptyHash)]

theorem noTokensWorld_getType (token : Pubkey) : getType (noTokensWorld token).data ≠ .ok .token := by
  unfold noTokensWorld sampleWorld
  simp only [List.find?_cons, List.find?_nil]
  split
  · decide
  · split <;> decide

def ledCall (accounts : List AccountInfo) (instruction : ProgramInstruction) : Call where
  programId := sampleKey 0xee
  accounts := ⟨sampleProgram, true, false⟩ :: accounts
  instructionData := instruction.encode

theorem ledCall_instruction {instruction : ProgramInstruction} (accounts : List AccountInfo) (h : instruction.Short) :
    (ledCall accounts instruction).instruction = .ok instruction := by
  have hdecode := ((consumes_readU8 _).bind (consumes_decodeParams h)).run_fst []
  rw [List.append_nil] at hdecode
  exact hdecode

/-- The fee wallet of the second token gets 5, and of these a fee of 5 on the first token goes back to a slot
of the second. -/
def refundParams (feeIndex : UInt32) : RollbackWithdrawBatchParams where
  tokenWithdrawals :=
    [{ accountIndex := 3
       withdrawals := [⟨⟨0, ⟨feeAddress.drop 40, rfl⟩⟩, 5, 3, ⟨0, ⟨feeAddress.drop 40, rfl⟩⟩, 0⟩] },
     { accountIndex := 2
       withdrawals := [⟨⟨0, ⟨feeAddress.drop 40, rfl⟩⟩, 5, 3, ⟨feeIndex, ⟨feeAddress.drop 40, rfl⟩⟩, 5⟩] }]

/-- Two tokens are set up, and the refund follows. -/
def refundCalls (feeIndex : UInt32) : List Call :=
  [ledCall [⟨sampleKey 0x31, false, true⟩] (.initTokenState ⟨⟨[0x31], sampleTokenId_valid⟩⟩),
   ledCall [⟨sampleKey 0x32, false, true⟩] (.initTokenState ⟨⟨[0x32], by decide⟩⟩),
   ledCall [⟨sampleWithdraw, false, true⟩, ⟨sampleKey 0x31, false, true⟩, ⟨sampleKey 0x32, false, true⟩]
     (.rollbackBatchWithdraw (refundParams feeIndex))]

/-- A refund to the fee wallet itself leaves the other slots empty. -/
theorem refundCalls_emptyFrom :
    EmptyFrom 1 (worldAt (sampleRuntime []) noTokensWorld (refundCalls 0) 3 (sampleKey 0x32)).data := by
  have hvalues : (numBalances (worldAt (sampleRuntime []) noTokensWorld (refundCalls 0) 2 (sampleKey 0x32)).data,
      numBalances (worldAt (sampleRuntime []) noTokensWorld (refundCalls 0) 3 (sampleKey 0x32)).data,
      getType (worldAt (sampleRuntime []) noTokensWorld (refundCalls 0) 3 (sampleKey 0x32)).data) =
      (1, 1, .ok .token) := by
    decide +kernel
  simp only [Prod.mk.injEq] at hvalues
  obtain ⟨hbefore, hafter, htoken⟩ := hvalues
  have hempty := (worldAt_emptyFrom (sampleRuntime []) noTokensWorld (refundCalls 0) noTokensWorld_getType ?_
    (n := 3) (by decide)).1 (sampleKey 0x32) htoken
  · rw [hafter] at hempty
    exact hempty
  · rintro n call ⟨hcall, -⟩ params hparams
    obtain ⟨rfl, rfl⟩ : n = 2 ∧ params = refundParams 0 := by
      rcases n with _ | _ | _ | n
      · obtain rfl := Option.some.inj hcall
        have hshort : (ProgramInstruction.initTokenState ⟨⟨[0x31], by decide⟩⟩).Short := by
          simp [ProgramInstruction.Short, ShortString]
        cases (ledCall_instruction _ hshort).symm.trans hparams
      · obtain rfl := Option.some.inj hcall
        have hshort : (ProgramInstruction.initTokenState ⟨⟨[0x32], by decide⟩⟩).Short := by
          simp [ProgramInstruction.Short, ShortString]
        cases (ledCall_instruction _ hshort).symm.trans hparams
      · obtain rfl := Option.some.inj hcall
        have hshort : (ProgramInstruction.rollbackBatchWithdraw (refundParams 0)).Short := by
          simp [ProgramInstruction.Short, ShortList, TokenWithdrawals.Short, refundParams]
        cases (ledCall_instruction _ hshort).symm.trans hparams
        exact ⟨rfl, rfl⟩
      · cases hcall
    obtain rfl := Option.some.inj hcall
    intro tokenWithdrawals hmem withdrawal hwithdrawal hpos feeKey hfeeKey _
    have hsecond : feeKey = sampleKey 0x32 ∧ withdrawal.feeAddressIndex.index = 0 := by
      simp only [refundParams, List.mem_cons, List.not_mem_nil, or_false] at hmem
      rcases hmem with rfl | rfl
      all_goals obtain rfl := List.mem_singleton.mp hwithdrawal
      all_goals exact ⟨(Option.some.inj hfeeKey).symm, rfl⟩
    rw [hsecond.1, hsecond.2, hbefore]
    decide

/-- A refund past the wallets leaves an amount that the next new wallets will find. -/
theorem refundCalls_not_emptyFrom :
    (∀ token, getType (noTokensWorld token).data ≠ .ok .token) ∧
      getType (worldAt (sampleRuntime []) noTokensWorld (refundCalls 7) 3 (sampleKey 0x32)).data = .ok .token ∧
      ¬EmptyFrom (numBalances (worldAt (sampleRuntime []) noTokensWorld (refundCalls 7) 3 (sampleKey 0x32)).data)
        (worldAt (sampleRuntime []) noTokensWorld (refundCalls 7) 3 (sampleKey 0x32)).data := by
  have hvalues : (getType (worldAt (sampleRuntime []) noTokensWorld (refundCalls 7) 3 (sampleKey 0x32)).data,
      numBalances (worldAt (sampleRuntime []) noTokensWorld (refundCalls 7) 3 (sampleKey 0x32)).data,
      Balance.getWalletBalance 7
        (worldAt (sampleRuntime []) noTokensWorld (refundCalls 7) 3 (sampleKey 0x32)).data) =
      (.ok .token, 1, .ok 5) := by
    decide +kernel
  simp only [Prod.mk.injEq] at hvalues
  obtain ⟨htoken, hcount, hbalance⟩ := hvalues
  refine ⟨noTokensWorld_getType, htoken, fun hempty => ?_⟩
  rw [hcount] at hempty
  exact absurd (hempty 7 (by decide) 5 hbalance) (by decide)

end Chainring.Arch

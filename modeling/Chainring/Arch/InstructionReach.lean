import Chainring.Arch.LedCalls

/-! The reach of each of the thirteen instructions, and that every call stays within the reach of its
instruction, whether it returns, fails or panics. -/

namespace Chainring.Arch

open Bytes (toWord_lt slice_eq_some slice_le)
open CheckedWord (bind_eq_ok)
open Exec (Leaves Keeps keeps_pure keeps_fail keeps_ensure keeps_query keeps_modify keeps_forM keeps_foldlM
  keeps_query_bind keeps_when keeps_when_imp leaves_bind leaves_modify)

/-- The wallet slots and the count of a token account, up to the wallets in use. -/
def NewWallets (data : Bytes) (o : Nat) : Prop :=
  tokenIdOffset ≤ o ∧
    (Within 69 73 o ∨ (∃ index, numBalances data ≤ index ∧ AddressBytes index o) ∨ data.length ≤ o)

def Reach.nothing : Reach where
  program := fun _ => False
  token := fun _ _ => False
  withdraw := fun _ => False
  program_ge := fun _ h => h.elim
  token_ge := fun _ _ h => h.elim
  withdraw_ge := fun _ h => h.elim

def Reach.ofProgram (program : Nat → Prop) (program_ge : ∀ o, program o → settlementHashOffset ≤ o) :
    Reach :=
  { Reach.nothing with program := program, program_ge := program_ge }

def Reach.ofToken (token : Bytes → Nat → Prop) (token_ge : ∀ data o, token data o → tokenIdOffset ≤ o) :
    Reach :=
  { Reach.nothing with token := token, token_ge := token_ge }

theorem AnyAmount.ge {o : Nat} (h : AnyAmount o) : tokenIdOffset ≤ o := by
  obtain ⟨index, hamount⟩ := h
  have hge := hamount.ge
  show 37 ≤ o
  omega

/-- Also the amounts of token accounts. -/
def Reach.withAmounts (reach : Reach) : Reach :=
  { reach with token := fun _ => AnyAmount, token_ge := fun _ _ h => h.ge }

/-- Also the hash of the withdraw account. -/
def Reach.withWithdrawHash (reach : Reach) : Reach :=
  { reach with withdraw := Within 37 69, withdraw_ge := fun _ h => h.1 }

def Reach.events : Reach := ofProgram (286 ≤ ·) fun o (h : 286 ≤ o) => Nat.le_trans (by decide) h

def ProgramInstruction.reach : ProgramInstruction → Reach
  | .initProgramState _ => .nothing
  | .initTokenState _ => .nothing
  | .initWalletBalances _ => .ofToken NewWallets fun _ _ h => h.1
  | .batchDeposit _ => Reach.nothing.withAmounts
  | .prepareBatchWithdraw _ => Reach.events.withAmounts.withWithdrawHash
  | .prepareBatchSettlement _ =>
      .ofProgram (fun o => Within 222 254 o ∨ 286 ≤ o) fun o h =>
        h.elim (fun hhash => hhash.1) fun (hevents : 286 ≤ o) => Nat.le_trans (by decide) hevents
  | .submitBatchSettlement _ => (Reach.ofProgram (Within 222 286) fun _ h => h.1).withAmounts
  | .rollbackBatchSettlement => .ofProgram (Within 222 254) fun _ h => h.1
  | .rollbackBatchWithdraw _ => Reach.nothing.withAmounts.withWithdrawHash
  | .submitBatchWithdraw _ => Reach.nothing.withWithdrawHash
  | .updateWithdrawStateUtxo _ => .nothing
  | .initRuneReceiverState =>
      .ofProgram (runeReceiverOffset ≤ ·) fun o (h : runeReceiverOffset ≤ o) => Nat.le_trans (by decide) h
  | .setTokeRuneId _ => .ofToken (fun _ => Within 37 69) fun _ _ h => h.1

section Instructions

variable (rt : Runtime) {reach : Reach} {accounts : List AccountInfo} {m₀ : Memory} {first : AccountInfo}

/-! ### Growth and initialisation -/

theorem keeps_growBalanceAccountsIfNeeded {account : AccountInfo} (additionalBalances : Nat)
    (hlisted : Listed accounts account.key)
    (hpermits : ∀ o, (m₀ account.key).data.length ≤ o → Permits reach accounts m₀ account.key o) :
    Keeps (Touches reach accounts m₀)
      (TokenState.growBalanceAccountsIfNeeded account additionalBalances) fun _ => True := by
  have horiginal : Keeps (Touches reach accounts m₀) account.originalDataLen fun len =>
      len = (m₀ account.key).data.length := by
    apply keeps_query
    intro m hm len hlen
    rw [← hm.originalDataLen]
    exact (Except.ok.inj hlen).symm
  refine horiginal.bind fun originalDataLen hlen => ?_
  subst hlen
  refine Keeps.bind (Q := fun _ => True) ?_ fun numBalances _ => keeps_when fun _ m hm => ?_
  · split
    · exact keeps_any_read
    · exact keeps_pure trivial
  · exact leaves_realloc hm hlisted (fun _ => hm.length_le account.key) fun o ho =>
      hpermits o (Nat.le_trans (hm.length_ge account.key) ho)

theorem keeps_tokenInitialise {account : AccountInfo} (tokenId feeAccountAddress : Utf8String)
    (pubkey : Pubkey) (hempty : Blank accounts m₀ account.key) :
    Keeps (Touches reach accounts m₀)
      (TokenState.initialise rt account tokenId feeAccountAddress pubkey) fun _ => True := by
  refine (keeps_growBalanceAccountsIfNeeded 1 hempty.1 fun _ _ => ⟨hempty.1, Or.inl hempty.2⟩).bind
    fun _ _ => ?_
  refine (keeps_write_empty (writes_setType _) hempty).bind fun _ _ => ?_
  refine (keeps_write_empty (writes_setProgramAccount _) hempty).bind fun _ _ => ?_
  refine (keeps_write_empty (writes_setTokenId _) hempty).bind fun _ _ => ?_
  refine keeps_when fun _ => ?_
  refine (keeps_write_empty (writes_setNumBalances _) hempty).bind fun _ _ => ?_
  exact keeps_write_empty (writes_setWalletAddress _ _) hempty

theorem initTokenState_leaves (hload : Loaded accounts m₀) (params : InitTokenStateParams) :
    Leaves (Touches reach accounts m₀) (fun _ => True) ((initTokenState rt accounts params).run m₀) := by
  refine leaves_of_led hload fun first _ => ?_
  refine keeps_validate_empty.bind fun _ hvalid => ?_
  refine keeps_accountAt.bind fun programAccount _ => ?_
  refine keeps_accountAt.bind fun tokenAccount htoken => ?_
  refine keeps_any_read.bind fun feeAccountAddress _ => ?_
  exact keeps_tokenInitialise rt _ _ _ (hvalid tokenAccount htoken)

theorem keeps_withdrawInitialise
    (hempty : ∀ account, accounts[1]? = some account → Blank accounts m₀ account.key) :
    Keeps (Touches reach accounts m₀) (WithdrawState.initialise accounts) fun _ => True := by
  refine keeps_accountAt.bind fun withdrawAccount haccount => ?_
  have hnone := hempty withdrawAccount haccount
  refine keeps_any_read.bind fun isEmpty _ => keeps_when fun _ => ?_
  refine (keeps_realloc_empty hnone).bind fun _ _ => ?_
  refine (keeps_write_empty (writes_setType _) hnone).bind fun _ _ => ?_
  refine keeps_accountAt.bind fun programAccount _ => ?_
  exact keeps_write_empty (writes_setProgramAccount _) hnone

theorem writes_setRuneReceiver (pubkey : Pubkey) :
    Writes (ProgramState.setRuneReceiver pubkey) (runeReceiverOffset ≤ ·) :=
  (writes_writeBlock runeReceiverOffset pubkey.1).mono fun _ ho => ho.1

/-- The rune receiver is set up in empty accounts; the program account grows only past its events. -/
theorem keeps_runeReceiverInitialise {accountIndex : Nat}
    (hfirst : ∀ account, accounts[1]? = some account → Blank accounts m₀ account.key)
    (hempty : ∀ account, accounts[accountIndex]? = some account → Blank accounts m₀ account.key)
    (hprogram : ∀ account, accounts[0]? = some account →
      getType (m₀ account.key).data ≠ .ok .token ∧
        ∀ o, runeReceiverOffset ≤ o → Permits reach accounts m₀ account.key o) :
    Keeps (Touches reach accounts m₀) (RuneReceiverState.initialise accounts accountIndex)
      fun _ => True := by
  refine keeps_accountAt.bind fun firstAccount hfirstAccount => ?_
  refine keeps_any_read.bind fun isEmpty _ => keeps_when fun _ => ?_
  refine (keeps_realloc_empty (hfirst firstAccount hfirstAccount)).bind fun _ _ => ?_
  refine keeps_accountAt.bind fun account haccount => ?_
  refine (keeps_write_empty (writes_setType _) (hempty account haccount)).bind fun _ _ => ?_
  refine keeps_accountAt.bind fun programAccount hprogramAccount => ?_
  obtain ⟨hnotToken, hpermits⟩ := hprogram programAccount hprogramAccount
  refine (keeps_write_empty (writes_setProgramAccount _) (hempty account haccount)).bind fun _ _ => ?_
  unfold AccountInfo.dataLen AccountInfo.read
  refine keeps_query_bind fun m programLen hm hlen => ?_
  obtain rfl := Except.ok.inj hlen
  unfold Exec.when
  split
  · next heq =>
      refine leaves_bind (leaves_realloc hm (listed_of_getElem? hprogramAccount) (fun _ => ?_)
        fun o ho => ?_) fun _ _ => ?_
      · rw [heq]
        exact Nat.le_add_right _ _
      · rw [heq] at ho
        exact hpermits o ho
      · exact keeps_write (writes_setRuneReceiver _) hpermits fun htoken => absurd htoken hnotToken
  · exact .ok hm trivial

theorem keeps_initStateData {account : AccountInfo} (newData : Bytes) (additionalBytes : Nat)
    (hempty : Blank accounts m₀ account.key) :
    Keeps (Touches reach accounts m₀) (initStateData account newData additionalBytes) fun _ => True := by
  refine keeps_ensure.bind fun _ _ => ?_
  refine (keeps_realloc_empty hempty).bind fun _ _ => ?_
  have hw : Writes (fun data => if newData.length = eventsOffset then writeBlock 0 newData data
      else .error .panic) (Within 0 (0 + newData.length)) := by
    intro data data' hput
    split at hput
    · exact writes_writeBlock 0 newData data data' hput
    · cases hput
  exact keeps_write_empty hw hempty

theorem keeps_initProgramState (params : InitProgramStateParams) :
    Keeps (Touches reach accounts m₀) (initProgramState rt accounts params) fun _ => True := by
  refine keeps_validate_empty.bind fun _ hempty0 => ?_
  refine keeps_validate_empty.bind fun _ hempty1 => ?_
  refine (keeps_when_imp fun _ => keeps_validate_empty).bind fun _ hempty2 => ?_
  refine keeps_lift.bind fun _ _ => keeps_lift.bind fun _ _ => ?_
  refine keeps_accountAt.bind fun programAccount hprogram => ?_
  refine keeps_accountAt.bind fun withdrawAccount _ => ?_
  refine keeps_lift.bind fun newData _ => ?_
  refine (keeps_initStateData newData (eventSize * maxEvents) (hempty0 programAccount hprogram)).bind
    fun _ _ => ?_
  refine (keeps_when fun hlen => ?_).bind fun _ _ => keeps_withdrawInitialise hempty1
  refine keeps_runeReceiverInitialise hempty1 (hempty2 hlen) fun account haccount => ?_
  obtain ⟨hlisted, hnone⟩ := hempty0 account haccount
  exact ⟨fun htoken => absurd hnone (ne_nil_of_getType htoken), fun o _ => ⟨hlisted, Or.inl hnone⟩⟩

theorem initRuneReceiverState_leaves (hload : Loaded accounts m₀)
    (hreach : ∀ o, runeReceiverOffset ≤ o → reach.program o) :
    Leaves (Touches reach accounts m₀) (fun _ => True) ((initRuneReceiverState accounts).run m₀) := by
  refine leaves_of_led hload fun first hled => ?_
  refine keeps_validate_empty.bind fun _ hempty => ?_
  refine keeps_runeReceiverInitialise hempty hempty fun account haccount => ?_
  obtain rfl : first = account := Option.some.inj (hled.listed.symm.trans haccount)
  refine ⟨fun htoken => ?_, fun o ho => hled.permits_program (hreach o ho)⟩
  rw [hled.program] at htoken
  cases htoken

/-! ### Wallets and deposits -/

theorem setTokenRuneId_leaves (hload : Loaded accounts m₀) (params : SetTokenRuneIdParams)
    (hreach : ∀ data o, Within 37 69 o → reach.token data o) :
    Leaves (Touches reach accounts m₀) (fun _ => True) ((setTokenRuneId rt accounts params).run m₀) := by
  refine leaves_of_led hload fun first hled => ?_
  refine (keeps_validate_bound hled).bind fun _ hvalid => ?_
  refine keeps_ensure.bind fun _ _ => ?_
  refine keeps_accountAt.bind fun tokenAccount htoken => ?_
  refine keeps_write_token hled (hvalid tokenAccount htoken) (writes_setTokenId _) (fun o ho => hreach _ o ho)
    fun o ho hcount => ?_
  have hhigh := ho.2
  have hlow := hcount.1
  omega

theorem Belongs.numBalances_le {owner key : Pubkey} (hbelongs : Belongs accounts m₀ .token owner key) {m : Memory}
    (hm : Touches reach accounts m₀ m) : numBalances (m₀ key).data ≤ numBalances (m key).data := by
  rcases hbelongs.2 with hempty | hbound
  · rw [hempty]
    exact Nat.zero_le _
  · exact hm.counts key hbound.1

theorem numBalances_lt (data : Bytes) : numBalances data < 2 ^ 32 := by
  unfold numBalances
  cases hslice : Bytes.slice data balanceCountOffset 4 with
  | none => decide
  | some block =>
      have hlt := toWord_lt block
      rw [(slice_eq_some.mp hslice).1] at hlt
      exact hlt

theorem setWalletAddress_le {index : Nat} {address : Utf8String} {data data' : Bytes}
    (h : Balance.setWalletAddress index address data = .ok data') : 73 + index * 100 + 92 ≤ data.length := by
  unfold Balance.setWalletAddress setString at h
  split at h
  · cases h
  · obtain ⟨filled, hfill, -⟩ := bind_eq_ok.mp h
    obtain ⟨⟨old, hold⟩, -⟩ := Bytes.patch_eq_some (writeBlock_eq_ok.mp hfill)
    rw [List.length_replicate] at hold
    exact slice_le (by decide) hold

/-- A new wallet goes past the ones in use, and its number still fits the count. -/
theorem keeps_addWallet (hled : Led accounts m₀ first) (hload : Loaded accounts m₀) {account : AccountInfo}
    (hbelongs : Belongs accounts m₀ .token first.key account.key)
    (hreach : ∀ o, NewWallets (m₀ account.key).data o → reach.token (m₀ account.key).data o)
    (networkType : NetworkType) (count : Nat) (walletAddress : Utf8String)
    (hcount : numBalances (m₀ account.key).data ≤ count) :
    Keeps (Touches reach accounts m₀) (addWallet rt account networkType count walletAddress)
      fun count' => numBalances (m₀ account.key).data ≤ count' ∧ count' < 2 ^ 32 := by
  refine keeps_lift.bind fun _ _ => ?_
  have hwrite : Keeps (Touches reach accounts m₀)
      (account.write (Balance.setWalletAddress count walletAddress)) fun _ => count + 1 < 2 ^ 32 := by
    intro m hm
    have hsize : ∀ m', (account.write (Balance.setWalletAddress count walletAddress)).run m = .ok () m' →
        count + 1 < 2 ^ 32 := by
      intro m' hok
      obtain ⟨data, hdata, -⟩ := write_eq_ok.mp hok
      have hroom := setWalletAddress_le hdata
      have hlength : (m account.key).data.length ≤ (m₀ account.key).data.length + 10 * 1024 :=
        hm.length_le account.key
      obtain ⟨account', hmem, hkey⟩ := hbelongs.1
      have hmax : (m₀ account'.key).data.length ≤ 10 * 1024 * 1024 := hload.size_le account' hmem
      rw [hkey] at hmax
      omega
    have hkeeps : Keeps (Touches reach accounts m₀)
        (account.write (Balance.setWalletAddress count walletAddress)) fun _ => True := by
      refine keeps_write_token hled hbelongs (writes_setWalletAddress _ _) (fun o ho => hreach o ?_)
        fun o ho hcountBytes => ?_
      · have hge := ho.ge
        exact ⟨Nat.le_trans (by decide) hge, Or.inr (Or.inl ⟨count, hcount, ho⟩)⟩
      · have hge := ho.ge
        have hhigh := hcountBytes.2
        omega
    have hleaves := hkeeps m hm
    cases hrun : (account.write (Balance.setWalletAddress count walletAddress)).run m with
    | ok u m' =>
        rw [hrun] at hleaves
        exact .ok hleaves.of_ok.1 (hsize m' hrun)
    | error e m' =>
        rw [hrun] at hleaves
        exact .error hleaves.of_error
    | panic => exact .panic
  exact hwrite.bind fun _ hlt => keeps_pure ⟨Nat.le_succ_of_le hcount, hlt⟩

theorem keeps_setNumBalances (hled : Led accounts m₀ first) {account : AccountInfo}
    (hbelongs : Belongs accounts m₀ .token first.key account.key)
    (hreach : ∀ o, NewWallets (m₀ account.key).data o → reach.token (m₀ account.key).data o) {count : Nat}
    (hcount : numBalances (m₀ account.key).data ≤ count) (hlt : count < 2 ^ 32) :
    Keeps (Touches reach accounts m₀) (account.write (TokenState.setNumBalances count)) fun _ => True := by
  intro m hm
  apply leaves_modify hm
  intro m' hput
  obtain ⟨data, hdata, rfl⟩ :=
    write_eq_ok.mp (Exec.modify_eq_ok.mpr hput : (account.write _).run m = .ok () m')
  obtain ⟨hlength, hsame⟩ := writes_setNumBalances count _ data hdata
  refine ⟨hm.setData (fun o hchanged => ?_) (fun _ => ?_) ?_ ?_, trivial⟩
  · by_cases hregion : Within 69 73 o
    · refine hled.permits_token hbelongs (hreach o ⟨?_, Or.inl hregion⟩)
      exact Nat.le_trans (by decide) hregion.1
    · exact absurd (hsame o hregion) hchanged
  · rw [numBalances_setNumBalances hdata, Nat.mod_eq_of_lt hlt]
    exact hcount
  · rw [hlength]
    exact hm.length_ge account.key
  · rw [hlength]
    exact hm.length_le account.key

theorem initWalletBalances_leaves (hload : Loaded accounts m₀) (params : InitWalletBalancesParams)
    (hreach : ∀ data o, NewWallets data o → reach.token data o) :
    Leaves (Touches reach accounts m₀) (fun _ => True)
      ((initWalletBalances rt accounts params).run m₀) := by
  refine leaves_of_led hload fun first hled => ?_
  refine keeps_accountAt.bind fun programAccount _ => ?_
  refine keeps_any_read.bind fun networkType _ => ?_
  refine (keeps_forM (P := fun _ => True) fun setup _ => ?_).weaken fun _ _ => trivial
  refine (keeps_validate_bound hled).bind fun _ hvalid => ?_
  refine keeps_accountAt.bind fun account haccount => ?_
  have hbelongs := hvalid account haccount
  have hpast : ∀ o, (m₀ account.key).data.length ≤ o → Permits reach accounts m₀ account.key o := by
    intro o ho
    rcases hbelongs.2 with hempty | hbound
    · exact ⟨hbelongs.1, Or.inl hempty⟩
    · have hheader : 5 + 32 ≤ (m₀ account.key).data.length :=
        slice_le (by decide) (relatedAccountKey_eq_ok hbound.2)
      refine hled.permits_token ⟨hbelongs.1, Or.inr hbound⟩ (hreach _ o ⟨?_, Or.inr (Or.inr ho)⟩)
      exact Nat.le_trans hheader ho
  refine (keeps_growBalanceAccountsIfNeeded _ hbelongs.1 hpast).bind fun _ _ => ?_
  have hread : Keeps (Touches reach accounts m₀) (account.read TokenState.getNumBalances) fun count =>
      numBalances (m₀ account.key).data ≤ count ∧ count < 2 ^ 32 := by
    apply keeps_read
    intro m hm count hcount
    obtain rfl := (getNumBalances_eq_ok.mp hcount).2
    exact ⟨hbelongs.numBalances_le hm, numBalances_lt _⟩
  refine hread.bind fun count hcount => ?_
  refine (keeps_foldlM (P := fun count => numBalances (m₀ account.key).data ≤ count ∧ count < 2 ^ 32)
    hcount fun count walletAddress _ hcount => ?_).bind fun count hcount => ?_
  · exact keeps_addWallet rt hled hload hbelongs (hreach _) networkType count walletAddress hcount.1
  · exact keeps_setNumBalances hled hbelongs (hreach _) hcount.1 hcount.2

theorem depositBatch_leaves (hload : Loaded accounts m₀) (params : DepositBatchParams)
    (hamounts : ∀ data o, AnyAmount o → reach.token data o) :
    Leaves (Touches reach accounts m₀) (fun _ => True) ((depositBatch accounts params).run m₀) := by
  refine leaves_of_led hload fun first hled => ?_
  refine (keeps_forM (P := fun _ => True) fun tokenDeposits _ => ?_).weaken fun _ _ => trivial
  refine (keeps_validate_bound hled).bind fun _ hvalid => ?_
  refine keeps_accountAt.bind fun account haccount => ?_
  exact keeps_handleAdjustments hled hamounts (hvalid account haccount) _ _

/-! ### Settlement -/

theorem prepareSettlementBatch_leaves (hload : Loaded accounts m₀) (params : SettlementBatchParams)
    (rawParamsData : Bytes) (hhash : ∀ o, Within 222 254 o → reach.program o)
    (hevents : ∀ o, 286 ≤ o → reach.program o) :
    Leaves (Touches reach accounts m₀) (fun _ => True)
      ((prepareSettlementBatch rt accounts params rawParamsData).run m₀) := by
  refine leaves_of_led hload fun first hled => ?_
  refine keeps_accountAt.bind fun programAccount hprogram => ?_
  refine keeps_any_read.bind fun currentHash _ => ?_
  refine keeps_ensure.bind fun _ _ => ?_
  refine (keeps_clearEvents hled hevents hprogram).bind fun _ _ => ?_
  refine (keeps_foldlM (P := fun _ => True) trivial fun total tokenSettlements _ _ => ?_).bind fun total _ => ?_
  · exact keeps_verifySettlement hled hevents total tokenSettlements
  · refine keeps_ensure.bind fun _ _ => ?_
    refine keeps_any_read.bind fun eventsCount _ => keeps_when fun _ => ?_
    exact keeps_write_program hled hprogram (writes_setSettlementHash _) hhash

theorem submitSettlementBatch_leaves (hload : Loaded accounts m₀) (params : SettlementBatchParams)
    (rawParamsData : Bytes) (hhashes : ∀ o, Within 222 286 o → reach.program o)
    (hamounts : ∀ data o, AnyAmount o → reach.token data o) :
    Leaves (Touches reach accounts m₀) (fun _ => True)
      ((submitSettlementBatch rt accounts params rawParamsData).run m₀) := by
  refine leaves_of_led hload fun first hled => ?_
  refine keeps_accountAt.bind fun programAccount hprogram => ?_
  refine keeps_any_read.bind fun currentHash _ => ?_
  refine keeps_ensure.bind fun _ _ => keeps_ensure.bind fun _ _ => ?_
  refine (keeps_forM (P := fun _ => True) fun tokenSettlements _ => ?_).bind fun _ _ => ?_
  · exact keeps_applySettlement hled hamounts tokenSettlements
  · refine (keeps_write_program hled hprogram (writes_setLastSettlementHash _) fun o ho => ?_).bind
      fun _ _ => keeps_write_program hled hprogram (writes_setSettlementHash _) fun o ho => ?_
    · exact hhashes o ⟨Nat.le_trans (by decide) ho.1, ho.2⟩
    · exact hhashes o ⟨ho.1, Nat.lt_of_lt_of_le ho.2 (by decide)⟩

theorem rollbackSettlementBatch_leaves (hload : Loaded accounts m₀)
    (hhash : ∀ o, Within 222 254 o → reach.program o) :
    Leaves (Touches reach accounts m₀) (fun _ => True) ((rollbackSettlementBatch accounts).run m₀) := by
  refine leaves_of_led hload fun first hled => ?_
  refine keeps_accountAt.bind fun programAccount hprogram => ?_
  exact keeps_write_program hled hprogram (writes_setSettlementHash _) hhash

/-! ### Withdrawals -/

theorem prepareWithdrawBatch_leaves (hload : Loaded accounts m₀) (params : WithdrawBatchParams)
    (paramsRawData : Bytes) (hevents : ∀ o, 286 ≤ o → reach.program o)
    (hamounts : ∀ data o, AnyAmount o → reach.token data o)
    (hhash : ∀ o, Within 37 69 o → reach.withdraw o) :
    Leaves (Touches reach accounts m₀) (fun _ => True)
      ((prepareWithdrawBatch rt accounts params paramsRawData).run m₀) := by
  refine leaves_of_led hload fun first hled => ?_
  refine (keeps_validate_bound hled).bind fun _ hvalid => ?_
  refine (keeps_hasRuneReceiver _).bind fun hasReceiver _ => ?_
  refine keeps_accountAt.bind fun programAccount hprogram => ?_
  refine keeps_accountAt.bind fun withdrawAccount hwithdraw => ?_
  have hbelongs := hvalid withdrawAccount hwithdraw
  refine keeps_any_read.bind fun settlementHash _ => keeps_ensure.bind fun _ _ => ?_
  refine keeps_any_read.bind fun withdrawHash _ => keeps_ensure.bind fun _ _ => ?_
  split
  · exact keeps_fail
  · next tx _ =>
      refine keeps_ensure.bind fun _ _ => keeps_ensure.bind fun _ _ => ?_
      refine (keeps_clearEvents hled hevents hprogram).bind fun _ _ => ?_
      refine keeps_any_read.bind fun networkType _ => ?_
      refine (keeps_forM (P := fun tokenWithdrawals : TokenWithdrawals =>
        (∀ account, accounts[tokenWithdrawals.accountIndex.toNat]? = some account →
          Belongs accounts m₀ .token first.key account.key) ∧
        ∀ withdrawal ∈ tokenWithdrawals.withdrawals,
          ∀ feeAccount, accounts[withdrawal.feeAccountIndex.toNat]? = some feeAccount →
            Belongs accounts m₀ .token first.key feeAccount.key) fun tokenWithdrawals _ => ?_).bind
        fun _ hverified => ?_
      · refine (keeps_validate_bound hled).bind fun _ htoken => ?_
        exact (keeps_verifyWithdrawals rt hled hevents _ _ _).weaken fun _ hfees => ⟨htoken, hfees⟩
      refine keeps_any_read.bind fun eventsCount _ => ?_
      split
      · exact keeps_pure trivial
      · refine (keeps_foldlM (P := fun _ => True) trivial fun outputs tokenWithdrawals hmem _ => ?_).bind fun outputs _ => ?_
        · obtain ⟨htokens, hfees⟩ := hverified tokenWithdrawals hmem
          refine keeps_any_read.bind fun feeAccountAddress _ => ?_
          refine keeps_accountAt.bind fun account haccount => ?_
          have htoken := htokens account haccount
          exact keeps_foldlM trivial fun outputs withdrawal hwithdrawal _ =>
            keeps_handlePrepareWithdrawal rt hled hamounts htoken (hfees withdrawal hwithdrawal) _ _ _
        · refine keeps_ensure.bind fun _ _ => keeps_ensure.bind fun _ _ => ?_
          exact keeps_write_withdraw hled hbelongs (writes_setHash _) hhash

theorem rollbackWithdrawBatch_leaves (hload : Loaded accounts m₀) (params : RollbackWithdrawBatchParams)
    (hamounts : ∀ data o, AnyAmount o → reach.token data o)
    (hhash : ∀ o, Within 37 69 o → reach.withdraw o) :
    Leaves (Touches reach accounts m₀) (fun _ => True)
      ((rollbackWithdrawBatch accounts params).run m₀) := by
  refine leaves_of_led hload fun first hled => ?_
  refine (keeps_validate_bound hled).bind fun _ hvalid => ?_
  refine keeps_accountAt.bind fun programAccount _ => ?_
  refine keeps_accountAt.bind fun withdrawAccount hwithdraw => ?_
  have hbelongs := hvalid withdrawAccount hwithdraw
  refine (keeps_forM (P := fun _ => True) fun tokenWithdrawals _ => ?_).bind fun _ _ =>
    keeps_write_withdraw hled hbelongs (writes_setHash _) hhash
  refine (keeps_validate_bound hled).bind fun _ htoken => ?_
  refine keeps_any_read.bind fun feeAccountAddress _ => ?_
  refine keeps_accountAt.bind fun account haccount => ?_
  refine (keeps_forM (P := fun _ => True) fun withdrawal _ => ?_).weaken fun _ _ => trivial
  exact keeps_handleRollbackWithdrawal hled hamounts (htoken account haccount) _ _

theorem submitWithdrawBatch_leaves (hload : Loaded accounts m₀) (programId : Pubkey) (params : WithdrawBatchParams)
    (paramsRawData : Bytes) (hhash : ∀ o, Within 37 69 o → reach.withdraw o) :
    Leaves (Touches reach accounts m₀) (fun _ => True)
      ((submitWithdrawBatch rt programId accounts params paramsRawData).run m₀) := by
  refine leaves_of_led hload fun first hled => ?_
  refine (keeps_validate_bound hled).bind fun _ hvalid => ?_
  refine (keeps_hasRuneReceiver _).bind fun hasReceiver _ => ?_
  refine keeps_accountAt.bind fun programAccount _ => ?_
  refine keeps_accountAt.bind fun withdrawAccount hwithdraw => ?_
  refine keeps_accountAt.bind fun third _ => ?_
  have hbelongs := hvalid withdrawAccount hwithdraw
  refine keeps_any_read.bind fun withdrawHash _ => keeps_ensure.bind fun _ _ => ?_
  refine keeps_any_read.bind fun networkType _ => ?_
  refine (keeps_getStateTransitionTx rt).bind fun tx _ => ?_
  split
  · exact keeps_fail
  · refine (keeps_foldlM (P := fun _ => True) trivial fun outputs tokenWithdrawals _ _ => ?_).bind fun outputs _ => ?_
    · exact (keeps_validate_bound hled).bind fun _ _ => keeps_handleSubmitWithdrawals rt _ _ _
    · refine keeps_ensure.bind fun _ _ => keeps_lift.bind fun inputsToSign _ => ?_
      refine (keeps_setTransactionToSign rt _ _ _).bind fun _ _ => ?_
      exact keeps_write_withdraw hled hbelongs (writes_setHash _) hhash

theorem updateWithdrawStateUtxo_leaves (hload : Loaded accounts m₀) (params : UpdateWithdrawStateUtxoParams) :
    Leaves (Touches reach accounts m₀) (fun _ => True)
      ((updateWithdrawStateUtxo accounts params).run m₀) := by
  refine leaves_of_led hload fun first hled => ?_
  refine (keeps_validate_bound hled).bind fun _ _ => ?_
  refine keeps_accountAt.bind fun withdrawAccount _ => ?_
  split
  · exact keeps_lift
  · split
    · exact keeps_setUtxo
    · exact keeps_lift

/-! ### Any call -/

/-- Every instruction stays within its reach. -/
theorem runInstruction_leaves (hload : Loaded accounts m₀) (programId : Pubkey) (paramsRawData : Bytes)
    (instruction : ProgramInstruction) :
    Leaves (Touches instruction.reach accounts m₀) (fun _ => True)
      ((runInstruction rt programId accounts paramsRawData instruction).run m₀) := by
  cases instruction with
  | initProgramState params => exact keeps_initProgramState rt params m₀ hload.touches
  | initTokenState params => exact initTokenState_leaves rt hload params
  | initWalletBalances params => exact initWalletBalances_leaves rt hload params fun _ _ h => h
  | batchDeposit params => exact depositBatch_leaves hload params fun _ _ h => h
  | prepareBatchWithdraw params =>
      exact prepareWithdrawBatch_leaves rt hload params _ (fun _ h => h) (fun _ _ h => h) fun _ h => h
  | prepareBatchSettlement params =>
      exact prepareSettlementBatch_leaves rt hload params _ (fun _ h => Or.inl h) fun _ h => Or.inr h
  | submitBatchSettlement params =>
      exact submitSettlementBatch_leaves rt hload params _ (fun _ h => h) fun _ _ h => h
  | rollbackBatchSettlement => exact rollbackSettlementBatch_leaves hload fun _ h => h
  | rollbackBatchWithdraw params =>
      exact rollbackWithdrawBatch_leaves hload params (fun _ _ h => h) fun _ h => h
  | submitBatchWithdraw params => exact submitWithdrawBatch_leaves rt hload programId params _ fun _ h => h
  | updateWithdrawStateUtxo params => exact updateWithdrawStateUtxo_leaves hload params
  | initRuneReceiverState => exact initRuneReceiverState_leaves hload fun _ h => h
  | setTokeRuneId params => exact setTokenRuneId_leaves rt hload params fun _ _ h => h

/-- The reach of raw instruction data. -/
def reachOf (instructionData : Bytes) : Reach :=
  match decodeFromSlice ProgramInstruction.decode instructionData with
  | .ok instruction => instruction.reach
  | .error _ => .nothing

theorem processInstruction_leaves (hload : Loaded accounts m₀) (programId : Pubkey) (instructionData : Bytes) :
    Leaves (Touches (reachOf instructionData) accounts m₀) (fun _ => True)
      ((processInstruction rt programId accounts instructionData).run m₀) := by
  unfold processInstruction reachOf
  cases decodeFromSlice ProgramInstruction.decode instructionData with
  | error e => exact .error hload.touches
  | ok instruction => exact runInstruction_leaves rt hload programId _ instruction

end Instructions

end Chainring.Arch

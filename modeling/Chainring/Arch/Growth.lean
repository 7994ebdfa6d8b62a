import Chainring.Arch.TokenAccounts
import Chainring.Base.EventLog

/-! Room for new wallets. A token account grows at most once in a call, by one step over its length at the start,
however many wallets the setups of the call bring to it. -/

namespace Chainring.Arch

open Bytes (resize resize_length resize_getElem? slice_isSome patch_isSome ofWord ofWord_length)
open Exec (run_bind_of_ok run_bind_of_panic)

/-- The data covers the first slots of the balances. -/
def Covers (data : Bytes) (slots : Nat) : Prop := balancesOffset + slots * balanceSize ≤ data.length

/-- There is room for the addresses that are added after the ones in use; the amount of the last slot may lie
beyond the data. -/
def Roomy (count added length : Nat) : Prop :=
  added = 0 ∨ balancesOffset + (count + added) * balanceSize ≤ length + balanceAmountSize

instance (count added length : Nat) : Decidable (Roomy count added length) :=
  inferInstanceAs (Decidable (_ ∨ _))

theorem roomy_eq (count added length : Nat) :
    Roomy count added length ↔ added = 0 ∨ 73 + (count + added) * 100 ≤ length + 8 :=
  Iff.rfl

/-! ### Addresses -/

section Addresses

variable {index : Nat} {address : Utf8String} {data : Bytes}

/-- A short address is written where its slot lies in the data. -/
theorem setWalletAddress_run (hshort : address.bytes.length < maxAddressSize)
    (hle : balancesOffset + index * balanceSize + maxAddressSize ≤ data.length) :
    ∃ data', Balance.setWalletAddress index address data = .ok data' := by
  have hzeros : balancesOffset + index * balanceSize + (List.replicate maxAddressSize (0 : UInt8)).length ≤
      data.length := by
    rw [List.length_replicate]
    exact hle
  obtain ⟨cleared, hclear⟩ := writeBlock_run hzeros
  have hlength := Bytes.patch_length (writeBlock_eq_ok.mp hclear)
  have haddress : balancesOffset + index * balanceSize + address.bytes.length ≤ cleared.length := by omega
  obtain ⟨data', hwrite⟩ := writeBlock_run haddress
  refine ⟨data', ?_⟩
  rw [Balance.setWalletAddress, setString, if_neg (Nat.not_le.mpr hshort)]
  exact CheckedWord.bind_eq_ok.mpr ⟨cleared, hclear, hwrite⟩

theorem setWalletAddress_panic (hshort : address.bytes.length < maxAddressSize)
    (hlt : data.length < balancesOffset + index * balanceSize + maxAddressSize) :
    Balance.setWalletAddress index address data = .error .panic := by
  have hzeros : data.length <
      balancesOffset + index * balanceSize + (List.replicate maxAddressSize (0 : UInt8)).length := by
    rw [List.length_replicate]
    exact hlt
  rw [Balance.setWalletAddress, setString, if_neg (Nat.not_le.mpr hshort), writeBlock_panic (by simp) hzeros]
  rfl

end Addresses

/-! ### The wallets of one setup -/

/-- Only the data of one account differs, and only after the count. -/
structure Edits (key : Pubkey) (m m' : Memory) : Prop where
  others : ∀ key', key' ≠ key → m' key' = m key'
  original : (m' key).originalDataLen = (m key).originalDataLen
  length : (m' key).data.length = (m key).data.length
  below : ∀ o < balancesOffset, (m' key).data[o]? = (m key).data[o]?

theorem Edits.refl (key : Pubkey) (m : Memory) : Edits key m m :=
  ⟨fun _ _ => rfl, rfl, rfl, fun _ _ => rfl⟩

theorem Edits.trans {key : Pubkey} {m m' m'' : Memory} (h : Edits key m m') (h' : Edits key m' m'') :
    Edits key m m'' :=
  ⟨fun key' hne => (h'.others key' hne).trans (h.others key' hne), h'.original.trans h.original,
    h'.length.trans h.length, fun o ho => (h'.below o ho).trans (h.below o ho)⟩

section Wallets

variable {rt : Runtime} {account : AccountInfo} {networkType : NetworkType} {m : Memory}

theorem edits_setWalletAddress {index : Nat} {address : Utf8String} {data : Bytes}
    (h : Balance.setWalletAddress index address (m account.key).data = .ok data) :
    Edits account.key m (m.setData account.key data) := by
  obtain ⟨hlength, hbytes⟩ := writes_setWalletAddress index address _ _ h
  refine ⟨fun key' hne => Memory.setData_of_ne m data hne, Memory.setData_originalDataLen .., ?_, fun o ho => ?_⟩
  · rw [Memory.setData_self]
    exact hlength
  · rw [Memory.setData_self]
    refine hbytes o fun hin => ?_
    have hlow := hin.1
    omega

/-- The new addresses are all written where there is room, and the program stops at the first one that has none. -/
theorem addWallets_run {addresses : List Utf8String} {count : Nat}
    (hvalid : ∀ address ∈ addresses, validateBitcoinAddress rt address networkType false = .ok () ∧
      address.bytes.length < maxAddressSize) :
    (Roomy count addresses.length (m account.key).data.length →
      ∃ m', (addresses.foldlM (addWallet rt account networkType) count).run m = .ok (count + addresses.length) m' ∧
        Edits account.key m m') ∧
    (¬Roomy count addresses.length (m account.key).data.length →
      (addresses.foldlM (addWallet rt account networkType) count).run m = .panic) := by
  induction addresses generalizing count m with
  | nil => exact ⟨fun _ => ⟨m, rfl, Edits.refl _ m⟩, fun hnot => absurd (Or.inl rfl) hnot⟩
  | cons address addresses ih =>
      obtain ⟨⟨hvalid, hshort⟩, hrest⟩ := List.forall_mem_cons.mp hvalid
      rw [List.foldlM_cons, List.length_cons]
      by_cases hfits : balancesOffset + count * balanceSize + maxAddressSize ≤ (m account.key).data.length
      · obtain ⟨data, hdata⟩ := setWalletAddress_run hshort hfits
        have hedits := edits_setWalletAddress hdata
        have hadd : (addWallet rt account networkType count address).run m =
            .ok (count + 1) (m.setData account.key data) :=
          Exec.query_bind_eq_ok.mpr ⟨(), hvalid, Exec.bind_eq_ok.mpr ⟨(), _, write_run hdata, rfl⟩⟩
        obtain ⟨hroom, hfull⟩ := ih hrest
        have hiff : Roomy count (addresses.length + 1) (m account.key).data.length ↔
            Roomy (count + 1) addresses.length ((m.setData account.key data) account.key).data.length := by
          rw [hedits.length]
          simp only [Roomy, balancesOffset, balanceSize, balanceCountOffset, balanceAmountSize, maxAddressSize] at hfits ⊢
          omega
        rw [run_bind_of_ok hadd, hiff]
        refine ⟨fun hroomy => ?_, fun hnot => hfull hnot⟩
        obtain ⟨m', hrun, hedits'⟩ := hroom hroomy
        rw [Nat.add_right_comm, Nat.add_assoc count] at hrun
        exact ⟨m', hrun, hedits.trans hedits'⟩
      · have hpanic := setWalletAddress_panic hshort (Nat.not_le.mp hfits)
        refine ⟨fun hroomy => ?_, fun _ => run_bind_of_panic ?_⟩
        · simp only [Roomy, balancesOffset, balanceSize, balanceCountOffset, balanceAmountSize, maxAddressSize]
            at hroomy hfits
          omega
        · have hcheck : (lift (validateBitcoinAddress rt address networkType false)).run m = .ok () m :=
            Exec.query_eq_ok.mpr ⟨hvalid, rfl⟩
          rw [addWallet, run_bind_of_ok hcheck]
          exact run_bind_of_panic (write_run_of_panic hpanic)

end Wallets

/-! ### Growing -/

section Growing

variable {account : AccountInfo} {additionalBalances : Nat} {m m' : Memory} {u : Unit}

theorem getNumBalances_run {data : Bytes} (hle : balancesOffset ≤ data.length) :
    TokenState.getNumBalances data = .ok (numBalances data) :=
  getNumBalances_eq_ok.mpr ⟨slice_isSome hle, rfl⟩

/-- Growing never fails: one step is what a call may add. -/
theorem grow_run (horiginal : balancesOffset ≤ (m account.key).originalDataLen)
    (hlonger : (m account.key).originalDataLen ≤ (m account.key).data.length) :
    ∃ m', (TokenState.growBalanceAccountsIfNeeded account additionalBalances).run m = .ok () m' := by
  have hpos : 0 < (m account.key).originalDataLen := Nat.lt_of_lt_of_le (by decide) horiginal
  have hread : (if 0 < (m account.key).originalDataLen then account.read TokenState.getNumBalances
      else pure 0 : Prog Nat).run m = .ok (numBalances (m account.key).data) m := by
    rw [if_pos hpos]
    exact read_eq_ok.mpr ⟨getNumBalances_run (horiginal.trans hlonger), rfl⟩
  have hrealloc : ∃ m', (account.realloc ((m account.key).originalDataLen + maxPermittedDataIncrease)).run m =
      .ok () m' := by
    simp only [AccountInfo.realloc, Exec.modify_eq_ok, Nat.add_sub_cancel_left, lt_irrefl, if_false]
    split
    · exact ⟨m, rfl⟩
    · exact ⟨_, rfl⟩
  obtain ⟨grown, hgrown⟩ := hrealloc
  by_cases hneeded : (m account.key).originalDataLen <
      balancesOffset + (numBalances (m account.key).data + additionalBalances) * balanceSize
  · exact ⟨grown, Exec.query_bind_eq_ok.mpr ⟨_, rfl, Exec.bind_eq_ok.mpr ⟨_, m, hread,
      Exec.when_eq_ok.mpr (Or.inl ⟨hneeded, hgrown⟩)⟩⟩⟩
  · exact ⟨m, Exec.query_bind_eq_ok.mpr ⟨_, rfl, Exec.bind_eq_ok.mpr ⟨_, m, hread,
      Exec.when_eq_ok.mpr (Or.inr ⟨hneeded, rfl⟩)⟩⟩⟩

/-- An account grows by one step over its length at the start where it is too short for the balances, and not
otherwise. -/
theorem grow_length (h : (TokenState.growBalanceAccountsIfNeeded account additionalBalances).run m = .ok u m') :
    (balancesOffset + (numBalances (m account.key).data + additionalBalances) * balanceSize ≤
        (m account.key).originalDataLen ∧ m' = m) ∨
      (m' account.key).data.length = (m account.key).originalDataLen + maxPermittedDataIncrease := by
  obtain ⟨originalDataLen, hlen, h⟩ := Exec.query_bind_eq_ok.mp h
  obtain rfl := Except.ok.inj hlen
  obtain ⟨count, counted, hcount, h⟩ := Exec.bind_eq_ok.mp h
  split at hcount
  · obtain ⟨hread, rfl⟩ := read_eq_ok.mp hcount
    obtain rfl := (getNumBalances_eq_ok.mp hread).2
    rcases Exec.when_eq_ok.mp h with ⟨-, hrealloc⟩ | ⟨henough, rfl⟩
    · right
      rw [realloc_data hrealloc, if_pos rfl, resize_length]
    · exact Or.inl ⟨Nat.not_lt.mp henough, rfl⟩
  · next hempty =>
      obtain ⟨rfl, rfl⟩ := Exec.pure_eq_ok.mp hcount
      rcases Exec.when_eq_ok.mp h with ⟨-, hrealloc⟩ | ⟨henough, -⟩
      · right
        rw [realloc_data hrealloc, if_pos rfl, resize_length]
      · have hpos : 0 < balancesOffset := by decide
        omega

/-- A token account that has grown covers the additional balances exactly when one step is enough for them. -/
theorem grow_covers_iff (hlonger : (m account.key).originalDataLen ≤ (m account.key).data.length)
    (h : (TokenState.growBalanceAccountsIfNeeded account additionalBalances).run m = .ok u m') :
    Covers (m' account.key).data (numBalances (m account.key).data + additionalBalances) ↔
      balancesOffset + (numBalances (m account.key).data + additionalBalances) * balanceSize ≤
        (m account.key).originalDataLen + maxPermittedDataIncrease := by
  rcases grow_length h with ⟨henough, rfl⟩ | hgrown
  · exact iff_of_true (henough.trans hlonger) (henough.trans (Nat.le_add_right _ _))
  · rw [Covers, hgrown]

end Growing

/-! ### The memory of a call that adds wallets -/

/-- Accounts have grown by one step at most and begin as they did. -/
structure Grown (w : World) (m : Memory) : Prop where
  original : ∀ key, (m key).originalDataLen = (w key).data.length
  longer : ∀ key, (w key).data.length ≤ (m key).data.length
  bounded : ∀ key, (m key).data.length ≤ (w key).data.length + maxPermittedDataIncrease
  header : ∀ key, ∀ o < balanceCountOffset, (m key).data[o]? = (w key).data[o]?

theorem Grown.start (w : World) : Grown w (load w) :=
  ⟨fun _ => rfl, fun _ => Nat.le_refl _, fun _ => Nat.le_add_right _ _, fun _ _ _ => rfl⟩

theorem fits_congr {accounts : List AccountInfo} {accountType : AccountType} {related : Option UInt8}
    {data data' : Bytes} (h : ∀ o < 37, data'[o]? = data[o]?) :
    Fits accounts (some accountType) related data' ↔ Fits accounts (some accountType) related data := by
  cases related with
  | none => rw [Fits, Fits, getType_congr h]
  | some index => simp only [Fits, bound_congr h]

section Calls

variable {rt : Runtime} {accounts : List AccountInfo} {w : World} {account : AccountInfo} {m m' : Memory} {u : Unit}

theorem Grown.validated_iff (h : Grown w m) {index : UInt8} {isSigner isWritable : Bool} {accountType : AccountType}
    {related : Option UInt8} :
    Validated accounts index isSigner isWritable (some accountType) related m ↔
      Validated accounts index isSigner isWritable (some accountType) related (load w) := by
  have hfits : ∀ account : AccountInfo, Fits accounts (some accountType) related (m account.key).data ↔
      Fits accounts (some accountType) related (load w account.key).data := fun account =>
    fits_congr fun o ho => h.header account.key o (Nat.lt_trans ho (by decide))
  simp only [Validated, hfits]

theorem Grown.grow (h : Grown w m) (hlong : balancesOffset ≤ (w account.key).data.length) {additional : Nat}
    (hrun : (TokenState.growBalanceAccountsIfNeeded account additional).run m = .ok u m') :
    Grown w m' ∧ ∀ key, numBalances (m' key).data = numBalances (m key).data := by
  rcases grow_cases hrun with rfl | ⟨horiginal, hdata⟩
  · exact ⟨h, fun _ => rfl⟩
  · rw [h.original] at hdata
    have hlow : ∀ key, ∀ o < balancesOffset, (m' key).data[o]? = (m key).data[o]? := by
      intro key o ho
      rw [hdata]
      split
      · next hkey =>
          subst hkey
          exact resize_getElem? (h.bounded _) (Nat.lt_of_lt_of_le ho (hlong.trans (h.longer _)))
      · rfl
    refine ⟨⟨fun key => (horiginal key).trans (h.original key), fun key => ?_, fun key => ?_, fun key o ho => ?_⟩,
      fun key => numBalances_congr fun o ho => hlow key o ho.2⟩
    · rw [hdata]
      split
      · next hkey =>
          subst hkey
          rw [resize_length]
          exact Nat.le_add_right _ _
      · exact h.longer key
    · rw [hdata]
      split
      · next hkey =>
          subst hkey
          rw [resize_length]
      · exact h.bounded key
    · exact (hlow key o (Nat.lt_trans ho (by decide))).trans (h.header key o ho)

theorem Grown.edits (h : Grown w m) {key : Pubkey} (hedits : Edits key m m') :
    Grown w m' ∧ ∀ key', numBalances (m' key').data = numBalances (m key').data := by
  have hsame : ∀ key', (m' key').originalDataLen = (m key').originalDataLen ∧
      (m' key').data.length = (m key').data.length ∧
      ∀ o < balancesOffset, (m' key').data[o]? = (m key').data[o]? := by
    intro key'
    by_cases hkey : key' = key
    · subst hkey
      exact ⟨hedits.original, hedits.length, hedits.below⟩
    · rw [hedits.others key' hkey]
      exact ⟨rfl, rfl, fun _ _ => rfl⟩
  refine ⟨⟨fun key' => ?_, fun key' => ?_, fun key' => ?_, fun key' o ho => ?_⟩, fun key' => ?_⟩
  · exact (hsame key').1.trans (h.original key')
  · rw [(hsame key').2.1]
    exact h.longer key'
  · rw [(hsame key').2.1]
    exact h.bounded key'
  · exact ((hsame key').2.2 o (Nat.lt_trans ho (by decide))).trans (h.header key' o ho)
  · exact numBalances_congr fun o ho => (hsame key').2.2 o ho.2

/-- The new count is written where the count lies in the data. -/
theorem Grown.setNumBalances (h : Grown w m) (hlong : balancesOffset ≤ (w account.key).data.length) (count : Nat) :
    ∃ m', (account.write (TokenState.setNumBalances count)).run m = .ok () m' ∧ Grown w m' ∧
      ∀ key, numBalances (m' key).data =
        if key = account.key then count % 2 ^ 32 else numBalances (m key).data := by
  have hcount : balanceCountOffset + (ofWord 4 count).length ≤ (m account.key).data.length := by
    rw [ofWord_length]
    exact hlong.trans (h.longer _)
  obtain ⟨data, hdata⟩ := writeBlock_run hcount
  obtain ⟨hlength, hsame⟩ := writes_setNumBalances count _ _ hdata
  refine ⟨m.setData account.key data, write_run hdata, ⟨fun key => ?_, fun key => ?_, fun key => ?_,
    fun key o ho => ?_⟩, fun key => ?_⟩
  · rw [Memory.setData_originalDataLen]
    exact h.original key
  all_goals rw [Memory.setData_data]; split
  · next hkey =>
      subst hkey
      rw [hlength]
      exact h.longer _
  · exact h.longer key
  · next hkey =>
      subst hkey
      rw [hlength]
      exact h.bounded _
  · exact h.bounded key
  · next hkey =>
      subst hkey
      rw [hsame o fun hin => absurd hin.1 (Nat.not_le.mpr ho)]
      exact h.header _ o ho
  · exact h.header key o ho
  · exact numBalances_setNumBalances hdata
  · rfl

end Calls

/-! ### Validation of the accounts -/

section Validation

variable {accounts : List AccountInfo} {m : Memory}

/-- The validation of an account of the type that it should have gives a result. -/
theorem validateAccount_ne_panic {index : UInt8} {isSigner isWritable : Bool} {accountType : AccountType}
    {related : Option UInt8} (hrelated : ∀ r, related = some r → r.toNat ≤ index.toNat)
    (hdata : ∀ account, accounts[index.toNat]? = some account →
      getType (m account.key).data = .ok accountType ∧ 37 ≤ (m account.key).data.length) :
    (validateAccount accounts index isSigner isWritable (some accountType) related).run m ≠ .panic := by
  intro hstart
  obtain hpanic | ⟨_, _, hindex, hlook⟩ := Exec.bind_eq_panic.mp hstart
  · exact Exec.ensure_ne_panic hpanic
  obtain ⟨hbound, rfl⟩ := Exec.ensure_eq_ok.mp hindex
  have hlisted := List.getElem?_eq_getElem hbound
  obtain ⟨htype, hlong⟩ := hdata _ hlisted
  rw [run_bind_of_ok (accountAt_eq_ok.mpr ⟨hlisted, rfl⟩)] at hlook
  obtain hpanic | ⟨_, _, hflags, hread⟩ := Exec.bind_eq_panic.mp hlook
  · exact Exec.ensure_ne_panic hpanic
  obtain ⟨-, rfl⟩ := Exec.ensure_eq_ok.mp hflags
  rw [run_bind_of_ok (read_eq_ok.mpr ⟨htype, rfl⟩)] at hread
  obtain hpanic | ⟨_, _, hsame, hrest⟩ := Exec.bind_eq_panic.mp hread
  · exact Exec.ensure_ne_panic hpanic
  obtain ⟨-, rfl⟩ := Exec.ensure_eq_ok.mp hsame
  cases related with
  | none => cases hrest
  | some r =>
      have hbelow : r.toNat < accounts.length := Nat.lt_of_le_of_lt (hrelated r rfl) hbound
      obtain hpanic | ⟨key, _, hkey, hcompare⟩ := Exec.bind_eq_panic.mp hrest
      · have hpanic := Exec.query_eq_panic.mp hpanic
        obtain ⟨block, hblock⟩ := slice_isSome (show 5 + 32 ≤ _ from hlong)
        have hkey : readArray 5 32 _ = .ok ⟨block, (Bytes.slice_eq_some.mp hblock).1⟩ := readArray_eq_ok.mpr hblock
        cases accountType with
        | unknown => cases hpanic
        | _ => cases hkey.symm.trans hpanic
      · obtain ⟨-, rfl⟩ := read_eq_ok.mp hkey
        rw [run_bind_of_ok (accountAt_eq_ok.mpr ⟨List.getElem?_eq_getElem hbelow, rfl⟩)] at hcompare
        exact Exec.ensure_ne_panic hcompare

end Validation

/-! ### The setups of a call -/

/-- What the program does for one setup. -/
def setupWallets (rt : Runtime) (accounts : List AccountInfo) (networkType : NetworkType) (setup : TokenStateSetup) :
    Prog Unit := do
  validateAccount accounts setup.accountIndex false true (some .token) (some 0)
  let account ← accountAt accounts setup.accountIndex.toNat
  TokenState.growBalanceAccountsIfNeeded account setup.walletAddresses.length
  let numBalances ← account.read TokenState.getNumBalances
  let numBalances ← setup.walletAddresses.foldlM (addWallet rt account networkType) numBalances
  account.write (TokenState.setNumBalances numBalances)

/-- The addresses that the setups bring to an account, in order. -/
def walletsFor (accounts : List AccountInfo) (setups : List TokenStateSetup) (key : Pubkey) : List Utf8String :=
  setups.flatMap fun setup => if keyAt accounts setup.accountIndex = some key then setup.walletAddresses else []

/-- The setups name token accounts of the program. -/
def AllValidated (accounts : List AccountInfo) (w : World) (setups : List TokenStateSetup) : Prop :=
  ∀ setup ∈ setups, Validated accounts setup.accountIndex false true (some .token) (some 0) (load w)

/-- Together with one step each account has room for what all setups bring to it. -/
def AllRoomy (accounts : List AccountInfo) (w : World) (m : Memory) (setups : List TokenStateSetup) : Prop :=
  ∀ key, Roomy (numBalances (m key).data) (walletsFor accounts setups key).length
    ((w key).data.length + maxPermittedDataIncrease)

section Setups

variable {rt : Runtime} {accounts : List AccountInfo} {networkType : NetworkType} {w : World} {m : Memory}

/-- After a growth there is room for the addresses exactly when one step is enough. -/
theorem Grown.roomy_iff {account : AccountInfo} {additional : Nat} {grown : Memory} {u : Unit} (h : Grown w m)
    (hrun : (TokenState.growBalanceAccountsIfNeeded account additional).run m = .ok u grown) :
    Roomy (numBalances (m account.key).data) additional (grown account.key).data.length ↔
      Roomy (numBalances (m account.key).data) additional
        ((w account.key).data.length + maxPermittedDataIncrease) := by
  rcases grow_length hrun with ⟨henough, rfl⟩ | hlength
  · rw [h.original] at henough
    have hlonger := h.longer account.key
    simp only [Roomy]
    omega
  · rw [hlength, h.original]

/-- What there is room for can be counted. -/
theorem count_lt_of_roomy {count added length : Nat} (hcount : count < 2 ^ 32) (h : Roomy count added length)
    (hlength : length ≤ maxPermittedDataLength + maxPermittedDataIncrease) : count + added < 2 ^ 32 := by
  rw [roomy_eq] at h
  simp only [maxPermittedDataLength, maxPermittedDataIncrease] at hlength
  omega

/-- The addresses of a setup are all added where one step makes room for them, and otherwise the program stops. -/
theorem setupWallets_run {setup : TokenStateSetup} {account : AccountInfo} (h : Grown w m)
    (hvalidated : Validated accounts setup.accountIndex false true (some .token) (some 0) (load w))
    (haccount : accounts[setup.accountIndex.toNat]? = some account) (hlong : balancesOffset ≤ (w account.key).data.length)
    (hvalid : ∀ address ∈ setup.walletAddresses, validateBitcoinAddress rt address networkType false = .ok () ∧
      address.bytes.length < maxAddressSize) :
    (Roomy (numBalances (m account.key).data) setup.walletAddresses.length
        ((w account.key).data.length + maxPermittedDataIncrease) →
      ∃ m', (setupWallets rt accounts networkType setup).run m = .ok () m' ∧ Grown w m' ∧
        ∀ key, numBalances (m' key).data =
          numBalances (m key).data + if key = account.key then setup.walletAddresses.length else 0) ∧
    (¬Roomy (numBalances (m account.key).data) setup.walletAddresses.length
        ((w account.key).data.length + maxPermittedDataIncrease) →
      (setupWallets rt accounts networkType setup).run m = .panic) := by
  have hbegan := h.original account.key
  obtain ⟨grown, hgrow⟩ : ∃ grown, (TokenState.growBalanceAccountsIfNeeded account
      setup.walletAddresses.length).run m = .ok () grown :=
    grow_run (hbegan.symm ▸ hlong) (hbegan.symm ▸ h.longer account.key)
  obtain ⟨hgrown, hcounts⟩ := h.grow hlong hgrow
  have hread : (account.read TokenState.getNumBalances).run grown = .ok (numBalances (m account.key).data) grown := by
    rw [← hcounts account.key]
    exact read_eq_ok.mpr ⟨getNumBalances_run (hlong.trans (hgrown.longer _)), rfl⟩
  have hstart : (setupWallets rt accounts networkType setup).run m =
      (do
        let numBalances ← setup.walletAddresses.foldlM (addWallet rt account networkType)
          (numBalances (m account.key).data)
        account.write (TokenState.setNumBalances numBalances)).run grown := by
    rw [setupWallets, run_bind_of_ok (a := ()) (validateAccount_eq_ok.mpr ⟨h.validated_iff.mpr hvalidated, rfl⟩),
      run_bind_of_ok (accountAt_eq_ok.mpr ⟨haccount, rfl⟩), run_bind_of_ok hgrow, run_bind_of_ok hread]
  obtain ⟨hroom, hfull⟩ := @addWallets_run rt account networkType grown setup.walletAddresses
    (numBalances (m account.key).data) hvalid
  rw [h.roomy_iff hgrow] at hroom hfull
  rw [hstart]
  refine ⟨fun hroomy => ?_, fun hnot => run_bind_of_panic (hfull hnot)⟩
  obtain ⟨added, hadded, hedits⟩ := hroom hroomy
  obtain ⟨hgrownAdded, hcountsAdded⟩ := hgrown.edits hedits
  obtain ⟨m', hset, hgrown', hcounts'⟩ := hgrownAdded.setNumBalances hlong
    (numBalances (m account.key).data + setup.walletAddresses.length)
  refine ⟨m', (run_bind_of_ok hadded).trans hset, hgrown', fun key => ?_⟩
  rw [hcounts' key]
  split
  · next hkey =>
      subst hkey
      refine Nat.mod_eq_of_lt (count_lt_of_roomy (numBalances_lt _) hroomy ?_)
      exact Nat.add_le_add_right (w account.key).size_le _
  · rw [hcountsAdded, hcounts, Nat.add_zero]

theorem roomy_add {count first second length : Nat} (h : Roomy count first length) :
    Roomy count (first + second) length ↔ Roomy (count + first) second length := by
  simp only [Roomy] at h ⊢
  rw [← Nat.add_assoc]
  rcases Nat.eq_zero_or_pos second with rfl | hpos
  · simp only [true_or, iff_true, Nat.add_zero]
    exact h
  · omega

theorem Roomy.of_le {count added added' length : Nat} (hle : added ≤ added') (h : Roomy count added' length) :
    Roomy count added length := by
  rw [roomy_eq] at h ⊢
  omega

theorem walletsFor_cons {setup : TokenStateSetup} {setups : List TokenStateSetup} {account : AccountInfo}
    (haccount : accounts[setup.accountIndex.toNat]? = some account) (key : Pubkey) :
    walletsFor accounts (setup :: setups) key =
      (if key = account.key then setup.walletAddresses else []) ++ walletsFor accounts setups key := by
  simp only [walletsFor, keyAt, List.flatMap_cons, haccount, Option.map_some, Option.some.injEq,
    eq_comm (a := account.key)]

/-- One setup after the other: there is room for all exactly when there is room for the first and, with its
addresses counted, for the rest. -/
theorem allRoomy_cons {setup : TokenStateSetup} {setups : List TokenStateSetup} {account : AccountInfo} {m' : Memory}
    (haccount : accounts[setup.accountIndex.toNat]? = some account)
    (hroomy : Roomy (numBalances (m account.key).data) setup.walletAddresses.length
      ((w account.key).data.length + maxPermittedDataIncrease))
    (hcounts : ∀ key, numBalances (m' key).data =
      numBalances (m key).data + if key = account.key then setup.walletAddresses.length else 0) :
    AllRoomy accounts w m (setup :: setups) ↔ AllRoomy accounts w m' setups := by
  refine forall_congr' fun key => ?_
  rw [walletsFor_cons haccount, hcounts, List.length_append]
  split
  · next hkey =>
      subst hkey
      exact roomy_add hroomy
  · rw [List.length_nil, Nat.zero_add, Nat.add_zero]

theorem allRoomy_nil : AllRoomy accounts w m [] := fun _ => Or.inl rfl

/-- The account of a setup holds balances, and the addresses are short enough for them. -/
structure SetupReady (rt : Runtime) (accounts : List AccountInfo) (networkType : NetworkType) (w : World)
    (setup : TokenStateSetup) : Prop where
  token : ∀ account, accounts[setup.accountIndex.toNat]? = some account →
    getType (w account.key).data = .ok .token ∧ balancesOffset ≤ (w account.key).data.length
  addresses : ∀ address ∈ setup.walletAddresses, validateBitcoinAddress rt address networkType false = .ok () ∧
    address.bytes.length < maxAddressSize

theorem Grown.validate_ne_panic (h : Grown w m) {setup : TokenStateSetup}
    (hready : SetupReady rt accounts networkType w setup) :
    (validateAccount accounts setup.accountIndex false true (some .token) (some 0)).run m ≠ .panic := by
  refine validateAccount_ne_panic (fun r hr => ?_) fun account haccount => ?_
  · cases hr
    exact Nat.zero_le _
  · obtain ⟨htype, hlong⟩ := hready.token account haccount
    refine ⟨?_, (show 37 ≤ balancesOffset by decide).trans (hlong.trans (h.longer _))⟩
    exact (getType_congr fun o ho => h.header account.key o (Nat.lt_trans ho (by decide))).trans htype

/-- A setup whose account is not the token account it should be ends with an error. -/
theorem Grown.setupWallets_ne_panic (h : Grown w m) {setup : TokenStateSetup}
    (hready : SetupReady rt accounts networkType w setup)
    (hnot : ¬Validated accounts setup.accountIndex false true (some .token) (some 0) (load w)) :
    (setupWallets rt accounts networkType setup).run m ≠ .panic := by
  intro hpanic
  rcases Exec.bind_eq_panic.mp hpanic with hvalidate | ⟨_, _, hvalidate, -⟩
  · exact h.validate_ne_panic hready hvalidate
  · exact hnot (h.validated_iff.mp (validateAccount_eq_ok.mp hvalidate).1)

/-- The setups stop the program where some of them, all validated, bring more to an account than one step has room
for. -/
theorem setups_panic_iff {setups : List TokenStateSetup} (h : Grown w m)
    (hready : ∀ setup ∈ setups, SetupReady rt accounts networkType w setup) :
    (setups.forM (setupWallets rt accounts networkType)).run m = .panic ↔
      ∃ reached, reached <+: setups ∧ AllValidated accounts w reached ∧ ¬AllRoomy accounts w m reached := by
  induction setups generalizing m with
  | nil =>
      refine iff_of_false nofun ?_
      rintro ⟨reached, hreached, -, hnot⟩
      rw [List.prefix_nil.mp hreached] at hnot
      exact hnot allRoomy_nil
  | cons setup setups ih =>
      obtain ⟨hsetup, hrest⟩ := List.forall_mem_cons.mp hready
      rw [Exec.forM_cons]
      by_cases hvalidated : Validated accounts setup.accountIndex false true (some .token) (some 0) (load w)
      · obtain ⟨account, haccount⟩ := hvalidated.imp fun _ hlisted => hlisted.1
        obtain ⟨hroom, hfull⟩ := setupWallets_run h hvalidated haccount (hsetup.token account haccount).2
          hsetup.addresses
        by_cases hroomy : Roomy (numBalances (m account.key).data) setup.walletAddresses.length
            ((w account.key).data.length + maxPermittedDataIncrease)
        · obtain ⟨m', hrun, hgrown, hcounts⟩ := hroom hroomy
          rw [run_bind_of_ok hrun, ih hgrown hrest]
          constructor
          · rintro ⟨reached, hreached, hall, hnot⟩
            refine ⟨setup :: reached, List.cons_prefix_cons.mpr ⟨rfl, hreached⟩,
              List.forall_mem_cons.mpr ⟨hvalidated, hall⟩, fun hroomy' => hnot ?_⟩
            exact (allRoomy_cons haccount hroomy hcounts).mp hroomy'
          · rintro ⟨reached, hreached, hall, hnot⟩
            rcases List.prefix_cons_iff.mp hreached with rfl | ⟨others, rfl, hothers⟩
            · exact absurd allRoomy_nil hnot
            · exact ⟨others, hothers, (List.forall_mem_cons.mp hall).2, fun hroomy' =>
                hnot ((allRoomy_cons haccount hroomy hcounts).mpr hroomy')⟩
        · refine iff_of_true (run_bind_of_panic (hfull hroomy)) ?_
          refine ⟨[setup], List.cons_prefix_cons.mpr ⟨rfl, List.nil_prefix⟩, fun _ hmem => ?_, fun hall => hroomy ?_⟩
          · rw [List.mem_singleton.mp hmem]
            exact hvalidated
          · have hadded := hall account.key
            rw [walletsFor_cons haccount, if_pos rfl, List.length_append] at hadded
            exact hadded.of_le (Nat.le_add_right _ _)
      · refine iff_of_false (fun hpanic => ?_) ?_
        · rcases Exec.bind_eq_panic.mp hpanic with hbody | ⟨_, _, hbody, -⟩
          · exact h.setupWallets_ne_panic hsetup hvalidated hbody
          · exact hvalidated (h.validated_iff.mp (validate_bind_eq_ok.mp hbody).1)
        · rintro ⟨reached, hreached, hall, hnot⟩
          rcases List.prefix_cons_iff.mp hreached with rfl | ⟨reached, rfl, -⟩
          · exact hnot allRoomy_nil
          · exact hvalidated (List.forall_mem_cons.mp hall).1

end Setups

/-! ### A whole call -/

section Call

variable {rt : Runtime} {accounts : List AccountInfo} {networkType : NetworkType} {w : World}

/-- The accounts and the addresses that setups are about: a program account, token accounts that cover their
balances, and valid addresses. -/
structure SetupsGiven (rt : Runtime) (accounts : List AccountInfo) (networkType : NetworkType) (w : World)
    (setups : List TokenStateSetup) : Prop where
  program : ∀ account, accounts[0]? = some account → getType (w account.key).data = .ok .program ∧
    ProgramState.getNetworkType (w account.key).data = .ok networkType
  tokens : ∀ setup ∈ setups, ∀ account, accounts[setup.accountIndex.toNat]? = some account →
    getType (w account.key).data = .ok .token ∧ Covers (w account.key).data (numBalances (w account.key).data)
  addresses : ∀ setup ∈ setups, ∀ address ∈ setup.walletAddresses,
    validateBitcoinAddress rt address networkType false = .ok ()

theorem SetupsGiven.ready (haddresses : ∀ address, (rt.addressFromStr address).isSome → AddressLike address)
    {setups : List TokenStateSetup} (h : SetupsGiven rt accounts networkType w setups) :
    ∀ setup ∈ setups, SetupReady rt accounts networkType w setup := by
  intro setup hsetup
  refine ⟨fun account haccount => ?_, fun address haddress => ?_⟩
  · obtain ⟨htype, hcovers⟩ := h.tokens setup hsetup account haccount
    exact ⟨htype, (Nat.le_add_right _ _).trans hcovers⟩
  · have hvalid := h.addresses setup hsetup address haddress
    exact ⟨hvalid, Nat.lt_succ_of_le (haddresses address (addressFromStr_of_valid hvalid)).short⟩

theorem SetupsGiven.validate_ne_panic {setups : List TokenStateSetup}
    (h : SetupsGiven rt accounts networkType w setups) :
    (validateAccount accounts 0 true false (some .program) none).run (load w) ≠ .panic := by
  refine validateAccount_ne_panic nofun fun account haccount => ?_
  obtain ⟨htype, hnetwork⟩ := h.program account haccount
  obtain ⟨block, hblock, -⟩ := CheckedWord.bind_eq_ok.mp hnetwork
  have hlong := Bytes.slice_le Nat.one_pos (readArray_eq_ok.mp hblock)
  exact ⟨htype, (show 37 ≤ networkTypeOffset + 1 by decide).trans hlong⟩

/-- Setups that a call gets to, up to the first that is not validated, bring no more to any account than one step
has room for. -/
def EnoughRoom (accounts : List AccountInfo) (w : World) (setups : List TokenStateSetup) : Prop :=
  Validated accounts 0 true false (some .program) none (load w) →
    ∀ reached, reached <+: setups → AllValidated accounts w reached → AllRoomy accounts w (load w) reached

/-- Growing may succeed and leave an account too short. -/
theorem grow_too_short (account : AccountInfo) {additionalBalances : Nat}
    (hlong : balancesOffset ≤ (w account.key).data.length)
    (hmany : (w account.key).data.length + maxPermittedDataIncrease <
      balancesOffset + (numBalances (w account.key).data + additionalBalances) * balanceSize) :
    ∃ m', (TokenState.growBalanceAccountsIfNeeded account additionalBalances).run (load w) = .ok () m' ∧
      ¬Covers (m' account.key).data (numBalances (w account.key).data + additionalBalances) := by
  have horiginal : balancesOffset ≤ (load w account.key).originalDataLen := hlong
  obtain ⟨m', hgrow⟩ : ∃ m', (TokenState.growBalanceAccountsIfNeeded account additionalBalances).run (load w) =
      .ok () m' := grow_run horiginal (Nat.le_refl _)
  exact ⟨m', hgrow, fun hcovers => Nat.not_le.mpr hmany ((grow_covers_iff (Nat.le_refl _) hgrow).mp hcovers)⟩

theorem initWalletBalances_panic_iff
    (haddresses : ∀ address, (rt.addressFromStr address).isSome → AddressLike address) {params : InitWalletBalancesParams}
    (hgiven : SetupsGiven rt accounts networkType w params.tokenStateSetups) :
    (initWalletBalances rt accounts params).run (load w) = .panic ↔
      ¬EnoughRoom accounts w params.tokenStateSetups := by
  by_cases hvalidated : Validated accounts 0 true false (some .program) none (load w)
  · obtain ⟨program, hprogram⟩ : ∃ program, accounts[0]? = some program := hvalidated.imp fun _ hlisted => hlisted.1
    have hstart : (initWalletBalances rt accounts params).run (load w) =
        (params.tokenStateSetups.forM (setupWallets rt accounts networkType)).run (load w) := by
      rw [initWalletBalances, run_bind_of_ok (a := ()) (validateAccount_eq_ok.mpr ⟨hvalidated, rfl⟩),
        run_bind_of_ok (accountAt_eq_ok.mpr ⟨hprogram, rfl⟩),
        run_bind_of_ok (read_eq_ok.mpr ⟨(hgiven.program program hprogram).2, rfl⟩)]
      rfl
    rw [hstart, setups_panic_iff (Grown.start w) (hgiven.ready haddresses)]
    constructor
    · rintro ⟨reached, hreached, hall, hnot⟩ henough
      exact hnot (henough hvalidated reached hreached hall)
    · intro hnot
      by_contra hnone
      refine hnot fun _ reached hreached hall => ?_
      by_contra hfull
      exact hnone ⟨reached, hreached, hall, hfull⟩
  · refine iff_of_false (fun hpanic => ?_) fun hnot => hnot fun h => absurd h hvalidated
    rcases Exec.bind_eq_panic.mp hpanic with hvalidate | ⟨_, _, hvalidate, -⟩
    · exact hgiven.validate_ne_panic hvalidate
    · exact hvalidated (validateAccount_eq_ok.mp hvalidate).1

end Call

/-! ### An account that is nearly full -/

def crowdedAccounts : List AccountInfo := [⟨sampleProgram, true, false⟩, ⟨sampleKey 0x31, false, true⟩]

/-- A token of 101 balances, which leave 67 bytes of an account that was never grown. -/
def crowdedData : Bytes :=
  [2, 0, 0, 0, 0] ++ sampleProgram.1 ++ padded 32 [0x31] ++ Bytes.ofWord 4 101 ++ padded 100 feeAddress ++
    (List.replicate 100 (padded 100 firstAddress)).flatten ++ zeros 67

def crowdedWorld : World :=
  sampleWorld [(sampleProgram, programData emptyHash emptyHash), (sampleKey 0x31, crowdedData)]

/-- One setup that brings a wallet many times. -/
def manyWallets (n : Nat) : InitWalletBalancesParams := ⟨[⟨1, List.replicate n ⟨firstAddress, firstAddress_valid⟩⟩]⟩

theorem crowdedWorld_values :
    (getType (crowdedWorld (sampleKey 0x31)).data = .ok .token ∧
      relatedAccountKey .token (crowdedWorld (sampleKey 0x31)).data = .ok sampleProgram ∧
      numBalances (crowdedWorld (sampleKey 0x31)).data = 101 ∧ (crowdedWorld (sampleKey 0x31)).data.length = 10240) ∧
    (getType (crowdedWorld sampleProgram).data = .ok .program ∧
      ProgramState.getNetworkType (crowdedWorld sampleProgram).data = .ok .regtest) ∧
    validateBitcoinAddress (sampleRuntime []) ⟨firstAddress, by decide⟩ .regtest false = .ok () := by
  decide +kernel

theorem manyWallets_given (n : Nat) :
    SetupsGiven (sampleRuntime []) crowdedAccounts .regtest crowdedWorld (manyWallets n).tokenStateSetups := by
  obtain ⟨⟨htype, -, hcount, hlength⟩, hprogram, hvalid⟩ := crowdedWorld_values
  refine ⟨fun account haccount => ?_, fun setup hsetup account haccount => ?_, fun setup hsetup address haddress => ?_⟩
  · obtain rfl := Option.some.inj haccount
    exact hprogram
  · rw [List.mem_singleton.mp hsetup] at haccount
    obtain rfl := Option.some.inj haccount
    refine ⟨htype, ?_⟩
    rw [Covers, hcount, hlength]
    decide
  · rw [List.mem_singleton.mp hsetup] at haddress
    rw [List.eq_of_mem_replicate haddress]
    exact hvalid

theorem manyWallets_enoughRoom_iff (n : Nat) :
    EnoughRoom crowdedAccounts crowdedWorld (manyWallets n).tokenStateSetups ↔ Roomy 101 n 20480 := by
  obtain ⟨⟨htype, hkey, hcount, hlength⟩, ⟨hprogram, -⟩, -⟩ := crowdedWorld_values
  have hadded : ∀ key, (walletsFor crowdedAccounts (manyWallets n).tokenStateSetups key).length =
      if key = sampleKey 0x31 then n else 0 := by
    intro key
    have hlisted : crowdedAccounts[(1 : UInt8).toNat]? = some ⟨sampleKey 0x31, false, true⟩ := rfl
    rw [manyWallets, walletsFor_cons hlisted, List.length_append]
    split
    · exact List.length_replicate
    · rfl
  constructor
  · intro h
    have hroomy := h ⟨⟨sampleProgram, true, false⟩, rfl, rfl, rfl, hprogram⟩ _ (List.prefix_refl _) (fun setup hsetup => by
      rw [List.mem_singleton.mp hsetup]
      exact ⟨⟨sampleKey 0x31, false, true⟩, rfl, rfl, rfl, ⟨sampleProgram, true, false⟩, rfl, htype, hkey⟩) (sampleKey 0x31)
    rw [hadded, if_pos rfl, hlength] at hroomy
    exact hcount ▸ hroomy
  · intro h _ reached hreached _ key
    rcases List.prefix_cons_iff.mp hreached with rfl | ⟨others, rfl, hothers⟩
    · exact Or.inl rfl
    · rw [List.prefix_nil.mp hothers]
      show Roomy _ (walletsFor crowdedAccounts (manyWallets n).tokenStateSetups key).length _
      rw [hadded]
      split
      · next hkey =>
          subst hkey
          rw [hlength]
          exact hcount.symm ▸ h
      · exact Or.inl rfl

/-- New wallets for token accounts that cover their balances: the program gives a result, and writes no slot outside
of the data, exactly when one step has room for what the setups bring to each account. And an account that has grown
covers the additional balances exactly when one step over its length at the start of the call is enough. -/
theorem initWalletBalances_stops_iff (rt : Runtime)
    (haddresses : ∀ address, (rt.addressFromStr address).isSome → AddressLike address) (accounts : List AccountInfo)
    (params : InitWalletBalancesParams) (networkType : NetworkType) (w : World)
    (hgiven : SetupsGiven rt accounts networkType w params.tokenStateSetups) :
    ((initWalletBalances rt accounts params).run (load w) ≠ .panic ↔
      EnoughRoom accounts w params.tokenStateSetups) ∧
    ∀ (account : AccountInfo) (additionalBalances : Nat) (m m' : Memory),
      (m account.key).originalDataLen ≤ (m account.key).data.length →
      (TokenState.growBalanceAccountsIfNeeded account additionalBalances).run m = .ok () m' →
      (Covers (m' account.key).data (numBalances (m account.key).data + additionalBalances) ↔
        balancesOffset + (numBalances (m account.key).data + additionalBalances) * balanceSize ≤
          (m account.key).originalDataLen + maxPermittedDataIncrease) := by
  refine ⟨?_, fun _ _ _ _ => grow_covers_iff⟩
  rw [Ne, initWalletBalances_panic_iff haddresses hgiven, not_not]

/-- There is room for 103 wallets more. -/
theorem wallets103_added :
    (initWalletBalances (sampleRuntime []) crowdedAccounts (manyWallets 103)).run (load crowdedWorld) ≠ .panic :=
  (initWalletBalances_stops_iff (sampleRuntime []) (sampleRuntime_addressLike []) crowdedAccounts (manyWallets 103)
    .regtest crowdedWorld (manyWallets_given 103)).1.mpr ((manyWallets_enoughRoom_iff 103).mpr (by decide))

/-- With 104 the account grows, successfully and by too little, and the program stops. -/
theorem wallets104_stop :
    SetupsGiven (sampleRuntime []) crowdedAccounts .regtest crowdedWorld (manyWallets 104).tokenStateSetups ∧
    (initWalletBalances (sampleRuntime []) crowdedAccounts (manyWallets 104)).run (load crowdedWorld) = .panic ∧
    ∃ m', (TokenState.growBalanceAccountsIfNeeded ⟨sampleKey 0x31, false, true⟩ 104).run (load crowdedWorld) = .ok () m' ∧
      ¬Covers (m' (sampleKey 0x31)).data (numBalances (crowdedWorld (sampleKey 0x31)).data + 104) := by
  obtain ⟨⟨-, -, hcount, hlength⟩, -, -⟩ := crowdedWorld_values
  have hgiven := manyWallets_given 104
  refine ⟨hgiven, ?_, ?_⟩
  · rw [initWalletBalances_panic_iff (sampleRuntime_addressLike []) hgiven, manyWallets_enoughRoom_iff]
    decide
  · refine grow_too_short ⟨sampleKey 0x31, false, true⟩ ?_ ?_
    · rw [hlength]
      decide
    · rw [hcount, hlength]
      decide

end Chainring.Arch

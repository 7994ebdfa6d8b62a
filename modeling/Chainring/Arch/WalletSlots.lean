import Chainring.Arch.Growth

/-! New wallets fill the slots after those in use, in the order in which the setups bring them, and leave the
slots before alone. -/

namespace Chainring.Arch

open Bytes (resize_getElem?)

/-- An address that starts at the slot of an index. -/
def HoldsWallet (index : Nat) (address : Utf8String) (data : Bytes) : Prop :=
  HoldsString (balancesOffset + index * balanceSize) maxAddressSize address data

theorem HoldsWallet.getWalletAddress {index : Nat} {address : Utf8String} {data : Bytes}
    (h : HoldsWallet index address data) : Balance.getWalletAddress index data = .ok address :=
  HoldsString.parse h

theorem holdsWallet_setWalletAddress {index : Nat} {address : Utf8String} {data data' : Bytes}
    (hnul : 0 ∉ address.bytes) (h : Balance.setWalletAddress index address data = .ok data') :
    HoldsWallet index address data' := by
  obtain ⟨hshort, hslice⟩ := slice_setString h
  obtain ⟨string, hholds, hsame⟩ := holdsString_of_padded hslice hshort
  rw [hsame hnul] at hholds
  exact hholds

/-- Bytes that agree up to a slot leave the wallets before it alone. -/
theorem HoldsWallet.congr {index count : Nat} {address : Utf8String} {data data' : Bytes}
    (h : HoldsWallet index address data) (hindex : index < count)
    (hbytes : ∀ o, balancesOffset ≤ o → o < balancesOffset + count * balanceSize → o < data.length →
      data'[o]? = data[o]?) : HoldsWallet index address data' := by
  have hlong : balancesOffset + index * balanceSize + maxAddressSize ≤ data.length := by
    obtain ⟨-, rest, hslice⟩ := h
    exact Bytes.slice_le (by decide) hslice
  refine HoldsString.congr h fun o ho => hbytes o ((Nat.le_add_right _ _).trans ho.1) ?_ ?_
  · have hhigh : o < 73 + index * 100 + 92 := ho.2
    show o < 73 + count * 100
    omega
  · exact Nat.lt_of_lt_of_le ho.2 hlong

/-! ### The addresses of one setup -/

section Wallets

variable {rt : Runtime} {account : AccountInfo} {networkType : NetworkType} {m m' m'' : Memory} {u : Unit}

/-- Addresses fill the slots from the count on. -/
structure Appended (key : Pubkey) (count : Nat) (addresses : List Utf8String) (m m' : Memory) : Prop
    extends Edits key m m' where
  slots : ∀ o < balancesOffset + count * balanceSize, (m' key).data[o]? = (m key).data[o]?
  wallets : ∀ i (hi : i < addresses.length), HoldsWallet (count + i) addresses[i] (m' key).data
  room : Roomy count addresses.length (m key).data.length

theorem Appended.nil (key : Pubkey) (count : Nat) (m : Memory) : Appended key count [] m m where
  toEdits := Edits.refl key m
  slots := fun _ _ => rfl
  wallets := fun i hi => absurd hi (Nat.not_lt_zero i)
  room := Or.inl rfl

/-- The slot that is written gets the address, and those before it keep theirs. -/
theorem appended_setWalletAddress {count : Nat} {address : Utf8String} {data : Bytes} (hnul : 0 ∉ address.bytes)
    (h : Balance.setWalletAddress count address (m account.key).data = .ok data) :
    Appended account.key count [address] m (m.setData account.key data) := by
  refine ⟨edits_setWalletAddress h, fun o ho => ?_, fun i hi => ?_, Or.inr ?_⟩
  · rw [Memory.setData_self]
    exact (writes_setWalletAddress count address _ _ h).2 o fun hin => absurd hin.1 (Nat.not_le.mpr ho)
  · rw [Memory.setData_self]
    obtain rfl : i = 0 := Nat.lt_one_iff.mp hi
    exact holdsWallet_setWalletAddress hnul h
  · have hfits := setWalletAddress_le h
    show 73 + (count + 1) * 100 ≤ (m account.key).data.length + 8
    omega

theorem Appended.cons {key : Pubkey} {count : Nat} {address : Utf8String} {addresses : List Utf8String}
    (h : Appended key count [address] m m') (h' : Appended key (count + 1) addresses m' m'') :
    Appended key count (address :: addresses) m m'' where
  toEdits := h.toEdits.trans h'.toEdits
  slots := fun o ho => (h'.slots o (Nat.lt_of_lt_of_le ho (by simp))).trans (h.slots o ho)
  wallets := by
    intro i hi
    cases i with
    | zero =>
        refine (h.wallets 0 Nat.one_pos).congr (Nat.lt_succ_self count) fun o _ ho _ => ?_
        exact h'.slots o ho
    | succ i =>
        have hwallet := h'.wallets i (Nat.lt_of_succ_lt_succ hi)
        rw [Nat.add_right_comm, Nat.add_assoc] at hwallet
        exact hwallet
  room := by
    have hfirst := h.room
    have hrest := h'.room
    rw [h.length] at hrest
    rw [roomy_eq] at hfirst hrest ⊢
    simp only [List.length_cons, List.length_nil] at hfirst ⊢
    omega

theorem addWallets_appended (haddresses : ∀ address, (rt.addressFromStr address).isSome → AddressLike address)
    {addresses : List Utf8String} {count n : Nat}
    (h : (addresses.foldlM (addWallet rt account networkType) count).run m = .ok n m') :
    n = count + addresses.length ∧ Appended account.key count addresses m m' := by
  induction addresses generalizing count m with
  | nil =>
      obtain ⟨rfl, rfl⟩ := Exec.pure_eq_ok.mp h
      exact ⟨rfl, Appended.nil _ _ _⟩
  | cons address addresses ih =>
      rw [List.foldlM_cons] at h
      obtain ⟨next, added, hadd, hrest⟩ := Exec.bind_eq_ok.mp h
      obtain ⟨_, hvalid, hadd⟩ := Exec.query_bind_eq_ok.mp hadd
      have hnul := (haddresses address (addressFromStr_of_valid hvalid)).nulFree
      obtain ⟨_, written, hwrite, hnext⟩ := Exec.bind_eq_ok.mp hadd
      obtain ⟨rfl, rfl⟩ := Exec.pure_eq_ok.mp hnext
      obtain ⟨data, hdata, rfl⟩ := write_eq_ok.mp hwrite
      obtain ⟨rfl, happended⟩ := ih hrest
      refine ⟨?_, (appended_setWalletAddress hnul hdata).cons happended⟩
      rw [List.length_cons, Nat.add_right_comm, Nat.add_assoc]

end Wallets

/-! ### The setups of a call -/

/-- An account keeps its wallets and gets the addresses after them. -/
structure Joined (key : Pubkey) (addresses : List Utf8String) (m m' : Memory) : Prop where
  counts : numBalances (m' key).data = numBalances (m key).data + addresses.length
  kept : ∀ o, balancesOffset ≤ o → o < balancesOffset + numBalances (m key).data * balanceSize →
    o < (m key).data.length → (m' key).data[o]? = (m key).data[o]?
  length_le : (m key).data.length ≤ (m' key).data.length
  wallets : ∀ i (hi : i < addresses.length),
    HoldsWallet (numBalances (m key).data + i) addresses[i] (m' key).data

section Setups

variable {key : Pubkey} {m m' m'' : Memory}

theorem Joined.of_eq (h : (m' key).data = (m key).data) : Joined key [] m m' where
  counts := by rw [h, List.length_nil, Nat.add_zero]
  kept := fun o _ _ _ => by rw [h]
  length_le := by rw [h]
  wallets := fun i hi => absurd hi (Nat.not_lt_zero i)

theorem Joined.append {first second : List Utf8String} (h : Joined key first m m') (h' : Joined key second m' m'') :
    Joined key (first ++ second) m m'' where
  counts := by rw [h'.counts, h.counts, List.length_append, Nat.add_assoc]
  kept := by
    intro o hlow hhigh hin
    refine (h'.kept o hlow ?_ (Nat.lt_of_lt_of_le hin h.length_le)).trans (h.kept o hlow hhigh hin)
    rw [h.counts]
    exact Nat.lt_of_lt_of_le hhigh (by gcongr; exact Nat.le_add_right _ _)
  length_le := h.length_le.trans h'.length_le
  wallets := by
    intro i hi
    by_cases hfirst : i < first.length
    · rw [List.getElem_append_left hfirst]
      exact (h.wallets i hfirst).congr (by rw [h.counts]; omega) h'.kept
    · have hsecond : i - first.length < second.length := by
        rw [List.length_append] at hi
        omega
      have hwallet := h'.wallets (i - first.length) hsecond
      rw [h.counts, Nat.add_assoc, Nat.add_sub_cancel' (Nat.not_lt.mp hfirst)] at hwallet
      rw [List.getElem_append_right (Nat.not_lt.mp hfirst)]
      exact hwallet

end Setups

section Calls

variable {rt : Runtime} {accounts : List AccountInfo} {networkType : NetworkType} {w : World} {m m' : Memory} {u : Unit}

/-- Growing leaves every byte alone. -/
theorem Grown.keeps {account : AccountInfo} {additional : Nat} (h : Grown w m)
    (hrun : (TokenState.growBalanceAccountsIfNeeded account additional).run m = .ok u m') :
    (∀ key, key ≠ account.key → (m' key).data = (m key).data) ∧
      (m account.key).data.length ≤ (m' account.key).data.length ∧
      ∀ o < (m account.key).data.length, (m' account.key).data[o]? = (m account.key).data[o]? := by
  rcases grow_cases hrun with rfl | ⟨-, hdata⟩
  · exact ⟨fun _ _ => rfl, Nat.le_refl _, fun _ _ => rfl⟩
  · rw [h.original] at hdata
    refine ⟨fun key hne => ?_, ?_, fun o ho => ?_⟩
    · rw [hdata, if_neg hne]
    · rw [hdata, if_pos rfl, Bytes.resize_length]
      exact h.bounded _
    · rw [hdata, if_pos rfl]
      exact resize_getElem? (h.bounded _) ho

/-- Token accounts begin with their count. -/
def Counted (w : World) : Prop :=
  ∀ key, getType (w key).data = .ok .token → balancesOffset ≤ (w key).data.length

/-- One setup: the addresses join its account. -/
theorem setupWallets_joined (haddresses : ∀ address, (rt.addressFromStr address).isSome → AddressLike address)
    (hcounted : Counted w) (hgrown : Grown w m) {setup : TokenStateSetup}
    (h : (setupWallets rt accounts networkType setup).run m = .ok u m') :
    Validated accounts setup.accountIndex false true (some .token) (some 0) (load w) ∧ Grown w m' ∧
      ∀ key, Joined key (if keyAt accounts setup.accountIndex = some key then setup.walletAddresses else []) m m' := by
  obtain ⟨hvalidated, h⟩ := validate_bind_eq_ok.mp h
  obtain ⟨account, haccount, h⟩ := accountAt_bind_eq_ok.mp h
  obtain ⟨_, grown, hgrow, h⟩ := Exec.bind_eq_ok.mp h
  obtain ⟨count, hcount, h⟩ := read_bind_eq_ok.mp h
  obtain ⟨n, added, hadd, hset⟩ := Exec.bind_eq_ok.mp h
  have hload := hgrown.validated_iff.mp hvalidated
  have hlong := hcounted account.key (hload.type_eq haccount)
  obtain ⟨hgrown', hcounts⟩ := hgrown.grow hlong hgrow
  obtain ⟨hothers, hlonger, hbytes⟩ := hgrown.keeps hgrow
  obtain rfl := (getNumBalances_eq_ok.mp hcount).2
  obtain ⟨rfl, happended⟩ := addWallets_appended haddresses hadd
  obtain ⟨hgrownAdded, hcountsAdded⟩ := hgrown'.edits happended.toEdits
  obtain ⟨data, hdata, rfl⟩ := write_eq_ok.mp hset
  obtain ⟨hlength, hsame⟩ := writes_setNumBalances _ _ _ hdata
  rw [hcounts] at happended hdata
  have hkey := keyAt_of_listed haccount
  obtain ⟨_, hset', hgrownSet, hcountsSet⟩ := hgrownAdded.setNumBalances hlong
    (numBalances (m account.key).data + setup.walletAddresses.length)
  obtain ⟨data', hdata', rfl⟩ := write_eq_ok.mp hset'
  obtain rfl : data = data' := Except.ok.inj (hdata.symm.trans hdata')
  refine ⟨hload, hgrownSet, fun key => ?_⟩
  by_cases hsame' : key = account.key
  · subst hsame'
    rw [if_pos hkey]
    have hafter : ∀ o, balancesOffset ≤ o →
        ((added.setData account.key data) account.key).data[o]? = (added account.key).data[o]? := by
      intro o ho
      rw [Memory.setData_self]
      exact hsame o fun hin => absurd hin.2 (Nat.not_lt.mpr ho)
    refine ⟨?_, fun o hlow hhigh hin => ?_, ?_, fun i hi => ?_⟩
    · rw [hcountsSet, if_pos rfl]
      refine Nat.mod_eq_of_lt (count_lt_of_roomy (numBalances_lt _) happended.room ?_)
      exact (hgrown'.bounded _).trans (Nat.add_le_add_right (w account.key).size_le _)
    · exact (hafter o hlow).trans ((happended.slots o hhigh).trans (hbytes o hin))
    · rw [Memory.setData_self, hlength, happended.length]
      exact hlonger
    · exact (happended.wallets i hi).congr (Nat.lt_succ_self _) fun o hlow _ _ => hafter o hlow
  · have hother : keyAt accounts setup.accountIndex ≠ some key := by
      rw [hkey]
      exact fun heq => hsame' (Option.some.inj heq).symm
    rw [if_neg hother]
    apply Joined.of_eq
    rw [Memory.setData_of_ne added data hsame', happended.others key hsame', hothers key hsame']

theorem setups_joined (haddresses : ∀ address, (rt.addressFromStr address).isSome → AddressLike address)
    (hcounted : Counted w) (hgrown : Grown w m) {setups : List TokenStateSetup}
    (h : (setups.forM (setupWallets rt accounts networkType)).run m = .ok u m') :
    AllValidated accounts w setups ∧ ∀ key, Joined key (walletsFor accounts setups key) m m' := by
  induction setups generalizing m with
  | nil =>
      obtain ⟨-, rfl⟩ := Exec.pure_eq_ok.mp h
      exact ⟨fun _ hmem => absurd hmem List.not_mem_nil, fun key => Joined.of_eq rfl⟩
  | cons setup setups ih =>
      obtain ⟨between, hsetup, hrest⟩ := Exec.forM_cons_eq_ok.mp h
      obtain ⟨hvalidated, hgrown', hjoined⟩ := setupWallets_joined haddresses hcounted hgrown hsetup
      obtain ⟨hall, hjoined'⟩ := ih hgrown' hrest
      exact ⟨List.forall_mem_cons.mpr ⟨hvalidated, hall⟩, fun key => (hjoined key).append (hjoined' key)⟩

/-- The whole call: every account that a setup names is a token account of the program, and the addresses join
the accounts in order. -/
theorem initWalletBalances_joined (haddresses : ∀ address, (rt.addressFromStr address).isSome → AddressLike address)
    (hcounted : Counted w) {params : InitWalletBalancesParams}
    (h : (initWalletBalances rt accounts params).run (load w) = .ok u m') :
    Validated accounts 0 true false (some .program) none (load w) ∧
      AllValidated accounts w params.tokenStateSetups ∧
      ∀ key, Joined key (walletsFor accounts params.tokenStateSetups key) (load w) m' := by
  obtain ⟨hvalidated, h⟩ := validate_bind_eq_ok.mp h
  obtain ⟨program, -, h⟩ := accountAt_bind_eq_ok.mp h
  obtain ⟨networkType, -, h⟩ := read_bind_eq_ok.mp h
  exact ⟨hvalidated, setups_joined haddresses hcounted (Grown.start w) h⟩

/-- Only token accounts of the program that leads the call get addresses. -/
theorem AllValidated.bound {setups : List TokenStateSetup} (h : AllValidated accounts w setups) {key program : Pubkey}
    (hprogram : keyAt accounts 0 = some program) (hwallets : walletsFor accounts setups key ≠ []) :
    Bound .token program (w key).data := by
  obtain ⟨address, haddress⟩ := List.exists_mem_of_ne_nil _ hwallets
  obtain ⟨setup, hsetup, hmem⟩ := List.mem_flatMap.mp haddress
  split at hmem
  · next hkey =>
      obtain ⟨account, haccount, rfl⟩ := Option.map_eq_some_iff.mp hkey
      obtain ⟨-, -, related, hrelated, hbound⟩ := (h setup hsetup).of_listed haccount
      obtain ⟨first, hfirst, rfl⟩ := Option.map_eq_some_iff.mp hprogram
      obtain rfl : related = first := Option.some.inj (hrelated.symm.trans hfirst)
      exact hbound
  · cases hmem

end Calls

end Chainring.Arch

import Chainring.Arch.TokenAccounts

/-! Token accounts as the off-chain side sees them. The state that a token account decodes to is the one that the
accessors of the program read field by field, and over a run its list of wallets only grows at the end. -/

namespace Chainring.Arch

open Bytes (slice slice_isSome toWord toWord_lt)
open CheckedWord (bind_eq_ok)
open Codec (Finds finds_pure)

/-! ### Fields in place -/

section Fields

variable {data block : Bytes} {o n : Nat}

theorem take_drop_of_slice (h : slice data o n = some block) : (data.drop o).take n = block := by
  unfold slice at h
  dsimp only at h
  split at h
  · exact Option.some.inj h
  · cases h

theorem finds_readExact {block : FixedBytes n} (h : slice data o n = some block.1) :
    Finds (readExact n) data o block (o + n) := by
  have htake := take_drop_of_slice h
  have hlength : ((data.drop o).take n).length = n := by rw [htake, block.2]
  rw [Finds, readExact, dif_pos hlength, List.drop_drop]
  simp only [htake]

theorem finds_readUpTo (h : slice data o n = some block) : Finds (readUpTo n) data o block (o + n) := by
  rw [Finds, readUpTo, take_drop_of_slice h, List.drop_drop]

/-- A word is read from the block that it takes up. -/
theorem finds_word {β : Type} {g : Nat → β} (h : slice data o n = some block) :
    Finds (do let val ← readExact n; pure (g (toWord val)) : Reader β) data o (g (toWord block)) (o + n) := by
  have hlength := (Bytes.slice_eq_some.mp h).1
  have hexact : slice data o n = some (⟨block, hlength⟩ : FixedBytes n).1 := h
  exact (finds_readExact hexact).last fun val => g (toWord val.1)

theorem finds_accountType {accountType : AccountType} (h : getType data = .ok accountType) :
    Finds (AccountType.decode <$> readU8) data 0 accountType 1 := by
  obtain ⟨block, hblock, hdecode⟩ := bind_eq_ok.mp h
  obtain rfl := Except.ok.inj hdecode
  exact (finds_word (g := UInt8.ofNat) (readArray_eq_ok.mp hblock)).map AccountType.decode

theorem finds_readStringWithPadding {string : Utf8String} (h : HoldsString o n string data) :
    Finds (readStringWithPadding n) data o string (o + n) := by
  obtain ⟨hnul, rest, hslice⟩ := h
  refine (finds_readUpTo hslice).bind ?_
  rw [takeWhile_nulFree hnul, string.fromUtf8_bytes]
  exact finds_pure data (o + n) string

/-- Items of one size that lie one after the other. -/
theorem finds_readTimes {α : Type} {item : Reader α} {size : Nat} (items : List α)
    (h : ∀ i value, items[i]? = some value → Finds item data (o + i * size) value (o + i * size + size)) :
    Finds (readTimes item items.length) data o items (o + items.length * size) := by
  induction items generalizing o with
  | nil =>
      rw [List.length_nil, Nat.zero_mul]
      exact finds_pure data o []
  | cons first items ih =>
      have hfirst := h 0 first rfl
      rw [Nat.zero_mul, Nat.add_zero] at hfirst
      have hrest : Finds (readTimes item items.length) data (o + size) items (o + size + items.length * size) := by
        apply ih
        intro i value hvalue
        have hitem := h (i + 1) value hvalue
        rw [Nat.add_mul, Nat.one_mul, ← Nat.add_assoc, Nat.add_right_comm] at hitem
        exact hitem
      have hend : o + (first :: items).length * size = o + size + items.length * size := by
        rw [List.length_cons, Nat.succ_mul, Nat.add_comm (items.length * size), Nat.add_assoc]
      rw [hend]
      show Finds (item >>= fun value => readTimes item items.length >>= fun rest => pure (value :: rest)) _ _ _ _
      exact hfirst.bind (hrest.last (first :: ·))

end Fields

/-! ### Token states -/

/-- The state has the fields that the accessors read in the data. -/
structure TokenState.Mirrors (state : TokenState) (data : Bytes) : Prop where
  accountType : state.accountType = .token
  bound : Bound .token state.programStateAccount data
  tokenId : TokenState.getTokenId data = .ok state.tokenId
  count : TokenState.getNumBalances data = .ok state.balances.length
  balances : ∀ index balance, state.balances[index]? = some balance →
    Balance.getWalletAddress index data = .ok balance.address ∧
      Balance.getWalletBalance index data = .ok balance.balance

/-- The state that the data decodes to. -/
def TokenState.DecodedFrom (state : TokenState) (data : Bytes) : Prop :=
  decodeFromSlice TokenState.decode data = .ok state ∧ state.Mirrors data

section Decoding

variable {data : Bytes} {owner : Pubkey}

theorem finds_balance {index : Nat} {balance : Balance}
    (haddress : HoldsString (balancesOffset + index * balanceSize) maxAddressSize balance.address data)
    (hamount : Balance.getWalletBalance index data = .ok balance.balance) :
    Finds Balance.decode data (balancesOffset + index * balanceSize) balance
      (balancesOffset + index * balanceSize + balanceSize) := by
  obtain ⟨block, hblock, hword⟩ := bind_eq_ok.mp hamount
  have hbalance := Except.ok.inj hword
  refine (finds_readStringWithPadding haddress).bind ?_
  have hread := (finds_word (g := UInt64.ofNat) (readBlock_eq_ok.mp hblock)).last fun amount =>
    (⟨balance.address, amount⟩ : Balance)
  rw [hbalance] at hread
  exact hread

/-- The wallets in use, as balances of a state. -/
theorem exists_balances (hfilled : FilledUpTo (numBalances data) data) :
    ∃ balances : List Balance, balances.length = numBalances data ∧
      ∀ index balance, balances[index]? = some balance →
        HoldsString (balancesOffset + index * balanceSize) maxAddressSize balance.address data ∧
          Balance.getWalletBalance index data = .ok balance.balance := by
  have hwell : WellFormed data := ⟨hfilled.room, hfilled.tokenId, hfilled.addresses⟩
  have hwallet : ∀ index : Fin (numBalances data), ∃ balance : Balance,
      HoldsString (balancesOffset + index * balanceSize) maxAddressSize balance.address data ∧
        Balance.getWalletBalance index data = .ok balance.balance := by
    intro index
    obtain ⟨address, hholds, -⟩ := hfilled.addresses index index.isLt
    exact ⟨⟨address, _⟩, hholds, hwell.walletBalance index.isLt⟩
  choose balance hbalance using hwallet
  refine ⟨List.ofFn balance, List.length_ofFn, fun index value hvalue => ?_⟩
  rw [List.getElem?_ofFn] at hvalue
  split at hvalue
  · next hindex =>
      obtain rfl := Option.some.inj hvalue
      exact hbalance ⟨index, hindex⟩
  · cases hvalue

/-- Data with the fields of a token account decodes, to the state that the accessors read. -/
theorem decodes_of_filled (hbound : Bound .token owner data) (hfilled : FilledUpTo (numBalances data) data) :
    ∃ state : TokenState, state.DecodedFrom data ∧ state.programStateAccount = owner := by
  have hroom : 73 ≤ data.length := Nat.le_trans (Nat.le_add_right _ _) hfilled.room
  obtain ⟨tokenId, htokenId⟩ := hfilled.tokenId
  have hstart : 1 + 4 ≤ data.length := Nat.le_trans (by decide) hroom
  obtain ⟨version, hversion⟩ := slice_isSome hstart
  have hend : balanceCountOffset + 4 ≤ data.length := hroom
  obtain ⟨count, hcount⟩ := slice_isSome hend
  have hnumber : numBalances data = toWord count := by
    rw [numBalances, hcount]
    rfl
  obtain ⟨balances, hlength, hbalances⟩ := exists_balances hfilled
  refine ⟨⟨.token, UInt32.ofNat (toWord version), owner, tokenId, balances⟩, ⟨?_, ?_⟩, rfl⟩
  · have hcounted : Finds readU32 data balanceCountOffset (UInt32.ofNat (toWord count)) balancesOffset :=
      finds_word hcount
    have htotal : (UInt32.ofNat (toWord count)).toNat = balances.length := by
      have hlt : toWord count < 2 ^ 32 := by
        have hlt := toWord_lt count
        rw [(Bytes.slice_eq_some.mp hcount).1] at hlt
        exact hlt
      rw [hlength, hnumber, UInt32.toNat_ofNat', Nat.mod_eq_of_lt hlt]
    have hread : Finds (readTimes Balance.decode balances.length) data balancesOffset balances
        (balancesOffset + balances.length * balanceSize) := by
      apply finds_readTimes
      intro index value hvalue
      obtain ⟨haddress, hamount⟩ := hbalances index value hvalue
      exact finds_balance haddress hamount
    rw [← htotal] at hread
    have hstate : Finds TokenState.decode data 0
        ⟨.token, UInt32.ofNat (toWord version), owner, tokenId, balances⟩
        (balancesOffset + (UInt32.ofNat (toWord count)).toNat * balanceSize) := by
      apply (finds_accountType hbound.1).bind
      apply (finds_word hversion : Finds readU32 data 1 _ 5).bind
      apply (finds_readExact (relatedAccountKey_eq_ok hbound.2)).bind
      apply (finds_readStringWithPadding htokenId).bind
      apply hcounted.bind
      exact hread.last _
    exact hstate.run_fst
  · refine ⟨rfl, hbound, htokenId.parse, ?_, fun index value hvalue => ?_⟩
    · rw [hlength]
      exact getNumBalances_eq_ok.mpr ⟨⟨count, hcount⟩, rfl⟩
    · obtain ⟨haddress, hamount⟩ := hbalances index value hvalue
      exact ⟨haddress.parse, hamount⟩

end Decoding
/-! ### Runs -/

/-- The decoded wallets of a later state begin with those of an earlier one. -/
theorem addresses_prefix {earlier later : TokenState} {data data' : Bytes} (hkept : Kept data data')
    (hearlier : earlier.Mirrors data) (hlater : later.Mirrors data') :
    earlier.balances.map (·.address) <+: later.balances.map (·.address) := by
  have hcount := (getNumBalances_eq_ok.mp hearlier.count).2
  have hcount' := (getNumBalances_eq_ok.mp hlater.count).2
  have hcounts := hkept.counts
  rw [List.prefix_iff_getElem?]
  intro index hindex
  rw [List.length_map] at hindex
  have hindex' : index < later.balances.length := by omega
  have haddress := (hearlier.balances index _ (List.getElem?_eq_getElem hindex)).1
  have haddress' := (hlater.balances index _ (List.getElem?_eq_getElem hindex')).1
  have hsame := hkept.walletAddress (hcount ▸ hindex) haddress
  rw [List.getElem?_map, List.getElem?_eq_getElem hindex', List.getElem_map, Option.map_some]
  exact congrArg some (Except.ok.inj (haddress'.symm.trans hsame))

/-- From a world without program and token accounts: a token account decodes at any time of the run, to the state
that the accessors read, and at any later time to one of the same owner whose wallets begin with those it had. -/
theorem token_registry (rt : Runtime)
    (haddresses : ∀ address, (rt.addressFromStr address).isSome → AddressLike address)
    (start : World) (calls : List Call)
    (hstart : ∀ key, getType (start key).data ≠ .ok .token ∧ getType (start key).data ≠ .ok .program)
    {n k : Nat} (hnk : n ≤ k) (hk : k ≤ calls.length) {token : Pubkey}
    (htoken : getType (worldAt rt start calls n token).data = .ok .token) :
    ∃ earlier later : TokenState,
      earlier.DecodedFrom (worldAt rt start calls n token).data ∧
      later.DecodedFrom (worldAt rt start calls k token).data ∧
      later.programStateAccount = earlier.programStateAccount ∧
      earlier.balances.map (·.address) <+: later.balances.map (·.address) := by
  have hkept := worldAt_kept hnk hk htoken
  have hsound : ∀ m ≤ calls.length, Sound (worldAt rt start calls m token).data :=
    fun m hm => worldAt_sound haddresses (sound_start hstart) hm token
  have hfilled := (hsound n (Nat.le_trans hnk hk)).token htoken
  have hfilled' := (hsound k hk).token (hkept.getType_eq.trans htoken)
  have hroom : 73 ≤ (worldAt rt start calls n token).data.length :=
    Nat.le_trans (Nat.le_add_right _ _) hfilled.room
  have hfield : 5 + 32 ≤ (worldAt rt start calls n token).data.length := Nat.le_trans (by decide) hroom
  obtain ⟨block, hblock⟩ := slice_isSome hfield
  have hbound : Bound .token ⟨block, (Bytes.slice_eq_some.mp hblock).1⟩ (worldAt rt start calls n token).data :=
    ⟨htoken, readArray_eq_ok.mpr hblock⟩
  obtain ⟨earlier, hearlier, howner⟩ := decodes_of_filled hbound hfilled
  obtain ⟨later, hlater, howner'⟩ := decodes_of_filled (hkept.bound hbound) hfilled'
  exact ⟨earlier, later, hearlier, hlater, howner'.trans howner.symm, addresses_prefix hkept hearlier.2 hlater.2⟩

theorem emptyWorld_types (key : Pubkey) :
    getType (sampleWorld [] key).data ≠ .ok .token ∧ getType (sampleWorld [] key).data ≠ .ok .program := by
  show getType [] ≠ .ok .token ∧ getType [] ≠ .ok .program
  decide

/-- The token has its fee wallet before the two others. -/
theorem setUpCalls_registry :
    getType (worldAt (sampleRuntime []) (sampleWorld []) setUpCalls 2 (sampleKey 0x31)).data = .ok .token ∧
      ∃ earlier later : TokenState,
        earlier.DecodedFrom (worldAt (sampleRuntime []) (sampleWorld []) setUpCalls 2 (sampleKey 0x31)).data ∧
        later.DecodedFrom (worldAt (sampleRuntime []) (sampleWorld []) setUpCalls 3 (sampleKey 0x31)).data ∧
        later.programStateAccount = earlier.programStateAccount ∧
        earlier.balances.map (·.address) <+: later.balances.map (·.address) := by
  have htoken : getType (worldAt (sampleRuntime []) (sampleWorld []) setUpCalls 2 (sampleKey 0x31)).data =
      .ok .token := by
    decide +kernel
  exact ⟨htoken, token_registry (sampleRuntime []) (sampleRuntime_addressLike []) (sampleWorld []) setUpCalls
    emptyWorld_types (n := 2) (k := 3) (by decide) (by decide) htoken⟩

end Chainring.Arch

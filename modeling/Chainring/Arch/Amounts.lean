import Chainring.Arch.Validation

/-! Memories that differ in amounts only, the balances they show, and the adjustments of a balance as
postings to the ledger of all of them. -/

namespace Chainring.Arch

open Exec (Posts Admits posts_query posts_forM posts_when admits_query admits_forM)
open Ledger (Entry)

/-- What is left of `m₀` after adjustments: all data but the amounts. -/
structure AmountsOnly (m₀ m : Memory) : Prop where
  length : ∀ key, (m key).data.length = (m₀ key).data.length
  bytes : ∀ key o, ¬AnyAmount o → (m key).data[o]? = (m₀ key).data[o]?

def balances (m : Memory) (slot : Pubkey × Nat) : Nat := amountAt (m slot.1).data slot.2

abbrev amountModulus : Nat := 2 ^ 64

theorem balances_lt (m : Memory) (slot : Pubkey × Nat) : balances m slot < amountModulus :=
  amountAt_lt _ _

section AmountsOnly

variable {m₀ m : Memory}

theorem AmountsOnly.refl (m : Memory) : AmountsOnly m m where
  length := fun _ => rfl
  bytes := fun _ _ _ => rfl

theorem AmountsOnly.symm (h : AmountsOnly m₀ m) : AmountsOnly m m₀ where
  length := fun key => (h.length key).symm
  bytes := fun key o ho => (h.bytes key o ho).symm

theorem AmountsOnly.header (h : AmountsOnly m₀ m) (key : Pubkey) :
    ∀ o < 37, (m key).data[o]? = (m₀ key).data[o]? := by
  intro o ho
  apply h.bytes
  rintro ⟨index, hamount⟩
  have hge := hamount.ge
  omega

theorem AmountsOnly.numBalances_eq (h : AmountsOnly m₀ m) (key : Pubkey) :
    numBalances (m key).data = numBalances (m₀ key).data := by
  apply numBalances_congr
  intro o ho
  apply h.bytes
  rintro ⟨index, hamount⟩
  have hge := hamount.ge
  have hhigh := ho.2
  omega

theorem AmountsOnly.address (h : AmountsOnly m₀ m) (key : Pubkey) (index : Nat) :
    ∀ o, AddressBytes index o → (m key).data[o]? = (m₀ key).data[o]? := by
  intro o ho
  apply h.bytes
  rintro ⟨index', hamount⟩
  exact addressBytes_disjoint_amountBytes ho hamount

theorem AmountsOnly.hasAmount_iff (h : AmountsOnly m₀ m) (key : Pubkey) (index : Nat) :
    HasAmount (m key).data index ↔ HasAmount (m₀ key).data index := by
  rw [HasAmount, HasAmount, h.length]

theorem AmountsOnly.wallet_iff (h : AmountsOnly m₀ m) (key : Pubkey) (addressIndex : AddressIndex) :
    Wallet addressIndex (m key).data ↔ Wallet addressIndex (m₀ key).data := by
  constructor
  · intro hwallet
    exact hwallet.mono (Nat.le_of_eq (h.numBalances_eq key)) fun o ho _ =>
      (h.address key _ o ho).symm
  · intro hwallet
    exact hwallet.mono (Nat.le_of_eq (h.numBalances_eq key).symm) fun o ho _ => h.address key _ o ho

theorem AmountsOnly.getWalletLast4_eq (h : AmountsOnly m₀ m) (key : Pubkey) (index : Nat) :
    Balance.getWalletAddressLast4 index (m key).data = Balance.getWalletAddressLast4 index (m₀ key).data := by
  unfold Balance.getWalletAddressLast4 getWalletLast4
  rw [readBlock_congr fun o ho => h.address key index o ho]

theorem AmountsOnly.getWalletAddress_eq (h : AmountsOnly m₀ m) (key : Pubkey) (index : Nat) :
    Balance.getWalletAddress index (m key).data = Balance.getWalletAddress index (m₀ key).data := by
  unfold Balance.getWalletAddress getAddress
  rw [readBlock_congr fun o ho => h.address key index o ho]

theorem AmountsOnly.fits_iff (h : AmountsOnly m₀ m) {accounts : List AccountInfo}
    {accountType : Option AccountType} {related : Option UInt8} (key : Pubkey) :
    Fits accounts accountType related (m key).data ↔ Fits accounts accountType related (m₀ key).data := by
  cases accountType with
  | none =>
      show (m key).data = [] ↔ (m₀ key).data = []
      rw [← List.length_eq_zero_iff, ← List.length_eq_zero_iff, h.length]
  | some accountType =>
      cases related with
      | none =>
          show getType (m key).data = _ ↔ getType (m₀ key).data = _
          rw [getType_congr (h.header key)]
      | some related =>
          show (∃ account, _ ∧ Bound _ _ (m key).data) ↔ ∃ account, _ ∧ Bound _ _ (m₀ key).data
          simp only [bound_congr (h.header key)]

theorem AmountsOnly.validated_iff (h : AmountsOnly m₀ m) {accounts : List AccountInfo} {index : UInt8}
    {isSigner isWritable : Bool} {accountType : Option AccountType} {related : Option UInt8} :
    Validated accounts index isSigner isWritable accountType related m ↔
      Validated accounts index isSigner isWritable accountType related m₀ := by
  simp only [Validated, h.fits_iff]

/-- New data for one account that differs from the old in the amount of one wallet. -/
theorem AmountsOnly.setData (h : AmountsOnly m₀ m) {key : Pubkey} {put : Bytes → Except Fault Bytes}
    {index : Nat} {data : Bytes} (hw : Writes put (AmountBytes index))
    (hput : put (m key).data = .ok data) : AmountsOnly m₀ (m.setData key data) := by
  obtain ⟨hlength, hbytes⟩ := hw _ _ hput
  refine ⟨fun key' => ?_, fun key' o ho => ?_⟩
  · rw [Memory.setData_data]
    split
    · next hkey => rw [hkey, hlength, h.length]
    · exact h.length key'
  · rw [Memory.setData_data]
    split
    · next hkey => rw [hkey, hbytes o fun hin => ho ⟨index, hin⟩, h.bytes key o ho]
    · exact h.bytes key' o ho

/-- The balances move in the one slot that was written. -/
theorem balances_setData {key : Pubkey} {put : Bytes → Except Fault Bytes} {index : Nat} {data : Bytes}
    (hw : Writes put (AmountBytes index)) (hput : put (m key).data = .ok data) :
    balances (m.setData key data) = Function.update (balances m) (key, index) (amountAt data index) := by
  funext ⟨key', index'⟩
  by_cases hslot : (key', index') = (key, index)
  · rw [hslot, Function.update_self, balances, Memory.setData_self]
  · rw [Function.update_of_ne hslot, balances, balances, Memory.setData_data]
    split
    · next hkey =>
        have hindex : index' ≠ index := fun heq => hslot (by rw [show key' = key from hkey, heq])
        rw [show key' = key from hkey]
        exact amountAt_congr fun o ho => (hw _ _ hput).2 o (amountBytes_disjoint hindex ho)
    · rfl

/-- A write keeps the length of every account. -/
theorem setData_length {key : Pubkey} {put : Bytes → Except Fault Bytes} {data : Bytes}
    {region : Nat → Prop} (hw : Writes put region) (hput : put (m key).data = .ok data) (key' : Pubkey) :
    (m.setData key data key').data.length = (m key').data.length := by
  rw [Memory.setData_data]
  split
  · next hkey => rw [(hw _ _ hput).1, hkey]
  · rfl

/-- A write elsewhere moves no balance. -/
theorem balances_setData_of_disjoint {key : Pubkey} {put : Bytes → Except Fault Bytes} {data : Bytes}
    {region : Nat → Prop} (hw : Writes put region) (hdisjoint : ∀ o, region o → ¬AnyAmount o)
    (hput : put (m key).data = .ok data) : balances (m.setData key data) = balances m := by
  funext ⟨key', index⟩
  rw [balances, balances, Memory.setData_data]
  split
  · next hkey =>
      rw [show key' = key from hkey]
      apply amountAt_congr
      intro o ho
      exact (hw _ _ hput).2 o fun hin => hdisjoint o hin ⟨index, ho⟩
  · rfl

end AmountsOnly

/-- A block that lies in the data can be written. -/
theorem write_isOk {m : Memory} {account : AccountInfo} {offset : Nat} {block : Bytes}
    (h : offset + block.length ≤ (m account.key).data.length) :
    ∃ data, data.length = (m account.key).data.length ∧
      (account.write (writeBlock offset block)).run m = .ok () (m.setData account.key data) := by
  obtain ⟨data, hput⟩ := writeBlock_run h
  exact ⟨data, Bytes.patch_length (writeBlock_eq_ok.mp hput), write_run hput⟩

/-! ### Adjusting one balance -/

section Postings

variable {m₀ : Memory} (account : AccountInfo) (index : Nat) (amount : UInt64)

theorem posts_increment :
    Posts amountModulus (AmountsOnly m₀) balances
      (account.write (Balance.incrementWalletBalance index amount)) (fun _ => True)
      [.credit (account.key, index) amount.toNat] := by
  intro m u m' hm hok
  obtain ⟨data, hput, rfl⟩ := write_eq_ok.mp hok
  refine ⟨trivial, hm.setData (writes_incrementWalletBalance index amount) hput, ?_⟩
  rw [balances_setData (writes_incrementWalletBalance index amount) hput,
    amountAt_incrementWalletBalance hput]
  rfl

theorem posts_decrement :
    Posts amountModulus (AmountsOnly m₀) balances
      (account.write (Balance.decrementWalletBalance index amount)) (fun _ => True)
      [.debit (account.key, index) amount.toNat] := by
  intro m u m' hm hok
  obtain ⟨data, hput, rfl⟩ := write_eq_ok.mp hok
  refine ⟨trivial, hm.setData (writes_decrementWalletBalance index amount) hput, ?_⟩
  have hle := (decrementWalletBalance_isOk.mp ⟨data, hput⟩).2
  rw [balances_setData (writes_decrementWalletBalance index amount) hput,
    amountAt_decrementWalletBalance hput]
  simp [Ledger.run, Ledger.post, balances, hle]

theorem write_isOk_iff {put : Bytes → Except Fault Bytes} {m : Memory} :
    (∃ u m', (account.write put).run m = .ok u m') ↔ ∃ data, put (m account.key).data = .ok data := by
  constructor
  · rintro ⟨u, m', hok⟩
    obtain ⟨data, hput, -⟩ := write_eq_ok.mp hok
    exact ⟨data, hput⟩
  · rintro ⟨data, hput⟩
    exact ⟨(), _, write_run hput⟩

theorem admits_increment :
    Admits amountModulus (AmountsOnly m₀) balances
      (account.write (Balance.incrementWalletBalance index amount))
      (HasAmount (m₀ account.key).data index) [.credit (account.key, index) amount.toNat] := by
  intro m hm
  rw [write_isOk_iff, incrementWalletBalance_isOk, hm.hasAmount_iff]
  exact (and_iff_left rfl).symm

theorem admits_decrement :
    Admits amountModulus (AmountsOnly m₀) balances
      (account.write (Balance.decrementWalletBalance index amount))
      (HasAmount (m₀ account.key).data index) [.debit (account.key, index) amount.toNat] := by
  intro m hm
  rw [write_isOk_iff, decrementWalletBalance_isOk, hm.hasAmount_iff]
  apply and_congr_right
  intro _
  by_cases hle : amount.toNat ≤ amountAt (m account.key).data index
  · simp [Ledger.run, Ledger.post, balances, hle]
  · simp [Ledger.run, Ledger.post, balances, hle]

end Postings

/-! ### Looking at accounts -/

section Looks

variable {m₀ : Memory} {accounts : List AccountInfo}

theorem admits_validate (index : UInt8) (isSigner isWritable : Bool) (accountType : Option AccountType)
    (related : Option UInt8) :
    Admits amountModulus (AmountsOnly m₀) balances
      (validateAccount accounts index isSigner isWritable accountType related)
      (Validated accounts index isSigner isWritable accountType related m₀) [] := by
  intro m hm
  rw [← hm.validated_iff]
  constructor
  · rintro ⟨_, _, hok⟩
    exact ⟨(validateAccount_eq_ok.mp hok).1, rfl⟩
  · rintro ⟨hvalidated, -⟩
    exact ⟨(), m, validateAccount_eq_ok.mpr ⟨hvalidated, rfl⟩⟩

theorem posts_validate (index : UInt8) (isSigner isWritable : Bool) (accountType : Option AccountType)
    (related : Option UInt8) :
    Posts amountModulus (AmountsOnly m₀) balances
      (validateAccount accounts index isSigner isWritable accountType related)
      (fun _ => Validated accounts index isSigner isWritable accountType related m₀) [] := by
  intro m u m' hm hok
  obtain ⟨hvalidated, rfl⟩ := validateAccount_eq_ok.mp hok
  exact ⟨hm.validated_iff.mp hvalidated, hm, rfl⟩

theorem posts_accountAt (index : Nat) :
    Posts amountModulus (AmountsOnly m₀) balances (accountAt accounts index)
      (fun account => accounts[index]? = some account) [] := by
  intro m account m' hm hok
  obtain ⟨haccount, rfl⟩ := accountAt_eq_ok.mp hok
  exact ⟨haccount, hm, rfl⟩

theorem admits_accountAt (index : Nat) :
    Admits amountModulus (AmountsOnly m₀) balances (accountAt accounts index)
      (∃ account, accounts[index]? = some account) [] := by
  intro m _
  constructor
  · rintro ⟨account, _, hok⟩
    exact ⟨⟨account, (accountAt_eq_ok.mp hok).1⟩, rfl⟩
  · rintro ⟨⟨account, haccount⟩, -⟩
    exact ⟨account, m, accountAt_eq_ok.mpr ⟨haccount, rfl⟩⟩

theorem posts_read {α : Type} {account : AccountInfo} {get : Bytes → Except Fault α} {Q : α → Prop}
    (h : ∀ m, AmountsOnly m₀ m → ∀ a, get (m account.key).data = .ok a → Q a) :
    Posts amountModulus (AmountsOnly m₀) balances (account.read get) Q [] :=
  posts_query h

theorem admits_read {α : Type} {account : AccountInfo} {get : Bytes → Except Fault α} {ready : Prop}
    (h : ∀ m, AmountsOnly m₀ m → ((∃ a, get (m account.key).data = .ok a) ↔ ready)) :
    Admits amountModulus (AmountsOnly m₀) balances (account.read get) ready [] :=
  admits_query h

end Looks

end Chainring.Arch

import Chainring.Arch.Program
import Chainring.Arch.Validation

/-! What a call may write. Each instruction has a reach: the offsets it may change in the program
account, in token accounts and in the withdraw account. Whatever the outcome, a byte that changed
belongs to an account that was empty or lies in the reach of an account bound to the signing program
account. -/

namespace Chainring.Arch

open Bytes (slice slice_mono slice_eq_some resize resize_length resize_getElem?)
open Exec (Leaves Keeps keeps_pure keeps_fail keeps_ensure keeps_query keeps_modify keeps_forM keeps_foldlM
  keeps_query_bind leaves_bind leaves_modify)

/-- The offsets that a call may change in the program account, in a token account with the given
data, and in the withdraw account; none of them lies in the header. -/
structure Reach where
  program : Nat → Prop
  token : Bytes → Nat → Prop
  withdraw : Nat → Prop
  program_ge : ∀ o, program o → settlementHashOffset ≤ o
  token_ge : ∀ data o, token data o → tokenIdOffset ≤ o
  withdraw_ge : ∀ o, withdraw o → withdrawHashOffset ≤ o

def Listed (accounts : List AccountInfo) (key : Pubkey) : Prop := ∃ account ∈ accounts, account.key = key

/-- A listed account that was empty at the start of the call. -/
def Blank (accounts : List AccountInfo) (m₀ : Memory) (key : Pubkey) : Prop :=
  Listed accounts key ∧ (m₀ key).data = []

def Permits (reach : Reach) (accounts : List AccountInfo) (m₀ : Memory) (key : Pubkey) (o : Nat) : Prop :=
  Listed accounts key ∧ ((m₀ key).data = [] ∨
    ∃ first, accounts[0]? = some first ∧ first.isSigner = true ∧
      getType (m₀ first.key).data = .ok .program ∧
      ((key = first.key ∧ reach.program o) ∨
        (Bound .token first.key (m₀ key).data ∧ reach.token (m₀ key).data o) ∨
        (Bound .withdraw first.key (m₀ key).data ∧ reach.withdraw o)))

/-- What the memory of a call has become since its start `m₀`. -/
structure Touches (reach : Reach) (accounts : List AccountInfo) (m₀ m : Memory) : Prop where
  bytes : ∀ key o, (m key).data[o]? ≠ (m₀ key).data[o]? → Permits reach accounts m₀ key o
  counts : ∀ key, getType (m₀ key).data = .ok .token →
    numBalances (m₀ key).data ≤ numBalances (m key).data
  originalDataLen : ∀ key, (m key).originalDataLen = (m₀ key).data.length
  length_ge : ∀ key, (m₀ key).data.length ≤ (m key).data.length
  length_le : ∀ key, (m key).data.length ≤ (m₀ key).data.length + maxPermittedDataIncrease

/-- The memory at the start of a call on the accounts. -/
structure Loaded (accounts : List AccountInfo) (m₀ : Memory) : Prop where
  originalDataLen : ∀ key, (m₀ key).originalDataLen = (m₀ key).data.length
  size_le : ∀ account ∈ accounts, (m₀ account.key).data.length ≤ maxPermittedDataLength

theorem listed_of_getElem? {accounts : List AccountInfo} {i : Nat} {account : AccountInfo}
    (h : accounts[i]? = some account) : Listed accounts account.key :=
  ⟨account, List.mem_of_getElem? h, rfl⟩

section Touches

variable {reach : Reach} {accounts : List AccountInfo} {m₀ m : Memory}

theorem Loaded.touches (hload : Loaded accounts m₀) : Touches reach accounts m₀ m₀ where
  bytes := fun _ _ h => absurd rfl h
  counts := fun _ _ => Nat.le_refl _
  originalDataLen := hload.originalDataLen
  length_ge := fun _ => Nat.le_refl _
  length_le := fun _ => Nat.le_add_right _ _

/-- The header of an account that was not empty is what it was. -/
theorem Touches.header (h : Touches reach accounts m₀ m) {key : Pubkey} (hne : (m₀ key).data ≠ []) :
    ∀ o < 37, (m key).data[o]? = (m₀ key).data[o]? := by
  intro o ho
  by_contra hchanged
  rcases h.bytes key o hchanged with
    ⟨-, hempty | ⟨first, -, -, -, ⟨-, hreach⟩ | ⟨-, hreach⟩ | ⟨-, hreach⟩⟩⟩
  · exact hne hempty
  · have hge : 222 ≤ o := reach.program_ge o hreach
    omega
  · have hge : 37 ≤ o := reach.token_ge _ o hreach
    omega
  · have hge : 37 ≤ o := reach.withdraw_ge o hreach
    omega

/-- An account that is not listed is what it was. -/
theorem Touches.unlisted (h : Touches reach accounts m₀ m) {key : Pubkey} (hkey : ¬Listed accounts key) :
    (m key).data = (m₀ key).data := by
  apply List.ext_getElem?
  intro o
  by_contra hchanged
  exact hkey (h.bytes key o hchanged).1

theorem Touches.bound_iff (h : Touches reach accounts m₀ m) {key owner : Pubkey}
    {accountType : AccountType} (hne : (m₀ key).data ≠ []) :
    Bound accountType owner (m key).data ↔ Bound accountType owner (m₀ key).data :=
  bound_congr (h.header hne)

theorem Touches.getType_eq (h : Touches reach accounts m₀ m) {key : Pubkey} (hne : (m₀ key).data ≠ []) :
    getType (m key).data = getType (m₀ key).data :=
  getType_congr (h.header hne)

theorem Touches.empty (h : Touches reach accounts m₀ m) {key : Pubkey} (hempty : (m key).data = []) :
    (m₀ key).data = [] := by
  have hle := h.length_ge key
  rw [hempty, List.length_nil] at hle
  exact List.eq_nil_of_length_eq_zero (Nat.le_zero.mp hle)

/-- New data for one account, within the reach. -/
theorem Touches.setData (h : Touches reach accounts m₀ m) {key : Pubkey} {data : Bytes}
    (hbytes : ∀ o, data[o]? ≠ (m key).data[o]? → Permits reach accounts m₀ key o)
    (hcounts : getType (m₀ key).data = .ok .token → numBalances (m₀ key).data ≤ numBalances data)
    (hge : (m₀ key).data.length ≤ data.length)
    (hle : data.length ≤ (m₀ key).data.length + maxPermittedDataIncrease) :
    Touches reach accounts m₀ (m.setData key data) := by
  have hdata : ∀ key', (m.setData key data key').data = if key' = key then data else (m key').data :=
    fun key' => m.setData_data key key' data
  refine ⟨fun key' o hchanged => ?_, fun key' htoken => ?_, fun key' => ?_, fun key' => ?_, fun key' => ?_⟩
  · rw [hdata] at hchanged
    split at hchanged
    · next heq =>
        subst heq
        by_cases hsame : data[o]? = (m key').data[o]?
        · rw [hsame] at hchanged
          exact h.bytes key' o hchanged
        · exact hbytes o hsame
    · exact h.bytes key' o hchanged
  · rw [hdata]
    split
    · next heq =>
        subst heq
        exact hcounts htoken
    · exact h.counts key' htoken
  · rw [Memory.setData_originalDataLen]
    exact h.originalDataLen key'
  · rw [hdata]
    split
    · next heq =>
        subst heq
        exact hge
    · exact h.length_ge key'
  · rw [hdata]
    split
    · next heq =>
        subst heq
        exact hle
    · exact h.length_le key'

/-! ### Writes -/

/-- A write inside a permitted region that misses the wallet count of token accounts. -/
theorem keeps_write {account : AccountInfo} {put : Bytes → Except Fault Bytes} {region : Nat → Prop}
    (hw : Writes put region) (hpermits : ∀ o, region o → Permits reach accounts m₀ account.key o)
    (hcount : getType (m₀ account.key).data = .ok .token → ∀ o, region o → ¬Within 69 73 o) :
    Keeps (Touches reach accounts m₀) (account.write put) fun _ => True := by
  apply keeps_modify
  intro m hm m' hput
  obtain ⟨data, hdata, rfl⟩ := write_eq_ok.mp (Exec.modify_eq_ok.mpr hput : (account.write put).run m = .ok () m')
  obtain ⟨hlength, hsame⟩ := hw _ data hdata
  refine ⟨hm.setData (fun o hchanged => ?_) (fun htoken => ?_) ?_ ?_, trivial⟩
  · by_cases hregion : region o
    · exact hpermits o hregion
    · exact absurd (hsame o hregion) hchanged
  · have heq : numBalances data = numBalances (m account.key).data :=
      numBalances_congr fun o ho => hsame o fun hregion => hcount htoken o hregion ho
    rw [heq]
    exact hm.counts account.key htoken
  · rw [hlength]
    exact hm.length_ge account.key
  · rw [hlength]
    exact hm.length_le account.key

theorem keeps_write_empty {account : AccountInfo} {put : Bytes → Except Fault Bytes}
    {region : Nat → Prop} (hw : Writes put region) (hblank : Blank accounts m₀ account.key) :
    Keeps (Touches reach accounts m₀) (account.write put) fun _ => True := by
  refine keeps_write hw (fun o _ => ⟨hblank.1, Or.inl hblank.2⟩) fun htoken => ?_
  exact absurd hblank.2 (ne_nil_of_getType htoken)

/-- More zeros at the end do not lower the count. -/
theorem numBalances_le_resize {data : Bytes} {len : Nat} (hle : data.length ≤ len) :
    numBalances data ≤ numBalances (resize data len) := by
  rw [numBalances]
  cases hslice : slice data balanceCountOffset 4 with
  | none => exact Nat.zero_le _
  | some block =>
      have hslice' : slice (resize data len) balanceCountOffset 4 = some block :=
        slice_mono (fun o _ _ ho => resize_getElem? hle ho) hslice
      rw [numBalances, hslice']

/-- A new length that does not cut an account which was not empty; the bytes past its old end must be
permitted. -/
theorem leaves_realloc {account : AccountInfo} {newLen : Nat} (hm : Touches reach accounts m₀ m)
    (hlisted : Listed accounts account.key)
    (hge : (m₀ account.key).data ≠ [] → (m account.key).data.length ≤ newLen)
    (hpermits : ∀ o, (m account.key).data.length ≤ o → Permits reach accounts m₀ account.key o) :
    Leaves (Touches reach accounts m₀) (fun _ => True) ((account.realloc newLen).run m) := by
  apply leaves_modify hm
  intro m' hput
  split at hput
  · cases hput
    exact ⟨hm, trivial⟩
  · split at hput
    · cases hput
    · next hincrease =>
        cases hput
        rw [hm.originalDataLen] at hincrease
        refine ⟨hm.setData (fun o hchanged => ?_) (fun htoken => ?_) ?_ ?_, trivial⟩
        · by_cases hempty : (m₀ account.key).data = []
          · exact ⟨hlisted, Or.inl hempty⟩
          · apply hpermits
            by_contra hlt
            exact hchanged (resize_getElem? (hge hempty) (Nat.not_le.mp hlt))
        · exact Nat.le_trans (hm.counts account.key htoken)
            (numBalances_le_resize (hge (ne_nil_of_getType htoken)))
        · rw [resize_length]
          by_cases hempty : (m₀ account.key).data = []
          · rw [hempty]
            exact Nat.zero_le _
          · exact Nat.le_trans (hm.length_ge account.key) (hge hempty)
        · rw [resize_length]
          omega

theorem keeps_realloc_empty {account : AccountInfo} {newLen : Nat} (hblank : Blank accounts m₀ account.key) :
    Keeps (Touches reach accounts m₀) (account.realloc newLen) fun _ => True :=
  fun _ hm => leaves_realloc hm hblank.1 (fun hne => absurd hblank.2 hne) fun _ _ =>
    ⟨hblank.1, Or.inl hblank.2⟩

theorem keeps_setUtxo {account : AccountInfo} {utxo : UtxoMeta} :
    Keeps (Touches reach accounts m₀) (account.setUtxo utxo) fun _ => True := by
  apply keeps_modify
  intro m hm m' hput
  cases hput
  refine ⟨⟨fun key o hchanged => ?_, fun key htoken => ?_, fun key => ?_, fun key => ?_, fun key => ?_⟩, trivial⟩
  · rw [Memory.setUtxo_data] at hchanged
    exact hm.bytes key o hchanged
  · rw [Memory.setUtxo_data]
    exact hm.counts key htoken
  · rw [Memory.setUtxo_originalDataLen]
    exact hm.originalDataLen key
  · rw [Memory.setUtxo_data]
    exact hm.length_ge key
  · rw [Memory.setUtxo_data]
    exact hm.length_le key

end Touches

end Chainring.Arch

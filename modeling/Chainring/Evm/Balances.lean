import Chainring.Base.Ledger
import Chainring.Evm.Types
import Mathlib.Data.FinEnum

/-! The mapping of balances by wallet and token, with the checked assignments that the contracts
make to it, and its reading as a ledger of registers. -/

namespace Chainring.Evm

open Ledger (Entry)
open CheckedWord (bind_eq_ok)

/-- `mapping(address wallet => mapping(address token => uint256))`. -/
abbrev Balances := Address → Address → Uint256

namespace Balances

def set (balances : Balances) (wallet token : Address) (balance : Uint256) : Balances :=
  fun w t => if w = wallet ∧ t = token then balance else balances w t

/-- `balances[wallet][token] += amount`. -/
def increase (balances : Balances) (wallet token : Address) (amount : Uint256) :
    Except Revert Balances := do
  let balance ← addUint (balances wallet token) amount
  return balances.set wallet token balance

/-- `balances[wallet][token] -= amount`. -/
def decrease (balances : Balances) (wallet token : Address) (amount : Uint256) :
    Except Revert Balances := do
  let balance ← subUint (balances wallet token) amount
  return balances.set wallet token balance

@[simp] theorem set_self (balances : Balances) (wallet token : Address) (balance : Uint256) :
    balances.set wallet token balance wallet token = balance := by
  simp [set]

theorem set_of_ne (balances : Balances) {wallet token w t : Address} (balance : Uint256)
    (h : ¬(w = wallet ∧ t = token)) : balances.set wallet token balance w t = balances w t :=
  if_neg h

/-! ### The ledger -/

abbrev Slot := Address × Address

/-- The modulus of a `uint256`. -/
abbrev wordModulus : Nat := 2 ^ 256

/-- The registers, one for each wallet and token. -/
def slots (balances : Balances) (slot : Slot) : Nat := (balances slot.1 slot.2).toNat

theorem slots_lt (balances : Balances) (slot : Slot) : slots balances slot < wordModulus :=
  BitVec.isLt _

/-- The sum over all wallets of the balances of a token. -/
def tokenTotal (balances : Balances) (token : Address) : Nat :=
  ∑ wallet, (balances wallet token).toNat

/-- The registers of a token. -/
def tokenSlots (token : Address) : Finset Slot :=
  Finset.univ.map ⟨fun wallet => (wallet, token), fun _ _ h => (Prod.mk.inj h).1⟩

@[simp] theorem mem_tokenSlots {token : Address} {slot : Slot} :
    slot ∈ tokenSlots token ↔ slot.2 = token := by
  rw [tokenSlots, Finset.mem_map]
  constructor
  · rintro ⟨wallet, -, rfl⟩
    rfl
  · rintro rfl
    exact ⟨slot.1, Finset.mem_univ _, rfl⟩

@[simp] theorem creditIn_credit (token wallet t : Address) (amount : Nat) :
    Entry.creditIn (tokenSlots token) (.credit (wallet, t) amount) = if t = token then amount else 0 := by
  rw [Entry.creditIn]
  by_cases h : t = token
  · rw [if_pos (mem_tokenSlots.mpr h), if_pos h]
  · rw [if_neg (mt mem_tokenSlots.mp h), if_neg h]

@[simp] theorem creditIn_debit (token : Address) (slot : Slot) (amount : Nat) :
    Entry.creditIn (tokenSlots token) (.debit slot amount) = 0 := rfl

@[simp] theorem debitIn_credit (token : Address) (slot : Slot) (amount : Nat) :
    Entry.debitIn (tokenSlots token) (.credit slot amount) = 0 := rfl

@[simp] theorem debitIn_debit (token wallet t : Address) (amount : Nat) :
    Entry.debitIn (tokenSlots token) (.debit (wallet, t) amount) = if t = token then amount else 0 := by
  rw [Entry.debitIn]
  by_cases h : t = token
  · rw [if_pos (mem_tokenSlots.mpr h), if_pos h]
  · rw [if_neg (mt mem_tokenSlots.mp h), if_neg h]

theorem tokenTotal_eq (balances : Balances) (token : Address) :
    tokenTotal balances token = ∑ slot ∈ tokenSlots token, slots balances slot := by
  rw [tokenSlots, Finset.sum_map]
  rfl

theorem slots_set (balances : Balances) (wallet token : Address) (balance : Uint256) :
    slots (balances.set wallet token balance) =
      Function.update (slots balances) (wallet, token) balance.toNat := by
  funext slot
  rcases slot with ⟨w, t⟩
  by_cases h : w = wallet ∧ t = token
  · obtain ⟨rfl, rfl⟩ := h
    simp [slots]
  · have hne : (w, t) ≠ (wallet, token) := fun heq => h (Prod.mk.inj heq)
    rw [Function.update_of_ne hne, slots, set_of_ne balances balance h]
    rfl

theorem post_increase {balances next : Balances} {wallet token : Address} {amount : Uint256}
    (h : balances.increase wallet token amount = .ok next) :
    Ledger.post .reverts wordModulus (slots balances) (.credit (wallet, token) amount.toNat) =
      some (slots next) := by
  obtain ⟨balance, hbalance, hnext⟩ := bind_eq_ok.mp h
  cases hnext
  have hsum := addUint_eq_ok.mp hbalance
  have hlt : slots balances (wallet, token) + amount.toNat < wordModulus := by
    rw [slots, ← hsum]
    exact balance.isLt
  rw [Ledger.post, if_pos hlt, slots_set, hsum]
  rfl

theorem post_decrease {balances next : Balances} {wallet token : Address} {amount : Uint256}
    (h : balances.decrease wallet token amount = .ok next) :
    Ledger.post .reverts wordModulus (slots balances) (.debit (wallet, token) amount.toNat) =
      some (slots next) := by
  obtain ⟨balance, hbalance, hnext⟩ := bind_eq_ok.mp h
  cases hnext
  have hdifference := subUint_eq_ok.mp hbalance
  have hle : amount.toNat ≤ slots balances (wallet, token) := by
    show amount.toNat ≤ (balances wallet token).toNat
    omega
  have hvalue : slots balances (wallet, token) - amount.toNat = balance.toNat := by
    show (balances wallet token).toNat - amount.toNat = balance.toNat
    omega
  rw [Ledger.post, if_pos hle, slots_set, hvalue]

theorem increase_isOk {balances : Balances} {wallet token : Address} {amount : Uint256} :
    (∃ next, balances.increase wallet token amount = .ok next) ↔
      (Ledger.run .reverts wordModulus (slots balances) [.credit (wallet, token) amount.toNat]).isSome := by
  rw [Ledger.run_singleton, Ledger.isSome_post_credit]
  constructor
  · rintro ⟨next, h⟩
    obtain ⟨balance, hbalance, -⟩ := bind_eq_ok.mp h
    exact addUint_isOk.mp ⟨balance, hbalance⟩
  · intro h
    obtain ⟨balance, hbalance⟩ := addUint_isOk.mpr h
    exact ⟨_, bind_eq_ok.mpr ⟨balance, hbalance, rfl⟩⟩

theorem decrease_isOk {balances : Balances} {wallet token : Address} {amount : Uint256} :
    (∃ next, balances.decrease wallet token amount = .ok next) ↔
      (Ledger.run .reverts wordModulus (slots balances) [.debit (wallet, token) amount.toNat]).isSome := by
  rw [Ledger.run_singleton, Ledger.isSome_post_debit]
  constructor
  · rintro ⟨next, h⟩
    obtain ⟨balance, hbalance, -⟩ := bind_eq_ok.mp h
    exact subUint_isOk.mp ⟨balance, hbalance⟩
  · intro h
    obtain ⟨balance, hbalance⟩ := subUint_isOk.mpr h
    exact ⟨_, bind_eq_ok.mpr ⟨balance, hbalance, rfl⟩⟩

/-- A deposit lowers no balance. -/
theorem le_increase {balances next : Balances} {wallet token : Address} {amount : Uint256}
    (h : balances.increase wallet token amount = .ok next) (w t : Address) :
    balances w t ≤ next w t := by
  obtain ⟨balance, hbalance, hnext⟩ := bind_eq_ok.mp h
  cases hnext
  by_cases hslot : w = wallet ∧ t = token
  · obtain ⟨rfl, rfl⟩ := hslot
    rw [set_self, BitVec.le_def, addUint_eq_ok.mp hbalance]
    exact Nat.le_add_right _ _
  · rw [set_of_ne balances balance hslot]
    exact BitVec.le_refl _

/-- A posting moves the total of a token by its credits less its debits in the token. -/
theorem tokenTotal_of_run {balances next : Balances} {entries : List (Entry Slot)}
    (h : Ledger.run .reverts wordModulus (slots balances) entries = some (slots next))
    (token : Address) :
    balances.tokenTotal token + (entries.map (Entry.creditIn (tokenSlots token))).sum =
      next.tokenTotal token + (entries.map (Entry.debitIn (tokenSlots token))).sum := by
  rw [tokenTotal_eq, tokenTotal_eq]
  exact Ledger.run_sum_reverts wordModulus h (tokenSlots token)

theorem tokenTotal_increase {balances next : Balances} {wallet token : Address} {amount : Uint256}
    (h : balances.increase wallet token amount = .ok next) (t : Address) :
    next.tokenTotal t = balances.tokenTotal t + if token = t then amount.toNat else 0 := by
  have hrun : Ledger.run .reverts wordModulus (slots balances)
      [.credit (wallet, token) amount.toNat] = some (slots next) := by
    rw [Ledger.run, post_increase h]
    rfl
  have hcredit : ([Entry.credit (wallet, token) amount.toNat].map
      (Entry.creditIn (tokenSlots t))).sum = if token = t then amount.toNat else 0 := by
    simp
  have hdebit : ([Entry.credit (wallet, token) amount.toNat].map
      (Entry.debitIn (tokenSlots t))).sum = 0 := by
    simp
  have htotal := tokenTotal_of_run hrun t
  rw [hcredit, hdebit, Nat.add_zero] at htotal
  exact htotal.symm

end Balances

end Chainring.Evm

import Chainring.Base.CheckedWord

/-! The words, calldata structures and failures that the two Solidity contracts share, and the
checks and the checked arithmetic of the language. -/

namespace Chainring.Evm

abbrev Address := BitVec 160
abbrev Uint256 := BitVec 256
abbrev Bytes32 := BitVec 256
abbrev Bytes := List UInt8

/-- Why a call reverts. -/
inductive Revert where
  | reason (text : String)
  | didNotNetToZero (token : Address)
  | unauthorizedOwner (account : Address)
  | arithmeticPanic
  | indexPanic
  | enumPanic
  | malformedCalldata
  | invalidSignature
  | failedCall
  deriving DecidableEq

structure Adjustment where
  walletIndex : UInt16
  amount : Uint256
  deriving DecidableEq

structure WalletTradeList where
  tradeHashes : List Bytes32
  deriving DecidableEq

structure TokenAdjustmentList where
  token : Address
  increments : List Adjustment
  decrements : List Adjustment
  feeAmount : Uint256
  deriving DecidableEq

structure BatchSettlement where
  walletAddresses : List Address
  walletTradeLists : List WalletTradeList
  tokenAdjustmentLists : List TokenAdjustmentList
  deriving DecidableEq

/-- The hash of the machine and the calldata decoder of a batch, with `none` for a revert. -/
structure Host where
  keccak256 : Bytes → Bytes32
  decodeBatchSettlement : Bytes → Option BatchSettlement

/-- The host on one piece of calldata. -/
def Host.knowing (data : Bytes) (hash : Bytes32) (batchSettlement : BatchSettlement) : Host where
  keccak256 := fun data' => if data' = data then hash else 0
  decodeBatchSettlement := fun data' => if data' = data then some batchSettlement else none

theorem Host.decode_knowing (data : Bytes) (hash : Bytes32) (batchSettlement : BatchSettlement) :
    (knowing data hash batchSettlement).decodeBatchSettlement data = some batchSettlement :=
  if_pos rfl

/-! ### Checks and checked arithmetic -/

def require (condition : Prop) [Decidable condition] (text : String) : Except Revert Unit :=
  if condition then .ok () else .error (.reason text)

def orRevert {α : Type} (revert : Revert) : Option α → Except Revert α
  | some value => .ok value
  | none => .error revert

/-- An array element; an index past the end is a panic. -/
def elementAt {α : Type} (items : List α) (index : Nat) : Except Revert α :=
  orRevert .indexPanic items[index]?

/-- Addition of `uint256` values, a panic past the word. -/
def addUint (a b : Uint256) : Except Revert Uint256 :=
  orRevert .arithmeticPanic (CheckedWord.addChecked a b)

def subUint (a b : Uint256) : Except Revert Uint256 :=
  orRevert .arithmeticPanic (CheckedWord.subChecked a b)

/-- The result of an `int256` addition or subtraction, a panic out of range. -/
def int256 (value : Int) : Except Revert Int :=
  orRevert .arithmeticPanic (CheckedWord.signed 256 value)

@[simp] theorem require_eq_ok {condition : Prop} [Decidable condition] {text : String} {u : Unit} :
    require condition text = .ok u ↔ condition := by
  unfold require
  split <;> simp_all

@[simp] theorem orRevert_eq_ok {α : Type} {revert : Revert} {x : Option α} {a : α} :
    orRevert revert x = .ok a ↔ x = some a := by
  cases x <;> simp [orRevert]

theorem addUint_eq_ok {a b c : Uint256} : addUint a b = .ok c ↔ c.toNat = a.toNat + b.toNat := by
  rw [addUint, orRevert_eq_ok, CheckedWord.addChecked_eq_some]

theorem subUint_eq_ok {a b c : Uint256} : subUint a b = .ok c ↔ c.toNat + b.toNat = a.toNat := by
  rw [subUint, orRevert_eq_ok, CheckedWord.subChecked_eq_some]

theorem addUint_isOk {a b : Uint256} : (∃ c, addUint a b = .ok c) ↔ a.toNat + b.toNat < 2 ^ 256 := by
  constructor
  · rintro ⟨c, h⟩
    rw [← addUint_eq_ok.mp h]
    exact c.isLt
  · intro h
    refine ⟨BitVec.ofNat 256 (a.toNat + b.toNat), addUint_eq_ok.mpr ?_⟩
    rw [BitVec.toNat_ofNat, Nat.mod_eq_of_lt h]

theorem subUint_isOk {a b : Uint256} : (∃ c, subUint a b = .ok c) ↔ b.toNat ≤ a.toNat := by
  constructor
  · rintro ⟨c, h⟩
    have hsum := subUint_eq_ok.mp h
    omega
  · intro h
    refine ⟨BitVec.ofNat 256 (a.toNat - b.toNat), subUint_eq_ok.mpr ?_⟩
    have hlt := a.isLt
    rw [BitVec.toNat_ofNat, Nat.mod_eq_of_lt (by omega)]
    omega

theorem elementAt_isOk {α : Type} {items : List α} {index : Nat} :
    (∃ item, elementAt items index = .ok item) ↔ index < items.length := by
  simp [elementAt, List.getElem?_eq_some_iff]

theorem int256_eq_ok {value value' : Int} (h : int256 value = .ok value') : value' = value :=
  CheckedWord.signed_eq_some (orRevert_eq_ok.mp h)

end Chainring.Evm

import Chainring.Evm.Balances

/-! The settlement code that `Exchange` and `CoinProxy` have in common: a batch is checked and its
hash stored by `prepareSettlementBatch`, then applied by `submitSettlementBatch` or dropped by
`rollbackBatch`. -/

namespace Chainring.Evm

open Ledger (Entry)
open Balances (Slot slots tokenSlots wordModulus)
open CheckedWord (bind_eq_ok)

/-- The storage that the settlement code reads and writes. -/
structure SettlementState where
  balances : Balances
  submitter : Address
  feeAccount : Address
  batchHash : Bytes32
  lastSettlementBatchHash : Bytes32

inductive SettlementEvent where
  | settlementFailed (address token : Address) (tradeHashes : List Bytes32)
      (requestedAmount balance : Uint256)
  | settlementCompleted (address : Address) (tradeHashes : List Bytes32)
  deriving DecidableEq

/-- `modifier onlySubmitter`. -/
def onlySubmitter (state : SettlementState) (sender : Address) : Except Revert Unit :=
  require (sender = state.submitter) "Sender is not the submitter"

/-! ### Preparing -/

/-- The local variables of the checking loop. -/
structure Verification where
  netAmount : Int
  batchSucceeded : Bool
  log : List SettlementEvent

def verifyIncrement (netAmount : Int) (increment : Adjustment) : Except Revert Int :=
  int256 (netAmount + increment.amount.toInt)

def verifyDecrement (balances : Balances) (batchSettlement : BatchSettlement) (token : Address)
    (verification : Verification) (decrement : Adjustment) : Except Revert Verification := do
  let netAmount ← int256 (verification.netAmount - decrement.amount.toInt)
  let walletIndex := decrement.walletIndex.toNat
  let wallet ← elementAt batchSettlement.walletAddresses walletIndex
  if decrement.amount > balances wallet token then
    let tradeList ← elementAt batchSettlement.walletTradeLists walletIndex
    return {
      netAmount
      batchSucceeded := false
      log := verification.log ++ [.settlementFailed wallet token tradeList.tradeHashes
        decrement.amount (balances wallet token)] }
  else
    return { verification with netAmount }

/-- One iteration of the checking loop: `int256` conversions reinterpret the amounts. -/
def verifyTokenAdjustmentList (balances : Balances) (batchSettlement : BatchSettlement)
    (verification : Verification) (list : TokenAdjustmentList) : Except Revert Verification := do
  let netAmount ← list.increments.foldlM verifyIncrement list.feeAmount.toInt
  let verification ← list.decrements.foldlM
    (verifyDecrement balances batchSettlement list.token) { verification with netAmount }
  if verification.netAmount ≠ 0 then
    .error (.didNotNetToZero list.token)
  else
    return verification

def prepareSettlementBatch (host : Host) (sender : Address) (state : SettlementState) (data : Bytes) :
    Except Revert (SettlementState × List SettlementEvent) := do
  onlySubmitter state sender
  require (state.batchHash = 0) "Batch in progress, submit or rollback"
  let batchSettlement ← orRevert .malformedCalldata (host.decodeBatchSettlement data)
  require (batchSettlement.walletAddresses.length = batchSettlement.walletTradeLists.length)
    "Invalid address and trade lists lengths"
  let verification ← batchSettlement.tokenAdjustmentLists.foldlM
    (verifyTokenAdjustmentList state.balances batchSettlement)
    { netAmount := 0, batchSucceeded := true, log := [] }
  if verification.batchSucceeded then
    return ({ state with batchHash := host.keccak256 data }, verification.log)
  else
    return (state, verification.log)

/-! ### Submitting and rolling back -/

def applyIncrement (batchSettlement : BatchSettlement) (token : Address) (balances : Balances)
    (increment : Adjustment) : Except Revert Balances := do
  let wallet ← elementAt batchSettlement.walletAddresses increment.walletIndex.toNat
  balances.increase wallet token increment.amount

def applyDecrement (batchSettlement : BatchSettlement) (token : Address) (balances : Balances)
    (decrement : Adjustment) : Except Revert Balances := do
  let wallet ← elementAt batchSettlement.walletAddresses decrement.walletIndex.toNat
  if decrement.amount ≤ balances wallet token then
    balances.decrease wallet token decrement.amount
  else
    .error (.reason "Insufficient Balance")

def applyTokenAdjustmentList (batchSettlement : BatchSettlement) (feeAccount : Address)
    (balances : Balances) (list : TokenAdjustmentList) : Except Revert Balances := do
  let balances ← list.increments.foldlM (applyIncrement batchSettlement list.token) balances
  let balances ← list.decrements.foldlM (applyDecrement batchSettlement list.token) balances
  if list.feeAmount ≠ 0 then
    balances.increase feeAccount list.token list.feeAmount
  else
    return balances

/-- The closing loop: one event for each wallet with its trades. -/
def completed (batchSettlement : BatchSettlement) : Except Revert (List SettlementEvent) :=
  batchSettlement.walletTradeLists.zipIdx.mapM fun (tradeList, i) => do
    let address ← elementAt batchSettlement.walletAddresses i
    return .settlementCompleted address tradeList.tradeHashes

def submitSettlementBatch (host : Host) (sender : Address) (state : SettlementState) (data : Bytes) :
    Except Revert (SettlementState × List SettlementEvent) := do
  onlySubmitter state sender
  require (state.batchHash ≠ 0) "No batch prepared"
  require (state.batchHash = host.keccak256 data) "Hash does not match prepared batch"
  let batchSettlement ← orRevert .malformedCalldata (host.decodeBatchSettlement data)
  let balances ← batchSettlement.tokenAdjustmentLists.foldlM
    (applyTokenAdjustmentList batchSettlement state.feeAccount) state.balances
  let log ← completed batchSettlement
  return ({ state with
    balances, lastSettlementBatchHash := state.batchHash, batchHash := 0 }, log)

def rollbackBatch (sender : Address) (state : SettlementState) : Except Revert SettlementState := do
  onlySubmitter state sender
  return { state with batchHash := 0 }

/-! ### What a successful call did -/

/-- The verification of a whole batch. -/
def Verified (balances : Balances) (batchSettlement : BatchSettlement) (verification : Verification) :
    Prop :=
  batchSettlement.tokenAdjustmentLists.foldlM (verifyTokenAdjustmentList balances batchSettlement)
    { netAmount := 0, batchSucceeded := true, log := [] } = .ok verification

theorem prepareSettlementBatch_cases {host : Host} {sender : Address} {state next : SettlementState}
    {data : Bytes} {log : List SettlementEvent}
    (h : prepareSettlementBatch host sender state data = .ok (next, log)) :
    sender = state.submitter ∧ state.batchHash = 0 ∧
      ∃ batchSettlement verification, host.decodeBatchSettlement data = some batchSettlement ∧
        batchSettlement.walletAddresses.length = batchSettlement.walletTradeLists.length ∧
        Verified state.balances batchSettlement verification ∧
        log = verification.log ∧
        ((verification.batchSucceeded = true ∧
            next = { state with batchHash := host.keccak256 data }) ∨
          (verification.batchSucceeded = false ∧ next = state)) := by
  obtain ⟨_, hsender, h⟩ := bind_eq_ok.mp h
  obtain ⟨_, hempty, h⟩ := bind_eq_ok.mp h
  obtain ⟨batchSettlement, hdecode, h⟩ := bind_eq_ok.mp h
  obtain ⟨_, hlengths, h⟩ := bind_eq_ok.mp h
  obtain ⟨verification, hverified, h⟩ := bind_eq_ok.mp h
  refine ⟨require_eq_ok.mp hsender, require_eq_ok.mp hempty, batchSettlement, verification,
    orRevert_eq_ok.mp hdecode, require_eq_ok.mp hlengths, hverified, ?_⟩
  cases hsucceeded : verification.batchSucceeded with
  | true =>
      rw [hsucceeded, if_pos rfl] at h
      cases h
      exact ⟨rfl, Or.inl ⟨rfl, rfl⟩⟩
  | false =>
      rw [hsucceeded] at h
      cases h
      exact ⟨rfl, Or.inr ⟨rfl, rfl⟩⟩

theorem submitSettlementBatch_cases {host : Host} {sender : Address} {state next : SettlementState}
    {data : Bytes} {log : List SettlementEvent}
    (h : submitSettlementBatch host sender state data = .ok (next, log)) :
    sender = state.submitter ∧ state.batchHash ≠ 0 ∧ state.batchHash = host.keccak256 data ∧
      ∃ batchSettlement balances, host.decodeBatchSettlement data = some batchSettlement ∧
        batchSettlement.tokenAdjustmentLists.foldlM
          (applyTokenAdjustmentList batchSettlement state.feeAccount) state.balances = .ok balances ∧
        completed batchSettlement = .ok log ∧
        next = { state with balances, lastSettlementBatchHash := state.batchHash, batchHash := 0 } := by
  obtain ⟨_, hsender, h⟩ := bind_eq_ok.mp h
  obtain ⟨_, hpending, h⟩ := bind_eq_ok.mp h
  obtain ⟨_, hhash, h⟩ := bind_eq_ok.mp h
  obtain ⟨batchSettlement, hdecode, h⟩ := bind_eq_ok.mp h
  obtain ⟨balances, happlied, h⟩ := bind_eq_ok.mp h
  obtain ⟨events, hevents, h⟩ := bind_eq_ok.mp h
  cases h
  exact ⟨require_eq_ok.mp hsender, require_eq_ok.mp hpending, require_eq_ok.mp hhash,
    batchSettlement, balances, orRevert_eq_ok.mp hdecode, happlied, hevents, rfl⟩

theorem rollbackBatch_cases {sender : Address} {state next : SettlementState}
    (h : rollbackBatch sender state = .ok next) :
    sender = state.submitter ∧ next = { state with batchHash := 0 } := by
  obtain ⟨_, hsender, h⟩ := bind_eq_ok.mp h
  cases h
  exact ⟨require_eq_ok.mp hsender, rfl⟩

/-! ### The amounts of a batch -/

def TokenAdjustmentList.credits (list : TokenAdjustmentList) : List Uint256 :=
  list.feeAmount :: list.increments.map Adjustment.amount

def TokenAdjustmentList.debits (list : TokenAdjustmentList) : List Uint256 :=
  list.decrements.map Adjustment.amount

/-- The sum of a list of amounts as natural numbers. -/
def amountTotal (amounts : List Uint256) : Nat := (amounts.map BitVec.toNat).sum

/-- The sum of a list of amounts as `int256` reads them. -/
def signedTotal (amounts : List Uint256) : Int := (amounts.map BitVec.toInt).sum

theorem verifyIncrements_sum {increments : List Adjustment} {netAmount final : Int}
    (h : increments.foldlM verifyIncrement netAmount = .ok final) :
    final = netAmount + signedTotal (increments.map Adjustment.amount) := by
  induction increments generalizing netAmount with
  | nil =>
      cases h
      simp [signedTotal]
  | cons increment increments ih =>
      rw [List.foldlM_cons] at h
      obtain ⟨next, hnext, hrest⟩ := bind_eq_ok.mp h
      rw [ih hrest, int256_eq_ok hnext]
      simp only [signedTotal, List.map_cons, List.sum_cons]
      ring

theorem verifyDecrement_netAmount {balances : Balances} {batchSettlement : BatchSettlement}
    {token : Address} {verification next : Verification} {decrement : Adjustment}
    (h : verifyDecrement balances batchSettlement token verification decrement = .ok next) :
    next.netAmount = verification.netAmount - decrement.amount.toInt := by
  obtain ⟨netAmount, hnet, h⟩ := bind_eq_ok.mp h
  obtain ⟨wallet, -, h⟩ := bind_eq_ok.mp h
  rw [← int256_eq_ok hnet]
  split at h
  · obtain ⟨tradeList, -, h⟩ := bind_eq_ok.mp h
    cases h
    rfl
  · cases h
    rfl

theorem verifyDecrements_sum {balances : Balances} {batchSettlement : BatchSettlement}
    {token : Address} {decrements : List Adjustment} {verification final : Verification}
    (h : decrements.foldlM (verifyDecrement balances batchSettlement token) verification = .ok final) :
    final.netAmount = verification.netAmount - signedTotal (decrements.map Adjustment.amount) := by
  induction decrements generalizing verification with
  | nil =>
      cases h
      simp [signedTotal]
  | cons decrement decrements ih =>
      rw [List.foldlM_cons] at h
      obtain ⟨next, hnext, hrest⟩ := bind_eq_ok.mp h
      rw [ih hrest, verifyDecrement_netAmount hnext]
      simp only [signedTotal, List.map_cons, List.sum_cons]
      ring

theorem verifyTokenAdjustmentList_nets {balances : Balances} {batchSettlement : BatchSettlement}
    {verification next : Verification} {list : TokenAdjustmentList}
    (h : verifyTokenAdjustmentList balances batchSettlement verification list = .ok next) :
    signedTotal list.credits = signedTotal list.debits := by
  obtain ⟨netAmount, hincrements, h⟩ := bind_eq_ok.mp h
  obtain ⟨final, hdecrements, h⟩ := bind_eq_ok.mp h
  have hcredits := verifyIncrements_sum hincrements
  have hdebits := verifyDecrements_sum hdecrements
  split at h
  · cases h
  · next hzero =>
      have hzero : final.netAmount = 0 := not_not.mp hzero
      simp only [TokenAdjustmentList.credits, TokenAdjustmentList.debits, signedTotal,
        List.map_cons, List.sum_cons] at hcredits hdebits ⊢
      omega

/-- Every list of a verified batch nets to zero in the `int256` reading of its amounts. -/
theorem verified_nets {balances : Balances} {batchSettlement : BatchSettlement}
    {verification : Verification} (h : Verified balances batchSettlement verification) :
    ∀ list ∈ batchSettlement.tokenAdjustmentLists,
      signedTotal list.credits = signedTotal list.debits := by
  intro list hlist
  obtain ⟨_, _, hverified⟩ := CheckedWord.exists_of_foldlM h hlist
  exact verifyTokenAdjustmentList_nets hverified

/-! ### The entries that a batch posts -/

def walletAt (batchSettlement : BatchSettlement) (adjustment : Adjustment) : Address :=
  batchSettlement.walletAddresses.getD adjustment.walletIndex.toNat 0

def TokenAdjustmentList.entries (batchSettlement : BatchSettlement) (feeAccount : Address)
    (list : TokenAdjustmentList) : List (Entry Slot) :=
  list.increments.map (fun increment =>
      .credit (walletAt batchSettlement increment, list.token) increment.amount.toNat) ++
    list.decrements.map (fun decrement =>
      .debit (walletAt batchSettlement decrement, list.token) decrement.amount.toNat) ++
    if list.feeAmount ≠ 0 then [.credit (feeAccount, list.token) list.feeAmount.toNat] else []

theorem walletAt_eq {batchSettlement : BatchSettlement} {adjustment : Adjustment} {wallet : Address}
    (h : elementAt batchSettlement.walletAddresses adjustment.walletIndex.toNat = .ok wallet) :
    walletAt batchSettlement adjustment = wallet := by
  rw [walletAt, List.getD_eq_getElem?_getD, orRevert_eq_ok.mp h, Option.getD_some]

theorem post_applyIncrement {batchSettlement : BatchSettlement} {token : Address}
    {balances next : Balances} {increment : Adjustment}
    (h : applyIncrement batchSettlement token balances increment = .ok next) :
    Ledger.run .reverts wordModulus (slots balances)
      [.credit (walletAt batchSettlement increment, token) increment.amount.toNat] =
        some (slots next) := by
  obtain ⟨wallet, hwallet, h⟩ := bind_eq_ok.mp h
  rw [Ledger.run, walletAt_eq hwallet, Balances.post_increase h]
  rfl

theorem post_applyDecrement {batchSettlement : BatchSettlement} {token : Address}
    {balances next : Balances} {decrement : Adjustment}
    (h : applyDecrement batchSettlement token balances decrement = .ok next) :
    Ledger.run .reverts wordModulus (slots balances)
      [.debit (walletAt batchSettlement decrement, token) decrement.amount.toNat] =
        some (slots next) := by
  obtain ⟨wallet, hwallet, h⟩ := bind_eq_ok.mp h
  split at h
  · rw [Ledger.run, walletAt_eq hwallet, Balances.post_decrease h]
    rfl
  · cases h

theorem post_applyIncrements {batchSettlement : BatchSettlement} {token : Address}
    {balances next : Balances} {increments : List Adjustment}
    (h : increments.foldlM (applyIncrement batchSettlement token) balances = .ok next) :
    Ledger.run .reverts wordModulus (slots balances) (increments.map fun increment =>
      .credit (walletAt batchSettlement increment, token) increment.amount.toNat) = some (slots next) := by
  rw [List.map_eq_flatMap]
  exact Ledger.run_of_foldlM .reverts wordModulus (fun _ _ _ => post_applyIncrement) h

theorem post_applyDecrements {batchSettlement : BatchSettlement} {token : Address}
    {balances next : Balances} {decrements : List Adjustment}
    (h : decrements.foldlM (applyDecrement batchSettlement token) balances = .ok next) :
    Ledger.run .reverts wordModulus (slots balances) (decrements.map fun decrement =>
      .debit (walletAt batchSettlement decrement, token) decrement.amount.toNat) = some (slots next) := by
  rw [List.map_eq_flatMap]
  exact Ledger.run_of_foldlM .reverts wordModulus (fun _ _ _ => post_applyDecrement) h

theorem run_applyTokenAdjustmentList {batchSettlement : BatchSettlement} {feeAccount : Address}
    {balances next : Balances} {list : TokenAdjustmentList}
    (h : applyTokenAdjustmentList batchSettlement feeAccount balances list = .ok next) :
    Ledger.run .reverts wordModulus (slots balances) (list.entries batchSettlement feeAccount) =
      some (slots next) := by
  obtain ⟨incremented, hincrements, h⟩ := bind_eq_ok.mp h
  obtain ⟨decremented, hdecrements, h⟩ := bind_eq_ok.mp h
  rw [TokenAdjustmentList.entries, Ledger.run_append, Ledger.run_append,
    post_applyIncrements hincrements, Option.bind_some, post_applyDecrements hdecrements, Option.bind_some]
  split at h
  · next hfee =>
      rw [if_pos hfee, Ledger.run, Balances.post_increase h]
      rfl
  · next hfee =>
      rw [if_neg hfee]
      cases h
      rfl

end Chainring.Evm

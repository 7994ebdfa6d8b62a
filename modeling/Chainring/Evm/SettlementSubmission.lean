import Chainring.Evm.ExchangeSolvency

/-! When a prepared settlement can be submitted. The check of a batch looks at each decrement on its own
and at no increment's wallet, and the balances may change before the submission: it goes through exactly
when every increment has its wallet and the balances cover the decrements one after the other. -/

namespace Chainring.Evm

open Ledger (Entry)
open Balances (Slot slots wordModulus)
open CheckedWord (bind_eq_ok exists_eq_ok exists_of_foldlM mapM_isOk errorOf errorOf_eq_some)

/-- The wallet of the adjustment is one of the batch. -/
def BatchSettlement.HasWallet (batchSettlement : BatchSettlement) (adjustment : Adjustment) : Prop :=
  adjustment.walletIndex.toNat < batchSettlement.walletAddresses.length

instance (batchSettlement : BatchSettlement) (adjustment : Adjustment) :
    Decidable (batchSettlement.HasWallet adjustment) :=
  inferInstanceAs (Decidable (_ < _))

/-- What a whole batch posts. -/
def BatchSettlement.entries (batchSettlement : BatchSettlement) (feeAccount : Address) : List (Entry Slot) :=
  batchSettlement.tokenAdjustmentLists.flatMap (TokenAdjustmentList.entries batchSettlement feeAccount)

/-! ### The steps of a submission -/

section Steps

variable {batchSettlement : BatchSettlement} {token feeAccount : Address} {balances : Balances}

theorem applyIncrement_isOk {increment : Adjustment} :
    (∃ next, applyIncrement batchSettlement token balances increment = .ok next) ↔
      batchSettlement.HasWallet increment ∧
        (Ledger.run .reverts wordModulus (slots balances)
          [.credit (walletAt batchSettlement increment, token) increment.amount.toNat]).isSome := by
  constructor
  · rintro ⟨next, h⟩
    rw [post_applyIncrement h]
    obtain ⟨wallet, hwallet, -⟩ := bind_eq_ok.mp h
    exact ⟨elementAt_isOk.mp ⟨wallet, hwallet⟩, rfl⟩
  · rintro ⟨hindex, hgoes⟩
    obtain ⟨wallet, hwallet⟩ := elementAt_isOk.mpr hindex
    rw [walletAt_eq hwallet] at hgoes
    obtain ⟨next, hnext⟩ := Balances.increase_isOk.mpr hgoes
    exact ⟨next, bind_eq_ok.mpr ⟨wallet, hwallet, hnext⟩⟩

theorem applyDecrement_isOk {decrement : Adjustment} :
    (∃ next, applyDecrement batchSettlement token balances decrement = .ok next) ↔
      batchSettlement.HasWallet decrement ∧
        (Ledger.run .reverts wordModulus (slots balances)
          [.debit (walletAt batchSettlement decrement, token) decrement.amount.toNat]).isSome := by
  constructor
  · rintro ⟨next, h⟩
    rw [post_applyDecrement h]
    obtain ⟨wallet, hwallet, -⟩ := bind_eq_ok.mp h
    exact ⟨elementAt_isOk.mp ⟨wallet, hwallet⟩, rfl⟩
  · rintro ⟨hindex, hgoes⟩
    obtain ⟨wallet, hwallet⟩ := elementAt_isOk.mpr hindex
    rw [walletAt_eq hwallet] at hgoes
    obtain ⟨next, hnext⟩ := Balances.decrease_isOk.mpr hgoes
    refine ⟨next, bind_eq_ok.mpr ⟨wallet, hwallet, ?_⟩⟩
    rw [Ledger.run_singleton, Ledger.isSome_post_debit] at hgoes
    rw [if_pos (BitVec.le_def.mpr hgoes)]
    exact hnext

theorem applyFee_isOk {list : TokenAdjustmentList} :
    (∃ next, (if list.feeAmount ≠ 0 then balances.increase feeAccount list.token list.feeAmount
        else return balances : Except Revert Balances) = .ok next) ↔
      True ∧ (Ledger.run .reverts wordModulus (slots balances)
        (if list.feeAmount ≠ 0 then [.credit (feeAccount, list.token) list.feeAmount.toNat] else [])).isSome := by
  rw [true_and]
  by_cases hfee : list.feeAmount = 0
  · rw [if_neg (not_not.mpr hfee), if_neg (not_not.mpr hfee)]
    exact iff_of_true ⟨balances, rfl⟩ rfl
  · rw [if_pos hfee, if_pos hfee]
    exact Balances.increase_isOk

/-- The wallets of a list are there. -/
def BatchSettlement.HasWallets (batchSettlement : BatchSettlement) (list : TokenAdjustmentList) : Prop :=
  (∀ increment ∈ list.increments, batchSettlement.HasWallet increment) ∧
    ∀ decrement ∈ list.decrements, batchSettlement.HasWallet decrement

theorem applyIncrements_isOk {increments : List Adjustment} :
    (∃ next, increments.foldlM (applyIncrement batchSettlement token) balances = .ok next) ↔
      (∀ increment ∈ increments, batchSettlement.HasWallet increment) ∧
        (Ledger.run .reverts wordModulus (slots balances) (increments.map fun increment =>
          .credit (walletAt batchSettlement increment, token) increment.amount.toNat)).isSome := by
  rw [List.map_eq_flatMap]
  refine Ledger.foldlM_isOk_iff .reverts wordModulus ?_ ?_ increments balances
  · exact fun _ _ _ => post_applyIncrement
  · exact fun _ _ => applyIncrement_isOk

theorem applyDecrements_isOk {decrements : List Adjustment} :
    (∃ next, decrements.foldlM (applyDecrement batchSettlement token) balances = .ok next) ↔
      (∀ decrement ∈ decrements, batchSettlement.HasWallet decrement) ∧
        (Ledger.run .reverts wordModulus (slots balances) (decrements.map fun decrement =>
          .debit (walletAt batchSettlement decrement, token) decrement.amount.toNat)).isSome := by
  rw [List.map_eq_flatMap]
  refine Ledger.foldlM_isOk_iff .reverts wordModulus ?_ ?_ decrements balances
  · exact fun _ _ _ => post_applyDecrement
  · exact fun _ _ => applyDecrement_isOk

theorem applyTokenAdjustmentList_isOk {list : TokenAdjustmentList} :
    (∃ next, applyTokenAdjustmentList batchSettlement feeAccount balances list = .ok next) ↔
      batchSettlement.HasWallets list ∧
        (Ledger.run .reverts wordModulus (slots balances) (list.entries batchSettlement feeAccount)).isSome := by
  rw [TokenAdjustmentList.entries, List.append_assoc]
  refine (Ledger.bind_isOk_iff .reverts wordModulus (fun next => post_applyIncrements)
    applyIncrements_isOk fun incremented => ?_).trans (by rw [BatchSettlement.HasWallets])
  refine (Ledger.bind_isOk_iff .reverts wordModulus (fun next => post_applyDecrements)
    applyDecrements_isOk fun decremented => applyFee_isOk).trans (by rw [and_true])

theorem applyTokenAdjustmentLists_isOk {lists : List TokenAdjustmentList} :
    (∃ next, lists.foldlM (applyTokenAdjustmentList batchSettlement feeAccount) balances = .ok next) ↔
      (∀ list ∈ lists, batchSettlement.HasWallets list) ∧
        (Ledger.run .reverts wordModulus (slots balances)
          (lists.flatMap (TokenAdjustmentList.entries batchSettlement feeAccount))).isSome := by
  refine Ledger.foldlM_isOk_iff .reverts wordModulus ?_ ?_ lists balances
  · exact fun _ _ _ => run_applyTokenAdjustmentList
  · exact fun _ _ => applyTokenAdjustmentList_isOk

end Steps

theorem completed_isOk {batchSettlement : BatchSettlement}
    (hlengths : batchSettlement.walletAddresses.length = batchSettlement.walletTradeLists.length) :
    ∃ log, completed batchSettlement = .ok log := by
  apply mapM_isOk
  rintro ⟨tradeList, i⟩ hmem
  have hi : i < batchSettlement.walletAddresses.length := by
    rw [hlengths]
    simpa using List.snd_lt_of_mem_zipIdx hmem
  obtain ⟨address, haddress⟩ := elementAt_isOk.mpr hi
  exact ⟨_, bind_eq_ok.mpr ⟨address, haddress, rfl⟩⟩

/-! ### The preparation before it -/

/-- The check of a batch finds the wallet of every decrement. -/
theorem verified_hasWallet {balances : Balances} {batchSettlement : BatchSettlement}
    {verification : Verification} (h : Verified balances batchSettlement verification) :
    ∀ list ∈ batchSettlement.tokenAdjustmentLists, ∀ decrement ∈ list.decrements,
      batchSettlement.HasWallet decrement := by
  intro list hlist decrement hdecrement
  obtain ⟨_, _, hverified⟩ := exists_of_foldlM h hlist
  obtain ⟨netAmount, -, hverified⟩ := bind_eq_ok.mp hverified
  obtain ⟨final, hdecrements, -⟩ := bind_eq_ok.mp hverified
  obtain ⟨_, _, hchecked⟩ := exists_of_foldlM hdecrements hdecrement
  obtain ⟨_, -, hchecked⟩ := bind_eq_ok.mp hchecked
  obtain ⟨wallet, hwallet, -⟩ := bind_eq_ok.mp hchecked
  exact elementAt_isOk.mp ⟨wallet, hwallet⟩

/-- A submission of the pending batch by the submitter goes through exactly when its adjustments do. -/
theorem submitSettlementBatch_isOk {host : Host} {sender : Address} {state : SettlementState} {data : Bytes}
    {batchSettlement : BatchSettlement} (hdecode : host.decodeBatchSettlement data = some batchSettlement)
    (hsender : sender = state.submitter) (hpending : state.batchHash ≠ 0)
    (hhash : state.batchHash = host.keccak256 data)
    (hlengths : batchSettlement.walletAddresses.length = batchSettlement.walletTradeLists.length) :
    (∃ result, submitSettlementBatch host sender state data = .ok result) ↔
      (∀ list ∈ batchSettlement.tokenAdjustmentLists, batchSettlement.HasWallets list) ∧
        (Ledger.run .reverts wordModulus (slots state.balances)
          (batchSettlement.entries state.feeAccount)).isSome := by
  rw [BatchSettlement.entries, ← applyTokenAdjustmentLists_isOk]
  constructor
  · rintro ⟨⟨next, log⟩, h⟩
    obtain ⟨-, -, -, submitted, balances, hsubmitted, happlied, -⟩ := submitSettlementBatch_cases h
    obtain rfl := Option.some.inj (hsubmitted.symm.trans hdecode)
    exact ⟨balances, happlied⟩
  · rintro ⟨balances, happlied⟩
    obtain ⟨log, hlog⟩ := completed_isOk hlengths
    refine ⟨({ state with balances, lastSettlementBatchHash := state.batchHash, batchHash := 0 }, log), ?_⟩
    apply bind_eq_ok.mpr ⟨(), require_eq_ok.mpr hsender, ?_⟩
    apply bind_eq_ok.mpr ⟨(), require_eq_ok.mpr hpending, ?_⟩
    apply bind_eq_ok.mpr ⟨(), require_eq_ok.mpr hhash, ?_⟩
    apply bind_eq_ok.mpr ⟨batchSettlement, orRevert_eq_ok.mpr hdecode, ?_⟩
    apply bind_eq_ok.mpr ⟨balances, happlied, ?_⟩
    exact bind_eq_ok.mpr ⟨log, hlog, rfl⟩

namespace Exchange

variable {E : Type}

theorem submitSettlementBatch_isOk_iff {host : Host} {context : Context} {world : World E} {data : Bytes} :
    (∃ next, submitSettlementBatch host context world data = .ok next) ↔
      ∃ result, Evm.submitSettlementBatch host.toHost context.sender world.state.toSettlementState data =
        .ok result := by
  constructor
  · rintro ⟨next, h⟩
    obtain ⟨result, hresult, -⟩ := bind_eq_ok.mp h
    exact ⟨result, hresult⟩
  · rintro ⟨result, hresult⟩
    exact ⟨_, bind_eq_ok.mpr ⟨result, hresult, rfl⟩⟩

/-- After any calls that leave the hash of a prepared batch in place, and where no sum goes past the word,
the submitter's submission goes through exactly when every increment has a wallet and the balances cover
the decrements one after the other. -/
theorem prepared_submission_iff (host : Host) (tokens : Tokens E) (world prepared : World E)
    (inputs : List (Input E)) (context context' : Context) (data : Bytes) (batchSettlement : BatchSettlement)
    (hdecode : host.decodeBatchSettlement data = some batchSettlement)
    (hprepare : prepareSettlementBatch host context world data = .ok prepared)
    (hset : prepared.state.batchHash ≠ 0)
    (hleft : (run host tokens prepared inputs).state.batchHash = prepared.state.batchHash)
    (hsender : context'.sender = (run host tokens prepared inputs).state.submitter)
    (hfits : Ledger.Fits wordModulus (slots (run host tokens prepared inputs).state.balances)
      (batchSettlement.entries (run host tokens prepared inputs).state.feeAccount)) :
    (∃ submitted,
        submitSettlementBatch host context' (run host tokens prepared inputs) data = .ok submitted) ↔
      (∀ list ∈ batchSettlement.tokenAdjustmentLists, ∀ increment ∈ list.increments,
          batchSettlement.HasWallet increment) ∧
        Ledger.Covered wordModulus (slots (run host tokens prepared inputs).state.balances)
          (batchSettlement.entries (run host tokens prepared inputs).state.feeAccount) := by
  obtain ⟨settlement, log, hprepared, rfl⟩ := prepareSettlementBatch_cases hprepare
  obtain ⟨-, hempty, verified, verification, hverified, hlengths, hloop, -, hnext⟩ :=
    Evm.prepareSettlementBatch_cases hprepared
  obtain rfl := Option.some.inj (hverified.symm.trans hdecode)
  have hhash : settlement.batchHash = host.keccak256 data := by
    rcases hnext with ⟨-, rfl⟩ | ⟨-, rfl⟩
    · rfl
    · exact absurd hempty hset
  have hpending : (run host tokens (world.settle settlement log) inputs).state.batchHash ≠ 0 := by
    rw [hleft]
    exact hset
  rw [submitSettlementBatch_isOk_iff, Evm.submitSettlementBatch_isOk hdecode hsender hpending
      (hleft.trans hhash) hlengths,
    Ledger.run_isSome_iff_covered .reverts wordModulus (Nat.two_pow_pos _)
      (Balances.slots_lt _) fun _ => hfits]
  apply and_congr_left
  intro _
  exact forall₂_congr fun list hlist => and_iff_left (verified_hasWallet hloop list hlist)

/-! The first wallet deposits its ten units. It pays five of them to the second wallet and asks for two in
the meantime, or it pays six of them twice. -/

def trading : List (Input Book) := [.call ⟨0xa1, 1, 0x0e⟩ (.deposit 0x70 10)]

def asking : List (Input Book) := [.call ⟨0xa1, 3, 0x0e⟩ (.sovereignWithdrawal 0x70 2)]

def tradingStart : World Book := start 0x5b 0xfe 86400 fun _ _ => 10

theorem evenTrade_submits : ∃ prepared submitted,
    prepareSettlementBatch (exchangeHost evenHost) ⟨0x5b, 2, 0x0e⟩
        (run (exchangeHost evenHost) bookTokens tradingStart trading) evenData = .ok prepared ∧
      submitSettlementBatch (exchangeHost evenHost) ⟨0x5b, 4, 0x0e⟩
        (run (exchangeHost evenHost) bookTokens prepared asking) evenData = .ok submitted := by
  have hrun : (prepareSettlementBatch (exchangeHost evenHost) ⟨0x5b, 2, 0x0e⟩
      (run (exchangeHost evenHost) bookTokens tradingStart trading) evenData).toOption.map (fun prepared =>
        let reached := (run (exchangeHost evenHost) bookTokens prepared asking).state
        (prepared.state.batchHash != 0, reached.batchHash == prepared.state.batchHash,
          reached.submitter == 0x5b, slots reached.balances (0xb2, 0x70),
          (Ledger.run .reverts wordModulus (slots reached.balances)
            (evenTrade.entries reached.feeAccount)).isSome)) =
      some (true, true, true, 0, true) := by
    decide +kernel
  obtain ⟨prepared, hprepared, hvalues⟩ := exists_eq_ok hrun
  simp only [Prod.mk.injEq, bne_iff_ne, beq_iff_eq] at hvalues
  obtain ⟨hset, hleft, hsubmitter, hsecond, hgoes⟩ := hvalues
  have hfits : Ledger.Fits wordModulus
      (slots (run (exchangeHost evenHost) bookTokens prepared asking).state.balances)
      (evenTrade.entries (run (exchangeHost evenHost) bookTokens prepared asking).state.feeAccount) := by
    apply Ledger.fits_of_credited
    intro slot
    show _ + ((if (0xb2, 0x70) = slot then 5 else 0) + (0 + 0)) < wordModulus
    split
    · next hslot =>
        rw [← hslot, hsecond]
        decide
    · exact Balances.slots_lt _ slot
  obtain ⟨submitted, hsubmitted⟩ := (prepared_submission_iff (exchangeHost evenHost) bookTokens _ prepared asking
    ⟨0x5b, 2, 0x0e⟩ ⟨0x5b, 4, 0x0e⟩ evenData evenTrade (Host.decode_knowing _ _ _) hprepared hset hleft
    hsubmitter.symm hfits).mpr ⟨by decide, (Ledger.run_isSome_iff_covered .reverts wordModulus
      (Nat.two_pow_pos _) (Balances.slots_lt _) fun _ => hfits).mp hgoes⟩
  exact ⟨prepared, submitted, hprepared, hsubmitted⟩

def doubleTrade : BatchSettlement where
  walletAddresses := [0xa1, 0xb2]
  walletTradeLists := [⟨[]⟩, ⟨[]⟩]
  tokenAdjustmentLists := [
    { token := 0x70
      increments := [⟨1, 12⟩]
      decrements := [⟨0, 6⟩, ⟨0, 6⟩]
      feeAmount := 0 }]

def doubleData : Bytes :=
  [0x20, 0x60, 0xc0, 0x1a0, 2, 0xa1, 0xb2, 2, 0x40, 0x80, 0x20, 0, 0x20, 0, 1, 0x20, 0x70, 0x80, 0xe0,
    0, 1, 1, 12, 2, 0, 6, 0, 6].flatMap abiWord

def doubleHost : Evm.Host :=
  .knowing doubleData 0x1f286a2f51d16f3691fc5be45092b40f45be45ac6f98d2c799da2395b98ba61b doubleTrade

/-- Each payment of six is covered by the ten units, and the two together are not: the batch is prepared,
and its submission reverts right after. -/
theorem doubleTrade_reverts : ∃ prepared,
    prepareSettlementBatch (exchangeHost doubleHost) ⟨0x5b, 2, 0x0e⟩
        (run (exchangeHost doubleHost) bookTokens tradingStart trading) doubleData = .ok prepared ∧
      prepared.state.batchHash ≠ 0 ∧
      submitSettlementBatch (exchangeHost doubleHost) ⟨0x5b, 3, 0x0e⟩ prepared doubleData =
        .error (.reason "Insufficient Balance") := by
  have hrun : (prepareSettlementBatch (exchangeHost doubleHost) ⟨0x5b, 2, 0x0e⟩
      (run (exchangeHost doubleHost) bookTokens tradingStart trading) doubleData).toOption.map (fun prepared =>
        (prepared.state.batchHash != 0,
          errorOf (submitSettlementBatch (exchangeHost doubleHost) ⟨0x5b, 3, 0x0e⟩ prepared doubleData))) =
      some (true, some (.reason "Insufficient Balance")) := by
    decide +kernel
  obtain ⟨prepared, hprepared, hvalues⟩ := exists_eq_ok hrun
  simp only [Prod.mk.injEq, bne_iff_ne] at hvalues
  obtain ⟨hset, hreverts⟩ := hvalues
  exact ⟨prepared, hprepared, hset, errorOf_eq_some.mp hreverts⟩

end Exchange

end Chainring.Evm

import Chainring.Evm.SettlementSubmission

/-! The preparation of a settlement as a function of the batch. With amounts and running sums that `int256` can
hold, a batch is refused for its lengths, for a decrement without a wallet or for a list that does not net;
otherwise every decrement that its wallet cannot pay is reported, and the hash is stored when there is none. -/

namespace Chainring.Evm

open CheckedWord (bind_eq_ok bind_pure_eq_error)

/-! ### What the preparation is for -/

/-- Why a batch is refused. -/
def BatchSettlement.Refused (batchSettlement : BatchSettlement) : Prop :=
  batchSettlement.walletAddresses.length ≠ batchSettlement.walletTradeLists.length ∨
    (∃ list ∈ batchSettlement.tokenAdjustmentLists, ∃ decrement ∈ list.decrements,
      ¬batchSettlement.HasWallet decrement) ∨
    ∃ list ∈ batchSettlement.tokenAdjustmentLists, amountTotal list.credits ≠ amountTotal list.debits

def tradeHashesAt (batchSettlement : BatchSettlement) (adjustment : Adjustment) : List Bytes32 :=
  (batchSettlement.walletTradeLists.getD adjustment.walletIndex.toNat ⟨[]⟩).tradeHashes

/-- The report on a decrement, if its wallet cannot pay it. -/
def failure (balances : Balances) (batchSettlement : BatchSettlement) (token : Address)
    (decrement : Adjustment) : List SettlementEvent :=
  if decrement.amount > balances (walletAt batchSettlement decrement) token then
    [.settlementFailed (walletAt batchSettlement decrement) token (tradeHashesAt batchSettlement decrement)
      decrement.amount (balances (walletAt batchSettlement decrement) token)]
  else []

/-- The reports on a batch, in its order. -/
def BatchSettlement.failures (balances : Balances) (batchSettlement : BatchSettlement) : List SettlementEvent :=
  batchSettlement.tokenAdjustmentLists.flatMap fun list =>
    list.decrements.flatMap (failure balances batchSettlement list.token)

/-- No sum of a list leaves `int256`: the running sum is highest once the increments are added. -/
def BatchSettlement.SumsInRange (batchSettlement : BatchSettlement) : Prop :=
  ∀ list ∈ batchSettlement.tokenAdjustmentLists, amountTotal list.credits < 2 ^ 255

/-- The hash of the data when nothing is reported. -/
def BatchSettlement.preparedHash (host : Host) (balances : Balances) (batchSettlement : BatchSettlement)
    (data : Bytes) : Bytes32 :=
  if batchSettlement.failures balances = [] then host.keccak256 data else 0

/-! ### The checking loops -/

theorem isEmpty_append {α : Type} (first second : List α) :
    (first ++ second).isEmpty = (first.isEmpty && second.isEmpty) := by
  cases first <;> rfl

section Checking

variable {balances : Balances} {batchSettlement : BatchSettlement} {token : Address}

theorem int256_of_range {value : Int} (hlow : -2 ^ 255 ≤ value) (hhigh : value < 2 ^ 255) :
    int256 value = .ok value := by
  rw [int256, CheckedWord.signed, if_pos ⟨hlow, hhigh⟩]
  rfl

theorem toInt_of_below {amount : Uint256} (h : amount.toNat < 2 ^ 255) : amount.toInt = amount.toNat := by
  have hnegative : ¬CheckedWord.Negative amount := by
    intro hlarge
    have hle : 2 ^ 256 ≤ 2 * amount.toNat := hlarge
    omega
  rw [CheckedWord.toInt_eq, if_neg hnegative, Int.sub_zero]

theorem verifyIncrements_eq {increments : List Adjustment} {netAmount : Nat}
    (hsum : netAmount + amountTotal (increments.map Adjustment.amount) < 2 ^ 255) :
    increments.foldlM verifyIncrement (netAmount : Int) =
      .ok ((netAmount + amountTotal (increments.map Adjustment.amount) : Nat) : Int) := by
  induction increments generalizing netAmount with
  | nil => rfl
  | cons increment increments ih =>
      have htotal : amountTotal ((increment :: increments).map Adjustment.amount) =
          increment.amount.toNat + amountTotal (increments.map Adjustment.amount) := rfl
      rw [htotal, ← Nat.add_assoc] at hsum ⊢
      have hnext : verifyIncrement netAmount increment =
          .ok ((netAmount + increment.amount.toNat : Nat) : Int) := by
        rw [verifyIncrement, toInt_of_below (by omega), ← Int.natCast_add]
        exact int256_of_range (by omega) (by omega)
      rw [List.foldlM_cons, hnext]
      exact ih hsum

theorem tradeList_eq {decrement : Adjustment} (hwallet : batchSettlement.HasWallet decrement)
    (hlengths : batchSettlement.walletAddresses.length = batchSettlement.walletTradeLists.length) :
    ∃ tradeList, elementAt batchSettlement.walletTradeLists decrement.walletIndex.toNat = .ok tradeList ∧
      tradeList.tradeHashes = tradeHashesAt batchSettlement decrement := by
  rw [BatchSettlement.HasWallet, hlengths] at hwallet
  obtain ⟨tradeList, htradeList⟩ := elementAt_isOk.mpr hwallet
  refine ⟨tradeList, htradeList, ?_⟩
  rw [tradeHashesAt, List.getD_eq_getElem?_getD, orRevert_eq_ok.mp htradeList, Option.getD_some]

theorem verifyDecrement_eq {verification : Verification} {decrement : Adjustment}
    (hlengths : batchSettlement.walletAddresses.length = batchSettlement.walletTradeLists.length)
    (hwallet : batchSettlement.HasWallet decrement) (hbelow : decrement.amount.toNat < 2 ^ 255)
    (hcovered : (decrement.amount.toNat : Int) ≤ verification.netAmount)
    (hhigh : verification.netAmount < 2 ^ 255) :
    verifyDecrement balances batchSettlement token verification decrement = .ok {
      netAmount := verification.netAmount - decrement.amount.toNat
      batchSucceeded := verification.batchSucceeded &&
        (failure balances batchSettlement token decrement).isEmpty
      log := verification.log ++ failure balances batchSettlement token decrement } := by
  have hnet : int256 (verification.netAmount - decrement.amount.toInt) =
      .ok (verification.netAmount - decrement.amount.toNat) := by
    rw [toInt_of_below hbelow]
    exact int256_of_range (by omega) (by omega)
  obtain ⟨wallet, haddress⟩ := elementAt_isOk.mpr hwallet
  obtain ⟨tradeList, htradeList, hhashes⟩ := tradeList_eq hwallet hlengths
  refine bind_eq_ok.mpr ⟨_, hnet, bind_eq_ok.mpr ⟨wallet, haddress, ?_⟩⟩
  rw [failure, walletAt_eq haddress]
  by_cases hshort : decrement.amount > balances wallet token
  · rw [if_pos hshort, if_pos hshort, ← hhashes]
    refine bind_eq_ok.mpr ⟨tradeList, htradeList, ?_⟩
    rw [List.isEmpty_cons, Bool.and_false]
    rfl
  · rw [if_neg hshort, if_neg hshort, List.append_nil, List.isEmpty_nil, Bool.and_true]
    rfl

theorem verifyDecrements_eq {decrements : List Adjustment} {verification : Verification}
    (hlengths : batchSettlement.walletAddresses.length = batchSettlement.walletTradeLists.length)
    (hwallets : ∀ decrement ∈ decrements, batchSettlement.HasWallet decrement)
    (hbelow : ∀ decrement ∈ decrements, decrement.amount.toNat < 2 ^ 255)
    (hcovered : (amountTotal (decrements.map Adjustment.amount) : Int) ≤ verification.netAmount)
    (hhigh : verification.netAmount < 2 ^ 255) :
    decrements.foldlM (verifyDecrement balances batchSettlement token) verification = .ok {
      netAmount := verification.netAmount - amountTotal (decrements.map Adjustment.amount)
      batchSucceeded := verification.batchSucceeded &&
        (decrements.flatMap (failure balances batchSettlement token)).isEmpty
      log := verification.log ++ decrements.flatMap (failure balances batchSettlement token) } := by
  induction decrements generalizing verification with
  | nil => simp [amountTotal, pure, Except.pure]
  | cons decrement decrements ih =>
      have htotal : amountTotal ((decrement :: decrements).map Adjustment.amount) =
          decrement.amount.toNat + amountTotal (decrements.map Adjustment.amount) := rfl
      rw [htotal] at hcovered ⊢
      obtain ⟨hwallet, hwallets⟩ := List.forall_mem_cons.mp hwallets
      obtain ⟨hfirst, hbelow⟩ := List.forall_mem_cons.mp hbelow
      rw [List.foldlM_cons, verifyDecrement_eq hlengths hwallet hfirst (by omega) hhigh]
      refine (ih hwallets hbelow ?_ ?_).trans ?_
      · show (amountTotal (decrements.map Adjustment.amount) : Int) ≤
          verification.netAmount - decrement.amount.toNat
        omega
      · show verification.netAmount - decrement.amount.toNat < 2 ^ 255
        omega
      · simp only [List.flatMap_cons, isEmpty_append, Bool.and_assoc, List.append_assoc]
        congr 2
        omega

/-- The loop over a list that nets and whose decrements have their wallets. -/
theorem verifyTokenAdjustmentList_eq {list : TokenAdjustmentList} {verification : Verification}
    (hlengths : batchSettlement.walletAddresses.length = batchSettlement.walletTradeLists.length)
    (hwallets : ∀ decrement ∈ list.decrements, batchSettlement.HasWallet decrement)
    (hsum : amountTotal list.credits < 2 ^ 255) (hnets : amountTotal list.credits = amountTotal list.debits) :
    verifyTokenAdjustmentList balances batchSettlement verification list = .ok {
      netAmount := 0
      batchSucceeded := verification.batchSucceeded &&
        (list.decrements.flatMap (failure balances batchSettlement list.token)).isEmpty
      log := verification.log ++ list.decrements.flatMap (failure balances batchSettlement list.token) } := by
  have hcredits : amountTotal list.credits =
      list.feeAmount.toNat + amountTotal (list.increments.map Adjustment.amount) := rfl
  have hdebits : amountTotal list.debits = amountTotal (list.decrements.map Adjustment.amount) := rfl
  have hbelow : ∀ decrement ∈ list.decrements, decrement.amount.toNat < 2 ^ 255 := by
    intro decrement hdecrement
    have hmem : decrement.amount.toNat ∈ list.debits.map BitVec.toNat :=
      List.mem_map_of_mem (List.mem_map_of_mem hdecrement)
    have hle : decrement.amount.toNat ≤ amountTotal list.debits := List.le_sum_of_mem hmem
    omega
  have hincrements : list.increments.foldlM verifyIncrement list.feeAmount.toInt =
      .ok (amountTotal list.credits : Int) := by
    rw [toInt_of_below (by omega), hcredits]
    exact verifyIncrements_eq (by omega)
  refine bind_eq_ok.mpr ⟨_, hincrements, bind_eq_ok.mpr ⟨_, verifyDecrements_eq hlengths hwallets hbelow ?_ ?_, ?_⟩⟩
  · show (amountTotal (list.decrements.map Adjustment.amount) : Int) ≤ amountTotal list.credits
    omega
  · show (amountTotal list.credits : Int) < 2 ^ 255
    omega
  have hzero : (amountTotal list.credits : Int) - amountTotal (list.decrements.map Adjustment.amount) = 0 := by
    omega
  simp only [hzero]
  rfl

theorem verified_eq {lists : List TokenAdjustmentList} {verification : Verification}
    (hlengths : batchSettlement.walletAddresses.length = batchSettlement.walletTradeLists.length)
    (hzero : verification.netAmount = 0)
    (hlists : ∀ list ∈ lists, (∀ decrement ∈ list.decrements, batchSettlement.HasWallet decrement) ∧
      amountTotal list.credits < 2 ^ 255 ∧ amountTotal list.credits = amountTotal list.debits) :
    lists.foldlM (verifyTokenAdjustmentList balances batchSettlement) verification = .ok {
      netAmount := 0
      batchSucceeded := verification.batchSucceeded && (lists.flatMap fun list =>
        list.decrements.flatMap (failure balances batchSettlement list.token)).isEmpty
      log := verification.log ++ lists.flatMap fun list =>
        list.decrements.flatMap (failure balances batchSettlement list.token) } := by
  induction lists generalizing verification with
  | nil => simp [pure, Except.pure, ← hzero]
  | cons list lists ih =>
      obtain ⟨⟨hwallets, hsum, hnets⟩, hlists⟩ := List.forall_mem_cons.mp hlists
      rw [List.foldlM_cons, verifyTokenAdjustmentList_eq hlengths hwallets hsum hnets]
      refine (ih rfl hlists).trans ?_
      simp only [List.flatMap_cons, isEmpty_append, Bool.and_assoc, List.append_assoc]

end Checking

/-! ### The preparation -/

theorem not_refused {batchSettlement : BatchSettlement} (h : ¬batchSettlement.Refused) :
    batchSettlement.walletAddresses.length = batchSettlement.walletTradeLists.length ∧
      ∀ list ∈ batchSettlement.tokenAdjustmentLists,
        (∀ decrement ∈ list.decrements, batchSettlement.HasWallet decrement) ∧
          amountTotal list.credits = amountTotal list.debits := by
  rw [BatchSettlement.Refused, not_or, not_or] at h
  obtain ⟨hlengths, hwallets, hnets⟩ := h
  refine ⟨not_not.mp hlengths, fun list hlist => ⟨fun decrement hdecrement => ?_, ?_⟩⟩
  · exact not_not.mp fun hmissing => hwallets ⟨list, hlist, decrement, hdecrement, hmissing⟩
  · exact not_not.mp fun hunbalanced => hnets ⟨list, hlist, hunbalanced⟩

/-- A batch that is not refused goes through, with a report for each decrement that cannot be paid. -/
theorem prepareSettlementBatch_eq {host : Host} {sender : Address} {state : SettlementState} {data : Bytes}
    {batchSettlement : BatchSettlement} (hsender : sender = state.submitter) (hidle : state.batchHash = 0)
    (hdecode : host.decodeBatchSettlement data = some batchSettlement)
    (hsums : batchSettlement.SumsInRange) (haccepted : ¬batchSettlement.Refused) :
    prepareSettlementBatch host sender state data =
      .ok ({ state with batchHash := batchSettlement.preparedHash host state.balances data },
        batchSettlement.failures state.balances) := by
  obtain ⟨hlengths, hlists⟩ := not_refused haccepted
  have hverified : batchSettlement.tokenAdjustmentLists.foldlM
      (verifyTokenAdjustmentList state.balances batchSettlement)
      { netAmount := 0, batchSucceeded := true, log := [] } = .ok {
        netAmount := 0
        batchSucceeded := (batchSettlement.failures state.balances).isEmpty
        log := batchSettlement.failures state.balances } :=
    verified_eq hlengths rfl fun list hlist => ⟨(hlists list hlist).1, hsums list hlist, (hlists list hlist).2⟩
  refine bind_eq_ok.mpr ⟨(), require_eq_ok.mpr hsender, bind_eq_ok.mpr ⟨(), require_eq_ok.mpr hidle, ?_⟩⟩
  refine bind_eq_ok.mpr ⟨batchSettlement, orRevert_eq_ok.mpr hdecode, ?_⟩
  refine bind_eq_ok.mpr ⟨(), require_eq_ok.mpr hlengths, bind_eq_ok.mpr ⟨_, hverified, ?_⟩⟩
  rw [BatchSettlement.preparedHash]
  by_cases hnone : batchSettlement.failures state.balances = []
  · rw [if_pos hnone, hnone]
    rfl
  · have hsome : (batchSettlement.failures state.balances).isEmpty = false :=
      List.isEmpty_eq_false_iff.mpr hnone
    rw [if_neg hnone, hsome, ← hidle]
    rfl

/-- A refused batch makes the call revert. -/
theorem not_refused_of_prepared {host : Host} {sender : Address} {state next : SettlementState} {data : Bytes}
    {log : List SettlementEvent} {batchSettlement : BatchSettlement}
    (hdecode : host.decodeBatchSettlement data = some batchSettlement)
    (hamounts : Exchange.AmountsBelow batchSettlement)
    (h : prepareSettlementBatch host sender state data = .ok (next, log)) : ¬batchSettlement.Refused := by
  obtain ⟨-, -, prepared, verification, hprepared, hlengths, hverified, -, -⟩ := prepareSettlementBatch_cases h
  obtain rfl := Option.some.inj (hprepared.symm.trans hdecode)
  have hnets : prepared.Nets := (nets_iff_evenlySigned hverified).mpr (Exchange.nets_of_amountsBelow hamounts)
  rintro (hdiffer | ⟨list, hlist, decrement, hdecrement, hmissing⟩ | ⟨list, hlist, hunbalanced⟩)
  · exact hdiffer hlengths
  · exact hmissing (verified_hasWallet hverified list hlist decrement hdecrement)
  · exact hunbalanced (hnets list hlist)

theorem prepareSettlementBatch_reverts_iff {host : Host} {sender : Address} {state : SettlementState}
    {data : Bytes} {batchSettlement : BatchSettlement} (hsender : sender = state.submitter)
    (hidle : state.batchHash = 0) (hdecode : host.decodeBatchSettlement data = some batchSettlement)
    (hamounts : Exchange.AmountsBelow batchSettlement) (hsums : batchSettlement.SumsInRange) :
    (∃ revert, prepareSettlementBatch host sender state data = .error revert) ↔ batchSettlement.Refused := by
  constructor
  · rintro ⟨revert, hrevert⟩
    by_contra haccepted
    rw [prepareSettlementBatch_eq hsender hidle hdecode hsums haccepted] at hrevert
    cases hrevert
  · intro hrefused
    cases hprepare : prepareSettlementBatch host sender state data with
    | error revert => exact ⟨revert, rfl⟩
    | ok result => exact absurd hrefused (not_refused_of_prepared hdecode hamounts hprepare)

/-- What the preparation of a batch does in either contract, from the batch and the balances. -/
theorem prepareSettlementBatch_exact (data : Bytes) (batchSettlement : BatchSettlement)
    (hamounts : Exchange.AmountsBelow batchSettlement) (hsums : batchSettlement.SumsInRange) :
    (∀ (E : Type) (host : Exchange.Host) (context : Exchange.Context) (world : Exchange.World E),
      context.sender = world.state.submitter → world.state.batchHash = 0 →
      host.decodeBatchSettlement data = some batchSettlement →
      ((∃ revert, Exchange.prepareSettlementBatch host context world data = .error revert) ↔
          batchSettlement.Refused) ∧
        (¬batchSettlement.Refused → Exchange.prepareSettlementBatch host context world data = .ok { world with
          state := { world.state with
            batchHash := batchSettlement.preparedHash host.toHost world.state.balances data }
          log := world.log ++ (batchSettlement.failures world.state.balances).map .settlement })) ∧
    (∀ (host : CoinProxy.Host) (context : CoinProxy.Context) (world : CoinProxy.World),
      context.sender = world.state.submitter → world.state.batchHash = 0 →
      host.decodeBatchSettlement data = some batchSettlement →
      ((∃ revert, CoinProxy.prepareSettlementBatch host context world data = .error revert) ↔
          batchSettlement.Refused) ∧
        (¬batchSettlement.Refused → CoinProxy.prepareSettlementBatch host context world data = .ok { world with
          state := { world.state with
            batchHash := batchSettlement.preparedHash host.toHost world.state.balances data }
          log := world.log ++ (batchSettlement.failures world.state.balances).map .settlement })) := by
  refine ⟨?_, ?_⟩
  · intro E host context world hsender hidle hdecode
    refine ⟨?_, fun haccepted => ?_⟩
    · rw [← prepareSettlementBatch_reverts_iff hsender hidle hdecode hamounts hsums]
      exact bind_pure_eq_error
    · exact bind_eq_ok.mpr ⟨_, prepareSettlementBatch_eq hsender hidle hdecode hsums haccepted, rfl⟩
  · intro host context world hsender hidle hdecode
    refine ⟨?_, fun haccepted => ?_⟩
    · rw [← prepareSettlementBatch_reverts_iff hsender hidle hdecode hamounts hsums]
      exact bind_pure_eq_error
    · exact bind_eq_ok.mpr ⟨_, prepareSettlementBatch_eq hsender hidle hdecode hsums haccepted, rfl⟩

/-! The trade of five units is prepared where its seller holds them, and reported where not. -/

theorem evenTrade_accepted : ¬evenTrade.Refused := by
  rintro (hlength | ⟨list, hlist, decrement, hdecrement, hmissing⟩ | ⟨list, hlist, hnets⟩)
  · exact hlength rfl
  · obtain rfl := List.mem_singleton.mp hlist
    obtain rfl := List.mem_singleton.mp hdecrement
    exact hmissing (by decide)
  · obtain rfl := List.mem_singleton.mp hlist
    exact hnets (by decide)

theorem evenTrade_prepares : ¬evenTrade.Refused ∧
    ((∃ revert, Exchange.prepareSettlementBatch (exchangeHost evenHost) ⟨0x5b, 1, 0x0e⟩
        (exchangeWorld fundedBalances) evenData = .error revert) ↔ evenTrade.Refused) ∧
      ((∃ revert, CoinProxy.prepareSettlementBatch (coinProxyHost evenHost) ⟨0x5b, 0x0e⟩
        (coinProxyWorld fundedBalances) evenData = .error revert) ↔ evenTrade.Refused) := by
  have hsums : evenTrade.SumsInRange := by
    intro list hlist
    obtain rfl := List.mem_singleton.mp hlist
    decide +kernel
  have hboth := prepareSettlementBatch_exact evenData evenTrade Exchange.evenTrade_amountsBelow hsums
  exact ⟨evenTrade_accepted, (hboth.1 Unit (exchangeHost evenHost) ⟨0x5b, 1, 0x0e⟩ (exchangeWorld fundedBalances) rfl rfl
      (Host.decode_knowing _ _ _)).1,
    (hboth.2 (coinProxyHost evenHost) ⟨0x5b, 0x0e⟩ (coinProxyWorld fundedBalances) rfl rfl
      (Host.decode_knowing _ _ _)).1⟩

example : evenTrade.failures fundedBalances = [] ∧
    evenTrade.failures (fun _ _ => 0) = [.settlementFailed 0xa1 0x70 [] 5 0] := by
  decide +kernel

end Chainring.Evm

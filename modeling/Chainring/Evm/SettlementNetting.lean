import Chainring.Evm.CoinProxy
import Chainring.Evm.Exchange

/-! What a settlement does to the totals of the tokens. The check of a batch reads its amounts as
`int256`, while the balances move by the amounts themselves: the two agree on a list of adjustments
exactly when as many of its credits as of its debits are `2 ^ 255` or more. -/

namespace Chainring.Evm

open Ledger (Entry)
open Balances (slots tokenSlots wordModulus)
open CheckedWord (negatives bind_eq_ok exists_eq_ok)

/-- The credits of each list are its debits, as natural numbers. -/
def BatchSettlement.Nets (batchSettlement : BatchSettlement) : Prop :=
  ∀ list ∈ batchSettlement.tokenAdjustmentLists, amountTotal list.credits = amountTotal list.debits

/-- Each list has as many credits as debits that `int256` reads as negative. -/
def BatchSettlement.EvenlySigned (batchSettlement : BatchSettlement) : Prop :=
  ∀ list ∈ batchSettlement.tokenAdjustmentLists, negatives list.credits = negatives list.debits

instance (batchSettlement : BatchSettlement) : Decidable batchSettlement.Nets :=
  inferInstanceAs (Decidable (∀ _ ∈ _, _))

instance (batchSettlement : BatchSettlement) : Decidable batchSettlement.EvenlySigned :=
  inferInstanceAs (Decidable (∀ _ ∈ _, _))

theorem amountTotal_eq_iff {credits debits : List Uint256}
    (h : signedTotal credits = signedTotal debits) :
    amountTotal credits = amountTotal debits ↔ negatives credits = negatives debits := by
  have hcredits := CheckedWord.sum_toInt credits
  have hdebits := CheckedWord.sum_toInt debits
  simp only [signedTotal, amountTotal] at h ⊢
  rw [hcredits, hdebits] at h
  omega

theorem nets_iff_evenlySigned {balances : Balances} {batchSettlement : BatchSettlement}
    {verification : Verification} (h : Verified balances batchSettlement verification) :
    batchSettlement.Nets ↔ batchSettlement.EvenlySigned :=
  forall₂_congr fun list hlist => amountTotal_eq_iff (verified_nets h list hlist)

/-! ### The totals of a submission -/

def tokenCredits (batchSettlement : BatchSettlement) (token : Address) : Nat :=
  (batchSettlement.tokenAdjustmentLists.map fun list =>
    if list.token = token then amountTotal list.credits else 0).sum

def tokenDebits (batchSettlement : BatchSettlement) (token : Address) : Nat :=
  (batchSettlement.tokenAdjustmentLists.map fun list =>
    if list.token = token then amountTotal list.debits else 0).sum

theorem creditIn_entries (batchSettlement : BatchSettlement) (feeAccount token : Address)
    (list : TokenAdjustmentList) :
    ((list.entries batchSettlement feeAccount).map (Entry.creditIn (tokenSlots token))).sum =
      if list.token = token then amountTotal list.credits else 0 := by
  have hfee : ((if list.feeAmount ≠ 0 then
      [Entry.credit (feeAccount, list.token) list.feeAmount.toNat] else []).map
        (Entry.creditIn (tokenSlots token))).sum =
      if list.token = token then list.feeAmount.toNat else 0 := by
    by_cases hzero : list.feeAmount = 0
    · rw [if_neg (not_not.mpr hzero), hzero]
      simp
    · rw [if_pos hzero]
      simp
  rw [TokenAdjustmentList.entries, List.map_append, List.sum_append, hfee]
  by_cases htoken : list.token = token
  · simp [TokenAdjustmentList.credits, amountTotal, Function.comp_def, htoken, Nat.add_comm]
  · simp [Function.comp_def, htoken]

theorem debitIn_entries (batchSettlement : BatchSettlement) (feeAccount token : Address)
    (list : TokenAdjustmentList) :
    ((list.entries batchSettlement feeAccount).map (Entry.debitIn (tokenSlots token))).sum =
      if list.token = token then amountTotal list.debits else 0 := by
  have hfee : ((if list.feeAmount ≠ 0 then
      [Entry.credit (feeAccount, list.token) list.feeAmount.toNat] else []).map
        (Entry.debitIn (tokenSlots token))).sum = 0 := by
    split <;> rfl
  rw [TokenAdjustmentList.entries, List.map_append, List.sum_append, hfee]
  by_cases htoken : list.token = token
  · simp [TokenAdjustmentList.debits, amountTotal, Function.comp_def, htoken]
  · simp [Function.comp_def, htoken]

/-- A submission moves the total of a token by its credits less its debits in the batch. -/
theorem submitSettlementBatch_total {host : Host} {sender : Address} {state next : SettlementState}
    {data : Bytes} {log : List SettlementEvent} {batchSettlement : BatchSettlement}
    (hsubmit : submitSettlementBatch host sender state data = .ok (next, log))
    (hdecode : host.decodeBatchSettlement data = some batchSettlement) (token : Address) :
    state.balances.tokenTotal token + tokenCredits batchSettlement token =
      next.balances.tokenTotal token + tokenDebits batchSettlement token := by
  obtain ⟨-, -, -, submitted, balances, hsubmitted, happlied, -, rfl⟩ :=
    submitSettlementBatch_cases hsubmit
  obtain rfl := Option.some.inj (hsubmitted.symm.trans hdecode)
  have hrun := Ledger.run_of_foldlM .reverts wordModulus
    (fun _ _ _ => run_applyTokenAdjustmentList) happlied
  have htotal := Balances.tokenTotal_of_run hrun token
  simp only [Ledger.sum_map_flatMap, creditIn_entries, debitIn_entries] at htotal
  exact htotal

theorem tokenCredits_eq_tokenDebits {batchSettlement : BatchSettlement} (h : batchSettlement.Nets)
    (token : Address) : tokenCredits batchSettlement token = tokenDebits batchSettlement token := by
  refine congrArg List.sum (List.map_congr_left fun list hlist => ?_)
  split
  · exact h list hlist
  · rfl

theorem prepared_nets_iff {host : Host} {sender : Address} {state prepared : SettlementState}
    {data : Bytes} {log : List SettlementEvent} {batchSettlement : BatchSettlement}
    (hprepare : prepareSettlementBatch host sender state data = .ok (prepared, log))
    (hdecode : host.decodeBatchSettlement data = some batchSettlement) :
    batchSettlement.Nets ↔ batchSettlement.EvenlySigned := by
  obtain ⟨-, -, verified, verification, hverified, -, hloop, -, -⟩ :=
    prepareSettlementBatch_cases hprepare
  obtain rfl := Option.some.inj (hverified.symm.trans hdecode)
  exact nets_iff_evenlySigned hloop

theorem tokenTotal_of_nets {host : Host} {sender : Address} {state next : SettlementState}
    {data : Bytes} {log : List SettlementEvent} {batchSettlement : BatchSettlement}
    (hsubmit : submitSettlementBatch host sender state data = .ok (next, log))
    (hdecode : host.decodeBatchSettlement data = some batchSettlement)
    (hnets : batchSettlement.Nets) (token : Address) :
    next.balances.tokenTotal token = state.balances.tokenTotal token := by
  have htotal := submitSettlementBatch_total hsubmit hdecode token
  have hequal := tokenCredits_eq_tokenDebits hnets token
  omega

/-! ### Both contracts -/

/-- In either contract the lists of a batch whose preparation set the hash all net, and its
submissions leave the total of every token alone, exactly when the lists are evenly signed. -/
theorem prepared_batch_exact_iff (data : Bytes) (batchSettlement : BatchSettlement) :
    (∀ (E : Type) (host : Exchange.Host) (context : Exchange.Context)
      (world prepared : Exchange.World E),
      Exchange.prepareSettlementBatch host context world data = .ok prepared →
      prepared.state.batchHash ≠ 0 →
      host.decodeBatchSettlement data = some batchSettlement →
      ((batchSettlement.Nets ∧ ∀ (context : Exchange.Context) (before after : Exchange.World E),
          Exchange.submitSettlementBatch host context before data = .ok after → ∀ token,
          after.state.balances.tokenTotal token = before.state.balances.tokenTotal token) ↔
        batchSettlement.EvenlySigned)) ∧
    (∀ (host : CoinProxy.Host) (context : CoinProxy.Context) (world prepared : CoinProxy.World),
      CoinProxy.prepareSettlementBatch host context world data = .ok prepared →
      prepared.state.batchHash ≠ 0 →
      host.decodeBatchSettlement data = some batchSettlement →
      ((batchSettlement.Nets ∧ ∀ (context : CoinProxy.Context) (before after : CoinProxy.World),
          CoinProxy.submitSettlementBatch host context before data = .ok after → ∀ token,
          after.state.balances.tokenTotal token = before.state.balances.tokenTotal token) ↔
        batchSettlement.EvenlySigned)) := by
  refine ⟨?_, ?_⟩
  · intro E host context world prepared hprepare _ hdecode
    obtain ⟨settlement, log, hshared, -⟩ := Exchange.prepareSettlementBatch_cases hprepare
    have hiff := prepared_nets_iff hshared hdecode
    refine ⟨fun h => hiff.mp h.1, fun heven => ⟨hiff.mpr heven, ?_⟩⟩
    intro context before after hsubmit token
    obtain ⟨settled, events, hsubmitted, rfl⟩ := Exchange.submitSettlementBatch_cases hsubmit
    exact tokenTotal_of_nets hsubmitted hdecode (hiff.mpr heven) token
  · intro host context world prepared hprepare _ hdecode
    obtain ⟨settlement, log, hshared, -⟩ := CoinProxy.prepareSettlementBatch_cases hprepare
    have hiff := prepared_nets_iff hshared hdecode
    refine ⟨fun h => hiff.mp h.1, fun heven => ⟨hiff.mpr heven, ?_⟩⟩
    intro context before after hsubmit token
    obtain ⟨settled, events, hsubmitted, rfl⟩ := CoinProxy.submitSettlementBatch_cases hsubmit
    exact tokenTotal_of_nets hsubmitted hdecode (hiff.mpr heven) token

/-! A trade of five units between two wallets, and a batch whose two credits `int256` reads as one
less than zero and one more. -/

def evenTrade : BatchSettlement where
  walletAddresses := [0xa1, 0xb2]
  walletTradeLists := [⟨[]⟩, ⟨[]⟩]
  tokenAdjustmentLists := [
    { token := 0x70
      increments := [⟨1, 5⟩]
      decrements := [⟨0, 5⟩]
      feeAmount := 0 }]

def evenData : Bytes :=
  [0x20, 0x60, 0xc0, 0x1a0, 2, 0xa1, 0xb2, 2, 0x40, 0x80, 0x20, 0, 0x20, 0, 1, 0x20, 0x70, 0x80, 0xe0,
    0, 1, 1, 5, 1, 0, 5].flatMap Exchange.abiWord

def evenHost : Host :=
  .knowing evenData 0xef31cc2db62bdbd5b577c649509cabe709edb688278b78e707ddcd6acc382f0b evenTrade

def wrappedTrade : BatchSettlement where
  walletAddresses := [0xa1, 0xb2]
  walletTradeLists := [⟨[]⟩, ⟨[]⟩]
  tokenAdjustmentLists := [
    { token := 0x70
      increments := [⟨0, 2 ^ 256 - 1⟩, ⟨1, 1⟩]
      decrements := []
      feeAmount := 0 }]

def wrappedData : Bytes :=
  [0x20, 0x60, 0xc0, 0x1a0, 2, 0xa1, 0xb2, 2, 0x40, 0x80, 0x20, 0, 0x20, 0, 1, 0x20, 0x70, 0x80,
    0x120, 0, 2, 0, 2 ^ 256 - 1, 1, 1, 0].flatMap Exchange.abiWord

def wrappedHost : Host :=
  .knowing wrappedData 0xe254c77dec52de7591e0119094ae99748ff0e05c55345e5aeea673c254af80e5 wrappedTrade

def exchangeHost (host : Host) : Exchange.Host where
  toHost := host
  decodeWithdrawWithSignature := fun _ => none
  hashTypedDataV4 := id
  recover := fun _ _ => none

def coinProxyHost (host : Host) : CoinProxy.Host where
  toHost := host
  decodeBatchDepositAndWithdrawal := fun _ => none
  decodeBatchWithdrawalRollback := fun _ => none

/-- The first wallet holds five units of the token. -/
def fundedBalances : Balances := Balances.set (fun _ _ => 0) 0xa1 0x70 5

def exchangeWorld (balances : Balances) : Exchange.World Unit where
  state := { Exchange.initializeExchange 0x5b 0xfe 86400 with balances }
  env := ()
  log := []

def coinProxyWorld (balances : Balances) : CoinProxy.World where
  state := { CoinProxy.initializeCoinProxy 0x5b 0xfe with balances }
  log := []

theorem evenTrade_exact_iff : evenTrade.EvenlySigned ∧
    ((evenTrade.Nets ∧ ∀ (context : Exchange.Context) (before after : Exchange.World Unit),
        Exchange.submitSettlementBatch (exchangeHost evenHost) context before evenData = .ok after →
        ∀ token, after.state.balances.tokenTotal token = before.state.balances.tokenTotal token) ↔
      evenTrade.EvenlySigned) ∧
    ((evenTrade.Nets ∧ ∀ (context : CoinProxy.Context) (before after : CoinProxy.World),
        CoinProxy.submitSettlementBatch (coinProxyHost evenHost) context before evenData = .ok after →
        ∀ token, after.state.balances.tokenTotal token = before.state.balances.tokenTotal token) ↔
      evenTrade.EvenlySigned) := by
  have hexchange : (Exchange.prepareSettlementBatch (exchangeHost evenHost) ⟨0x5b, 1, 0x0e⟩
      (exchangeWorld fundedBalances) evenData).toOption.map (fun world => world.state.batchHash != 0) =
        some true := by
    decide +kernel
  have hcoinProxy : (CoinProxy.prepareSettlementBatch (coinProxyHost evenHost) ⟨0x5b, 0x0e⟩
      (coinProxyWorld fundedBalances) evenData).toOption.map (fun world => world.state.batchHash != 0) =
        some true := by
    decide +kernel
  obtain ⟨prepared, hprepared, hset⟩ := exists_eq_ok hexchange
  obtain ⟨prepared', hprepared', hset'⟩ := exists_eq_ok hcoinProxy
  exact ⟨by decide, (prepared_batch_exact_iff evenData evenTrade).1 Unit _ _ _ prepared hprepared
      (bne_iff_ne.mp hset) (Host.decode_knowing _ _ _),
    (prepared_batch_exact_iff evenData evenTrade).2 _ _ _ prepared' hprepared'
      (bne_iff_ne.mp hset') (Host.decode_knowing _ _ _)⟩

/-- Both contracts prepare and submit the second batch, and create `2 ^ 256` units of its token. -/
theorem wrappedTrade_settles_inexactly :
    ¬wrappedTrade.Nets ∧
    (∃ prepared settled, Exchange.prepareSettlementBatch (exchangeHost wrappedHost) ⟨0x5b, 1, 0x0e⟩
        (exchangeWorld fun _ _ => 0) wrappedData = .ok prepared ∧ prepared.state.batchHash ≠ 0 ∧
      Exchange.submitSettlementBatch (exchangeHost wrappedHost) ⟨0x5b, 2, 0x0e⟩ prepared wrappedData =
        .ok settled ∧
      settled.state.balances.tokenTotal 0x70 = prepared.state.balances.tokenTotal 0x70 + 2 ^ 256) ∧
    (∃ prepared settled, CoinProxy.prepareSettlementBatch (coinProxyHost wrappedHost) ⟨0x5b, 0x0e⟩
        (coinProxyWorld fun _ _ => 0) wrappedData = .ok prepared ∧ prepared.state.batchHash ≠ 0 ∧
      CoinProxy.submitSettlementBatch (coinProxyHost wrappedHost) ⟨0x5b, 0x0e⟩ prepared wrappedData =
        .ok settled ∧
      settled.state.balances.tokenTotal 0x70 = prepared.state.balances.tokenTotal 0x70 + 2 ^ 256) := by
  have hexchange : ((do
      let prepared ← Exchange.prepareSettlementBatch (exchangeHost wrappedHost) ⟨0x5b, 1, 0x0e⟩
        (exchangeWorld fun _ _ => 0) wrappedData
      let settled ← Exchange.submitSettlementBatch (exchangeHost wrappedHost) ⟨0x5b, 2, 0x0e⟩
        prepared wrappedData
      return (prepared, settled)) : Except Revert _).toOption.map
        (fun worlds => worlds.1.state.batchHash != 0) = some true := by
    decide +kernel
  have hcoinProxy : ((do
      let prepared ← CoinProxy.prepareSettlementBatch (coinProxyHost wrappedHost) ⟨0x5b, 0x0e⟩
        (coinProxyWorld fun _ _ => 0) wrappedData
      let settled ← CoinProxy.submitSettlementBatch (coinProxyHost wrappedHost) ⟨0x5b, 0x0e⟩
        prepared wrappedData
      return (prepared, settled)) : Except Revert _).toOption.map
        (fun worlds => worlds.1.state.batchHash != 0) = some true := by
    decide +kernel
  have hcredits : tokenCredits wrappedTrade 0x70 = 2 ^ 256 := by decide +kernel
  have hdebits : tokenDebits wrappedTrade 0x70 = 0 := by decide +kernel
  have hdecode : wrappedHost.decodeBatchSettlement wrappedData = some wrappedTrade :=
    Host.decode_knowing _ _ _
  refine ⟨by decide +kernel, ?_, ?_⟩
  · obtain ⟨worlds, hworlds, hset⟩ := exists_eq_ok hexchange
    obtain ⟨prepared, hprepared, hrest⟩ := bind_eq_ok.mp hworlds
    obtain ⟨settled, hsettled, hpair⟩ := bind_eq_ok.mp hrest
    cases hpair
    obtain ⟨settlement, log, hsubmitted, rfl⟩ := Exchange.submitSettlementBatch_cases hsettled
    refine ⟨prepared, _, hprepared, bne_iff_ne.mp hset, hsettled, ?_⟩
    have htotal := submitSettlementBatch_total hsubmitted hdecode 0x70
    rw [hcredits, hdebits, Nat.add_zero] at htotal
    exact htotal.symm
  · obtain ⟨worlds, hworlds, hset⟩ := exists_eq_ok hcoinProxy
    obtain ⟨prepared, hprepared, hrest⟩ := bind_eq_ok.mp hworlds
    obtain ⟨settled, hsettled, hpair⟩ := bind_eq_ok.mp hrest
    cases hpair
    obtain ⟨settlement, log, hsubmitted, rfl⟩ := CoinProxy.submitSettlementBatch_cases hsettled
    refine ⟨prepared, _, hprepared, bne_iff_ne.mp hset, hsettled, ?_⟩
    have htotal := submitSettlementBatch_total hsubmitted hdecode 0x70
    rw [hcredits, hdebits, Nat.add_zero] at htotal
    exact htotal.symm

end Chainring.Evm

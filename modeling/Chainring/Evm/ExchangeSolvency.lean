import Chainring.Evm.ExchangeRun
import Chainring.Evm.SettlementNetting
import Chainring.Evm.TokenBook

/-! The exchange owes no more of a token than it holds. Deposits bring in what they credit, a paid
withdrawal sends out what it debits less the fee it credits, and a settlement that goes through is
one whose preparation checked that it nets. -/

namespace Chainring.Evm.Exchange

open Ledger (Entry)
open Balances (tokenSlots)
open CheckedWord (bind_eq_ok negatives)

variable {E : Type}

/-- The balances of each token add up to no more than the contract holds of it. -/
def Solvent (tokens : Tokens E) (world : World E) : Prop :=
  ∀ token, world.state.balances.tokenTotal token ≤ tokens.holdings world.env token

/-- The step keeps solvency and touches no prepared batch. -/
def Keeps (tokens : Tokens E) (world next : World E) : Prop :=
  (Solvent tokens world → Solvent tokens next) ∧ next.state.batchHash = world.state.batchHash

/-- The amounts that `int256` reads as themselves. -/
def AmountsBelow (batchSettlement : BatchSettlement) : Prop :=
  ∀ list ∈ batchSettlement.tokenAdjustmentLists, ∀ amount ∈ list.credits ++ list.debits,
    amount.toNat < 2 ^ 255

/-- The settlement data of the calls of a run. -/
def settlementData (inputs : List (Input E)) : List Bytes :=
  inputs.filterMap fun
    | .call _ (.prepareSettlementBatch data) => some data
    | .call _ (.submitSettlementBatch data) => some data
    | _ => none

variable {host : Host} {tokens : Tokens E} {context : Context} {world next : World E}

/-! ### Calls that move tokens -/

theorem Keeps.refl : Keeps tokens world world := ⟨id, rfl⟩

theorem Keeps.trans {middle : World E} (first : Keeps tokens world middle)
    (second : Keeps tokens middle next) : Keeps tokens world next :=
  ⟨fun h => second.1 (first.1 h), second.2.trans first.2⟩

theorem receive_keeps (hexact : tokens.Exact) (hsender : context.sender ≠ tokens.self)
    {value : Uint256} (h : receive tokens context world value = .ok next) :
    Keeps tokens world next := by
  obtain ⟨env, henv, h⟩ := bind_eq_ok.mp h
  obtain ⟨balances, hbalances, h⟩ := bind_eq_ok.mp h
  cases h
  refine ⟨fun hsolvent token => ?_, rfl⟩
  have hholdings := hexact.payIn (orRevert_eq_ok.mp henv) hsender token
  have htotal := Balances.tokenTotal_increase hbalances token
  have hbefore := hsolvent token
  show balances.tokenTotal token ≤ tokens.holdings env token
  omega

theorem deposit_keeps (hexact : tokens.Exact) (hsender : context.sender ≠ tokens.self)
    {token : Address} {amount : Uint256} (h : deposit tokens context world token amount = .ok next) :
    Keeps tokens world next := by
  obtain ⟨env, henv, h⟩ := bind_eq_ok.mp h
  obtain ⟨balances, hbalances, h⟩ := bind_eq_ok.mp h
  cases h
  refine ⟨fun hsolvent other => ?_, rfl⟩
  have hholdings := hexact.transferFrom (orRevert_eq_ok.mp henv) hsender other
  have htotal := Balances.tokenTotal_increase hbalances other
  have hbefore := hsolvent other
  show balances.tokenTotal other ≤ tokens.holdings env other
  omega

/-- What a withdrawal sends out is covered by what it debits. -/
theorem Pays.keeps (hexact : tokens.Exact) {sequence : UInt64} {sender token : Address}
    {amount fee : Uint256} (h : Pays tokens world sequence sender token amount fee next) :
    Keeps tokens world next := by
  obtain ⟨balances, env, payout, -, hpayout, henv, hrun, rfl⟩ := h
  refine ⟨fun hsolvent other => ?_, rfl⟩
  have hholdings : tokens.holdings env other +
      (if token = other ∧ sender ≠ tokens.self then payout.toNat else 0) =
        tokens.holdings world.env other := by
    split at henv
    · next hnative =>
        rw [hnative]
        exact hexact.send henv other
    · exact hexact.transfer henv other
  have hcredit : ([Entry.debit (sender, token) amount.toNat,
      .credit (world.state.feeAccount, token) fee.toNat].map (Entry.creditIn (tokenSlots other))).sum =
        if token = other then fee.toNat else 0 := by
    simp
  have hdebit : ([Entry.debit (sender, token) amount.toNat,
      .credit (world.state.feeAccount, token) fee.toNat].map (Entry.debitIn (tokenSlots other))).sum =
        if token = other then amount.toNat else 0 := by
    simp
  have htotal := Balances.tokenTotal_of_run hrun other
  rw [hcredit, hdebit] at htotal
  have hbefore := hsolvent other
  show balances.tokenTotal other ≤ tokens.holdings env other
  by_cases htoken : token = other
  · rw [if_pos htoken, if_pos htoken] at htotal
    split at hholdings <;> omega
  · rw [if_neg htoken, if_neg htoken] at htotal
    rw [if_neg fun h => htoken h.1] at hholdings
    omega

theorem withdraw_keeps (hexact : tokens.Exact) {sequence : UInt64} {sender token : Address}
    {amount fee : Uint256} (h : withdraw tokens world sequence sender token amount fee = .ok next) :
    Keeps tokens world next := by
  rcases withdraw_cases h with ⟨-, rfl⟩ | hpays
  · exact Keeps.refl
  · exact hpays.keeps hexact

theorem executeWithdrawal_keeps (hexact : tokens.Exact) {txType : TransactionType}
    {signedTx : WithdrawWithSignature}
    (h : executeWithdrawal tokens world txType signedTx = .ok next) : Keeps tokens world next := by
  rcases executeWithdrawal_cases h with ⟨-, rfl⟩ | ⟨-, hpays⟩
  · exact Keeps.refl
  · exact hpays.keeps hexact

theorem submitWithdrawal_keeps (hexact : tokens.Exact) {withdrawal : Bytes}
    (h : submitWithdrawal host tokens world withdrawal = .ok next) : Keeps tokens world next := by
  obtain ⟨txType, signedTx, -, hcases⟩ := submitWithdrawal_cases h
  rcases hcases with ⟨-, -, rfl⟩ | ⟨-, -, hexecuted⟩ | ⟨-, executed, hexecuted, rfl⟩
  · exact Keeps.refl
  · exact executeWithdrawal_keeps hexact hexecuted
  · exact (executeWithdrawal_keeps hexact hexecuted).trans ⟨id, rfl⟩

theorem submitWithdrawals_keeps (hexact : tokens.Exact) {withdrawals : List Bytes}
    (h : submitWithdrawals host tokens context world withdrawals = .ok next) :
    Keeps tokens world next := by
  obtain ⟨-, -, -, processed, hprocessed, rfl⟩ := submitWithdrawals_cases h
  have hkeeps : Keeps tokens world processed :=
    submitted_induction _
      (fun _ _ _ hkeeps hentry => Keeps.trans hkeeps (submitWithdrawal_keeps hexact hentry))
      Keeps.refl hprocessed
  exact hkeeps.trans ⟨id, rfl⟩

theorem sovereignWithdrawal_keeps (hexact : tokens.Exact) {token : Address} {amount : Uint256}
    (h : sovereignWithdrawal tokens context world token amount = .ok next) :
    Keeps tokens world next := by
  rcases sovereignWithdrawal_cases h with hasks | ⟨-, -, -, -, executed, hexecuted, rfl⟩
  · obtain ⟨-, rfl⟩ := requestWithdrawal_cases hasks.stored
    exact Keeps.refl
  · exact (withdraw_keeps hexact hexecuted).trans ⟨id, rfl⟩

theorem setting_keeps {call : Call} (h : execute host tokens context world call = .ok next)
    (hcall : call.IsSetting) : Keeps tokens world next := by
  obtain ⟨_, _, _, _, _, rfl⟩ := setting_cases h hcall
  exact Keeps.refl

/-! ### Settlements -/

theorem nets_of_amountsBelow {batchSettlement : BatchSettlement} (h : AmountsBelow batchSettlement) :
    batchSettlement.EvenlySigned := by
  have hnone : ∀ amounts : List Uint256, (∀ amount ∈ amounts, amount.toNat < 2 ^ 255) →
      negatives amounts = 0 := by
    intro amounts hsmall
    refine List.countP_eq_zero.mpr fun amount hamount hnegative => ?_
    have hlarge : 2 ^ 256 ≤ 2 * amount.toNat := of_decide_eq_true hnegative
    have hlt := hsmall amount hamount
    omega
  intro list hlist
  rw [hnone _ fun amount hamount => h list hlist amount (List.mem_append_left _ hamount),
    hnone _ fun amount hamount => h list hlist amount (List.mem_append_right _ hamount)]

/-- A batch that nets, of the data of the run, stands behind every hash stored. -/
def Prepared (host : Host) (inputs : List (Input E)) (world : World E) : Prop :=
  world.state.batchHash ≠ 0 → ∃ data ∈ settlementData inputs, ∃ batchSettlement,
    host.decodeBatchSettlement data = some batchSettlement ∧ batchSettlement.Nets ∧
      world.state.batchHash = host.keccak256 data

structure Backed (host : Host) (tokens : Tokens E) (inputs : List (Input E)) (world : World E) :
    Prop where
  solvent : Solvent tokens world
  prepared : Prepared host inputs world

theorem Keeps.backed {inputs : List (Input E)} (hkeeps : Keeps tokens world next)
    (h : Backed host tokens inputs world) : Backed host tokens inputs next := by
  refine ⟨hkeeps.1 h.solvent, ?_⟩
  rw [Prepared, hkeeps.2]
  exact h.prepared

variable {inputs : List (Input E)} {data : Bytes}

theorem prepareSettlementBatch_backed (hdata : data ∈ settlementData inputs)
    (hamounts : ∀ batchSettlement, host.decodeBatchSettlement data = some batchSettlement →
      AmountsBelow batchSettlement)
    (h : prepareSettlementBatch host context world data = .ok next)
    (hbacked : Backed host tokens inputs world) : Backed host tokens inputs next := by
  obtain ⟨settlement, log, hshared, rfl⟩ := prepareSettlementBatch_cases h
  obtain ⟨-, -, batchSettlement, verification, hdecode, -, hverified, -, hcases⟩ :=
    Evm.prepareSettlementBatch_cases hshared
  rcases hcases with ⟨-, rfl⟩ | ⟨-, rfl⟩
  · refine ⟨hbacked.solvent, fun _ => ⟨data, hdata, batchSettlement, hdecode, ?_, rfl⟩⟩
    exact (nets_iff_evenlySigned hverified).mpr (nets_of_amountsBelow (hamounts _ hdecode))
  · exact ⟨hbacked.solvent, hbacked.prepared⟩

theorem submitSettlementBatch_backed (hdata : data ∈ settlementData inputs)
    (hcollision : ∀ first ∈ settlementData inputs, ∀ second ∈ settlementData inputs,
      host.keccak256 first = host.keccak256 second → first = second)
    (h : submitSettlementBatch host context world data = .ok next)
    (hbacked : Backed host tokens inputs world) : Backed host tokens inputs next := by
  obtain ⟨settlement, log, hshared, rfl⟩ := submitSettlementBatch_cases h
  obtain ⟨-, hpending, hhash, batchSettlement, balances, hdecode, -, -, hnext⟩ :=
    Evm.submitSettlementBatch_cases hshared
  obtain ⟨prepared, hprepared, netted, hnetted, hnets, hstored⟩ := hbacked.prepared hpending
  obtain rfl := hcollision prepared hprepared data hdata (hstored.symm.trans hhash)
  obtain rfl := Option.some.inj (hnetted.symm.trans hdecode)
  refine ⟨fun token => ?_, fun hne => absurd (congrArg SettlementState.batchHash hnext) hne⟩
  have htotal := tokenTotal_of_nets hshared hdecode hnets token
  show settlement.balances.tokenTotal token ≤ _
  rw [htotal]
  exact hbacked.solvent token

/-! ### Runs -/

/-- Every step of a run keeps the contract solvent and its prepared batch netting. -/
theorem step_backed {host : Host} {tokens : Tokens E} {inputs : List (Input E)}
    (hexact : tokens.Exact)
    (hsenders : ∀ context call, .call context call ∈ inputs → context.sender ≠ tokens.self)
    (houtside : ∀ change, .outside change ∈ inputs →
      ∀ env token, tokens.holdings env token ≤ tokens.holdings (change env) token)
    (hcollision : ∀ first ∈ settlementData inputs, ∀ second ∈ settlementData inputs,
      host.keccak256 first = host.keccak256 second → first = second)
    (hamounts : ∀ data ∈ settlementData inputs, ∀ batchSettlement,
      host.decodeBatchSettlement data = some batchSettlement → AmountsBelow batchSettlement)
    (world : World E) (input : Input E) (hinput : input ∈ inputs)
    (h : Backed host tokens inputs world) :
    Backed host tokens inputs (step host tokens world input) := by
  cases input with
  | outside change =>
      exact ⟨fun token => (h.solvent token).trans (houtside change hinput world.env token), h.prepared⟩
  | call context call =>
      have hsender := hsenders context call hinput
      rcases step_call host tokens context world call with ⟨next, hexecute, hstep⟩ | hstep
      · rw [hstep]
        cases call with
        | receive value => exact (receive_keeps hexact hsender hexecute).backed h
        | deposit token amount => exact (deposit_keeps hexact hsender hexecute).backed h
        | sovereignWithdrawal token amount => exact (sovereignWithdrawal_keeps hexact hexecute).backed h
        | submitWithdrawals withdrawals => exact (submitWithdrawals_keeps hexact hexecute).backed h
        | prepareSettlementBatch data =>
            have hdata : data ∈ settlementData inputs := List.mem_filterMap.mpr ⟨_, hinput, rfl⟩
            exact prepareSettlementBatch_backed hdata (hamounts data hdata) hexecute h
        | submitSettlementBatch data =>
            have hdata : data ∈ settlementData inputs := List.mem_filterMap.mpr ⟨_, hinput, rfl⟩
            exact submitSettlementBatch_backed hdata hcollision hexecute h
        | rollbackBatch =>
            obtain ⟨settlement, hshared, rfl⟩ := rollbackBatch_cases hexecute
            obtain ⟨-, rfl⟩ := Evm.rollbackBatch_cases hshared
            exact ⟨h.solvent, fun hne => absurd rfl hne⟩
        | setSubmitter submitter => exact (setting_keeps hexecute trivial).backed h
        | setFeeAccount feeAccount => exact (setting_keeps hexecute trivial).backed h
        | setSovereignWithdrawalDelay delay => exact (setting_keeps hexecute trivial).backed h
        | linkSigner linkedSigner digest signature =>
            exact (setting_keeps hexecute trivial).backed h
        | removeLinkedSigner => exact (setting_keeps hexecute trivial).backed h
      · rw [hstep]
        exact h

theorem tokenTotal_start (submitter feeAccount : Address) (delay : Uint256) (env : E)
    (token : Address) : (start submitter feeAccount delay env).state.balances.tokenTotal token = 0 :=
  Finset.sum_eq_zero fun _ _ => rfl

/-- In every state that a run reaches, the balances of a token add up to no more than the contract
holds of it. -/
theorem solvent_of_run (host : Host) (tokens : Tokens E) (submitter feeAccount : Address)
    (delay : Uint256) (env : E) (inputs : List (Input E)) (token : Address) (hexact : tokens.Exact)
    (hsenders : ∀ context call, .call context call ∈ inputs → context.sender ≠ tokens.self)
    (houtside : ∀ change, .outside change ∈ inputs →
      ∀ env token, tokens.holdings env token ≤ tokens.holdings (change env) token)
    (hcollision : ∀ first ∈ settlementData inputs, ∀ second ∈ settlementData inputs,
      host.keccak256 first = host.keccak256 second → first = second)
    (hamounts : ∀ data ∈ settlementData inputs, ∀ batchSettlement,
      host.decodeBatchSettlement data = some batchSettlement → AmountsBelow batchSettlement) :
    (run host tokens (start submitter feeAccount delay env) inputs).state.balances.tokenTotal token ≤
      tokens.holdings (run host tokens (start submitter feeAccount delay env) inputs).env token := by
  have hstart : Backed host tokens inputs (start submitter feeAccount delay env) := by
    refine ⟨fun token => ?_, fun hne => absurd rfl hne⟩
    rw [tokenTotal_start]
    exact Nat.zero_le _
  have hreached := Run.foldl_induction (step host tokens) hstart
    (step_backed hexact hsenders houtside hcollision hamounts)
  exact hreached.solvent token

/-! A run in which one wallet deposits and trades with another. -/

/-- The first wallet deposits five units and pays them to the second, which asks for them back. -/
def tradingInputs : List (Input Book) :=
  [.call ⟨0xa1, 1, 0x0e⟩ (.deposit 0x70 5), .call ⟨0x5b, 2, 0x0e⟩ (.prepareSettlementBatch evenData),
    .call ⟨0x5b, 3, 0x0e⟩ (.submitSettlementBatch evenData),
    .call ⟨0xb2, 4, 0x0e⟩ (.sovereignWithdrawal 0x70 5)]

theorem evenTrade_amountsBelow : AmountsBelow evenTrade := by
  intro list hlist amount hamount
  obtain rfl := List.mem_singleton.mp hlist
  simp only [TokenAdjustmentList.credits, TokenAdjustmentList.debits, List.map_cons, List.map_nil,
    List.cons_append, List.nil_append, List.mem_cons, List.not_mem_nil, or_false] at hamount
  rcases hamount with rfl | rfl | rfl <;> decide

theorem settlementData_tradingInputs : settlementData tradingInputs = [evenData, evenData] := rfl

theorem tradingInputs_solvent :
    (run (exchangeHost evenHost) bookTokens (start 0x5b 0xfe 86400 fun _ _ => 10)
        tradingInputs).state.balances.tokenTotal 0x70 ≤
      bookTokens.holdings (run (exchangeHost evenHost) bookTokens
        (start 0x5b 0xfe 86400 fun _ _ => 10) tradingInputs).env 0x70 := by
  refine solvent_of_run (exchangeHost evenHost) bookTokens 0x5b 0xfe 86400 (fun _ _ => 10)
    tradingInputs 0x70 bookTokens_exact ?_ ?_ ?_ ?_
  · intro context call hmem
    simp only [tradingInputs, List.mem_cons, List.not_mem_nil, or_false, Input.call.injEq] at hmem
    rcases hmem with ⟨rfl, -⟩ | ⟨rfl, -⟩ | ⟨rfl, -⟩ | ⟨rfl, -⟩ <;> decide
  · intro change hmem
    simp [tradingInputs] at hmem
  · rw [settlementData_tradingInputs]
    intro first hfirst second hsecond _
    simp only [List.mem_cons, List.not_mem_nil, or_false, or_self] at hfirst hsecond
    rw [hfirst, hsecond]
  · rw [settlementData_tradingInputs]
    intro data hmem batchSettlement hdecode
    simp only [List.mem_cons, List.not_mem_nil, or_false, or_self] at hmem
    rw [hmem] at hdecode
    obtain rfl := Option.some.inj ((Host.decode_knowing _ _ _).symm.trans hdecode)
    exact evenTrade_amountsBelow

end Chainring.Evm.Exchange

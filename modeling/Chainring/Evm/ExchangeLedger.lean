import Chainring.Evm.ExchangeSolvency

/-! The exchange's balances can be read off its events: for each token they add up to what was deposited less
what was paid out. The fees stay in the ledger, and what a settlement trades nets out. -/

namespace Chainring.Evm.Exchange

open Ledger (Entry)
open Balances (tokenSlots)
open CheckedWord (bind_eq_ok)

variable {E : Type}

/-! ### The events of a token -/

def Event.deposited (token : Address) : Event → Int
  | .deposit _ t amount => if t = token then amount.toNat else 0
  | _ => 0

/-- What a withdrawal pays out is its amount less its fee. -/
def Event.paidOut (token : Address) : Event → Int
  | .withdrawal _ _ t amount fee => if t = token then amount.toNat - fee.toNat else 0
  | _ => 0

/-- What one event adds to the balances of a token. -/
def Event.added (token : Address) (event : Event) : Int := event.deposited token - event.paidOut token

/-- The sum of what the events of a log say. -/
def logTotal (amount : Event → Int) (log : List Event) : Int := (log.map amount).sum

@[simp] theorem logTotal_nil (amount : Event → Int) : logTotal amount [] = 0 := rfl

@[simp] theorem logTotal_append (amount : Event → Int) (first second : List Event) :
    logTotal amount (first ++ second) = logTotal amount first + logTotal amount second := by
  simp [logTotal]

@[simp] theorem logTotal_singleton (amount : Event → Int) (event : Event) :
    logTotal amount [event] = amount event := by
  simp [logTotal]

theorem logTotal_settlement {amount : Event → Int} (h : ∀ event, amount (.settlement event) = 0)
    (log : List SettlementEvent) : logTotal amount (log.map .settlement) = 0 := by
  induction log with
  | nil => rfl
  | cons event log ih =>
      calc logTotal amount ((event :: log).map .settlement)
          = amount (.settlement event) + logTotal amount (log.map .settlement) := by simp [logTotal]
        _ = 0 := by rw [h, ih, add_zero]

/-- The balances of each token add up to what the log says. -/
def Reconciles (world : World E) : Prop :=
  ∀ token, (world.state.balances.tokenTotal token : Int) =
    logTotal (Event.deposited token) world.log - logTotal (Event.paidOut token) world.log

/-! ### Calls outside settlement -/

variable {host : Host} {tokens : Tokens E} {context : Context} {world next : World E}

/-- The step keeps the ledger reconciled and touches no prepared batch. -/
def Accounts (world next : World E) : Prop :=
  (Reconciles world → Reconciles next) ∧ next.state.batchHash = world.state.batchHash

theorem Accounts.refl : Accounts world world := ⟨id, rfl⟩

theorem Accounts.trans {middle : World E} (first : Accounts world middle) (second : Accounts middle next) :
    Accounts world next :=
  ⟨fun h => second.1 (first.1 h), second.2.trans first.2⟩

/-- A step whose one event says by how much it moves each token. -/
theorem accounts_of_event {event : Event} (hlog : next.log = world.log ++ [event])
    (hhash : next.state.batchHash = world.state.batchHash)
    (htotal : ∀ token, (next.state.balances.tokenTotal token : Int) =
      world.state.balances.tokenTotal token + event.added token) : Accounts world next := by
  refine ⟨fun hreconciles token => ?_, hhash⟩
  have hbefore := hreconciles token
  have hafter := htotal token
  rw [hlog]
  simp only [logTotal_append, logTotal_singleton]
  simp only [Event.added] at hafter
  omega

/-- A step that moves nothing and whose one event says so. -/
theorem accounts_of_notice {event : Event} (hlog : next.log = world.log ++ [event])
    (hhash : next.state.batchHash = world.state.batchHash)
    (hbalances : next.state.balances = world.state.balances) (hadded : ∀ token, event.added token = 0) :
    Accounts world next := by
  apply accounts_of_event hlog hhash
  intro token
  rw [hbalances, hadded token, add_zero]

theorem receive_accounts {value : Uint256} (h : receive tokens context world value = .ok next) :
    Accounts world next := by
  obtain ⟨env, -, h⟩ := bind_eq_ok.mp h
  obtain ⟨balances, hbalances, h⟩ := bind_eq_ok.mp h
  cases h
  refine accounts_of_event rfl rfl fun token => ?_
  have htotal := Balances.tokenTotal_increase hbalances token
  show (balances.tokenTotal token : Int) = _
  rw [htotal]
  simp only [Event.added, Event.deposited, Event.paidOut, sub_zero]
  push_cast
  rfl

theorem deposit_accounts {token : Address} {amount : Uint256}
    (h : deposit tokens context world token amount = .ok next) : Accounts world next := by
  obtain ⟨env, -, h⟩ := bind_eq_ok.mp h
  obtain ⟨balances, hbalances, h⟩ := bind_eq_ok.mp h
  cases h
  refine accounts_of_event rfl rfl fun other => ?_
  have htotal := Balances.tokenTotal_increase hbalances other
  show (balances.tokenTotal other : Int) = _
  rw [htotal]
  simp only [Event.added, Event.deposited, Event.paidOut, sub_zero]
  push_cast
  rfl

theorem Pays.accounts {sequence : UInt64} {sender token : Address} {amount fee : Uint256}
    (h : Pays tokens world sequence sender token amount fee next) : Accounts world next := by
  obtain ⟨balances, env, payout, -, -, -, hrun, rfl⟩ := h
  refine accounts_of_event rfl rfl fun other => ?_
  have htotal := Balances.tokenTotal_of_run hrun other
  have hcredit : ([Entry.debit (sender, token) amount.toNat,
      .credit (world.state.feeAccount, token) fee.toNat].map (Entry.creditIn (tokenSlots other))).sum =
        if token = other then fee.toNat else 0 := by
    simp
  have hdebit : ([Entry.debit (sender, token) amount.toNat,
      .credit (world.state.feeAccount, token) fee.toNat].map (Entry.debitIn (tokenSlots other))).sum =
        if token = other then amount.toNat else 0 := by
    simp
  rw [hcredit, hdebit] at htotal
  show (balances.tokenTotal other : Int) = _
  simp only [Event.added, Event.deposited, Event.paidOut]
  by_cases htoken : token = other
  · rw [if_pos htoken, if_pos htoken] at htotal
    rw [if_pos htoken]
    omega
  · rw [if_neg htoken, if_neg htoken] at htotal
    rw [if_neg htoken]
    omega

theorem Declines.accounts {sequence : UInt64} {sender token : Address} {amount : Uint256}
    (h : Declines world sequence sender token amount next) : Accounts world next := by
  obtain rfl := h
  exact accounts_of_notice rfl rfl rfl fun _ => rfl

theorem withdraw_accounts {sequence : UInt64} {sender token : Address} {amount fee : Uint256}
    (h : withdraw tokens world sequence sender token amount fee = .ok next) : Accounts world next := by
  rcases withdraw_cases h with ⟨-, hdeclines⟩ | hpays
  · exact hdeclines.accounts
  · exact hpays.accounts

theorem executeWithdrawal_accounts {txType : TransactionType} {signedTx : WithdrawWithSignature}
    (h : executeWithdrawal tokens world txType signedTx = .ok next) : Accounts world next := by
  rcases executeWithdrawal_cases h with ⟨-, hdeclines⟩ | ⟨-, hpays⟩
  · exact hdeclines.accounts
  · exact hpays.accounts

theorem submitWithdrawal_accounts {withdrawal : Bytes}
    (h : submitWithdrawal host tokens world withdrawal = .ok next) : Accounts world next := by
  obtain ⟨txType, signedTx, -, hcases⟩ := submitWithdrawal_cases h
  rcases hcases with ⟨-, -, rfl⟩ | ⟨-, -, hexecuted⟩ | ⟨-, executed, hexecuted, rfl⟩
  · exact accounts_of_notice rfl rfl rfl fun _ => rfl
  · exact executeWithdrawal_accounts hexecuted
  · exact (executeWithdrawal_accounts hexecuted).trans ⟨id, rfl⟩

theorem submitWithdrawals_accounts {withdrawals : List Bytes}
    (h : submitWithdrawals host tokens context world withdrawals = .ok next) : Accounts world next := by
  obtain ⟨-, -, -, processed, hprocessed, rfl⟩ := submitWithdrawals_cases h
  have haccounts : Accounts world processed :=
    submitted_induction _
      (fun _ _ _ haccounts hentry => Accounts.trans haccounts (submitWithdrawal_accounts hentry))
      Accounts.refl hprocessed
  exact haccounts.trans ⟨id, rfl⟩

theorem sovereignWithdrawal_accounts {token : Address} {amount : Uint256}
    (h : sovereignWithdrawal tokens context world token amount = .ok next) : Accounts world next := by
  rcases sovereignWithdrawal_cases h with hasks | hcompletes
  · obtain ⟨-, rfl⟩ := requestWithdrawal_cases hasks.stored
    exact accounts_of_notice rfl rfl rfl fun _ => rfl
  · obtain ⟨executed, hexecuted, rfl⟩ := hcompletes.executes
    exact (withdraw_accounts hexecuted).trans ⟨id, rfl⟩

/-- A setting is silent, or reports a linked signer. -/
theorem setting_accounts {call : Call} (h : execute host tokens context world call = .ok next)
    (hcall : call.IsSetting) : Accounts world next := by
  cases call with
  | setSubmitter submitter =>
      obtain ⟨_, -, hrest⟩ := bind_eq_ok.mp h
      obtain ⟨_, -, hrest⟩ := bind_eq_ok.mp hrest
      cases hrest
      exact Accounts.refl
  | setFeeAccount feeAccount =>
      obtain ⟨_, -, hrest⟩ := bind_eq_ok.mp h
      obtain ⟨_, -, hrest⟩ := bind_eq_ok.mp hrest
      cases hrest
      exact Accounts.refl
  | setSovereignWithdrawalDelay delay =>
      obtain ⟨_, -, hrest⟩ := bind_eq_ok.mp h
      obtain ⟨_, -, hrest⟩ := bind_eq_ok.mp hrest
      cases hrest
      exact Accounts.refl
  | linkSigner linkedSigner digest signature =>
      obtain ⟨recovered, -, hrest⟩ := bind_eq_ok.mp h
      split at hrest <;> cases hrest <;> exact accounts_of_notice rfl rfl rfl fun _ => rfl
  | removeLinkedSigner =>
      cases h
      exact accounts_of_notice rfl rfl rfl fun _ => rfl
  | receive value => exact absurd hcall id
  | deposit token amount => exact absurd hcall id
  | sovereignWithdrawal token amount => exact absurd hcall id
  | submitWithdrawals withdrawals => exact absurd hcall id
  | prepareSettlementBatch data => exact absurd hcall id
  | submitSettlementBatch data => exact absurd hcall id
  | rollbackBatch => exact absurd hcall id

/-! ### Settlements -/

structure Audited (host : Host) (inputs : List (Input E)) (world : World E) : Prop where
  reconciles : Reconciles world
  prepared : Prepared host inputs world

variable {inputs : List (Input E)} {data : Bytes}

theorem Accounts.audited (haccounts : Accounts world next) (h : Audited host inputs world) :
    Audited host inputs next := by
  refine ⟨haccounts.1 h.reconciles, ?_⟩
  rw [Prepared, haccounts.2]
  exact h.prepared

/-- Settlement events move nothing. -/
theorem Reconciles.settle (h : Reconciles world) {settlement : SettlementState} {log : List SettlementEvent}
    (htotal : ∀ token, settlement.balances.tokenTotal token = world.state.balances.tokenTotal token) :
    Reconciles (world.settle settlement log) := by
  intro token
  show (settlement.balances.tokenTotal token : Int) = _
  rw [htotal, h token, World.settle]
  simp only [logTotal_append]
  rw [logTotal_settlement (fun _ => rfl), logTotal_settlement (fun _ => rfl)]
  omega

theorem prepareSettlementBatch_audited (hdata : data ∈ settlementData inputs)
    (hamounts : ∀ batchSettlement, host.decodeBatchSettlement data = some batchSettlement →
      AmountsBelow batchSettlement)
    (h : prepareSettlementBatch host context world data = .ok next) (haudited : Audited host inputs world) :
    Audited host inputs next := by
  obtain ⟨settlement, log, hshared, rfl⟩ := prepareSettlementBatch_cases h
  obtain ⟨-, -, batchSettlement, verification, hdecode, -, hverified, -, hcases⟩ :=
    Evm.prepareSettlementBatch_cases hshared
  rcases hcases with ⟨-, rfl⟩ | ⟨-, rfl⟩
  · refine ⟨haudited.reconciles.settle fun _ => rfl, fun _ => ⟨data, hdata, batchSettlement, hdecode, ?_, rfl⟩⟩
    exact (nets_iff_evenlySigned hverified).mpr (nets_of_amountsBelow (hamounts _ hdecode))
  · exact ⟨haudited.reconciles.settle fun _ => rfl, haudited.prepared⟩

theorem submitSettlementBatch_audited (hdata : data ∈ settlementData inputs)
    (hcollision : ∀ first ∈ settlementData inputs, ∀ second ∈ settlementData inputs,
      host.keccak256 first = host.keccak256 second → first = second)
    (h : submitSettlementBatch host context world data = .ok next) (haudited : Audited host inputs world) :
    Audited host inputs next := by
  obtain ⟨settlement, log, hshared, rfl⟩ := submitSettlementBatch_cases h
  obtain ⟨-, hpending, hhash, batchSettlement, balances, hdecode, -, -, hnext⟩ :=
    Evm.submitSettlementBatch_cases hshared
  obtain ⟨prepared, hprepared, netted, hnetted, hnets, hstored⟩ := haudited.prepared hpending
  obtain rfl := hcollision prepared hprepared data hdata (hstored.symm.trans hhash)
  obtain rfl := Option.some.inj (hnetted.symm.trans hdecode)
  refine ⟨haudited.reconciles.settle (tokenTotal_of_nets hshared hdecode hnets), fun hne => ?_⟩
  exact absurd (congrArg SettlementState.batchHash hnext) hne

/-! ### Runs -/

/-- Every step of a run keeps the ledger reconciled and its prepared batch netting. -/
theorem step_audited {host : Host} (tokens : Tokens E) {inputs : List (Input E)}
    (hcollision : ∀ first ∈ settlementData inputs, ∀ second ∈ settlementData inputs,
      host.keccak256 first = host.keccak256 second → first = second)
    (hamounts : ∀ data ∈ settlementData inputs, ∀ batchSettlement,
      host.decodeBatchSettlement data = some batchSettlement → AmountsBelow batchSettlement)
    (world : World E) (input : Input E) (hinput : input ∈ inputs) (h : Audited host inputs world) :
    Audited host inputs (step host tokens world input) := by
  cases input with
  | outside change => exact ⟨h.reconciles, h.prepared⟩
  | call context call =>
      rcases step_call host tokens context world call with ⟨next, hexecute, hstep⟩ | hstep
      · rw [hstep]
        cases call with
        | receive value => exact (receive_accounts hexecute).audited h
        | deposit token amount => exact (deposit_accounts hexecute).audited h
        | sovereignWithdrawal token amount => exact (sovereignWithdrawal_accounts hexecute).audited h
        | submitWithdrawals withdrawals => exact (submitWithdrawals_accounts hexecute).audited h
        | prepareSettlementBatch data =>
            have hdata : data ∈ settlementData inputs := List.mem_filterMap.mpr ⟨_, hinput, rfl⟩
            exact prepareSettlementBatch_audited hdata (hamounts data hdata) hexecute h
        | submitSettlementBatch data =>
            have hdata : data ∈ settlementData inputs := List.mem_filterMap.mpr ⟨_, hinput, rfl⟩
            exact submitSettlementBatch_audited hdata hcollision hexecute h
        | rollbackBatch =>
            obtain ⟨settlement, hshared, rfl⟩ := rollbackBatch_cases hexecute
            obtain ⟨-, rfl⟩ := Evm.rollbackBatch_cases hshared
            exact ⟨h.reconciles.settle fun _ => rfl, fun hne => absurd rfl hne⟩
        | setSubmitter submitter => exact (setting_accounts hexecute trivial).audited h
        | setFeeAccount feeAccount => exact (setting_accounts hexecute trivial).audited h
        | setSovereignWithdrawalDelay delay => exact (setting_accounts hexecute trivial).audited h
        | linkSigner linkedSigner digest signature => exact (setting_accounts hexecute trivial).audited h
        | removeLinkedSigner => exact (setting_accounts hexecute trivial).audited h
      · rw [hstep]
        exact h

/-- In every state that a run reaches, whatever the tokens do, the balances of a token add up to what the
events say. -/
theorem balances_of_log (host : Host) (tokens : Tokens E) (submitter feeAccount : Address) (delay : Uint256)
    (env : E) (inputs : List (Input E)) (token : Address)
    (hcollision : ∀ first ∈ settlementData inputs, ∀ second ∈ settlementData inputs,
      host.keccak256 first = host.keccak256 second → first = second)
    (hamounts : ∀ data ∈ settlementData inputs, ∀ batchSettlement,
      host.decodeBatchSettlement data = some batchSettlement → AmountsBelow batchSettlement) :
    ((run host tokens (start submitter feeAccount delay env) inputs).state.balances.tokenTotal token : Int) =
      logTotal (Event.deposited token) (run host tokens (start submitter feeAccount delay env) inputs).log -
        logTotal (Event.paidOut token) (run host tokens (start submitter feeAccount delay env) inputs).log := by
  have hstart : Audited host inputs (start submitter feeAccount delay env) := by
    refine ⟨fun token => ?_, fun hne => absurd rfl hne⟩
    rw [tokenTotal_start]
    rfl
  have hreached := Run.foldl_induction (step host tokens) hstart (step_audited tokens hcollision hamounts)
  exact hreached.reconciles token

theorem tradingInputs_log :
    ((run (exchangeHost evenHost) bookTokens (start 0x5b 0xfe 86400 fun _ _ => 10)
        tradingInputs).state.balances.tokenTotal 0x70 : Int) =
      logTotal (Event.deposited 0x70) (run (exchangeHost evenHost) bookTokens
          (start 0x5b 0xfe 86400 fun _ _ => 10) tradingInputs).log -
        logTotal (Event.paidOut 0x70) (run (exchangeHost evenHost) bookTokens
          (start 0x5b 0xfe 86400 fun _ _ => 10) tradingInputs).log := by
  apply balances_of_log
  · rw [settlementData_tradingInputs]
    simp
  · rw [settlementData_tradingInputs]
    intro data hmem batchSettlement hdecode
    simp only [List.mem_cons, List.not_mem_nil, or_false, or_self] at hmem
    rw [hmem] at hdecode
    obtain rfl := Option.some.inj ((Host.decode_knowing _ _ _).symm.trans hdecode)
    exact evenTrade_amountsBelow

end Chainring.Evm.Exchange

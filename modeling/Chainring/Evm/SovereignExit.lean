import Chainring.Evm.ExchangeAuthority
import Chainring.Evm.ExchangeSolvency

/-! The way out of the exchange. A request stands whatever the others do until its wallet calls again or
the submitter acts on it, and once its delay is over the exchange holds what it takes to pay it. -/

namespace Chainring.Evm.Exchange

open CheckedWord (bind_eq_ok)

variable {E : Type} {host : Host} {tokens : Tokens E} {context : Context} {world next : World E}

/-! ### The request stands -/

/-- The input is no call of `sovereignWithdrawal` by the wallet, and no batch with an entry of the wallet
that has an all-zero signature. -/
def Spares (host : Host) (wallet : Address) : Input E → Prop
  | .call context (.sovereignWithdrawal _ _) => context.sender ≠ wallet
  | .call _ (.submitWithdrawals withdrawals) => ∀ withdrawal ∈ withdrawals, ∀ txType signedTx,
      decodeWithdrawal host withdrawal = .ok (txType, signedTx) → signedTx.tx.sender = wallet →
      isZeroSignature signedTx.signature = false
  | _ => True

theorem submitWithdrawal_spares {withdrawal : Bytes} {wallet : Address}
    (hspares : ∀ txType signedTx, decodeWithdrawal host withdrawal = .ok (txType, signedTx) →
      signedTx.tx.sender = wallet → isZeroSignature signedTx.signature = false)
    (h : submitWithdrawal host tokens world withdrawal = .ok next) :
    next.state.sovereignWithdrawals wallet = world.state.sovereignWithdrawals wallet := by
  obtain ⟨txType, signedTx, hdecode, hrequests⟩ := submitWithdrawal_requests h
  rw [hrequests]
  split
  · next hpending =>
      refine Function.update_of_ne (fun hwallet => ?_) _ _
      have hsigned := hspares txType signedTx hdecode hwallet.symm
      simp [pendingSovereignWithdrawal, hsigned] at hpending
  · rfl

theorem processed_spares {withdrawals : List Bytes} {wallet : Address}
    (hspares : ∀ withdrawal ∈ withdrawals, ∀ txType signedTx,
      decodeWithdrawal host withdrawal = .ok (txType, signedTx) → signedTx.tx.sender = wallet →
      isZeroSignature signedTx.signature = false)
    (h : withdrawals.foldlM (submitWithdrawal host tokens) world = .ok next) :
    next.state.sovereignWithdrawals wallet = world.state.sovereignWithdrawals wallet := by
  induction withdrawals generalizing world with
  | nil =>
      cases h
      rfl
  | cons withdrawal withdrawals ih =>
      obtain ⟨hfirst, hrest⟩ := List.forall_mem_cons.mp hspares
      rw [List.foldlM_cons] at h
      obtain ⟨after, hafter, h⟩ := bind_eq_ok.mp h
      exact (ih hrest h).trans (submitWithdrawal_spares hfirst hafter)

theorem step_spares {input : Input E} {wallet : Address} (hspares : Spares host wallet input) :
    (step host tokens world input).state.sovereignWithdrawals wallet =
      world.state.sovereignWithdrawals wallet := by
  cases input with
  | outside change => rfl
  | call context call =>
      rcases step_call host tokens context world call with ⟨next, hexecute, hstep⟩ | hstep
      · rw [hstep]
        cases execute_effect hexecute with
        | deposits token amount env balances event hcredited hnext =>
            rw [hnext]
            rfl
        | asks token amount hcalled hasks =>
            rw [hcalled] at hspares
            rw [(requestWithdrawal_cases hasks.stored).2]
            exact Function.update_of_ne (Ne.symm hspares) _ _
        | completes token amount hcalled hcompletes =>
            obtain ⟨executed, hexecuted, rfl⟩ := hcompletes.executes
            rw [hcalled] at hspares
            rw [← withdraw_requests hexecuted]
            exact Function.update_of_ne (Ne.symm hspares) _ _
        | submits withdrawals processed hcalled hsender hprocessed hnext =>
            rw [hcalled] at hspares
            have hkept := processed_spares hspares hprocessed
            rw [hnext]
            exact hkept
        | marks batchHash log hsender hnext =>
            rw [hnext]
        | settles data batchSettlement balances last log hcalled hsender hpending hdecode happlied hnext =>
            rw [hnext]
        | sets hsetting =>
            obtain ⟨_, _, _, _, _, rfl⟩ := setting_cases hexecute hsetting
            rfl
      · rw [hstep]

/-! ### The exchange can pay -/

/-- A transfer to the wallet that the contract's holdings cover goes through. -/
structure Tokens.Pay (tokens : Tokens E) (wallet : Address) : Prop where
  transfer : ∀ env token amount, token ≠ 0 → amount.toNat ≤ tokens.holdings env token →
    ∃ next, tokens.transfer env token wallet amount = some next
  send : ∀ env amount, amount.toNat ≤ tokens.holdings env 0 →
    ∃ next, tokens.send env wallet amount = some next

theorem Solvent.covers (h : Solvent tokens world) (wallet token : Address) :
    (world.state.balances wallet token).toNat ≤ tokens.holdings world.env token :=
  calc (world.state.balances wallet token).toNat
    _ ≤ world.state.balances.tokenTotal token :=
        Finset.single_le_sum (f := fun wallet => (world.state.balances wallet token).toNat)
          (fun _ _ => Nat.zero_le _) (Finset.mem_univ wallet)
    _ ≤ tokens.holdings world.env token := h token

/-- A solvent exchange pays a withdrawal without a fee that the balance covers. -/
theorem withdraw_goes_through {wallet token : Address} {amount : Uint256} (sequence : UInt64)
    (hpay : tokens.Pay wallet) (hsolvent : Solvent tokens world)
    (hcovered : amount ≤ world.state.balances wallet token) :
    ∃ executed, withdraw tokens world sequence wallet token amount 0 = .ok executed := by
  obtain ⟨debited, hdebited⟩ : ∃ debited, world.state.balances.decrease wallet token amount =
      .ok debited := by
    refine Balances.decrease_isOk.mpr ?_
    rw [Ledger.run_singleton, Ledger.isSome_post_debit]
    exact hcovered
  obtain ⟨balances, hcredited⟩ : ∃ balances, debited.increase world.state.feeAccount token 0 =
      .ok balances := by
    refine Balances.increase_isOk.mpr ?_
    rw [Ledger.run_singleton, Ledger.isSome_post_credit]
    exact Balances.slots_lt debited (world.state.feeAccount, token)
  obtain ⟨payout, hpayout⟩ : ∃ payout, subUint amount 0 = .ok payout :=
    subUint_isOk.mpr (Nat.zero_le _)
  have hheld : payout.toNat ≤ tokens.holdings world.env token := by
    have hamount : payout.toNat + (0 : Uint256).toNat = amount.toNat := subUint_eq_ok.mp hpayout
    have hcovers := hsolvent.covers wallet token
    have hle : amount.toNat ≤ (world.state.balances wallet token).toNat := hcovered
    omega
  obtain ⟨env, henv⟩ : ∃ env, (if token = 0 then tokens.send world.env wallet payout
      else tokens.transfer world.env token wallet payout) = some env := by
    split
    · next hnative =>
        rw [hnative] at hheld
        exact hpay.send world.env payout hheld
    · next htoken => exact hpay.transfer world.env token payout htoken hheld
  refine ⟨({ world with env }.setBalances balances).emit (.withdrawal wallet sequence token amount 0), ?_⟩
  dsimp only [withdraw]
  rw [if_neg (BitVec.not_lt.mpr hcovered)]
  refine bind_eq_ok.mpr ⟨debited, hdebited, bind_eq_ok.mpr ⟨balances, hcredited, ?_⟩⟩
  exact bind_eq_ok.mpr ⟨payout, hpayout, bind_eq_ok.mpr ⟨env, orRevert_eq_ok.mpr henv, rfl⟩⟩

/-- The wallet is paid `amount` of the token without a fee, its balance goes down by as much, its request
is deleted, and no other balance or request changes. -/
structure Exits (tokens : Tokens E) (world : World E) (wallet token : Address) (amount : Uint256)
    (next : World E) : Prop where
  paid : (if token = 0 then tokens.send world.env wallet amount
    else tokens.transfer world.env token wallet amount) = some next.env
  debited : ∀ w t, (next.state.balances w t).toNat + (if wallet = w ∧ token = t then amount.toNat else 0) =
    (world.state.balances w t).toNat
  deleted : next.state.sovereignWithdrawals =
    Function.update world.state.sovereignWithdrawals wallet .absent
  reported : next.log = world.log ++ [.withdrawal wallet 0 token amount 0]

theorem Pays.exits {wallet token : Address} {amount : Uint256}
    (h : Pays tokens world 0 wallet token amount 0 next) :
    Exits tokens world wallet token amount (setRequest next wallet .absent) := by
  have hbalance := fun w t => h.balance w t
  obtain ⟨balances, env, payout, -, hpayout, henv, -, rfl⟩ := h
  have hpayout : payout = amount := BitVec.eq_of_toNat_eq hpayout
  rw [hpayout] at henv
  refine ⟨henv, fun w t => ?_, rfl, rfl⟩
  have hzero : (if world.state.feeAccount = w ∧ token = t then (0 : Uint256).toNat else 0) = 0 := by
    split <;> rfl
  have hslot := hbalance w t
  rw [hzero] at hslot
  exact hslot.symm

/-- What a call of `sovereignWithdrawal` pays out of the request. -/
def SovereignWithdrawal.withdrawn (request : SovereignWithdrawal) (balance : Uint256) : Uint256 :=
  if request.amount = 0 then balance else request.amount

/-- A request that is due and covered is completed by the call that repeats it. -/
theorem sovereignWithdrawal_exits {request : SovereignWithdrawal} (hpay : tokens.Pay context.sender)
    (hsolvent : Solvent tokens world)
    (hrequest : world.state.sovereignWithdrawals context.sender = request)
    (hactive : request.timestamp ≠ 0)
    (hdue : request.timestamp.toNat + world.state.sovereignWithdrawalDelay.toNat ≤ context.timestamp.toNat)
    (hcovered : request.amount ≤ world.state.balances context.sender request.token) :
    ∃ next, sovereignWithdrawal tokens context world request.token request.amount = .ok next ∧
      Exits tokens world context.sender request.token
        (request.withdrawn (world.state.balances context.sender request.token)) next := by
  obtain ⟨ready, hready⟩ : ∃ ready, addUint request.timestamp world.state.sovereignWithdrawalDelay =
      .ok ready :=
    addUint_isOk.mpr (Nat.lt_of_le_of_lt hdue context.timestamp.isLt)
  have hwithdrawn : request.withdrawn (world.state.balances context.sender request.token) ≤
      world.state.balances context.sender request.token := by
    unfold SovereignWithdrawal.withdrawn
    split
    · exact BitVec.le_refl _
    · exact hcovered
  obtain ⟨executed, hexecuted⟩ := withdraw_goes_through 0 hpay hsolvent hwithdrawn
  have hpays := (withdraw_cases hexecuted).resolve_left fun hdeclines =>
    absurd hwithdrawn (BitVec.not_le.mpr hdeclines.1)
  refine ⟨setRequest executed context.sender .absent, ?_, hpays.exits⟩
  have hreached : ¬context.timestamp < ready := by
    have hsum := addUint_eq_ok.mp hready
    rw [BitVec.lt_def]
    omega
  dsimp only [sovereignWithdrawal]
  rw [hrequest, if_neg hactive]
  refine bind_eq_ok.mpr ⟨ready, hready, ?_⟩
  rw [if_neg hreached, if_pos ⟨rfl, rfl⟩]
  exact bind_eq_ok.mpr ⟨executed, hexecuted, rfl⟩

/-! ### Runs -/

/-- What is assumed of the tokens, the callers and the data of a run. -/
structure Regular (host : Host) (tokens : Tokens E) (inputs : List (Input E)) : Prop where
  exact : tokens.Exact
  senders : ∀ context call, .call context call ∈ inputs → context.sender ≠ tokens.self
  outside : ∀ change, .outside change ∈ inputs →
    ∀ env token, tokens.holdings env token ≤ tokens.holdings (change env) token
  collision : ∀ first ∈ settlementData inputs, ∀ second ∈ settlementData inputs,
    host.keccak256 first = host.keccak256 second → first = second
  amounts : ∀ data ∈ settlementData inputs, ∀ batchSettlement,
    host.decodeBatchSettlement data = some batchSettlement → AmountsBelow batchSettlement

theorem Regular.solvent {inputs : List (Input E)} (h : Regular host tokens inputs)
    (submitter feeAccount : Address) (delay : Uint256) (env : E) :
    Solvent tokens (run host tokens (start submitter feeAccount delay env) inputs) := by
  have hstart : Backed host tokens inputs (start submitter feeAccount delay env) := by
    refine ⟨fun token => ?_, fun hne => absurd rfl hne⟩
    rw [tokenTotal_start]
    exact Nat.zero_le _
  have hreached := Run.foldl_induction (step host tokens) hstart
    (step_backed h.exact h.senders h.outside h.collision h.amounts)
  exact hreached.solvent

/-- In every run, a request that a wallet has made can be completed by it after its delay, whatever the
inputs since, as long as these are no further call of the wallet and no zero-signature entry for it and
its balance covers the request. -/
theorem sovereign_exit (host : Host) (tokens : Tokens E) (submitter feeAccount : Address)
    (delay : Uint256) (env : E) (asked later : List (Input E)) (request : SovereignWithdrawal)
    (context : Context) (hregular : Regular host tokens (asked ++ later))
    (hpay : tokens.Pay context.sender)
    (hrequest : (run host tokens (start submitter feeAccount delay env) asked).state.sovereignWithdrawals
      context.sender = request)
    (hactive : request.timestamp ≠ 0)
    (hspares : ∀ input ∈ later, Spares host context.sender input)
    (hdue : request.timestamp.toNat + (run host tokens (start submitter feeAccount delay env)
        (asked ++ later)).state.sovereignWithdrawalDelay.toNat ≤ context.timestamp.toNat)
    (hcovered : request.amount ≤ (run host tokens (start submitter feeAccount delay env)
        (asked ++ later)).state.balances context.sender request.token) :
    ∃ next, sovereignWithdrawal tokens context
        (run host tokens (start submitter feeAccount delay env) (asked ++ later)) request.token
        request.amount = .ok next ∧
      Exits tokens (run host tokens (start submitter feeAccount delay env) (asked ++ later))
        context.sender request.token
        (request.withdrawn ((run host tokens (start submitter feeAccount delay env)
          (asked ++ later)).state.balances context.sender request.token)) next := by
  have hstands : (run host tokens (start submitter feeAccount delay env)
      (asked ++ later)).state.sovereignWithdrawals context.sender = request := by
    rw [run, List.foldl_append]
    refine Run.foldl_induction (P := fun world : World E =>
      world.state.sovereignWithdrawals context.sender = request) (step host tokens) hrequest ?_
    intro world input hinput hworld
    exact (step_spares (hspares input hinput)).trans hworld
  exact sovereignWithdrawal_exits hpay (hregular.solvent submitter feeAccount delay env) hstands hactive
    hdue hcovered

/-! After the first wallet has asked for its ten units, another deposits four and asks for them. -/

theorem Book.move_isSome {book : Book} {token sender : Address} (recipient : Address)
    {amount : Uint256} (hheld : amount.toNat ≤ book token sender) :
    ∃ next, book.move token sender recipient amount = some next :=
  ⟨_, if_pos hheld⟩

theorem bookTokens_pay (wallet : Address) : bookTokens.Pay wallet where
  transfer := by
    intro env token amount htoken hheld
    obtain ⟨next, hnext⟩ := Book.move_isSome wallet hheld
    exact ⟨next, (if_neg htoken).trans hnext⟩
  send := fun _ _ hheld => Book.move_isSome wallet hheld

def joining : List (Input Book) :=
  [.call ⟨0xb2, 3, 0x0e⟩ (.receive 4), .call ⟨0xb2, 4, 0x0e⟩ (.sovereignWithdrawal 0 4)]

theorem joining_regular : Regular requestedHost bookTokens (requesting ++ joining) where
  exact := bookTokens_exact
  senders := by
    intro context call hmem
    simp only [requesting, depositing, joining, List.cons_append, List.nil_append, List.mem_cons,
      List.not_mem_nil, or_false, Input.call.injEq] at hmem
    rcases hmem with ⟨rfl, -⟩ | ⟨rfl, -⟩ | ⟨rfl, -⟩ | ⟨rfl, -⟩ <;> decide
  outside := by
    intro change hmem
    simp [requesting, depositing, joining] at hmem
  collision := by
    intro first hfirst
    cases hfirst
  amounts := by
    intro data hdata
    cases hdata

theorem joined_exit : ∃ next,
    sovereignWithdrawal bookTokens ⟨0xa1, 86402, 0x0e⟩
        (run requestedHost bookTokens bookStart (requesting ++ joining)) 0 10 = .ok next ∧
      Exits bookTokens (run requestedHost bookTokens bookStart (requesting ++ joining)) 0xa1 0
        (SovereignWithdrawal.withdrawn ⟨0, 10, 2⟩
          ((run requestedHost bookTokens bookStart (requesting ++ joining)).state.balances 0xa1 0))
        next := by
  refine sovereign_exit requestedHost bookTokens 0x5b 0xfe 86400 (fun _ _ => 10) requesting joining
    ⟨0, 10, 2⟩ ⟨0xa1, 86402, 0x0e⟩ joining_regular (bookTokens_pay 0xa1) ?_ (by decide) ?_ ?_ ?_
  · decide +kernel
  · intro input hinput
    simp only [joining, List.mem_cons, List.not_mem_nil, or_false] at hinput
    rcases hinput with rfl | rfl
    · trivial
    · exact fun hsame => absurd hsame (by decide)
  · decide +kernel
  · decide +kernel

end Chainring.Evm.Exchange

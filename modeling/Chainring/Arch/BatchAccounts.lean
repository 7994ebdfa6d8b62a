import Chainring.Arch.SettlementCompletion
import Chainring.Arch.WithdrawalPayouts

/-! On which accounts a prepared batch is submitted. The register holds the digest of the parameters, which
name accounts by position, so that the checks of the submission are all that ties its accounts to those of
the preparation. -/

namespace Chainring.Arch

/-- Call `n` of the run prepares the settlement and sets the hash, and the later call `k` submits it. -/
structure PreparedThenSettled (rt : Runtime) (start : World) (calls : List Call) (n k : Nat)
    (accounts accounts' : List AccountInfo) (raw : Bytes) (params : SettlementBatchParams) : Prop where
  decoded : decodeFromSlice SettlementBatchParams.decode raw = .ok params
  order : n < k
  prepares : ∃ programId, Returns rt start calls n (settlementCall 5 programId accounts raw)
  sets : ∀ program, accounts[0]? = some program →
    settlementHash (worldAt rt start calls (n + 1)) program.key ≠ .ok emptyHash
  submits : ∃ programId, Returns rt start calls k (settlementCall 6 programId accounts' raw)

/-- At the position both calls have a token account of the same program account, and each index is the slot
of a wallet in both whose address ends in the same four characters. -/
def Alike (before after : World) (accounts accounts' : List AccountInfo) (accountIndex : UInt8)
    (addressIndices : List AddressIndex) : Prop :=
  ∃ token token' program, keyAt accounts accountIndex = some token ∧ keyAt accounts' accountIndex = some token' ∧
    Bound .token program (before token).data ∧ Bound .token program (after token').data ∧
    ∀ addressIndex ∈ addressIndices, Wallet addressIndex (before token).data ∧
      Wallet addressIndex (after token').data

/-! ### Accounts of one program -/

section Accounts

variable {accounts accounts' : List AccountInfo} {before after : World} {index : UInt8}

theorem Validated.keyAt_bound {isSigner isWritable : Bool} {accountType : AccountType} {related : UInt8}
    {m : Memory} (h : Validated accounts index isSigner isWritable (some accountType) (some related) m) :
    ∃ key owner, keyAt accounts index = some key ∧ keyAt accounts related = some owner ∧
      Bound accountType owner (m key).data := by
  obtain ⟨account, haccount, -, -, owner, howner, hbound⟩ := h
  exact ⟨account.key, owner.key, keyAt_of_listed haccount, keyAt_of_listed howner, hbound⟩

/-- Two validations of a token account against one program account, with the wallets that each has found. -/
theorem alike_of_validated {isWritable isWritable' : Bool} {addressIndices : List AddressIndex}
    (hvalidated : Validated accounts index false isWritable (some .token) (some 0) (load before))
    (hvalidated' : Validated accounts' index false isWritable' (some .token) (some 0) (load after))
    (hprogram : keyAt accounts' 0 = keyAt accounts 0)
    (hwallets : ∀ token, keyAt accounts index = some token →
      ∀ addressIndex ∈ addressIndices, Wallet addressIndex (before token).data)
    (hwallets' : ∀ token, keyAt accounts' index = some token →
      ∀ addressIndex ∈ addressIndices, Wallet addressIndex (after token).data) :
    Alike before after accounts accounts' index addressIndices := by
  obtain ⟨token, program, htoken, hfirst, hbound⟩ := hvalidated.keyAt_bound
  obtain ⟨token', program', htoken', hfirst', hbound'⟩ := hvalidated'.keyAt_bound
  obtain rfl : program' = program := Option.some.inj (hfirst'.symm.trans (hprogram.trans hfirst))
  refine ⟨token, token', program', htoken, htoken', hbound, hbound', fun addressIndex hmem => ?_⟩
  exact ⟨hwallets token htoken addressIndex hmem, hwallets' token' htoken' addressIndex hmem⟩

end Accounts

section Runs

variable {rt : Runtime} {start : World} {calls : List Call} {n k : Nat} {accounts accounts' : List AccountInfo}
  {raw : Bytes}

/-! ### Settlements -/

theorem PreparedThenSettled.prepared {params : SettlementBatchParams}
    (h : PreparedThenSettled rt start calls n k accounts accounts' raw params) :
    ∀ tokenSettlements ∈ params.settlements,
      SettlementVerified accounts (load (worldAt rt start calls n)) tokenSettlements := by
  obtain ⟨programId, hprepares⟩ := h.prepares
  obtain ⟨instruction, m, hinstruction, hrun, -, -⟩ := execute_cases hprepares.execute
  obtain rfl := Except.ok.inj (hinstruction.symm.trans (settlementCall_prepare h.decoded programId accounts))
  obtain ⟨program, -, -, -, hfirst, -⟩ := prepareSettlementBatch_cases hrun
  exact (prepared_facts h.decoded hfirst hprepares.execute (h.sets program hfirst)).1

theorem PreparedThenSettled.settled {params : SettlementBatchParams}
    (h : PreparedThenSettled rt start calls n k accounts accounts' raw params) :
    ∀ tokenSettlements ∈ params.settlements,
      SettlementReady accounts' (load (worldAt rt start calls k)) tokenSettlements := by
  obtain ⟨programId, hsubmits⟩ := h.submits
  obtain ⟨instruction, m, hinstruction, hrun, -, -⟩ := execute_cases hsubmits.execute
  obtain rfl := Except.ok.inj (hinstruction.symm.trans (settlementCall_submit h.decoded programId accounts'))
  obtain ⟨_, applied, _, -, -, -, -, happly, -, -⟩ := submitSettlementBatch_cases hrun
  exact ((admits_settlements params.settlements _ (AmountsOnly.refl _)).mp ⟨(), applied, happly⟩).1

theorem settled_alike {params : SettlementBatchParams}
    (h : PreparedThenSettled rt start calls n k accounts accounts' raw params)
    (hprogram : keyAt accounts' 0 = keyAt accounts 0) :
    ∀ tokenSettlements ∈ params.settlements,
      Alike (worldAt rt start calls n) (worldAt rt start calls k) accounts accounts'
        tokenSettlements.accountIndex
        ((tokenSettlements.increments ++ tokenSettlements.decrements).map Adjustment.addressIndex) := by
  intro tokenSettlements hmem
  obtain ⟨hvalidated, hverified⟩ := h.prepared tokenSettlements hmem
  obtain ⟨hvalidated', hready⟩ := h.settled tokenSettlements hmem
  apply alike_of_validated hvalidated hvalidated' hprogram
  · intro token htoken addressIndex hmem
    obtain ⟨adjustment, hadjustment, rfl⟩ := List.mem_map.mp hmem
    rcases List.mem_append.mp hadjustment with hincrement | hdecrement
    · exact (hverified token htoken).increments adjustment hincrement
    · exact ((hverified token htoken).decrements adjustment hdecrement).1.1
  · intro token htoken addressIndex hmem
    obtain ⟨adjustment, hadjustment, rfl⟩ := List.mem_map.mp hmem
    rcases List.mem_append.mp hadjustment with hincrement | hdecrement
    · exact ((hready token htoken).increments adjustment hincrement).1
    · exact ((hready token htoken).decrements adjustment hdecrement).1

/-! ### Withdrawals -/

/-- A withdraw account stays with its program account. -/
theorem PreparedThenSubmitted.sameProgram {params : WithdrawBatchParams}
    (h : PreparedThenSubmitted rt start calls n k accounts accounts' raw params)
    (hwithdraw : keyAt accounts' 1 = keyAt accounts 1) : keyAt accounts' 0 = keyAt accounts 0 := by
  obtain ⟨programId, hprepares⟩ := h.prepares
  obtain ⟨instruction, m, hinstruction, hrun, -, -⟩ := execute_cases hprepares.execute
  obtain rfl := Except.ok.inj (hinstruction.symm.trans (withdrawCall_prepare programId accounts h.decoded))
  obtain ⟨_, _, _, _, _, _, _, -, hvalidated, -⟩ := prepareWithdrawBatch_cases hrun
  obtain ⟨programId', hsubmits⟩ := h.submits
  obtain ⟨instruction, m', hinstruction', hrun', -, -⟩ := execute_cases hsubmits.execute
  obtain rfl := Except.ok.inj (hinstruction'.symm.trans (withdrawCall_submit programId' accounts' h.decoded))
  obtain ⟨_, _, _, _, _, _, -, hvalidated', -⟩ := submitWithdrawBatch_cases hrun'
  obtain ⟨withdraw, program, hsecond, hfirst, hbound⟩ := hvalidated.keyAt_bound
  obtain ⟨withdraw', program', hsecond', hfirst', hbound'⟩ := hvalidated'.keyAt_bound
  obtain rfl : withdraw' = withdraw := Option.some.inj (hsecond'.symm.trans (hwithdraw.trans hsecond))
  have hheader := worldAt_header h.order.le h.le_length (ne_nil_of_getType hbound.1)
  have hkept := (bound_congr hheader).mpr hbound
  calc keyAt accounts' 0
      _ = some program' := hfirst'
      _ = some program := congrArg some (Except.ok.inj (hbound'.2.symm.trans hkept.2))
      _ = keyAt accounts 0 := hfirst.symm

theorem submitted_alike {params : WithdrawBatchParams}
    (h : PreparedThenSubmitted rt start calls n k accounts accounts' raw params)
    (hwithdraw : keyAt accounts' 1 = keyAt accounts 1) :
    ∀ tokenWithdrawals ∈ params.tokenWithdrawals,
      Alike (worldAt rt start calls n) (worldAt rt start calls k) accounts accounts'
          tokenWithdrawals.accountIndex (tokenWithdrawals.withdrawals.map Withdrawal.addressIndex) ∧
        ∀ withdrawal ∈ tokenWithdrawals.withdrawals,
          Alike (worldAt rt start calls n) (worldAt rt start calls k) accounts accounts'
            withdrawal.feeAccountIndex [] := by
  intro tokenWithdrawals hmem
  have hprogram := h.sameProgram hwithdraw
  obtain ⟨_, _, _, _, -, -, -, -, hverified, -⟩ := h.prepared
  obtain ⟨_, _, _, payouts, -, -, -, hrepaid⟩ := h.submitted
  obtain ⟨hvalidated, hwithdrawals⟩ := hverified tokenWithdrawals hmem
  obtain ⟨paid, hvalidated', key', hkey', hresubmitted⟩ := exists_of_forall₂ hrepaid hmem
  obtain ⟨token, -, htoken, -, -⟩ := hvalidated.keyAt_bound
  constructor
  · apply alike_of_validated hvalidated hvalidated' hprogram
    · intro token htoken addressIndex hmem
      obtain ⟨withdrawal, hwithdrawal, rfl⟩ := List.mem_map.mp hmem
      exact (hwithdrawals token htoken withdrawal hwithdrawal).payer.wallet.wallet
    · intro token' htoken' addressIndex hmem
      obtain ⟨withdrawal, hwithdrawal, rfl⟩ := List.mem_map.mp hmem
      obtain ⟨payout, hrepaid⟩ := exists_of_forall₂ hresubmitted hwithdrawal
      obtain rfl := Option.some.inj (htoken'.symm.trans hkey')
      exact hrepaid.wallet
  · intro withdrawal hwithdrawal
    obtain ⟨payout, hrepaid⟩ := exists_of_forall₂ hresubmitted hwithdrawal
    have hfeeAccount := (hwithdrawals token htoken withdrawal hwithdrawal).feeAccount
    exact alike_of_validated hfeeAccount hrepaid.feeAccount hprogram (fun _ _ _ hnil => absurd hnil List.not_mem_nil)
      fun _ _ _ hnil => absurd hnil List.not_mem_nil

end Runs

/-- A batch that is submitted on the register that its preparation has set adjusts or pays out, at each
position, a token account of the program account that the preparation was for, with wallets of the same last
characters. -/
theorem batches_alike (rt : Runtime) (start : World) (calls : List Call) (n k : Nat)
    (accounts accounts' : List AccountInfo) (raw : Bytes) :
    (∀ params, PreparedThenSettled rt start calls n k accounts accounts' raw params →
      keyAt accounts' 0 = keyAt accounts 0 →
      ∀ tokenSettlements ∈ params.settlements,
        Alike (worldAt rt start calls n) (worldAt rt start calls k) accounts accounts'
          tokenSettlements.accountIndex
          ((tokenSettlements.increments ++ tokenSettlements.decrements).map Adjustment.addressIndex)) ∧
    ∀ params, PreparedThenSubmitted rt start calls n k accounts accounts' raw params →
      keyAt accounts' 1 = keyAt accounts 1 →
      ∀ tokenWithdrawals ∈ params.tokenWithdrawals,
        Alike (worldAt rt start calls n) (worldAt rt start calls k) accounts accounts'
            tokenWithdrawals.accountIndex (tokenWithdrawals.withdrawals.map Withdrawal.addressIndex) ∧
          ∀ withdrawal ∈ tokenWithdrawals.withdrawals,
            Alike (worldAt rt start calls n) (worldAt rt start calls k) accounts accounts'
              withdrawal.feeAccountIndex [] :=
  ⟨fun _ h hprogram => settled_alike h hprogram, fun _ h hwithdraw => submitted_alike h hwithdraw⟩

/-! ### Two batches on other accounts -/

/-- The accounts of a settlement with the two tokens in each other's place. -/
def swappedAccounts : List AccountInfo :=
  [⟨sampleProgram, true, true⟩, ⟨secondToken, false, true⟩, ⟨firstToken, false, true⟩]

def swappedWorld : World := sampleWorld
  [(sampleProgram, programData emptyHash emptyHash), (firstToken, tokenData [0x31] 0 0 100),
    (secondToken, tokenData [0x32] 0 0 100)]

def swappedTrade : List Call :=
  [tradeCall 5 false evenTrade, settlementCall 6 (sampleKey 0xee) swappedAccounts evenTrade]

theorem swapped_runs :
    (execute tradingRuntime (worldAt tradingRuntime swappedWorld swappedTrade 0) (tradeCall 5 false evenTrade)).isSome ∧
    settlementHash (worldAt tradingRuntime swappedWorld swappedTrade 1) sampleProgram ≠ .ok emptyHash ∧
    (execute tradingRuntime (worldAt tradingRuntime swappedWorld swappedTrade 1)
      (settlementCall 6 (sampleKey 0xee) swappedAccounts evenTrade)).isSome := by
  decide +kernel

theorem swapped_settled :
    PreparedThenSettled tradingRuntime swappedWorld swappedTrade 0 1 (tokenAccounts false) swappedAccounts
      evenTrade evenTradeParams where
  decoded := by decide +kernel
  order := by decide
  prepares := ⟨sampleKey 0xee, rfl, swapped_runs.1⟩
  sets := by
    intro program hprogram
    obtain rfl := Option.some.inj hprogram
    exact swapped_runs.2.1
  submits := ⟨sampleKey 0xee, rfl, swapped_runs.2.2⟩

def twinWorld : World := submitWorld [(sampleKey 0x31, [0x31]), (sampleKey 0x32, [0x32])]

def twinCalls : List Call :=
  [smallPrepare, withdrawCall 9 (sampleKey 0xee) (submittingAccounts (sampleKey 0x32)) smallBatch]

theorem twin_runs :
    (execute smallRuntime (worldAt smallRuntime twinWorld twinCalls 0) smallPrepare).isSome ∧
    withdrawHash (worldAt smallRuntime twinWorld twinCalls 1) sampleWithdraw ≠ .ok emptyHash ∧
    (execute smallRuntime (worldAt smallRuntime twinWorld twinCalls 1)
      (withdrawCall 9 (sampleKey 0xee) (submittingAccounts (sampleKey 0x32)) smallBatch)).isSome := by
  decide +kernel

theorem twin_submitted :
    PreparedThenSubmitted smallRuntime twinWorld twinCalls 0 1 (preparingAccounts (sampleKey 0x31))
      (submittingAccounts (sampleKey 0x32)) smallBatch smallBatchParams where
  decoded := small_submitted.decoded
  order := by decide
  prepares := ⟨sampleKey 0xee, rfl, twin_runs.1⟩
  sets := by
    intro withdraw hwithdraw
    obtain rfl := Option.some.inj hwithdraw
    exact twin_runs.2.1
  submits := ⟨sampleKey 0xee, rfl, twin_runs.2.2⟩

/-- The trade and the withdrawal go through on tokens that they were not prepared on. -/
theorem swapped_alike :
    Alike (worldAt tradingRuntime swappedWorld swappedTrade 0) (worldAt tradingRuntime swappedWorld swappedTrade 1)
        (tokenAccounts false) swappedAccounts 1
        [⟨1, ⟨firstAddress.drop 40, rfl⟩⟩, ⟨2, ⟨secondAddress.drop 40, rfl⟩⟩] ∧
      Alike (worldAt smallRuntime twinWorld twinCalls 0) (worldAt smallRuntime twinWorld twinCalls 1)
        (preparingAccounts (sampleKey 0x31)) (submittingAccounts (sampleKey 0x32)) 3
        [⟨1, ⟨firstAddress.drop 40, rfl⟩⟩] := by
  constructor
  · exact (batches_alike _ _ _ _ _ _ _ _).1 evenTradeParams swapped_settled rfl _ List.mem_cons_self
  · exact ((batches_alike _ _ _ _ _ _ _ _).2 smallBatchParams twin_submitted rfl _ List.mem_cons_self).1

/-- Neither batch is tied to the accounts themselves. -/
theorem swapped_not_same :
    (¬∀ (rt : Runtime) (start : World) (calls : List Call) (n k : Nat) (accounts accounts' : List AccountInfo)
      (raw : Bytes) (params : SettlementBatchParams),
      PreparedThenSettled rt start calls n k accounts accounts' raw params →
      keyAt accounts' 0 = keyAt accounts 0 →
      ∀ tokenSettlements ∈ params.settlements,
        keyAt accounts' tokenSettlements.accountIndex = keyAt accounts tokenSettlements.accountIndex) ∧
    ¬∀ (rt : Runtime) (start : World) (calls : List Call) (n k : Nat) (accounts accounts' : List AccountInfo)
      (raw : Bytes) (params : WithdrawBatchParams),
      PreparedThenSubmitted rt start calls n k accounts accounts' raw params →
      keyAt accounts' 1 = keyAt accounts 1 →
      ∀ tokenWithdrawals ∈ params.tokenWithdrawals,
        keyAt accounts' tokenWithdrawals.accountIndex = keyAt accounts tokenWithdrawals.accountIndex := by
  constructor
  · intro hsame
    have hequal := hsame _ _ _ _ _ _ _ _ _ swapped_settled rfl _ List.mem_cons_self
    exact absurd hequal (by decide)
  · intro hsame
    have hequal := hsame _ _ _ _ _ _ _ _ _ twin_submitted rfl _ List.mem_cons_self
    exact absurd hequal (by decide)

end Chainring.Arch

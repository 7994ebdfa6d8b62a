import Chainring.Arch.Verification
import Mathlib.Data.Finset.Prod

/-! What a settlement does to the totals of the token accounts. The check of a batch adds the amounts of
all its entries to one wrapping sum, while the submission moves them account by account: a prepared and
submitted batch keeps the total of an account exactly when the credits of that account are its debits
and what its wallets lost in wrapping. -/

namespace Chainring.Arch

open Ledger (Entry)

/-! ### Totals -/

/-- The sum of all wallet balances of a token account. -/
def tokenTotal (data : Bytes) : Nat := ∑ index ∈ Finset.range (numBalances data), amountAt data index

def amountTotal (adjustments : List Adjustment) : Nat :=
  (adjustments.map fun adjustment => adjustment.amount.toNat).sum

/-- What a batch credits to the wallets of an account, fees included. -/
def tokenCredits (accounts : List AccountInfo) (settlements : List SettlementAdjustments)
    (token : Pubkey) : Nat :=
  (settlements.map fun tokenSettlements =>
    if keyAt accounts tokenSettlements.accountIndex = some token then
      tokenSettlements.feeAmount.toNat + amountTotal tokenSettlements.increments
    else 0).sum

def tokenDebits (accounts : List AccountInfo) (settlements : List SettlementAdjustments)
    (token : Pubkey) : Nat :=
  (settlements.map fun tokenSettlements =>
    if keyAt accounts tokenSettlements.accountIndex = some token then
      amountTotal tokenSettlements.decrements
    else 0).sum

/-- How often wallets of an account go past the word when a batch is applied. -/
def tokenOverflows (w : World) (accounts : List AccountInfo) (settlements : List SettlementAdjustments)
    (token : Pubkey) : Nat :=
  ∑ index ∈ Finset.range (numBalances (w token).data),
    Ledger.overflows amountModulus (balances (load w)) (settlements.flatMap (entriesOf accounts))
      (token, index)

/-- The wallet slots in use of an account. -/
def tokenSlots (token : Pubkey) (count : Nat) : Finset (Pubkey × Nat) :=
  {token} ×ˢ Finset.range count

theorem mem_tokenSlots {token key : Pubkey} {count index : Nat} :
    (key, index) ∈ tokenSlots token count ↔ key = token ∧ index < count := by
  rw [tokenSlots, Finset.mem_product, Finset.mem_singleton, Finset.mem_range]

theorem sum_tokenSlots (f : Pubkey × Nat → Nat) (token : Pubkey) (count : Nat) :
    ∑ slot ∈ tokenSlots token count, f slot = ∑ index ∈ Finset.range count, f (token, index) := by
  rw [tokenSlots, Finset.sum_product, Finset.sum_singleton]

theorem tokenTotal_eq (m : Memory) (token : Pubkey) :
    tokenTotal (m token).data =
      ∑ slot ∈ tokenSlots token (numBalances (m token).data), balances m slot := by
  rw [sum_tokenSlots]
  rfl

/-! ### Entries of an account -/

section Entries

variable {token key : Pubkey} {count : Nat}

theorem sum_credits {adjustments : List Adjustment}
    (hinUse : key = token → ∀ adjustment ∈ adjustments, adjustment.addressIndex.index.toNat < count) :
    ((credits key adjustments).map (Entry.creditIn (tokenSlots token count))).sum =
      if key = token then amountTotal adjustments else 0 := by
  rw [credits, Ledger.sum_map_flatMap, amountTotal]
  by_cases hkey : key = token
  · rw [if_pos hkey]
    refine congrArg List.sum (List.map_congr_left fun adjustment hmem => ?_)
    simp [Entry.creditIn, mem_tokenSlots, hkey, hinUse hkey adjustment hmem]
  · rw [if_neg hkey]
    simp [Entry.creditIn, mem_tokenSlots, hkey]

theorem sum_debits {adjustments : List Adjustment}
    (hinUse : key = token → ∀ adjustment ∈ adjustments, adjustment.addressIndex.index.toNat < count) :
    ((debits key adjustments).map (Entry.debitIn (tokenSlots token count))).sum =
      if key = token then amountTotal adjustments else 0 := by
  rw [debits, Ledger.sum_map_flatMap, amountTotal]
  by_cases hkey : key = token
  · rw [if_pos hkey]
    refine congrArg List.sum (List.map_congr_left fun adjustment hmem => ?_)
    simp [Entry.debitIn, mem_tokenSlots, hkey, hinUse hkey adjustment hmem]
  · rw [if_neg hkey]
    simp [Entry.debitIn, mem_tokenSlots, hkey]

theorem sum_credits_debits (token key : Pubkey) (count : Nat) (adjustments : List Adjustment) :
    ((credits key adjustments).map (Entry.debitIn (tokenSlots token count))).sum = 0 ∧
      ((debits key adjustments).map (Entry.creditIn (tokenSlots token count))).sum = 0 := by
  rw [credits, debits, Ledger.sum_map_flatMap, Ledger.sum_map_flatMap]
  simp [Entry.creditIn, Entry.debitIn]

/-- What a ready entry posts to the wallets of an account. -/
theorem sum_entries {tokenSettlements : SettlementAdjustments} {data : Bytes}
    (hready : AdjustmentsReady tokenSettlements data) (hcount : key = token → count = numBalances data) :
    ((tokenSettlements.entries key).map (Entry.creditIn (tokenSlots token count))).sum =
        (if key = token then tokenSettlements.feeAmount.toNat + amountTotal tokenSettlements.increments
          else 0) ∧
      ((tokenSettlements.entries key).map (Entry.debitIn (tokenSlots token count))).sum =
        (if key = token then amountTotal tokenSettlements.decrements else 0) := by
  have hincrements : key = token → ∀ adjustment ∈ tokenSettlements.increments,
      adjustment.addressIndex.index.toNat < count := by
    intro hkey adjustment hmem
    rw [hcount hkey]
    exact (hready.increments adjustment hmem).1.inUse
  have hdecrements : key = token → ∀ adjustment ∈ tokenSettlements.decrements,
      adjustment.addressIndex.index.toNat < count := by
    intro hkey adjustment hmem
    rw [hcount hkey]
    exact (hready.decrements adjustment hmem).1.inUse
  have hfee : (((if 0 < tokenSettlements.feeAmount then
        [Entry.credit (key, 0) tokenSettlements.feeAmount.toNat] else []).map
        (Entry.creditIn (tokenSlots token count))).sum =
          if key = token then tokenSettlements.feeAmount.toNat else 0) ∧
      ((if 0 < tokenSettlements.feeAmount then
        [Entry.credit (key, 0) tokenSettlements.feeAmount.toNat] else []).map
        (Entry.debitIn (tokenSlots token count))).sum = 0 := by
    by_cases hpos : 0 < tokenSettlements.feeAmount
    · rw [if_pos hpos]
      by_cases hkey : key = token
      · have hzero : 0 < count := by
          rw [hcount hkey]
          exact (hready.fee hpos).1
        simp [Entry.creditIn, Entry.debitIn, mem_tokenSlots, hkey, hzero]
      · simp [Entry.creditIn, Entry.debitIn, mem_tokenSlots, hkey]
    · have hnone : tokenSettlements.feeAmount.toNat = 0 := by
        rw [UInt64.lt_iff_toNat_lt] at hpos
        exact Nat.eq_zero_of_not_pos hpos
      rw [if_neg hpos, hnone]
      simp
  obtain ⟨hnoDebits, -⟩ := sum_credits_debits token key count tokenSettlements.increments
  obtain ⟨-, hnoCredits⟩ := sum_credits_debits token key count tokenSettlements.decrements
  rw [SettlementAdjustments.entries]
  simp only [List.map_append, List.sum_append, hfee.1, hfee.2, sum_credits hincrements,
    sum_debits hdecrements, hnoDebits, hnoCredits]
  by_cases hkey : key = token
  · simp [hkey]
  · simp [hkey]

end Entries

/-! ### The batch -/

section Batch

variable {rt : Runtime} {accounts : List AccountInfo} {m m' : Memory}

/-- What a ready batch posts to the wallets of an account. -/
theorem sum_batch {settlements : List SettlementAdjustments}
    (hready : ∀ tokenSettlements ∈ settlements, SettlementReady accounts m tokenSettlements)
    (token : Pubkey) :
    ((settlements.flatMap (entriesOf accounts)).map
        (Entry.creditIn (tokenSlots token (numBalances (m token).data)))).sum =
      tokenCredits accounts settlements token ∧
    ((settlements.flatMap (entriesOf accounts)).map
        (Entry.debitIn (tokenSlots token (numBalances (m token).data)))).sum =
      tokenDebits accounts settlements token := by
  rw [Ledger.sum_map_flatMap, Ledger.sum_map_flatMap, tokenCredits, tokenDebits]
  have hentries : ∀ tokenSettlements ∈ settlements, ∃ key,
      keyAt accounts tokenSettlements.accountIndex = some key ∧
      entriesOf accounts tokenSettlements = tokenSettlements.entries key ∧
      AdjustmentsReady tokenSettlements (m key).data := by
    intro tokenSettlements hmem
    obtain ⟨⟨account, haccount, -⟩, hadjustments⟩ := hready tokenSettlements hmem
    exact ⟨account.key, keyAt_of_listed haccount, entriesOf_listed haccount,
      hadjustments _ (keyAt_of_listed haccount)⟩
  constructor
  · refine congrArg List.sum (List.map_congr_left fun tokenSettlements hmem => ?_)
    obtain ⟨key, hkey, hposted, hadjustments⟩ := hentries tokenSettlements hmem
    rw [hposted, (sum_entries hadjustments fun heq => by rw [heq]).1, hkey]
    simp only [Option.some.injEq]
  · refine congrArg List.sum (List.map_congr_left fun tokenSettlements hmem => ?_)
    obtain ⟨key, hkey, hposted, hadjustments⟩ := hentries tokenSettlements hmem
    rw [hposted, (sum_entries hadjustments fun heq => by rw [heq]).2, hkey]
    simp only [Option.some.injEq]

/-- Applying a batch moves the total of an account by its credits less its debits, less the words that
its wallets lose. -/
theorem applied_total {settlements : List SettlementAdjustments} {u : Unit}
    (h : (settlements.forM (applySettlement accounts)).run m = .ok u m') (token : Pubkey) :
    tokenTotal (m token).data + tokenCredits accounts settlements token =
      tokenTotal (m' token).data + tokenDebits accounts settlements token +
        amountModulus * ∑ index ∈ Finset.range (numBalances (m token).data),
          Ledger.overflows amountModulus (balances m) (settlements.flatMap (entriesOf accounts))
            (token, index) := by
  obtain ⟨-, hamounts, hrun⟩ := posts_settlements settlements m u m' (AmountsOnly.refl m) h
  obtain ⟨hready, -⟩ := (admits_settlements settlements m (AmountsOnly.refl m)).mp ⟨u, m', h⟩
  obtain ⟨hcredits, hdebits⟩ := sum_batch hready token
  have hsum := Ledger.run_sum .wraps amountModulus (by decide) (balances_lt m) hrun
    (tokenSlots token (numBalances (m token).data))
  rw [hcredits, hdebits, sum_tokenSlots (Ledger.overflows _ _ _)] at hsum
  rw [tokenTotal_eq m, tokenTotal_eq m', hamounts.numBalances_eq]
  exact hsum

/-- The hashes go to the program account, which is no token account. -/
theorem submitSettlementBatch_total {params : SettlementBatchParams} {raw : Bytes} {u : Unit}
    (h : (submitSettlementBatch rt accounts params raw).run m = .ok u m') {token : Pubkey}
    (htoken : getType (m token).data = .ok .token) :
    tokenTotal (m token).data + tokenCredits accounts params.settlements token =
      tokenTotal (m' token).data + tokenDebits accounts params.settlements token +
        amountModulus * ∑ index ∈ Finset.range (numBalances (m token).data),
          Ledger.overflows amountModulus (balances m)
            (params.settlements.flatMap (entriesOf accounts)) (token, index) := by
  obtain ⟨program, applied, marked, hvalidated, hprogram, -, -, happly, hmark, hclear⟩ :=
    submitSettlementBatch_cases h
  obtain ⟨first, hled⟩ := led_of_validated hvalidated
  obtain rfl : first = program := Option.some.inj (hled.listed.symm.trans hprogram)
  have hne : token ≠ first.key := by
    rintro rfl
    have hkind := htoken.symm.trans hled.program
    cases hkind
  obtain ⟨markedData, -, rfl⟩ := write_eq_ok.mp hmark
  obtain ⟨clearedData, -, rfl⟩ := write_eq_ok.mp hclear
  rw [Memory.setData_of_ne _ _ hne, Memory.setData_of_ne _ _ hne]
  exact applied_total happly token

end Batch

/-! ### Prepared and submitted -/

section Settled

variable {rt : Runtime} {w w' : World} {call : Call}

/-- A call whose instruction does not reach token accounts leaves their data alone. -/
theorem execute_token_kept (h : execute rt w call = some w') {instruction : ProgramInstruction}
    (hinstruction : call.instruction = .ok instruction)
    (hreach : ∀ data o, ¬instruction.reach.token data o) {token : Pubkey}
    (htoken : getType (w token).data = .ok .token) : (w' token).data = (w token).data := by
  obtain ⟨_, m, -, -, htouches, hdata⟩ := execute_cases h
  rw [reachOf_eq hinstruction] at htouches
  rw [hdata]
  apply List.ext_getElem?
  intro o
  by_contra hchanged
  obtain ⟨-, hempty | ⟨first, -, -, hprogram, ⟨rfl, -⟩ | ⟨-, htouched⟩ | ⟨hwithdraw, -⟩⟩⟩ :=
    htouches.bytes token o hchanged
  · exact ne_nil_of_getType htoken hempty
  · have hkind := htoken.symm.trans hprogram
    cases hkind
  · exact hreach _ o htouched
  · have hkind := htoken.symm.trans hwithdraw.1
    cases hkind

end Settled

section SameAccounts

variable {accounts accounts' : List AccountInfo} {settlements : List SettlementAdjustments}

theorem tokenCredits_congr (hsame : SameTokenAccounts settlements accounts accounts') (token : Pubkey) :
    tokenCredits accounts' settlements token = tokenCredits accounts settlements token := by
  unfold tokenCredits
  refine congrArg List.sum (List.map_congr_left fun tokenSettlements hmem => ?_)
  rw [hsame tokenSettlements hmem]

theorem tokenDebits_congr (hsame : SameTokenAccounts settlements accounts accounts') (token : Pubkey) :
    tokenDebits accounts' settlements token = tokenDebits accounts settlements token := by
  unfold tokenDebits
  refine congrArg List.sum (List.map_congr_left fun tokenSettlements hmem => ?_)
  rw [hsame tokenSettlements hmem]

/-- The overflows of an account are those of its own balances. -/
theorem tokenOverflows_congr (hsame : SameTokenAccounts settlements accounts accounts') {w w' : World}
    {token : Pubkey} (hdata : (w' token).data = (w token).data) :
    tokenOverflows w' accounts' settlements token = tokenOverflows w accounts settlements token := by
  have hbalance : ∀ index, balances (load w') (token, index) = balances (load w) (token, index) := by
    intro index
    show amountAt (w' token).data index = amountAt (w token).data index
    rw [hdata]
  simp only [tokenOverflows, Ledger.overflows, hsame.flatMap_entriesOf, hdata, hbalance]

end SameAccounts

/-- A batch that is prepared and then submitted on the same accounts moves the total of a token account by
its credits less its debits, less a word for each time that a wallet of it wraps. -/
theorem settled_total {rt : Runtime} {before prepared settled : World} {programId programId' : Pubkey}
    {accounts accounts' : List AccountInfo} {rawParamsData : Bytes} {params : SettlementBatchParams}
    (hparams : decodeFromSlice SettlementBatchParams.decode rawParamsData = .ok params)
    (hsame : SameTokenAccounts params.settlements accounts accounts')
    (hprepare : execute rt before (settlementCall 5 programId accounts rawParamsData) = some prepared)
    (hsubmit : execute rt prepared (settlementCall 6 programId' accounts' rawParamsData) = some settled)
    {token : Pubkey} (htoken : getType (before token).data = .ok .token) :
    tokenTotal (before token).data + tokenCredits accounts params.settlements token =
      tokenTotal (settled token).data + tokenDebits accounts params.settlements token +
        amountModulus * tokenOverflows before accounts params.settlements token := by
  have hkept : (prepared token).data = (before token).data :=
    execute_token_kept hprepare (settlementCall_prepare hparams programId accounts) (fun _ _ h => h) htoken
  obtain ⟨instruction, m, hinstruction, hrun, -, hdata⟩ := execute_cases hsubmit
  obtain rfl := Except.ok.inj (hinstruction.symm.trans (settlementCall_submit hparams programId' accounts'))
  have htoken' : getType (load prepared token).data = .ok .token := by
    rw [show (load prepared token).data = (before token).data from hkept, htoken]
  have htotal := submitSettlementBatch_total hrun htoken'
  rw [← hdata token] at htotal
  rw [← tokenOverflows_congr hsame hkept, ← tokenCredits_congr hsame, ← tokenDebits_congr hsame, ← hkept]
  exact htotal

/-- A batch that is prepared and then submitted on the same accounts keeps the total of every token
account exactly when the fees and increments of each are its decrements and one word for each time that
a wallet of it wraps. -/
theorem settled_conserves_iff (rt : Runtime) (before prepared settled : World)
    (programId programId' : Pubkey) (accounts accounts' : List AccountInfo) (rawParamsData : Bytes)
    (params : SettlementBatchParams)
    (hparams : decodeFromSlice SettlementBatchParams.decode rawParamsData = .ok params)
    (hsame : SameTokenAccounts params.settlements accounts accounts')
    (hprepare : execute rt before (settlementCall 5 programId accounts rawParamsData) = some prepared)
    (hsubmit : execute rt prepared (settlementCall 6 programId' accounts' rawParamsData) = some settled) :
    (∀ token, getType (before token).data = .ok .token →
      tokenTotal (settled token).data = tokenTotal (before token).data) ↔
    ∀ token, getType (before token).data = .ok .token →
      tokenCredits accounts params.settlements token =
        tokenDebits accounts params.settlements token +
          amountModulus * tokenOverflows before accounts params.settlements token := by
  apply forall_congr'
  intro token
  apply imp_congr_right
  intro htoken
  have htotal := settled_total hparams hsame hprepare hsubmit htoken
  constructor
  · intro hkept
    omega
  · intro hnets
    omega

/-! ### Two batches -/

def firstToken : Pubkey := sampleKey 0x31

def secondToken : Pubkey := sampleKey 0x32

/-- The accounts of a call on the two tokens. -/
def tokenAccounts (isWritable : Bool) : List AccountInfo :=
  [⟨sampleProgram, true, true⟩, ⟨firstToken, false, isWritable⟩, ⟨secondToken, false, isWritable⟩]

def tradingWorld : World := sampleWorld
  [(sampleProgram, programData emptyHash emptyHash), (firstToken, tokenData [0x31] 0 0 100),
    (secondToken, tokenData [0x32] 0 100 0)]

/-- The second wallet pays 95 of the first token to the first wallet, and a fee of 5. -/
def evenTrade : Bytes :=
  batchBytes [settlementBytes 1 [adjustmentBytes 1 firstAddress 95] [adjustmentBytes 2 secondAddress 100] 5]

/-- The first wallet gets 100 of the first token and loses 100 of the second. -/
def crossedTrade : Bytes :=
  batchBytes [settlementBytes 1 [adjustmentBytes 1 firstAddress 100] [] 0,
    settlementBytes 2 [] [adjustmentBytes 1 firstAddress 100] 0]

def evenTradeDigest : Hash :=
  ⟨[0xb1, 0x85, 0x1d, 0x9d, 0xd9, 0xaf, 0xbb, 0x4d, 0xcb, 0x91, 0xef, 0x33, 0x91, 0x9b, 0x53, 0x01,
    0x7a, 0x0f, 0x06, 0x26, 0xc7, 0x0e, 0x6a, 0xa7, 0x69, 0x82, 0x11, 0x4b, 0x23, 0xb9, 0x23, 0x7f], rfl⟩

def crossedTradeDigest : Hash :=
  ⟨[0xb5, 0x08, 0x44, 0xa3, 0x27, 0xc4, 0xa0, 0x5a, 0x7d, 0xde, 0xac, 0x24, 0x91, 0x84, 0x4b, 0xd1,
    0x5a, 0x2b, 0x13, 0x0d, 0x04, 0x07, 0x66, 0x7d, 0x07, 0xe7, 0xb1, 0xda, 0xd7, 0x23, 0xaf, 0x36], rfl⟩

def tradingRuntime : Runtime :=
  sampleRuntime [(evenTrade, evenTradeDigest), (crossedTrade, crossedTradeDigest)]

def tradeCall (instrType : UInt8) (isWritable : Bool) (trade : Bytes) : Call :=
  settlementCall instrType (sampleKey 0xee) (tokenAccounts isWritable) trade

def evenTradeParams : SettlementBatchParams where
  settlements :=
    [{ accountIndex := 1
       increments := [⟨⟨1, ⟨firstAddress.drop 40, firstAddress_last4⟩⟩, 95⟩]
       decrements := [⟨⟨2, ⟨secondAddress.drop 40, secondAddress_last4⟩⟩, 100⟩]
       feeAmount := 5 }]

/-- The even trade leaves the total of every token as it was. -/
theorem evenTrade_conserves :
    ∃ prepared settled, execute tradingRuntime tradingWorld (tradeCall 5 false evenTrade) = some prepared ∧
      execute tradingRuntime prepared (tradeCall 6 true evenTrade) = some settled ∧
      tokenTotal (settled firstToken).data = 100 ∧
      ∀ token, getType (tradingWorld token).data = .ok .token →
        tokenTotal (settled token).data = tokenTotal (tradingWorld token).data := by
  have hparams : decodeFromSlice SettlementBatchParams.decode evenTrade = .ok evenTradeParams := by
    decide +kernel
  have hentries : evenTradeParams.settlements.flatMap (entriesOf (tokenAccounts false)) =
      [.credit (firstToken, 0) 5, .credit (firstToken, 1) 95, .debit (firstToken, 2) 100] := by
    decide +kernel
  have hrun : ((execute tradingRuntime tradingWorld (tradeCall 5 false evenTrade)).bind fun prepared =>
      (execute tradingRuntime prepared (tradeCall 6 true evenTrade)).map fun settled =>
        tokenTotal (settled firstToken).data) = some 100 := by
    decide +kernel
  obtain ⟨prepared, hprepared, hrest⟩ := Option.bind_eq_some_iff.mp hrun
  obtain ⟨settled, hsettled, htotal⟩ := Option.map_eq_some_iff.mp hrest
  refine ⟨prepared, settled, hprepared, hsettled, htotal, ?_⟩
  apply (settled_conserves_iff tradingRuntime tradingWorld prepared settled _ _ _ _ evenTrade evenTradeParams
    hparams (by decide) hprepared hsettled).mpr
  intro token _
  by_cases htoken : token = firstToken
  · subst htoken
    decide +kernel
  · have hne : ¬firstToken = token := fun heq => htoken heq.symm
    have hkey : keyAt (tokenAccounts false) 1 = some firstToken := rfl
    have hoverflows : tokenOverflows tradingWorld (tokenAccounts false) evenTradeParams.settlements token = 0 := by
      rw [tokenOverflows, hentries]
      apply Finset.sum_eq_zero
      intro index _
      apply Nat.div_eq_of_lt
      have hlt := balances_lt (load tradingWorld) (token, index)
      simpa [Ledger.credited, Ledger.debited, Entry.creditTo, Entry.debitTo, hne] using hlt
    rw [hoverflows]
    simp [tokenCredits, tokenDebits, evenTradeParams, hkey, hne]

/-- The crossed trade nets to nothing over both tokens, and makes 100 of the first out of 100 of the
second. -/
theorem crossedTrade_totals :
    ∃ prepared settled, execute tradingRuntime tradingWorld (tradeCall 5 false crossedTrade) = some prepared ∧
      settlementHash prepared sampleProgram = .ok crossedTradeDigest ∧
      execute tradingRuntime prepared (tradeCall 6 true crossedTrade) = some settled ∧
      getType (tradingWorld firstToken).data = .ok .token ∧
      tokenTotal (settled firstToken).data ≠ tokenTotal (tradingWorld firstToken).data := by
  have hrun : ((execute tradingRuntime tradingWorld (tradeCall 5 false crossedTrade)).bind fun prepared =>
      (execute tradingRuntime prepared (tradeCall 6 true crossedTrade)).map fun settled =>
        (settlementHash prepared sampleProgram, tokenTotal (settled firstToken).data)) =
      some (.ok crossedTradeDigest, 200) := by
    decide +kernel
  obtain ⟨prepared, hprepared, hrest⟩ := Option.bind_eq_some_iff.mp hrun
  obtain ⟨settled, hsettled, hvalues⟩ := Option.map_eq_some_iff.mp hrest
  obtain ⟨hhash, htotal⟩ := Prod.mk.inj hvalues
  refine ⟨prepared, settled, hprepared, hhash, hsettled, by decide +kernel, ?_⟩
  rw [htotal]
  decide +kernel

end Chainring.Arch

import Chainring.Arch.SettlementConservation
import Chainring.Arch.WithdrawalPayouts

/-! What a prepared batch of withdrawals takes from the totals of the token accounts and what its outputs pay.
A fee that goes to a wallet of the same account is part of the amount that is debited; a fee to another account
moves there on its own. The outputs deduct the fee of every withdrawal from a token that is no rune, and of none
from a rune. -/

namespace Chainring.Arch

open CheckedWord (bind_eq_ok)
open Ledger (Entry)

/-! ### Sums over a batch -/

/-- The sum over the withdrawals that a batch makes from an account. -/
def withdrawnSum (accounts : List AccountInfo) (tokenWithdrawals : List TokenWithdrawals) (token : Pubkey)
    (f : Withdrawal → Nat) : Nat :=
  (tokenWithdrawals.map fun tokenWithdrawals =>
    if keyAt accounts tokenWithdrawals.accountIndex = some token then (tokenWithdrawals.withdrawals.map f).sum
    else 0).sum

/-- The fee, if it goes to the fee wallet of this account. -/
def Withdrawal.feeWithin (accounts : List AccountInfo) (token : Pubkey) (withdrawal : Withdrawal) : Nat :=
  if keyAt accounts withdrawal.feeAccountIndex = some token then withdrawal.feeAmount.toNat else 0

/-- The fee, if it goes to the fee wallet of another account. -/
def Withdrawal.feeElsewhere (accounts : List AccountInfo) (token : Pubkey) (withdrawal : Withdrawal) : Nat :=
  if keyAt accounts withdrawal.feeAccountIndex = some token then 0 else withdrawal.feeAmount.toNat

/-- One for a withdrawal whose fee exceeds its amount. -/
def Withdrawal.short (withdrawal : Withdrawal) : Nat := if withdrawal.amount < withdrawal.feeAmount then 1 else 0

/-- The amount of the edict for a rune, and the value of the output otherwise. -/
def Payout.paid (payout : Payout) : Nat :=
  match payout.edict with
  | some (_, amount) => amount.toNat
  | none => payout.txOut.value.toNat

/-- What the payouts of a batch pay for the withdrawals from an account. -/
def paidFor (accounts : List AccountInfo) (tokenWithdrawals : List TokenWithdrawals)
    (payouts : List (List Payout)) (token : Pubkey) : Nat :=
  (List.zipWith (fun (tokenWithdrawals : TokenWithdrawals) payouts =>
    if keyAt accounts tokenWithdrawals.accountIndex = some token then (payouts.map Payout.paid).sum else 0)
    tokenWithdrawals payouts).sum

/-- Every slot of the account moves by what the batch posts, and the total by what is paid. -/
structure PaysDebited (before after : World) (accounts : List AccountInfo) (params : WithdrawBatchParams)
    (payouts : List (List Payout)) (token : Pubkey) : Prop where
  slots : ∀ index, amountAt (after token).data index + Ledger.debited (params.entries accounts) (token, index) =
    amountAt (before token).data index + Ledger.credited (params.entries accounts) (token, index)
  total : tokenTotal (before token).data =
    tokenTotal (after token).data + paidFor accounts params.tokenWithdrawals payouts token

/-- No slot of the account goes past the word. -/
def SlotsFit (before : World) (accounts : List AccountInfo) (params : WithdrawBatchParams) (token : Pubkey) :
    Prop :=
  ∀ index, amountAt (before token).data index + Ledger.credited (params.entries accounts) (token, index) <
    Ledger.debited (params.entries accounts) (token, index) + amountModulus

/-- A rune pays no fee within its own account; a token that is no rune pays none to other accounts, or only so
much as the wrapped values of the outputs make up for. -/
def FeesMatch (rt : Runtime) (before : World) (accounts : List AccountInfo) (params : WithdrawBatchParams)
    (token : Pubkey) : Prop :=
  if TokenState.isRuneAccount rt (before token).data = .ok true then
    withdrawnSum accounts params.tokenWithdrawals token (Withdrawal.feeWithin accounts token) = 0
  else
    withdrawnSum accounts params.tokenWithdrawals token (Withdrawal.feeElsewhere accounts token) =
      amountModulus * withdrawnSum accounts params.tokenWithdrawals token Withdrawal.short

section Sums

variable {accounts : List AccountInfo} {tokenWithdrawals : List TokenWithdrawals} {token : Pubkey}
  {f g : Withdrawal → Nat}

theorem withdrawnSum_add : withdrawnSum accounts tokenWithdrawals token (fun withdrawal => f withdrawal + g withdrawal) =
    withdrawnSum accounts tokenWithdrawals token f + withdrawnSum accounts tokenWithdrawals token g := by
  unfold withdrawnSum
  rw [← List.sum_map_add]
  refine congrArg List.sum (List.map_congr_left fun tokenWithdrawals _ => ?_)
  split
  · exact List.sum_map_add
  · rfl

theorem withdrawnSum_mul (n : Nat) : withdrawnSum accounts tokenWithdrawals token (fun withdrawal => n * f withdrawal) =
    n * withdrawnSum accounts tokenWithdrawals token f := by
  calc withdrawnSum accounts tokenWithdrawals token (fun withdrawal => n * f withdrawal)
      _ = (tokenWithdrawals.map fun tokenWithdrawals =>
            n * if keyAt accounts tokenWithdrawals.accountIndex = some token then
              (tokenWithdrawals.withdrawals.map f).sum else 0).sum := by
        refine congrArg List.sum (List.map_congr_left fun tokenWithdrawals _ => ?_)
        split
        · exact List.sum_map_mul_left _ _ _
        · rfl
      _ = n * withdrawnSum accounts tokenWithdrawals token f := List.sum_map_mul_left _ _ _

theorem withdrawnSum_congr (h : ∀ withdrawal, f withdrawal = g withdrawal) :
    withdrawnSum accounts tokenWithdrawals token f = withdrawnSum accounts tokenWithdrawals token g := by
  rw [funext h]

theorem feeWithin_add_feeElsewhere (withdrawal : Withdrawal) :
    withdrawal.feeWithin accounts token + withdrawal.feeElsewhere accounts token = withdrawal.feeAmount.toNat := by
  unfold Withdrawal.feeWithin Withdrawal.feeElsewhere
  split
  · rfl
  · exact Nat.zero_add _

/-- The value of an output and the fee make the amount, and a whole word where the fee exceeds it. -/
theorem toNat_sub_add_fee (withdrawal : Withdrawal) :
    (withdrawal.amount - withdrawal.feeAmount).toNat + withdrawal.feeAmount.toNat =
      withdrawal.amount.toNat + amountModulus * withdrawal.short := by
  have hamount := withdrawal.amount.toNat_lt
  have hfee := withdrawal.feeAmount.toNat_lt
  rw [UInt64.toNat_sub, Withdrawal.short]
  show _ = _ + 2 ^ 64 * _
  by_cases hshort : withdrawal.amount < withdrawal.feeAmount
  · rw [if_pos hshort]
    rw [UInt64.lt_iff_toNat_lt] at hshort
    omega
  · rw [if_neg hshort]
    rw [UInt64.lt_iff_toNat_lt] at hshort
    omega

end Sums

/-! ### What is debited -/

section Debited

variable {rt : Runtime} {networkType : NetworkType} {accounts : List AccountInfo} {program : AccountInfo}
  {params : WithdrawBatchParams} {m m' : Memory} {token : Pubkey}

/-- A withdrawal takes its amount out of its account, less the fee that stays in it. -/
theorem sum_withdrawal {withdrawal : Withdrawal} {key : Pubkey} {count : Nat}
    (hpayer : key = token → withdrawal.addressIndex.index.toNat < count)
    (hfeePayer : keyAt accounts withdrawal.feeAccountIndex = some token →
      withdrawal.feeAddressIndex.index.toNat < count) :
    ((withdrawal.entries accounts key).map (Entry.creditIn (tokenSlots token count))).sum +
        (if key = token then withdrawal.amount.toNat else 0) =
      ((withdrawal.entries accounts key).map (Entry.debitIn (tokenSlots token count))).sum +
        if key = token then withdrawal.feeWithin accounts token else 0 := by
  have hfee : ((if 0 < withdrawal.feeAmount then withdrawal.feeEntries accounts key else []).map
        (Entry.creditIn (tokenSlots token count))).sum =
      ((if 0 < withdrawal.feeAmount then withdrawal.feeEntries accounts key else []).map
        (Entry.debitIn (tokenSlots token count))).sum +
        if key = token then withdrawal.feeWithin accounts token else 0 := by
    by_cases hpos : 0 < withdrawal.feeAmount
    · rw [if_pos hpos, Withdrawal.feeEntries, Withdrawal.feeWithin]
      cases hkey : keyAt accounts withdrawal.feeAccountIndex with
      | none => simp
      | some feeKey =>
          by_cases hfeeKey : feeKey = token
          · subst hfeeKey
            have hindex := hfeePayer hkey
            have hzero : 0 < count := Nat.lt_of_le_of_lt (Nat.zero_le _) hindex
            by_cases hsame : feeKey = key
            · subst hsame
              simp [Entry.creditIn, Entry.debitIn, mem_tokenSlots, hzero]
            · have hsame' : ¬key = feeKey := fun heq => hsame heq.symm
              simp [hsame, hsame', Entry.creditIn, Entry.debitIn, mem_tokenSlots, hzero, hindex]
          · by_cases hsame : feeKey = key
            · have hkey' : ¬key = token := fun heq => hfeeKey (hsame.trans heq)
              simp [hsame, hkey', Entry.creditIn, Entry.debitIn, mem_tokenSlots]
            · simp [hfeeKey, hsame, Entry.creditIn, Entry.debitIn, mem_tokenSlots]
    · have hnone : withdrawal.feeAmount.toNat = 0 := by
        rw [UInt64.lt_iff_toNat_lt] at hpos
        exact Nat.eq_zero_of_not_pos hpos
      rw [if_neg hpos, Withdrawal.feeWithin, hnone]
      simp
  have hamount : Entry.debitIn (tokenSlots token count)
      (.debit (key, withdrawal.addressIndex.index.toNat) withdrawal.amount.toNat) =
      if key = token then withdrawal.amount.toNat else 0 := by
    by_cases hkey : key = token
    · simp [Entry.debitIn, mem_tokenSlots, hkey, hpayer hkey]
    · simp [Entry.debitIn, mem_tokenSlots, hkey]
  rw [Withdrawal.entries, List.map_cons, List.map_cons, List.sum_cons, List.sum_cons, hfee, hamount,
    Entry.creditIn]
  omega

/-- A batch takes its amounts out of an account, less the fees that stay in it. -/
theorem sum_withdrawals
    (hverified : ∀ tokenWithdrawals ∈ params.tokenWithdrawals,
      WithdrawalsVerified rt networkType accounts m tokenWithdrawals) (token : Pubkey) :
    ((params.entries accounts).map (Entry.creditIn (tokenSlots token (numBalances (m token).data)))).sum +
        withdrawnSum accounts params.tokenWithdrawals token (fun withdrawal => withdrawal.amount.toNat) =
      ((params.entries accounts).map (Entry.debitIn (tokenSlots token (numBalances (m token).data)))).sum +
        withdrawnSum accounts params.tokenWithdrawals token (Withdrawal.feeWithin accounts token) := by
  unfold WithdrawBatchParams.entries withdrawnSum
  rw [Ledger.sum_map_flatMap, Ledger.sum_map_flatMap, ← List.sum_map_add, ← List.sum_map_add]
  refine congrArg List.sum (List.map_congr_left fun tokenWithdrawals hmem => ?_)
  obtain ⟨⟨account, haccount, -⟩, hwithdrawals⟩ := hverified tokenWithdrawals hmem
  have hkey := keyAt_of_listed haccount
  have hsplit : ∀ f : Withdrawal → Nat,
      (if some account.key = some token then (tokenWithdrawals.withdrawals.map f).sum else 0) =
        (tokenWithdrawals.withdrawals.map fun withdrawal => if account.key = token then f withdrawal else 0).sum := by
    intro f
    by_cases htoken : account.key = token <;> simp [htoken]
  rw [TokenWithdrawals.entries_listed haccount, Ledger.sum_map_flatMap, Ledger.sum_map_flatMap, hkey, hsplit, hsplit,
    ← List.sum_map_add, ← List.sum_map_add]
  refine congrArg List.sum (List.map_congr_left fun withdrawal hwithdrawal => ?_)
  obtain ⟨hpayer, -, hfeePayer⟩ := hwithdrawals account.key hkey withdrawal hwithdrawal
  apply sum_withdrawal
  · rintro rfl
    exact hpayer.wallet.wallet.inUse
  · intro hfeeKey
    exact (hfeePayer token hfeeKey).wallet.wallet.inUse

/-- The total of an account falls by the amounts withdrawn from it, less the fees that stay in it and up to the
words that its slots lose. -/
theorem Prepares.total (h : Prepares rt networkType accounts program params m m')
    (htoken : getType (m token).data = .ok .token) :
    tokenTotal (m token).data +
        withdrawnSum accounts params.tokenWithdrawals token (Withdrawal.feeWithin accounts token) =
      tokenTotal (m' token).data +
        withdrawnSum accounts params.tokenWithdrawals token (fun withdrawal => withdrawal.amount.toNat) +
        amountModulus * ∑ index ∈ Finset.range (numBalances (m token).data),
          Ledger.overflows amountModulus (balances m) (params.entries accounts) (token, index) := by
  have hcount : numBalances (m' token).data = numBalances (m token).data :=
    numBalances_congr fun o ho => h.bytes token htoken o (not_anyAmount_of_lt (Nat.lt_trans ho.2 (by decide)))
  have hsum := Ledger.run_sum .wraps amountModulus (by decide) (balances_lt m) h.posted
    (tokenSlots token (numBalances (m token).data))
  have hbatch := sum_withdrawals h.verified token
  rw [sum_tokenSlots (Ledger.overflows _ _ _)] at hsum
  rw [tokenTotal_eq m, tokenTotal_eq m', hcount]
  omega

end Debited

/-! ### What is paid -/

section Paid

variable {rt : Runtime} {networkType : NetworkType} {accounts : List AccountInfo} {program : AccountInfo}
  {m : Memory} {token : Pubkey}

/-- The edict of a rune has the whole amount; the output of another token has the amount less the fee. -/
theorem paid_of_payoutOf {withdrawal : Withdrawal} {payout : Payout} {data : Bytes}
    (h : payoutOf rt networkType withdrawal data = .ok payout) :
    payout.paid = if TokenState.isRuneAccount rt data = .ok true then withdrawal.amount.toNat
      else (withdrawal.amount - withdrawal.feeAmount).toNat := by
  obtain ⟨isRune, hisRune, h⟩ := bind_eq_ok.mp h
  rw [hisRune]
  cases isRune with
  | true =>
      obtain ⟨runeId, -, h⟩ := bind_eq_ok.mp h
      obtain ⟨address, -, h⟩ := bind_eq_ok.mp h
      obtain ⟨scriptBuf, -, h⟩ := bind_eq_ok.mp h
      obtain rfl := Except.ok.inj h
      simp [Payout.paid]
  | false =>
      obtain ⟨address, -, h⟩ := bind_eq_ok.mp h
      obtain ⟨scriptBuf, -, h⟩ := bind_eq_ok.mp h
      obtain rfl := Except.ok.inj h
      simp [Payout.paid]

/-- What a withdrawal from an account with this data is paid. -/
def Withdrawal.paidFrom (rt : Runtime) (data : Bytes) (withdrawal : Withdrawal) : Nat :=
  if TokenState.isRuneAccount rt data = .ok true then withdrawal.amount.toNat
  else (withdrawal.amount - withdrawal.feeAmount).toNat

theorem map_eq_of_forall₂ {α β : Type} {f : α → Nat} {g : β → Nat} {as : List α} {bs : List β}
    (h : List.Forall₂ (fun a b => g b = f a) as bs) : bs.map g = as.map f := by
  induction h with
  | nil => rfl
  | cons hfirst _ ih => rw [List.map_cons, List.map_cons, hfirst, ih]

theorem paidFor_eq {tokenWithdrawals : List TokenWithdrawals} {payouts : List (List Payout)}
    (h : List.Forall₂ (PaidOut rt networkType accounts m program) tokenWithdrawals payouts) (token : Pubkey) :
    paidFor accounts tokenWithdrawals payouts token =
      withdrawnSum accounts tokenWithdrawals token (Withdrawal.paidFrom rt (m token).data) := by
  induction h with
  | nil => rfl
  | @cons tokenWithdrawals paid rest payouts hfirst _ ih =>
      obtain ⟨key, feeAccountAddress, hkey, -, hpaid⟩ := hfirst
      unfold paidFor withdrawnSum at ih ⊢
      rw [List.zipWith_cons_cons, List.sum_cons, List.map_cons, List.sum_cons, ih, hkey]
      congr 1
      by_cases htoken : key = token
      · subst htoken
        rw [if_pos rfl, if_pos rfl]
        exact congrArg List.sum (map_eq_of_forall₂ (hpaid.imp fun _ _ hpaid => paid_of_payoutOf hpaid.payout))
      · simp [htoken]

/-- With the slots within the word, the payouts are the debits exactly when the fees match. -/
theorem Prepares.paid_iff {params : WithdrawBatchParams} {before after : World} {payouts : List (List Payout)}
    (h : Prepares rt networkType accounts program params (load before) (load after))
    (hpaid : List.Forall₂ (PaidOut rt networkType accounts (load before) program) params.tokenWithdrawals payouts)
    (htoken : getType (before token).data = .ok .token) (hfit : SlotsFit before accounts params token) :
    tokenTotal (before token).data =
        tokenTotal (after token).data + paidFor accounts params.tokenWithdrawals payouts token ↔
      FeesMatch rt before accounts params token := by
  have htotal := h.total htoken
  have hoverflows : ∑ index ∈ Finset.range (numBalances (before token).data),
      Ledger.overflows amountModulus (balances (load before)) (params.entries accounts) (token, index) = 0 := by
    apply Finset.sum_eq_zero
    intro index _
    apply Nat.div_eq_of_lt
    have hslot := hfit index
    show amountAt (before token).data index + _ - _ < _
    have hpos : 0 < amountModulus := by decide
    omega
  have hzero : tokenTotal (before token).data +
      withdrawnSum accounts params.tokenWithdrawals token (Withdrawal.feeWithin accounts token) =
    tokenTotal (after token).data +
      withdrawnSum accounts params.tokenWithdrawals token (fun withdrawal => withdrawal.amount.toNat) := by
    refine htotal.trans ?_
    show _ + amountModulus * (∑ index ∈ Finset.range (numBalances (before token).data), _) = _
    rw [hoverflows]
    rfl
  rw [paidFor_eq hpaid, FeesMatch]
  by_cases hrune : TokenState.isRuneAccount rt (before token).data = .ok true
  · have hamounts : withdrawnSum accounts params.tokenWithdrawals token
        (Withdrawal.paidFrom rt (load before token).data) =
        withdrawnSum accounts params.tokenWithdrawals token (fun withdrawal => withdrawal.amount.toNat) :=
      withdrawnSum_congr fun withdrawal => if_pos hrune
    rw [if_pos hrune, hamounts]
    omega
  · -- the value and the fees of all outputs make the amounts and the words that the values wrap around
    have hvalues : withdrawnSum accounts params.tokenWithdrawals token
          (Withdrawal.paidFrom rt (load before token).data) +
        (withdrawnSum accounts params.tokenWithdrawals token (Withdrawal.feeWithin accounts token) +
          withdrawnSum accounts params.tokenWithdrawals token (Withdrawal.feeElsewhere accounts token)) =
        withdrawnSum accounts params.tokenWithdrawals token (fun withdrawal => withdrawal.amount.toNat) +
          amountModulus * withdrawnSum accounts params.tokenWithdrawals token Withdrawal.short := by
      rw [← withdrawnSum_add, ← withdrawnSum_add, ← withdrawnSum_mul, ← withdrawnSum_add]
      apply withdrawnSum_congr
      intro withdrawal
      rw [feeWithin_add_feeElsewhere, ← toNat_sub_add_fee]
      exact congrArg (· + _) (if_neg hrune)
    rw [if_neg hrune]
    omega

/-- A slot moves by what is posted to it exactly when it does not go past the word. -/
theorem Prepares.slots_iff {params : WithdrawBatchParams} {before after : World}
    (h : Prepares rt networkType accounts program params (load before) (load after)) :
    (∀ index, amountAt (after token).data index + Ledger.debited (params.entries accounts) (token, index) =
      amountAt (before token).data index + Ledger.credited (params.entries accounts) (token, index)) ↔
    SlotsFit before accounts params token := by
  apply forall_congr'
  intro index
  obtain ⟨-, hstands⟩ := Ledger.run_standing .wraps amountModulus (by decide) (balances_lt _) h.posted (token, index)
  have hbefore : balances (load before) (token, index) = amountAt (before token).data index := rfl
  have hafter : balances (load after) (token, index) = amountAt (after token).data index := rfl
  have hlt := balances_lt (load after) (token, index)
  rw [hbefore, hafter] at hstands
  rw [hafter] at hlt
  constructor
  · intro hexact
    omega
  · intro hfit
    have hnone : Ledger.overflows amountModulus (balances (load before)) (params.entries accounts) (token, index) = 0 := by
      apply Nat.div_eq_of_lt
      rw [hbefore]
      omega
    rw [hnone] at hstands
    omega

end Paid

/-- A prepared batch pays out of every token account what it debits there, and moves the fees, exactly when no
slot goes past the word and the fees match. -/
theorem prepared_pays_iff (rt : Runtime) (before prepared : World) (programId : Pubkey)
    (accounts : List AccountInfo) (program withdraw : AccountInfo) (raw : Bytes) (params : WithdrawBatchParams)
    (hparams : decodeFromSlice WithdrawBatchParams.decode raw = .ok params)
    (hprogram : accounts[0]? = some program) (hwithdraw : accounts[1]? = some withdraw)
    (hprepare : execute rt before (withdrawCall 4 programId accounts raw) = some prepared)
    (hset : withdrawHash prepared withdraw.key ≠ .ok emptyHash) :
    ∃ networkType paid payouts, (prepareOutputs rt accounts params).run (load before) =
        .ok (payouts.flatten.foldl Outputs.pay { txOuts := [], edicts := [] }) paid ∧
      List.Forall₂ (PaidOut rt networkType accounts (load before) program) params.tokenWithdrawals payouts ∧
      ((∀ token, getType (before token).data = .ok .token →
          PaysDebited before prepared accounts params payouts token) ↔
        ∀ token, getType (before token).data = .ok .token →
          SlotsFit before accounts params token ∧ FeesMatch rt before accounts params token) := by
  obtain ⟨instruction, m, hinstruction, hrun, -, hdata⟩ := execute_cases hprepare
  obtain rfl := Except.ok.inj (hinstruction.symm.trans (withdrawCall_prepare programId accounts hparams))
  obtain ⟨-, -, -, networkType', hprepares⟩ := execute_prepares hparams hprogram hwithdraw hprepare hset
  rw [withdrawHash, hdata] at hset
  obtain ⟨networkType, paid, payouts, hnetwork, hbuilds, -, hpaid⟩ :=
    prepareWithdrawBatch_builds hrun (load_loaded accounts before) hprogram hwithdraw hset
  obtain rfl : networkType' = networkType := Except.ok.inj (hprepares.network.symm.trans hnetwork)
  refine ⟨networkType', paid, payouts, hbuilds, hpaid, forall₂_congr fun token htoken => ?_⟩
  constructor
  · rintro ⟨hslots, htotal⟩
    have hfit := hprepares.slots_iff.mp hslots
    exact ⟨hfit, (hprepares.paid_iff hpaid htoken hfit).mp htotal⟩
  · rintro ⟨hfit, hfees⟩
    exact ⟨hprepares.slots_iff.mpr hfit, (hprepares.paid_iff hpaid htoken hfit).mpr hfees⟩

/-! ### Two withdrawals of 5000 -/

/-- The small batch pays 4950 and leaves its fee of 50 with the fee wallet. -/
theorem small_pays :
    ∃ prepared, execute smallRuntime smallWorld smallPrepare = some prepared ∧
      ∃ networkType paid payouts,
        (prepareOutputs smallRuntime (preparingAccounts (sampleKey 0x31)) smallBatchParams).run (load smallWorld) =
          .ok (payouts.flatten.foldl Outputs.pay { txOuts := [], edicts := [] }) paid ∧
        List.Forall₂ (PaidOut smallRuntime networkType (preparingAccounts (sampleKey 0x31)) (load smallWorld)
          ⟨sampleProgram, true, true⟩) smallBatchParams.tokenWithdrawals payouts ∧
        ∀ token, getType (smallWorld token).data = .ok .token →
          PaysDebited smallWorld prepared (preparingAccounts (sampleKey 0x31)) smallBatchParams payouts token := by
  have hrun : (execute smallRuntime smallWorld smallPrepare).map (withdrawHash · sampleWithdraw) =
      some (.ok smallBatchDigest) := by
    decide +kernel
  obtain ⟨prepared, hprepared, hset⟩ := Option.map_eq_some_iff.mp hrun
  obtain ⟨networkType, paid, payouts, hbuilds, hpaid, hiff⟩ := prepared_pays_iff smallRuntime smallWorld prepared
    (sampleKey 0xee) (preparingAccounts (sampleKey 0x31)) ⟨sampleProgram, true, true⟩ ⟨sampleWithdraw, false, true⟩
    smallBatch smallBatchParams (by decide +kernel) rfl rfl hprepared (by rw [hset]; decide)
  refine ⟨prepared, hprepared, networkType, paid, payouts, hbuilds, hpaid, hiff.mpr ?_⟩
  have hentries : smallBatchParams.entries (preparingAccounts (sampleKey 0x31)) =
      [.debit (sampleKey 0x31, 1) 5000, .credit (sampleKey 0x31, 0) 50] := by
    decide +kernel
  intro token _
  constructor
  · intro index
    have hlt := amountAt_lt (smallWorld token).data index
    rw [hentries]
    by_cases hslot : (sampleKey 0x31, 0) = (token, index)
    · obtain ⟨rfl, rfl⟩ := Prod.mk.inj hslot
      decide +kernel
    · calc amountAt (smallWorld token).data index + Ledger.credited _ (token, index)
          _ = amountAt (smallWorld token).data index := by
            simp [Ledger.credited, Entry.creditTo, hslot]
          _ < amountModulus := hlt
          _ ≤ _ + amountModulus := Nat.le_add_left _ _
  · by_cases htoken : token = sampleKey 0x31
    · subst htoken
      unfold FeesMatch
      decide +kernel
    · have hne : ¬sampleKey 0x31 = token := fun heq => htoken heq.symm
      have hkey : keyAt (preparingAccounts (sampleKey 0x31)) 3 = some (sampleKey 0x31) := rfl
      simp [FeesMatch, withdrawnSum, smallBatchParams, hkey, hne]

/-- On a rune the same batch moves a fee of 50 to the fee wallet and pays the 5000 in full. -/
theorem runeFee_overpays :
    ∃ prepared outputs, execute smallRuntime runeWorld smallPrepare = some prepared ∧
      withdrawHash prepared sampleWithdraw = .ok smallBatchDigest ∧
      getType (runeWorld (sampleKey 0x31)).data = .ok .token ∧
      TokenState.isRuneAccount smallRuntime (runeWorld (sampleKey 0x31)).data = .ok true ∧
      ((prepareOutputs smallRuntime (preparingAccounts (sampleKey 0x31)) smallBatchParams).run
        (load runeWorld)).value = some outputs ∧
      tokenTotal (runeWorld (sampleKey 0x31)).data ≠
        tokenTotal (prepared (sampleKey 0x31)).data + (outputs.edicts.map Edict.amount).sum := by
  have hrun : (execute smallRuntime runeWorld smallPrepare).map (fun prepared =>
      (withdrawHash prepared sampleWithdraw, tokenTotal (prepared (sampleKey 0x31)).data)) =
      some (.ok smallBatchDigest, 3050) := by
    decide +kernel
  have hbuilt : ((prepareOutputs smallRuntime (preparingAccounts (sampleKey 0x31)) smallBatchParams).run
      (load runeWorld)).value.map (fun outputs => (outputs.edicts.map Edict.amount).sum) = some 5000 := by
    decide +kernel
  obtain ⟨prepared, hprepared, hvalues⟩ := Option.map_eq_some_iff.mp hrun
  obtain ⟨hset, htotal⟩ := Prod.mk.inj hvalues
  obtain ⟨outputs, houtputs, hsum⟩ := Option.map_eq_some_iff.mp hbuilt
  refine ⟨prepared, outputs, hprepared, hset, by decide +kernel, by decide +kernel, houtputs, ?_⟩
  rw [htotal, hsum]
  decide +kernel

end Chainring.Arch

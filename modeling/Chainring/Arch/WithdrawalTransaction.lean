import Chainring.Arch.WithdrawalPayouts

/-! The transaction that a submission signs: after the outputs of the state transition every withdrawal has its own
output in the order of the batch, and the edicts point at the outputs of the runes that are paid. -/

namespace Chainring.Arch

open Exec (Keeps keeps_foldlM_forall₂)

/-! ### Edicts by position -/

section Edicts

variable {payouts : List Payout} {start : Nat}

theorem edictAt_output {payout : Payout} {output : Nat} {edict : Edict} (h : payout.edictAt output = some edict)
    (hlt : output < 2 ^ 32) : edict.output.toNat = output := by
  obtain ⟨_, -, rfl⟩ := Option.map_eq_some_iff.mp h
  exact UInt32.toNat_ofNat_of_lt' hlt

/-- An edict is that of the payout at its position. -/
theorem mem_edictsAt {edict : Edict} :
    edict ∈ edictsAt payouts start ↔
      ∃ (i : Nat) (payout : Payout), payouts[i]? = some payout ∧ payout.edictAt (start + i) = some edict := by
  induction payouts generalizing start with
  | nil => simp [edictsAt]
  | cons payout payouts ih =>
      rw [edictsAt_cons, List.mem_append, ih, Option.mem_toList]
      constructor
      · rintro (hfirst | ⟨i, payout', hget, hedict⟩)
        · exact ⟨0, payout, rfl, hfirst⟩
        · exact ⟨i + 1, payout', hget, by rw [← hedict, Nat.add_right_comm]; rfl⟩
      · rintro ⟨_ | i, payout', hget, hedict⟩
        · obtain rfl := Option.some.inj hget
          exact Or.inl hedict
        · exact Or.inr ⟨i, payout', hget, by rw [← hedict, Nat.add_right_comm]; rfl⟩

theorem edictsAt_output {edict : Edict} (hfew : start + payouts.length ≤ 2 ^ 32) (hmem : edict ∈ edictsAt payouts start) :
    start ≤ edict.output.toNat ∧ edict.output.toNat < start + payouts.length := by
  obtain ⟨i, payout, hget, hedict⟩ := mem_edictsAt.mp hmem
  obtain ⟨hlt, -⟩ := List.getElem?_eq_some_iff.mp hget
  rw [edictAt_output hedict (by omega)]
  omega

/-- Later edicts point at later outputs. -/
theorem edictsAt_pairwise (hfew : start + payouts.length ≤ 2 ^ 32) :
    (edictsAt payouts start).Pairwise fun edict edict' => edict.output.toNat < edict'.output.toNat := by
  induction payouts generalizing start with
  | nil => exact List.Pairwise.nil
  | cons payout payouts ih =>
      rw [List.length_cons] at hfew
      have hrest : start + 1 + payouts.length ≤ 2 ^ 32 := by omega
      rw [edictsAt_cons, List.pairwise_append]
      refine ⟨?_, ih hrest, fun edict hfirst edict' hmem => ?_⟩
      · cases payout.edictAt start with
        | none => exact List.Pairwise.nil
        | some edict => exact List.pairwise_singleton _ _
      · have hle := (edictsAt_output hrest hmem).1
        rw [edictAt_output (Option.mem_toList.mp hfirst) (by omega)]
        omega

/-- At the position of a payout there is its own edict and no other. -/
theorem edictsAt_filter (hfew : start + payouts.length ≤ 2 ^ 32) {i : Nat} {payout : Payout}
    (hget : payouts[i]? = some payout) :
    (edictsAt payouts start).filter (fun edict => edict.output.toNat = start + i) =
      (payout.edictAt (start + i)).toList := by
  induction payouts generalizing start i with
  | nil => cases hget
  | cons first payouts ih =>
      rw [List.length_cons] at hfew
      have hrest : start + 1 + payouts.length ≤ 2 ^ 32 := by omega
      have hfirst : ∀ edict ∈ (first.edictAt start).toList, edict.output.toNat = start := fun edict hmem =>
        edictAt_output (Option.mem_toList.mp hmem) (by omega)
      rw [edictsAt_cons, List.filter_append]
      cases i with
      | zero =>
          obtain rfl := Option.some.inj hget
          have hlater : (edictsAt payouts (start + 1)).filter (fun edict => edict.output.toNat = start + 0) = [] := by
            apply List.filter_eq_nil_iff.mpr
            intro edict hmem
            have hle := (edictsAt_output hrest hmem).1
            simp only [decide_eq_true_eq]
            omega
          rw [hlater, List.append_nil]
          apply List.filter_eq_self.mpr
          intro edict hmem
          exact decide_eq_true (hfirst edict hmem)
      | succ i =>
          have hnone : (first.edictAt start).toList.filter (fun edict => edict.output.toNat = start + (i + 1)) = [] := by
            apply List.filter_eq_nil_iff.mpr
            intro edict hmem
            simp only [decide_eq_true_eq, hfirst edict hmem]
            omega
          have hshift : start + (i + 1) = start + 1 + i := by omega
          rw [hnone, List.nil_append, hshift]
          exact ih hrest hget

end Edicts

/-! ### Payouts laid out in a transaction -/

/-- The payouts follow the outputs of the state transition, and their edicts point there. -/
structure LaidOut (transition : List TxOut) (payouts : List Payout) (txOuts : List TxOut) (edicts : List Edict) :
    Prop where
  outputs : ∃ rest, txOuts = transition ++ payouts.map Payout.txOut ++ rest
  edicts_eq : edicts = edictsAt payouts transition.length
  few : transition.length + payouts.length ≤ 2 ^ 32

namespace LaidOut

variable {transition txOuts : List TxOut} {payouts : List Payout} {edicts : List Edict}
  (h : LaidOut transition payouts txOuts edicts)

include h

theorem output {i : Nat} {payout : Payout} (hget : payouts[i]? = some payout) :
    txOuts[transition.length + i]? = some payout.txOut := by
  obtain ⟨rest, rfl⟩ := h.outputs
  obtain ⟨hlt, -⟩ := List.getElem?_eq_some_iff.mp hget
  rw [List.append_assoc, List.getElem?_append_right (Nat.le_add_right _ _), Nat.add_sub_cancel_left,
    List.getElem?_append_left (by rw [List.length_map]; exact hlt), List.getElem?_map, hget, Option.map_some]

theorem filter {i : Nat} {payout : Payout} (hget : payouts[i]? = some payout) :
    edicts.filter (fun edict => edict.output.toNat = transition.length + i) =
      (payout.edictAt (transition.length + i)).toList := by
  rw [h.edicts_eq]
  exact edictsAt_filter h.few hget

theorem inRange {edict : Edict} (hmem : edict ∈ edicts) :
    edict.output.toNat < transition.length + payouts.length := by
  rw [h.edicts_eq] at hmem
  exact (edictsAt_output h.few hmem).2

theorem length_le : transition.length + payouts.length ≤ txOuts.length := by
  obtain ⟨rest, rfl⟩ := h.outputs
  rw [List.length_append, List.length_append, List.length_map]
  exact Nat.le_add_right _ _

theorem distinct : (edicts.map Edict.output).Nodup := by
  rw [h.edicts_eq, List.Nodup, List.pairwise_map]
  refine (edictsAt_pairwise h.few).imp fun hlt heq => ?_
  rw [heq] at hlt
  exact Nat.lt_irrefl _ hlt

/-- No edict points at the output of a payout without an edict. -/
theorem apart {i : Nat} {payout : Payout} (hget : payouts[i]? = some payout) (hnone : payout.edict = none)
    {edict : Edict} (hmem : edict ∈ edicts) : edict.output.toNat ≠ transition.length + i := by
  intro heq
  have hfilter := h.filter hget
  rw [Payout.edictAt, hnone] at hfilter
  have hin : edict ∈ edicts.filter fun edict => edict.output.toNat = transition.length + i :=
    List.mem_filter.mpr ⟨hmem, decide_eq_true heq⟩
  rw [hfilter] at hin
  cases hin

end LaidOut

/-! ### Closing the outputs -/

/-- A hash set of ids is read in some order, each id once. -/
def ListsEachOnce (order : List RuneId → List RuneId) : Prop :=
  ∀ ids, (order ids).Nodup ∧ ∀ id, id ∈ order ids ↔ id ∈ ids

/-- The change, which has an output and no edict. -/
def changePayouts (rt : Runtime) (programId : Pubkey) (changeAmount : UInt64) : List Payout :=
  if 0 < changeAmount then
    [{ txOut := { value := changeAmount, scriptPubkey := (rt.getAccountScriptPubkey programId).1 }, edict := none }]
  else []

/-- What is left of a rune goes to the rune receiver, by an edict of amount 0. -/
def leftPayout (rt : Runtime) (receiver : Pubkey) (runeId : RuneId) : Payout where
  txOut := { value := dustThreshold, scriptPubkey := (rt.getAccountScriptPubkey receiver).1 }
  edict := some (runeId, 0)

def leftPayouts (rt : Runtime) (receiver : Pubkey) (edicts : List Edict) : List Payout :=
  if edicts = [] then [] else (rt.hashSetOrder (edicts.map Edict.id)).map (leftPayout rt receiver)

def runestoneOutput (rt : Runtime) (edicts : List Edict) : List TxOut :=
  if edicts = [] then [] else [{ value := 0, scriptPubkey := rt.encipher edicts }]

section Closing

variable {rt : Runtime} {programId receiver : Pubkey} {changeAmount : UInt64}

theorem changePayouts_length : (changePayouts rt programId changeAmount).length = if 0 < changeAmount then 1 else 0 := by
  rw [changePayouts, apply_ite List.length]
  rfl

theorem changePayouts_edict : ∀ payout ∈ changePayouts rt programId changeAmount, payout.edict = none := by
  intro payout hmem
  unfold changePayouts at hmem
  split at hmem
  · rw [List.mem_singleton.mp hmem]
  · cases hmem

/-- The change appended to the outputs, as a payout without an edict. -/
theorem foldl_changePayouts (outputs : Outputs) :
    (changePayouts rt programId changeAmount).foldl Outputs.pay outputs =
      if 0 < changeAmount then
        { outputs with txOuts := outputs.txOuts ++
            [{ value := changeAmount, scriptPubkey := (rt.getAccountScriptPubkey programId).1 }] }
      else outputs := by
  unfold changePayouts
  split
  · simp [Outputs.pay]
  · rfl

theorem foldl_leftPayouts (ids : List RuneId) (outputs : Outputs) :
    (ids.map (leftPayout rt receiver)).foldl Outputs.pay outputs =
      ids.foldl (fun outputs runeId => addEdictAndOutput runeId (rt.getAccountScriptPubkey receiver).1 0 outputs)
        outputs := by
  rw [List.foldl_map]
  rfl

/-- Closing pays the change and what is left of each rune, and adds the runestone. -/
theorem closeOutputs_eq (outputs : Outputs) :
    closeOutputs rt programId receiver changeAmount outputs =
      let closed := (changePayouts rt programId changeAmount ++ leftPayouts rt receiver outputs.edicts).foldl
        Outputs.pay outputs
      { closed with txOuts := closed.txOuts ++ runestoneOutput rt closed.edicts } := by
  have hedicts : ((changePayouts rt programId changeAmount).foldl Outputs.pay outputs).edicts = outputs.edicts := by
    rw [Outputs.foldl_pay_edicts, edictsAt_eq_nil changePayouts_edict, List.append_nil]
  unfold closeOutputs
  rw [List.foldl_append, ← foldl_changePayouts]
  dsimp only
  rw [hedicts, leftPayouts]
  by_cases hnone : outputs.edicts = []
  · rw [if_pos hnone, if_pos hnone, List.foldl_nil, runestoneOutput, if_pos (hedicts.trans hnone), List.append_nil]
  · rw [if_neg hnone, if_neg hnone, foldl_leftPayouts, runestoneOutput, if_neg]
    rw [← foldl_leftPayouts, Outputs.foldl_pay_edicts, hedicts]
    exact List.append_ne_nil_of_left_ne_nil hnone _

end Closing

/-! ### The transaction -/

/-- The withdrawals of a batch in its order, each with the account that it is from. -/
def WithdrawBatchParams.withdrawalsFrom (accounts : List AccountInfo) (params : WithdrawBatchParams) :
    List (Pubkey × Withdrawal) :=
  params.tokenWithdrawals.flatMap fun tokenWithdrawals =>
    match keyAt accounts tokenWithdrawals.accountIndex with
    | some key => tokenWithdrawals.withdrawals.map fun withdrawal => (key, withdrawal)
    | none => []

/-- The output at the position pays a withdrawal to the script of its wallet. For a rune it is pointed at by one
edict, of the rune and the amount, otherwise by none. -/
structure PaidAt (rt : Runtime) (networkType : NetworkType) (data : Bytes) (withdrawal : Withdrawal)
    (scriptBuf : Bytes) (position : Nat) (txOuts : List TxOut) (edicts : List Edict) : Prop where
  wallet : ∃ address, Balance.getWalletAddress withdrawal.addressIndex.index.toNat data = .ok address ∧
    getBitcoinAddress rt address networkType = .ok scriptBuf
  named : ∃ rune, runeOf rt data = .ok rune
  bitcoin : runeOf rt data = .ok none →
    txOuts[position]? = some { value := withdrawal.amount - withdrawal.feeAmount, scriptPubkey := scriptBuf } ∧
      edicts.filter (fun edict => edict.output.toNat = position) = []
  rune : ∀ runeId, runeOf rt data = .ok (some runeId) →
    txOuts[position]? = some { value := dustThreshold, scriptPubkey := scriptBuf } ∧
      edicts.filter (fun edict => edict.output.toNat = position) =
        [{ id := runeId, amount := withdrawal.amount.toNat, output := UInt32.ofNat position }]

/-- The outputs of the transaction of a batch, and its edicts: those of the withdrawals, then those for what is left
of their runes. -/
structure PaysBatch (rt : Runtime) (networkType : NetworkType) (accounts : List AccountInfo) (m : Memory)
    (programId receiver : Pubkey) (params : WithdrawBatchParams) (transition txOuts : List TxOut)
    (paid left : List Edict) : Prop where
  transitionFirst : transition <+: txOuts
  paysEach : ∀ i key withdrawal, (params.withdrawalsFrom accounts)[i]? = some (key, withdrawal) →
    ∃ scriptBuf, PaidAt rt networkType (m key).data withdrawal scriptBuf (transition.length + i) txOuts (paid ++ left)
  paidOnly : ∀ edict ∈ paid, ∃ i < (params.withdrawalsFrom accounts).length, edict.output.toNat = transition.length + i
  leftOnce : (left.map Edict.id).Nodup ∧ ∀ runeId, runeId ∈ left.map Edict.id ↔ runeId ∈ paid.map Edict.id
  leftToReceiver : ∀ edict ∈ left, edict.amount = 0 ∧ txOuts[edict.output.toNat]? =
    some { value := dustThreshold, scriptPubkey := (rt.getAccountScriptPubkey receiver).1 }
  receiverType : paid ≠ [] → getType (m receiver).data = .ok .runeReceiver
  distinct : ((paid ++ left).map Edict.output).Nodup
  inRange : ∀ edict ∈ paid ++ left, edict.output.toNat < txOuts.length
  changeApart : 0 < params.changeAmount →
    txOuts[transition.length + (params.withdrawalsFrom accounts).length]? =
      some { value := params.changeAmount, scriptPubkey := (rt.getAccountScriptPubkey programId).1 } ∧
    ∀ edict ∈ paid ++ left, edict.output.toNat ≠ transition.length + (params.withdrawalsFrom accounts).length
  runestoneLast : paid ≠ [] → txOuts.getLast? = some { value := 0, scriptPubkey := rt.encipher (paid ++ left) } ∧
    ∀ edict ∈ paid ++ left, edict.output.toNat + 1 < txOuts.length
  count : txOuts.length = transition.length + (params.withdrawalsFrom accounts).length +
    (if 0 < params.changeAmount then 1 else 0) + left.length + (if paid = [] then 0 else 1)

section Transaction

variable {rt : Runtime} {networkType : NetworkType} {accounts : List AccountInfo} {m : Memory}
  {programId receiver : Pubkey} {params : WithdrawBatchParams} {transition : List TxOut} {payouts : List Payout}

/-- The payouts follow the withdrawals of the batch. -/
theorem repaid_flatten {payouts : List (List Payout)}
    (h : List.Forall₂ (RepaidOut rt networkType accounts m) params.tokenWithdrawals payouts) :
    List.Forall₂ (fun entry payout => Repaid rt networkType accounts m entry.1 entry.2 payout)
      (params.withdrawalsFrom accounts) payouts.flatten := by
  rw [WithdrawBatchParams.withdrawalsFrom, List.flatMap_def]
  apply List.rel_flatten
  rw [List.forall₂_map_left_iff]
  refine h.imp ?_
  rintro tokenWithdrawals paid ⟨-, key, hkey, hrepaid⟩
  rw [hkey, List.forall₂_map_left_iff]
  exact hrepaid

theorem paidAt_of_repaid {key : Pubkey} {withdrawal : Withdrawal} {payout : Payout} {position : Nat}
    {txOuts : List TxOut} {edicts : List Edict}
    (h : Repaid rt networkType accounts m key withdrawal payout) (houtput : txOuts[position]? = some payout.txOut)
    (hedicts : edicts.filter (fun edict => edict.output.toNat = position) = (payout.edictAt position).toList) :
    ∃ scriptBuf, PaidAt rt networkType (m key).data withdrawal scriptBuf position txOuts edicts := by
  obtain ⟨rune, hrune, address, haddress, scriptBuf, hscript, rfl⟩ := payoutOf_eq_ok.mp h.payout
  refine ⟨scriptBuf, ⟨address, haddress, hscript⟩, ⟨rune, hrune⟩, fun hnone => ?_, fun runeId hsome => ?_⟩
  · obtain rfl := Except.ok.inj (hrune.symm.trans hnone)
    exact ⟨houtput, hedicts⟩
  · obtain rfl := Except.ok.inj (hrune.symm.trans hsome)
    exact ⟨houtput, hedicts⟩

/-- Everything that a transaction pays: the withdrawals, the change and what is left of the runes. -/
def closedPayouts (rt : Runtime) (programId receiver : Pubkey) (changeAmount : UInt64) (payouts : List Payout)
    (start : Nat) : List Payout :=
  payouts ++ (changePayouts rt programId changeAmount ++ leftPayouts rt receiver (edictsAt payouts start))

/-- The edicts for what is left, whose outputs follow those of the withdrawals and the change. -/
def leftEdicts (rt : Runtime) (programId receiver : Pubkey) (changeAmount : UInt64) (payouts : List Payout)
    (start : Nat) : List Edict :=
  edictsAt (leftPayouts rt receiver (edictsAt payouts start))
    (start + payouts.length + (changePayouts rt programId changeAmount).length)

theorem closedPayouts_paid {changeAmount : UInt64} {start i : Nat} {payout : Payout} (hget : payouts[i]? = some payout) :
    (closedPayouts rt programId receiver changeAmount payouts start)[i]? = some payout := by
  obtain ⟨hlt, -⟩ := List.getElem?_eq_some_iff.mp hget
  rw [closedPayouts, List.getElem?_append_left hlt, hget]

/-- The change follows the withdrawals. -/
theorem closedPayouts_change {changeAmount : UInt64} {start : Nat} (hpos : 0 < changeAmount) :
    (closedPayouts rt programId receiver changeAmount payouts start)[payouts.length]? =
      some { txOut := ⟨changeAmount, (rt.getAccountScriptPubkey programId).1⟩, edict := none } := by
  rw [closedPayouts, List.getElem?_append_right (Nat.le_refl _), Nat.sub_self, changePayouts, if_pos hpos]
  rfl

theorem edictsAt_closedPayouts (rt : Runtime) (programId receiver : Pubkey) (changeAmount : UInt64)
    (payouts : List Payout) (start : Nat) :
    edictsAt (closedPayouts rt programId receiver changeAmount payouts start) start =
      edictsAt payouts start ++ leftEdicts rt programId receiver changeAmount payouts start := by
  rw [closedPayouts, edictsAt_append, edictsAt_append, edictsAt_eq_nil changePayouts_edict, List.nil_append]
  rfl

theorem closeOutputs_payouts (rt : Runtime) (programId receiver : Pubkey) (changeAmount : UInt64)
    (payouts : List Payout) (transition : List TxOut) :
    closeOutputs rt programId receiver changeAmount (payouts.foldl Outputs.pay { txOuts := transition, edicts := [] }) =
      { txOuts := transition ++ (closedPayouts rt programId receiver changeAmount payouts transition.length).map
            Payout.txOut ++ runestoneOutput rt
              (edictsAt payouts transition.length ++ leftEdicts rt programId receiver changeAmount payouts transition.length)
        edicts := edictsAt payouts transition.length ++
          leftEdicts rt programId receiver changeAmount payouts transition.length } := by
  have hedicts : (payouts.foldl Outputs.pay { txOuts := transition, edicts := [] }).edicts =
      edictsAt payouts transition.length := by
    rw [Outputs.foldl_pay_edicts, List.nil_append]
  have hclosed := edictsAt_closedPayouts rt programId receiver changeAmount payouts transition.length
  rw [closeOutputs_eq, hedicts, ← List.foldl_append, Outputs.foldl_pay_eq, List.nil_append]
  rw [closedPayouts] at hclosed ⊢
  rw [hclosed]

theorem leftPayouts_ids (ids : List RuneId) (start : Nat) :
    (edictsAt (ids.map (leftPayout rt receiver)) start).map Edict.id = ids := by
  induction ids generalizing start with
  | nil => rfl
  | cons runeId ids ih =>
      rw [List.map_cons, edictsAt_cons, List.map_append, ih]
      rfl

/-- Each rune of the withdrawals has one edict for what is left. -/
theorem leftEdicts_ids (horder : ListsEachOnce rt.hashSetOrder) (changeAmount : UInt64) (start : Nat) :
    ((leftEdicts rt programId receiver changeAmount payouts start).map Edict.id).Nodup ∧
      ∀ runeId, runeId ∈ (leftEdicts rt programId receiver changeAmount payouts start).map Edict.id ↔
        runeId ∈ (edictsAt payouts start).map Edict.id := by
  rw [leftEdicts, leftPayouts]
  split
  · next hnone =>
      rw [hnone]
      exact ⟨List.nodup_nil, fun _ => Iff.rfl⟩
  · rw [leftPayouts_ids]
    exact horder _

/-- An edict for what is left comes from its payout, after the withdrawals and the change. -/
theorem mem_leftEdicts {changeAmount : UInt64} {start : Nat} {edict : Edict}
    (hmem : edict ∈ leftEdicts rt programId receiver changeAmount payouts start) :
    ∃ (i : Nat) (runeId : RuneId),
      (closedPayouts rt programId receiver changeAmount payouts start)[i]? = some (leftPayout rt receiver runeId) ∧
      (leftPayout rt receiver runeId).edictAt (start + i) = some edict := by
  obtain ⟨i, payout, hget, hedict⟩ := mem_edictsAt.mp hmem
  obtain ⟨runeId, rfl⟩ : ∃ runeId, payout = leftPayout rt receiver runeId := by
    have hpayout := List.mem_of_getElem? hget
    unfold leftPayouts at hpayout
    split at hpayout
    · cases hpayout
    · obtain ⟨runeId, -, rfl⟩ := List.mem_map.mp hpayout
      exact ⟨runeId, rfl⟩
  refine ⟨payouts.length + ((changePayouts rt programId changeAmount).length + i), runeId, ?_, ?_⟩
  · rw [closedPayouts, List.getElem?_append_right (Nat.le_add_right _ _), Nat.add_sub_cancel_left,
      List.getElem?_append_right (Nat.le_add_right _ _), Nat.add_sub_cancel_left, hget]
  · rw [← hedict]
    congr 1
    omega

theorem closedPayouts_length (rt : Runtime) (programId receiver : Pubkey) (changeAmount : UInt64)
    (payouts : List Payout) (start : Nat) :
    (closedPayouts rt programId receiver changeAmount payouts start).length =
      payouts.length + (if 0 < changeAmount then 1 else 0) +
        (leftEdicts rt programId receiver changeAmount payouts start).length := by
  have hleft : (leftEdicts rt programId receiver changeAmount payouts start).length =
      (leftPayouts rt receiver (edictsAt payouts start)).length := by
    rw [leftEdicts, leftPayouts]
    split
    · rfl
    · rw [← List.length_map Edict.id, leftPayouts_ids, List.length_map]
  rw [hleft, closedPayouts, List.length_append, List.length_append, changePayouts_length, Nat.add_assoc]

theorem runestoneOutput_length (edicts left : List Edict) (hleft : edicts = [] → left = []) :
    (runestoneOutput rt (edicts ++ left)).length = if edicts = [] then 0 else 1 := by
  unfold runestoneOutput
  by_cases hnone : edicts = []
  · rw [hnone, hleft hnone]
    rfl
  · rw [if_neg (List.append_ne_nil_of_left_ne_nil hnone _), if_neg hnone]
    rfl

/-- The closed outputs of payouts, laid out after the state transition. -/
theorem closeOutputs_laidOut {changeAmount : UInt64}
    (hfew : (closeOutputs rt programId receiver changeAmount
      (payouts.foldl Outputs.pay { txOuts := transition, edicts := [] })).txOuts.length < 2 ^ 32) :
    LaidOut transition (closedPayouts rt programId receiver changeAmount payouts transition.length)
      (closeOutputs rt programId receiver changeAmount
        (payouts.foldl Outputs.pay { txOuts := transition, edicts := [] })).txOuts
      (edictsAt payouts transition.length ++ leftEdicts rt programId receiver changeAmount payouts transition.length) := by
  rw [closeOutputs_payouts] at hfew ⊢
  rw [List.length_append, List.length_append, List.length_map] at hfew
  exact ⟨⟨_, rfl⟩, (edictsAt_closedPayouts _ _ _ _ _ _).symm, by omega⟩

theorem leftEdicts_eq_nil {changeAmount : UInt64} {start : Nat} (hnone : edictsAt payouts start = []) :
    leftEdicts rt programId receiver changeAmount payouts start = [] := by
  rw [leftEdicts, leftPayouts, if_pos hnone]
  rfl

/-- The closed outputs of a batch pay it, as long as their positions fit the edicts. -/
theorem paysBatch_of_repaid (horder : ListsEachOnce rt.hashSetOrder)
    (hrepaid : List.Forall₂ (fun entry payout => Repaid rt networkType accounts m entry.1 entry.2 payout)
      (params.withdrawalsFrom accounts) payouts)
    (hreceiver : edictsAt payouts transition.length = [] ∨ getType (m receiver).data = .ok .runeReceiver)
    (hfew : (closeOutputs rt programId receiver params.changeAmount
      (payouts.foldl Outputs.pay { txOuts := transition, edicts := [] })).txOuts.length < 2 ^ 32) :
    PaysBatch rt networkType accounts m programId receiver params transition
      (closeOutputs rt programId receiver params.changeAmount
        (payouts.foldl Outputs.pay { txOuts := transition, edicts := [] })).txOuts
      (edictsAt payouts transition.length)
      (leftEdicts rt programId receiver params.changeAmount payouts transition.length) := by
  have hlaid := closeOutputs_laidOut hfew
  have hcount := closedPayouts_length rt programId receiver params.changeAmount payouts transition.length
  have hlength := hrepaid.length_eq
  have houtputs : (closeOutputs rt programId receiver params.changeAmount
      (payouts.foldl Outputs.pay { txOuts := transition, edicts := [] })).txOuts =
        transition ++ (closedPayouts rt programId receiver params.changeAmount payouts transition.length).map
          Payout.txOut ++ runestoneOutput rt (edictsAt payouts transition.length ++
            leftEdicts rt programId receiver params.changeAmount payouts transition.length) := by
    rw [closeOutputs_payouts]
  refine ⟨?_, ?_, ?_, leftEdicts_ids horder _ _, ?_, ?_, hlaid.distinct, ?_, ?_, ?_, ?_⟩
  · obtain ⟨rest, houtputs⟩ := hlaid.outputs
    rw [houtputs, List.append_assoc]
    exact List.prefix_append _ _
  · intro i key withdrawal hget
    obtain ⟨payout, hpayout, hentry⟩ := getElem?_of_forall₂ hrepaid hget
    exact paidAt_of_repaid hentry (hlaid.output (closedPayouts_paid hpayout))
      (hlaid.filter (closedPayouts_paid hpayout))
  · intro edict hmem
    obtain ⟨i, payout, hget, hedict⟩ := mem_edictsAt.mp hmem
    obtain ⟨hlt, -⟩ := List.getElem?_eq_some_iff.mp hget
    have hfew := hlaid.few
    refine ⟨i, by omega, edictAt_output hedict ?_⟩
    omega
  · intro edict hmem
    obtain ⟨i, runeId, hget, hedict⟩ := mem_leftEdicts hmem
    have houtput : edict.output.toNat = transition.length + i := by
      obtain ⟨hlt, -⟩ := List.getElem?_eq_some_iff.mp hget
      have hfew := hlaid.few
      exact edictAt_output hedict (by omega)
    rw [houtput, hlaid.output hget]
    cases hedict
    exact ⟨rfl, rfl⟩
  · exact fun hsome => hreceiver.resolve_left hsome
  · intro edict hmem
    exact Nat.lt_of_lt_of_le (hlaid.inRange hmem) hlaid.length_le
  · intro hpos
    rw [hlength]
    exact ⟨hlaid.output (closedPayouts_change hpos),
      fun edict hmem => hlaid.apart (closedPayouts_change hpos) rfl hmem⟩
  · intro hsome
    have hlast := houtputs
    rw [runestoneOutput, if_neg (List.append_ne_nil_of_left_ne_nil hsome _)] at hlast
    rw [hlast]
    refine ⟨List.getLast?_concat, fun edict hmem => ?_⟩
    have hlt := hlaid.inRange hmem
    rw [List.length_append, List.length_append, List.length_map, List.length_singleton]
    omega
  · rw [houtputs, List.length_append, List.length_append, List.length_map, hcount, hlength,
      runestoneOutput_length _ _ leftEdicts_eq_nil]
    omega

end Transaction

/-! ### The submission -/

/-- What a submission builds to be signed: its steps, without the checks that come before them. -/
def submittedTransaction (rt : Runtime) (programId : Pubkey) (accounts : List AccountInfo)
    (params : WithdrawBatchParams) : Prog (Transaction × List Edict) := do
  let third ← accountAt accounts 2
  let tx ← getStateTransitionTx rt accounts
  match rt.deserializeTransaction params.txHex with
  | none => Exec.fail (.custom errorInvalidInputTx)
  | some txWithInputs => do
      let built ← submitOutputs rt accounts params
      let closed := closeOutputs rt programId third.key params.changeAmount built.2
      pure ({ tx with input := tx.input ++ txWithInputs.input, output := closed.txOuts }, closed.edicts)

/-- The submission builds the transaction, whose first outputs are those of the state transition, and signs it. -/
structure SubmitsTransaction (rt : Runtime) (w : World) (programId : Pubkey) (accounts : List AccountInfo)
    (params : WithdrawBatchParams) (networkType : NetworkType) (receiver : Pubkey) (transition : List TxOut)
    (transaction : Transaction) (edicts : List Edict) : Prop where
  network : ∃ program, accounts[0]? = some program ∧ ProgramState.getNetworkType (w program.key).data = .ok networkType
  receiverListed : keyAt accounts 2 = some receiver
  transitionOutputs : ∃ tx, (getStateTransitionTx rt accounts).run (load w) = .ok tx (load w) ∧ tx.output = transition
  transitionScripts : transition.map TxOut.scriptPubkey =
    (accounts.filter (·.isWritable)).map fun account => (rt.getAccountScriptPubkey account.key).1
  built : (submittedTransaction rt programId accounts params).run (load w) = .ok (transaction, edicts) (load w)
  signed : ∃ withdraw inputsToSign signed, accounts[1]? = some withdraw ∧
    (setTransactionToSign rt withdraw (rt.serializeTransaction transaction) inputsToSign).run (load w) = .ok () signed

section Submission

variable {rt : Runtime} {accounts : List AccountInfo} {m m' : Memory}

/-- The state transition pays every writable account. -/
theorem getStateTransitionTx_scripts {tx : Transaction} (h : (getStateTransitionTx rt accounts).run m = .ok tx m') :
    tx.output.map TxOut.scriptPubkey =
      (accounts.filter (·.isWritable)).map fun account => (rt.getAccountScriptPubkey account.key).1 := by
  obtain ⟨input, read, -, h⟩ := Exec.bind_eq_ok.mp h
  obtain ⟨output, written, houtput, h⟩ := Exec.bind_eq_ok.mp h
  obtain ⟨rfl, -⟩ := Exec.pure_eq_ok.mp h
  have hpays : Keeps (fun _ : Memory => True) ((accounts.filter (·.isWritable)).foldlM (fun output account => do
      let utxo ← account.getUtxo
      let txOut ← lift (utxoOutput rt utxo)
      pure (output ++ [({ value := txOut.value,
                          scriptPubkey := (rt.getAccountScriptPubkey account.key).1 } : TxOut)])) [])
      fun output => ∃ txOuts, List.Forall₂ (fun account txOut => TxOut.scriptPubkey txOut =
        (rt.getAccountScriptPubkey (AccountInfo.key account)).1) (accounts.filter (·.isWritable)) txOuts ∧
          output = txOuts.foldl (fun output txOut => output ++ [txOut]) [] := by
    refine keeps_foldlM_forall₂ fun output account _ => ?_
    refine Keeps.bind (Q := fun _ => True) (Exec.keeps_query fun _ _ _ _ => trivial) fun utxo _ => ?_
    refine Keeps.bind (Q := fun _ => True) (Exec.keeps_query fun _ _ _ _ => trivial) fun txOut _ => ?_
    exact Exec.keeps_pure ⟨_, rfl, rfl⟩
  obtain ⟨-, txOuts, hscripts, rfl⟩ := hpays.of_ok trivial houtput
  have hlist : txOuts.foldl (fun output txOut => output ++ [txOut]) [] = txOuts := by
    rw [List.foldl_append_eq_append, List.nil_append, ← List.flatMap_def, List.flatMap_singleton']
  rw [hlist, ← List.forall₂_eq_eq_eq, List.forall₂_map_left_iff, List.forall₂_map_right_iff]
  exact hscripts.flip

variable {programId : Pubkey} {params : WithdrawBatchParams} {raw : Bytes} {u : Unit}

/-- A submission that succeeds signs what its steps build from the payouts of its withdrawals. -/
theorem submitWithdrawBatch_signs {w : World} (h : (submitWithdrawBatch rt programId accounts params raw).run (load w) =
    .ok u m') :
    ∃ networkType receiver, ∃ tx transaction : Transaction, ∃ payouts,
      List.Forall₂ (RepaidOut rt networkType accounts (load w)) params.tokenWithdrawals payouts ∧
      transaction.output = (closeOutputs rt programId receiver params.changeAmount
        (payouts.flatten.foldl Outputs.pay { txOuts := tx.output, edicts := [] })).txOuts ∧
      (edictsAt payouts.flatten tx.output.length = [] ∨ getType (w receiver).data = .ok .runeReceiver) ∧
      SubmitsTransaction rt w programId accounts params networkType receiver tx.output transaction
        (edictsAt payouts.flatten tx.output.length ++
          leftEdicts rt programId receiver params.changeAmount payouts.flatten tx.output.length) := by
  obtain ⟨program, -, -, -, -, -, -, -, hprogram, -⟩ := submitWithdrawBatch_cases h
  obtain ⟨networkType, tx, payouts, withdraw, signed, hnetwork, hbuilds, hrepaid, htransition, hwithdraw,
    receiver, txWithInputs, inputsToSign, hreceiver, hvalid, htx, hsign⟩ := submitWithdrawBatch_builds h hprogram
  rw [Outputs.foldl_pay_edicts, List.nil_append] at hvalid
  refine ⟨networkType, receiver.key, tx, _, payouts, hrepaid, rfl, ?_, ⟨program, hprogram, hnetwork⟩,
    keyAt_of_listed hreceiver, ⟨tx, htransition, rfl⟩, getStateTransitionTx_scripts htransition, ?_,
    withdraw, inputsToSign, signed, hwithdraw, hsign⟩
  · exact hvalid.imp_right fun hvalidated => hvalidated.type_eq hreceiver
  · refine accountAt_bind_eq_ok.mpr ⟨receiver, hreceiver, Exec.bind_eq_ok.mpr ⟨tx, load w, htransition, ?_⟩⟩
    rw [htx]
    refine Exec.bind_eq_ok.mpr ⟨_, load w, hbuilds, Exec.pure_eq_ok.mpr ⟨?_, rfl⟩⟩
    have hedicts := congrArg Outputs.edicts
      (closeOutputs_payouts rt programId receiver.key params.changeAmount payouts.flatten tx.output)
    exact congrArg (Prod.mk _) hedicts.symm

end Submission

/-- The structure of the transaction of every submission that succeeds, whatever the order in which the ids of its
runes are read. -/
theorem submission_structure (rt : Runtime) (w : World) (programId : Pubkey) (accounts : List AccountInfo)
    (rawParamsData : Bytes) (params : WithdrawBatchParams) (horder : ListsEachOnce rt.hashSetOrder)
    (hparams : decodeFromSlice WithdrawBatchParams.decode rawParamsData = .ok params)
    (hexecute : (execute rt w (withdrawCall 9 programId accounts rawParamsData)).isSome) :
    ∃ networkType receiver transition transaction paid left,
      SubmitsTransaction rt w programId accounts params networkType receiver transition transaction (paid ++ left) ∧
      (transaction.output.length < 2 ^ 32 →
        PaysBatch rt networkType accounts (load w) programId receiver params transition transaction.output paid left) := by
  obtain ⟨w', hsome⟩ := Option.isSome_iff_exists.mp hexecute
  obtain ⟨instruction, m, hinstruction, hrun, -⟩ := execute_cases hsome
  obtain rfl := Except.ok.inj (hinstruction.symm.trans (withdrawCall_submit programId accounts hparams))
  obtain ⟨networkType, receiver, tx, transaction, payouts, hrepaid, houtputs, hreceiver, hsubmits⟩ :=
    submitWithdrawBatch_signs hrun
  refine ⟨networkType, receiver, tx.output, transaction, _, _, hsubmits, fun hfew => ?_⟩
  rw [houtputs] at hfew ⊢
  exact paysBatch_of_repaid horder (repaid_flatten hrepaid) hreceiver hfew

/-- The libraries with a set of ids that is read in the order of their last occurrences. -/
def dedupRuntime : Runtime := { smallRuntime with hashSetOrder := List.dedup }

/-- The small batch of a rune is paid with its edict and one for what is left. -/
theorem smallRune_structure :
    ∃ networkType receiver transition transaction paid left,
      SubmitsTransaction dedupRuntime (worldAt dedupRuntime runeWorld [smallPrepare] 1) (sampleKey 0xee)
        (submittingAccounts (sampleKey 0x31)) smallBatchParams networkType receiver transition transaction
        (paid ++ left) ∧
      PaysBatch dedupRuntime networkType (submittingAccounts (sampleKey 0x31))
        (load (worldAt dedupRuntime runeWorld [smallPrepare] 1)) (sampleKey 0xee) receiver smallBatchParams transition
        transaction.output paid left := by
  obtain ⟨networkType, receiver, transition, transaction, paid, left, hsubmits, hpays⟩ :=
    submission_structure dedupRuntime (worldAt dedupRuntime runeWorld [smallPrepare] 1) (sampleKey 0xee)
      (submittingAccounts (sampleKey 0x31)) smallBatch smallBatchParams
      (fun ids => ⟨List.nodup_dedup ids, fun _ => List.mem_dedup⟩) (by decide +kernel) (by decide +kernel)
  have houtputs : ((submittedTransaction dedupRuntime (sampleKey 0xee) (submittingAccounts (sampleKey 0x31))
      smallBatchParams).run (load (worldAt dedupRuntime runeWorld [smallPrepare] 1))).value.map
        (fun built => built.1.output.length) = some 4 := by
    decide +kernel
  rw [hsubmits.built] at houtputs
  have hlength : transaction.output.length = 4 := Option.some.inj houtputs
  exact ⟨networkType, receiver, transition, transaction, paid, left, hsubmits, hpays (by rw [hlength]; decide)⟩

end Chainring.Arch

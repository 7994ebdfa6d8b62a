import Chainring.Arch.RoundTrip
import Chainring.Arch.WithdrawalTransaction
import Chainring.Base.Allocation

/-! What the edicts of a submitted batch allocate to its outputs. An edict of amount 0 takes all that remains of its
rune, which is meant for what the withdrawals leave; a withdrawal of 0 has such an edict too. -/

namespace Chainring.Arch

open Allocation (Request AtEach Spent atEach_nil atEach_concat total_concat process_mergeSort delivers_iff left_held)

/-! ### Processing edicts -/

/-- Rune ids are ordered by block, then by transaction. -/
def RuneId.le (id id' : RuneId) : Bool :=
  id.block < id'.block || (id.block == id'.block && id.tx ≤ id'.tx)

/-- The edicts in the order of their rune ids, those of one rune in the order that they had. -/
def stablySorted (edicts : List Edict) : List Edict := edicts.mergeSort fun edict edict' => edict.id.le edict'.id

def Edict.request (edict : Edict) : Request RuneId Nat where
  item := edict.id
  amount := edict.amount
  output := edict.output.toNat

/-- What edicts allocate to each output of a transaction with this many of them. -/
def allocateRunes (supply : RuneId → Nat) (outputs : Nat) (edicts : List Edict) : Nat → RuneId → Nat :=
  (Allocation.process supply ((edicts.filter (·.output.toNat < outputs)).map Edict.request)).held

/-- The edicts of a transaction whose last output is a runestone. -/
def transactionEdicts (decipher : Bytes → List Edict) (txOuts : List TxOut) : List Edict :=
  match txOuts.getLast? with
  | some txOut => decipher txOut.scriptPubkey
  | none => []

theorem RuneId.le_trans (a b c : RuneId) : a.le b → b.le c → a.le c := by
  simp only [RuneId.le, Bool.or_eq_true, decide_eq_true_eq, Bool.and_eq_true, beq_iff_eq, UInt64.lt_iff_toNat_lt,
    UInt32.le_iff_toNat_le, ← UInt64.toNat_inj]
  omega

theorem RuneId.le_total (a b : RuneId) : a.le b || b.le a := by
  simp only [RuneId.le, Bool.or_eq_true, decide_eq_true_eq, Bool.and_eq_true, beq_iff_eq, UInt64.lt_iff_toNat_lt,
    UInt32.le_iff_toNat_le, ← UInt64.toNat_inj]
  omega

/-- The order of the runes does not matter to edicts that point at outputs. -/
theorem allocateRunes_stablySorted {outputs : Nat} {edicts : List Edict}
    (hinRange : ∀ edict ∈ edicts, edict.output.toNat < outputs) (supply : RuneId → Nat) :
    allocateRunes supply outputs (stablySorted edicts) =
      (Allocation.process supply (edicts.map Edict.request)).held := by
  have hfilter : (stablySorted edicts).filter (·.output.toNat < outputs) = stablySorted edicts := by
    apply List.filter_eq_self.mpr
    intro edict hmem
    exact decide_eq_true (hinRange edict ((List.mergeSort_perm _ _).mem_iff.mp hmem))
  have hmap : (stablySorted edicts).map Edict.request =
      (edicts.map Edict.request).mergeSort fun a b => a.item.le b.item :=
    List.map_mergeSort fun _ _ _ _ => rfl
  rw [allocateRunes, hfilter, hmap, process_mergeSort RuneId.le_trans RuneId.le_total]

/-! ### The edicts of withdrawals -/

/-- The amounts of a rune that withdrawals are of. -/
def runeTotal (rt : Runtime) (m : Memory) (withdrawals : List (Pubkey × Withdrawal)) (runeId : RuneId) : Nat :=
  ((withdrawals.filter fun entry => runeOf rt (m entry.1).data = .ok (some runeId)).map fun entry =>
    entry.2.amount.toNat).sum

/-- Before every withdrawal of 0 of a rune, the withdrawals of the rune have taken all of it. -/
def ZerosFindNothing (rt : Runtime) (m : Memory) (supply : RuneId → Nat) : List (Pubkey × Withdrawal) → Prop :=
  AtEach fun before entry => ∀ runeId, runeOf rt (m entry.1).data = .ok (some runeId) → entry.2.amount = 0 →
    supply runeId = runeTotal rt m before runeId

/-- The output of every withdrawal of a rune holds its amount and nothing of another rune, and the output of every
edict for what is left holds what the withdrawals leave. -/
structure DeliversRunes (rt : Runtime) (m : Memory) (withdrawals : List (Pubkey × Withdrawal)) (first : Nat)
    (left : List Edict) (supply : RuneId → Nat) (held : Nat → RuneId → Nat) : Prop where
  withdrawn : ∀ i key withdrawal runeId, withdrawals[i]? = some (key, withdrawal) →
    runeOf rt (m key).data = .ok (some runeId) →
    ∀ id, held (first + i) id = if id = runeId then withdrawal.amount.toNat else 0
  remainder : ∀ edict ∈ left, ∀ id, held edict.output.toNat id =
    if id = edict.id then supply id - runeTotal rt m withdrawals id else 0

section Zeros

variable {rt : Runtime} {m : Memory} {withdrawals : List (Pubkey × Withdrawal)}

theorem zerosFindNothing_of_pos (h : ∀ entry ∈ withdrawals, ∀ runeId,
      runeOf rt (m entry.1).data = .ok (some runeId) → entry.2.amount ≠ 0) (supply : RuneId → Nat) :
    ZerosFindNothing rt m supply withdrawals := by
  rintro before entry after rfl runeId hrune hzero
  exact absurd hzero (h entry (List.mem_append_right _ List.mem_cons_self) runeId hrune)

theorem runeTotal_append (withdrawals withdrawals' : List (Pubkey × Withdrawal)) (runeId : RuneId) :
    runeTotal rt m (withdrawals ++ withdrawals') runeId =
      runeTotal rt m withdrawals runeId + runeTotal rt m withdrawals' runeId := by
  rw [runeTotal, List.filter_append, List.map_append, List.sum_append]
  rfl

/-- Withdrawals of 0 find nothing in every supply that covers the batch only when there are none of a rune. -/
theorem zerosFindNothing_iff : (∀ supply, (∀ runeId, runeTotal rt m withdrawals runeId ≤ supply runeId) →
      ZerosFindNothing rt m supply withdrawals) ↔
    ∀ entry ∈ withdrawals, ∀ runeId, runeOf rt (m entry.1).data = .ok (some runeId) → entry.2.amount ≠ 0 := by
  constructor
  · intro hall entry hmem runeId hrune hzero
    obtain ⟨before, after, rfl⟩ := List.append_of_mem hmem
    have hsupply := hall (fun runeId => runeTotal rt m (before ++ entry :: after) runeId + 1)
      (fun _ => Nat.le_succ _) before entry after rfl runeId hrune hzero
    dsimp only at hsupply
    rw [runeTotal_append] at hsupply
    omega
  · exact fun hpos supply _ => zerosFindNothing_of_pos hpos supply

end Zeros

section Withdrawals

variable {rt : Runtime} {networkType : NetworkType} {accounts : List AccountInfo} {m : Memory}
  {withdrawals : List (Pubkey × Withdrawal)} {payouts : List Payout} {supply : RuneId → Nat}

/-- A payout has an edict of the amount exactly when its account is of a rune. -/
theorem Repaid.edictAt_eq {key : Pubkey} {withdrawal : Withdrawal} {payout : Payout}
    (h : Repaid rt networkType accounts m key withdrawal payout) :
    ∃ rune, runeOf rt (m key).data = .ok rune ∧ ∀ output, payout.edictAt output =
      rune.map fun runeId => { id := runeId, amount := withdrawal.amount.toNat, output := UInt32.ofNat output } := by
  obtain ⟨rune, hrune, _, -, _, -, rfl⟩ := payoutOf_eq_ok.mp h.payout
  refine ⟨rune, hrune, fun output => ?_⟩
  cases rune <;> rfl

theorem runeTotal_concat (withdrawals : List (Pubkey × Withdrawal)) (entry : Pubkey × Withdrawal) (runeId : RuneId) :
    runeTotal rt m (withdrawals ++ [entry]) runeId = runeTotal rt m withdrawals runeId +
      if runeOf rt (m entry.1).data = .ok (some runeId) then entry.2.amount.toNat else 0 := by
  rw [runeTotal_append]
  by_cases hrune : runeOf rt (m entry.1).data = .ok (some runeId) <;> simp [runeTotal, hrune]

theorem edictsAt_concat (payouts : List Payout) (payout : Payout) (start : Nat) :
    edictsAt (payouts ++ [payout]) start =
      edictsAt payouts start ++ (payout.edictAt (start + payouts.length)).toList := by
  rw [edictsAt_append, edictsAt_cons]
  exact congrArg _ (List.append_nil _)

variable (hrepaid : List.Forall₂ (fun entry payout => Repaid rt networkType accounts m entry.1 entry.2 payout)
  withdrawals payouts)

include hrepaid

/-- What the edicts ask for of a rune is what the withdrawals are of. -/
theorem total_edictsAt (start : Nat) (runeId : RuneId) :
    Allocation.total ((edictsAt payouts start).map Edict.request) runeId = runeTotal rt m withdrawals runeId := by
  induction payouts using List.reverseRecOn generalizing withdrawals with
  | nil =>
      cases hrepaid
      rfl
  | append_singleton payouts payout ih =>
      obtain ⟨withdrawals, entry, rfl, hbefore, hentry⟩ := forall₂_concat hrepaid
      obtain ⟨rune, hrune, hedict⟩ := hentry.edictAt_eq
      rw [edictsAt_concat, runeTotal_concat, ← ih hbefore, hedict, hrune]
      cases rune with
      | none => simp
      | some id =>
          rw [Option.map_some, Option.toList_some, List.map_append, List.map_singleton, total_concat]
          simp [Edict.request]

/-- The edicts for 0 find nothing left exactly when the withdrawals of 0 do. -/
theorem spent_edictsAt (start : Nat) :
    Spent supply ((edictsAt payouts start).map Edict.request) ↔ ZerosFindNothing rt m supply withdrawals := by
  induction payouts using List.reverseRecOn generalizing withdrawals with
  | nil =>
      cases hrepaid
      exact iff_of_true atEach_nil atEach_nil
  | append_singleton payouts payout ih =>
      obtain ⟨withdrawals, entry, rfl, hbefore, hentry⟩ := forall₂_concat hrepaid
      obtain ⟨rune, hrune, hedict⟩ := hentry.edictAt_eq
      rw [edictsAt_concat, hedict, ZerosFindNothing, atEach_concat, ← ZerosFindNothing, ← ih hbefore, hrune]
      cases rune with
      | none => simp
      | some id =>
          rw [Option.map_some, Option.toList_some, List.map_append, List.map_singleton, Spent, atEach_concat, ← Spent]
          apply and_congr_right
          intro _
          simp only [Edict.request, total_edictsAt hbefore, Except.ok.injEq, Option.some.injEq, forall_eq']
          rw [← UInt64.toNat_inj]
          rfl

/-- The edicts are those of the withdrawals of a rune, each at its own output. -/
theorem mem_edictsAt_iff {start : Nat} {edict : Edict} : edict ∈ edictsAt payouts start ↔
    ∃ (i : Nat) (key : Pubkey) (withdrawal : Withdrawal) (runeId : RuneId),
      withdrawals[i]? = some (key, withdrawal) ∧ runeOf rt (m key).data = .ok (some runeId) ∧
      edict = { id := runeId, amount := withdrawal.amount.toNat, output := UInt32.ofNat (start + i) } := by
  rw [mem_edictsAt]
  constructor
  · rintro ⟨i, payout, hget, hsome⟩
    obtain ⟨⟨key, withdrawal⟩, hwithdrawal, hentry⟩ := getElem?_of_forall₂ hrepaid.flip hget
    obtain ⟨rune, hrune, hedict⟩ := Repaid.edictAt_eq hentry
    rw [hedict] at hsome
    obtain ⟨runeId, rfl, rfl⟩ := Option.map_eq_some_iff.mp hsome
    exact ⟨i, key, withdrawal, runeId, hwithdrawal, hrune, rfl⟩
  · rintro ⟨i, key, withdrawal, runeId, hget, hrune, rfl⟩
    obtain ⟨payout, hpayout, hentry⟩ := getElem?_of_forall₂ hrepaid hget
    obtain ⟨rune, hrune', hedict⟩ := Repaid.edictAt_eq hentry
    obtain rfl := Except.ok.inj (hrune.symm.trans hrune')
    exact ⟨i, payout, hpayout, by rw [hedict, Option.map_some]⟩

theorem withdrawn_iff {start : Nat} (hfew : start + withdrawals.length ≤ 2 ^ 32) {held : Nat → RuneId → Nat} :
    (∀ request ∈ (edictsAt payouts start).map Edict.request, ∀ id, held request.output id =
      if id = request.item then request.amount else 0) ↔
    ∀ i key withdrawal runeId, withdrawals[i]? = some (key, withdrawal) →
      runeOf rt (m key).data = .ok (some runeId) →
      ∀ id, held (start + i) id = if id = runeId then withdrawal.amount.toNat else 0 := by
  have houtput : ∀ {i entry}, withdrawals[i]? = some entry → (UInt32.ofNat (start + i)).toNat = start + i := by
    intro i entry hget
    obtain ⟨hlt, -⟩ := List.getElem?_eq_some_iff.mp hget
    exact UInt32.toNat_ofNat_of_lt' (show start + i < 2 ^ 32 by omega)
  constructor
  · intro hheld i key withdrawal runeId hget hrune id
    have hmem : _ ∈ edictsAt payouts start :=
      (mem_edictsAt_iff hrepaid).mpr ⟨i, key, withdrawal, runeId, hget, hrune, rfl⟩
    have hedict := hheld _ (List.mem_map_of_mem hmem) id
    rwa [Edict.request, houtput hget] at hedict
  · intro hheld request hmem id
    obtain ⟨edict, hedict, rfl⟩ := List.mem_map.mp hmem
    obtain ⟨i, key, withdrawal, runeId, hget, hrune, rfl⟩ := (mem_edictsAt_iff hrepaid).mp hedict
    rw [Edict.request, houtput hget]
    exact hheld i key withdrawal runeId hget hrune id

end Withdrawals

/-! ### The delivery of a batch -/

section Delivery

variable {rt : Runtime} {networkType : NetworkType} {accounts : List AccountInfo} {m : Memory}
  {programId receiver : Pubkey} {params : WithdrawBatchParams} {transition txOuts : List TxOut} {payouts : List Payout}
  {left : List Edict} {supply : RuneId → Nat} {decipher : Bytes → List Edict}

/-- The edicts of a paid batch deliver its runes exactly when the withdrawals of 0 find nothing left. -/
theorem PaysBatch.deliversRunes_iff (h : PaysBatch rt networkType accounts m programId receiver params transition txOuts
      (edictsAt payouts transition.length) left)
    (hrepaid : List.Forall₂ (fun entry payout => Repaid rt networkType accounts m entry.1 entry.2 payout)
      (params.withdrawalsFrom accounts) payouts)
    (hfew : txOuts.length ≤ 2 ^ 32)
    (hdecipher : decipher (rt.encipher (edictsAt payouts transition.length ++ left)) =
      stablySorted (edictsAt payouts transition.length ++ left))
    (hcovers : ∀ runeId, runeTotal rt m (params.withdrawalsFrom accounts) runeId ≤ supply runeId) :
    DeliversRunes rt m (params.withdrawalsFrom accounts) transition.length left supply
        (allocateRunes supply txOuts.length (transactionEdicts decipher txOuts)) ↔
      ZerosFindNothing rt m supply (params.withdrawalsFrom accounts) := by
  have hpositions : transition.length + (params.withdrawalsFrom accounts).length ≤ 2 ^ 32 := by
    have hcount := h.count
    omega
  rw [← spent_edictsAt hrepaid transition.length]
  by_cases hnone : edictsAt payouts transition.length = []
  · rw [hnone]
    refine iff_of_true ⟨(withdrawn_iff hrepaid hpositions).mp ?_, fun edict hmem => ?_⟩ atEach_nil
    · rw [hnone]
      exact List.forall_mem_nil _
    · have hid := (h.leftOnce.2 edict.id).mp (List.mem_map_of_mem hmem)
      rw [hnone] at hid
      cases hid
  have hheld : allocateRunes supply txOuts.length (transactionEdicts decipher txOuts) =
      (Allocation.process supply ((edictsAt payouts transition.length).map Edict.request ++
        left.map Edict.request)).held := by
    rw [transactionEdicts, (h.runestoneLast hnone).1]
    show allocateRunes supply txOuts.length (decipher _) = _
    rw [hdecipher, allocateRunes_stablySorted h.inRange, List.map_append]
  have hdistinct : (((edictsAt payouts transition.length).map Edict.request ++ left.map Edict.request).map
      Request.output).Nodup := by
    have houtputs := h.distinct.map fun a b => UInt32.toNat_inj.mp
    rwa [List.map_map, ← List.map_append, List.map_map] at *
  have hcovered : ∀ runeId, Allocation.total ((edictsAt payouts transition.length).map Edict.request) runeId ≤
      supply runeId := by
    intro runeId
    rw [total_edictsAt hrepaid]
    exact hcovers runeId
  rw [hheld]
  constructor
  · intro hdelivers
    exact (delivers_iff hdistinct hcovered).mp ((withdrawn_iff hrepaid hpositions).mpr hdelivers.withdrawn)
  · intro hspent
    refine ⟨(withdrawn_iff hrepaid hpositions).mp ((delivers_iff hdistinct hcovered).mpr hspent), ?_⟩
    intro edict hmem id
    have hleft := left_held hdistinct ((Allocation.exact_iff hcovered).mpr hspent) (by
      rw [List.map_map]
      exact h.leftOnce.1) (by
      intro request hrequest
      obtain ⟨other, hother, rfl⟩ := List.mem_map.mp hrequest
      exact (h.leftToReceiver other hother).1) (List.mem_map_of_mem hmem) id
    rw [total_edictsAt hrepaid] at hleft
    exact hleft

end Delivery

/-! ### The number of outputs -/

section Count

variable {rt : Runtime} {networkType : NetworkType} {accounts accounts' : List AccountInfo} {m : Memory}
  {programId receiver : Pubkey} {params : WithdrawBatchParams} {payouts : List Payout}

theorem mem_withdrawalsFrom {entry : Pubkey × Withdrawal} (h : entry ∈ params.withdrawalsFrom accounts) :
    ∃ tokenWithdrawals ∈ params.tokenWithdrawals, keyAt accounts tokenWithdrawals.accountIndex = some entry.1 := by
  obtain ⟨tokenWithdrawals, hmem, hentry⟩ := List.mem_flatMap.mp h
  refine ⟨tokenWithdrawals, hmem, ?_⟩
  cases hkey : keyAt accounts tokenWithdrawals.accountIndex with
  | none =>
      rw [hkey] at hentry
      cases hentry
  | some key =>
      rw [hkey] at hentry
      obtain ⟨withdrawal, -, rfl⟩ := List.mem_map.mp hentry
      rfl

theorem withdrawalsFrom_length (h : params.Short) : (params.withdrawalsFrom accounts).length ≤ 65535 * 65535 := by
  rw [WithdrawBatchParams.withdrawalsFrom, List.length_flatMap]
  refine (List.sum_le_card_nsmul _ 65535 fun length hmem => ?_).trans ?_
  · obtain ⟨tokenWithdrawals, htoken, rfl⟩ := List.mem_map.mp hmem
    cases keyAt accounts tokenWithdrawals.accountIndex with
    | none => exact Nat.zero_le _
    | some key =>
        show (List.map _ _).length ≤ _
        rw [List.length_map]
        exact (h.2.1.2 tokenWithdrawals htoken).1
  · rw [List.length_map, Nat.nsmul_eq_mul]
    exact Nat.mul_le_mul_right _ h.2.1.1

/-- Each token account of a batch has at most one rune, of which something may be left. -/
theorem leftEdicts_length (horder : ListsEachOnce rt.hashSetOrder)
    (hrepaid : List.Forall₂ (fun entry payout => Repaid rt networkType accounts m entry.1 entry.2 payout)
      (params.withdrawalsFrom accounts) payouts) (changeAmount : UInt64) (start : Nat) :
    (leftEdicts rt programId receiver changeAmount payouts start).length ≤ params.tokenWithdrawals.length := by
  obtain ⟨hnodup, hids⟩ := @leftEdicts_ids rt programId receiver payouts horder changeAmount start
  have hsubset : (leftEdicts rt programId receiver changeAmount payouts start).map Edict.id ⊆
      params.tokenWithdrawals.filterMap fun tokenWithdrawals =>
        (keyAt accounts tokenWithdrawals.accountIndex).bind fun key => (runeOf rt (m key).data).toOption.join := by
    intro runeId hmem
    obtain ⟨edict, hedict, rfl⟩ := List.mem_map.mp ((hids runeId).mp hmem)
    obtain ⟨i, key, withdrawal, runeId, hget, hrune, rfl⟩ := (mem_edictsAt_iff hrepaid).mp hedict
    obtain ⟨tokenWithdrawals, htoken, hkey⟩ := mem_withdrawalsFrom (List.mem_of_getElem? hget)
    refine List.mem_filterMap.mpr ⟨tokenWithdrawals, htoken, ?_⟩
    rw [hkey, Option.bind_some, hrune]
    rfl
  have hlength := (List.subperm_of_subset hnodup hsubset).length_le
  rw [List.length_map] at hlength
  exact hlength.trans (List.length_filterMap_le _ _)

/-- The positions of the outputs of a batch fit the edicts. -/
theorem closeOutputs_length_lt (horder : ListsEachOnce rt.hashSetOrder) (hshort : params.Short)
    (hrepaid : List.Forall₂ (fun entry payout => Repaid rt networkType accounts m entry.1 entry.2 payout)
      (params.withdrawalsFrom accounts) payouts) {transition : List TxOut} (hfew : transition.length ≤ 255) :
    (closeOutputs rt programId receiver params.changeAmount
      (payouts.foldl Outputs.pay { txOuts := transition, edicts := [] })).txOuts.length < 2 ^ 32 := by
  have hleft := @leftEdicts_length rt networkType accounts m programId receiver params payouts horder hrepaid
    params.changeAmount transition.length
  have hpayouts := @withdrawalsFrom_length accounts params hshort
  have htokens := hshort.2.1.1
  have hlength := hrepaid.length_eq
  rw [closeOutputs_payouts]
  dsimp only
  rw [List.length_append, List.length_append, List.length_map, closedPayouts_length,
    runestoneOutput_length _ _ leftEdicts_eq_nil]
  split <;> split <;> omega

theorem SubmitsTransaction.transition_length {w : World} {transition : List TxOut} {transaction : Transaction}
    {edicts : List Edict} (h : SubmitsTransaction rt w programId accounts params networkType receiver transition
      transaction edicts) : transition.length ≤ accounts.length := by
  have hlength := congrArg List.length h.transitionScripts
  rw [List.length_map, List.length_map] at hlength
  exact hlength.trans_le (List.length_filter_le _ _)

/-! ### The preparation -/

/-- A batch posts the entries of its withdrawals. -/
theorem entries_eq_flatMap (accounts : List AccountInfo) (params : WithdrawBatchParams) :
    params.entries accounts =
      (params.withdrawalsFrom accounts).flatMap fun entry => entry.2.entries accounts entry.1 := by
  rw [WithdrawBatchParams.entries, WithdrawBatchParams.withdrawalsFrom, List.flatMap_assoc]
  apply List.flatMap_congr
  intro tokenWithdrawals _
  unfold TokenWithdrawals.entries
  cases keyAt accounts tokenWithdrawals.accountIndex with
  | none => rfl
  | some key =>
      show _ = List.flatMap _ (List.map _ _)
      rw [List.flatMap_map]

theorem withdrawalsFrom_congr (hsame : ∀ tokenWithdrawals ∈ params.tokenWithdrawals,
      keyAt accounts' tokenWithdrawals.accountIndex = keyAt accounts tokenWithdrawals.accountIndex) :
    params.withdrawalsFrom accounts' = params.withdrawalsFrom accounts := by
  apply List.flatMap_congr
  intro tokenWithdrawals hmem
  rw [hsame tokenWithdrawals hmem]

theorem PreparedThenSubmitted.posted {start : World} {calls : List Call} {n k : Nat} {raw : Bytes}
    (h : PreparedThenSubmitted rt start calls n k accounts accounts' raw params) :
    Ledger.run .wraps amountModulus (balances (load (worldAt rt start calls n))) (params.entries accounts) =
      some (balances (load (worldAt rt start calls (n + 1)))) := by
  obtain ⟨programId, hprepares⟩ := h.prepares
  obtain ⟨instruction, m, hinstruction, hrun, -⟩ := execute_cases hprepares.execute
  obtain rfl := Except.ok.inj (hinstruction.symm.trans (withdrawCall_prepare programId accounts h.decoded))
  obtain ⟨program, withdraw, -, -, -, -, -, -, -, hfirst, hsecond, -⟩ := prepareWithdrawBatch_cases hrun
  obtain ⟨-, -, -, networkType, hprepared⟩ :=
    execute_prepares h.decoded hfirst hsecond hprepares.execute (h.sets withdraw hsecond)
  exact hprepared.posted

end Count

/-- The runes of a batch that is prepared and then submitted, from the debits of its withdrawals to the outputs of
its transaction. -/
theorem submission_delivers (rt : Runtime) (start : World) (calls : List Call) (n k : Nat)
    (accounts accounts' : List AccountInfo) (raw : Bytes) (params : WithdrawBatchParams)
    (horder : ListsEachOnce rt.hashSetOrder)
    (hrun : PreparedThenSubmitted rt start calls n k accounts accounts' raw params)
    (hsame : ∀ tokenWithdrawals ∈ params.tokenWithdrawals,
      keyAt accounts' tokenWithdrawals.accountIndex = keyAt accounts tokenWithdrawals.accountIndex)
    (hfew : accounts'.length ≤ 255) :
    Ledger.run .wraps amountModulus (balances (load (worldAt rt start calls n)))
        ((params.withdrawalsFrom accounts).flatMap fun entry => entry.2.entries accounts entry.1) =
      some (balances (load (worldAt rt start calls (n + 1)))) ∧
    ∃ programId networkType receiver transition transaction paid left,
      Returns rt start calls k (withdrawCall 9 programId accounts' raw) ∧
      SubmitsTransaction rt (worldAt rt start calls k) programId accounts' params networkType receiver transition
        transaction (paid ++ left) ∧
      PaysBatch rt networkType accounts' (load (worldAt rt start calls k)) programId receiver params transition
        transaction.output paid left ∧
      ∀ (decipher : Bytes → List Edict) (supply : RuneId → Nat),
        decipher (rt.encipher (paid ++ left)) = stablySorted (paid ++ left) →
        (∀ runeId, runeTotal rt (load (worldAt rt start calls k)) (params.withdrawalsFrom accounts) runeId ≤
          supply runeId) →
        (DeliversRunes rt (load (worldAt rt start calls k)) (params.withdrawalsFrom accounts) transition.length left
            supply (allocateRunes supply transaction.output.length (transactionEdicts decipher transaction.output)) ↔
          ZerosFindNothing rt (load (worldAt rt start calls k)) supply (params.withdrawalsFrom accounts)) := by
  refine ⟨by rw [← entries_eq_flatMap, hrun.posted], ?_⟩
  obtain ⟨programId, hsubmitted⟩ := hrun.submits
  obtain ⟨instruction, m, hinstruction, hsubmit, -⟩ := execute_cases hsubmitted.execute
  obtain rfl := Except.ok.inj (hinstruction.symm.trans (withdrawCall_submit programId accounts' hrun.decoded))
  obtain ⟨networkType, receiver, tx, transaction, payouts, hrepaid, houtputs, hreceiver, hsubmits⟩ :=
    submitWithdrawBatch_signs hsubmit
  change transaction.output = (closeOutputs rt programId receiver params.changeAmount _).txOuts at houtputs
  have hflat := repaid_flatten hrepaid
  have hshort : params.Short := produces_withdrawBatchParams.of_run_fst hrun.decoded
  have hlength : transaction.output.length < 2 ^ 32 := by
    rw [houtputs]
    exact closeOutputs_length_lt horder hshort hflat (hsubmits.transition_length.trans hfew)
  have hpays := paysBatch_of_repaid horder hflat hreceiver (houtputs ▸ hlength)
  rw [← houtputs] at hpays
  refine ⟨programId, networkType, receiver, tx.output, transaction, _, _, hsubmitted, hsubmits, hpays, ?_⟩
  intro decipher supply hdecipher hcovers
  rw [← withdrawalsFrom_congr hsame] at hcovers ⊢
  exact hpays.deliversRunes_iff hflat hlength.le hdecipher hcovers

/-- The small batch of a rune goes through, and has these edicts. -/
theorem smallRune_runs :
    (execute dedupRuntime (worldAt dedupRuntime runeWorld [smallPrepare, smallSubmit] 0) smallPrepare).isSome ∧
    withdrawHash (worldAt dedupRuntime runeWorld [smallPrepare, smallSubmit] 1) sampleWithdraw ≠ .ok emptyHash ∧
    (execute dedupRuntime (worldAt dedupRuntime runeWorld [smallPrepare, smallSubmit] 1) smallSubmit).isSome ∧
    ((submittedTransaction dedupRuntime (sampleKey 0xee) (submittingAccounts (sampleKey 0x31)) smallBatchParams).run
      (load (worldAt dedupRuntime runeWorld [smallPrepare, smallSubmit] 1))).value.map Prod.snd =
        some [⟨sampleRune, 5000, 1⟩, ⟨sampleRune, 0, 2⟩] := by
  decide +kernel

theorem smallRune_submitted :
    PreparedThenSubmitted dedupRuntime runeWorld [smallPrepare, smallSubmit] 0 1 (preparingAccounts (sampleKey 0x31))
      (submittingAccounts (sampleKey 0x31)) smallBatch smallBatchParams where
  decoded := small_submitted.decoded
  order := by decide
  prepares := ⟨sampleKey 0xee, rfl, smallRune_runs.1⟩
  sets := by
    intro withdraw hwithdraw
    obtain rfl := Option.some.inj hwithdraw
    exact smallRune_runs.2.1
  submits := ⟨sampleKey 0xee, rfl, smallRune_runs.2.2.1⟩

/-- The small batch of a rune delivers its 5000 from every supply of at least as many. -/
theorem smallRune_delivered :
    ∃ networkType receiver transition transaction paid left,
      SubmitsTransaction dedupRuntime (worldAt dedupRuntime runeWorld [smallPrepare, smallSubmit] 1) (sampleKey 0xee)
        (submittingAccounts (sampleKey 0x31)) smallBatchParams networkType receiver transition transaction
        (paid ++ left) ∧
      ∀ supply : RuneId → Nat, (∀ runeId, runeTotal dedupRuntime
          (load (worldAt dedupRuntime runeWorld [smallPrepare, smallSubmit] 1))
          (smallBatchParams.withdrawalsFrom (preparingAccounts (sampleKey 0x31))) runeId ≤ supply runeId) →
        DeliversRunes dedupRuntime (load (worldAt dedupRuntime runeWorld [smallPrepare, smallSubmit] 1))
          (smallBatchParams.withdrawalsFrom (preparingAccounts (sampleKey 0x31))) transition.length left supply
          (allocateRunes supply transaction.output.length (transactionEdicts (fun bytes =>
            if bytes = runestone then [⟨sampleRune, 5000, 1⟩, ⟨sampleRune, 0, 2⟩] else []) transaction.output)) := by
  obtain ⟨-, programId, networkType, receiver, transition, transaction, paid, left, hreturns, hsubmits, -,
    hdelivers⟩ := submission_delivers dedupRuntime runeWorld [smallPrepare, smallSubmit] 0 1
      (preparingAccounts (sampleKey 0x31)) (submittingAccounts (sampleKey 0x31)) smallBatch smallBatchParams
      (fun ids => ⟨List.nodup_dedup ids, fun _ => List.mem_dedup⟩) smallRune_submitted small_same (by decide)
  obtain rfl : sampleKey 0xee = programId := congrArg Call.programId (Option.some.inj hreturns.1)
  have hbuilt := smallRune_runs.2.2.2
  rw [hsubmits.built] at hbuilt
  have hedicts : paid ++ left = [⟨sampleRune, 5000, 1⟩, ⟨sampleRune, 0, 2⟩] := Option.some.inj hbuilt
  refine ⟨networkType, receiver, transition, transaction, paid, left, hsubmits, fun supply hcovers => ?_⟩
  refine (hdelivers _ supply ?_ hcovers).mpr (zerosFindNothing_of_pos ?_ supply)
  · rw [hedicts]
    exact (List.mergeSort_of_pairwise (by decide)).symm
  · intro entry hmem runeId _
    obtain rfl := List.mem_singleton.mp hmem
    decide

/-! ### A withdrawal of 0 -/

/-- Two withdrawals of a rune by one wallet, of 0 and then of 5000. -/
def zeroBatch : Bytes :=
  withdrawBatchBytes [tokenWithdrawalsBytes 3 [withdrawalBytes 1 firstAddress 0 3 1 firstAddress 0,
    withdrawalBytes 1 firstAddress 5000 3 1 firstAddress 0]]

def zeroBatchDigest : Hash :=
  ⟨[0x19, 0x26, 0x2f, 0x0b, 0xa9, 0x2e, 0x86, 0x15, 0x90, 0x63, 0xed, 0x08, 0x44, 0x5d, 0x8b, 0x78,
    0x21, 0x4b, 0xa6, 0x70, 0x0f, 0x5d, 0x63, 0xb3, 0x03, 0x69, 0xf7, 0x11, 0x45, 0xaa, 0x11, 0xf3], rfl⟩

def zeroWithdrawal (amount : UInt64) : Withdrawal where
  addressIndex := { index := 1, last4 := ⟨firstAddress.drop 40, firstAddress_last4⟩ }
  amount := amount
  feeAccountIndex := 3
  feeAddressIndex := { index := 1, last4 := ⟨firstAddress.drop 40, firstAddress_last4⟩ }
  feeAmount := 0

def zeroBatchParams : WithdrawBatchParams :=
  { smallBatchParams with
    tokenWithdrawals := [{ accountIndex := 3, withdrawals := [zeroWithdrawal 0, zeroWithdrawal 5000] }] }

def zeroEdicts : List Edict := [⟨sampleRune, 0, 1⟩, ⟨sampleRune, 5000, 2⟩, ⟨sampleRune, 0, 3⟩]

def zeroRunestone : Bytes :=
  [0x6a, 0x5d, 0x10, 0x00, 0xc0, 0xa2, 0x33, 0x03, 0x00, 0x01, 0x00, 0x00, 0x88, 0x27, 0x02, 0x00, 0x00, 0x00, 0x03]

def zeroTx : Transaction := spendingTx
  [{ value := dustThreshold, scriptPubkey := firstScript }, { value := dustThreshold, scriptPubkey := firstScript },
    { value := dustThreshold, scriptPubkey := [0x51, 0x20] ++ sampleReceiver.1 },
    { value := 0, scriptPubkey := zeroRunestone }]

def zeroTxid : FixedBytes 32 :=
  ⟨[0x75, 0xfe, 0x06, 0x36, 0xd4, 0x88, 0x21, 0x2e, 0x2d, 0x05, 0x32, 0x59, 0x89, 0xd3, 0x84, 0x18,
    0x6f, 0x6a, 0x24, 0x3a, 0x4c, 0x48, 0x6b, 0x6e, 0xa1, 0xf0, 0x6a, 0xf6, 0x43, 0xc3, 0xd1, 0xae], rfl⟩

def zeroRuntime : Runtime :=
  { submitRuntime [(zeroBatch, zeroBatchDigest)] with
    hashSetOrder := List.dedup
    deserializeTransaction := fun bytes =>
      if bytes = transactionBytes zeroTx then some zeroTx else smallRuntime.deserializeTransaction bytes
    computeTxid := fun tx => if tx = zeroTx then zeroTxid else smallRuntime.computeTxid tx
    encipher := fun edicts => if edicts = zeroEdicts then zeroRunestone else [] }

def zeroCalls : List Call :=
  [withdrawCall 4 (sampleKey 0xee) (preparingAccounts (sampleKey 0x31)) zeroBatch,
    withdrawCall 9 (sampleKey 0xee) (submittingAccounts (sampleKey 0x31)) zeroBatch]

/-- The batch goes through, and pays both withdrawals and the receiver. -/
theorem zero_runs :
    (execute zeroRuntime (worldAt zeroRuntime runeWorld zeroCalls 0)
      (withdrawCall 4 (sampleKey 0xee) (preparingAccounts (sampleKey 0x31)) zeroBatch)).isSome ∧
    withdrawHash (worldAt zeroRuntime runeWorld zeroCalls 1) sampleWithdraw ≠ .ok emptyHash ∧
    (execute zeroRuntime (worldAt zeroRuntime runeWorld zeroCalls 1)
      (withdrawCall 9 (sampleKey 0xee) (submittingAccounts (sampleKey 0x31)) zeroBatch)).isSome ∧
    ((submittedTransaction zeroRuntime (sampleKey 0xee) (submittingAccounts (sampleKey 0x31)) zeroBatchParams).run
      (load (worldAt zeroRuntime runeWorld zeroCalls 1))).value = some (zeroTx, zeroEdicts) ∧
    ((getStateTransitionTx zeroRuntime (submittingAccounts (sampleKey 0x31))).run
      (load (worldAt zeroRuntime runeWorld zeroCalls 1))).value.map Transaction.output = some stateTx.output ∧
    runeOf zeroRuntime (load (worldAt zeroRuntime runeWorld zeroCalls 1) (sampleKey 0x31)).data =
      .ok (some sampleRune) := by
  decide +kernel

theorem zero_submitted :
    PreparedThenSubmitted zeroRuntime runeWorld zeroCalls 0 1 (preparingAccounts (sampleKey 0x31))
      (submittingAccounts (sampleKey 0x31)) zeroBatch zeroBatchParams where
  decoded := by decide +kernel
  order := by decide
  prepares := ⟨sampleKey 0xee, rfl, zero_runs.1⟩
  sets := by
    intro withdraw hwithdraw
    obtain rfl := Option.some.inj hwithdraw
    exact zero_runs.2.1
  submits := ⟨sampleKey 0xee, rfl, zero_runs.2.2.1⟩

/-- The withdrawal of 0 takes the rune that the next one is for. -/
theorem zero_misdelivered :
    ¬∀ (rt : Runtime) (start : World) (calls : List Call) (n k : Nat) (accounts accounts' : List AccountInfo)
      (raw : Bytes) (params : WithdrawBatchParams), ListsEachOnce rt.hashSetOrder →
      PreparedThenSubmitted rt start calls n k accounts accounts' raw params →
      (∀ tokenWithdrawals ∈ params.tokenWithdrawals,
        keyAt accounts' tokenWithdrawals.accountIndex = keyAt accounts tokenWithdrawals.accountIndex) →
      accounts'.length ≤ 255 →
      ∃ programId networkType receiver transition transaction paid left,
        Returns rt start calls k (withdrawCall 9 programId accounts' raw) ∧
        SubmitsTransaction rt (worldAt rt start calls k) programId accounts' params networkType receiver transition
          transaction (paid ++ left) ∧
        ∀ (decipher : Bytes → List Edict) (supply : RuneId → Nat),
          decipher (rt.encipher (paid ++ left)) = stablySorted (paid ++ left) →
          (∀ runeId, runeTotal rt (load (worldAt rt start calls k)) (params.withdrawalsFrom accounts) runeId ≤
            supply runeId) →
          DeliversRunes rt (load (worldAt rt start calls k)) (params.withdrawalsFrom accounts) transition.length left
            supply (allocateRunes supply transaction.output.length (transactionEdicts decipher transaction.output)) := by
  intro hdelivers
  obtain ⟨programId, networkType, receiver, transition, transaction, paid, left, hreturns, hsubmits, hdelivers⟩ :=
    hdelivers _ _ _ _ _ _ _ _ _ (fun ids => ⟨List.nodup_dedup ids, fun _ => List.mem_dedup⟩) zero_submitted
      (by decide) (by decide)
  obtain rfl : sampleKey 0xee = programId := congrArg Call.programId (Option.some.inj hreturns.1)
  obtain ⟨-, -, -, hbuilt, htransition, hrune⟩ := zero_runs
  rw [hsubmits.built] at hbuilt
  obtain ⟨rfl, hedicts⟩ := Prod.mk.inj (Option.some.inj hbuilt)
  obtain ⟨tx, hrun, rfl⟩ := hsubmits.transitionOutputs
  rw [hrun] at htransition
  have houtputs : tx.output = stateTx.output := Option.some.inj htransition
  obtain ⟨supply, hsupply⟩ : ∃ supply : RuneId → Nat, ∀ runeId, runeTotal zeroRuntime
      (load (worldAt zeroRuntime runeWorld zeroCalls 1)) (zeroBatchParams.withdrawalsFrom
        (preparingAccounts (sampleKey 0x31))) runeId < supply runeId :=
    ⟨_, fun _ => Nat.lt_succ_self _⟩
  have hsorted : stablySorted (paid ++ left) = zeroEdicts := by
    rw [hedicts]
    exact List.mergeSort_of_pairwise (by decide)
  have hdelivered := hdelivers (fun _ => zeroEdicts) supply hsorted.symm fun runeId => (hsupply runeId).le
  rw [houtputs] at hdelivered
  have hnothing := hdelivered.withdrawn 0 (sampleKey 0x31) (zeroWithdrawal 0) sampleRune rfl hrune sampleRune
  have hall : allocateRunes supply zeroTx.output.length (transactionEdicts (fun _ => zeroEdicts) zeroTx.output)
      (stateTx.output.length + 0) sampleRune = supply sampleRune :=
    Nat.zero_add _
  rw [hall, if_pos rfl] at hnothing
  have hsome := hsupply sampleRune
  rw [hnothing] at hsome
  exact Nat.not_lt_zero _ hsome

end Chainring.Arch

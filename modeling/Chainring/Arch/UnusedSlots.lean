import Chainring.Arch.Initialisation
import Chainring.Arch.WithdrawalBatch

/-! Which instructions leave the slots past the wallets in use alone. Every index that adjusts a balance is
checked against the count, directly or by the verification of the batch, except the one that a rollback gives
a fee back to. -/

namespace Chainring.Arch

open Bytes (resize slice_eq_some)
open CheckedWord (bind_eq_ok)
open Exec (Keeps keeps_pure keeps_ensure keeps_query keeps_modify keeps_forM keeps_foldlM keeps_when silent_forM)

/-- The amounts of the slots that are not in use in `before` are what they were there, or zero. -/
def SparesAt (before data : Bytes) : Prop :=
  ∀ index, numBalances before ≤ index → ∀ o, AmountBytes index o → ∀ byte, data[o]? = some byte →
    before[o]? = some byte ∨ byte = 0

/-- The slots past the wallets in use hold nothing. -/
def Unused (data : Bytes) : Prop :=
  ∀ index, numBalances data ≤ index → ∀ o, AmountBytes index o → ∀ byte, data[o]? = some byte → byte = 0

/-- What a call may make of its accounts without touching a slot that is not in use. -/
structure Spares (m₀ m : Memory) : Prop where
  types : ∀ key, (m₀ key).data ≠ [] → getType (m key).data = getType (m₀ key).data
  amounts : ∀ key, getType (m key).data = .ok .token → SparesAt (m₀ key).data (m key).data

/-- No account grows or gets a new wallet either. -/
structure Steady (m₀ m : Memory) : Prop extends Spares m₀ m where
  lengths : ∀ key, (m key).data.length = (m₀ key).data.length
  counts : ∀ key, numBalances (m key).data = numBalances (m₀ key).data

/-! ### Zero amounts -/

section Amounts

variable {before data data' : Bytes}

theorem SparesAt.refl (data : Bytes) : SparesAt data data := fun _ _ _ _ _ hbyte => Or.inl hbyte

theorem SparesAt.write (h : SparesAt before data) {put : Bytes → Except Fault Bytes} {region : Nat → Prop}
    (hw : Writes put region) (hput : put data = .ok data')
    (hmiss : ∀ index, numBalances before ≤ index → ∀ o, AmountBytes index o → ¬region o) : SparesAt before data' := by
  intro index hindex o ho byte hbyte
  rw [(hw data data' hput).2 o (hmiss index hindex o ho)] at hbyte
  exact h index hindex o ho byte hbyte

theorem resize_byte {len o : Nat} {byte : UInt8} (h : (resize data len)[o]? = some byte) :
    data[o]? = some byte ∨ byte = 0 := by
  unfold resize at h
  rcases Nat.lt_or_ge o (data.take len).length with hlow | hhigh
  · rw [List.getElem?_append_left hlow, List.getElem?_take_of_lt (by simp at hlow; omega)] at h
    exact Or.inl h
  · rw [List.getElem?_append_right hhigh, List.getElem?_replicate] at h
    split at h
    · exact Or.inr (Option.some.inj h).symm
    · cases h

theorem SparesAt.resize (h : SparesAt before data) (len : Nat) : SparesAt before (resize data len) := by
  intro index hindex o ho byte hbyte
  rcases resize_byte hbyte with hold | hzero
  · exact h index hindex o ho byte hold
  · exact Or.inr hzero

theorem getType_resize {len : Nat} (hne : data ≠ []) (hpos : 0 < len) :
    getType (Bytes.resize data len) = getType data := by
  rw [getType, getType]
  rw [readArray_congr fun o ho => ?_]
  have hzero : o = 0 := by
    have hhigh := ho.2
    omega
  have hlength := List.length_pos_of_ne_nil hne
  subst hzero
  rw [Bytes.resize, List.getElem?_append_left (by simp; omega), List.getElem?_take_of_lt hpos]

theorem eq_nil_of_getType (h : getType data = getType []) : data = [] := by
  cases data with
  | nil => rfl
  | cons byte bytes =>
      have hfirst : Bytes.slice (byte :: bytes) 0 1 = some [byte] :=
        slice_eq_some.mpr ⟨rfl, fun j hj => by
          obtain rfl : j = 0 := by omega
          rfl⟩
      rw [getType_of_slice hfirst] at h
      cases h

/-- Zeros have no type. -/
theorem getType_zeros {len : Nat} {accountType : AccountType} (h : getType (Bytes.resize [] len) = .ok accountType) :
    accountType = .unknown := by
  cases len with
  | zero => cases h
  | succ len =>
      have hfirst : Bytes.slice (Bytes.resize [] (len + 1)) 0 1 = some [0] :=
        slice_eq_some.mpr ⟨rfl, fun j hj => by
          obtain rfl : j = 0 := by omega
          rfl⟩
      rw [getType_of_slice hfirst] at h
      exact (Except.ok.inj h).symm

/-- Unused slots that were spared are unused, and hold nothing. -/
theorem Unused.spared (h : Unused before) (hspares : SparesAt before data)
    (hcount : numBalances before ≤ numBalances data) : Unused data := by
  intro index hindex o ho byte hbyte
  rcases hspares index (Nat.le_trans hcount hindex) o ho byte hbyte with hold | hzero
  · exact h index (Nat.le_trans hcount hindex) o ho byte hold
  · exact hzero

theorem toWord_zeros {block : Bytes} (h : ∀ byte ∈ block, byte = 0) : Bytes.toWord block = 0 := by
  induction block with
  | nil => rfl
  | cons byte block ih =>
      rw [Bytes.toWord, h byte List.mem_cons_self, ih fun byte hmem => h byte (List.mem_cons_of_mem _ hmem)]
      rfl

theorem Unused.amountAt_eq (h : Unused before) (hspares : SparesAt before data) {index : Nat}
    (hindex : numBalances before ≤ index) : amountAt data index = 0 := by
  unfold amountAt
  cases hslice : Bytes.slice data (balancesOffset + index * balanceSize + balanceAmountOffset) 8 with
  | none => rfl
  | some block =>
      obtain ⟨hlength, hbytes⟩ := slice_eq_some.mp hslice
      apply toWord_zeros
      intro byte hmem
      obtain ⟨j, hj⟩ := List.mem_iff_getElem?.mp hmem
      have hlt : j < 8 := by
        have := (List.getElem?_eq_some_iff.mp hj).1
        omega
      have hbyte := (hbytes j hlt).trans hj
      rcases hspares index hindex _ ⟨Nat.le_add_right _ _, by omega⟩ byte hbyte with hold | hzero
      · exact h index hindex _ ⟨Nat.le_add_right _ _, by omega⟩ byte hold
      · exact hzero

end Amounts

/-! ### Single writes -/

section Writes

variable {m₀ m : Memory} {account : AccountInfo} {put : Bytes → Except Fault Bytes} {region : Nat → Prop}

theorem Spares.refl (m : Memory) : Spares m m where
  types := fun _ _ => rfl
  amounts := fun _ _ => SparesAt.refl _

theorem Steady.refl (m : Memory) : Steady m m where
  toSpares := Spares.refl m
  lengths := fun _ => rfl
  counts := fun _ => rfl

theorem Spares.setData (h : Spares m₀ m) {key : Pubkey} {data : Bytes}
    (htype : (m₀ key).data ≠ [] → getType data = getType (m key).data)
    (hamounts : getType data = .ok .token → SparesAt (m₀ key).data data) : Spares m₀ (m.setData key data) := by
  refine ⟨fun key' hne => ?_, fun key' htoken => ?_⟩
  · rw [Memory.setData_data]
    split
    · next hkey =>
        subst hkey
        rw [htype hne, h.types key' hne]
    · exact h.types key' hne
  · rw [Memory.setData_data] at htoken ⊢
    split
    · next hkey =>
        subst hkey
        rw [if_pos rfl] at htoken
        exact hamounts htoken
    · next hkey =>
        rw [if_neg hkey] at htoken
        exact h.amounts key' htoken

theorem Steady.setData (h : Steady m₀ m) {key : Pubkey} {data : Bytes} (hspares : Spares m₀ (m.setData key data))
    (hlength : data.length = (m key).data.length) (hcount : numBalances data = numBalances (m key).data) :
    Steady m₀ (m.setData key data) := by
  refine ⟨hspares, fun key' => ?_, fun key' => ?_⟩
  · rw [Memory.setData_data]
    split
    · next hkey => rw [hkey, hlength, h.lengths]
    · exact h.lengths key'
  · rw [Memory.setData_data]
    split
    · next hkey => rw [hkey, hcount, h.counts]
    · exact h.counts key'

/-- The writes that miss the type and, on what is or becomes a token account, the amounts not in use. -/
structure Misses (m₀ : Memory) (key : Pubkey) (region : Nat → Prop) : Prop where
  type : ∀ o, region o → 1 ≤ o
  amounts : getType (m₀ key).data = .ok .token ∨ (m₀ key).data = [] →
    ∀ index, numBalances (m₀ key).data ≤ index → ∀ o, AmountBytes index o → ¬region o

theorem Misses.of_anyAmount (htype : ∀ o, region o → 1 ≤ o) (hmiss : ∀ o, region o → ¬AnyAmount o) (m₀ : Memory)
    (key : Pubkey) : Misses m₀ key region where
  type := htype
  amounts := fun _ index _ o ho hregion => hmiss o hregion ⟨index, ho⟩

theorem Misses.of_type {key : Pubkey} {accountType : AccountType} (htype : ∀ o, region o → 1 ≤ o)
    (hkind : getType (m₀ key).data = .ok accountType) (hne : accountType ≠ .token) : Misses m₀ key region where
  type := htype
  amounts := by
    rintro (htoken | hempty)
    · exact absurd (Except.ok.inj (hkind.symm.trans htoken)) hne
    · exact absurd hempty (ne_nil_of_getType hkind)

theorem Misses.of_lt {key : Pubkey} {index : Nat} (hindex : index < numBalances (m₀ key).data) :
    Misses m₀ key (AmountBytes index) where
  type := fun o ho => Nat.le_trans (by decide) ho.ge
  amounts := fun _ index' hindex' o ho => amountBytes_disjoint (by omega) ho

theorem Spares.write (h : Spares m₀ m) {key : Pubkey} {data : Bytes} (hw : Writes put region)
    (hmisses : Misses m₀ key region) (hput : put (m key).data = .ok data) : Spares m₀ (m.setData key data) := by
  have htype : getType data = getType (m key).data := getType_of_writes hw hmisses.type hput
  refine h.setData (fun _ => htype) fun htoken => ?_
  rw [htype] at htoken
  refine (h.amounts key htoken).write hw hput (hmisses.amounts ?_)
  by_cases hempty : (m₀ key).data = []
  · exact Or.inr hempty
  · exact Or.inl ((h.types key hempty).symm.trans htoken)

theorem keeps_spares_write (hw : Writes put region) (hmisses : Misses m₀ account.key region) :
    Keeps (Spares m₀) (account.write put) fun _ => True := by
  apply keeps_modify
  intro m hm m' hput
  obtain ⟨data, hdata, rfl⟩ := write_eq_ok.mp (Exec.modify_eq_ok.mpr hput : (account.write put).run m = .ok () m')
  exact ⟨hm.write hw hmisses hdata, trivial⟩

theorem keeps_steady_write (hw : Writes put region) (hmisses : Misses m₀ account.key region)
    (hcount : ∀ o, region o → ¬Within 69 73 o) : Keeps (Steady m₀) (account.write put) fun _ => True := by
  apply keeps_modify
  intro m hm m' hput
  obtain ⟨data, hdata, rfl⟩ := write_eq_ok.mp (Exec.modify_eq_ok.mpr hput : (account.write put).run m = .ok () m')
  obtain ⟨hlength, hbytes⟩ := hw _ data hdata
  refine ⟨hm.setData (hm.toSpares.write hw hmisses hdata) hlength ?_, trivial⟩
  exact numBalances_congr fun o ho => hbytes o fun hregion => hcount o hregion ho

/-- A type other than that of a token, on an account that was empty. -/
theorem keeps_spares_setType {accountType : AccountType} (hempty : (m₀ account.key).data = [])
    (hne : accountType ≠ .token) : Keeps (Spares m₀) (account.write (setType accountType)) fun _ => True := by
  apply keeps_modify
  intro m hm m' hput
  obtain ⟨data, hdata, rfl⟩ :=
    write_eq_ok.mp (Exec.modify_eq_ok.mpr hput : (account.write (setType accountType)).run m = .ok () m')
  refine ⟨hm.setData (fun hnot => absurd hempty hnot) fun htoken => ?_, trivial⟩
  exact absurd (Except.ok.inj ((getType_setType hdata).symm.trans htoken)) hne

theorem keeps_spares_realloc {newLen : Nat} (hpos : 0 < newLen) :
    Keeps (Spares m₀) (account.realloc newLen) fun _ => True := by
  apply keeps_modify
  intro m hm m' hput
  split at hput
  · cases hput
    exact ⟨hm, trivial⟩
  · split at hput
    · cases hput
    · cases hput
      by_cases hempty : (m account.key).data = []
      · refine ⟨hm.setData (fun hne => ?_) fun htoken => ?_, trivial⟩
        · have htype := hm.types account.key hne
          rw [hempty] at htype
          exact absurd (eq_nil_of_getType htype.symm) hne
        · rw [hempty] at htoken
          cases getType_zeros htoken
      · have htype := getType_resize hempty hpos
        refine ⟨hm.setData (fun _ => htype) fun htoken => ?_, trivial⟩
        exact (hm.amounts account.key (htype.symm.trans htoken)).resize newLen

theorem keeps_steady_setUtxo {utxo : UtxoMeta} : Keeps (Steady m₀) (account.setUtxo utxo) fun _ => True := by
  apply keeps_modify
  intro m hm m' hput
  cases hput
  refine ⟨⟨⟨fun key => ?_, fun key => ?_⟩, fun key => ?_, fun key => ?_⟩, trivial⟩
  all_goals rw [Memory.setUtxo_data]
  · exact hm.types key
  · exact hm.amounts key
  · exact hm.lengths key
  · exact hm.counts key

end Writes

/-! ### Adjustments -/

section Adjustments

variable {rt : Runtime} {accounts : List AccountInfo} {m₀ m : Memory}

theorem keeps_steady_amount {account : AccountInfo} {put : Bytes → Except Fault Bytes} {index : Nat}
    (hw : Writes put (AmountBytes index)) (hindex : index < numBalances (m₀ account.key).data) :
    Keeps (Steady m₀) (account.write put) fun _ => True := by
  refine keeps_steady_write hw (Misses.of_lt hindex) fun o ho hcount => ?_
  have hge := ho.ge
  have hhigh := hcount.2
  omega

/-- A checked index is that of a wallet in use. -/
theorem keeps_steady_validatedIndex (account : AccountInfo) (addressIndex : AddressIndex) :
    Keeps (Steady m₀) (account.read (getValidatedIndex addressIndex))
      fun index => index < numBalances (m₀ account.key).data := by
  apply keeps_read
  intro m hm index hget
  obtain ⟨hwallet, rfl⟩ := getValidatedIndex_eq_ok.mp hget
  rw [← hm.counts]
  exact hwallet.inUse

theorem keeps_steady_handleAdjustments (account : AccountInfo) (adjustments : List Adjustment) (increment : Bool) :
    Keeps (Steady m₀) (handleAdjustments account adjustments increment) fun _ => True := by
  refine (keeps_forM (P := fun _ => True) fun adjustment _ => ?_).weaken fun _ _ => trivial
  refine (keeps_steady_validatedIndex account _).bind fun index hindex => ?_
  cases increment with
  | true => exact keeps_steady_amount (writes_incrementWalletBalance _ _) hindex
  | false => exact keeps_steady_amount (writes_decrementWalletBalance _ _) hindex

/-- What a call finds to be an account of a type was one when it began. -/
theorem Steady.getType_eq (h : Steady m₀ m) {key : Pubkey} {accountType : AccountType}
    (hkind : getType (m key).data = .ok accountType) : getType (m₀ key).data = .ok accountType := by
  have hne : (m₀ key).data ≠ [] := by
    rw [← List.length_pos_iff, ← h.lengths, List.length_pos_iff]
    exact ne_nil_of_getType hkind
  rw [← h.types key hne]
  exact hkind

theorem keeps_steady_validate {index : UInt8} {isSigner isWritable : Bool} {accountType : AccountType}
    {related : Option UInt8} :
    Keeps (Steady m₀) (validateAccount accounts index isSigner isWritable (some accountType) related) fun _ =>
      ∀ account, accounts[index.toNat]? = some account → getType (m₀ account.key).data = .ok accountType := by
  apply keeps_validate
  intro m hm hvalidated account haccount
  apply hm.getType_eq
  exact hvalidated.type_eq haccount

/-- A write past the type to an account that is no token account. -/
theorem keeps_steady_write_of_type {account : AccountInfo} {put : Bytes → Except Fault Bytes} {region : Nat → Prop}
    {accountType : AccountType} (hw : Writes put region) (hkind : getType (m₀ account.key).data = .ok accountType)
    (hne : accountType ≠ .token) (hregion : ∀ o, region o → 1 ≤ o ∧ ¬Within 69 73 o) :
    Keeps (Steady m₀) (account.write put) fun _ => True :=
  keeps_steady_write hw (Misses.of_type (fun o ho => (hregion o ho).1) hkind hne) fun o ho => (hregion o ho).2

theorem keeps_steady_emitEvent {program : AccountInfo} (hkind : getType (m₀ program.key).data = .ok .program)
    (event : Event) : Keeps (Steady m₀) (program.write (ProgramState.emitEvent event)) fun _ => True := by
  refine keeps_steady_write_of_type (writes_emitEvent event) hkind (by decide) fun o (ho : 286 ≤ o) => ?_
  exact ⟨by omega, fun hcount => absurd hcount.2 (by omega)⟩

theorem keeps_steady_clearEvents {program : AccountInfo} (hkind : getType (m₀ program.key).data = .ok .program) :
    Keeps (Steady m₀) (program.write ProgramState.clearEvents) fun _ => True := by
  refine keeps_steady_write_of_type writes_clearEvents_from hkind (by decide) fun o (ho : 286 ≤ o) => ?_
  exact ⟨by omega, fun hcount => absurd hcount.2 (by omega)⟩

theorem keeps_steady_programHash {program : AccountInfo} (hkind : getType (m₀ program.key).data = .ok .program)
    {put : Bytes → Except Fault Bytes} (hw : Writes put (Within 222 286)) :
    Keeps (Steady m₀) (program.write put) fun _ => True := by
  refine keeps_steady_write_of_type hw hkind (by decide) fun o ho => ?_
  have hlow := ho.1
  exact ⟨by omega, fun hcount => absurd hcount.2 (by omega)⟩

theorem keeps_steady_withdrawHash (withdraw : AccountInfo) (hash : Hash) :
    Keeps (Steady m₀) (withdraw.write (WithdrawState.setHash hash)) fun _ => True := by
  refine keeps_steady_write (writes_setHash hash) (Misses.of_anyAmount (fun o ho => ?_) (fun o ho => ?_) _ _)
    fun o ho hcount => ?_
  · exact Nat.le_trans (by decide) ho.1
  · exact not_anyAmount_of_lt (Nat.lt_trans ho.2 (by decide))
  · have hhigh := ho.2
    have hlow := hcount.1
    omega

end Adjustments

/-! ### Deposits and settlements -/

section Instructions

variable (rt : Runtime) {accounts : List AccountInfo} {m₀ m : Memory}

theorem keeps_steady_depositBatch (params : DepositBatchParams) :
    Keeps (Steady m₀) (depositBatch accounts params) fun _ => True := by
  refine keeps_any_validate.bind fun _ _ => ?_
  refine (keeps_forM (P := fun _ => True) fun tokenDeposits _ => ?_).weaken fun _ _ => trivial
  refine keeps_any_validate.bind fun _ _ => keeps_accountAt.bind fun account _ => ?_
  exact keeps_steady_handleAdjustments account _ true

theorem keeps_steady_applySettlement (tokenSettlements : SettlementAdjustments) :
    Keeps (Steady m₀) (applySettlement accounts tokenSettlements) fun _ => True := by
  refine keeps_any_validate.bind fun _ _ => keeps_accountAt.bind fun account _ => ?_
  refine (keeps_when fun _ => ?_).bind fun _ _ => ?_
  · exact keeps_any_read.bind fun last4 _ => keeps_steady_handleAdjustments account _ true
  · exact (keeps_steady_handleAdjustments account _ true).bind fun _ _ =>
      keeps_steady_handleAdjustments account _ false

theorem keeps_steady_submitSettlementBatch (params : SettlementBatchParams) (raw : Bytes) :
    Keeps (Steady m₀) (submitSettlementBatch rt accounts params raw) fun _ => True := by
  refine keeps_steady_validate.bind fun _ hkind => keeps_accountAt.bind fun program hprogram => ?_
  have hfirst := hkind program hprogram
  refine keeps_any_read.bind fun currentHash _ => keeps_ensure.bind fun _ _ => keeps_ensure.bind fun _ _ => ?_
  refine (keeps_forM (P := fun _ => True) fun tokenSettlements _ =>
    keeps_steady_applySettlement tokenSettlements).bind fun _ _ => ?_
  refine (keeps_steady_programHash hfirst ((writes_setLastSettlementHash _).mono fun o ho => ?_)).bind fun _ _ =>
    keeps_steady_programHash hfirst ((writes_setSettlementHash _).mono fun o ho => ?_)
  · exact ⟨Nat.le_trans (by decide) ho.1, ho.2⟩
  · exact ⟨ho.1, Nat.lt_of_lt_of_le ho.2 (by decide)⟩

theorem keeps_steady_verifySettlement {program : AccountInfo} (hprogram : accounts[0]? = some program)
    (hkind : getType (m₀ program.key).data = .ok .program) (total : Int64)
    (tokenSettlements : SettlementAdjustments) :
    Keeps (Steady m₀) (verifySettlement accounts total tokenSettlements) fun _ => True := by
  have hdecrements : Keeps (Steady m₀)
      (verifyDecrements accounts tokenSettlements.accountIndex tokenSettlements.decrements) fun _ => True := by
    refine keeps_accountAt.bind fun account _ => keeps_foldlM trivial fun total adjustment _ _ => ?_
    refine keeps_any_read.bind fun index _ => keeps_any_read.bind fun currentBalance _ => ?_
    refine (keeps_when fun _ => ?_).bind fun _ _ => keeps_pure trivial
    refine keeps_accountAt.bind fun program' hprogram' => ?_
    obtain rfl : program = program' := Option.some.inj (hprogram.symm.trans hprogram')
    exact keeps_steady_emitEvent hkind _
  refine keeps_any_validate.bind fun _ _ => hdecrements.bind fun _ _ => ?_
  exact (keeps_verifyIncrements _ _).bind fun _ _ => keeps_pure trivial

theorem keeps_steady_prepareSettlementBatch (params : SettlementBatchParams) (raw : Bytes) :
    Keeps (Steady m₀) (prepareSettlementBatch rt accounts params raw) fun _ => True := by
  refine keeps_steady_validate.bind fun _ hkind => keeps_accountAt.bind fun program hprogram => ?_
  have hfirst := hkind program hprogram
  refine keeps_any_read.bind fun currentHash _ => keeps_ensure.bind fun _ _ => ?_
  refine (keeps_steady_clearEvents hfirst).bind fun _ _ => ?_
  refine (keeps_foldlM (P := fun _ => True) trivial fun total tokenSettlements _ _ =>
    keeps_steady_verifySettlement hprogram hfirst total tokenSettlements).bind fun total _ => ?_
  refine keeps_ensure.bind fun _ _ => keeps_any_read.bind fun eventsCount _ => keeps_when fun _ => ?_
  refine keeps_steady_programHash hfirst ((writes_setSettlementHash _).mono fun o ho => ?_)
  exact ⟨ho.1, Nat.lt_of_lt_of_le ho.2 (by decide)⟩

theorem keeps_steady_rollbackSettlementBatch :
    Keeps (Steady m₀) (rollbackSettlementBatch accounts) fun _ => True := by
  refine keeps_steady_validate.bind fun _ hkind => keeps_accountAt.bind fun program hprogram => ?_
  refine keeps_steady_programHash (hkind program hprogram) ((writes_setSettlementHash _).mono fun o ho => ?_)
  exact ⟨ho.1, Nat.lt_of_lt_of_le ho.2 (by decide)⟩

/-! ### Withdrawals -/

/-- The wallets that a withdrawal debits were verified to be in use. -/
theorem keeps_steady_handlePrepareWithdrawal {networkType networkType' : NetworkType} {account : AccountInfo}
    {withdrawal : Withdrawal} (hverified : WithdrawalVerified rt networkType accounts m₀ account.key withdrawal)
    (feeAccountAddress : Utf8String) (outputs : Outputs) :
    Keeps (Steady m₀)
      (handlePrepareWithdrawal rt accounts account feeAccountAddress networkType' outputs withdrawal)
      fun _ => True := by
  refine (keeps_steady_amount (writes_decrementWalletBalance _ _) hverified.payer.wallet.wallet.inUse).bind
    fun _ _ => ?_
  refine (keeps_when fun _ => ?_).bind fun _ _ => keeps_addWithdrawalOutput rt _ _ _ _
  refine keeps_accountAt.bind fun feeAccount hfeeAccount => ?_
  have hfeePayer := (hverified.feePayer feeAccount.key (keyAt_of_listed hfeeAccount)).wallet.wallet.inUse
  refine keeps_any_read.bind fun feeAddress _ => keeps_ensure.bind fun _ _ => ?_
  refine (keeps_steady_amount (writes_incrementWalletBalance _ _)
    (Nat.lt_of_le_of_lt (Nat.zero_le _) hfeePayer)).bind fun _ _ => keeps_when fun _ => ?_
  exact keeps_steady_amount (writes_decrementWalletBalance _ _) hfeePayer

theorem keeps_steady_verifyTokenWithdrawals {networkType : NetworkType} {program : AccountInfo}
    (hprogram : accounts[0]? = some program) (hkind : getType (m₀ program.key).data = .ok .program)
    (tokenWithdrawals : TokenWithdrawals) :
    Keeps (Steady m₀)
      (do
        validateAccount accounts tokenWithdrawals.accountIndex false true (some .token) (some 0)
        verifyWithdrawals rt accounts tokenWithdrawals.accountIndex tokenWithdrawals.withdrawals networkType)
      fun _ => True := by
  refine keeps_any_validate.bind fun _ _ => keeps_accountAt.bind fun account _ => ?_
  refine (keeps_forM (P := fun _ => True) fun withdrawal _ => ?_).weaken fun _ _ => trivial
  refine keeps_any_read.bind fun indexResult _ => keeps_any_validate.bind fun _ _ => ?_
  refine keeps_accountAt.bind fun feeAccount _ => keeps_accountAt.bind fun program' hprogram' => ?_
  obtain rfl : program = program' := Option.some.inj (hprogram.symm.trans hprogram')
  cases indexResult with
  | error programError => exact keeps_steady_emitEvent hkind _
  | ok index =>
      refine keeps_any_read.bind fun currentBalance _ => keeps_any_read.bind fun feeIndex _ => ?_
      refine keeps_any_read.bind fun balanceInFeeToken _ => keeps_when fun _ => ?_
      exact keeps_steady_emitEvent hkind _

theorem steady_of_prepareWithdrawBatch {params : WithdrawBatchParams} {raw : Bytes} {u : Unit}
    (h : (prepareWithdrawBatch rt accounts params raw).run m₀ = .ok u m) : Steady m₀ m := by
  obtain ⟨program, withdraw, hasReceiver, tx, networkType, cleared, verified, hvalidated, -, hfirst, -, -, -, -, -,
    hclear, -, hverify, count, hcount, hcase⟩ := prepareWithdrawBatch_cases h
  obtain ⟨first, hled⟩ := led_of_validated hvalidated
  obtain rfl : first = program := Option.some.inj (hled.listed.symm.trans hfirst)
  have hkind := hled.program
  have hcleared := ((keeps_steady_clearEvents hkind).of_ok (Steady.refl m₀) hclear).1
  rcases hcase with ⟨-, rfl⟩ | ⟨rfl, outputs, paid, hpay, -, -, hwrite⟩
  · exact ((keeps_forM fun tokenWithdrawals _ =>
      keeps_steady_verifyTokenWithdrawals rt hfirst hkind tokenWithdrawals).of_ok hcleared hverify).1
  · obtain ⟨rfl, hverified⟩ := verified_quiet hfirst ⟨hclear, hkind⟩ hverify hcount
    have hloop : Keeps (Steady m₀) (params.tokenWithdrawals.foldlM (fun outputs tokenWithdrawals => do
        let feeAccountAddress ← first.read ProgramState.getFeeAccountAddress
        handlePrepareWithdrawals rt accounts tokenWithdrawals feeAccountAddress networkType outputs)
        { txOuts := tx.output, edicts := [] }) fun _ => True := by
      refine keeps_foldlM trivial fun outputs tokenWithdrawals hmem _ => ?_
      refine keeps_any_read.bind fun feeAccountAddress _ => keeps_accountAt.bind fun account haccount => ?_
      refine keeps_foldlM trivial fun outputs withdrawal hwithdrawal _ => ?_
      exact keeps_steady_handlePrepareWithdrawal rt
        ((hverified tokenWithdrawals hmem).2 account.key (keyAt_of_listed haccount) withdrawal hwithdrawal) _ _
    exact ((keeps_steady_withdrawHash withdraw _).of_ok (hloop.of_ok hcleared hpay).1 hwrite).1

theorem keeps_steady_submitWithdrawBatch (programId : Pubkey) (params : WithdrawBatchParams) (raw : Bytes) :
    Keeps (Steady m₀) (submitWithdrawBatch rt programId accounts params raw) fun _ => True := by
  refine keeps_any_validate.bind fun _ _ => keeps_any_validate.bind fun _ _ => ?_
  refine (keeps_hasRuneReceiver _).bind fun hasReceiver _ => ?_
  refine keeps_accountAt.bind fun program _ => keeps_accountAt.bind fun withdraw _ => ?_
  refine keeps_accountAt.bind fun third _ => keeps_any_read.bind fun withdrawHash _ => ?_
  refine keeps_ensure.bind fun _ _ => keeps_any_read.bind fun networkType _ => ?_
  refine (keeps_getStateTransitionTx rt).bind fun tx _ => ?_
  split
  · exact Exec.keeps_fail
  · refine (keeps_foldlM (P := fun _ => True) trivial fun outputs tokenWithdrawals _ _ => ?_).bind fun outputs _ => ?_
    · exact keeps_any_validate.bind fun _ _ => keeps_handleSubmitWithdrawals rt _ _ _
    · refine keeps_ensure.bind fun _ _ => keeps_lift.bind fun inputsToSign _ => ?_
      refine Keeps.bind (Q := fun _ => True) ?_ fun _ _ => keeps_steady_withdrawHash withdraw _
      refine keeps_ensure.bind fun _ _ => ?_
      split
      · exact keeps_lift
      · exact (keeps_forM (P := fun _ => True) fun input _ => keeps_when fun _ => keeps_steady_setUtxo).weaken
          fun _ _ => trivial

theorem keeps_steady_updateWithdrawStateUtxo (params : UpdateWithdrawStateUtxoParams) :
    Keeps (Steady m₀) (updateWithdrawStateUtxo accounts params) fun _ => True := by
  refine keeps_any_validate.bind fun _ _ => keeps_any_validate.bind fun _ _ => ?_
  refine keeps_accountAt.bind fun withdraw _ => ?_
  split
  · exact keeps_lift
  · split
    · exact keeps_steady_setUtxo
    · exact keeps_lift

/-- A fee comes back from the wallet at 0, which holds it and is therefore in use. -/
theorem keeps_steady_returnFee {feeAccount : AccountInfo} {amount : UInt64} (hpos : 0 < amount)
    (hkind : getType (m₀ feeAccount.key).data = .ok .token) (hunused : Unused (m₀ feeAccount.key).data) :
    Keeps (Steady m₀) (feeAccount.write (Balance.decrementWalletBalance feeAddressIndex.toNat amount))
      fun _ => True := by
  by_cases hzero : 0 < numBalances (m₀ feeAccount.key).data
  · exact keeps_steady_amount (writes_decrementWalletBalance _ _) hzero
  · apply keeps_modify
    intro m hm m' hput
    obtain ⟨data, hdata, -⟩ := write_eq_ok.mp (Exec.modify_eq_ok.mpr hput :
      (feeAccount.write (Balance.decrementWalletBalance feeAddressIndex.toNat amount)).run m = .ok () m')
    have hle := (decrementWalletBalance_isOk.mp ⟨data, hdata⟩).2
    have htype := (hm.types feeAccount.key (ne_nil_of_getType hkind)).trans hkind
    have hnone : amountAt (m feeAccount.key).data feeAddressIndex.toNat = 0 :=
      hunused.amountAt_eq (hm.amounts feeAccount.key htype) (Nat.not_lt.mp hzero)
    rw [UInt64.lt_iff_toNat_lt] at hpos
    rw [hnone] at hle
    exact absurd hpos (Nat.not_lt.mpr hle)

theorem keeps_steady_rollbackWithdrawBatch (params : RollbackWithdrawBatchParams)
    (hunused : ∀ key, getType (m₀ key).data = .ok .token → Unused (m₀ key).data)
    (hrefunds : ∀ tokenWithdrawals ∈ params.tokenWithdrawals, ∀ withdrawal ∈ tokenWithdrawals.withdrawals,
      0 < withdrawal.feeAmount → ∀ feeKey, keyAt accounts withdrawal.feeAccountIndex = some feeKey →
      keyAt accounts tokenWithdrawals.accountIndex ≠ some feeKey →
      withdrawal.feeAddressIndex.index.toNat < numBalances (m₀ feeKey).data) :
    Keeps (Steady m₀) (rollbackWithdrawBatch accounts params) fun _ => True := by
  refine keeps_any_validate.bind fun _ _ => keeps_any_validate.bind fun _ _ => ?_
  refine keeps_accountAt.bind fun program _ => keeps_accountAt.bind fun withdraw _ => ?_
  refine (keeps_forM (P := fun _ => True) fun tokenWithdrawals hmem => ?_).bind fun _ _ =>
    keeps_steady_withdrawHash withdraw _
  refine keeps_any_validate.bind fun _ _ => keeps_any_read.bind fun feeAccountAddress _ => ?_
  refine keeps_accountAt.bind fun account haccount => ?_
  refine (keeps_forM (P := fun _ => True) fun withdrawal hwithdrawal => ?_).weaken fun _ _ => trivial
  refine (keeps_steady_validatedIndex account _).bind fun index hindex => ?_
  refine (keeps_steady_amount (writes_incrementWalletBalance _ _) hindex).bind fun _ _ => keeps_when fun hpos => ?_
  refine keeps_steady_validate.bind fun _ hkind => keeps_accountAt.bind fun feeAccount hfeeAccount => ?_
  have htoken := hkind feeAccount hfeeAccount
  refine keeps_any_read.bind fun feeAddress _ => keeps_ensure.bind fun _ _ => ?_
  refine (keeps_steady_returnFee hpos htoken (hunused _ htoken)).bind fun _ _ => keeps_when fun hne => ?_
  refine keeps_steady_amount (writes_incrementWalletBalance _ _) ?_
  apply hrefunds tokenWithdrawals hmem withdrawal hwithdrawal hpos feeAccount.key (keyAt_of_listed hfeeAccount)
  rw [keyAt_of_listed haccount]
  exact fun heq => hne (Option.some.inj heq).symm

end Instructions

end Chainring.Arch

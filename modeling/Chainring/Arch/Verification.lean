import Chainring.Arch.SettlementPosting

/-! What the preparation of a settlement has checked once it sets the hash: no event was emitted, so
every entry names a token account of the program, every adjustment a wallet in use, and every decrement
is covered by its balance on its own. -/

namespace Chainring.Arch

open Bytes (toWord ofWord toWord_ofWord ofWord_length slice_patch slice_congr)
open CheckedWord (bind_eq_ok)
open Exec (Silent silent_done silent_query silent_when silent_forM silent_foldlM)

/-! ### The event count -/

def EventsBounded (program : Pubkey) (m : Memory) : Prop :=
  ∃ count ≤ maxEvents, ProgramState.getEventsCount (m program).data = .ok count

def NoEvents (program : Pubkey) (m : Memory) : Prop :=
  ProgramState.getEventsCount (m program).data = .ok 0

theorem getEventsCount_of_write {count : Nat} {data data' : Bytes} (hcount : count ≤ maxEvents)
    (h : writeBlock eventsSizeOffset (ofWord 2 count) data = .ok data') :
    ProgramState.getEventsCount data' = .ok count := by
  have hslice := slice_patch (writeBlock_eq_ok.mp h)
  rw [ofWord_length] at hslice
  refine bind_eq_ok.mpr ⟨ofWord 2 count, readBlock_eq_ok.mpr hslice, ?_⟩
  show Except.ok (toWord (ofWord 2 count)) = .ok count
  rw [toWord_ofWord]
  simp only [maxEvents] at hcount
  exact congrArg Except.ok (Nat.mod_eq_of_lt (by omega))

theorem getEventsCount_clearEvents {data data' : Bytes} (h : ProgramState.clearEvents data = .ok data') :
    ProgramState.getEventsCount data' = .ok 0 :=
  getEventsCount_of_write (Nat.zero_le _) h

/-- An event raises the count by one, up to the most there can be. -/
theorem getEventsCount_emitEvent {event : Event} {data data' : Bytes} {count : Nat}
    (hbounded : count ≤ maxEvents) (hcount : ProgramState.getEventsCount data = .ok count)
    (h : ProgramState.emitEvent event data = .ok data') :
    count + 1 ≤ maxEvents ∧ ProgramState.getEventsCount data' = .ok (count + 1) := by
  obtain ⟨current, hcurrent, h⟩ := bind_eq_ok.mp h
  obtain rfl := Except.ok.inj (hcurrent.symm.trans hcount)
  split at h
  · cases h
  · next hne =>
      have hroom : current + 1 ≤ maxEvents := Nat.lt_of_le_of_ne hbounded hne
      obtain ⟨encoded, -, h⟩ := bind_eq_ok.mp h
      obtain ⟨slotted, -, h⟩ := bind_eq_ok.mp h
      exact ⟨hroom, getEventsCount_of_write hroom h⟩

section Verification

variable {accounts : List AccountInfo} {program : AccountInfo}

/-- An emitted event is never lost. -/
theorem silent_emitEvent (hprogram : accounts[0]? = some program) (event : Event) :
    Silent (EventsBounded program.key) (NoEvents program.key)
      (accountAt accounts 0 >>= fun programAccount => programAccount.write (ProgramState.emitEvent event))
      fun _ _ => False := by
  rintro m u m' ⟨count, hbounded, hcount⟩ hok
  obtain ⟨account, haccount, hwrite⟩ := accountAt_bind_eq_ok.mp hok
  obtain rfl : account = program := Option.some.inj (haccount.symm.trans hprogram)
  obtain ⟨data, hdata, rfl⟩ := write_eq_ok.mp hwrite
  obtain ⟨hroom, hafter⟩ := getEventsCount_emitEvent hbounded hcount hdata
  rw [EventsBounded, NoEvents, Memory.setData_self]
  refine ⟨⟨count + 1, hroom, hafter⟩, fun hnone => ?_⟩
  have hzero := Except.ok.inj (hafter.symm.trans hnone)
  omega

theorem silent_validate {bounded silent : Memory → Prop} (index : UInt8) (isSigner isWritable : Bool)
    (accountType : Option AccountType) (related : Option UInt8) :
    Silent bounded silent (validateAccount accounts index isSigner isWritable accountType related)
      fun m _ => Validated accounts index isSigner isWritable accountType related m := by
  intro m u m' hm hok
  obtain ⟨hvalidated, rfl⟩ := validateAccount_eq_ok.mp hok
  exact ⟨hm, fun _ => ⟨rfl, hvalidated⟩⟩

theorem silent_accountAt {bounded silent : Memory → Prop} (index : Nat) :
    Silent bounded silent (accountAt accounts index) fun _ account => accounts[index]? = some account := by
  intro m account m' hm hok
  obtain ⟨haccount, rfl⟩ := accountAt_eq_ok.mp hok
  exact ⟨hm, fun _ => ⟨rfl, haccount⟩⟩

theorem silent_read {bounded silent : Memory → Prop} {α : Type} (account : AccountInfo)
    (get : Bytes → Except Fault α) :
    Silent bounded silent (account.read get) fun m a => get (m account.key).data = .ok a :=
  silent_query

/-! ### One entry -/

/-- A wallet that is ready holds at least the amount. -/
def Affords (adjustment : Adjustment) (data : Bytes) : Prop :=
  Ready adjustment.addressIndex data ∧
    adjustment.amount.toNat ≤ amountAt data adjustment.addressIndex.index.toNat

/-- What is known of the account of a prepared entry. -/
structure AdjustmentsVerified (tokenSettlements : SettlementAdjustments) (data : Bytes) : Prop where
  decrements : ∀ adjustment ∈ tokenSettlements.decrements, Affords adjustment data
  increments : ∀ adjustment ∈ tokenSettlements.increments, Wallet adjustment.addressIndex data

def SettlementVerified (accounts : List AccountInfo) (m : Memory)
    (tokenSettlements : SettlementAdjustments) : Prop :=
  Validated accounts tokenSettlements.accountIndex false false (some .token) (some 0) m ∧
    ∀ key, keyAt accounts tokenSettlements.accountIndex = some key →
      AdjustmentsVerified tokenSettlements (m key).data

theorem silent_verifyDecrements (hprogram : accounts[0]? = some program) (accountIndex : UInt8)
    (adjustments : List Adjustment) :
    Silent (EventsBounded program.key) (NoEvents program.key)
      (verifyDecrements accounts accountIndex adjustments) fun m _ =>
      ∃ account, accounts[accountIndex.toNat]? = some account ∧
        ∀ adjustment ∈ adjustments, Affords adjustment (m account.key).data := by
  refine (silent_accountAt _).bind fun account => ?_
  refine silent_foldlM fun total adjustment _ => ?_
  refine Silent.weaken ((silent_read account _).bind fun index => (silent_read account _).bind fun balance =>
    (silent_when fun _ => silent_emitEvent hprogram _).bind fun _ => silent_done) ?_
  rintro m total' ⟨index, hindex, balance, hbalance, _, hcovered, -⟩
  obtain ⟨hwallet, rfl⟩ := getValidatedIndex_eq_ok.mp hindex
  obtain ⟨hamount, hvalue⟩ := getWalletBalance_eq_ok.mp hbalance
  refine ⟨⟨hwallet, hamount⟩, ?_⟩
  rw [← hvalue]
  exact UInt64.le_iff_toNat_le.mp (UInt64.not_lt.mp hcovered)

theorem silent_verifyIncrements {bounded silent : Memory → Prop} (accountIndex : UInt8)
    (adjustments : List Adjustment) :
    Silent bounded silent (verifyIncrements accounts accountIndex adjustments) fun m _ =>
      ∃ account, accounts[accountIndex.toNat]? = some account ∧
        ∀ adjustment ∈ adjustments, Wallet adjustment.addressIndex (m account.key).data := by
  refine (silent_accountAt _).bind fun account => ?_
  refine silent_foldlM fun total adjustment _ => ?_
  refine Silent.weaken ((silent_read account _).bind fun index =>
    silent_done) ?_
  rintro m total' ⟨index, hindex, -⟩
  exact (getValidatedIndex_eq_ok.mp hindex).1

theorem silent_verifySettlement (hprogram : accounts[0]? = some program) (total : Int64)
    (tokenSettlements : SettlementAdjustments) :
    Silent (EventsBounded program.key) (NoEvents program.key)
      (verifySettlement accounts total tokenSettlements) fun m _ =>
      SettlementVerified accounts m tokenSettlements := by
  refine Silent.weaken ((silent_validate _ _ _ _ _).bind fun _ =>
    (silent_verifyDecrements hprogram _ _).bind fun _ => (silent_verifyIncrements _ _).bind fun _ =>
      silent_done) ?_
  rintro m total' ⟨_, hvalidated, _, ⟨account, haccount, hdecrements⟩, _, ⟨account', haccount', hincrements⟩, -⟩
  obtain rfl : account = account' := Option.some.inj (haccount.symm.trans haccount')
  refine ⟨hvalidated, fun key hkey => ?_⟩
  obtain rfl := Option.some.inj (hkey.symm.trans (keyAt_of_listed haccount))
  exact ⟨hdecrements, hincrements⟩

/-! ### The whole batch -/

theorem Validated.of_eq {m m' : Memory} {index : UInt8} {isSigner isWritable : Bool}
    {accountType : AccountType} {related : Option UInt8}
    (h : Validated accounts index isSigner isWritable (some accountType) related m)
    (hdata : ∀ key, getType (m key).data = .ok accountType → (m' key).data = (m key).data) :
    Validated accounts index isSigner isWritable (some accountType) related m' := by
  obtain ⟨account, haccount, hsigner, hwritable, hfits⟩ := h
  refine ⟨account, haccount, hsigner, hwritable, ?_⟩
  rw [hdata account.key hfits.type_eq]
  exact hfits

theorem SettlementVerified.of_eq {m m' : Memory} {tokenSettlements : SettlementAdjustments}
    (h : SettlementVerified accounts m tokenSettlements)
    (hdata : ∀ key, getType (m key).data = .ok .token → (m' key).data = (m key).data) :
    SettlementVerified accounts m' tokenSettlements := by
  refine ⟨h.1.of_eq hdata, fun key hkey => ?_⟩
  rw [hdata key (h.1.type_of_keyAt hkey)]
  exact h.2 key hkey

/-- A preparation that sets the hash has verified every entry, and changes no token account. -/
theorem prepareSettlementBatch_verified {rt : Runtime} {raw : Bytes} {params : SettlementBatchParams}
    {m m' : Memory} {u : Unit} (hload : Loaded accounts m)
    (h : (prepareSettlementBatch rt accounts params raw).run m = .ok u m')
    (hprogram : accounts[0]? = some program)
    (hset : ProgramState.getSettlementHash (m' program.key).data ≠ .ok emptyHash) :
    ∀ tokenSettlements ∈ params.settlements, SettlementVerified accounts m tokenSettlements := by
  obtain ⟨program', cleared, verified, hvalidated, hfirst, hhash, hclear, hverify, count, hcount, hcase⟩ :=
    prepareSettlementBatch_cases h
  obtain rfl : program' = program := Option.some.inj (hfirst.symm.trans hprogram)
  have htouches := verified_touches hload hvalidated hfirst hclear hverify
  obtain ⟨data, hdata, rfl⟩ := write_eq_ok.mp hclear
  have hbounded : EventsBounded program'.key (m.setData program'.key data) := by
    refine ⟨0, Nat.zero_le _, ?_⟩
    rw [Memory.setData_self]
    exact getEventsCount_clearEvents hdata
  have hloop : Silent (EventsBounded program'.key) (NoEvents program'.key)
      (params.settlements.foldlM (verifySettlement accounts) 0) fun m _ =>
      ∀ tokenSettlements ∈ params.settlements, SettlementVerified accounts m tokenSettlements :=
    silent_foldlM fun total tokenSettlements _ => silent_verifySettlement hfirst total tokenSettlements
  have hzero : count = 0 := by
    rcases hcase with ⟨hzero, -⟩ | ⟨-, rfl⟩
    · exact hzero
    · rw [verified_settlementHash hvalidated hfirst htouches] at hset
      exact absurd hhash hset
  obtain ⟨-, hquiet⟩ := hloop _ _ _ hbounded hverify
  rw [hzero] at hcount
  obtain ⟨-, hfacts⟩ := hquiet hcount
  refine fun tokenSettlements hmem => (hfacts tokenSettlements hmem).of_eq fun key htype => ?_
  rw [Memory.setData_data] at htype ⊢
  split
  · next hkey =>
      subst hkey
      rw [if_pos rfl, getType_congr fun o ho => (writes_clearEvents _ _ hdata).2 o fun hin => by
        have hlow := hin.1
        omega] at htype
      obtain ⟨first, hled⟩ := led_of_validated hvalidated
      obtain rfl : first = program' := Option.some.inj (hled.listed.symm.trans hfirst)
      have hkind := hled.program.symm.trans htype
      cases hkind
  · rfl

end Verification

end Chainring.Arch

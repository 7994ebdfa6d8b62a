import Chainring.Arch.StateCodecs
import Chainring.Arch.Verification
import Chainring.Base.EventLog

/-! The events in the program account: what the log decodes to, and what a verification that may emit events
does to it. -/

namespace Chainring.Arch

open Bytes (slice slice_congr slice_eq_some slice_patch_of_disjoint slice_patch patch_isSome
  patch_length ofWord ofWord_length)
open CheckedWord (bind_eq_ok)
open Exec (Logs logs_query)

/-- The events up to the count, each decoded from its slot. -/
def storedEvents (data : Bytes) : Except Fault (List Event) := do
  let currentCount ← ProgramState.getEventsCount data
  (List.range currentCount).mapM fun i => do
    let block ← readBlock (eventsOffset + i * eventSize) eventSize data
    match decodeFromSlice Event.decode block with
    | .ok event => .ok event
    | .error _ => .error (.error .invalidAccountData)

/-- The log lies in the slots of the account data. -/
structure EventsAt (log : List Event) (data : Bytes) : Prop where
  count : ProgramState.getEventsCount data = .ok log.length
  slots : ∀ i event, log[i]? = some event → slice data (eventsOffset + i * eventSize) eventSize = some event.image

section Data

variable {log : List Event} {data data' : Bytes}

theorem EventsAt.storedEvents (h : EventsAt log data) : storedEvents data = .ok log := by
  have hitem : ∀ i ∈ List.range log.length, (do
      let block ← readBlock (eventsOffset + i * eventSize) eventSize data
      match decodeFromSlice Event.decode block with
      | .ok event => .ok event
      | .error _ => .error (.error .invalidAccountData) : Except Fault Event) =
        .ok (log[i]?.getD (.failedSettlement 0 0 0 0 0)) := by
    intro i hi
    have hlt := List.mem_range.mp hi
    have hget : log[i]? = some log[i] := List.getElem?_eq_getElem hlt
    refine bind_eq_ok.mpr ⟨_, readBlock_eq_ok.mpr (h.slots i _ hget), ?_⟩
    have hdecode : decodeFromSlice Event.decode log[i].image = .ok log[i] := by
      have hfst := (consumes_event log[i]).run_fst []
      rw [List.append_nil] at hfst
      exact hfst
    rw [hget, hdecode]
    rfl
  refine bind_eq_ok.mpr ⟨_, h.count, ?_⟩
  rw [mapM_image hitem]
  congr 1
  apply List.ext_getElem?
  intro i
  rw [List.getElem?_map]
  by_cases hlt : i < log.length
  · rw [List.getElem?_range hlt, Option.map_some, List.getElem?_eq_getElem hlt]
    rfl
  · rw [List.getElem?_eq_none (by rw [List.length_range]; omega), List.getElem?_eq_none (by omega)]
    rfl

theorem eventsAt_clearEvents (h : ProgramState.clearEvents data = .ok data') : EventsAt [] data' where
  count := getEventsCount_clearEvents h
  slots := nofun

/-- The log is read from the bytes at its size and after it. -/
theorem EventsAt.of_eq (h : EventsAt log data) (hsame : ∀ o, eventsSizeOffset ≤ o → data'[o]? = data[o]?) :
    EventsAt log data' where
  count := by
    rw [← h.count, ProgramState.getEventsCount, ProgramState.getEventsCount,
      readBlock_congr fun o ho => hsame o ho.1]
  slots := fun i event hevent => by
    rw [← h.slots i event hevent]
    apply slice_congr
    intro o hlow _
    have hslot : 288 + i * 64 ≤ o := hlow
    apply hsame
    show 286 ≤ o
    omega

theorem emitEvent_of_full (event : Event) (h : EventsAt log data) (hfull : log.length = maxEvents) :
    ProgramState.emitEvent event data = .error (.error (.custom errorValueTooLarge)) := by
  rw [ProgramState.emitEvent, h.count]
  exact if_pos hfull

/-- There is room for an event after the log, and it goes there. -/
theorem emitEvent_of_room (event : Event) (h : EventsAt log data) (hlt : log.length < maxEvents)
    (hroom : runeReceiverOffset ≤ data.length) :
    ∃ data', ProgramState.emitEvent event data = .ok data' ∧ EventsAt (log ++ [event]) data' := by
  have hroom' : 6688 ≤ data.length := hroom
  have hlt' : log.length < 100 := hlt
  obtain ⟨slotted, hslot⟩ : ∃ slotted, Bytes.patch data (eventsOffset + log.length * eventSize) event.image =
      some slotted := by
    apply patch_isSome
    rw [event.image_length]
    show 288 + log.length * 64 + 64 ≤ data.length
    omega
  obtain ⟨counted, hcount⟩ : ∃ counted, Bytes.patch slotted eventsSizeOffset (ofWord 2 (log.length + 1)) =
      some counted := by
    apply patch_isSome
    rw [ofWord_length, patch_length hslot]
    show 286 + 2 ≤ data.length
    omega
  have hemit : ProgramState.emitEvent event data = .ok counted := by
    rw [ProgramState.emitEvent, h.count]
    show (if log.length = maxEvents then _ else _ : Except Fault Bytes) = _
    rw [if_neg (Nat.ne_of_lt hlt), event.encode_image]
    show (writeBlock _ event.image data >>= fun data => writeBlock _ _ data) = _
    exact bind_eq_ok.mpr ⟨slotted, writeBlock_eq_ok.mpr hslot, writeBlock_eq_ok.mpr hcount⟩
  refine ⟨counted, hemit, ?_, fun i event' hevent => ?_⟩
  · rw [List.length_append]
    exact (getEventsCount_emitEvent (Nat.le_of_lt hlt) h.count hemit).2
  · rw [slice_patch_of_disjoint hcount (Or.inr (by rw [ofWord_length]; show 286 + 2 ≤ 288 + i * 64; omega))]
    rcases Nat.lt_trichotomy i log.length with hbefore | rfl | hafter
    · rw [slice_patch_of_disjoint hslot (Or.inl (by show 288 + i * 64 + 64 ≤ 288 + log.length * 64; omega))]
      rw [List.getElem?_append_left hbefore] at hevent
      exact h.slots i event' hevent
    · rw [List.getElem?_append_right (Nat.le_refl _), Nat.sub_self] at hevent
      obtain rfl := Option.some.inj hevent
      have hslice := slice_patch hslot
      rw [event.image_length] at hslice
      exact hslice
    · rw [List.getElem?_eq_none (by simp; omega)] at hevent
      cases hevent

end Data

/-! ### Verifications -/

/-- The memory while the accounts are verified: only the log of the program account has changed. -/
structure Logged (m₀ : Memory) (program : Pubkey) (log : List Event) (m : Memory) : Prop where
  others : ∀ key, key ≠ program → (m key).data = (m₀ key).data
  length : (m program).data.length = (m₀ program).data.length
  low : ∀ o < eventsSizeOffset, (m program).data[o]? = (m₀ program).data[o]?
  events : EventsAt log (m program).data

section Logged

variable {m₀ : Memory} {accounts : List AccountInfo} {program : AccountInfo}

/-- A write past the hashes of the program account leaves a log there. -/
theorem logged_setData {log : List Event} {m : Memory} {data : Bytes}
    (hothers : ∀ key, key ≠ program.key → (m key).data = (m₀ key).data)
    (hlength : (m program.key).data.length = (m₀ program.key).data.length)
    (hlow : ∀ o < eventsSizeOffset, (m program.key).data[o]? = (m₀ program.key).data[o]?)
    {put : Bytes → Except Fault Bytes} (hw : Writes put (286 ≤ ·)) (hput : put (m program.key).data = .ok data)
    (hevents : EventsAt log data) : Logged m₀ program.key log (m.setData program.key data) where
  others := fun key hne => by
    rw [Memory.setData_of_ne m data hne]
    exact hothers key hne
  length := by
    rw [Memory.setData_self, (hw _ _ hput).1]
    exact hlength
  low := fun o ho => by
    rw [Memory.setData_self, (hw _ _ hput).2 o (Nat.not_le.mpr ho)]
    exact hlow o ho
  events := by
    rw [Memory.setData_self]
    exact hevents

/-- Clearing the events starts an empty log. -/
theorem clearEvents_logged (hroom : runeReceiverOffset ≤ (m₀ program.key).data.length) :
    ∃ cleared, (program.write ProgramState.clearEvents).run m₀ = .ok () cleared ∧
      Logged m₀ program.key [] cleared := by
  obtain ⟨data, hdata⟩ : ∃ data, ProgramState.clearEvents (m₀ program.key).data = .ok data := by
    have hfits : eventsSizeOffset + (ofWord 2 0).length ≤ (m₀ program.key).data.length := by
      rw [ofWord_length]
      exact Nat.le_trans (by decide) hroom
    exact writeBlock_run hfits
  refine ⟨_, write_run hdata, ?_⟩
  exact logged_setData (fun _ _ => rfl) rfl (fun _ _ => rfl) (writes_clearEvents.mono fun o ho => ho.1) hdata
    (eventsAt_clearEvents hdata)

/-- An event goes after the log, or does not fit. -/
theorem logs_writeEvent (hroom : runeReceiverOffset ≤ (m₀ program.key).data.length) (event : Event) :
    Logs maxEvents (.custom errorValueTooLarge) (Logged m₀ program.key)
      (program.write (ProgramState.emitEvent event)) () [event] := by
  intro log m hcap hm
  rw [List.length_append, List.length_singleton]
  refine ⟨fun hfits => ?_, fun hover => ?_⟩
  · have hlength : runeReceiverOffset ≤ (m program.key).data.length := by
      rw [hm.length]
      exact hroom
    obtain ⟨data, hdata, hevents⟩ := emitEvent_of_room event hm.events hfits hlength
    exact ⟨_, write_run hdata,
      logged_setData hm.others hm.length hm.low (writes_emitEvent event) hdata hevents⟩
  · have hfull : log.length = maxEvents := Nat.le_antisymm hcap (Nat.lt_succ_iff.mp hover)
    exact ⟨m, write_run_of_error (emitEvent_of_full event hm.events hfull)⟩

theorem logs_emitEvent (hroom : runeReceiverOffset ≤ (m₀ program.key).data.length)
    (hprogram : accounts[0]? = some program) (event : Event) :
    Logs maxEvents (.custom errorValueTooLarge) (Logged m₀ program.key)
      (accountAt accounts 0 >>= fun programAccount => programAccount.write (ProgramState.emitEvent event)) ()
      [event] :=
  (logs_query fun _ _ _ => by rw [hprogram]).bind_nil (logs_writeEvent hroom event)

/-- Other accounts read as they did before. -/
theorem logs_read {α : Type} {account : AccountInfo} {get : Bytes → Except Fault α} {a : α}
    (hne : account.key ≠ program.key) (h : get (m₀ account.key).data = .ok a) :
    Logs maxEvents (.custom errorValueTooLarge) (Logged m₀ program.key) (account.read get) a [] :=
  logs_query fun log m hm => by
    rw [hm.others account.key hne]
    exact h

theorem logs_accountAt {index : Nat} {account : AccountInfo} (h : accounts[index]? = some account) :
    Logs maxEvents (.custom errorValueTooLarge) (Logged m₀ program.key) (accountAt accounts index) account [] :=
  logs_query fun _ _ _ => by rw [h]

theorem logs_validate {index : UInt8} {isSigner isWritable : Bool} {accountType : AccountType}
    {related : Option UInt8} (hkind : getType (m₀ program.key).data = .ok .program)
    (hne : accountType ≠ .program)
    (h : Validated accounts index isSigner isWritable (some accountType) related m₀) :
    Logs maxEvents (.custom errorValueTooLarge) (Logged m₀ program.key)
      (validateAccount accounts index isSigner isWritable (some accountType) related) () [] := by
  intro log m hcap hm
  rw [List.append_nil]
  refine ⟨fun _ => ⟨m, validateAccount_eq_ok.mpr ⟨h.of_eq fun key htype => ?_, rfl⟩, hm⟩, fun hover => ?_⟩
  · apply hm.others
    rintro rfl
    exact hne (Except.ok.inj (htype.symm.trans hkind))
  · exact absurd hcap (Nat.not_le.mpr hover)

end Logged

end Chainring.Arch

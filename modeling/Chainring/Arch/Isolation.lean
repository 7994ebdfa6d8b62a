import Chainring.Arch.WithdrawalChain
import Chainring.Arch.WriteAuthority

/-! Several exchanges in one world. The accounts that belong with a program account are what they were,
data and utxo, however many calls come that the program account does not lead. -/

namespace Chainring.Arch

open Bytes (slice)

variable {rt : Runtime} {w w' : World} {call : Call} {key owner : Pubkey}

/-- The first account of the call is the owner, and it signs. -/
def Call.LedBy (call : Call) (owner : Pubkey) : Prop :=
  ∃ first, call.accounts[0]? = some first ∧ first.isSigner = true ∧ first.key = owner

/-- The data is that of the program account `owner` itself, or of an account that belongs with it. -/
def BelongsTo (owner key : Pubkey) (data : Bytes) : Prop :=
  (key = owner ∧ getType data = .ok .program) ∨
    (Initialised data ∧ slice data programPubkeyOffset pubkeySize = some owner.1)

theorem BelongsTo.ne_nil {data : Bytes} (h : BelongsTo owner key data) : data ≠ [] := by
  rcases h with ⟨-, hprogram⟩ | ⟨hinitialised, -⟩
  · exact ne_nil_of_getType hprogram
  · exact hinitialised.ne_nil

/-- An account of some other type that is bound to a program account belongs to no other. -/
theorem BelongsTo.eq_of_bound {data : Bytes} {accountType : AccountType} {program : Pubkey}
    (h : BelongsTo owner key data) (hbound : Bound accountType program data)
    (hother : accountType ≠ .program) : program = owner := by
  rcases h with ⟨-, hprogram⟩ | ⟨-, hslice⟩
  · exact absurd (Except.ok.inj (hbound.1.symm.trans hprogram)) hother
  · have hkey := relatedAccountKey_eq_ok hbound.2
    exact Subtype.ext (Option.some.inj (hkey.symm.trans hslice))

/-- What belongs to a program account is that account where it has the type of one. -/
theorem BelongsTo.eq_of_program {data : Bytes} (h : BelongsTo owner key data)
    (hprogram : getType data = .ok .program) : key = owner := by
  rcases h with ⟨hkey, -⟩ | ⟨htoken | hwithdraw | hreceiver, -⟩
  · exact hkey
  · cases htoken.symm.trans hprogram
  · cases hwithdraw.symm.trans hprogram
  · cases hreceiver.symm.trans hprogram

/-! ### One call -/

/-- A call that changes data which belongs to a program account is led by it. -/
theorem ledBy_of_data (h : BelongsTo owner key (w key).data)
    (hchanged : (step rt w call key).data ≠ (w key).data) : call.LedBy owner := by
  obtain ⟨m, htouches, hstep⟩ := step_touches rt w call
  rw [hstep key] at hchanged
  obtain ⟨o, ho⟩ := exists_byte_of_ne hchanged
  obtain ⟨-, hempty | ⟨first, hfirst, hsigner, hprogram, ⟨hkey, -⟩ | ⟨htoken, -⟩ | ⟨hwithdraw, -⟩⟩⟩ :=
    htouches.bytes key o ho
  · exact absurd hempty h.ne_nil
  · have htype : getType (w key).data = .ok .program := by
      rw [hkey]
      exact hprogram
    exact ⟨first, hfirst, hsigner, hkey.symm.trans (h.eq_of_program htype)⟩
  · exact ⟨first, hfirst, hsigner, h.eq_of_bound htoken (by decide)⟩
  · exact ⟨first, hfirst, hsigner, h.eq_of_bound hwithdraw (by decide)⟩

/-- The withdraw account that an instruction has checked belongs with the first account. -/
theorem bound_of_validated {m : Memory} {withdraw : AccountInfo}
    (hvalidated : Validated call.accounts 0 true false (some .program) (some 1) m)
    (hvalidated' : Validated call.accounts 1 true true (some .withdraw) (some 0) m)
    (hlisted : call.accounts[1]? = some withdraw) :
    ∃ first, Led call.accounts m first ∧ Bound .withdraw first.key (m withdraw.key).data := by
  obtain ⟨first, hled⟩ := led_of_validated hvalidated
  obtain ⟨-, -, related, hrelated, hbound⟩ := hvalidated'.of_listed hlisted
  obtain rfl := Option.some.inj (hrelated.symm.trans hled.listed)
  exact ⟨related, hled, hbound⟩

theorem ledBy_of_utxo (h : BelongsTo owner key (w key).data)
    (hchanged : (step rt w call key).utxo ≠ (w key).utxo) : call.LedBy owner := by
  cases hexecute : execute rt w call with
  | none =>
      rw [step_of_none hexecute] at hchanged
      exact absurd rfl hchanged
  | some w' =>
      rw [step_of_execute hexecute] at hchanged
      obtain ⟨instruction, m, hinstruction, hrun, -⟩ := execute_cases hexecute
      have hsets : instruction.SetsUtxo := by
        by_contra hnot
        exact hchanged (execute_utxo_kept hexecute hinstruction hnot key)
      have hled : ∀ withdraw : AccountInfo, withdraw.key = key → call.accounts[1]? = some withdraw →
          Validated call.accounts 0 true false (some .program) (some 1) (load w) →
          Validated call.accounts 1 true true (some .withdraw) (some 0) (load w) → call.LedBy owner := by
        rintro withdraw rfl hlisted hvalidated hvalidated'
        obtain ⟨first, hfirst, hbound⟩ := bound_of_validated hvalidated hvalidated' hlisted
        exact ⟨first, hfirst.listed, hfirst.signer, h.eq_of_bound hbound (by decide)⟩
      cases instruction with
      | submitBatchWithdraw params =>
          rcases submission_moves key hexecute hinstruction with
            ⟨-, hkept⟩ | ⟨withdraw, _, _, _, _, hkey, hhands, -⟩
          · exact absurd hkept hchanged
          · obtain ⟨hvalidated, hrun⟩ := validate_bind_eq_ok.mp hrun
            obtain ⟨hvalidated', -⟩ := validate_bind_eq_ok.mp hrun
            exact hled withdraw hkey hhands.listed hvalidated hvalidated'
      | updateWithdrawStateUtxo params =>
          obtain ⟨withdraw, bytes, hlength, hlisted, -, hm⟩ := updateWithdrawStateUtxo_moves hrun
          obtain ⟨hvalidated, hrun'⟩ := validate_bind_eq_ok.mp hrun
          obtain ⟨hvalidated', -⟩ := validate_bind_eq_ok.mp hrun'
          refine hled withdraw ?_ hlisted hvalidated hvalidated'
          by_contra hother
          apply hchanged
          rcases execute_store hexecute hinstruction hrun key with hwritten | ⟨-, hkept⟩
          · rw [hwritten, hm, Memory.setUtxo, Function.update_of_ne (Ne.symm hother)]
            rfl
          · exact hkept
      | _ => exact False.elim hsets

/-! ### Runs -/

/-- Over any run of calls that a program account does not lead, every account that belongs to it keeps its
data and its utxo. -/
theorem isolated (rt : Runtime) (start : World) (calls : List Call) (owner key : Pubkey)
    (hled : ∀ call ∈ calls, ¬call.LedBy owner) (hbelongs : BelongsTo owner key (start key).data) :
    (worldAt rt start calls calls.length key).data = (start key).data ∧
      (worldAt rt start calls calls.length key).utxo = (start key).utxo := by
  refine Run.stateAt_induction (step rt) (P := fun w : World =>
    (w key).data = (start key).data ∧ (w key).utxo = (start key).utxo) ⟨rfl, rfl⟩ ?_ calls.length
  rintro w call hcall ⟨hdata, hutxo⟩
  rw [← hdata] at hbelongs
  refine ⟨?_, ?_⟩
  · by_contra hchanged
    exact hled call hcall (ledBy_of_data hbelongs fun hsame => hchanged (hsame.trans hdata))
  · by_contra hchanged
    exact hled call hcall (ledBy_of_utxo hbelongs fun hsame => hchanged (hsame.trans hutxo))

/-! Another program rolls back its settlement. -/

def otherProgram : Pubkey := sampleKey 0x11

def neighbours : World :=
  sampleWorld [(sampleProgram, programData (sampleKey 7) emptyHash), (otherProgram, programData (sampleKey 8) emptyHash),
    (sampleWithdraw, withdrawData emptyHash)]

def neighbourCall : Call where
  programId := sampleKey 0xee
  accounts := [⟨otherProgram, true, true⟩, ⟨sampleWithdraw, true, true⟩]
  instructionData := [7]

theorem neighbour_isolated :
    (worldAt (sampleRuntime []) neighbours [neighbourCall] [neighbourCall].length sampleWithdraw).data =
        (neighbours sampleWithdraw).data ∧
      (worldAt (sampleRuntime []) neighbours [neighbourCall] [neighbourCall].length sampleWithdraw).utxo =
        (neighbours sampleWithdraw).utxo := by
  refine isolated (sampleRuntime []) neighbours [neighbourCall] sampleProgram sampleWithdraw ?_ ?_
  · intro call hcall
    obtain rfl := List.mem_singleton.mp hcall
    rintro ⟨first, hfirst, -, hkey⟩
    obtain rfl := Option.some.inj hfirst
    revert hkey
    decide
  · refine Or.inr ⟨Or.inr (Or.inl ?_), ?_⟩ <;> decide +kernel

end Chainring.Arch

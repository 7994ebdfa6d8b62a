import Chainring.Arch.Run

/-! Who may change what: a call that returns or fails changes only empty accounts, its signing program
account, and the token and withdraw accounts that belong with it; and the type and the program key of
an account are settled once it is initialised. -/

namespace Chainring.Arch

/-- The first account of the call is a signing program account, and the account of the key is that
account or a token or withdraw account that belongs with it. -/
def Authorized (w : World) (call : Call) (key : Pubkey) : Prop :=
  ∃ first, call.accounts[0]? = some first ∧ first.isSigner = true ∧
    getType (w first.key).data = .ok .program ∧
    (key = first.key ∨ Bound .token first.key (w key).data ∨ Bound .withdraw first.key (w key).data)

/-- An account that belongs with a program account for good. -/
def Initialised (data : Bytes) : Prop :=
  getType data = .ok .token ∨ getType data = .ok .withdraw ∨ getType data = .ok .runeReceiver

theorem authorized_of_permits {w : World} {call : Call} {reach : Reach} {key : Pubkey} {o : Nat}
    (h : Permits reach call.accounts (load w) key o) (hne : (w key).data ≠ []) :
    Authorized w call key := by
  obtain ⟨-, hempty | ⟨first, hfirst, hsigner, hprogram, hcase⟩⟩ := h
  · exact absurd hempty hne
  · refine ⟨first, hfirst, hsigner, hprogram, ?_⟩
    rcases hcase with ⟨hkey, -⟩ | ⟨htoken, -⟩ | ⟨hwithdraw, -⟩
    · exact Or.inl hkey
    · exact Or.inr (Or.inl htoken)
    · exact Or.inr (Or.inr hwithdraw)

/-- Data that differs differs at some byte. -/
theorem exists_byte_of_ne {data data' : Bytes} (hne : data' ≠ data) : ∃ o : Nat, data'[o]? ≠ data[o]? := by
  by_contra hsame
  apply hne
  apply List.ext_getElem?
  intro o
  by_contra hbyte
  exact hsame ⟨o, hbyte⟩

theorem Initialised.ne_nil {data : Bytes} (h : Initialised data) : data ≠ [] := by
  rcases h with h | h | h <;> exact ne_nil_of_getType h

/-- Whatever a call is given, what it changes it is authorized to change, also where it fails; and
over any run the type byte and the program key of an initialised account stay. -/
theorem writes_authorized (rt : Runtime) :
    (∀ (w : World) (call : Call) (m : Memory),
      (call.outcome rt w = .ok () m ∨ ∃ e, call.outcome rt w = .error e m) →
      ∀ key, (w key).data ≠ [] → (m key).data ≠ (w key).data → Authorized w call key) ∧
    (∀ (start : World) (calls : List Call) (n k : Nat), n ≤ k → k ≤ calls.length →
      ∀ key, Initialised (worldAt rt start calls n key).data →
        (worldAt rt start calls k key).data[0]? = (worldAt rt start calls n key).data[0]? ∧
        Bytes.slice (worldAt rt start calls k key).data programPubkeyOffset pubkeySize =
          Bytes.slice (worldAt rt start calls n key).data programPubkeyOffset pubkeySize) := by
  refine ⟨?_, ?_⟩
  · intro w call m houtcome key hne hchanged
    obtain ⟨o, ho⟩ := exists_byte_of_ne hchanged
    exact authorized_of_permits ((outcome_touches houtcome).bytes key o ho) hne
  · intro start calls n k hnk hk key hinitialised
    have hheader : ∀ o < 37,
        (worldAt rt start calls k key).data[o]? = (worldAt rt start calls n key).data[o]? :=
      worldAt_header hnk hk hinitialised.ne_nil
    exact ⟨hheader 0 (by decide), Bytes.slice_congr fun o _ hhigh => hheader o hhigh⟩

/-- The program that prepared a settlement rolls it back. -/
def rollbackCall : Call where
  programId := sampleKey 0xee
  accounts := [⟨sampleProgram, true, true⟩]
  instructionData := [7]

theorem rollback_writes_authorized :
    Authorized (sampleWorld [(sampleProgram, programData (sampleKey 7) emptyHash)]) rollbackCall
      sampleProgram := by
  have hrolled : (((rollbackCall.outcome (sampleRuntime [])
      (sampleWorld [(sampleProgram, programData (sampleKey 7) emptyHash)])).okState).map
        fun m => ProgramState.getSettlementHash (m sampleProgram).data) = some (.ok emptyHash) := by
    decide +kernel
  obtain ⟨m, hstate, hhash⟩ := Option.map_eq_some_iff.mp hrolled
  obtain ⟨_, hok⟩ := Outcome.okState_eq_some.mp hstate
  refine (writes_authorized (sampleRuntime [])).1 _ _ m (Or.inl hok) sampleProgram (by decide +kernel) ?_
  intro hsame
  rw [hsame] at hhash
  revert hhash
  decide +kernel

end Chainring.Arch

import Mathlib.Data.List.Basic
import Mathlib.Data.Nat.Init
import Mathlib.Order.Basic

/-! Runs of a deterministic system over a list of inputs, and the history of a two-phase register:
a prepare writes the digest of its datum into an empty register, a submit of the same datum empties
it again, and so does a rollback. -/

namespace Chainring.Run

variable {σ ι : Type} (step : σ → ι → σ)

/-- The state before input `n`, the final state from the length of the run on. -/
def stateAt (start : σ) (inputs : List ι) (n : Nat) : σ := (inputs.take n).foldl step start

@[simp] theorem stateAt_zero (start : σ) (inputs : List ι) : stateAt step start inputs 0 = start := rfl

theorem stateAt_succ (start : σ) (inputs : List ι) (n : Nat) (hn : n < inputs.length) :
    stateAt step start inputs (n + 1) = step (stateAt step start inputs n) inputs[n] := by
  rw [stateAt, List.take_succ_eq_append_getElem hn, List.foldl_append]
  rfl

theorem stateAt_length (start : σ) (inputs : List ι) :
    stateAt step start inputs inputs.length = inputs.foldl step start := by
  rw [stateAt, List.take_length]

/-- What every step preserves holds along the run. -/
theorem stateAt_induction {P : σ → Prop} {start : σ} {inputs : List ι} (hstart : P start)
    (hstep : ∀ state, ∀ input ∈ inputs, P state → P (step state input)) (n : Nat) :
    P (stateAt step start inputs n) := by
  have hfold : ∀ (taken : List ι) (state : σ), (∀ input ∈ taken, input ∈ inputs) → P state →
      P (taken.foldl step state) := by
    intro taken
    induction taken with
    | nil => exact fun _ _ h => h
    | cons input taken ih =>
        intro state hmem h
        exact ih _ (fun i hi => hmem i (List.mem_cons_of_mem _ hi))
          (hstep state input (hmem input List.mem_cons_self) h)
  exact hfold _ start (fun _ hi => List.mem_of_mem_take hi) hstart

theorem foldl_induction {P : σ → Prop} {start : σ} {inputs : List ι} (hstart : P start)
    (hstep : ∀ state, ∀ input ∈ inputs, P state → P (step state input)) :
    P (inputs.foldl step start) := by
  rw [← stateAt_length]
  exact stateAt_induction step hstart hstep _

/-- When every step keeps the value or writes it, it has been kept from the start, or was written at some step and
kept since. -/
theorem kept_or_written {V : Type} (value : Nat → V) (Writes : Nat → V → Prop) (n : Nat)
    (hsteps : ∀ i < n, value (i + 1) = value i ∨ Writes i (value (i + 1))) :
    (∀ k ≤ n, value k = value n) ∨
      ∃ j < n, Writes j (value n) ∧ ∀ k, j < k → k ≤ n → value k = value n := by
  induction n with
  | zero => exact Or.inl fun k hk => by rw [Nat.le_zero.mp hk]
  | succ n ih =>
      rcases hsteps n (Nat.lt_succ_self n) with hkept | hwrites
      · rw [hkept]
        have hlast : ∀ {k}, k ≤ n + 1 → ¬k ≤ n → value k = value n := by
          intro k hk hlate
          rw [Nat.le_antisymm hk (Nat.not_le.mp hlate), hkept]
        rcases ih fun i hi => hsteps i (Nat.lt_succ_of_lt hi) with hstart | ⟨j, hj, hwrites, hsince⟩
        · refine Or.inl fun k hk => ?_
          by_cases hearly : k ≤ n
          · exact hstart k hearly
          · exact hlast hk hearly
        · refine Or.inr ⟨j, Nat.lt_succ_of_lt hj, hwrites, fun k hlow hk => ?_⟩
          by_cases hearly : k ≤ n
          · exact hsince k hlow hearly
          · exact hlast hk hearly
      · refine Or.inr ⟨n, Nat.lt_succ_self n, hwrites, fun k hlow hk => ?_⟩
        rw [Nat.le_antisymm hk hlow]

/-- A value that is not the initial one was written at some step and kept since, when every step
keeps the value, resets it or writes it. -/
theorem written_since {V : Type} {initial : V} (value : Nat → V) (Writes : Nat → V → Prop)
    (hstart : value 0 = initial) (n : Nat)
    (hsteps : ∀ i < n, value (i + 1) = value i ∨ value (i + 1) = initial ∨ Writes i (value (i + 1)))
    (hne : value n ≠ initial) :
    ∃ j < n, Writes j (value n) ∧ ∀ k, j < k → k ≤ n → value k = value n := by
  rcases kept_or_written value (fun i v => v = initial ∨ Writes i v) n hsteps with
    hkept | ⟨j, hj, hreset | hwrites, hsince⟩
  · exact absurd ((hkept 0 (Nat.zero_le n)).symm.trans hstart) hne
  · exact absurd hreset hne
  · exact ⟨j, hj, hwrites, hsince⟩

/-- A value that differs later left at some step in between. -/
theorem exists_left {V : Type} (value : Nat → V) {m n : Nat} {v : V} (hle : m ≤ n) (hm : value m = v)
    (hn : value n ≠ v) : ∃ k, m ≤ k ∧ k < n ∧ value k = v ∧ value (k + 1) ≠ v := by
  induction n, hle using Nat.le_induction with
  | base => exact absurd hm hn
  | succ n hle ih =>
      by_cases hvalue : value n = v
      · exact ⟨n, hle, Nat.lt_succ_self n, hvalue, hn⟩
      · obtain ⟨k, hlow, hhigh, hchange⟩ := ih hvalue
        exact ⟨k, hlow, Nat.lt_succ_of_lt hhigh, hchange⟩

/-- A value that is lower later went down at some step in between. -/
theorem exists_lowered (value : Nat → Nat) {m n : Nat} (hle : m ≤ n) (h : value n < value m) :
    ∃ k, m ≤ k ∧ k < n ∧ value (k + 1) < value k := by
  induction n, hle using Nat.le_induction with
  | base => exact absurd h (Nat.lt_irrefl _)
  | succ n hle ih =>
      rcases Nat.lt_or_ge (value (n + 1)) (value n) with hlast | hlast
      · exact ⟨n, hle, Nat.lt_succ_self n, hlast⟩
      · obtain ⟨k, hlow, hhigh, hlowered⟩ := ih (Nat.lt_of_le_of_lt hlast h)
        exact ⟨k, hlow, Nat.lt_succ_of_lt hhigh, hlowered⟩

/-- A measure of the state that is lower later was lowered by one of the inputs in between. -/
theorem exists_lowering (measure : σ → Nat) {start : σ} {inputs : List ι} {m n : Nat} (hle : m ≤ n)
    (h : measure (stateAt step start inputs n) < measure (stateAt step start inputs m)) :
    ∃ k, m ≤ k ∧ k < n ∧ ∃ hk : k < inputs.length,
      measure (step (stateAt step start inputs k) inputs[k]) < measure (stateAt step start inputs k) := by
  obtain ⟨k, hlow, hhigh, hlowered⟩ := exists_lowered (fun i => measure (stateAt step start inputs i)) hle h
  by_cases hk : k < inputs.length
  · rw [stateAt_succ step start inputs k hk] at hlowered
    exact ⟨k, hlow, hhigh, hk, hlowered⟩
  · have hend : inputs.length ≤ k := Nat.not_lt.mp hk
    have hsame : stateAt step start inputs (k + 1) = stateAt step start inputs k := by
      rw [stateAt, stateAt, List.take_of_length_le hend, List.take_of_length_le (Nat.le_succ_of_le hend)]
    rw [hsame] at hlowered
    exact absurd hlowered (Nat.lt_irrefl _)

end Chainring.Run

namespace Chainring.TwoPhase

variable {D H : Type}

/-- What one step does to the register. -/
inductive Act (D : Type) where
  | prepare (datum : D)
  | submit (datum : D)
  | rollback
  | other

/-- The acts that empty the register. -/
def Act.Releases : Act D → Prop
  | .submit _ => True
  | .rollback => True
  | _ => False

variable (hash : D → H) (empty : H)

/-- The moves of the register that each act allows. -/
def Move (register : H) (act : Act D) (next : H) : Prop :=
  match act with
  | .prepare datum => register = empty ∧ next = hash datum ∧ hash datum ≠ empty
  | .submit datum => register = hash datum ∧ register ≠ empty ∧ next = empty
  | .rollback => next = empty
  | .other => next = register

/-- The same moves, where a submit may also find the register empty. -/
def Follows (register : H) (act : Act D) (next : H) : Prop :=
  match act with
  | .prepare datum => register = empty ∧ next = hash datum ∧ hash datum ≠ empty
  | .submit datum => register = hash datum ∧ next = empty
  | .rollback => next = empty
  | .other => next = register

theorem Move.follows {hash : D → H} {empty register next : H} {act : Act D}
    (h : Move hash empty register act next) : Follows hash empty register act next := by
  cases act with
  | prepare datum => exact h
  | submit datum => exact ⟨h.1, h.2.2⟩
  | rollback => exact h
  | other => exact h

variable {hash empty} {register : Nat → H} {act : Nat → Act D}

/-- A register in use was filled by a prepare, and every act since left it alone. -/
theorem prepared_of_pending (hstart : register 0 = empty) (n : Nat)
    (hmoves : ∀ i < n, Follows hash empty (register i) (act i) (register (i + 1)))
    (hpending : register n ≠ empty) :
    ∃ j < n, ∃ datum, act j = .prepare datum ∧ register n = hash datum ∧
      ∀ k, j < k → k < n → act k = .other := by
  have hsteps : ∀ i < n, register (i + 1) = register i ∨ register (i + 1) = empty ∨
      ∃ datum, act i = .prepare datum ∧ register (i + 1) = hash datum := by
    intro i hi
    have hmove := hmoves i hi
    cases hact : act i with
    | prepare datum =>
        rw [hact] at hmove
        exact Or.inr (Or.inr ⟨datum, rfl, hmove.2.1⟩)
    | submit datum =>
        rw [hact] at hmove
        exact Or.inr (Or.inl hmove.2)
    | rollback =>
        rw [hact] at hmove
        exact Or.inr (Or.inl hmove)
    | other =>
        rw [hact] at hmove
        exact Or.inl hmove
  obtain ⟨j, hj, ⟨datum, hprepare, hregister⟩, hsince⟩ :=
    Run.written_since register (fun i v => ∃ datum, act i = .prepare datum ∧ v = hash datum) hstart n
      hsteps hpending
  refine ⟨j, hj, datum, hprepare, hregister, fun k hlow hhigh => ?_⟩
  have hmove := hmoves k hhigh
  have hused : register k ≠ empty := by
    rw [hsince k hlow (Nat.le_of_lt hhigh)]
    exact hpending
  have hkept : register (k + 1) ≠ empty := by
    rw [hsince (k + 1) (Nat.lt_succ_of_lt hlow) hhigh]
    exact hpending
  cases hact : act k with
  | prepare datum' =>
      rw [hact] at hmove
      exact absurd hmove.1 hused
  | submit datum' =>
      rw [hact] at hmove
      exact absurd hmove.2 hkept
  | rollback =>
      rw [hact] at hmove
      exact absurd hmove hkept
  | other => rfl

/-- A prepared datum stays in the register while no datum with its digest is submitted and no rollback comes. -/
theorem register_of_prepared {j n : Nat} {datum : D} (hjn : j < n)
    (hmoves : ∀ i, j ≤ i → i < n → Follows hash empty (register i) (act i) (register (i + 1)))
    (hprepare : act j = .prepare datum)
    (hsubmits : ∀ k, j < k → k < n → ∀ datum', act k = .submit datum' → hash datum' ≠ hash datum)
    (hrollbacks : ∀ k, j < k → k < n → register k = hash datum → act k ≠ .rollback) :
    register n = hash datum := by
  have hfirst := hmoves j (Nat.le_refl j) hjn
  rw [hprepare] at hfirst
  obtain ⟨-, hset, hne⟩ := hfirst
  induction n, hjn using Nat.le_induction with
  | base => exact hset
  | succ n hn ih =>
      have hlt : j < n := hn
      have hregister := ih (fun i hlow hhigh => hmoves i hlow (Nat.lt_succ_of_lt hhigh))
        (fun k hlow hhigh => hsubmits k hlow (Nat.lt_succ_of_lt hhigh))
        (fun k hlow hhigh => hrollbacks k hlow (Nat.lt_succ_of_lt hhigh))
      have hmove := hmoves n (Nat.le_of_lt hlt) (Nat.lt_succ_self n)
      cases hact : act n with
      | prepare datum' =>
          rw [hact] at hmove
          exact absurd (hregister.symm.trans hmove.1) hne
      | submit datum' =>
          rw [hact] at hmove
          exact absurd (hmove.1.symm.trans hregister) (hsubmits n hlt (Nat.lt_succ_self n) datum' hact)
      | rollback => exact absurd hact (hrollbacks n hlt (Nat.lt_succ_self n) hregister)
      | other =>
          rw [hact] at hmove
          exact hmove.trans hregister

/-- A submit consumes a prepare of a datum with the same digest, with nothing in between. -/
theorem prepared_of_submit (hstart : register 0 = empty) {n : Nat} {datum : D}
    (hmoves : ∀ i ≤ n, Move hash empty (register i) (act i) (register (i + 1)))
    (hsubmit : act n = .submit datum) :
    ∃ j < n, ∃ prepared, act j = .prepare prepared ∧ hash prepared = hash datum ∧
      ∀ k, j < k → k < n → act k = .other := by
  have hmove := hmoves n (Nat.le_refl n)
  simp only [Move, hsubmit] at hmove
  obtain ⟨j, hj, prepared, hprepare, hregister, hquiet⟩ :=
    prepared_of_pending hstart n (fun i hi => (hmoves i (Nat.le_of_lt hi)).follows) hmove.2.1
  exact ⟨j, hj, prepared, hprepare, hregister.symm.trans hmove.1, hquiet⟩

/-- The submit at `n` uses up the prepare at `j`: same datum, and nothing between them empties the
register. -/
structure Consumes (act : Nat → Act D) (datum : D) (j n : Nat) : Prop where
  before : j < n
  prepared : act j = .prepare datum
  submitted : act n = .submit datum
  kept : ∀ k, j < k → k < n → ¬(act k).Releases

/-- A prepare is used up at most once. -/
theorem Consumes.unique {datum datum' : D} {j n n' : Nat} (h : Consumes act datum j n)
    (h' : Consumes act datum' j n') : n = n' := by
  rcases Nat.lt_trichotomy n n' with hlt | heq | hlt
  · have hkept := h'.kept n h.before hlt
    rw [h.submitted] at hkept
    exact absurd trivial hkept
  · exact heq
  · have hkept := h.kept n' h'.before hlt
    rw [h'.submitted] at hkept
    exact absurd trivial hkept

/-- Where digests tell the data of the run apart, every submit uses up a prepare. -/
theorem consumes_of_submit (hstart : register 0 = empty) {n : Nat} {datum : D}
    (hmoves : ∀ i ≤ n, Move hash empty (register i) (act i) (register (i + 1)))
    (hinj : ∀ j < n, ∀ prepared, act j = .prepare prepared → hash prepared = hash datum →
      prepared = datum)
    (hsubmit : act n = .submit datum) : ∃ j, Consumes act datum j n := by
  obtain ⟨j, hj, prepared, hprepare, hhash, hother⟩ := prepared_of_submit hstart hmoves hsubmit
  obtain rfl := hinj j hj prepared hprepare hhash
  refine ⟨j, hj, hprepare, hsubmit, fun k hlow hhigh => ?_⟩
  rw [hother k hlow hhigh]
  exact id

/-- A register that only submits write holds the digest of the last datum submitted. -/
theorem last_submitted {last : Nat → H} {n : Nat} (hstart : last 0 = empty)
    (hlast : ∀ i < n, (∃ datum, act i = .submit datum ∧ last (i + 1) = hash datum) ∨
      ((∀ datum, act i ≠ .submit datum) ∧ last (i + 1) = last i)) :
    (last n = empty ∧ ∀ i < n, ∀ datum, act i ≠ .submit datum) ∨
    ∃ i < n, ∃ datum, act i = .submit datum ∧ last n = hash datum ∧
      ∀ k, i < k → k < n → ∀ datum', act k ≠ .submit datum' := by
  induction n with
  | zero => exact Or.inl ⟨hstart, fun i hi => absurd hi (Nat.not_lt_zero i)⟩
  | succ n ih =>
      rcases hlast n (Nat.lt_succ_self n) with ⟨datum, hsubmit, hnext⟩ | ⟨hother, hnext⟩
      · refine Or.inr ⟨n, Nat.lt_succ_self n, datum, hsubmit, hnext, ?_⟩
        intro k hlow hhigh
        omega
      · rcases ih (fun i hi => hlast i (Nat.lt_succ_of_lt hi)) with
          ⟨hempty, hnone⟩ | ⟨i, hi, datum, hsubmit, hregister, hquiet⟩
        · refine Or.inl ⟨hnext.trans hempty, fun i hi => ?_⟩
          rcases Nat.lt_succ_iff_lt_or_eq.mp hi with hi | rfl
          · exact hnone i hi
          · exact hother
        · refine Or.inr ⟨i, Nat.lt_succ_of_lt hi, datum, hsubmit, hnext.trans hregister, ?_⟩
          intro k hlow hhigh
          rcases Nat.lt_succ_iff_lt_or_eq.mp hhigh with hk | rfl
          · exact hquiet k hlow hk
          · exact hother

end Chainring.TwoPhase

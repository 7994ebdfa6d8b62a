import Chainring.Base.Exec

/-! Computations on one kind of state that do what others do on what is seen of it. -/

namespace Chainring

/-- The outcome seen through a view of the states. -/
def Outcome.view {ε σ τ α : Type} (view : σ → τ) : Outcome ε σ α → Outcome ε τ α
  | .ok value state => .ok value (view state)
  | .error e state => .error e (view state)
  | .panic => .panic

namespace Exec

variable {ε σ τ α β : Type} (view : σ → τ) (good : σ → Prop)

/-- On good states the first computation does what the second does on their views, and leaves good states. -/
def Simulates (p : Exec ε σ α) (q : Exec ε τ α) : Prop :=
  ∀ s, good s → q.run (view s) = (p.run s).view view ∧ Leaves good (fun _ => True) (p.run s)

variable {view good}

theorem simulates_pure (a : α) : Simulates view good (pure a : Exec ε σ α) (pure a) :=
  fun _ hs => ⟨rfl, .ok hs trivial⟩

theorem Simulates.bind {p : Exec ε σ α} {q : Exec ε τ α} {f : α → Exec ε σ β} {g : α → Exec ε τ β}
    (h : Simulates view good p q) (h' : ∀ a, Simulates view good (f a) (g a)) :
    Simulates view good (p >>= f) (q >>= g) := by
  intro s hs
  obtain ⟨hrun, hleaves⟩ := h s hs
  cases hp : p.run s with
  | ok a s' =>
      rw [hp] at hrun hleaves
      rw [run_bind_of_ok hrun, run_bind_of_ok hp]
      exact h' a s' hleaves.of_ok.1
  | error e s' =>
      rw [hp] at hrun hleaves
      rw [run_bind_of_error hrun, run_bind_of_error hp]
      exact ⟨rfl, .error hleaves.of_error⟩
  | panic =>
      rw [hp] at hrun
      rw [run_bind_of_panic hrun, run_bind_of_panic hp]
      exact ⟨rfl, .panic⟩

theorem simulates_forM {xs : List α} {p : α → Exec ε σ Unit} {q : α → Exec ε τ Unit}
    (h : ∀ x ∈ xs, Simulates view good (p x) (q x)) : Simulates view good (xs.forM p) (xs.forM q) := by
  induction xs with
  | nil => exact simulates_pure ()
  | cons x xs ih =>
      obtain ⟨hx, hxs⟩ := List.forall_mem_cons.mp h
      rw [forM_cons, forM_cons]
      exact hx.bind fun _ => ih hxs

/-- A change of the state that is seen as a change of the view. -/
theorem simulates_modify {put : σ → Except (Failure ε) σ} {put' : τ → Except (Failure ε) τ}
    (h : ∀ s, good s → put' (view s) = (put s).map view) (hgood : ∀ s, good s → ∀ s', put s = .ok s' → good s') :
    Simulates view good (modify put) (modify put') := by
  intro s hs
  refine ⟨?_, leaves_modify hs fun s' hput => ⟨hgood s hs s' hput, trivial⟩⟩
  simp only [modify, h s hs]
  cases put s with
  | ok s' => rfl
  | error failure => cases failure <;> rfl

end Exec

end Chainring

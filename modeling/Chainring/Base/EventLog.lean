import Chainring.Base.Exec

/-! Computations that append to a log with bounded room: what they return and append is known before they run,
and they fail with one error where the log has no room for it. -/

namespace Chainring.Exec

variable {ε σ α β E : Type}

/-- What the computation returns and appends, and that it fails where the log would overflow. -/
def Logs (room : Nat) (full : ε) (holds : List E → σ → Prop) (p : Exec ε σ α) (value : α) (items : List E) :
    Prop :=
  ∀ log s, log.length ≤ room → holds log s →
    ((log ++ items).length ≤ room → ∃ s', p.run s = .ok value s' ∧ holds (log ++ items) s') ∧
      (room < (log ++ items).length → ∃ s', p.run s = .error full s')

variable {room : Nat} {full : ε} {holds : List E → σ → Prop}

theorem logs_pure {a : α} : Logs room full holds (pure a) a [] := by
  intro log s hroom hholds
  rw [List.append_nil]
  exact ⟨fun _ => ⟨s, rfl, hholds⟩, fun hfull => absurd hroom (Nat.not_le.mpr hfull)⟩

theorem logs_query {get : σ → Except (Failure ε) α} {a : α} (h : ∀ log s, holds log s → get s = .ok a) :
    Logs room full holds (query get) a [] := by
  intro log s hroom hholds
  rw [List.append_nil]
  refine ⟨fun _ => ⟨s, ?_, hholds⟩, fun hfull => absurd hroom (Nat.not_le.mpr hfull)⟩
  exact query_eq_ok.mpr ⟨h log s hholds, rfl⟩

theorem logs_when {c : Prop} [Decidable c] {p : Exec ε σ Unit} {items : List E}
    (hp : c → Logs room full holds p () items) :
    Logs room full holds (when c p) () (if c then items else []) := by
  unfold when
  split
  · next hc => exact hp hc
  · exact logs_pure

/-- The items of the second computation follow those of the first. -/
theorem Logs.bind {p : Exec ε σ α} {f : α → Exec ε σ β} {a : α} {b : β} {first second : List E}
    (hp : Logs room full holds p a first) (hf : Logs room full holds (f a) b second) :
    Logs room full holds (p >>= f) b (first ++ second) := by
  intro log s hroom hholds
  obtain ⟨hok, herror⟩ := hp log s hroom hholds
  rw [← List.append_assoc]
  by_cases hfits : (log ++ first).length ≤ room
  · obtain ⟨s', hrun, hholds'⟩ := hok hfits
    rw [run_bind_of_ok hrun]
    exact hf _ s' hfits hholds'
  · obtain ⟨s', hrun⟩ := herror (Nat.not_le.mp hfits)
    rw [run_bind_of_error hrun]
    refine ⟨fun hle => absurd ?_ hfits, fun _ => ⟨s', rfl⟩⟩
    rw [List.length_append] at hle
    exact Nat.le_trans (Nat.le_add_right _ _) hle

/-- A computation that appends nothing leaves that to the rest. -/
theorem Logs.bind_nil {p : Exec ε σ α} {f : α → Exec ε σ β} {a : α} {b : β} {items : List E}
    (hp : Logs room full holds p a []) (hf : Logs room full holds (f a) b items) :
    Logs room full holds (p >>= f) b items :=
  hp.bind hf

/-- What comes last may append nothing. -/
theorem Logs.then_nil {p : Exec ε σ α} {f : α → Exec ε σ β} {a : α} {b : β} {items : List E}
    (hp : Logs room full holds p a items) (hf : Logs room full holds (f a) b []) :
    Logs room full holds (p >>= f) b items := by
  have hbind := hp.bind hf
  rw [List.append_nil] at hbind
  exact hbind

theorem logs_foldlM {xs : List α} {body : β → α → Exec ε σ β} {next : β → α → β} {itemsOf : α → List E}
    (h : ∀ acc, ∀ x ∈ xs, Logs room full holds (body acc x) (next acc x) (itemsOf x)) (init : β) :
    Logs room full holds (xs.foldlM body init) (xs.foldl next init) (xs.flatMap itemsOf) := by
  induction xs generalizing init with
  | nil => exact logs_pure
  | cons x xs ih =>
      rw [List.foldlM_cons, List.foldl_cons, List.flatMap_cons]
      exact (h init x List.mem_cons_self).bind (ih (fun acc y hy => h acc y (List.mem_cons_of_mem _ hy)) _)

theorem logs_forM {xs : List α} {body : α → Exec ε σ Unit} {itemsOf : α → List E}
    (h : ∀ x ∈ xs, Logs room full holds (body x) () (itemsOf x)) :
    Logs room full holds (xs.forM body) () (xs.flatMap itemsOf) := by
  induction xs with
  | nil => exact logs_pure
  | cons x xs ih =>
      rw [forM_cons, List.flatMap_cons]
      exact (h x List.mem_cons_self).bind (ih fun y hy => h y (List.mem_cons_of_mem _ hy))

end Chainring.Exec

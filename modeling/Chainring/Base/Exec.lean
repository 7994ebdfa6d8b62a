import Chainring.Base.Ledger
import Mathlib.Data.List.Forall2

/-! Computations over a state that may stop with an error, which keeps the state reached, or with a
panic, which leaves none. Rules for what a computation keeps whatever its outcome, for what it posts
to a ledger of wrapping registers, and for the computations that report what they find by changing
the state. -/

namespace Chainring

/-- Why a computation on data stops early. -/
inductive Failure (ε : Type) where
  | error (error : ε)
  | panic
  deriving DecidableEq

inductive Outcome (ε σ α : Type) where
  | ok (value : α) (state : σ)
  | error (error : ε) (state : σ)
  | panic

/-- The state after a success. -/
def Outcome.okState {ε σ α : Type} : Outcome ε σ α → Option σ
  | .ok _ state => some state
  | .error _ _ => none
  | .panic => none

/-- The value of a success. -/
def Outcome.value {ε σ α : Type} : Outcome ε σ α → Option α
  | .ok value _ => some value
  | .error _ _ => none
  | .panic => none

theorem Outcome.okState_eq_some {ε σ α : Type} {outcome : Outcome ε σ α} {state : σ} :
    outcome.okState = some state ↔ ∃ value, outcome = .ok value state := by
  cases outcome <;> simp [okState, eq_comm]

/-- The error of a computation that stopped with one. -/
def Outcome.failure {ε σ α : Type} : Outcome ε σ α → Option ε
  | .ok _ _ => none
  | .error e _ => some e
  | .panic => none

theorem Outcome.failure_eq_some {ε σ α : Type} {outcome : Outcome ε σ α} {e : ε} :
    outcome.failure = some e ↔ ∃ state, outcome = .error e state := by
  cases outcome <;> simp [failure, eq_comm]

structure Exec (ε σ α : Type) where
  run : σ → Outcome ε σ α

namespace Exec

variable {ε σ α β : Type}

instance : Monad (Exec ε σ) where
  pure value := ⟨fun s => .ok value s⟩
  bind p f := ⟨fun s =>
    match p.run s with
    | .ok value s' => (f value).run s'
    | .error e s' => .error e s'
    | .panic => .panic⟩

def fail (e : ε) : Exec ε σ α := ⟨fun s => .error e s⟩

/-- Go on only when the condition holds. -/
def ensure (c : Prop) [Decidable c] (e : ε) : Exec ε σ Unit := if c then pure () else fail e

/-- Run only when the condition holds. -/
def when (c : Prop) [Decidable c] (p : Exec ε σ Unit) : Exec ε σ Unit := if c then p else pure ()

/-- Read from the state without changing it. -/
def query (get : σ → Except (Failure ε) α) : Exec ε σ α := ⟨fun s =>
  match get s with
  | .ok value => .ok value s
  | .error (.error e) => .error e s
  | .error .panic => .panic⟩

/-- Change the state in one go. -/
def modify (put : σ → Except (Failure ε) σ) : Exec ε σ Unit := ⟨fun s =>
  match put s with
  | .ok s' => .ok () s'
  | .error (.error e) => .error e s
  | .error .panic => .panic⟩

/-! ### Successful computations -/

theorem bind_eq_ok {p : Exec ε σ α} {f : α → Exec ε σ β} {s s'' : σ} {b : β} :
    (p >>= f).run s = .ok b s'' ↔ ∃ a s', p.run s = .ok a s' ∧ (f a).run s' = .ok b s'' := by
  show (match p.run s with
    | .ok value s' => (f value).run s'
    | .error e s' => .error e s'
    | .panic => .panic) = .ok b s'' ↔ _
  cases p.run s with
  | ok a s' => simp
  | error e s' => simp
  | panic => simp

theorem pure_eq_ok {a b : α} {s s' : σ} : (pure a : Exec ε σ α).run s = .ok b s' ↔ b = a ∧ s' = s := by
  show Outcome.ok a s = .ok b s' ↔ _
  rw [Outcome.ok.injEq]
  exact and_congr eq_comm eq_comm

theorem fail_ne_ok {e : ε} {a : α} {s s' : σ} : (fail e : Exec ε σ α).run s ≠ .ok a s' := by
  intro h
  cases h

theorem ensure_eq_ok {c : Prop} [Decidable c] {e : ε} {u : Unit} {s s' : σ} :
    (ensure c e : Exec ε σ Unit).run s = .ok u s' ↔ c ∧ s' = s := by
  unfold ensure
  by_cases hc : c
  · rw [if_pos hc, pure_eq_ok]
    simp [hc]
  · rw [if_neg hc]
    exact iff_of_false fail_ne_ok (fun h => hc h.1)

theorem when_eq_ok {c : Prop} [Decidable c] {p : Exec ε σ Unit} {u : Unit} {s s' : σ} :
    (when c p).run s = .ok u s' ↔ (c ∧ p.run s = .ok u s') ∨ (¬c ∧ s' = s) := by
  unfold when
  by_cases hc : c
  · simp [hc]
  · rw [if_neg hc, pure_eq_ok]
    simp [hc]

theorem query_eq_ok {get : σ → Except (Failure ε) α} {a : α} {s s' : σ} :
    (query get).run s = .ok a s' ↔ get s = .ok a ∧ s' = s := by
  simp only [query]
  cases hget : get s with
  | ok value =>
      simp only [Outcome.ok.injEq, Except.ok.injEq]
      exact and_congr Iff.rfl eq_comm
  | error failure => cases failure <;> simp

theorem modify_eq_ok {put : σ → Except (Failure ε) σ} {u : Unit} {s s' : σ} :
    (modify put).run s = .ok u s' ↔ put s = .ok s' := by
  simp only [modify]
  cases hput : put s with
  | ok value => simp
  | error failure => cases failure <;> simp

/-- A computation that begins by reading goes on in the same state. -/
theorem query_bind_eq_ok {get : σ → Except (Failure ε) α} {f : α → Exec ε σ β} {s s' : σ} {b : β} :
    (query get >>= f).run s = .ok b s' ↔ ∃ a, get s = .ok a ∧ (f a).run s = .ok b s' := by
  rw [bind_eq_ok]
  constructor
  · rintro ⟨a, t, hquery, hrest⟩
    obtain ⟨hget, rfl⟩ := query_eq_ok.mp hquery
    exact ⟨a, hget, hrest⟩
  · rintro ⟨a, hget, hrest⟩
    exact ⟨a, s, query_eq_ok.mpr ⟨hget, rfl⟩, hrest⟩

theorem ensure_bind_eq_ok {c : Prop} [Decidable c] {e : ε} {f : Unit → Exec ε σ β} {s s' : σ} {b : β} :
    (ensure c e >>= f).run s = .ok b s' ↔ c ∧ (f ()).run s = .ok b s' := by
  rw [bind_eq_ok]
  constructor
  · rintro ⟨_, t, hensure, hrest⟩
    obtain ⟨hc, rfl⟩ := ensure_eq_ok.mp hensure
    exact ⟨hc, hrest⟩
  · rintro ⟨hc, hrest⟩
    exact ⟨(), s, ensure_eq_ok.mpr ⟨hc, rfl⟩, hrest⟩

theorem forM_cons (x : α) (xs : List α) (body : α → Exec ε σ Unit) :
    (x :: xs).forM body = body x >>= fun _ => xs.forM body := rfl

theorem forM_cons_eq_ok {x : α} {xs : List α} {body : α → Exec ε σ Unit} {u : Unit} {s s'' : σ} :
    ((x :: xs).forM body).run s = .ok u s'' ↔
      ∃ s', (body x).run s = .ok () s' ∧ (xs.forM body).run s' = .ok u s'' := by
  rw [forM_cons, bind_eq_ok]
  constructor
  · rintro ⟨_, s', hbody, hrest⟩
    exact ⟨s', hbody, hrest⟩
  · rintro ⟨s', hbody, hrest⟩
    exact ⟨(), s', hbody, hrest⟩

/-- What every successful iteration keeps, a successful loop keeps. -/
theorem forM_ok_invariant {I : σ → Prop} {xs : List α} {body : α → Exec ε σ Unit}
    (h : ∀ x ∈ xs, ∀ s s', I s → (body x).run s = .ok () s' → I s') {u : Unit} {s s' : σ} (hs : I s)
    (hrun : (xs.forM body).run s = .ok u s') : I s' := by
  induction xs generalizing s with
  | nil =>
      obtain ⟨-, rfl⟩ := pure_eq_ok.mp hrun
      exact hs
  | cons x xs ih =>
      obtain ⟨next, hbody, hrest⟩ := forM_cons_eq_ok.mp hrun
      exact ih (fun y hy => h y (List.mem_cons_of_mem _ hy)) (h x List.mem_cons_self s next hs hbody) hrest

/-! ### Where a computation stops -/

theorem run_bind_of_ok {p : Exec ε σ α} {f : α → Exec ε σ β} {s s' : σ} {a : α} (h : p.run s = .ok a s') :
    (p >>= f).run s = (f a).run s' := by
  show (match p.run s with
    | .ok value s' => (f value).run s'
    | .error e s' => .error e s'
    | .panic => .panic) = _
  rw [h]

theorem run_bind_of_error {p : Exec ε σ α} {f : α → Exec ε σ β} {s s' : σ} {e : ε} (h : p.run s = .error e s') :
    (p >>= f).run s = .error e s' := by
  show (match p.run s with
    | .ok value s' => (f value).run s'
    | .error e s' => .error e s'
    | .panic => .panic) = _
  rw [h]

theorem run_bind_of_panic {p : Exec ε σ α} {f : α → Exec ε σ β} {s : σ} (h : p.run s = .panic) :
    (p >>= f).run s = .panic := by
  show (match p.run s with
    | .ok value s' => (f value).run s'
    | .error e s' => .error e s'
    | .panic => .panic) = _
  rw [h]

theorem bind_eq_panic {p : Exec ε σ α} {f : α → Exec ε σ β} {s : σ} :
    (p >>= f).run s = .panic ↔ p.run s = .panic ∨ ∃ a s', p.run s = .ok a s' ∧ (f a).run s' = .panic := by
  show (match p.run s with
    | .ok value s' => (f value).run s'
    | .error e s' => .error e s'
    | .panic => .panic) = .panic ↔ _
  cases p.run s with
  | ok a s' => simp
  | error e s' => simp
  | panic => simp

theorem query_eq_panic {get : σ → Except (Failure ε) α} {s : σ} :
    (query get).run s = .panic ↔ get s = .error .panic := by
  unfold query
  cases hget : get s with
  | ok a => simp [hget]
  | error failure => cases failure <;> simp [hget]

theorem ensure_ne_panic {c : Prop} [Decidable c] {e : ε} {s : σ} :
    (ensure c e : Exec ε σ Unit).run s ≠ .panic := by
  unfold ensure
  split <;> exact nofun

theorem ensure_run_of_not {c : Prop} [Decidable c] {e : ε} (hc : ¬c) (s : σ) :
    (ensure c e : Exec ε σ Unit).run s = .error e s := by
  rw [ensure, if_neg hc]
  rfl

/-! ### What a computation keeps, whatever its outcome -/

/-- The state left behind, if any, satisfies `I`, and a result satisfies `Q`. -/
inductive Leaves (I : σ → Prop) (Q : α → Prop) : Outcome ε σ α → Prop where
  | ok {value : α} {s : σ} : I s → Q value → Leaves I Q (.ok value s)
  | error {e : ε} {s : σ} : I s → Leaves I Q (.error e s)
  | panic : Leaves I Q .panic

def Keeps (I : σ → Prop) (p : Exec ε σ α) (Q : α → Prop) : Prop := ∀ s, I s → Leaves I Q (p.run s)

section Keeps

variable {I : σ → Prop}

theorem Leaves.of_ok {Q : α → Prop} {value : α} {s : σ}
    (h : Leaves I Q (.ok value s : Outcome ε σ α)) : I s ∧ Q value := by
  cases h with
  | ok hs hQ => exact ⟨hs, hQ⟩

theorem Leaves.of_error {Q : α → Prop} {e : ε} {s : σ}
    (h : Leaves I Q (.error e s : Outcome ε σ α)) : I s := by
  cases h with
  | error hs => exact hs

theorem Leaves.mono {J : σ → Prop} {Q R : α → Prop} {outcome : Outcome ε σ α}
    (h : Leaves I Q outcome) (hI : ∀ s, I s → J s) (hQ : ∀ a, Q a → R a) : Leaves J R outcome := by
  cases h with
  | ok hs ha => exact .ok (hI _ hs) (hQ _ ha)
  | error hs => exact .error (hI _ hs)
  | panic => exact .panic

theorem Keeps.of_ok {p : Exec ε σ α} {Q : α → Prop} (h : Keeps I p Q) {s s' : σ} {a : α} (hs : I s)
    (hok : p.run s = .ok a s') : I s' ∧ Q a := by
  have hleaves := h s hs
  rw [hok] at hleaves
  exact hleaves.of_ok

theorem keeps_pure {a : α} {Q : α → Prop} (h : Q a) : Keeps I (pure a : Exec ε σ α) Q :=
  fun _ hs => .ok hs h

theorem keeps_fail {e : ε} {Q : α → Prop} : Keeps I (fail e : Exec ε σ α) Q := fun _ hs => .error hs

theorem keeps_ensure {c : Prop} [Decidable c] {e : ε} :
    Keeps I (ensure c e : Exec ε σ Unit) fun _ => c := by
  unfold ensure
  split
  · next hc => exact keeps_pure hc
  · exact keeps_fail

theorem keeps_when {c : Prop} [Decidable c] {p : Exec ε σ Unit} (hp : c → Keeps I p fun _ => True) :
    Keeps I (when c p) fun _ => True := by
  unfold when
  split
  · next hc => exact hp hc
  · exact keeps_pure trivial

/-- What the conditional part establishes holds where the condition does. -/
theorem keeps_when_imp {c : Prop} [Decidable c] {p : Exec ε σ Unit} {P : Prop}
    (hp : c → Keeps I p fun _ => P) : Keeps I (when c p) fun _ => c → P := by
  unfold when
  split
  · next hc =>
      intro s hs
      exact (hp hc s hs).mono (fun _ h => h) fun _ h _ => h
  · next hc => exact keeps_pure fun h => absurd h hc

theorem keeps_query {get : σ → Except (Failure ε) α} {Q : α → Prop}
    (h : ∀ s, I s → ∀ a, get s = .ok a → Q a) : Keeps I (query get) Q := by
  intro s hs
  simp only [query]
  cases hget : get s with
  | ok value => exact .ok hs (h s hs value hget)
  | error failure =>
      cases failure with
      | error e => exact .error hs
      | panic => exact .panic

theorem leaves_modify {put : σ → Except (Failure ε) σ} {Q : Prop} {s : σ} (hs : I s)
    (h : ∀ s', put s = .ok s' → I s' ∧ Q) : Leaves I (fun _ => Q) ((modify put).run s) := by
  simp only [modify]
  cases hput : put s with
  | ok s' => exact .ok (h s' hput).1 (h s' hput).2
  | error failure =>
      cases failure with
      | error e => exact .error hs
      | panic => exact .panic

theorem keeps_modify {put : σ → Except (Failure ε) σ} {Q : Prop}
    (h : ∀ s, I s → ∀ s', put s = .ok s' → I s' ∧ Q) : Keeps I (modify put) fun _ => Q :=
  fun s hs => leaves_modify hs (h s hs)

theorem leaves_bind {p : Exec ε σ α} {f : α → Exec ε σ β} {Q : α → Prop} {R : β → Prop} {s : σ}
    (hp : Leaves I Q (p.run s)) (hf : ∀ a, Q a → Keeps I (f a) R) : Leaves I R ((p >>= f).run s) := by
  show Leaves I R (match p.run s with
    | .ok value s' => (f value).run s'
    | .error e s' => .error e s'
    | .panic => .panic)
  cases hps : p.run s with
  | ok a s' =>
      rw [hps] at hp
      exact hf a hp.of_ok.2 s' hp.of_ok.1
  | error e s' =>
      rw [hps] at hp
      exact .error hp.of_error
  | panic => exact .panic

theorem Keeps.bind {p : Exec ε σ α} {f : α → Exec ε σ β} {Q : α → Prop} {R : β → Prop}
    (hp : Keeps I p Q) (hf : ∀ a, Q a → Keeps I (f a) R) : Keeps I (p >>= f) R :=
  fun s hs => leaves_bind (hp s hs) hf

/-- What was read still holds of the state when the rest begins. -/
theorem keeps_query_bind {get : σ → Except (Failure ε) α} {f : α → Exec ε σ β} {R : β → Prop}
    (h : ∀ s a, I s → get s = .ok a → Leaves I R ((f a).run s)) : Keeps I (query get >>= f) R := by
  intro s hs
  show Leaves I R (match (query get).run s with
    | .ok value s' => (f value).run s'
    | .error e s' => .error e s'
    | .panic => .panic)
  simp only [query]
  cases hget : get s with
  | ok a => exact h s a hs hget
  | error failure =>
      cases failure with
      | error e => exact .error hs
      | panic => exact .panic

theorem Keeps.weaken {p : Exec ε σ α} {Q R : α → Prop} (hp : Keeps I p Q) (h : ∀ a, Q a → R a) :
    Keeps I p R :=
  fun s hs => (hp s hs).mono (fun _ hs' => hs') h

/-- What is known of every success of a computation may be added to what it keeps. -/
theorem Keeps.strengthen {p : Exec ε σ α} {Q R : α → Prop} (hp : Keeps I p Q)
    (h : ∀ s a s', I s → p.run s = .ok a s' → R a) : Keeps I p R := by
  intro s hs
  have hleaves := hp s hs
  cases hrun : p.run s with
  | ok a s' =>
      rw [hrun] at hleaves
      exact .ok hleaves.of_ok.1 (h s a s' hs hrun)
  | error e s' =>
      rw [hrun] at hleaves
      exact .error hleaves.of_error
  | panic => exact .panic

/-- What each iteration establishes holds of every item after the loop. -/
theorem keeps_forM {xs : List α} {body : α → Exec ε σ Unit} {P : α → Prop}
    (h : ∀ x ∈ xs, Keeps I (body x) fun _ => P x) : Keeps I (xs.forM body) fun _ => ∀ x ∈ xs, P x := by
  induction xs with
  | nil => exact keeps_pure fun x hx => absurd hx List.not_mem_nil
  | cons x xs ih =>
      rw [forM_cons]
      refine (h x List.mem_cons_self).bind fun _ hx => ?_
      refine (ih fun y hy => h y (List.mem_cons_of_mem _ hy)).weaken fun _ hxs => ?_
      exact List.forall_mem_cons.mpr ⟨hx, hxs⟩

theorem keeps_foldlM {xs : List α} {body : β → α → Exec ε σ β} {init : β} {P : β → Prop}
    (hinit : P init) (h : ∀ acc, ∀ x ∈ xs, P acc → Keeps I (body acc x) P) :
    Keeps I (xs.foldlM body init) P := by
  induction xs generalizing init with
  | nil => exact keeps_pure hinit
  | cons x xs ih =>
      rw [List.foldlM_cons]
      exact (h init x List.mem_cons_self hinit).bind fun acc hacc =>
        ih hacc fun acc' y hy => h acc' y (List.mem_cons_of_mem _ hy)

/-- A loop whose iterations each add something to the accumulator adds a list of such things. -/
theorem keeps_foldlM_forall₂ {γ : Type} {xs : List α} {body : β → α → Exec ε σ β} {init : β}
    {P : α → γ → Prop} {add : β → γ → β}
    (h : ∀ acc, ∀ x ∈ xs, Keeps I (body acc x) fun acc' => ∃ c, P x c ∧ acc' = add acc c) :
    Keeps I (xs.foldlM body init) fun acc => ∃ cs, List.Forall₂ P xs cs ∧ acc = cs.foldl add init := by
  induction xs generalizing init with
  | nil => exact keeps_pure ⟨[], .nil, rfl⟩
  | cons x xs ih =>
      rw [List.foldlM_cons]
      refine (h init x List.mem_cons_self).bind fun acc hacc => ?_
      obtain ⟨c, hc, rfl⟩ := hacc
      refine (ih fun acc y hy => h acc y (List.mem_cons_of_mem _ hy)).weaken fun acc' hacc' => ?_
      obtain ⟨cs, hcs, rfl⟩ := hacc'
      exact ⟨c :: cs, .cons hc hcs, rfl⟩

end Keeps

/-! ### What a computation posts -/

section Posts

open Ledger (Entry)

variable {S : Type} [DecidableEq S] (modulus : Nat) (good : σ → Prop) (view : σ → S → Nat)

/-- A successful computation posts the entries to the registers in view. -/
def Posts (p : Exec ε σ α) (Q : α → Prop) (entries : List (Entry S)) : Prop :=
  ∀ s a s', good s → p.run s = .ok a s' →
    Q a ∧ good s' ∧ Ledger.run .wraps modulus (view s) entries = some (view s')

/-- The computation succeeds exactly when it is ready and its entries can be posted. -/
def Admits (p : Exec ε σ α) (ready : Prop) (entries : List (Entry S)) : Prop :=
  ∀ s, good s →
    ((∃ a s', p.run s = .ok a s') ↔ ready ∧ (Ledger.run .wraps modulus (view s) entries).isSome)

variable {modulus good view}

theorem posts_pure {a : α} {Q : α → Prop} (h : Q a) :
    Posts modulus good view (pure a : Exec ε σ α) Q [] := by
  intro s b s' hs hok
  obtain ⟨rfl, rfl⟩ := pure_eq_ok.mp hok
  exact ⟨h, hs, rfl⟩

theorem posts_query {get : σ → Except (Failure ε) α} {Q : α → Prop}
    (h : ∀ s, good s → ∀ a, get s = .ok a → Q a) : Posts modulus good view (query get) Q [] := by
  intro s a s' hs hok
  obtain ⟨hget, rfl⟩ := query_eq_ok.mp hok
  exact ⟨h s' hs a hget, hs, rfl⟩

theorem posts_when {c : Prop} [Decidable c] {p : Exec ε σ Unit} {entries : List (Entry S)}
    (hp : c → Posts modulus good view p (fun _ => True) entries) :
    Posts modulus good view (when c p) (fun _ => True) (if c then entries else []) := by
  unfold when
  split
  · next hc => exact hp hc
  · exact posts_pure trivial

theorem Posts.bind {p : Exec ε σ α} {f : α → Exec ε σ β} {Q : α → Prop} {R : β → Prop}
    {first second : List (Entry S)} (hp : Posts modulus good view p Q first)
    (hf : ∀ a, Q a → Posts modulus good view (f a) R second) :
    Posts modulus good view (p >>= f) R (first ++ second) := by
  intro s b s'' hs hok
  obtain ⟨a, s', hps, hfs⟩ := bind_eq_ok.mp hok
  obtain ⟨hQ, hs', hfirst⟩ := hp s a s' hs hps
  obtain ⟨hR, hs'', hsecond⟩ := hf a hQ s' b s'' hs' hfs
  refine ⟨hR, hs'', ?_⟩
  rw [Ledger.run_append, hfirst]
  exact hsecond

/-- A computation that posts nothing leaves the posting to the rest. -/
theorem Posts.bind_nil {p : Exec ε σ α} {f : α → Exec ε σ β} {Q : α → Prop} {R : β → Prop}
    {entries : List (Entry S)} (hp : Posts modulus good view p Q [])
    (hf : ∀ a, Q a → Posts modulus good view (f a) R entries) :
    Posts modulus good view (p >>= f) R entries :=
  hp.bind hf

/-- What comes last may post nothing. -/
theorem Posts.then_nil {p : Exec ε σ α} {f : α → Exec ε σ β} {Q : α → Prop} {R : β → Prop}
    {entries : List (Entry S)} (hp : Posts modulus good view p Q entries)
    (hf : ∀ a, Q a → Posts modulus good view (f a) R []) :
    Posts modulus good view (p >>= f) R entries := by
  have hbind := hp.bind hf
  rw [List.append_nil] at hbind
  exact hbind

theorem Posts.weaken {p : Exec ε σ α} {Q R : α → Prop} {entries : List (Entry S)}
    (hp : Posts modulus good view p Q entries) (h : ∀ a, Q a → R a) :
    Posts modulus good view p R entries := by
  intro s a s' hs hok
  obtain ⟨hQ, hrest⟩ := hp s a s' hs hok
  exact ⟨h a hQ, hrest⟩

theorem posts_forM {xs : List α} {body : α → Exec ε σ Unit} {entriesOf : α → List (Entry S)}
    (h : ∀ x ∈ xs, Posts modulus good view (body x) (fun _ => True) (entriesOf x)) :
    Posts modulus good view (xs.forM body) (fun _ => True) (xs.flatMap entriesOf) := by
  induction xs with
  | nil => exact posts_pure trivial
  | cons x xs ih =>
      rw [forM_cons, List.flatMap_cons]
      exact (h x List.mem_cons_self).bind fun _ _ => ih fun y hy => h y (List.mem_cons_of_mem _ hy)

theorem posts_foldlM {xs : List α} {body : β → α → Exec ε σ β} {init : β}
    {entriesOf : α → List (Entry S)}
    (h : ∀ acc, ∀ x ∈ xs, Posts modulus good view (body acc x) (fun _ => True) (entriesOf x)) :
    Posts modulus good view (xs.foldlM body init) (fun _ => True) (xs.flatMap entriesOf) := by
  induction xs generalizing init with
  | nil => exact posts_pure trivial
  | cons x xs ih =>
      rw [List.foldlM_cons, List.flatMap_cons]
      exact (h init x List.mem_cons_self).bind fun _ _ =>
        ih fun acc y hy => h acc y (List.mem_cons_of_mem _ hy)

theorem admits_pure {a : α} : Admits modulus good view (pure a : Exec ε σ α) True [] := by
  intro s _
  exact iff_of_true ⟨a, s, rfl⟩ ⟨trivial, rfl⟩

theorem admits_when {c : Prop} [Decidable c] {p : Exec ε σ Unit} {ready : Prop}
    {entries : List (Entry S)} (hp : c → Admits modulus good view p ready entries) :
    Admits modulus good view (when c p) (c → ready) (if c then entries else []) := by
  unfold when
  by_cases hc : c
  · rw [if_pos hc, if_pos hc]
    intro s hs
    rw [hp hc s hs]
    simp [hc]
  · rw [if_neg hc, if_neg hc]
    intro s _
    exact iff_of_true ⟨(), s, rfl⟩ ⟨fun h => absurd h hc, rfl⟩

theorem admits_query {get : σ → Except (Failure ε) α} {ready : Prop}
    (h : ∀ s, good s → ((∃ a, get s = .ok a) ↔ ready)) :
    Admits modulus good view (query get) ready [] := by
  intro s hs
  rw [← h s hs]
  constructor
  · rintro ⟨a, s', hok⟩
    exact ⟨⟨a, (query_eq_ok.mp hok).1⟩, rfl⟩
  · rintro ⟨⟨a, hget⟩, -⟩
    exact ⟨a, s, query_eq_ok.mpr ⟨hget, rfl⟩⟩

theorem Admits.bind {p : Exec ε σ α} {f : α → Exec ε σ β} {Q : α → Prop} {first second : List (Entry S)}
    {ready ready' : Prop} (hposts : Posts modulus good view p Q first)
    (hp : Admits modulus good view p ready first)
    (hf : ∀ a, Q a → Admits modulus good view (f a) ready' second) :
    Admits modulus good view (p >>= f) (ready ∧ ready') (first ++ second) := by
  intro s hs
  rw [Ledger.run_append]
  constructor
  · rintro ⟨b, s'', hok⟩
    obtain ⟨a, s', hps, hfs⟩ := bind_eq_ok.mp hok
    obtain ⟨hQ, hs', hfirst⟩ := hposts s a s' hs hps
    obtain ⟨hready', hsecond⟩ := (hf a hQ s' hs').mp ⟨b, s'', hfs⟩
    rw [hfirst]
    exact ⟨⟨((hp s hs).mp ⟨a, s', hps⟩).1, hready'⟩, hsecond⟩
  · rintro ⟨⟨hready, hready'⟩, hrun⟩
    rw [Option.isSome_bind] at hrun
    have hfirst : (Ledger.run .wraps modulus (view s) first).isSome := by
      cases hcase : Ledger.run .wraps modulus (view s) first with
      | none => simp [hcase] at hrun
      | some next => rfl
    obtain ⟨a, s', hps⟩ := (hp s hs).mpr ⟨hready, hfirst⟩
    obtain ⟨hQ, hs', hview⟩ := hposts s a s' hs hps
    rw [hview] at hrun
    obtain ⟨b, s'', hfs⟩ := (hf a hQ s' hs').mpr ⟨hready', hrun⟩
    exact ⟨b, s'', bind_eq_ok.mpr ⟨a, s', hps, hfs⟩⟩

theorem Admits.bind_nil {p : Exec ε σ α} {f : α → Exec ε σ β} {Q : α → Prop} {entries : List (Entry S)}
    {ready ready' : Prop} (hposts : Posts modulus good view p Q [])
    (hp : Admits modulus good view p ready [])
    (hf : ∀ a, Q a → Admits modulus good view (f a) ready' entries) :
    Admits modulus good view (p >>= f) (ready ∧ ready') entries :=
  Admits.bind hposts hp hf

theorem Admits.then_nil {p : Exec ε σ α} {f : α → Exec ε σ β} {Q : α → Prop} {entries : List (Entry S)}
    {ready ready' : Prop} (hposts : Posts modulus good view p Q entries)
    (hp : Admits modulus good view p ready entries)
    (hf : ∀ a, Q a → Admits modulus good view (f a) ready' []) :
    Admits modulus good view (p >>= f) (ready ∧ ready') entries := by
  have hbind := Admits.bind hposts hp hf
  rw [List.append_nil] at hbind
  exact hbind

theorem Admits.congr {p : Exec ε σ α} {ready ready' : Prop} {entries : List (Entry S)}
    (hp : Admits modulus good view p ready entries) (h : ready ↔ ready') :
    Admits modulus good view p ready' entries := by
  intro s hs
  rw [← h]
  exact hp s hs

theorem admits_forM {xs : List α} {body : α → Exec ε σ Unit} {entriesOf : α → List (Entry S)}
    {ready : α → Prop}
    (hposts : ∀ x ∈ xs, Posts modulus good view (body x) (fun _ => True) (entriesOf x))
    (h : ∀ x ∈ xs, Admits modulus good view (body x) (ready x) (entriesOf x)) :
    Admits modulus good view (xs.forM body) (∀ x ∈ xs, ready x) (xs.flatMap entriesOf) := by
  induction xs with
  | nil =>
      refine admits_pure.congr (iff_of_true trivial ?_)
      intro x hx
      cases hx
  | cons x xs ih =>
      rw [forM_cons, List.flatMap_cons]
      have hrest := ih (fun y hy => hposts y (List.mem_cons_of_mem _ hy))
        fun y hy => h y (List.mem_cons_of_mem _ hy)
      exact (Admits.bind (hposts x List.mem_cons_self) (h x List.mem_cons_self)
        fun _ _ => hrest).congr List.forall_mem_cons.symm

theorem admits_foldlM {xs : List α} {body : β → α → Exec ε σ β} {init : β} {entriesOf : α → List (Entry S)}
    {ready : α → Prop}
    (hposts : ∀ acc, ∀ x ∈ xs, Posts modulus good view (body acc x) (fun _ => True) (entriesOf x))
    (h : ∀ acc, ∀ x ∈ xs, Admits modulus good view (body acc x) (ready x) (entriesOf x)) :
    Admits modulus good view (xs.foldlM body init) (∀ x ∈ xs, ready x) (xs.flatMap entriesOf) := by
  induction xs generalizing init with
  | nil =>
      refine admits_pure.congr (iff_of_true trivial ?_)
      intro x hx
      cases hx
  | cons x xs ih =>
      rw [List.foldlM_cons, List.flatMap_cons]
      refine (Admits.bind (hposts init x List.mem_cons_self) (h init x List.mem_cons_self) fun acc _ => ?_).congr
        List.forall_mem_cons.symm
      exact ih (fun acc y hy => hposts acc y (List.mem_cons_of_mem _ hy))
        fun acc y hy => h acc y (List.mem_cons_of_mem _ hy)

end Posts

/-! ### Computations that report by changing the state -/

section Silent

variable (bounded silent : σ → Prop)

/-- From a bounded state a success reaches a bounded state; if that one is silent nothing was
reported, so the state is the old one and the facts hold of it. -/
def Silent (p : Exec ε σ α) (facts : σ → α → Prop) : Prop :=
  ∀ s a s', bounded s → p.run s = .ok a s' → bounded s' ∧ (silent s' → s' = s ∧ facts s a)

variable {bounded silent}

theorem silent_pure {a : α} {facts : σ → α → Prop} (h : ∀ s, facts s a) :
    Silent bounded silent (pure a : Exec ε σ α) facts := by
  intro s b s' hs hok
  obtain ⟨rfl, rfl⟩ := pure_eq_ok.mp hok
  exact ⟨hs, fun _ => ⟨rfl, h s'⟩⟩

theorem silent_done {a : α} : Silent bounded silent (pure a : Exec ε σ α) fun _ _ => True :=
  silent_pure fun _ => trivial

theorem silent_query {get : σ → Except (Failure ε) α} :
    Silent bounded silent (query get) fun s a => get s = .ok a := by
  intro s a s' hs hok
  obtain ⟨hget, rfl⟩ := query_eq_ok.mp hok
  exact ⟨hs, fun _ => ⟨rfl, hget⟩⟩

theorem silent_ensure {c : Prop} [Decidable c] {e : ε} :
    Silent bounded silent (ensure c e : Exec ε σ Unit) fun _ _ => c := by
  intro s a s' hs hok
  obtain ⟨hc, rfl⟩ := ensure_eq_ok.mp hok
  exact ⟨hs, fun _ => ⟨rfl, hc⟩⟩

theorem silent_when {c : Prop} [Decidable c] {p : Exec ε σ Unit} {facts : σ → Prop}
    (hp : c → Silent bounded silent p fun s _ => facts s) :
    Silent bounded silent (when c p) fun s _ => c → facts s := by
  unfold when
  split
  · next hc =>
      intro s a s' hs hok
      obtain ⟨hs', hquiet⟩ := hp hc s a s' hs hok
      exact ⟨hs', fun hsilent => ⟨(hquiet hsilent).1, fun _ => (hquiet hsilent).2⟩⟩
  · next hc => exact silent_pure fun s hc' => absurd hc' hc

theorem Silent.bind {p : Exec ε σ α} {f : α → Exec ε σ β} {facts : σ → α → Prop}
    {facts' : α → σ → β → Prop} (hp : Silent bounded silent p facts)
    (hf : ∀ a, Silent bounded silent (f a) (facts' a)) :
    Silent bounded silent (p >>= f) fun s b => ∃ a, facts s a ∧ facts' a s b := by
  intro s b s'' hs hok
  obtain ⟨a, s', hps, hfs⟩ := bind_eq_ok.mp hok
  obtain ⟨hs', hquiet⟩ := hp s a s' hs hps
  obtain ⟨hs'', hquiet'⟩ := hf a s' b s'' hs' hfs
  refine ⟨hs'', fun hsilent => ?_⟩
  obtain ⟨rfl, hfacts'⟩ := hquiet' hsilent
  obtain ⟨rfl, hfacts⟩ := hquiet hsilent
  exact ⟨rfl, a, hfacts, hfacts'⟩

theorem Silent.weaken {p : Exec ε σ α} {facts facts' : σ → α → Prop}
    (hp : Silent bounded silent p facts) (h : ∀ s a, facts s a → facts' s a) :
    Silent bounded silent p facts' := by
  intro s a s' hs hok
  obtain ⟨hs', hquiet⟩ := hp s a s' hs hok
  refine ⟨hs', fun hsilent => ?_⟩
  obtain ⟨heq, hfacts⟩ := hquiet hsilent
  exact ⟨heq, h s a hfacts⟩

theorem silent_forM {xs : List α} {body : α → Exec ε σ Unit} {facts : α → σ → Prop}
    (h : ∀ x ∈ xs, Silent bounded silent (body x) fun s _ => facts x s) :
    Silent bounded silent (xs.forM body) fun s _ => ∀ x ∈ xs, facts x s := by
  induction xs with
  | nil => exact silent_pure fun s x hx => absurd hx List.not_mem_nil
  | cons x xs ih =>
      rw [forM_cons]
      refine Silent.weaken ((h x List.mem_cons_self).bind fun _ =>
        ih fun y hy => h y (List.mem_cons_of_mem _ hy)) ?_
      rintro s a ⟨_, hx, hxs⟩
      exact List.forall_mem_cons.mpr ⟨hx, hxs⟩

theorem silent_foldlM {xs : List α} {body : β → α → Exec ε σ β} {init : β} {facts : α → σ → Prop}
    (h : ∀ acc, ∀ x ∈ xs, Silent bounded silent (body acc x) fun s _ => facts x s) :
    Silent bounded silent (xs.foldlM body init) fun s _ => ∀ x ∈ xs, facts x s := by
  induction xs generalizing init with
  | nil => exact silent_pure fun s x hx => absurd hx List.not_mem_nil
  | cons x xs ih =>
      rw [List.foldlM_cons]
      refine Silent.weaken ((h init x List.mem_cons_self).bind fun _ =>
        ih fun acc y hy => h acc y (List.mem_cons_of_mem _ hy)) ?_
      rintro s a ⟨_, hx, hxs⟩
      exact List.forall_mem_cons.mpr ⟨hx, hxs⟩

end Silent

end Exec

end Chainring

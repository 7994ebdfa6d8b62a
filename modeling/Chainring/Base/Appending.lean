import Chainring.Base.Exec

/-! Computations that append to a list. What they return and append does not depend on what was there before; where
a condition on their input fails they panic. Those that count what they append return the length of it, or miss some
of it. -/

namespace Chainring.Exec

variable {ε α β γ : Type}

/-- On the condition, the computation returns the value and appends the items, and otherwise it panics. -/
structure Appends (fits : Prop) (p : Exec ε (List γ) α) (value : α) (items : List γ) : Prop where
  returns : fits → ∀ data, p.run data = .ok value (data ++ items)
  panics : ¬fits → ∀ data, p.run data = .panic

/-- What is appended is counted in full. -/
abbrev Counts (fits : Prop) (p : Exec ε (List γ) Nat) (items : List γ) : Prop := Appends fits p items.length items

/-- Whatever the computation appends, it counts all of it but `missed` items. -/
def CountsAllBut (missed : Nat) (p : Exec ε (List γ) Nat) : Prop :=
  ∀ data count data', p.run data = .ok count data' →
    ∃ appended, data' = data ++ appended ∧ count + missed = appended.length

section Appends

variable {fits fits' : Prop} {p : Exec ε (List γ) α} {f : α → Exec ε (List γ) β} {a : α} {b : β} {xs ys : List γ}

theorem appends_pure : Appends True (pure a : Exec ε (List γ) α) a [] where
  returns := fun _ data => by
    rw [List.append_nil]
    rfl
  panics := fun h => absurd trivial h

theorem appends_modify : Appends True (modify fun data => .ok (data ++ xs) : Exec ε (List γ) Unit) () xs where
  returns := fun _ _ => rfl
  panics := fun h => absurd trivial h

theorem appends_panic (hfits : ¬fits) :
    Appends fits (query fun _ => .error .panic : Exec ε (List γ) α) a xs where
  returns := fun h => absurd h hfits
  panics := fun _ _ => rfl

/-- Both parts have to fit. -/
theorem Appends.bind (h : Appends fits p a xs) (h' : Appends fits' (f a) b ys) :
    Appends (fits ∧ fits') (p >>= f) b (xs ++ ys) where
  returns := by
    rintro ⟨hfits, hfits'⟩ data
    rw [run_bind_of_ok (h.returns hfits data), h'.returns hfits', List.append_assoc]
  panics := by
    intro hnot data
    by_cases hfits : fits
    · rw [run_bind_of_ok (h.returns hfits data), h'.panics fun hfits' => hnot ⟨hfits, hfits'⟩]
    · exact run_bind_of_panic (h.panics hfits data)

theorem Appends.imp (h : Appends fits p a xs) (hfits : fits ↔ fits') : Appends fits' p a xs where
  returns := fun hholds => h.returns (hfits.mpr hholds)
  panics := fun hnot => h.panics fun hholds => hnot (hfits.mp hholds)

theorem Appends.congr {a' : α} (h : Appends fits p a xs) (hxs : xs = ys) (ha : a = a') : Appends fits p a' ys := by
  subst hxs ha
  exact h

/-- A part that always fits leaves the condition to the rest. -/
theorem Appends.next (h : Appends True p a xs) (h' : Appends fits (f a) b ys) :
    Appends fits (p >>= f) b (xs ++ ys) :=
  (h.bind h').imp (and_iff_right trivial)

theorem Appends.last (h : Appends fits p a xs) (g : α → β) :
    Appends fits (p >>= fun value => pure (g value)) (g a) xs := by
  have hlast := (h.bind (f := fun value => pure (g value)) appends_pure).imp (and_iff_left trivial)
  rw [List.append_nil] at hlast
  exact hlast

end Appends

/-! ### Counting -/

section Counts

variable {fits : Prop} {p : Exec ε (List γ) Nat} {count missed : Nat} {xs ys : List γ}

theorem Appends.counts (h : Appends fits p count xs) (hxs : xs = ys) (hcount : count = ys.length) :
    Counts fits p ys :=
  h.congr hxs hcount

theorem Appends.countsAllBut (h : Appends fits p count xs) (hcount : fits → count + missed = xs.length) :
    CountsAllBut missed p := by
  intro data returned data' hrun
  by_cases hfits : fits
  · obtain ⟨rfl, rfl⟩ := Outcome.ok.inj ((h.returns hfits data).symm.trans hrun)
    exact ⟨xs, rfl, hcount hfits⟩
  · rw [h.panics hfits data] at hrun
    cases hrun

theorem Appends.countsAll (h : Counts fits p xs) : CountsAllBut 0 p := h.countsAllBut fun _ => Nat.add_zero _

/-- A full count is one that misses nothing. -/
theorem CountsAllBut.exact_iff (h : CountsAllBut missed p) {data data' : List γ}
    (hrun : p.run data = .ok count data') :
    (∃ appended, data' = data ++ appended ∧ count = appended.length) ↔ missed = 0 := by
  obtain ⟨appended, rfl, hcount⟩ := h data count data' hrun
  constructor
  · rintro ⟨appended', happended, hcount'⟩
    obtain rfl := List.append_cancel_left happended
    omega
  · rintro rfl
    exact ⟨appended, rfl, hcount⟩

end Counts

/-- A loop that adds up counts. -/
theorem appends_foldlM {items : List α} {write : α → Exec ε (List γ) Nat} {fits : α → Prop} {count : α → Nat}
    {image : α → List γ} (h : ∀ item ∈ items, Appends (fits item) (write item) (count item) (image item))
    (counted : Nat) :
    Appends (∀ item ∈ items, fits item)
      (items.foldlM (fun counted item => do let n ← write item; pure (counted + n)) counted)
      (counted + (items.map count).sum) (items.flatMap image) := by
  induction items generalizing counted with
  | nil => exact appends_pure.imp (iff_of_true trivial fun _ hmem => absurd hmem List.not_mem_nil)
  | cons item items ih =>
      obtain ⟨hitem, hitems⟩ := List.forall_mem_cons.mp h
      rw [List.foldlM_cons, List.flatMap_cons, List.map_cons, List.sum_cons, ← Nat.add_assoc]
      exact ((hitem.last _).bind (ih hitems _)).imp List.forall_mem_cons.symm

/-- A loop over parts that are counted in full. -/
theorem counts_foldlM {write : α → Exec ε (List γ) Nat} {fits : α → Prop} {image : α → List γ}
    (h : ∀ item, Counts (fits item) (write item) (image item)) (items : List α) (counted : Nat) :
    Appends (∀ item ∈ items, fits item)
      (items.foldlM (fun counted item => do let n ← write item; pure (counted + n)) counted)
      (counted + (items.flatMap image).length) (items.flatMap image) := by
  rw [List.length_flatMap]
  exact appends_foldlM (fun item _ => h item) counted

end Chainring.Exec

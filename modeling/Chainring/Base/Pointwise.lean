import Mathlib.Data.List.Forall2

/-! Lists that are related item by item: the partner of an item, the last items, and when one list determines the
other. -/

namespace Chainring

variable {α β : Type} {R S : α → β → Prop} {xs : List α} {ys zs : List β}

theorem getElem?_of_forall₂ (h : List.Forall₂ R xs ys) {i : Nat} {x : α} (hx : xs[i]? = some x) :
    ∃ y, ys[i]? = some y ∧ R x y := by
  induction h generalizing i with
  | nil => cases hx
  | cons hfirst _ ih =>
      cases i with
      | zero =>
          obtain rfl := Option.some.inj hx
          exact ⟨_, rfl, hfirst⟩
      | succ i => exact ih hx

theorem exists_of_forall₂ (h : List.Forall₂ R xs ys) {x : α} (hx : x ∈ xs) : ∃ y, R x y := by
  obtain ⟨i, hi⟩ := List.mem_iff_getElem?.mp hx
  obtain ⟨y, -, hxy⟩ := getElem?_of_forall₂ h hi
  exact ⟨y, hxy⟩

theorem forall₂_concat {y : β} (h : List.Forall₂ R xs (ys ++ [y])) :
    ∃ xs' x, xs = xs' ++ [x] ∧ List.Forall₂ R xs' ys ∧ R x y := by
  have hfirst := List.forall₂_take_append _ _ _ h
  have hlast := List.forall₂_drop_append _ _ _ h
  obtain ⟨x, hdrop⟩ := List.length_eq_one_iff.mp hlast.length_eq
  rw [hdrop, List.forall₂_cons] at hlast
  exact ⟨_, x, by rw [← hdrop, List.take_append_drop], hfirst, hlast.1⟩

/-- Where the second relation allows no other partner than the first, the partners are the same. -/
theorem forall₂_unique (h : ∀ x ∈ xs, ∀ y z, R x y → S x z → z = y) (hR : List.Forall₂ R xs ys)
    (hS : List.Forall₂ S xs zs) : zs = ys := by
  induction hR generalizing zs with
  | nil =>
      cases hS
      rfl
  | cons hxy _ ih =>
      cases hS with
      | cons hxz hS =>
          rw [h _ List.mem_cons_self _ _ hxy hxz, ih (fun x hx => h x (List.mem_cons_of_mem _ hx)) hS]

/-- A loop whose items all succeed gives one result for each. -/
theorem mapM_forall₂ {ε : Type} {f : α → Except ε β} (h : ∀ x ∈ xs, ∃ y, f x = .ok y ∧ R x y) :
    ∃ ys, xs.mapM f = .ok ys ∧ List.Forall₂ R xs ys := by
  induction xs with
  | nil => exact ⟨[], rfl, .nil⟩
  | cons x xs ih =>
      obtain ⟨hx, hxs⟩ := List.forall_mem_cons.mp h
      obtain ⟨y, hy, hR⟩ := hx
      obtain ⟨ys, hys, hRs⟩ := ih hxs
      refine ⟨y :: ys, ?_, .cons hR hRs⟩
      rw [List.mapM_cons, hy, hys]
      rfl

end Chainring

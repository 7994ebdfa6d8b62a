import Mathlib.Algebra.BigOperators.Group.List.Basic
import Mathlib.Algebra.GroupWithZero.Nat
import Mathlib.Data.List.Induction
import Mathlib.Logic.Function.Basic

/-! Requests for amounts of several items, served one after the other from a supply. A request for 0 is for all
that remains of its item. Items do not touch each other, so a stable sort by item changes nothing; and every
request gets its own amount exactly when those for 0 find nothing left. -/

namespace Chainring.Allocation

structure Request (I O : Type) where
  item : I
  amount : Nat
  output : O

/-- What remains of each item, and what each output holds of it. -/
@[ext] structure Holdings (I O : Type) where
  remaining : I → Nat
  held : O → I → Nat

/-- What a request gets when this much remains of its item. -/
def Request.share {I O : Type} (request : Request I O) (remaining : Nat) : Nat :=
  if request.amount = 0 then remaining else min request.amount remaining

variable {I O : Type} [DecidableEq I] [DecidableEq O]

def serve (holdings : Holdings I O) (request : Request I O) : Holdings I O where
  remaining := Function.update holdings.remaining request.item
    (holdings.remaining request.item - request.share (holdings.remaining request.item))
  held := fun output item =>
    if output = request.output ∧ item = request.item then
      holdings.held output item + request.share (holdings.remaining item)
    else holdings.held output item

/-- The requests served in order, from outputs that hold nothing. -/
def process (supply : I → Nat) (requests : List (Request I O)) : Holdings I O :=
  requests.foldl serve { remaining := supply, held := fun _ _ => 0 }

/-- The amounts of an item that are asked for. -/
def total {O : Type} (requests : List (Request I O)) (item : I) : Nat :=
  ((requests.filter (·.item = item)).map Request.amount).sum

variable {supply : I → Nat} {requests requests' : List (Request I O)}

theorem process_append : process supply (requests ++ requests') = requests'.foldl serve (process supply requests) :=
  List.foldl_append

/-! ### Items apart -/

/-- The same of one item remains and is held. -/
def AgreeAt (item : I) (holdings holdings' : Holdings I O) : Prop :=
  holdings.remaining item = holdings'.remaining item ∧
    ∀ output, holdings.held output item = holdings'.held output item

section Items

variable {item : I} {holdings holdings' : Holdings I O} {request : Request I O}

theorem AgreeAt.refl {I O : Type} (item : I) (holdings : Holdings I O) : AgreeAt item holdings holdings :=
  ⟨rfl, fun _ => rfl⟩

theorem AgreeAt.serve (h : AgreeAt item holdings holdings') (request : Request I O) :
    AgreeAt item (serve holdings request) (serve holdings' request) := by
  obtain ⟨hremaining, hheld⟩ := h
  constructor
  · by_cases hitem : item = request.item
    · subst hitem
      simp only [Allocation.serve, Function.update_self, hremaining]
    · simp only [Allocation.serve, Function.update_of_ne hitem, hremaining]
  · intro output
    simp only [Allocation.serve, hremaining, hheld]

theorem serve_agreeAt (hitem : request.item ≠ item) (holdings : Holdings I O) :
    AgreeAt item (serve holdings request) holdings := by
  constructor
  · exact Function.update_of_ne hitem.symm _ _
  · intro output
    exact if_neg fun hboth => hitem hboth.2.symm

/-- What happens to an item depends only on the requests for it. -/
theorem foldl_filter_agreeAt (h : AgreeAt item holdings holdings') (requests : List (Request I O)) :
    AgreeAt item (requests.foldl serve holdings) ((requests.filter (·.item = item)).foldl serve holdings') := by
  induction requests generalizing holdings holdings' with
  | nil => exact h
  | cons request requests ih =>
      rw [List.foldl_cons]
      by_cases hitem : request.item = item
      · rw [List.filter_cons_of_pos (by simp [hitem]), List.foldl_cons]
        exact ih (h.serve request)
      · rw [List.filter_cons_of_neg (by simp [hitem])]
        apply ih
        obtain ⟨hremaining, hheld⟩ := serve_agreeAt hitem holdings
        exact ⟨hremaining.trans h.1, fun output => (hheld output).trans (h.2 output)⟩

theorem foldl_remaining_of_none (hnone : ∀ request ∈ requests, request.item ≠ item) (holdings : Holdings I O) :
    (requests.foldl serve holdings).remaining item = holdings.remaining item := by
  have hagree := foldl_filter_agreeAt (AgreeAt.refl item holdings) requests
  have hfilter : requests.filter (·.item = item) = [] := by
    apply List.filter_eq_nil_iff.mpr
    intro request hmem
    simpa using hnone request hmem
  rw [hfilter] at hagree
  exact hagree.1

/-- Requests that are the same for each item do the same. -/
theorem process_congr (h : ∀ item, requests.filter (·.item = item) = requests'.filter (·.item = item)) :
    process supply requests = process supply requests' := by
  have hagree : ∀ item, AgreeAt item (process supply requests) (process supply requests') := by
    intro item
    have hleft : AgreeAt item (process supply requests) (process supply (requests.filter (·.item = item))) :=
      foldl_filter_agreeAt (AgreeAt.refl item _) requests
    have hright : AgreeAt item (process supply requests') (process supply (requests'.filter (·.item = item))) :=
      foldl_filter_agreeAt (AgreeAt.refl item _) requests'
    rw [h item] at hleft
    exact ⟨hleft.1.trans hright.1.symm, fun output => (hleft.2 output).trans (hright.2 output).symm⟩
  ext output item
  · exact (hagree _).1
  · exact (hagree _).2 _

end Items

/-! ### Stable sorting -/

section Sorting

variable {le : I → I → Bool} (trans : ∀ a b c, le a b → le b c → le a c) (total : ∀ a b, le a b || le b a)

include trans total

/-- A stable sort by item keeps the requests for each item in their order. -/
theorem filter_mergeSort {O : Type} (requests : List (Request I O)) (item : I) :
    (requests.mergeSort fun a b => le a.item b.item).filter (·.item = item) = requests.filter (·.item = item) := by
  have hrefl : le item item := by simpa using total item item
  have hpairwise : (requests.filter (·.item = item)).Pairwise fun a b => le a.item b.item := by
    refine List.pairwise_of_forall_mem_list fun a ha b hb => ?_
    rw [of_decide_eq_true (List.mem_filter.mp ha).2, of_decide_eq_true (List.mem_filter.mp hb).2]
    exact hrefl
  have hsublist := (List.sublist_mergeSort (fun a b c => trans a.item b.item c.item)
    (fun a b => total a.item b.item) hpairwise List.filter_sublist).filter (·.item = item)
  rw [List.filter_filter, List.filter_congr fun request _ => Bool.and_self _] at hsublist
  have hlength := ((List.mergeSort_perm requests fun a b => le a.item b.item).filter (·.item = item)).length_eq
  exact (hsublist.eq_of_length hlength.symm).symm

theorem process_mergeSort (supply : I → Nat) (requests : List (Request I O)) :
    process supply (requests.mergeSort fun a b => le a.item b.item) = process supply requests :=
  process_congr (filter_mergeSort trans total requests)

end Sorting

/-! ### Positions of a list -/

/-- The property holds of each element and those before it. -/
def AtEach {α : Type} (P : List α → α → Prop) (xs : List α) : Prop :=
  ∀ before x after, xs = before ++ x :: after → P before x

theorem atEach_nil {α : Type} {P : List α → α → Prop} : AtEach P [] := by
  intro before x after h
  exact absurd h.symm (List.append_ne_nil_of_right_ne_nil _ (List.cons_ne_nil _ _))

theorem atEach_concat {α : Type} {P : List α → α → Prop} {xs : List α} {y : α} :
    AtEach P (xs ++ [y]) ↔ AtEach P xs ∧ P xs y := by
  constructor
  · intro h
    refine ⟨fun before x after hxs => h before x (after ++ [y]) ?_, h xs y [] rfl⟩
    rw [hxs, List.append_assoc, List.cons_append]
  · rintro ⟨hxs, hy⟩ before x after hsplit
    rcases List.eq_nil_or_concat after with rfl | ⟨after, last, rfl⟩
    · obtain ⟨rfl, hlast⟩ := List.append_inj' hsplit rfl
      rwa [← List.head_eq_of_cons_eq hlast]
    · rw [List.concat_eq_append, ← List.cons_append, ← List.append_assoc] at hsplit
      exact hxs before x after (List.append_inj' hsplit rfl).1

/-! ### Shares -/

/-- Every request finds its own amount. -/
def Exact (supply : I → Nat) : List (Request I O) → Prop :=
  AtEach fun before request => request.share ((process supply before).remaining request.item) = request.amount

/-- The requests for 0 find that those before them took everything of their item. -/
def Spent (supply : I → Nat) : List (Request I O) → Prop :=
  AtEach fun before request => request.amount = 0 → supply request.item = total before request.item

theorem total_concat {O : Type} (requests : List (Request I O)) (request : Request I O) (item : I) :
    total (requests ++ [request]) item = total requests item + if request.item = item then request.amount else 0 := by
  by_cases hitem : request.item = item <;> simp [total, List.filter_append, hitem]

theorem Exact.remaining (h : Exact supply requests) (item : I) :
    (process supply requests).remaining item = supply item - total requests item := by
  induction requests using List.reverseRecOn with
  | nil => rfl
  | append_singleton requests request ih =>
      obtain ⟨hbefore, hshare⟩ := atEach_concat.mp h
      rw [process_append, total_concat]
      show Function.update (process supply requests).remaining request.item
        ((process supply requests).remaining request.item -
          request.share ((process supply requests).remaining request.item)) item = _
      rw [hshare]
      by_cases hitem : item = request.item
      · subst hitem
        rw [Function.update_self, if_pos rfl, ih hbefore, Nat.sub_sub]
      · rw [Function.update_of_ne hitem, if_neg (Ne.symm hitem), Nat.add_zero]
        exact ih hbefore

/-- From a supply that covers them, requests get their amounts exactly when those for 0 find nothing left. -/
theorem exact_iff (hcovers : ∀ item, total requests item ≤ supply item) :
    Exact supply requests ↔ Spent supply requests := by
  induction requests using List.reverseRecOn with
  | nil => exact iff_of_true atEach_nil atEach_nil
  | append_singleton requests request ih =>
      have hbefore : ∀ item, total requests item ≤ supply item := by
        intro item
        have hitem := hcovers item
        rw [total_concat] at hitem
        omega
      have hitem := hcovers request.item
      rw [total_concat, if_pos rfl] at hitem
      rw [Exact, Spent, atEach_concat, atEach_concat, ← Exact, ← Spent, ← ih hbefore]
      apply and_congr_right
      intro hexact
      rw [hexact.remaining, Request.share]
      split <;> omega

/-! ### Outputs -/

section Outputs

variable {request : Request I O} {paid left : List (Request I O)}

theorem foldl_held_of_none {output : O} (hnone : ∀ request ∈ requests, request.output ≠ output)
    (holdings : Holdings I O) : (requests.foldl serve holdings).held output = holdings.held output := by
  induction requests generalizing holdings with
  | nil => rfl
  | cons request requests ih =>
      obtain ⟨hrequest, hrequests⟩ := List.forall_mem_cons.mp hnone
      rw [List.foldl_cons, ih hrequests]
      funext item
      exact if_neg fun hboth => hrequest hboth.1.symm

/-- An output that one request points at holds what that request gets. -/
theorem held_of_split (hdistinct : ((requests ++ request :: requests').map Request.output).Nodup) (item : I) :
    (process supply (requests ++ request :: requests')).held request.output item =
      if item = request.item then request.share ((process supply requests).remaining request.item) else 0 := by
  rw [List.map_append, List.map_cons, List.nodup_append, List.nodup_cons] at hdistinct
  obtain ⟨-, ⟨hafter, -⟩, hbefore⟩ := hdistinct
  have hnothing : (process supply requests).held request.output item = 0 := by
    rw [process, foldl_held_of_none]
    intro other hmem
    exact hbefore _ (List.mem_map_of_mem hmem) _ List.mem_cons_self
  rw [process_append, List.foldl_cons, foldl_held_of_none]
  · by_cases hitem : item = request.item
    · subst hitem
      simp [serve, hnothing]
    · simp [serve, hnothing, hitem]
  · intro other hmem heq
    exact hafter (heq ▸ List.mem_map_of_mem hmem)

/-- The outputs of the first requests hold their amounts and nothing else, whatever is asked for after them, exactly
when those for 0 find nothing left. -/
theorem delivers_iff (hdistinct : ((paid ++ left).map Request.output).Nodup)
    (hcovers : ∀ item, total paid item ≤ supply item) :
    (∀ request ∈ paid, ∀ item, (process supply (paid ++ left)).held request.output item =
      if item = request.item then request.amount else 0) ↔ Spent supply paid := by
  rw [← exact_iff hcovers]
  have hheld : ∀ before request after, paid = before ++ request :: after → ∀ item,
      (process supply (paid ++ left)).held request.output item =
        if item = request.item then request.share ((process supply before).remaining request.item) else 0 := by
    rintro before request after rfl item
    rw [List.append_assoc, List.cons_append] at hdistinct ⊢
    exact held_of_split hdistinct item
  constructor
  · intro hdelivers before request after hsplit
    have hamount := hdelivers request (hsplit ▸ List.mem_append_right _ List.mem_cons_self) request.item
    rw [hheld before request after hsplit, if_pos rfl, if_pos rfl] at hamount
    exact hamount
  · intro hexact request hmem item
    obtain ⟨before, after, hsplit⟩ := List.append_of_mem hmem
    rw [hheld before request after hsplit, hexact before request after hsplit]

/-- Requests for 0 that come last, one for each item, get what the amounts before them leave. -/
theorem left_held (hdistinct : ((paid ++ left).map Request.output).Nodup) (hexact : Exact supply paid)
    (hitems : (left.map Request.item).Nodup) (hall : ∀ request ∈ left, request.amount = 0) (hmem : request ∈ left)
    (item : I) : (process supply (paid ++ left)).held request.output item =
      if item = request.item then supply item - total paid item else 0 := by
  obtain ⟨before, after, rfl⟩ := List.append_of_mem hmem
  rw [List.map_append, List.map_cons, List.nodup_append] at hitems
  have hbefore : ∀ other ∈ before, other.item ≠ request.item := fun other hother =>
    hitems.2.2 _ (List.mem_map_of_mem hother) _ List.mem_cons_self
  rw [← List.append_assoc] at hdistinct ⊢
  rw [held_of_split hdistinct, process_append, foldl_remaining_of_none hbefore, Request.share,
    if_pos (hall request hmem), hexact.remaining]
  by_cases hitem : item = request.item
  · rw [hitem]
  · rw [if_neg hitem, if_neg hitem]

end Outputs

end Chainring.Allocation

import Chainring.Base.CheckedWord
import Mathlib.Algebra.BigOperators.Group.Finset.Basic
import Mathlib.Algebra.BigOperators.Ring.Finset
import Mathlib.Algebra.Order.BigOperators.Group.Finset
import Mathlib.Data.Fintype.BigOperators

/-! A ledger of word-sized registers posted one entry at a time. A debit is refused when it exceeds
the register; a credit past the word either wraps or is refused. What a whole posting does to one
register, and to the sum over a set of registers, is read off the totals of its entries and the
number of times a credit wrapped. -/

namespace Chainring.Ledger

open CheckedWord (bind_eq_ok)

/-- What a register does with a credit past the word. -/
inductive Overflow where
  | wraps
  | reverts
  deriving DecidableEq

inductive Entry (S : Type) where
  | credit (slot : S) (amount : Nat)
  | debit (slot : S) (amount : Nat)
  deriving DecidableEq

variable {S : Type} [DecidableEq S] (overflow : Overflow) (modulus : Nat)

/-- One entry on the registers `balance`; `none` is a refusal. -/
def post (balance : S → Nat) : Entry S → Option (S → Nat)
  | .credit slot amount =>
      match overflow with
      | .wraps => some (Function.update balance slot ((balance slot + amount) % modulus))
      | .reverts =>
          if balance slot + amount < modulus then
            some (Function.update balance slot (balance slot + amount))
          else none
  | .debit slot amount =>
      if amount ≤ balance slot then some (Function.update balance slot (balance slot - amount))
      else none

def run (balance : S → Nat) : List (Entry S) → Option (S → Nat)
  | [] => some balance
  | entry :: entries => (post overflow modulus balance entry).bind fun next => run next entries

/-- What one entry credits to a register. -/
def Entry.creditTo (slot : S) : Entry S → Nat
  | .credit slot' amount => if slot' = slot then amount else 0
  | .debit _ _ => 0

/-- What one entry debits from a register. -/
def Entry.debitTo (slot : S) : Entry S → Nat
  | .credit _ _ => 0
  | .debit slot' amount => if slot' = slot then amount else 0

def credited (entries : List (Entry S)) (slot : S) : Nat := (entries.map (Entry.creditTo slot)).sum

def debited (entries : List (Entry S)) (slot : S) : Nat := (entries.map (Entry.debitTo slot)).sum

/-- How often the credits of a register went past the word, from its opening balance and the totals. -/
def overflows (balance : S → Nat) (entries : List (Entry S)) (slot : S) : Nat :=
  (balance slot + credited entries slot - debited entries slot) / modulus

/-- The balance of a register once the entries are posted, from the totals. -/
def standing (balance : S → Nat) (entries : List (Entry S)) (slot : S) : Nat :=
  (balance slot + credited entries slot - debited entries slot) % modulus

/-! ### Totals of entry lists -/

@[simp] theorem credited_nil (slot : S) : credited ([] : List (Entry S)) slot = 0 := rfl

@[simp] theorem debited_nil (slot : S) : debited ([] : List (Entry S)) slot = 0 := rfl

theorem credited_cons (entry : Entry S) (entries : List (Entry S)) (slot : S) :
    credited (entry :: entries) slot = entry.creditTo slot + credited entries slot := rfl

theorem debited_cons (entry : Entry S) (entries : List (Entry S)) (slot : S) :
    debited (entry :: entries) slot = entry.debitTo slot + debited entries slot := rfl

theorem credited_append (first second : List (Entry S)) (slot : S) :
    credited (first ++ second) slot = credited first slot + credited second slot := by
  simp [credited]

theorem debited_append (first second : List (Entry S)) (slot : S) :
    debited (first ++ second) slot = debited first slot + debited second slot := by
  simp [debited]

theorem credited_eq_zero {entries : List (Entry S)} {slot : S} (h : ∀ entry ∈ entries, entry.creditTo slot = 0) :
    credited entries slot = 0 := by
  apply List.sum_eq_zero
  simpa using h

theorem debited_eq_zero {entries : List (Entry S)} {slot : S} (h : ∀ entry ∈ entries, entry.debitTo slot = 0) :
    debited entries slot = 0 := by
  apply List.sum_eq_zero
  simpa using h

/-- What one entry credits to a set of registers. -/
def Entry.creditIn (slots : Finset S) : Entry S → Nat
  | .credit slot amount => if slot ∈ slots then amount else 0
  | .debit _ _ => 0

def Entry.debitIn (slots : Finset S) : Entry S → Nat
  | .credit _ _ => 0
  | .debit slot amount => if slot ∈ slots then amount else 0

theorem sum_creditTo (slots : Finset S) (entry : Entry S) :
    ∑ slot ∈ slots, entry.creditTo slot = entry.creditIn slots := by
  cases entry <;> simp [Entry.creditTo, Entry.creditIn]

theorem sum_debitTo (slots : Finset S) (entry : Entry S) :
    ∑ slot ∈ slots, entry.debitTo slot = entry.debitIn slots := by
  cases entry <;> simp [Entry.debitTo, Entry.debitIn]

theorem sum_credited (slots : Finset S) (entries : List (Entry S)) :
    ∑ slot ∈ slots, credited entries slot = (entries.map (Entry.creditIn slots)).sum := by
  induction entries with
  | nil => simp
  | cons entry entries ih =>
      simp only [credited_cons, Finset.sum_add_distrib, ih, sum_creditTo, List.map_cons,
        List.sum_cons]

theorem sum_debited (slots : Finset S) (entries : List (Entry S)) :
    ∑ slot ∈ slots, debited entries slot = (entries.map (Entry.debitIn slots)).sum := by
  induction entries with
  | nil => simp
  | cons entry entries ih =>
      simp only [debited_cons, Finset.sum_add_distrib, ih, sum_debitTo, List.map_cons,
        List.sum_cons]

omit [DecidableEq S] in
theorem sum_map_flatMap {α : Type} (amount : Entry S → Nat) (entriesOf : α → List (Entry S))
    (items : List α) :
    ((items.flatMap entriesOf).map amount).sum =
      (items.map fun item => ((entriesOf item).map amount).sum).sum := by
  rw [List.map_flatMap, List.flatMap_def, List.sum_flatten, List.map_map]
  rfl

/-- Amounts that are charged each to a position of their own add up to no more than what stands there. -/
theorem sum_le_sum_of_charge {n : Nat} {charged amount : Nat → Nat} {source : Nat → Nat}
    (hsource : ∀ k < n, charged k ≠ 0 → source k < n ∧ charged k ≤ amount (source k))
    (hinj : ∀ k < n, ∀ k' < n, charged k ≠ 0 → charged k' ≠ 0 → source k = source k' → k = k') :
    ∑ k ∈ Finset.range n, charged k ≤ ∑ k ∈ Finset.range n, amount k := by
  have hmem : ∀ k, k ∈ (Finset.range n).filter (charged · ≠ 0) ↔ k < n ∧ charged k ≠ 0 := by simp
  calc ∑ k ∈ Finset.range n, charged k
      = ∑ k ∈ (Finset.range n).filter (charged · ≠ 0), charged k := (Finset.sum_filter_ne_zero _).symm
    _ ≤ ∑ k ∈ (Finset.range n).filter (charged · ≠ 0), amount (source k) :=
        Finset.sum_le_sum fun k hk => (hsource k ((hmem k).mp hk).1 ((hmem k).mp hk).2).2
    _ = ∑ j ∈ ((Finset.range n).filter (charged · ≠ 0)).image source, amount j := by
        refine (Finset.sum_image fun k hk k' hk' heq => ?_).symm
        obtain ⟨hn, hne⟩ := (hmem k).mp hk
        obtain ⟨hn', hne'⟩ := (hmem k').mp hk'
        exact hinj k hn k' hn' hne hne' heq
    _ ≤ ∑ k ∈ Finset.range n, amount k := by
        apply Finset.sum_le_sum_of_subset
        intro j hj
        obtain ⟨k, hk, rfl⟩ := Finset.mem_image.mp hj
        exact Finset.mem_range.mpr (hsource k ((hmem k).mp hk).1 ((hmem k).mp hk).2).1

/-! ### One posting -/

theorem run_append (balance : S → Nat) (first second : List (Entry S)) :
    run overflow modulus balance (first ++ second) =
      (run overflow modulus balance first).bind fun next => run overflow modulus next second := by
  induction first generalizing balance with
  | nil => rfl
  | cons entry entries ih =>
      simp only [List.cons_append, run, Option.bind_assoc]
      exact congrArg _ (funext fun next => ih next)

/-- One entry moves its register by its amount, up to whole words lost in wrapping. -/
theorem post_balance {balance next : S → Nat} {entry : Entry S}
    (h : post overflow modulus balance entry = some next) (slot : S) :
    ∃ lost, balance slot + entry.creditTo slot =
      next slot + entry.debitTo slot + modulus * lost ∧ (overflow = .reverts → lost = 0) := by
  cases entry with
  | credit target amount =>
      by_cases hslot : target = slot
      · subst hslot
        cases overflow with
        | wraps =>
            obtain rfl := Option.some.inj h
            refine ⟨(balance target + amount) / modulus, ?_, by simp⟩
            simp only [Entry.creditTo, Entry.debitTo, if_true, Function.update_self, Nat.add_zero]
            exact (Nat.mod_add_div _ _).symm
        | reverts =>
            simp only [post] at h
            split at h
            · obtain rfl := Option.some.inj h
              exact ⟨0, by simp [Entry.creditTo, Entry.debitTo], by simp⟩
            · cases h
      · refine ⟨0, ?_, by simp⟩
        have hne : slot ≠ target := fun h => hslot h.symm
        cases overflow with
        | wraps =>
            obtain rfl := Option.some.inj h
            simp [Entry.creditTo, Entry.debitTo, hslot, Function.update_of_ne hne]
        | reverts =>
            simp only [post] at h
            split at h
            · obtain rfl := Option.some.inj h
              simp [Entry.creditTo, Entry.debitTo, hslot, Function.update_of_ne hne]
            · cases h
  | debit target amount =>
      refine ⟨0, ?_, by simp⟩
      simp only [post] at h
      split at h
      · next hle =>
          obtain rfl := Option.some.inj h
          by_cases hslot : target = slot
          · subst hslot
            simp only [Entry.creditTo, Entry.debitTo, if_true, Function.update_self]
            omega
          · have hne : slot ≠ target := fun h => hslot h.symm
            simp [Entry.creditTo, Entry.debitTo, hslot, Function.update_of_ne hne]
      · cases h

theorem post_lt {balance next : S → Nat} {entry : Entry S} (hpos : 0 < modulus)
    (hb : ∀ slot, balance slot < modulus) (h : post overflow modulus balance entry = some next) :
    ∀ slot, next slot < modulus := by
  intro slot
  cases entry with
  | credit target amount =>
      cases overflow with
      | wraps =>
          obtain rfl := Option.some.inj h
          by_cases hslot : slot = target
          · subst hslot
            simp only [Function.update_self]
            exact Nat.mod_lt _ hpos
          · simpa only [Function.update_of_ne hslot] using hb slot
      | reverts =>
          simp only [post] at h
          split at h
          · next hlt =>
              obtain rfl := Option.some.inj h
              by_cases hslot : slot = target
              · subst hslot
                simpa only [Function.update_self] using hlt
              · simpa only [Function.update_of_ne hslot] using hb slot
          · cases h
  | debit target amount =>
      simp only [post] at h
      split at h
      · obtain rfl := Option.some.inj h
        by_cases hslot : slot = target
        · subst hslot
          simp only [Function.update_self]
          exact Nat.lt_of_le_of_lt (Nat.sub_le _ _) (hb slot)
        · simpa only [Function.update_of_ne hslot] using hb slot
      · cases h

theorem isSome_post_credit {balance : S → Nat} {slot : S} {amount : Nat} :
    (post .reverts modulus balance (.credit slot amount)).isSome ↔ balance slot + amount < modulus := by
  by_cases h : balance slot + amount < modulus <;> simp [post, h]

theorem isSome_post_debit {balance : S → Nat} {slot : S} {amount : Nat} :
    (post overflow modulus balance (.debit slot amount)).isSome ↔ amount ≤ balance slot := by
  by_cases h : amount ≤ balance slot <;> simp [post, h]

theorem run_singleton (balance : S → Nat) (entry : Entry S) :
    run overflow modulus balance [entry] = post overflow modulus balance entry := by
  cases h : post overflow modulus balance entry <;> simp [run, h]

/-! ### A whole posting -/

theorem run_lt {balance final : S → Nat} {entries : List (Entry S)} (hpos : 0 < modulus)
    (hb : ∀ slot, balance slot < modulus) (h : run overflow modulus balance entries = some final) :
    ∀ slot, final slot < modulus := by
  induction entries generalizing balance with
  | nil =>
      obtain rfl := Option.some.inj h
      exact hb
  | cons entry entries ih =>
      obtain ⟨next, hpost, hrun⟩ := Option.bind_eq_some_iff.mp h
      exact ih (post_lt overflow modulus hpos hb hpost) hrun

theorem run_balance {balance final : S → Nat} {entries : List (Entry S)}
    (h : run overflow modulus balance entries = some final) (slot : S) :
    ∃ lost, balance slot + credited entries slot =
      final slot + debited entries slot + modulus * lost ∧ (overflow = .reverts → lost = 0) := by
  induction entries generalizing balance with
  | nil =>
      obtain rfl := Option.some.inj h
      exact ⟨0, by simp, fun _ => rfl⟩
  | cons entry entries ih =>
      obtain ⟨next, hpost, hrun⟩ := Option.bind_eq_some_iff.mp h
      obtain ⟨first, hfirst, hfirst0⟩ := post_balance overflow modulus hpost slot
      obtain ⟨rest, hrest, hrest0⟩ := ih hrun
      refine ⟨first + rest, ?_, fun ho => by rw [hfirst0 ho, hrest0 ho]⟩
      rw [credited_cons, debited_cons, Nat.mul_add]
      omega

/-- The number of lost words and the final balance are the quotient and the remainder of the
opening balance plus credits less debits. -/
theorem run_standing {balance final : S → Nat} {entries : List (Entry S)} (hpos : 0 < modulus)
    (hb : ∀ slot, balance slot < modulus) (h : run overflow modulus balance entries = some final)
    (slot : S) :
    final slot = standing modulus balance entries slot ∧
      balance slot + credited entries slot =
        final slot + debited entries slot + modulus * overflows modulus balance entries slot := by
  obtain ⟨lost, hlost, -⟩ := run_balance overflow modulus h slot
  have hlt := run_lt overflow modulus hpos hb h slot
  have hnet : balance slot + credited entries slot - debited entries slot =
      final slot + modulus * lost := by omega
  have hdiv : (final slot + modulus * lost) / modulus = lost := by
    rw [Nat.add_mul_div_left _ _ hpos, Nat.div_eq_of_lt hlt, Nat.zero_add]
  have hmod : (final slot + modulus * lost) % modulus = final slot := by
    rw [Nat.add_mul_mod_self_left, Nat.mod_eq_of_lt hlt]
  refine ⟨by rw [standing, hnet, hmod], ?_⟩
  rw [overflows, hnet, hdiv]
  exact hlost

/-- The sum over a set of registers moves by the credits less the debits of the set, up to the
words its registers lost. -/
theorem run_sum {balance final : S → Nat} {entries : List (Entry S)} (hpos : 0 < modulus)
    (hb : ∀ slot, balance slot < modulus) (h : run overflow modulus balance entries = some final)
    (slots : Finset S) :
    ∑ slot ∈ slots, balance slot + (entries.map (Entry.creditIn slots)).sum =
      ∑ slot ∈ slots, final slot + (entries.map (Entry.debitIn slots)).sum +
        modulus * ∑ slot ∈ slots, overflows modulus balance entries slot := by
  rw [← sum_credited, ← sum_debited, Finset.mul_sum, ← Finset.sum_add_distrib,
    ← Finset.sum_add_distrib, ← Finset.sum_add_distrib]
  exact Finset.sum_congr rfl fun slot _ => (run_standing overflow modulus hpos hb h slot).2

/-- Where no credit can wrap the sum over a set moves by exactly the credits less the debits. -/
theorem run_sum_reverts {balance final : S → Nat} {entries : List (Entry S)}
    (h : run .reverts modulus balance entries = some final) (slots : Finset S) :
    ∑ slot ∈ slots, balance slot + (entries.map (Entry.creditIn slots)).sum =
      ∑ slot ∈ slots, final slot + (entries.map (Entry.debitIn slots)).sum := by
  rw [← sum_credited, ← sum_debited, ← Finset.sum_add_distrib, ← Finset.sum_add_distrib]
  refine Finset.sum_congr rfl fun slot _ => ?_
  obtain ⟨lost, hlost, hzero⟩ := run_balance .reverts modulus h slot
  rw [hzero rfl, Nat.mul_zero, Nat.add_zero] at hlost
  exact hlost

/-- A loop posts what its iterations post, one after the other. -/
theorem run_of_foldlM {ε σ α : Type} {balance : σ → S → Nat} {entriesOf : α → List (Entry S)}
    {body : σ → α → Except ε σ}
    (hbody : ∀ state item next, body state item = .ok next →
      run overflow modulus (balance state) (entriesOf item) = some (balance next))
    {items : List α} {start final : σ} (h : items.foldlM body start = .ok final) :
    run overflow modulus (balance start) (items.flatMap entriesOf) = some (balance final) := by
  induction items generalizing start with
  | nil =>
      cases h
      rfl
  | cons item items ih =>
      rw [List.foldlM_cons] at h
      obtain ⟨next, hnext, hrest⟩ := bind_eq_ok.mp h
      rw [List.flatMap_cons, run_append, hbody start item next hnext]
      exact ih hrest

/-! ### When a posting goes through -/

/-- Every debit is covered by the opening balance and the entries before it. -/
def Covered (balance : S → Nat) (entries : List (Entry S)) : Prop :=
  ∀ before slot amount after, entries = before ++ .debit slot amount :: after →
    amount ≤ standing modulus balance before slot

/-- No credit takes a register past the word, after the entries before it. -/
def Fits (balance : S → Nat) (entries : List (Entry S)) : Prop :=
  ∀ before slot amount after, entries = before ++ .credit slot amount :: after →
    standing modulus balance before slot + amount < modulus

theorem credited_le_append (before : List (Entry S)) (entry : Entry S) (after : List (Entry S)) (slot : S) :
    credited before slot + entry.creditTo slot ≤ credited (before ++ entry :: after) slot := by
  rw [credited_append, credited_cons]
  omega

/-- Credits fit when even without any debit they all do. -/
theorem fits_of_credited {balance : S → Nat} {entries : List (Entry S)}
    (h : ∀ slot, balance slot + credited entries slot < modulus) : Fits modulus balance entries := by
  rintro before slot amount after rfl
  have hcredit := credited_le_append before (.credit slot amount) after slot
  have hstanding : standing modulus balance before slot ≤ balance slot + credited before slot :=
    Nat.le_trans (Nat.mod_le _ _) (Nat.sub_le _ _)
  have hslot := h slot
  rw [Entry.creditTo, if_pos rfl] at hcredit
  omega

/-- A posting whose credits wrap or fit goes through exactly when its debits are covered. -/
theorem run_isSome_iff_covered {balance : S → Nat} {entries : List (Entry S)} (hpos : 0 < modulus)
    (hb : ∀ slot, balance slot < modulus) (hfits : overflow = .reverts → Fits modulus balance entries) :
    (run overflow modulus balance entries).isSome ↔ Covered modulus balance entries := by
  constructor
  · intro h before slot amount after hsplit
    subst hsplit
    rw [run_append, Option.isSome_bind] at h
    cases hbefore : run overflow modulus balance before with
    | none => simp [hbefore] at h
    | some next =>
        rw [← (run_standing overflow modulus hpos hb hbefore slot).1]
        by_contra hlt
        simp [hbefore, run, post, hlt] at h
  · intro h
    induction entries using List.reverseRecOn with
    | nil => rfl
    | append_singleton entries entry ih =>
        have hrest : Covered modulus balance entries := by
          intro before slot amount after hsplit
          exact h before slot amount (after ++ [entry]) (by rw [hsplit]; simp)
        have hfitsRest : overflow = .reverts → Fits modulus balance entries := by
          intro hreverts before slot amount after hsplit
          exact hfits hreverts before slot amount (after ++ [entry]) (by rw [hsplit]; simp)
        obtain ⟨next, hnext⟩ := Option.isSome_iff_exists.mp (ih hfitsRest hrest)
        have hstanding := run_standing overflow modulus hpos hb hnext
        rw [run_append, hnext]
        cases entry with
        | credit slot amount =>
            cases overflow with
            | wraps => simp [run, post]
            | reverts =>
                have hlt := hfits rfl entries slot amount [] rfl
                rw [← (hstanding slot).1] at hlt
                simp [run, post, hlt]
        | debit slot amount =>
            have hle := h entries slot amount [] rfl
            rw [← (hstanding slot).1] at hle
            simp [run, post, hle]

theorem isSome_append {balance : S → Nat} {first second : List (Entry S)} :
    (run overflow modulus balance (first ++ second)).isSome ↔
      ∃ middle, run overflow modulus balance first = some middle ∧
        (run overflow modulus middle second).isSome := by
  rw [run_append]
  cases run overflow modulus balance first with
  | none => simp
  | some middle => simp

/-- Without wrapping a posting goes through exactly when its debits are covered and its credits fit. -/
theorem run_reverts_isSome_iff {balance : S → Nat} {entries : List (Entry S)} (hpos : 0 < modulus)
    (hb : ∀ slot, balance slot < modulus) :
    (run .reverts modulus balance entries).isSome ↔
      Covered modulus balance entries ∧ Fits modulus balance entries := by
  constructor
  · intro h
    have hfits : Fits modulus balance entries := by
      rintro before slot amount after rfl
      obtain ⟨middle, hbefore, hrest⟩ := (isSome_append .reverts modulus).mp h
      rw [← (run_standing .reverts modulus hpos hb hbefore slot).1]
      by_contra hover
      simp [run, post, hover] at hrest
    exact ⟨(run_isSome_iff_covered .reverts modulus hpos hb fun _ => hfits).mp h, hfits⟩
  · rintro ⟨hcovered, hfits⟩
    exact (run_isSome_iff_covered .reverts modulus hpos hb fun _ => hfits).mpr hcovered

/-- With wrapping credits a posting goes through exactly when its debits are covered. -/
theorem run_isSome_iff {balance : S → Nat} {entries : List (Entry S)} (hpos : 0 < modulus)
    (hb : ∀ slot, balance slot < modulus) :
    (run .wraps modulus balance entries).isSome ↔ Covered modulus balance entries :=
  run_isSome_iff_covered .wraps modulus hpos hb fun h => nomatch h

/-- Two computations in a row go through exactly when both are ready and all their entries go through. -/
theorem bind_isOk_iff {ε σ : Type} {balance : σ → S → Nat} {opening : S → Nat} {first : Except ε σ}
    {rest : σ → Except ε σ} {entries entries' : List (Entry S)} {Ready Ready' : Prop}
    (hposts : ∀ next, first = .ok next → run overflow modulus opening entries = some (balance next))
    (hfirst : (∃ next, first = .ok next) ↔ Ready ∧ (run overflow modulus opening entries).isSome)
    (hrest : ∀ next, (∃ final, rest next = .ok final) ↔
      Ready' ∧ (run overflow modulus (balance next) entries').isSome) :
    (∃ final, (first >>= rest) = .ok final) ↔
      (Ready ∧ Ready') ∧ (run overflow modulus opening (entries ++ entries')).isSome := by
  rw [run_append]
  constructor
  · rintro ⟨final, h⟩
    obtain ⟨next, hnext, hfinal⟩ := bind_eq_ok.mp h
    obtain ⟨hready', hgoes⟩ := (hrest next).mp ⟨final, hfinal⟩
    rw [hposts next hnext]
    exact ⟨⟨(hfirst.mp ⟨next, hnext⟩).1, hready'⟩, hgoes⟩
  · rintro ⟨⟨hready, hready'⟩, hgoes⟩
    obtain ⟨final', hfinal'⟩ := Option.isSome_iff_exists.mp hgoes
    obtain ⟨middle, hmiddle, hgoes⟩ := Option.bind_eq_some_iff.mp hfinal'
    obtain ⟨next, hnext⟩ := hfirst.mpr ⟨hready, by rw [hmiddle]; rfl⟩
    obtain rfl := Option.some.inj (hmiddle.symm.trans (hposts next hnext))
    obtain ⟨final, hfinal⟩ := (hrest next).mpr ⟨hready', by rw [hgoes]; rfl⟩
    exact ⟨final, bind_eq_ok.mpr ⟨next, hnext, hfinal⟩⟩

/-- A loop goes through exactly when its items are ready and their entries go through. -/
theorem foldlM_isOk_iff {ε σ α : Type} {balance : σ → S → Nat} {entriesOf : α → List (Entry S)}
    {body : σ → α → Except ε σ} {Ready : α → Prop}
    (hposts : ∀ state item next, body state item = .ok next →
      run overflow modulus (balance state) (entriesOf item) = some (balance next))
    (hbody : ∀ state item, (∃ next, body state item = .ok next) ↔
      Ready item ∧ (run overflow modulus (balance state) (entriesOf item)).isSome)
    (items : List α) (start : σ) :
    (∃ final, items.foldlM body start = .ok final) ↔
      (∀ item ∈ items, Ready item) ∧
        (run overflow modulus (balance start) (items.flatMap entriesOf)).isSome := by
  induction items generalizing start with
  | nil => exact iff_of_true ⟨start, rfl⟩ ⟨by simp, rfl⟩
  | cons item items ih =>
      rw [List.foldlM_cons, List.flatMap_cons, List.forall_mem_cons]
      exact bind_isOk_iff overflow modulus (fun next => hposts start item next) (hbody start item) ih

/-! ### Credits before debits -/

/-- No register is credited after it has been debited. -/
def CreditsFirst (entries : List (Entry S)) : Prop :=
  ∀ slot, ∃ before after, entries = before ++ after ∧ debited before slot = 0 ∧ credited after slot = 0

/-- The balance of a register with all its credits, which wrap. -/
def raised (balance : S → Nat) (entries : List (Entry S)) (slot : S) : Nat :=
  (balance slot + credited entries slot) % modulus

/-- What is taken off the remainder is taken off the number. -/
theorem sub_mod_of_le {n d : Nat} (hpos : 0 < modulus) (hle : d ≤ n % modulus) :
    (n - d) % modulus = n % modulus - d := by
  have hsplit : n - d = n % modulus - d + modulus * (n / modulus) := by
    have hdiv := Nat.mod_add_div n modulus
    omega
  have hlt : n % modulus - d < modulus := Nat.lt_of_le_of_lt (Nat.sub_le _ _) (Nat.mod_lt _ hpos)
  rw [hsplit, Nat.add_mul_mod_self_left, Nat.mod_eq_of_lt hlt]

/-- Before a debit, all credits of its register have been posted. -/
theorem CreditsFirst.credited_before {before after : List (Entry S)} {slot : S} {amount : Nat}
    (h : CreditsFirst (before ++ .debit slot amount :: after)) (hpos : 0 < amount) :
    credited before slot = credited (before ++ .debit slot amount :: after) slot := by
  obtain ⟨first, second, hsplit, hdebited, hcredited⟩ := h slot
  have htotal : credited (before ++ .debit slot amount :: after) slot = credited first slot := by
    rw [hsplit, credited_append, hcredited, Nat.add_zero]
  rcases List.append_eq_append_iff.mp hsplit with ⟨rest, hfirst, hrest⟩ | ⟨rest, hbefore, hrest⟩
  · cases rest with
    | nil => rw [htotal, hfirst, List.append_nil]
    | cons entry rest =>
        obtain ⟨rfl, -⟩ := List.cons.inj hrest
        rw [hfirst, debited_append, debited_cons, Entry.debitTo, if_pos rfl] at hdebited
        omega
  · rw [hrest, credited_append] at hcredited
    rw [htotal, hbefore, credited_append]
    omega

theorem standing_of_raised {balance : S → Nat} {before entries : List (Entry S)} {slot : S} (hpos : 0 < modulus)
    (hcredited : credited before slot = credited entries slot)
    (hle : debited before slot ≤ raised modulus balance entries slot) :
    standing modulus balance before slot = raised modulus balance entries slot - debited before slot := by
  rw [standing, hcredited]
  exact sub_mod_of_le modulus hpos hle

/-- Where credits come first, a posting goes through exactly when the debits of every register together do
not exceed what it has with all its credits. -/
theorem run_isSome_iff_debited_le {balance : S → Nat} {entries : List (Entry S)} (hpos : 0 < modulus)
    (hb : ∀ slot, balance slot < modulus) (hfirst : CreditsFirst entries) :
    (run .wraps modulus balance entries).isSome ↔ ∀ slot, debited entries slot ≤ raised modulus balance entries slot := by
  constructor
  · intro h slot
    obtain ⟨final, hrun⟩ := Option.isSome_iff_exists.mp h
    obtain ⟨before, after, rfl, hdebited, hcredited⟩ := hfirst slot
    rw [run_append] at hrun
    obtain ⟨middle, hbefore, hafter⟩ := Option.bind_eq_some_iff.mp hrun
    obtain ⟨lost, hlost, -⟩ := run_balance .wraps modulus hafter slot
    have hmiddle : middle slot = raised modulus balance (before ++ after) slot := by
      rw [(run_standing .wraps modulus hpos hb hbefore slot).1, standing, raised, credited_append, hdebited, hcredited,
        Nat.sub_zero, Nat.add_zero]
    rw [debited_append, ← hmiddle]
    omega
  · intro h
    apply (run_isSome_iff modulus hpos hb).mpr
    rintro before slot amount after rfl
    rcases Nat.eq_zero_or_pos amount with rfl | hamount
    · exact Nat.zero_le _
    · have hslot := h slot
      have hdebited : debited (before ++ .debit slot amount :: after) slot =
          debited before slot + (amount + debited after slot) := by
        rw [debited_append, debited_cons, Entry.debitTo, if_pos rfl]
      rw [standing_of_raised modulus hpos (hfirst.credited_before hamount) (by omega)]
      omega

/-- Then the closing balance of every register is what it has with its credits, less its debits. -/
theorem run_eq_raised_sub {balance final : S → Nat} {entries : List (Entry S)} (hpos : 0 < modulus)
    (hb : ∀ slot, balance slot < modulus) (hfirst : CreditsFirst entries)
    (h : run .wraps modulus balance entries = some final) (slot : S) :
    final slot = raised modulus balance entries slot - debited entries slot := by
  have hle := (run_isSome_iff_debited_le modulus hpos hb hfirst).mp (by rw [h]; rfl) slot
  rw [(run_standing .wraps modulus hpos hb h slot).1]
  exact standing_of_raised modulus hpos rfl hle

/-! ### Taking a posting back -/

/-- The entry that moves the amount the other way. -/
def Entry.opposite : Entry S → Entry S
  | .credit slot amount => .debit slot amount
  | .debit slot amount => .credit slot amount

theorem credited_opposite (entries : List (Entry S)) (slot : S) :
    credited (entries.map Entry.opposite) slot = debited entries slot := by
  rw [credited, debited, List.map_map]
  apply congrArg List.sum
  apply List.map_congr_left
  intro entry _
  cases entry <;> rfl

theorem debited_opposite (entries : List (Entry S)) (slot : S) :
    debited (entries.map Entry.opposite) slot = credited entries slot := by
  rw [credited, debited, List.map_map]
  apply congrArg List.sum
  apply List.map_congr_left
  intro entry _
  cases entry <;> rfl

/-- The opposite entries, in whatever order the balances allow, lead back to the opening balances. -/
theorem run_opposite {balance final restored : S → Nat} {entries : List (Entry S)} (hpos : 0 < modulus)
    (hb : ∀ slot, balance slot < modulus) (h : run .wraps modulus balance entries = some final)
    (h' : run .wraps modulus final (entries.map Entry.opposite) = some restored) : restored = balance := by
  funext slot
  obtain ⟨-, hthere⟩ := run_standing .wraps modulus hpos hb h slot
  have hfinal := run_lt .wraps modulus hpos hb h
  obtain ⟨-, hback⟩ := run_standing .wraps modulus hpos hfinal h' slot
  have hrestored := run_lt .wraps modulus hpos hfinal h' slot
  rw [credited_opposite, debited_opposite] at hback
  -- the two differ by whole words, and both are below one
  have hwords : restored slot + modulus * overflows modulus final (entries.map Entry.opposite) slot +
      modulus * overflows modulus balance entries slot = balance slot := by
    omega
  have hmod : (restored slot + modulus * overflows modulus final (entries.map Entry.opposite) slot +
      modulus * overflows modulus balance entries slot) % modulus = balance slot % modulus := by
    rw [hwords]
  rw [Nat.add_mul_mod_self_left, Nat.add_mul_mod_self_left, Nat.mod_eq_of_lt hrestored,
    Nat.mod_eq_of_lt (hb slot)] at hmod
  exact hmod

end Chainring.Ledger

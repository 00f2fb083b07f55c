import Mathlib.Data.Finset.Sort
import Mathlib.Data.Finsupp.Basic
import K2Platform.Lib.SortedMap

/-!
# Finite maps whose keys are ranked

A map from keys to values in which zero stands for no entry is a finitely supported function.
Writing zero deletes, and of the keys that are there one may keep those that fewer than `n` others
come before.

* `mem_take_iff` — the first `n` of a list in strict order are those that fewer than `n` precede.
* `Lists.set` — a write, whichever way the entries are stored.
* `Lists.popFirstTo`, `Lists.popLastTo` — popping one end of a sorted map keeps the best of the other.
* `Lists.entries_eq` — what a sorted map goes through is the function's support in order.
-/

set_option autoImplicit false

namespace Ranked

/-! ## The first elements of an ordered list -/

section Take

variable {α : Type} {r : α → α → Prop} [DecidableRel r]

theorem mem_take_iff (hasymm : ∀ a b, r a b → ¬ r b a) {l : List α} (hl : l.Pairwise r) (n : Nat)
    (a : α) : a ∈ l.take n ↔ a ∈ l ∧ (l.filter fun b => r b a).length < n := by
  induction l generalizing n with
  | nil => simp
  | cons b l ih =>
    obtain ⟨hb, hl'⟩ := List.pairwise_cons.1 hl
    cases n with
    | zero => simp
    | succ n =>
      rw [List.take_succ_cons, List.mem_cons, List.mem_cons, ih hl']
      by_cases hba : r b a
      · -- `b` is one of those that come before
        have hne : a ≠ b := fun h => hasymm a a (h ▸ hba) (h ▸ hba)
        simp [hba, hne]
      · have hmem : a ∉ l := fun h => hba (hb a h)
        simp only [hmem, false_and, or_false, decide_eq_true_eq, hba, not_false_eq_true,
          List.filter_cons_of_neg]
        constructor
        · rintro rfl
          have hnone : l.filter (fun c => r c a) = [] :=
            List.filter_eq_nil_iff.2 fun c hc => by simpa using hasymm a c (hb c hc)
          rw [hnone]
          exact ⟨rfl, Nat.succ_pos n⟩
        · exact fun h => h.1

end Take

/-! ## Lookups of a function of finite support -/

section Lookup

variable {κ M : Type} [Zero M] [DecidableEq M]

/-- The lookups are those of the function. -/
def Lists (look : κ → Option M) (f : κ →₀ M) : Prop :=
  ∀ k, look k = if f k = 0 then none else some (f k)

theorem lists_zero : Lists (fun _ : κ => none) (0 : κ →₀ M) := by
  intro k
  exact (if_pos rfl).symm

theorem Lists.eq_some_iff {look : κ → Option M} {f : κ →₀ M} (h : Lists look f) {k : κ} {v : M} :
    look k = some v ↔ k ∈ f.support ∧ v = f k := by
  rw [h k, Finsupp.mem_support_iff]
  by_cases hz : f k = 0
  · simp [hz]
  · simp [hz, eq_comm]

/-- A write, of which zero deletes. -/
theorem Lists.set [DecidableEq κ] {look look' : κ → Option M} {f : κ →₀ M} (h : Lists look f)
    (k : κ) (v : M) (hk : look' k = if v = 0 then none else some v) (hne : ∀ j, j ≠ k → look' j = look j) :
    Lists look' (f.update k v) := by
  intro j
  rw [Finsupp.update_apply]
  by_cases hj : j = k
  · rw [if_pos hj, hj]
    exact hk
  · rw [if_neg hj, hne j hj]
    exact h j

/-- Keeping some keys of it. -/
theorem Lists.filter {look look' : κ → Option M} {f : κ →₀ M} (h : Lists look f) (p : κ → Prop)
    [DecidablePred p] (hp : ∀ j v, look' j = some v ↔ look j = some v ∧ p j) :
    Lists look' (f.filter p) := by
  intro j
  refine Option.ext fun v => ?_
  rw [hp j v, h.eq_some_iff, Finsupp.filter_apply, Finsupp.mem_support_iff]
  by_cases hj : p j
  · by_cases hz : f j = 0
    · simp [hj, hz]
    · simp [hj, hz, eq_comm]
  · simp [hj]

end Lookup

/-! ## Entries in order -/

section Finsupp

variable {κ M : Type} [LinearOrder κ] [Zero M]

/-- The keys that fewer than `n` others come before. -/
noncomputable def keepBest (before : κ → κ → Prop) [DecidableRel before] (n : Nat) (f : κ →₀ M) :
    κ →₀ M :=
  f.filter fun k => (f.support.filter fun j => before j k).card < n

/-- The entries in key order. -/
noncomputable def ascending (f : κ →₀ M) : List (κ × M) :=
  (f.support.sort (· ≤ ·)).map fun k => (k, f k)

theorem mem_ascending {f : κ →₀ M} {e : κ × M} :
    e ∈ ascending f ↔ e.1 ∈ f.support ∧ e.2 = f e.1 := by
  rw [ascending, List.mem_map]
  constructor
  · rintro ⟨k, hk, rfl⟩
    exact ⟨(Finset.mem_sort _).1 hk, rfl⟩
  · rintro ⟨hk, hv⟩
    exact ⟨e.1, (Finset.mem_sort _).2 hk, Prod.ext rfl hv.symm⟩

theorem ascending_pairwise (f : κ →₀ M) : (ascending f).Pairwise fun a b => a.1 < b.1 := by
  rw [ascending, List.pairwise_map]
  exact List.sortedLT_iff_pairwise.1 (Finset.sortedLT_sort f.support)

/-- How many of the entries come before a key. -/
theorem length_filter_ascending (f : κ →₀ M) (p : κ → Prop) [DecidablePred p] :
    ((ascending f).filter fun e => p e.1).length = (f.support.filter p).card := by
  rw [ascending, List.filter_map, List.length_map, Finset.card, Finset.filter_val,
    ← Finset.sort_eq f.support (· ≤ ·), Multiset.filter_coe, Multiset.coe_card]
  rfl

variable [DecidableEq M] {m : SortedMap κ M} {f : κ →₀ M}

theorem Lists.mem_entries (h : Lists m.get? f) {e : κ × M} :
    e ∈ m.entries ↔ e.1 ∈ f.support ∧ e.2 = f e.1 := by
  rw [← h.eq_some_iff]
  exact SortedMap.get?_eq_some_iff.symm

theorem Lists.entries_eq (h : Lists m.get? f) : m.entries = ascending f := by
  have heq : m = ⟨ascending f, ascending_pairwise f⟩ := by
    refine SortedMap.ext_get? fun k => Option.ext fun v => ?_
    rw [SortedMap.get?_eq_some_iff, h.mem_entries, SortedMap.get?_eq_some_iff]
    exact mem_ascending.symm
  rw [heq]

/-- A sorted map cut down to some of its entries. -/
theorem Lists.cut {m' : SortedMap κ M} (h : Lists m.get? f) {before : κ → κ → Prop}
    [DecidableRel before] {n : Nat}
    (hcut : ∀ e, e ∈ m'.entries ↔
      e ∈ m.entries ∧ (m.entries.filter fun b => before b.1 e.1).length < n) :
    Lists m'.get? (keepBest before n f) := by
  refine h.filter _ fun k v => ?_
  rw [SortedMap.get?_eq_some_iff, SortedMap.get?_eq_some_iff, hcut, h.entries_eq,
    length_filter_ascending f fun j => before j k]

theorem Lists.popLastTo (h : Lists m.get? f) (n : Nat) :
    Lists (m.popLastTo n).get? (keepBest (· < ·) n f) := by
  refine h.cut fun e => ?_
  rw [SortedMap.popLastTo_entries]
  exact mem_take_iff (fun _ _ hab => not_lt.2 hab.le) m.sorted n e

theorem Lists.popFirstTo (h : Lists m.get? f) (n : Nat) :
    Lists (m.popFirstTo n).get? (keepBest (· > ·) n f) := by
  refine h.cut fun e => ?_
  have hsorted : m.entries.reverse.Pairwise fun a b => a.1 > b.1 :=
    List.pairwise_reverse.2 m.sorted
  have htake : m.entries.drop (m.length - n) = (m.entries.reverse.take n).reverse := by
    rw [List.take_reverse, List.reverse_reverse]
    rfl
  have hmem := mem_take_iff (fun _ _ hab => not_lt.2 (le_of_lt hab)) hsorted n e
  rw [SortedMap.popFirstTo_entries, htake, List.mem_reverse, hmem, List.mem_reverse,
    List.filter_reverse, List.length_reverse]

end Finsupp

end Ranked

import Mathlib.Algebra.BigOperators.Group.List.Basic
import Mathlib.Algebra.Order.Ring.Int
import Mathlib.Data.List.Induction
import Mathlib.Data.List.Nodup
import Mathlib.Data.List.Sort

/-!
# The element before each element

The greatest element of a list of integers below a number, and how many integers are missing
between the two.

* `prev_congr` — only membership matters.
* `sum_missing` — what is missing before the elements of a list adds up to its span, less their
  number.
-/

set_option autoImplicit false

namespace Predecessor

/-- `lag` over the elements in ascending order. -/
def prev (l : List Int) (x : Int) : Option Int := (l.filter fun y => y < x).max?

/-- Nothing is missing before the first. -/
def missing (l : List Int) (x : Int) : Int := ((prev l x).map fun p => x - p - 1).getD 0

variable {l l' : List Int}

theorem max?_congr (h : ∀ x, x ∈ l ↔ x ∈ l') : l.max? = l'.max? := by
  refine Option.ext fun m => ?_
  rw [List.max?_eq_some_iff, List.max?_eq_some_iff, h]
  simp only [h]

theorem min?_congr (h : ∀ x, x ∈ l ↔ x ∈ l') : l.min? = l'.min? := by
  refine Option.ext fun m => ?_
  rw [List.min?_eq_some_iff, List.min?_eq_some_iff, h]
  simp only [h]

theorem prev_congr (h : ∀ x, x ∈ l ↔ x ∈ l') (x : Int) : prev l x = prev l' x := by
  refine max?_congr fun y => ?_
  rw [List.mem_filter, List.mem_filter, h]

theorem missing_congr (h : ∀ x, x ∈ l ↔ x ∈ l') (x : Int) : missing l x = missing l' x := by
  rw [missing, missing, prev_congr h]

/-! ## Adding an element at the end -/

theorem prev_concat_of_lt {a x : Int} (h : x ≤ a) : prev (l ++ [a]) x = prev l x := by
  have ha : decide (a < x) = false := decide_eq_false (by omega)
  rw [prev, List.filter_append, List.filter_cons, ha, List.filter_nil]
  simp [prev]

theorem prev_concat_self {a : Int} (h : ∀ y ∈ l, y < a) : prev (l ++ [a]) a = l.max? := by
  rw [prev_concat_of_lt le_rfl, prev, List.filter_eq_self.2 fun y hy => decide_eq_true (h y hy)]

theorem sum_missing_sorted (hsorted : l.Pairwise (· < ·)) {lo hi : Int} (hlo : l.min? = some lo)
    (hhi : l.max? = some hi) : (l.map (missing l)).sum = hi - lo + 1 - l.length := by
  induction l using List.reverseRecOn generalizing lo hi with
  | nil => cases hlo
  | append_singleton l a ih =>
    obtain ⟨hfront, -, hlast⟩ := List.pairwise_append.1 hsorted
    have hbelow : ∀ y ∈ l, y < a := fun y hy => hlast y hy a List.mem_cons_self
    obtain ⟨hmemLo, hleast⟩ := List.min?_eq_some_iff.1 hlo
    obtain ⟨-, hgreatest⟩ := List.max?_eq_some_iff.1 hhi
    have hhi' : hi = a := by
      have hmem := (List.max?_eq_some_iff.1 hhi).1
      have hle := hgreatest a (List.mem_append_right _ List.mem_cons_self)
      rcases List.mem_append.1 hmem with hin | hin
      · have hlt := hbelow hi hin
        omega
      · exact List.mem_singleton.1 hin
    subst hhi'
    have hsame : l.map (missing (l ++ [hi])) = l.map (missing l) := by
      refine List.map_congr_left fun x hx => ?_
      rw [missing, missing, prev_concat_of_lt (hbelow x hx).le]
    rw [List.map_append, List.sum_append, hsame, List.map_singleton, List.sum_singleton, missing,
      prev_concat_self hbelow, List.length_append, List.length_singleton]
    cases hmax : l.max? with
    | none =>
      rw [List.max?_eq_none_iff] at hmax
      subst hmax
      have hone : lo = hi := List.mem_singleton.1 hmemLo
      simp [hone]
    | some m =>
      obtain ⟨hm, -⟩ := List.max?_eq_some_iff.1 hmax
      have hlow : l.min? = some lo := by
        refine List.min?_eq_some_iff.2 ⟨?_, fun b hb => hleast b (List.mem_append_left _ hb)⟩
        rcases List.mem_append.1 hmemLo with hin | hin
        · exact hin
        · have hlom := hleast m (List.mem_append_left _ hm)
          have hmhi := hbelow m hm
          rw [List.mem_singleton] at hin
          omega
      rw [ih hfront hlow hmax, Option.map_some, Option.getD_some]
      push_cast
      omega

/-- In any order. -/
theorem sum_missing (hnodup : l.Nodup) {lo hi : Int} (hlo : l.min? = some lo)
    (hhi : l.max? = some hi) : (l.map (missing l)).sum = hi - lo + 1 - l.length := by
  have hperm : (l.insertionSort (· ≤ ·)).Perm l := List.perm_insertionSort _ _
  have hmem : ∀ x, x ∈ l.insertionSort (· ≤ ·) ↔ x ∈ l := fun x => hperm.mem_iff
  have hsorted : (l.insertionSort (· ≤ ·)).Pairwise (· < ·) := by
    have hle : (l.insertionSort (· ≤ ·)).Pairwise (· ≤ ·) := List.pairwise_insertionSort _ _
    have hne : (l.insertionSort (· ≤ ·)).Nodup := hperm.nodup_iff.2 hnodup
    exact (hle.and hne).imp fun h => lt_of_le_of_ne h.1 h.2
  have hsum := sum_missing_sorted hsorted ((min?_congr hmem).trans hlo) ((max?_congr hmem).trans hhi)
  rw [hperm.length_eq] at hsum
  rw [← hsum]
  have hcongr : l.map (missing (l.insertionSort (· ≤ ·))) = l.map (missing l) :=
    List.map_congr_left fun x _ => missing_congr hmem x
  rw [← hcongr]
  exact ((hperm.map _).sum_eq).symm

end Predecessor

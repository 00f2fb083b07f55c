import Mathlib.Algebra.Order.Floor.Div
import Mathlib.Data.Finset.Card
import Mathlib.Tactic.Ring

/-!
# Draining a log in bounded steps

A reader at position `s` of a log that ends at `limit` moves forward by at most `n` at a time.

* `iterate_advance` — where it stands after `k` steps.
* `advance_iterate_eq_iff` — it stands still after `rounds` steps, and not before.
* `pairwise_disjoint_steps` — no two steps read the same offset.
* `card_unread` — what the steps so far have left, counted.
-/

set_option autoImplicit false

namespace Drain

variable (limit n : Int)

/-- One step: never past the end of the log, and never backwards. -/
def advance (s : Int) : Int := max (min limit (s + n)) s

/-- How many steps move. -/
def rounds (s : Int) : Nat := (limit - s).toNat ⌈/⌉ n.toNat

variable {limit n} {s : Int}

theorem le_advance : s ≤ advance limit n s := le_max_right _ _

theorem iterate_advance (hn : 0 < n) (k : Nat) :
    (advance limit n)^[k] s = max (min limit (s + k * n)) s := by
  induction k with
  | zero =>
    rw [Function.iterate_zero, id, Nat.cast_zero, Int.zero_mul, Int.add_zero]
    exact (max_eq_right (min_le_right _ _)).symm
  | succ k ih =>
    have hstep : ((k + 1 : Nat) : Int) * n = k * n + n := by
      push_cast
      ring
    have hk : 0 ≤ (k : Int) * n := Int.mul_nonneg (Int.natCast_nonneg k) hn.le
    rw [Function.iterate_succ_apply', ih, advance, hstep]
    omega

theorem advance_eq_self_iff (hn : 0 < n) : advance limit n s = s ↔ limit ≤ s := by
  unfold advance
  omega

theorem limit_le_iterate_iff (hn : 0 < n) (k : Nat) :
    limit ≤ (advance limit n)^[k] s ↔ rounds limit n s ≤ k := by
  have hcast : ((n.toNat * k : Nat) : Int) = k * n := by
    rw [Nat.cast_mul, Int.toNat_of_nonneg hn.le, Int.mul_comm]
  have hk : 0 ≤ (k : Int) * n := Int.mul_nonneg (Int.natCast_nonneg k) hn.le
  rw [rounds, ceilDiv_le_iff_le_mul (by omega), iterate_advance hn]
  omega

theorem advance_iterate_eq_iff (hn : 0 < n) (k : Nat) :
    (advance limit n)^[k + 1] s = (advance limit n)^[k] s ↔ rounds limit n s ≤ k := by
  rw [Function.iterate_succ_apply', advance_eq_self_iff hn, limit_le_iterate_iff hn]

theorem iterate_le_iterate {j k : Nat} (h : j ≤ k) :
    (advance limit n)^[j] s ≤ (advance limit n)^[k] s := by
  induction k, h using Nat.le_induction with
  | base => exact Int.le_refl _
  | succ k _ ih =>
    rw [Function.iterate_succ_apply']
    exact Int.le_trans ih le_advance

theorem le_iterate (limit n s : Int) (k : Nat) : s ≤ (advance limit n)^[k] s :=
  iterate_le_iterate (Nat.zero_le k)

/-! ## What the steps read -/

/-- The offsets from `a` up to `b`. -/
def interval (a b : Int) : Finset Int :=
  (Finset.range (b - a).toNat).image fun k : Nat => a + (k : Int)

@[simp] theorem mem_interval {a b o : Int} : o ∈ interval a b ↔ a ≤ o ∧ o < b := by
  simp only [interval, Finset.mem_image, Finset.mem_range]
  constructor
  · rintro ⟨k, hk, rfl⟩
    omega
  · rintro ⟨ha, hb⟩
    exact ⟨(o - a).toNat, by omega, by omega⟩

theorem card_interval (a b : Int) : (interval a b).card = (b - a).toNat := by
  have hinjective : Function.Injective fun k : Nat => a + (k : Int) := by
    intro j k h
    simp only at h
    omega
  rw [interval, Finset.card_image_of_injective _ hinjective, Finset.card_range]

/-- The offsets of the `k`-th step. -/
def step (limit n s : Int) (k : Nat) : Finset Int :=
  interval ((advance limit n)^[k] s) ((advance limit n)^[k + 1] s)

theorem disjoint_steps_of_lt {j k : Nat} (h : j < k) :
    Disjoint (step limit n s j) (step limit n s k) := by
  refine Finset.disjoint_left.2 fun o hj hk => ?_
  have hnext : (advance limit n)^[j + 1] s ≤ (advance limit n)^[k] s := iterate_le_iterate h
  have hend := (mem_interval.1 hj).2
  have hstart := (mem_interval.1 hk).1
  omega

theorem pairwise_disjoint_steps :
    Pairwise fun j k => Disjoint (step limit n s j) (step limit n s k) := by
  intro j k hjk
  rcases Nat.lt_or_gt_of_ne hjk with hlt | hlt
  · exact disjoint_steps_of_lt hlt
  · exact (disjoint_steps_of_lt hlt).symm

theorem exists_mem_step_iff (limit n s : Int) (k : Nat) (o : Int) :
    (∃ j < k, o ∈ step limit n s j) ↔ s ≤ o ∧ o < (advance limit n)^[k] s := by
  induction k with
  | zero =>
    constructor
    · rintro ⟨j, hj, _⟩
      exact absurd hj (Nat.not_lt_zero j)
    · rintro ⟨hle, hlt⟩
      exact absurd hlt (Int.not_lt.2 hle)
  | succ k ih =>
    have hmono := le_iterate limit n s k
    have hnext : (advance limit n)^[k] s ≤ (advance limit n)^[k + 1] s :=
      iterate_le_iterate (Nat.le_succ k)
    constructor
    · rintro ⟨j, hj, ho⟩
      rcases Nat.lt_succ_iff_lt_or_eq.1 hj with hlt | rfl
      · have hread := ih.1 ⟨j, hlt, ho⟩
        exact ⟨hread.1, by omega⟩
      · have hread := mem_interval.1 ho
        exact ⟨by omega, hread.2⟩
    · rintro ⟨hle, hlt⟩
      by_cases hread : o < (advance limit n)^[k] s
      · obtain ⟨j, hj, ho⟩ := ih.2 ⟨hle, hread⟩
        exact ⟨j, Nat.lt_succ_of_lt hj, ho⟩
      · exact ⟨k, Nat.lt_succ_self k, mem_interval.2 ⟨Int.not_lt.1 hread, hlt⟩⟩

/-- The offsets between the start and the end of the log that no step before the `k`-th reads. -/
def unread (limit n s : Int) (k : Nat) : Finset Int :=
  (interval s limit).filter fun o => ∀ j < k, o ∉ step limit n s j

theorem card_unread (k : Nat) :
    ((unread limit n s k).card : Int) = max 0 (limit - (advance limit n)^[k] s) := by
  have hleft : unread limit n s k = interval ((advance limit n)^[k] s) limit := by
    have hmono := le_iterate limit n s k
    ext o
    have hread := exists_mem_step_iff limit n s k o
    have hnone : (∀ j < k, o ∉ step limit n s j) ↔ ¬ ∃ j < k, o ∈ step limit n s j := by
      simp only [not_exists, not_and]
    rw [unread, Finset.mem_filter, hnone, hread, mem_interval, mem_interval]
    omega
  rw [hleft, card_interval]
  omega

end Drain

import Mathlib.Algebra.BigOperators.Group.List.Basic
import Mathlib.Algebra.Order.Ring.Int
import Mathlib.Data.List.Dedup
import Mathlib.Data.List.Pairwise

/-!
# Gaps of a list of integers, and ranges that cover them

* `covers_gaps_iff` — the gaps of a sorted list hold what lies between two of its elements and is
  not one.
* `sum_gaps_add` — they hold as many integers as its span has beyond its distinct elements.
* `sweep_le_iff` — one pass over ranges sorted by where they start decides whether their union
  covers an interval.
-/

set_option autoImplicit false

namespace Coverage

/-- A closed range. -/
abbrev Range := Int × Int

def Range.Contains (r : Range) (x : Int) : Prop := r.1 ≤ x ∧ x ≤ r.2

instance (r : Range) (x : Int) : Decidable (r.Contains x) := inferInstanceAs (Decidable (_ ∧ _))

def Covers (ranges : List Range) (x : Int) : Prop := ∃ r ∈ ranges, Range.Contains r x

theorem covers_cons {r : Range} {ranges : List Range} {x : Int} :
    Covers (r :: ranges) x ↔ r.Contains x ∨ Covers ranges x := by
  simp only [Covers, List.exists_mem_cons_iff]

/-! ## The sweep -/

/-- How far the ranges cover, from the cursor on. -/
def sweep (ranges : List Range) (cursor : Int) : Int :=
  ranges.foldl (fun c r => if r.1 ≤ c ∧ c ≤ r.2 then r.2 + 1 else c) cursor

theorem sweep_cons (r : Range) (ranges : List Range) (cursor : Int) :
    sweep (r :: ranges) cursor =
      sweep ranges (if r.Contains cursor then r.2 + 1 else cursor) := rfl

theorem le_sweep (ranges : List Range) (cursor : Int) : cursor ≤ sweep ranges cursor := by
  induction ranges generalizing cursor with
  | nil => exact le_rfl
  | cons r ranges ih =>
    rw [sweep_cons]
    refine le_trans ?_ (ih _)
    split
    · rename_i hr
      have := hr.2
      omega
    · exact le_rfl

/-- The sweep does not pass what no range contains. -/
theorem sweep_le {ranges : List Range} {x : Int} (hx : ¬ Covers ranges x) {cursor : Int}
    (hc : cursor ≤ x) : sweep ranges cursor ≤ x := by
  induction ranges generalizing cursor with
  | nil => exact hc
  | cons r ranges ih =>
    rw [covers_cons, not_or] at hx
    rw [sweep_cons]
    refine ih hx.2 ?_
    split
    · rename_i hr
      have hlt : r.2 < x := by
        by_contra hle
        exact hx.1 ⟨hr.1.trans hc, by omega⟩
      omega
    · exact hc

theorem sweep_eq_self {ranges : List Range} {cursor : Int} (h : ∀ r ∈ ranges, cursor < r.1) :
    sweep ranges cursor = cursor := by
  induction ranges with
  | nil => rfl
  | cons r ranges ih =>
    obtain ⟨hr, hranges⟩ := List.forall_mem_cons.1 h
    rw [sweep_cons, if_neg fun hc => by have := hc.1; omega]
    exact ih hranges

/-- Where the sweep stops, no range contains the cursor. -/
theorem not_covers_sweep {ranges : List Range} (hsorted : ranges.Pairwise fun r s => r.1 ≤ s.1)
    (cursor : Int) : ¬ Covers ranges (sweep ranges cursor) := by
  induction ranges generalizing cursor with
  | nil => exact fun ⟨_, h, _⟩ => absurd h (List.not_mem_nil)
  | cons r ranges ih =>
    obtain ⟨hr, hranges⟩ := List.pairwise_cons.1 hsorted
    rw [covers_cons, not_or, sweep_cons]
    refine ⟨fun hc => ?_, ih hranges _⟩
    split at hc
    · -- the cursor went past this range and does not come back
      have hpast := le_sweep ranges (r.2 + 1)
      have := hc.2
      omega
    · rename_i hout
      by_cases hlt : cursor < r.1
      · -- no later range starts at or before the cursor
        rw [sweep_eq_self fun s hs => hlt.trans_le (hr s hs)] at hc
        exact hout hc
      · have hbeyond : r.2 < cursor := by
          by_contra hle
          exact hout ⟨by omega, by omega⟩
        have hpast := le_sweep ranges cursor
        have := hc.2
        omega

/-- **The sweep decides coverage.** -/
theorem sweep_le_iff {ranges : List Range} (hsorted : ranges.Pairwise fun r s => r.1 ≤ s.1)
    {first last : Int} :
    sweep ranges first ≤ last ↔ ∃ x, Range.Contains (first, last) x ∧ ¬ Covers ranges x := by
  constructor
  · intro hstop
    exact ⟨sweep ranges first, ⟨le_sweep ranges first, hstop⟩, not_covers_sweep hsorted first⟩
  · rintro ⟨x, ⟨hfirst, hlast⟩, hx⟩
    exact (sweep_le hx hfirst).trans hlast

/-! ## Gaps -/

/-- What lies between each two neighbours of a sorted list. -/
def gaps : List Int → List Range
  | a :: b :: l => if a + 1 < b then (a + 1, b - 1) :: gaps (b :: l) else gaps (b :: l)
  | _ => []

def size (r : Range) : Int := r.2 - r.1 + 1

theorem nonempty_of_mem_gaps {l : List Int} {r : Range} (h : r ∈ gaps l) : r.1 ≤ r.2 := by
  induction l using gaps.induct with
  | case1 a b l hlt ih =>
    rw [gaps, if_pos hlt] at h
    rcases List.mem_cons.1 h with rfl | h
    · change a + 1 ≤ b - 1
      omega
    · exact ih h
  | case2 a b l hlt ih =>
    rw [gaps, if_neg hlt] at h
    exact ih h
  | case3 l hl =>
    rw [gaps] at h
    · cases h
    · exact hl

theorem length_le_sum_size {ranges : List Range} (h : ∀ r ∈ ranges, r.1 ≤ r.2) :
    (ranges.length : Int) ≤ (ranges.map size).sum := by
  induction ranges with
  | nil => exact le_rfl
  | cons r ranges ih =>
    obtain ⟨hr, hranges⟩ := List.forall_mem_cons.1 h
    have hrest := ih hranges
    rw [List.map_cons, List.sum_cons, List.length_cons, size]
    push_cast
    omega

theorem covers_gaps_cons {a b : Int} {l : List Int} (x : Int) :
    Covers (gaps (a :: b :: l)) x ↔ (a < x ∧ x < b) ∨ Covers (gaps (b :: l)) x := by
  rw [gaps]
  split
  · rw [covers_cons]
    refine or_congr_left ?_
    change (a + 1 ≤ x ∧ x ≤ b - 1) ↔ _
    omega
  · rw [or_iff_right]
    omega

theorem exists_mem_lt_iff {a : Int} {l : List Int} (hsorted : (a :: l).Pairwise (· ≤ ·)) (x : Int) :
    (∃ y ∈ a :: l, y < x) ↔ a < x := by
  refine ⟨fun ⟨y, hy, hlt⟩ => ?_, fun h => ⟨a, List.mem_cons_self, h⟩⟩
  rcases List.mem_cons.1 hy with rfl | hy
  · exact hlt
  · exact ((List.pairwise_cons.1 hsorted).1 y hy).trans_lt hlt

/-- **What a sorted list leaves out between its ends.** -/
theorem covers_gaps_iff {l : List Int} (hsorted : l.Pairwise (· ≤ ·)) (x : Int) :
    Covers (gaps l) x ↔ (∃ a ∈ l, a < x) ∧ (∃ b ∈ l, x < b) ∧ x ∉ l := by
  match l with
  | [] => exact iff_of_false (fun ⟨_, h, _⟩ => List.not_mem_nil h) fun ⟨⟨_, h, _⟩, _⟩ =>
      List.not_mem_nil h
  | [a] =>
    refine iff_of_false (fun ⟨_, h, _⟩ => List.not_mem_nil h) fun ⟨⟨y, hy, hlt⟩, ⟨z, hz, hgt⟩, _⟩ => ?_
    rw [List.mem_singleton] at hy hz
    omega
  | a :: b :: l =>
    have htail := hsorted.of_cons
    have hab : a ≤ b := (List.pairwise_cons.1 hsorted).1 b List.mem_cons_self
    have hhead : x < b → x ∉ b :: l := by
      intro hlt hx
      have := (exists_mem_lt_iff htail b).1 ⟨x, hx, hlt⟩
      omega
    have habove : (∃ y ∈ a :: b :: l, x < y) ↔ x < a ∨ ∃ y ∈ b :: l, x < y :=
      List.exists_mem_cons_iff _ _ _
    have hmem : x ∉ a :: b :: l ↔ x ≠ a ∧ x ∉ b :: l := List.mem_cons.not.trans not_or
    rw [covers_gaps_cons, covers_gaps_iff htail x, exists_mem_lt_iff htail,
      exists_mem_lt_iff hsorted, habove, hmem]
    constructor
    · rintro (⟨hax, hxb⟩ | ⟨hbx, hbelow, hnot⟩)
      · exact ⟨hax, Or.inr ⟨b, List.mem_cons_self, hxb⟩, by omega, hhead hxb⟩
      · exact ⟨by omega, Or.inr hbelow, by omega, hnot⟩
    · rintro ⟨hax, hbelow, hne, hnot⟩
      rcases lt_trichotomy x b with hlt | rfl | hgt
      · exact Or.inl ⟨hax, hlt⟩
      · exact absurd List.mem_cons_self hnot
      · exact Or.inr ⟨hgt, hbelow.resolve_left (by omega), hnot⟩

theorem sum_gaps_cons {a b : Int} (hab : a ≤ b) (l : List Int) :
    ((gaps (a :: b :: l)).map size).sum =
      (if a = b then 0 else b - a - 1) + ((gaps (b :: l)).map size).sum := by
  rw [gaps]
  split
  · rw [List.map_cons, List.sum_cons, if_neg (by omega), size]
    dsimp only
    omega
  · split
    · omega
    · omega

/-- **The gaps hold what the distinct elements leave of the span.** -/
theorem sum_gaps_add {a : Int} {l : List Int} (hsorted : (a :: l).Pairwise (· ≤ ·)) :
    ((gaps (a :: l)).map size).sum + (a :: l).dedup.length =
      (a :: l).getLast (List.cons_ne_nil a l) - a + 1 := by
  induction l generalizing a with
  | nil => simp [gaps]
  | cons b l ih =>
    have hab : a ≤ b := (List.pairwise_cons.1 hsorted).1 b List.mem_cons_self
    have htail := hsorted.of_cons
    rw [sum_gaps_cons hab, List.getLast_cons (List.cons_ne_nil b l)]
    have hrest := ih htail
    split
    · rename_i heq
      subst heq
      rw [List.dedup_cons_of_mem List.mem_cons_self]
      omega
    · rename_i hne
      have hnot : a ∉ b :: l := by
        intro h
        rcases List.mem_cons.1 h with rfl | h
        · exact hne rfl
        · have := (List.pairwise_cons.1 htail).1 a h
          omega
      rw [List.dedup_cons_of_notMem hnot, List.length_cons]
      push_cast
      omega

end Coverage

import Mathlib.Data.List.Induction
import Mathlib.Order.Bounds.Basic
import Mathlib.Algebra.Order.Ring.Int
import Mathlib.Tactic.Linarith
import Mathlib.Tactic.Ring

/-!
# Ticks on a grid

The lines of a grid, a fixed interval apart, and times that reach them in any order.  A ticker that
takes late times ticks once for the lines they are behind of, and never leaves the grid.

* `Due.reaches_iff` — a time reaches a line that is new exactly when it is not before the due one.
* `Due.wait`, `Due.tick` — the line that is due next.
* `isLeast_above` — after a tick it is the least line behind the time.
* `skip_eq` — a ticker by division, whichever way its interval counts, goes to the line one interval
  from the last one that the time has reached.
* `kept_eq_of_greatest` — counting forward, the line kept is that of the greatest time.
-/

set_option autoImplicit false

namespace Grid

/-- The lines behind `first`. -/
def Line (first interval g : Int) : Prop := ∃ n : Int, 1 ≤ n ∧ g = first + n * interval

/-- The time has reached a line that no earlier time has. -/
def Reaches (first interval : Int) (earlier : List Int) (t : Int) : Prop :=
  ∃ g, Line first interval g ∧ g ≤ t ∧ ∀ s ∈ earlier, s < g

/-- The least line that none of the times has reached. -/
def Due (first interval : Int) (times : List Int) (due : Int) : Prop :=
  IsLeast {g | Line first interval g ∧ ∀ s ∈ times, s < g} due

variable {first interval due t : Int} {times : List Int}

theorem due_nil (h : 0 < interval) : Due first interval [] (first + interval) := by
  refine ⟨⟨⟨1, le_rfl, by rw [one_mul]⟩, fun _ hs => absurd hs List.not_mem_nil⟩, ?_⟩
  rintro g ⟨⟨n, hn, rfl⟩, -⟩
  have hmul : 1 * interval ≤ n * interval := Int.mul_le_mul_of_nonneg_right hn h.le
  linarith

theorem Due.reaches_iff (h : Due first interval times due) :
    Reaches first interval times t ↔ due ≤ t := by
  constructor
  · rintro ⟨g, hline, hle, hnew⟩
    exact (h.2 ⟨hline, hnew⟩).trans hle
  · intro hle
    exact ⟨due, h.1.1, hle, h.1.2⟩

/-- A time before the due line changes nothing. -/
theorem Due.wait (h : Due first interval times due) (hlt : t < due) :
    Due first interval (times ++ [t]) due := by
  refine ⟨⟨h.1.1, fun s hs => ?_⟩, fun g hg => ?_⟩
  · rcases List.mem_append.1 hs with hs | hs
    · exact h.1.2 s hs
    · exact List.mem_singleton.1 hs ▸ hlt
  · exact h.2 ⟨hg.1, fun s hs => hg.2 s (List.mem_append_left _ hs)⟩

/-- The least line behind a time that a line is not behind of. -/
theorem isLeast_above (hpos : 0 < interval) (hline : Line first interval due) (hle : due ≤ t) :
    IsLeast {g | Line first interval g ∧ t < g} (due + ((t - due) / interval + 1) * interval) := by
  obtain ⟨n, hn, rfl⟩ := hline
  have hdiv := Int.mul_ediv_add_emod (t - (first + n * interval)) interval
  have hmod := Int.emod_nonneg (t - (first + n * interval)) hpos.ne'
  have hrest := Int.emod_lt_of_pos (t - (first + n * interval)) hpos
  have hmissed : 0 ≤ (t - (first + n * interval)) / interval :=
    Int.ediv_nonneg (by linarith) hpos.le
  generalize (t - (first + n * interval)) / interval = missed at *
  generalize (t - (first + n * interval)) % interval = rest at *
  constructor
  · refine ⟨⟨n + (missed + 1), by linarith, by ring⟩, ?_⟩
    show t < first + n * interval + (missed + 1) * interval
    linarith [mul_comm interval missed, add_mul missed 1 interval, one_mul interval]
  · rintro g ⟨⟨m, hm, rfl⟩, habove⟩
    -- a line that is behind `t` is more than `missed` lines behind `due`
    have hlt : n + missed < m := by
      by_contra hge
      have hmul : m * interval ≤ (n + missed) * interval :=
        Int.mul_le_mul_of_nonneg_right (not_lt.1 hge) hpos.le
      linarith [mul_comm interval missed, add_mul n missed interval]
    have hmul : (n + missed + 1) * interval ≤ m * interval :=
      Int.mul_le_mul_of_nonneg_right hlt hpos.le
    linarith [add_mul n missed interval, add_mul (n + missed) 1 interval,
      add_mul missed 1 interval]

/-- A time that has reached the due line passes every line up to the next. -/
theorem Due.tick (hpos : 0 < interval) (h : Due first interval times due) (hle : due ≤ t) :
    Due first interval (times ++ [t]) (due + ((t - due) / interval + 1) * interval) := by
  obtain ⟨⟨hline, habove⟩, hleast⟩ := isLeast_above hpos h.1.1 hle
  refine ⟨⟨hline, fun s hs => ?_⟩, fun g hg => ?_⟩
  · rcases List.mem_append.1 hs with hs | hs
    · exact ((h.1.2 s hs).trans_le hle).trans habove
    · exact List.mem_singleton.1 hs ▸ habove
  · exact hleast ⟨hg.1, hg.2 t (List.mem_append_right _ (List.mem_singleton.2 rfl))⟩

/-! ## The last line reached -/

/-- The last line of the grid through `first` that a time has reached, of lines on both sides. -/
def lastLine (interval first t : Int) : Int :=
  first + (t - first) / interval.natAbs * interval.natAbs

/-- What is kept of the times: the last line of the latest that was not before the line one interval
    from the one kept until then. -/
def kept (interval first : Int) (times : List Int) : Int :=
  times.foldl (fun l t => if l + interval ≤ t then lastLine interval first t else l) first

theorem kept_concat (times : List Int) (t : Int) :
    kept interval first (times ++ [t]) =
      if kept interval first times + interval ≤ t then lastLine interval first t
      else kept interval first times := by
  unfold kept
  rw [List.foldl_append]
  rfl

theorem kept_line (times : List Int) :
    ∃ k : Int, kept interval first times = first + k * interval.natAbs := by
  induction times using List.reverseRecOn with
  | nil => exact ⟨0, by rw [zero_mul, add_zero]; rfl⟩
  | append_singleton times t ih =>
    rw [kept_concat]
    split
    · exact ⟨(t - first) / interval.natAbs, rfl⟩
    · exact ih

theorem lastLine_le (first t : Int) (h : interval ≠ 0) : lastLine interval first t ≤ t := by
  have hdiv := Int.mul_ediv_add_emod (t - first) interval.natAbs
  have hmod : 0 ≤ (t - first) % interval.natAbs := Int.emod_nonneg _ (by omega)
  unfold lastLine
  linarith [mul_comm (interval.natAbs : Int) ((t - first) / interval.natAbs)]

theorem lt_lastLine_add (first t : Int) (h : interval ≠ 0) :
    t < lastLine interval first t + interval.natAbs := by
  have hdiv := Int.mul_ediv_add_emod (t - first) interval.natAbs
  have hmod : (t - first) % interval.natAbs < interval.natAbs := Int.emod_lt_of_pos _ (by omega)
  unfold lastLine
  linarith [mul_comm (interval.natAbs : Int) ((t - first) / interval.natAbs)]

/-- The quotient from a line some intervals beside. -/
theorem ediv_beside (h : interval ≠ 0) (k c : Int) :
    (t - (first + k * interval.natAbs + c * interval.natAbs)) / interval.natAbs =
      (t - first) / interval.natAbs - k - c := by
  have hsplit : t - (first + k * interval.natAbs + c * interval.natAbs) =
      (t - first) + (-k - c) * interval.natAbs := by ring
  rw [hsplit, Int.add_mul_ediv_right _ _ (by omega)]
  ring

/-- How far a ticker by division goes from the line that was due. -/
theorem skip_eq (first t : Int) (h : interval ≠ 0) {k : Int}
    (hle : first + k * interval.natAbs + interval ≤ t) :
    ((t - (first + k * interval.natAbs + interval)).tdiv interval + 1) * interval =
      lastLine interval first t - (first + k * interval.natAbs) := by
  have hbehind : 0 ≤ t - (first + k * interval.natAbs + interval) := by omega
  rcases lt_or_gt_of_ne h with hneg | hpos
  · have hone : interval = -1 * (interval.natAbs : Int) := by omega
    have hquot : (t - (first + k * interval.natAbs + interval)).tdiv interval =
        -((t - first) / interval.natAbs - k - -1) := by
      calc (t - (first + k * interval.natAbs + interval)).tdiv interval
          = (t - (first + k * interval.natAbs + interval)).tdiv (-(interval.natAbs : Int)) := by
            rw [show -(interval.natAbs : Int) = interval by omega]
        _ = -((t - (first + k * interval.natAbs + -1 * interval.natAbs)) / interval.natAbs) := by
            rw [Int.tdiv_neg, Int.tdiv_eq_ediv_of_nonneg hbehind, ← hone]
        _ = -((t - first) / interval.natAbs - k - -1) := by rw [ediv_beside h]
    rw [hquot]
    unfold lastLine
    calc (-((t - first) / interval.natAbs - k - -1) + 1) * interval
        = (-((t - first) / interval.natAbs - k - -1) + 1) * (-1 * interval.natAbs) := by
          rw [← hone]
      _ = _ := by ring
  · have hone : interval = 1 * (interval.natAbs : Int) := by omega
    have hquot : (t - (first + k * interval.natAbs + interval)).tdiv interval =
        (t - first) / interval.natAbs - k - 1 := by
      calc (t - (first + k * interval.natAbs + interval)).tdiv interval
          = (t - (first + k * interval.natAbs + interval)) / interval :=
            Int.tdiv_eq_ediv_of_nonneg hbehind
        _ = (t - (first + k * interval.natAbs + 1 * interval.natAbs)) / interval.natAbs := by
            rw [← hone, show (interval.natAbs : Int) = interval by omega]
        _ = (t - first) / interval.natAbs - k - 1 := ediv_beside h k 1
    rw [hquot]
    unfold lastLine
    calc ((t - first) / interval.natAbs - k - 1 + 1) * interval
        = ((t - first) / interval.natAbs - k - 1 + 1) * (1 * interval.natAbs) := by rw [← hone]
      _ = _ := by ring

/-- Times with no line between them have reached the same one. -/
theorem lastLine_eq (h : interval ≠ 0) {s : Int} (hst : s ≤ t)
    (hlt : t < lastLine interval first s + interval.natAbs) :
    lastLine interval first t = lastLine interval first s := by
  have hpos : 0 < (interval.natAbs : Int) := by omega
  have hle : (s - first) / interval.natAbs ≤ (t - first) / interval.natAbs :=
    Int.ediv_le_ediv hpos (sub_le_sub_right hst first)
  have hge : (t - first) / interval.natAbs < (s - first) / interval.natAbs + 1 := by
    rw [Int.ediv_lt_iff_lt_mul hpos, add_mul, one_mul]
    unfold lastLine at hlt
    linarith
  unfold lastLine
  rw [show (t - first) / interval.natAbs = (s - first) / interval.natAbs by omega]

theorem exists_greatest (first : Int) (hpos : 0 < interval) (times : List Int) :
    ∃ m ∈ first :: times, (∀ s ∈ first :: times, s ≤ m) ∧
      kept interval first (first :: times) = lastLine interval first m := by
  have hne : interval ≠ 0 := hpos.ne'
  induction times using List.reverseRecOn with
  | nil =>
    refine ⟨first, List.mem_singleton_self first, fun s hs => (List.mem_singleton.1 hs).le, ?_⟩
    show (if first + interval ≤ first then lastLine interval first first else first) = _
    rw [if_neg (by omega)]
    unfold lastLine
    rw [sub_self, Int.zero_ediv, zero_mul, add_zero]
  | append_singleton times t ih =>
    obtain ⟨m, hm, hgreatest, hkept⟩ := ih
    have hlt := lt_lastLine_add first m hne
    rw [← List.cons_append, kept_concat, hkept]
    rcases le_or_gt m t with hmt | hmt
    · refine ⟨t, by simp, fun s hs => ?_, ?_⟩
      · rcases List.mem_append.1 hs with hs | hs
        · exact (hgreatest s hs).trans hmt
        · exact (List.mem_singleton.1 hs).le
      · split
        · rfl
        · exact (lastLine_eq hne hmt (by omega)).symm
    · refine ⟨m, List.mem_append_left _ hm, fun s hs => ?_, if_neg (by omega)⟩
      rcases List.mem_append.1 hs with hs | hs
      · exact hgreatest s hs
      · rw [List.mem_singleton.1 hs]
        exact hmt.le

/-- Counting forward, the line kept is that of the greatest time. -/
theorem kept_eq_of_greatest (hpos : 0 < interval) {times : List Int} {m : Int}
    (hm : m ∈ first :: times) (hgreatest : ∀ s ∈ first :: times, s ≤ m) :
    kept interval first (first :: times) = lastLine interval first m := by
  obtain ⟨m', hm', hgreatest', hkept⟩ := exists_greatest first hpos times
  rw [hkept, le_antisymm (hgreatest m' hm') (hgreatest' m hm)]

end Grid

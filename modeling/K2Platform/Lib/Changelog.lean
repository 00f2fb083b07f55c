import Mathlib.Data.List.Basic
import Mathlib.Data.List.Induction

/-!
# Append-only tables and readers by position

A `Log ρ μ` is the list of the commits of an append-only table, oldest first.  A commit adds rows
and may carry a mark its writer stamps on it; the commits of other writers carry none.  Commits
are numbered from one, so a reader that has read up to commit `n` has read the first `n`.

* `between` — the rows of the commits after `start`, up to and including `stop`.
* `mark` — the newest mark: where the writer says it has got to.
* `rows_take_between` — an incremental read continues what was read before.
-/

set_option autoImplicit false

namespace Changelog

structure Commit (ρ μ : Type) where
  rows : List ρ
  mark : Option μ

abbrev Log (ρ μ : Type) := List (Commit ρ μ)

variable {ρ μ : Type}

def rows (log : Log ρ μ) : List ρ := log.flatMap Commit.rows

@[simp] theorem rows_nil : rows ([] : Log ρ μ) = [] := rfl

/-- The number of the newest commit. -/
def head (log : Log ρ μ) : Option Nat := if log = [] then none else some log.length

def between (log : Log ρ μ) (start : Option Nat) (stop : Nat) : List ρ :=
  rows ((log.take stop).drop (start.getD 0))

def mark (log : Log ρ μ) : Option μ := log.foldl (fun m c => c.mark.or m) none

theorem rows_append (l l' : Log ρ μ) : rows (l ++ l') = rows l ++ rows l' := List.flatMap_append

@[simp] theorem rows_singleton (c : Commit ρ μ) : rows [c] = c.rows := by simp [rows]

theorem mark_concat (log : Log ρ μ) (c : Commit ρ μ) : mark (log ++ [c]) = c.mark.or (mark log) := by
  rw [mark, List.foldl_append]
  rfl

theorem head_eq_some_iff {log : Log ρ μ} {n : Nat} :
    head log = some n ↔ log.length = n ∧ log ≠ [] := by
  unfold head
  split
  · rename_i h
    simp [h]
  · rename_i h
    simp [h]

/-- What was read up to `start` and what is read from there is what there is up to `stop`. -/
theorem rows_take_between (log : Log ρ μ) (start : Option Nat) {stop : Nat}
    (h : start.getD 0 ≤ stop) :
    rows (log.take (start.getD 0)) ++ between log start stop = rows (log.take stop) := by
  have hmin : min (start.getD 0) stop = start.getD 0 := Nat.min_eq_left h
  rw [between, ← rows_append]
  conv_rhs => rw [← List.take_append_drop (start.getD 0) (log.take stop)]
  rw [List.take_take, hmin]

theorem take_append_of_le {log more : Log ρ μ} {n : Nat} (h : n ≤ log.length) :
    (log ++ more).take n = log.take n := List.take_append_of_le_length h

end Changelog

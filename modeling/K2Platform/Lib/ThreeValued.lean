/-!
# Three-valued conditions

Conditions of SQL over nullable values: a comparison with NULL is unknown (`none`), `AND` is the
conjunction of Kleene's logic, and a branch of `CASE` is taken only where its condition is true.

* `and_eq_true_iff`, `compare_eq_true_iff` — what makes each of them true.
* `caseWhen_eq_some_iff` — what a `CASE` without `ELSE` evaluates to.
-/

set_option autoImplicit false

namespace ThreeValued

variable {α β : Type}

/-- False decides a conjunction also where the other side is unknown. -/
protected def and : Option Bool → Option Bool → Option Bool
  | some false, _ => some false
  | _, some false => some false
  | some true, some true => some true
  | _, _ => none

def compare (r : α → β → Bool) (a : Option α) (b : Option β) : Option Bool :=
  a.bind fun a => b.map (r a)

/-- `CASE WHEN cond THEN value END`. -/
def caseWhen (cond : Option Bool) (value : Option α) : Option α :=
  if cond = some true then value else none

theorem and_eq_true_iff {p q : Option Bool} :
    ThreeValued.and p q = some true ↔ p = some true ∧ q = some true := by
  cases p with
  | none => cases q with
    | none => simp [ThreeValued.and]
    | some q => cases q <;> simp [ThreeValued.and]
  | some p => cases p <;> cases q with
    | none => simp [ThreeValued.and]
    | some q => cases q <;> simp [ThreeValued.and]

theorem compare_eq_true_iff {r : α → β → Bool} {a : Option α} {b : Option β} :
    compare r a b = some true ↔ ∃ x y, a = some x ∧ b = some y ∧ r x y = true := by
  cases a with
  | none => simp [compare]
  | some x => cases b with
    | none => simp [compare]
    | some y => simp [compare]

theorem caseWhen_eq_some_iff {cond : Option Bool} {value : Option α} {x : α} :
    caseWhen cond value = some x ↔ cond = some true ∧ value = some x := by
  unfold caseWhen
  split
  · rename_i h
    simp [h]
  · rename_i h
    simp [h]

end ThreeValued

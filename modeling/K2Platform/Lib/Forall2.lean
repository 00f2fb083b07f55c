import Mathlib.Data.List.Forall2

/-!
# Lists related element by element

* `exists_of_mem_right` — an element of the second list has one of the first.
* `split_left` — where the first list is cut, the second can be cut.
-/

set_option autoImplicit false

namespace List.Forall₂

variable {α β : Type} {R : α → β → Prop}

theorem exists_of_mem_right {xs : List α} {ys : List β} (h : List.Forall₂ R xs ys) {y : β}
    (hy : y ∈ ys) : ∃ x ∈ xs, R x y := by
  induction h with
  | nil => cases hy
  | @cons x _ xs _ hR _ ih =>
    rcases List.mem_cons.1 hy with rfl | hy
    · exact ⟨x, List.mem_cons_self, hR⟩
    · obtain ⟨z, hz, hRz⟩ := ih hy
      exact ⟨z, List.mem_cons_of_mem x hz, hRz⟩

theorem split_left {xs ys : List α} {zs : List β} (h : List.Forall₂ R (xs ++ ys) zs) :
    ∃ us vs, zs = us ++ vs ∧ List.Forall₂ R xs us ∧ List.Forall₂ R ys vs := by
  induction xs generalizing zs with
  | nil => exact ⟨[], zs, rfl, .nil, h⟩
  | cons x xs ih =>
    cases h with
    | cons hx h =>
      obtain ⟨us, vs, rfl, hus, hvs⟩ := ih h
      exact ⟨_ :: us, vs, rfl, .cons hx hus, hvs⟩

end List.Forall₂

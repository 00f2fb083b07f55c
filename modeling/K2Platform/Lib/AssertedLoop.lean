import Mathlib.Data.List.Basic

/-!
# Loops that assert

A loop over some items whose every step is asserted; it stops where an assertion fails.

* `loop_eq_some` — a loop that comes through has done what it does without the assertions.
* `loop_isSome_iff` — where an assertion only depends on the item, as long as some `R` is kept, the
  loop comes through exactly when every item passes.
-/

set_option autoImplicit false

namespace Asserted

variable {α β : Type} {step : β → α → β} {holds : β → α → Bool}

def loop (step : β → α → β) (holds : β → α → Bool) (b : β) (l : List α) : Option β :=
  l.foldlM (fun b a => if holds b a then some (step b a) else none) b

theorem loop_cons (b : β) (a : α) (l : List α) :
    loop step holds b (a :: l) = if holds b a then loop step holds (step b a) l else none := by
  unfold loop
  rw [List.foldlM_cons]
  split
  · rfl
  · rfl

theorem loop_eq_some {b b' : β} {l : List α} (h : loop step holds b l = some b') :
    b' = l.foldl step b := by
  induction l generalizing b with
  | nil => exact (Option.some.inj h).symm
  | cons a l ih =>
    rw [loop_cons] at h
    split at h
    · exact ih h
    · cases h

theorem loop_isSome_iff {R : β → Prop} {ok : α → Prop}
    (hkeep : ∀ b a, R b → holds b a = true → R (step b a))
    (hholds : ∀ b a, R b → (holds b a = true ↔ ok a)) (l : List α) :
    ∀ {b : β}, R b → ((loop step holds b l).isSome ↔ ∀ a ∈ l, ok a) := by
  induction l with
  | nil =>
    intro b _
    exact iff_of_true rfl fun a ha => absurd ha List.not_mem_nil
  | cons a l ih =>
    intro b hb
    rw [loop_cons, List.forall_mem_cons, ← hholds b a hb]
    by_cases h : holds b a = true
    · rw [if_pos h, and_iff_right h]
      exact ih (hkeep b a hb h)
    · rw [if_neg h]
      exact iff_of_false (by simp) fun hall => h hall.1

theorem loop_invariant {R : β → Prop} (hkeep : ∀ b a, R b → holds b a = true → R (step b a))
    {l : List α} {b b' : β} (hb : R b) (h : loop step holds b l = some b') : R b' := by
  induction l generalizing b with
  | nil => exact Option.some.inj h ▸ hb
  | cons a l ih =>
    rw [loop_cons] at h
    split at h
    · rename_i hholds
      exact ih (hkeep b a hb hholds) h
    · cases h

end Asserted

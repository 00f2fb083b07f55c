import Mathlib.Data.List.Basic
import Mathlib.Data.List.Induction

/-!
# Work that waits

Pieces of work arrive one after another and are fed to a state, each alone or several at once.  It
makes no difference where every piece may follow what waits before it.

* `feed_flatten` — pieces that are fed at once come to what they come to one by one.
-/

set_option autoImplicit false

namespace Backlog

variable {σ α : Type} (Follows : List α → List α → Prop)

/-- Every piece follows all that is before it. -/
def Chained (pieces : List (List α)) : Prop :=
  ∀ before piece after, pieces = before ++ piece :: after → Follows before.flatten piece

variable {Follows} {pieces : List (List α)} {piece : List α}

theorem chained_nil : Chained Follows ([] : List (List α)) := by
  intro before piece after h
  cases before <;> cases h

theorem Chained.concat (h : Chained Follows pieces) (hpiece : Follows pieces.flatten piece) :
    Chained Follows (pieces ++ [piece]) := by
  intro before x after heq
  rcases List.eq_nil_or_concat after with rfl | ⟨after, y, rfl⟩
  · obtain ⟨rfl, hx⟩ := List.append_inj' heq rfl
    cases hx
    exact hpiece
  · rw [List.concat_eq_append, ← List.cons_append, ← List.append_assoc] at heq
    exact h before x after (List.append_inj' heq rfl).1

theorem Chained.of_concat (h : Chained Follows (pieces ++ [piece])) :
    Chained Follows pieces ∧ Follows pieces.flatten piece := by
  refine ⟨fun before x after heq => h before x (after ++ [piece]) ?_, h pieces piece [] rfl⟩
  rw [heq, List.append_assoc]
  rfl

theorem feed_flatten {feed : σ → List α → σ} (hnil : ∀ s, feed s [] = s)
    (happend : ∀ s a b, Follows a b → feed s (a ++ b) = feed (feed s a) b)
    (h : Chained Follows pieces) (s : σ) : feed s pieces.flatten = pieces.foldl feed s := by
  induction pieces using List.reverseRecOn with
  | nil => exact hnil s
  | append_singleton pieces piece ih =>
    obtain ⟨hpieces, hpiece⟩ := h.of_concat
    rw [List.flatten_append, List.flatten_singleton, happend s _ _ hpiece, ih hpieces,
      List.foldl_append]
    rfl

end Backlog

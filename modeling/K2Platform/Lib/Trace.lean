import Mathlib.Data.List.Basic

/-!
# Properties of a trace

A trace is the list of everything that has happened, oldest first.

* `Everywhere P t` — at every event of `t`, `P` holds of the past and the event.
* `Answered req ans t` — every event that is a `req` has an `ans` after it.

Each comes with the rule for a trace that is extended at its end, so that an invariant that
mentions one can be carried along a run.
-/

set_option autoImplicit false

namespace Trace

variable {ω : Type}

/-! ## At every event -/

def Everywhere (P : List ω → ω → Prop) (t : List ω) : Prop :=
  ∀ pre e post, t = pre ++ e :: post → P pre e

theorem everywhere_nil (P : List ω → ω → Prop) : Everywhere P [] := by
  intro pre e post h
  cases pre <;> cases h

theorem everywhere_cons {P : List ω → ω → Prop} {e : ω} {t : List ω} :
    Everywhere P (e :: t) ↔ P [] e ∧ Everywhere (fun pre x => P (e :: pre) x) t := by
  constructor
  · exact fun h => ⟨h [] e t rfl, fun pre x post ht => h (e :: pre) x post (by rw [ht]; rfl)⟩
  · rintro ⟨he, ht⟩ pre x post h
    cases pre with
    | nil => cases h; exact he
    | cons y pre => cases h; exact ht pre x post rfl

instance decidableEverywhere :
    (P : List ω → ω → Prop) → [∀ pre e, Decidable (P pre e)] → (t : List ω) →
      Decidable (Everywhere P t)
  | P, _, [] => isTrue (everywhere_nil P)
  | P, _, e :: t =>
    have := decidableEverywhere (fun pre x => P (e :: pre) x) t
    decidable_of_iff _ everywhere_cons.symm

theorem everywhere_append {P : List ω → ω → Prop} {t u : List ω} :
    Everywhere P (t ++ u) ↔ Everywhere P t ∧ Everywhere (fun pre e => P (t ++ pre) e) u := by
  constructor
  · intro h
    refine ⟨fun pre e post ht => h pre e (post ++ u) ?_, fun pre e post hu => h (t ++ pre) e post ?_⟩
    · rw [ht, List.append_assoc, List.cons_append]
    · rw [hu, List.append_assoc]
  · rintro ⟨ht, hu⟩ pre e post h
    rcases List.append_eq_append_iff.1 h with ⟨l, rfl, hl⟩ | ⟨l, rfl, hl⟩
    · exact hu l e post hl
    · cases l with
      | nil =>
        have := hu [] e post hl.symm
        rwa [List.append_nil, List.append_nil] at this
      | cons x l =>
        cases hl
        exact ht pre _ l rfl

theorem Everywhere.left {P : List ω → ω → Prop} {t u : List ω} (h : Everywhere P (t ++ u)) :
    Everywhere P t :=
  (everywhere_append.1 h).1

/-- Extending a trace by events of which `P` asks nothing. -/
theorem Everywhere.append_of_forall {P : List ω → ω → Prop} {t u : List ω} (ht : Everywhere P t)
    (hu : ∀ e ∈ u, ∀ pre, P pre e) : Everywhere P (t ++ u) :=
  everywhere_append.2 ⟨ht, fun _ e _ h => hu e (h ▸ by simp) _⟩

theorem everywhere_concat {P : List ω → ω → Prop} {t : List ω} {e : ω} :
    Everywhere P (t ++ [e]) ↔ Everywhere P t ∧ P t e := by
  rw [everywhere_append, everywhere_cons, List.append_nil]
  exact ⟨fun h => ⟨h.1, h.2.1⟩, fun h => ⟨h.1, h.2, everywhere_nil _⟩⟩

/-! ## Requests and answers -/

def Answered (req ans : ω → Prop) (t : List ω) : Prop :=
  ∀ pre e post, t = pre ++ e :: post → req e → ∃ x ∈ post, ans x

variable {req ans : ω → Prop}

theorem answered_nil : Answered req ans ([] : List ω) := by
  intro pre e post h
  cases pre <;> cases h

theorem answered_cons {e : ω} {t : List ω} :
    Answered req ans (e :: t) ↔ (req e → ∃ x ∈ t, ans x) ∧ Answered req ans t := by
  constructor
  · exact fun h => ⟨h [] e t rfl, fun pre x post ht => h (e :: pre) x post (by rw [ht]; rfl)⟩
  · rintro ⟨he, ht⟩ pre x post h
    cases pre with
    | nil => cases h; exact he
    | cons y pre => cases h; exact ht pre x post rfl

instance decidableAnswered [DecidablePred req] [DecidablePred ans] :
    (t : List ω) → Decidable (Answered req ans t)
  | [] => isTrue answered_nil
  | _ :: t =>
    have := decidableAnswered t
    decidable_of_iff _ answered_cons.symm

theorem answered_of_forall_not {t : List ω} (h : ∀ e ∈ t, ¬ req e) : Answered req ans t :=
  fun _ e _ ht hreq => absurd hreq (h e (ht ▸ by simp))

theorem Answered.append {t u : List ω} (ht : Answered req ans t) (hu : ∀ e ∈ u, ¬ req e) :
    Answered req ans (t ++ u) := by
  intro pre e post h hreq
  rcases List.append_eq_append_iff.1 h with ⟨l, rfl, hl⟩ | ⟨l, rfl, hl⟩
  · exact absurd hreq (hu e (hl ▸ by simp))
  · cases l with
    | nil => exact absurd hreq (hu e (by simp at hl; simp [← hl]))
    | cons x l =>
      cases hl
      obtain ⟨y, hy, hans⟩ := ht pre _ l rfl hreq
      exact ⟨y, List.mem_append_left _ hy, hans⟩

/-- An answer at the end of a trace answers everything before it. -/
theorem answered_concat {t : List ω} {x : ω} (hx : ans x) (hreq : ¬ req x) :
    Answered req ans (t ++ [x]) := by
  intro pre e post h he
  rcases List.eq_nil_or_concat post with rfl | ⟨post', y, rfl⟩
  · obtain ⟨_, hxe⟩ := List.append_inj' h rfl
    cases hxe
    exact absurd he hreq
  · rw [List.concat_eq_append, ← List.cons_append, ← List.append_assoc] at h
    obtain ⟨_, hxy⟩ := List.append_inj' h rfl
    cases hxy
    exact ⟨x, by simp, hx⟩

end Trace

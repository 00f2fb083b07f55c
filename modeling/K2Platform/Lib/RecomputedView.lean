import Mathlib.Data.List.Basic
import Mathlib.Data.List.Induction

/-!
# Views kept by recomputing the keys a batch touches

A base table grows batch by batch, and a view shows one value for each key: the aggregate of the
rows of the key.  After a batch the keys it touches are computed again over the whole base table;
but a round may stop short of that, having left the view as it was or having emptied those keys.

* `View.round`, `View.rounds` — what a round does to base table and view.
* `Revisited` — after every round that stopped short and touched the key, a later one that did not
  touches it again.
* `shown_eq_iff` — the view shows the aggregate of all the rows of a key exactly when the key is
  revisited.
-/

set_option autoImplicit false

namespace RecomputedView

variable {α κ β : Type}

/-- How far a round gets with the keys of its batch. -/
inductive Effect where
  | skipped
  | cleared
  | recomputed
  deriving DecidableEq, Repr

structure Round (α : Type) where
  rows : List α
  effect : Effect

structure View (α κ β : Type) where
  rows : List α
  shown : κ → β

section Rounds

variable [DecidableEq κ] (key : α → κ) (agg : κ → List α → β)

/-- The rows of a key. -/
def ofKey (k : κ) (rows : List α) : List α := rows.filter fun x => key x = k

def Touches (k : κ) (r : Round α) : Prop := ofKey key k r.rows ≠ []

instance (k : κ) (r : Round α) : Decidable (Touches key k r) :=
  decidable_of_iff (¬ (ofKey key k r.rows).isEmpty) (by simp [Touches])

namespace View

def empty : View α κ β := ⟨[], fun k => agg k []⟩

def round (v : View α κ β) (r : Round α) : View α κ β where
  rows := v.rows ++ r.rows
  shown := fun k =>
    if Touches key k r then
      match r.effect with
      | .skipped => v.shown k
      | .cleared => agg k []
      | .recomputed => agg k (ofKey key k (v.rows ++ r.rows))
    else v.shown k

def rounds (v : View α κ β) (rs : List (Round α)) : View α κ β := rs.foldl (round key agg) v

end View

/-- Every round that touches the key and stops short is followed by one that touches it and does
    not. -/
def Revisited (k : κ) (rs : List (Round α)) : Prop :=
  ∀ pre r post, rs = pre ++ r :: post → Touches key k r → r.effect ≠ .recomputed →
    ∃ r' ∈ post, Touches key k r' ∧ r'.effect = .recomputed

end Rounds

variable [DecidableEq κ] {key : α → κ} {agg : κ → List α → β} {k : κ}

theorem ofKey_append (rows more : List α) :
    ofKey key k (rows ++ more) = ofKey key k rows ++ ofKey key k more := List.filter_append ..

theorem rounds_concat (v : View α κ β) (rs : List (Round α)) (r : Round α) :
    v.rounds key agg (rs ++ [r]) = (v.rounds key agg rs).round key agg r := by
  rw [View.rounds, List.foldl_append]
  rfl

/-- A view that a round was made on: the keys it does not touch are as they were. -/
theorem eq_round {v w : View α κ β} {r : Round α} (hrows : w.rows = v.rows ++ r.rows)
    (hstay : ∀ k, ¬ Touches key k r → w.shown k = v.shown k)
    (hskip : r.effect = .skipped → ∀ k, Touches key k r → w.shown k = v.shown k)
    (hclear : r.effect = .cleared → ∀ k, Touches key k r → w.shown k = agg k [])
    (hrecompute : r.effect = .recomputed → ∀ k, Touches key k r →
      w.shown k = agg k (ofKey key k (v.rows ++ r.rows))) : w = v.round key agg r := by
  have hshown : w.shown = (v.round key agg r).shown := by
    funext k
    rw [View.round]
    simp only
    split
    · rename_i ht
      cases he : r.effect with
      | skipped => exact hskip he k ht
      | cleared => exact hclear he k ht
      | recomputed => exact hrecompute he k ht
    · rename_i ht
      exact hstay k ht
  cases w
  cases hrows
  cases hshown
  rfl

/-! ## Revisited keys -/

theorem revisited_nil : Revisited key k ([] : List (Round α)) := by
  intro pre r post hsplit
  exact absurd hsplit.symm (by simp)

/-- An element of a list with one more at the end is that one or comes before it. -/
theorem concat_eq_split {ρ : Type} {rs pre post : List ρ} {r r' : ρ}
    (h : rs ++ [r] = pre ++ r' :: post) :
    (r' = r ∧ post = []) ∨ ∃ post', post = post' ++ [r] ∧ rs = pre ++ r' :: post' := by
  rcases List.eq_nil_or_concat post with rfl | ⟨post', last, rfl⟩
  · obtain ⟨-, hlast⟩ := List.append_inj' h rfl
    exact Or.inl ⟨(List.cons.inj hlast).1.symm, rfl⟩
  · rw [List.concat_eq_append, ← List.cons_append, ← List.append_assoc] at h
    obtain ⟨hrs, hlast⟩ := List.append_inj' h rfl
    refine Or.inr ⟨post', ?_, hrs⟩
    rw [List.concat_eq_append, hlast]

theorem revisited_concat_of_recomputed {rs : List (Round α)} {r : Round α}
    (ht : Touches key k r) (hr : r.effect = .recomputed) : Revisited key k (rs ++ [r]) := by
  intro pre r' post hsplit _ hshort
  rcases concat_eq_split hsplit with ⟨rfl, _⟩ | ⟨post', rfl, _⟩
  · exact absurd hr hshort
  · exact ⟨r, by simp, ht, hr⟩

theorem not_revisited_concat {rs : List (Round α)} {r : Round α} (ht : Touches key k r)
    (hr : r.effect ≠ .recomputed) : ¬ Revisited key k (rs ++ [r]) := by
  intro h
  obtain ⟨r', hmem, _⟩ := h rs r [] rfl ht hr
  cases hmem

theorem revisited_concat_of_not_touches {rs : List (Round α)} {r : Round α}
    (ht : ¬ Touches key k r) : Revisited key k (rs ++ [r]) ↔ Revisited key k rs := by
  constructor
  · rintro h pre r' post rfl ht' hshort
    obtain ⟨r'', hmem, ht'', hr''⟩ := h pre r' (post ++ [r]) (by simp) ht' hshort
    rcases List.mem_append.1 hmem with hmem | hmem
    · exact ⟨r'', hmem, ht'', hr''⟩
    · rw [List.mem_singleton.1 hmem] at ht''
      exact absurd ht'' ht
  · intro h pre r' post hsplit ht' hshort
    rcases concat_eq_split hsplit with ⟨rfl, _⟩ | ⟨post', rfl, rfl⟩
    · exact absurd ht' ht
    · obtain ⟨r'', hmem, hr''⟩ := h pre r' post' rfl ht' hshort
      exact ⟨r'', List.mem_append_left _ hmem, hr''⟩

/-! ## What the view shows -/

/-- The view shows the aggregate of the rows of the key but for the last few. -/
def Lacks (agg : κ → List α → β) (key : α → κ) (k : κ) (v : View α κ β) (missing : List α) : Prop :=
  ∃ l, ofKey key k v.rows = l ++ missing ∧ v.shown k = agg k l

theorem lacks_round_of_not_touches {v : View α κ β} {r : Round α} {missing : List α}
    (ht : ¬ Touches key k r) (h : Lacks agg key k v missing) :
    Lacks agg key k (v.round key agg r) missing := by
  obtain ⟨l, hrows, hshown⟩ := h
  have hnil : ofKey key k r.rows = [] := not_not.1 ht
  refine ⟨l, ?_, ?_⟩
  · rw [View.round, ofKey_append, hnil, List.append_nil]
    exact hrows
  · rw [View.round]
    simp only [if_neg ht]
    exact hshown

theorem lacks_round_of_recomputed {v : View α κ β} {r : Round α} (ht : Touches key k r)
    (hr : r.effect = .recomputed) : Lacks agg key k (v.round key agg r) [] := by
  refine ⟨ofKey key k (v.rows ++ r.rows), by rw [List.append_nil]; rfl, ?_⟩
  rw [View.round]
  simp only [if_pos ht, hr]

/-- A round that stops short leaves its own rows of the key out. -/
theorem lacks_round_of_short {v : View α κ β} {r : Round α} {missing : List α}
    (ht : Touches key k r) (hr : r.effect ≠ .recomputed) (h : Lacks agg key k v missing) :
    ∃ missing' ≠ [], Lacks agg key k (v.round key agg r) missing' := by
  obtain ⟨l, hrows, hshown⟩ := h
  cases he : r.effect with
  | skipped =>
    refine ⟨missing ++ ofKey key k r.rows, List.append_ne_nil_of_right_ne_nil _ ht, l, ?_, ?_⟩
    · rw [View.round, ofKey_append, hrows, List.append_assoc]
    · rw [View.round]
      simp only [if_pos ht, he]
      exact hshown
  | cleared =>
    refine ⟨ofKey key k (v.rows ++ r.rows), ?_, [], rfl, ?_⟩
    · rw [ofKey_append]
      exact List.append_ne_nil_of_right_ne_nil _ ht
    · rw [View.round]
      simp only [if_pos ht, he]
  | recomputed => exact absurd he hr

variable (key agg k) in
theorem exists_lacks (rs : List (Round α)) :
    ∃ missing, Lacks agg key k ((View.empty agg).rounds key agg rs) missing ∧
      (missing = [] ↔ Revisited key k rs) := by
  induction rs using List.reverseRecOn with
  | nil => exact ⟨[], ⟨[], rfl, rfl⟩, ⟨fun _ => revisited_nil, fun _ => rfl⟩⟩
  | append_singleton rs r ih =>
    obtain ⟨missing, hlacks, hiff⟩ := ih
    rw [rounds_concat]
    by_cases ht : Touches key k r
    · by_cases hr : r.effect = .recomputed
      · exact ⟨[], lacks_round_of_recomputed ht hr,
          ⟨fun _ => revisited_concat_of_recomputed ht hr, fun _ => rfl⟩⟩
      · obtain ⟨missing', hne, hlacks'⟩ := lacks_round_of_short ht hr hlacks
        exact ⟨missing', hlacks',
          ⟨fun h => absurd h hne, fun h => absurd h (not_revisited_concat ht hr)⟩⟩
    · exact ⟨missing, lacks_round_of_not_touches ht hlacks,
        hiff.trans (revisited_concat_of_not_touches ht).symm⟩

variable (key agg) in
/-- **The view is right exactly at the revisited keys**, where the aggregate of a key tells a list
    of rows from a longer one. -/
theorem shown_eq_iff (hagg : ∀ l more, agg k l = agg k (l ++ more) → more = [])
    (rs : List (Round α)) :
    ((View.empty agg).rounds key agg rs).shown k =
        agg k (ofKey key k ((View.empty agg).rounds key agg rs).rows) ↔ Revisited key k rs := by
  obtain ⟨missing, ⟨l, hrows, hshown⟩, hiff⟩ := exists_lacks key agg k rs
  rw [← hiff, hrows, hshown]
  constructor
  · exact hagg l missing
  · rintro rfl
    rw [List.append_nil]

/-- Where every round that touches the key recomputes it, nothing is left out. -/
theorem revisited_of_recomputed {rs : List (Round α)} (h : ∀ r ∈ rs, r.effect = .recomputed) :
    Revisited key k rs := by
  rintro pre r post rfl _ hshort
  exact absurd (h r (by simp)) hshort

variable (agg) in
theorem shown_of_revisited {rs : List (Round α)} (h : Revisited key k rs) :
    ((View.empty agg).rounds key agg rs).shown k =
      agg k (ofKey key k ((View.empty agg).rounds key agg rs).rows) := by
  obtain ⟨missing, ⟨l, hrows, hshown⟩, hiff⟩ := exists_lacks key agg k rs
  rw [hrows, hshown, hiff.2 h, List.append_nil]

end RecomputedView

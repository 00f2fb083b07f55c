import Mathlib.Data.List.Count
import Mathlib.Data.List.Nodup
import Mathlib.Data.List.Perm.Basic
import K2Platform.Lib.SortOn

/-!
# Going through a list in slices

A list is cut into slices by a value of its elements, and gone through slice by slice, in the order
of these values.

* `slices_perm` — the slices have every element once.
* `flatMap_slices_perm_iff` — when those that were gone through give all that the list gives.
* `sortOn_slices` — the slices, each sorted, are the list sorted, if the keys go with the values.
-/

set_option autoImplicit false

theorem flatMap_eq_of_unique {ι α : Type} {l : List ι} {i : ι} {f : ι → List α} (hl : l.Nodup)
    (hi : i ∈ l) (h : ∀ j ∈ l, j ≠ i → f j = []) : l.flatMap f = f i := by
  obtain ⟨l₁, l₂, rfl⟩ := List.append_of_mem hi
  have hne : ∀ j ∈ l₁ ++ l₂, j ≠ i := by
    rw [List.nodup_append] at hl
    intro j hj hji
    subst hji
    rcases List.mem_append.1 hj with hj | hj
    · exact hl.2.2 j hj j List.mem_cons_self rfl
    · exact (List.nodup_cons.1 hl.2.1).1 hj
  rw [List.flatMap_append, List.flatMap_cons,
    List.flatMap_eq_nil_iff.2 fun j hj => h j (List.mem_append_left _ hj)
      (hne j (List.mem_append_left _ hj)),
    List.flatMap_eq_nil_iff.2 fun j hj => h j
      (List.mem_append_right _ (List.mem_cons_of_mem _ hj)) (hne j (List.mem_append_right _ hj)),
    List.nil_append, List.append_nil]

theorem perm_of_filter_key {α κ : Type} [DecidableEq α] [DecidableEq κ] {f : α → κ}
    {l l' : List α} (h : ∀ k, (l.filter fun x => f x = k).Perm (l'.filter fun x => f x = k)) :
    l.Perm l' := by
  refine List.perm_iff_count.2 fun x => ?_
  have hof : ∀ m : List α, (m.filter fun y => f y = f x).count x = m.count x := fun m =>
    List.count_filter (decide_eq_true rfl)
  have hcount := List.perm_iff_count.1 (h (f x)) x
  rwa [hof, hof] at hcount

section Slices

variable {α σ : Type} [DecidableEq σ] {f : α → σ} {l : List α} {slices : List σ}

theorem slices_perm (hslices : slices.Nodup) (hcover : ∀ a ∈ l, f a ∈ slices) :
    (slices.flatMap fun s => l.filter fun a => f a = s).Perm l := by
  classical
  have hslice : ∀ k s : σ,
      ((l.filter fun a => f a = s).filter fun a => f a = k) =
        if s = k then l.filter fun a => f a = k else [] := by
    intro k s
    split
    · next h =>
      subst h
      simp
    · next h =>
      refine List.filter_eq_nil_iff.2 fun a ha hk => h ?_
      exact (of_decide_eq_true (List.mem_filter.1 ha).2).symm.trans (of_decide_eq_true hk)
  refine perm_of_filter_key (f := f) fun k => ?_
  rw [List.filter_flatMap]
  simp only [hslice]
  by_cases hk : k ∈ slices
  · rw [flatMap_eq_of_unique hslices hk fun s _ hne => if_neg hne, if_pos rfl]
  · have hnone : (l.filter fun a => f a = k) = [] := by
      refine List.filter_eq_nil_iff.2 fun a ha h => hk ?_
      exact of_decide_eq_true h ▸ hcover a ha
    simp [hnone]

/-- What some slices give is what their elements give. -/
theorem flatMap_slices_perm {β : Type} {g : α → List β} (hslices : slices.Nodup) :
    (slices.flatMap fun s => (l.filter fun a => f a = s).flatMap g).Perm
      ((l.filter fun a => f a ∈ slices).flatMap g) := by
  have hcover : ∀ a ∈ l.filter (fun a => f a ∈ slices), f a ∈ slices := fun a ha =>
    of_decide_eq_true (List.mem_filter.1 ha).2
  have hslice : ∀ s ∈ slices, ((l.filter fun a => f a ∈ slices).filter fun a => f a = s) =
      l.filter fun a => f a = s := by
    intro s hs
    rw [List.filter_filter]
    refine List.filter_congr fun a _ => ?_
    by_cases ha : f a = s
    · simp [ha, hs]
    · simp [ha]
  have hperm := (slices_perm hslices hcover).flatMap_right g
  rwa [List.flatMap_assoc, List.flatMap_congr fun s hs => congrArg (List.flatMap g) (hslice s hs)]
    at hperm

/-- Some slices give what the whole list gives exactly if no other element gives anything. -/
theorem flatMap_slices_perm_iff {β : Type} {g : α → List β} (hslices : slices.Nodup) :
    (slices.flatMap fun s => (l.filter fun a => f a = s).flatMap g).Perm (l.flatMap g) ↔
      ∀ a ∈ l, g a ≠ [] → f a ∈ slices := by
  have hdone := flatMap_slices_perm (l := l) (f := f) (g := g) hslices
  have hall : (l.flatMap g).Perm ((l.filter fun a => f a ∈ slices).flatMap g ++
      (l.filter fun a => !decide (f a ∈ slices)).flatMap g) := by
    rw [← List.flatMap_append]
    exact (List.filter_append_perm _ l).symm.flatMap_right g
  constructor
  · intro h a ha hne
    refine Classical.byContradiction fun hleft => hne ?_
    have hlength := (hdone.symm.trans (h.trans hall)).length_eq
    have hrest : ((l.filter fun a => !decide (f a ∈ slices)).flatMap g) = [] := by
      rw [List.length_append] at hlength
      exact List.length_eq_zero_iff.1 (by omega)
    exact List.flatMap_eq_nil_iff.1 hrest a (List.mem_filter.2 ⟨ha, by simp [hleft]⟩)
  · intro h
    have hrest : ((l.filter fun a => !decide (f a ∈ slices)).flatMap g) = [] := by
      refine List.flatMap_eq_nil_iff.2 fun a ha => Classical.byContradiction fun hne => ?_
      have hleft := (List.mem_filter.1 ha).2
      rw [decide_eq_true (h a (List.mem_of_mem_filter ha) hne)] at hleft
      cases hleft
    rw [hrest, List.append_nil] at hall
    exact hdone.trans hall.symm

end Slices

section Sorted

variable {α σ τ : Type} [LinearOrder σ] [LinearOrder τ] {f : α → σ} {l : List α} {slices : List σ}

theorem sortOn_slices {key : α → τ} (hkey : ∀ a ∈ l, ∀ b ∈ l, key a = key b → a = b)
    (hslices : slices.Pairwise (· < ·)) (hcover : ∀ a ∈ l, f a ∈ slices)
    (hmono : ∀ a ∈ l, ∀ b ∈ l, key a ≤ key b → f a ≤ f b) :
    (slices.flatMap fun s => sortOn key (l.filter fun a => f a = s)) = sortOn key l := by
  have hmem : ∀ {s a}, a ∈ sortOn key (l.filter fun a => f a = s) → a ∈ l ∧ f a = s := by
    intro s a ha
    have ha := (sortOn_perm _ _).mem_iff.1 ha
    exact ⟨List.mem_of_mem_filter ha, of_decide_eq_true (List.mem_filter.1 ha).2⟩
  refine (sortOn_eq hkey ?_ ?_).symm
  · have hsorted : (slices.flatMap fun s => sortOn key (l.filter fun a => f a = s)).Perm
        (slices.flatMap fun s => l.filter fun a => f a = s) :=
      List.Perm.flatMap_left _ fun s _ => sortOn_perm _ _
    exact hsorted.trans (slices_perm (hslices.imp ne_of_lt) hcover)
  · rw [List.pairwise_flatMap]
    refine ⟨fun s _ => sortOn_pairwise _ _, hslices.imp ?_⟩
    intro s s' hlt a ha b hb
    obtain ⟨ha, has⟩ := hmem ha
    obtain ⟨hb, hbs⟩ := hmem hb
    -- of two slices, the later has the later keys
    refine le_of_not_ge fun hge => ?_
    have hle := hmono b hb a ha hge
    rw [has, hbs] at hle
    exact absurd hlt (not_lt_of_ge hle)

end Sorted

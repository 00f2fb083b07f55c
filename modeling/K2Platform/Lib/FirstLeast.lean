import Mathlib.Data.List.MinMax
import Mathlib.Order.Basic

/-!
# Leaders of a list that arrives in batches

Elements of a linear order arrive batch by batch.  An element of a batch leads when nothing that
has arrived so far, its own batch included, is less; once it leads it is never reconsidered.

* `lows` — the leaders of every batch.
* `lows_length_eq_one_iff` — there is exactly one in the end when the first batch that is not
  empty holds the least element of all.
-/

set_option autoImplicit false

namespace FirstLeast

variable {α : Type} [LinearOrder α]

/-- The elements of the batch that nothing seen so far undercuts. -/
def leaders (seen batch : List α) : List α :=
  batch.filter fun x => (seen ++ batch).all fun y => x ≤ y

def lows (seen : List α) : List (List α) → List α
  | [] => []
  | batch :: rest => leaders seen batch ++ lows (seen ++ batch) rest

theorem mem_leaders {seen batch : List α} {x : α} :
    x ∈ leaders seen batch ↔ x ∈ batch ∧ ∀ y ∈ seen ++ batch, x ≤ y := by
  simp only [leaders, List.mem_filter, List.all_eq_true, decide_eq_true_eq]

@[simp] theorem leaders_nil (seen : List α) : leaders seen [] = [] := rfl

theorem exists_least {l : List α} (h : l ≠ []) : ∃ m ∈ l, ∀ y ∈ l, m ≤ y := by
  cases hm : l.minimum with
  | top => exact absurd (List.minimum_eq_top.1 hm) h
  | coe m => exact ⟨m, List.minimum_mem hm, fun y hy => List.minimum_le_of_mem hy hm⟩

/-- The first batch that is not empty has one leader. -/
theorem length_leaders {batch : List α} (hnodup : batch.Nodup) (h : batch ≠ []) :
    (leaders [] batch).length = 1 := by
  obtain ⟨m, hm, hleast⟩ := exists_least h
  have hmem : m ∈ leaders [] batch := mem_leaders.2 ⟨hm, by simpa using hleast⟩
  have hall : ∀ x ∈ leaders [] batch, x = m := by
    intro x hx
    obtain ⟨hxb, hle⟩ := mem_leaders.1 hx
    exact le_antisymm (hle m hm) (hleast x hxb)
  obtain ⟨l₁, l₂, hl⟩ := List.append_of_mem hmem
  have hnd : (leaders [] batch).Nodup := hnodup.filter _
  rw [hl] at hnd hall ⊢
  cases l₁ with
  | cons a l₁ =>
    rw [hall a (by simp)] at hnd
    simp at hnd
  | nil =>
    cases l₂ with
    | cons a l₂ =>
      rw [hall a (by simp)] at hnd
      simp at hnd
    | nil => rfl

/-- Nothing leads after `seen` exactly when its least element is below all that arrives. -/
theorem lows_eq_nil_iff {m : α} (batches : List (List α)) :
    ∀ {seen : List α}, m ∈ seen → (∀ y ∈ seen, m ≤ y) → (seen ++ batches.flatten).Nodup →
      (lows seen batches = [] ↔ ∀ x ∈ batches.flatten, m ≤ x) := by
  induction batches with
  | nil =>
    intro seen _ _ _
    simp [lows]
  | cons batch rest ih =>
    intro seen hm hleast hnodup
    rw [List.flatten_cons, ← List.append_assoc] at hnodup
    have hdisjoint : ∀ x ∈ batch, x ≠ m := by
      intro x hx he
      exact (List.nodup_append.1 (List.nodup_append.1 hnodup).1).2.2 m hm x hx he.symm
    have hleaders : leaders seen batch = [] ↔ ∀ x ∈ batch, m ≤ x := by
      constructor
      · intro hnil x hx
        by_contra hlt
        have hne : batch ≠ [] := List.ne_nil_of_mem hx
        obtain ⟨b, hb, hbleast⟩ := exists_least hne
        have hbm : b ≤ m := (hbleast x hx).trans (not_le.1 hlt).le
        have hlead : b ∈ leaders seen batch := mem_leaders.2 ⟨hb, fun y hy => by
          rcases List.mem_append.1 hy with hy | hy
          · exact hbm.trans (hleast y hy)
          · exact hbleast y hy⟩
        rw [hnil] at hlead
        cases hlead
      · intro hall
        refine List.eq_nil_iff_forall_not_mem.2 fun x hx => ?_
        obtain ⟨hxb, hle⟩ := mem_leaders.1 hx
        exact hdisjoint x hxb (le_antisymm (hle m (List.mem_append_left _ hm)) (hall x hxb))
    rw [lows, List.append_eq_nil_iff, hleaders, List.flatten_cons, List.forall_mem_append]
    refine and_congr_right fun hall => ih (List.mem_append_left _ hm) (fun y hy => ?_) hnodup
    rcases List.mem_append.1 hy with hy | hy
    · exact hleast y hy
    · exact hall y hy

/-- The first batch that is not empty holds the least element. -/
def LeastFirst (batches : List (List α)) : Prop :=
  ∀ pre batch post, batches = pre ++ batch :: post → pre.flatten = [] → batch ≠ [] →
    ∃ m ∈ batch, ∀ x ∈ batches.flatten, m ≤ x

theorem leastFirst_cons_nil {batches : List (List α)} :
    LeastFirst ([] :: batches) ↔ LeastFirst batches := by
  constructor
  · rintro h pre batch post rfl hpre hne
    exact h ([] :: pre) batch post rfl (by simpa using hpre) hne
  · intro h pre batch post hsplit hpre hne
    cases pre with
    | nil =>
      obtain rfl : [] = batch := (List.cons.inj hsplit).1
      exact absurd rfl hne
    | cons b pre =>
      obtain ⟨rfl, hrest⟩ := List.cons.inj hsplit
      exact h pre batch post hrest (by simpa using hpre) hne

theorem leastFirst_cons {batch : List α} {rest : List (List α)} (hne : batch ≠ []) {m : α}
    (hm : m ∈ batch) (hleast : ∀ y ∈ batch, m ≤ y) :
    LeastFirst (batch :: rest) ↔ ∀ x ∈ rest.flatten, m ≤ x := by
  constructor
  · intro h x hx
    obtain ⟨m', hm', hall⟩ := h [] batch rest rfl rfl hne
    have hmm : m' = m := le_antisymm
      (hall m (List.mem_append_left _ hm)) (hleast m' hm')
    exact hmm ▸ hall x (by rw [List.flatten_cons]; exact List.mem_append_right _ hx)
  · intro h pre b post hsplit hpre hb
    cases pre with
    | cons c pre =>
      obtain ⟨rfl, _⟩ := List.cons.inj hsplit
      rw [List.flatten_cons, List.append_eq_nil_iff] at hpre
      exact absurd hpre.1 hne
    | nil =>
      obtain ⟨rfl, rfl⟩ := List.cons.inj hsplit
      refine ⟨m, hm, fun x hx => ?_⟩
      rw [List.flatten_cons] at hx
      rcases List.mem_append.1 hx with hx | hx
      · exact hleast x hx
      · exact h x hx

/-- Exactly one element ever leads when the least of all comes in the first batch that has any. -/
theorem lows_length_eq_one_iff (batches : List (List α)) (hnodup : batches.flatten.Nodup)
    (hne : batches.flatten ≠ []) : (lows [] batches).length = 1 ↔ LeastFirst batches := by
  induction batches with
  | nil => exact absurd rfl hne
  | cons batch rest ih =>
    cases hb : batch with
    | nil =>
      subst hb
      rw [leastFirst_cons_nil, lows, leaders_nil, List.nil_append, List.append_nil]
      exact ih hnodup hne
    | cons b bs =>
      rw [← hb]
      have hbatch : batch ≠ [] := hb ▸ List.cons_ne_nil _ _
      obtain ⟨m, hm, hleast⟩ := exists_least hbatch
      rw [leastFirst_cons hbatch hm hleast, lows, List.length_append, List.nil_append,
        length_leaders (List.nodup_append.1 hnodup).1 hbatch,
        ← lows_eq_nil_iff rest hm hleast hnodup, ← List.length_eq_zero_iff]
      omega

end FirstLeast

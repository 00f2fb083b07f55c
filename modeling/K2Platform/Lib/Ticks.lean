import Mathlib.Data.List.MinMax
import Mathlib.Data.List.Nodup
import Mathlib.Data.List.Pairwise
import Mathlib.Order.Basic

/-!
# Windows inside one batch

A list that is cut into batches, and functions that look at an element's group inside its batch
only.  Such a function gives what it gives on the whole list where no group is cut.

* `Unsplit` — no group has members in two batches.
* `flatMap_map_eq_iff` — processing the batches is processing the whole, element by element.
* `unsplit_iff_first` — the least of each group in its batch is the least of the whole group
  exactly when no group is cut.
-/

set_option autoImplicit false

namespace Ticks

variable {α β κ τ : Type} (group : α → κ)

/-- No group has members in two batches. -/
def Unsplit (batches : List (List α)) : Prop :=
  batches.Pairwise fun a b => ∀ x ∈ a, ∀ y ∈ b, group x ≠ group y

theorem flatMap_map_eq_iff (f : List α → α → β) (g : α → β) (batches : List (List α)) :
    (batches.flatMap fun b => b.map (f b)) = batches.flatten.map g ↔
      ∀ b ∈ batches, ∀ x ∈ b, f b x = g x := by
  induction batches with
  | nil => simp
  | cons b batches ih =>
    rw [List.flatMap_cons, List.flatten_cons, List.map_append, List.forall_mem_cons, ← ih]
    constructor
    · intro h
      obtain ⟨hb, hrest⟩ := List.append_inj h (by rw [List.length_map, List.length_map])
      exact ⟨List.map_inj_left.1 hb, hrest⟩
    · rintro ⟨hb, hrest⟩
      rw [List.map_inj_left.2 hb, hrest]

theorem flatMap_filter_eq (p : List α → α → Bool) (q : α → Bool) (batches : List (List α))
    (h : ∀ b ∈ batches, ∀ x ∈ b, p b x = q x) :
    (batches.flatMap fun b => b.filter (p b)) = batches.flatten.filter q := by
  induction batches with
  | nil => rfl
  | cons b batches ih =>
    obtain ⟨hb, hrest⟩ := List.forall_mem_cons.1 h
    rw [List.flatMap_cons, List.flatten_cons, List.filter_append, ih hrest,
      List.filter_congr hb]

/-- In batches that cut no group, an element's group lies in its batch. -/
theorem mem_of_unsplit {batches : List (List α)} (h : Unsplit group batches) {b : List α}
    (hb : b ∈ batches) {x y : α} (hx : x ∈ b) (hy : y ∈ batches.flatten)
    (hxy : group y = group x) : y ∈ b := by
  obtain ⟨c, hc, hyc⟩ := List.mem_flatten.1 hy
  by_cases hbc : b = c
  · exact hbc ▸ hyc
  · have : Std.Symm fun a b : List α => ∀ x ∈ a, ∀ y ∈ b, group x ≠ group y :=
      ⟨fun a c hac x hx y hy he => hac y hy x hx he.symm⟩
    exact absurd hxy.symm (List.Pairwise.forall h hb hc hbc x hx y hyc)

theorem filter_of_unsplit [DecidableEq κ] {batches : List (List α)} (h : Unsplit group batches)
    {b : List α} (hb : b ∈ batches) {x : α} (hx : x ∈ b) :
    b.filter (fun y => group y = group x) = batches.flatten.filter fun y => group y = group x := by
  induction batches with
  | nil => cases hb
  | cons c batches ih =>
    obtain ⟨hc, hrest⟩ := List.pairwise_cons.1 h
    rw [List.flatten_cons, List.filter_append]
    rcases List.mem_cons.1 hb with rfl | hb
    · have hnone : batches.flatten.filter (fun y => group y = group x) = [] := by
        refine List.filter_eq_nil_iff.2 fun y hy hyx => ?_
        obtain ⟨c, hcm, hyc⟩ := List.mem_flatten.1 hy
        exact hc c hcm x hx y hyc (of_decide_eq_true hyx).symm
      rw [hnone, List.append_nil]
    · have hnone : c.filter (fun y => group y = group x) = [] :=
        List.filter_eq_nil_iff.2 fun y hy hyx => hc b hb y hy x hx (of_decide_eq_true hyx)
      rw [hnone, List.nil_append]
      exact ih hrest hb

/-! ## The first of a group -/

variable [LinearOrder τ] (key : α → τ)

/-- Nothing in the list is of the same group and before it. -/
def First (l : List α) (x : α) : Prop := ∀ y ∈ l, group y = group x → key x ≤ key y

theorem exists_first {l : List α} {x : α} (hx : x ∈ l) :
    ∃ m ∈ l, group m = group x ∧ First group key l m := by
  classical
  have hne : l.filter (fun y => group y = group x) ≠ [] :=
    List.ne_nil_of_mem (List.mem_filter.2 ⟨hx, decide_eq_true rfl⟩)
  obtain ⟨m, hm⟩ := Option.ne_none_iff_exists'.1
    (mt List.argmin_eq_none.1 hne : List.argmin key _ ≠ none)
  obtain ⟨hml, hmx⟩ := List.mem_filter.1 (List.argmin_mem hm)
  have hmx : group m = group x := of_decide_eq_true hmx
  refine ⟨m, hml, hmx, fun y hy hym => ?_⟩
  exact List.le_of_mem_argmin (List.mem_filter.2 ⟨hy, decide_eq_true (hym.trans hmx)⟩) hm

theorem first_iff_of_unsplit {batches : List (List α)} (h : Unsplit group batches) {b : List α}
    (hb : b ∈ batches) {x : α} (hx : x ∈ b) :
    First group key b x ↔ First group key batches.flatten x := by
  constructor
  · exact fun hf y hy hyx => hf y (mem_of_unsplit group h hb hx hy hyx) hyx
  · exact fun hf y hy hyx => hf y (List.mem_flatten.2 ⟨b, hb, hy⟩) hyx

/-- Where a group is cut, its first element in one of the batches is not its first. -/
theorem unsplit_iff_first {batches : List (List α)}
    (hkey : ∀ x ∈ batches.flatten, ∀ y ∈ batches.flatten, key x = key y → x = y)
    (hnodup : batches.flatten.Nodup) :
    Unsplit group batches ↔
      ∀ b ∈ batches, ∀ x ∈ b, First group key b x → First group key batches.flatten x := by
  constructor
  · exact fun h b hb x hx => (first_iff_of_unsplit group key h hb hx).1
  · intro h
    have hdisjoint := (List.nodup_flatten.1 hnodup).2
    refine (List.Pairwise.and_mem.1 hdisjoint).imp fun {a b} hab x hx y hy hxy => ?_
    obtain ⟨ha, hb, hdis⟩ := hab
    obtain ⟨m, hm, hmx, hmfirst⟩ := exists_first group key hx
    obtain ⟨n, hn, hny, hnfirst⟩ := exists_first group key hy
    have hmn : group m = group n := hmx.trans (hxy.trans hny.symm)
    have hm' : m ∈ batches.flatten := List.mem_flatten.2 ⟨a, ha, hm⟩
    have hn' : n ∈ batches.flatten := List.mem_flatten.2 ⟨b, hb, hn⟩
    have hle := h a ha m hm hmfirst n hn' hmn.symm
    have hge := h b hb n hn hnfirst m hm' hmn
    have heq : m = n := hkey m hm' n hn' (le_antisymm hle hge)
    exact List.disjoint_left.1 hdis hm (heq ▸ hn)

end Ticks

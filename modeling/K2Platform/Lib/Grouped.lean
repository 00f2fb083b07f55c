import Mathlib.Algebra.BigOperators.Group.List.Lemmas
import Mathlib.Algebra.Ring.Int.Defs
import Mathlib.Data.List.Dedup
import Mathlib.Tactic.Ring
import K2Platform.Lib.Dict

/-!
# Numbered and grouped lists

The elements of a list are given keys, each from what comes before it, and those of one key are put
together.

* `pasts` — every element with the elements before it.
* `groups` — the keys, and the elements of each.
* `get?_foldl_upsert` — a dictionary that is brought up to date element by element holds, at a key,
  the fold over the elements of that key.
* `sum_groups` — weights of the keys, counted group by group or element by element.
-/

set_option autoImplicit false

namespace Grouped

variable {α β γ δ : Type}

/-! ## What comes before an element -/

def pasts (seen : List α) : List α → List (List α × α)
  | [] => []
  | x :: xs => (seen, x) :: pasts (seen ++ [x]) xs

theorem map_snd_pasts (l : List α) : ∀ seen, (pasts seen l).map Prod.snd = l := by
  induction l with
  | nil => exact fun _ => rfl
  | cons x xs ih => exact fun seen => congrArg (List.cons x) (ih (seen ++ [x]))

theorem pasts_append (l' : List α) :
    ∀ (l seen : List α), pasts seen (l ++ l') = pasts seen l ++ pasts (seen ++ l) l'
  | [], seen => by
    rw [List.append_nil]
    rfl
  | x :: xs, seen => by
    have ih := pasts_append l' xs (seen ++ [x])
    rw [List.append_assoc, List.singleton_append] at ih
    exact congrArg (List.cons (seen, x)) ih

theorem mem_pasts {p : List α} {x : α} :
    ∀ {l seen : List α}, (p, x) ∈ pasts seen l → ∃ q post, p = seen ++ q ∧ l = q ++ x :: post
  | [], _, h => absurd h List.not_mem_nil
  | y :: ys, seen, h => by
    rcases List.mem_cons.1 h with heq | h
    · cases heq
      exact ⟨[], ys, (List.append_nil p).symm, rfl⟩
    · obtain ⟨q, post, hpre, hys⟩ := mem_pasts h
      refine ⟨y :: q, post, ?_, ?_⟩
      · rw [hpre, List.append_assoc, List.singleton_append]
      · rw [hys, List.cons_append]

theorem mem_pasts_self (pre : List α) (x : α) (post : List α) :
    (pre, x) ∈ pasts [] (pre ++ x :: post) := by
  rw [pasts_append]
  exact List.mem_append_right _ List.mem_cons_self

/-- Of a part of the list, each element has the part of what came before it. -/
theorem filter_pasts (p : α → Bool) :
    ∀ l seen : List α, ((pasts seen l).filter fun e => p e.2).map (fun e => (e.1.filter p, e.2)) =
      pasts (seen.filter p) (l.filter p)
  | [], _ => rfl
  | x :: xs, seen => by
    have ih := filter_pasts p xs (seen ++ [x])
    rw [List.filter_append] at ih
    cases hx : p x with
    | true =>
      rw [List.filter_cons_of_pos hx, List.filter_nil] at ih
      rw [pasts, List.filter_cons_of_pos hx, List.filter_cons_of_pos (by exact hx), List.map_cons,
        ih, pasts]
    | false =>
      have hx' : ¬ p x = true := by
        rw [hx]
        exact Bool.false_ne_true
      rw [List.filter_cons_of_neg hx', List.filter_nil, List.append_nil] at ih
      rw [pasts, List.filter_cons_of_neg hx', List.filter_cons_of_neg (by exact hx'), ih]

/-! ## Groups -/

variable [DecidableEq γ]

def groupOf (g : γ) (l : List (α × γ)) : List α := (l.filter fun e => e.2 = g).map Prod.fst

/-- The keys in use, and the elements of each in the order of the list. -/
def groups (l : List (α × γ)) : List (γ × List α) :=
  (l.map Prod.snd).dedup.map fun g => (g, groupOf g l)

/-- The elements of a key, where element and key are read off something else. -/
theorem groupOf_map_pair (element : δ → α) (key : δ → γ) (g : γ) (l : List δ) :
    groupOf g (l.map fun d => (element d, key d)) = (l.filter fun d => key d = g).map element := by
  rw [groupOf, List.filter_map, List.map_map]
  rfl

theorem mem_groupOf {g : γ} {l : List (α × γ)} {x : α} : x ∈ groupOf g l ↔ (x, g) ∈ l := by
  constructor
  · intro h
    obtain ⟨e, he, rfl⟩ := List.mem_map.1 h
    obtain ⟨he, hg⟩ := List.mem_filter.1 he
    rw [← of_decide_eq_true hg]
    exact he
  · intro h
    exact List.mem_map.2 ⟨(x, g), List.mem_filter.2 ⟨h, decide_eq_true rfl⟩, rfl⟩

theorem mem_groups {l : List (α × γ)} {e : γ × List α} :
    e ∈ groups l ↔ e.2 = groupOf e.1 l ∧ groupOf e.1 l ≠ [] := by
  constructor
  · intro h
    obtain ⟨g, hg, rfl⟩ := List.mem_map.1 h
    obtain ⟨x, hx, hxg⟩ := List.mem_map.1 (List.mem_dedup.1 hg)
    refine ⟨rfl, List.ne_nil_of_mem (a := x.1) (mem_groupOf.2 ?_)⟩
    rw [← hxg]
    exact hx
  · rintro ⟨heq, hne⟩
    obtain ⟨x, hx⟩ := List.exists_mem_of_ne_nil _ hne
    refine List.mem_map.2 ⟨e.1, List.mem_dedup.2 ?_, Prod.ext rfl heq.symm⟩
    exact List.mem_map.2 ⟨(x, e.1), mem_groupOf.1 hx, rfl⟩

theorem forall_groups {P : γ → Prop} {l : List (α × γ)} :
    (∀ g ∈ groups l, P g.1) ↔ ∀ e ∈ l, P e.2 := by
  constructor
  · intro h e he
    have hne : groupOf e.2 l ≠ [] := List.ne_nil_of_mem (mem_groupOf.2 he)
    exact h (e.2, groupOf e.2 l) (mem_groups.2 ⟨rfl, hne⟩)
  · intro h g hg
    obtain ⟨e, he, heq⟩ := List.mem_map.1 hg
    obtain ⟨x, hx, rfl⟩ := List.mem_map.1 (List.mem_dedup.1 he)
    rw [← heq]
    exact h x hx

theorem groupOf_sublist (g : γ) (l : List (α × γ)) : (groupOf g l).Sublist (l.map Prod.fst) :=
  List.filter_sublist.map _

section Keys

variable [DecidableEq δ]

theorem groupOf_map {f : γ → δ} (hf : Function.Injective f) (g : γ) (l : List (α × γ)) :
    groupOf (f g) (l.map fun e => (e.1, f e.2)) = groupOf g l := by
  rw [groupOf, groupOf, List.filter_map, List.map_map]
  have hkey : (l.filter ((fun e => decide (e.2 = f g)) ∘ fun e => (e.1, f e.2))) =
      l.filter fun e => e.2 = g :=
    List.filter_congr fun e _ => decide_eq_decide.2 hf.eq_iff
  rw [hkey]
  rfl

theorem groups_map {f : γ → δ} (hf : Function.Injective f) (l : List (α × γ)) :
    groups (l.map fun e => (e.1, f e.2)) = (groups l).map fun e => (f e.1, e.2) := by
  have hkeys : ((l.map fun e => (e.1, f e.2)).map Prod.snd).dedup =
      (l.map Prod.snd).dedup.map f := by
    rw [← List.dedup_map_of_injective hf, List.map_map, List.map_map]
    rfl
  rw [groups, groups, hkeys, List.map_map, List.map_map]
  refine List.map_congr_left fun g _ => ?_
  rw [Function.comp_apply, Function.comp_apply, groupOf_map hf]

end Keys

/-- A key that is used twice weighs twice. -/
theorem sum_groups (w : γ → Int) (l : List (α × γ)) :
    ((groups l).map fun e => w e.1 * e.2.length).sum = (l.map fun e => w e.2).sum := by
  have hcover : ∀ (ks : List γ), ks.Nodup → ∀ l : List (α × γ), (∀ e ∈ l, e.2 ∈ ks) →
      (ks.map fun g => w g * (groupOf g l).length).sum = (l.map fun e => w e.2).sum := by
    intro ks hks l
    induction l with
    | nil =>
      intro _
      simp [groupOf]
    | cons e l ih =>
      intro hmem
      obtain ⟨he, hmem⟩ := List.forall_mem_cons.1 hmem
      have hlength : ∀ g, ((groupOf g (e :: l)).length : Int) =
          (if e.2 = g then 1 else 0) + (groupOf g l).length := by
        intro g
        by_cases hg : e.2 = g
        · simp [groupOf, hg, add_comm]
        · simp [groupOf, hg]
      have hsplit : (ks.map fun g => w g * (groupOf g (e :: l)).length) =
          ks.map fun g => (if g = e.2 then w e.2 else 0) + w g * (groupOf g l).length := by
        refine List.map_congr_left fun g _ => ?_
        rw [hlength]
        by_cases hg : e.2 = g
        · rw [if_pos hg, if_pos hg.symm, hg]
          ring
        · rw [if_neg hg, if_neg fun h => hg h.symm]
          ring
      have hone : (ks.map fun g => if g = e.2 then w e.2 else 0).sum = w e.2 := by
        rw [List.sum_map_ite_eq, List.count_eq_one_of_mem hks he]
        simp
      rw [hsplit, List.sum_map_add, hone, ih hmem, List.map_cons, List.sum_cons]
  rw [groups, List.map_map]
  exact hcover _ (List.nodup_dedup _) l fun e he =>
    List.mem_dedup.2 (List.mem_map_of_mem he)

/-! ## A dictionary that is brought up to date -/

/-- One element: what is held at its key, if anything, and the element. -/
def upsert (f : Option β → α → β) (d : Dict γ β) (e : α × γ) : Dict γ β :=
  d.insert e.2 (f (d.get? e.2) e.1)

theorem get?_foldl_upsert (f : Option β → α → β) (g : γ) (l : List (α × γ)) :
    ∀ d : Dict γ β, (l.foldl (upsert f) d).get? g =
      (groupOf g l).foldl (fun b x => some (f b x)) (d.get? g) := by
  induction l with
  | nil => exact fun _ => rfl
  | cons e l ih =>
    intro d
    rw [List.foldl_cons, ih, upsert, Dict.get?_insert]
    by_cases hg : e.2 = g
    · have hkeep : (e :: l).filter (fun e => e.2 = g) = e :: l.filter fun e => e.2 = g :=
        List.filter_cons_of_pos (by simp [hg])
      rw [if_pos hg.symm, groupOf, groupOf, hkeep, List.map_cons, List.foldl_cons, hg]
    · have hkeep : (e :: l).filter (fun e => e.2 = g) = l.filter fun e => e.2 = g :=
        List.filter_cons_of_neg (by simp [hg])
      rw [if_neg fun h => hg h.symm, groupOf, groupOf, hkeep]

end Grouped

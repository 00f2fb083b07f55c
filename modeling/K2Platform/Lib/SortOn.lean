import Mathlib.Data.List.Forall2
import Mathlib.Data.List.Sort
import Mathlib.Order.Basic

/-!
# Sorting by a key

`sortOn key l` sorts a list by a key that tells its elements apart, so that nothing depends on
the order in which they came.

* `sortOn_eq` — the sorted list is the only one.
* `sortOn_filter`, `sortOn_append`, `map_sortOn` — sorting a part, two parts of which one comes
  first, and what the elements are mapped to.
* `sortOn_forall₂` — lists that are related element by element stay so.
-/

set_option autoImplicit false

variable {α β τ : Type} [LinearOrder τ]

def sortOn (key : α → τ) (l : List α) : List α := l.insertionSort fun a b => key a ≤ key b

theorem sortOn_perm (key : α → τ) (l : List α) : (sortOn key l).Perm l :=
  List.perm_insertionSort _ _

theorem sortOn_pairwise (key : α → τ) (l : List α) :
    (sortOn key l).Pairwise fun a b => key a ≤ key b := by
  have : Std.Total fun a b : α => key a ≤ key b := ⟨fun a b => le_total (key a) (key b)⟩
  have : IsTrans α fun a b => key a ≤ key b := ⟨fun _ _ _ => le_trans⟩
  exact List.pairwise_insertionSort _ _

section Distinct

variable {key : α → τ} {l : List α} (hkey : ∀ a ∈ l, ∀ b ∈ l, key a = key b → a = b)
include hkey

theorem sortOn_eq {l' : List α} (hperm : l'.Perm l)
    (hsorted : l'.Pairwise fun a b => key a ≤ key b) : sortOn key l = l' := by
  have hboth : (sortOn key l).Perm l' := (sortOn_perm key l).trans hperm.symm
  refine hboth.eq_of_pairwise (fun a b ha hb hab hba => ?_) (sortOn_pairwise key l) hsorted
  exact hkey a ((sortOn_perm key l).mem_iff.1 ha) b (hperm.mem_iff.1 hb) (le_antisymm hab hba)

theorem sortOn_filter (p : α → Bool) : (sortOn key l).filter p = sortOn key (l.filter p) := by
  have hkey' : ∀ a ∈ l.filter p, ∀ b ∈ l.filter p, key a = key b → a = b := fun a ha b hb =>
    hkey a (List.mem_of_mem_filter ha) b (List.mem_of_mem_filter hb)
  exact (sortOn_eq hkey' ((sortOn_perm key l).filter p)
    ((sortOn_pairwise key l).filter p)).symm

end Distinct

theorem sortOn_append {key : α → τ} {l l' : List α}
    (hkey : ∀ a ∈ l ++ l', ∀ b ∈ l ++ l', key a = key b → a = b)
    (hbefore : ∀ a ∈ l, ∀ b ∈ l', key a ≤ key b) :
    sortOn key (l ++ l') = sortOn key l ++ sortOn key l' := by
  refine sortOn_eq hkey ((sortOn_perm key l).append (sortOn_perm key l')) ?_
  refine List.pairwise_append.2 ⟨sortOn_pairwise key l, sortOn_pairwise key l', ?_⟩
  exact fun a ha b hb =>
    hbefore a ((sortOn_perm key l).mem_iff.1 ha) b ((sortOn_perm key l').mem_iff.1 hb)

theorem map_sortOn (f : α → β) {key : α → τ} {key' : β → τ} (h : ∀ a, key' (f a) = key a)
    (l : List α) : (sortOn key l).map f = sortOn key' (l.map f) :=
  List.map_insertionSort _ _ f l fun a _ b _ => by rw [h, h]

theorem sortOn_forall₂ {R : α → β → Prop} {key : α → τ} {key' : β → τ}
    (hkey : ∀ a b, R a b → key a = key' b) {l : List α} {l' : List β} (h : List.Forall₂ R l l') :
    List.Forall₂ R (sortOn key l) (sortOn key' l') := by
  have hinsert : ∀ {a b}, R a b → ∀ {l l'}, List.Forall₂ R l l' →
      List.Forall₂ R (l.orderedInsert (fun x y => key x ≤ key y) a)
        (l'.orderedInsert (fun x y => key' x ≤ key' y) b) := by
    intro a b hab l l' hl
    induction hl with
    | nil => exact .cons hab .nil
    | @cons x y l l' hxy hl ih =>
      simp only [List.orderedInsert, hkey a b hab, hkey x y hxy]
      split
      · exact .cons hab (.cons hxy hl)
      · exact .cons hxy ih
  induction h with
  | nil => exact .nil
  | cons hab _ ih => exact hinsert hab ih

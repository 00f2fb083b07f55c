import Mathlib.Data.List.Forall2

/-!
# A partial function over a list

`List.mapM` of a function that may fail: it fails where the function fails for some element, and
gives the values in their order where it does not.

* `mapM_eq_some_iff` — the values, element by element.
* `isSome_mapM_iff` — it fails only where the function does.
* `flatten_mapM` — the values of a function that gives lists, in one list.
-/

set_option autoImplicit false

namespace PartialMap

variable {α β : Type} {f : α → Option β}

theorem mapM_eq_some_iff : ∀ {l : List α} {l' : List β},
    l.mapM f = some l' ↔ List.Forall₂ (fun a b => f a = some b) l l'
  | [], l' => by
    rw [List.mapM_nil, List.forall₂_nil_left_iff]
    exact ⟨fun h => (Option.some.inj h).symm, fun h => congrArg some h.symm⟩
  | a :: l, l' => by
    rw [List.mapM_cons, List.forall₂_cons_left_iff]
    constructor
    · intro h
      obtain ⟨b, hb, h⟩ := Option.bind_eq_some_iff.1 h
      obtain ⟨bs, hbs, h⟩ := Option.bind_eq_some_iff.1 h
      exact ⟨b, bs, hb, mapM_eq_some_iff.1 hbs, (Option.some.inj h).symm⟩
    · rintro ⟨b, bs, hb, hbs, rfl⟩
      refine Option.bind_eq_some_iff.2 ⟨b, hb, ?_⟩
      exact Option.bind_eq_some_iff.2 ⟨bs, mapM_eq_some_iff.2 hbs, rfl⟩

theorem isSome_mapM_iff : ∀ {l : List α}, (l.mapM f).isSome ↔ ∀ a ∈ l, (f a).isSome
  | [] => iff_of_true rfl fun _ h => absurd h List.not_mem_nil
  | a :: l => by
    rw [List.mapM_cons, List.forall_mem_cons, ← isSome_mapM_iff]
    cases f a with
    | none => exact ⟨fun h => absurd h Bool.false_ne_true, fun h => h.1⟩
    | some b =>
      cases hl : l.mapM f with
      | none =>
        refine ⟨fun h => ?_, fun h => h.2⟩
        simp at h
      | some bs => simp

theorem length_of_mapM {l : List α} {l' : List β} (h : l.mapM f = some l') :
    l'.length = l.length :=
  (mapM_eq_some_iff.1 h).length_eq.symm

/-- What an element of the result is the value of. -/
theorem mem_of_mapM {l : List α} {l' : List β} (h : l.mapM f = some l') {b : β} (hb : b ∈ l') :
    ∃ a ∈ l, f a = some b := by
  induction mapM_eq_some_iff.1 h with
  | nil => exact absurd hb List.not_mem_nil
  | @cons a c l l' hac hrest ih =>
    rcases List.mem_cons.1 hb with rfl | hb
    · exact ⟨a, List.mem_cons_self, hac⟩
    · obtain ⟨d, hd, heq⟩ := ih (mapM_eq_some_iff.2 hrest) hb
      exact ⟨d, List.mem_cons_of_mem a hd, heq⟩

/-- A value that every element passes on. -/
theorem map_eq_of_mapM {γ : Type} {g : α → γ} {g' : β → γ}
    (hg : ∀ a b, f a = some b → g' b = g a) {l : List α} {l' : List β} (h : l.mapM f = some l') :
    l'.map g' = l.map g := by
  induction mapM_eq_some_iff.1 h with
  | nil => rfl
  | @cons a b l l' hab hrest ih =>
    rw [List.map_cons, List.map_cons, hg a b hab, ih (mapM_eq_some_iff.2 hrest)]

theorem flatten_mapM {f : α → Option (List β)} {l : List α} {ls : List (List β)}
    (h : l.mapM f = some ls) : ls.flatten = l.flatMap fun a => (f a).getD [] := by
  induction mapM_eq_some_iff.1 h with
  | nil => rfl
  | @cons a b l ls hab hrest ih =>
    rw [List.flatten_cons, List.flatMap_cons, hab, Option.getD_some,
      ih (mapM_eq_some_iff.2 hrest)]

end PartialMap

import Mathlib.Data.List.Basic
import Mathlib.Data.List.Induction
import Mathlib.Data.List.Nodup
import Mathlib.Data.List.Perm.Basic
import K2Platform.Lib.Dict

/-!
# A dictionary in which the first item of a key wins

Items are put into a dictionary under their keys one after another.  The first item of a key is
held; a later one of the same key is dropped and counted, and counted again when its content is
not that of the item held.  Which copy is held depends on the order of arrival, and so does the
second count.

* `get?_byKey`, `mem_keys` — the item held for a key is the first one that has it.
* `inconsistent_eq_zero_iff` — that nothing disagreed is a fact about the items, not their order.
* `entries_perm` — in that case every order holds the same items.
-/

set_option autoImplicit false

namespace FirstWins

variable {α κ β : Type}

/-- Items of one key have one content. -/
def Consistent (key : α → κ) (content : α → β) (l : List α) : Prop :=
  ∀ a ∈ l, ∀ b ∈ l, key a = key b → content a = content b

theorem Consistent.of_perm {key : α → κ} {content : α → β} {l l' : List α}
    (hc : Consistent key content l) (h : l.Perm l') : Consistent key content l' := by
  intro a ha b hb hab
  exact hc a (h.mem_iff.2 ha) b (h.mem_iff.2 hb) hab

structure Deduped (κ α : Type) where
  byKey : Dict κ α
  dup : Nat
  inconsistent : Nat

def start : Deduped κ α := ⟨Dict.empty, 0, 0⟩

variable [DecidableEq κ]

/-- The last item agrees with them all when it agrees with the first of its key. -/
theorem consistent_append_singleton {key : α → κ} {content : α → β} {l : List α} {a : α} :
    Consistent key content (l ++ [a]) ↔
      Consistent key content l ∧
        ∀ first, (l.find? fun b => key b = key a) = some first → content first = content a := by
  constructor
  · intro h
    constructor
    · intro b hb c hc
      exact h b (List.mem_append_left _ hb) c (List.mem_append_left _ hc)
    · intro first hfirst
      exact h first (List.mem_append_left _ (List.mem_of_find?_eq_some hfirst)) a (by simp)
        (of_decide_eq_true (List.find?_some hfirst :))
  · rintro ⟨hl, hlast⟩
    have hwith : ∀ b ∈ l, key b = key a → content b = content a := by
      intro b hb hba
      obtain ⟨first, hfirst⟩ : ∃ first, (l.find? fun b => key b = key a) = some first := by
        rw [← Option.isSome_iff_exists, List.find?_isSome]
        exact ⟨b, hb, decide_eq_true hba⟩
      have hkey : key first = key a := of_decide_eq_true (List.find?_some hfirst :)
      rw [← hlast first hfirst]
      exact hl b hb first (List.mem_of_find?_eq_some hfirst) (hba.trans hkey.symm)
    intro b hb c hc hbc
    rw [List.mem_append, List.mem_singleton] at hb hc
    rcases hb with hb | rfl <;> rcases hc with hc | rfl
    · exact hl b hb c hc hbc
    · exact hwith b hb hbc
    · exact (hwith c hc hbc.symm).symm
    · rfl

variable [DecidableEq β]

def step (key : α → κ) (content : α → β) (d : Deduped κ α) (a : α) : Deduped κ α :=
  match d.byKey.get? (key a) with
  | none => { d with byKey := d.byKey.insert (key a) a }
  | some first =>
    { d with
      dup := d.dup + 1
      inconsistent := d.inconsistent + if content first ≠ content a then 1 else 0 }

def dedupe (key : α → κ) (content : α → β) (l : List α) : Deduped κ α :=
  l.foldl (step key content) start

section Held

variable (key : α → κ) (content : α → β)

theorem dedupe_append_singleton (l : List α) (a : α) :
    dedupe key content (l ++ [a]) = step key content (dedupe key content l) a := by
  rw [dedupe, List.foldl_append]
  rfl

theorem get?_step (d : Deduped κ α) (a : α) (k : κ) :
    (step key content d a).byKey.get? k =
      (d.byKey.get? k).or (if key a = k then some a else none) := by
  unfold step
  cases h : d.byKey.get? (key a) with
  | none =>
    show (d.byKey.insert (key a) a).get? k = _
    rw [Dict.get?_insert]
    by_cases hk : k = key a
    · rw [if_pos hk, if_pos hk.symm, hk, h, Option.none_or]
    · rw [if_neg hk, if_neg (Ne.symm hk), Option.or_none]
  | some first =>
    show d.byKey.get? k = _
    by_cases hk : key a = k
    · rw [← hk, h, Option.some_or]
    · rw [if_neg hk, Option.or_none]

theorem get?_byKey (l : List α) (k : κ) :
    (dedupe key content l).byKey.get? k = l.find? fun a => key a = k := by
  induction l using List.reverseRecOn with
  | nil => rfl
  | append_singleton l a ih =>
    rw [dedupe_append_singleton, get?_step, ih, List.find?_append, List.find?_singleton]
    simp only [decide_eq_true_eq]

theorem mem_keys {l : List α} {k : κ} :
    k ∈ (dedupe key content l).byKey.keys ↔ k ∈ l.map key := by
  rw [Dict.mem_keys_iff]
  simp only [get?_byKey, ← Option.isSome_iff_exists, List.find?_isSome, decide_eq_true_eq,
    List.mem_map]

/-- What is held under a key has that key. -/
theorem key_of_mem_entries {l : List α} {k : κ} {a : α}
    (h : (k, a) ∈ (dedupe key content l).byKey.entries) : a ∈ l ∧ key a = k := by
  have hget := Dict.get?_eq_some_iff.2 h
  rw [get?_byKey] at hget
  exact ⟨List.mem_of_find?_eq_some hget, of_decide_eq_true (List.find?_some hget :)⟩

end Held

section Disagreement

variable {key : α → κ} {content : α → β}

theorem inconsistent_step_eq_zero_iff (d : Deduped κ α) (a : α) :
    (step key content d a).inconsistent = 0 ↔
      d.inconsistent = 0 ∧ ∀ first, d.byKey.get? (key a) = some first → content first = content a := by
  unfold step
  cases h : d.byKey.get? (key a) with
  | none => simp
  | some first =>
    by_cases hne : content first = content a
    · simp [hne]
    · simp [hne]

theorem inconsistent_eq_zero_iff (l : List α) :
    (dedupe key content l).inconsistent = 0 ↔ Consistent key content l := by
  induction l using List.reverseRecOn with
  | nil =>
    constructor
    · intro _ a ha
      exact absurd ha List.not_mem_nil
    · intro _
      rfl
  | append_singleton l a ih =>
    rw [dedupe_append_singleton, inconsistent_step_eq_zero_iff, ih, consistent_append_singleton]
    simp only [get?_byKey]

theorem dup_add_length (l : List α) :
    (dedupe key content l).dup + (dedupe key content l).byKey.entries.length = l.length := by
  induction l using List.reverseRecOn with
  | nil => rfl
  | append_singleton l a ih =>
    rw [dedupe_append_singleton, List.length_append, ← ih]
    generalize dedupe key content l = d
    unfold step
    cases h : d.byKey.get? (key a) with
    | none =>
      have hnew : key a ∉ d.byKey.entries.map Prod.fst := Dict.get?_eq_none_iff.1 h
      show d.dup + (d.byKey.insert (key a) a).entries.length = _
      rw [Dict.insert, dif_neg hnew, List.length_append]
      exact (Nat.add_assoc _ _ _).symm
    | some first =>
      show d.dup + 1 + d.byKey.entries.length = d.dup + d.byKey.entries.length + 1
      omega

/-- Copies that are equal are held alike in every order. -/
theorem entries_perm {l l' : List α} (h : l.Perm l') (hc : Consistent key (fun a => a) l) :
    (dedupe key content l).byKey.entries.Perm (dedupe key content l').byKey.entries := by
  have hsub : ∀ {l l' : List α}, l.Perm l' → Consistent key (fun a => a) l → ∀ {k : κ} {a : α},
      (k, a) ∈ (dedupe key content l).byKey.entries →
        (k, a) ∈ (dedupe key content l').byKey.entries := by
    intro l l' h hc k a hmem
    obtain ⟨ha, hk⟩ := key_of_mem_entries key content hmem
    have hkeys : k ∈ (dedupe key content l').byKey.keys := by
      rw [mem_keys, ← hk]
      exact List.mem_map_of_mem (h.mem_iff.1 ha)
    obtain ⟨b, hb⟩ := Dict.mem_keys_iff.1 hkeys
    have hmem' := Dict.get?_eq_some_iff.1 hb
    obtain ⟨hbl, hbk⟩ := key_of_mem_entries key content hmem'
    have hab : key a = key b := hk.trans hbk.symm
    have heq : a = b := hc a ha b (h.mem_iff.2 hbl) hab
    rwa [heq]
  refine (List.perm_ext_iff_of_nodup ?_ ?_).2 ?_
  · exact List.Nodup.of_map _ (Dict.nodup _)
  · exact List.Nodup.of_map _ (Dict.nodup _)
  · rintro ⟨k, a⟩
    exact ⟨hsub h hc, hsub h.symm (hc.of_perm h)⟩

end Disagreement

end FirstWins

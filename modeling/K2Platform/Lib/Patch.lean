import Mathlib.Data.List.Sort
import K2Platform.Lib.SortedMap

/-!
# Absolute updates of a sorted map

A patch gives some keys a value and takes others out, whatever the map held for them.  Given twice,
also with all but the first or the last `n` pairs dropped in between, it does what it does once.

* `get?_patch` — the last update of a key decides.
* `patch_patch` — a patch is idempotent.
* `popLastTo_patch`, `popFirstTo_patch` — so it is under truncation: pairs that the first
  truncation drops and the patch brings back are dropped again.
-/

set_option autoImplicit false

namespace SortedMap

variable {κ α : Type} [LinearOrder κ]

def put (m : SortedMap κ α) (k : κ) : Option α → SortedMap κ α
  | none => m.erase k
  | some v => m.insert k v

def patch (m : SortedMap κ α) (l : List (κ × Option α)) : SortedMap κ α :=
  l.foldl (fun m e => m.put e.1 e.2) m

theorem get?_put (m : SortedMap κ α) (k k' : κ) (v : Option α) :
    (m.put k v).get? k' = if k' = k then v else m.get? k' := by
  cases v with
  | none => exact get?_erase m k k'
  | some v => exact get?_insert m k k' v

/-- What a patch leaves at a key, if it updates it. -/
def lastOf : List (κ × Option α) → κ → Option (Option α)
  | [], _ => none
  | e :: l, k => (lastOf l k).or (if k = e.1 then some e.2 else none)

theorem get?_patch (m : SortedMap κ α) (l : List (κ × Option α)) (k : κ) :
    (m.patch l).get? k = (lastOf l k).getD (m.get? k) := by
  induction l generalizing m with
  | nil => rfl
  | cons e l ih =>
    have hcons : m.patch (e :: l) = (m.put e.1 e.2).patch l := rfl
    rw [hcons, ih, lastOf, get?_put]
    cases lastOf l k with
    | some v => rfl
    | none => by_cases h : k = e.1 <;> simp [h]

theorem patch_patch (m : SortedMap κ α) (l : List (κ × Option α)) :
    (m.patch l).patch l = m.patch l := by
  refine ext_get? fun k => ?_
  rw [get?_patch, get?_patch]
  cases lastOf l k <;> rfl

/-! ## Truncation -/

theorem mem_patch_iff {m : SortedMap κ α} {l : List (κ × Option α)} {e : κ × α} :
    e ∈ (m.patch l).entries ↔ (lastOf l e.1).getD (m.get? e.1) = some e.2 := by
  rw [← get?_patch, get?_eq_some_iff]

section Between

variable {m : SortedMap κ α} {l : List (κ × Option α)} {t : SortedMap κ α}

/-- Some of the pairs of a patched map, patched again, have no other pairs. -/
theorem mem_patch_of_mem (hsub : ∀ e ∈ t.entries, e ∈ (m.patch l).entries) :
    ∀ e ∈ (t.patch l).entries, e ∈ (m.patch l).entries := by
  intro e he
  rw [mem_patch_iff] at he
  cases hlast : lastOf l e.1 with
  | none =>
    rw [hlast, Option.getD_none, get?_eq_some_iff] at he
    exact hsub e he
  | some v =>
    rw [mem_patch_iff]
    rw [hlast] at he ⊢
    exact he

/-- And they keep those that they had. -/
theorem mem_patch_of_mem_self (hsub : ∀ e ∈ t.entries, e ∈ (m.patch l).entries) :
    ∀ e ∈ t.entries, e ∈ (t.patch l).entries := by
  intro e he
  rw [mem_patch_iff]
  cases hlast : lastOf l e.1 with
  | none =>
    rw [Option.getD_none]
    exact get?_eq_some_iff.2 he
  | some v =>
    have hsome := mem_patch_iff.1 (hsub e he)
    rw [hlast] at hsome
    exact hsome

end Between

/-- A map whose pairs are among those of another is the other, filtered. -/
theorem entries_eq_filter [DecidableEq α] {m n : SortedMap κ α}
    (hsub : ∀ e ∈ n.entries, e ∈ m.entries) :
    n.entries = m.entries.filter fun e => e ∈ n.entries := by
  have hperm : n.entries.Perm (m.entries.filter fun e => e ∈ n.entries) := by
    refine (List.perm_ext_iff_of_nodup (List.Nodup.of_map _ n.nodup_keys)
      ((List.Nodup.of_map _ m.nodup_keys).filter _)).2 fun e => ?_
    rw [List.mem_filter, decide_eq_true_iff]
    exact ⟨fun he => ⟨hsub e he, he⟩, And.right⟩
  exact hperm.eq_of_pairwise (fun a b _ _ hab hba => absurd (lt_trans hab hba) (lt_irrefl _))
    n.sorted (m.sorted.filter _)

/-- Between a map and its last-truncated self, truncation makes no difference. -/
theorem popLastTo_between [DecidableEq α] {m n : SortedMap κ α} {depth : Nat}
    (hsub : ∀ e ∈ n.entries, e ∈ m.entries)
    (hkeep : ∀ e ∈ (m.popLastTo depth).entries, e ∈ n.entries) :
    n.popLastTo depth = m.popLastTo depth := by
  refine ext_entries ?_
  rw [popLastTo_entries] at hkeep
  rw [popLastTo_entries, popLastTo_entries, entries_eq_filter hsub]
  generalize n.entries = es at hkeep
  conv_lhs => rw [← List.take_append_drop depth m.entries]
  have hall : (m.entries.take depth).filter (fun e => e ∈ es) = m.entries.take depth :=
    List.filter_eq_self.2 fun e he => decide_eq_true (hkeep e he)
  rw [List.filter_append, hall]
  rcases Nat.le_total depth m.entries.length with h | h
  · have hlen : (m.entries.take depth).length = depth := List.length_take_of_le h
    exact (List.take_append_of_le_length (by omega)).trans
      (List.take_of_length_le (by omega))
  · rw [List.drop_eq_nil_of_le h, List.filter_nil, List.append_nil, List.take_take, Nat.min_self]

theorem popFirstTo_between [DecidableEq α] {m n : SortedMap κ α} {depth : Nat}
    (hsub : ∀ e ∈ n.entries, e ∈ m.entries)
    (hkeep : ∀ e ∈ (m.popFirstTo depth).entries, e ∈ n.entries) :
    n.popFirstTo depth = m.popFirstTo depth := by
  refine ext_entries ?_
  rw [popFirstTo_entries] at hkeep
  rw [popFirstTo_entries, popFirstTo_entries, length, entries_eq_filter hsub]
  generalize n.entries = es at hkeep
  have hall : (m.entries.drop (m.length - depth)).filter (fun e => e ∈ es) =
      m.entries.drop (m.length - depth) :=
    List.filter_eq_self.2 fun e he => decide_eq_true (hkeep e he)
  have hsplit : (m.entries.filter fun e => e ∈ es) =
      (m.entries.take (m.length - depth)).filter (fun e => e ∈ es) ++
        m.entries.drop (m.length - depth) := by
    rw [← hall, ← List.filter_append, List.take_append_drop]
  rw [hsplit, List.length_append, List.length_drop]
  rcases Nat.le_total depth m.length with h | h
  · -- what is left before the kept pairs is what is dropped
    have hcount : ((m.entries.take (m.length - depth)).filter (fun e => e ∈ es)).length +
        (m.entries.length - (m.length - depth)) - depth =
        ((m.entries.take (m.length - depth)).filter (fun e => e ∈ es)).length := by
      simp only [length] at h ⊢
      omega
    rw [hcount, List.drop_left]
  · have hnone : m.length - depth = 0 := Nat.sub_eq_zero_of_le h
    have hdrop : 0 + (m.entries.length - 0) - depth = 0 := by
      simp only [length] at h
      omega
    rw [hnone, List.take_zero, List.filter_nil, List.length_nil, hdrop]
    rfl

theorem popLastTo_patch [DecidableEq α] (m : SortedMap κ α) (l : List (κ × Option α))
    (depth : Nat) :
    (((m.patch l).popLastTo depth).patch l).popLastTo depth = (m.patch l).popLastTo depth := by
  have hsub : ∀ e ∈ ((m.patch l).popLastTo depth).entries, e ∈ (m.patch l).entries :=
    fun _ he => mem_of_mem_popLastTo he
  exact popLastTo_between (mem_patch_of_mem hsub) (mem_patch_of_mem_self hsub)

theorem popFirstTo_patch [DecidableEq α] (m : SortedMap κ α) (l : List (κ × Option α))
    (depth : Nat) :
    (((m.patch l).popFirstTo depth).patch l).popFirstTo depth = (m.patch l).popFirstTo depth := by
  have hsub : ∀ e ∈ ((m.patch l).popFirstTo depth).entries, e ∈ (m.patch l).entries :=
    fun _ he => mem_of_mem_popFirstTo he
  exact popFirstTo_between (mem_patch_of_mem hsub) (mem_patch_of_mem_self hsub)

end SortedMap

import Mathlib.Data.List.Dedup
import Mathlib.Data.List.Perm.Basic
import Mathlib.Data.List.Perm.Subperm
import K2Platform.Lib.Dict

/-!
# Comparing two tables row by row

Two ways of comparing the rows of two tables on a key: a full outer join, and a dictionary of
each, which keeps the last row of a key.  Neither counts the rows of a key.

* `forall_mem_fullOuterJoin` — what holds of every row of the join.
* `perm_iff_of_nodup` — equality as multisets with a table that has each key once.
* `perm_iff_hidden` — equality as multisets, once the dictionaries agree.
-/

set_option autoImplicit false

namespace RowDiff

variable {α β κ : Type} [DecidableEq κ]

/-! ## The join -/

section Join

variable (left : α → κ) (right : β → κ)

/-- `l FULL OUTER JOIN r ON left = right`. -/
def fullOuterJoin (l : List α) (r : List β) : List (Option α × Option β) :=
  (l.flatMap fun a =>
    match r.filter fun b => right b = left a with
    | [] => [(some a, none)]
    | b :: bs => (b :: bs).map fun b => (some a, some b)) ++
  (r.filter fun b => right b ∉ l.map left).map fun b => (none, some b)

variable {left right} {l : List α} {r : List β}

theorem mem_fullOuterJoin_left {a : α} (ha : a ∈ l) (h : left a ∉ r.map right) :
    (some a, none) ∈ fullOuterJoin left right l r := by
  have hnil : (r.filter fun b => right b = left a) = [] := by
    refine List.filter_eq_nil_iff.2 fun b hb hkey => h ?_
    exact List.mem_map.2 ⟨b, hb, of_decide_eq_true hkey⟩
  refine List.mem_append_left _ (List.mem_flatMap.2 ⟨a, ha, ?_⟩)
  rw [hnil]
  exact List.mem_singleton_self _

theorem mem_fullOuterJoin_both {a : α} {b : β} (ha : a ∈ l) (hb : b ∈ r)
    (hkey : left a = right b) : (some a, some b) ∈ fullOuterJoin left right l r := by
  have hmem : b ∈ r.filter fun b => right b = left a :=
    List.mem_filter.2 ⟨hb, decide_eq_true hkey.symm⟩
  refine List.mem_append_left _ (List.mem_flatMap.2 ⟨a, ha, ?_⟩)
  cases hrows : r.filter fun b => right b = left a with
  | nil =>
    rw [hrows] at hmem
    cases hmem
  | cons b' bs =>
    rw [hrows] at hmem
    exact List.mem_map.2 ⟨b, hmem, rfl⟩

theorem mem_fullOuterJoin_right {b : β} (hb : b ∈ r) (h : right b ∉ l.map left) :
    (none, some b) ∈ fullOuterJoin left right l r := by
  refine List.mem_append_right _ (List.mem_map.2 ⟨b, ?_, rfl⟩)
  exact List.mem_filter.2 ⟨hb, decide_eq_true h⟩

theorem mem_fullOuterJoin_cases {p : Option α × Option β}
    (h : p ∈ fullOuterJoin left right l r) :
    (∃ a ∈ l, left a ∉ r.map right ∧ p = (some a, none)) ∨
    (∃ a ∈ l, ∃ b ∈ r, left a = right b ∧ p = (some a, some b)) ∨
    ∃ b ∈ r, right b ∉ l.map left ∧ p = (none, some b) := by
  rcases List.mem_append.1 h with h | h
  · obtain ⟨a, ha, h⟩ := List.mem_flatMap.1 h
    split at h
    · rename_i hnil
      refine Or.inl ⟨a, ha, fun hmem => ?_, List.mem_singleton.1 h⟩
      obtain ⟨b, hb, hkey⟩ := List.mem_map.1 hmem
      exact List.filter_eq_nil_iff.1 hnil b hb (decide_eq_true hkey)
    · rename_i b bs hrows
      obtain ⟨b', hb', rfl⟩ := List.mem_map.1 h
      rw [← hrows] at hb'
      obtain ⟨hmem, hkey⟩ := List.mem_filter.1 hb'
      exact Or.inr (Or.inl ⟨a, ha, b', hmem, (of_decide_eq_true hkey).symm, rfl⟩)
  · obtain ⟨b, hb, rfl⟩ := List.mem_map.1 h
    obtain ⟨hmem, hkey⟩ := List.mem_filter.1 hb
    exact Or.inr (Or.inr ⟨b, hmem, of_decide_eq_true hkey, rfl⟩)

theorem forall_mem_fullOuterJoin {P : Option α × Option β → Prop} :
    (∀ p ∈ fullOuterJoin left right l r, P p) ↔
      (∀ a ∈ l, left a ∉ r.map right → P (some a, none)) ∧
      (∀ a ∈ l, ∀ b ∈ r, left a = right b → P (some a, some b)) ∧
      ∀ b ∈ r, right b ∉ l.map left → P (none, some b) := by
  constructor
  · intro h
    exact ⟨fun a ha hk => h _ (mem_fullOuterJoin_left ha hk),
      fun a ha b hb hk => h _ (mem_fullOuterJoin_both ha hb hk),
      fun b hb hk => h _ (mem_fullOuterJoin_right hb hk)⟩
  · rintro ⟨hleft, hboth, hright⟩ p hp
    obtain ⟨a, ha, hk, rfl⟩ | ⟨a, ha, b, hb, hk, rfl⟩ | ⟨b, hb, hk, rfl⟩ :=
      mem_fullOuterJoin_cases hp
    · exact hleft a ha hk
    · exact hboth a ha b hb hk
    · exact hright b hb hk

end Join

/-! ## Equality as multisets -/

section Multiset

variable {key : α → κ} {l r : List α}

omit [DecidableEq κ] in
/-- With a table that has each key once: the same keys, each once, and the same rows. -/
theorem perm_iff_of_nodup (hl : (l.map key).Nodup) :
    l.Perm r ↔ (r.map key).Nodup ∧ (∀ k, k ∈ l.map key ↔ k ∈ r.map key) ∧
      ∀ a ∈ l, ∀ b ∈ r, key a = key b → a = b := by
  constructor
  · intro h
    refine ⟨(h.map key).nodup_iff.1 hl, fun k => (h.map key).mem_iff, ?_⟩
    intro a ha b hb hkey
    exact List.inj_on_of_nodup_map hl ha (h.mem_iff.2 hb) hkey
  · rintro ⟨hr, hkeys, hrows⟩
    refine (List.perm_ext_iff_of_nodup (List.Nodup.of_map key hl) (List.Nodup.of_map key hr)).2 ?_
    intro a
    constructor
    · intro ha
      obtain ⟨b, hb, hkey⟩ := List.mem_map.1 ((hkeys _).1 (List.mem_map_of_mem ha))
      rwa [hrows a ha b hb hkey.symm]
    · intro ha
      obtain ⟨b, hb, hkey⟩ := List.mem_map.1 ((hkeys _).2 (List.mem_map_of_mem ha))
      rwa [← hrows b hb a ha hkey]

/-- The rows of a key. -/
def rowsOf (key : α → κ) (rows : List α) (k : κ) : List α := rows.filter fun a => key a = k

variable (key) in
/-- Tables are equal when the rows of every key are. -/
theorem perm_iff_rowsOf [DecidableEq α] :
    l.Perm r ↔ ∀ k, (rowsOf key l k).Perm (rowsOf key r k) := by
  constructor
  · intro h k
    exact h.filter _
  · intro h
    refine List.perm_iff_count.2 fun a => ?_
    have hcount : ∀ rows : List α, List.count a (rowsOf key rows (key a)) = List.count a rows :=
      fun rows => List.count_filter (decide_eq_true rfl)
    rw [← hcount l, ← hcount r]
    exact (h (key a)).count_eq a

/-- Lists with one last element are equal as multisets when the rest of them are. -/
theorem perm_iff_dropLast (h : l.getLast? = r.getLast?) :
    l.Perm r ↔ l.dropLast.Perm r.dropLast := by
  cases l using List.reverseRecOn with
  | nil =>
    have hr : r = [] := List.getLast?_eq_none_iff.1 h.symm
    rw [hr, List.dropLast_nil]
  | append_singleton l a =>
    rw [List.getLast?_concat] at h
    obtain ⟨r', rfl⟩ := List.getLast?_eq_some_iff.1 h.symm
    rw [List.dropLast_concat, List.dropLast_concat]
    exact List.perm_append_right_iff [a]

/-- The row of a key that a dictionary keeps. -/
def lastOf (key : α → κ) (rows : List α) (k : κ) : Option α := (rowsOf key rows k).getLast?

theorem mem_of_lastOf {rows : List α} {k : κ} {a : α} (h : lastOf key rows k = some a) :
    a ∈ rows ∧ key a = k := by
  obtain ⟨hmem, hkey⟩ := List.mem_filter.1 (List.mem_of_getLast? h)
  exact ⟨hmem, of_decide_eq_true hkey⟩

/-- The rows of a key that it does not. -/
def hidden (key : α → κ) (rows : List α) (k : κ) : List α := (rowsOf key rows k).dropLast

theorem perm_iff_hidden [DecidableEq α] (h : ∀ k, lastOf key l k = lastOf key r k) :
    l.Perm r ↔ ∀ k, (hidden key l k).Perm (hidden key r k) := by
  rw [perm_iff_rowsOf key]
  exact forall_congr' fun k => perm_iff_dropLast (h k)

/-- Nothing is hidden where each key is there once. -/
theorem hidden_eq_nil_iff : (∀ k, hidden key l k = []) ↔ (l.map key).Nodup := by
  have hcount : ∀ k, List.count k (l.map key) = (rowsOf key l k).length := by
    intro k
    rw [List.count, List.countP_map, List.countP_eq_length_filter]
    rfl
  rw [List.nodup_iff_count_le_one]
  refine forall_congr' fun k => ?_
  rw [hcount, hidden, ← List.length_eq_zero_iff, List.length_dropLast]
  omega

theorem lastOf_eq_of_perm (hl : (l.map key).Nodup) (h : l.Perm r) (k : κ) :
    lastOf key l k = lastOf key r k := by
  have hrows : (rowsOf key l k).Perm (rowsOf key r k) := h.filter _
  have hhidden : (rowsOf key l k).dropLast = [] := hidden_eq_nil_iff.2 hl k
  unfold lastOf
  cases hcases : rowsOf key l k with
  | nil =>
    rw [hcases] at hrows
    rw [hrows.nil_eq]
  | cons a rest =>
    rw [hcases] at hrows hhidden
    have hrest : rest = [] := by
      cases rest with
      | nil => rfl
      | cons b rest => cases hhidden
    rw [hrest] at hrows
    rw [hrest, List.singleton_perm.1 hrows]

theorem lastOf_map {f : α → α} (hf : ∀ a, key (f a) = key a) (k : κ) :
    lastOf key (l.map f) k = (lastOf key l k).map f := by
  have hkeys : ((fun a => decide (key a = k)) ∘ f) = fun a => decide (key a = k) := by
    funext a
    rw [Function.comp_apply, hf]
  rw [lastOf, rowsOf, List.filter_map, hkeys, List.getLast?_map]
  rfl

/-- `{key(r): r for r in rows}`. -/
theorem get?_ofItems_eq_lastOf (k : κ) :
    (Dict.ofItems (l.map fun a => (key a, a))).get? k = lastOf key l k := by
  rw [Dict.get?_ofItems_eq_getLast?, List.filter_map, List.map_map, lastOf, rowsOf]
  exact congrArg List.getLast? (List.map_id _)

end Multiset

end RowDiff

import Mathlib.Data.List.Basic
import Mathlib.Data.List.Induction
import Mathlib.Data.List.Nodup
import Mathlib.Data.List.Sort

/-!
# Insertion-ordered dictionaries

A `Dict κ α` is an association list whose keys are pairwise distinct, with the operations
and the iteration order of a Python `dict`: assigning to a present key overwrites it in
place, assigning to an absent one appends it.

* `lookup_eq_some_iff_mem` — with distinct keys, looking a key up is membership of the pair.
* `Dict.get?_insert`, `Dict.get?_update`, `Dict.get?_ofKeys`, `Dict.get?_map` — what each
  operation does to every key at once; later proofs use these and never the list.
* `Dict.lookup_sortedItems`, `Dict.filter_flatMap_entries` — the two ways of going through the
  items, in key order and collecting what each one lists.
-/

set_option autoImplicit false

/-! ## Association lists with distinct keys -/

namespace Assoc

variable {κ α : Type} [DecidableEq κ]

theorem lookup_mem {l : List (κ × α)} {k : κ} {v : α} (h : l.lookup k = some v) : (k, v) ∈ l := by
  obtain ⟨l₁, l₂, rfl, _⟩ := List.lookup_eq_some_iff.1 h
  exact List.mem_append_right _ List.mem_cons_self

theorem lookup_eq_some_iff_mem {l : List (κ × α)} (hl : (l.map Prod.fst).Nodup) {k : κ} {v : α} :
    l.lookup k = some v ↔ (k, v) ∈ l := by
  refine ⟨lookup_mem, fun h => ?_⟩
  obtain ⟨l₁, l₂, rfl⟩ := List.append_of_mem h
  refine List.lookup_eq_some_iff.2 ⟨l₁, l₂, rfl, fun p hp => ?_⟩
  rw [List.map_append, List.nodup_append] at hl
  have hne := hl.2.2 p.1 (List.mem_map_of_mem hp) k (List.mem_map_of_mem List.mem_cons_self)
  exact bne_iff_ne.2 (Ne.symm hne)

theorem lookup_eq_none_iff_notMem {l : List (κ × α)} {k : κ} :
    l.lookup k = none ↔ k ∉ l.map Prod.fst := by
  rw [List.lookup_eq_none_iff]
  simp only [bne_iff_ne, List.mem_map, not_exists, not_and]
  exact ⟨fun h p hp he => h p hp he.symm, fun h p hp he => h p hp he.symm⟩

theorem lookup_map_val {β : Type} (f : κ → α → β) (l : List (κ × α)) (k : κ) :
    (l.map (fun e => (e.1, f e.1 e.2))).lookup k = (l.lookup k).map (f k) := by
  induction l with
  | nil => rfl
  | cons e l ih =>
    obtain ⟨a, b⟩ := e
    simp only [List.map_cons, List.lookup_cons, ih]
    by_cases h : k = a
    · simp [h]
    · simp [beq_eq_false_iff_ne.2 h]

end Assoc

/-! ## Dictionaries -/

structure Dict (κ α : Type) where
  entries : List (κ × α)
  nodup : (entries.map Prod.fst).Nodup

namespace Dict

variable {κ α β : Type}

theorem ext_entries {d e : Dict κ α} (h : d.entries = e.entries) : d = e := by
  cases d; cases e; cases h; rfl

instance [DecidableEq κ] [DecidableEq α] : DecidableEq (Dict κ α) := fun d e =>
  decidable_of_iff (d.entries = e.entries) ⟨ext_entries, fun h => h ▸ rfl⟩

def empty : Dict κ α := ⟨[], List.nodup_nil⟩

def keys (d : Dict κ α) : List κ := d.entries.map Prod.fst

def values (d : Dict κ α) : List α := d.entries.map Prod.snd

/-- `{k: f(k, v) for k, v in d.items()}`. -/
def map (f : κ → α → β) (d : Dict κ α) : Dict κ β where
  entries := d.entries.map fun e => (e.1, f e.1 e.2)
  nodup := by simpa [Function.comp_def] using d.nodup

@[simp] theorem keys_map (f : κ → α → β) (d : Dict κ α) : (d.map f).keys = d.keys := by
  simp [keys, map, Function.comp_def]

/-- `sorted(d.items())`: keys are distinct, so the order is the order of the keys. -/
def sortedItems [LE κ] [DecidableLE κ] (d : Dict κ α) : List (κ × α) :=
  d.entries.insertionSort fun a b => a.1 ≤ b.1

theorem sortedItems_perm [LE κ] [DecidableLE κ] (d : Dict κ α) : d.sortedItems.Perm d.entries :=
  List.perm_insertionSort _ _

theorem nodup_sortedItems [LE κ] [DecidableLE κ] (d : Dict κ α) :
    (d.sortedItems.map Prod.fst).Nodup :=
  ((d.sortedItems_perm.map Prod.fst).nodup_iff).2 d.nodup

section Lookup

variable [DecidableEq κ]

/-- `d.get(k)`. -/
def get? (d : Dict κ α) (k : κ) : Option α := d.entries.lookup k

/-- `d.get(k, default)`. -/
def getD (d : Dict κ α) (k : κ) (default : α) : α := (d.get? k).getD default

theorem get?_eq_some_iff {d : Dict κ α} {k : κ} {v : α} : d.get? k = some v ↔ (k, v) ∈ d.entries :=
  Assoc.lookup_eq_some_iff_mem d.nodup

theorem get?_eq_none_iff {d : Dict κ α} {k : κ} : d.get? k = none ↔ k ∉ d.keys :=
  Assoc.lookup_eq_none_iff_notMem

theorem mem_keys_iff {d : Dict κ α} {k : κ} : k ∈ d.keys ↔ ∃ v, d.get? k = some v := by
  rw [← Option.ne_none_iff_exists', ne_eq, get?_eq_none_iff, not_not]

@[simp] theorem get?_empty (k : κ) : (empty : Dict κ α).get? k = none := rfl

@[simp] theorem get?_map (f : κ → α → β) (d : Dict κ α) (k : κ) :
    (d.map f).get? k = (d.get? k).map (f k) :=
  Assoc.lookup_map_val f d.entries k

/-! ### Assignment -/

theorem keys_overwrite (k : κ) (v : α) (l : List (κ × α)) :
    (l.map fun e => if e.1 = k then (k, v) else e).map Prod.fst = l.map Prod.fst := by
  rw [List.map_map]
  refine List.map_congr_left fun e _ => ?_
  by_cases h : e.1 = k
  · simp [h]
  · simp [h]

/-- `d[k] = v`. -/
def insert (d : Dict κ α) (k : κ) (v : α) : Dict κ α :=
  if h : k ∈ d.entries.map Prod.fst then
    ⟨d.entries.map fun e => if e.1 = k then (k, v) else e, by rw [keys_overwrite]; exact d.nodup⟩
  else
    ⟨d.entries ++ [(k, v)], by
      rw [List.map_append, List.nodup_append]
      refine ⟨d.nodup, by simp, fun a ha b hb hab => h ?_⟩
      simp only [List.map_cons, List.map_nil, List.mem_singleton] at hb
      rw [← hb, ← hab]; exact ha⟩

theorem mem_entries_insert {d : Dict κ α} {k k' : κ} {v v' : α} :
    (k', v') ∈ (d.insert k v).entries ↔
      (k' = k ∧ v' = v) ∨ (k' ≠ k ∧ (k', v') ∈ d.entries) := by
  unfold insert
  split
  · rename_i h
    simp only [List.mem_map]
    constructor
    · rintro ⟨e, he, hev⟩
      by_cases hk : e.1 = k
      · rw [if_pos hk] at hev
        cases hev
        exact Or.inl ⟨rfl, rfl⟩
      · rw [if_neg hk] at hev
        subst hev
        exact Or.inr ⟨hk, he⟩
    · rintro (⟨rfl, rfl⟩ | ⟨hk, he⟩)
      · obtain ⟨e, he, hek⟩ := List.mem_map.1 h
        exact ⟨e, he, by rw [if_pos hek]⟩
      · exact ⟨_, he, by rw [if_neg hk]⟩
  · rename_i h
    simp only [List.mem_append, List.mem_singleton, Prod.mk.injEq]
    constructor
    · rintro (he | he)
      · refine Or.inr ⟨fun hk => h ?_, he⟩
        rw [← hk]
        exact List.mem_map_of_mem he
      · exact Or.inl he
    · rintro (he | ⟨_, he⟩)
      · exact Or.inr he
      · exact Or.inl he

theorem get?_insert (d : Dict κ α) (k k' : κ) (v : α) :
    (d.insert k v).get? k' = if k' = k then some v else d.get? k' := by
  refine Option.ext fun w => ?_
  rw [get?_eq_some_iff, mem_entries_insert]
  by_cases h : k' = k
  · simp [h, eq_comm]
  · simp [h, get?_eq_some_iff]

/-- `d.update(e)`. -/
def update (d e : Dict κ α) : Dict κ α :=
  e.entries.foldl (fun acc kv => acc.insert kv.1 kv.2) d

theorem get?_foldl_insert (l : List (κ × α)) (hl : (l.map Prod.fst).Nodup) (d : Dict κ α) (k : κ) :
    (l.foldl (fun acc kv => acc.insert kv.1 kv.2) d).get? k = (l.lookup k).or (d.get? k) := by
  induction l generalizing d with
  | nil => simp
  | cons e l ih =>
    obtain ⟨he, hl'⟩ := List.nodup_cons.1 hl
    rw [List.foldl_cons, ih hl', get?_insert, List.lookup_cons]
    by_cases h : k = e.1
    · have hnone : l.lookup k = none := Assoc.lookup_eq_none_iff_notMem.2 (h ▸ he)
      rw [hnone]
      simp [h]
    · simp [h, beq_eq_false_iff_ne.2 h]

theorem get?_update (d e : Dict κ α) (k : κ) : (d.update e).get? k = (e.get? k).or (d.get? k) :=
  get?_foldl_insert e.entries e.nodup d k

/-- `{k: f(k) for k in ks}`. -/
def ofKeys (ks : List κ) (f : κ → α) : Dict κ α :=
  ks.foldl (fun acc k => acc.insert k (f k)) empty

theorem get?_foldl_ofKeys (ks : List κ) (f : κ → α) (d : Dict κ α) (k : κ) :
    (ks.foldl (fun acc k => acc.insert k (f k)) d).get? k =
      if k ∈ ks then some (f k) else d.get? k := by
  induction ks generalizing d with
  | nil => simp
  | cons x ks ih =>
    rw [List.foldl_cons, ih, get?_insert]
    by_cases hk : k ∈ ks
    · simp [hk]
    · by_cases hx : k = x
      · simp [hx]
      · simp [hk, hx]

theorem get?_ofKeys (ks : List κ) (f : κ → α) (k : κ) :
    (ofKeys ks f).get? k = if k ∈ ks then some (f k) else none :=
  get?_foldl_ofKeys ks f empty k

/-- The same where a key may have no value. -/
def ofKeys? (ks : List κ) (f : κ → Option α) : Dict κ α :=
  ks.foldl (fun acc k => (f k).elim acc (acc.insert k)) empty

theorem get?_foldl_ofKeys? (ks : List κ) (f : κ → Option α) (d : Dict κ α) (k : κ) :
    (ks.foldl (fun acc k => (f k).elim acc (acc.insert k)) d).get? k =
      if k ∈ ks then (f k).or (d.get? k) else d.get? k := by
  induction ks generalizing d with
  | nil => simp
  | cons x ks ih =>
    have hx : ((f x).elim d (d.insert x)).get? k = if k = x then (f k).or (d.get? k) else d.get? k := by
      cases hf : f x with
      | none =>
        by_cases h : k = x
        · subst h
          simp [hf]
        · simp [h]
      | some v =>
        rw [Option.elim_some, get?_insert]
        by_cases h : k = x
        · subst h
          simp [hf]
        · simp [h]
    rw [List.foldl_cons, ih, hx]
    by_cases hk : k = x
    · subst hk
      cases f k <;> simp
    · simp [hk]

theorem get?_ofKeys? (ks : List κ) (f : κ → Option α) (k : κ) :
    (ofKeys? ks f).get? k = if k ∈ ks then f k else none := by
  rw [ofKeys?, get?_foldl_ofKeys?, get?_empty, Option.or_none]

/-! ### Items -/

/-- `dict(items)`: of two items with one key the later wins. -/
def ofItems (l : List (κ × α)) : Dict κ α := l.foldl (fun acc kv => acc.insert kv.1 kv.2) empty

theorem get?_ofItems {l : List (κ × α)} (hl : (l.map Prod.fst).Nodup) (k : κ) :
    (ofItems l).get? k = l.lookup k := by
  rw [ofItems, get?_foldl_insert l hl, get?_empty, Option.or_none]

theorem get?_foldl_insert_eq_getLast? (l : List (κ × α)) (d : Dict κ α) (k : κ) :
    (l.foldl (fun acc kv => acc.insert kv.1 kv.2) d).get? k =
      (((l.filter fun e => e.1 = k).map Prod.snd).getLast?).or (d.get? k) := by
  induction l using List.reverseRecOn with
  | nil => rfl
  | append_singleton l e ih =>
    rw [List.foldl_append, List.foldl_cons, List.foldl_nil, get?_insert, List.filter_append,
      List.map_append]
    by_cases h : k = e.1
    · rw [if_pos h]
      simp [h]
    · rw [if_neg h, ih]
      simp [Ne.symm h]

theorem get?_ofItems_eq_getLast? (l : List (κ × α)) (k : κ) :
    (ofItems l).get? k = ((l.filter fun e => e.1 = k).map Prod.snd).getLast? := by
  rw [ofItems, get?_foldl_insert_eq_getLast?, get?_empty, Option.or_none]

theorem entries_foldl_insert (l : List (κ × α)) (d : Dict κ α)
    (h : ((d.entries ++ l).map Prod.fst).Nodup) :
    (l.foldl (fun acc kv => acc.insert kv.1 kv.2) d).entries = d.entries ++ l := by
  induction l generalizing d with
  | nil => simp
  | cons e l ih =>
    have hne : e.1 ∉ d.entries.map Prod.fst := by
      rw [List.map_append, List.nodup_append] at h
      exact fun hmem => h.2.2 e.1 hmem e.1 (by simp) rfl
    have hentries : (d.insert e.1 e.2).entries = d.entries ++ [e] := by
      rw [insert, dif_neg hne]
    rw [List.foldl_cons, ih, hentries, List.append_assoc, List.singleton_append]
    rw [hentries, List.append_assoc, List.singleton_append]
    exact h

theorem entries_ofItems {l : List (κ × α)} (hl : (l.map Prod.fst).Nodup) :
    (ofItems l).entries = l := by
  rw [ofItems, entries_foldl_insert l empty hl]
  rfl

theorem lookup_sortedItems [LE κ] [DecidableLE κ] (d : Dict κ α) (k : κ) :
    d.sortedItems.lookup k = d.get? k := by
  refine Option.ext fun v => ?_
  rw [Assoc.lookup_eq_some_iff_mem d.nodup_sortedItems, get?_eq_some_iff,
    d.sortedItems_perm.mem_iff]

/-- `{k: v for k, v in d.items() if p(k)}`. -/
def filterKeys (p : κ → Bool) (d : Dict κ α) : Dict κ α where
  entries := d.entries.filter fun e => p e.1
  nodup := d.nodup.sublist (List.filter_sublist.map _)

theorem get?_filterKeys (p : κ → Bool) (d : Dict κ α) (k : κ) :
    (d.filterKeys p).get? k = if p k then d.get? k else none := by
  refine Option.ext fun v => ?_
  rw [get?_eq_some_iff, filterKeys, List.mem_filter]
  by_cases h : p k = true
  · simp [h, get?_eq_some_iff]
  · simp [h]

theorem entries_ofKeys {ks : List κ} (hks : ks.Nodup) (f : κ → α) :
    (ofKeys ks f).entries = ks.map fun k => (k, f k) := by
  have hitems : ofKeys ks f = ofItems (ks.map fun k => (k, f k)) := by
    rw [ofKeys, ofItems, List.foldl_map]
  rw [hitems, entries_ofItems]
  rw [List.map_map]
  exact (List.map_id ks).symm ▸ hks

/-- What is listed under one key, when every item lists things that name its key. -/
theorem filter_flatMap_entries {ρ : Type} (key : ρ → κ) (f : κ → α → List ρ)
    (hf : ∀ k v, ∀ r ∈ f k v, key r = k) (d : Dict κ α) (k : κ) :
    (d.entries.flatMap fun e => f e.1 e.2).filter (fun r => key r = k) =
      ((d.get? k).map (f k)).getD [] := by
  obtain ⟨l, hl⟩ := d
  unfold get?
  simp only
  induction l with
  | nil => rfl
  | cons e l ih =>
    obtain ⟨he, hl'⟩ := List.nodup_cons.1 hl
    rw [List.flatMap_cons, List.filter_append, ih hl', List.lookup_cons]
    by_cases h : k = e.1
    · have hnone : l.lookup k = none := Assoc.lookup_eq_none_iff_notMem.2 (h ▸ he)
      have hall : (f e.1 e.2).filter (fun r => key r = k) = f e.1 e.2 :=
        List.filter_eq_self.2 fun r hr => decide_eq_true ((hf _ _ r hr).trans h.symm)
      rw [hnone, hall]
      simp [h]
    · have hnone : (f e.1 e.2).filter (fun r => key r = k) = [] :=
        List.filter_eq_nil_iff.2 fun r hr => by
          simpa [hf _ _ r hr] using Ne.symm h
      rw [hnone, List.nil_append, beq_eq_false_iff_ne.2 h]

end Lookup

end Dict

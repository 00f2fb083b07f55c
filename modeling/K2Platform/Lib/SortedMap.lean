import Mathlib.Data.List.Sort
import K2Platform.Lib.Dict

/-!
# Maps sorted by key

A `SortedMap κ α` is a list of key-value pairs in strictly ascending key order, with the
operations of a B-tree map: point lookup, insertion, removal, removal of the first or the
last pair, and iteration in key order from either end.

* `get?_insert`, `get?_erase` — what each operation does to every key at once.
* `Forall.insert`, `Forall.erase` — a property of all values is kept.
* `ext_get?` — two maps with the same lookups are equal, iteration order included.
* `ofPairs_of_perm` — a map is what inserting its pairs in any order gives.
* `popFirstTo_entries`, `popLastTo_entries` — popping one end until at most `n` pairs are left
  keeps exactly the `n` pairs at the other end.
-/

set_option autoImplicit false

structure SortedMap (κ α : Type) [LinearOrder κ] where
  entries : List (κ × α)
  sorted : entries.Pairwise (fun a b => a.1 < b.1)

namespace SortedMap

variable {κ α : Type} [LinearOrder κ]

theorem ext_entries {m n : SortedMap κ α} (h : m.entries = n.entries) : m = n := by
  cases m; cases n; cases h; rfl

instance [DecidableEq α] : DecidableEq (SortedMap κ α) := fun m n =>
  decidable_of_iff (m.entries = n.entries) ⟨ext_entries, fun h => h ▸ rfl⟩

def empty : SortedMap κ α := ⟨[], List.Pairwise.nil⟩

def keys (m : SortedMap κ α) : List κ := m.entries.map Prod.fst

def values (m : SortedMap κ α) : List α := m.entries.map Prod.snd

def length (m : SortedMap κ α) : Nat := m.entries.length

def isEmpty (m : SortedMap κ α) : Bool := m.entries.isEmpty

theorem nodup_keys (m : SortedMap κ α) : (m.entries.map Prod.fst).Nodup := by
  rw [List.nodup_iff_pairwise_ne, List.pairwise_map]
  exact m.sorted.imp fun h => ne_of_lt h

@[simp] theorem isEmpty_iff {m : SortedMap κ α} : m.isEmpty = true ↔ m.entries = [] :=
  List.isEmpty_iff

/-! ## Lookup -/

def get? (m : SortedMap κ α) (k : κ) : Option α := m.entries.lookup k

def contains (m : SortedMap κ α) (k : κ) : Bool := (m.get? k).isSome

theorem get?_eq_some_iff {m : SortedMap κ α} {k : κ} {v : α} :
    m.get? k = some v ↔ (k, v) ∈ m.entries :=
  Assoc.lookup_eq_some_iff_mem m.nodup_keys

theorem get?_eq_none_iff {m : SortedMap κ α} {k : κ} : m.get? k = none ↔ k ∉ m.keys :=
  Assoc.lookup_eq_none_iff_notMem

theorem mem_keys_iff {m : SortedMap κ α} {k : κ} : k ∈ m.keys ↔ m.contains k = true := by
  rw [contains, Option.isSome_iff_ne_none, ne_eq, get?_eq_none_iff, not_not]

@[simp] theorem get?_empty (k : κ) : (empty : SortedMap κ α).get? k = none := rfl

/-- A sorted list is determined by its members, so a map is determined by its lookups. -/
theorem ext_get? {m n : SortedMap κ α} (h : ∀ k, m.get? k = n.get? k) : m = n := by
  refine ext_entries ?_
  have hmem : ∀ e, e ∈ m.entries ↔ e ∈ n.entries := fun e => by
    rw [← get?_eq_some_iff (k := e.1) (v := e.2), h e.1]; exact get?_eq_some_iff
  have hperm : m.entries.Perm n.entries :=
    (List.perm_ext_iff_of_nodup (List.Nodup.of_map _ m.nodup_keys)
      (List.Nodup.of_map _ n.nodup_keys)).2 hmem
  exact hperm.eq_of_pairwise (fun a b _ _ hab hba => absurd (lt_trans hab hba) (lt_irrefl _))
    m.sorted n.sorted

/-! ## Insertion and removal -/

def insert (m : SortedMap κ α) (k : κ) (v : α) : SortedMap κ α where
  entries := m.entries.filter (fun e => e.1 < k) ++ (k, v) :: m.entries.filter (fun e => k < e.1)
  sorted := by
    rw [List.pairwise_append, List.pairwise_cons]
    refine ⟨m.sorted.filter _, ⟨fun e he => ?_, m.sorted.filter _⟩, fun a ha b hb => ?_⟩
    · exact of_decide_eq_true (List.mem_filter.1 he).2
    · have hak : a.1 < k := of_decide_eq_true (List.mem_filter.1 ha).2
      rcases List.mem_cons.1 hb with rfl | hb
      · exact hak
      · exact lt_trans hak (of_decide_eq_true (List.mem_filter.1 hb).2)

def erase (m : SortedMap κ α) (k : κ) : SortedMap κ α where
  entries := m.entries.filter (fun e => e.1 ≠ k)
  sorted := m.sorted.filter _

theorem mem_entries_insert {m : SortedMap κ α} {k : κ} {v : α} {e : κ × α} :
    e ∈ (m.insert k v).entries ↔ e = (k, v) ∨ (e.1 ≠ k ∧ e ∈ m.entries) := by
  simp only [insert, List.mem_append, List.mem_cons, List.mem_filter, decide_eq_true_eq,
    ne_iff_lt_or_gt]
  tauto

theorem mem_entries_erase {m : SortedMap κ α} {k : κ} {e : κ × α} :
    e ∈ (m.erase k).entries ↔ e.1 ≠ k ∧ e ∈ m.entries := by
  simp [erase, and_comm]

theorem get?_insert (m : SortedMap κ α) (k k' : κ) (v : α) :
    (m.insert k v).get? k' = if k' = k then some v else m.get? k' := by
  refine Option.ext fun w => ?_
  rw [get?_eq_some_iff, mem_entries_insert, Prod.mk.injEq]
  by_cases h : k' = k
  · simp [h, eq_comm]
  · simp [h, get?_eq_some_iff]

theorem get?_erase (m : SortedMap κ α) (k k' : κ) :
    (m.erase k).get? k' = if k' = k then none else m.get? k' := by
  refine Option.ext fun w => ?_
  rw [get?_eq_some_iff, mem_entries_erase]
  by_cases h : k' = k
  · simp [h]
  · simp [h, get?_eq_some_iff]

@[simp] theorem get?_insert_self (m : SortedMap κ α) (k : κ) (v : α) :
    (m.insert k v).get? k = some v := by
  rw [get?_insert, if_pos rfl]

theorem get?_insert_of_ne (m : SortedMap κ α) {k k' : κ} (v : α) (h : k' ≠ k) :
    (m.insert k v).get? k' = m.get? k' := by
  rw [get?_insert, if_neg h]

@[simp] theorem get?_erase_self (m : SortedMap κ α) (k : κ) : (m.erase k).get? k = none := by
  rw [get?_erase, if_pos rfl]

theorem insert_insert (m : SortedMap κ α) (k : κ) (v w : α) :
    (m.insert k v).insert k w = m.insert k w := by
  refine ext_get? fun k' => ?_
  simp only [get?_insert]
  split <;> rfl

theorem get?_erase_of_ne (m : SortedMap κ α) {k k' : κ} (h : k' ≠ k) :
    (m.erase k).get? k' = m.get? k' := by
  rw [get?_erase, if_neg h]

/-! ## Properties of all values -/

def Forall (P : α → Prop) (m : SortedMap κ α) : Prop := ∀ k v, m.get? k = some v → P v

theorem forall_empty (P : α → Prop) : (empty : SortedMap κ α).Forall P := fun _ _ h => nomatch h

theorem Forall.mono {P Q : α → Prop} (hPQ : ∀ v, P v → Q v) {m : SortedMap κ α}
    (h : m.Forall P) : m.Forall Q := fun k v hv => hPQ v (h k v hv)

theorem Forall.insert {P : α → Prop} {m : SortedMap κ α} (h : m.Forall P) (k : κ) {v : α}
    (hv : P v) : (m.insert k v).Forall P := by
  intro k' w hw
  rw [get?_insert] at hw
  split at hw
  · cases hw
    exact hv
  · exact h k' w hw

theorem Forall.erase {P : α → Prop} {m : SortedMap κ α} (h : m.Forall P) (k : κ) :
    (m.erase k).Forall P := by
  intro k' w hw
  rw [get?_erase] at hw
  split at hw
  · cases hw
  · exact h k' w hw

/-! ## Building a map from pairs -/

/-- The pairs inserted one after the other. -/
def ofPairs (l : List (κ × α)) : SortedMap κ α := l.foldl (fun m e => m.insert e.1 e.2) empty

theorem get?_foldl_insert {l : List (κ × α)} (hl : (l.map Prod.fst).Nodup) (m : SortedMap κ α)
    (k : κ) : (l.foldl (fun m e => m.insert e.1 e.2) m).get? k = (l.lookup k).or (m.get? k) := by
  induction l generalizing m with
  | nil => simp
  | cons e l ih =>
    obtain ⟨he, hl'⟩ := List.nodup_cons.1 hl
    rw [List.foldl_cons, ih hl', get?_insert, List.lookup_cons]
    by_cases h : k = e.1
    · have hnone : l.lookup k = none := Assoc.lookup_eq_none_iff_notMem.2 (h ▸ he)
      rw [hnone]
      simp [h]
    · simp [h, beq_eq_false_iff_ne.2 h]

/-- A map is built back from its own pairs, in whatever order they come. -/
theorem ofPairs_of_perm {m : SortedMap κ α} {l : List (κ × α)} (h : l.Perm m.entries) :
    ofPairs l = m := by
  have hnodup : (l.map Prod.fst).Nodup := ((h.map Prod.fst).nodup_iff).2 m.nodup_keys
  refine ext_get? fun k => Option.ext fun v => ?_
  rw [ofPairs, get?_foldl_insert hnodup, get?_empty, Option.or_none,
    Assoc.lookup_eq_some_iff_mem hnodup, get?_eq_some_iff, h.mem_iff]

/-! ## Popping the ends -/

/-- `pop_first`, the removed pair dropped. -/
def popFirst (m : SortedMap κ α) : SortedMap κ α :=
  ⟨m.entries.tail, m.sorted.sublist (List.tail_sublist _)⟩

/-- `pop_last`, the removed pair dropped. -/
def popLast (m : SortedMap κ α) : SortedMap κ α :=
  ⟨m.entries.dropLast, m.sorted.sublist (List.dropLast_sublist _)⟩

/-- `while m.len() > n { m.pop_first(); }`: every pass removes one pair, so the loop makes
    `m.len() - n` of them. -/
def popFirstTo (n : Nat) (m : SortedMap κ α) : SortedMap κ α :=
  popFirst^[m.length - n] m

/-- `while m.len() > n { m.pop_last(); }`. -/
def popLastTo (n : Nat) (m : SortedMap κ α) : SortedMap κ α :=
  popLast^[m.length - n] m

theorem popFirst_iterate_entries (i : Nat) (m : SortedMap κ α) :
    (popFirst^[i] m).entries = m.entries.drop i := by
  induction i generalizing m with
  | zero => rfl
  | succ i ih => rw [Function.iterate_succ_apply, ih, popFirst, List.drop_tail]

theorem popLast_iterate_entries (i : Nat) (m : SortedMap κ α) :
    (popLast^[i] m).entries = m.entries.take (m.length - i) := by
  induction i generalizing m with
  | zero => simp [length]
  | succ i ih =>
    have hlast : m.popLast.entries = m.entries.take (m.entries.length - 1) :=
      List.dropLast_eq_take
    rw [Function.iterate_succ_apply, ih, length, hlast, List.take_take, List.length_take, length]
    congr 1
    omega

theorem popFirstTo_entries (n : Nat) (m : SortedMap κ α) :
    (m.popFirstTo n).entries = m.entries.drop (m.length - n) :=
  popFirst_iterate_entries _ _

theorem popLastTo_entries (n : Nat) (m : SortedMap κ α) :
    (m.popLastTo n).entries = m.entries.take n := by
  rw [popLastTo, popLast_iterate_entries]
  rcases Nat.le_total m.length n with h | h
  · have hn : m.entries.length ≤ n := h
    rw [Nat.sub_eq_zero_of_le h, Nat.sub_zero, length, List.take_length,
      List.take_of_length_le hn]
  · rw [Nat.sub_sub_self h]

theorem length_popFirstTo_le (n : Nat) (m : SortedMap κ α) : (m.popFirstTo n).length ≤ n := by
  rw [length, popFirstTo_entries, List.length_drop]
  simp only [length]
  omega

theorem length_popLastTo_le (n : Nat) (m : SortedMap κ α) : (m.popLastTo n).length ≤ n := by
  rw [length, popLastTo_entries]
  exact List.length_take_le _ _

theorem mem_of_mem_popFirstTo {n : Nat} {m : SortedMap κ α} {e : κ × α}
    (h : e ∈ (m.popFirstTo n).entries) : e ∈ m.entries := by
  rw [popFirstTo_entries] at h
  exact List.mem_of_mem_drop h

theorem mem_of_mem_popLastTo {n : Nat} {m : SortedMap κ α} {e : κ × α}
    (h : e ∈ (m.popLastTo n).entries) : e ∈ m.entries := by
  rw [popLastTo_entries] at h
  exact List.mem_of_mem_take h

end SortedMap

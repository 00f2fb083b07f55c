import Mathlib.Data.List.Basic
import Mathlib.Data.List.Pairwise
import Mathlib.Algebra.Order.Ring.Int

/-!
# Logs read partition by partition

Items are sent in order; each goes to one of several partitions, an item with a key to the
partition of its key and one without a key to any.  A reader takes every partition up to a bound
of its own, run after run.

* `reads` — what each run takes.
* `reads_inOrder` — items in one partition are read in the order they were sent.
* `inOrder_iff` — items that share a label are read in order under every placement and every
  sequence of bounds exactly when no label is on two items of which one has no key.
-/

set_option autoImplicit false

namespace PartitionedLog

variable {α κ : Type}

/-! ## Reading -/

section Reads

variable (place : α → Nat) (partitions : Nat) (items : List α)

/-- The log of one partition. -/
def log (p : Nat) : List α := items.filter fun x => place x = p

/-- An end never rewinds below its start. -/
def advance (starts ends : Nat → Nat) : Nat → Nat := fun p => max (starts p) (ends p)

/-- One run: every partition from its start up to its end. -/
def readOnce (starts ends : Nat → Nat) : List α :=
  (List.range partitions).flatMap fun p =>
    ((log place items p).take (advance starts ends p)).drop (starts p)

/-- What each run takes; the next run starts where the last one ended. -/
def reads : (Nat → Nat) → List (Nat → Nat) → List (List α)
  | _, [] => []
  | starts, ends :: rest =>
    readOnce place partitions items starts ends :: reads (advance starts ends) rest

variable {place partitions items}

theorem mem_readOnce {starts ends : Nat → Nat} {x : α}
    (h : x ∈ readOnce place partitions items starts ends) :
    x ∈ ((log place items (place x)).take (advance starts ends (place x))).drop (starts (place x)) := by
  obtain ⟨p, _, hx⟩ := List.mem_flatMap.1 h
  have hp : place x = p :=
    of_decide_eq_true (List.mem_filter.1 (List.mem_of_mem_take (List.mem_of_mem_drop hx))).2
  rw [hp]
  exact hx

theorem mem_items_of_mem_reads :
    ∀ (bounds : List (Nat → Nat)) {starts : Nat → Nat} {b : List α} {x : α},
      b ∈ reads place partitions items starts bounds → x ∈ b → x ∈ items
  | ends :: rest, starts, b, x, hb, hx => by
    rcases List.mem_cons.1 hb with rfl | hb
    · have hlog := List.mem_of_mem_take (List.mem_of_mem_drop (mem_readOnce hx))
      exact List.mem_of_mem_filter hlog
    · exact mem_items_of_mem_reads rest hb hx

/-- Every run reads a partition past where the first one starts. -/
theorem mem_drop_of_mem_reads :
    ∀ (bounds : List (Nat → Nat)) {starts : Nat → Nat} {b : List α} {x : α},
      b ∈ reads place partitions items starts bounds → x ∈ b →
        x ∈ (log place items (place x)).drop (starts (place x))
  | ends :: rest, starts, b, x, hb, hx => by
    rcases List.mem_cons.1 hb with rfl | hb
    · have hsub := List.Sublist.drop (List.take_sublist (advance starts ends (place x))
        (log place items (place x))) (starts (place x))
      exact hsub.subset (mem_readOnce hx)
    · have hlater := mem_drop_of_mem_reads rest hb hx
      have hle : starts (place x) ≤ advance starts ends (place x) := Nat.le_max_left _ _
      exact (List.drop_sublist_drop_left _ hle).subset hlater

end Reads

/-! ## Order -/

section Order

variable (seq : α → Int) (labels : α → List κ)

/-- No later batch has an item that was sent before an item of an earlier batch with a label in
    common. -/
def InOrder (batches : List (List α)) : Prop :=
  batches.Pairwise fun a b => ∀ x ∈ a, ∀ y ∈ b, (∃ l, l ∈ labels x ∧ l ∈ labels y) → seq x ≤ seq y

variable {seq labels} {place : α → Nat} {partitions : Nat} {items : List α}

/-- Items of one partition are read in the order they were sent. -/
theorem reads_inOrder (hseq : items.Pairwise fun x y => seq x < seq y)
    (hplace : ∀ x ∈ items, ∀ y ∈ items, (∃ l, l ∈ labels x ∧ l ∈ labels y) → place x = place y) :
    ∀ (bounds : List (Nat → Nat)) (starts : Nat → Nat),
      InOrder seq labels (reads place partitions items starts bounds)
  | [], _ => List.Pairwise.nil
  | ends :: rest, starts => by
    refine List.pairwise_cons.2 ⟨fun b hb x hx y hy hl => ?_, reads_inOrder hseq hplace rest _⟩
    have hlog := mem_readOnce hx
    have hxi : x ∈ items :=
      List.mem_of_mem_filter (List.mem_of_mem_take (List.mem_of_mem_drop hlog))
    have hsame := hplace x hxi y (mem_items_of_mem_reads rest hb hy) hl
    have hbefore : x ∈ (log place items (place x)).take (advance starts ends (place x)) :=
      List.mem_of_mem_drop hlog
    have hafter : y ∈ (log place items (place x)).drop (advance starts ends (place x)) := by
      have hdrop := mem_drop_of_mem_reads rest hb hy
      rwa [← hsame] at hdrop
    have hsplit : (log place items (place x)).Pairwise fun x y => seq x < seq y :=
      hseq.sublist List.filter_sublist
    rw [← List.take_append_drop (advance starts ends (place x)) (log place items (place x))] at hsplit
    exact ((List.pairwise_append.1 hsplit).2.2 x hbefore y hafter).le

variable (place partitions) in
/-- An item apart from all the others, and the partition read first. -/
theorem not_inOrder_of_apart {x y : α} (hx : x ∈ items) (hy : y ∈ items) (hxy : seq x < seq y)
    (hl : ∃ l, l ∈ labels x ∧ l ∈ labels y) (hplace : ∀ z, place z < partitions)
    (hne : place x ≠ place y) :
    ∃ bounds : List (Nat → Nat),
      ¬ InOrder seq labels (reads place partitions items (fun _ => 0) bounds) := by
  -- The partition of the later item is read to its end, the others not at all; then the rest.
  refine ⟨[fun p => if p = place y then items.length else 0, fun _ => items.length], fun h => ?_⟩
  have hread : ∀ (starts ends : Nat → Nat) (z : α), z ∈ items → starts (place z) = 0 →
      items.length ≤ ends (place z) → z ∈ readOnce place partitions items starts ends := by
    intro starts ends z hz hstart hend
    refine List.mem_flatMap.2 ⟨place z, List.mem_range.2 (hplace z), ?_⟩
    have hlen : (log place items (place z)).length ≤ advance starts ends (place z) :=
      (List.length_filter_le _ _).trans (hend.trans (Nat.le_max_right _ _))
    rw [hstart, List.drop_zero, List.take_of_length_le hlen]
    exact List.mem_filter.2 ⟨hz, decide_eq_true rfl⟩
  have hfirst := hread (fun _ => 0) (fun p => if p = place y then items.length else 0) y hy rfl
    (by rw [if_pos rfl])
  have hsecond := hread (advance (fun _ => 0) fun p => if p = place y then items.length else 0)
    (fun _ => items.length) x hx (by rw [advance, if_neg hne]; rfl) le_rfl
  have hle := (List.pairwise_cons.1 h).1 _ List.mem_cons_self y hfirst x hsecond
    (hl.imp fun _ hl => hl.symm)
  omega

end Order

/-! ## Keys -/

section Keys

variable (key : α → Option κ) (items : List α)

/-- Items with one key are in one partition. -/
def Allowed (place : α → Nat) : Prop :=
  ∃ partitionOf : κ → Nat, ∀ x ∈ items, ∀ k, key x = some k → place x = partitionOf k

variable {key items} {seq : α → Int} {labels : α → List κ}

/-- A label is on two items only where both have a key. -/
def Keyed (key : α → Option κ) (labels : α → List κ) (items : List α) : Prop :=
  items.Pairwise fun x y => (∃ l, l ∈ labels x ∧ l ∈ labels y) → (key x).isSome ∧ (key y).isSome

/-- Items that share a label are read in the order they were sent, wherever the items without a
    key go and whatever bounds the runs have, exactly when no label is on two items of which one
    has no key. -/
theorem inOrder_iff (hseq : items.Pairwise fun x y => seq x < seq y)
    (hkey : ∀ x ∈ items, ∀ k, key x = some k → ∀ l ∈ labels x, l = k) :
    (∀ (partitions : Nat) (place : α → Nat), (∀ x, place x < partitions) →
      Allowed key items place → ∀ bounds : List (Nat → Nat),
        InOrder seq labels (reads place partitions items (fun _ => 0) bounds)) ↔
      Keyed key labels items := by
  constructor
  · intro h
    refine (List.Pairwise.and_mem.1 hseq).imp fun {x y} hxy hl => ?_
    obtain ⟨hx, hy, hlt⟩ := hxy
    -- An item without a key can be put alone in its partition.
    have halone : ∀ z ∈ items, key z = none →
        Allowed key items fun w => if seq w = seq z then 1 else 0 := by
      intro z hz hnone
      refine ⟨fun _ => 0, fun w hw k hk => if_neg fun he => ?_⟩
      have hwz : w = z := by
        by_contra hne
        have : Std.Symm fun x y : α => seq x ≠ seq y := ⟨fun _ _ h => h.symm⟩
        have hdistinct : items.Pairwise fun x y => seq x ≠ seq y := hseq.imp fun h => ne_of_lt h
        exact List.Pairwise.forall hdistinct hw hz hne he
      rw [hwz, hnone] at hk
      cases hk
    have hbound : ∀ z w : α, (if seq w = seq z then 1 else 0) < 2 := by
      intro z w
      split <;> omega
    constructor
    · by_contra hnone
      obtain ⟨bounds, hbad⟩ := not_inOrder_of_apart (fun w => if seq w = seq x then 1 else 0) 2
        hx hy hlt hl (hbound x) (by rw [if_pos rfl, if_neg (ne_of_gt hlt)]; omega)
      exact hbad (h 2 _ (hbound x) (halone x hx (by simpa using hnone)) bounds)
    · by_contra hnone
      obtain ⟨bounds, hbad⟩ := not_inOrder_of_apart (fun w => if seq w = seq y then 1 else 0) 2
        hx hy hlt hl (hbound y) (by rw [if_pos rfl, if_neg (ne_of_lt hlt)]; omega)
      exact hbad (h 2 _ (hbound y) (halone y hy (by simpa using hnone)) bounds)
  · rintro h partitions place _ ⟨partitionOf, hallowed⟩ bounds
    refine reads_inOrder hseq (fun x hx y hy hl => ?_) bounds _
    by_cases hxy : x = y
    · rw [hxy]
    · have : Std.Symm fun x y : α => (∃ l, l ∈ labels x ∧ l ∈ labels y) →
          (key x).isSome ∧ (key y).isSome :=
        ⟨fun a b hab hl => (hab (hl.imp fun _ hl => hl.symm)).symm⟩
      obtain ⟨hxk, hyk⟩ := List.Pairwise.forall h hx hy hxy hl
      obtain ⟨k, hk⟩ := Option.isSome_iff_exists.1 hxk
      obtain ⟨k', hk'⟩ := Option.isSome_iff_exists.1 hyk
      obtain ⟨l, hlx, hly⟩ := hl
      have hkk : k = k' := (hkey x hx k hk l hlx).symm.trans (hkey y hy k' hk' l hly)
      rw [hallowed x hx k hk, hallowed y hy k' hk', hkk]

end Keys

end PartitionedLog

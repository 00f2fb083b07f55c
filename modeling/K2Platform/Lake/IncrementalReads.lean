import K2Platform.Lake.Offsets

/-!
# Tables read by snapshot

The snapshots of a table with the rows that each added, and the two ways the stages read one: as of
a snapshot, or what came after one snapshot up to another.  A reader keeps the snapshot it has
read up to in the summary of its own table, as `str` writes the id.

* `place_current`, `place_append` — how many snapshots a recorded id stands for.
* `readBetween_eq`, `readAt_eq` — what the reads give.
-/

set_option autoImplicit false

namespace K2.Lake

variable {ρ : Type}

structure DataSnapshot (ρ : Type) where
  id : Nat
  committedAt : Int
  summary : Summary
  /-- What it added; compaction adds nothing. -/
  rows : List ρ

/-- Oldest first. -/
abbrev DataTable (ρ : Type) := List (DataSnapshot ρ)

/-- `str(snapshot_id)`. -/
def DataSnapshot.idText (s : DataSnapshot ρ) : String := writeNat s.id

theorem writeNat_injective : Function.Injective writeNat := by
  intro m n h
  have hread := congrArg readNat h
  rwa [readNat_writeNat, readNat_writeNat, Option.some.injEq] at hread

namespace DataTable

def rows (t : DataTable ρ) : List ρ := t.flatMap DataSnapshot.rows

/-- `snapshot_history`. -/
def history (t : DataTable ρ) : List Snapshot := t.map fun s => ⟨s.committedAt, s.summary⟩

/-- `_current`: the snapshot that `main` points at. -/
def current (t : DataTable ρ) : Option (DataSnapshot ρ) := t.getLast?

/-- How many snapshots there are up to this one. -/
def place (t : DataTable ρ) (idText : String) : Option Nat :=
  (t.findIdx? fun s => s.idText = idText).map (· + 1)

/-- `snapshot-id`; `none` where the table has no such snapshot. -/
def readAt (t : DataTable ρ) (idText : String) : Option (List ρ) :=
  (t.place idText).map fun n => rows (t.take n)

/-- `start-snapshot-id` and `end-snapshot-id`; `none` where the one does not come before the
    other. -/
def readBetween (t : DataTable ρ) (start stop : String) : Option (List ρ) :=
  (t.place start).bind fun m => (t.place stop).bind fun n =>
    if m < n then some (rows ((t.take n).drop m)) else none

/-- Ids are distinct, and commits serialised. -/
structure Valid (t : DataTable ρ) : Prop where
  ids : (t.map DataSnapshot.id).Nodup
  ordered : Ordered t.history

instance (t : DataTable ρ) : Decidable t.Valid :=
  decidable_of_iff ((t.map DataSnapshot.id).Nodup ∧ Ordered t.history)
    ⟨fun h => ⟨h.1, h.2⟩, fun h => ⟨h.ids, h.ordered⟩⟩

variable {t : DataTable ρ} {idText : String} {n : Nat}

theorem rows_append (t u : DataTable ρ) : rows (t ++ u) = rows t ++ rows u :=
  List.flatMap_append

theorem history_append (t u : DataTable ρ) : history (t ++ u) = history t ++ history u :=
  List.map_append

theorem Valid.initial {u : DataTable ρ} (h : Valid u) (hpre : t <+: u) : Valid t where
  ids := h.ids.sublist (hpre.sublist.map _)
  ordered := h.ordered.sublist (hpre.sublist.map _)

/-- A table that was committed to at most once. -/
theorem Valid.of_length_le_one (h : t.length ≤ 1) : Valid t := by
  cases t with
  | nil => exact ⟨List.nodup_nil, .nil⟩
  | cons s t =>
    have hnil : t = [] := List.length_eq_zero_iff.1 (Nat.le_zero.1 (Nat.le_of_succ_le_succ h))
    rw [hnil]
    exact ⟨List.nodup_singleton s.id, List.pairwise_singleton _ _⟩

theorem latestSummary_history_concat {s : DataSnapshot ρ} {job : String} (h : Valid (t ++ [s])) :
    latestSummary (history (t ++ [s])) job =
      if Snapshot.writtenBy job ⟨s.committedAt, s.summary⟩ then some s.summary
      else latestSummary t.history job := by
  have hordered := h.ordered
  rw [history_append] at hordered ⊢
  exact latestSummary_concat hordered

theorem place_le (h : t.place idText = some n) : 0 < n ∧ n ≤ t.length := by
  obtain ⟨i, hi, rfl⟩ := Option.map_eq_some_iff.1 h
  have hlt := (List.findIdx?_eq_some_iff_getElem.1 hi).1
  omega

/-- A recorded snapshot keeps its place while the table grows. -/
theorem place_append (h : t.place idText = some n) (u : DataTable ρ) :
    place (t ++ u) idText = some n := by
  obtain ⟨i, hi, rfl⟩ := Option.map_eq_some_iff.1 h
  rw [place, List.findIdx?_append, hi]
  rfl

theorem place_current {s : DataSnapshot ρ} (hvalid : (t.map DataSnapshot.id).Nodup)
    (h : t.current = some s) : t.place s.idText = some t.length := by
  obtain ⟨u, rfl⟩ := List.getLast?_eq_some_iff.1 h
  have hother : ∀ r ∈ u, decide (r.idText = s.idText) = false := by
    intro r hr
    refine decide_eq_false fun heq => ?_
    rw [List.map_append, List.nodup_append] at hvalid
    exact hvalid.2.2 r.id (List.mem_map_of_mem hr) s.id (by simp) (writeNat_injective heq)
  have hnone : u.findIdx? (fun r => decide (r.idText = s.idText)) = none :=
    List.findIdx?_eq_none_iff.2 hother
  rw [place, List.findIdx?_append, hnone]
  simp [List.findIdx?_cons]

theorem readAt_eq (h : t.place idText = some n) : t.readAt idText = some (rows (t.take n)) := by
  rw [readAt, h]
  rfl

theorem readBetween_eq {start stop : String} {m : Nat} (hstart : t.place start = some m)
    (hstop : t.place stop = some n) (hlt : m < n) :
    t.readBetween start stop = some (rows ((t.take n).drop m)) := by
  rw [readBetween, hstart, Option.bind_some, hstop, Option.bind_some, if_pos hlt]

/-- Only the newest snapshot has the place of all of them. -/
theorem idText_of_place {s : DataSnapshot ρ} (hcurrent : t.current = some s)
    (h : t.place idText = some t.length) : idText = s.idText := by
  obtain ⟨i, hi, hn⟩ := Option.map_eq_some_iff.1 h
  obtain ⟨hlt, hid, _⟩ := List.findIdx?_eq_some_iff_getElem.1 hi
  obtain ⟨u, rfl⟩ := List.getLast?_eq_some_iff.1 hcurrent
  have hlast : i = u.length := by
    rw [List.length_append, List.length_singleton] at hn
    omega
  subst hlast
  rw [List.getElem_concat_length rfl] at hid
  exact (of_decide_eq_true hid).symm

end DataTable

end K2.Lake

import Mathlib.Data.String.Basic
import K2Platform.Lake.Snapshots

/-!
# Offset bookkeeping

Model of the pure functions of `docker/lake/offsets.py`: the JSON form of an offset map, where
the next run starts, where it stops, which partitions retention has overtaken, and what is
committed.  Offset maps are `{topic: {partition: offset}}`.

* `find?_decode_encode` — what a run commits is what the next run reads.
* `find?_nextStartingOffsets`, `find?_starts`, `find?_ends`, `mem_evicted`, `find?_skipEvicted`,
  `find?_mergeCommitted` — each function, one (topic, partition) at a time.
-/

set_option autoImplicit false

namespace K2.Lake

/-- `startingOffsets` sentinels. -/
def EARLIEST : Int := -2

def LATEST : Int := -1

abbrev Offsets := Dict String (Dict Nat Int)

/-- `offsets.get(topic, {}).get(partition)`. -/
def Offsets.find? (o : Offsets) (topic : String) (partition : Nat) : Option Int :=
  (o.get? topic).bind fun parts => parts.get? partition

theorem Offsets.find?_map (o : Offsets) (f : String → Nat → Int → Int) (topic : String)
    (partition : Nat) :
    Offsets.find? (o.map fun t parts => parts.map (f t)) topic partition =
      (o.find? topic partition).map (f topic partition) := by
  unfold Offsets.find?
  rw [Dict.get?_map]
  cases o.get? topic with
  | none => rfl
  | some parts => exact Dict.get?_map _ _ _

/-! ## The JSON form -/

/-- `str(p)`. -/
def writeNat (n : Nat) : String := Nat.repr n

/-- `int(p)` on the digits that `str` writes; anything else is a `ValueError` here. -/
def readNat (s : String) : Option Nat :=
  if s.toList ≠ [] ∧ s.toList.all Char.isDigit then some (Nat.ofDigitChars 10 s.toList 0) else none

theorem readNat_writeNat (n : Nat) : readNat (writeNat n) = some n := by
  have hne : Nat.toDigits 10 n ≠ [] := by
    have := @Nat.length_toDigits_pos 10 n
    exact List.ne_nil_of_length_pos this
  have hall : (Nat.toDigits 10 n).all Char.isDigit = true :=
    List.all_eq_true.2 fun c hc => Nat.isDigit_of_mem_toDigits (by decide) (by decide) hc
  rw [readNat, writeNat, Nat.toList_repr, if_pos ⟨hne, hall⟩, Nat.ofDigitChars_ten_toDigits]

def encodeParts (parts : Dict Nat Int) : Dict String Int :=
  Dict.ofItems (parts.sortedItems.map fun e => (writeNat e.1, e.2))

/-- `encode`: partitions as strings, topics and partitions sorted. -/
def encode (offsets : Offsets) : Dict String (Dict String Int) :=
  Dict.ofItems (offsets.sortedItems.map fun e => (e.1, encodeParts e.2))

def decodeParts (parts : Dict String Int) : Option (Dict Nat Int) :=
  (parts.entries.mapM fun e => (readNat e.1).map fun p => (p, e.2)).map Dict.ofItems

/-- `decode`; `none` where a partition key is not a number. -/
def decode (raw : Dict String (Dict String Int)) : Option Offsets :=
  (raw.entries.mapM fun e => (decodeParts e.2).map fun parts => (e.1, parts)).map Dict.ofItems

theorem mapM_map_eq_some {α β γ : Type} {f : α → β} {g : β → Option γ} {h : α → γ}
    (hgf : ∀ a, g (f a) = some (h a)) : ∀ l : List α, (l.map f).mapM g = some (l.map h)
  | [] => rfl
  | a :: l => by
    rw [List.map_cons, List.mapM_cons, hgf, mapM_map_eq_some hgf l]
    rfl

theorem decodeParts_encodeParts (parts : Dict Nat Int) :
    decodeParts (encodeParts parts) = some (Dict.ofItems parts.sortedItems) := by
  have hinj : ((parts.sortedItems.map fun e => (writeNat e.1, e.2)).map Prod.fst).Nodup := by
    rw [List.map_map]
    have hcomp : (Prod.fst ∘ fun e : Nat × Int => (writeNat e.1, e.2)) = writeNat ∘ Prod.fst := rfl
    rw [hcomp, ← List.map_map]
    refine List.Nodup.map (fun m n h => ?_) parts.nodup_sortedItems
    have := congrArg readNat h
    rwa [readNat_writeNat, readNat_writeNat, Option.some.injEq] at this
  rw [decodeParts, encodeParts, Dict.entries_ofItems hinj,
    mapM_map_eq_some (h := id) (fun e => by rw [readNat_writeNat]; rfl), List.map_id]
  rfl

/-- A round trip through the snapshot summary sorts the map and changes nothing else. -/
theorem decode_encode (offsets : Offsets) :
    decode (encode offsets) =
      some (Dict.ofItems
        (offsets.sortedItems.map fun e => (e.1, Dict.ofItems e.2.sortedItems))) := by
  have hnodup : ((offsets.sortedItems.map fun e => (e.1, encodeParts e.2)).map Prod.fst).Nodup := by
    rw [List.map_map]
    exact offsets.nodup_sortedItems
  rw [decode, encode, Dict.entries_ofItems hnodup,
    mapM_map_eq_some (fun e => by rw [decodeParts_encodeParts]; rfl)]
  rfl

theorem find?_decode_encode (offsets : Offsets) :
    ∃ read, decode (encode offsets) = some read ∧
      ∀ topic partition, read.find? topic partition = offsets.find? topic partition := by
  refine ⟨_, decode_encode offsets, fun topic partition => ?_⟩
  have hnodup : ((offsets.sortedItems.map fun e => (e.1, Dict.ofItems e.2.sortedItems)).map
      Prod.fst).Nodup := by
    rw [List.map_map]
    exact offsets.nodup_sortedItems
  unfold Offsets.find?
  rw [Dict.get?_ofItems hnodup,
    Assoc.lookup_map_val (fun _ (parts : Dict Nat Int) => Dict.ofItems parts.sortedItems),
    Dict.lookup_sortedItems]
  cases offsets.get? topic with
  | none => rfl
  | some parts =>
    simp only [Option.map_some, Option.bind_some]
    rw [Dict.get?_ofItems parts.nodup_sortedItems, Dict.lookup_sortedItems]

/-! ## Where a run starts -/

def nextStartingOffsets (committed : Offsets) (partitionCounts : Dict String Nat) : Offsets :=
  partitionCounts.map fun topic partitions =>
    (Dict.ofKeys (List.range partitions) fun _ => EARLIEST).update
      (committed.getD topic Dict.empty)

theorem find?_nextStartingOffsets (committed : Offsets) (partitionCounts : Dict String Nat)
    (topic : String) (partition : Nat) :
    (nextStartingOffsets committed partitionCounts).find? topic partition =
      (partitionCounts.get? topic).bind fun n =>
        (committed.find? topic partition).or (if partition < n then some EARLIEST else none) := by
  unfold nextStartingOffsets Offsets.find?
  rw [Dict.get?_map]
  cases partitionCounts.get? topic with
  | none => rfl
  | some n =>
    simp only [Option.map_some, Option.bind_some]
    rw [Dict.get?_update, Dict.get?_ofKeys]
    simp only [List.mem_range, Dict.getD]
    cases committed.get? topic <;> rfl

/-! ## Where it stops -/

/-- The two loop variables of `bounded_offsets`. -/
def firstOffset (earliest : Offsets) (topic : String) (partition : Nat) : Int :=
  (earliest.find? topic partition).getD 0

def endOfLog (earliest latest : Offsets) (topic : String) (partition : Nat) : Int :=
  (latest.find? topic partition).getD (firstOffset earliest topic partition)

/-- Sentinels resolve first. -/
def resolveStart (first endOfLog offset : Int) : Int :=
  if offset = EARLIEST then first else if offset = LATEST then endOfLog else offset

/-- The stop offset; `atInstant` is `-1` where the broker holds no record at or after the
    instant, and `maxPerPartition <= 0` disables the bound. -/
def stopOffset (start endOfLog maxPerPartition : Int) (atInstant : Option Int) : Int :=
  let stop := match atInstant with
    | some at_instant => if 0 ≤ at_instant then min endOfLog at_instant else endOfLog
    | none => endOfLog
  let stop := if 0 < maxPerPartition then min stop (start + maxPerPartition) else stop
  max stop start

theorem start_le_stopOffset (start endOfLog maxPerPartition : Int) (atInstant : Option Int) :
    start ≤ stopOffset start endOfLog maxPerPartition atInstant :=
  le_max_right _ _

/-- The log's end is a hard ceiling, unless the start is already past it. -/
theorem stopOffset_le (start endOfLog maxPerPartition : Int) (atInstant : Option Int) :
    stopOffset start endOfLog maxPerPartition atInstant ≤ max endOfLog start := by
  have hinstant : (match atInstant with
      | some at_instant => if 0 ≤ at_instant then min endOfLog at_instant else endOfLog
      | none => endOfLog) ≤ endOfLog := by
    cases atInstant with
    | none => exact le_rfl
    | some at_instant =>
      simp only
      split
      · exact min_le_left _ _
      · exact le_rfl
  refine max_le_max ?_ le_rfl
  split
  · exact (min_le_left _ _).trans hinstant
  · exact hinstant

/-- Of the offsets past the start that the log has, the run reads those under both bounds. -/
theorem lt_stopOffset_iff {start endOfLog maxPerPartition o : Int} {atInstant : Option Int}
    (hstart : start ≤ o) (hend : o < endOfLog) :
    o < stopOffset start endOfLog maxPerPartition atInstant ↔
      (∀ u, atInstant = some u → 0 ≤ u → o < u) ∧
        (0 < maxPerPartition → o < start + maxPerPartition) := by
  have hlast : ∀ stop, o < max stop start ↔ o < stop := fun stop => by
    rw [lt_max_iff, or_iff_left (not_lt.2 hstart)]
  have hbound : ∀ stop, (o < if 0 < maxPerPartition then min stop (start + maxPerPartition)
      else stop) ↔ o < stop ∧ (0 < maxPerPartition → o < start + maxPerPartition) := fun stop => by
    split
    · rename_i hpos
      rw [lt_min_iff, forall_prop_of_true hpos]
    · rename_i hneg
      rw [forall_prop_of_false hneg, and_true]
  simp only [stopOffset, hlast, hbound]
  refine and_congr_left fun _ => ?_
  cases atInstant with
  | none => simpa using hend
  | some u =>
    simp only [Option.some.injEq, forall_eq']
    split
    · rename_i hpos
      rw [lt_min_iff, forall_prop_of_true hpos, and_iff_right hend]
    · rename_i hneg
      simpa [hneg] using hend

structure Bounded where
  starts : Offsets
  ends : Offsets
  backlog : Dict String Int
  deriving DecidableEq

section Bounded

variable (starting earliest latest : Offsets) (maxPerPartition : Int) (limits : Option Offsets)

def startOf (topic : String) (partition : Nat) (offset : Int) : Int :=
  resolveStart (firstOffset earliest topic partition) (endOfLog earliest latest topic partition)
    offset

def stopOf (topic : String) (partition : Nat) (offset : Int) : Int :=
  stopOffset (startOf earliest latest topic partition offset)
    (endOfLog earliest latest topic partition) maxPerPartition
    (limits.map fun u => (u.find? topic partition).getD (-1))

/-- `bounded_offsets`; `limits` is its `until`. -/
def boundedOffsets : Bounded where
  starts := starting.map fun topic parts => parts.map (startOf earliest latest topic)
  ends := starting.map fun topic parts =>
    parts.map (stopOf earliest latest maxPerPartition limits topic)
  backlog := starting.map fun topic parts => (parts.entries.map fun e =>
    max 0 (endOfLog earliest latest topic e.1 -
      stopOf earliest latest maxPerPartition limits topic e.1 e.2)).sum

theorem find?_starts (topic : String) (partition : Nat) :
    (boundedOffsets starting earliest latest maxPerPartition limits).starts.find? topic partition =
      (starting.find? topic partition).map (startOf earliest latest topic partition) :=
  Offsets.find?_map starting (startOf earliest latest) topic partition

theorem find?_ends (topic : String) (partition : Nat) :
    (boundedOffsets starting earliest latest maxPerPartition limits).ends.find? topic partition =
      (starting.find? topic partition).map
        (stopOf earliest latest maxPerPartition limits topic partition) :=
  Offsets.find?_map starting (stopOf earliest latest maxPerPartition limits) topic partition

end Bounded

/-! ## What retention has overtaken -/

/-- One tuple of `evicted`. -/
structure Loss where
  topic : String
  partition : Nat
  start : Int
  logStart : Int
  lost : Int
  deriving DecidableEq, Repr

def lossOf (earliest : Offsets) (topic : String) (partition : Nat) (start : Int) : Loss :=
  ⟨topic, partition, start, firstOffset earliest topic partition,
    firstOffset earliest topic partition - start⟩

def evicted (starts earliest : Offsets) : List Loss :=
  starts.entries.flatMap fun e => e.2.sortedItems.filterMap fun s =>
    if s.2 < firstOffset earliest e.1 s.1 then some (lossOf earliest e.1 s.1 s.2) else none

theorem mem_evicted {starts earliest : Offsets} {loss : Loss} :
    loss ∈ evicted starts earliest ↔
      ∃ start, starts.find? loss.topic loss.partition = some start ∧
        start < firstOffset earliest loss.topic loss.partition ∧
        loss = lossOf earliest loss.topic loss.partition start := by
  simp only [evicted, List.mem_flatMap, List.mem_filterMap, Offsets.find?,
    Option.bind_eq_some_iff]
  constructor
  · rintro ⟨⟨topic, parts⟩, htopic, ⟨partition, start⟩, hpart, hloss⟩
    split at hloss
    · rename_i hlt
      cases hloss
      refine ⟨start, ⟨parts, Dict.get?_eq_some_iff.2 htopic, ?_⟩, hlt, rfl⟩
      exact Dict.get?_eq_some_iff.2 (parts.sortedItems_perm.mem_iff.1 hpart)
    · cases hloss
  · rintro ⟨start, ⟨parts, htopic, hpart⟩, hlt, hloss⟩
    refine ⟨(loss.topic, parts), Dict.get?_eq_some_iff.1 htopic, (loss.partition, start),
      parts.sortedItems_perm.mem_iff.2 (Dict.get?_eq_some_iff.1 hpart), ?_⟩
    rw [if_pos hlt, ← hloss]

/-- `skip_evicted`: the topics of `losses` are topics of `starts`. -/
def skipEvicted (starts : Offsets) (losses : List Loss) : Offsets :=
  losses.foldl (fun repaired loss =>
    repaired.insert loss.topic
      ((repaired.getD loss.topic Dict.empty).insert loss.partition loss.logStart)) starts

theorem find?_insert_insert (o : Offsets) (topic topic' : String) (partition partition' : Nat)
    (offset : Int) :
    Offsets.find? (o.insert topic ((o.getD topic Dict.empty).insert partition offset)) topic'
        partition' =
      if topic' = topic ∧ partition' = partition then some offset
      else o.find? topic' partition' := by
  unfold Offsets.find?
  rw [Dict.get?_insert]
  by_cases ht : topic' = topic
  · subst ht
    rw [if_pos rfl, Option.bind_some, Dict.get?_insert]
    by_cases hp : partition' = partition
    · rw [if_pos hp, if_pos ⟨rfl, hp⟩]
    · rw [if_neg hp, if_neg fun h => hp h.2, Dict.getD]
      cases o.get? topic' <;> rfl
  · rw [if_neg ht, if_neg fun h => ht h.1]

theorem find?_foldl_skip (first : String → Nat → Int) (topic : String) (partition : Nat) :
    ∀ (losses : List Loss) (starts : Offsets),
      (∀ loss ∈ losses, loss.logStart = first loss.topic loss.partition) →
      (skipEvicted starts losses).find? topic partition =
        if ∃ loss ∈ losses, loss.topic = topic ∧ loss.partition = partition
        then some (first topic partition) else starts.find? topic partition
  | [], starts, _ => by simp [skipEvicted]
  | loss :: losses, starts, h => by
    have hrest := find?_foldl_skip first topic partition losses
      (starts.insert loss.topic
        ((starts.getD loss.topic Dict.empty).insert loss.partition loss.logStart))
      (fun l hl => h l (List.mem_cons_of_mem _ hl))
    have hfold : skipEvicted starts (loss :: losses) = skipEvicted (starts.insert loss.topic
        ((starts.getD loss.topic Dict.empty).insert loss.partition loss.logStart)) losses := rfl
    rw [hfold, hrest, find?_insert_insert, h loss List.mem_cons_self]
    by_cases hl : ∃ l ∈ losses, l.topic = topic ∧ l.partition = partition
    · obtain ⟨l, hmem, hl'⟩ := hl
      rw [if_pos ⟨l, hmem, hl'⟩, if_pos ⟨l, List.mem_cons_of_mem _ hmem, hl'⟩]
    · rw [if_neg hl]
      by_cases he : topic = loss.topic ∧ partition = loss.partition
      · rw [if_pos he, if_pos ⟨loss, List.mem_cons_self, he.1.symm, he.2.symm⟩, he.1, he.2]
      · rw [if_neg he, if_neg]
        rintro ⟨l, hmem, hl'⟩
        rcases List.mem_cons.1 hmem with rfl | hmem
        · exact he ⟨hl'.1.symm, hl'.2.symm⟩
        · exact hl ⟨l, hmem, hl'⟩

/-- The repair moves the evicted partitions to the log start, and no others. -/
theorem find?_skipEvicted (starts earliest : Offsets) (topic : String) (partition : Nat) :
    (skipEvicted starts (evicted starts earliest)).find? topic partition =
      (starts.find? topic partition).map fun start =>
        max start (firstOffset earliest topic partition) := by
  rw [find?_foldl_skip (firstOffset earliest) topic partition _ _ fun loss hloss => by
    obtain ⟨start, _, _, heq⟩ := mem_evicted.1 hloss
    rw [heq]
    rfl]
  by_cases h : ∃ loss ∈ evicted starts earliest, loss.topic = topic ∧ loss.partition = partition
  · rw [if_pos h]
    obtain ⟨loss, hmem, rfl, rfl⟩ := h
    obtain ⟨start, hstart, hlt, _⟩ := mem_evicted.1 hmem
    rw [hstart, Option.map_some, max_eq_right hlt.le]
  · rw [if_neg h]
    cases hstart : starts.find? topic partition with
    | none => rfl
    | some start =>
      have hle : firstOffset earliest topic partition ≤ start := by
        by_contra hlt
        exact h ⟨lossOf earliest topic partition start,
          mem_evicted.2 ⟨start, hstart, not_le.1 hlt, rfl⟩, rfl, rfl⟩
      rw [Option.map_some, max_eq_left hle]

/-! ## What is committed -/

def mergeCommitted (previous produced : Offsets) : Offsets :=
  produced.entries.foldl (fun merged e =>
    merged.insert e.1 ((merged.getD e.1 Dict.empty).update e.2)) previous

theorem find?_foldl_merge (topic : String) (partition : Nat) :
    ∀ (l : List (String × Dict Nat Int)) (previous : Offsets), (l.map Prod.fst).Nodup →
      Offsets.find? (l.foldl (fun merged e =>
          merged.insert e.1 ((merged.getD e.1 Dict.empty).update e.2)) previous) topic partition =
        ((l.lookup topic).bind fun parts => parts.get? partition).or
          (previous.find? topic partition)
  | [], _, _ => rfl
  | e :: l, previous, hl => by
    obtain ⟨he, hl'⟩ := List.nodup_cons.1 hl
    rw [List.foldl_cons, find?_foldl_merge topic partition l _ hl', List.lookup_cons]
    unfold Offsets.find?
    rw [Dict.get?_insert]
    by_cases h : topic = e.1
    · have hnone : l.lookup topic = none := Assoc.lookup_eq_none_iff_notMem.2 (h ▸ he)
      rw [hnone, if_pos h, Option.bind_none, Option.none_or, Option.bind_some, Dict.get?_update,
        Dict.getD, ← h]
      cases previous.get? topic <;> simp
    · rw [if_neg h, beq_eq_false_iff_ne.2 h]

theorem find?_mergeCommitted (previous produced : Offsets) (topic : String) (partition : Nat) :
    (mergeCommitted previous produced).find? topic partition =
      (produced.find? topic partition).or (previous.find? topic partition) :=
  find?_foldl_merge topic partition produced.entries previous produced.nodup

end K2.Lake

import Mathlib.Algebra.BigOperators.Group.Finset.Basic
import K2Platform.Lake.Offsets
import K2Platform.Lib.Drain

/-!
# Draining a backlog over successive runs

The three functions of `docker/lake/offsets.py` that a cycle of stage 1 calls, run after run, with
no `--end-timestamp` and a broker that keeps what it holds.

* `find?_drain_starts`, `find?_drain_ends` — where each run reads, in closed form: partition by
  partition, the runs are the steps of `Drain`.
* `drain_done_iff` — from which run on there are no new records.
* `backlog_drain` — what a run reports as left behind is what no run so far has read.
* `bounded_drain_terminates` — all of it.
-/

set_option autoImplicit false

namespace Dict

variable {κ α β : Type}

theorem map_eq_map_iff (d : Dict κ α) (f g : κ → α → β) :
    d.map f = d.map g ↔ ∀ e ∈ d.entries, f e.1 e.2 = g e.1 e.2 := by
  constructor
  · intro h e he
    have hentries := congrArg Dict.entries h
    exact congrArg Prod.snd (List.map_inj_left.1 hentries e he)
  · intro h
    exact ext_entries (List.map_congr_left fun e he => by rw [h e he])

end Dict

namespace K2.Lake

/-- Every partition of every topic. -/
theorem Offsets.forall_find?_iff (o : Offsets) (P : String → Nat → Int → Prop) :
    (∀ topic partition offset, o.find? topic partition = some offset → P topic partition offset) ↔
      ∀ e ∈ o.entries, ∀ s ∈ e.2.entries, P e.1 s.1 s.2 := by
  simp only [Offsets.find?, Option.bind_eq_some_iff]
  constructor
  · rintro h ⟨topic, parts⟩ hparts ⟨partition, offset⟩ hoffset
    exact h topic partition offset
      ⟨parts, Dict.get?_eq_some_iff.2 hparts, Dict.get?_eq_some_iff.2 hoffset⟩
  · rintro h topic partition offset ⟨parts, hparts, hoffset⟩
    exact h (topic, parts) (Dict.get?_eq_some_iff.1 hparts) (partition, offset)
      (Dict.get?_eq_some_iff.1 hoffset)

theorem Offsets.map_eq_map_iff (o : Offsets) (f g : String → Nat → Int → Int) :
    (o.map fun t parts => parts.map (f t)) = (o.map fun t parts => parts.map (g t)) ↔
      ∀ topic partition offset, o.find? topic partition = some offset →
        f topic partition offset = g topic partition offset := by
  rw [Offsets.forall_find?_iff, Dict.map_eq_map_iff]
  simp only [Dict.map_eq_map_iff]

section Cycle

variable (counts : Dict String Nat) (earliest latest : Offsets) (maxPerPartition : Int)

/-- What a run reads, from what is committed. -/
def cycle (committed : Offsets) : Bounded :=
  boundedOffsets (nextStartingOffsets committed counts) earliest latest maxPerPartition none

def commitCycle (committed : Offsets) : Offsets :=
  mergeCommitted committed (cycle counts earliest latest maxPerPartition committed).ends

/-- The run after `k` others. -/
def drainRun (committed : Offsets) (k : Nat) : Bounded :=
  cycle counts earliest latest maxPerPartition
    ((commitCycle counts earliest latest maxPerPartition)^[k] committed)

/-- The offsets of a partition that a run reads. -/
def Bounded.range (read : Bounded) (topic : String) (partition : Nat) : Finset Int :=
  match read.starts.find? topic partition, read.ends.find? topic partition with
  | some start, some stop => Drain.interval start stop
  | _, _ => ∅

/-- Of what a partition holds from where the first run starts, what none of the runs up to the
    `k`-th reads. -/
def unreadAfter (committed : Offsets) (k : Nat) (topic : String) (partition : Nat) : Finset Int :=
  match (drainRun counts earliest latest maxPerPartition committed 0).starts.find? topic
      partition with
  | some start =>
    (Drain.interval start (endOfLog earliest latest topic partition)).filter fun o =>
      ∀ j ≤ k, o ∉
        (drainRun counts earliest latest maxPerPartition committed j).range topic partition
  | none => ∅

/-- The largest `ceil((latest - start) / maxPerPartition)` of a partition; a partition that starts
    above its end counts 0. -/
def runsNeeded (committed : Offsets) : Nat :=
  ((drainRun counts earliest latest maxPerPartition committed 0).starts.entries.flatMap fun e =>
    e.2.entries.map fun s =>
      (endOfLog earliest latest e.1 s.1 - s.2).toNat ⌈/⌉ maxPerPartition.toNat).foldr max 0

end Cycle

theorem foldr_max_le_iff (l : List Nat) (k : Nat) : l.foldr max 0 ≤ k ↔ ∀ m ∈ l, m ≤ k := by
  induction l with
  | nil => simp
  | cons m l ih => simp [ih]

section Drained

variable {counts : Dict String Nat} {earliest latest : Offsets} {maxPerPartition : Int}
  {committed : Offsets}

theorem runsNeeded_le_iff (k : Nat) :
    runsNeeded counts earliest latest maxPerPartition committed ≤ k ↔
      ∀ topic partition start,
        (drainRun counts earliest latest maxPerPartition committed 0).starts.find? topic
          partition = some start →
        Drain.rounds (endOfLog earliest latest topic partition) maxPerPartition start ≤ k := by
  rw [runsNeeded, foldr_max_le_iff, Offsets.forall_find?_iff]
  simp only [List.mem_flatMap, List.mem_map]
  constructor
  · intro h e he s hs
    exact h _ ⟨e, he, s, hs, rfl⟩
  · rintro h _ ⟨e, he, s, hs, rfl⟩
    exact h e he s hs

/-! ## One run -/

theorem stopOf_eq_advance (hmax : 0 < maxPerPartition) (topic : String) (partition : Nat)
    (offset : Int) :
    stopOf earliest latest maxPerPartition none topic partition offset =
      Drain.advance (endOfLog earliest latest topic partition) maxPerPartition
        (startOf earliest latest topic partition offset) := by
  simp only [stopOf, stopOffset, Option.map_none, if_pos hmax, Drain.advance]

theorem find?_cycle_ends (hmax : 0 < maxPerPartition) (topic : String) (partition : Nat) :
    (cycle counts earliest latest maxPerPartition committed).ends.find? topic partition =
      ((cycle counts earliest latest maxPerPartition committed).starts.find? topic partition).map
        (Drain.advance (endOfLog earliest latest topic partition) maxPerPartition) := by
  rw [cycle, find?_ends, find?_starts, Option.map_map]
  congr 1
  funext offset
  exact stopOf_eq_advance hmax topic partition offset

theorem cycle_done_iff (hmax : 0 < maxPerPartition) :
    (cycle counts earliest latest maxPerPartition committed).starts =
        (cycle counts earliest latest maxPerPartition committed).ends ↔
      ∀ topic partition start,
        (cycle counts earliest latest maxPerPartition committed).starts.find? topic partition =
          some start →
        Drain.advance (endOfLog earliest latest topic partition) maxPerPartition start = start := by
  have hmaps : (cycle counts earliest latest maxPerPartition committed).starts =
        (cycle counts earliest latest maxPerPartition committed).ends ↔
      ∀ topic partition offset,
        (nextStartingOffsets committed counts).find? topic partition = some offset →
        startOf earliest latest topic partition offset =
          stopOf earliest latest maxPerPartition none topic partition offset :=
    Offsets.map_eq_map_iff _ _ _
  rw [hmaps]
  simp only [cycle, find?_starts, Option.map_eq_some_iff, stopOf_eq_advance hmax]
  constructor
  · rintro h topic partition _ ⟨offset, hoffset, rfl⟩
    exact (h topic partition offset hoffset).symm
  · intro h topic partition offset hoffset
    exact (h topic partition _ ⟨offset, hoffset, rfl⟩).symm

/-- An offset map without a sentinel: what a run commits, and what the broker says. -/
def Resolved (o : Offsets) : Prop :=
  ∀ topic partition offset, o.find? topic partition = some offset → 0 ≤ offset

section Resolved

variable (hfirst : ∀ topic partition, 0 ≤ firstOffset earliest topic partition)
  (hcommitted : Resolved committed)

include hfirst hcommitted

theorem resolved_cycle_starts :
    Resolved (cycle counts earliest latest maxPerPartition committed).starts := by
  intro topic partition start hstart
  rw [cycle, find?_starts, find?_nextStartingOffsets] at hstart
  obtain ⟨offset, hoffset, rfl⟩ := Option.map_eq_some_iff.1 hstart
  obtain ⟨n, _, hor⟩ := Option.bind_eq_some_iff.1 hoffset
  have hzero := hfirst topic partition
  rcases Option.or_eq_some_iff.1 hor with hfound | ⟨_, hnew⟩
  · have hpos := hcommitted topic partition offset hfound
    rw [startOf, resolveStart, if_neg (by unfold EARLIEST; omega), if_neg (by unfold LATEST; omega)]
    exact hpos
  · split at hnew
    · cases hnew
      exact hzero
    · cases hnew

theorem resolved_cycle_ends (hmax : 0 < maxPerPartition) :
    Resolved (cycle counts earliest latest maxPerPartition committed).ends := by
  intro topic partition stop hstop
  rw [find?_cycle_ends hmax] at hstop
  obtain ⟨start, hstart, rfl⟩ := Option.map_eq_some_iff.1 hstop
  exact (resolved_cycle_starts hfirst hcommitted topic partition start hstart).trans
    Drain.le_advance

theorem resolved_commitCycle (hmax : 0 < maxPerPartition) :
    Resolved (commitCycle counts earliest latest maxPerPartition committed) := by
  intro topic partition offset h
  rw [commitCycle, find?_mergeCommitted] at h
  rcases Option.or_eq_some_iff.1 h with hproduced | ⟨_, hprevious⟩
  · exact resolved_cycle_ends hfirst hcommitted hmax topic partition offset hproduced
  · exact hcommitted topic partition offset hprevious

/-- The next run starts where this one stopped, in every partition. -/
theorem find?_next_starts (hmax : 0 < maxPerPartition) (topic : String) (partition : Nat) :
    (cycle counts earliest latest maxPerPartition
        (commitCycle counts earliest latest maxPerPartition committed)).starts.find? topic
          partition =
      (cycle counts earliest latest maxPerPartition committed).ends.find? topic partition := by
  have hnext : (nextStartingOffsets (commitCycle counts earliest latest maxPerPartition committed)
      counts).find? topic partition = (counts.get? topic).bind fun n =>
        (((cycle counts earliest latest maxPerPartition committed).ends.find? topic partition).or
          (committed.find? topic partition)).or (if partition < n then some EARLIEST else none) := by
    rw [find?_nextStartingOffsets, commitCycle, find?_mergeCommitted]
  have hends := find?_ends (nextStartingOffsets committed counts) earliest latest maxPerPartition
    none topic partition
  rw [cycle, find?_starts, hnext]
  cases hstop : (cycle counts earliest latest maxPerPartition committed).ends.find? topic
      partition with
  | none =>
    have hnone : (nextStartingOffsets committed counts).find? topic partition = none :=
      Option.map_eq_none_iff.1 (hends.symm.trans hstop)
    rw [find?_nextStartingOffsets] at hnone
    rw [Option.none_or, hnone, Option.map_none]
  | some stop =>
    have hpos : 0 ≤ stop :=
      resolved_cycle_ends hfirst hcommitted hmax topic partition stop hstop
    obtain ⟨offset, hoffset, _⟩ := Option.map_eq_some_iff.1 (hends.symm.trans hstop)
    rw [find?_nextStartingOffsets] at hoffset
    obtain ⟨n, hn, _⟩ := Option.bind_eq_some_iff.1 hoffset
    rw [hn, Option.bind_some, Option.some_or, Option.some_or, Option.map_some, startOf,
      resolveStart, if_neg (by unfold EARLIEST; omega), if_neg (by unfold LATEST; omega)]

/-! ## All runs -/

theorem resolved_iterate (hmax : 0 < maxPerPartition) (k : Nat) :
    Resolved ((commitCycle counts earliest latest maxPerPartition)^[k] committed) := by
  induction k with
  | zero => exact hcommitted
  | succ k ih =>
    rw [Function.iterate_succ_apply']
    exact resolved_commitCycle hfirst ih hmax

theorem find?_drain_next (hmax : 0 < maxPerPartition) (k : Nat) (topic : String)
    (partition : Nat) :
    (drainRun counts earliest latest maxPerPartition committed (k + 1)).starts.find? topic
        partition =
      (drainRun counts earliest latest maxPerPartition committed k).ends.find? topic partition := by
  rw [drainRun, Function.iterate_succ_apply']
  exact find?_next_starts hfirst (resolved_iterate hfirst hcommitted hmax k) hmax topic partition

/-- The runs are the steps of a bounded drain. -/
theorem find?_drain_starts (hmax : 0 < maxPerPartition) (k : Nat) (topic : String)
    (partition : Nat) :
    (drainRun counts earliest latest maxPerPartition committed k).starts.find? topic partition =
      ((drainRun counts earliest latest maxPerPartition committed 0).starts.find? topic
        partition).map
          (Drain.advance (endOfLog earliest latest topic partition) maxPerPartition)^[k] := by
  induction k with
  | zero => rw [Function.iterate_zero, Option.map_id_fun, id]
  | succ k ih =>
    rw [find?_drain_next hfirst hcommitted hmax, drainRun, find?_cycle_ends hmax, ← drainRun, ih,
      Option.map_map, Function.iterate_succ']

theorem find?_drain_ends (hmax : 0 < maxPerPartition) (k : Nat) (topic : String)
    (partition : Nat) :
    (drainRun counts earliest latest maxPerPartition committed k).ends.find? topic partition =
      ((drainRun counts earliest latest maxPerPartition committed 0).starts.find? topic
        partition).map
          (Drain.advance (endOfLog earliest latest topic partition) maxPerPartition)^[k + 1] := by
  rw [← find?_drain_next hfirst hcommitted hmax, find?_drain_starts hfirst hcommitted hmax]

/-- "No new records", from the run that is needed last. -/
theorem drain_done_iff (hmax : 0 < maxPerPartition) (k : Nat) :
    (drainRun counts earliest latest maxPerPartition committed k).starts =
        (drainRun counts earliest latest maxPerPartition committed k).ends ↔
      runsNeeded counts earliest latest maxPerPartition committed ≤ k := by
  have hdicts : (drainRun counts earliest latest maxPerPartition committed k).starts =
        (drainRun counts earliest latest maxPerPartition committed k).ends ↔
      ∀ topic partition start,
        (drainRun counts earliest latest maxPerPartition committed k).starts.find? topic
          partition = some start →
        Drain.advance (endOfLog earliest latest topic partition) maxPerPartition start = start := by
    rw [drainRun, cycle_done_iff hmax]
  rw [hdicts, runsNeeded_le_iff]
  simp only [find?_drain_starts hfirst hcommitted hmax k, Option.map_eq_some_iff]
  constructor
  · intro h topic partition start hstart
    rw [← Drain.advance_iterate_eq_iff hmax, Function.iterate_succ_apply']
    exact h topic partition _ ⟨start, hstart, rfl⟩
  · rintro h topic partition _ ⟨start, hstart, rfl⟩
    have hround := (Drain.advance_iterate_eq_iff hmax k).2 (h topic partition start hstart)
    rwa [Function.iterate_succ_apply'] at hround

theorem range_drain (hmax : 0 < maxPerPartition) (k : Nat) {topic : String} {partition : Nat}
    {start : Int}
    (hstart : (drainRun counts earliest latest maxPerPartition committed 0).starts.find? topic
      partition = some start) :
    (drainRun counts earliest latest maxPerPartition committed k).range topic partition =
      Drain.step (endOfLog earliest latest topic partition) maxPerPartition start k := by
  rw [Bounded.range, find?_drain_starts hfirst hcommitted hmax k,
    find?_drain_ends hfirst hcommitted hmax k, hstart]
  rfl

theorem card_unreadAfter (hmax : 0 < maxPerPartition) (k : Nat) {topic : String} {partition : Nat}
    {start : Int}
    (hstart : (drainRun counts earliest latest maxPerPartition committed 0).starts.find? topic
      partition = some start) :
    ((unreadAfter counts earliest latest maxPerPartition committed k topic partition).card : Int) =
      max 0 (endOfLog earliest latest topic partition -
        (Drain.advance (endOfLog earliest latest topic partition) maxPerPartition)^[k + 1]
          start) := by
  have hunread : unreadAfter counts earliest latest maxPerPartition committed k topic partition =
      Drain.unread (endOfLog earliest latest topic partition) maxPerPartition start (k + 1) := by
    rw [unreadAfter, hstart, Drain.unread]
    refine Finset.filter_congr fun o _ => ?_
    simp only [range_drain hfirst hcommitted hmax _ hstart, Nat.lt_succ_iff]
  rw [hunread, Drain.card_unread]

/-- Each run leaves behind, topic by topic, what no run so far has read. -/
theorem backlog_drain (hmax : 0 < maxPerPartition) (k : Nat) (topic : String) :
    (drainRun counts earliest latest maxPerPartition committed k).backlog.get? topic =
      ((drainRun counts earliest latest maxPerPartition committed 0).starts.get? topic).map
        fun parts => ∑ partition ∈ parts.keys.toFinset,
          ((unreadAfter counts earliest latest maxPerPartition committed k topic
            partition).card : Int) := by
  let starting (k : Nat) : Offsets :=
    nextStartingOffsets ((commitCycle counts earliest latest maxPerPartition)^[k] committed) counts
  have hfind : ∀ k partition,
      (drainRun counts earliest latest maxPerPartition committed k).starts.find? topic partition =
        ((starting k).find? topic partition).map (startOf earliest latest topic partition) :=
    fun k partition => find?_starts (starting k) earliest latest maxPerPartition none topic partition
  have hbacklog : (drainRun counts earliest latest maxPerPartition committed k).backlog.get? topic =
      ((starting k).get? topic).map fun parts => (parts.entries.map fun e =>
        max 0 (endOfLog earliest latest topic e.1 -
          stopOf earliest latest maxPerPartition none topic e.1 e.2)).sum :=
    Dict.get?_map _ _ _
  have hstarts : (drainRun counts earliest latest maxPerPartition committed 0).starts.get? topic =
      ((starting 0).get? topic).map fun parts => parts.map (startOf earliest latest topic) :=
    Dict.get?_map _ _ _
  have htopic : ∀ k, (starting k).get? topic = (counts.get? topic).map fun n =>
      (Dict.ofKeys (List.range n) fun _ => EARLIEST).update
        ((((commitCycle counts earliest latest maxPerPartition)^[k] committed)).getD topic
          Dict.empty) :=
    fun k => Dict.get?_map _ _ _
  rw [hbacklog, hstarts]
  cases hcount : counts.get? topic with
  | none =>
    rw [htopic, htopic, hcount]
    rfl
  | some n =>
    obtain ⟨parts, hparts⟩ : ∃ parts, (starting k).get? topic = some parts :=
      ⟨_, by rw [htopic, hcount, Option.map_some]⟩
    obtain ⟨first, hfirstParts⟩ : ∃ first, (starting 0).get? topic = some first :=
      ⟨_, by rw [htopic, hcount, Option.map_some]⟩
    have hget : ∀ partition, (starting k).find? topic partition = parts.get? partition := by
      intro partition
      rw [Offsets.find?, hparts, Option.bind_some]
    have hgetFirst : ∀ partition, (starting 0).find? topic partition = first.get? partition := by
      intro partition
      rw [Offsets.find?, hfirstParts, Option.bind_some]
    -- the partitions of the topic are the same in every run
    have hkeys : parts.keys.toFinset = first.keys.toFinset := by
      ext partition
      have hsome : (drainRun counts earliest latest maxPerPartition committed k).starts.find? topic
          partition = _ := find?_drain_starts hfirst hcommitted hmax k topic partition
      rw [hfind, hfind, hget, hgetFirst] at hsome
      have hnone := congrArg Option.isNone hsome
      simp only [Option.isNone_map] at hnone
      rw [List.mem_toFinset, List.mem_toFinset, ← not_iff_not, ← Dict.get?_eq_none_iff,
        ← Dict.get?_eq_none_iff, ← Option.isNone_iff_eq_none, ← Option.isNone_iff_eq_none, hnone]
    have hleft : ∀ e ∈ parts.entries, max 0 (endOfLog earliest latest topic e.1 -
        stopOf earliest latest maxPerPartition none topic e.1 e.2) =
          ((unreadAfter counts earliest latest maxPerPartition committed k topic e.1).card : Int) := by
      intro e he
      have hentry : parts.get? e.1 = some e.2 := Dict.get?_eq_some_iff.2 he
      have hrun : (drainRun counts earliest latest maxPerPartition committed k).starts.find? topic
          e.1 = _ := find?_drain_starts hfirst hcommitted hmax k topic e.1
      rw [hfind, hget, hentry, Option.map_some] at hrun
      obtain ⟨start, hstart, hadvance⟩ := Option.map_eq_some_iff.1 hrun.symm
      rw [card_unreadAfter hfirst hcommitted hmax k hstart, stopOf_eq_advance hmax, ← hadvance,
        Function.iterate_succ_apply']
    rw [hparts, hfirstParts, Option.map_some, Option.map_some, Option.map_some, Dict.keys_map,
      List.map_congr_left hleft, ← hkeys, Dict.keys, List.sum_toFinset _ parts.nodup, List.map_map]
    rfl

end Resolved

/-- For every set of partitions, with the broker's answers held fixed and every committed offset
    still in the log: there are no new records from the run on that the slowest partition needs,
    and not before; each topic's backlog is what is left unread; and each partition's ranges follow
    one another and share no offset. -/
theorem bounded_drain_terminates
    (hfirst : ∀ topic partition, 0 ≤ firstOffset earliest topic partition)
    (hcommitted : ∀ topic partition offset, committed.find? topic partition = some offset →
      firstOffset earliest topic partition ≤ offset)
    (hmax : 1 ≤ maxPerPartition) :
    (∀ k, (drainRun counts earliest latest maxPerPartition committed k).starts =
        (drainRun counts earliest latest maxPerPartition committed k).ends ↔
      runsNeeded counts earliest latest maxPerPartition committed ≤ k) ∧
    (∀ k topic, (drainRun counts earliest latest maxPerPartition committed k).backlog.get? topic =
      ((drainRun counts earliest latest maxPerPartition committed 0).starts.get? topic).map
        fun parts => ∑ partition ∈ parts.keys.toFinset,
          ((unreadAfter counts earliest latest maxPerPartition committed k topic
            partition).card : Int)) ∧
    ∀ topic partition,
      (∀ k, (drainRun counts earliest latest maxPerPartition committed (k + 1)).starts.find? topic
          partition =
        (drainRun counts earliest latest maxPerPartition committed k).ends.find? topic
          partition) ∧
      Pairwise fun j k => Disjoint
        ((drainRun counts earliest latest maxPerPartition committed j).range topic partition)
        ((drainRun counts earliest latest maxPerPartition committed k).range topic partition) := by
  have hresolved : Resolved committed := fun topic partition offset h =>
    (hfirst topic partition).trans (hcommitted topic partition offset h)
  have hpos : 0 < maxPerPartition := hmax
  refine ⟨drain_done_iff hfirst hresolved hpos, backlog_drain hfirst hresolved hpos,
    fun topic partition => ⟨fun k => find?_drain_next hfirst hresolved hpos k topic partition, ?_⟩⟩
  intro j k hjk
  cases hstart : (drainRun counts earliest latest maxPerPartition committed 0).starts.find? topic
      partition with
  | none =>
    have hempty : (drainRun counts earliest latest maxPerPartition committed j).range topic
        partition = ∅ := by
      rw [Bounded.range, find?_drain_starts hfirst hresolved hpos j, hstart]
      rfl
    rw [hempty]
    exact Finset.disjoint_empty_left _
  | some start =>
    rw [range_drain hfirst hresolved hpos j hstart, range_drain hfirst hresolved hpos k hstart]
    exact Drain.pairwise_disjoint_steps hjk

end Drained

section Witness

/-- Partition 1 is caught up on, and partition 2 was recreated below its committed offset. -/
def committedOf : Offsets := Dict.ofItems [("trade", Dict.ofItems [(1, 60), (2, 75)])]

def logStarts : Offsets := Dict.ofItems [("trade", Dict.ofItems [(0, 10), (1, 0), (2, 0)])]

def logEnds : Offsets := Dict.ofItems [("trade", Dict.ofItems [(0, 110), (1, 60), (2, 50)])]

theorem hundred_offsets_drain :
    (drainRun (Dict.ofItems [("trade", 3)]) logStarts logEnds 7 committedOf 15).starts =
        (drainRun (Dict.ofItems [("trade", 3)]) logStarts logEnds 7 committedOf 15).ends ∧
      (drainRun (Dict.ofItems [("trade", 3)]) logStarts logEnds 7 committedOf 14).starts ≠
        (drainRun (Dict.ofItems [("trade", 3)]) logStarts logEnds 7 committedOf 14).ends := by
  have hfirst : ∀ topic partition, 0 ≤ firstOffset logStarts topic partition := by
    intro topic partition
    have hstarts := (Offsets.forall_find?_iff logStarts fun _ _ offset => 0 ≤ offset).2 (by decide)
      topic partition
    unfold firstOffset
    cases h : logStarts.find? topic partition with
    | none => exact le_rfl
    | some offset => exact hstarts offset h
  have hcommitted := (Offsets.forall_find?_iff committedOf fun topic partition offset =>
    firstOffset logStarts topic partition ≤ offset).2 (by decide)
  have hneeded : runsNeeded (Dict.ofItems [("trade", 3)]) logStarts logEnds 7 committedOf = 15 := by
    decide
  have hdone : ∀ k,
      (drainRun (Dict.ofItems [("trade", 3)]) logStarts logEnds 7 committedOf k).starts =
          (drainRun (Dict.ofItems [("trade", 3)]) logStarts logEnds 7 committedOf k).ends ↔
        runsNeeded (Dict.ofItems [("trade", 3)]) logStarts logEnds 7 committedOf ≤ k :=
    (bounded_drain_terminates hfirst hcommitted (by decide : 1 ≤ (7 : Int))).1
  rw [hneeded] at hdone
  exact ⟨(hdone 15).2 le_rfl, fun h => absurd ((hdone 14).1 h) (by decide)⟩

end Witness

end K2.Lake

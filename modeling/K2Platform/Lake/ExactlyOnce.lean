import K2Platform.Lib.EvictingLog
import K2Platform.Lake.Ingest

/-!
# The archive holds every record once

Runs of stage 1, one after the other, over a broker that produces, evicts and adds partitions
between them and between the calls of one run; any of them may be killed between its commits,
and compaction commits to the same table.  For each partition the system is an archive of an
evicting log: `view` reads that archive off it, and `view_step` shows that every event is a
sequence of the archive's own steps.

* `exactly_once` — what `raw.messages` holds of a partition, and that its position never falls.
-/

set_option autoImplicit false

namespace K2.Lake

open EvictingLog Relation

/-! ## The system -/

structure System where
  broker : Broker
  lake : LakeState

/-- One run, what the broker does before each of its calls, and how many of its commits it lives
    to make. -/
structure IngestRun where
  args : RunArgs
  limits : Option Offsets
  auditLands : Bool
  beforeStarts : List BrokerEvent
  beforeEnds : List BrokerEvent
  beforeRead : List BrokerEvent
  wait : Nat
  survives : Nat

inductive Event where
  | broker (e : BrokerEvent)
  | compaction (wait : Nat) (metrics : { m : Summary // m.get? JOB = none })
  | ingest (r : IngestRun)

namespace IngestRun

variable (r : IngestRun) (b : Broker)

def startsAt : Broker := b.run r.beforeStarts

def endsAt : Broker := (r.startsAt b).run r.beforeEnds

def readAt : Broker := (r.endsAt b).run r.beforeRead

def world (topics : List String) (s : System) : World :=
  worldOf topics s.lake.raw.snapshots s.broker (r.startsAt s.broker) (r.endsAt s.broker)
    (r.readAt s.broker) r.limits r.auditLands

end IngestRun

namespace System

variable (topics : List String)

def create (clock : Int) : System := ⟨fun _ => [], LakeState.create clock⟩

def step (s : System) : Event → System
  | .broker e => { s with broker := s.broker.step e }
  | .compaction us metrics =>
    { s with lake := { s.lake with raw := s.lake.raw.append us (.compaction metrics) } }
  | .ingest r =>
    { broker := r.readAt s.broker
      lake := ((stageRaw r.args (r.world topics s)).1.take r.survives).foldl
        (LakeState.apply r.wait) s.lake }

def run (clock : Int) (history : List Event) : System :=
  history.foldl (step topics) (create clock)

end System

/-! ## One partition -/

namespace LakeState

variable (l : LakeState) (topic : String) (partition : Nat)

/-- The offsets that `raw.messages` holds. -/
def offsets : List Int :=
  (l.rows.filter fun r => r.topic = topic && r.partition = partition).map RawRow.offset

/-- Where the next run resumes. -/
def committed : Option Int :=
  (committedOffsets l.raw.snapshots).bind fun o => o.find? topic partition

/-- Where the first batch that spanned the partition began. -/
def firstStart : Option Int :=
  l.archive.findSome? fun c => c.read.starts.find? topic partition

/-- The ranges recorded as `offset_gap`. -/
def gaps : List (Int × Int) :=
  (l.recorded.filter fun loss => loss.topic = topic && loss.partition = partition).map
    fun loss => (loss.start, loss.logStart)

end LakeState

/-- The archive of one partition. -/
def view (b : Broker) (l : LakeState) (topic : String) (partition : Nat) : Archive where
  logStart := b.logStart topic partition
  logEnd := b.logEnd topic partition
  position := (l.firstStart topic partition).bind fun first =>
    (l.committed topic partition).map fun next => (first, next)
  items := l.offsets topic partition
  gaps := l.gaps topic partition

theorem view_moved {b b' : Broker} (h : b.Moved b') (l : LakeState) (topic : String)
    (partition : Nat) : Step (view b l topic partition) (view b' l topic partition) :=
  Step.move (h.start topic partition) (h.stop topic partition)

theorem offsets_append (l : LakeState) (us : Nat) (c : RawCommit) (topic : String)
    (partition : Nat) :
    (l.apply us (.append c)).offsets topic partition = l.offsets topic partition ++
      (c.rows.filter fun r => r.topic = topic && r.partition = partition).map RawRow.offset := by
  simp only [LakeState.offsets, LakeState.rows, LakeState.apply, List.flatMap_append,
    List.flatMap_singleton, List.filter_append, List.map_append]

theorem offsets_rawRows (ingestTs : Int) (batch : List Broker.Loaded) (topic : String)
    (partition : Nat) :
    ((batch.map (rawRow ingestTs)).filter fun r =>
        r.topic = topic && r.partition = partition).map RawRow.offset =
      (Broker.ofPartition batch topic partition).map fun r => r.record.offset := by
  rw [Broker.ofPartition, List.filter_filter, List.filter_map, List.map_map]
  congr 1
  refine List.filter_congr fun r _ => ?_
  exact Bool.and_comm _ _

theorem firstStart_append (l : LakeState) (us : Nat) (c : RawCommit) (topic : String)
    (partition : Nat) :
    (l.apply us (.append c)).firstStart topic partition =
      (l.firstStart topic partition).or (c.read.starts.find? topic partition) := by
  simp [LakeState.firstStart, LakeState.apply, List.findSome?_append]

theorem gaps_fileGaps (l : LakeState) (us : Nat) (c : GapCommit) (topic : String)
    (partition : Nat) :
    (l.apply us (.fileGaps c)).gaps topic partition = l.gaps topic partition ++
      (c.losses.filter fun loss => loss.topic = topic && loss.partition = partition).map
        fun loss => (loss.start, loss.logStart) := by
  simp only [LakeState.gaps, LakeState.recorded, LakeState.apply, List.flatMap_append,
    List.flatMap_singleton, List.filter_append, List.map_append]

/-! ## What holds between runs -/

/-- Everything committed is a partition that exists, at an offset that is not a sentinel, and
    that some batch has spanned. -/
structure Standing (topics : List String) (b : Broker) (l : LakeState) (o : Offsets) : Prop where
  decodes : committedOffsets l.raw.snapshots = some o
  known : ∀ topic partition c, o.find? topic partition = some c →
    topic ∈ topics ∧ partition < (b topic).length ∧ 0 ≤ c
  begun : ∀ topic partition,
    (l.firstStart topic partition).isSome = (o.find? topic partition).isSome

theorem Standing.committed_eq {topics : List String} {b : Broker} {l : LakeState} {o : Offsets}
    (h : Standing topics b l o) (topic : String) (partition : Nat) :
    l.committed topic partition = o.find? topic partition := by
  rw [LakeState.committed, h.decodes, Option.bind_some]

theorem Standing.moved {topics : List String} {b b' : Broker} {l : LakeState} {o : Offsets}
    (h : Standing topics b l o) (hb : b.Moved b') : Standing topics b' l o where
  decodes := h.decodes
  known topic _ _ hc :=
    ⟨(h.known _ _ _ hc).1, (h.known _ _ _ hc).2.1.trans_le (hb.exist topic), (h.known _ _ _ hc).2.2⟩
  begun := h.begun

theorem Standing.position_eq {topics : List String} {b : Broker} {l : LakeState} {o : Offsets}
    (h : Standing topics b l o) {topic : String} {partition : Nat} {c : Int}
    (hc : o.find? topic partition = some c) :
    ∃ first, l.firstStart topic partition = some first ∧
      ∀ b', (view b' l topic partition).position = some (first, c) := by
  have hsome := h.begun topic partition
  rw [hc] at hsome
  obtain ⟨first, hfirst⟩ := Option.isSome_iff_exists.1 hsome
  exact ⟨first, hfirst, fun b' => by simp [view, hfirst, h.committed_eq, hc]⟩

theorem Standing.position_eq_none {topics : List String} {b : Broker} {l : LakeState} {o : Offsets}
    (h : Standing topics b l o) {topic : String} {partition : Nat}
    (hc : o.find? topic partition = none) (b' : Broker) :
    (view b' l topic partition).position = none := by
  simp [view, h.committed_eq, hc]

/-! ## One run -/

section OneRun

variable {topics : List String} {s : System} {o : Offsets} {r : IngestRun}

theorem moved_startsAt (r : IngestRun) (b : Broker) : b.Moved (r.startsAt b) := Broker.moved_run b _

theorem moved_endsAt (r : IngestRun) (b : Broker) : (r.startsAt b).Moved (r.endsAt b) :=
  Broker.moved_run _ _

theorem moved_readAt (r : IngestRun) (b : Broker) : (r.endsAt b).Moved (r.readAt b) :=
  Broker.moved_run _ _

theorem moved_run_of (r : IngestRun) (b : Broker) : b.Moved (r.readAt b) :=
  ((moved_startsAt r b).trans (moved_endsAt r b)).trans (moved_readAt r b)

/-- How a run takes a partition up. -/
inductive Resumed (topics : List String) (s : System) (o : Offsets) (r : IngestRun) (topic : String)
    (partition : Nat) (start : Int) : Prop
  | fresh (hnone : o.find? topic partition = none)
      (hstart : start = (r.startsAt s.broker).logStart topic partition)
  | continued {c : Int} (hc : o.find? topic partition = some c) (hstart : start = c)
  | skipped {c : Int} (hc : o.find? topic partition = some c) (hlt : c < start)
      (hstart : start = (r.startsAt s.broker).logStart topic partition)
      (hloss : (⟨topic, partition, c, start, start - c⟩ : Loss) ∈
        losses r.args (r.world topics s) o)

theorem known_of_starting (h : Standing topics s.broker s.lake o) {topic : String}
    {partition : Nat} {offset : Int}
    (hoff : (starting (r.world topics s) o).find? topic partition = some offset) :
    (topic ∈ topics ∧ partition < (s.broker topic).length) ∧
      (o.find? topic partition = some offset ∨
        o.find? topic partition = none ∧ offset = EARLIEST) := by
  rw [IngestRun.world, find?_starting_worldOf] at hoff
  split at hoff
  · rename_i ht
    cases hc : o.find? topic partition with
    | some c =>
      rw [hc, Option.some_or] at hoff
      exact ⟨⟨ht, (h.known _ _ _ hc).2.1⟩, Or.inl hoff⟩
    | none =>
      rw [hc, Option.none_or] at hoff
      split at hoff
      · rename_i hp
        exact ⟨⟨ht, hp⟩, Or.inr ⟨rfl, (Option.some.inj hoff).symm⟩⟩
      · cases hoff
  · cases hoff

theorem firstOffset_world (topic : String) (partition : Nat)
    (h : topic ∈ topics ∧ partition < (s.broker topic).length) :
    firstOffset (r.world topics s).earliest topic partition =
      (r.startsAt s.broker).logStart topic partition := by
  rw [IngestRun.world, firstOffset_worldOf, if_pos h]

theorem endOfLog_world (topic : String) (partition : Nat)
    (h : topic ∈ topics ∧ partition < (s.broker topic).length) :
    endOfLog (r.world topics s).earliest (r.world topics s).latest topic partition =
      (r.endsAt s.broker).logEnd topic partition := by
  rw [IngestRun.world, endOfLog_worldOf, if_pos h]

theorem resumed (h : Standing topics s.broker s.lake o) {topic : String} {partition : Nat}
    {offset : Int} (hoff : (starting (r.world topics s) o).find? topic partition = some offset) :
    Resumed topics s o r topic partition (resumeAt (r.world topics s) topic partition offset) := by
  obtain ⟨hknown, hc | ⟨hnone, rfl⟩⟩ := known_of_starting h hoff
  · have hstart : startOf (r.world topics s).earliest (r.world topics s).latest topic partition
        offset = offset := startOf_of_nonneg (h.known _ _ _ hc).2.2
    rcases le_or_gt ((r.startsAt s.broker).logStart topic partition) offset with hle | hgt
    · refine .continued hc ?_
      rw [resumeAt, hstart, firstOffset_world topic partition hknown, max_eq_left hle]
    · have hresume : resumeAt (r.world topics s) topic partition offset =
          (r.startsAt s.broker).logStart topic partition := by
        rw [resumeAt, hstart, firstOffset_world topic partition hknown, max_eq_right hgt.le]
      refine .skipped hc (by rw [hresume]; exact hgt) hresume (mem_losses.2 ⟨offset, hoff, ?_, ?_⟩)
      · rw [hstart, firstOffset_world topic partition hknown]
        exact hgt
      · simp only [lossOf, hstart, firstOffset_world topic partition hknown, hresume]
  · refine .fresh hnone ?_
    have hstart : startOf (r.world topics s).earliest (r.world topics s).latest topic partition
        EARLIEST = firstOffset (r.world topics s).earliest topic partition := by
      rw [startOf, resolveStart, if_pos rfl]
    rw [resumeAt, hstart, max_self, firstOffset_world topic partition hknown]

/-- A recorded loss of a partition is the range from its position to the log's start. -/
theorem loss_range (h : Standing topics s.broker s.lake o) {loss : Loss}
    (hloss : loss ∈ losses r.args (r.world topics s) o) :
    o.find? loss.topic loss.partition = some loss.start ∧
      loss.logStart = (r.startsAt s.broker).logStart loss.topic loss.partition := by
  obtain ⟨offset, hoff, hlt, heq⟩ := mem_losses.1 hloss
  obtain ⟨hknown, hc | ⟨_, rfl⟩⟩ := known_of_starting h hoff
  · have hstart : startOf (r.world topics s).earliest (r.world topics s).latest loss.topic
        loss.partition offset = offset := startOf_of_nonneg (h.known _ _ _ hc).2.2
    rw [heq]
    exact ⟨hc.trans (congrArg some hstart.symm), firstOffset_world _ _ hknown⟩
  · rw [startOf, resolveStart, if_pos rfl] at hlt
    exact absurd hlt (lt_irrefl _)

/-- Recording the losses is giving up on them. -/
theorem view_fileGaps (h : Standing topics s.broker s.lake o) {b : Broker}
    (hb : (r.startsAt s.broker).Moved b) (topic : String) (partition : Nat) :
    ReflTransGen Step (view b s.lake topic partition)
      (view b (s.lake.apply r.wait (.fileGaps (gapCommit r.args (r.world topics s) o)))
        topic partition) := by
  have hgaps := gaps_fileGaps s.lake r.wait (gapCommit r.args (r.world topics s) o) topic partition
  have hview : view b (s.lake.apply r.wait (.fileGaps (gapCommit r.args (r.world topics s) o)))
      topic partition = { view b s.lake topic partition with
        gaps := (view b s.lake topic partition).gaps ++
          ((losses r.args (r.world topics s) o).filter fun loss =>
            loss.topic = topic && loss.partition = partition).map
              fun loss => (loss.start, loss.logStart) } := by
    simp only [view, hgaps]
    rfl
  have hmem : ∀ loss ∈ (losses r.args (r.world topics s) o).filter fun loss =>
      loss.topic = topic && loss.partition = partition,
      o.find? topic partition = some loss.start ∧
        loss.logStart = (r.startsAt s.broker).logStart topic partition := by
    intro loss hloss
    obtain ⟨hin, heq⟩ := List.mem_filter.1 hloss
    rw [Bool.and_eq_true, decide_eq_true_eq, decide_eq_true_eq] at heq
    obtain ⟨rfl, rfl⟩ := heq
    exact loss_range h hin
  rw [hview]
  cases hc : o.find? topic partition with
  | none =>
    have hnil : (losses r.args (r.world topics s) o).filter (fun loss =>
        loss.topic = topic && loss.partition = partition) = [] := by
      refine List.eq_nil_iff_forall_not_mem.2 fun loss hloss => ?_
      have hsome := (hmem loss hloss).1
      rw [hc] at hsome
      cases hsome
    rw [hnil, List.map_nil, List.append_nil]
  | some c =>
    obtain ⟨first, _, hpos⟩ := h.position_eq hc
    refine steps_giveUp _ _ (hpos b) fun g hg => ?_
    obtain ⟨loss, hloss, rfl⟩ := List.mem_map.1 hg
    obtain ⟨hstart, hlog⟩ := hmem loss hloss
    refine ⟨Option.some.inj (hstart.symm.trans hc), ?_⟩
    rw [hlog]
    exact hb.start topic partition

/-- The range a run reads of a partition ends inside the log. -/
theorem stopAt_le (h : Standing topics s.broker s.lake o)
    (hend : ∀ topic partition c, o.find? topic partition = some c →
      c ≤ s.broker.logEnd topic partition) {topic : String} {partition : Nat} {offset : Int}
    (hoff : (starting (r.world topics s) o).find? topic partition = some offset) :
    stopAt r.args (r.world topics s) topic partition offset ≤
      (r.readAt s.broker).logEnd topic partition := by
  have hknown := (known_of_starting h hoff).1
  have hstart : resumeAt (r.world topics s) topic partition offset ≤
      (r.endsAt s.broker).logEnd topic partition := by
    have hstarts := (Broker.logStart_le_logEnd (r.startsAt s.broker) topic partition).trans
      ((moved_endsAt r s.broker).stop topic partition)
    cases resumed h hoff with
    | fresh _ he => rw [he]; exact hstarts
    | continued hc he =>
      rw [he]
      exact (hend _ _ _ hc).trans
        (((moved_startsAt r s.broker).trans (moved_endsAt r s.broker)).stop topic partition)
    | skipped _ _ he => rw [he]; exact hstarts
  have hstop := stopOffset_le (resumeAt (r.world topics s) topic partition offset)
    (endOfLog (r.world topics s).earliest (r.world topics s).latest topic partition)
    r.args.maxPerPartition
    ((r.world topics s).limits.map fun u => (u.find? topic partition).getD (-1))
  rw [endOfLog_world topic partition hknown, max_eq_left hstart] at hstop
  rw [stopAt]
  rw [endOfLog_world topic partition hknown]
  exact hstop.trans ((moved_readAt r s.broker).stop topic partition)

theorem find?_starts_world (topics : List String) (s : System) (o : Offsets) (r : IngestRun)
    (topic : String) (partition : Nat) :
    (pinned r.args (r.world topics s) o).starts.find? topic partition =
      ((starting (r.world topics s) o).find? topic partition).map
        (resumeAt (r.world topics s) topic partition) :=
  find?_pinned_starts (fun t p => firstOffset_worldOf_nonneg t p) topic partition

theorem find?_ends_world (topics : List String) (s : System) (o : Offsets) (r : IngestRun)
    (topic : String) (partition : Nat) :
    (pinned r.args (r.world topics s) o).ends.find? topic partition =
      ((starting (r.world topics s) o).find? topic partition).map
        (stopAt r.args (r.world topics s) topic partition) :=
  find?_pinned_ends (fun t p => firstOffset_worldOf_nonneg t p) topic partition

/-- What the commit of a batch does to the archive of one partition. -/
theorem view_apply_append {l : LakeState} {c : RawCommit}
    (hc : Appends r.args (r.world topics s) o c) (b : Broker) (topic : String) (partition : Nat) :
    view b (l.apply r.wait (.append c)) topic partition =
      { view b l topic partition with
        position := ((l.firstStart topic partition).or
            ((pinned r.args (r.world topics s) o).starts.find? topic partition)).bind fun first =>
          (((pinned r.args (r.world topics s) o).ends.find? topic partition).or
            (o.find? topic partition)).map fun next => (first, next)
        items := (view b l topic partition).items ++
          (Broker.ofPartition c.batch topic partition).map fun r => r.record.offset } := by
  obtain ⟨maxTs, hcommit⟩ := hc.commit
  obtain ⟨read, hread, hfind⟩ := committedOffsets_append hc l.raw r.wait
  have hcommitted : (l.apply r.wait (.append c)).committed topic partition =
      ((pinned r.args (r.world topics s) o).ends.find? topic partition).or
        (o.find? topic partition) := by
    rw [← hfind, LakeState.committed]
    simp only [LakeState.apply, hread, Option.bind_some]
  have hrows : c.rows = c.batch.map (rawRow r.args.ingestTs) := by
    rw [hcommit]
    rfl
  have hfirst : c.read = pinned r.args (r.world topics s) o := by
    rw [hcommit]
    rfl
  simp only [view, firstStart_append, hcommitted, hfirst, offsets_append, hrows, offsets_rawRows]
  rfl

/-- Appending the batch copies the range; `l` is the lake with the losses on record. -/
theorem view_append (h : Standing topics s.broker s.lake o) (hgapless : s.broker.Gapless)
    (hend : ∀ topic partition c, o.find? topic partition = some c →
      c ≤ s.broker.logEnd topic partition) {l : LakeState} (hl : Standing topics s.broker l o)
    (hgaps : ∀ loss ∈ losses r.args (r.world topics s) o,
      (loss.start, loss.logStart) ∈ l.gaps loss.topic loss.partition)
    {c : RawCommit} (hc : Appends r.args (r.world topics s) o c) (topic : String)
    (partition : Nat) :
    ReflTransGen Step (view (r.readAt s.broker) l topic partition)
      (view (r.readAt s.broker) (l.apply r.wait (.append c)) topic partition) := by
  have hfetch : (r.readAt s.broker).fetch (pinned r.args (r.world topics s) o).starts
      (pinned r.args (r.world topics s) o).ends = some c.batch := hc.fetched
  have hstarts := find?_starts_world topics s o r topic partition
  have hends := find?_ends_world topics s o r topic partition
  rw [view_apply_append hc]
  cases hoff : (starting (r.world topics s) o).find? topic partition with
  | none =>
    rw [hoff] at hstarts hends
    rw [hstarts, hends, Broker.ofPartition_fetch_of_none hfetch hstarts]
    simp only [Option.map_none, Option.or_none, Option.none_or, List.map_nil, List.append_nil]
    have hposition : (view (r.readAt s.broker) l topic partition).position =
        (l.firstStart topic partition).bind fun first =>
          (o.find? topic partition).map fun next => (first, next) := by
      rw [view, hl.committed_eq]
    rw [← hposition]
  | some offset =>
    rw [hoff, Option.map_some] at hstarts hends
    have hle : resumeAt (r.world topics s) topic partition offset ≤
        stopAt r.args (r.world topics s) topic partition offset := start_le_stopOffset _ _ _ _
    have hstop := stopAt_le h hend hoff
    have hreadGapless : (r.readAt s.broker).Gapless := ((hgapless.run _).run _).run _
    have hcopies := Broker.offsets_fetch hreadGapless hfetch hstarts hends hstop
    have hheld : resumeAt (r.world topics s) topic partition offset =
        stopAt r.args (r.world topics s) topic partition offset ∨
          (view (r.readAt s.broker) l topic partition).logStart ≤
            resumeAt (r.world topics s) topic partition offset := by
      rcases hle.eq_or_lt with he | hlt
      · exact Or.inl he
      · obtain ⟨log, hlog, hlogle⟩ := Broker.fetchable_of_fetch hfetch hstarts hends hlt
        refine Or.inr ?_
        simpa [view, Broker.logStart, hlog] using hlogle
    rw [hstarts, hends]
    simp only [Option.some_or]
    refine ReflTransGen.single ?_
    cases resumed h hoff with
    | fresh hnone hstart =>
      have hfirst : l.firstStart topic partition = none := by
        have hb := hl.begun topic partition
        rw [hnone] at hb
        simpa using hb
      rw [hfirst]
      exact Step.start (hl.position_eq_none hnone _) hle hstop hcopies
    | continued hcom hstart =>
      obtain ⟨first, hfirst, hpos⟩ := hl.position_eq hcom
      rw [hfirst]
      exact Step.advance (hpos _) (Or.inl hstart) hle hstop hheld hcopies
    | skipped hcom hlt hstart hloss =>
      obtain ⟨first, hfirst, hpos⟩ := hl.position_eq hcom
      rw [hfirst]
      exact Step.advance (hpos _) (Or.inr ⟨hlt.le, hgaps _ hloss⟩) hle hstop hheld hcopies

theorem Standing.fileGaps {b : Broker} {l : LakeState} (h : Standing topics b l o) (us : Nat)
    (c : GapCommit) : Standing topics b (l.apply us (.fileGaps c)) o :=
  ⟨h.decodes, h.known, h.begun⟩

theorem Standing.append (h : Standing topics s.broker s.lake o) {l : LakeState}
    (hl : Standing topics s.broker l o) {c : RawCommit}
    (hc : Appends r.args (r.world topics s) o c) :
    ∃ read, Standing topics (r.readAt s.broker) (l.apply r.wait (.append c)) read := by
  obtain ⟨maxTs, hcommit⟩ := hc.commit
  obtain ⟨read, hread, hfind⟩ := committedOffsets_append hc l.raw r.wait
  have hread' : c.read = pinned r.args (r.world topics s) o := by
    rw [hcommit]
    rfl
  refine ⟨read, hread, fun topic partition offset hoff => ?_, fun topic partition => ?_⟩
  · rw [hfind, find?_ends_world] at hoff
    have hexist := (moved_run_of r s.broker).exist topic
    cases hstart : (starting (r.world topics s) o).find? topic partition with
    | some start =>
      rw [hstart, Option.map_some, Option.some_or] at hoff
      cases hoff
      obtain ⟨ht, hp⟩ := (known_of_starting h hstart).1
      have hlow : 0 ≤ resumeAt (r.world topics s) topic partition start :=
        (firstOffset_worldOf_nonneg topic partition).trans (le_max_right _ _)
      exact ⟨ht, hp.trans_le hexist, hlow.trans (start_le_stopOffset _ _ _ _)⟩
    | none =>
      rw [hstart, Option.map_none, Option.none_or] at hoff
      obtain ⟨ht, hp, hpos⟩ := h.known _ _ _ hoff
      exact ⟨ht, hp.trans_le hexist, hpos⟩
  · rw [firstStart_append, hfind, hread', find?_starts_world, find?_ends_world]
    have hb := hl.begun topic partition
    cases (starting (r.world topics s) o).find? topic partition with
    | some start => simp
    | none => simpa using hb

/-- One run, however far it gets. -/
theorem view_made (h : Standing topics s.broker s.lake o) (hgapless : s.broker.Gapless)
    (hend : ∀ topic partition c, o.find? topic partition = some c →
      c ≤ s.broker.logEnd topic partition) {effects : List Effect}
    (hmade : Made r.args (r.world topics s) o effects) :
    (∃ o', Standing topics (r.readAt s.broker)
        (effects.foldl (LakeState.apply r.wait) s.lake) o') ∧
      ∀ topic partition, ReflTransGen Step (view s.broker s.lake topic partition)
        (view (r.readAt s.broker) (effects.foldl (LakeState.apply r.wait) s.lake)
          topic partition) := by
  have hreadAt := (moved_endsAt r s.broker).trans (moved_readAt r s.broker)
  have hmoved := moved_run_of r s.broker
  have hmove : ∀ l topic partition, ReflTransGen Step (view s.broker l topic partition)
      (view (r.readAt s.broker) l topic partition) :=
    fun l topic partition => ReflTransGen.single (view_moved hmoved l topic partition)
  have hfile : ∀ topic partition, ReflTransGen Step (view s.broker s.lake topic partition)
      (view (r.readAt s.broker)
        (s.lake.apply r.wait (.fileGaps (gapCommit r.args (r.world topics s) o)))
        topic partition) :=
    fun topic partition => (hmove s.lake topic partition).trans
      (view_fileGaps h hreadAt topic partition)
  have hfiled := h.fileGaps r.wait (gapCommit r.args (r.world topics s) o)
  cases hmade with
  | nothing => exact ⟨⟨o, h.moved hmoved⟩, hmove s.lake⟩
  | filed => exact ⟨⟨o, hfiled.moved hmoved⟩, hfile⟩
  | appended hnil hc =>
    refine ⟨h.append h hc, fun topic partition => (hmove s.lake topic partition).trans ?_⟩
    refine view_append h hgapless hend h (fun loss hloss => ?_) hc topic partition
    rw [hnil] at hloss
    cases hloss
  | both hc =>
    refine ⟨h.append hfiled hc, fun topic partition => (hfile topic partition).trans ?_⟩
    refine view_append h hgapless hend hfiled (fun loss hloss => ?_) hc topic partition
    rw [gaps_fileGaps]
    refine List.mem_append_right _ (List.mem_map.2 ⟨loss, List.mem_filter.2 ⟨hloss, ?_⟩, rfl⟩)
    simp

end OneRun

/-! ## Whole histories -/

/-- What every reachable system has. -/
structure Sound (topics : List String) (s : System) : Prop where
  gapless : s.broker.Gapless
  standing : ∃ o, Standing topics s.broker s.lake o
  exact : ∀ topic partition, Exact (view s.broker s.lake topic partition)

theorem Sound.committed_le {topics : List String} {s : System} (h : Sound topics s) {o : Offsets}
    (ho : Standing topics s.broker s.lake o) {topic : String} {partition : Nat} {c : Int}
    (hc : o.find? topic partition = some c) : c ≤ s.broker.logEnd topic partition := by
  obtain ⟨first, _, hpos⟩ := ho.position_eq hc
  exact ((h.exact topic partition).ordered _ _ (hpos _)).2

/-- **Simulation.**  Every event of the system is, for each partition, a sequence of steps of its
    archive. -/
theorem view_step {topics : List String} {s : System} (h : Sound topics s) (e : Event) :
    (∃ o, Standing topics (s.step topics e).broker (s.step topics e).lake o) ∧
      ∀ topic partition, ReflTransGen Step (view s.broker s.lake topic partition)
        (view (s.step topics e).broker (s.step topics e).lake topic partition) := by
  obtain ⟨o, ho⟩ := h.standing
  cases e with
  | broker e =>
    have hmoved := Broker.moved_step s.broker e
    exact ⟨⟨o, ho.moved hmoved⟩,
      fun topic partition => ReflTransGen.single (view_moved hmoved s.lake topic partition)⟩
  | compaction us metrics =>
    have hkept := committedOffsets_compaction s.lake.raw us metrics
    refine ⟨⟨o, hkept.trans ho.decodes, ho.known, ho.begun⟩, fun topic partition => ?_⟩
    have hview : view (s.step topics (.compaction us metrics)).broker
        (s.step topics (.compaction us metrics)).lake topic partition =
          view s.broker s.lake topic partition := by
      simp only [view, LakeState.committed, System.step, hkept]
      rfl
    rw [hview]
  | ingest r =>
    have hend : ∀ topic partition c, o.find? topic partition = some c →
        c ≤ s.broker.logEnd topic partition := fun topic partition c hc => h.committed_le ho hc
    rcases stageRaw_made r.args (r.world topics s) with hnil | hmade
    · have hnothing : (stageRaw r.args (r.world topics s)).1.take r.survives = [] := by
        rw [hnil, List.take_nil]
      simp only [System.step, hnothing]
      exact view_made ho h.gapless hend .nothing
    · obtain ⟨o', ho', hmade⟩ := hmade
      have heq : o' = o := Option.some.inj (ho'.symm.trans ho.decodes)
      rw [heq] at hmade
      exact view_made ho h.gapless hend (hmade.take r.survives)

theorem Sound.step {topics : List String} {s : System} (h : Sound topics s) (e : Event) :
    Sound topics (s.step topics e) := by
  obtain ⟨hstanding, hsteps⟩ := view_step h e
  refine ⟨?_, hstanding, fun topic partition => (h.exact _ _).steps (hsteps topic partition)⟩
  cases e with
  | broker e => exact h.gapless.step e
  | compaction us metrics => exact h.gapless
  | ingest r => exact ((h.gapless.run _).run _).run _

theorem sound_create (topics : List String) (clock : Int) : Sound topics (System.create clock) := by
  refine ⟨fun topic partition log hlog => ?_, ⟨Dict.empty, rfl, fun _ _ _ h => ?_, fun _ _ => rfl⟩,
    fun topic partition => ⟨fun _ => ⟨rfl, rfl⟩, fun _ _ h => ?_, List.nodup_nil, fun _ _ h => ?_,
      fun g hg => ?_⟩⟩
  · simp [System.create, Broker.log?] at hlog
  · cases h
  · cases h
  · cases h
  · cases hg

theorem sound_run (topics : List String) (clock : Int) (history : List Event) :
    Sound topics (System.run topics clock history) := by
  induction history using List.reverseRecOn with
  | nil => exact sound_create topics clock
  | append_singleton history e ih =>
    rw [System.run, List.foldl_append]
    exact ih.step e

/-- **Exactly once.**  After every history, `raw.messages` holds each offset of a partition at most
    once; it holds nothing of a partition that nothing is committed for, and of any other exactly
    the offsets from the first start to the committed end that no `offset_gap` covers; and
    whatever happens next, the committed offset does not decrease. -/
theorem exactly_once (topics : List String) (clock : Int) (history : List Event) (topic : String)
    (partition : Nat) :
    let s := System.run topics clock history
    (s.lake.offsets topic partition).Nodup ∧
      (s.lake.committed topic partition = none → s.lake.offsets topic partition = []) ∧
      ∀ committed, s.lake.committed topic partition = some committed →
        (∃ first, s.lake.firstStart topic partition = some first ∧
          ∀ o, o ∈ s.lake.offsets topic partition ↔
            first ≤ o ∧ o < committed ∧ ¬ Covered (s.lake.gaps topic partition) o) ∧
        ∀ e, ∃ committed', (s.step topics e).lake.committed topic partition = some committed' ∧
          committed ≤ committed' := by
  intro s
  have h : Sound topics s := sound_run topics clock history
  obtain ⟨o, ho⟩ := h.standing
  have hexact := h.exact topic partition
  refine ⟨hexact.nodup, fun hnone => ?_, fun committed hcommitted => ?_⟩
  · rw [ho.committed_eq] at hnone
    exact (hexact.unbegun (ho.position_eq_none hnone _)).1
  · rw [ho.committed_eq] at hcommitted
    obtain ⟨first, hfirst, hpos⟩ := ho.position_eq hcommitted
    refine ⟨⟨first, hfirst, hexact.mem_iff _ _ (hpos _)⟩, fun e => ?_⟩
    obtain ⟨next, hnext, hle⟩ := position_mono_steps ((view_step h e).2 topic partition) (hpos _)
    simp only [view, Option.bind_eq_some_iff, Option.map_eq_some_iff, Prod.mk.injEq] at hnext
    obtain ⟨_, _, _, hcom, _, rfl⟩ := hnext
    exact ⟨_, hcom, hle⟩

end K2.Lake

import K2Platform.Lake.Broker
import K2Platform.Lake.Expiry

/-!
# Stage 1: Kafka to `raw.messages`

Model of `docker/lake/ingest.py::stage_raw` and `_accept_data_loss`.  A run is a function of what
it reads (the snapshot history, the broker's answers, the batch a pinned read gives) to the
commits it makes, in order, and the way it ends; a run that is killed has made some of the
first of them.

* `pinned` — the ranges a run reads, after the repair if there was one.
* `find?_pinned_starts`, `find?_pinned_ends` — with the repair or without, a run resumes each
  partition at its committed offset or at the log's start, whichever is later.
* `stageRaw_made` — everything a run can commit.
* `committedOffsets_append` — the next run resumes from what the commit says.
-/

set_option autoImplicit false

namespace K2.Lake

/-! ## Rows -/

structure RawRow where
  topic : String
  partition : Nat
  offset : Int
  kafkaTs : Int
  ingestTs : Int
  key : Option Bytes
  schemaId : Option Nat
  payload : Option Bytes
  headers : Dict String (Option Bytes)

/-- `schema_id_guarded_expr`: the id of a Confluent frame, NULL for what is not one; an id that
    does not fit a signed 32-bit integer is NULL as well. -/
def schemaIdGuarded : Option Bytes → Option Nat
  | some (magic :: a :: b :: c :: d :: _) =>
    let sid := ((a.toNat * 256 + b.toNat) * 256 + c.toNat) * 256 + d.toNat
    if magic = 0 ∧ 0 < sid ∧ sid < 2147483648 then some sid else none
  | _ => none

/-- The projection that is appended. -/
def rawRow (ingestTs : Int) (loaded : Broker.Loaded) : RawRow where
  topic := loaded.topic
  partition := loaded.partition
  offset := loaded.record.offset
  kafkaTs := loaded.record.timestamp
  ingestTs := ingestTs
  key := loaded.record.key
  schemaId := schemaIdGuarded loaded.record.value
  payload := loaded.record.value
  headers := Dict.ofItems loaded.record.headers

/-- `F.max("timestamp")`: nothing over no rows. -/
def maxKafkaTs (batch : List Broker.Loaded) : Option Int :=
  (batch.map fun l => l.record.timestamp).max?

theorem maxKafkaTs_eq_none_iff {batch : List Broker.Loaded} :
    maxKafkaTs batch = none ↔ batch = [] := by
  rw [maxKafkaTs, List.max?_eq_none_iff, List.map_eq_nil_iff]

/-! ## What a run reads and what it does -/

structure RunArgs where
  ingestTs : Int
  maxPerPartition : Int
  acceptDataLoss : Bool
  applicationId : String

/-- The snapshot history of `raw.messages`, the broker's answers (`limits` to `--end-timestamp`),
    whether a commit to `audit.checks` lands, and the pinned read. -/
structure World where
  snapshots : List Snapshot
  earliest : Offsets
  latest : Offsets
  limits : Option Offsets
  auditLands : Bool
  fetch : Offsets → Offsets → Option (List Broker.Loaded)

/-- One row of `audit.checks`. -/
structure CheckRow where
  runTs : Int
  job : String
  checkName : String
  scope : String
  passed : Bool
  observed : Int
  detail : String
  deriving DecidableEq, Repr

/-- `GAP_OFFSETS`. -/
def gapOffsets (committed logStart : Int) : String :=
  "committed " ++ toString committed ++ ", broker LOG-START " ++ toString logStart

def gapRow (runTs : Int) (applicationId : String) (loss : Loss) : CheckRow where
  runTs := runTs
  job := JOB_INGEST
  checkName := "offset_gap"
  scope := loss.topic ++ "/" ++ toString loss.partition
  passed := false
  observed := loss.lost
  detail := "--accept-data-loss: " ++ loss.topic ++ " partition " ++ toString loss.partition ++
    " " ++ gapOffsets loss.start loss.logStart ++ ", " ++ toString loss.lost ++
    " records evicted by Redpanda retention and permanently gone; resumed at " ++
    toString loss.logStart ++ " by run " ++ applicationId

/-- The commit to `audit.checks`: one row for each partition. -/
structure GapCommit where
  runTs : Int
  applicationId : String
  losses : List Loss

def GapCommit.rows (c : GapCommit) : List CheckRow := c.losses.map (gapRow c.runTs c.applicationId)

/-- The commit to `raw.messages`: the ranges read, the rows, and where the archive now stands. -/
structure RawCommit where
  read : Bounded
  batch : List Broker.Loaded
  rows : List RawRow
  position : Summary

inductive Effect where
  | fileGaps (c : GapCommit)
  | append (c : RawCommit)

inductive Exit where
  | returned (written : Nat)
  | badOffsets
  | failOnDataLoss (losses : List Loss)
  | gapNotRecorded
  | fetchFailed
  deriving DecidableEq

/-- Where the last ingest stopped; `none` where the property does not decode. -/
def committedOffsets (snapshots : List Snapshot) : Option Offsets :=
  match latestSummary snapshots JOB_INGEST with
  | none => some Dict.empty
  | some previous =>
    match previous.get? KAFKA_OFFSETS with
    | none => some Dict.empty
    | some (.offsets raw) => decode raw
    | some _ => none

section Run

variable (args : RunArgs) (world : World)

/-- `{t: len(p) for t, p in earliest.items()}`. -/
def partitionCounts (earliest : Offsets) : Dict String Nat :=
  earliest.map fun _ parts => parts.entries.length

def starting (committed : Offsets) : Offsets :=
  nextStartingOffsets committed (partitionCounts world.earliest)

/-- The ranges before any repair. -/
def planned (committed : Offsets) : Bounded :=
  boundedOffsets (starting world committed) world.earliest world.latest args.maxPerPartition
    world.limits

def losses (committed : Offsets) : List Loss :=
  evicted (planned args world committed).starts world.earliest

/-- `_accept_data_loss` after its record is written: the ends follow from the new starts. -/
def repaired (committed : Offsets) : Bounded :=
  boundedOffsets
    (skipEvicted (planned args world committed).starts (losses args world committed))
    world.earliest world.latest args.maxPerPartition world.limits

def rawCommit (committed : Offsets) (read : Bounded) (batch : List Broker.Loaded)
    (maxTs : Int) : RawCommit where
  read := read
  batch := batch
  rows := batch.map (rawRow args.ingestTs)
  position := ((Dict.empty.insert KAFKA_OFFSETS
      (.offsets (encode (mergeCommitted committed read.ends)))).insert KAFKA_BACKLOG
      (.counts read.backlog)).insert MAX_KAFKA_TS (.instant maxTs)

/-- From the `starts == ends` check to the end.  Both maps were built over the same keys in the
    same order, so they are equal as lists if they are as maps. -/
def readAndCommit (committed : Offsets) (read : Bounded) : List Effect × Exit :=
  if read.starts = read.ends then ([], .returned 0)
  else
    match world.fetch read.starts read.ends with
    | none => ([], .fetchFailed)
    | some batch =>
      match maxKafkaTs batch with
      | none => ([], .returned 0)
      | some maxTs =>
        let commit := rawCommit args committed read batch maxTs
        ([.append commit], .returned commit.rows.length)

def gapCommit (committed : Offsets) : GapCommit :=
  ⟨args.ingestTs, args.applicationId, losses args world committed⟩

def stageRaw : List Effect × Exit :=
  match committedOffsets world.snapshots with
  | none => ([], .badOffsets)
  | some committed =>
    if losses args world committed = [] then
      readAndCommit args world committed (planned args world committed)
    else if args.acceptDataLoss = false then ([], .failOnDataLoss (losses args world committed))
    else if world.auditLands = false then ([], .gapNotRecorded)
    else
      let rest := readAndCommit args world committed (repaired args world committed)
      (.fileGaps (gapCommit args world committed) :: rest.1, rest.2)

/-- The ranges a run reads in the end. -/
def pinned (committed : Offsets) : Bounded :=
  if losses args world committed = [] then planned args world committed
  else repaired args world committed

/-! ## One partition of a run -/

/-- Where a run resumes a partition whose starting offset is `offset`. -/
def resumeAt (topic : String) (partition : Nat) (offset : Int) : Int :=
  max (startOf world.earliest world.latest topic partition offset)
    (firstOffset world.earliest topic partition)

def stopAt (topic : String) (partition : Nat) (offset : Int) : Int :=
  stopOffset (resumeAt world topic partition offset)
    (endOfLog world.earliest world.latest topic partition) args.maxPerPartition
    (world.limits.map fun u => (u.find? topic partition).getD (-1))

variable {args world} {committed : Offsets}

theorem startOf_of_nonneg {earliest latest : Offsets} {topic : String} {partition : Nat}
    {offset : Int} (h : 0 ≤ offset) : startOf earliest latest topic partition offset = offset := by
  rw [startOf, resolveStart, if_neg (by unfold EARLIEST; omega), if_neg (by unfold LATEST; omega)]

theorem mem_losses {loss : Loss} :
    loss ∈ losses args world committed ↔
      ∃ offset, (starting world committed).find? loss.topic loss.partition = some offset ∧
        startOf world.earliest world.latest loss.topic loss.partition offset <
          firstOffset world.earliest loss.topic loss.partition ∧
        loss = lossOf world.earliest loss.topic loss.partition
          (startOf world.earliest world.latest loss.topic loss.partition offset) := by
  unfold losses planned
  rw [mem_evicted]
  simp only [find?_starts, Option.map_eq_some_iff]
  constructor
  · rintro ⟨_, ⟨offset, hoff, rfl⟩, hlt, heq⟩
    exact ⟨offset, hoff, hlt, heq⟩
  · rintro ⟨offset, hoff, hlt, heq⟩
    exact ⟨_, ⟨offset, hoff, rfl⟩, hlt, heq⟩

theorem le_startOf_of_losses_eq_nil (h : losses args world committed = []) {topic : String}
    {partition : Nat} {offset : Int}
    (hoff : (starting world committed).find? topic partition = some offset) :
    firstOffset world.earliest topic partition ≤
      startOf world.earliest world.latest topic partition offset := by
  by_contra hlt
  have hmem : lossOf world.earliest topic partition
      (startOf world.earliest world.latest topic partition offset) ∈
        losses args world committed :=
    mem_losses.2 ⟨offset, hoff, not_le.1 hlt, rfl⟩
  rw [h] at hmem
  cases hmem

theorem find?_repaired_starts (hfirst : ∀ t p, 0 ≤ firstOffset world.earliest t p)
    (topic : String) (partition : Nat) :
    (repaired args world committed).starts.find? topic partition =
      ((starting world committed).find? topic partition).map (resumeAt world topic partition) := by
  unfold repaired losses planned
  rw [find?_starts, find?_skipEvicted, find?_starts]
  cases (starting world committed).find? topic partition with
  | none => rfl
  | some offset =>
    simp only [Option.map_some]
    rw [startOf_of_nonneg ((hfirst topic partition).trans (le_max_right _ _)), resumeAt]

theorem find?_repaired_ends (hfirst : ∀ t p, 0 ≤ firstOffset world.earliest t p)
    (topic : String) (partition : Nat) :
    (repaired args world committed).ends.find? topic partition =
      ((starting world committed).find? topic partition).map
        (stopAt args world topic partition) := by
  unfold repaired losses planned
  rw [find?_ends, find?_skipEvicted, find?_starts]
  cases (starting world committed).find? topic partition with
  | none => rfl
  | some offset =>
    simp only [Option.map_some]
    rw [stopOf, startOf_of_nonneg ((hfirst topic partition).trans (le_max_right _ _)), stopAt,
      resumeAt]

/-- **Where a run resumes.**  With the repair or without it. -/
theorem find?_pinned_starts (hfirst : ∀ t p, 0 ≤ firstOffset world.earliest t p)
    (topic : String) (partition : Nat) :
    (pinned args world committed).starts.find? topic partition =
      ((starting world committed).find? topic partition).map (resumeAt world topic partition) := by
  unfold pinned
  split
  · rename_i hnil
    unfold planned
    rw [find?_starts]
    refine Option.map_congr fun offset hoff => ?_
    rw [resumeAt, max_eq_left (le_startOf_of_losses_eq_nil hnil hoff)]
  · exact find?_repaired_starts hfirst topic partition

theorem find?_pinned_ends (hfirst : ∀ t p, 0 ≤ firstOffset world.earliest t p)
    (topic : String) (partition : Nat) :
    (pinned args world committed).ends.find? topic partition =
      ((starting world committed).find? topic partition).map
        (stopAt args world topic partition) := by
  unfold pinned
  split
  · rename_i hnil
    unfold planned
    rw [find?_ends]
    refine Option.map_congr fun offset hoff => ?_
    rw [stopOf, stopAt, resumeAt, max_eq_left (le_startOf_of_losses_eq_nil hnil hoff)]
  · exact find?_repaired_ends hfirst topic partition

/-! ## Everything a run can commit -/

/-- A batch that was read and is not empty. -/
structure Appends (args : RunArgs) (world : World) (committed : Offsets) (c : RawCommit) :
    Prop where
  fetched : world.fetch (pinned args world committed).starts
    (pinned args world committed).ends = some c.batch
  nonempty : c.batch ≠ []
  commit : ∃ maxTs, c = rawCommit args committed (pinned args world committed) c.batch maxTs

/-- What a run has committed when it ends or is killed: nothing; the losses; the batch of a run
    that lost nothing; or the losses and then the batch. -/
inductive Made (args : RunArgs) (world : World) (committed : Offsets) : List Effect → Prop
  | nothing : Made args world committed []
  | filed : Made args world committed [.fileGaps (gapCommit args world committed)]
  | appended {c : RawCommit} (hnil : losses args world committed = [])
      (hc : Appends args world committed c) : Made args world committed [.append c]
  | both {c : RawCommit} (hc : Appends args world committed c) :
      Made args world committed [.fileGaps (gapCommit args world committed), .append c]

theorem Made.take {effects : List Effect} (h : Made args world committed effects) :
    ∀ k, Made args world committed (effects.take k) := by
  intro k
  cases h with
  | nothing => rw [List.take_nil]; exact .nothing
  | filed =>
    match k with
    | 0 => exact .nothing
    | k + 1 => rw [List.take_succ_cons, List.take_nil]; exact .filed
  | appended hnil hc =>
    match k with
    | 0 => exact .nothing
    | k + 1 => rw [List.take_succ_cons, List.take_nil]; exact .appended hnil hc
  | both hc =>
    match k with
    | 0 => exact .nothing
    | 1 => exact .filed
    | k + 2 => rw [List.take_succ_cons, List.take_succ_cons, List.take_nil]; exact .both hc

theorem readAndCommit_effects {read : Bounded} (hread : read = pinned args world committed) :
    (readAndCommit args world committed read).1 = [] ∨
      ∃ c, Appends args world committed c ∧
        (readAndCommit args world committed read).1 = [.append c] := by
  unfold readAndCommit
  split
  · exact Or.inl rfl
  · split
    · exact Or.inl rfl
    · rename_i batch hfetch
      split
      · exact Or.inl rfl
      · rename_i maxTs hmax
        rw [hread] at hfetch
        refine Or.inr ⟨_, ⟨hfetch, fun hnil => ?_, maxTs, hread ▸ rfl⟩, rfl⟩
        have hnone := maxKafkaTs_eq_none_iff.2 hnil
        simp only [rawCommit] at hnone
        rw [hmax] at hnone
        cases hnone

/-- **The commits of a run.** -/
theorem stageRaw_made (args : RunArgs) (world : World) :
    (stageRaw args world).1 = [] ∨
      ∃ committed, committedOffsets world.snapshots = some committed ∧
        Made args world committed (stageRaw args world).1 := by
  unfold stageRaw
  split
  · exact Or.inl rfl
  · rename_i committed hcommitted
    refine Or.inr ⟨committed, hcommitted, ?_⟩
    split
    · rename_i hnil
      have hplanned : planned args world committed = pinned args world committed := by
        rw [pinned, if_pos hnil]
      rcases readAndCommit_effects hplanned with h | ⟨c, hc, h⟩
      · rw [h]
        exact .nothing
      · rw [h]
        exact .appended hnil hc
    · rename_i hne
      split
      · exact .nothing
      · split
        · exact .nothing
        · have hrepaired : repaired args world committed = pinned args world committed := by
            rw [pinned, if_neg hne]
          rcases readAndCommit_effects hrepaired with h | ⟨c, hc, h⟩
          · simp only [h]
            exact .filed
          · simp only [h]
            exact .both hc

end Run

/-! ## The broker's answers -/

/-- A run counts the partitions, asks for the log starts, asks for the log ends and reads, each
    while the broker is in another state. -/
def worldOf (topics : List String) (snapshots : List Snapshot)
    (counted startsAt endsAt readAt : Broker) (limits : Option Offsets) (auditLands : Bool) :
    World where
  snapshots := snapshots
  earliest := Broker.listOffsets topics counted startsAt Broker.logStart
  latest := Broker.listOffsets topics counted endsAt Broker.logEnd
  limits := limits
  auditLands := auditLands
  fetch := readAt.fetch

section WorldOf

variable {topics : List String} {snapshots : List Snapshot}
  {counted startsAt endsAt readAt : Broker} {limits : Option Offsets} {auditLands : Bool}

theorem firstOffset_worldOf (topic : String) (partition : Nat) :
    firstOffset (worldOf topics snapshots counted startsAt endsAt readAt limits auditLands).earliest
        topic partition =
      if topic ∈ topics ∧ partition < (counted topic).length
      then startsAt.logStart topic partition else 0 := by
  simp only [firstOffset, worldOf, Broker.find?_listOffsets]
  split <;> rfl

theorem firstOffset_worldOf_nonneg (topic : String) (partition : Nat) :
    0 ≤ firstOffset
      (worldOf topics snapshots counted startsAt endsAt readAt limits auditLands).earliest
        topic partition := by
  rw [firstOffset_worldOf]
  split
  · exact Broker.logStart_nonneg _ _ _
  · exact le_rfl

theorem endOfLog_worldOf (topic : String) (partition : Nat) :
    endOfLog (worldOf topics snapshots counted startsAt endsAt readAt limits auditLands).earliest
        (worldOf topics snapshots counted startsAt endsAt readAt limits auditLands).latest
        topic partition =
      if topic ∈ topics ∧ partition < (counted topic).length
      then endsAt.logEnd topic partition else 0 := by
  rw [endOfLog, firstOffset_worldOf]
  simp only [worldOf, Broker.find?_listOffsets]
  split <;> rfl

theorem find?_starting_worldOf (committed : Offsets) (topic : String) (partition : Nat) :
    (starting (worldOf topics snapshots counted startsAt endsAt readAt limits auditLands)
        committed).find? topic partition =
      if topic ∈ topics then
        (committed.find? topic partition).or
          (if partition < (counted topic).length then some EARLIEST else none)
      else none := by
  have hcounts : (partitionCounts (Broker.listOffsets topics counted startsAt
      Broker.logStart)).get? topic =
        if topic ∈ topics then some (counted topic).length else none := by
    rw [partitionCounts, Dict.get?_map, Broker.listOffsets, Dict.get?_ofKeys]
    split
    · rw [Option.map_some, Dict.entries_ofKeys List.nodup_range, List.length_map,
        List.length_range]
    · rfl
  rw [starting, find?_nextStartingOffsets, worldOf, hcounts]
  split <;> rfl

end WorldOf

/-! ## The lake -/

/-- `raw.messages` as its snapshots and the batches appended to it, and the losses recorded in
    `audit.checks`. -/
structure LakeState where
  raw : Table
  archive : List RawCommit
  audit : List GapCommit

namespace LakeState

/-- Before the first run. -/
def create (clock : Int) : LakeState := ⟨Table.create clock, [], []⟩

def rows (l : LakeState) : List RawRow := l.archive.flatMap RawCommit.rows

/-- The losses on record. -/
def recorded (l : LakeState) : List Loss := l.audit.flatMap GapCommit.losses

/-- A commit, `us` microseconds after the previous one. -/
def apply (us : Nat) (l : LakeState) : Effect → LakeState
  | .fileGaps c => { l with audit := l.audit ++ [c] }
  | .append c =>
    { l with raw := l.raw.append us (.stage JOB_INGEST c.position), archive := l.archive ++ [c] }

end LakeState

theorem latestSummary_append (t : Table) (us : Nat) (c : Commit) (job : String) :
    latestSummary (t.append us c).snapshots job =
      if c.summary.get? JOB = some (.text job) then some c.summary
      else latestSummary t.snapshots job := by
  have h := (t.append us c).ordered
  simp only [Table.append] at h ⊢
  rw [latestSummary_concat h]
  simp [Snapshot.writtenBy]

/-- Compaction commits no position. -/
theorem committedOffsets_compaction (t : Table) (us : Nat)
    (metrics : { m : Summary // m.get? JOB = none }) :
    committedOffsets (t.append us (.compaction metrics)).snapshots =
      committedOffsets t.snapshots := by
  have hnone : (Commit.compaction metrics).summary.get? JOB = none := metrics.2
  rw [committedOffsets, latestSummary_append, hnone, if_neg (by simp)]
  rfl

/-- **The next run resumes from the commit.** -/
theorem committedOffsets_append {args : RunArgs} {world : World} {committed : Offsets}
    {c : RawCommit} (hc : Appends args world committed c) (t : Table) (us : Nat) :
    ∃ read, committedOffsets (t.append us (.stage JOB_INGEST c.position)).snapshots = some read ∧
      ∀ topic partition, read.find? topic partition =
        ((pinned args world committed).ends.find? topic partition).or
          (committed.find? topic partition) := by
  obtain ⟨maxTs, hcommit⟩ := hc.commit
  obtain ⟨read, hdecode, hfind⟩ :=
    find?_decode_encode (mergeCommitted committed (pinned args world committed).ends)
  refine ⟨read, ?_, fun topic partition => by rw [hfind, find?_mergeCommitted]⟩
  have hjob : (Commit.stage JOB_INGEST c.position).summary.get? JOB = some (.text JOB_INGEST) := by
    simp only [Commit.summary, Dict.get?_insert, if_true]
  have hoffsets : (Commit.stage JOB_INGEST c.position).summary.get? KAFKA_OFFSETS =
      some (.offsets (encode (mergeCommitted committed (pinned args world committed).ends))) := by
    rw [hcommit]
    simp only [Commit.summary, rawCommit, Dict.get?_insert]
    rfl
  rw [committedOffsets, latestSummary_append, if_pos hjob]
  simp only [hoffsets, hdecode]

end K2.Lake

import K2Platform.Lib.WriteLock
import K2Platform.Lake.ExactlyOnce

/-!
# Writers behind the lake's lock

Model of `docker/lake/lock.py` and of the writers of `raw.messages` that take its lock:
`ingest.py::main`, which goes away with exit code 2 when the lock is held, and
`maintenance.py::main`, which waits for it.  The file lock is lost with the process that has it.
A process acts one read or one commit at a time, and between any two of its actions other
processes act and the broker moves.  Maintenance is its compaction of the table; its expiry of
snapshots, which can take the position that ingest resumes from, is the matter of `Expiry`.

* `stageRawStep` — `stage_raw` in single actions.
* `Told` — what a run has read and committed so far, told from a state that whole runs reach.
* `interleaved_exactly_once` — whatever the interleaving, the archive is one that whole runs, one
  after the other, leave, and it holds every record once.
-/

set_option autoImplicit false

namespace K2.Lake

open EvictingLog Relation

/-! ## One run in single actions -/

/-- What is fixed of a run before it starts. -/
structure IngestArgs where
  args : RunArgs
  limits : Option Offsets
  auditLands : Bool
  wait : Nat

/-- What a run has read when its ranges are decided. -/
structure Asked where
  snapshots : List Snapshot
  committed : Offsets
  counted : Broker
  startsAt : Broker
  endsAt : Broker

inductive Phase where
  | locked
  | resumed (snapshots : List Snapshot) (committed : Offsets)
  | counted (snapshots : List Snapshot) (committed : Offsets) (counted : Broker)
  | started (snapshots : List Snapshot) (committed : Offsets) (counted startsAt : Broker)
  | asked (a : Asked)
  /-- Nothing is lost, or the losses are on record. -/
  | settled (a : Asked)
  | fetched (commits : List Effect)

section Run

variable (topics : List String) (j : IngestArgs)

def Asked.world (a : Asked) (readAt : Broker) : World :=
  worldOf topics a.snapshots a.counted a.startsAt a.endsAt readAt j.limits j.auditLands

/-- The run does not go on: it may not skip what it lost, or could not record it. -/
def Refuses (a : Asked) : Prop :=
  losses j.args (a.world topics j a.endsAt) a.committed ≠ [] ∧
    (j.args.acceptDataLoss = false ∨ j.auditLands = false)

instance (a : Asked) : Decidable (Refuses topics j a) := inferInstanceAs (Decidable (_ ∧ _))

/-- What is committed before the batch is read. -/
def filed (a : Asked) : List Effect :=
  if losses j.args (a.world topics j a.endsAt) a.committed = [] then []
  else [.fileGaps (gapCommit j.args (a.world topics j a.endsAt) a.committed)]

/-- What is committed after it. -/
def appended (a : Asked) (readAt : Broker) : List Effect :=
  (readAndCommit j.args (a.world topics j readAt) a.committed
    (pinned j.args (a.world topics j readAt) a.committed)).1

def commitAll (commits : List Effect) (s : System) : System :=
  { s with lake := commits.foldl (LakeState.apply j.wait) s.lake }

/-- One action of `stage_raw`. -/
def stageRawStep : Phase → System → Option Phase × System
  | .locked, s =>
    ((committedOffsets s.lake.raw.snapshots).map (.resumed s.lake.raw.snapshots), s)
  | .resumed snapshots committed, s => (some (.counted snapshots committed s.broker), s)
  | .counted snapshots committed counted, s =>
    (some (.started snapshots committed counted s.broker), s)
  | .started snapshots committed counted startsAt, s =>
    (some (.asked ⟨snapshots, committed, counted, startsAt, s.broker⟩), s)
  | .asked a, s =>
    if Refuses topics j a then (none, s)
    else (some (.settled a), commitAll j (filed topics j a) s)
  | .settled a, s => (some (.fetched (appended topics j a s.broker)), s)
  | .fetched commits, s => (none, commitAll j commits s)

end Run

/-! ## The writers -/

/-- A run of maintenance is what its compaction has still to commit to `raw.messages`. -/
inductive Job where
  | ingest (j : IngestArgs) (p : Phase)
  | maintenance (wait : Nat) (compactions : List { m : Summary // m.get? JOB = none })

def writers (topics : List String) : WriteLock.Jobs System BrokerEvent Job where
  env s e := { s with broker := s.broker.step e }
  starts
    | .ingest _ .locked => true
    | .ingest _ _ => false
    | .maintenance _ _ => true
  blocks
    | .ingest _ _ => false
    | .maintenance _ _ => true
  next
    | .ingest j p, s =>
      let r := stageRawStep topics j p s
      (r.1.map (.ingest j), r.2)
    | .maintenance _ [], s => (none, s)
    | .maintenance wait (m :: rest), s =>
      (some (.maintenance wait rest), s.step topics (.compaction wait m))

/-! ## Runs one after the other -/

/-- Whole runs, one after the other, reach this. -/
def Serial (topics : List String) (clock : Int) (s : System) : Prop :=
  ∃ history, System.run topics clock history = s

section Serial

variable {topics : List String} {clock : Int} {s : System} {j : IngestArgs} {a : Asked}

theorem serial_create (topics : List String) (clock : Int) :
    Serial topics clock (System.create clock) := ⟨[], rfl⟩

theorem Serial.step (h : Serial topics clock s) (e : Event) :
    Serial topics clock (s.step topics e) := by
  obtain ⟨history, rfl⟩ := h
  exact ⟨history ++ [e], by simp [System.run]⟩

theorem Serial.moved (h : Serial topics clock s) (es : List BrokerEvent) :
    Serial topics clock { s with broker := s.broker.run es } := by
  induction es generalizing s with
  | nil => exact h
  | cons e es ih => exact ih (h.step (.broker e))

/-- What `a` says was read, each answer after the one before, from a lake that is now `lake`. -/
structure Read (topics : List String) (clock : Int) (a : Asked) (lake : LakeState) : Prop where
  serial : Serial topics clock ⟨a.counted, lake⟩
  snapshots : lake.raw.snapshots = a.snapshots
  decodes : committedOffsets a.snapshots = some a.committed
  starts : ∃ es, a.startsAt = a.counted.run es
  ends : ∃ es, a.endsAt = a.startsAt.run es

/-- The first commits of the run `a` is about, if nothing else has been committed since. -/
theorem Read.commits {lake : LakeState} (h : Read topics clock a lake) (es : List BrokerEvent)
    (survives : Nat) :
    Serial topics clock ⟨a.endsAt.run es,
      ((stageRaw j.args (a.world topics j (a.endsAt.run es))).1.take survives).foldl
        (LakeState.apply j.wait) lake⟩ := by
  obtain ⟨startEvents, hstarts⟩ := h.starts
  obtain ⟨endEvents, hends⟩ := h.ends
  have hstep := h.serial.step (.ingest ⟨j.args, j.limits, j.auditLands, startEvents, endEvents, es,
    j.wait, survives⟩)
  simp only [System.step, IngestRun.world, IngestRun.readAt, IngestRun.endsAt, IngestRun.startsAt,
    ← hstarts, ← hends, h.snapshots] at hstep
  exact hstep

theorem stageRaw_effects (hdecodes : committedOffsets a.snapshots = some a.committed)
    (hgoes : ¬ Refuses topics j a) (readAt : Broker) :
    (stageRaw j.args (a.world topics j readAt)).1 =
      filed topics j a ++ appended topics j a readAt := by
  have hcommitted : committedOffsets (a.world topics j readAt).snapshots = some a.committed :=
    hdecodes
  have hlosses : losses j.args (a.world topics j readAt) a.committed =
      losses j.args (a.world topics j a.endsAt) a.committed := rfl
  unfold stageRaw filed appended pinned
  rw [hcommitted]
  simp only [hlosses]
  by_cases hnil : losses j.args (a.world topics j a.endsAt) a.committed = []
  · simp only [if_pos hnil, List.nil_append]
  · have haccept : j.args.acceptDataLoss ≠ false := fun h => hgoes ⟨hnil, Or.inl h⟩
    have hlands : (a.world topics j readAt).auditLands ≠ false := fun h => hgoes ⟨hnil, Or.inr h⟩
    simp only [if_neg hnil, if_neg haccept, if_neg hlands]
    rfl

theorem serial_filed {lake : LakeState} (h : Read topics clock a lake)
    (hgoes : ¬ Refuses topics j a) (es : List BrokerEvent) :
    Serial topics clock ⟨a.endsAt.run es,
      (filed topics j a).foldl (LakeState.apply j.wait) lake⟩ := by
  have hcommits := h.commits (j := j) es (filed topics j a).length
  rw [stageRaw_effects h.decodes hgoes, List.take_left' rfl] at hcommits
  exact hcommits

end Serial

/-! ## What a run has done so far -/

section Told

variable (topics : List String) (clock : Int)

/-- What a run that is in this phase has read and committed, whatever the broker did since. -/
def Told (j : IngestArgs) : Phase → System → Prop
  | .locked, s => Serial topics clock s
  | .resumed snapshots committed, s => Serial topics clock s ∧
      s.lake.raw.snapshots = snapshots ∧ committedOffsets snapshots = some committed
  | .counted snapshots committed counted, s => Serial topics clock ⟨counted, s.lake⟩ ∧
      s.lake.raw.snapshots = snapshots ∧ committedOffsets snapshots = some committed ∧
        ∃ es, s.broker = counted.run es
  | .started snapshots committed counted startsAt, s => Serial topics clock ⟨counted, s.lake⟩ ∧
      s.lake.raw.snapshots = snapshots ∧ committedOffsets snapshots = some committed ∧
        (∃ es, startsAt = counted.run es) ∧ ∃ es, s.broker = startsAt.run es
  | .asked a, s => Read topics clock a s.lake ∧ ∃ es, s.broker = a.endsAt.run es
  | .settled a, s => ¬ Refuses topics j a ∧ ∃ lake, Read topics clock a lake ∧
      s.lake = (filed topics j a).foldl (LakeState.apply j.wait) lake ∧
        ∃ es, s.broker = a.endsAt.run es
  | .fetched commits, s => Serial topics clock s ∧ Serial topics clock (commitAll j commits s)

variable {topics clock} {j : IngestArgs} {p : Phase} {s : System}

theorem run_concat (b : Broker) (es : List BrokerEvent) (e : BrokerEvent) :
    b.run (es ++ [e]) = (b.run es).step e := by
  simp [Broker.run]

theorem exists_run_step {b b' : Broker} (h : ∃ es, b = b'.run es) (e : BrokerEvent) :
    ∃ es, b.step e = b'.run es := by
  obtain ⟨es, rfl⟩ := h
  exact ⟨es ++ [e], (run_concat b' es e).symm⟩

/-- A run that is killed has left what whole runs leave. -/
theorem Told.serial (h : Told topics clock j p s) : Serial topics clock s := by
  cases p with
  | locked => exact h
  | resumed snapshots committed => exact h.1
  | counted snapshots committed counted =>
    obtain ⟨hserial, -, -, es, hbroker⟩ := h
    have hmoved := hserial.moved es
    simp only [← hbroker] at hmoved
    exact hmoved
  | started snapshots committed counted startsAt =>
    obtain ⟨hserial, -, -, ⟨es, rfl⟩, es', hbroker⟩ := h
    have hmoved := (hserial.moved es).moved es'
    simp only [← hbroker] at hmoved
    exact hmoved
  | asked a =>
    obtain ⟨hread, es, hbroker⟩ := h
    have hcommits := hread.commits (j := j) es 0
    simp only [List.take_zero, List.foldl_nil, ← hbroker] at hcommits
    exact hcommits
  | settled a =>
    obtain ⟨hgoes, lake, hread, hlake, es, hbroker⟩ := h
    have hfiled := serial_filed hread hgoes es
    rw [← hlake, ← hbroker] at hfiled
    exact hfiled
  | fetched commits => exact h.1

theorem Told.moved (h : Told topics clock j p s) (e : BrokerEvent) :
    Told topics clock j p { s with broker := s.broker.step e } := by
  cases p with
  | locked => exact Serial.step h (.broker e)
  | resumed snapshots committed => exact ⟨h.1.step (.broker e), h.2⟩
  | counted snapshots committed counted =>
    obtain ⟨hserial, hsnapshots, hdecodes, hbroker⟩ := h
    exact ⟨hserial, hsnapshots, hdecodes, exists_run_step hbroker e⟩
  | started snapshots committed counted startsAt =>
    obtain ⟨hserial, hsnapshots, hdecodes, hstarts, hbroker⟩ := h
    exact ⟨hserial, hsnapshots, hdecodes, hstarts, exists_run_step hbroker e⟩
  | asked a => exact ⟨h.1, exists_run_step h.2 e⟩
  | settled a =>
    obtain ⟨hgoes, lake, hread, hlake, hbroker⟩ := h
    exact ⟨hgoes, lake, hread, hlake, exists_run_step hbroker e⟩
  | fetched commits => exact ⟨h.1.step (.broker e), h.2.step (.broker e)⟩

/-- **One action of a run.** -/
theorem Told.step (h : Told topics clock j p s) :
    (∀ p', (stageRawStep topics j p s).1 = some p' →
      Told topics clock j p' (stageRawStep topics j p s).2) ∧
      ((stageRawStep topics j p s).1 = none →
        Serial topics clock (stageRawStep topics j p s).2) := by
  cases p with
  | locked =>
    refine ⟨fun p' hp => ?_, fun _ => h⟩
    obtain ⟨committed, hcommitted, rfl⟩ := Option.map_eq_some_iff.1 hp
    exact ⟨h, rfl, hcommitted⟩
  | resumed snapshots committed =>
    refine ⟨fun p' hp => ?_, fun hp => by cases hp⟩
    cases hp
    exact ⟨h.1, h.2.1, h.2.2, [], rfl⟩
  | counted snapshots committed counted =>
    refine ⟨fun p' hp => ?_, fun hp => by cases hp⟩
    cases hp
    exact ⟨h.1, h.2.1, h.2.2.1, h.2.2.2, [], rfl⟩
  | started snapshots committed counted startsAt =>
    refine ⟨fun p' hp => ?_, fun hp => by cases hp⟩
    cases hp
    exact ⟨⟨h.1, h.2.1, h.2.2.1, h.2.2.2.1, h.2.2.2.2⟩, [], rfl⟩
  | asked a =>
    simp only [stageRawStep]
    split
    · exact ⟨fun p' hp => (by cases hp), fun _ => Told.serial (j := j) (p := .asked a) h⟩
    · rename_i hgoes
      refine ⟨fun p' hp => ?_, fun hp => by cases hp⟩
      cases hp
      exact ⟨hgoes, s.lake, h.1, rfl, h.2⟩
  | settled a =>
    refine ⟨fun p' hp => ?_, fun hp => by cases hp⟩
    cases hp
    refine ⟨Told.serial (j := j) (p := .settled a) h, ?_⟩
    obtain ⟨hgoes, lake, hread, hlake, es, hbroker⟩ := h
    have hcommits := hread.commits (j := j) es
      (filed topics j a ++ appended topics j a (a.endsAt.run es)).length
    rw [stageRaw_effects hread.decodes hgoes, List.take_length, List.foldl_append, ← hlake,
      ← hbroker] at hcommits
    exact hcommits
  | fetched commits => exact ⟨fun p' hp => (by cases hp), fun _ => h.2⟩

end Told

/-! ## Any interleaving -/

section Interleaved

variable (topics : List String) (clock : Int)

/-- What holds of the lake and of the job that has the lock. -/
def Explained (s : System) : Option Job → Prop
  | some (.ingest j p) => Told topics clock j p s
  | _ => Serial topics clock s

variable {topics clock}

theorem Explained.serial {s : System} {current : Option Job}
    (h : Explained topics clock s current) : Serial topics clock s := by
  unfold Explained at h
  split at h
  · exact h.serial
  · exact h

theorem Explained.next {s : System} {job : Job} (h : Explained topics clock s (some job)) :
    Explained topics clock ((writers topics).next job s).2 ((writers topics).next job s).1 := by
  cases job with
  | ingest j p =>
    have hstep := Told.step (j := j) (p := p) h
    simp only [writers]
    cases hp : (stageRawStep topics j p s).1 with
    | none => exact hstep.2 hp
    | some p' => exact hstep.1 p' hp
  | maintenance wait compactions =>
    cases compactions with
    | nil => exact h
    | cons m rest => exact Serial.step h (.compaction wait m)

variable {ι : Type} [DecidableEq ι] {c : WriteLock.Config ι System Job}

/-- **The lock serializes the writers.** -/
theorem serial_of_reached
    (h : WriteLock.Reached (writers topics) (System.create clock) c) :
    Serial topics clock c.shared := by
  have hinv := h.invariant (I := Explained topics clock) (serial_create topics clock)
    (fun s current e hs => ?_) (fun s job hstarts hs => ?_) (fun s job hs => hs.next)
    fun s job hs => hs.serial
  · obtain ⟨current, hcurrent⟩ := hinv
    exact hcurrent.serial
  · unfold Explained at hs ⊢
    split at hs
    · exact hs.moved e
    · exact hs.step (.broker e)
  · cases job with
    | ingest j p =>
      cases p with
      | locked => exact hs
      | _ => cases hstarts
    | maintenance wait compactions => exact hs

/-- **Exactly once, whatever the interleaving.**  At every moment of any interleaving of ingest and
    compaction processes, killed anywhere, over a broker that moves, at most one of them runs, the
    lake is one that whole runs leave one after the other, and `raw.messages` holds of each
    partition exactly the offsets from its first start to its committed end that no `offset_gap`
    covers, each once, as long as no snapshot is expired. -/
theorem interleaved_exactly_once
    (h : WriteLock.Reached (writers topics) (System.create clock) c) :
    (∀ i k job job', c.procs i = .running job → c.procs k = .running job' → i = k) ∧
      (∃ history, System.run topics clock history = c.shared) ∧
      ∀ topic partition, (c.shared.lake.offsets topic partition).Nodup ∧
        ∀ committed, c.shared.lake.committed topic partition = some committed →
          ∃ first, c.shared.lake.firstStart topic partition = some first ∧
            ∀ o, o ∈ c.shared.lake.offsets topic partition ↔
              first ≤ o ∧ o < committed ∧ ¬ Covered (c.shared.lake.gaps topic partition) o := by
  refine ⟨fun i k job job' hi hk => h.exclusive hi hk, serial_of_reached h,
    fun topic partition => ?_⟩
  obtain ⟨history, hrun⟩ := serial_of_reached h
  have hsound : Sound topics c.shared := hrun ▸ sound_run topics clock history
  obtain ⟨o, ho⟩ := hsound.standing
  have hexact := hsound.exact topic partition
  refine ⟨hexact.nodup, fun committed hcommitted => ?_⟩
  rw [ho.committed_eq] at hcommitted
  obtain ⟨first, hfirst, hpos⟩ := ho.position_eq hcommitted
  exact ⟨first, hfirst, hexact.mem_iff _ _ (hpos _)⟩

end Interleaved

/-! ## A second ingest, and maintenance -/

def rawTopic : String := "market.crypto.v3.raw.kraken"

def ingestCycle : IngestArgs := ⟨⟨1000, 200000, false, "app-1"⟩, none, true, 5⟩

/-- A second ingest starts while the first runs, and maintenance waits until the first is done, and
    then compacts. -/
def overlapping : List (WriteLock.Move (Fin 3) BrokerEvent Job) :=
  [.env (.addPartition rawTopic), .env (.produce rawTopic 0 ⟨7, none, none, []⟩),
    .opens 0 (.ingest ingestCycle .locked), .opens 1 (.ingest ingestCycle .locked), .locks 0,
    .acts 0, .locks 1, .acts 0, .opens 2 (.maintenance 9 [⟨Dict.empty, rfl⟩]), .acts 0,
    .acts 0, .env (.produce rawTopic 0 ⟨8, none, none, []⟩), .acts 0, .acts 0, .acts 0, .locks 2,
    .acts 2]

def afterOverlap : Option (WriteLock.Config (Fin 3) System Job) :=
  overlapping.foldlM (WriteLock.Config.move (writers [rawTopic]))
    (WriteLock.Config.start (System.create 0))

theorem overlapping_ingests_archive_once :
    ∃ c, afterOverlap = some c ∧ c.owner = some 2 ∧ c.shared.lake.offsets rawTopic 0 = [0] ∧
      ∃ history, System.run [rawTopic] 0 history = c.shared := by
  have hended : afterOverlap.map (fun c => (c.owner, c.shared.lake.offsets rawTopic 0)) =
      some (some 2, [0]) := by decide +kernel
  obtain ⟨c, hc, hshown⟩ := Option.map_eq_some_iff.1 hended
  obtain ⟨howner, hoffsets⟩ := Prod.mk.inj hshown
  exact ⟨c, hc, howner, hoffsets,
    (interleaved_exactly_once (WriteLock.reached_of_schedule .refl hc)).2.1⟩

end K2.Lake

import K2Platform.Lake.Ingest

/-!
# An accepted loss

A run with `--accept-data-loss` records what retention has evicted and resumes past it.  The
record and the new position are two commits, with two early returns between them, so the loss
is settled only when the run also had something to archive.

* `losses_ne_nil_iff`, `readable_iff` — when a run loses something, and when it can read something.
* `accepted_loss_settled_iff` — when the next run is done with an accepted loss.
-/

set_option autoImplicit false

namespace K2.Lake

/-! ## One run over one broker -/

variable (topics : List String)

/-- What a run finds. -/
def here (l : LakeState) (b : Broker) (limits : Option Offsets) (auditLands : Bool) : World :=
  worldOf topics l.raw.snapshots b b b b limits auditLands

/-- The losses a commit records. -/
def Effect.filed : Effect → List Loss
  | .fileGaps c => c.losses
  | .append _ => []

/-- The losses a run has recorded. -/
def reported (effects : List Effect) : List Loss := effects.flatMap Effect.filed

/-- The partition's committed offset is below what the broker still has. -/
def Overtaken (b : Broker) (committed : Offsets) : Prop :=
  ∃ topic ∈ topics, ∃ partition c, committed.find? topic partition = some c ∧
    c ≠ EARLIEST ∧ c ≠ LATEST ∧ c < b.logStart topic partition

/-- Where a run takes a partition up: at its committed offset, or at the log's start if there is
    none or if that is later. -/
def resumePoint (b : Broker) (committed : Offsets) (topic : String) (partition : Nat) : Int :=
  max (resolveStart (b.logStart topic partition) (b.logEnd topic partition)
    ((committed.find? topic partition).getD EARLIEST)) (b.logStart topic partition)

/-- Some partition has a record at or past that point, before the instant of `--end-timestamp` and
    within the bound of one run. -/
def Readable (b : Broker) (committed : Offsets) (maxPerPartition : Int)
    (limits : Option Offsets) : Prop :=
  ∃ topic ∈ topics, ∃ partition log, b.log? topic partition = some log ∧
    ∃ r ∈ log.records, resumePoint b committed topic partition ≤ r.offset ∧
      (∀ u, (limits.map fun u => (u.find? topic partition).getD (-1)) = some u → 0 ≤ u →
        r.offset < u) ∧
      (0 < maxPerPartition → r.offset < resumePoint b committed topic partition + maxPerPartition)

section OneRun

variable {topics} {l : LakeState} {b : Broker} {limits : Option Offsets} {auditLands : Bool}
  {args : RunArgs} {committed : Offsets}

theorem logStart_of_le {topic : String} {partition : Nat} (h : (b topic).length ≤ partition) :
    b.logStart topic partition = 0 := by
  have hnone : b.log? topic partition = none := List.getElem?_eq_none h
  simp [Broker.logStart, hnone]

theorem logEnd_of_le {topic : String} {partition : Nat} (h : (b topic).length ≤ partition) :
    b.logEnd topic partition = 0 := by
  have hnone : b.log? topic partition = none := List.getElem?_eq_none h
  simp [Broker.logEnd, hnone]

theorem firstOffset_here {topic : String} (ht : topic ∈ topics) (partition : Nat) :
    firstOffset (here topics l b limits auditLands).earliest topic partition =
      b.logStart topic partition := by
  rw [here, firstOffset_worldOf]
  split
  · rfl
  · rename_i h
    exact (logStart_of_le (not_lt.1 fun hp => h ⟨ht, hp⟩)).symm

theorem endOfLog_here {topic : String} (ht : topic ∈ topics) (partition : Nat) :
    endOfLog (here topics l b limits auditLands).earliest
      (here topics l b limits auditLands).latest topic partition = b.logEnd topic partition := by
  rw [here, endOfLog_worldOf]
  split
  · rfl
  · rename_i h
    exact (logEnd_of_le (not_lt.1 fun hp => h ⟨ht, hp⟩)).symm

theorem find?_starting_here (topic : String) (partition : Nat) :
    (starting (here topics l b limits auditLands) committed).find? topic partition =
      if topic ∈ topics then
        (committed.find? topic partition).or
          (if partition < (b topic).length then some EARLIEST else none)
      else none :=
  find?_starting_worldOf committed topic partition

theorem startOf_here {topic : String} (ht : topic ∈ topics) (partition : Nat) (offset : Int) :
    startOf (here topics l b limits auditLands).earliest
        (here topics l b limits auditLands).latest topic partition offset =
      resolveStart (b.logStart topic partition) (b.logEnd topic partition) offset := by
  rw [startOf, firstOffset_here ht, endOfLog_here ht]

/-- A run loses something exactly when retention has overtaken a committed offset. -/
theorem losses_ne_nil_iff :
    losses args (here topics l b limits auditLands) committed ≠ [] ↔
      Overtaken topics b committed := by
  constructor
  · intro hne
    obtain ⟨loss, hloss⟩ := List.exists_mem_of_ne_nil _ hne
    obtain ⟨offset, hoff, hlt, _⟩ := mem_losses.1 hloss
    rw [find?_starting_here] at hoff
    split at hoff
    · rename_i ht
      rw [startOf_here ht, firstOffset_here ht, resolveStart] at hlt
      split at hlt
      · exact absurd hlt (lt_irrefl _)
      · rename_i hearliest
        split at hlt
        · exact absurd hlt (not_lt.2 (Broker.logStart_le_logEnd _ _ _))
        · rename_i hlatest
          refine ⟨loss.topic, ht, loss.partition, offset, ?_, hearliest, hlatest, hlt⟩
          cases hc : committed.find? loss.topic loss.partition with
          | some c => rwa [hc, Option.some_or] at hoff
          | none =>
            rw [hc, Option.none_or] at hoff
            split at hoff
            · exact absurd (Option.some.inj hoff).symm hearliest
            · cases hoff
    · cases hoff
  · rintro ⟨topic, ht, partition, c, hc, hearliest, hlatest, hlt⟩
    have hstart : startOf (here topics l b limits auditLands).earliest
        (here topics l b limits auditLands).latest topic partition c = c := by
      rw [startOf, resolveStart, if_neg hearliest, if_neg hlatest]
    refine List.ne_nil_of_mem (a := lossOf (here topics l b limits auditLands).earliest topic
      partition c) (mem_losses.2 ⟨c, ?_, ?_, ?_⟩)
    · simp only [lossOf]
      rw [find?_starting_here, if_pos ht, hc, Option.some_or]
    · simp only [lossOf]
      rw [hstart, firstOffset_here ht]
      exact hlt
    · simp only [lossOf, hstart]

/-! ### When a run appends -/

theorem fetch_ne_nil_iff {starts ends : Offsets} {batch : List Broker.Loaded}
    (h : b.fetch starts ends = some batch) :
    batch ≠ [] ↔ ∃ topic partition start, starts.find? topic partition = some start ∧
      ∃ r, r ∈ b.slice topic partition start ((ends.find? topic partition).getD start) := by
  constructor
  · intro hne
    obtain ⟨x, hx⟩ := List.exists_mem_of_ne_nil _ hne
    have hmem : x ∈ Broker.ofPartition batch x.topic x.partition := by
      simp [Broker.ofPartition, hx]
    rw [Broker.ofPartition_fetch h] at hmem
    cases hs : starts.find? x.topic x.partition with
    | none =>
      rw [hs] at hmem
      cases hmem
    | some start =>
      rw [hs] at hmem
      obtain ⟨r, hr, _⟩ := List.mem_map.1 hmem
      exact ⟨_, _, start, hs, r, hr⟩
  · rintro ⟨topic, partition, start, hs, r, hr⟩
    have hmem : (⟨topic, partition, r⟩ : Broker.Loaded) ∈
        Broker.ofPartition batch topic partition := by
      rw [Broker.ofPartition_fetch h, hs]
      exact List.mem_map_of_mem hr
    exact List.ne_nil_of_mem (List.mem_of_mem_filter (List.mem_of_mem_filter hmem))

theorem mem_brokerSlice {topic : String} {partition : Nat} {start stop : Int} {r : KafkaRecord} :
    r ∈ b.slice topic partition start stop ↔
      ∃ log, b.log? topic partition = some log ∧ r ∈ log.records ∧
        start ≤ r.offset ∧ r.offset < stop := by
  unfold Broker.slice
  cases b.log? topic partition with
  | none => simp
  | some log => simp [PartitionLog.mem_slice]

theorem resumeAt_here {topic : String} (ht : topic ∈ topics) (partition : Nat) (offset : Int) :
    resumeAt (here topics l b limits auditLands) topic partition offset =
      max (resolveStart (b.logStart topic partition) (b.logEnd topic partition) offset)
        (b.logStart topic partition) := by
  rw [resumeAt, startOf_here ht, firstOffset_here ht]

/-- The ranges of a run hold a record exactly when some partition has one to read. -/
theorem readable_iff :
    (∃ topic partition start,
        (pinned args (here topics l b limits auditLands) committed).starts.find? topic partition =
          some start ∧
        ∃ r, r ∈ b.slice topic partition start
          (((pinned args (here topics l b limits auditLands) committed).ends.find? topic
            partition).getD start)) ↔
      Readable topics b committed args.maxPerPartition limits := by
  have hfirst : ∀ t p, 0 ≤ firstOffset (here topics l b limits auditLands).earliest t p :=
    fun t p => firstOffset_worldOf_nonneg t p
  have hslice : ∀ {topic : String} (_ : topic ∈ topics) {partition : Nat} {log : PartitionLog}
      (_ : b.log? topic partition = some log) (offset : Int) {r : KafkaRecord}
      (_ : r ∈ log.records)
      (_ : resumeAt (here topics l b limits auditLands) topic partition offset ≤ r.offset),
      (r.offset < stopAt args (here topics l b limits auditLands) topic partition offset ↔
        (∀ u, (limits.map fun u => (u.find? topic partition).getD (-1)) = some u → 0 ≤ u →
          r.offset < u) ∧
        (0 < args.maxPerPartition → r.offset <
          resumeAt (here topics l b limits auditLands) topic partition offset +
            args.maxPerPartition)) := by
    intro topic ht partition log hlog offset r hr hle
    refine lt_stopOffset_iff hle ?_
    rw [endOfLog_here ht, Broker.logEnd, hlog]
    exact (log.within r hr).2
  constructor
  · rintro ⟨topic, partition, start, hstart, r, hr⟩
    obtain ⟨log, hlog, hmem, hlow, hhigh⟩ := mem_brokerSlice.1 hr
    rw [find?_pinned_ends hfirst] at hhigh
    rw [find?_pinned_starts hfirst] at hstart
    obtain ⟨offset, hoff, rfl⟩ := Option.map_eq_some_iff.1 hstart
    rw [hoff, Option.map_some, Option.getD_some] at hhigh
    rw [find?_starting_here] at hoff
    split at hoff
    · rename_i ht
      have hp : partition < (b topic).length := Broker.exists_log_iff.1 ⟨log, hlog⟩
      have hoffset : offset = (committed.find? topic partition).getD EARLIEST := by
        rw [if_pos hp] at hoff
        cases hc : committed.find? topic partition <;> simp_all
      have hresume : resumeAt (here topics l b limits auditLands) topic partition offset =
          resumePoint b committed topic partition := by
        rw [resumeAt_here ht, resumePoint, hoffset]
      have hbounds := (hslice ht hlog offset hmem hlow).1 hhigh
      rw [hresume] at hlow hbounds
      exact ⟨topic, ht, partition, log, hlog, r, hmem, hlow, hbounds⟩
    · cases hoff
  · rintro ⟨topic, ht, partition, log, hlog, r, hmem, hlow, hbounds⟩
    have hp : partition < (b topic).length := Broker.exists_log_iff.1 ⟨log, hlog⟩
    have hoff : (starting (here topics l b limits auditLands) committed).find? topic partition =
        some ((committed.find? topic partition).getD EARLIEST) := by
      rw [find?_starting_here, if_pos ht, if_pos hp]
      cases committed.find? topic partition <;> rfl
    have hresume : resumeAt (here topics l b limits auditLands) topic partition
        ((committed.find? topic partition).getD EARLIEST) =
          resumePoint b committed topic partition := resumeAt_here ht partition _
    refine ⟨topic, partition, resumePoint b committed topic partition, ?_, r,
      mem_brokerSlice.2 ⟨log, hlog, hmem, hlow, ?_⟩⟩
    · rw [find?_pinned_starts hfirst, hoff, Option.map_some, hresume]
    · rw [← hresume] at hlow hbounds
      rw [find?_pinned_ends hfirst, hoff, Option.map_some, Option.getD_some]
      exact (hslice ht hlog _ hmem hlow).2 hbounds

theorem Readable.of_batch {batch : List Broker.Loaded}
    (h : b.fetch (pinned args (here topics l b limits auditLands) committed).starts
      (pinned args (here topics l b limits auditLands) committed).ends = some batch) :
    batch ≠ [] ↔ Readable topics b committed args.maxPerPartition limits :=
  (fetch_ne_nil_iff h).trans readable_iff

theorem not_readable_of_starts_eq_ends
    (h : (pinned args (here topics l b limits auditLands) committed).starts =
      (pinned args (here topics l b limits auditLands) committed).ends) :
    ¬ Readable topics b committed args.maxPerPartition limits := by
  intro hread
  have hex : ∃ topic partition start,
      (pinned args (here topics l b limits auditLands) committed).starts.find? topic partition =
        some start ∧
      ∃ r, r ∈ b.slice topic partition start
        (((pinned args (here topics l b limits auditLands) committed).ends.find? topic
          partition).getD start) := readable_iff.2 hread
  obtain ⟨topic, partition, start, hstart, r, hr⟩ := hex
  rw [← h, hstart, Option.getD_some] at hr
  obtain ⟨log, _, _, hle, hlt⟩ := mem_brokerSlice.1 hr
  omega

/-- A run that comes back from its read has appended exactly when there was something to read. -/
theorem readAndCommit_returned {n : Nat}
    (h : (readAndCommit args (here topics l b limits auditLands) committed
      (pinned args (here topics l b limits auditLands) committed)).2 = .returned n) :
    ((readAndCommit args (here topics l b limits auditLands) committed
        (pinned args (here topics l b limits auditLands) committed)).1 = [] ∧
      ¬ Readable topics b committed args.maxPerPartition limits) ∨
    ∃ c, Appends args (here topics l b limits auditLands) committed c ∧
      (readAndCommit args (here topics l b limits auditLands) committed
        (pinned args (here topics l b limits auditLands) committed)).1 = [.append c] ∧
      Readable topics b committed args.maxPerPartition limits := by
  unfold readAndCommit at h ⊢
  split
  · rename_i heq
    exact Or.inl ⟨rfl, not_readable_of_starts_eq_ends heq⟩
  · rename_i hne
    rw [if_neg hne] at h
    split at h
    · cases h
    · rename_i batch hfetch
      split
      · rename_i hmax
        refine Or.inl ⟨rfl, fun hread => ?_⟩
        exact (Readable.of_batch hfetch).2 hread (maxKafkaTs_eq_none_iff.1 hmax)
      · rename_i maxTs hmax
        have hbatch : batch ≠ [] := fun hnil => by
          rw [maxKafkaTs_eq_none_iff.2 hnil] at hmax
          cases hmax
        exact Or.inr ⟨_, ⟨hfetch, hbatch, maxTs, rfl⟩, rfl, (Readable.of_batch hfetch).1 hbatch⟩

/-- An accepting run that returns has lost nothing and recorded nothing, or has recorded what it
    lost and appended if there was something to read. -/
theorem accepted_returned {n : Nat} (haccept : args.acceptDataLoss = true)
    (h : (stageRaw args (here topics l b limits auditLands)).2 = .returned n) :
    ∃ committed, committedOffsets l.raw.snapshots = some committed ∧
      ((losses args (here topics l b limits auditLands) committed = [] ∧
          reported (stageRaw args (here topics l b limits auditLands)).1 = []) ∨
        losses args (here topics l b limits auditLands) committed ≠ [] ∧
        ∃ rest, (stageRaw args (here topics l b limits auditLands)).1 =
            .fileGaps (gapCommit args (here topics l b limits auditLands) committed) :: rest ∧
          ((rest = [] ∧ ¬ Readable topics b committed args.maxPerPartition limits) ∨
            ∃ c, Appends args (here topics l b limits auditLands) committed c ∧
              rest = [.append c] ∧ Readable topics b committed args.maxPerPartition limits)) := by
  have hsnapshots : (here topics l b limits auditLands).snapshots = l.raw.snapshots := rfl
  unfold stageRaw at h ⊢
  rw [hsnapshots] at h ⊢
  cases hcommitted : committedOffsets l.raw.snapshots with
  | none =>
    rw [hcommitted] at h
    cases h
  | some committed =>
    rw [hcommitted] at h
    refine ⟨committed, rfl, ?_⟩
    simp only [haccept] at h ⊢
    split
    · rename_i hnil
      refine Or.inl ⟨hnil, ?_⟩
      have hplanned : planned args (here topics l b limits auditLands) committed =
          pinned args (here topics l b limits auditLands) committed := by
        rw [pinned, if_pos hnil]
      rcases readAndCommit_effects hplanned with he | ⟨c, _, he⟩
      · rw [he]
        rfl
      · rw [he]
        rfl
    · rename_i hne
      rw [if_neg hne, if_neg (by decide)] at h
      refine Or.inr ⟨hne, ?_⟩
      have hrepaired : repaired args (here topics l b limits auditLands) committed =
          pinned args (here topics l b limits auditLands) committed := by
        rw [pinned, if_neg hne]
      split at h
      · cases h
      · rename_i hlands
        rw [if_neg (by decide), if_neg hlands]
        rw [hrepaired] at h ⊢
        exact ⟨_, rfl, readAndCommit_returned h⟩

end OneRun

/-! ## The next run -/

/-- Over a broker whose log starts have not moved, the next run without the flag does not stop for
    a partition that was reported, and the next run with it does not record the same range. -/
def Settled (us : Nat) (l : LakeState) (b : Broker) (effects : List Effect) : Prop :=
  ∀ b' : Broker, (∀ topic partition, b'.logStart topic partition = b.logStart topic partition) →
    ∀ (args : RunArgs) (limits : Option Offsets) (auditLands : Bool), ∀ loss ∈ reported effects,
      let next := stageRaw args
        (here topics (effects.foldl (LakeState.apply us) l) b' limits auditLands)
      (args.acceptDataLoss = false → ∀ losses, next.2 = .failOnDataLoss losses →
        ∀ loss' ∈ losses, ¬ (loss'.topic = loss.topic ∧ loss'.partition = loss.partition)) ∧
      (args.acceptDataLoss = true → loss ∉ reported next.1)

section NextRun

variable {topics} {l : LakeState} {b : Broker} {limits : Option Offsets} {auditLands : Bool}
  {args : RunArgs} {committed : Offsets}

theorem readAndCommit_exit (world : World) (read : Bounded) (ls : List Loss) :
    (readAndCommit args world committed read).2 ≠ .failOnDataLoss ls := by
  unfold readAndCommit
  split
  · simp
  · split
    · simp
    · split
      · simp
      · simp

theorem failOnDataLoss_eq {world : World} {ls : List Loss}
    (h : (stageRaw args world).2 = .failOnDataLoss ls) :
    ∃ committed, committedOffsets world.snapshots = some committed ∧
      ls = losses args world committed := by
  unfold stageRaw at h
  split at h
  · cases h
  · rename_i committed hcommitted
    split at h
    · exact absurd h (readAndCommit_exit _ _ _)
    · split at h
      · cases h
        exact ⟨committed, hcommitted, rfl⟩
      · split at h
        · cases h
        · exact absurd h (readAndCommit_exit _ _ _)

theorem Made.mem_losses {world : World} {effects : List Effect}
    (h : Made args world committed effects) {loss : Loss} (hloss : loss ∈ reported effects) :
    loss ∈ losses args world committed := by
  cases h with
  | nothing => cases hloss
  | filed => simpa [reported, Effect.filed, gapCommit] using hloss
  | appended => simp [reported, Effect.filed] at hloss
  | both => simpa [reported, Effect.filed, gapCommit] using hloss

theorem mem_losses_of_mem_reported {world : World} {loss : Loss}
    (h : loss ∈ reported (stageRaw args world).1) :
    ∃ committed, committedOffsets world.snapshots = some committed ∧
      loss ∈ losses args world committed := by
  rcases stageRaw_made args world with hnil | ⟨committed, hcommitted, hmade⟩
  · rw [hnil] at h
    cases h
  · exact ⟨committed, hcommitted, hmade.mem_losses h⟩

/-- What is committed at or past the log's start is not lost. -/
theorem not_lost_of_le {topic : String} {partition : Nat} {c : Int}
    (hc : committed.find? topic partition = some c) (hle : b.logStart topic partition ≤ c)
    {loss : Loss} (hloss : loss ∈ losses args (here topics l b limits auditLands) committed) :
    ¬ (loss.topic = topic ∧ loss.partition = partition) := by
  rintro ⟨rfl, rfl⟩
  obtain ⟨offset, hoff, hlt, _⟩ := mem_losses.1 hloss
  rw [find?_starting_here] at hoff
  split at hoff
  · rename_i ht
    rw [hc, Option.some_or, Option.some.injEq] at hoff
    subst hoff
    have hnonneg : 0 ≤ c := (Broker.logStart_nonneg b _ _).trans hle
    rw [startOf_of_nonneg hnonneg, firstOffset_here ht] at hlt
    omega
  · cases hoff

/-- After the batch is appended, nothing that was reported is below the log's start. -/
theorem settled_of_append {us : Nat} {c : RawCommit}
    (hc : Appends args (here topics l b limits auditLands) committed c) :
    Settled topics us l b
      [.fileGaps (gapCommit args (here topics l b limits auditLands) committed), .append c] := by
  intro b' hb' args' limits' auditLands' loss hloss
  have hlost : loss ∈ losses args (here topics l b limits auditLands) committed := by
    simpa [reported, Effect.filed, gapCommit] using hloss
  obtain ⟨read, hread, hfind⟩ := committedOffsets_append hc l.raw us
  have hfirst : ∀ t p, 0 ≤ firstOffset (here topics l b limits auditLands).earliest t p :=
    fun t p => firstOffset_worldOf_nonneg t p
  obtain ⟨offset, hoff, hlt, _⟩ := mem_losses.1 hlost
  have ht : loss.topic ∈ topics := by
    rw [find?_starting_here] at hoff
    by_contra hnot
    rw [if_neg hnot] at hoff
    cases hoff
  have hnext : read.find? loss.topic loss.partition =
      some (stopAt args (here topics l b limits auditLands) loss.topic loss.partition offset) := by
    rw [hfind, find?_pinned_ends hfirst, hoff, Option.map_some, Option.some_or]
  have hle : b'.logStart loss.topic loss.partition ≤
      stopAt args (here topics l b limits auditLands) loss.topic loss.partition offset := by
    have hresume : firstOffset (here topics l b limits auditLands).earliest loss.topic
        loss.partition ≤
          resumeAt (here topics l b limits auditLands) loss.topic loss.partition offset :=
      le_max_right _ _
    rw [firstOffset_here ht, ← hb'] at hresume
    exact hresume.trans (start_le_stopOffset _ _ _ _)
  have hsnapshots : committedOffsets (here topics ([Effect.fileGaps (gapCommit args
      (here topics l b limits auditLands) committed), .append c].foldl (LakeState.apply us) l) b'
      limits' auditLands').snapshots = some read := hread
  refine ⟨fun _ ls hexit loss' hloss' => ?_, fun _ hagain => ?_⟩
  · obtain ⟨committed', hcommitted', rfl⟩ := failOnDataLoss_eq hexit
    rw [hsnapshots, Option.some.injEq] at hcommitted'
    subst hcommitted'
    exact not_lost_of_le hnext hle hloss'
  · obtain ⟨committed', hcommitted', hmem⟩ := mem_losses_of_mem_reported hagain
    rw [hsnapshots, Option.some.injEq] at hcommitted'
    subst hcommitted'
    exact not_lost_of_le hnext hle hmem ⟨rfl, rfl⟩

/-- With the record filed and nothing appended, the same run without the flag stops. -/
theorem not_settled_of_filed {us : Nat}
    (hcommitted : committedOffsets l.raw.snapshots = some committed)
    (hne : losses args (here topics l b limits auditLands) committed ≠ []) :
    ¬ Settled topics us l b
      [.fileGaps (gapCommit args (here topics l b limits auditLands) committed)] := by
  intro hsettled
  obtain ⟨loss, hloss⟩ := List.exists_mem_of_ne_nil _ hne
  have hreported : loss ∈ reported
      [.fileGaps (gapCommit args (here topics l b limits auditLands) committed)] := by
    simpa [reported, Effect.filed, gapCommit] using hloss
  have hnext := (hsettled b (fun _ _ => rfl) { args with acceptDataLoss := false } limits auditLands
    loss hreported).1 rfl (losses args (here topics l b limits auditLands) committed)
  refine hnext ?_ loss hloss ⟨rfl, rfl⟩
  have hsnapshots : committedOffsets (here topics ([Effect.fileGaps (gapCommit args
      (here topics l b limits auditLands) committed)].foldl (LakeState.apply us) l) b limits
      auditLands).snapshots = some committed := hcommitted
  unfold stageRaw
  rw [hsnapshots]
  have hsame : losses { args with acceptDataLoss := false } (here topics ([Effect.fileGaps
      (gapCommit args (here topics l b limits auditLands) committed)].foldl (LakeState.apply us) l)
      b limits auditLands) committed =
        losses args (here topics l b limits auditLands) committed := rfl
  simp only [hsame]
  rw [if_neg hne, if_pos trivial]

end NextRun

/-- **Accepted losses.**  An accepting run that returns has settled the losses it reported if and
    only if retention had overtaken no committed offset, or some partition had a record to read
    past the point it was resumed at. -/
theorem accepted_loss_settled_iff (us : Nat) (l : LakeState) (b : Broker) (args : RunArgs)
    (limits : Option Offsets) (auditLands : Bool) (haccept : args.acceptDataLoss = true) {n : Nat}
    (hreturned : (stageRaw args (here topics l b limits auditLands)).2 = .returned n) :
    Settled topics us l b (stageRaw args (here topics l b limits auditLands)).1 ↔
      ∀ committed, committedOffsets l.raw.snapshots = some committed →
        ¬ Overtaken topics b committed ∨
          Readable topics b committed args.maxPerPartition limits := by
  obtain ⟨committed, hcommitted, hcases⟩ := accepted_returned haccept hreturned
  have hposition : (∀ o, committedOffsets l.raw.snapshots = some o →
      ¬ Overtaken topics b o ∨ Readable topics b o args.maxPerPartition limits) ↔
        ¬ Overtaken topics b committed ∨
          Readable topics b committed args.maxPerPartition limits := by
    simp only [hcommitted, Option.some.injEq, forall_eq']
  have hlost : losses args (here topics l b limits auditLands) committed ≠ [] ↔
      Overtaken topics b committed := losses_ne_nil_iff
  rw [hposition, ← hlost, not_not]
  rcases hcases with ⟨hnil, hreported⟩ | ⟨hne, rest, heffects, hrest⟩
  · refine ⟨fun _ => Or.inl hnil, fun _ b' _ args' limits' auditLands' loss hloss => ?_⟩
    rw [hreported] at hloss
    cases hloss
  · rw [heffects]
    rcases hrest with ⟨rfl, hunread⟩ | ⟨c, hc, rfl, hread⟩
    · exact ⟨fun h => absurd h (not_settled_of_filed hcommitted hne),
        fun h => absurd h (not_or.2 ⟨hne, hunread⟩)⟩
    · exact ⟨fun _ => Or.inr hread, fun _ => settled_of_append hc⟩

/-! ## A topic that has gone quiet -/

def krakenTopic : String := "market.crypto.v3.raw.kraken"

/-- A lake that has archived the first record of one partition. -/
def archivedOne : LakeState :=
  (LakeState.create 0).apply 0 (.append
    { read := ⟨Dict.empty, Dict.empty, Dict.empty⟩, batch := [], rows := []
      position := Dict.empty.insert KAFKA_OFFSETS
        (.offsets (encode (Dict.empty.insert krakenTopic (Dict.empty.insert 0 1)))) })

/-- One partition that was sent `n` records, of which retention has dropped the first three. -/
def afterRetention (n : Nat) : Broker :=
  Broker.run (fun _ => []) (.addPartition krakenTopic ::
    List.replicate n (.produce krakenTopic 0 ⟨0, none, none, []⟩) ++ [.evict krakenTopic 0 3])

def acceptingRun : RunArgs := ⟨0, 200000, true, "local-1"⟩

/-- With a fourth record still there, the accepting run archives it and is done. -/
theorem accepted_loss_settled_four :
    Settled [krakenTopic] 0 archivedOne (afterRetention 4)
      (stageRaw acceptingRun (here [krakenTopic] archivedOne (afterRetention 4) none true)).1 := by
  have hreturned : (stageRaw acceptingRun
      (here [krakenTopic] archivedOne (afterRetention 4) none true)).2 = .returned 1 := by
    decide +kernel
  refine (accepted_loss_settled_iff [krakenTopic] 0 archivedOne (afterRetention 4) acceptingRun none
    true rfl hreturned).2 fun committed hcommitted => Or.inr ?_
  have hone : committedOffsets archivedOne.raw.snapshots =
      some (Dict.empty.insert krakenTopic (Dict.empty.insert 0 1)) := by decide +kernel
  rw [hone, Option.some.injEq] at hcommitted
  subst hcommitted
  refine ⟨krakenTopic, by decide, 0, (afterRetention 4 krakenTopic).get ⟨0, by decide +kernel⟩,
    rfl, ⟨3, 0, none, none, []⟩, by decide +kernel, by decide +kernel, fun u hu => ?_,
    by decide +kernel⟩
  cases hu

/-- With all three records gone and nothing new, the accepting run records the loss and returns
    without a commit, and the next run stops for the same partition. -/
theorem accepted_loss_unsettled :
    (stageRaw acceptingRun (here [krakenTopic] archivedOne (afterRetention 3) none true)).2 =
        .returned 0 ∧
      ¬ Settled [krakenTopic] 0 archivedOne (afterRetention 3)
        (stageRaw acceptingRun
          (here [krakenTopic] archivedOne (afterRetention 3) none true)).1 := by
  refine ⟨by decide +kernel, fun hsettled => ?_⟩
  have hreported : reported (stageRaw acceptingRun
      (here [krakenTopic] archivedOne (afterRetention 3) none true)).1 =
        [⟨krakenTopic, 0, 1, 3, 2⟩] := by decide +kernel
  have hnext := (hsettled (afterRetention 3) (fun _ _ => rfl)
    { acceptingRun with acceptDataLoss := false } none true ⟨krakenTopic, 0, 1, 3, 2⟩
    (by rw [hreported]; exact List.mem_singleton.2 rfl)).1 rfl [⟨krakenTopic, 0, 1, 3, 2⟩]
  exact hnext (by decide +kernel) _ (List.mem_singleton.2 rfl) ⟨rfl, rfl⟩

end K2.Lake

import K2Platform.Lake.ExactlyOnce

/-!
# The archive against all that was published

`ExactlyOnce` says which offsets `raw.messages` holds; here is what it holds at them.  Retention
takes records away from the broker, so the measure is the logs as they would be without it.

* `published` — everything that was ever sent to a partition, at the offset it was given.
* `Retained.step` — what a broker has is the end of that.
* `Copies.step` — a row is a copy of one of these records.
* `every_record_accounted` — where each of them is.
-/

set_option autoImplicit false

namespace K2.Lake

open EvictingLog

/-! ## Logs without retention -/

def BrokerEvent.isEviction : BrokerEvent → Bool
  | .evict _ _ _ => true
  | _ => false

/-- What the broker does in an event of the system. -/
def Event.brokerEvents : Event → List BrokerEvent
  | .broker e => [e]
  | .compaction _ _ => []
  | .ingest r => r.beforeStarts ++ r.beforeEnds ++ r.beforeRead

namespace Broker

def empty : Broker := fun _ => []

def records (b : Broker) (topic : String) (partition : Nat) : List KafkaRecord :=
  ((b.log? topic partition).map PartitionLog.records).getD []

/-- The events, but for what retention does. -/
def runWhole (whole : Broker) (events : List BrokerEvent) : Broker :=
  whole.run (events.filter fun e => !e.isEviction)

/-- The broker has the ends of these logs. -/
structure Retained (whole b : Broker) : Prop where
  length : ∀ topic, (b topic).length = (whole topic).length
  logs : ∀ topic partition log, b.log? topic partition = some log →
    ∃ all, whole.log? topic partition = some all ∧ log.logEnd = all.logEnd ∧
      log.records <:+ all.records

variable {whole b : Broker}

theorem retained_empty : Retained empty empty :=
  ⟨fun _ => rfl, fun _ _ log h => by simp [empty, log?] at h⟩

theorem Retained.modify (h : Retained whole b) (topic : String) (partition : Nat)
    {f g : PartitionLog → PartitionLog}
    (hfg : ∀ log all : PartitionLog, log.logEnd = all.logEnd → log.records <:+ all.records →
      (f log).logEnd = (g all).logEnd ∧ (f log).records <:+ (g all).records) :
    Retained (Function.update whole topic ((whole topic).modify partition g))
      (Function.update b topic ((b topic).modify partition f)) := by
  refine ⟨fun t => ?_, fun t p log hlog => ?_⟩
  · by_cases ht : t = topic
    · subst ht
      simp [h.length]
    · simp [Function.update_of_ne ht, h.length]
  · rw [log?_modify] at hlog ⊢
    obtain ⟨old, hold, rfl⟩ := Option.map_eq_some_iff.1 hlog
    obtain ⟨all, hall, hend, hsuffix⟩ := h.logs t p old hold
    refine ⟨_, congrArg (Option.map _) hall, ?_⟩
    split
    · exact hfg old all hend hsuffix
    · exact ⟨hend, hsuffix⟩

/-- What is left above a bound of a list in increasing order is its end. -/
theorem suffix_filter_le {records : List KafkaRecord}
    (hsorted : records.Pairwise fun r s => r.offset < s.offset) (bound : Int) :
    (records.filter fun r => bound ≤ r.offset) <:+ records := by
  induction records with
  | nil => exact List.suffix_rfl
  | cons r rest ih =>
    obtain ⟨hr, hrest⟩ := List.pairwise_cons.1 hsorted
    rw [List.filter_cons]
    split
    · rename_i hle
      have hall : ∀ s ∈ rest, decide (bound ≤ s.offset) = true := by
        intro s hs
        have hlt := hr s hs
        simp only [decide_eq_true_eq] at hle ⊢
        omega
      rw [List.filter_eq_self.2 hall]
    · exact (ih hrest).trans (List.suffix_cons r rest)

/-- **One event** of the broker. -/
theorem Retained.step (h : Retained whole b) (e : BrokerEvent) :
    Retained (whole.runWhole [e]) (b.step e) := by
  cases e with
  | addPartition topic =>
    refine ⟨fun t => ?_, fun t p log hlog => ?_⟩
    · show (b.step (.addPartition topic) t).length = (whole.step (.addPartition topic) t).length
      by_cases ht : t = topic
      · subst ht
        simp [Broker.step, h.length]
      · simp [Broker.step, Function.update_of_ne ht, h.length]
    · show ∃ all, (whole.step (.addPartition topic)).log? t p = some all ∧ _
      rw [log?_addPartition] at hlog ⊢
      rw [← h.length]
      split at hlog
      · rename_i hnew
        cases hlog
        exact ⟨_, if_pos hnew, rfl, List.suffix_rfl⟩
      · rename_i hold
        rw [if_neg hold]
        exact h.logs t p log hlog
  | produce topic partition sent =>
    refine h.modify topic partition fun log all hend hsuffix => ⟨?_, ?_⟩
    · show log.logEnd + 1 = all.logEnd + 1
      rw [hend]
    · show log.records ++ [log.stored sent] <:+ all.records ++ [all.stored sent]
      rw [PartitionLog.stored, PartitionLog.stored, hend]
      obtain ⟨evicted, hevicted⟩ := hsuffix
      exact ⟨evicted, by rw [← hevicted, List.append_assoc]⟩
  | evict topic partition upTo =>
    have hsame : whole = Function.update whole topic ((whole topic).modify partition id) := by
      rw [List.modify_id, Function.update_eq_self]
    show Retained whole _
    rw [hsame]
    refine h.modify topic partition fun log all hend hsuffix => ⟨hend, ?_⟩
    exact (suffix_filter_le log.sorted _).trans hsuffix

theorem Retained.run (h : Retained whole b) (events : List BrokerEvent) :
    Retained (whole.runWhole events) (b.run events) := by
  induction events generalizing whole b with
  | nil => exact h
  | cons e events ih =>
    have hrest := ih (h.step e)
    have hwhole : whole.runWhole (e :: events) = (whole.runWhole [e]).runWhole events := by
      rw [runWhole, runWhole, runWhole, run, run, run, ← List.foldl_append, ← List.filter_append]
      rfl
    rw [hwhole]
    exact hrest

theorem mem_records_of_retained (h : Retained whole b) {topic : String} {partition : Nat}
    {r : KafkaRecord} (hr : r ∈ b.records topic partition) : r ∈ whole.records topic partition := by
  unfold records at hr ⊢
  cases hlog : b.log? topic partition with
  | none =>
    rw [hlog] at hr
    cases hr
  | some log =>
    rw [hlog] at hr
    obtain ⟨all, hall, -, hsuffix⟩ := h.logs topic partition log hlog
    rw [hall]
    exact hsuffix.subset hr

/-- Nothing published is ever taken back. -/
theorem records_runWhole (events : List BrokerEvent) :
    ∀ (whole : Broker) (topic : String) (partition : Nat) (r : KafkaRecord),
      r ∈ whole.records topic partition → r ∈ (whole.runWhole events).records topic partition := by
  have hmodify : ∀ (whole : Broker) (t : String) (p : Nat) (sent : PartitionLog.Sent)
      (topic : String) (partition : Nat), ∀ r ∈ whole.records topic partition,
        r ∈ (whole.step (.produce t p sent)).records topic partition := by
    intro whole t p sent topic partition r hr
    unfold records at hr ⊢
    show r ∈ ((log? (Function.update whole t ((whole t).modify p fun log => log.produce sent))
      topic partition).map PartitionLog.records).getD []
    rw [log?_modify]
    cases hlog : whole.log? topic partition with
    | none => rw [hlog] at hr; exact hr
    | some log =>
      rw [hlog] at hr
      simp only [Option.map_some, Option.getD_some] at hr ⊢
      split
      · exact List.mem_append_left _ hr
      · exact hr
  have hadd : ∀ (whole : Broker) (t topic : String) (partition : Nat),
      ∀ r ∈ whole.records topic partition,
        r ∈ (whole.step (.addPartition t)).records topic partition := by
    intro whole t topic partition r hr
    unfold records at hr ⊢
    rw [log?_addPartition]
    split
    · rename_i hnew
      have hnone : whole.log? topic partition = none := by
        rw [hnew.1, hnew.2]
        exact List.getElem?_eq_none le_rfl
      rw [hnone] at hr
      cases hr
    · exact hr
  induction events with
  | nil => exact fun _ _ _ _ hr => hr
  | cons e events ih =>
    intro whole topic partition r hr
    cases e with
    | addPartition t => exact ih _ topic partition r (hadd whole t topic partition r hr)
    | produce t p sent => exact ih _ topic partition r (hmodify whole t p sent topic partition r hr)
    | evict t p upTo => exact ih whole topic partition r hr

end Broker

/-! ## The history of the system -/

/-- Everything that was ever sent, at its offset. -/
def published (history : List Event) : Broker :=
  Broker.empty.runWhole (history.flatMap Event.brokerEvents)

section History

variable {topics : List String} {clock : Int} {history : List Event}

theorem published_append (history : List Event) (e : Event) :
    published (history ++ [e]) = (published history).runWhole e.brokerEvents := by
  rw [published, published, List.flatMap_append, List.flatMap_singleton, Broker.runWhole,
    Broker.runWhole, Broker.runWhole, Broker.run, Broker.run, Broker.run, List.filter_append,
    List.foldl_append]

theorem run_append (topics : List String) (clock : Int) (history : List Event) (e : Event) :
    System.run topics clock (history ++ [e]) = (System.run topics clock history).step topics e := by
  rw [System.run, List.foldl_append]
  rfl

variable (topics) in
theorem broker_step (s : System) (e : Event) :
    (s.step topics e).broker = s.broker.run e.brokerEvents := by
  cases e with
  | broker e => rfl
  | compaction us metrics => rfl
  | ingest r => simp [System.step, IngestRun.readAt, IngestRun.endsAt, IngestRun.startsAt,
      Event.brokerEvents, Broker.run]

theorem retained_history (topics : List String) (clock : Int) (history : List Event) :
    Broker.Retained (published history) (System.run topics clock history).broker := by
  induction history using List.reverseRecOn with
  | nil => exact Broker.retained_empty
  | append_singleton history e ih =>
    rw [published_append, run_append, broker_step]
    exact ih.run e.brokerEvents

/-! ### Rows -/

/-- Every row is a copy of a record that was published. -/
def Copies (whole : Broker) (rows : List RawRow) : Prop :=
  ∀ row ∈ rows, ∃ record ∈ whole.records row.topic row.partition,
    row = rawRow row.ingestTs ⟨row.topic, row.partition, record⟩

theorem Copies.later {whole : Broker} {rows : List RawRow} (h : Copies whole rows)
    (events : List BrokerEvent) : Copies (whole.runWhole events) rows := by
  intro row hrow
  obtain ⟨record, hrecord, heq⟩ := h row hrow
  exact ⟨record, Broker.records_runWhole events whole _ _ record hrecord, heq⟩

theorem mem_records_of_fetch {b : Broker} {starts ends : Offsets} {batch : List Broker.Loaded}
    (h : b.fetch starts ends = some batch) {loaded : Broker.Loaded} (hloaded : loaded ∈ batch) :
    loaded.record ∈ b.records loaded.topic loaded.partition := by
  unfold Broker.fetch at h
  split at h
  · cases h
    obtain ⟨e, -, hloaded⟩ := List.mem_flatMap.1 hloaded
    obtain ⟨s, -, hloaded⟩ := List.mem_flatMap.1 hloaded
    obtain ⟨record, hrecord, rfl⟩ := List.mem_map.1 hloaded
    unfold Broker.records
    unfold Broker.slice at hrecord
    cases hlog : b.log? e.1 s.1 with
    | none => rw [hlog] at hrecord; cases hrecord
    | some log =>
      rw [hlog] at hrecord
      exact (PartitionLog.mem_slice.1 hrecord).1
  · cases h

/-- What a run commits to `raw.messages` is a batch of its last read. -/
theorem rows_of_append {args : RunArgs} {world : World} {c : RawCommit}
    (h : Effect.append c ∈ (stageRaw args world).1) :
    ∃ starts ends batch, world.fetch starts ends = some batch ∧
      c.rows = batch.map (rawRow args.ingestTs) := by
  have happends : ∀ {committed : Offsets} {c : RawCommit}, Appends args world committed c →
      ∃ starts ends batch, world.fetch starts ends = some batch ∧
        c.rows = batch.map (rawRow args.ingestTs) := by
    intro committed c hc
    obtain ⟨maxTs, hcommit⟩ := hc.commit
    refine ⟨_, _, c.batch, hc.fetched, ?_⟩
    rw [hcommit]
    rfl
  rcases stageRaw_made args world with hnil | ⟨committed, -, hmade⟩
  · rw [hnil] at h
    cases h
  · generalize (stageRaw args world).1 = effects at h hmade
    cases hmade with
    | nothing => cases h
    | filed => simp at h
    | appended hnil hc =>
      simp only [List.mem_singleton, Effect.append.injEq] at h
      exact h ▸ happends hc
    | both hc =>
      simp only [List.mem_cons, reduceCtorEq, Effect.append.injEq, List.not_mem_nil, or_false,
        false_or] at h
      exact h ▸ happends hc

theorem rows_foldl_apply (us : Nat) (effects : List Effect) (l : LakeState) :
    ∀ row ∈ (effects.foldl (LakeState.apply us) l).rows, row ∈ l.rows ∨
      ∃ c, Effect.append c ∈ effects ∧ row ∈ c.rows := by
  induction effects generalizing l with
  | nil => exact fun row hrow => Or.inl hrow
  | cons effect effects ih =>
    intro row hrow
    rcases ih (l.apply us effect) row hrow with hrow | ⟨c, hc, hrow⟩
    · cases effect with
      | fileGaps c => exact Or.inl hrow
      | append c =>
        simp only [LakeState.rows, LakeState.apply, List.flatMap_append, List.flatMap_singleton,
          List.mem_append] at hrow
        rcases hrow with hrow | hrow
        · exact Or.inl hrow
        · exact Or.inr ⟨c, List.mem_cons_self, hrow⟩
    · exact Or.inr ⟨c, List.mem_cons_of_mem _ hc, hrow⟩

theorem Copies.step {s : System} {whole : Broker} (h : Copies whole s.lake.rows)
    (hretained : Broker.Retained whole s.broker) (e : Event) :
    Copies (whole.runWhole e.brokerEvents) (s.step topics e).lake.rows := by
  cases e with
  | broker e => exact h.later _
  | compaction us metrics => exact h.later _
  | ingest r =>
    intro row hrow
    have hbroker : r.readAt s.broker = s.broker.run (Event.ingest r).brokerEvents :=
      broker_step topics s (.ingest r)
    rcases rows_foldl_apply r.wait _ s.lake row hrow with hrow | ⟨c, hc, hrow⟩
    · exact h.later _ row hrow
    · obtain ⟨starts, ends, batch, hfetch, hrows⟩ := rows_of_append (List.mem_of_mem_take hc)
      rw [hrows] at hrow
      obtain ⟨loaded, hloaded, rfl⟩ := List.mem_map.1 hrow
      have hread : loaded.record ∈ (r.readAt s.broker).records loaded.topic loaded.partition :=
        mem_records_of_fetch hfetch hloaded
      rw [hbroker] at hread
      exact ⟨loaded.record, Broker.mem_records_of_retained (hretained.run _) hread, rfl⟩

/-- **A row is a copy.** -/
theorem copies_history (topics : List String) (clock : Int) (history : List Event) :
    Copies (published history) (System.run topics clock history).lake.rows := by
  induction history using List.reverseRecOn with
  | nil => exact fun row hrow => by cases hrow
  | append_singleton history e ih =>
    rw [published_append, run_append]
    exact ih.step (retained_history topics clock history) e

theorem offset_inj {whole : Broker} {topic : String} {partition : Nat} {r r' : KafkaRecord}
    (hr : r ∈ whole.records topic partition) (hr' : r' ∈ whole.records topic partition)
    (heq : r.offset = r'.offset) : r = r' := by
  unfold Broker.records at hr hr'
  cases hlog : whole.log? topic partition with
  | none => rw [hlog] at hr; cases hr
  | some log =>
    rw [hlog] at hr hr'
    have hnodup : (log.records.map KafkaRecord.offset).Nodup := by
      rw [List.nodup_iff_pairwise_ne, List.pairwise_map]
      exact log.sorted.imp fun h => ne_of_lt h
    exact List.inj_on_of_nodup_map hnodup hr hr' heq

/-! ### Once each -/

/-- The archive has the offset: it lies between the first start and the committed end, and no
    recorded gap covers it. -/
def Owed (l : LakeState) (topic : String) (partition : Nat) (o : Int) : Prop :=
  ∃ first committed, l.firstStart topic partition = some first ∧
    l.committed topic partition = some committed ∧ first ≤ o ∧ o < committed ∧
      ¬ Covered (l.gaps topic partition) o

theorem mem_offsets_iff {s : System} (h : Sound topics s) (topic : String) (partition : Nat)
    (o : Int) : o ∈ s.lake.offsets topic partition ↔ Owed s.lake topic partition o := by
  obtain ⟨offsets, ho⟩ := h.standing
  have hexact := h.exact topic partition
  have hcommitted := ho.committed_eq topic partition
  cases hc : offsets.find? topic partition with
  | none =>
    have hnil : s.lake.offsets topic partition = [] :=
      (hexact.unbegun (ho.position_eq_none hc s.broker)).1
    rw [hnil]
    constructor
    · intro hmem
      cases hmem
    · rintro ⟨first, committed, -, hsome, -⟩
      rw [hcommitted, hc] at hsome
      cases hsome
  | some c =>
    obtain ⟨first, hfirst, hpos⟩ := ho.position_eq hc
    have hmem : o ∈ s.lake.offsets topic partition ↔
        first ≤ o ∧ o < c ∧ ¬ Covered (s.lake.gaps topic partition) o :=
      hexact.mem_iff _ _ (hpos s.broker) o
    rw [hmem]
    constructor
    · rintro ⟨hlo, hhi, hgap⟩
      exact ⟨first, c, hfirst, hcommitted.trans hc, hlo, hhi, hgap⟩
    · rintro ⟨first', committed, hfirst', hcommitted', hlo, hhi, hgap⟩
      obtain rfl : first = first' := Option.some.inj (hfirst.symm.trans hfirst')
      obtain rfl : c = committed := Option.some.inj ((hcommitted.trans hc).symm.trans hcommitted')
      exact ⟨hlo, hhi, hgap⟩

theorem mem_offsets {l : LakeState} {topic : String} {partition : Nat} {o : Int} :
    o ∈ l.offsets topic partition ↔
      ∃ row ∈ l.rows, row.topic = topic ∧ row.partition = partition ∧ row.offset = o := by
  simp only [LakeState.offsets, List.mem_map, List.mem_filter, Bool.and_eq_true, decide_eq_true_eq,
    and_assoc]

/-- No two rows have the same place in the broker. -/
theorem nodup_places {s : System} (h : Sound topics s) :
    (s.lake.rows.map fun row => (row.topic, row.partition, row.offset)).Nodup := by
  rw [List.nodup_iff_pairwise_ne, List.pairwise_map, List.pairwise_iff_forall_sublist]
  intro a b hab heq
  obtain ⟨htopic, hrest⟩ := Prod.mk.inj heq
  obtain ⟨hpartition, hoffset⟩ := Prod.mk.inj hrest
  have hnodup : (s.lake.offsets a.topic a.partition).Nodup := (h.exact a.topic a.partition).nodup
  have hpair := (hab.filter fun r => r.topic = a.topic && r.partition = a.partition).map
    RawRow.offset
  have hboth : [a, b].filter (fun r => r.topic = a.topic && r.partition = a.partition) = [a, b] := by
    simp [htopic, hpartition]
  rw [hboth] at hpair
  have hne := hnodup.sublist hpair
  simp [hoffset] at hne

/-- The row at a record's place is its copy. -/
theorem copy_of_row {whole : Broker} {rows : List RawRow} (h : Copies whole rows) {row : RawRow}
    (hrow : row ∈ rows) {record : KafkaRecord}
    (hrecord : record ∈ whole.records row.topic row.partition) (hoffset : row.offset = record.offset) :
    row = rawRow row.ingestTs ⟨row.topic, row.partition, record⟩ := by
  obtain ⟨record', hrecord', heq⟩ := h row hrow
  have hsame : record' = record := by
    refine offset_inj hrecord' hrecord ?_
    rw [← hoffset, heq]
    rfl
  exact hsame ▸ heq

/-- **Every record is accounted for.**  After every history of the broker, of runs that may be
    killed, and of compaction: a row of `raw.messages` is a copy, byte for byte, of the one record
    that was ever published at its offset, no two rows are of one record, and a record has a row
    exactly if it lies between the partition's first start and its committed end and no `offset_gap`
    covers it, whatever retention has taken since. -/
theorem every_record_accounted (topics : List String) (clock : Int) (history : List Event) :
    let lake := (System.run topics clock history).lake
    (lake.rows.map fun row => (row.topic, row.partition, row.offset)).Nodup ∧
      (∀ row ∈ lake.rows, ∃ record ∈ (published history).records row.topic row.partition,
        row = rawRow row.ingestTs ⟨row.topic, row.partition, record⟩) ∧
      ∀ topic partition, ∀ record ∈ (published history).records topic partition,
        (∃ ingestTs, rawRow ingestTs ⟨topic, partition, record⟩ ∈ lake.rows) ↔
          Owed lake topic partition record.offset := by
  have hsound := sound_run topics clock history
  have hcopies := copies_history topics clock history
  refine ⟨nodup_places hsound, hcopies, fun topic partition record hrecord => ?_⟩
  rw [← mem_offsets_iff hsound, mem_offsets]
  constructor
  · rintro ⟨ingestTs, hrow⟩
    exact ⟨_, hrow, rfl, rfl, rfl⟩
  · rintro ⟨row, hrow, rfl, rfl, hoffset⟩
    exact ⟨row.ingestTs, copy_of_row hcopies hrow hrecord hoffset ▸ hrow⟩

end History

end K2.Lake

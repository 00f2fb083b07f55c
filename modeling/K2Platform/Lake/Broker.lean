import Mathlib.Data.List.Nodup
import K2Platform.Lake.Offsets

/-!
# The broker

The partition logs that `docker/lake/catalog.py::broker_offsets` asks about and that a batch
read with pinned offsets returns.  A log is evicted at its head and grows at its end; a topic
may be given more partitions.

* `Broker.Moved` — what can have changed between two calls of one run.
* `find?_listOffsets`, `partitionCounts` — the answers of the admin client.
* `offsets_fetch` — the rows a read gives for one partition.
-/

set_option autoImplicit false

namespace K2.Lake

/-! ## Partition logs -/

abbrev Bytes := List UInt8

structure KafkaRecord where
  offset : Int
  timestamp : Int
  key : Option Bytes
  value : Option Bytes
  headers : List (String × Option Bytes)
  deriving DecidableEq

/-- An offset in range need not hold a record: transaction markers take offsets too. -/
structure PartitionLog where
  logStart : Int
  logEnd : Int
  records : List KafkaRecord
  nonneg : 0 ≤ logStart
  start_le_end : logStart ≤ logEnd
  sorted : records.Pairwise fun r s => r.offset < s.offset
  within : ∀ r ∈ records, logStart ≤ r.offset ∧ r.offset < logEnd

namespace PartitionLog

def empty : PartitionLog := ⟨0, 0, [], le_rfl, le_rfl, List.Pairwise.nil, fun _ h => by cases h⟩

/-- What a producer sends. -/
structure Sent where
  timestamp : Int
  key : Option Bytes
  value : Option Bytes
  headers : List (String × Option Bytes)
  deriving DecidableEq

/-- The record a log keeps of what was sent. -/
def stored (log : PartitionLog) (sent : Sent) : KafkaRecord :=
  ⟨log.logEnd, sent.timestamp, sent.key, sent.value, sent.headers⟩

def produce (log : PartitionLog) (sent : Sent) : PartitionLog where
  logStart := log.logStart
  logEnd := log.logEnd + 1
  records := log.records ++ [log.stored sent]
  nonneg := log.nonneg
  start_le_end := by have := log.start_le_end; omega
  sorted := by
    refine List.pairwise_append.2 ⟨log.sorted, List.pairwise_singleton _ _, fun r hr s hs => ?_⟩
    rw [List.mem_singleton.1 hs]
    exact (log.within r hr).2
  within r hr := by
    have hle := log.start_le_end
    rcases List.mem_append.1 hr with hr | hr
    · have := log.within r hr
      omega
    · rw [List.mem_singleton.1 hr]
      exact ⟨hle, Int.lt_add_one_of_le le_rfl⟩

/-- Retention drops what lies below `upTo`. -/
def evict (log : PartitionLog) (upTo : Int) : PartitionLog where
  logStart := max log.logStart (min upTo log.logEnd)
  logEnd := log.logEnd
  records := log.records.filter fun r => max log.logStart (min upTo log.logEnd) ≤ r.offset
  nonneg := log.nonneg.trans (le_max_left _ _)
  start_le_end := max_le log.start_le_end (min_le_right _ _)
  sorted := log.sorted.filter _
  within r hr := by
    obtain ⟨hr, hle⟩ := List.mem_filter.1 hr
    exact ⟨of_decide_eq_true hle, (log.within r hr).2⟩

/-- Every offset in range holds a record. -/
def Gapless (log : PartitionLog) : Prop :=
  ∀ o, log.logStart ≤ o → o < log.logEnd → ∃ r ∈ log.records, r.offset = o

theorem gapless_empty : empty.Gapless := fun o hlo hhi => by
  simp only [empty] at hlo hhi
  omega

theorem Gapless.produce {log : PartitionLog} (h : log.Gapless) (sent : Sent) :
    (log.produce sent).Gapless := by
  intro o hlo hhi
  rcases eq_or_ne o log.logEnd with rfl | hne
  · exact ⟨log.stored sent, List.mem_append_right _ (List.mem_singleton.2 rfl), rfl⟩
  · have hlt : o < log.logEnd := by simp only [PartitionLog.produce] at hhi; omega
    obtain ⟨r, hr, ho⟩ := h o hlo hlt
    exact ⟨r, List.mem_append_left _ hr, ho⟩

theorem Gapless.evict {log : PartitionLog} (h : log.Gapless) (upTo : Int) :
    (log.evict upTo).Gapless := by
  intro o hlo hhi
  obtain ⟨r, hr, ho⟩ := h o ((le_max_left _ _).trans hlo) hhi
  exact ⟨r, List.mem_filter.2 ⟨hr, decide_eq_true (ho ▸ hlo)⟩, ho⟩

/-- The records of `[start, stop)`. -/
def slice (log : PartitionLog) (start stop : Int) : List KafkaRecord :=
  log.records.filter fun r => start ≤ r.offset && r.offset < stop

theorem mem_slice {log : PartitionLog} {start stop : Int} {r : KafkaRecord} :
    r ∈ log.slice start stop ↔ r ∈ log.records ∧ start ≤ r.offset ∧ r.offset < stop := by
  simp [slice]

theorem slice_eq_nil {log : PartitionLog} {start stop : Int} (h : stop ≤ start) :
    log.slice start stop = [] :=
  List.filter_eq_nil_iff.2 fun r _ hr => by
    rw [Bool.and_eq_true, decide_eq_true_eq, decide_eq_true_eq] at hr
    omega

theorem nodup_offsets_slice (log : PartitionLog) (start stop : Int) :
    ((log.slice start stop).map KafkaRecord.offset).Nodup := by
  rw [List.nodup_iff_pairwise_ne, List.pairwise_map]
  exact (log.sorted.filter _).imp fun h => ne_of_lt h

theorem mem_offsets_slice {log : PartitionLog} (h : log.Gapless) {start stop : Int}
    (hstart : log.logStart ≤ start) (hstop : stop ≤ log.logEnd) (o : Int) :
    o ∈ (log.slice start stop).map KafkaRecord.offset ↔ start ≤ o ∧ o < stop := by
  rw [List.mem_map]
  constructor
  · rintro ⟨r, hr, rfl⟩
    exact (mem_slice.1 hr).2
  · rintro ⟨hlo, hhi⟩
    obtain ⟨r, hr, rfl⟩ := h o (hstart.trans hlo) (hhi.trans_le hstop)
    exact ⟨r, mem_slice.2 ⟨hr, hlo, hhi⟩, rfl⟩

end PartitionLog

/-! ## The cluster -/

/-- The partitions of each topic. -/
abbrev Broker := String → List PartitionLog

inductive BrokerEvent where
  | addPartition (topic : String)
  | produce (topic : String) (partition : Nat) (sent : PartitionLog.Sent)
  | evict (topic : String) (partition : Nat) (upTo : Int)

namespace Broker

def log? (b : Broker) (topic : String) (partition : Nat) : Option PartitionLog :=
  (b topic)[partition]?

/-- Zero for a partition that does not exist. -/
def logStart (b : Broker) (topic : String) (partition : Nat) : Int :=
  ((b.log? topic partition).map PartitionLog.logStart).getD 0

def logEnd (b : Broker) (topic : String) (partition : Nat) : Int :=
  ((b.log? topic partition).map PartitionLog.logEnd).getD 0

def step (b : Broker) : BrokerEvent → Broker
  | .addPartition topic => Function.update b topic (b topic ++ [PartitionLog.empty])
  | .produce topic partition sent =>
    Function.update b topic ((b topic).modify partition fun log => log.produce sent)
  | .evict topic partition upTo =>
    Function.update b topic ((b topic).modify partition fun log => log.evict upTo)

def run (b : Broker) (events : List BrokerEvent) : Broker := events.foldl step b

def Gapless (b : Broker) : Prop :=
  ∀ topic partition log, b.log? topic partition = some log → log.Gapless

/-- What can have changed after some events: logs have grown or lost their heads. -/
structure Moved (b b' : Broker) : Prop where
  exist : ∀ topic, (b topic).length ≤ (b' topic).length
  start : ∀ topic partition, b.logStart topic partition ≤ b'.logStart topic partition
  stop : ∀ topic partition, b.logEnd topic partition ≤ b'.logEnd topic partition

theorem Moved.refl (b : Broker) : Moved b b :=
  ⟨fun _ => le_rfl, fun _ _ => le_rfl, fun _ _ => le_rfl⟩

theorem Moved.trans {b b' b'' : Broker} (h : Moved b b') (h' : Moved b' b'') : Moved b b'' :=
  ⟨fun t => (h.exist t).trans (h'.exist t), fun t p => (h.start t p).trans (h'.start t p),
    fun t p => (h.stop t p).trans (h'.stop t p)⟩

theorem exists_log_iff {b : Broker} {topic : String} {partition : Nat} :
    (∃ log, b.log? topic partition = some log) ↔ partition < (b topic).length := by
  rw [log?, ← Option.isSome_iff_exists, isSome_getElem?]

theorem logStart_le_logEnd (b : Broker) (topic : String) (partition : Nat) :
    b.logStart topic partition ≤ b.logEnd topic partition := by
  unfold logStart logEnd
  cases b.log? topic partition with
  | none => exact le_rfl
  | some log => exact log.start_le_end

theorem logStart_nonneg (b : Broker) (topic : String) (partition : Nat) :
    0 ≤ b.logStart topic partition := by
  unfold logStart
  cases b.log? topic partition with
  | none => exact le_rfl
  | some log => exact log.nonneg

/-- Changing one log of one topic. -/
theorem log?_modify (b : Broker) (topic : String) (partition : Nat)
    (f : PartitionLog → PartitionLog) (t : String) (p : Nat) :
    log? (Function.update b topic ((b topic).modify partition f)) t p =
      (b.log? t p).map fun log => if topic = t ∧ partition = p then f log else log := by
  unfold log?
  by_cases ht : topic = t
  · subst ht
    rw [Function.update_self, List.getElem?_modify]
    simp
  · rw [Function.update_of_ne (Ne.symm ht)]
    simp [ht]

theorem moved_modify (b : Broker) (topic : String) (partition : Nat)
    {f : PartitionLog → PartitionLog} (hf : ∀ log, log.logStart ≤ (f log).logStart ∧
      log.logEnd ≤ (f log).logEnd) :
    Moved b (Function.update b topic ((b topic).modify partition f)) := by
  refine ⟨fun t => ?_, fun t p => ?_, fun t p => ?_⟩
  · by_cases ht : t = topic
    · subst ht
      rw [Function.update_self, List.length_modify]
    · rw [Function.update_of_ne ht]
  all_goals
    simp only [logStart, logEnd, log?_modify]
    cases b.log? t p with
    | none => exact le_rfl
    | some log =>
      simp only [Option.map_some, Option.getD_some]
      split
      · first | exact (hf log).1 | exact (hf log).2
      · exact le_rfl

theorem gapless_modify {b : Broker} (h : b.Gapless) (topic : String) (partition : Nat)
    {f : PartitionLog → PartitionLog} (hf : ∀ log : PartitionLog, log.Gapless → (f log).Gapless) :
    Gapless (Function.update b topic ((b topic).modify partition f)) := by
  intro t p log hlog
  rw [log?_modify] at hlog
  obtain ⟨old, hold, rfl⟩ := Option.map_eq_some_iff.1 hlog
  split
  · exact hf old (h t p old hold)
  · exact h t p old hold

/-- A new partition is empty and starts at zero, and the others keep their numbers. -/
theorem log?_addPartition (b : Broker) (topic : String) (t : String) (p : Nat) :
    (b.step (.addPartition topic)).log? t p =
      if t = topic ∧ p = (b topic).length then some PartitionLog.empty else b.log? t p := by
  unfold step log?
  by_cases ht : t = topic
  · subst ht
    simp only [Function.update_self, true_and]
    rcases lt_trichotomy p (b t).length with hp | hp | hp
    · rw [if_neg hp.ne, List.getElem?_append_left hp]
    · rw [if_pos hp, hp, List.getElem?_concat_length]
    · rw [if_neg hp.ne', List.getElem?_eq_none (by simp; omega), List.getElem?_eq_none hp.le]
  · simp only [Function.update_of_ne ht]
    rw [if_neg fun h => ht h.1]

theorem moved_addPartition (b : Broker) (topic : String) :
    Moved b (b.step (.addPartition topic)) := by
  have hnone : ∀ t p, t = topic ∧ p = (b topic).length → b.log? t p = none := by
    rintro t p ⟨rfl, rfl⟩
    exact List.getElem?_eq_none le_rfl
  refine ⟨fun t => ?_, fun t p => ?_, fun t p => ?_⟩
  · by_cases ht : t = topic
    · subst ht
      simp [step]
    · simp [step, Function.update_of_ne ht]
  all_goals
    simp only [logStart, logEnd, log?_addPartition]
    split
    · rename_i hnew
      rw [hnone t p hnew]
      exact le_rfl
    · exact le_rfl

theorem moved_step (b : Broker) (e : BrokerEvent) : Moved b (b.step e) := by
  cases e with
  | addPartition topic => exact moved_addPartition b topic
  | produce topic partition sent =>
    exact moved_modify b topic partition fun log => ⟨le_rfl, Int.le_add_one le_rfl⟩
  | evict topic partition upTo =>
    exact moved_modify b topic partition fun log => ⟨le_max_left _ _, le_rfl⟩

theorem Gapless.step {b : Broker} (h : b.Gapless) (e : BrokerEvent) : (b.step e).Gapless := by
  cases e with
  | addPartition topic =>
    intro t p log hlog
    rw [log?_addPartition] at hlog
    split at hlog
    · cases hlog
      exact PartitionLog.gapless_empty
    · exact h t p log hlog
  | produce topic partition sent =>
    exact gapless_modify h topic partition fun log hlog => hlog.produce sent
  | evict topic partition upTo =>
    exact gapless_modify h topic partition fun log hlog => hlog.evict upTo

theorem moved_run (b : Broker) : ∀ events : List BrokerEvent, Moved b (b.run events)
  | [] => Moved.refl b
  | e :: events => (moved_step b e).trans (moved_run (b.step e) events)

theorem Gapless.run {b : Broker} (h : b.Gapless) : ∀ events : List BrokerEvent,
    (b.run events).Gapless := by
  intro events
  induction events generalizing b with
  | nil => exact h
  | cons e events ih => exact ih (h.step e)

/-! ### The admin client -/

/-- `list_offsets`: one answer for each partition that `describeTopics` counted. -/
def listOffsets (topics : List String) (counted asked : Broker)
    (spec : Broker → String → Nat → Int) : Offsets :=
  Dict.ofKeys topics fun topic => Dict.ofKeys (List.range (counted topic).length) (spec asked topic)

theorem find?_listOffsets (topics : List String) (counted asked : Broker)
    (spec : Broker → String → Nat → Int) (topic : String) (partition : Nat) :
    (listOffsets topics counted asked spec).find? topic partition =
      if topic ∈ topics ∧ partition < (counted topic).length then some (spec asked topic partition)
      else none := by
  unfold listOffsets Offsets.find?
  rw [Dict.get?_ofKeys]
  by_cases ht : topic ∈ topics
  · rw [if_pos ht, Option.bind_some, Dict.get?_ofKeys]
    simp [ht]
  · rw [if_neg ht, if_neg fun h => ht h.1, Option.bind_none]

/-! ### Reading -/

/-- A row of the Kafka source. -/
structure Loaded where
  topic : String
  partition : Nat
  record : KafkaRecord
  deriving DecidableEq

def slice (b : Broker) (topic : String) (partition : Nat) (start stop : Int) :
    List KafkaRecord :=
  ((b.log? topic partition).map fun log => log.slice start stop).getD []

/-- `failOnDataLoss=true`: every range that is not empty begins at an offset the log still has. -/
def fetchable (b : Broker) (starts ends : Offsets) : Bool :=
  starts.entries.all fun e => e.2.entries.all fun s =>
    decide ((ends.find? e.1 s.1).getD s.2 ≤ s.2) ||
      (b.log? e.1 s.1).any fun log => log.logStart ≤ s.2

def fetchPartition (b : Broker) (ends : Offsets) (topic : String) (partition : Nat)
    (start : Int) : List Loaded :=
  (b.slice topic partition start ((ends.find? topic partition).getD start)).map
    fun r => ⟨topic, partition, r⟩

def fetchTopic (b : Broker) (ends : Offsets) (topic : String) (parts : Dict Nat Int) :
    List Loaded :=
  parts.entries.flatMap fun s => b.fetchPartition ends topic s.1 s.2

/-- A batch read pinned at both ends; `none` where Spark raises. -/
def fetch (b : Broker) (starts ends : Offsets) : Option (List Loaded) :=
  if b.fetchable starts ends then
    some (starts.entries.flatMap fun e => b.fetchTopic ends e.1 e.2)
  else none

/-- What a batch holds of one partition. -/
def ofPartition (batch : List Loaded) (topic : String) (partition : Nat) : List Loaded :=
  (batch.filter fun r => r.topic = topic).filter fun r => r.partition = partition

theorem fetchable_of_fetch {b : Broker} {starts ends : Offsets} {batch : List Loaded}
    (h : b.fetch starts ends = some batch) {topic : String} {partition : Nat} {start stop : Int}
    (hstart : starts.find? topic partition = some start)
    (hstop : ends.find? topic partition = some stop) (hlt : start < stop) :
    ∃ log, b.log? topic partition = some log ∧ log.logStart ≤ start := by
  unfold fetch at h
  split at h
  · rename_i hf
    obtain ⟨parts, htopic, hpart⟩ := Option.bind_eq_some_iff.1 hstart
    have hall := List.all_eq_true.1 (List.all_eq_true.1 hf _ (Dict.get?_eq_some_iff.1 htopic)) _
      (Dict.get?_eq_some_iff.1 hpart)
    simp only [hstop, Option.getD_some, Bool.or_eq_true, decide_eq_true_eq,
      Option.any_eq_true] at hall
    rcases hall with hle | ⟨log, hlog, hle⟩
    · omega
    · exact ⟨log, hlog, hle⟩
  · cases h

theorem ofPartition_fetch {b : Broker} {starts ends : Offsets} {batch : List Loaded}
    (h : b.fetch starts ends = some batch) (topic : String) (partition : Nat) :
    ofPartition batch topic partition =
      ((starts.find? topic partition).map (b.fetchPartition ends topic partition)).getD [] := by
  have hpartition : ∀ (t : String) (p : Nat) (start : Int), ∀ r ∈ b.fetchPartition ends t p start,
      r.topic = t ∧ r.partition = p := by
    intro t p start r hr
    obtain ⟨_, _, rfl⟩ := List.mem_map.1 hr
    exact ⟨rfl, rfl⟩
  have htopic : ∀ (t : String) (parts : Dict Nat Int), ∀ r ∈ b.fetchTopic ends t parts,
      r.topic = t := by
    intro t parts r hr
    obtain ⟨s, _, hr⟩ := List.mem_flatMap.1 hr
    exact (hpartition t s.1 s.2 r hr).1
  unfold fetch at h
  split at h
  · cases h
    unfold ofPartition Offsets.find?
    rw [Dict.filter_flatMap_entries Loaded.topic (b.fetchTopic ends) htopic]
    cases starts.get? topic with
    | none => rfl
    | some parts =>
      exact Dict.filter_flatMap_entries Loaded.partition (b.fetchPartition ends topic)
        (fun p start r hr => (hpartition topic p start r hr).2) parts partition
  · cases h

/-- Where the log has no holes, a read gives each offset of the range once. -/
theorem offsets_fetch {b : Broker} (hb : b.Gapless) {starts ends : Offsets} {batch : List Loaded}
    (h : b.fetch starts ends = some batch) {topic : String} {partition : Nat} {start stop : Int}
    (hstart : starts.find? topic partition = some start)
    (hstop : ends.find? topic partition = some stop) (hend : stop ≤ b.logEnd topic partition) :
    ((ofPartition batch topic partition).map fun r => r.record.offset).Nodup ∧
      ∀ o, o ∈ (ofPartition batch topic partition).map (fun r => r.record.offset) ↔
        start ≤ o ∧ o < stop := by
  rw [ofPartition_fetch h, hstart, Option.map_some, Option.getD_some, fetchPartition, hstop,
    Option.getD_some, List.map_map]
  rcases lt_or_ge start stop with hlt | hge
  · obtain ⟨log, hlog, hle⟩ := fetchable_of_fetch h hstart hstop hlt
    have hslice : b.slice topic partition start stop = log.slice start stop := by
      simp [slice, hlog]
    have hend' : stop ≤ log.logEnd := by simpa [logEnd, hlog] using hend
    rw [hslice]
    exact ⟨log.nodup_offsets_slice start stop,
      PartitionLog.mem_offsets_slice (hb _ _ _ hlog) hle hend'⟩
  · have hnil : b.slice topic partition start stop = [] := by
      unfold slice
      cases b.log? topic partition with
      | none => rfl
      | some log => exact PartitionLog.slice_eq_nil hge
    rw [hnil]
    exact ⟨List.nodup_nil, fun o => ⟨fun ho => absurd ho List.not_mem_nil, fun ho => by omega⟩⟩

theorem ofPartition_fetch_of_none {b : Broker} {starts ends : Offsets} {batch : List Loaded}
    (h : b.fetch starts ends = some batch) {topic : String} {partition : Nat}
    (hstart : starts.find? topic partition = none) : ofPartition batch topic partition = [] := by
  rw [ofPartition_fetch h, hstart]
  rfl

end Broker

end K2.Lake

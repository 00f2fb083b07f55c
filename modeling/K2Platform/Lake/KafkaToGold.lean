import K2Platform.Lake.ArchivedRecords
import K2Platform.Lake.TradePipeline

/-!
# From the broker's log to `gold.trades`

Stage 1 and the stages above it as one system: `raw.messages` is what runs of `stage_raw` and
compaction make of it over a broker that moves, snapshot by snapshot, and the stages read those
snapshots.  Any run of any of them may be killed, and they come in any order.

* `Lakehouse.stage1` — an event of stage 1 as a commit to the table that the stages read.
* `Mirrors.step` — that table is the archive.
* `kafka_to_gold` — what becomes of everything that was ever published.
-/

set_option autoImplicit false

namespace K2.Lake.Pipeline

open Bronze (Readers)
open SilverTrades (SparkText TradeColumns source)
open Relation

/-! ## `raw.messages` by snapshot -/

/-- The snapshot that an event adds, if it adds one. -/
def addedSnapshot (id : Nat) (before after : LakeState) : DataTable RawRow :=
  (after.raw.snapshots.drop before.raw.snapshots.length).map fun s =>
    ⟨id, s.committedAt, s.summary, after.rows.drop before.rows.length⟩

/-- The table that the stages read is the archive. -/
structure Mirrors (raw : DataTable RawRow) (lake : LakeState) : Prop where
  rows : raw.rows = lake.rows
  history : raw.history = lake.raw.snapshots

/-- An event commits to `raw.messages` once at most. -/
inductive Added (before after : LakeState) : Prop
  | nothing (snapshots : after.raw.snapshots = before.raw.snapshots)
      (rows : after.rows = before.rows)
  | one (s : Snapshot) (more : List RawRow)
      (snapshots : after.raw.snapshots = before.raw.snapshots ++ [s])
      (rows : after.rows = before.rows ++ more)

section Stage1

variable {topics : List String} {s : System}

/-- What is filed in `audit.checks` before the append does not matter. -/
theorem added_append (l : LakeState) (audit : List GapCommit) (us : Nat) (c : RawCommit) :
    Added l (({ l with audit := audit } : LakeState).apply us (.append c)) := by
  refine .one ⟨l.raw.clock + us + 1, (Commit.stage JOB_INGEST c.position).summary⟩ c.rows rfl ?_
  simp [LakeState.rows, LakeState.apply]

variable (topics) in
/-- **One event.** -/
theorem added_step (s : System) (e : Event) : Added s.lake (s.step topics e).lake := by
  cases e with
  | broker e => exact .nothing rfl rfl
  | compaction us metrics => exact .one _ [] rfl (List.append_nil _).symm
  | ingest r =>
    have hmade : ∀ {o : Offsets} {effects : List Effect},
        Made r.args (r.world topics s) o effects →
          Added s.lake (effects.foldl (LakeState.apply r.wait) s.lake) := by
      intro o effects hmade
      cases hmade with
      | nothing => exact .nothing rfl rfl
      | filed => exact .nothing rfl rfl
      | appended hnil hc => exact added_append s.lake s.lake.audit r.wait _
      | both hc => exact added_append s.lake _ r.wait _
    rcases stageRaw_made r.args (r.world topics s) with hnil | ⟨o, -, h⟩
    · refine .nothing ?_ ?_ <;> simp [System.step, hnil]
    · exact hmade (h.take r.survives)

theorem Mirrors.step {raw : DataTable RawRow} {before after : LakeState} (h : Mirrors raw before)
    (hadded : Added before after) (id : Nat) :
    Mirrors (raw ++ addedSnapshot id before after) after := by
  cases hadded with
  | nothing hsnapshots hrows =>
    have hnil : addedSnapshot id before after = [] := by
      rw [addedSnapshot, hsnapshots, List.drop_length]
      rfl
    rw [hnil, List.append_nil]
    exact ⟨h.rows.trans hrows.symm, h.history.trans hsnapshots.symm⟩
  | one s more hsnapshots hrows =>
    have hone : addedSnapshot id before after = [⟨id, s.committedAt, s.summary, more⟩] := by
      rw [addedSnapshot, hsnapshots, hrows, List.drop_left, List.drop_left]
      rfl
    rw [hone]
    constructor
    · rw [DataTable.rows_append, h.rows, hrows, DataTable.rows, List.flatMap_singleton]
    · rw [DataTable.history_append, h.history, hsnapshots]
      rfl

/-- A table with a new id is valid, since commits to the archive are serialised. -/
theorem Mirrors.valid {raw : DataTable RawRow} {before after : LakeState} (h : Mirrors raw before)
    (hids : (raw.map DataSnapshot.id).Nodup) (hadded : Added before after) {id : Nat}
    (hnew : ∀ s ∈ raw, s.id ≠ id) :
    DataTable.Valid (raw ++ addedSnapshot id before after) := by
  refine ⟨?_, ?_⟩
  · rw [List.map_append, List.nodup_append]
    refine ⟨hids, ?_, fun a ha b hb => ?_⟩
    · cases hadded with
      | nothing hsnapshots _ => simp [addedSnapshot, hsnapshots]
      | one s more hsnapshots _ => simp [addedSnapshot, hsnapshots]
    · obtain ⟨s, hs, rfl⟩ := List.mem_map.1 ha
      obtain ⟨t, ht, rfl⟩ := List.mem_map.1 hb
      obtain ⟨_, _, rfl⟩ := List.mem_map.1 ht
      exact hnew s hs
  · rw [(h.step hadded id).history]
    exact after.raw.ordered

end Stage1

/-! ## The whole lake -/

/-- What has happened to the broker and in stage 1, and the tables. -/
structure Lakehouse (J : Type) where
  events : List Event
  tables : State J

section Steps

variable {J : Type} (topics : List String) (clock : Int)

def Lakehouse.create : Lakehouse J := ⟨[], State.start⟩

def Lakehouse.system (l : Lakehouse J) : System := System.run topics clock l.events

/-- An event of stage 1; a commit that it makes is given this id. -/
def Lakehouse.stage1 (l : Lakehouse J) (e : Event) (id : Nat) : Lakehouse J where
  events := l.events ++ [e]
  tables := { l.tables with
    raw := l.tables.raw ++ addedSnapshot id (l.system topics clock).lake
      ((l.system topics clock).step topics e).lake }

variable (readers : Readers J) (spark : SparkText) (columns : TradeColumns J)

inductive LakehouseStep : Lakehouse J → Lakehouse J → Prop
  | stage1 {l : Lakehouse J} (e : Event) (id : Nat) : (∀ s ∈ l.tables.raw, s.id ≠ id) →
      LakehouseStep l (l.stage1 topics clock e id)
  | stages {l : Lakehouse J} {next : State J} : Step readers spark columns l.tables next →
      next.raw = l.tables.raw → LakehouseStep l { l with tables := next }

def LakehouseReached (l : Lakehouse J) : Prop :=
  ReflTransGen (LakehouseStep topics clock readers spark columns) Lakehouse.create l

end Steps

section Reached

variable {J : Type} {topics : List String} {clock : Int} {readers : Readers J} {spark : SparkText}
  {columns : TradeColumns J} {l l' : Lakehouse J}

/-- The archive is sound, the stages read it, and are in a state that they reach. -/
structure Layered (topics : List String) (clock : Int) (readers : Readers J) (spark : SparkText)
    (columns : TradeColumns J) (l : Lakehouse J) : Prop where
  mirrors : Mirrors l.tables.raw (l.system topics clock).lake
  valid : l.tables.raw.Valid
  reached : Reached readers spark columns l.tables

theorem Layered.step (h : Layered topics clock readers spark columns l)
    (hstep : LakehouseStep topics clock readers spark columns l l') :
    Layered topics clock readers spark columns l' := by
  cases hstep with
  | stage1 e id hnew =>
    have hadded := added_step topics (l.system topics clock) e
    have hvalid := h.mirrors.valid h.valid.ids hadded hnew
    refine ⟨?_, hvalid, h.reached.tail ?_⟩
    · show Mirrors _ (System.run topics clock (l.events ++ [e])).lake
      rw [run_append]
      exact h.mirrors.step hadded id
    · have hgrow : Bronze.Step readers l.tables.bronzeState
          { l.tables.bronzeState with raw := (l.stage1 topics clock e id).tables.raw } :=
        .grow _ (List.prefix_append _ _) hvalid
      exact Step.bronze hgrow
  | stages hnext hraw =>
    refine ⟨?_, ?_, h.reached.tail hnext⟩
    · show Mirrors _ _
      rw [hraw]
      exact h.mirrors
    · rw [hraw]
      exact h.valid

/-- Events of stage 1, one after the other; the id is new whenever one of them comes. -/
theorem reached_events (id : Nat) : ∀ {events : List Event} {l : Lakehouse J},
    LakehouseReached topics clock readers spark columns l →
      (∀ k < events.length, ∀ s ∈ ((events.take k).foldl
        (fun l e => l.stage1 topics clock e id) l).tables.raw, s.id ≠ id) →
      LakehouseReached topics clock readers spark columns
        (events.foldl (fun l e => l.stage1 topics clock e id) l)
  | [], _, h, _ => h
  | e :: events, l, h, hnew => by
    have hfirst : ∀ s ∈ l.tables.raw, s.id ≠ id := hnew 0 (Nat.succ_pos _)
    have hnext : LakehouseReached topics clock readers spark columns
      (l.stage1 topics clock e id) := h.tail (.stage1 e id hfirst)
    rw [List.foldl_cons]
    exact reached_events id hnext fun k hk => hnew (k + 1) (Nat.succ_lt_succ hk)

theorem reached_bronze (h : LakehouseReached topics clock readers spark columns l)
    {next : Bronze.State J} (hstep : Bronze.Step readers l.tables.bronzeState next)
    (hraw : next.raw = l.tables.raw) :
    LakehouseReached topics clock readers spark columns { l with tables := { l.tables with
      raw := next.raw, bronze := next.bronze, decodedWith := next.decodedWith } } :=
  h.tail (.stages (Step.bronze hstep) hraw)

theorem reached_silver (h : LakehouseReached topics clock readers spark columns l)
    {next : SilverTrades.State J} (hstep : SilverTrades.Step spark columns l.tables.silverState next)
    (hbronze : next.bronze = l.tables.bronze) :
    LakehouseReached topics clock readers spark columns { l with tables := { l.tables with
      silver := next.silver, typedWith := next.typedWith } } :=
  h.tail (.stages (Step.silver hstep hbronze) rfl)

theorem reached_taken (h : LakehouseReached topics clock readers spark columns l)
    {gold : DataTable GoldTrade}
    (hstep : Recorded.Step l.tables.goldState { l.tables.goldState with gold := gold }) :
    LakehouseReached topics clock readers spark columns
      { l with tables := { l.tables with gold := gold } } :=
  h.tail (.stages (Step.gold hstep rfl) rfl)

theorem layered_of_reached (h : LakehouseReached topics clock readers spark columns l) :
    Layered topics clock readers spark columns l := by
  induction h with
  | refl => exact ⟨⟨rfl, rfl⟩, ⟨List.nodup_nil, List.Pairwise.nil⟩, ReflTransGen.refl⟩
  | tail _ hstep ih => exact ih.step hstep

/-- **From the broker to gold.**  In every state reached: no delivery is in `gold.trades` twice; a
    row of it is a trade of a record that was published and is due in the archive, decoded from the
    bytes that were sent; and once the stages have caught up, every record that is due has been
    through the decode, with what the registry answered its run, and each trade of a frame that came
    out is in silver, and in gold unless it is flagged as a replay. -/
theorem kafka_to_gold (h : LakehouseReached topics clock readers spark columns l)
    (hcounted : ∀ b ∈ (l.tables.bronze .coinbaseMarketTrades).rows,
      (SilverTrades.marketTradesFrame columns b).Counted) :
    (l.tables.gold.rows.map goldDelivery).Nodup ∧
    (∀ g ∈ l.tables.gold.rows, ∃ topic partition,
      ∃ record ∈ (published l.events).records topic partition,
        Owed (l.system topics clock).lake topic partition record.offset ∧
          ∃ ingestTs, TradeOf readers spark columns l.tables
            (rawRow ingestTs ⟨topic, partition, record⟩) g) ∧
    ∀ v, Drained l.tables v → ∀ topic partition,
      ∀ record ∈ (published l.events).records topic partition,
        Owed (l.system topics clock).lake topic partition record.offset →
          ∃ ingestTs, Carried readers spark columns l.tables v
            (rawRow ingestTs ⟨topic, partition, record⟩) := by
  obtain ⟨hmirrors, -, hreached⟩ := layered_of_reached h
  have hlayers := layers_of_reached hreached
  have hsound : Sound topics (l.system topics clock) := sound_run topics clock l.events
  have hcopies : Copies (published l.events) (l.system topics clock).lake.rows :=
    copies_history topics clock l.events
  have hraw : (l.tables.raw.rows.map coordinates).Nodup := by
    rw [hmirrors.rows]
    exact nodup_places hsound
  refine ⟨hlayers.nodup_gold hraw hcounted, fun g hg => ?_,
    fun v hdrained topic partition record hrecord hdue => ?_⟩
  · obtain ⟨row, hrow, htrade⟩ := hlayers.tradeOf hg
    rw [hmirrors.rows] at hrow
    obtain ⟨record, hrecord, heq⟩ := hcopies row hrow
    refine ⟨row.topic, row.partition, record, hrecord, ?_, row.ingestTs, heq ▸ htrade⟩
    have hoffset : row.offset = record.offset := by
      rw [heq]
      rfl
    rw [← mem_offsets_iff hsound, mem_offsets]
    exact ⟨row, hrow, rfl, rfl, hoffset⟩
  · rw [← mem_offsets_iff hsound, mem_offsets] at hdue
    obtain ⟨row, hrow, rfl, rfl, hoffset⟩ := hdue
    have hcopy := copy_of_row hcopies hrow hrecord hoffset
    rw [← hmirrors.rows] at hrow
    exact ⟨row.ingestTs, hcopy ▸ hlayers.carried hdrained hrow⟩

end Reached

/-! ## Six trades, from the broker to gold -/

def tradeTopics : List String := ["market.crypto.v3.raw.coinbase", "market.crypto.v3.raw.kraken"]

/-- What a producer sends of a record. -/
def produced (r : K2.Capture.RawMessageRecord) : Event :=
  .broker (.produce ("market.crypto.v3.raw." ++ r.exchange) 0
    ⟨1000, none, some ([0, 0, 0, 0, 3] ++ K2.Capture.avroRaw r), []⟩)

/-- The partitions are created, three trade frames are sent, and a run archives them. -/
def tradeEvents : List Event :=
  tradeTopics.map (fun topic => .broker (.addPartition topic)) ++ tradeFrames.map produced ++
    [.ingest ⟨⟨2000, 0, false, "app-1"⟩, none, true, [], [], [], 5, 1⟩]

def shipped : Lakehouse TradePayload :=
  tradeEvents.foldl (fun l e => l.stage1 tradeTopics 0 e 71) Lakehouse.create

def shippedBronze : Bronze.State TradePayload :=
  shipped.tables.bronzeState.run tradeReaders "71" Bronze.oneSchema (fun _ => (72, 20)) 7

def shippedDecoded : State TradePayload :=
  { shipped.tables with
    raw := shippedBronze.raw, bronze := shippedBronze.bronze
    decodedWith := shippedBronze.decodedWith }

def shippedSilver : SilverTrades.State TradePayload :=
  shippedDecoded.silverState.run tradeText tradeColumns (fun v => (tradeRegistry v, 3000000))
    (fun _ => (73, 30)) 3

def shippedTyped : State TradePayload :=
  { shippedDecoded with silver := shippedSilver.silver, typedWith := shippedSilver.typedWith }

def shippedGold : DataTable GoldTrade :=
  Recorded.stageTrades shippedTyped.goldState.silver 4000000
    (fun v => if v = .kraken then (74, 40) else (75, 50)) (TRADES.take 3) []

def delivered : Lakehouse TradePayload :=
  { shipped with tables := { shippedTyped with gold := shippedGold } }

theorem delivered_eval :
    ((∀ k < tradeEvents.length, ∀ s ∈ ((tradeEvents.take k).foldl
        (fun l e => l.stage1 tradeTopics 0 e 71)
          (Lakehouse.create : Lakehouse TradePayload)).tables.raw, s.id ≠ 71) ∧
      (∀ t ∈ Bronze.VENUE_TABLES, (shippedBronze.bronze t).length ≤ 1) ∧
      (∀ v ∈ TRADES, (shippedSilver.silver v).length ≤ 1) ∧ shippedGold.Valid) ∧
    (∀ b ∈ (delivered.tables.bronze .coinbaseMarketTrades).rows,
      (SilverTrades.marketTradesFrame tradeColumns b).Counted) ∧
    (delivered.tables.bronzeState.reach (source .coinbase) = delivered.tables.raw.length ∧
      delivered.tables.silverState.reach .coinbase =
        (delivered.tables.bronze (source .coinbase)).length ∧
      delivered.tables.goldState.reach .coinbase = (delivered.tables.silver .coinbase).length) ∧
    delivered.tables.gold.rows.length = 6 := by
  decide +kernel

theorem delivered_reached :
    LakehouseReached tradeTopics 0 tradeReaders tradeText tradeColumns delivered := by
  obtain ⟨hids, hbronze, hsilver, hgold⟩ := delivered_eval.1
  have hshipped : LakehouseReached tradeTopics 0 tradeReaders tradeText tradeColumns shipped :=
    reached_events 71 ReflTransGen.refl hids
  have hdecode : Bronze.Step tradeReaders shipped.tables.bronzeState shippedBronze :=
    Bronze.Step.run "71" Bronze.oneSchema (fun _ => (72, 20)) 7
      fun t => DataTable.Valid.of_length_le_one (hbronze t (Bronze.mem_VENUE_TABLES t))
  have htype : SilverTrades.Step tradeText tradeColumns shippedDecoded.silverState shippedSilver :=
    SilverTrades.Step.run _ _ 3 fun v => DataTable.Valid.of_length_le_one (hsilver v (mem_TRADES v))
  have htake : Recorded.Step shippedTyped.goldState ⟨shippedTyped.silver, shippedGold⟩ :=
    Recorded.Step.run 4000000 _ 3 hgold
  have hdecoded := reached_bronze hshipped hdecode rfl
  have htyped := reached_silver hdecoded htype rfl
  exact reached_taken htyped htake

theorem trade_from_kafka_to_gold : delivered.tables.gold.rows.length = 6 ∧
    (delivered.tables.gold.rows.map goldDelivery).Nodup ∧
    (∀ g ∈ delivered.tables.gold.rows, ∃ topic partition,
      ∃ record ∈ (published delivered.events).records topic partition,
        Owed (delivered.system tradeTopics 0).lake topic partition record.offset ∧
          ∃ ingestTs, TradeOf tradeReaders tradeText tradeColumns delivered.tables
            (rawRow ingestTs ⟨topic, partition, record⟩) g) ∧
    ∀ topic partition, ∀ record ∈ (published delivered.events).records topic partition,
      Owed (delivered.system tradeTopics 0).lake topic partition record.offset →
        ∃ ingestTs, Carried tradeReaders tradeText tradeColumns delivered.tables .coinbase
          (rawRow ingestTs ⟨topic, partition, record⟩) := by
  obtain ⟨-, hcounted, ⟨hbronze, hsilver, hgold⟩, hlength⟩ := delivered_eval
  have hall := kafka_to_gold delivered_reached hcounted
  exact ⟨hlength, hall.1, hall.2.1, hall.2.2 .coinbase ⟨hbronze, hsilver, hgold⟩⟩

end K2.Lake.Pipeline

import Mathlib.Data.List.Dedup
import K2Platform.Capture.Record
import K2Platform.Lake.CopiedTables
import K2Platform.Lake.Ingest
import K2Platform.Lake.Replay
import K2Platform.Lake.Wire

/-!
# Stage 2b: `raw.messages` to the bronze tables

Model of `docker/lake/bronze.py::stage` and `decode`.  A venue's tables read the same range of
`raw.messages`, which starts at the snapshot that each of them has recorded, and are committed to
one after the other; a run may be killed between any two commits.  Spark's two readers, `from_avro`
and `from_json`, are parameters, and so is what the registry answers.

* `venueCommits_cases` — all that a venue's turn can do.
* `filterMap_project_perm` — the frames of a range, schema id by schema id, are its rows once each.
* `torn_forever` — a venue whose tables stand at different positions is not decoded any further.
* `bronze_decoded_once` — what a bronze table holds in every state reached.
* `mem_bronze_decodedFrom` — a row of it is a frame of its exchange and stream, and names it.
-/

set_option autoImplicit false

namespace K2.Lake.Bronze

open K2.Capture (RawMessageRecord)
open Relation

/-! ## The tables -/

inductive VenueTable
  | binanceTrade
  | binanceDepth20
  | krakenTrade
  | krakenBook
  | krakenInstrument
  | coinbaseMarketTrades
  | coinbaseLevel2
  deriving DecidableEq, Repr

def VENUE_TABLES : List VenueTable :=
  [.binanceTrade, .binanceDepth20, .krakenTrade, .krakenBook, .krakenInstrument,
    .coinbaseMarketTrades, .coinbaseLevel2]

def PX_QTY : String := "ARRAY<STRUCT<price: DECIMAL(28,10), qty: DECIMAL(28,10)>>"

namespace VenueTable

def exchange : VenueTable → Exchange
  | .binanceTrade => .binance
  | .binanceDepth20 => .binance
  | .krakenTrade => .kraken
  | .krakenBook => .kraken
  | .krakenInstrument => .kraken
  | .coinbaseMarketTrades => .coinbase
  | .coinbaseLevel2 => .coinbase

def stream : VenueTable → String
  | .binanceTrade => "trade"
  | .binanceDepth20 => "depth20"
  | .krakenTrade => "trade"
  | .krakenBook => "book"
  | .krakenInstrument => "instrument"
  | .coinbaseMarketTrades => "market_trades"
  | .coinbaseLevel2 => "l2_data"

def schema : VenueTable → String
  | .binanceTrade =>
    "stream STRING, data STRUCT<e: STRING, E: BIGINT, s: STRING, t: BIGINT, p: STRING, " ++
      "q: STRING, T: BIGINT, m: BOOLEAN, M: BOOLEAN>"
  | .binanceDepth20 =>
    "stream STRING, data STRUCT<lastUpdateId: BIGINT, bids: ARRAY<ARRAY<STRING>>, " ++
      "asks: ARRAY<ARRAY<STRING>>>"
  | .krakenTrade =>
    "channel STRING, type STRING, data ARRAY<STRUCT<symbol: STRING, side: STRING, " ++
      "price: DECIMAL(28,10), qty: DECIMAL(28,10), ord_type: STRING, trade_id: BIGINT, " ++
      "timestamp: STRING>>"
  | .krakenBook =>
    "channel STRING, type STRING, data ARRAY<STRUCT<symbol: STRING, bids: " ++ PX_QTY ++ ", " ++
      "asks: " ++ PX_QTY ++ ", checksum: BIGINT, timestamp: STRING>>"
  | .krakenInstrument =>
    "channel STRING, type STRING, data STRUCT<assets: ARRAY<STRUCT<id: STRING, status: STRING, " ++
      "precision: INT, precision_display: INT, borrowable: BOOLEAN, " ++
      "collateral_value: DECIMAL(28,10), class: STRING, margin_rate: DECIMAL(28,10)>>, " ++
      "pairs: ARRAY<STRUCT<symbol: STRING, base: STRING, quote: STRING, status: STRING, " ++
      "qty_precision: INT, qty_increment: DECIMAL(28,10), price_precision: INT, " ++
      "cost_precision: INT, marginable: BOOLEAN, has_index: BOOLEAN, " ++
      "ws_display_price_precision: INT, cost_min: DECIMAL(28,10), " ++
      "margin_initial: DECIMAL(28,10), position_limit_long: BIGINT, " ++
      "position_limit_short: BIGINT, tick_size: DECIMAL(28,10), " ++
      "price_increment: DECIMAL(28,10), qty_min: DECIMAL(28,10)>>>"
  | .coinbaseMarketTrades =>
    "channel STRING, timestamp STRING, sequence_num BIGINT, events ARRAY<STRUCT<type: STRING, " ++
      "trades: ARRAY<STRUCT<product_id: STRING, trade_id: STRING, price: STRING, " ++
      "size: STRING, time: STRING, side: STRING>>>>"
  | .coinbaseLevel2 =>
    "channel STRING, timestamp STRING, sequence_num BIGINT, events ARRAY<STRUCT<type: STRING, " ++
      "product_id: STRING, updates: ARRAY<STRUCT<side: STRING, event_time: STRING, " ++
      "price_level: STRING, new_quantity: STRING>>>>"

end VenueTable

def tablesOf (v : Exchange) : List VenueTable := VENUE_TABLES.filter fun t => t.exchange = v

theorem mem_VENUE_TABLES (t : VenueTable) : t ∈ VENUE_TABLES := by
  cases t <;> decide

/-- `sorted({t.exchange for t in VENUE_TABLES})`. -/
def EXCHANGES : List Exchange := [.binance, .coinbase, .kraken]

/-- A row of a bronze table: the venue's fields, and where they came from. -/
structure BronzeRow (J : Type) where
  j : J
  symbol : Option String
  recvTsNs : Int
  recvTs : Int
  connId : String
  connMsgSeq : Int
  srcTopic : String
  srcPartition : Nat
  srcOffset : Int
  ingestTs : Int
  deriving DecidableEq, Repr

abbrev BronzeTable (J : Type) := DataTable (BronzeRow J)

/-! ## The decode -/

/-- What `fetch_schema` does with an id. -/
inductive Fetch
  | schema (text : String)
  | unresolvable
  | raised
  deriving DecidableEq, Repr

abbrev Registry := Nat → Fetch

def Fetch.text? : Fetch → Option String
  | .schema text => some text
  | _ => none

/-- `from_avro` in mode FAILFAST, which fails on bytes that the schema cannot decode, and
    `from_json` in mode PERMISSIVE, which does not fail. -/
structure Readers (J : Type) where
  fromAvro : String → Bytes → Option RawMessageRecord
  fromJson : String → Bytes → J

/-- A row of `raw.messages` with its column `r`. -/
abbrev Frame := RawRow × Option RawMessageRecord

inductive Decoded
  | raised
  | nothing
  | frames (frames : List Frame)

def schemaIds (source : List RawRow) : List Nat :=
  (source.filterMap RawRow.schemaId).dedup.insertionSort (· ≤ ·)

/-- The rows of `raw.messages` that are a venue's frames. -/
def isFrameOf (v : Exchange) (row : RawRow) : Bool :=
  (".raw." ++ v.name).toList.isSuffixOf row.topic.toList && row.schemaId.isSome

section Decode

variable {J : Type} (readers : Readers J)

/-- The column `r`; of a NULL it is NULL. -/
def decodeRow (schema : String) (row : RawRow) : Option (Option RawMessageRecord) :=
  match bodySql row.payload with
  | none => some none
  | some body => (readers.fromAvro schema body).map some

/-- The rows of one schema id, each with the schema that wrote it. -/
def part (source : List RawRow) (id : Nat) (schema : String) : List (String × RawRow) :=
  (source.filter fun row => row.schemaId = some id).map fun row => (schema, row)

/-- `_decoded_raw`, and what the first write makes of it. -/
def decodedRaw (registry : Registry) (source : List RawRow) : Decoded :=
  if ∃ id ∈ schemaIds source, registry id = .raised then .raised
  else
    let parts := (schemaIds source).filterMap fun id => (registry id).text?.map (part source id)
    if parts = [] then .nothing
    else
      match parts.flatten.mapM fun p => (decodeRow readers p.1 p.2).map fun r => (p.2, r) with
      | none => .raised
      | some frames => .frames frames

/-- `_project`. -/
def project (t : VenueTable) (frame : Frame) : Option (BronzeRow J) :=
  frame.2.bind fun r =>
    if r.stream = t.stream then some {
      j := readers.fromJson t.schema r.payload
      symbol := r.symbol
      recvTsNs := r.recvTsNs
      recvTs := r.recvTsNs.tdiv 1000
      connId := r.connId
      connMsgSeq := r.connMsgSeq
      srcTopic := frame.1.topic
      srcPartition := frame.1.partition
      srcOffset := frame.1.offset
      ingestTs := frame.1.ingestTs }
    else none

end Decode

/-! ## A run -/

section Stage

variable {J : Type} (readers : Readers J) (raw : DataTable RawRow) (rawSnapshotId : String)
  (registry : Exchange → Registry) (stamps : VenueTable → Nat × Int)
  (bronze : VenueTable → BronzeTable J)

/-- `str(start)`. -/
def strOf (start : Option String) : String := start.getD "None"

/-- `_source`. -/
def sourceOf (start : Option String) (v : Exchange) : Option (List RawRow) :=
  (raw.readFrom start rawSnapshotId).map fun rows : List RawRow => rows.filter (isFrameOf v)

/-- The commit of a table: `k2.job`, and the snapshot that was read up to. -/
def commitOf (frames : List Frame) (t : VenueTable) : DataSnapshot (BronzeRow J) where
  id := (stamps t).1
  committedAt := (stamps t).2
  summary := decodeSummary rawSnapshotId
  rows := frames.filterMap (project readers t)

/-- `decode`: the commits to the venue's tables, or `none` where the run ends. -/
def decode (registry : Registry) (source : List RawRow) (v : Exchange) :
    Option (List (VenueTable × DataSnapshot (BronzeRow J))) :=
  match decodedRaw readers registry source with
  | .raised => none
  | .nothing => some []
  | .frames frames =>
    some ((tablesOf v).map fun t => (t, commitOf readers rawSnapshotId stamps frames t))

/-- The turn of one venue. -/
def venueCommits (v : Exchange) : Option (List (VenueTable × DataSnapshot (BronzeRow J))) :=
  let starts := (tablesOf v).map fun t => (bronze t).srcSnapshotId
  if ∃ a ∈ starts, ∃ b ∈ starts, strOf a ≠ strOf b then none
  else
    let start := starts.head?.join.filter fun s => s ≠ ""
    if start = some rawSnapshotId then some []
    else
      match sourceOf raw rawSnapshotId start v with
      | none => none
      | some source => decode readers rawSnapshotId stamps (registry v) source v

/-- The commits of a run, in their order.  A venue reads no position of another venue. -/
def stageCommits : List Exchange → List (VenueTable × DataSnapshot (BronzeRow J))
  | [] => []
  | v :: venues =>
    match venueCommits readers raw rawSnapshotId registry stamps bronze v with
    | none => []
    | some commits => commits ++ stageCommits venues

end Stage

/-- The tables after some commits. -/
def applyCommits {J : Type} (bronze : VenueTable → BronzeTable J)
    (commits : List (VenueTable × DataSnapshot (BronzeRow J))) (t : VenueTable) : BronzeTable J :=
  bronze t ++ (commits.filter fun c => c.1 = t).map Prod.snd

/-! ## Runs -/

structure State (J : Type) where
  raw : DataTable RawRow
  bronze : VenueTable → BronzeTable J
  /-- For every snapshot that a table has read, what the registry answered then. -/
  decodedWith : VenueTable → List Registry

namespace State

variable {J : Type}

def start : State J := ⟨[], fun _ => [], fun _ => []⟩

def reach (st : State J) (t : VenueTable) : Nat := reachOf st.raw (st.bronze t)

/-- A run that is killed after `cut` of its commits. -/
def run (readers : Readers J) (rawSnapshotId : String) (registry : Exchange → Registry)
    (stamps : VenueTable → Nat × Int) (cut : Nat) (st : State J) : State J :=
  let bronze := applyCommits st.bronze
    ((stageCommits readers st.raw rawSnapshotId registry stamps st.bronze EXCHANGES).take cut)
  { st with
    bronze := bronze
    decodedWith := fun t => st.decodedWith t ++
      List.replicate (reachOf st.raw (bronze t) - st.reach t) (registry t.exchange) }

end State

section Steps

variable {J : Type} (readers : Readers J)

/-- `raw.messages` grows, compaction rewrites a bronze table, and runs get past some commits. -/
inductive Step : State J → State J → Prop
  | grow {st : State J} (raw : DataTable RawRow) : st.raw <+: raw → raw.Valid →
      Step st { st with raw := raw }
  | maintain {st : State J} (t : VenueTable) (s : DataSnapshot (BronzeRow J)) : s.rows = [] →
      Snapshot.writtenBy JOB_DECODE ⟨s.committedAt, s.summary⟩ = false →
      DataTable.Valid (st.bronze t ++ [s]) →
      Step st { st with bronze := Function.update st.bronze t (st.bronze t ++ [s]) }
  | run {st : State J} (rawSnapshotId : String) (registry : Exchange → Registry)
      (stamps : VenueTable → Nat × Int) (cut : Nat) :
      (∀ t, ((st.run readers rawSnapshotId registry stamps cut).bronze t).Valid) →
      Step st (st.run readers rawSnapshotId registry stamps cut)

def Reached (st : State J) : Prop := ReflTransGen (Step readers) State.start st

/-- What a framed row is in a table, under the registry's answers: nothing where its schema id does
    not resolve, or where it is of another stream; `none` where the decode raises. -/
def bronzeRow (registry : Registry) (t : VenueTable) (row : RawRow) :
    Option (Option (BronzeRow J)) :=
  match row.schemaId.map registry with
  | some (.schema schema) =>
    (decodeRow readers schema row).map fun r => project readers t (row, r)
  | some .raised => none
  | _ => some none

/-- What is made of a row of `raw.messages`. -/
def making (t : VenueTable) (registry : Registry) : Making RawRow (BronzeRow J) := fun row =>
  if isFrameOf t.exchange row then (bronzeRow readers registry t row).map Option.toList
  else some []

/-- The framed rows of a table's exchange and stream in the snapshots that were read, each under
    the answers of its time. -/
def expected (raw : DataTable RawRow) (answers : List Registry) (t : VenueTable) :
    List (BronzeRow J) :=
  madeOf raw (answers.map (making readers t))

end Steps

/-- The tables of the venue have not all read up to the same snapshot. -/
def Torn {J : Type} (bronze : VenueTable → BronzeTable J) (v : Exchange) : Prop :=
  ∃ t ∈ tablesOf v, ∃ u ∈ tablesOf v, (bronze t).srcSnapshotId ≠ (bronze u).srcSnapshotId

/-! ## Schema id by schema id -/

theorem filterMap_of_mapM {α β γ : Type} {f : α → Option β} (g : β → Option γ) :
    ∀ {l : List α} {l' : List β}, l.mapM f = some l' →
      l'.filterMap g = l.filterMap fun a => (f a).bind g
  | [], l', h => by
    rw [List.mapM_nil] at h
    cases h
    rfl
  | a :: l, l', h => by
    rw [List.mapM_cons] at h
    obtain ⟨b, hb, hrest⟩ := Option.bind_eq_some_iff.1 h
    obtain ⟨bs, hbs, hcons⟩ := Option.bind_eq_some_iff.1 hrest
    cases hcons
    rw [List.filterMap_cons, List.filterMap_cons, hb, Option.bind_some, filterMap_of_mapM g hbs]

theorem isSome_of_mapM {α β : Type} {f : α → Option β} :
    ∀ {l : List α} {l' : List β}, l.mapM f = some l' → ∀ a ∈ l, (f a).isSome
  | [], _, _ => fun a ha => absurd ha List.not_mem_nil
  | a :: l, l', h => by
    rw [List.mapM_cons] at h
    obtain ⟨b, hb, hrest⟩ := Option.bind_eq_some_iff.1 h
    obtain ⟨bs, hbs, -⟩ := Option.bind_eq_some_iff.1 hrest
    refine List.forall_mem_cons.2 ⟨?_, isSome_of_mapM hbs⟩
    rw [hb]
    rfl

section Decoding

variable {J : Type} {readers : Readers J} {registry : Registry} {source : List RawRow}

theorem mem_schemaIds {id : Nat} :
    id ∈ schemaIds source ↔ ∃ row ∈ source, row.schemaId = some id := by
  rw [schemaIds, List.mem_insertionSort, List.mem_dedup, List.mem_filterMap]

theorem nodup_schemaIds (source : List RawRow) : (schemaIds source).Nodup :=
  (List.perm_insertionSort _ _).nodup_iff.2 (List.nodup_dedup _)

theorem bronzeRow_of_schemaId {row : RawRow} {id : Nat} (hid : row.schemaId = some id)
    (t : VenueTable) : bronzeRow readers registry t row =
      match registry id with
      | .schema schema => (decodeRow readers schema row).map fun r => project readers t (row, r)
      | .raised => none
      | .unresolvable => some none := by
  rw [bronzeRow, hid, Option.map_some]
  cases registry id <;> rfl

/-- One schema id: where it does not resolve, no row of it is decoded. -/
theorem filterMap_part (t : VenueTable) (id : Nat) :
    (((registry id).text?.map (part source id)).getD []).filterMap (fun p =>
        ((decodeRow readers p.1 p.2).map fun r => (p.2, r)).bind (project readers t)) =
      (source.filter fun row => row.schemaId = some id).filterMap fun row =>
        (bronzeRow readers registry t row).join := by
  have hid : ∀ row ∈ source.filter (fun row => row.schemaId = some id), row.schemaId = some id :=
    fun row hrow => of_decide_eq_true (List.mem_filter.1 hrow).2
  cases hfetch : registry id with
  | schema schema =>
    rw [Fetch.text?, Option.map_some, Option.getD_some, part, List.filterMap_map]
    refine List.filterMap_congr fun row hrow => ?_
    rw [bronzeRow_of_schemaId (hid row hrow), hfetch]
    show ((decodeRow readers schema row).map fun r => (row, r)).bind (project readers t) =
      ((decodeRow readers schema row).map fun r => project readers t (row, r)).join
    cases decodeRow readers schema row <;> rfl
  | unresolvable =>
    symm
    refine List.filterMap_eq_nil_iff.2 fun row hrow => ?_
    rw [bronzeRow_of_schemaId (hid row hrow), hfetch]
    rfl
  | raised =>
    symm
    refine List.filterMap_eq_nil_iff.2 fun row hrow => ?_
    rw [bronzeRow_of_schemaId (hid row hrow), hfetch]
    rfl

theorem flatten_filterMap_part (ids : List Nat) :
    (ids.filterMap fun id => (registry id).text?.map (part source id)).flatten =
      ids.flatMap fun id => ((registry id).text?.map (part source id)).getD [] := by
  induction ids with
  | nil => rfl
  | cons id ids ih =>
    rw [List.filterMap_cons, List.flatMap_cons, ← ih]
    cases (registry id).text? with
    | none => rfl
    | some schema => rfl

/-- What `_decoded_raw` has when it returns frames: no fetch raised, and every row was decoded. -/
theorem decodedRaw_eq_frames {frames : List Frame}
    (h : decodedRaw readers registry source = .frames frames) :
    (¬ ∃ id ∈ schemaIds source, registry id = .raised) ∧
      ((schemaIds source).filterMap fun id =>
        (registry id).text?.map (part source id)).flatten.mapM (fun p =>
          (decodeRow readers p.1 p.2).map fun r => (p.2, r)) = some frames := by
  unfold decodedRaw at h
  split at h
  · cases h
  · rename_i hraised
    simp only at h
    split at h
    · cases h
    · split at h
      · cases h
      · rename_i hframes
        cases h
        exact ⟨hraised, hframes⟩

/-- **Each row once**, whatever schema ids the range has and whichever of them resolve. -/
theorem filterMap_project_perm {frames : List Frame}
    (h : decodedRaw readers registry source = .frames frames)
    (hframed : ∀ row ∈ source, row.schemaId.isSome) (t : VenueTable) :
    (frames.filterMap (project readers t)).Perm
      (source.filterMap fun row => (bronzeRow readers registry t row).join) := by
  have hid : ∀ id, (source.filter fun row => row.schemaId = some id) =
      source.filter fun row => row.schemaId.getD 0 = id := by
    intro id
    refine List.filter_congr fun row hrow => ?_
    obtain ⟨i, hi⟩ := Option.isSome_iff_exists.1 (hframed row hrow)
    simp only [hi, Option.getD_some, Option.some.injEq]
  have hslices : ((schemaIds source).flatMap fun id =>
      source.filter fun row => row.schemaId.getD 0 = id).Perm source := by
    refine slices_perm (nodup_schemaIds source) fun row hrow => ?_
    obtain ⟨i, hi⟩ := Option.isSome_iff_exists.1 (hframed row hrow)
    rw [hi, Option.getD_some]
    exact mem_schemaIds.2 ⟨row, hrow, hi⟩
  rw [filterMap_of_mapM (project readers t) (decodedRaw_eq_frames h).2, flatten_filterMap_part,
    List.filterMap_flatMap]
  simp only [filterMap_part, hid]
  rw [← List.filterMap_flatMap]
  exact hslices.filterMap _

/-- No row of a range that was decoded raised. -/
theorem bronzeRow_isSome {frames : List Frame}
    (h : decodedRaw readers registry source = .frames frames)
    (hframed : ∀ row ∈ source, row.schemaId.isSome) (t : VenueTable) :
    ∀ row ∈ source, (bronzeRow readers registry t row).isSome := by
  intro row hrow
  obtain ⟨hraised, hdecoded⟩ := decodedRaw_eq_frames h
  obtain ⟨id, hid⟩ := Option.isSome_iff_exists.1 (hframed row hrow)
  have hmem : id ∈ schemaIds source := mem_schemaIds.2 ⟨row, hrow, hid⟩
  rw [bronzeRow_of_schemaId hid]
  cases hfetch : registry id with
  | raised => exact absurd ⟨id, hmem, hfetch⟩ hraised
  | unresolvable => rfl
  | schema schema =>
    have hpart : (schema, row) ∈ ((schemaIds source).filterMap fun id =>
        (registry id).text?.map (part source id)).flatten := by
      refine List.mem_flatten.2 ⟨part source id schema, List.mem_filterMap.2 ⟨id, hmem, ?_⟩, ?_⟩
      · rw [hfetch, Fetch.text?, Option.map_some]
      · exact List.mem_map_of_mem (List.mem_filter.2 ⟨hrow, decide_eq_true hid⟩)
    obtain ⟨frame, hframe⟩ := Option.isSome_iff_exists.1 (isSome_of_mapM hdecoded _ hpart)
    obtain ⟨r, hr, -⟩ := Option.map_eq_some_iff.1 hframe
    show ((decodeRow readers schema row).map _).isSome
    rw [show decodeRow readers schema row = some r from hr]
    rfl

/-- The rows of a range for one table, and that none of them raised. -/
theorem making_range {frames : List Frame} {rows : List RawRow} {t : VenueTable}
    (h : decodedRaw readers registry (rows.filter (isFrameOf t.exchange)) = .frames frames) :
    (∀ row ∈ rows, (making readers t registry row).isSome) ∧
      (frames.filterMap (project readers t)).Perm
        (rows.flatMap fun row => (making readers t registry row).getD []) := by
  have hframed : ∀ row ∈ rows.filter (isFrameOf t.exchange), row.schemaId.isSome := by
    intro row hrow
    exact (Bool.and_eq_true_iff.1 (List.mem_filter.1 hrow).2).2
  constructor
  · intro row hrow
    unfold making
    split
    · rename_i hframe
      rw [Option.isSome_map]
      exact bronzeRow_isSome h hframed t row (List.mem_filter.2 ⟨hrow, hframe⟩)
    · rfl
  · have hrows : (rows.flatMap fun row => (making readers t registry row).getD []) =
        (rows.filter (isFrameOf t.exchange)).filterMap fun row =>
          (bronzeRow readers registry t row).join := by
      rw [List.filterMap_filter, List.filterMap_eq_flatMap_toList]
      refine List.flatMap_congr fun row _ => ?_
      unfold making
      split
      · cases bronzeRow readers registry t row <;> rfl
      · rfl
    rw [hrows]
    exact filterMap_project_perm h hframed t

end Decoding

/-! ## What a venue's turn does -/

theorem exists_idText_of_place {raw : DataTable RawRow} {text : String} {n : Nat}
    (h : raw.place text = some n) : ∃ id : Nat, text = writeNat id := by
  obtain ⟨i, hi, -⟩ := Option.map_eq_some_iff.1 h
  obtain ⟨hlt, hid, -⟩ := List.findIdx?_eq_some_iff_getElem.1 hi
  exact ⟨raw[i].id, (of_decide_eq_true hid).symm⟩

theorem writeNat_ne_None (id : Nat) : writeNat id ≠ "None" := by
  intro h
  have hread := readNat_writeNat id
  rw [h, show readNat "None" = none by decide] at hread
  cases hread

/-- A position that has not been recorded reads as no position that has. -/
theorem strOf_inj {raw : DataTable RawRow} {a b : Option String}
    (ha : ∀ text, a = some text → ∃ n, raw.place text = some n)
    (hb : ∀ text, b = some text → ∃ n, raw.place text = some n) (h : strOf a = strOf b) :
    a = b := by
  cases a with
  | none =>
    cases b with
    | none => rfl
    | some text =>
      obtain ⟨n, hn⟩ := hb text rfl
      obtain ⟨id, rfl⟩ := exists_idText_of_place hn
      exact absurd h.symm (writeNat_ne_None id)
  | some text =>
    cases b with
    | none =>
      obtain ⟨n, hn⟩ := ha text rfl
      obtain ⟨id, rfl⟩ := exists_idText_of_place hn
      exact absurd h (writeNat_ne_None id)
    | some other => exact congrArg some h

theorem tablesOf_ne_nil (v : Exchange) : tablesOf v ≠ [] := by
  cases v <;> decide

theorem mem_tablesOf {t : VenueTable} {v : Exchange} : t ∈ tablesOf v ↔ t.exchange = v := by
  cases v <;> cases t <;> decide

theorem filter_tablesOf (t : VenueTable) :
    ((tablesOf t.exchange).filter fun u => u = t) = [t] := by
  cases t <;> decide

section Turns

variable {J : Type} {readers : Readers J} {raw : DataTable RawRow} {rawSnapshotId : String}
  {registry : Exchange → Registry} {stamps : VenueTable → Nat × Int}
  {bronze : VenueTable → BronzeTable J}

/-- A range of a venue is decoded, from the position where all of its tables stand. -/
structure Decodes (readers : Readers J) (raw : DataTable RawRow) (rawSnapshotId : String)
    (registry : Exchange → Registry) (bronze : VenueTable → BronzeTable J) (v : Exchange)
    (source : List RawRow) (frames : List Frame) : Prop where
  level : ∀ t ∈ tablesOf v, ∀ u ∈ tablesOf v,
    (bronze t).srcSnapshotId = (bronze u).srcSnapshotId
  read : ∀ t ∈ tablesOf v,
    (bronze t).srcSnapshotId ≠ some rawSnapshotId ∧
      sourceOf raw rawSnapshotId (bronze t).srcSnapshotId v = some source
  frames : decodedRaw readers (registry v) source = .frames frames

theorem decode_cases {registry : Registry} {source : List RawRow} {v : Exchange}
    {commits : List (VenueTable × DataSnapshot (BronzeRow J))}
    (h : decode readers rawSnapshotId stamps registry source v = some commits) :
    commits = [] ∨ ∃ frames, decodedRaw readers registry source = .frames frames ∧
      commits = (tablesOf v).map fun t => (t, commitOf readers rawSnapshotId stamps frames t) := by
  unfold decode at h
  split at h
  · cases h
  · cases h
    exact Or.inl rfl
  · rename_i frames hframes
    cases h
    exact Or.inr ⟨frames, hframes, rfl⟩

/-- **All that a venue's turn can do**: nothing, or one commit to each of its tables. -/
theorem venueCommits_cases (hplaced : ∀ t, Placed raw (bronze t)) {v : Exchange}
    {commits : List (VenueTable × DataSnapshot (BronzeRow J))}
    (h : venueCommits readers raw rawSnapshotId registry stamps bronze v = some commits) :
    commits = [] ∨ ∃ source frames,
      Decodes readers raw rawSnapshotId registry bronze v source frames ∧
      commits = (tablesOf v).map fun t => (t, commitOf readers rawSnapshotId stamps frames t) := by
  unfold venueCommits at h
  simp only at h
  split at h
  · cases h
  · rename_i hsame
    have hlevel : ∀ t ∈ tablesOf v, ∀ u ∈ tablesOf v,
        (bronze t).srcSnapshotId = (bronze u).srcSnapshotId := by
      intro t ht u hu
      refine strOf_inj (hplaced t) (hplaced u) (Classical.byContradiction fun hne => hsame ?_)
      exact ⟨_, List.mem_map_of_mem ht, _, List.mem_map_of_mem hu, hne⟩
    have hstart : ∀ t ∈ tablesOf v,
        (((tablesOf v).map fun t => (bronze t).srcSnapshotId).head?.join.filter
          fun s => s ≠ "") = (bronze t).srcSnapshotId := by
      intro t ht
      obtain ⟨u, rest, hcons⟩ := List.exists_cons_of_ne_nil (tablesOf_ne_nil v)
      have hu : u ∈ tablesOf v := by
        rw [hcons]
        exact List.mem_cons_self
      rw [hcons, List.map_cons, List.head?_cons, Option.join_some, hlevel u hu t ht]
      cases hrecorded : (bronze t).srcSnapshotId with
      | none => rfl
      | some text =>
        obtain ⟨n, hn⟩ := hplaced t text hrecorded
        obtain ⟨id, rfl⟩ := exists_idText_of_place hn
        have hne : writeNat id ≠ "" := Nat.repr_ne_empty
        rw [Option.filter_some, if_pos (decide_eq_true hne)]
    split at h
    · cases h
      exact Or.inl rfl
    · rename_i hne
      split at h
      · cases h
      · rename_i source hsource
        rcases decode_cases h with hnil | ⟨frames, hframes, hcommits⟩
        · exact Or.inl hnil
        · refine Or.inr ⟨source, frames, ⟨hlevel, fun t ht => ?_, hframes⟩, hcommits⟩
          rw [← hstart t ht]
          exact ⟨hne, hsource⟩

theorem exchange_of_mem_venueCommits {v : Exchange}
    {commits : List (VenueTable × DataSnapshot (BronzeRow J))} (hplaced : ∀ t, Placed raw (bronze t))
    (h : venueCommits readers raw rawSnapshotId registry stamps bronze v = some commits) :
    ∀ c ∈ commits, c.1.exchange = v := by
  intro c hc
  rcases venueCommits_cases hplaced h with rfl | ⟨source, frames, -, rfl⟩
  · exact absurd hc List.not_mem_nil
  · obtain ⟨t, ht, rfl⟩ := List.mem_map.1 hc
    exact mem_tablesOf.1 ht

theorem exchange_of_mem_stageCommits (hplaced : ∀ t, Placed raw (bronze t)) (venues : List Exchange) :
    ∀ c ∈ stageCommits readers raw rawSnapshotId registry stamps bronze venues,
      c.1.exchange ∈ venues := by
  induction venues with
  | nil => exact fun c hc => absurd hc List.not_mem_nil
  | cons v venues ih =>
    intro c hc
    unfold stageCommits at hc
    split at hc
    · exact absurd hc List.not_mem_nil
    · rename_i commits hcommits
      rcases List.mem_append.1 hc with hmem | hmem
      · exact List.mem_cons.2 (Or.inl (exchange_of_mem_venueCommits hplaced hcommits c hmem))
      · exact List.mem_cons_of_mem v (ih c hmem)

/-- The commits of a run to one table are those of its venue's turn, if the run gets there. -/
theorem filter_stageCommits (hplaced : ∀ t, Placed raw (bronze t)) (t : VenueTable) :
    ∀ {venues : List Exchange}, venues.Nodup →
      ((stageCommits readers raw rawSnapshotId registry stamps bronze venues).filter
          fun c => c.1 = t) = [] ∨
        ∃ commits, venueCommits readers raw rawSnapshotId registry stamps bronze t.exchange =
            some commits ∧
          ((stageCommits readers raw rawSnapshotId registry stamps bronze venues).filter
            fun c => c.1 = t) = commits.filter fun c => c.1 = t
  | [], _ => Or.inl rfl
  | v :: venues, hnodup => by
    have hv := (List.nodup_cons.1 hnodup).1
    cases hcommits : venueCommits readers raw rawSnapshotId registry stamps bronze v with
    | none =>
      rw [stageCommits, hcommits]
      exact Or.inl rfl
    | some commits =>
      rw [stageCommits, hcommits]
      simp only [List.filter_append]
      by_cases ht : t.exchange = v
      · have hrest : ((stageCommits readers raw rawSnapshotId registry stamps bronze venues).filter
            fun c => c.1 = t) = [] := by
          refine List.filter_eq_nil_iff.2 fun c hc heq => hv ?_
          rw [← ht, ← of_decide_eq_true heq]
          exact exchange_of_mem_stageCommits hplaced venues c hc
        rw [hrest, List.append_nil]
        exact Or.inr ⟨commits, ht ▸ hcommits, rfl⟩
      · have hfirst : (commits.filter fun c => c.1 = t) = [] := by
          refine List.filter_eq_nil_iff.2 fun c hc heq => ht ?_
          rw [← of_decide_eq_true heq]
          exact exchange_of_mem_venueCommits hplaced hcommits c hc
        rw [hfirst, List.nil_append]
        exact filter_stageCommits hplaced t (List.nodup_cons.1 hnodup).2

theorem filter_map_commitOf (frames : List Frame) (t : VenueTable) :
    (((tablesOf t.exchange).map fun u =>
      (u, commitOf readers rawSnapshotId stamps frames u)).filter fun c => c.1 = t) =
      [(t, commitOf readers rawSnapshotId stamps frames t)] := by
  rw [List.filter_map]
  have hcomp : ((fun c : VenueTable × DataSnapshot (BronzeRow J) => decide (c.1 = t)) ∘
      fun u => (u, commitOf readers rawSnapshotId stamps frames u)) = fun u => decide (u = t) := rfl
  rw [hcomp, filter_tablesOf, List.map_singleton]

/-- **A run leaves a table as it was, or appends one commit to it.** -/
theorem applyCommits_cases (hplaced : ∀ t, Placed raw (bronze t)) (cut : Nat) (t : VenueTable) :
    applyCommits bronze ((stageCommits readers raw rawSnapshotId registry stamps bronze
        EXCHANGES).take cut) t = bronze t ∨
      ∃ source frames, Decodes readers raw rawSnapshotId registry bronze t.exchange source frames ∧
        applyCommits bronze ((stageCommits readers raw rawSnapshotId registry stamps bronze
          EXCHANGES).take cut) t =
            bronze t ++ [commitOf readers rawSnapshotId stamps frames t] := by
  have hpre := (List.take_prefix cut (stageCommits readers raw rawSnapshotId registry stamps
    bronze EXCHANGES)).filter fun c => decide (c.1 = t)
  have hnone : ∀ {commits : List (VenueTable × DataSnapshot (BronzeRow J))},
      (commits.filter fun c => c.1 = t) = [] → applyCommits bronze commits t = bronze t := by
    intro commits h
    rw [applyCommits, h, List.map_nil, List.append_nil]
  rcases filter_stageCommits hplaced t (show EXCHANGES.Nodup by decide) with
    hnil | ⟨commits, hcommits, hfilter⟩
  · rw [hnil] at hpre
    exact Or.inl (hnone (List.prefix_nil.1 hpre))
  · rw [hfilter] at hpre
    rcases venueCommits_cases hplaced hcommits with rfl | ⟨source, frames, hdecodes, rfl⟩
    · exact Or.inl (hnone (List.prefix_nil.1 hpre))
    · rw [filter_map_commitOf] at hpre
      rcases List.prefix_cons_iff.1 hpre with hnil | ⟨rest, hcons, hrest⟩
      · exact Or.inl (hnone hnil)
      · refine Or.inr ⟨source, frames, hdecodes, ?_⟩
        rw [applyCommits, hcons, List.prefix_nil.1 hrest]
        rfl

/-- A venue whose tables are not level gets no commits. -/
theorem applyCommits_torn (hplaced : ∀ t, Placed raw (bronze t)) (cut : Nat) {v : Exchange}
    (htorn : Torn bronze v) {t : VenueTable} (ht : t ∈ tablesOf v) :
    applyCommits bronze ((stageCommits readers raw rawSnapshotId registry stamps bronze
      EXCHANGES).take cut) t = bronze t := by
  rcases applyCommits_cases hplaced cut t with h | ⟨source, frames, hdecodes, -⟩
  · exact h
  · obtain ⟨a, ha, b, hb, hne⟩ := htorn
    rw [mem_tablesOf.1 ht] at hdecodes
    exact absurd (hdecodes.level a ha b hb) hne

end Turns

/-! ## Every state reached -/

section Reach

variable {J : Type} {readers : Readers J} {st st' : State J}

variable (readers) in
/-- What was to be decoded of the snapshots up to the table's position is there, once each. -/
def Holds (st : State J) (t : VenueTable) : Prop :=
  Copied id st.raw ((st.decodedWith t).map (making readers t)) (st.bronze t)

/-- A table as it was created. -/
theorem holds_created {t : VenueTable} (hbronze : st.bronze t = [])
    (hanswers : st.decodedWith t = []) : Holds readers st t := by
  rw [Holds, hbronze, hanswers]
  exact copied_nil id st.raw

theorem Holds.rows {t : VenueTable} (h : Holds readers st t) :
    (st.bronze t).rows.Perm (expected readers st.raw (st.decodedWith t) t) := by
  have hrows := Copied.rows h
  rwa [List.map_id] at hrows

theorem Holds.reach {t : VenueTable} (h : Holds readers st t) :
    (st.decodedWith t).length = st.reach t := by
  have hreach := Copied.reach h
  rwa [List.length_map] at hreach

/-! ### Where a row is from -/

/-- What a bronze row has of the row of `raw.messages` that it was decoded from, and of the record
    that was in that. -/
structure DecodedFrom (readers : Readers J) (t : VenueTable) (registry : Registry) (row : RawRow)
    (r : RawMessageRecord) (b : BronzeRow J) : Prop where
  made : making readers t registry row = some [b]
  frame : isFrameOf t.exchange row = true
  record : ∃ id schema, row.schemaId = some id ∧ registry id = .schema schema ∧
    decodeRow readers schema row = some (some r)
  stream : r.stream = t.stream
  place : (b.srcTopic, b.srcPartition, b.srcOffset) = (row.topic, row.partition, row.offset)
  received : (b.recvTsNs, b.connId, b.connMsgSeq) = (r.recvTsNs, r.connId, r.connMsgSeq)

theorem decodedFrom_of_making {t : VenueTable} {registry : Registry} {row : RawRow}
    {b : BronzeRow J} {l : List (BronzeRow J)} (h : making readers t registry row = some l)
    (hb : b ∈ l) : ∃ r, DecodedFrom readers t registry row r b := by
  have hmaking := h
  unfold making at h
  split at h
  · rename_i hframe
    obtain ⟨o, ho, rfl⟩ := Option.map_eq_some_iff.1 h
    obtain rfl : o = some b := Option.mem_toList.1 hb
    unfold bronzeRow at ho
    split at ho
    · rename_i schema hschema
      obtain ⟨id, hid, hfetch⟩ := Option.map_eq_some_iff.1 hschema
      obtain ⟨r, hr, hproject⟩ := Option.map_eq_some_iff.1 ho
      obtain ⟨record, hrecord, hrow⟩ := Option.bind_eq_some_iff.1 hproject
      have hdecoded : decodeRow readers schema row = some (some record) := by
        rw [hr]
        exact congrArg some hrecord
      split at hrow
      · rename_i hstream
        cases hrow
        exact ⟨record, hmaking, hframe, ⟨id, schema, hid, hfetch, hdecoded⟩, hstream, rfl, rfl⟩
      · cases hrow
    · cases ho
    · cases ho
  · cases h
    exact absurd hb List.not_mem_nil

theorem Holds.decodedFrom {t : VenueTable} (h : Holds readers st t) {b : BronzeRow J}
    (hb : b ∈ (st.bronze t).rows) : ∃ row registry r,
      ReadWith st.raw (st.decodedWith t) row registry ∧ DecodedFrom readers t registry row r b := by
  obtain ⟨row, registry, l, hread, hl, hmem⟩ := readWith_of_mem (h.rows.mem_iff.1 hb)
  obtain ⟨r, hdecoded⟩ := decodedFrom_of_making hl hmem
  exact ⟨row, registry, r, hread, hdecoded⟩

/-! ### Maintenance -/

theorem srcSnapshotId_update {t : VenueTable} {s : DataSnapshot (BronzeRow J)}
    (hs : Snapshot.writtenBy JOB_DECODE ⟨s.committedAt, s.summary⟩ = false)
    (hvalid : DataTable.Valid (st.bronze t ++ [s])) (u : VenueTable) :
    (Function.update st.bronze t (st.bronze t ++ [s]) u).srcSnapshotId =
      (st.bronze u).srcSnapshotId := by
  by_cases hu : u = t
  · subst hu
    rw [Function.update_self, srcSnapshotId_maintain hvalid hs]
  · rw [Function.update_of_ne hu]

theorem rows_update {t : VenueTable} {s : DataSnapshot (BronzeRow J)} (hs : s.rows = [])
    (u : VenueTable) :
    (Function.update st.bronze t (st.bronze t ++ [s]) u).rows = (st.bronze u).rows := by
  by_cases hu : u = t
  · subst hu
    rw [Function.update_self, DataTable.rows_append, DataTable.rows, DataTable.rows,
      List.flatMap_singleton, hs, List.append_nil]
  · rw [Function.update_of_ne hu]

/-! ### Runs -/

section Run

variable {rawSnapshotId : String} {registry : Exchange → Registry}
  {stamps : VenueTable → Nat × Int} {cut : Nat}

/-- **One table through a run**: it stays as it is, or the position goes to the snapshot that the
    run was given, and the frames in between are added. -/
theorem run_cases (hplaced : ∀ t, Placed st.raw (st.bronze t)) (t : VenueTable)
    (hvalid : ((st.run readers rawSnapshotId registry stamps cut).bronze t).Valid) :
    (st.run readers rawSnapshotId registry stamps cut).bronze t = st.bronze t ∨
      ∃ n frames, st.raw.place rawSnapshotId = some n ∧ st.reach t < n ∧
        decodedRaw readers (registry t.exchange) ((DataTable.rows ((st.raw.drop (st.reach t)).take
          (n - st.reach t))).filter (isFrameOf t.exchange)) = .frames frames ∧
        ((st.run readers rawSnapshotId registry stamps cut).bronze t).srcSnapshotId =
          some rawSnapshotId ∧
        ((st.run readers rawSnapshotId registry stamps cut).bronze t).rows =
          (st.bronze t).rows ++ frames.filterMap (project readers t) := by
  have hbronze : (st.run readers rawSnapshotId registry stamps cut).bronze t = applyCommits
      st.bronze ((stageCommits readers st.raw rawSnapshotId registry stamps st.bronze
        EXCHANGES).take cut) t := rfl
  rw [hbronze] at hvalid ⊢
  rcases applyCommits_cases hplaced cut t with hsame | ⟨source, frames, hdecodes, happend⟩
  · exact Or.inl hsame
  · rw [happend] at hvalid ⊢
    obtain ⟨rows, hread, rfl⟩ := Option.map_eq_some_iff.1 (hdecodes.read t (mem_tablesOf.2 rfl)).2
    obtain ⟨n, hn, hlt, rfl⟩ := readFrom_eq hread
    refine Or.inr ⟨n, frames, hn, hlt, hdecodes.frames, srcSnapshotId_commit hvalid rfl, ?_⟩
    rw [DataTable.rows_append, DataTable.rows.eq_1 [_], List.flatMap_singleton]
    rfl

theorem placed_run (hplaced : ∀ t, Placed st.raw (st.bronze t))
    (hvalid : ∀ t, ((st.run readers rawSnapshotId registry stamps cut).bronze t).Valid) :
    ∀ t, Placed st.raw ((st.run readers rawSnapshotId registry stamps cut).bronze t) := by
  intro t text htext
  rcases run_cases hplaced t (hvalid t) with hsame | ⟨n, frames, hn, -, -, hstart, -⟩
  · exact hplaced t text (hsame ▸ htext)
  · rw [hstart] at htext
    cases htext
    exact ⟨n, hn⟩

theorem Holds.run (hplaced : ∀ t, Placed st.raw (st.bronze t)) {t : VenueTable}
    (h : Holds readers st t)
    (hvalid : ((st.run readers rawSnapshotId registry stamps cut).bronze t).Valid) :
    Holds readers (st.run readers rawSnapshotId registry stamps cut) t := by
  have hanswers : (st.run readers rawSnapshotId registry stamps cut).decodedWith t =
      st.decodedWith t ++ List.replicate
        (reachOf st.raw ((st.run readers rawSnapshotId registry stamps cut).bronze t) - st.reach t)
        (registry t.exchange) := rfl
  have hmakings : Holds readers (st.run readers rawSnapshotId registry stamps cut) t ↔
      Copied id st.raw ((st.decodedWith t).map (making readers t) ++ List.replicate
        (reachOf st.raw ((st.run readers rawSnapshotId registry stamps cut).bronze t) - st.reach t)
        (making readers t (registry t.exchange)))
        ((st.run readers rawSnapshotId registry stamps cut).bronze t) := by
    rw [Holds, hanswers, List.map_append, List.map_replicate]
    rfl
  rw [hmakings]
  rcases run_cases hplaced t hvalid with hsame | ⟨n, frames, hn, hlt, hframes, hstart, hrows⟩
  · rw [hsame, State.reach, Nat.sub_self, List.replicate_zero, List.append_nil]
    exact h
  · have hreach := reachOf_of_srcSnapshotId hstart hn
    obtain ⟨hmade, hperm⟩ := making_range hframes
    rw [hreach]
    refine Copied.advance h hlt.le hreach rfl hmade ?_
    rw [List.map_id, List.map_id, hrows]
    exact hperm.append_left _

end Run

/-! ### Every step -/

theorem placed_step (hplaced : ∀ t, Placed st.raw (st.bronze t)) (hstep : Step readers st st') :
    ∀ t, Placed st'.raw (st'.bronze t) := by
  cases hstep with
  | grow raw hpre _ =>
    obtain ⟨later, rfl⟩ := hpre
    exact fun t => (hplaced t).later later
  | maintain t s _ hs hvalid =>
    exact fun u text htext => hplaced u text ((srcSnapshotId_update hs hvalid u).symm.trans htext)
  | run rawSnapshotId registry stamps cut hvalid => exact placed_run hplaced hvalid

theorem Holds.step (hplaced : ∀ t, Placed st.raw (st.bronze t)) {t : VenueTable}
    (h : Holds readers st t) (hstep : Step readers st st') : Holds readers st' t := by
  cases hstep with
  | grow raw hpre _ =>
    obtain ⟨later, rfl⟩ := hpre
    exact Copied.later h (hplaced t) later
  | maintain u s hrows hs hvalid =>
    exact Copied.same h (srcSnapshotId_update hs hvalid t) (rows_update hrows t)
  | run rawSnapshotId registry stamps cut hvalid => exact h.run hplaced (hvalid t)

theorem placed_steps (hplaced : ∀ t, Placed st.raw (st.bronze t))
    (hsteps : ReflTransGen (Step readers) st st') : ∀ t, Placed st'.raw (st'.bronze t) := by
  induction hsteps with
  | refl => exact hplaced
  | tail _ hstep ih => exact placed_step ih hstep

theorem Holds.steps (hplaced : ∀ t, Placed st.raw (st.bronze t)) {t : VenueTable}
    (h : Holds readers st t) (hsteps : ReflTransGen (Step readers) st st') :
    Holds readers st' t := by
  induction hsteps with
  | refl => exact h
  | tail hsteps hstep ih => exact ih.step (placed_steps hplaced hsteps) hstep

/-! ## Torn venues -/

theorem torn_of_same {bronze bronze' : VenueTable → BronzeTable J} {v : Exchange}
    (h : ∀ t ∈ tablesOf v, (bronze' t).srcSnapshotId = (bronze t).srcSnapshotId)
    (htorn : Torn bronze v) : Torn bronze' v := by
  obtain ⟨t, ht, u, hu, hne⟩ := htorn
  refine ⟨t, ht, u, hu, ?_⟩
  rw [h t ht, h u hu]
  exact hne

/-- One step leaves the tables of a torn venue where they stand, with the rows they have. -/
theorem torn_step (hplaced : ∀ t, Placed st.raw (st.bronze t)) {v : Exchange}
    (htorn : Torn st.bronze v) (hstep : Step readers st st') :
    ∀ t ∈ tablesOf v, (st'.bronze t).srcSnapshotId = (st.bronze t).srcSnapshotId ∧
      (st'.bronze t).rows = (st.bronze t).rows := by
  intro t ht
  cases hstep with
  | grow raw hpre _ => exact ⟨rfl, rfl⟩
  | maintain u s hrows hs hvalid => exact ⟨srcSnapshotId_update hs hvalid t, rows_update hrows t⟩
  | run rawSnapshotId registry stamps cut hvalid =>
    have hsame : (st.run readers rawSnapshotId registry stamps cut).bronze t = st.bronze t :=
      applyCommits_torn hplaced cut htorn ht
    rw [hsame]
    exact ⟨rfl, rfl⟩

/-- A venue whose tables are all level gets no commits. -/
theorem venueCommits_of_level {raw : DataTable RawRow} {bronze : VenueTable → BronzeTable J}
    {rawSnapshotId : String} (hne : rawSnapshotId ≠ "") {v : Exchange}
    (h : ∀ t ∈ tablesOf v, (bronze t).srcSnapshotId = some rawSnapshotId)
    {registry : Exchange → Registry} {stamps : VenueTable → Nat × Int} :
    venueCommits readers raw rawSnapshotId registry stamps bronze v = some [] := by
  have hstarts : ((tablesOf v).map fun t => (bronze t).srcSnapshotId) =
      (tablesOf v).map fun _ => some rawSnapshotId := List.map_congr_left h
  obtain ⟨t, rest, hcons⟩ := List.exists_cons_of_ne_nil (tablesOf_ne_nil v)
  have hsame : ¬ ∃ a ∈ (tablesOf v).map fun _ => some rawSnapshotId,
      ∃ b ∈ (tablesOf v).map fun _ => some rawSnapshotId, strOf a ≠ strOf b := by
    rintro ⟨a, ha, b, hb, hdiffer⟩
    obtain ⟨_, _, rfl⟩ := List.mem_map.1 ha
    obtain ⟨_, _, rfl⟩ := List.mem_map.1 hb
    exact hdiffer rfl
  unfold venueCommits
  simp only [hstarts]
  rw [if_neg hsame, if_pos]
  rw [hcons, List.map_cons, List.head?_cons, Option.join_some, Option.filter_some,
    if_pos (decide_eq_true hne)]

/-- The run ends at a torn venue. -/
theorem venueCommits_of_torn {raw : DataTable RawRow} {bronze : VenueTable → BronzeTable J}
    (hplaced : ∀ t, Placed raw (bronze t)) {v : Exchange} (htorn : Torn bronze v)
    (rawSnapshotId : String) (registry : Exchange → Registry) (stamps : VenueTable → Nat × Int) :
    venueCommits readers raw rawSnapshotId registry stamps bronze v = none := by
  obtain ⟨t, ht, u, hu, hne⟩ := htorn
  have hdiffer : strOf (bronze t).srcSnapshotId ≠ strOf (bronze u).srcSnapshotId := fun h =>
    hne (strOf_inj (hplaced t) (hplaced u) h)
  unfold venueCommits
  exact if_pos ⟨_, List.mem_map_of_mem ht, _, List.mem_map_of_mem hu, hdiffer⟩

/-- **A torn venue stays as it is** whatever runs come after. -/
theorem torn_forever (hplaced : ∀ t, Placed st.raw (st.bronze t)) {v : Exchange}
    (htorn : Torn st.bronze v) (hsteps : ReflTransGen (Step readers) st st') :
    ∀ t ∈ tablesOf v, (st'.bronze t).srcSnapshotId = (st.bronze t).srcSnapshotId ∧
      (st'.bronze t).rows = (st.bronze t).rows := by
  induction hsteps with
  | refl => exact fun t _ => ⟨rfl, rfl⟩
  | tail hsteps hstep ih =>
    intro t ht
    have htorn' := torn_of_same (fun u hu => (ih u hu).1) htorn
    have hlast := torn_step (placed_steps hplaced hsteps) htorn' hstep t ht
    exact ⟨hlast.1.trans (ih t ht).1, hlast.2.trans (ih t ht).2⟩

/-- **Bronze decodes each frame once.**  In every state reached, a table holds the framed rows of
    its exchange and stream whose schema id resolved when their range was decoded, each once, up to
    the snapshot that it has recorded, and none of these rows was passed over because it raised;
    and a venue whose tables have recorded different snapshots is not decoded any further. -/
theorem bronze_decoded_once (h : Reached readers st) :
    (∀ t, (st.bronze t).rows.Perm (expected readers st.raw (st.decodedWith t) t) ∧
      (∀ p ∈ st.raw.zip ((st.decodedWith t).map (making readers t)), ∀ row ∈ p.1.rows,
        (p.2 row).isSome) ∧
      (st.decodedWith t).length = st.reach t ∧
      ∀ text, (st.bronze t).srcSnapshotId = some text →
        st.raw.place text = some (st.reach t)) ∧
    ∀ v, Torn st.bronze v → ∀ st', ReflTransGen (Step readers) st st' → ∀ t ∈ tablesOf v,
      (st'.bronze t).srcSnapshotId = (st.bronze t).srcSnapshotId ∧
        (st'.bronze t).rows = (st.bronze t).rows := by
  have hstart : ∀ t, Placed (State.start : State J).raw ((State.start : State J).bronze t) :=
    fun _ => placed_nil _
  have hplaced := placed_steps hstart h
  have hholds : ∀ t, Holds readers st t := fun t => (holds_created rfl rfl).steps hstart h
  refine ⟨fun t => ⟨(hholds t).rows, Copied.made (hholds t), (hholds t).reach, fun text htext => ?_⟩,
    fun v htorn st' hsteps => torn_forever hplaced htorn hsteps⟩
  exact place_srcSnapshotId (hplaced t) htext

/-- **A row of a bronze table** is a frame of its exchange and stream, decoded with what the
    registry answered the run that read it, and its lineage is where that frame is in
    `raw.messages`. -/
theorem mem_bronze_decodedFrom (h : Reached readers st) {t : VenueTable} {b : BronzeRow J}
    (hb : b ∈ (st.bronze t).rows) : ∃ row registry r,
      ReadWith st.raw (st.decodedWith t) row registry ∧ DecodedFrom readers t registry row r b := by
  have hholds : Holds readers st t := (holds_created rfl rfl).steps (fun _ => placed_nil _) h
  exact hholds.decodedFrom hb

end Reach

/-! ## A run that is killed -/

def RAW_MESSAGE : String :=
  "\x7b\"type\":\"record\",\"name\":\"RawMessage\",\"fields\":[" ++
    "\x7b\"name\":\"exchange\",\"type\":\"string\"\x7d," ++
    "\x7b\"name\":\"stream\",\"type\":\"string\"\x7d," ++
    "\x7b\"name\":\"symbol\",\"type\":[\"null\",\"string\"]\x7d," ++
    "\x7b\"name\":\"recv_ts_ns\",\"type\":\"long\"\x7d," ++
    "\x7b\"name\":\"conn_id\",\"type\":\"string\"\x7d," ++
    "\x7b\"name\":\"conn_msg_seq\",\"type\":\"long\"\x7d," ++
    "\x7b\"name\":\"payload\",\"type\":\"bytes\"\x7d]\x7d"

/-- `from_avro` on what Avro makes of these records. -/
def knownAvro (records : List RawMessageRecord) (schema : String) (body : Bytes) :
    Option RawMessageRecord :=
  if schema = RAW_MESSAGE then records.find? fun r => K2.Capture.avroRaw r = body else none

/-- The row of `raw.messages` with a record under schema id 3. -/
def framedRow (offset : Int) (r : RawMessageRecord) : RawRow where
  topic := "market.crypto.v3.raw." ++ r.exchange
  partition := 0
  offset := offset
  kafkaTs := 1000
  ingestTs := 2000
  key := none
  schemaId := some 3
  payload := some ([0, 0, 0, 0, 3] ++ K2.Capture.avroRaw r)
  headers := Dict.empty

def oneSchema : Exchange → Registry := fun _ id =>
  if id = 3 then .schema RAW_MESSAGE else .unresolvable

/-- A frame whose payload is an empty object. -/
def emptyFrame (exchange stream : String) (connMsgSeq : Int) : RawMessageRecord :=
  ⟨exchange, stream, none, 1000, "k-1", connMsgSeq, [123, 125]⟩

def emptyFrames : List RawMessageRecord :=
  [emptyFrame "binance" "depth20" 1, emptyFrame "kraken" "trade" 4, emptyFrame "kraken" "book" 5,
    emptyFrame "kraken" "trade" 6]

/-- The readers on those frames: a column that the object does not have is NULL. -/
def emptyFrameReaders : Readers (List (Option String)) where
  fromAvro := knownAvro emptyFrames
  fromJson schema payload :=
    if payload = [123, 125] then
      if schema ∈ (tablesOf .binance).map VenueTable.schema then [none, none]
      else if schema ∈ (tablesOf .kraken).map VenueTable.schema then [none, none, none]
      else [none, none, none, none]
    else []

/-- Two commits of stage 1; the record of offset 6 was not framed. -/
def emptyArchive : DataTable RawRow :=
  [⟨70, 5, Dict.empty, [framedRow 3 (emptyFrame "binance" "depth20" 1),
    framedRow 5 (emptyFrame "kraken" "trade" 4)]⟩,
   ⟨71, 10, Dict.empty, [{ framedRow 6 (emptyFrame "kraken" "book" 5) with
      schemaId := none
      payload := some [123, 125] },
    framedRow 7 (emptyFrame "kraken" "book" 5), framedRow 8 (emptyFrame "kraken" "trade" 6)]⟩]

def emptyArchived : State (List (Option String)) :=
  { (State.start : State (List (Option String))) with raw := emptyArchive }

/-- The run gets to the first of Kraken's tables, past the two of Binance. -/
def killed : State (List (Option String)) :=
  State.run emptyFrameReaders "71" oneSchema (fun _ => (72, 20)) 3 emptyArchived

/-- The run after it. -/
def afterKilled : State (List (Option String)) :=
  State.run emptyFrameReaders "71" oneSchema (fun _ => (73, 30)) 7 killed

theorem killed_eval :
    ((∀ t ∈ VENUE_TABLES, (killed.bronze t).length ≤ 1) ∧
      ∀ t ∈ VENUE_TABLES, (afterKilled.bronze t).length ≤ 1) ∧
    (killed.bronze .krakenTrade).srcSnapshotId ≠ (killed.bronze .krakenBook).srcSnapshotId ∧
    (killed.bronze .krakenTrade).rows.map BronzeRow.srcOffset = [5, 8] ∧
    (killed.bronze .binanceDepth20).rows.map BronzeRow.srcOffset = [3] := by
  decide +kernel

theorem killed_reached : Reached emptyFrameReaders killed := by
  have hraw : emptyArchive.Valid := by decide
  exact (ReflTransGen.single (Step.grow emptyArchive List.nil_prefix hraw)).tail
    (Step.run "71" oneSchema (fun _ => (72, 20)) 3
      fun t => DataTable.Valid.of_length_le_one (killed_eval.1.1 t (mem_VENUE_TABLES t)))

/-- Two trade frames of Kraken's four records are in its trade table, the depth frame is in
    Binance's, and the book frame in no table: the run was killed before it. -/
theorem frame_decoded_once :
    (killed.bronze .krakenTrade).rows.map BronzeRow.srcOffset = [5, 8] ∧
      (killed.bronze .krakenTrade).rows.Perm (expected emptyFrameReaders killed.raw
        (killed.decodedWith .krakenTrade) .krakenTrade) ∧
      (killed.bronze .binanceDepth20).rows.map BronzeRow.srcOffset = [3] ∧
      (killed.bronze .binanceDepth20).rows.Perm (expected emptyFrameReaders killed.raw
        (killed.decodedWith .binanceDepth20) .binanceDepth20) ∧
      Torn killed.bronze .kraken ∧
      (afterKilled.bronze .krakenBook).rows = (killed.bronze .krakenBook).rows := by
  obtain ⟨⟨-, hafter⟩, hapart, htrades, hdepths⟩ := killed_eval
  have htorn : Torn killed.bronze .kraken :=
    ⟨.krakenTrade, by decide, .krakenBook, by decide, hapart⟩
  have hstep : Step emptyFrameReaders killed afterKilled :=
    Step.run "71" oneSchema (fun _ => (73, 30)) 7
      fun t => DataTable.Valid.of_length_le_one (hafter t (mem_VENUE_TABLES t))
  have hboth := bronze_decoded_once killed_reached
  exact ⟨htrades, (hboth.1 .krakenTrade).1, hdepths, (hboth.1 .binanceDepth20).1, htorn,
    (hboth.2 .kraken htorn afterKilled (ReflTransGen.single hstep) .krakenBook (by decide)).2⟩

end K2.Lake.Bronze

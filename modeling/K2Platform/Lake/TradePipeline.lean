import K2Platform.Lake.SilverRebuild

/-!
# From archived frames to `gold.trades`

The trade half of `ingest.py::main`: stage 1 appends to `raw.messages`, `bronze.py::stage` decodes
what has come there, `silver.py::stage` types what has come to bronze, and `stage_trades` of
`gold.py` takes over what has come to silver; each of them may be killed between its commits, and
the compaction of maintenance commits to the same tables (that it also expires their snapshots is
left out).  What one layer sees of such a history is a history of its own steps, in which its source
grows.

* `layers_of_reached` — so every layer is in a state that its own stage reaches.
* `gold_traced` — a gold row is a trade of one archived frame, and its lineage names that frame.
* `nothing_lost` — once the stages have caught up, no trade of a decoded frame is missing.
* `identifiers_unique` — no two rows have the identifier fields that `audit_duplicates` checks.
-/

set_option autoImplicit false

namespace K2.Lake.Pipeline

open Bronze (BronzeRow BronzeTable VenueTable Readers DecodedFrom making isFrameOf)
open K2.Capture (RawMessageRecord)
open SilverTrades (SparkText TradeColumns typedTrades source)
open Relation

/-! ## The lake -/

structure State (J : Type) where
  raw : DataTable RawRow
  bronze : VenueTable → BronzeTable J
  decodedWith : VenueTable → List Bronze.Registry
  silver : Recorded.Silver
  typedWith : Exchange → List (Registry × Int)
  gold : DataTable GoldTrade

namespace State

variable {J : Type}

def start : State J := ⟨[], fun _ => [], fun _ => [], fun _ => [], fun _ => [], []⟩

/-- What `bronze.py` sees of it. -/
def bronzeState (st : State J) : Bronze.State J := ⟨st.raw, st.bronze, st.decodedWith⟩

/-- What `silver.py` sees of it. -/
def silverState (st : State J) : SilverTrades.State J := ⟨st.bronze, st.silver, st.typedWith⟩

/-- What `gold.py` sees of it. -/
def goldState (st : State J) : Recorded.State := ⟨st.silver, st.gold⟩

end State

section Steps

variable {J : Type} (readers : Readers J) (spark : SparkText) (columns : TradeColumns J)

/-- A step of one of the layers; a stage does not touch the layer below it. -/
inductive Step : State J → State J → Prop
  | bronze {st : State J} {next : Bronze.State J} : Bronze.Step readers st.bronzeState next →
      Step st { st with
        raw := next.raw, bronze := next.bronze, decodedWith := next.decodedWith }
  | silver {st : State J} {next : SilverTrades.State J} :
      SilverTrades.Step spark columns st.silverState next → next.bronze = st.bronze →
      Step st { st with silver := next.silver, typedWith := next.typedWith }
  | gold {st : State J} {next : Recorded.State} : Recorded.Step st.goldState next →
      next.silver = st.silver → Step st { st with gold := next.gold }

def Reached (st : State J) : Prop := ReflTransGen (Step readers spark columns) State.start st

end Steps

/-! ## What a layer sees -/

section Layers

variable {J : Type} {readers : Readers J} {spark : SparkText} {columns : TradeColumns J}
  {st st' : State J}

/-- A step of `bronze.py` only adds to its tables. -/
theorem bronze_grows {st next : Bronze.State J} (h : Bronze.Step readers st next)
    (hvalid : ∀ t, (st.bronze t).Valid) :
    (∀ t, st.bronze t <+: next.bronze t) ∧ ∀ t, (next.bronze t).Valid := by
  cases h with
  | grow raw _ _ => exact ⟨fun t => List.prefix_rfl, hvalid⟩
  | maintain t s _ _ hmaintained =>
    refine ⟨fun u => ?_, fun u => ?_⟩
    · show st.bronze u <+: Function.update st.bronze t (st.bronze t ++ [s]) u
      by_cases hu : u = t
      · subst hu
        rw [Function.update_self]
        exact List.prefix_append _ _
      · rw [Function.update_of_ne hu]
    · show (Function.update st.bronze t (st.bronze t ++ [s]) u).Valid
      by_cases hu : u = t
      · subst hu
        rwa [Function.update_self]
      · rw [Function.update_of_ne hu]
        exact hvalid u
  | run rawSnapshotId registry stamps cut hrun =>
    exact ⟨fun t => List.prefix_append _ _, hrun⟩

/-- A step of `silver.py` only adds to its tables. -/
theorem silver_grows {st next : SilverTrades.State J} (h : SilverTrades.Step spark columns st next)
    (hvalid : ∀ v, (st.silver v).Valid) :
    (∀ v, st.silver v <+: next.silver v) ∧ ∀ v, (next.silver v).Valid := by
  cases h with
  | grow bronze _ _ => exact ⟨fun v => List.prefix_rfl, hvalid⟩
  | maintain v s _ _ hmaintained =>
    refine ⟨fun w => ?_, fun w => ?_⟩
    · show st.silver w <+: Function.update st.silver v (st.silver v ++ [s]) w
      by_cases hw : w = v
      · subst hw
        rw [Function.update_self]
        exact List.prefix_append _ _
      · rw [Function.update_of_ne hw]
    · show (Function.update st.silver v (st.silver v ++ [s]) w).Valid
      by_cases hw : w = v
      · subst hw
        rwa [Function.update_self]
      · rw [Function.update_of_ne hw]
        exact hvalid w
  | run answers stamps cut hrun => exact ⟨fun v => List.prefix_append _ _, hrun⟩

/-- The tables are valid, and each layer is in a state that its own steps reach. -/
structure Layers (readers : Readers J) (spark : SparkText) (columns : TradeColumns J)
    (st : State J) : Prop where
  bronzeValid : ∀ t, (st.bronze t).Valid
  silverValid : ∀ v, (st.silver v).Valid
  bronze : Bronze.Reached readers st.bronzeState
  silver : SilverTrades.Reached spark columns st.silverState
  gold : Recorded.Reached st.goldState

theorem layers_start : Layers readers spark columns (State.start : State J) where
  bronzeValid := fun _ => ⟨List.nodup_nil, List.Pairwise.nil⟩
  silverValid := fun _ => ⟨List.nodup_nil, List.Pairwise.nil⟩
  bronze := ReflTransGen.refl
  silver := ReflTransGen.refl
  gold := ReflTransGen.refl

/-- **A step of one layer** is a step of its own, and the growth of its source to the next. -/
theorem Layers.step (h : Layers readers spark columns st)
    (hstep : Step readers spark columns st st') : Layers readers spark columns st' := by
  cases hstep with
  | @bronze next hnext =>
    obtain ⟨hgrows, hvalid⟩ := bronze_grows hnext h.bronzeValid
    have hsilver : SilverTrades.Step spark columns st.silverState
        { st.silverState with bronze := next.bronze } := .grow next.bronze hgrows hvalid
    exact ⟨hvalid, h.silverValid, h.bronze.tail hnext, h.silver.tail hsilver, h.gold⟩
  | @silver next hnext hbronze =>
    obtain ⟨hgrows, hvalid⟩ := silver_grows hnext h.silverValid
    have hown : SilverTrades.Reached spark columns
        (⟨st.bronze, next.silver, next.typedWith⟩ : SilverTrades.State J) := by
      rw [← hbronze]
      exact h.silver.tail hnext
    have hgold : Recorded.Step st.goldState { st.goldState with silver := next.silver } :=
      .grow next.silver hgrows hvalid
    exact ⟨h.bronzeValid, hvalid, h.bronze, hown, h.gold.tail hgold⟩
  | @gold next hnext hsilver =>
    have hown : Recorded.Reached (⟨st.silver, next.gold⟩ : Recorded.State) := by
      rw [← hsilver]
      exact h.gold.tail hnext
    exact ⟨h.bronzeValid, h.silverValid, h.bronze, h.silver, hown⟩

/-- **Each layer of a lake that was reached is in a state that its own stage reaches.** -/
theorem layers_of_reached (h : Reached readers spark columns st) :
    Layers readers spark columns st := by
  induction h with
  | refl => exact layers_start
  | tail _ hstep ih => exact ih.step hstep

/-! ### What the layers hold -/

theorem Layers.decoded (h : Layers readers spark columns st) (t : VenueTable) :
    Bronze.Holds readers st.bronzeState t :=
  (Bronze.holds_created rfl rfl).steps (fun _ => placed_nil _) h.bronze

theorem Layers.typed (h : Layers readers spark columns st) (v : Exchange) :
    SilverTrades.Holds spark columns st.silverState v :=
  (SilverTrades.holds_created rfl rfl).steps SilverTrades.sound_start h.silver

/-- The rows of a venue in `gold.trades`. -/
theorem Layers.taken (h : Layers readers spark columns st) (v : Exchange) :
    (st.gold.rows.filter fun r => r.exchange = v).map GoldTrade.timeless =
      projectSilver v 0 (DataTable.rows ((st.silver v).take (st.goldState.reach v))) := by
  obtain ⟨-, -, log, hsim, hsynced⟩ := Recorded.inv_of_reached h.gold
  have hrows := (hsynced v).2
  have hreach : st.goldState.reach v = (position log v).getD 0 := by
    rw [Recorded.State.reach, ← hsim.position]
  rw [ofVenue, Recorded.rows_of_simulates hsim, ← hreach, Recorded.logs, ← List.map_take,
    Recorded.rows_logs] at hrows
  exact hrows

end Layers

/-! ## Where a gold row is from -/

section Trace

variable {J : Type} {readers : Readers J} {spark : SparkText} {columns : TradeColumns J}
  {st : State J} {v : Exchange}

/-- The archived frame that a gold row is a trade of: a run decoded it to a row of bronze, another
    typed that to trades, and one of them is the silver row that the gold row is a projection of. -/
structure TradeOf (readers : Readers J) (spark : SparkText) (columns : TradeColumns J)
    (st : State J) (row : RawRow) (g : GoldTrade) : Prop where
  frame : isFrameOf g.exchange row = true
  place : (g.srcTopic, g.srcPartition, g.srcOffset) = (row.topic, (row.partition : Int), row.offset)
  typed : ∃ registry r b answer trades,
    ReadWith st.raw (st.decodedWith (source g.exchange)) row registry ∧
      DecodedFrom readers (source g.exchange) registry row r b ∧
      (g.recvTsNs, g.connId, g.connMsgSeq) = (r.recvTsNs, r.connId, r.connMsgSeq) ∧
      ReadWith (st.bronze (source g.exchange)) (st.typedWith g.exchange) b answer ∧
      typedTrades spark columns g.exchange answer b = some trades ∧
      ∃ s ∈ (st.silver g.exchange).rows, s.toTypedTrade ∈ trades ∧ s.venueReplay = false ∧
        g.timeless = projectRow g.exchange 0 s

/-- A silver row was typed from a bronze row. -/
theorem Layers.typedFrom (h : Layers readers spark columns st) {s : SilverTrade}
    (hs : s ∈ (st.silver v).rows) : ∃ b answer trades,
      ReadWith (st.bronze (source v)) (st.typedWith v) b answer ∧
        typedTrades spark columns v answer b = some trades ∧ s.toTypedTrade ∈ trades :=
  readWith_of_mem ((Copied.rows (h.typed v)).mem_iff.1 (List.mem_map_of_mem hs))

/-- A gold row was taken over from a silver row. -/
theorem Layers.takenFrom (h : Layers readers spark columns st) {g : GoldTrade}
    (hg : g ∈ st.gold.rows) : ∃ s ∈ (st.silver g.exchange).rows, s.venueReplay = false ∧
      g.timeless = projectRow g.exchange 0 s := by
  have hmem : g.timeless ∈ (st.gold.rows.filter fun r => r.exchange = g.exchange).map
      GoldTrade.timeless :=
    List.mem_map_of_mem (List.mem_filter.2 ⟨hg, decide_eq_true rfl⟩)
  rw [h.taken, projectSilver] at hmem
  obtain ⟨s, hs, hproject⟩ := List.mem_map.1 hmem
  obtain ⟨hs, hreplay⟩ := List.mem_filter.1 hs
  obtain ⟨snapshot, hsnapshot, hs⟩ := List.mem_flatMap.1 hs
  refine ⟨s, List.mem_flatMap.2 ⟨snapshot, List.mem_of_mem_take hsnapshot, hs⟩, ?_, hproject.symm⟩
  simpa using hreplay

theorem Layers.tradeOf (h : Layers readers spark columns st) {g : GoldTrade}
    (hg : g ∈ st.gold.rows) : ∃ row ∈ st.raw.rows, TradeOf readers spark columns st row g := by
  obtain ⟨s, hs, hreplay, hproject⟩ := h.takenFrom hg
  obtain ⟨b, answer, trades, htyped, htrades, hd⟩ := h.typedFrom hs
  obtain ⟨row, registry, r, hread, hdecoded⟩ := (h.decoded _).decodedFrom htyped.mem
  obtain ⟨rows, -, p, -, hcolumns⟩ := SilverTrades.mem_typedTrades htrades hd
  have hsource : (source g.exchange).exchange = g.exchange := by
    cases g.exchange <;> rfl
  have htaken : (g.srcTopic, g.srcPartition, g.srcOffset) =
      (s.srcTopic, s.srcPartition, s.srcOffset) ∧
        (g.recvTsNs, g.connId, g.connMsgSeq) = (s.recvTsNs, s.connId, s.connMsgSeq) :=
    ⟨congrArg (fun g => (g.srcTopic, g.srcPartition, g.srcOffset)) hproject,
      congrArg (fun g => (g.recvTsNs, g.connId, g.connMsgSeq)) hproject⟩
  refine ⟨row, hread.mem, ?_, ?_, registry, r, b, answer, trades, hread, hdecoded, ?_, htyped,
    htrades, s, hs, hd, hreplay, hproject⟩
  · rw [← hsource]
    exact hdecoded.frame
  · rw [htaken.1, hcolumns.lineage]
    exact congrArg (fun q : String × Nat × Int => (q.1, (q.2.1 : Int), q.2.2)) hdecoded.place
  · rw [htaken.2, hcolumns.received, hdecoded.received]

/-- **A gold row is a trade of one archived frame.**  In every state that the stages reach, however
    their commits are interleaved and wherever they are killed, the lineage of a row of
    `gold.trades` is where a frame of its exchange and of the trade stream is in `raw.messages`,
    its receive time and connection are those of that frame, and it is a projection of a row of
    silver that is not flagged as a replay, one of the trades that a row of bronze was typed to,
    which the frame was decoded to. -/
theorem gold_traced (h : Reached readers spark columns st) :
    ∀ g ∈ st.gold.rows, ∃ row ∈ st.raw.rows, TradeOf readers spark columns st row g :=
  fun _ hg => (layers_of_reached h).tradeOf hg

end Trace

/-! ## Once the stages have caught up -/

section Drained

variable {J : Type} {readers : Readers J} {spark : SparkText} {columns : TradeColumns J}
  {st : State J} {v : Exchange}

/-- The positions of the venue's trade tables are all at the newest snapshot of their source. -/
structure Drained (st : State J) (v : Exchange) : Prop where
  bronze : st.bronzeState.reach (source v) = st.raw.length
  silver : st.silverState.reach v = (st.bronze (source v)).length
  gold : st.goldState.reach v = (st.silver v).length

/-- What became of a row of `raw.messages` in the trade tables of a venue.  The run that read it
    decoded it with what the registry answered then; what came out is a row of bronze, which the run
    that read that typed to trades; each of them is a row of silver, and in gold unless it is
    flagged as a replay. -/
def Carried (readers : Readers J) (spark : SparkText) (columns : TradeColumns J) (st : State J)
    (v : Exchange) (row : RawRow) : Prop :=
  ∃ registry frames, ReadWith st.raw (st.decodedWith (source v)) row registry ∧
    making readers (source v) registry row = some frames ∧
      ∀ b ∈ frames, b ∈ (st.bronze (source v)).rows ∧
        ∃ answer trades, ReadWith (st.bronze (source v)) (st.typedWith v) b answer ∧
          typedTrades spark columns v answer b = some trades ∧
            ∀ d ∈ trades, ∃ s ∈ (st.silver v).rows, s.toTypedTrade = d ∧
              (s.venueReplay = false → projectRow v 0 s ∈ st.gold.rows.map GoldTrade.timeless)

theorem Layers.carried (h : Layers readers spark columns st) (hdrained : Drained st v)
    {row : RawRow} (hrow : row ∈ st.raw.rows) : Carried readers spark columns st v row := by
  have hdecoded := h.decoded (source v)
  have htyped := h.typed v
  have htaken := h.taken v
  rw [hdrained.gold, List.take_length] at htaken
  obtain ⟨registry, hread⟩ := exists_readWith (hdecoded.reach.trans hdrained.bronze) hrow
  obtain ⟨frames, hframes, hbronze⟩ := Copied.carried hdecoded hread
  refine ⟨registry, frames, hread, hframes, fun b hb => ?_⟩
  obtain ⟨b', hb', rfl⟩ := hbronze b hb
  obtain ⟨answer, hanswer⟩ := exists_readWith (htyped.reach.trans hdrained.silver) hb'
  obtain ⟨trades, htrades, hsilver⟩ := Copied.carried htyped hanswer
  refine ⟨hb', answer, trades, hanswer, htrades, fun d hd => ?_⟩
  obtain ⟨s, hs, hsd⟩ := hsilver d hd
  refine ⟨s, hs, hsd, fun hreplay => ?_⟩
  have hproject : projectRow v 0 s ∈ projectSilver v 0 (st.silver v).rows := by
    refine List.mem_map_of_mem (List.mem_filter.2 ⟨hs, ?_⟩)
    rw [hreplay]
    rfl
  rw [← htaken] at hproject
  obtain ⟨g, hg, heq⟩ := List.mem_map.1 hproject
  exact List.mem_map.2 ⟨g, List.mem_of_mem_filter hg, heq⟩

/-- **Nothing is lost.**  Once the stages have caught up, every row of `raw.messages` has been
    through the decode, with what the registry answered its run; what came out of it is in bronze
    and was typed, each of its trades is a row of silver, and is in gold unless it is flagged as a
    replay.  What gold and the flags account for is the number of trades in the decoded frames. -/
theorem nothing_lost (h : Reached readers spark columns st) (hdrained : Drained st v) :
    (∀ row ∈ st.raw.rows, Carried readers spark columns st v row) ∧
    (st.gold.rows.filter fun r => r.exchange = v).length +
        ((st.silver v).rows.filter SilverTrade.venueReplay).length =
      SilverTrades.tradesIn columns v (st.bronze (source v)).rows := by
  have hlayers := layers_of_reached h
  refine ⟨fun row hrow => hlayers.carried hdrained hrow, ?_⟩
  have htyped := hlayers.typed v
  have htaken := hlayers.taken v
  rw [hdrained.gold, List.take_length] at htaken
  have hgold := congrArg List.length htaken
  rw [List.length_map, projectSilver, List.length_map] at hgold
  have hcount : (st.silver v).rows.length =
      SilverTrades.tradesIn columns v (st.bronze (source v)).rows := by
    have hzero : (st.silver v).rows.length + 0 = SilverTrades.tradesIn columns v
        (DataTable.rows ((st.bronze (source v)).take (st.silverState.reach v))) :=
      SilverTrades.lacks_zero_of_holds htyped
    rw [hdrained.silver, List.take_length] at hzero
    exact hzero
  have hsplit := (List.filter_append_perm SilverTrade.venueReplay (st.silver v).rows).length_eq
  rw [List.length_append] at hsplit
  omega

end Drained

/-! ## Identifier fields -/

section Identifiers

variable {κ : Type} [DecidableEq κ]

/-- `audit_duplicates`: the keys that more than one row has. -/
def auditDuplicates (table : String) (fields : List String) (keys : List κ) : CheckResult :=
  let groups := (keys.dedup.map fun k => keys.count k).filter fun n => 1 < n
  let extra : Nat := (groups.map fun n => n - 1).sum
  let keyList := ", ".intercalate fields
  { check := "duplicate_identifiers"
    scope := table
    passed := decide (extra = 0)
    observed := (extra : Int)
    detail :=
      if extra = 0 then "(" ++ keyList ++ ") is unique"
      else toString groups.length ++ " duplicated keys, " ++ toString extra ++
        " extra rows on (" ++ keyList ++ ")" }

theorem sum_filter_pred (counts : List Nat) :
    (((counts.filter fun n => 1 < n).map fun n => n - 1).sum) = (counts.map fun n => n - 1).sum := by
  induction counts with
  | nil => rfl
  | cons n counts ih =>
    rw [List.filter_cons]
    split
    · rw [List.map_cons, List.sum_cons, ih, List.map_cons, List.sum_cons]
    · rename_i hn
      have hle : n - 1 = 0 := by
        simp only [decide_eq_true_eq] at hn
        omega
      rw [ih, List.map_cons, List.sum_cons, hle, Nat.zero_add]

theorem sum_pred_add_length {counts : List Nat} (h : ∀ n ∈ counts, 1 ≤ n) :
    (counts.map fun n => n - 1).sum + counts.length = counts.sum := by
  induction counts with
  | nil => rfl
  | cons n counts ih =>
    obtain ⟨hn, hcounts⟩ := List.forall_mem_cons.1 h
    have hrest := ih hcounts
    rw [List.map_cons, List.sum_cons, List.length_cons, List.sum_cons]
    omega

/-- **The audit counts the rows beyond the first of each key**, so it passes exactly where no two
    rows have the same. -/
theorem auditDuplicates_spec (table : String) (fields : List String) (keys : List κ) :
    (auditDuplicates table fields keys).observed = (keys.length : Int) - keys.dedup.length ∧
      ((auditDuplicates table fields keys).passed = true ↔ keys.Nodup) := by
  have hpos : ∀ n ∈ keys.dedup.map fun k => keys.count k, 1 ≤ n := by
    intro n hn
    obtain ⟨k, hk, rfl⟩ := List.mem_map.1 hn
    exact List.count_pos_iff.2 (List.mem_dedup.1 hk)
  have hextra : (((keys.dedup.map fun k => keys.count k).filter fun n => 1 < n).map
      fun n => n - 1).sum + keys.dedup.length = keys.length := by
    rw [sum_filter_pred]
    have hsum := sum_pred_add_length hpos
    rwa [List.length_map, List.sum_map_count_dedup_eq_length] at hsum
  have hobserved : (auditDuplicates table fields keys).observed = ((((keys.dedup.map fun k =>
      keys.count k).filter fun n => 1 < n).map fun n => n - 1).sum : Nat) := rfl
  have hpassed : (auditDuplicates table fields keys).passed = decide ((((keys.dedup.map fun k =>
      keys.count k).filter fun n => 1 < n).map fun n => n - 1).sum = 0) := rfl
  refine ⟨by rw [hobserved]; omega, ?_⟩
  rw [hpassed, decide_eq_true_iff, ← List.dedup_eq_self]
  constructor
  · intro hzero
    exact (List.dedup_sublist keys).eq_of_length (by omega)
  · intro hself
    have hlength := congrArg List.length hself
    omega

end Identifiers

/-- A key that tells the class of its element is unique if it is so in each class. -/
theorem nodup_map_of_classes {α κ ι : Type} [DecidableEq ι] {f : α → κ} {c : α → ι} :
    ∀ {l : List α}, (∀ a ∈ l, ∀ b ∈ l, f a = f b → c a = c b) →
      (∀ i, ((l.filter fun a => c a = i).map f).Nodup) → (l.map f).Nodup
  | [], _, _ => List.nodup_nil
  | a :: l, hclass, hnodup => by
    have hrest : (l.map f).Nodup := by
      refine nodup_map_of_classes (fun b hb b' hb' => hclass b (List.mem_cons_of_mem _ hb) b'
        (List.mem_cons_of_mem _ hb')) fun i => (hnodup i).sublist ?_
      exact ((List.sublist_cons_self a l).filter _).map f
    refine List.nodup_cons.2 ⟨fun hmem => ?_, hrest⟩
    obtain ⟨b, hb, heq⟩ := List.mem_map.1 hmem
    have hsame := hclass b (List.mem_cons_of_mem _ hb) a List.mem_cons_self heq
    have hown := hnodup (c a)
    rw [List.filter_cons, if_pos (decide_eq_true rfl), List.map_cons] at hown
    refine (List.nodup_cons.1 hown).1 (List.mem_map.2 ⟨b, ?_, heq⟩)
    exact List.mem_filter.2 ⟨hb, decide_eq_true hsame⟩

section Unique

variable {J : Type} {readers : Readers J} {spark : SparkText} {columns : TradeColumns J}
  {st : State J} {v : Exchange}

/-- Where a record is in the broker's log. -/
def coordinates (row : RawRow) : String × Nat × Int := (row.topic, row.partition, row.offset)

/-- `IDENTIFIER_FIELDS` of `bronze.py`. -/
def bronzeFields : List String := ["src_topic", "src_partition", "src_offset"]

def bronzeIdentifier (b : BronzeRow J) : String × Nat × Int :=
  (b.srcTopic, b.srcPartition, b.srcOffset)

/-- `IDENTIFIER_FIELDS` of `silver.py`. -/
def silverFields : List String := ["src_topic", "src_partition", "src_offset", "src_index"]

def silverIdentifier (s : SilverTrade) : (String × Int × Int) × Int :=
  ((s.srcTopic, s.srcPartition, s.srcOffset), s.srcIndex)

/-- The delivery that a gold row was taken over from. -/
def goldDelivery (g : GoldTrade) : (String × Int × Int) × Int :=
  ((g.srcTopic, g.srcPartition, g.srcOffset), g.srcIndex)

theorem Layers.nodup_bronze (h : Layers readers spark columns st)
    (hraw : (st.raw.rows.map coordinates).Nodup) (t : VenueTable) :
    ((st.bronze t).rows.map bronzeIdentifier).Nodup := by
  refine ((h.decoded t).rows.map _).nodup_iff.2 (nodup_madeOf id hraw ?_)
  intro making hmaking row _ l hl
  obtain ⟨registry, -, rfl⟩ := List.mem_map.1 hmaking
  refine ⟨?_, fun b hb => ?_⟩
  · -- a frame gives one row at most
    unfold Bronze.making at hl
    split at hl
    · obtain ⟨o, -, rfl⟩ := Option.map_eq_some_iff.1 hl
      cases o with
      | none => exact List.nodup_nil
      | some b => exact List.nodup_singleton _
    · cases hl
      exact List.nodup_nil
  · obtain ⟨r, hdecoded⟩ := Bronze.decodedFrom_of_making hl hb
    exact hdecoded.place

theorem source_eq_coinbase {v : Exchange} (h : v = .coinbase) :
    source v = .coinbaseMarketTrades := by
  rw [h]
  rfl

theorem Layers.nodup_silver (h : Layers readers spark columns st)
    (hraw : (st.raw.rows.map coordinates).Nodup)
    (hcounted : ∀ b ∈ (st.bronze .coinbaseMarketTrades).rows,
      (SilverTrades.marketTradesFrame columns b).Counted) (v : Exchange) :
    ((st.silver v).rows.map silverIdentifier).Nodup := by
  have hbronze : ((st.bronze (source v)).rows.map fun b : BronzeRow J =>
      (b.srcTopic, (b.srcPartition : Int), b.srcOffset)).Nodup := by
    have hcast : ((st.bronze (source v)).rows.map fun b : BronzeRow J =>
        (b.srcTopic, (b.srcPartition : Int), b.srcOffset)) =
          ((st.bronze (source v)).rows.map bronzeIdentifier).map fun q =>
            (q.1, (q.2.1 : Int), q.2.2) := by
      rw [List.map_map]
      rfl
    rw [hcast]
    refine (h.nodup_bronze hraw (source v)).map fun q q' heq => ?_
    obtain ⟨htopic, hrest⟩ := Prod.mk.inj heq
    obtain ⟨hpartition, hoffset⟩ := Prod.mk.inj hrest
    exact Prod.ext htopic (Prod.ext (Int.ofNat.inj hpartition) hoffset)
  have hidentifier : (st.silver v).rows.map silverIdentifier =
      ((st.silver v).rows.map SilverTrade.toTypedTrade).map fun d =>
        ((d.srcTopic, d.srcPartition, d.srcOffset), d.srcIndex) := by
    rw [List.map_map]
    rfl
  rw [hidentifier]
  refine ((Copied.rows (h.typed v)).map _).nodup_iff.2 (nodup_madeOf Prod.fst hbronze ?_)
  intro making hmaking b hb trades htrades
  obtain ⟨answer, -, rfl⟩ := List.mem_map.1 hmaking
  constructor
  · refine List.Nodup.of_map Prod.snd ?_
    rw [List.map_map]
    refine SilverTrades.nodup_srcIndex htrades fun hv => hcounted b ?_
    rw [← source_eq_coinbase hv]
    exact hb
  · intro d hd
    obtain ⟨-, -, p, -, htyped⟩ := SilverTrades.mem_typedTrades htrades hd
    exact htyped.lineage

/-- The topics of two venues are not the same. -/
theorem exchange_of_topic {row row' : RawRow} {v w : Exchange} (hv : isFrameOf v row = true)
    (hw : isFrameOf w row' = true) (htopic : row.topic = row'.topic) : v = w := by
  have hsuffix := List.isSuffixOf_iff_suffix.1 (Bool.and_eq_true_iff.1 hv).1
  have hsuffix' := List.isSuffixOf_iff_suffix.1 (Bool.and_eq_true_iff.1 hw).1
  rw [← htopic] at hsuffix'
  have hnested := List.suffix_or_suffix_of_suffix hsuffix hsuffix'
  cases v <;> cases w <;> first | rfl | exact absurd hnested (by decide)

/-- No delivery is in gold twice. -/
theorem Layers.nodup_gold (h : Layers readers spark columns st)
    (hraw : (st.raw.rows.map coordinates).Nodup)
    (hcounted : ∀ b ∈ (st.bronze .coinbaseMarketTrades).rows,
      (SilverTrades.marketTradesFrame columns b).Counted) :
    (st.gold.rows.map goldDelivery).Nodup := by
  refine nodup_map_of_classes (c := GoldTrade.exchange) (fun g hg g' hg' heq => ?_) fun v => ?_
  · obtain ⟨row, -, htrade⟩ := h.tradeOf hg
    obtain ⟨row', -, htrade'⟩ := h.tradeOf hg'
    refine exchange_of_topic htrade.frame htrade'.frame ?_
    have htopic := (Prod.mk.inj htrade.place).1
    have htopic' := (Prod.mk.inj htrade'.place).1
    rw [← htopic, ← htopic']
    exact (Prod.mk.inj (Prod.mk.inj heq).1).1
  · have hkeys : (st.gold.rows.filter fun g => g.exchange = v).map goldDelivery =
        ((st.gold.rows.filter fun g => g.exchange = v).map GoldTrade.timeless).map goldDelivery := by
      rw [List.map_map]
      rfl
    rw [hkeys, h.taken, projectSilver, List.map_map]
    have hrows := h.nodup_silver hraw hcounted v
    refine hrows.sublist (List.Sublist.map silverIdentifier (List.filter_sublist.trans ?_))
    exact (List.take_sublist _ _).flatMap _

/-- **No identifier twice.**  If `raw.messages` has no record twice, and every Coinbase frame counts
    the trades of its events, then in every state that the stages reach `audit_duplicates` passes
    over each bronze table and each silver trades table, and no delivery is in gold twice. -/
theorem identifiers_unique (h : Reached readers spark columns st)
    (hraw : (st.raw.rows.map coordinates).Nodup)
    (hcounted : ∀ b ∈ (st.bronze .coinbaseMarketTrades).rows,
      (SilverTrades.marketTradesFrame columns b).Counted) :
    (∀ t, (auditDuplicates t.table bronzeFields
      ((st.bronze t).rows.map bronzeIdentifier)).passed = true) ∧
    (∀ v, (auditDuplicates (SilverTrades.tableOf v) silverFields
      ((st.silver v).rows.map silverIdentifier)).passed = true) ∧
    (st.gold.rows.map goldDelivery).Nodup := by
  have hlayers := layers_of_reached h
  exact ⟨fun t => (auditDuplicates_spec _ _ _).2.2 (hlayers.nodup_bronze hraw t), fun v =>
    (auditDuplicates_spec _ _ _).2.2 (hlayers.nodup_silver hraw hcounted v),
    hlayers.nodup_gold hraw hcounted⟩

end Unique

/-! ## Six trades, from their frames to gold -/

/-- What `from_json` gives of a trade frame. -/
inductive TradePayload
  | binance (data : Option SilverTrades.BinanceTradeData)
  | kraken (data : Option (List (Option SilverTrades.KrakenTradeData)))
  | coinbase (data : SilverTrades.MarketTradesData)

def tradeColumns : TradeColumns TradePayload where
  binance := fun | .binance data => data | _ => none
  kraken := fun | .kraken data => data | _ => none
  coinbase := fun | .coinbase data => data | _ => SilverTrades.noTrades

/-- The bytes of a text that is given in pieces. -/
def bytesOf (pieces : List String) : Bytes := pieces.flatMap K2.Capture.utf8

def commaSeparated (texts : List Bytes) : Bytes := (bytesOf [","]).intercalate texts

def krakenJson (tradeId : Nat) : Bytes :=
  bytesOf ["\x7b\"symbol\":\"BTC/USD\",", "\"side\":\"buy\",\"price\":60000,", "\"qty\":1,",
    "\"ord_type\":\"market\",", "\"trade_id\":", toString tradeId, ",\"timestamp\":",
    "\"2026-08-26T16:00:00Z\"\x7d"]

def krakenData (tradeId : Nat) : SilverTrades.KrakenTradeData :=
  ⟨some "BTC/USD", some "buy", some 600000000000000, some 10000000000, some tradeId,
    some "2026-08-26T16:00:00Z"⟩

def krakenPayload (tradeIds : List Nat) : Bytes :=
  bytesOf ["\x7b\"channel\":\"trade\",", "\"type\":\"update\",\"data\":["] ++
    commaSeparated (tradeIds.map krakenJson) ++ bytesOf ["]\x7d"]

def krakenFrame (connMsgSeq : Int) (tradeIds : List Nat) : RawMessageRecord :=
  ⟨"kraken", "trade", some "BTC/USD", 1000000000, "k-1", connMsgSeq, krakenPayload tradeIds⟩

def coinbaseJson (tradeId : String) : Bytes :=
  bytesOf ["\x7b\"trade_id\":\"", tradeId, "\",\"product_id\":\"BTC-USD\",", "\"price\":\"60000\",",
    "\"size\":\"1\",\"side\":\"BUY\",", "\"time\":\"2026-08-26T16:00:00Z\"\x7d"]

def coinbaseData (tradeId : String) : CoinbaseExplode.MarketTrade :=
  ⟨some "BTC-USD", some tradeId, some "60000", some "1", some "2026-08-26T16:00:00Z", some "BUY"⟩

def eventJson (tradeIds : List String) : Bytes :=
  bytesOf ["\x7b\"type\":\"update\",\"trades\":["] ++ commaSeparated (tradeIds.map coinbaseJson) ++
    bytesOf ["]\x7d"]

/-- The trade ids of a frame of three events, of which the second has no trades. -/
def coinbaseEvents : List (List String) := [["11"], [], ["12", "13"]]

def coinbasePayload : Bytes :=
  bytesOf ["\x7b\"channel\":\"market_trades\",", "\"timestamp\":", "\"2026-08-26T16:00:00Z\",",
    "\"sequence_num\":3,\"events\":["] ++ commaSeparated (coinbaseEvents.map eventJson) ++
      bytesOf ["]\x7d"]

def coinbaseFrame : RawMessageRecord :=
  ⟨"coinbase", "market_trades", none, 1000000000, "c-1", 2, coinbasePayload⟩

def marketTrades : SilverTrades.MarketTradesData where
  events := some (coinbaseEvents.map fun tradeIds =>
    some ⟨some "update", some (tradeIds.map fun tradeId => some (coinbaseData tradeId))⟩)
  fits := by decide

def tradeFrames : List RawMessageRecord :=
  [krakenFrame 4 [7], krakenFrame 5 [8, 9], coinbaseFrame]

/-- The readers on those frames. -/
def tradeReaders : Readers TradePayload where
  fromAvro := Bronze.knownAvro tradeFrames
  fromJson schema payload :=
    if schema = VenueTable.krakenTrade.schema then
      .kraken (([[7], [8, 9]].find? fun tradeIds => krakenPayload tradeIds = payload).map
        fun tradeIds => tradeIds.map fun tradeId => some (krakenData tradeId))
    else if schema = VenueTable.coinbaseMarketTrades.schema ∧ payload = coinbasePayload then
      .coinbase marketTrades
    else .binance none

def tradeText : SparkText where
  castTimestamp text :=
    if text = "2026-08-26T16:00:00Z" then some 1787760000000000 else none
  lower text := if text = "BUY" then "buy" else text

/-- Two commits of stage 1. -/
def rawTrades : DataTable RawRow :=
  [⟨70, 5, Dict.empty, [Bronze.framedRow 5 (krakenFrame 4 [7])]⟩,
   ⟨71, 10, Dict.empty, [Bronze.framedRow 6 (krakenFrame 5 [8, 9]),
    Bronze.framedRow 5 coinbaseFrame]⟩]

def archived : State TradePayload := { (State.start : State TradePayload) with raw := rawTrades }

def bronzeRun : Bronze.State TradePayload :=
  archived.bronzeState.run tradeReaders "71" Bronze.oneSchema (fun _ => (72, 20)) 7

def decoded : State TradePayload :=
  { archived with
    raw := bronzeRun.raw, bronze := bronzeRun.bronze, decodedWith := bronzeRun.decodedWith }

/-- A registry that lists the symbol of each venue. -/
def tradeRegistry : Exchange → Registry
  | .kraken => SilverTrades.listing .kraken ["BTC/USD"]
  | v => SilverTrades.listing v ["BTC-USD"]

def silverRun : SilverTrades.State TradePayload :=
  decoded.silverState.run tradeText tradeColumns (fun v => (tradeRegistry v, 3000000))
    (fun _ => (73, 30)) 3

def typed : State TradePayload :=
  { decoded with silver := silverRun.silver, typedWith := silverRun.typedWith }

def goldRows : DataTable GoldTrade :=
  Recorded.stageTrades typed.goldState.silver 4000000
    (fun v => if v = .kraken then (74, 40) else (75, 50)) (TRADES.take 3) typed.goldState.gold

def caughtUp : State TradePayload := { typed with gold := goldRows }

theorem reached_gold {J : Type} {readers : Readers J} {spark : SparkText} {columns : TradeColumns J}
    {st : State J} {gold : DataTable GoldTrade} (h : Reached readers spark columns st)
    (hstep : Recorded.Step st.goldState { st.goldState with gold := gold }) :
    Reached readers spark columns { st with gold := gold } :=
  h.tail (Step.gold hstep rfl)

/-- What the runs come to; in one statement, so that they are evaluated once. -/
theorem caughtUp_eval :
    ((∀ t ∈ Bronze.VENUE_TABLES, (bronzeRun.bronze t).length ≤ 1) ∧
      (∀ v ∈ TRADES, (silverRun.silver v).length ≤ 1) ∧ goldRows.Valid) ∧
    (caughtUp.bronzeState.reach (source .kraken) = caughtUp.raw.length ∧
      caughtUp.silverState.reach .kraken = (caughtUp.bronze (source .kraken)).length ∧
      caughtUp.goldState.reach .kraken = (caughtUp.silver .kraken).length) ∧
    ((caughtUp.raw.rows.map coordinates).Nodup ∧
      ∀ b ∈ (caughtUp.bronze .coinbaseMarketTrades).rows,
        (SilverTrades.marketTradesFrame tradeColumns b).Counted) ∧
    (caughtUp.gold.rows.length = 6 ∧
      (caughtUp.bronze .coinbaseMarketTrades).rows.length = 1) := by
  decide +kernel

theorem caughtUp_reached : Reached tradeReaders tradeText tradeColumns caughtUp := by
  obtain ⟨hbronze, hsilver, hgold⟩ := caughtUp_eval.1
  have hraw : rawTrades.Valid := by decide
  have hgrow : Bronze.Step tradeReaders (State.start : State TradePayload).bronzeState
      archived.bronzeState := Bronze.Step.grow rawTrades List.nil_prefix hraw
  have hdecode : Bronze.Step tradeReaders archived.bronzeState bronzeRun :=
    Bronze.Step.run "71" Bronze.oneSchema (fun _ => (72, 20)) 7
      fun t => DataTable.Valid.of_length_le_one (hbronze t (Bronze.mem_VENUE_TABLES t))
  have htype : SilverTrades.Step tradeText tradeColumns decoded.silverState silverRun :=
    SilverTrades.Step.run _ _ 3
      fun v => DataTable.Valid.of_length_le_one (hsilver v (mem_TRADES v))
  have htake : Recorded.Step typed.goldState { typed.goldState with gold := goldRows } :=
    Recorded.Step.run 4000000 _ 3 hgold
  have hingested : Reached tradeReaders tradeText tradeColumns archived :=
    ReflTransGen.single (Step.bronze hgrow)
  have htyped : Reached tradeReaders tradeText tradeColumns typed :=
    (hingested.tail (Step.bronze hdecode)).tail (Step.silver htype rfl)
  exact reached_gold htyped htake

theorem trade_traced : caughtUp.gold.rows.length = 6 ∧
    ∀ g ∈ caughtUp.gold.rows, ∃ row ∈ rawTrades.rows,
      TradeOf tradeReaders tradeText tradeColumns caughtUp row g :=
  ⟨caughtUp_eval.2.2.2.1, gold_traced caughtUp_reached⟩

theorem trade_not_lost : Drained caughtUp .kraken ∧
    (∀ row ∈ rawTrades.rows, Carried tradeReaders tradeText tradeColumns caughtUp .kraken row) ∧
    (caughtUp.gold.rows.filter fun r => r.exchange = .kraken).length +
        ((caughtUp.silver .kraken).rows.filter SilverTrade.venueReplay).length =
      SilverTrades.tradesIn tradeColumns .kraken (caughtUp.bronze .krakenTrade).rows := by
  obtain ⟨hbronze, hsilver, hgold⟩ := caughtUp_eval.2.1
  have hdrained : Drained caughtUp .kraken := ⟨hbronze, hsilver, hgold⟩
  have hkept := nothing_lost caughtUp_reached hdrained
  exact ⟨hdrained, hkept.1, hkept.2⟩

/-- Three records; the second event of the Coinbase frame has no trades, but says so. -/
theorem trade_unique :
    rawTrades.rows.length = 3 ∧ (caughtUp.bronze .coinbaseMarketTrades).rows.length = 1 ∧
      (auditDuplicates (SilverTrades.tableOf .coinbase) silverFields
        ((caughtUp.silver .coinbase).rows.map silverIdentifier)).passed = true ∧
      (auditDuplicates (SilverTrades.tableOf .kraken) silverFields
        ((caughtUp.silver .kraken).rows.map silverIdentifier)).passed = true ∧
      (caughtUp.gold.rows.map goldDelivery).Nodup := by
  obtain ⟨hraw, hcounted⟩ := caughtUp_eval.2.2.1
  have hunique := identifiers_unique caughtUp_reached hraw hcounted
  exact ⟨rfl, caughtUp_eval.2.2.2.2, hunique.2.1 .coinbase, hunique.2.1 .kraken, hunique.2.2⟩

end K2.Lake.Pipeline

import Mathlib.Data.Prod.Lex
import Mathlib.Algebra.Order.Ring.Int
import K2Platform.Lib.Changelog

/-!
# Silver trades

Model of `score`, `_lookback` and `write` of `silver.py`: one batch of typed trades is scored
against itself and the rows of the table received within a day before it, and appended.  Every
delivery is kept; `venue_replay` marks all but the first of a trade, among those seen so far.

* `venueReplay_eq_false_iff` — when a row of the batch is not a replay.
-/

set_option autoImplicit false

namespace K2.Lake

open Changelog

inductive Exchange where
  | binance
  | kraken
  | coinbase
  deriving DecidableEq, Repr

/-- The order of `silver.TRADES`. -/
def TRADES : List Exchange := [.binance, .kraken, .coinbase]

theorem mem_TRADES (v : Exchange) : v ∈ TRADES := by
  cases v <;> decide

/-! ## Rows -/

/-- One delivery of a trade, typed; prices and quantities in units of 1e-10, times in
    microseconds but for `recvTsNs`. -/
structure TypedTrade where
  symbol : String
  canonicalSymbol : String
  tradeId : String
  tradeSeq : Int
  price : Int
  qty : Int
  side : String
  exchangeTs : Int
  recvTsNs : Int
  connId : String
  connMsgSeq : Int
  srcTopic : String
  srcPartition : Int
  srcOffset : Int
  srcIndex : Int
  ingestTs : Int
  deriving DecidableEq, Repr

structure SilverTrade extends TypedTrade where
  venueReplay : Bool
  seqGap : Option Bool
  missingBefore : Option Int
  precisionLoss : Bool
  deriving DecidableEq, Repr

namespace TypedTrade

/-- `timestamp_micros(recv_ts_ns div 1000)`. -/
def recvTs (d : TypedTrade) : Int := d.recvTsNs.tdiv 1000

/-- What `by_delivery` orders on. -/
def rank (d : TypedTrade) : Int ×ₗ Int ×ₗ Int ×ₗ Int :=
  toLex (d.recvTsNs, toLex (d.srcPartition, toLex (d.srcOffset, d.srcIndex)))

/-- The trade a delivery is of. -/
def trade (d : TypedTrade) : String × String := (d.symbol, d.tradeId)

/-- Where in the archive the delivery is; a bronze table has one source topic. -/
def lineage (d : TypedTrade) : Int × Int × Int := (d.srcPartition, d.srcOffset, d.srcIndex)

/-- `price != round(price, 8) or qty != round(qty, 8)`. -/
def precisionLoss (d : TypedTrade) : Bool := d.price % 100 ≠ 0 || d.qty % 100 ≠ 0

theorem lineage_of_rank {a b : TypedTrade} (h : a.rank = b.rank) : a.lineage = b.lineage := by
  have hlex : (a.recvTsNs, toLex (a.srcPartition, toLex (a.srcOffset, a.srcIndex))) =
      (b.recvTsNs, toLex (b.srcPartition, toLex (b.srcOffset, b.srcIndex))) := toLex.injective h
  obtain ⟨_, hrest⟩ := Prod.mk.inj hlex
  obtain ⟨hpartition, hrest⟩ := Prod.mk.inj (toLex.injective hrest)
  obtain ⟨hoffset, hindex⟩ := Prod.mk.inj (toLex.injective hrest)
  rw [lineage, lineage, hpartition, hoffset, hindex]

end TypedTrade

/-! ## Scoring -/

section Score

variable (both : List TypedTrade)

/-- `row_number()` over `by_delivery`: lineages are distinct, so the order has no ties. -/
def rowNumber (d : TypedTrade) : Nat :=
  1 + both.countP fun e => e.trade = d.trade && e.rank < d.rank

def originals : List TypedTrade := both.filter fun d => rowNumber both d ≤ 1

/-- `lag("trade_seq")` over the originals of the symbol: a venue numbers the trades of a symbol,
    so distinct trades have distinct numbers. -/
def previousSeq (d : TypedTrade) : Option Int :=
  (((originals both).filter fun e => e.symbol = d.symbol && e.tradeSeq < d.tradeSeq).map
    TypedTrade.tradeSeq).max?

def scoreRow (d : TypedTrade) : SilverTrade where
  toTypedTrade := d
  venueReplay := 1 < rowNumber both d
  seqGap :=
    if 1 < rowNumber both d then some false
    else (previousSeq both d).map fun p => 1 < d.tradeSeq - p
  missingBefore :=
    if 1 < rowNumber both d then some 0 else (previousSeq both d).map fun p => d.tradeSeq - p - 1
  precisionLoss := d.precisionLoss

end Score

def score (batch lookback : List TypedTrade) : List SilverTrade :=
  batch.map (scoreRow (batch ++ lookback))

theorem venueReplay_eq_false_iff {both : List TypedTrade} {d : TypedTrade} :
    (scoreRow both d).venueReplay = false ↔
      ∀ e ∈ both, e.trade = d.trade → d.rank ≤ e.rank := by
  have hcount : (scoreRow both d).venueReplay = false ↔
      both.countP (fun e => e.trade = d.trade && e.rank < d.rank) = 0 := by
    change decide (1 < rowNumber both d) = false ↔ _
    rw [decide_eq_false_iff_not, rowNumber]
    omega
  rw [hcount, List.countP_eq_zero]
  simp only [Bool.and_eq_true, decide_eq_true_eq, not_and, not_lt]

/-! ## One batch -/

/-- Its mark is the bronze snapshot that was read. -/
abbrev SilverLog := Log SilverTrade Nat

/-- One day, in microseconds. -/
def LOOKBACK : Int := 86400 * 1000000

def lookback (table : SilverLog) (since : Int) : List TypedTrade :=
  ((rows table).map SilverTrade.toTypedTrade).filter fun d => since ≤ d.recvTs

/-- `write`: a batch without trades commits nothing. -/
def silverWrite (table : SilverLog) (batch : List TypedTrade) (srcSnapshotId : Nat) : SilverLog :=
  match (batch.map TypedTrade.recvTs).min? with
  | none => table
  | some lo => table ++ [⟨score batch (lookback table (lo - LOOKBACK)), some srcSnapshotId⟩]

theorem silverWrite_nil (table : SilverLog) (src : Nat) : silverWrite table [] src = table := rfl

theorem silverWrite_of_ne_nil {batch : List TypedTrade} (h : batch ≠ []) (table : SilverLog)
    (src : Nat) : ∃ lo, (∀ d ∈ batch, lo ≤ d.recvTs) ∧
      silverWrite table batch src =
        table ++ [⟨score batch (lookback table (lo - LOOKBACK)), some src⟩] := by
  cases hmin : (batch.map TypedTrade.recvTs).min? with
  | none =>
    rw [List.min?_eq_none_iff, List.map_eq_nil_iff] at hmin
    exact absurd hmin h
  | some lo =>
    refine ⟨lo, fun d hd => ?_, by rw [silverWrite, hmin]⟩
    exact (List.min?_eq_some_iff.1 hmin).2 _ (List.mem_map_of_mem hd)

/-- The deliveries of a table, in the order they were written. -/
def deliveries (table : SilverLog) : List TypedTrade := (rows table).map SilverTrade.toTypedTrade

theorem mem_lookback {table : SilverLog} {since : Int} {d : TypedTrade} :
    d ∈ lookback table since ↔ d ∈ deliveries table ∧ since ≤ d.recvTs := by
  rw [lookback, deliveries, List.mem_filter, decide_eq_true_eq]

theorem deliveries_silverWrite (table : SilverLog) (batch : List TypedTrade) (src : Nat) :
    deliveries (silverWrite table batch src) = deliveries table ++ batch := by
  by_cases h : batch = []
  · rw [h, silverWrite_nil, List.append_nil]
  · obtain ⟨lo, _, hwrite⟩ := silverWrite_of_ne_nil h table src
    rw [hwrite, deliveries, rows_append, List.map_append, rows_singleton, score, List.map_map]
    congr 1
    exact List.map_id' _

end K2.Lake

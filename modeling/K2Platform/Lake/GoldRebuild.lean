import K2Platform.Lake.GoldCrash

/-!
# Gold, rebuilt

Model of `rebuild` of `gold.py`: into tables that were just created, every trade of every silver
table, then a candle for every bucket that has trades, and every bar.

* `shown_candles`, `shown_bars` — what uninterrupted runs leave is the aggregate of all the trades
  of a bucket, or of a day.
* `incremental_eq_rebuild` — so it is what a rebuild makes.
-/

set_option autoImplicit false

namespace K2.Lake

open Changelog RecomputedView

section Rebuild

variable {sha256 : String → String} (thresholds : List Threshold)

/-- The buckets of a timeframe that have trades. -/
def allBuckets (tf : Timeframe) (trades : List Print) : List Bucket :=
  (trades.map (Print.bucket tf)).dedup

/-- The rows that `rebuild_bars` appends to a table that was just created. -/
def rebuildBars (gold : GoldLog) (runTs : Int) : List Bar :=
  bars gold.length runTs thresholds ((prints gold).map Print.symbolDay).dedup (prints gold)

/-- `rebuild`; the caller has dropped the tables of trades, candles and bars. -/
def GoldTables.rebuild (t : GoldTables) (dims : DimRows sha256) (runTs : Int) : GoldTables :=
  let trades := stageTrades t.silver runTs TRADES.length []
  { silver := t.silver
    trades := trades
    dimInstrument := Scd2.merged sha256 (DIM_INSTRUMENT sha256) t.dimInstrument dims.1 runTs
    dimVenue := Scd2.merged sha256 (DIM_VENUE sha256) t.dimVenue dims.2 runTs
    ohlcv := fun tf => candles tf (allBuckets tf (prints trades)) (prints trades) trades.length runTs
    bars := rebuildBars thresholds trades runTs }

variable {thresholds}

/-! ## What a rebuild makes -/

theorem get?_rebuilt (tf : Timeframe) (trades : List Print) (srcSnapshotId : Nat) (runTs : Int)
    (k : Bucket) :
    ((candles tf (allBuckets tf trades) trades srcSnapshotId runTs).get? k).map Candle.content =
      candleAgg k (ofKey (Print.bucket tf) k trades) := by
  rw [get?_candles, candleAgg]
  by_cases hk : k ∈ allBuckets tf trades
  · rw [if_pos hk, candleOf, candle_content, ofKey]
  · have hempty : ofKey (Print.bucket tf) k trades = [] := by
      refine List.filter_eq_nil_iff.2 fun p hp hpk => hk ?_
      exact List.mem_dedup.2 (List.mem_map.2 ⟨p, hp, of_decide_eq_true hpk⟩)
    rw [if_neg hk, hempty, Option.map_none, candle]

variable (thresholds) in
theorem filter_rebuildBars (gold : GoldLog) (runTs : Int) (k : SymbolDay) :
    (((rebuildBars thresholds gold runTs).filter fun b => b.symbolDay = k).map Bar.content :
        Multiset Bar) =
      barAgg thresholds k (ofKey Print.symbolDay k (prints gold)) := by
  rw [rebuildBars, filter_bars (List.nodup_dedup _), barAgg, ofKey]
  by_cases hk : k ∈ ((prints gold).map Print.symbolDay).dedup
  · rw [if_pos hk, dayBars_content]
  · have hempty : ((prints gold).filter fun p => p.symbolDay = k) = [] := by
      refine List.filter_eq_nil_iff.2 fun p hp hpk => hk ?_
      exact List.mem_dedup.2 (List.mem_map.2 ⟨p, hp, of_decide_eq_true hpk⟩)
    rw [if_neg hk, hempty, dayBars_nil, List.map_nil]

/-- A rebuild takes every silver table to its end, so it has the trades that the runs took. -/
theorem prints_rebuilt {κ : Type} [DecidableEq κ] (key : Print → κ) (venue : κ → Exchange)
    (hvenue : ∀ p, venue (key p) = p.exchange) (runs : List (GoldRun sha256)) (runTs : Int) (k : κ) :
    ofKey key k (prints (stageTrades (afterRuns thresholds (runs.map GoldRun.completed)).silver runTs
        TRADES.length [])) =
      ofKey key k (prints (afterRuns thresholds (runs.map GoldRun.completed)).trades) := by
  have hrebuilt := ofVenue_stageTrades runTs le_rfl
    (synced_empty (afterRuns thresholds (runs.map GoldRun.completed)).silver (venue k))
  rw [ofKey_prints hvenue, ofKey_prints hvenue, hrebuilt]
  refine congrArg (fun l : List GoldTrade => ofKey key k (l.map GoldTrade.print)) ?_
  cases runs using List.reverseRecOn with
  | nil => rfl
  | append_singleton runs run =>
    rw [List.map_append, List.map_singleton]
    exact (ofVenue_afterRuns thresholds (show COMMITS ≤ run.completed.commits from le_rfl)
      (runs.map GoldRun.completed) (venue k)).symm

/-! ## What runs make -/

theorem shown_candles (runs : List (GoldRun sha256)) (tf : Timeframe) (k : Bucket) :
    (((afterRuns thresholds (runs.map GoldRun.completed)).ohlcv tf).get? k).map Candle.content =
      candleAgg k (ofKey (Print.bucket tf) k
        (prints (afterRuns thresholds (runs.map GoldRun.completed)).trades)) := by
  have hshown := shown_of_revisited candleAgg
    (revisited_completed thresholds (Print.bucket tf) (candleEffect_completed tf) runs k)
  rw [← candleView_after] at hshown
  exact hshown

theorem shown_bars (runs : List (GoldRun sha256)) (k : SymbolDay) :
    (barRows (afterRuns thresholds (runs.map GoldRun.completed))).filter
        (fun b => b.symbolDay = k) =
      barAgg thresholds k (ofKey Print.symbolDay k
        (prints (afterRuns thresholds (runs.map GoldRun.completed)).trades)) := by
  have hshown := shown_of_revisited (barAgg thresholds)
    (revisited_completed thresholds Print.symbolDay barEffect_completed runs k)
  rw [← barView_after] at hshown
  exact hshown

variable (thresholds) in
/-- **Incremental candles and bars are those of a rebuild**, after any runs that complete, whatever
    trades reach silver between them. -/
theorem incremental_eq_rebuild (runs : List (GoldRun sha256)) (dims : DimRows sha256)
    (runTs : Int) :
    SameTables (afterRuns thresholds (runs.map GoldRun.completed))
      ((afterRuns thresholds (runs.map GoldRun.completed)).rebuild thresholds dims runTs) := by
  constructor
  · intro tf k
    rw [shown_candles, ← prints_rebuilt (Print.bucket tf) Bucket.exchange (fun _ => rfl) runs runTs]
    exact (get?_rebuilt tf _ _ runTs k).symm
  · refine Multiset.coe_eq_coe.1 (barRows_ext fun k => ?_)
    rw [shown_bars, ← prints_rebuilt Print.symbolDay SymbolDay.exchange (fun _ => rfl) runs runTs]
    have hrebuilt := filter_rebuildBars thresholds
      (stageTrades (afterRuns thresholds (runs.map GoldRun.completed)).silver runTs TRADES.length [])
      runTs k
    rw [← filter_barRows] at hrebuilt
    exact hrebuilt.symm

end Rebuild

end K2.Lake

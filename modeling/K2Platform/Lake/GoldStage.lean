import Mathlib.Data.Multiset.Filter
import K2Platform.Lib.RecomputedView
import K2Platform.Lake.Bars
import K2Platform.Lake.Dimensions

/-!
# One run of the gold stage

Model of `stage` of `gold.py` with the commits it makes, in order: a `gold.trades` append for each
venue, two merges and two appends of the dimensions, a MERGE for each timeframe, and the delete and
the append of `gold.bars`.  A run that is cut off, or raises, has made the first of them only.

* `candleView_apply`, `barView_apply` — a run does to the candles and to the bars what a round
  does to a view kept by recomputing the keys its trades touch.
-/

set_option autoImplicit false

namespace K2.Lake

open Changelog RecomputedView

/-! ## The tables -/

structure GoldTables where
  silver : SilverTables
  trades : GoldLog
  dimInstrument : Scd2.Table
  dimVenue : Scd2.Table
  ohlcv : Timeframe → Candles
  bars : List Bar

/-- Tables that were just created. -/
def GoldTables.empty : GoldTables where
  silver := fun _ => []
  trades := []
  dimInstrument := []
  dimVenue := []
  ohlcv := fun _ => Dict.empty
  bars := []

/-! ## The commits -/

/-- `_merge_dim` after so many of its two commits. -/
def mergeDim (sha256 : String → String) (dim : Scd2.Dimension) (commits : Nat)
    (table : Scd2.Table) (current : Scd2.Current dim) (runTs : Int) : Scd2.Table :=
  match commits with
  | 0 => table
  | 1 => Scd2.closed sha256 dim table current runTs
  | _ => Scd2.merged sha256 dim table current runTs

/-- The distinct minutes that the commits of a run touch; none when it made no commit. -/
def touchedMinutes (commits : GoldLog) : Option (List Bucket) :=
  if commits.isEmpty then none
  else some (((rows commits).map GoldTrade.print).map Print.minute).dedup

def prints (gold : GoldLog) : List Print := (rows gold).map GoldTrade.print

/-- The number of the first commit of `stage_ohlcv`. -/
def OHLCV_COMMITS : Nat := 7

def ohlcvCommit : Timeframe → Nat
  | .m1 => OHLCV_COMMITS
  | .m5 => OHLCV_COMMITS + 1
  | .h1 => OHLCV_COMMITS + 2
  | .d1 => OHLCV_COMMITS + 3

def BARS_DELETE : Nat := OHLCV_COMMITS + 4

def BARS_APPEND : Nat := BARS_DELETE + 1

/-- A run that is not cut off. -/
def COMMITS : Nat := BARS_APPEND + 1

/-- `stage_ohlcv` for one timeframe: the MERGE of the candles of the touched buckets. -/
def stageOhlcv (tf : Timeframe) (minutes : List Bucket) (gold : GoldLog) (runTs : Int)
    (table : Candles) : Candles :=
  let keys := (minutes.map (Bucket.coarsen tf)).dedup
  table.update (candles tf keys (prints gold) gold.length runTs)

/-- `stage_bars`, cut off after so many commits of the run. -/
def stageBars (thresholds : List Threshold) (commits : Nat) (minutes : List Bucket)
    (gold : GoldLog) (runTs : Int) (table : List Bar) : List Bar :=
  let days := (minutes.map Bucket.symbolDay).dedup
  let fresh := bars gold.length runTs thresholds days (prints gold)
  let kept := table.filter fun b => b.symbolDay ∉ days
  if days.isEmpty ∨ commits ≤ BARS_DELETE then table
  else if commits ≤ BARS_APPEND then kept
  else kept ++ fresh

section Stage

variable (sha256 : String → String) (thresholds : List Threshold)

/-- A run: what reached silver since the one before it, what `load_dims` builds, and the number of
    commits it gets past. -/
structure GoldRun where
  arrived : SilverTables
  runTs : Int
  dims : DimRows sha256
  commits : Nat

variable {sha256}

/-- The commits a run makes to `gold.trades`. -/
def GoldTables.newCommits (t : GoldTables) (run : GoldRun sha256) : GoldLog :=
  (stageTrades t.silver run.runTs run.commits t.trades).drop t.trades.length

/-- `stage`. -/
def GoldTables.stage (t : GoldTables) (run : GoldRun sha256) : GoldTables :=
  let trades := stageTrades t.silver run.runTs run.commits t.trades
  let dimInstrument := mergeDim sha256 (DIM_INSTRUMENT sha256) (run.commits - 3) t.dimInstrument
    run.dims.1 run.runTs
  let dimVenue := mergeDim sha256 (DIM_VENUE sha256) (run.commits - 5) t.dimVenue run.dims.2
    run.runTs
  match touchedMinutes (t.newCommits run) with
  | none => { t with trades := trades, dimInstrument := dimInstrument, dimVenue := dimVenue }
  | some minutes => {
      silver := t.silver
      trades := trades
      dimInstrument := dimInstrument
      dimVenue := dimVenue
      ohlcv := fun tf =>
        if ohlcvCommit tf < run.commits then stageOhlcv tf minutes trades run.runTs (t.ohlcv tf)
        else t.ohlcv tf
      bars := stageBars thresholds run.commits minutes trades run.runTs t.bars }

def GoldTables.arrive (t : GoldTables) (more : SilverTables) : GoldTables :=
  { t with silver := fun v => t.silver v ++ more v }

def GoldTables.apply (t : GoldTables) (run : GoldRun sha256) : GoldTables :=
  (t.arrive run.arrived).stage thresholds run

/-- The tables after a sequence of runs. -/
def afterRuns (runs : List (GoldRun sha256)) : GoldTables :=
  runs.foldl (GoldTables.apply thresholds) GoldTables.empty

/-- The trades a run appends to `gold.trades`. -/
def GoldTables.newTrades (t : GoldTables) (run : GoldRun sha256) : List Print :=
  prints ((t.arrive run.arrived).newCommits run)

end Stage

/-! ## Candles and bars as views -/

theorem exists_stageTrades (silver : SilverTables) (runTs : Int) (cut : Nat) (gold : GoldLog) :
    ∃ more, stageTrades silver runTs cut gold = gold ++ more := by
  unfold stageTrades
  generalize TRADES.take cut = venues
  induction venues generalizing gold with
  | nil => exact ⟨[], (List.append_nil _).symm⟩
  | cons v venues ih =>
    obtain ⟨more, hmore⟩ := ih (stageVenue silver runTs gold v)
    exact ⟨_, hmore.trans (List.append_assoc _ _ _)⟩

def candleAgg (_ : Bucket) (l : List Print) : Option Candle := candle l 0 0

def candleView (tf : Timeframe) (t : GoldTables) : View Print Bucket (Option Candle) where
  rows := prints t.trades
  shown := fun k => ((t.ohlcv tf).get? k).map Candle.content

def barAgg (thresholds : List Threshold) (k : SymbolDay) (l : List Print) : Multiset Bar :=
  dayBars 0 0 thresholds k l

/-- The bars of a table, as the rows of a multiset. -/
def barRows (t : GoldTables) : Multiset Bar := t.bars.map Bar.content

def barView (t : GoldTables) : View Print SymbolDay (Multiset Bar) where
  rows := prints t.trades
  shown := fun k => (barRows t).filter fun b => b.symbolDay = k

section Views

variable {sha256 : String → String} {thresholds : List Threshold}

/-- How far a run gets with the candles of a timeframe. -/
def candleEffect (tf : Timeframe) (run : GoldRun sha256) : RecomputedView.Effect :=
  if ohlcvCommit tf < run.commits then .recomputed else .skipped

def barEffect (run : GoldRun sha256) : RecomputedView.Effect :=
  if run.commits ≤ BARS_DELETE then .skipped
  else if run.commits ≤ BARS_APPEND then .cleared else .recomputed

theorem trades_apply (t : GoldTables) (run : GoldRun sha256) :
    (t.apply thresholds run).trades =
      stageTrades (t.arrive run.arrived).silver run.runTs run.commits t.trades := by
  unfold GoldTables.apply GoldTables.stage
  simp only
  split <;> rfl

variable (thresholds) in
theorem ohlcv_apply (tf : Timeframe) (t : GoldTables) (run : GoldRun sha256) :
    (t.apply thresholds run).ohlcv tf =
      match touchedMinutes ((t.arrive run.arrived).newCommits run) with
      | none => t.ohlcv tf
      | some minutes =>
        if ohlcvCommit tf < run.commits then
          stageOhlcv tf minutes (t.apply thresholds run).trades run.runTs (t.ohlcv tf)
        else t.ohlcv tf := by
  rw [trades_apply]
  unfold GoldTables.apply GoldTables.stage
  simp only
  split <;> rfl

variable (thresholds) in
theorem bars_apply (t : GoldTables) (run : GoldRun sha256) :
    (t.apply thresholds run).bars =
      match touchedMinutes ((t.arrive run.arrived).newCommits run) with
      | none => t.bars
      | some minutes =>
        stageBars thresholds run.commits minutes (t.apply thresholds run).trades run.runTs t.bars := by
  rw [trades_apply]
  unfold GoldTables.apply GoldTables.stage
  simp only
  split <;> rfl

variable (thresholds) in
theorem prints_apply (t : GoldTables) (run : GoldRun sha256) :
    prints (t.apply thresholds run).trades = prints t.trades ++ t.newTrades run := by
  obtain ⟨more, hmore⟩ := exists_stageTrades (t.arrive run.arrived).silver run.runTs run.commits
    t.trades
  have hnew : (t.arrive run.arrived).newCommits run = more := by
    rw [GoldTables.newCommits]
    exact (congrArg (List.drop t.trades.length) hmore).trans List.drop_left
  rw [trades_apply, hmore, GoldTables.newTrades, hnew, prints, rows_append, List.map_append]
  rfl

/-- The keys that the touched minutes give are those the new trades have. -/
theorem mem_touched_iff {κ : Type} [DecidableEq κ] {key : Print → κ} {ofMinute : Bucket → κ}
    (hkey : ∀ p, key p = ofMinute p.minute) {commits : GoldLog} {minutes : List Bucket}
    (h : touchedMinutes commits = some minutes) (k : κ) (effect : RecomputedView.Effect) :
    k ∈ (minutes.map ofMinute).dedup ↔ Touches key k ⟨prints commits, effect⟩ := by
  unfold touchedMinutes at h
  split at h
  · cases h
  · cases h
    rw [List.mem_dedup, List.mem_map, Touches, ofKey, ne_eq, List.filter_eq_nil_iff]
    simp only [List.mem_dedup, List.mem_map, prints, decide_eq_true_eq, not_forall, not_not,
      exists_prop, hkey]
    constructor
    · rintro ⟨m, ⟨p, hp, rfl⟩, rfl⟩
      exact ⟨p, hp, rfl⟩
    · rintro ⟨p, hp, rfl⟩
      exact ⟨_, ⟨p, hp, rfl⟩, rfl⟩

theorem not_touches_of_none {κ : Type} [DecidableEq κ] (key : Print → κ) {commits : GoldLog}
    (h : touchedMinutes commits = none) (k : κ) (effect : RecomputedView.Effect) :
    ¬ Touches key k ⟨prints commits, effect⟩ := by
  unfold touchedMinutes at h
  split at h
  · rename_i hempty
    rw [List.isEmpty_iff.1 hempty]
    exact fun ht => ht rfl
  · cases h

/-- **A run is a round on the candles of each timeframe.** -/
theorem candleView_apply (tf : Timeframe) (t : GoldTables) (run : GoldRun sha256) :
    candleView tf (t.apply thresholds run) =
      (candleView tf t).round (Print.bucket tf) candleAgg
        ⟨t.newTrades run, candleEffect tf run⟩ := by
  have hrows := prints_apply thresholds t run
  have htable := ohlcv_apply thresholds tf t run
  cases hm : touchedMinutes ((t.arrive run.arrived).newCommits run) with
  | none =>
    rw [hm] at htable
    have hsame : ∀ k, (candleView tf (t.apply thresholds run)).shown k = (candleView tf t).shown k :=
      fun k => congrArg (fun table => (Dict.get? table k).map Candle.content) htable
    have huntouched := not_touches_of_none (Print.bucket tf) hm
    exact eq_round hrows (fun k _ => hsame k) (fun _ k _ => hsame k)
      (fun _ k ht => absurd ht (huntouched k _)) (fun _ k ht => absurd ht (huntouched k _))
  | some minutes =>
    simp only [hm] at htable
    have htouched := mem_touched_iff (bucket_eq_coarsen tf) hm
    by_cases hdone : ohlcvCommit tf < run.commits
    · have heffect : candleEffect tf run = .recomputed := if_pos hdone
      rw [if_pos hdone] at htable
      have hget : ∀ k, (candleView tf (t.apply thresholds run)).shown k =
          if k ∈ (minutes.map (Bucket.coarsen tf)).dedup then
            ((candleOf tf (prints (t.apply thresholds run).trades)
              (t.apply thresholds run).trades.length run.runTs k).or
                ((t.ohlcv tf).get? k)).map Candle.content
          else (candleView tf t).shown k := by
        intro k
        rw [candleView, htable, stageOhlcv]
        simp only [Dict.get?_update, get?_candles]
        split <;> rfl
      refine eq_round hrows (fun k ht => ?_) (fun h => ?_) (fun h => ?_) (fun _ k ht => ?_)
      · rw [hget, if_neg fun hk => ht ((htouched k _).1 hk)]
      · rw [heffect] at h
        cases h
      · rw [heffect] at h
        cases h
      · have hne : (prints (t.apply thresholds run).trades).filter (fun p => p.bucket tf = k) ≠ [] := by
          rw [hrows]
          change ofKey (Print.bucket tf) k _ ≠ []
          rw [ofKey_append]
          exact List.append_ne_nil_of_right_ne_nil _ ht
        rw [hget, if_pos ((htouched k _).2 ht), candleOf, candle_or hne, candle_content, candleAgg]
        exact congrArg (fun l => candle (ofKey (Print.bucket tf) k l) 0 0) hrows
    · rw [if_neg hdone] at htable
      have heffect : candleEffect tf run = .skipped := if_neg hdone
      have hsame : ∀ k, (candleView tf (t.apply thresholds run)).shown k =
          (candleView tf t).shown k :=
        fun k => congrArg (fun table => (Dict.get? table k).map Candle.content) htable
      refine eq_round hrows (fun k _ => hsame k) (fun _ k _ => hsame k) (fun h => ?_) (fun h => ?_)
      · rw [heffect] at h
        cases h
      · rw [heffect] at h
        cases h

/-- The rows of one day, after the days of `stage_bars` are deleted. -/
theorem filter_kept (table : List Bar) (days : List SymbolDay) (k : SymbolDay) :
    (table.filter fun b => b.symbolDay ∉ days).filter (fun b => b.symbolDay = k) =
      if k ∈ days then [] else table.filter fun b => b.symbolDay = k := by
  rw [List.filter_filter]
  split
  · rename_i hk
    refine List.filter_eq_nil_iff.2 fun b _ h => ?_
    simp only [Bool.and_eq_true, decide_eq_true_eq] at h
    exact h.2 (h.1 ▸ hk)
  · rename_i hk
    refine List.filter_congr fun b _ => ?_
    by_cases h : b.symbolDay = k
    · simp [h, hk]
    · simp [h]

/-- The rows of one day among those computed afresh. -/
theorem filter_bars {days : List SymbolDay} (hdays : days.Nodup) (srcSnapshotId : Nat) (runTs : Int)
    (trades : List Print) (k : SymbolDay) :
    (bars srcSnapshotId runTs thresholds days trades).filter (fun b => b.symbolDay = k) =
      if k ∈ days then
        dayBars srcSnapshotId runTs thresholds k (trades.filter fun p => p.symbolDay = k)
      else [] := by
  induction days with
  | nil => rfl
  | cons d days ih =>
    obtain ⟨hd, hdays⟩ := List.nodup_cons.1 hdays
    have hfirst : (dayBars srcSnapshotId runTs thresholds d
        (trades.filter fun p => p.symbolDay = d)).filter (fun b => b.symbolDay = k) =
          if k = d then dayBars srcSnapshotId runTs thresholds k
            (trades.filter fun p => p.symbolDay = k) else [] := by
      split
      · rename_i hk
        subst hk
        exact List.filter_eq_self.2 fun b hb => decide_eq_true (symbolDay_of_mem_dayBars hb)
      · rename_i hk
        refine List.filter_eq_nil_iff.2 fun b hb h => hk ?_
        rw [← symbolDay_of_mem_dayBars hb, of_decide_eq_true h]
    rw [bars, List.flatMap_cons, List.filter_append, hfirst, ← bars, ih hdays]
    by_cases hk : k = d
    · subst hk
      simp [hd]
    · simp [hk]

/-- What `stage_bars` leaves of one day. -/
theorem filter_stageBars (commits : Nat) (minutes : List Bucket) (gold : GoldLog) (runTs : Int)
    (table : List Bar) (k : SymbolDay) :
    (stageBars thresholds commits minutes gold runTs table).filter (fun b => b.symbolDay = k) =
      if k ∈ (minutes.map Bucket.symbolDay).dedup ∧ BARS_DELETE < commits then
        if commits ≤ BARS_APPEND then []
        else dayBars gold.length runTs thresholds k
          ((prints gold).filter fun p => p.symbolDay = k)
      else table.filter fun b => b.symbolDay = k := by
  have hnodup : (minutes.map Bucket.symbolDay).dedup.Nodup := List.nodup_dedup _
  unfold stageBars
  generalize (minutes.map Bucket.symbolDay).dedup = days at hnodup
  simp only
  split
  · rename_i hnone
    rw [if_neg]
    rintro ⟨hk, hlt⟩
    rcases hnone with hempty | hle
    · rw [List.isEmpty_iff.1 hempty] at hk
      cases hk
    · omega
  · rename_i hdelete
    rw [not_or, not_le] at hdelete
    split
    · rw [filter_kept]
      by_cases hk : k ∈ days
      · rw [if_pos hk, if_pos ⟨hk, hdelete.2⟩]
      · rw [if_neg hk, if_neg fun h => hk h.1]
    · rw [List.filter_append, filter_kept, filter_bars hnodup]
      by_cases hk : k ∈ days
      · rw [if_pos hk, if_pos hk, if_pos ⟨hk, hdelete.2⟩, List.nil_append]
      · rw [if_neg hk, if_neg hk, if_neg fun h => hk h.1, List.append_nil]

theorem filter_barRows (bs : List Bar) (k : SymbolDay) :
    ((bs.map Bar.content : List Bar) : Multiset Bar).filter (fun b => b.symbolDay = k) =
      ((bs.filter fun b => b.symbolDay = k).map Bar.content : List Bar) := by
  rw [Multiset.filter_coe, List.filter_map]
  rfl

/-- **A run is a round on the bars.** -/
theorem barView_apply (t : GoldTables) (run : GoldRun sha256) :
    barView (t.apply thresholds run) =
      (barView t).round Print.symbolDay (barAgg thresholds)
        ⟨t.newTrades run, barEffect run⟩ := by
  have hrows := prints_apply thresholds t run
  have htable := bars_apply thresholds t run
  have hshown : ∀ k, (barView (t.apply thresholds run)).shown k =
      (((t.apply thresholds run).bars.filter fun b => b.symbolDay = k).map Bar.content : List Bar) :=
    fun k => filter_barRows _ k
  have hsame : ∀ k, (t.apply thresholds run).bars.filter (fun b => b.symbolDay = k) =
      t.bars.filter (fun b => b.symbolDay = k) →
        (barView (t.apply thresholds run)).shown k = (barView t).shown k := by
    intro k h
    rw [hshown, h]
    exact (filter_barRows _ k).symm
  cases hm : touchedMinutes ((t.arrive run.arrived).newCommits run) with
  | none =>
    rw [hm] at htable
    have hunchanged := fun k => hsame k (by rw [htable])
    have huntouched := not_touches_of_none Print.symbolDay hm
    exact eq_round hrows (fun k _ => hunchanged k) (fun _ k _ => hunchanged k)
      (fun _ k ht => absurd ht (huntouched k _)) (fun _ k ht => absurd ht (huntouched k _))
  | some minutes =>
    simp only [hm] at htable
    have hday : ∀ p : Print, p.symbolDay = p.minute.symbolDay := fun p => (symbolDay_minute p).symm
    have htouched := mem_touched_iff hday hm
    refine eq_round hrows (fun k ht => ?_) (fun h k ht => ?_) (fun h k ht => ?_) (fun h k ht => ?_)
    · refine hsame k ?_
      rw [htable, filter_stageBars, if_neg fun hk => ht ((htouched k _).1 hk.1)]
    · have hle : run.commits ≤ BARS_DELETE := by
        by_contra hlt
        rw [barEffect, if_neg hlt] at h
        split at h <;> cases h
      refine hsame k ?_
      rw [htable, filter_stageBars, if_neg fun hk => absurd hk.2 (not_lt.2 hle)]
    · have hle : BARS_DELETE < run.commits ∧ run.commits ≤ BARS_APPEND := by
        unfold barEffect at h
        split at h
        · cases h
        · split at h
          · omega
          · cases h
      rw [hshown, htable, filter_stageBars, if_pos ⟨(htouched k _).2 ht, hle.1⟩, if_pos hle.2,
        barAgg, dayBars_nil]
      rfl
    · have hlt : BARS_DELETE < run.commits ∧ BARS_APPEND < run.commits := by
        unfold barEffect at h
        split at h
        · cases h
        · split at h
          · cases h
          · omega
      rw [hshown, htable, filter_stageBars, if_pos ⟨(htouched k _).2 ht, hlt.1⟩,
        if_neg (not_le.2 hlt.2), dayBars_content, barAgg]
      exact congrArg (fun l => ((dayBars 0 0 thresholds k (ofKey Print.symbolDay k l) : List Bar) :
        Multiset Bar)) hrows

end Views

end K2.Lake

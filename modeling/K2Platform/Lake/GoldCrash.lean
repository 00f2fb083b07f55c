import K2Platform.Lake.GoldStage

/-!
# Runs of the gold stage that are cut off

`gold.trades` takes a run's position with its first commits, and the buckets that a later run
computes again are those its own trades touch.  So what a run that was cut off left undone is done
only if later trades ask for it.

* `candleView_after`, `barView_after` — the tables after any runs are views after as many rounds.
* `prints_agree` — `gold.trades` itself catches up, whatever was cut off.
* `same_tables_iff` — candles and bars are what uninterrupted runs would have made of them exactly
  when every bucket that a run touched and did not get to is touched again by one that does.
-/

set_option autoImplicit false

namespace K2.Lake

open Changelog RecomputedView

section Runs

variable {sha256 : String → String} (thresholds : List Threshold)

/-- The rounds that runs make on a view, each getting as far as `effect` says. -/
def roundsOf (effect : GoldRun sha256 → RecomputedView.Effect) : GoldTables → List (GoldRun sha256) →
    List (Round Print)
  | _, [] => []
  | t, run :: runs => ⟨t.newTrades run, effect run⟩ :: roundsOf effect (t.apply thresholds run) runs

/-- The run, not cut off. -/
def GoldRun.completed (run : GoldRun sha256) : GoldRun sha256 := { run with commits := COMMITS }

/-- The same candles and bars, whenever they were computed. -/
structure SameTables (a b : GoldTables) : Prop where
  ohlcv : ∀ tf k, ((a.ohlcv tf).get? k).map Candle.content =
    ((b.ohlcv tf).get? k).map Candle.content
  bars : (a.bars.map Bar.content).Perm (b.bars.map Bar.content)

/-- Every bucket, and every day of a symbol with a threshold, that the trades of a run touch which
    is cut off before its table is done, is touched again by a run that gets past that table. -/
structure Retouched (runs : List (GoldRun sha256)) : Prop where
  ohlcv : ∀ tf k, Revisited (Print.bucket tf) k
    (roundsOf thresholds (candleEffect tf) GoldTables.empty runs)
  bars : ∀ k, Priced thresholds k → Revisited Print.symbolDay k
    (roundsOf thresholds barEffect GoldTables.empty runs)

variable {thresholds}

/-! ## Views after runs -/

theorem candleView_foldl (tf : Timeframe) (runs : List (GoldRun sha256)) :
    ∀ t : GoldTables, candleView tf (runs.foldl (GoldTables.apply thresholds) t) =
      (candleView tf t).rounds (Print.bucket tf) candleAgg
        (roundsOf thresholds (candleEffect tf) t runs) := by
  induction runs with
  | nil => exact fun _ => rfl
  | cons run runs ih =>
    intro t
    rw [List.foldl_cons, ih, candleView_apply]
    rfl

theorem barView_foldl (runs : List (GoldRun sha256)) :
    ∀ t : GoldTables, barView (runs.foldl (GoldTables.apply thresholds) t) =
      (barView t).rounds Print.symbolDay (barAgg thresholds)
        (roundsOf thresholds barEffect t runs) := by
  induction runs with
  | nil => exact fun _ => rfl
  | cons run runs ih =>
    intro t
    rw [List.foldl_cons, ih, barView_apply]
    rfl

variable (thresholds) in
theorem candleView_after (tf : Timeframe) (runs : List (GoldRun sha256)) :
    candleView tf (afterRuns thresholds runs) =
      (View.empty candleAgg).rounds (Print.bucket tf) candleAgg
        (roundsOf thresholds (candleEffect tf) GoldTables.empty runs) :=
  candleView_foldl tf runs GoldTables.empty

variable (thresholds) in
theorem barView_after (runs : List (GoldRun sha256)) :
    barView (afterRuns thresholds runs) =
      (View.empty (barAgg thresholds)).rounds Print.symbolDay (barAgg thresholds)
        (roundsOf thresholds barEffect GoldTables.empty runs) := by
  have hempty : barView GoldTables.empty = View.empty (barAgg thresholds) := by
    refine congrArg (View.mk []) (funext fun k => ?_)
    rw [barAgg, dayBars_nil]
    rfl
  rw [← hempty]
  exact barView_foldl runs GoldTables.empty

/-! ## What `gold.trades` catches up with -/

theorem silver_apply (t : GoldTables) (run : GoldRun sha256) :
    (t.apply thresholds run).silver = (t.arrive run.arrived).silver := by
  unfold GoldTables.apply GoldTables.stage
  simp only
  split <;> rfl

theorem synced_apply {t : GoldTables} {v : Exchange} (h : Synced t.silver t.trades v)
    (run : GoldRun sha256) :
    Synced (t.apply thresholds run).silver (t.apply thresholds run).trades v := by
  rw [silver_apply, trades_apply]
  exact synced_stageTrades _ _ (h.silver_append (List.prefix_append _ _))

variable (thresholds) in
theorem synced_afterRuns (runs : List (GoldRun sha256)) (v : Exchange) :
    Synced (afterRuns thresholds runs).silver (afterRuns thresholds runs).trades v := by
  induction runs using List.reverseRecOn with
  | nil => exact synced_empty _ v
  | append_singleton runs run ih =>
    rw [afterRuns, List.foldl_concat]
    exact synced_apply ih run

variable (thresholds) in
/-- Silver does not depend on how far the gold runs get. -/
theorem silver_afterRuns_completed (runs : List (GoldRun sha256)) :
    (afterRuns thresholds (runs.map GoldRun.completed)).silver =
      (afterRuns thresholds runs).silver := by
  induction runs using List.reverseRecOn with
  | nil => rfl
  | append_singleton runs run ih =>
    rw [List.map_append, List.map_singleton, afterRuns, afterRuns, List.foldl_concat,
      List.foldl_concat, silver_apply, silver_apply]
    exact congrArg (fun silver v => silver v ++ run.arrived v) ih

variable (thresholds) in
theorem ofVenue_afterRuns {run : GoldRun sha256} (hrun : COMMITS ≤ run.commits)
    (runs : List (GoldRun sha256)) (v : Exchange) :
    (ofVenue v (afterRuns thresholds (runs ++ [run])).trades).map GoldTrade.timeless =
      projectSilver v 0 (rows ((afterRuns thresholds (runs ++ [run])).silver v)) := by
  have hsynced : Synced ((afterRuns thresholds runs).arrive run.arrived).silver
      (afterRuns thresholds runs).trades v :=
    (synced_afterRuns thresholds runs v).silver_append (List.prefix_append _ _)
  have hvenues : TRADES.length ≤ run.commits := le_trans (by decide) hrun
  have hcaught := ofVenue_stageTrades run.runTs hvenues hsynced
  rw [afterRuns, List.foldl_concat, trades_apply, silver_apply]
  exact hcaught

/-- The trades of a key, where the key says what venue it is of. -/
theorem ofKey_prints {κ : Type} [DecidableEq κ] {key : Print → κ} {venue : κ → Exchange}
    (hvenue : ∀ p, venue (key p) = p.exchange) (gold : GoldLog) (k : κ) :
    ofKey key k (prints gold) =
      ofKey key k (((ofVenue (venue k) gold).map GoldTrade.timeless).map GoldTrade.print) := by
  have hprint : (GoldTrade.print ∘ GoldTrade.timeless) = GoldTrade.print := rfl
  rw [List.map_map, hprint, ofKey, ofKey, prints, ofVenue, List.filter_map, List.filter_map,
    List.filter_filter]
  refine congrArg (List.map GoldTrade.print) (List.filter_congr fun r _ => ?_)
  by_cases h : key r.print = k
  · have hex : r.exchange = venue k := (h ▸ hvenue r.print).symm
    simp [h, hex]
  · simp [h]

variable (thresholds) in
/-- After a run that is not cut off, `gold.trades` has the trades it would have had without the
    cuts before it. -/
theorem prints_agree {κ : Type} [DecidableEq κ] (key : Print → κ) (venue : κ → Exchange)
    (hvenue : ∀ p, venue (key p) = p.exchange) {run : GoldRun sha256}
    (hrun : COMMITS ≤ run.commits) (runs : List (GoldRun sha256)) (k : κ) :
    ofKey key k (prints (afterRuns thresholds ((runs ++ [run]).map GoldRun.completed)).trades) =
      ofKey key k (prints (afterRuns thresholds (runs ++ [run])).trades) := by
  have hcompleted := ofVenue_afterRuns thresholds (show COMMITS ≤ run.completed.commits from le_rfl)
    (runs.map GoldRun.completed) (venue k)
  have hsilver := silver_afterRuns_completed thresholds (runs ++ [run])
  rw [List.map_append, List.map_singleton] at hsilver ⊢
  rw [ofKey_prints hvenue, ofKey_prints hvenue, hcompleted, hsilver,
    ofVenue_afterRuns thresholds hrun]

/-! ## What is left undone -/

theorem mem_roundsOf {effect : GoldRun sha256 → RecomputedView.Effect} {r : Round Print} :
    ∀ {runs : List (GoldRun sha256)} {t : GoldTables}, r ∈ roundsOf thresholds effect t runs →
      ∃ run ∈ runs, r.effect = effect run
  | run :: runs, t, h => by
    rcases List.mem_cons.1 h with rfl | h
    · exact ⟨run, List.mem_cons_self, rfl⟩
    · obtain ⟨run', hmem, heffect⟩ := mem_roundsOf h
      exact ⟨run', List.mem_cons_of_mem _ hmem, heffect⟩

variable (thresholds) in
/-- Runs that are not cut off leave no key behind. -/
theorem revisited_completed {κ : Type} [DecidableEq κ] (key : Print → κ)
    {effect : GoldRun sha256 → RecomputedView.Effect}
    (heffect : ∀ run, effect (GoldRun.completed run) = .recomputed) (runs : List (GoldRun sha256))
    (k : κ) :
    Revisited key k
      (roundsOf thresholds effect GoldTables.empty (runs.map GoldRun.completed)) := by
  refine revisited_of_recomputed fun r hr => ?_
  obtain ⟨run, hrun, he⟩ := mem_roundsOf hr
  obtain ⟨run', _, rfl⟩ := List.mem_map.1 hrun
  rw [he, heffect]

theorem candleEffect_completed (tf : Timeframe) (run : GoldRun sha256) :
    candleEffect tf run.completed = .recomputed := by
  cases tf <;> rfl

theorem barEffect_completed (run : GoldRun sha256) : barEffect run.completed = .recomputed := rfl

/-- A bucket has the candle it should have exactly when it is revisited. -/
theorem candles_agree_iff {run : GoldRun sha256} (hrun : COMMITS ≤ run.commits)
    (runs : List (GoldRun sha256)) (tf : Timeframe) (k : Bucket) :
    (((afterRuns thresholds (runs ++ [run])).ohlcv tf).get? k).map Candle.content =
        (((afterRuns thresholds ((runs ++ [run]).map GoldRun.completed)).ohlcv tf).get? k).map
          Candle.content ↔
      Revisited (Print.bucket tf) k
        (roundsOf thresholds (candleEffect tf) GoldTables.empty (runs ++ [run])) := by
  have hview := candleView_after thresholds tf (runs ++ [run])
  have hideal := candleView_after thresholds tf
    ((runs ++ [run]).map GoldRun.completed)
  have hshown := shown_of_revisited candleAgg (revisited_completed thresholds (Print.bucket tf)
    (candleEffect_completed tf) (runs ++ [run]) k)
  rw [← hideal] at hshown
  have hiff := shown_eq_iff (Print.bucket tf) candleAgg (k := k) (fun l more => eq_nil_of_candle_eq)
    (roundsOf thresholds (candleEffect tf) GoldTables.empty (runs ++ [run]))
  rw [← hview] at hiff
  have hsame := prints_agree thresholds (Print.bucket tf) Bucket.exchange (fun _ => rfl) hrun runs k
  rw [← hiff]
  change (candleView tf _).shown k = (candleView tf _).shown k ↔ _
  rw [hshown]
  exact Eq.congr_right (congrArg (candleAgg k) hsame)

/-- So has a day, where its symbol has a threshold. -/
theorem bars_agree_iff {run : GoldRun sha256} (hrun : COMMITS ≤ run.commits)
    (runs : List (GoldRun sha256)) (k : SymbolDay) :
    (barRows (afterRuns thresholds (runs ++ [run]))).filter (fun b => b.symbolDay = k) =
        (barRows (afterRuns thresholds ((runs ++ [run]).map GoldRun.completed))).filter
          (fun b => b.symbolDay = k) ↔
      (Priced thresholds k → Revisited Print.symbolDay k
        (roundsOf thresholds barEffect GoldTables.empty (runs ++ [run]))) := by
  have hview := barView_after thresholds (runs ++ [run])
  have hideal := barView_after thresholds ((runs ++ [run]).map GoldRun.completed)
  have hshown := shown_of_revisited (barAgg thresholds)
    (revisited_completed thresholds Print.symbolDay barEffect_completed (runs ++ [run]) k)
  rw [← hideal] at hshown
  have hsame := prints_agree thresholds Print.symbolDay SymbolDay.exchange (fun _ => rfl) hrun runs k
  change (barView _).shown k = (barView _).shown k ↔ _
  rw [hshown]
  by_cases hpriced : Priced thresholds k
  · have hiff := shown_eq_iff Print.symbolDay (barAgg thresholds) (k := k)
      (fun l more h => eq_nil_of_dayBars_perm hpriced (Multiset.coe_eq_coe.1 h))
      (roundsOf thresholds barEffect GoldTables.empty (runs ++ [run]))
    rw [← hview] at hiff
    rw [forall_prop_of_true hpriced, ← hiff]
    exact Eq.congr_right (congrArg (barAgg thresholds k) hsame)
  · -- a symbol without a threshold has no bars, however far the runs got
    obtain ⟨missing, ⟨l, _, hl⟩, _⟩ := exists_lacks Print.symbolDay (barAgg thresholds) k
      (roundsOf thresholds barEffect GoldTables.empty (runs ++ [run]))
    rw [← hview] at hl
    have hnone : ∀ l, barAgg thresholds k l = 0 := fun l => by
      rw [barAgg, dayBars_of_not_priced hpriced]
      rfl
    rw [hl, hnone, hnone]
    exact iff_of_true rfl fun h => absurd h hpriced

theorem barRows_ext {a b : GoldTables}
    (h : ∀ k, (barRows a).filter (fun r => r.symbolDay = k) =
      (barRows b).filter fun r => r.symbolDay = k) : barRows a = barRows b := by
  refine Multiset.ext.2 fun r => ?_
  have hcount := congrArg (Multiset.count r) (h r.symbolDay)
  have hof : ∀ s : Multiset Bar, (s.filter fun b => b.symbolDay = r.symbolDay).count r = s.count r :=
    fun s => Multiset.count_filter_of_pos rfl
  rwa [hof, hof] at hcount

/-- **Crash-equivalence, as far as it goes.**  After a run that completes, candles and bars are the
    ones that there would be if every run before it had completed too, if and only if what those
    that were cut off left undone is touched again. -/
theorem same_tables_iff (runs : List (GoldRun sha256)) (last : GoldRun sha256)
    (hlast : COMMITS ≤ last.commits) :
    SameTables (afterRuns thresholds (runs ++ [last]))
        (afterRuns thresholds ((runs ++ [last]).map GoldRun.completed)) ↔
      Retouched thresholds (runs ++ [last]) := by
  constructor
  · rintro ⟨hohlcv, hbars⟩
    refine ⟨fun tf k => (candles_agree_iff hlast runs tf k).1 (hohlcv tf k), fun k => ?_⟩
    refine (bars_agree_iff hlast runs k).1 (congrArg (Multiset.filter _) ?_)
    exact Multiset.coe_eq_coe.2 hbars
  · rintro ⟨hohlcv, hbars⟩
    refine ⟨fun tf k => (candles_agree_iff hlast runs tf k).2 (hohlcv tf k), ?_⟩
    exact Multiset.coe_eq_coe.1 (barRows_ext fun k => (bars_agree_iff hlast runs k).2 (hbars k))

end Runs

/-! ## A run cut off once its trades are in -/

def btcThresholds : List Threshold := [⟨"BTC/USD", .tick, 10 ^ 12, 100, by decide⟩]

/-- A trade of the first minute. -/
def firstMinuteTrade (tradeId : String) (tradeSeq : Int) : SilverTrade where
  symbol := "BTC/USD"
  canonicalSymbol := "BTC/USD"
  tradeId := tradeId
  tradeSeq := tradeSeq
  price := 600000000000000
  qty := 10000000000
  side := "buy"
  exchangeTs := 1000000
  recvTsNs := 1000000000
  connId := "c"
  connMsgSeq := tradeSeq
  srcTopic := "market.crypto.v3.raw.kraken"
  srcPartition := 0
  srcOffset := tradeSeq
  srcIndex := 0
  ingestTs := 2000000
  venueReplay := false
  seqGap := none
  missingBefore := none
  precisionLoss := false

def firstMinutePrint (tradeSeq : Int) : Print :=
  ⟨.kraken, "BTC/USD", 1000000, 1000000000, tradeSeq, 6000000000000, 100000000⟩

/-- A run that finds these trades new in Kraken's silver table. -/
def krakenRun (trades : List SilverTrade) (commits : Nat) : GoldRun id where
  arrived := fun v => if v = .kraken ∧ trades ≠ [] then [⟨trades, none⟩] else []
  runTs := 3000000
  dims := (Scd2.Current.empty, Scd2.Current.empty)
  commits := commits

/-- The next run has nothing new, so the candle of the trade is never made. -/
theorem candle_never_made :
    ¬ ∀ (sha256 : String → String) (thresholds : List Threshold) (runs : List (GoldRun sha256))
      (last : GoldRun sha256), COMMITS ≤ last.commits →
        SameTables (afterRuns thresholds (runs ++ [last]))
          (afterRuns thresholds ((runs ++ [last]).map GoldRun.completed)) := by
  intro h
  have hsame := (h id btcThresholds [krakenRun [firstMinuteTrade "1" 1] 3] (krakenRun [] COMMITS)
    le_rfl).ohlcv .m1 ⟨.kraken, "BTC/USD", 0⟩
  revert hsame
  decide +kernel

/-- A second trade in the same minute, and a run that completes. -/
theorem candle_made_late :
    COMMITS ≤ (krakenRun [firstMinuteTrade "2" 2] COMMITS).commits ∧
      SameTables
        (afterRuns btcThresholds
          ([krakenRun [firstMinuteTrade "1" 1] 3] ++ [krakenRun [firstMinuteTrade "2" 2] COMMITS]))
        (afterRuns btcThresholds
          (([krakenRun [firstMinuteTrade "1" 1] 3] ++
            [krakenRun [firstMinuteTrade "2" 2] COMMITS]).map GoldRun.completed)) := by
  have hfirst : GoldTables.empty.newTrades (krakenRun [firstMinuteTrade "1" 1] 3) =
      [firstMinutePrint 1] := by decide +kernel
  have hsecond : (GoldTables.empty.apply btcThresholds
      (krakenRun [firstMinuteTrade "1" 1] 3)).newTrades (krakenRun [firstMinuteTrade "2" 2] COMMITS) =
        [firstMinutePrint 2] := by decide +kernel
  -- the two trades have every bucket and the day in common
  have hrevisited : ∀ {κ : Type} [DecidableEq κ] (key : Print → κ) (e : RecomputedView.Effect) (k : κ),
      key (firstMinutePrint 1) = key (firstMinutePrint 2) →
        Revisited key k ([⟨[firstMinutePrint 1], e⟩] ++ [⟨[firstMinutePrint 2], .recomputed⟩]) := by
    intro κ _ key e k hkey
    by_cases ht : Touches key k ⟨[firstMinutePrint 2], .recomputed⟩
    · exact revisited_concat_of_recomputed ht rfl
    · rw [revisited_concat_of_not_touches ht, ← List.nil_append [_], revisited_concat_of_not_touches]
      · exact revisited_nil
      · unfold Touches ofKey at ht ⊢
        simpa [List.filter_cons, hkey] using ht
  refine ⟨le_rfl, (same_tables_iff _ _ le_rfl).2 ⟨fun tf k => ?_, fun k _ => ?_⟩⟩
  · have heffect : candleEffect tf (krakenRun [firstMinuteTrade "2" 2] COMMITS) = .recomputed := by
      cases tf <;> rfl
    rw [List.singleton_append, roundsOf, roundsOf, hfirst, hsecond, heffect]
    exact hrevisited (Print.bucket tf) _ k rfl
  · rw [List.singleton_append, roundsOf, roundsOf, hfirst, hsecond]
    exact hrevisited Print.symbolDay _ k rfl

end K2.Lake

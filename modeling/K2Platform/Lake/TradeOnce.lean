import K2Platform.Lake.GoldTrades
import K2Platform.Lib.FirstLeast

/-!
# One gold row per trade

Batches of deliveries are scored and appended to the silver tables, and runs of `stage_trades`
read them at any point between.  A delivery is flagged against what had been written before it
and is never looked at again.

* `ranks_written` — the rows that are not replays are the leaders of the batches, trade by trade.
* `held_once_iff` — gold ends up with every trade once exactly when the earliest delivery of each
  lies in the first batch that holds any delivery of it.
-/

set_option autoImplicit false

namespace K2.Lake

open Changelog FirstLeast

/-! ## Silver batches -/

/-- The ranks of the deliveries of one trade. -/
def ranksOf (t : String × String) (l : List TypedTrade) :=
  (l.filter fun d => d.trade = t).map TypedTrade.rank

/-- The rows of one trade that are not replays. -/
def kept (t : String × String) (silver : List SilverTrade) : List SilverTrade :=
  silver.filter fun r => r.trade = t && !r.venueReplay

def silverWriteAll (table : SilverLog) (batches : List (List TypedTrade × Nat)) : SilverLog :=
  batches.foldl (fun table b => silverWrite table b.1 b.2) table

/-- Two deliveries of one trade are received within a day of each other. -/
def WithinLookback (l : List TypedTrade) : Prop :=
  ∀ d ∈ l, ∀ e ∈ l, d.trade = e.trade → d.recvTs ≤ e.recvTs + LOOKBACK

theorem mem_ranksOf {t : String × String} {l : List TypedTrade} {x : Int ×ₗ Int ×ₗ Int ×ₗ Int} :
    x ∈ ranksOf t l ↔ ∃ d ∈ l, d.trade = t ∧ d.rank = x := by
  simp only [ranksOf, List.mem_map, List.mem_filter, decide_eq_true_eq, and_assoc]

theorem ranksOf_append (t : String × String) (l l' : List TypedTrade) :
    ranksOf t (l ++ l') = ranksOf t l ++ ranksOf t l' := by
  rw [ranksOf, List.filter_append, List.map_append]
  rfl

theorem kept_append (t : String × String) (l l' : List SilverTrade) :
    kept t (l ++ l') = kept t l ++ kept t l' := List.filter_append ..

/-- Re-deliveries are within the lookback, so the rows of a trade that are flagged in a batch are
    the ones that neither the batch nor the table has an earlier delivery for. -/
theorem kept_score {table : SilverLog} {batch : List TypedTrade}
    (hwithin : WithinLookback (deliveries table ++ batch)) {lo : Int}
    (hlo : ∀ d ∈ batch, lo ≤ d.recvTs) (t : String × String) :
    (kept t (score batch (lookback table (lo - LOOKBACK)))).map (fun r => r.rank) =
      leaders (ranksOf t (deliveries table)) (ranksOf t batch) := by
  have hflag : ∀ d ∈ batch, d.trade = t →
      ((scoreRow (batch ++ lookback table (lo - LOOKBACK)) d).venueReplay = false ↔
        ∀ y ∈ ranksOf t (deliveries table) ++ ranksOf t batch, d.rank ≤ y) := by
    intro d hd ht
    rw [venueReplay_eq_false_iff]
    constructor
    · intro h y hy
      rw [← ranksOf_append] at hy
      obtain ⟨e, he, hte, rfl⟩ := mem_ranksOf.1 hy
      rcases List.mem_append.1 he with he | he
      · have hday := hwithin d (List.mem_append_right _ hd) e (List.mem_append_left _ he)
          (ht.trans hte.symm)
        have hin : e ∈ lookback table (lo - LOOKBACK) :=
          mem_lookback.2 ⟨he, by have := hlo d hd; omega⟩
        exact h e (List.mem_append_right _ hin) (hte.trans ht.symm)
      · exact h e (List.mem_append_left _ he) (hte.trans ht.symm)
    · intro h e he hte
      refine h e.rank ?_
      rw [← ranksOf_append, mem_ranksOf]
      rcases List.mem_append.1 he with he | he
      · exact ⟨e, List.mem_append_right _ he, hte.trans ht, rfl⟩
      · exact ⟨e, List.mem_append_left _ (mem_lookback.1 he).1, hte.trans ht, rfl⟩
  have hranks : ∀ p : Int ×ₗ Int ×ₗ Int ×ₗ Int → Bool, (ranksOf t batch).filter p =
      (batch.filter fun d => p d.rank && d.trade = t).map TypedTrade.rank := by
    intro p
    rw [ranksOf, List.filter_map, List.filter_filter]
    rfl
  rw [kept, score, List.filter_map, List.map_map, leaders, hranks]
  refine congrArg (List.map TypedTrade.rank) (List.filter_congr fun d hd => ?_)
  change (decide (d.trade = t) && _) = _
  by_cases ht : d.trade = t
  · simp only [ht, decide_true, Bool.true_and, Bool.and_true]
    rw [Bool.eq_iff_iff, Bool.not_eq_true', hflag d hd ht, List.all_eq_true]
    simp only [decide_eq_true_eq]
  · simp [ht]

theorem kept_silverWrite {table : SilverLog} {batch : List TypedTrade}
    (hwithin : WithinLookback (deliveries table ++ batch)) (src : Nat) (t : String × String) :
    (kept t (rows (silverWrite table batch src))).map (fun r => r.rank) =
      (kept t (rows table)).map (fun r => r.rank) ++
        leaders (ranksOf t (deliveries table)) (ranksOf t batch) := by
  by_cases hb : batch = []
  · rw [hb, silverWrite_nil]
    simp [ranksOf]
  · obtain ⟨lo, hlo, hwrite⟩ := silverWrite_of_ne_nil hb table src
    rw [hwrite, rows_append, kept_append, List.map_append, rows_singleton,
      kept_score hwithin hlo t]

theorem ranks_written (t : String × String) (batches : List (List TypedTrade × Nat)) :
    ∀ table : SilverLog, WithinLookback (deliveries table ++ (batches.map Prod.fst).flatten) →
      (kept t (rows (silverWriteAll table batches))).map (fun r => r.rank) =
        (kept t (rows table)).map (fun r => r.rank) ++
          lows (ranksOf t (deliveries table)) ((batches.map Prod.fst).map (ranksOf t)) := by
  induction batches with
  | nil =>
    intro table _
    simp [silverWriteAll, lows]
  | cons b batches ih =>
    intro table hwithin
    rw [List.map_cons, List.flatten_cons, ← List.append_assoc] at hwithin
    have hfirst : WithinLookback (deliveries table ++ b.1) := fun d hd e he =>
      hwithin d (List.mem_append_left _ hd) e (List.mem_append_left _ he)
    have hrest := ih (silverWrite table b.1 b.2) (by rwa [deliveries_silverWrite])
    rw [deliveries_silverWrite, kept_silverWrite hfirst, ranksOf_append] at hrest
    rw [List.map_cons, List.map_cons, lows, ← List.append_assoc]
    exact hrest

theorem nodup_ranksOf {l : List TypedTrade} (h : (l.map TypedTrade.lineage).Nodup)
    (t : String × String) : (ranksOf t l).Nodup := by
  have hl : l.Nodup := h.of_map _
  refine (hl.filter _).map_on fun a ha b hb hab => ?_
  exact List.inj_on_of_nodup_map h (List.mem_of_mem_filter ha) (List.mem_of_mem_filter hb)
    (TypedTrade.lineage_of_rank hab)

theorem flatten_map_ranksOf (t : String × String) (batches : List (List TypedTrade)) :
    (batches.map (ranksOf t)).flatten = ranksOf t batches.flatten := by
  induction batches with
  | nil => rfl
  | cons b batches ih => rw [List.map_cons, List.flatten_cons, List.flatten_cons, ih, ranksOf_append]

/-- The number of rows of a delivered trade that are not replays is one exactly when its earliest
    delivery lies in the first batch that holds any. -/
theorem length_kept_eq_one_iff {batches : List (List TypedTrade × Nat)}
    (hdistinct : ((batches.map Prod.fst).flatten.map TypedTrade.lineage).Nodup)
    (hwithin : WithinLookback (batches.map Prod.fst).flatten) {t : String × String}
    (ht : ∃ d ∈ (batches.map Prod.fst).flatten, d.trade = t) :
    (kept t (rows (silverWriteAll [] batches))).length = 1 ↔
      LeastFirst ((batches.map Prod.fst).map (ranksOf t)) := by
  have hlows := ranks_written t batches [] hwithin
  have hlength := congrArg List.length hlows
  rw [List.length_map] at hlength
  have hnodup : ((batches.map Prod.fst).map (ranksOf t)).flatten.Nodup := by
    rw [flatten_map_ranksOf]
    exact nodup_ranksOf hdistinct t
  have hne : ((batches.map Prod.fst).map (ranksOf t)).flatten ≠ [] := by
    rw [flatten_map_ranksOf]
    obtain ⟨d, hd, hdt⟩ := ht
    exact List.ne_nil_of_mem (mem_ranksOf.2 ⟨d, hd, hdt, rfl⟩)
  rw [hlength, ← lows_length_eq_one_iff _ hnodup hne]
  rfl

/-! ## Silver and gold together -/

/-- A batch of one venue, or a run of `stage_trades` that is cut off before the venue number
    `cut`. -/
inductive TradeEvent where
  | silver (v : Exchange) (batch : List TypedTrade) (srcSnapshotId : Nat)
  | gold (runTs : Int) (cut : Nat)

structure TradeLake where
  silver : SilverTables
  gold : GoldLog

namespace TradeLake

def empty : TradeLake := ⟨fun _ => [], []⟩

def step (s : TradeLake) : TradeEvent → TradeLake
  | .silver v batch src =>
    { s with silver := fun w => if w = v then silverWrite (s.silver v) batch src else s.silver w }
  | .gold runTs cut => { s with gold := stageTrades s.silver runTs cut s.gold }

def run (history : List TradeEvent) : TradeLake := history.foldl step empty

theorem run_concat (history : List TradeEvent) (e : TradeEvent) :
    run (history ++ [e]) = (run history).step e := by
  rw [run, List.foldl_append]
  rfl

end TradeLake

def batchesOf (v : Exchange) (history : List TradeEvent) : List (List TypedTrade × Nat) :=
  history.filterMap fun
    | .silver w batch src => if w = v then some (batch, src) else none
    | .gold _ _ => none

/-- Every delivery of a venue, in the order of the batches. -/
def delivered (v : Exchange) (history : List TradeEvent) : List TypedTrade :=
  ((batchesOf v history).map Prod.fst).flatten

/-- The rows of one trade in `gold.trades`. -/
def heldInGold (v : Exchange) (t : String × String) (gold : GoldLog) : List GoldTrade :=
  (ofVenue v gold).filter fun r => (r.symbol, r.tradeId) = t

theorem silver_run (v : Exchange) (history : List TradeEvent) :
    (TradeLake.run history).silver v = silverWriteAll [] (batchesOf v history) := by
  induction history using List.reverseRecOn with
  | nil => rfl
  | append_singleton history e ih =>
    rw [TradeLake.run_concat, batchesOf, List.filterMap_append]
    cases e with
    | gold runTs cut =>
      simp only [TradeLake.step, List.filterMap_cons, List.filterMap_nil, List.append_nil]
      exact ih
    | silver w batch src =>
      by_cases hw : w = v
      · subst hw
        simp only [TradeLake.step, if_pos, ih, List.filterMap_cons, List.filterMap_nil]
        rw [silverWriteAll, silverWriteAll, List.foldl_append]
        rfl
      · simp only [TradeLake.step, if_neg hw, if_neg (Ne.symm hw), List.filterMap_cons,
          List.filterMap_nil, List.append_nil]
        exact ih

theorem prefix_silverWrite (table : SilverLog) (batch : List TypedTrade) (src : Nat) :
    table <+: silverWrite table batch src := by
  unfold silverWrite
  split
  · exact List.prefix_rfl
  · exact List.prefix_append _ _

theorem synced_run (v : Exchange) (history : List TradeEvent) :
    Synced (TradeLake.run history).silver (TradeLake.run history).gold v := by
  induction history using List.reverseRecOn with
  | nil => exact synced_empty _ v
  | append_singleton history e ih =>
    rw [TradeLake.run_concat]
    cases e with
    | gold runTs cut => exact synced_stageTrades runTs cut ih
    | silver w batch src =>
      refine ih.silver_append ?_
      simp only [TradeLake.step]
      split
      · rename_i h
        exact h ▸ prefix_silverWrite _ _ _
      · exact List.prefix_rfl

/-- What gold holds of a trade once it has caught up. -/
theorem length_heldInGold (v : Exchange) (t : String × String) (history : List TradeEvent)
    (runTs : Int) :
    (heldInGold v t (stageTrades (TradeLake.run history).silver runTs TRADES.length
      (TradeLake.run history).gold)).length =
        (kept t (rows ((TradeLake.run history).silver v))).length := by
  have hgold := ofVenue_stageTrades runTs le_rfl (synced_run v history)
  have hcount := congrArg (fun l => (l.filter fun r : GoldTrade => (r.symbol, r.tradeId) = t).length)
    hgold
  simp only [projectSilver, List.filter_map, List.length_map, List.filter_filter] at hcount
  exact hcount

/-- **One gold row per trade.**  Where re-deliveries come within a day of one another, silver has
    exactly one row of every delivered trade that is not a replay, and gold holds the trade once,
    if and only if the earliest delivery of each trade lies in the first batch that has any. -/
theorem held_once_iff (v : Exchange) (history : List TradeEvent)
    (hdistinct : ((delivered v history).map TypedTrade.lineage).Nodup)
    (hwithin : WithinLookback (delivered v history)) :
    (∀ t, (∃ d ∈ delivered v history, d.trade = t) →
        (kept t (rows ((TradeLake.run history).silver v))).length = 1 ∧
          ∀ runTs, (heldInGold v t (stageTrades (TradeLake.run history).silver runTs TRADES.length
            (TradeLake.run history).gold)).length = 1) ↔
      ∀ t, (∃ d ∈ delivered v history, d.trade = t) →
        LeastFirst (((batchesOf v history).map Prod.fst).map (ranksOf t)) := by
  refine forall_congr' fun t => imp_congr_right fun ht => ?_
  simp only [length_heldInGold]
  rw [← length_kept_eq_one_iff hdistinct hwithin ht, silver_run]
  exact ⟨fun h => h.1, fun h => ⟨h, fun _ => h⟩⟩

/-- Within a partition later batches have later offsets. -/
def Drained (batches : List (List TypedTrade)) : Prop :=
  batches.Pairwise fun b b' => ∀ d ∈ b, ∀ e ∈ b', d.srcPartition = e.srcPartition →
    d.srcOffset < e.srcOffset

/-- A delivery of trade 7 that came from one partition, received at `recvTsNs`. -/
def deliveryOf (partition recvTsNs : Int) : TypedTrade where
  symbol := "BTC-USD"
  canonicalSymbol := "BTC/USD"
  tradeId := "7"
  tradeSeq := 7
  price := 600000000000000
  qty := 10000000000
  side := "buy"
  exchangeTs := 1
  recvTsNs := recvTsNs
  connId := "c"
  connMsgSeq := 1
  srcTopic := "market.crypto.raw.coinbase"
  srcPartition := partition
  srcOffset := 0
  srcIndex := 0
  ingestTs := 2

/-- The partition that holds the first delivery is drained after the one that holds the second. -/
def laterDrained : List TradeEvent :=
  [.silver .coinbase [deliveryOf 1 2000000] 1, .silver .coinbase [deliveryOf 0 1000000] 2]

theorem later_drained_twice : ¬ ∀ v history, ((delivered v history).map TypedTrade.lineage).Nodup →
    WithinLookback (delivered v history) → Drained ((batchesOf v history).map Prod.fst) →
      ∀ t, (∃ d ∈ delivered v history, d.trade = t) →
        (kept t (rows ((TradeLake.run history).silver v))).length = 1 := by
  intro h
  have hwithin : WithinLookback (delivered .coinbase laterDrained) := by
    unfold WithinLookback
    decide
  have hdrained : Drained ((batchesOf .coinbase laterDrained).map Prod.fst) := by
    unfold Drained
    decide
  have hone := h .coinbase laterDrained (by decide) hwithin hdrained ("BTC-USD", "7")
    ⟨deliveryOf 1 2000000, by decide, rfl⟩
  revert hone
  decide

/-- Drained in the order of receipt, the trade is held once. -/
theorem held_once_in_order :
    (kept ("BTC-USD", "7") (rows ((TradeLake.run laterDrained.reverse).silver .coinbase))).length =
        1 ∧
      (heldInGold .coinbase ("BTC-USD", "7") (stageTrades (TradeLake.run laterDrained.reverse).silver
        3 TRADES.length (TradeLake.run laterDrained.reverse).gold)).length = 1 := by
  have hwithin : WithinLookback (delivered .coinbase laterDrained.reverse) := by
    unfold WithinLookback
    decide
  have hone := (held_once_iff .coinbase laterDrained.reverse (by decide) hwithin).2 fun t ht => by
    obtain ⟨d, hd, rfl⟩ := ht
    have hall : ∀ d ∈ delivered .coinbase laterDrained.reverse, d.trade = ("BTC-USD", "7") := by
      decide
    have hbatches : ((batchesOf .coinbase laterDrained.reverse).map Prod.fst).map
        (ranksOf ("BTC-USD", "7")) =
          [[(deliveryOf 0 1000000).rank], [(deliveryOf 1 2000000).rank]] := by
      decide
    rw [hall d hd, hbatches, leastFirst_cons (List.cons_ne_nil _ _) List.mem_cons_self (by decide)]
    decide
  have htrade := hone ("BTC-USD", "7") ⟨deliveryOf 0 1000000, by decide, rfl⟩
  exact ⟨htrade.1, htrade.2 3⟩

end K2.Lake

import K2Platform.Lake.Books

/-!
# Binance books and the cuts between ticks

The frames of the archive are cut into successive ticks, each appended as it comes.  The windows
of a tick see that tick alone.

* `tick_invariant_iff` — the appended rows are those of one batch, one per symbol and second,
  exactly when no second of a symbol and no connection of a symbol is cut.
-/

set_option autoImplicit false

namespace K2.Lake

open Ticks

/-- One tick: its `run_ts` and its frames. -/
structure BinanceTick where
  runTs : Int
  frames : List DepthFrame

def framesOf (ticks : List BinanceTick) : List (List DepthFrame) := ticks.map BinanceTick.frames

/-- The rows of `silver.book_binance` after the ticks. -/
def silverAfter (ticks : List BinanceTick) : List BinanceRow :=
  ticks.flatMap fun t => binanceSilver t.runTs t.frames

/-- The rows the ticks append to `gold.book_top20`. -/
def goldAfter (ticks : List BinanceTick) : List BookRow :=
  ticks.flatMap fun t => binanceBooks t.runTs t.frames

/-! ## Rows without the time of the run -/

def BinanceRow.timeless (r : BinanceRow) : BinanceRow := { r with ingestTs := 0 }

def BookRow.timeless (r : BookRow) : BookRow := { r with ingestTs := 0 }

theorem timeless_silverAfter (ticks : List BinanceTick) :
    (silverAfter ticks).map BinanceRow.timeless =
      (framesOf ticks).flatMap fun b => b.map (binanceRow 0 b) := by
  rw [silverAfter, framesOf, List.map_flatMap, List.flatMap_map]
  refine List.flatMap_congr fun t _ => ?_
  rw [binanceSilver, List.map_map]
  rfl

theorem timeless_goldAfter (ticks : List BinanceTick) :
    (goldAfter ticks).map BookRow.timeless =
      ((framesOf ticks).flatMap fun b => b.filter (lastInSecond b)).map (binanceBook 0) := by
  rw [goldAfter, framesOf, List.map_flatMap, List.flatMap_map, List.map_flatMap]
  refine List.flatMap_congr fun t _ => ?_
  rw [binanceBooks, List.map_map]
  rfl

/-! ## Silver -/

section Cuts

variable {ticks : List (List DepthFrame)}

theorem seqGap_of_unsplit (h : Unsplit DepthFrame.connection ticks) {b : List DepthFrame}
    (hb : b ∈ ticks) {f : DepthFrame} (hf : f ∈ b) : seqGap b f = seqGap ticks.flatten f := by
  have hpeers : ∀ l : List DepthFrame, (l.filter fun g => g.connection = f.connection &&
      g.sendOrder < f.sendOrder) =
        (l.filter fun g => g.connection = f.connection).filter fun g => g.sendOrder < f.sendOrder := by
    intro l
    rw [List.filter_filter]
    exact List.filter_congr fun g _ => Bool.and_comm _ _
  rw [seqGap, seqGap, previousUpdateId, previousUpdateId, hpeers, hpeers,
    filter_of_unsplit DepthFrame.connection h hb hf]

/-- The flags are those of one batch exactly when no connection of a symbol is cut. -/
theorem silver_eq_iff (hlineage : (ticks.flatten.map DepthFrame.lineage).Nodup) :
    (ticks.flatMap fun b => b.map (binanceRow 0 b)) =
        ticks.flatten.map (binanceRow 0 ticks.flatten) ↔
      Unsplit DepthFrame.connection ticks := by
  have hkey : ∀ x ∈ ticks.flatten, ∀ y ∈ ticks.flatten, x.sendOrder = y.sendOrder → x = y :=
    fun x hx y hy hxy => List.inj_on_of_nodup_map hlineage hx hy (DepthFrame.lineage_of_sendOrder hxy)
  rw [flatMap_map_eq_iff]
  constructor
  · intro h
    refine (unsplit_iff_first _ DepthFrame.sendOrder hkey (hlineage.of_map _)).2
      fun b hb f hf hfirst => ?_
    have hnull := (seqGap_eq_none_iff b f).2 hfirst
    have hsame : seqGap b f = seqGap ticks.flatten f := congrArg BinanceRow.seqGap (h b hb f hf)
    exact (seqGap_eq_none_iff _ f).1 (hsame ▸ hnull)
  · intro h b hb f hf
    rw [binanceRow, binanceRow, seqGap_of_unsplit h hb hf]

/-! ## Gold -/

theorem gold_of_unsplit (h : Unsplit DepthFrame.slot ticks) :
    (ticks.flatMap fun b => b.filter (lastInSecond b)) =
      ticks.flatten.filter (lastInSecond ticks.flatten) :=
  flatMap_filter_eq _ _ _ fun b hb f hf => by
    rw [Bool.eq_iff_iff, lastInSecond_iff, lastInSecond_iff]
    exact first_iff_of_unsplit _ _ h hb hf

theorem nodup_slots_iff (hlineage : (ticks.flatten.map DepthFrame.lineage).Nodup) :
    ((ticks.flatMap fun b => b.filter (lastInSecond b)).map DepthFrame.slot).Nodup ↔
      Unsplit DepthFrame.slot ticks := by
  have hkey : ∀ x ∈ ticks.flatten, ∀ y ∈ ticks.flatten, x.age = y.age → x = y :=
    fun x hx y hy hxy => List.inj_on_of_nodup_map hlineage hx hy (DepthFrame.lineage_of_age hxy)
  have hnodup : ticks.flatten.Nodup := hlineage.of_map _
  have hlast : ∀ b f, f ∈ b.filter (lastInSecond b) ↔
      f ∈ b ∧ First DepthFrame.slot DepthFrame.age b f := by
    intro b f
    rw [List.mem_filter, lastInSecond_iff]
  constructor
  · -- Two ticks with frames of one slot each have a last one.
    intro h
    rw [List.map_flatMap, List.nodup_flatMap] at h
    refine (List.Pairwise.and_mem.1 h.2).imp fun {a b} hab x hx y hy hxy => ?_
    obtain ⟨_, _, hdisjoint⟩ := hab
    obtain ⟨m, hm, hmx, hmfirst⟩ := exists_first DepthFrame.slot DepthFrame.age hx
    obtain ⟨n, hn, hny, hnfirst⟩ := exists_first DepthFrame.slot DepthFrame.age hy
    have hmem := List.mem_map_of_mem (f := DepthFrame.slot) ((hlast a m).2 ⟨hm, hmfirst⟩)
    have hnem := List.mem_map_of_mem (f := DepthFrame.slot) ((hlast b n).2 ⟨hn, hnfirst⟩)
    rw [hmx, hxy, ← hny] at hmem
    exact List.disjoint_left.1 hdisjoint hmem hnem
  · intro h
    rw [gold_of_unsplit h]
    refine (hnodup.filter _).map_on fun f hf g hg hfg => ?_
    obtain ⟨hfm, hf⟩ := (hlast _ f).1 hf
    obtain ⟨hgm, hg⟩ := (hlast _ g).1 hg
    exact hkey f hfm g hgm (le_antisymm (hf g hgm hfg.symm) (hg f hfm hfg))

end Cuts

/-! ## The ticks -/

/-- One tick that holds all the frames. -/
def oneBatch (ticks : List BinanceTick) : List BinanceTick := [⟨0, (framesOf ticks).flatten⟩]

/-- **Tick invariance.**  The rows that the ticks append to `gold.book_top20` are one per symbol
    and second and those of one batch, and so are the flags of `silver.book_binance`, if and only
    if no second of a symbol and no connection of a symbol has frames in two ticks. -/
theorem tick_invariant_iff (ticks : List BinanceTick)
    (hlineage : ((framesOf ticks).flatten.map DepthFrame.lineage).Nodup) :
    ((((goldAfter ticks).map fun r => (r.symbol, r.second)).Nodup ∧
        (goldAfter ticks).map BookRow.timeless = (goldAfter (oneBatch ticks)).map BookRow.timeless) ∧
      (silverAfter ticks).map BinanceRow.timeless =
        (silverAfter (oneBatch ticks)).map BinanceRow.timeless) ↔
      Unsplit DepthFrame.slot (framesOf ticks) ∧ Unsplit DepthFrame.connection (framesOf ticks) := by
  have hslots : (goldAfter ticks).map (fun r => (r.symbol, r.second)) =
      ((framesOf ticks).flatMap fun b => b.filter (lastInSecond b)).map DepthFrame.slot := by
    have hrows := congrArg (List.map fun r : BookRow => (r.symbol, r.second))
      (timeless_goldAfter ticks)
    rw [List.map_map, List.map_map] at hrows
    exact hrows
  have hsilver : (silverAfter (oneBatch ticks)).map BinanceRow.timeless =
      (framesOf ticks).flatten.map (binanceRow 0 (framesOf ticks).flatten) := by
    rw [timeless_silverAfter]
    simp [oneBatch, framesOf]
  have hgold : (goldAfter (oneBatch ticks)).map BookRow.timeless =
      ((framesOf ticks).flatten.filter (lastInSecond (framesOf ticks).flatten)).map
        (binanceBook 0) := by
    rw [timeless_goldAfter]
    simp [oneBatch, framesOf]
  rw [hslots, hsilver, hgold, timeless_silverAfter, timeless_goldAfter, silver_eq_iff hlineage,
    nodup_slots_iff hlineage]
  refine and_congr_left fun _ => ⟨fun h => h.1, fun h => ⟨h, ?_⟩⟩
  rw [gold_of_unsplit h]

/-- A frame of one connection, received at `recvTsNs`. -/
def depthFrame (connId : String) (seq recvTsNs : Int) : DepthFrame where
  symbol := "BTCUSDT"
  canonicalSymbol := "BTC/USDT"
  lastUpdateId := 100 + seq
  bids := [⟨600000000000000, 10000000000⟩]
  asks := [⟨600010000000000, 10000000000⟩]
  recvTsNs := recvTsNs
  connId := connId
  connMsgSeq := seq
  srcTopic := "market.crypto.raw.binance"
  srcPartition := 0
  srcOffset := recvTsNs
  srcIndex := 0

/-- Two frames of one second, in two ticks. -/
def secondCut : List BinanceTick :=
  [⟨1, [depthFrame "a" 1 1100000000]⟩, ⟨2, [depthFrame "a" 2 1900000000]⟩]

theorem cut_second_twice : ¬ ∀ ticks : List BinanceTick,
    ((framesOf ticks).flatten.map DepthFrame.lineage).Nodup →
      (((goldAfter ticks).map fun r => (r.symbol, r.second)).Nodup ∧
        (goldAfter ticks).map BookRow.timeless = (goldAfter (oneBatch ticks)).map BookRow.timeless) ∧
      (silverAfter ticks).map BinanceRow.timeless =
        (silverAfter (oneBatch ticks)).map BinanceRow.timeless := by
  intro h
  have htwice := (h secondCut (by decide)).1.1
  revert htwice
  decide

/-- Two connections, cut between two seconds. -/
def secondsWhole : List BinanceTick :=
  [⟨1, [depthFrame "a" 1 1100000000, depthFrame "a" 2 1900000000]⟩,
    ⟨2, [depthFrame "b" 1 2100000000]⟩]

theorem whole_seconds_invariant :
    (((goldAfter secondsWhole).map fun r => (r.symbol, r.second)).Nodup ∧
        (goldAfter secondsWhole).map BookRow.timeless =
          (goldAfter (oneBatch secondsWhole)).map BookRow.timeless) ∧
      (silverAfter secondsWhole).map BinanceRow.timeless =
        (silverAfter (oneBatch secondsWhole)).map BinanceRow.timeless := by
  have hslots : Unsplit DepthFrame.slot (framesOf secondsWhole) := by
    unfold Unsplit
    decide
  have hconnections : Unsplit DepthFrame.connection (framesOf secondsWhole) := by
    unfold Unsplit
    decide
  exact (tick_invariant_iff secondsWhole (by decide)).2 ⟨hslots, hconnections⟩

end K2.Lake

import Mathlib.Data.List.Induction
import K2Platform.Lib.FlatIndex
import K2Platform.Lib.Word

/-!
# One row per Coinbase trade

Model of the `explode` of `silver.TRADES` for `coinbase_market_trades`: two `posexplode`s, and a
`src_index` that adds a trade's place in its event to the sizes of the events before it.  The size
of an array that is NULL is -1, and exploding it gives no row.

* `runningOffset_eq` — in the range of INT, the running offset is the one of `FlatIndex`.
* `inOrder_iff` — a frame's trades are numbered 0, 1, … in the order sent exactly where no event
  without a `trades` array comes before one that has trades.
* `identified_iff` — over a table of frames, that is when the identifier fields tell rows apart.
-/

set_option autoImplicit false

namespace K2.Lake.CoinbaseExplode

open FlatIndex

/-! ## Frames -/

/-- An element of `trades`. -/
structure MarketTrade where
  productId : Option String
  tradeId : Option String
  price : Option String
  size : Option String
  time : Option String
  side : Option String
  deriving DecidableEq, Repr

/-- An element of `events`. -/
structure MarketEvent where
  type : Option String
  trades : Option (List (Option MarketTrade))
  deriving DecidableEq, Repr

/-- `ev.trades`. -/
def tradesOf (ev : Option MarketEvent) : Option (List (Option MarketTrade)) :=
  ev.bind MarketEvent.trades

def arrays (events : Option (List (Option MarketEvent))) :
    List (Option (List (Option MarketTrade))) :=
  (events.getD []).map tradesOf

/-- A row of `bronze.coinbase_market_trades`.  Its payload was one array of bytes of the JVM, so
    the events and trades that were read from it are fewer than that has room for. -/
structure MarketTradesFrame where
  srcTopic : String
  srcPartition : Int
  srcOffset : Int
  events : Option (List (Option MarketEvent))
  fits : (arrays events).length + (flatten (arrays events)).length < 2147483648

/-! ## The explode -/

structure ExplodedTrade where
  ev : Option MarketEvent
  t : Option MarketTrade
  srcTopic : String
  srcPartition : Int
  srcOffset : Int
  srcIndex : Int
  deriving DecidableEq, Repr

/-- `aggregate(slice(events, 1, i), 0, (acc, x) -> acc + size(x.trades))`, of INTs. -/
def runningOffset (events : Option (List (Option MarketEvent))) (i : Nat) : Int :=
  ((events.getD []).take i).foldl (fun acc x => I32.wrap (acc + size (tradesOf x))) 0

def explode (f : MarketTradesFrame) : List ExplodedTrade :=
  (f.events.getD []).zipIdx.flatMap fun e =>
    ((tradesOf e.1).getD []).zipIdx.map fun t =>
      { ev := e.1
        t := t.1
        srcTopic := f.srcTopic
        srcPartition := f.srcPartition
        srcOffset := f.srcOffset
        srcIndex := I32.wrap (runningOffset f.events e.2 + (t.2 : Int)) }

namespace ExplodedTrade

/-- `IDENTIFIER_FIELDS`. -/
def identifier (r : ExplodedTrade) : String × Int × Int × Int :=
  (r.srcTopic, r.srcPartition, r.srcOffset, r.srcIndex)

end ExplodedTrade

/-! ## What a frame should give -/

namespace MarketTradesFrame

/-- The trades in the order they appear in the frame. -/
def trades (f : MarketTradesFrame) : List (Option MarketTrade) := flatten (arrays f.events)

/-- The rows are the trades of the frame, numbered 0, 1, …, n-1. -/
def InOrder (f : MarketTradesFrame) : Prop :=
  (explode f).map (fun r => (r.t, r.srcIndex)) = f.trades.zipIdx.map fun p => (p.1, (p.2 : Int))

/-- No event without a `trades` array comes before an event that has trades. -/
def Counted (f : MarketTradesFrame) : Prop :=
  (f.events.getD []).Pairwise fun x y => tradesOf x = none → (tradesOf y).getD [] = []

instance (f : MarketTradesFrame) : Decidable f.InOrder :=
  inferInstanceAs (Decidable ((explode f).map (fun r => (r.t, r.srcIndex)) =
    f.trades.zipIdx.map fun p => (p.1, (p.2 : Int))))

instance (f : MarketTradesFrame) : Decidable f.Counted :=
  inferInstanceAs (Decidable ((f.events.getD []).Pairwise fun x y =>
    tradesOf x = none → (tradesOf y).getD [] = []))

end MarketTradesFrame

/-! ## The running offset -/

theorem foldl_wrap_eq_sum (l : List Int)
    (h : ∀ k, -2147483648 ≤ (l.take k).sum ∧ (l.take k).sum < 2147483648) :
    l.foldl (fun acc x => I32.wrap (acc + x)) 0 = l.sum := by
  induction l using List.reverseRecOn with
  | nil => rfl
  | append_singleton l x ih =>
    have hfront : ∀ k, -2147483648 ≤ (l.take k).sum ∧ (l.take k).sum < 2147483648 := by
      intro k
      have hk := h (min k l.length)
      rwa [List.take_append_of_le_length (min_le_right _ _), ← List.take_eq_take_min] at hk
    have hwhole := h (l ++ [x]).length
    rw [List.take_length, List.sum_append, List.sum_singleton] at hwhole
    rw [List.foldl_append, List.foldl_cons, List.foldl_nil, ih hfront, List.sum_append,
      List.sum_singleton, I32.wrap_of_inRange hwhole]

theorem runningOffset_eq (f : MarketTradesFrame) (i : Nat) :
    runningOffset f.events i = offset (arrays f.events) i := by
  have hfits := f.fits
  have hsizes : runningOffset f.events i =
      (((arrays f.events).take i).map size).foldl (fun acc x => I32.wrap (acc + x)) 0 := by
    rw [runningOffset, arrays, List.foldl_map, ← List.map_take, List.foldl_map]
  rw [hsizes]
  refine foldl_wrap_eq_sum _ fun k => ?_
  rw [← List.map_take, List.take_take]
  obtain ⟨hlow, hhigh⟩ := offset_bounds (arrays f.events) (min k i)
  rw [offset] at hlow hhigh
  omega

/-- The explode, as it numbers the trades. -/
theorem map_explode_eq_number (f : MarketTradesFrame) :
    (explode f).map (fun r => (r.t, r.srcIndex)) = number 0 (arrays f.events) := by
  have hfits := f.fits
  have hnumber := flatMap_zipIdx_eq_number [] (arrays f.events)
  rw [List.length_nil, List.nil_append, List.map_nil, List.sum_nil] at hnumber
  rw [← hnumber, explode, List.map_flatMap]
  have harrays : (arrays f.events).zipIdx =
      (f.events.getD []).zipIdx.map fun e => (tradesOf e.1, e.2) := by
    rw [arrays, List.zipIdx_map]
    rfl
  rw [harrays, List.flatMap_map]
  refine List.flatMap_congr fun e he => ?_
  have hevent : (arrays f.events)[e.2]? = some (tradesOf e.1) := by
    rw [arrays, List.getElem?_map, List.mem_zipIdx_iff_getElem?.1 he, Option.map_some]
  have hzip := zipIdx_map_eq_numberFrom (offset (arrays f.events) e.2) ((tradesOf e.1).getD []) 0
  rw [Int.natCast_zero, Int.add_zero] at hzip
  rw [List.map_map, ← hzip]
  refine List.map_congr_left fun t ht => ?_
  have hplace : t.2 < ((tradesOf e.1).getD []).length := by
    have hget := List.mem_zipIdx_iff_getElem?.1 ht
    exact (List.getElem?_eq_some_iff.1 hget).1
  have hsize : (((tradesOf e.1).getD []).length : Int) = size (tradesOf e.1) := by
    cases htrades : tradesOf e.1 with
    | none =>
      rw [htrades] at hplace
      exact absurd hplace (Nat.not_lt_zero _)
    | some l => rfl
  obtain ⟨hlow, -⟩ := offset_bounds (arrays f.events) e.2
  obtain ⟨-, hhigh⟩ := offset_bounds (arrays f.events) (e.2 + 1)
  rw [offset_succ hevent] at hhigh
  simp only [Function.comp_apply, runningOffset_eq]
  rw [I32.wrap_of_inRange (by omega)]

/-- **One frame.** -/
theorem inOrder_iff (f : MarketTradesFrame) : f.InOrder ↔ f.Counted := by
  have hzip := zipIdx_map_eq_numberFrom 0 f.trades 0
  simp only [Int.zero_add, Int.natCast_zero] at hzip
  rw [MarketTradesFrame.InOrder, map_explode_eq_number, hzip, MarketTradesFrame.trades,
    number_eq_iff, arrays, List.pairwise_map]
  rfl

/-! ## A table of frames -/

def MarketTradesFrame.position (f : MarketTradesFrame) : String × Int × Int :=
  (f.srcTopic, f.srcPartition, f.srcOffset)

/-- Bronze holds a frame once. -/
structure MarketTradesTable where
  frames : List MarketTradesFrame
  once : (frames.map MarketTradesFrame.position).Nodup

def MarketTradesTable.rows (table : MarketTradesTable) : List ExplodedTrade :=
  table.frames.flatMap explode

theorem position_of_mem_explode {f : MarketTradesFrame} {r : ExplodedTrade} (h : r ∈ explode f) :
    (r.srcTopic, r.srcPartition, r.srcOffset) = f.position := by
  obtain ⟨e, _, hr⟩ := List.mem_flatMap.1 h
  obtain ⟨t, _, rfl⟩ := List.mem_map.1 hr
  rfl

theorem nodup_identifiers {f : MarketTradesFrame} (h : f.InOrder) :
    ((explode f).map ExplodedTrade.identifier).Nodup := by
  have hindices : (explode f).map ExplodedTrade.srcIndex =
      (f.trades.zipIdx.map Prod.snd).map fun i : Nat => (i : Int) := by
    have hsnd := congrArg (List.map Prod.snd) h
    rw [List.map_map, List.map_map] at hsnd
    rw [List.map_map]
    exact hsnd
  have hnodup : ((explode f).map ExplodedTrade.srcIndex).Nodup := by
    rw [hindices, List.zipIdx_map_snd, ← List.range_eq_range']
    exact List.nodup_range.map Nat.cast_injective
  refine List.Nodup.of_map (fun k : String × Int × Int × Int => k.2.2.2) ?_
  rw [List.map_map]
  exact hnodup

/-- **The rows of a table** are numbered in the order sent, frame by frame, and told apart by their
    identifier fields exactly where every frame counts right. -/
theorem identified_iff (table : MarketTradesTable) :
    ((∀ f ∈ table.frames, f.InOrder) ∧ (table.rows.map ExplodedTrade.identifier).Nodup) ↔
      ∀ f ∈ table.frames, f.Counted := by
  constructor
  · rintro ⟨horder, -⟩ f hf
    exact (inOrder_iff f).1 (horder f hf)
  · intro hcounted
    have horder : ∀ f ∈ table.frames, f.InOrder := fun f hf =>
      (inOrder_iff f).2 (hcounted f hf)
    refine ⟨horder, ?_⟩
    rw [MarketTradesTable.rows, List.map_flatMap, List.nodup_flatMap]
    refine ⟨fun f hf => nodup_identifiers (horder f hf), ?_⟩
    refine (List.pairwise_map.1 table.once).imp fun {f g} hne => ?_
    intro k hf hg
    obtain ⟨r, hr, rfl⟩ := List.mem_map.1 hf
    obtain ⟨s, hs, heq⟩ := List.mem_map.1 hg
    have hsame : (s.srcTopic, s.srcPartition, s.srcOffset) =
        (r.srcTopic, r.srcPartition, r.srcOffset) := by
      have hkeys := Prod.mk.inj heq
      have hrest := Prod.mk.inj hkeys.2
      rw [hkeys.1, hrest.1, (Prod.mk.inj hrest.2).1]
    rw [position_of_mem_explode hr, position_of_mem_explode hs] at hsame
    exact hne hsame.symm

/-! ## An event without trades -/

def tradeOf (tradeId : String) : Option MarketTrade :=
  some ⟨some "BTC-USD", some tradeId, some "64000.1", some "0.5", some "2026-08-26T16:00:00Z",
    some "BUY"⟩

/-- Two updates with a trade each, and between them an event that carries no `trades`. -/
def betweenUpdates : MarketTradesFrame where
  srcTopic := "market.crypto.v3.raw.coinbase"
  srcPartition := 0
  srcOffset := 17
  events := some [some ⟨some "update", some [tradeOf "1001"]⟩, some ⟨some "update", none⟩,
    some ⟨some "update", some [tradeOf "1002"]⟩]
  fits := by decide

theorem missing_trades_collide :
    (explode betweenUpdates).map ExplodedTrade.srcIndex = [0, 0] ∧ ¬ betweenUpdates.InOrder ∧
      ¬ ((explode betweenUpdates).map ExplodedTrade.identifier).Nodup := by
  decide

/-- The frame after it, and one that comes later: each of their trades has a place of its own. -/
def countedTable : MarketTradesTable where
  frames := [
    { betweenUpdates with
      srcOffset := 18
      events := some [some ⟨some "update", some [tradeOf "1003", tradeOf "1004"]⟩,
        some ⟨some "update", some [tradeOf "1005"]⟩]
      fits := by decide },
    { betweenUpdates with
      srcOffset := 19
      events := some [some ⟨some "update", some [tradeOf "1006"]⟩, some ⟨some "update", none⟩]
      fits := by decide }]
  once := by decide

example : (∀ f ∈ countedTable.frames, f.Counted) ∧
    countedTable.rows.map (fun r => (r.srcOffset, r.srcIndex)) =
      [(18, 0), (18, 1), (18, 2), (19, 0)] := by
  decide

end K2.Lake.CoinbaseExplode

import Mathlib.Data.Prod.Lex
import Mathlib.Data.List.Basic
import K2Platform.Lake.Bbo
import K2Platform.Lib.Ticks

/-!
# Book rows, and the books Binance sends

The rows of `gold.book_top20`, and the Binance half of `books.py::process`: every depth20 frame
is a whole book, so the rows of one tick are the last frame of each second, and `seq_gap`
compares a frame with the one before it on its connection.

* `binanceSilver`, `binanceBooks` — what one tick appends to the two tables.
-/

set_option autoImplicit false

namespace K2.Lake

/-- A row of `gold.book_top20`; `second` is a whole second since 1970-01-01. -/
structure BookRow extends BookTop20 where
  symbol : String
  seq : Int
  recvTsNs : Int
  connId : String
  connMsgSeq : Int
  srcTopic : String
  srcPartition : Int
  srcOffset : Int
  srcIndex : Int
  ingestTs : Int
  deriving DecidableEq, Repr

/-- A level of a silver book, in units of 1e-10. -/
structure Level where
  px : Int
  qty : Int
  deriving DecidableEq, Repr

def TOP : Nat := 20

def NS : Int := 1000000000

/-! ## Binance -/

/-- A typed frame of `bronze.binance_depth20`. -/
structure DepthFrame where
  symbol : String
  canonicalSymbol : String
  lastUpdateId : Int
  bids : List Level
  asks : List Level
  recvTsNs : Int
  connId : String
  connMsgSeq : Int
  srcTopic : String
  srcPartition : Int
  srcOffset : Int
  srcIndex : Int
  deriving DecidableEq, Repr

/-- A row of `silver.book_binance`. -/
structure BinanceRow extends DepthFrame where
  depth : Int
  seqGap : Option Bool
  ingestTs : Int
  deriving DecidableEq, Repr

namespace DepthFrame

def depth (f : DepthFrame) : Int := max f.bids.length f.asks.length

/-- `timestamp_micros(recv_ts_ns div 1000)`. -/
def recvTs (f : DepthFrame) : Int := f.recvTsNs.tdiv 1000

/-- `date_trunc("second", recv_ts)`. -/
def second (f : DepthFrame) : Int := f.recvTs / 1000000

def lineage (f : DepthFrame) : Int × Int × Int := (f.srcPartition, f.srcOffset, f.srcIndex)

/-- What the window of `seq_gap` is partitioned by. -/
def connection (f : DepthFrame) : String × String := (f.symbol, f.connId)

/-- What it is ordered by; a tie goes by lineage. -/
def sendOrder (f : DepthFrame) : Int ×ₗ Int ×ₗ Int ×ₗ Int :=
  toLex (f.connMsgSeq, toLex (f.srcPartition, toLex (f.srcOffset, f.srcIndex)))

/-- What the window of `binance_books` is partitioned by. -/
def slot (f : DepthFrame) : String × Int := (f.symbol, f.second)

/-- What it is ordered by, newest first; a tie goes by lineage. -/
def age (f : DepthFrame) : (Int ×ₗ Int ×ₗ Int ×ₗ Int ×ₗ Int)ᵒᵈ :=
  OrderDual.toDual (toLex (f.recvTsNs, f.sendOrder))

theorem lineage_of_sendOrder {f g : DepthFrame} (h : f.sendOrder = g.sendOrder) :
    f.lineage = g.lineage := by
  obtain ⟨_, hrest⟩ := Prod.mk.inj (toLex.injective h)
  obtain ⟨hpartition, hrest⟩ := Prod.mk.inj (toLex.injective hrest)
  obtain ⟨hoffset, hindex⟩ := Prod.mk.inj (toLex.injective hrest)
  rw [lineage, lineage, hpartition, hoffset, hindex]

theorem lineage_of_age {f g : DepthFrame} (h : f.age = g.age) : f.lineage = g.lineage :=
  lineage_of_sendOrder (Prod.mk.inj (toLex.injective (OrderDual.toDual.injective h))).2

end DepthFrame

section Tick

variable (runTs : Int) (batch : List DepthFrame)

/-- `lag("last_update_id")`. -/
def previousUpdateId (f : DepthFrame) : Option Int :=
  ((batch.filter fun g => g.connection = f.connection && g.sendOrder < f.sendOrder).maxOn?
    DepthFrame.sendOrder).map DepthFrame.lastUpdateId

def seqGap (f : DepthFrame) : Option Bool :=
  (previousUpdateId batch f).map fun prev => f.lastUpdateId ≤ prev

def binanceRow (f : DepthFrame) : BinanceRow where
  toDepthFrame := f
  depth := f.depth
  seqGap := seqGap batch f
  ingestTs := runTs

/-- What the tick appends to `silver.book_binance`. -/
def binanceSilver : List BinanceRow := batch.map (binanceRow runTs batch)

/-- `_rn = 1`. -/
def lastInSecond (f : DepthFrame) : Bool :=
  batch.all fun g => g.slot = f.slot → f.age ≤ g.age

/-- `CAST(l.f * 100000000 AS BIGINT)` over the first levels. -/
def sliceE8 (value : Level → Int) (levels : List Level) : List Int :=
  (levels.map fun l => I64.wrap ((value l).tdiv 100)).take TOP

def binanceBook (f : DepthFrame) : BookRow where
  exchange := "binance"
  canonicalSymbol := f.canonicalSymbol
  symbol := f.symbol
  second := f.second
  depth := min TOP f.depth
  seq := f.lastUpdateId
  checksumOk := none
  bidPxE8 := sliceE8 Level.px f.bids
  bidQtyE8 := sliceE8 Level.qty f.bids
  askPxE8 := sliceE8 Level.px f.asks
  askQtyE8 := sliceE8 Level.qty f.asks
  recvTsNs := f.recvTsNs
  connId := f.connId
  connMsgSeq := f.connMsgSeq
  srcTopic := f.srcTopic
  srcPartition := f.srcPartition
  srcOffset := f.srcOffset
  srcIndex := f.srcIndex
  ingestTs := runTs

/-- `binance_books`: what the tick appends to `gold.book_top20`. -/
def binanceBooks : List BookRow := (batch.filter (lastInSecond batch)).map (binanceBook runTs)

theorem seqGap_eq_none_iff (f : DepthFrame) :
    seqGap batch f = none ↔ Ticks.First DepthFrame.connection DepthFrame.sendOrder batch f := by
  rw [seqGap, Option.map_eq_none_iff, previousUpdateId, Option.map_eq_none_iff,
    ← Option.not_isSome_iff_eq_none, List.isSome_maxOn?_iff, not_not, List.filter_eq_nil_iff]
  simp only [Bool.and_eq_true, decide_eq_true_eq, not_and, not_lt, Ticks.First]

theorem lastInSecond_iff (f : DepthFrame) :
    lastInSecond batch f = true ↔ Ticks.First DepthFrame.slot DepthFrame.age batch f := by
  simp only [lastInSecond, List.all_eq_true, decide_eq_true_eq, Ticks.First]

end Tick

end K2.Lake

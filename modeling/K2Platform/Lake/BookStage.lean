import Mathlib.Data.Fintype.Card
import Mathlib.Data.String.Basic
import K2Platform.Lake.BinanceTicks
import K2Platform.Lake.Instruments
import K2Platform.Lake.Replay
import K2Platform.Lib.SortOn

/-!
# The book stage

Model of `books.py::project`, `replay`, `process` and `stage`.  A run reads of each venue's bronze
table what is past the position, types it, replays it, and makes four commits: to the venue's
silver table, which carries the position, to `gold.book_top20`, to `gold.bbo_1s` and to
`gold.book_state`.  Binance has no state to write.  A run that is cut off makes the first of its
commits only, and so does one that raises.  Where the replay raises, nothing of Kraken is committed,
whose silver rows have the verdicts of the replay; those of Coinbase have nothing of it, and the
position has moved when the append to `gold.book_top20` raises.

* `process` — what one venue's commits hold.
* `BookTables.apply` — one run, and the source rows that arrived before it.
-/

set_option autoImplicit false

namespace K2.Lake

/-! ## Sources and tables -/

/-- A row of `bronze.binance_depth20`, with the columns that `project` reads. -/
structure DepthEvent where
  symbol : String
  lastUpdateId : Int
  bids : List Level
  asks : List Level
  recvTsNs : Int
  connId : String
  connMsgSeq : Int
  srcTopic : String
  srcPartition : Int
  srcOffset : Int
  deriving DecidableEq, Repr

def DepthEvent.typed (e : DepthEvent) (canonicalSymbol : String) : DepthFrame where
  symbol := e.symbol
  canonicalSymbol := canonicalSymbol
  lastUpdateId := e.lastUpdateId
  bids := e.bids
  asks := e.asks
  recvTsNs := e.recvTsNs
  connId := e.connId
  connMsgSeq := e.connMsgSeq
  srcTopic := e.srcTopic
  srcPartition := e.srcPartition
  srcOffset := e.srcOffset
  srcIndex := 0

/-- A row of `silver.book_kraken` or `silver.book_coinbase`; `flag` is `checksum_ok` in the one,
    `seq_gap` in the other. -/
structure ReplayedRow extends TypedFrame where
  flag : Option Bool
  ingestTs : Int
  deriving DecidableEq, Repr

/-- What one row of silver is typed from. -/
abbrev Frame : Exchange → Type
  | .binance => DepthEvent
  | .kraken => BookFrame
  | .coinbase => BookFrame

/-- A typed frame. -/
abbrev Typed : Exchange → Type
  | .binance => DepthFrame
  | .kraken => TypedFrame
  | .coinbase => TypedFrame

abbrev SilverBook : Exchange → Type
  | .binance => BinanceRow
  | .kraken => ReplayedRow
  | .coinbase => ReplayedRow

/-- `gold.book_state`, by exchange and connection. -/
abbrev StateTable := Dict (String × BookKey) StateRow

/-- A position is the number of source rows read. -/
structure BookTables where
  bronze : (v : Exchange) → List (Frame v)
  position : Exchange → Nat
  silver : (v : Exchange) → List (SilverBook v)
  books : List BookRow
  booksSnapshot : Nat
  bbo : List Bbo
  state : StateTable

def BookTables.empty : BookTables where
  bronze := fun _ => []
  position := fun _ => 0
  silver := fun _ => []
  books := []
  booksSnapshot := 0
  bbo := []
  state := Dict.empty

/-- What the position leaves to read. -/
def BookTables.unread (t : BookTables) (v : Exchange) : List (Frame v) :=
  (t.bronze v).drop (t.position v)

/-- The states the replay of a venue starts from. -/
def statesOf (v : Exchange) (table : StateTable) (key : BookKey) : Option StateRow :=
  table.get? (v.name, key)

/-- `MERGE INTO .. WHEN MATCHED THEN UPDATE SET * WHEN NOT MATCHED THEN INSERT *`. -/
def mergeState (table : StateTable) (rows : List StateRow) : StateTable :=
  rows.foldl (fun t r => t.insert (r.exchange, r.key) r) table

/-! ## Typing -/

/-- Where Spark puts the connections when it repartitions by them. -/
structure Placement where
  partitions : Nat
  place : BookKey → Fin partitions

/-- One run: what has arrived before it, what it is given, and how many commits it gets to make. -/
structure BookTick where
  arrived : (v : Exchange) → List (Frame v)
  runTs : Int
  registry : Registry
  precisions : String → Option Precision
  placement : Exchange → Placement
  commits : Nat

def Frame.symbol : {v : Exchange} → Frame v → String
  | .binance, f => DepthEvent.symbol f
  | .kraken, f => BookFrame.symbol f
  | .coinbase, f => BookFrame.symbol f

def Frame.typed (canonicalSymbol : String) : {v : Exchange} → Frame v → Typed v
  | .binance, f => DepthEvent.typed f canonicalSymbol
  | .kraken, f => ⟨f, canonicalSymbol⟩
  | .coinbase, f => ⟨f, canonicalSymbol⟩

namespace BookTick

variable (tick : BookTick)

/-- One frame under its canonical symbol, if the registry has one. -/
def type (v : Exchange) (f : Frame v) : Option (Typed v) :=
  ((tick.registry.canonical v.name f.symbol).toOption).map fun canon => f.typed canon

/-- Kraken's books are checked, no others. -/
def precisionsOf (v : Exchange) : String → Option Precision :=
  if v = .kraken then tick.precisions else fun _ => none

/-- `project`: a symbol that the registry does not list raises before anything is written. -/
def project (v : Exchange) (frames : List (Frame v)) : Option (List (Typed v)) :=
  if frames.all fun f => (tick.type v f).isSome then some (frames.filterMap (tick.type v)) else none

end BookTick

/-! ## Replaying -/

/-- What `sortWithinPartitions` orders the frames of a connection on; a tie goes by lineage. -/
def BookFrame.sent (f : BookFrame) : Int ×ₗ Int ×ₗ Int ×ₗ Int :=
  toLex (f.connMsgSeq, toLex (f.srcIndex, toLex (f.srcPartition, f.srcOffset)))

def TypedFrame.order (r : TypedFrame) : String ×ₗ String ×ₗ Int ×ₗ Int ×ₗ Int ×ₗ Int :=
  toLex (r.symbol, toLex (r.connId, r.sent))

def sortFrames (rows : List TypedFrame) : List TypedFrame := sortOn TypedFrame.order rows

def replay (run : ReplayRun) (states : BookKey → Option StateRow) (placement : Placement)
    (typed : List TypedFrame) : List Emission :=
  (List.finRange placement.partitions).flatMap fun p =>
    replayPartition run states (sortFrames (typed.filter fun r => placement.place r.key = p))

namespace Emission

def verdict? : Emission → Option (TypedFrame × Option Bool)
  | .verdict frame ok => some (frame, ok)
  | _ => none

def book? : Emission → Option BookRow
  | .book row => some row
  | _ => none

def state? : Emission → Option StateRow
  | .state row => row.toOption
  | _ => none

end Emission

def replayedRow (runTs : Int) (r : TypedFrame) (flag : Option Bool) : ReplayedRow := ⟨r, flag, runTs⟩

/-- `typed.join(verdicts, [..], "left")`. -/
def joinVerdicts (runTs : Int) (verdicts : List (TypedFrame × Option Bool))
    (typed : List TypedFrame) : List ReplayedRow :=
  typed.flatMap fun r =>
    match verdicts.filter fun v => v.1.lineage = r.lineage with
    | [] => [replayedRow runTs r none]
    | found => found.map fun v => replayedRow runTs r v.2

/-! ## Processing -/

/-- What the commits for one venue hold. -/
structure Processed (v : Exchange) where
  silver : List (SilverBook v)
  books : List BookRow
  states : List StateRow
  /-- The replay raises, which the first commit did not wait for. -/
  raises : Bool

/-- `createDataFrame` verifies that what the replay computed is a BIGINT. -/
def BookRow.fits (r : BookRow) : Bool :=
  (r.bidPxE8 ++ r.bidQtyE8 ++ r.askPxE8 ++ r.askQtyE8).all fun x => I64.InRange x

def StateRow.fits (r : StateRow) : Bool :=
  (r.bidPxE8 ++ r.bidQtyE8 ++ r.askPxE8 ++ r.askQtyE8).all fun x => I64.InRange x

/-- No column of the projection that is NOT NULL is NULL. -/
def Bbo.complete (r : Bbo) : Bool :=
  r.bidE8.isSome && r.bidQtyE8.isSome && r.askE8.isSome && r.askQtyE8.isSome && r.mid.isSome &&
    r.spreadBps.isSome && r.imbalance.isSome && r.microprice.isSome

/-- The commits made for a venue: silver, books, bbo, and state where there is one. -/
def commitsOf : Exchange → Nat
  | .binance => 3
  | .kraken => 4
  | .coinbase => 4

def bboOf (books : List BookRow) (srcSnapshotId : Nat) : List Bbo :=
  bbo (books.map BookRow.toBookTop20) srcSnapshotId

/-- How many commits are made before one raises. -/
def Processed.reach {v : Exchange} (p : Processed v) : Nat :=
  if p.raises || !p.books.all BookRow.fits then 1
  else if !(bboOf p.books 0).all Bbo.complete then 2
  else if !p.states.all StateRow.fits then 3
  else commitsOf v

section Process

-- What `str` makes of a float quotient in `checksum_digits`.
variable (floatDigits : Int → Int → String) (tick : BookTick)

def replayRun (v : Exchange) : ReplayRun where
  exchange := v
  precisions := tick.precisionsOf v
  floatDigits := floatDigits
  runTs := tick.runTs

/-- What the replay of a venue's typed frames yields. -/
def replayed (v : Exchange) (table : StateTable) (typed : List TypedFrame) : List Emission :=
  replay (replayRun floatDigits tick v) (statesOf v table) (tick.placement v) typed

/-- `process`, up to its commits. -/
def process (table : StateTable) : (v : Exchange) → List (Frame v) → Option (Processed v)
  | .binance, frames =>
    (tick.project .binance frames).map fun typed =>
      ⟨binanceSilver tick.runTs typed, binanceBooks tick.runTs typed, [], false⟩
  | .kraken, frames =>
    (tick.project .kraken frames).bind fun typed =>
      let out := replayed floatDigits tick .kraken table typed
      if out.any Emission.raised then none
      else some ⟨joinVerdicts tick.runTs (out.filterMap Emission.verdict?) typed,
        out.filterMap Emission.book?, out.filterMap Emission.state?, false⟩
  | .coinbase, frames =>
    (tick.project .coinbase frames).map fun typed =>
      let out := replayed floatDigits tick .coinbase table typed
      -- the append to silver does not evaluate the replay
      ⟨typed.map fun r => replayedRow tick.runTs r none, out.filterMap Emission.book?,
        out.filterMap Emission.state?, out.any Emission.raised⟩

end Process

/-! ## Committing -/

namespace BookTables

/-- The first `n` commits for a venue. -/
def commit (t : BookTables) {v : Exchange} (p : Processed v) (n : Nat) : BookTables :=
  { bronze := t.bronze
    position := if 1 ≤ n then Function.update t.position v (t.bronze v).length else t.position
    silver := if 1 ≤ n then Function.update t.silver v (t.silver v ++ p.silver) else t.silver
    books := if 2 ≤ n then t.books ++ p.books else t.books
    booksSnapshot := if 2 ≤ n then t.booksSnapshot + 1 else t.booksSnapshot
    bbo := if 3 ≤ n then t.bbo ++ bboOf p.books (t.booksSnapshot + 1) else t.bbo
    state := if 4 ≤ n then mergeState t.state p.states else t.state }

/-- More rows in the sources. -/
def arrive (t : BookTables) (more : (v : Exchange) → List (Frame v)) : BookTables :=
  { t with bronze := fun v => t.bronze v ++ more v }

end BookTables

/-- The order of `BOOKS`. -/
def BOOKS : List Exchange := [.binance, .kraken, .coinbase]

section Stage

variable (floatDigits : Int → Int → String)

/-- One venue's turn, with the commits that are left to make; none are once one was not made. -/
def stageBooksOf (tick : BookTick) (s : Nat × BookTables) (v : Exchange) : Nat × BookTables :=
  if (s.2.unread v).isEmpty then s
  else
    match process floatDigits tick s.2.state v (s.2.unread v) with
    | none => (0, s.2)
    | some p =>
      let n := min s.1 p.reach
      (if n < commitsOf v then 0 else s.1 - n, s.2.commit p n)

def BookTables.stage (t : BookTables) (tick : BookTick) : BookTables :=
  (BOOKS.foldl (stageBooksOf floatDigits tick) (tick.commits, t)).2

def BookTables.apply (t : BookTables) (tick : BookTick) : BookTables :=
  (t.arrive tick.arrived).stage floatDigits tick

def booksAfter (ticks : List BookTick) : BookTables :=
  ticks.foldl (BookTables.apply floatDigits) BookTables.empty

/-- The commits of a run that gets through. -/
def ALL_COMMITS : Nat := commitsOf .binance + commitsOf .kraken + commitsOf .coinbase

/-- The run, not cut off. -/
def BookTick.completed (tick : BookTick) : BookTick := { tick with commits := ALL_COMMITS }

end Stage

end K2.Lake

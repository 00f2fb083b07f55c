import K2Platform.Lake.Book
import K2Platform.Lake.Books
import K2Platform.Lake.Silver

/-!
# The replay

Model of `books.py::replay_partition`: one pass over typed frames sorted by symbol and connection
and, within a connection, as they were sent.  The book of a connection is the fold of its frames
from a snapshot on, or from the state row of an earlier run; before a frame is folded in, the book
as it is becomes the row of every second that ends before the frame's second starts.

* `Running.read` — what one frame does.
* `replayPartition` — the pass.
-/

set_option autoImplicit false

namespace K2.Lake

open K2.Capture (BookSide)

def Exchange.name : Exchange → String
  | .binance => "binance"
  | .kraken => "kraken"
  | .coinbase => "coinbase"

/-- The subscription depth of Kraken's book. -/
def KRAKEN_DEPTH : Nat := 25

/-- How many levels of a side a state row keeps. -/
def STATE_LEVELS : Nat := 10 ^ 6

/-! ## Frames -/

/-- One entry of a Coinbase event's `updates`. -/
structure LevelUpdate where
  sideNative : String
  px : Int
  qty : Int
  eventTime : Option Int
  deriving DecidableEq, Repr

/-- `IF(u.side = 'bid', 'bid', 'ask')`. -/
def LevelUpdate.side (u : LevelUpdate) : BookSide := if u.sideNative = "bid" then .bid else .ask

/-- The columns that `bronze.kraken_book` and `bronze.coinbase_level2` do not share. -/
inductive Payload where
  | kraken (frameType : String) (bids asks : List Level) (checksum : Int)
      (exchangeTs : Option Int)
  | coinbase (eventType : String) (updates : List LevelUpdate) (sequenceNum : Int)
      (envelopeTs : Int)
  deriving DecidableEq, Repr

/-- The venue whose table has such columns. -/
def Payload.exchange : Payload → Exchange
  | .kraken .. => .kraken
  | .coinbase .. => .coinbase

def Payload.isSnapshot : Payload → Bool
  | .kraken frameType _ _ _ _ => frameType = "snapshot"
  | .coinbase eventType _ _ _ => eventType = "snapshot"

/-- A connection of a symbol. -/
abbrev BookKey := String × String

/-- One Kraken frame's `data[i]`, or one Coinbase frame's `events[i]`. -/
structure BookFrame where
  symbol : String
  payload : Payload
  recvTsNs : Int
  connId : String
  connMsgSeq : Int
  srcTopic : String
  srcPartition : Int
  srcOffset : Int
  srcIndex : Int
  deriving DecidableEq, Repr

structure TypedFrame extends BookFrame where
  canonicalSymbol : String
  deriving DecidableEq, Repr

namespace BookFrame

def key (f : BookFrame) : BookKey := (f.symbol, f.connId)

/-- Where in the archive the frame is; a bronze table has one source topic. -/
def lineage (f : BookFrame) : Int × Int × Int := (f.srcPartition, f.srcOffset, f.srcIndex)

end BookFrame

/-! ## State -/

/-- A row of `gold.book_state`; `lastSecond` is a whole second since 1970-01-01. -/
structure StateRow where
  exchange : String
  symbol : String
  connId : String
  bidPxE8 : List Int
  bidQtyE8 : List Int
  askPxE8 : List Int
  askQtyE8 : List Int
  seq : Int
  checksumOk : Option Bool
  lastConnMsgSeq : Int
  lastRecvTsNs : Int
  lastSecond : Int
  lastSrcPartition : Int
  lastSrcOffset : Int
  lastSrcIndex : Int
  updatedAt : Int
  deriving DecidableEq, Repr

/-- `live`, `first_ns` and `last_second_ns` of the running state. -/
inductive Clock where
  | idle
  | started (firstNs : Int)
  | emitted (lastSecondNs : Int)
  deriving DecidableEq, Repr

namespace Clock

def live : Clock → Bool
  | .idle => false
  | _ => true

/-- The second that is due next. -/
def next : Clock → Option Int
  | .idle => none
  | .started firstNs => some (firstNs / NS * NS)
  | .emitted lastSecondNs => some (lastSecondNs + NS)

/-- `last_second_ns or 0`. -/
def lastOrZero : Clock → Int
  | .emitted lastSecondNs => lastSecondNs
  | _ => 0

/-- The clock once every second before `sec` is out. -/
def advance (c : Clock) (sec : Int) : Clock :=
  if 0 ≤ sec - NS then .emitted (max c.lastOrZero (sec - NS)) else c

end Clock

/-- The book and the last frame folded into it. -/
structure Folded where
  book : Book
  seq : Int
  checksumOk : Option Bool
  recvTsNs : Int
  connMsgSeq : Int
  srcPartition : Int
  srcOffset : Int
  srcIndex : Int
  deriving DecidableEq

def Folded.initial : Folded := ⟨Book.empty, 0, none, 0, 0, 0, 0, 0⟩

/-- The row that keeps the state of a connection. -/
def Folded.stateRow (st : Folded) (exchange : Exchange) (key : BookKey)
    (lastSecondNs runTs : Int) : StateRow :=
  let top := st.book.top STATE_LEVELS
  { exchange := exchange.name
    symbol := key.1
    connId := key.2
    bidPxE8 := top.1.map Prod.fst
    bidQtyE8 := top.1.map Prod.snd
    askPxE8 := top.2.map Prod.fst
    askQtyE8 := top.2.map Prod.snd
    seq := st.seq
    checksumOk := st.checksumOk
    lastConnMsgSeq := st.connMsgSeq
    lastRecvTsNs := st.recvTsNs
    lastSecond := lastSecondNs / NS
    lastSrcPartition := st.srcPartition
    lastSrcOffset := st.srcOffset
    lastSrcIndex := st.srcIndex
    updatedAt := runTs }

/-- The running state of one connection. -/
structure Running extends Folded where
  symbol : String
  canonicalSymbol : String
  connId : String
  srcTopic : String
  clock : Clock
  deriving DecidableEq

def Running.key (st : Running) : BookKey := (st.symbol, st.connId)

/-- `_state_from_row`. -/
def Folded.ofStateRow (r : StateRow) : Folded where
  book := Book.ofLevels (r.bidPxE8.zip r.bidQtyE8) (r.askPxE8.zip r.askQtyE8)
  seq := r.seq
  checksumOk := r.checksumOk
  recvTsNs := r.lastRecvTsNs
  connMsgSeq := r.lastConnMsgSeq
  srcPartition := r.lastSrcPartition
  srcOffset := r.lastSrcOffset
  srcIndex := r.lastSrcIndex

/-- The state in which a connection is found at the first of its frames. -/
def Running.opened (prev : Option StateRow) (r : TypedFrame) : Running where
  toFolded := prev.elim Folded.initial Folded.ofStateRow
  symbol := r.symbol
  canonicalSymbol := r.canonicalSymbol
  connId := r.connId
  srcTopic := r.srcTopic
  clock := prev.elim .idle fun row => .emitted (row.lastSecond * NS)

/-! ## The pass -/

/-- What a run of the replay is given beside the frames and the states. -/
structure ReplayRun where
  exchange : Exchange
  precisions : String → Option Precision
  floatDigits : Int → Int → String
  runTs : Int

/-- `("verdict", key, checksum_ok)`, `("book", row)` and `("state", row)`.  The generator raises
    where the state row of a connection cannot be built, for want of a last second. -/
inductive Emission where
  | verdict (frame : TypedFrame) (ok : Option Bool)
  | book (row : BookRow)
  | state (row : Except BookKey StateRow)

def StateRow.key (r : StateRow) : BookKey := (r.symbol, r.connId)

namespace Emission

/-- The connection it is about. -/
def key : Emission → BookKey
  | .verdict frame _ => frame.key
  | .book row => (row.symbol, row.connId)
  | .state (.ok row) => row.key
  | .state (.error key) => key

def raised : Emission → Bool
  | .state (.error _) => true
  | _ => false

end Emission

/-- `int(p["px"] * B.SCALE)`: the product is exact, the fraction is dropped. -/
def e8 (unscaled : Int) : Int := unscaled.tdiv 100

def levelsE8 (levels : List Level) : Levels := levels.map fun l => (e8 l.px, e8 l.qty)

def applyUpdates (updates : List LevelUpdate) (b : Book) : Book :=
  updates.foldl (fun b u => b.apply u.side (e8 u.px) (e8 u.qty)) b

/-- `sec, sec + NS, ..` below `boundary`: the loop makes `⌈(boundary - sec) / NS⌉` passes. -/
def secondsUpTo (sec boundary : Int) : List Int :=
  (List.range ((boundary - sec + (NS - 1)) / NS).toNat).map fun i : Nat => sec + NS * i

/-- A verdict where the venue has one. -/
def TypedFrame.verdicts (r : TypedFrame) (ok : Option Bool) : List Emission :=
  match r.payload with
  | .kraken .. => [.verdict r ok]
  | .coinbase .. => []

section Pass

variable (run : ReplayRun)

namespace Running

def snapshotRow (st : Running) (secondNs : Int) : BookRow :=
  let top := st.book.top TOP
  { exchange := run.exchange.name
    canonicalSymbol := st.canonicalSymbol
    symbol := st.symbol
    second := secondNs / NS
    depth := max top.1.length top.2.length
    seq := st.seq
    checksumOk := st.checksumOk
    bidPxE8 := top.1.map Prod.fst
    bidQtyE8 := top.1.map Prod.snd
    askPxE8 := top.2.map Prod.fst
    askQtyE8 := top.2.map Prod.snd
    recvTsNs := st.recvTsNs
    connId := st.connId
    connMsgSeq := st.connMsgSeq
    srcTopic := st.srcTopic
    srcPartition := st.srcPartition
    srcOffset := st.srcOffset
    srcIndex := st.srcIndex
    ingestTs := run.runTs }

/-- `state_row`; without a last second it raises. -/
def stateRow (st : Running) : Except BookKey StateRow :=
  match st.clock with
  | .emitted lastSecondNs =>
    .ok (st.toFolded.stateRow run.exchange st.key lastSecondNs run.runTs)
  | _ => .error st.key

/-- `flush_seconds`. -/
def flush (st : Running) (uptoNs : Int) : Running × List BookRow :=
  match st.clock.next with
  | none => (st, [])
  | some sec =>
    let due := secondsUpTo sec (uptoNs / NS * NS)
    ({ st with clock := st.clock.advance (sec + NS * due.length) }, due.map (st.snapshotRow run))

/-- The frame folded into the book. -/
def fold (st : Running) (r : TypedFrame) : Running :=
  match r.payload with
  | .kraken frameType bids asks checksum _ =>
    let book := krakenApply st.book frameType (levelsE8 bids) (levelsE8 asks) KRAKEN_DEPTH
    let top := book.top CHECKSUM_LEVELS
    { st with
      book := book
      checksumOk := (run.precisions r.symbol).map fun prec =>
        krakenChecksum run.floatDigits top.2 top.1 prec = checksum }
  | .coinbase eventType updates sequenceNum _ =>
    let start := if eventType = "snapshot" then Book.empty else st.book
    { st with book := applyUpdates updates start, seq := sequenceNum }

/-- The frame as the last one folded in, and the first if the connection was not live. -/
def touch (st : Running) (r : TypedFrame) : Running :=
  { st with
    clock := if st.clock.live then st.clock else .started r.recvTsNs
    recvTsNs := r.recvTsNs
    connMsgSeq := r.connMsgSeq
    srcPartition := r.srcPartition
    srcOffset := r.srcOffset
    srcIndex := r.srcIndex }

/-- One frame. -/
def read (st : Running) (r : TypedFrame) : Running × List Emission :=
  let due := st.flush run r.recvTsNs
  if !due.1.clock.live && !r.payload.isSnapshot then
    (due.1, due.2.map Emission.book ++ r.verdicts none)
  else
    let folded := due.1.fold run r
    (folded.touch r, due.2.map Emission.book ++ r.verdicts folded.checksumOk)

/-- The state row of a connection that frames of another follow. -/
def leave (st : Running) : List Emission :=
  if st.clock.live then [.state (st.stateRow run)] else []

/-- The last connection is brought up to its last frame first. -/
def finish (st : Running) : List Emission :=
  if st.clock.live then
    let due := st.flush run st.recvTsNs
    due.2.map Emission.book ++ due.1.leave run
  else []

end Running

variable (states : BookKey → Option StateRow)

/-- The pass, in the middle of a connection. -/
def replayFrom (st : Running) : List TypedFrame → List Emission
  | [] => st.finish run
  | r :: rows =>
    if r.key = st.key then
      let q := st.read run r
      q.2 ++ replayFrom q.1 rows
    else
      let q := (Running.opened (states r.key) r).read run r
      st.leave run ++ (q.2 ++ replayFrom q.1 rows)

def replayPartition : List TypedFrame → List Emission
  | [] => []
  | r :: rows =>
    let q := (Running.opened (states r.key) r).read run r
    q.2 ++ replayFrom run states q.1 rows

end Pass

end K2.Lake

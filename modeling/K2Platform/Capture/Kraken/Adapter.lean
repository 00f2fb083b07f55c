import K2Platform.Lib.Mealy
import K2Platform.Capture.Decimal
import K2Platform.Capture.Book
import K2Platform.Capture.Config
import K2Platform.Capture.Record

/-!
# The Kraken adapter

Model of `KrakenAdapter` of `services/capture-rust/src/exchanges/kraken.rs`: one connection
carrying `instrument`, `trade` and `book` frames, with a book per symbol verified against the
CRC32 every book frame carries, and a queue per symbol for the book frames that arrive before
the pair's precision is known.

`Serde` stands for what `serde_json` makes of a frame under the wire types declared in the
source; nothing is assumed about it.  Metrics and log lines are left out: they are write-only.

Every step also emits `BookNote`s: which book entries of a frame were received, which queue
was drained, and what each call of `apply_book` saw and decided.
-/

set_option autoImplicit false

namespace K2.Capture.Kraken

def EXCHANGE : String := "kraken"

/-- Kraken's checksum is defined over the top 10 levels of each side. -/
def CHECKSUM_LEVELS : Nat := 10

def SNAPSHOT_LEVELS : Nat := 20

def DEFAULT_BOOK_DEPTH : Nat := 25

/-- Book frames held per symbol while waiting for the `instrument` snapshot. -/
def MAX_PENDING_FRAMES : Nat := 512

/-! ## Wire types -/

structure Envelope where
  channel : Option String
  typ : Option String
  method : Option String
  /-- The raw JSON text of `data`. -/
  data : Option String
  deriving DecidableEq, Repr

structure Level where
  price : String
  qty : String
  deriving DecidableEq, Repr

structure BookData where
  symbol : String
  bids : List Level
  asks : List Level
  checksum : UInt32
  timestamp : Option String
  deriving DecidableEq, Repr

structure TradeData where
  symbol : String
  side : String
  price : String
  qty : String
  tradeId : String
  timestamp : String
  deriving DecidableEq, Repr

structure PairInfo where
  symbol : String
  pricePrecision : Nat
  qtyPrecision : Nat
  deriving DecidableEq, Repr

/-- The four `serde_json` reads of the adapter. -/
structure Serde where
  envelope : List UInt8 → Option Envelope
  book : String → Option (List BookData)
  trade : String → Option (List TradeData)
  /-- `InstrumentData.pairs`. -/
  instrument : String → Option (List PairInfo)

inductive Body where
  | book (frames : List BookData)
  | trade (trades : List TradeData)
  | instrument (pairs : List PairInfo)
  | other
  deriving DecidableEq, Repr

def Envelope.streamName (e : Envelope) : String :=
  match e.channel, e.method with
  | some c, _ => c
  | none, some _ => "control"
  | none, none => "unknown"

def Body.parse (serde : Serde) (e : Envelope) : Body :=
  match e.data with
  | none => .other
  | some data =>
    if e.channel = some "book" then (serde.book data).elim .other .book
    else if e.channel = some "trade" then (serde.trade data).elim .other .trade
    else if e.channel = some "instrument" then (serde.instrument data).elim .other .instrument
    else .other

/-- The one instrument a frame concerns, or none if it concerns none or several. -/
def Body.singleSymbol (b : Body) : Option String :=
  let symbols := match b with
    | .book v => v.map BookData.symbol
    | .trade v => v.map TradeData.symbol
    | _ => []
  symbols.head?.bind fun first => if symbols.all (· = first) then some first else none

/-! ## State -/

structure BookState where
  book : Book
  lastRecvTsNs : Int
  lastExchangeTsUs : Option Int
  lastConnMsgSeq : Int
  /-- `none` until the first checksum has been evaluated. -/
  checksumOk : Option Bool
  deriving DecidableEq

/-- `BookState::default()`. -/
def BookState.default : BookState := ⟨Book.empty, 0, none, 0, none⟩

structure PendingFrame where
  recvTsNs : Int
  connMsgSeq : Int
  bytes : List UInt8
  deriving DecidableEq, Repr

structure Adapter where
  instruments : Instruments
  snapshotLevels : Nat
  connId : String
  connMsgSeq : Int
  /-- native symbol -> (price precision, qty precision), from `instrument`. -/
  precision : SortedMap String (Nat × Nat)
  books : SortedMap String BookState
  pending : SortedMap String (List PendingFrame)

/-- What a call of `apply_book` did with a frame entry. -/
inductive Outcome where
  | ignored
  | verified
  | mismatch
  deriving DecidableEq, Repr

/-- One call of `apply_book` that reached the book: its arguments, the precision in force,
    the stored state it found and what it did. -/
structure Call where
  data : BookData
  frameType : String
  recvTsNs : Int
  connMsgSeq : Int
  precision : Nat × Nat
  before : BookState
  outcome : Outcome
  deriving DecidableEq

inductive BookNote where
  /-- A book entry of a received frame, applied or parked. -/
  | received (symbol frameType : String)
  /-- A parked queue is about to be replayed; the type of its oldest frame. -/
  | drained (symbol oldestType : String)
  | call (c : Call)
  deriving DecidableEq

abbrev Outputs := List (Output BookNote)

def call? : Output BookNote → Option Call
  | .note (.call c) => some c
  | _ => none

def calls (outs : Outputs) : List Call := outs.filterMap call?

/-! ## Reading frames -/

/-- What `handle_frame` reads off the bytes before it touches the state. -/
structure Parsed where
  stream : String
  frameType : String
  body : Body
  deriving DecidableEq, Repr

def parse (serde : Serde) (bytes : List UInt8) : Parsed :=
  match serde.envelope bytes with
  | none => ⟨"unparseable", "", .other⟩
  | some e => ⟨e.streamName, e.typ.getD "", Body.parse serde e⟩

/-- The type and the entries for `symbol` of a parked frame, read back from its bytes. -/
def parkedEntries (serde : Serde) (symbol : String) (bytes : List UInt8) :
    String × List BookData :=
  match serde.envelope bytes with
  | none => ("", [])
  | some envelope =>
    match Body.parse serde envelope with
    | .book datas => (envelope.typ.getD "", datas.filter (·.symbol = symbol))
    | _ => (envelope.typ.getD "", [])

/-- The frame type of the oldest frame of a queue. -/
def oldestType (serde : Serde) (symbol : String) (frames : List PendingFrame) : String :=
  frames.head?.elim "" fun pf => (parkedEntries serde symbol pf.bytes).1

/-! ## The checksum -/

/-- The bytes `book_checksum` feeds to the hasher: asks first. -/
def checksumBytes (asks bids : List (Int × Int)) (precision : Nat × Nat) : List UInt8 :=
  [asks, bids].flatMap fun side => (side.take CHECKSUM_LEVELS).flatMap fun lvl =>
    (checksumDigits lvl.1 precision.1).toByteArray.data.toList ++
      (checksumDigits lvl.2 precision.2).toByteArray.data.toList

def bookChecksum (crates : Crates) (asks bids : List (Int × Int)) (precision : Nat × Nat) :
    UInt32 :=
  crates.crc32 (checksumBytes asks bids precision)

/-- The checksum of a book as it stands. -/
def Book.checksum (crates : Crates) (b : Book) (precision : Nat × Nat) : UInt32 :=
  bookChecksum crates (b.topPairs .ask CHECKSUM_LEVELS) (b.topPairs .bid CHECKSUM_LEVELS) precision

/-! ## Folding one book entry -/

/-- One level of the loop of `apply_book`; the flag falls where a decimal is rejected. -/
def applyLevel (side : BookSide) (acc : Book × Bool) (lvl : Level) : Book × Bool :=
  match parseFixed lvl.price, parseFixed lvl.qty with
  | .ok px, .ok qty => (acc.1.apply side px qty, acc.2)
  | _, _ => (acc.1, false)

def applyLevels (b : Book) (f : BookData) : Book × Bool :=
  f.asks.foldl (applyLevel .ask) (f.bids.foldl (applyLevel .bid) (b, true))

/-- The book after an entry: a `snapshot` replaces it, anything else folds in; then the
    truncation to the subscription depth. -/
def foldedBook (b : Book) (f : BookData) (frameType : String) (depth : Nat) : Book :=
  (applyLevels (if frameType = "snapshot" then Book.empty else b) f).1.truncate depth

/-- The checksum `apply_book` compares with the frame's: a level that did not parse fails it
    without computing it. -/
def computedChecksum (crates : Crates) (b : Book) (f : BookData) (frameType : String)
    (depth : Nat) (precision : Nat × Nat) : UInt32 :=
  if (applyLevels (if frameType = "snapshot" then Book.empty else b) f).2 then
    Book.checksum crates (foldedBook b f frameType depth) precision
  else f.checksum + 1

/-- The state `apply_book` leaves once an entry is folded in. -/
def foldedState (crates : Crates) (state : BookState) (f : BookData) (frameType : String)
    (depth : Nat) (recvTsNs connMsgSeq : Int) (ok : Bool) : BookState where
  book := foldedBook state.book f frameType depth
  lastRecvTsNs := recvTsNs
  lastExchangeTsUs := f.timestamp.bind crates.parseMicros
  lastConnMsgSeq := connMsgSeq
  checksumOk := some ok

/-- `apply_book` on the stored state of the symbol, up to the mismatch branch. -/
def foldEntry (crates : Crates) (state : BookState) (f : BookData) (frameType : String)
    (depth : Nat) (precision : Nat × Nat) (recvTsNs connMsgSeq : Int) : BookState × Outcome :=
  -- an update on an empty book is a delta onto nothing
  if frameType = "update" ∧ state.book.isEmpty = true then (state, .ignored)
  else if computedChecksum crates state.book f frameType depth precision = f.checksum then
    (foldedState crates state f frameType depth recvTsNs connMsgSeq true, .verified)
  else (foldedState crates state f frameType depth recvTsNs connMsgSeq false, .mismatch)

namespace Adapter

/-! ## The adapter -/

def new (instruments : Instruments) : Adapter where
  instruments := instruments
  snapshotLevels := SNAPSHOT_LEVELS
  connId := ""
  connMsgSeq := 0
  precision := SortedMap.empty
  books := SortedMap.empty
  pending := SortedMap.empty

def setSnapshotDepth (a : Adapter) (depth : Nat) : Adapter :=
  { a with snapshotLevels := max depth 1 }

def beginConnection (a : Adapter) (connId : String) : Adapter :=
  { a with
    connId := connId
    connMsgSeq := 0
    precision := SortedMap.empty
    books := SortedMap.empty
    pending := SortedMap.empty }

def depth (a : Adapter) (native : String) : Option Nat := (a.books.get? native).map fun s => s.book.len

/-- The number of levels per side the venue keeps us informed about. -/
def subscriptionDepth (a : Adapter) (native : String) : Nat :=
  ((a.instruments.instruments.find? (·.native = native)).bind Instrument.bookDepth).getD
    DEFAULT_BOOK_DEPTH

def snapshot (a : Adapter) (native : String) (nowNs : Int) : Option BookSnapshotRecord :=
  match a.books.get? native with
  | none => none
  | some state =>
    if state.book.isEmpty then none
    else match a.instruments.canonical native with
      | none => none
      | some canonical =>
        let top := state.book.topN a.snapshotLevels
        some {
          exchange := EXCHANGE
          symbol := native
          canonicalSymbol := canonical
          depth := top.depth
          seq := 0
          checksumOk := state.checksumOk
          bidPx := top.bidPx
          bidQty := top.bidQty
          askPx := top.askPx
          askQty := top.askQty
          exchangeTs := state.lastExchangeTsUs
          recvTsNs := state.lastRecvTsNs
          snapshotTsNs := nowNs
          connId := a.connId
          connMsgSeq := state.lastConnMsgSeq }

/-- `parse_units(..)?`. -/
def parseUnits (text : String) : Option Int := (parseFixed text).toOption

def tradeRecord (crates : Crates) (a : Adapter) (t : TradeData) (recvTsNs connMsgSeq : Int) :
    Option TradeRecord := do
  let canonical ← a.instruments.canonical t.symbol
  let price ← parseUnits t.price
  let qty ← parseUnits t.qty
  let side ← if t.side = "buy" then some TradeSide.buy
    else if t.side = "sell" then some TradeSide.sell else none
  let exchangeTs ← crates.parseMicros t.timestamp
  return {
    exchange := EXCHANGE
    symbol := t.symbol
    canonicalSymbol := canonical
    tradeId := t.tradeId
    price := price
    qty := qty
    side := side
    exchangeTs := exchangeTs
    recvTsNs := recvTsNs
    seq := 0
    connId := a.connId
    connMsgSeq := connMsgSeq }

/-- `self.books.entry(symbol).or_default()`. -/
def stored (a : Adapter) (symbol : String) : BookState :=
  (a.books.get? symbol).getD BookState.default

def setBook (a : Adapter) (symbol : String) (state : BookState) : Adapter :=
  { a with books := a.books.insert symbol state }

/-- `self.books.get_mut(symbol)`, the book cleared. -/
def clearBook (a : Adapter) (symbol : String) : Adapter :=
  match a.books.get? symbol with
  | none => a
  | some state => a.setBook symbol { state with book := Book.empty }

/-- The last true thing a book can say is that it is wrong, before it is dropped. -/
def marked (a : Adapter) (symbol : String) (recvTsNs : Int) : Outputs :=
  (a.snapshot symbol recvTsNs).toList.map fun b => .record (.book b)

def applyBook (crates : Crates) (a : Adapter) (f : BookData) (frameType : String)
    (recvTsNs connMsgSeq : Int) : Adapter × Outputs :=
  match a.instruments.canonical f.symbol, a.precision.get? f.symbol with
  | some _, some precision =>
    let before := a.stored f.symbol
    let r := foldEntry crates before f frameType (a.subscriptionDepth f.symbol) precision
      recvTsNs connMsgSeq
    let a := a.setBook f.symbol r.1
    let call := Output.note (.call ⟨f, frameType, recvTsNs, connMsgSeq, precision, before, r.2⟩)
    match r.2 with
    | .ignored | .verified => (a, [call])
    | .mismatch =>
      (a.clearBook f.symbol,
        call :: a.marked f.symbol recvTsNs ++ [.action (.resubscribe f.symbol)])
  | _, _ => (a, [])

def park (a : Adapter) (symbol : String) (recvTsNs connMsgSeq : Int) (bytes : List UInt8) :
    Adapter :=
  let queue := (a.pending.get? symbol).getD []
  let queue := if MAX_PENDING_FRAMES ≤ queue.length then queue.tail else queue
  { a with pending := a.pending.insert symbol (queue ++ [⟨recvTsNs, connMsgSeq, bytes⟩]) }

/-- One entry of a received book frame. -/
def handleEntry (crates : Crates) (frameType : String) (recvTsNs connMsgSeq : Int)
    (bytes : List UInt8) (a : Adapter) (f : BookData) : Adapter × Outputs :=
  let r := if a.precision.contains f.symbol then a.applyBook crates f frameType recvTsNs connMsgSeq
    else (a.park f.symbol recvTsNs connMsgSeq bytes, [])
  (r.1, .note (.received f.symbol frameType) :: r.2)

/-- `apply_book` on entries that share a frame. -/
def applyBooks (crates : Crates) (frameType : String) (recvTsNs connMsgSeq : Int) (a : Adapter)
    (ds : List BookData) : Adapter × Outputs :=
  Mealy.run (fun a d => a.applyBook crates d frameType recvTsNs connMsgSeq) a ds

/-- One parked frame of `drain_pending`. -/
def drainFrame (crates : Crates) (serde : Serde) (symbol : String) (a : Adapter)
    (pf : PendingFrame) : Adapter × Outputs :=
  let parked := parkedEntries serde symbol pf.bytes
  a.applyBooks crates parked.1 pf.recvTsNs pf.connMsgSeq parked.2

/-- One ready symbol of `drain_pending`. -/
def drainSymbol (crates : Crates) (serde : Serde) (a : Adapter) (symbol : String) :
    Adapter × Outputs :=
  match a.pending.get? symbol with
  | none => (a, [])
  | some frames =>
    let r := Mealy.run (drainFrame crates serde symbol)
      { a with pending := a.pending.erase symbol } frames
    (r.1, .note (.drained symbol (oldestType serde symbol frames)) :: r.2)

/-- The symbols whose precision has arrived, in key order. -/
def ready (a : Adapter) : List String := a.pending.keys.filter a.precision.contains

def drainPending (crates : Crates) (serde : Serde) (a : Adapter) : Adapter × Outputs :=
  Mealy.run (drainSymbol crates serde) a a.ready

/-- The precision of one pair of an `instrument` frame. -/
def setPrecision (a : Adapter) (p : PairInfo) : Adapter :=
  if (a.instruments.canonical p.symbol).isSome then
    { a with precision := a.precision.insert p.symbol (p.pricePrecision, p.qtyPrecision) }
  else a

/-- The precision an `instrument` frame gives a symbol: that of its last pair for it. -/
def pairPrecision (pairs : List PairInfo) (symbol : String) : Option (Nat × Nat) :=
  (pairs.reverse.find? (·.symbol = symbol)).map fun p => (p.pricePrecision, p.qtyPrecision)

/-- The match of `handle_frame` on the parsed body. -/
def handleBody (crates : Crates) (serde : Serde) (frameType : String) (recvTsNs : Int)
    (bytes : List UInt8) (a : Adapter) : Body → Adapter × Outputs
  | .instrument pairs => (pairs.foldl setPrecision a).drainPending crates serde
  | .trade trades =>
    (a, (trades.filterMap fun t => a.tradeRecord crates t recvTsNs a.connMsgSeq).map
      fun t => .record (.trade t))
  | .book frames => Mealy.run (handleEntry crates frameType recvTsNs a.connMsgSeq bytes) a frames
  | .other => (a, [])

/-- The record every frame gets, whatever becomes of it. -/
def rawRecord (a : Adapter) (p : Parsed) (bytes : List UInt8) (recvTsNs : Int) :
    RawMessageRecord where
  exchange := EXCHANGE
  stream := p.stream
  symbol := p.body.singleSymbol
  recvTsNs := recvTsNs
  connId := a.connId
  connMsgSeq := a.connMsgSeq
  payload := bytes

/-- `handle_frame`, with its outputs in the order they are produced. -/
def step (crates : Crates) (serde : Serde) (a : Adapter) (bytes : List UInt8) (recvTsNs : Int) :
    Adapter × Outputs :=
  let a := { a with connMsgSeq := a.connMsgSeq + 1 }
  let p := parse serde bytes
  let r := a.handleBody crates serde p.frameType recvTsNs bytes p.body
  (r.1, .record (.raw (a.rawRecord p bytes recvTsNs)) :: r.2)

/-- `handle_frame`. -/
def handleFrame (crates : Crates) (serde : Serde) (a : Adapter) (bytes : List UInt8)
    (recvTsNs : Int) : Adapter × Handled :=
  let r := a.step crates serde bytes recvTsNs
  (r.1, {
    stream := (parse serde bytes).stream
    records := Output.records r.2
    actions := Output.actions r.2
    history := false })

end Adapter

/-! ## Runs -/

/-- One received frame: its bytes and its receipt time. -/
abbrev Frame := List UInt8 × Int

/-- What the capture process does to an adapter over its life. -/
inductive Command where
  | setSnapshotDepth (depth : Nat)
  | beginConnection (connId : String)
  | handleFrame (bytes : List UInt8) (recvTsNs : Int)

def exec (crates : Crates) (serde : Serde) (a : Adapter) : Command → Adapter × Outputs
  | .setSnapshotDepth depth => (a.setSnapshotDepth depth, [])
  | .beginConnection connId => (a.beginConnection connId, [])
  | .handleFrame bytes recvTsNs => a.step crates serde bytes recvTsNs

/-- A process life: any sequence of connections and frames. -/
def life (crates : Crates) (serde : Serde) (instruments : Instruments) (cmds : List Command) :
    Adapter × Outputs :=
  Mealy.run (exec crates serde) (Adapter.new instruments) cmds

/-- The frames of one connection, from its beginning. -/
def connection (crates : Crates) (serde : Serde) (instruments : Instruments) (connId : String)
    (frames : List Frame) : Adapter × Outputs :=
  Mealy.run (fun a (f : Frame) => a.step crates serde f.1 f.2)
    ((Adapter.new instruments).beginConnection connId) frames

/-! ## Frames as text -/

def Level.json (l : Level) : String :=
  "\x7b\"price\":" ++ l.price ++ ",\"qty\":" ++ l.qty ++ "\x7d"

def levelsJson (ls : List Level) : String := "[" ++ String.intercalate "," (ls.map Level.json) ++ "]"

/-- An entry without its optional timestamp. -/
def BookData.json (d : BookData) : String :=
  "\x7b\"symbol\":\"" ++ d.symbol ++ "\",\"bids\":" ++ levelsJson d.bids ++ ",\"asks\":" ++
    levelsJson d.asks ++ ",\"checksum\":" ++ toString d.checksum.toNat ++ "\x7d"

def booksJson (ds : List BookData) : String :=
  "[" ++ String.intercalate "," (ds.map BookData.json) ++ "]"

def PairInfo.json (p : PairInfo) : String :=
  "\x7b\"symbol\":\"" ++ p.symbol ++ "\",\"price_precision\":" ++ toString p.pricePrecision ++
    ",\"qty_precision\":" ++ toString p.qtyPrecision ++ "\x7d"

def pairsJson (ps : List PairInfo) : String :=
  "\x7b\"pairs\":[" ++ String.intercalate "," (ps.map PairInfo.json) ++ "]\x7d"

def frameBytes (channel typ data : String) : List UInt8 :=
  ("\x7b\"channel\":\"" ++ channel ++ "\",\"type\":\"" ++ typ ++ "\",\"data\":" ++ data ++
    "\x7d").toByteArray.data.toList

def bookBytes (f : String × List BookData) : List UInt8 := frameBytes "book" f.1 (booksJson f.2)

def instrumentBytes (ps : List PairInfo) : List UInt8 :=
  frameBytes "instrument" "snapshot" (pairsJson ps)

/-- `serde_json` on the frames of a few book and instrument messages, and on no other text. -/
def Serde.ofFrames (books : List (String × List BookData)) (pairs : List (List PairInfo)) :
    Serde where
  envelope bytes :=
    match books.find? fun f => bookBytes f = bytes with
    | some f => some ⟨some "book", some f.1, none, some (booksJson f.2)⟩
    | none => (pairs.find? fun p => instrumentBytes p = bytes).map fun p =>
        ⟨some "instrument", some "snapshot", none, some (pairsJson p)⟩
  book data := (books.find? fun f => booksJson f.2 = data).map Prod.snd
  trade _ := none
  instrument data := pairs.find? fun p => pairsJson p = data

/-! ## A registry of one pair -/

def btcUsd : Instruments := ⟨[⟨"BTC/USD", "BTC/USD", none⟩], by decide⟩

def btcPairs : List PairInfo := [⟨"BTC/USD", 1, 8⟩]

def bidEntry (price qty : String) (checksum : UInt32) : BookData :=
  ⟨"BTC/USD", [⟨price, qty⟩], [], checksum, none⟩

end K2.Capture.Kraken

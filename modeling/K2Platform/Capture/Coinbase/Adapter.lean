import K2Platform.Lib.Mealy
import K2Platform.Capture.Decimal
import K2Platform.Capture.Book
import K2Platform.Capture.Config
import K2Platform.Capture.Record

/-!
# The Coinbase adapter

Model of `CoinbaseAdapter` of `services/capture-rust/src/exchanges/coinbase.rs`: one
`sequence_num` across every channel of the connection, books rebuilt from `snapshot` events and
updated by absolute quantities, and no checksum.

`Serde` stands for what `serde_json` makes of a frame; nothing is assumed about it.  Metrics and
log lines are left out.  An `L2Note` is emitted for every `l2_data` event handled and for every
`l2_data` frame whose events could not be read.
-/

set_option autoImplicit false

namespace K2.Capture.Coinbase

def EXCHANGE : String := "coinbase"

def SNAPSHOT_LEVELS : Nat := 20

/-! ## Wire types -/

structure Envelope where
  channel : Option String
  sequenceNum : Option Int
  /-- The raw JSON text of `events`. -/
  events : Option String
  deriving DecidableEq, Repr

structure L2Level where
  side : String
  eventTime : String
  priceLevel : String
  newQuantity : String
  deriving DecidableEq, Repr

structure L2Event where
  typ : String
  productId : String
  updates : List L2Level
  deriving DecidableEq, Repr

structure TradeData where
  productId : String
  tradeId : String
  price : String
  size : String
  time : String
  side : String
  deriving DecidableEq, Repr

structure TradeEvent where
  typ : String
  trades : List TradeData
  deriving DecidableEq, Repr

structure Serde where
  envelope : List UInt8 → Option Envelope
  l2 : String → Option (List L2Event)
  trades : String → Option (List TradeEvent)

inductive Body where
  | l2 (events : List L2Event)
  | trades (events : List TradeEvent)
  | control
  | other
  deriving DecidableEq, Repr

def Body.parse (serde : Serde) (e : Envelope) : Body :=
  match e.channel, e.events with
  | some channel, some events =>
    if channel = "l2_data" then (serde.l2 events).elim .other .l2
    else if channel = "market_trades" then (serde.trades events).elim .other .trades
    else if channel = "subscriptions" ∨ channel = "heartbeats" then .control
    else .other
  | _, _ => .other

/-- The one product a frame concerns, or none if it concerns none or several. -/
def Body.singleSymbol (b : Body) : Option String :=
  let symbols := match b with
    | .l2 v => v.map L2Event.productId
    | .trades v => v.flatMap fun (e : TradeEvent) => e.trades.map TradeData.productId
    | _ => []
  symbols.head?.bind fun first => if symbols.all (· = first) then some first else none

/-! ## State -/

structure BookState where
  book : Book
  lastRecvTsNs : Int
  /-- Latest `event_time` applied to this book. -/
  lastExchangeTsUs : Option Int
  lastConnMsgSeq : Int
  /-- `sequence_num` of the last applied frame. -/
  lastSeq : Int
  deriving DecidableEq

/-- `BookState::default()`. -/
def BookState.default : BookState := ⟨Book.empty, 0, none, 0, 0⟩

structure Adapter where
  instruments : Instruments
  snapshotLevels : Nat
  connId : String
  connMsgSeq : Int
  /-- The `sequence_num` the next sequenced frame must carry. -/
  expectedSeq : Option Int
  books : SortedMap String BookState

inductive L2Note where
  /-- An `l2_data` frame whose events do not deserialise, and the products that have a book. -/
  | lost (held : List String)
  /-- An event about to be applied, the products its frame carries, and those that have a book. -/
  | event (e : L2Event) (carried held : List String)
  deriving DecidableEq, Repr

abbrev Outputs := List (Output L2Note)

/-! ## Levels -/

def L2Level.bookSide (lvl : L2Level) : Option BookSide :=
  if lvl.side = "bid" then some .bid else if lvl.side = "offer" then some .ask else none

/-- `Option::max`: nothing is below every time. -/
def laterTs (a b : Option Int) : Option Int :=
  match a, b with
  | none, b => b
  | some x, none => some x
  | some x, some y => some (max x y)

/-- One level of the loop of `apply_l2`. -/
def applyLevel (crates : Crates) (state : BookState) (lvl : L2Level) : BookState :=
  match lvl.bookSide with
  | none => state
  | some side =>
    let book := match parseFixed lvl.priceLevel, parseFixed lvl.newQuantity with
      | .ok px, .ok qty => state.book.apply side px qty
      | _, _ => state.book
    { state with
      book := book
      lastExchangeTsUs := match crates.parseMicros lvl.eventTime with
        | some us => laterTs state.lastExchangeTsUs (some us)
        | none => state.lastExchangeTsUs }

/-- The level of an event that `apply_l2` would drop: an unknown side or a rejected decimal. -/
def L2Level.unfoldable (lvl : L2Level) : Bool :=
  lvl.bookSide.isNone || (parseFixed lvl.priceLevel).toOption.isNone ||
    (parseFixed lvl.newQuantity).toOption.isNone

/-- The state an event is folded into, if it is folded at all. -/
def BookState.base (stored : Option BookState) (typ : String) : Option BookState :=
  if typ = "snapshot" then
    some { stored.getD BookState.default with book := Book.empty, lastExchangeTsUs := none }
  -- an update with no snapshot behind it would build a partial book
  else if typ = "update" then stored
  else none

namespace Adapter

/-! ## The adapter -/

def new (instruments : Instruments) : Adapter where
  instruments := instruments
  snapshotLevels := SNAPSHOT_LEVELS
  connId := ""
  connMsgSeq := 0
  expectedSeq := none
  books := SortedMap.empty

def setSnapshotDepth (a : Adapter) (depth : Nat) : Adapter :=
  { a with snapshotLevels := max depth 1 }

def beginConnection (a : Adapter) (connId : String) : Adapter :=
  { a with connId := connId, connMsgSeq := 0, expectedSeq := none, books := SortedMap.empty }

def snapshot (a : Adapter) (native : String) (nowNs : Int) : Option BookSnapshotRecord :=
  match a.books.get? native with
  | none => none
  | some state =>
    if state.book.isEmpty then none
    else match a.instruments.canonical native with
      | none => none
      | some canonical =>
        let top := state.book.topN a.snapshotLevels
        some {
          exchange := EXCHANGE
          symbol := native
          canonicalSymbol := canonical
          depth := top.depth
          seq := state.lastSeq
          checksumOk := none
          bidPx := top.bidPx
          bidQty := top.bidQty
          askPx := top.askPx
          askQty := top.askQty
          exchangeTs := state.lastExchangeTsUs
          recvTsNs := state.lastRecvTsNs
          snapshotTsNs := nowNs
          connId := a.connId
          connMsgSeq := state.lastConnMsgSeq }

/-- `sequence_num` must be exactly the previous one plus one; anything else drops every book.
    The sum is that of a release build, which wraps. -/
def checkSequence (a : Adapter) (got : Int) : Adapter × List Action :=
  let expected := a.expectedSeq
  let a := { a with expectedSeq := some (I64.wrap (got + 1)) }
  if expected.any (· ≠ got) then ({ a with books := SortedMap.empty }, [.reconnect]) else (a, [])

def applyL2 (crates : Crates) (a : Adapter) (e : L2Event) (recvTsNs connMsgSeq : Int)
    (seq : Option Int) : Adapter :=
  if (a.instruments.canonical e.productId).isNone then a
  else match BookState.base (a.books.get? e.productId) e.typ with
    | none => a
    | some base =>
      let state := e.updates.foldl (applyLevel crates) base
      let state := { state with
        lastRecvTsNs := recvTsNs
        lastConnMsgSeq := connMsgSeq
        lastSeq := seq.getD 0 }
      { a with books := a.books.insert e.productId state }

/-- `eq_ignore_ascii_case` for a lowercase literal. -/
def eqIgnoreAsciiCase (s lower : String) : Bool := s.toList.map Char.toLower = lower.toList

def tradeRecord (crates : Crates) (a : Adapter) (t : TradeData) (recvTsNs connMsgSeq : Int)
    (seq : Option Int) : Option TradeRecord := do
  let canonical ← a.instruments.canonical t.productId
  let price ← (parseFixed t.price).toOption
  let qty ← (parseFixed t.size).toOption
  let side ← if eqIgnoreAsciiCase t.side "buy" then some TradeSide.buy
    else if eqIgnoreAsciiCase t.side "sell" then some TradeSide.sell else none
  let exchangeTs ← crates.parseMicros t.time
  return {
    exchange := EXCHANGE
    symbol := t.productId
    canonicalSymbol := canonical
    tradeId := t.tradeId
    price := price
    qty := qty
    side := side
    exchangeTs := exchangeTs
    recvTsNs := recvTsNs
    seq := seq.getD 0
    connId := a.connId
    connMsgSeq := connMsgSeq }

/-- One event of an `l2_data` frame. -/
def handleEvent (crates : Crates) (carried : List String) (recvTsNs connMsgSeq : Int)
    (seq : Option Int) (a : Adapter) (e : L2Event) : Adapter × Outputs :=
  (a.applyL2 crates e recvTsNs connMsgSeq seq, [.note (.event e carried a.books.keys)])

/-- The match of `handle_frame` on the parsed body. -/
def handleBody (crates : Crates) (e : Envelope) (recvTsNs : Int) (a : Adapter) :
    Body → Adapter × Outputs
  | .l2 events => Mealy.run (handleEvent crates (events.map L2Event.productId) recvTsNs a.connMsgSeq
      e.sequenceNum) a events
  | .trades events =>
    (a, ((events.flatMap TradeEvent.trades).filterMap fun t =>
      a.tradeRecord crates t recvTsNs a.connMsgSeq e.sequenceNum).map fun t => .record (.trade t))
  | .control => (a, [])
  | .other =>
    (a, if e.channel = some "l2_data" ∧ e.events.isSome then [.note (.lost a.books.keys)] else [])

/-- What `handle_frame` reads off the bytes before it touches the state. -/
def parse (serde : Serde) (bytes : List UInt8) : String × Body :=
  match serde.envelope bytes with
  | none => ("unparseable", .other)
  | some e => (e.channel.getD "unknown", Body.parse serde e)

def rawRecord (a : Adapter) (p : String × Body) (bytes : List UInt8) (recvTsNs : Int) :
    RawMessageRecord where
  exchange := EXCHANGE
  stream := p.1
  symbol := p.2.singleSymbol
  recvTsNs := recvTsNs
  connId := a.connId
  connMsgSeq := a.connMsgSeq
  payload := bytes

/-- The continuity check of a frame, if it is sequenced. -/
def checkFrame (a : Adapter) (e : Envelope) : Adapter × List Action :=
  match e.sequenceNum with
  | some seq => a.checkSequence seq
  | none => (a, [])

/-- `handle_frame`, with its outputs in the order they are produced. -/
def step (crates : Crates) (serde : Serde) (a : Adapter) (bytes : List UInt8) (recvTsNs : Int) :
    Adapter × Outputs :=
  let a := { a with connMsgSeq := a.connMsgSeq + 1 }
  let raw := Output.record (.raw (a.rawRecord (parse serde bytes) bytes recvTsNs))
  match serde.envelope bytes with
  | none => (a, [raw])
  | some e =>
    let c := a.checkFrame e
    let r := c.1.handleBody crates e recvTsNs (Body.parse serde e)
    (r.1, raw :: c.2.map .action ++ r.2)

/-- The frame replays trades from before the subscription. -/
def history (serde : Serde) (bytes : List UInt8) : Bool :=
  match (parse serde bytes).2 with
  | .trades events => events.any (·.typ = "snapshot")
  | _ => false

/-- `handle_frame`. -/
def handleFrame (crates : Crates) (serde : Serde) (a : Adapter) (bytes : List UInt8)
    (recvTsNs : Int) : Adapter × Handled :=
  let r := a.step crates serde bytes recvTsNs
  (r.1, {
    stream := (parse serde bytes).1
    records := Output.records r.2
    actions := Output.actions r.2
    history := history serde bytes })

end Adapter

/-! ## Runs -/

/-- One received frame: its bytes and its receipt time. -/
abbrev Frame := List UInt8 × Int

/-- The frames of one connection, from its beginning. -/
def connection (crates : Crates) (serde : Serde) (instruments : Instruments) (connId : String)
    (frames : List Frame) : Adapter × Outputs :=
  Mealy.run (fun a (f : Frame) => a.step crates serde f.1 f.2)
    ((Adapter.new instruments).beginConnection connId) frames

/-! ## Frames as text -/

def L2Level.json (l : L2Level) : String :=
  "\x7b\"side\":\"" ++ l.side ++ "\",\"event_time\":\"" ++ l.eventTime ++
    "\",\"price_level\":\"" ++ l.priceLevel ++ "\",\"new_quantity\":\"" ++ l.newQuantity ++ "\"\x7d"

def L2Event.json (e : L2Event) : String :=
  "\x7b\"type\":\"" ++ e.typ ++ "\",\"product_id\":\"" ++ e.productId ++ "\",\"updates\":[" ++
    String.intercalate "," (e.updates.map L2Level.json) ++ "]\x7d"

def eventsJson (es : List L2Event) : String :=
  "[" ++ String.intercalate "," (es.map L2Event.json) ++ "]"

def l2Json (f : Int × List L2Event) : String :=
  "\x7b\"channel\":\"l2_data\",\"sequence_num\":" ++ toString f.1 ++ ",\"events\":" ++
    eventsJson f.2 ++ "\x7d"

/-- An `l2_data` frame. -/
def l2Frame (f : Int × List L2Event) : Frame := ((l2Json f).toByteArray.data.toList, 1)

/-- `serde_json` on the given `l2_data` frames, and on no other text. -/
def Serde.ofFrames (fs : List (Int × List L2Event)) : Serde where
  envelope bytes := (fs.find? fun f => (l2Frame f).1 = bytes).map fun f =>
    ⟨some "l2_data", some f.1, some (eventsJson f.2)⟩
  l2 events := (fs.find? fun f => eventsJson f.2 = events).map Prod.snd
  trades _ := none

/-! ## A registry of one product -/

def EVENT_TIME : String := "2026-08-26T12:13:45.754166Z"

def timed : Crates := Crates.ofTimes [(EVENT_TIME, 1787746425754166)]

def atomUsd : Instruments := ⟨[⟨"ATOM-USD", "ATOM/USD", none⟩], by decide⟩

def atomEvent (typ price qty : String) : L2Event :=
  ⟨typ, "ATOM-USD", [⟨"bid", EVENT_TIME, price, qty⟩]⟩

end K2.Capture.Coinbase

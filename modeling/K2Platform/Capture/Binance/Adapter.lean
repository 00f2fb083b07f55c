import K2Platform.Lib.Mealy
import K2Platform.Capture.Decimal
import K2Platform.Capture.Book
import K2Platform.Capture.Config
import K2Platform.Capture.Record

/-!
# The Binance adapter

Model of `BinanceAdapter` of `services/capture-rust/src/exchanges/binance.rs`: the combined
stream, where every `depth20` frame is a complete book, and `lastUpdateId` is the only sign of
continuity.  A depth frame whose id does not advance drops the book.

`Serde` stands for what `serde_json` makes of a frame; nothing is assumed about it.  Metrics and
log lines are left out.  `DepthNote` records what `replace_book` saw and decided.
-/

set_option autoImplicit false

namespace K2.Capture.Binance

def EXCHANGE : String := "binance"

def SNAPSHOT_LEVELS : Nat := 20

/-! ## Wire types -/

structure Envelope where
  stream : String
  /-- The raw JSON text of `data`. -/
  data : String
  deriving DecidableEq, Repr

structure TradeData where
  tradeId : String
  price : String
  qty : String
  tradeTimeMs : Int
  buyerIsMaker : Bool
  deriving DecidableEq, Repr

structure DepthData where
  lastUpdateId : Int
  bids : List (String × String)
  asks : List (String × String)
  deriving DecidableEq, Repr

structure Serde where
  envelope : List UInt8 → Option Envelope
  trade : String → Option TradeData
  depth : String → Option DepthData

/-! ## State -/

structure BookState where
  book : Book
  /-- `lastUpdateId` of the frame currently in `book`. -/
  lastUpdateId : Int
  lastRecvTsNs : Int
  lastConnMsgSeq : Int
  deriving DecidableEq

structure Adapter where
  instruments : Instruments
  snapshotLevels : Nat
  /-- lowercase stream spelling -> registry native. -/
  byLower : SortedMap String String
  connId : String
  connMsgSeq : Int
  books : SortedMap String BookState

/-- One call of `replace_book`: the id of the frame, the id of the book it found, and whether
    the frame was taken. -/
structure DepthNote where
  native : String
  id : Int
  held : Option Int
  accepted : Bool
  deriving DecidableEq, Repr

abbrev Outputs := List (Output DepthNote)

def toAsciiLowercase (s : String) : String := String.ofList (s.toList.map Char.toLower)

/-- `m` is "buyer is the maker", so the aggressor sold. -/
def aggressorSide (buyerIsMaker : Bool) : TradeSide := if buyerIsMaker then .sell else .buy

def applyLevel (side : BookSide) (b : Book) (lvl : String × String) : Book :=
  match parseFixed lvl.1, parseFixed lvl.2 with
  | .ok px, .ok qty => b.apply side px qty
  | _, _ => b

/-- The book of a depth frame: the levels that parse, onto an empty book. -/
def DepthData.book (d : DepthData) : Book :=
  d.asks.foldl (applyLevel .ask) (d.bids.foldl (applyLevel .bid) Book.empty)

namespace Adapter

/-! ## The adapter -/

def new (instruments : Instruments) : Adapter where
  instruments := instruments
  snapshotLevels := SNAPSHOT_LEVELS
  byLower := instruments.natives.foldl (fun m n => m.insert (toAsciiLowercase n) n) SortedMap.empty
  connId := ""
  connMsgSeq := 0
  books := SortedMap.empty

def setSnapshotDepth (a : Adapter) (depth : Nat) : Adapter :=
  { a with snapshotLevels := max depth 1 }

def beginConnection (a : Adapter) (connId : String) : Adapter :=
  { a with connId := connId, connMsgSeq := 0, books := SortedMap.empty }

def snapshot (a : Adapter) (native : String) (nowNs : Int) : Option BookSnapshotRecord :=
  match a.books.get? native with
  | none => none
  | some state =>
    if state.book.isEmpty then none
    else match a.instruments.canonical native with
      | none => none
      | some canonical =>
        let top := state.book.topN a.snapshotLevels
        some {
          exchange := EXCHANGE
          symbol := native
          canonicalSymbol := canonical
          depth := top.depth
          seq := state.lastUpdateId
          checksumOk := none
          bidPx := top.bidPx
          bidQty := top.bidQty
          askPx := top.askPx
          askQty := top.askQty
          exchangeTs := none
          recvTsNs := state.lastRecvTsNs
          snapshotTsNs := nowNs
          connId := a.connId
          connMsgSeq := state.lastConnMsgSeq }

/-- The stream label of a frame and the native symbol it is for. -/
def route (a : Adapter) (stream : String) : String × Option String :=
  match stream.toList.splitOn '@' with
  | symbol :: label :: _ =>
    if label = "trade".toList then ("trade", a.byLower.get? (String.ofList symbol))
    else if label = "depth20".toList then ("depth20", a.byLower.get? (String.ofList symbol))
    else ("unknown", none)
  | _ => ("unknown", none)

def tradeRecord (a : Adapter) (native : String) (t : TradeData) (recvTsNs connMsgSeq : Int) :
    Option TradeRecord := do
  let canonical ← a.instruments.canonical native
  let price ← (parseFixed t.price).toOption
  let qty ← (parseFixed t.qty).toOption
  let exchangeTs ← I64.checkedMul t.tradeTimeMs 1000
  return {
    exchange := EXCHANGE
    symbol := native
    canonicalSymbol := canonical
    tradeId := t.tradeId
    price := price
    qty := qty
    side := aggressorSide t.buyerIsMaker
    exchangeTs := exchangeTs
    recvTsNs := recvTsNs
    seq := 0
    connId := a.connId
    connMsgSeq := connMsgSeq }

/-- `prev`: the `lastUpdateId` of the book the symbol has, if it has one. -/
def held (a : Adapter) (native : String) : Option Int :=
  (a.books.get? native).map BookState.lastUpdateId

def replaceBook (a : Adapter) (native : String) (d : DepthData) (recvTsNs connMsgSeq : Int) :
    Adapter × Outputs :=
  let prev := a.held native
  if prev.any (d.lastUpdateId ≤ ·) then
    -- the stream went backwards, and nothing says whether the next frame will not
    ({ a with books := a.books.erase native },
      [.note ⟨native, d.lastUpdateId, prev, false⟩, .action (.resubscribe native)])
  else
    ({ a with books := a.books.insert native ⟨d.book, d.lastUpdateId, recvTsNs, connMsgSeq⟩ },
      [.note ⟨native, d.lastUpdateId, prev, true⟩])

/-- The two streams of the adapter, once a frame has an envelope and a registered symbol. -/
def handleData (serde : Serde) (a : Adapter) (stream native data : String)
    (recvTsNs connMsgSeq : Int) : Adapter × Outputs :=
  if stream = "trade" then
    (a, ((serde.trade data).bind fun t => a.tradeRecord native t recvTsNs connMsgSeq).toList.map
      fun t => .record (.trade t))
  else if stream = "depth20" then
    match serde.depth data with
    | some d => a.replaceBook native d recvTsNs connMsgSeq
    | none => (a, [])
  else (a, [])

/-- `route` on the stream of the envelope, if the frame has one. -/
def routed (a : Adapter) (e : Option Envelope) : String × Option String :=
  match e with
  | some e => a.route e.stream
  | none => ("unparseable", none)

/-- `handle_frame`, with its outputs in the order they are produced. -/
def step (serde : Serde) (a : Adapter) (bytes : List UInt8) (recvTsNs : Int) : Adapter × Outputs :=
  let a := { a with connMsgSeq := a.connMsgSeq + 1 }
  let envelope := serde.envelope bytes
  let r := a.routed envelope
  let raw : RawMessageRecord := {
    exchange := EXCHANGE
    stream := r.1
    symbol := r.2
    recvTsNs := recvTsNs
    connId := a.connId
    connMsgSeq := a.connMsgSeq
    payload := bytes }
  let q := match envelope, r.2 with
    | some e, some native => a.handleData serde r.1 native e.data recvTsNs a.connMsgSeq
    | _, _ => (a, [])
  (q.1, .record (.raw raw) :: q.2)

/-- `handle_frame`. -/
def handleFrame (serde : Serde) (a : Adapter) (bytes : List UInt8) (recvTsNs : Int) :
    Adapter × Handled :=
  let r := a.step serde bytes recvTsNs
  (r.1, {
    stream := (a.routed (serde.envelope bytes)).1
    records := Output.records r.2
    actions := Output.actions r.2
    history := false })

end Adapter

/-! ## Runs -/

/-- One received frame: its bytes and its receipt time. -/
abbrev Frame := List UInt8 × Int

/-- The frames of one connection, from its beginning. -/
def connection (serde : Serde) (instruments : Instruments) (connId : String)
    (frames : List Frame) : Adapter × Outputs :=
  Mealy.run (fun a (f : Frame) => a.step serde f.1 f.2)
    ((Adapter.new instruments).beginConnection connId) frames

end K2.Capture.Binance

import K2Platform.Capture.Binance.Adapter
import K2Platform.Capture.Coinbase.Adapter
import K2Platform.Capture.Kraken.Adapter

/-!
# The adapter of a venue

Model of the `Adapter` enum of `services/capture-rust/src/exchanges/mod.rs` and of
`build_adapter` of `main.rs`: one adapter per venue, reached through one `match`.

A caller makes four kinds of call, and `Adapter.call` is one of them.  `Adapter.run` is any
sequence of calls; it emits an `Event` for each, the call with the records it returned.
-/

set_option autoImplicit false

namespace K2.Capture

inductive Exchange where
  | kraken
  | binance
  | coinbase
  deriving DecidableEq, Repr

/-- What `serde_json` makes of the frames of the three venues. -/
structure Serdes where
  kraken : Kraken.Serde
  binance : Binance.Serde
  coinbase : Coinbase.Serde

inductive Adapter where
  | kraken (a : Kraken.Adapter)
  | binance (a : Binance.Adapter)
  | coinbase (a : Coinbase.Adapter)

/-- `build_adapter`. -/
def buildAdapter (exchange : Exchange) (instruments : Instruments) : Adapter :=
  match exchange with
  | .kraken => .kraken (Kraken.Adapter.new instruments)
  | .binance => .binance (Binance.Adapter.new instruments)
  | .coinbase => .coinbase (Coinbase.Adapter.new instruments)

/-- One call of an adapter, or one look at it by the sampler. -/
inductive Request where
  | beginConnection (connId : String)
  | setSnapshotDepth (depth : Nat)
  | handleFrame (bytes : List UInt8) (recvTsNs : Int)
  | snapshot (native : String) (nowNs : Int)
  deriving DecidableEq, Repr

/-- A call, with the records it returned. -/
abbrev Event := Request × List OutRecord

namespace Adapter

def exchange : Adapter → Exchange
  | kraken _ => .kraken
  | binance _ => .binance
  | coinbase _ => .coinbase

def instruments : Adapter → Instruments
  | kraken a => a.instruments
  | binance a => a.instruments
  | coinbase a => a.instruments

def connId : Adapter → String
  | kraken a => a.connId
  | binance a => a.connId
  | coinbase a => a.connId

def connMsgSeq : Adapter → Int
  | kraken a => a.connMsgSeq
  | binance a => a.connMsgSeq
  | coinbase a => a.connMsgSeq

def beginConnection (connId : String) : Adapter → Adapter
  | kraken a => .kraken (a.beginConnection connId)
  | binance a => .binance (a.beginConnection connId)
  | coinbase a => .coinbase (a.beginConnection connId)

def setSnapshotDepth (depth : Nat) : Adapter → Adapter
  | kraken a => .kraken (a.setSnapshotDepth depth)
  | binance a => .binance (a.setSnapshotDepth depth)
  | coinbase a => .coinbase (a.setSnapshotDepth depth)

def handleFrame (crates : Crates) (serdes : Serdes) (a : Adapter) (bytes : List UInt8)
    (recvTsNs : Int) : Adapter × Handled :=
  match a with
  | kraken a =>
    let r := a.handleFrame crates serdes.kraken bytes recvTsNs
    (.kraken r.1, r.2)
  | binance a =>
    let r := a.handleFrame serdes.binance bytes recvTsNs
    (.binance r.1, r.2)
  | coinbase a =>
    let r := a.handleFrame crates serdes.coinbase bytes recvTsNs
    (.coinbase r.1, r.2)

def snapshot (a : Adapter) (native : String) (nowNs : Int) : Option BookSnapshotRecord :=
  match a with
  | kraken a => a.snapshot native nowNs
  | binance a => a.snapshot native nowNs
  | coinbase a => a.snapshot native nowNs

@[simp] theorem exchange_beginConnection (a : Adapter) (connId : String) :
    (a.beginConnection connId).exchange = a.exchange := by
  cases a <;> rfl

@[simp] theorem exchange_handleFrame (crates : Crates) (serdes : Serdes) (a : Adapter)
    (bytes : List UInt8) (recvTsNs : Int) :
    (a.handleFrame crates serdes bytes recvTsNs).1.exchange = a.exchange := by
  cases a <;> rfl

/-- Native symbols the adapter subscribes to, in registry order. -/
def symbols (a : Adapter) : List String := a.instruments.natives

/-- What a call does to the adapter, and the records it returns. -/
def call (crates : Crates) (serdes : Serdes) (a : Adapter) (q : Request) :
    Adapter × List OutRecord :=
  match q with
  | .beginConnection connId => (a.beginConnection connId, [])
  | .setSnapshotDepth depth => (a.setSnapshotDepth depth, [])
  | .handleFrame bytes recvTsNs =>
    let r := a.handleFrame crates serdes bytes recvTsNs
    (r.1, r.2.records)
  | .snapshot native nowNs => (a, (a.snapshot native nowNs).toList.map .book)

def exec (crates : Crates) (serdes : Serdes) (a : Adapter) (q : Request) : Adapter × List Event :=
  let r := a.call crates serdes q
  (r.1, [(q, r.2)])

/-- Any sequence of calls. -/
def run (crates : Crates) (serdes : Serdes) (a : Adapter) (qs : List Request) :
    Adapter × List Event :=
  Mealy.run (exec crates serdes) a qs

end Adapter

end K2.Capture

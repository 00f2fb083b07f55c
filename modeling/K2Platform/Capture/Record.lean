import Mathlib.Data.List.Basic
import K2Platform.Lib.Crc32

/-!
# What an adapter produces

Model of `services/capture-rust/src/record.rs` and of the adapter contract of
`exchanges/mod.rs`: the three record kinds, the actions an adapter asks its caller for, and
`Handled`, the result of one frame.

An adapter step of the model emits one list of `Output`s, in the order the source produces
them: records, actions, and notes.  A note says what happened inside the step; no caller
sees it, and `Handled` leaves it out.
-/

set_option autoImplicit false

namespace K2.Capture

/-- Taker side. -/
inductive TradeSide where
  | buy
  | sell
  deriving DecidableEq, Repr

structure TradeRecord where
  exchange : String
  symbol : String
  canonicalSymbol : String
  tradeId : String
  price : Int
  qty : Int
  side : TradeSide
  exchangeTs : Int
  recvTsNs : Int
  seq : Int
  connId : String
  connMsgSeq : Int
  deriving DecidableEq, Repr

structure BookSnapshotRecord where
  exchange : String
  symbol : String
  canonicalSymbol : String
  depth : Nat
  seq : Int
  /-- `none` where the venue publishes no checksum. -/
  checksumOk : Option Bool
  bidPx : List Int
  bidQty : List Int
  askPx : List Int
  askQty : List Int
  exchangeTs : Option Int
  recvTsNs : Int
  snapshotTsNs : Int
  connId : String
  connMsgSeq : Int
  deriving DecidableEq, Repr

structure RawMessageRecord where
  exchange : String
  stream : String
  symbol : Option String
  recvTsNs : Int
  connId : String
  connMsgSeq : Int
  payload : List UInt8
  deriving DecidableEq, Repr

inductive OutRecord where
  | trade (t : TradeRecord)
  | book (b : BookSnapshotRecord)
  | raw (r : RawMessageRecord)
  deriving DecidableEq, Repr

/-- The Kafka message key; a record without one goes to any partition. -/
def OutRecord.key : OutRecord → Option String
  | trade t => some t.canonicalSymbol
  | book b => some b.canonicalSymbol
  | raw r => r.symbol

inductive Action where
  | resubscribe (native : String)
  | reconnect
  deriving DecidableEq, Repr

structure Handled where
  stream : String
  records : List OutRecord
  actions : List Action
  history : Bool
  deriving DecidableEq, Repr

inductive Output (ν : Type) where
  | record (r : OutRecord)
  | action (a : Action)
  | note (n : ν)
  deriving DecidableEq

namespace Output

variable {ν : Type}

def record? : Output ν → Option OutRecord
  | record r => some r
  | _ => none

def action? : Output ν → Option Action
  | action a => some a
  | _ => none

def note? : Output ν → Option ν
  | note n => some n
  | _ => none

def records (outs : List (Output ν)) : List OutRecord := outs.filterMap record?

def actions (outs : List (Output ν)) : List Action := outs.filterMap action?

def notes (outs : List (Output ν)) : List ν := outs.filterMap note?

theorem mem_records {outs : List (Output ν)} {r : OutRecord} :
    r ∈ records outs ↔ record r ∈ outs := by
  unfold records
  rw [List.mem_filterMap]
  constructor
  · rintro ⟨o, ho, hr⟩
    cases o with
    | record r' => cases hr; exact ho
    | action _ => cases hr
    | note _ => cases hr
  · exact fun h => ⟨_, h, rfl⟩

@[simp] theorem records_append (l₁ l₂ : List (Output ν)) :
    records (l₁ ++ l₂) = records l₁ ++ records l₂ :=
  List.filterMap_append

@[simp] theorem actions_append (l₁ l₂ : List (Output ν)) :
    actions (l₁ ++ l₂) = actions l₁ ++ actions l₂ :=
  List.filterMap_append

@[simp] theorem notes_append (l₁ l₂ : List (Output ν)) :
    notes (l₁ ++ l₂) = notes l₁ ++ notes l₂ :=
  List.filterMap_append

end Output

/-! ## A raw record as Avro writes it -/

/-- The bytes of a text. -/
def utf8 (text : String) : List UInt8 := text.toByteArray.data.toList

/-- An Avro `long`: zigzag, seven bits a byte. -/
def avroVarint : Nat → Nat → List UInt8
  | 0, _ => []
  | fuel + 1, n =>
    if n < 128 then [UInt8.ofNat n] else UInt8.ofNat (n % 128 + 128) :: avroVarint fuel (n / 128)

def avroLong (n : Int) : List UInt8 :=
  avroVarint 10 (if 0 ≤ n then 2 * n.toNat else 2 * (-n).toNat - 1)

theorem avroLong_ne_nil (n : Int) : avroLong n ≠ [] := by
  rw [avroLong, avroVarint]
  generalize (if 0 ≤ n then 2 * n.toNat else 2 * (-n).toNat - 1) = m
  split <;> exact List.cons_ne_nil _ _

def avroBytes (bytes : List UInt8) : List UInt8 := avroLong bytes.length ++ bytes

/-- The fields of `raw-message.avsc`, in order. -/
def avroRaw (r : RawMessageRecord) : List UInt8 :=
  avroBytes (utf8 r.exchange) ++ avroBytes (utf8 r.stream) ++
    r.symbol.elim (avroLong 0) (fun s => avroLong 1 ++ avroBytes (utf8 s)) ++
    avroLong r.recvTsNs ++ avroBytes (utf8 r.connId) ++ avroLong r.connMsgSeq ++ avroBytes r.payload

/-! ## Crates -/

/-- What the capture uses of `crc32fast` and `chrono`, which are not in this repository. -/
structure Crates where
  crc32 : List UInt8 → UInt32
  /-- `DateTime::parse_from_rfc3339(ts).ok().map(|dt| dt.timestamp_micros())`. -/
  parseMicros : String → Option Int

/-- `crc32fast` computes the IEEE CRC-32; the timestamps that occur are listed with their value. -/
def Crates.ofTimes (times : List (String × Int)) : Crates where
  crc32 := Crc32.checksum
  parseMicros ts := times.lookup ts

end K2.Capture

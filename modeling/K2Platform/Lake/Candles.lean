import Mathlib.Data.List.Dedup
import K2Platform.Lake.GoldTrades

/-!
# Candles

Model of `candles` of `gold.py`: the trades of a bucket make one row, its first and last price
decided by `(exchange_ts, recv_ts_ns, trade_seq)`.  Timestamps are microseconds; decimals are
given by their unscaled value, and one that needs more than 38 digits is NULL.

* `get?_candles` — a run's candles are those of the asked buckets that have trades.
* `bucket_eq_coarsen` — the buckets of a trade are read off its minute.
-/

set_option autoImplicit false

namespace K2.Lake

/-! ## The trades a candle is made of -/

/-- The columns of `gold.trades` that candles and bars read. -/
structure Print where
  exchange : Exchange
  canonicalSymbol : String
  exchangeTs : Int
  recvTsNs : Int
  tradeSeq : Int
  priceE8 : Int
  qtyE8 : Int
  deriving DecidableEq, Repr

def GoldTrade.print (r : GoldTrade) : Print :=
  ⟨r.exchange, r.canonicalSymbol, r.exchangeTs, r.recvTsNs, r.tradeSeq, r.priceE8, r.qtyE8⟩

/-- `struct(exchange_ts, recv_ts_ns, trade_seq)`. -/
def Print.order (p : Print) : Int ×ₗ Int ×ₗ Int :=
  toLex (p.exchangeTs, toLex (p.recvTsNs, p.tradeSeq))

/-- `min_by(.., struct(..))` and `max_by(.., struct(..))`; of equals the later row is taken. -/
def firstPrint (p : Print) (ps : List Print) : Print :=
  ps.foldl (fun m q => if m.order < q.order then m else q) p

def lastPrint (p : Print) (ps : List Print) : Print :=
  ps.foldl (fun m q => if q.order < m.order then m else q) p

/-! ## Decimals -/

/-- `gold.SCALE`, 1e-8 fixed point. -/
def SCALE : Int := 100000000

def decimal38 (unscaled : Int) : Option Int :=
  if unscaled.natAbs < 10 ^ 38 then some unscaled else none

/-- `sum` skips what is NULL, and of nothing else is NULL. -/
def sumDecimal (values : List (Option Int)) : Option Int :=
  if values.reduceOption = [] then none else decimal38 values.reduceOption.sum

/-- The quotient rounded half up, for a positive divisor. -/
def divHalfUp (x d : Int) : Int := x.sign * ((2 * x.natAbs + d) / (2 * d))

/-- `CAST(sum(CAST(qty_e8 AS DECIMAL(38,10))) / SCALE AS DECIMAL(38,10))`. -/
def volume (ps : List Print) : Option Int :=
  (sumDecimal (ps.map fun p => decimal38 (p.qtyE8 * 10 ^ 10))).bind fun sum =>
    decimal38 (divHalfUp sum SCALE)

/-- The product of two DECIMAL(38,10) is a DECIMAL(38,6), and so is its quotient. -/
def quoteVolume (ps : List Print) : Option Int :=
  (sumDecimal (ps.map fun p => decimal38 (p.priceE8 * p.qtyE8 * 10 ^ 6))).bind fun sum =>
    decimal38 (divHalfUp sum (SCALE * SCALE) * 10 ^ 4)

/-! ## Buckets -/

inductive Timeframe where
  | m1
  | m5
  | h1
  | d1
  deriving DecidableEq, Repr

def Timeframe.seconds : Timeframe → Int
  | .m1 => 60
  | .m5 => 300
  | .h1 => 3600
  | .d1 => 86400

structure Bucket where
  exchange : Exchange
  canonicalSymbol : String
  windowStart : Int
  deriving DecidableEq, Repr

/-- `to_timestamp(floor(unix_timestamp(ts) / seconds) * seconds)`. -/
def windowStart (seconds ts : Int) : Int := ts / 1000000 / seconds * seconds * 1000000

/-- `date_trunc("minute", ts)`. -/
def truncMinute (ts : Int) : Int := ts / 60000000 * 60000000

def Print.bucket (tf : Timeframe) (p : Print) : Bucket :=
  ⟨p.exchange, p.canonicalSymbol, windowStart tf.seconds p.exchangeTs⟩

def Print.minute (p : Print) : Bucket := ⟨p.exchange, p.canonicalSymbol, truncMinute p.exchangeTs⟩

/-- The bucket of the trades of a minute. -/
def Bucket.coarsen (tf : Timeframe) (minute : Bucket) : Bucket :=
  { minute with windowStart := Lake.windowStart tf.seconds minute.windowStart }

theorem windowStart_truncMinute (tf : Timeframe) (ts : Int) :
    windowStart tf.seconds (truncMinute ts) = windowStart tf.seconds ts := by
  unfold windowStart truncMinute
  cases tf <;> simp only [Timeframe.seconds] <;> omega

theorem bucket_eq_coarsen (tf : Timeframe) (p : Print) :
    p.bucket tf = p.minute.coarsen tf := by
  rw [Print.bucket, Bucket.coarsen, Print.minute, windowStart_truncMinute]

/-! ## Rows -/

/-- The columns of `gold.ohlcv_*` but for those of its key. -/
structure Candle where
  openE8 : Int
  highE8 : Int
  lowE8 : Int
  closeE8 : Int
  volume : Option Int
  quoteVolume : Option Int
  tradeCount : Nat
  openTime : Int
  closeTime : Int
  srcSnapshotId : Nat
  computedAt : Int
  deriving DecidableEq, Repr

/-- One group of `candles`. -/
def candle (trades : List Print) (srcSnapshotId : Nat) (runTs : Int) : Option Candle :=
  match trades with
  | [] => none
  | p :: ps => some {
      openE8 := (firstPrint p ps).priceE8
      highE8 := ps.foldl (fun m q => max m q.priceE8) p.priceE8
      lowE8 := ps.foldl (fun m q => min m q.priceE8) p.priceE8
      closeE8 := (lastPrint p ps).priceE8
      volume := volume (p :: ps)
      quoteVolume := quoteVolume (p :: ps)
      tradeCount := (p :: ps).length
      openTime := ps.foldl (fun m q => min m q.exchangeTs) p.exchangeTs
      closeTime := ps.foldl (fun m q => max m q.exchangeTs) p.exchangeTs
      srcSnapshotId := srcSnapshotId
      computedAt := runTs }

abbrev Candles := Dict Bucket Candle

/-- `candles`: the trades joined to the asked buckets, grouped. -/
def candles (tf : Timeframe) (keys : List Bucket) (trades : List Print) (srcSnapshotId : Nat)
    (runTs : Int) : Candles :=
  let joined := trades.filter fun p => p.bucket tf ∈ keys
  Dict.ofKeys? (joined.map (Print.bucket tf)).dedup fun k =>
    candle (joined.filter fun p => p.bucket tf = k) srcSnapshotId runTs

/-- The candle of one bucket over all the trades. -/
def candleOf (tf : Timeframe) (trades : List Print) (srcSnapshotId : Nat) (runTs : Int)
    (k : Bucket) : Option Candle :=
  candle (trades.filter fun p => p.bucket tf = k) srcSnapshotId runTs

theorem get?_candles (tf : Timeframe) (keys : List Bucket) (trades : List Print)
    (srcSnapshotId : Nat) (runTs : Int) (k : Bucket) :
    (candles tf keys trades srcSnapshotId runTs).get? k =
      if k ∈ keys then candleOf tf trades srcSnapshotId runTs k else none := by
  have hjoined : k ∈ keys → ((trades.filter fun p => p.bucket tf ∈ keys).filter fun p =>
      p.bucket tf = k) = trades.filter fun p => p.bucket tf = k := by
    intro hk
    rw [List.filter_filter]
    refine List.filter_congr fun p _ => ?_
    by_cases h : p.bucket tf = k
    · simp [h, hk]
    · simp [h]
  unfold candles
  rw [Dict.get?_ofKeys?]
  simp only [List.mem_dedup]
  by_cases hk : k ∈ keys
  · rw [if_pos hk, hjoined hk, candleOf]
    split
    · rfl
    · rename_i hnone
      have hempty : (trades.filter fun p => p.bucket tf = k) = [] := by
        refine List.filter_eq_nil_iff.2 fun p hp hpk => hnone ?_
        have hbucket : p.bucket tf = k := of_decide_eq_true hpk
        exact List.mem_map.2 ⟨p, List.mem_filter.2 ⟨hp, decide_eq_true (hbucket ▸ hk)⟩, hbucket⟩
      rw [hempty, candle]
  · rw [if_neg hk, if_neg]
    rintro hmem
    obtain ⟨p, hp, rfl⟩ := List.mem_map.1 hmem
    exact hk (of_decide_eq_true (List.mem_filter.1 hp).2)

theorem candle_or {trades : List Print} (h : trades ≠ []) (srcSnapshotId : Nat) (runTs : Int)
    (stored : Option Candle) :
    (candle trades srcSnapshotId runTs).or stored = candle trades srcSnapshotId runTs := by
  cases trades with
  | nil => exact absurd rfl h
  | cons p ps => rfl

/-! ## What a candle says -/

/-- A candle but for the columns that say when and from what snapshot it was computed. -/
def Candle.content (c : Candle) : Candle := { c with srcSnapshotId := 0, computedAt := 0 }

/-- The candle of a group, whenever it is computed. -/
theorem candle_content (trades : List Print) (srcSnapshotId : Nat) (runTs : Int) :
    (candle trades srcSnapshotId runTs).map Candle.content = candle trades 0 0 := by
  cases trades <;> rfl

/-- A candle counts its trades, so it tells a group from a larger one. -/
theorem eq_nil_of_candle_eq {l more : List Print} (h : candle l 0 0 = candle (l ++ more) 0 0) :
    more = [] := by
  cases l with
  | nil =>
    cases more with
    | nil => rfl
    | cons p more => cases h
  | cons p l =>
    have hcount : (p :: l).length = (p :: l ++ more).length :=
      congrArg Candle.tradeCount (Option.some.inj h)
    rw [List.length_append] at hcount
    exact List.length_eq_zero_iff.1 (by omega)

end K2.Lake

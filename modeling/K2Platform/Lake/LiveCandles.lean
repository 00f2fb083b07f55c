import K2Platform.Lake.Candles
import K2Platform.Lake.Offsets
import K2Platform.Lib.ReplacingMergeTree

/-!
# Candles on read

Model of `gold.trades` and `gold.ohlcv_live` of the ClickHouse schema, and of the view `q_trades_mv`
that fills the one from the topics.  The table keeps the earliest delivery of a trade, its version
being the receive time inverted; the candles are aggregated when they are read, over `FINAL`.

* `live_candles_match` — they are the lake's candles of the earliest deliveries.
-/

set_option autoImplicit false

namespace K2.Lake

open ReplacingMergeTree

/-! ## Rows -/

/-- A record of `gold.q_trades`, with the place it was read from. -/
structure Delivery where
  exchange : Exchange
  symbol : String
  canonicalSymbol : String
  tradeId : String
  price : Int
  qty : Int
  side : String
  exchangeTs : Int
  recvTsNs : Int
  seq : Int
  connId : String
  connMsgSeq : Int
  srcTopic : String
  srcPartition : Nat
  srcOffset : Nat
  /-- Nanoseconds since the epoch, in an `i64`. -/
  recv_range : 0 ≤ recvTsNs ∧ recvTsNs < 2 ^ 63
  deriving DecidableEq, Repr

/-- A row of `gold.trades`; `price` and `qty` are `price_e8` and `qty_e8` there. -/
structure ServedTrade extends Delivery where
  firstSeen : Nat
  deriving DecidableEq, Repr

/-- `toUInt64`. -/
def toUInt64 (x : Int) : Nat := (x % 2 ^ 64).toNat

/-- `18446744073709551615 - toUInt64(recv_ts_ns)`, in 64 bits. -/
def firstSeenOf (recvTsNs : Int) : Nat := toUInt64 (18446744073709551615 - toUInt64 recvTsNs)

/-- One row of `q_trades_mv`. -/
def qTradesMv (d : Delivery) : ServedTrade := { d with firstSeen := firstSeenOf d.recvTsNs }

/-- `ORDER BY (exchange, canonical_symbol, exchange_ts, trade_id)`. -/
def ServedTrade.key (r : ServedTrade) : Exchange × String × Int × String :=
  (r.exchange, r.canonicalSymbol, r.exchangeTs, r.tradeId)

/-! ## `gold.ohlcv_live` -/

def toUInt64OrZero (text : String) : Nat :=
  match readNat text with
  | some n => if n < 2 ^ 64 then n else 0
  | none => 0

/-- `toStartOfInterval(ts, INTERVAL seconds SECOND)`, in microseconds. -/
def toStartOfInterval (seconds ts : Int) : Int := ts / (seconds * 1000000) * (seconds * 1000000)

/-- `(exchange_ts, recv_ts_ns, toUInt64OrZero(trade_id))`. -/
def ServedTrade.order (r : ServedTrade) : Int ×ₗ Int ×ₗ Int :=
  toLex (r.exchangeTs, toLex (r.recvTsNs, (toUInt64OrZero r.tradeId : Int)))

/-- `argMin` and `argMax`; of equals the earlier row is taken. -/
def argMinTrade (r : ServedTrade) (rs : List ServedTrade) : ServedTrade :=
  rs.foldl (fun m q => if q.order < m.order then q else m) r

def argMaxTrade (r : ServedTrade) (rs : List ServedTrade) : ServedTrade :=
  rs.foldl (fun m q => if m.order < q.order then q else m) r

/-- The columns of a row of the view but for its key and its volumes, of which one is a sum of
    floats. -/
structure LiveCandle where
  openE8 : Int
  highE8 : Int
  lowE8 : Int
  closeE8 : Int
  tradeCount : Nat
  openTime : Int
  closeTime : Int
  deriving DecidableEq, Repr

/-- One group. -/
def liveCandle (trades : List ServedTrade) : Option LiveCandle :=
  match trades with
  | [] => none
  | r :: rs => some {
      openE8 := (argMinTrade r rs).price
      highE8 := rs.foldl (fun m q => max m q.price) r.price
      lowE8 := rs.foldl (fun m q => min m q.price) r.price
      closeE8 := (argMaxTrade r rs).price
      tradeCount := (r :: rs).length
      openTime := rs.foldl (fun m q => min m q.exchangeTs) r.exchangeTs
      closeTime := rs.foldl (fun m q => max m q.exchangeTs) r.exchangeTs }

def ServedTrade.bucket (tf : Timeframe) (r : ServedTrade) : Bucket :=
  ⟨r.exchange, r.canonicalSymbol, toStartOfInterval tf.seconds r.exchangeTs⟩

/-- `gold.ohlcv_live(bucket)` over what `FINAL` reads, for one group. -/
def ohlcvLive (tf : Timeframe) (final : List ServedTrade) (k : Bucket) : Option LiveCandle :=
  liveCandle (final.filter fun r => r.bucket tf = k)

/-! ## The lake's side -/

/-- The trade a delivery is of. -/
def Delivery.trade (d : Delivery) : Exchange × String × String :=
  (d.exchange, d.canonicalSymbol, d.tradeId)

/-- The row of the delivery in the lake, where `trade_seq` is the trade id read as a number. -/
def Delivery.print (d : Delivery) : Print :=
  ⟨d.exchange, d.canonicalSymbol, d.exchangeTs, d.recvTsNs,
    (((readNat d.tradeId).getD 0 : Nat) : Int), d.price, d.qty⟩

/-- Of each trade, a delivery that none was received before. -/
abbrev Earliest : List Delivery → List Delivery → Prop :=
  Collapsed Delivery.trade fun d => OrderDual.toDual d.recvTsNs

/-- The columns that both candles have. -/
def Candle.live (c : Candle) : LiveCandle :=
  ⟨c.openE8, c.highE8, c.lowE8, c.closeE8, c.tradeCount, c.openTime, c.closeTime⟩

/-- A canonical decimal numeral below 2^63. -/
def CanonicalId (text : String) : Prop := ∃ n, n < 2 ^ 63 ∧ text = writeNat n

/-- All deliveries of a trade say the same of it. -/
def SameTrade (deliveries : List Delivery) : Prop :=
  ∀ d ∈ deliveries, ∀ e ∈ deliveries, d.trade = e.trade →
    d.price = e.price ∧ d.qty = e.qty ∧ d.side = e.side ∧ d.exchangeTs = e.exchangeTs

/-! ## Aggregates do not depend on the order of the rows -/

/-- What a fold that keeps one of two elements ends with. -/
theorem foldl_pick {α β : Type} [Preorder β] (f : α → β) {pick : α → α → α}
    (hpick : ∀ m q, (pick m q = m ∨ pick m q = q) ∧ f (pick m q) ≤ f m ∧ f (pick m q) ≤ f q)
    (p : α) (ps : List α) :
    ps.foldl pick p ∈ p :: ps ∧ ∀ q ∈ p :: ps, f (ps.foldl pick p) ≤ f q := by
  induction ps generalizing p with
  | nil =>
    refine ⟨List.mem_singleton_self p, fun q hq => ?_⟩
    rw [List.mem_singleton.1 hq]
    exact le_rfl
  | cons a ps ih =>
    obtain ⟨hmem, hle⟩ := ih (pick p a)
    obtain ⟨hone, hp, ha⟩ := hpick p a
    rw [List.foldl_cons]
    constructor
    · rcases List.mem_cons.1 hmem with h | h
      · rw [h]
        rcases hone with h | h <;> rw [h] <;> simp
      · simp [h]
    · have hfirst := hle _ List.mem_cons_self
      intro q hq
      rcases List.mem_cons.1 hq with rfl | hq
      · exact hfirst.trans hp
      · rcases List.mem_cons.1 hq with rfl | hq
        · exact hfirst.trans ha
        · exact hle q (List.mem_cons_of_mem _ hq)

/-- Elements that the order tells apart have one least. -/
theorem foldl_pick_eq {α β : Type} [PartialOrder β] (f : α → β) {pick pick' : α → α → α}
    (hpick : ∀ m q, (pick m q = m ∨ pick m q = q) ∧ f (pick m q) ≤ f m ∧ f (pick m q) ≤ f q)
    (hpick' : ∀ m q, (pick' m q = m ∨ pick' m q = q) ∧ f (pick' m q) ≤ f m ∧ f (pick' m q) ≤ f q)
    {p q : α} {ps qs : List α} (hperm : (p :: ps).Perm (q :: qs))
    (hinj : ∀ x ∈ p :: ps, ∀ y ∈ p :: ps, f x = f y → x = y) :
    ps.foldl pick p = qs.foldl pick' q := by
  obtain ⟨hmem, hle⟩ := foldl_pick f hpick p ps
  obtain ⟨hmem', hle'⟩ := foldl_pick f hpick' q qs
  refine hinj _ hmem _ (hperm.mem_iff.2 hmem') (le_antisymm ?_ ?_)
  · exact hle _ (hperm.mem_iff.2 hmem')
  · exact hle' _ (hperm.mem_iff.1 hmem)

theorem foldl_min_perm {α β : Type} {f : α → Int} {g : β → Int} {p : α} {q : β} {ps : List α}
    {qs : List β} (hperm : ((p :: ps).map f).Perm ((q :: qs).map g)) :
    ps.foldl (fun m x => min m (f x)) (f p) = qs.foldl (fun m x => min m (g x)) (g q) := by
  have hpick : ∀ m x : Int, (min m x = m ∨ min m x = x) ∧ id (min m x) ≤ id m ∧
      id (min m x) ≤ id x := fun m x => ⟨min_choice m x, min_le_left m x, min_le_right m x⟩
  rw [← List.foldl_map (f := f) (g := min), ← List.foldl_map (f := g) (g := min)]
  exact foldl_pick_eq id hpick hpick hperm fun _ _ _ _ h => h

theorem foldl_max_perm {α β : Type} {f : α → Int} {g : β → Int} {p : α} {q : β} {ps : List α}
    {qs : List β} (hperm : ((p :: ps).map f).Perm ((q :: qs).map g)) :
    ps.foldl (fun m x => max m (f x)) (f p) = qs.foldl (fun m x => max m (g x)) (g q) := by
  have hpick : ∀ m x : Int, (max m x = m ∨ max m x = x) ∧
      OrderDual.toDual (max m x) ≤ OrderDual.toDual m ∧
      OrderDual.toDual (max m x) ≤ OrderDual.toDual x :=
    fun m x => ⟨max_choice m x, le_max_left m x, le_max_right m x⟩
  rw [← List.foldl_map (f := f) (g := max), ← List.foldl_map (f := g) (g := max)]
  exact foldl_pick_eq OrderDual.toDual hpick hpick hperm fun _ _ _ _ h => h

/-- Of equals the earlier stays. -/
theorem foldl_first {α β : Type} [LinearOrder β] (f : α → β) (p : α) (ps : List α) :
    (ps.foldl (fun m q => if f q < f m then q else m) p) ∈ p :: ps ∧
      ∀ q ∈ p :: ps, f (ps.foldl (fun m q => if f q < f m then q else m) p) ≤ f q :=
  foldl_pick f (fun m q => by
    split
    · rename_i h
      exact ⟨Or.inr rfl, le_of_lt h, le_rfl⟩
    · rename_i h
      exact ⟨Or.inl rfl, le_rfl, not_lt.1 h⟩) p ps

/-- Of equals the later stays. -/
theorem foldl_last {α β : Type} [LinearOrder β] (f : α → β) (p : α) (ps : List α) :
    (ps.foldl (fun m q => if f m < f q then m else q) p) ∈ p :: ps ∧
      ∀ q ∈ p :: ps, f (ps.foldl (fun m q => if f m < f q then m else q) p) ≤ f q :=
  foldl_pick f (fun m q => by
    split
    · rename_i h
      exact ⟨Or.inl rfl, le_rfl, le_of_lt h⟩
    · rename_i h
      exact ⟨Or.inr rfl, not_lt.1 h, le_rfl⟩) p ps

theorem argMinTrade_spec (r : ServedTrade) (rs : List ServedTrade) :
    argMinTrade r rs ∈ r :: rs ∧ ∀ q ∈ r :: rs, (argMinTrade r rs).order ≤ q.order :=
  foldl_first ServedTrade.order r rs

theorem argMaxTrade_spec (r : ServedTrade) (rs : List ServedTrade) :
    argMaxTrade r rs ∈ r :: rs ∧ ∀ q ∈ r :: rs, q.order ≤ (argMaxTrade r rs).order :=
  foldl_first (fun q : ServedTrade => OrderDual.toDual q.order) r rs

theorem firstPrint_spec (p : Print) (ps : List Print) :
    firstPrint p ps ∈ p :: ps ∧ ∀ q ∈ p :: ps, (firstPrint p ps).order ≤ q.order :=
  foldl_last Print.order p ps

theorem lastPrint_spec (p : Print) (ps : List Print) :
    lastPrint p ps ∈ p :: ps ∧ ∀ q ∈ p :: ps, q.order ≤ (lastPrint p ps).order :=
  foldl_last (fun q : Print => OrderDual.toDual q.order) p ps

theorem liveCandle_eq {g : List ServedTrade} {l : List Print}
    (hperm : (g.map fun r => r.print).Perm l) (horder : ∀ r ∈ g, r.order = r.print.order)
    (hinj : ∀ p ∈ l, ∀ q ∈ l, p.order = q.order → p = q) (srcSnapshotId : Nat) (runTs : Int) :
    liveCandle g = (candle l srcSnapshotId runTs).map Candle.live := by
  have hmem : ∀ r ∈ g, r.print ∈ l := fun r hr => hperm.mem_iff.1 (List.mem_map_of_mem hr)
  cases g with
  | nil =>
    rw [List.map_nil] at hperm
    rw [← hperm.nil_eq]
    rfl
  | cons r rs =>
    cases l with
    | nil => exact absurd hperm.length_eq (by simp)
    | cons p ps =>
      have hof : ∀ q ∈ p :: ps, ∃ s ∈ r :: rs, s.print = q ∧ s.order = q.order := by
        intro q hq
        obtain ⟨s, hs, rfl⟩ := List.mem_map.1 (hperm.mem_iff.2 hq)
        exact ⟨s, hs, rfl, horder s hs⟩
      have hfirst : (argMinTrade r rs).print = firstPrint p ps := by
        obtain ⟨hin, hle⟩ := argMinTrade_spec r rs
        obtain ⟨hin', hle'⟩ := firstPrint_spec p ps
        obtain ⟨s, hs, _, hs'⟩ := hof _ hin'
        refine hinj _ (hmem _ hin) _ hin' (le_antisymm ?_ (hle' _ (hmem _ hin)))
        rw [← horder _ hin, ← hs']
        exact hle s hs
      have hlast : (argMaxTrade r rs).print = lastPrint p ps := by
        obtain ⟨hin, hle⟩ := argMaxTrade_spec r rs
        obtain ⟨hin', hle'⟩ := lastPrint_spec p ps
        obtain ⟨s, hs, _, hs'⟩ := hof _ hin'
        refine hinj _ (hmem _ hin) _ hin' (le_antisymm (hle' _ (hmem _ hin)) ?_)
        rw [← horder _ hin, ← hs']
        exact hle s hs
      have hprices : ((r :: rs).map fun q => q.price).Perm ((p :: ps).map Print.priceE8) := by
        have h := hperm.map Print.priceE8
        rwa [List.map_map] at h
      have htimes : ((r :: rs).map fun q => q.exchangeTs).Perm
          ((p :: ps).map Print.exchangeTs) := by
        have h := hperm.map Print.exchangeTs
        rwa [List.map_map] at h
      have hcount : (r :: rs).length = (p :: ps).length := by
        rw [← hperm.length_eq, List.length_map]
      rw [liveCandle, candle, Option.map_some, Candle.live, ← hfirst, ← hlast,
        foldl_max_perm hprices, foldl_min_perm hprices, foldl_min_perm htimes,
        foldl_max_perm htimes, hcount]
      rfl

/-! ## What `FINAL` reads -/

theorem firstSeenOf_eq {x : Int} (h : 0 ≤ x ∧ x < 2 ^ 63) :
    (firstSeenOf x : Int) = 18446744073709551615 - x := by
  have hx : toUInt64 x = x.toNat := by
    rw [toUInt64, Int.emod_eq_of_lt h.1 (by omega)]
  rw [firstSeenOf, hx, toUInt64, Int.toNat_of_nonneg (Int.emod_nonneg _ (by decide)),
    Int.toNat_of_nonneg h.1, Int.emod_eq_of_lt (by omega) (by omega)]

theorem firstSeen_le_iff (d e : Delivery) :
    firstSeenOf d.recvTsNs ≤ firstSeenOf e.recvTsNs ↔ e.recvTsNs ≤ d.recvTsNs := by
  have hd := firstSeenOf_eq d.recv_range
  have he := firstSeenOf_eq e.recv_range
  omega

/-- The table's keys and versions tell deliveries apart as trades and receive times do. -/
theorem earliest_of_final {deliveries : List Delivery} (hsame : SameTrade deliveries)
    {final : List ServedTrade}
    (h : Collapsed ServedTrade.key ServedTrade.firstSeen (deliveries.map qTradesMv) final) :
    Earliest deliveries (final.map ServedTrade.toDelivery) := by
  have hrows := Collapsed.of_map (g := ServedTrade.toDelivery) (fun _ => rfl) h
  refine hrows.congr (fun d hd e he => ?_) fun d _ e _ hle => ?_
  · simp only [ServedTrade.key, qTradesMv, Delivery.trade, Prod.mk.injEq]
    constructor
    · rintro ⟨hexchange, hsymbol, _, hid⟩
      exact ⟨hexchange, hsymbol, hid⟩
    · rintro ⟨hexchange, hsymbol, hid⟩
      have htrade : d.trade = e.trade := by
        rw [Delivery.trade, Delivery.trade, hexchange, hsymbol, hid]
      exact ⟨hexchange, hsymbol, (hsame d hd e he htrade).2.2.2, hid⟩
  · exact (firstSeen_le_iff d e).1 hle

/-! ## Candles -/

theorem toStartOfInterval_eq (tf : Timeframe) (ts : Int) :
    toStartOfInterval tf.seconds ts = windowStart tf.seconds ts := by
  unfold toStartOfInterval windowStart
  cases tf <;> simp only [Timeframe.seconds] <;> omega

theorem bucket_print (tf : Timeframe) (r : ServedTrade) : r.print.bucket tf = r.bucket tf := by
  rw [ServedTrade.bucket, toStartOfInterval_eq]
  rfl

theorem order_print {r : ServedTrade} (hid : CanonicalId r.tradeId) : r.order = r.print.order := by
  obtain ⟨n, hn, hr⟩ := hid
  have hnumber : toUInt64OrZero r.tradeId = n := by
    rw [toUInt64OrZero, hr, readNat_writeNat]
    exact if_pos (by omega)
  rw [ServedTrade.order, hnumber, Print.order, Delivery.print, hr, readNat_writeNat]
  rfl

/-- Trades of one symbol are told apart by their ids, read as numbers. -/
theorem trade_of_print {d e : Delivery} (hd : CanonicalId d.tradeId) (he : CanonicalId e.tradeId)
    (hexchange : d.exchange = e.exchange) (hsymbol : d.canonicalSymbol = e.canonicalSymbol)
    (hseq : d.print.tradeSeq = e.print.tradeSeq) : d.trade = e.trade := by
  obtain ⟨m, _, hm⟩ := hd
  obtain ⟨n, _, hn⟩ := he
  rw [Delivery.print, Delivery.print, hm, hn, readNat_writeNat, readNat_writeNat] at hseq
  have hmn : m = n := Int.ofNat_inj.1 hseq
  rw [Delivery.trade, Delivery.trade, hexchange, hsymbol, hm, hn, hmn]

theorem print_of_same {deliveries : List Delivery} (hsame : SameTrade deliveries) {d e : Delivery}
    (hd : d ∈ deliveries) (he : e ∈ deliveries) (htrade : d.trade = e.trade)
    (hrecv : d.recvTsNs = e.recvTsNs) : d.print = e.print := by
  obtain ⟨hprice, hqty, _, hts⟩ := hsame d hd e he htrade
  simp only [Delivery.trade, Prod.mk.injEq] at htrade
  obtain ⟨hexchange, hsymbol, hid⟩ := htrade
  rw [Delivery.print, Delivery.print, hexchange, hsymbol, hid, hrecv, hprice, hqty, hts]

section Match

variable {deliveries earliest : List Delivery} {final : List ServedTrade}
  (hids : ∀ d ∈ deliveries, CanonicalId d.tradeId) (hsame : SameTrade deliveries)
  (hfinal : Collapsed ServedTrade.key ServedTrade.firstSeen (deliveries.map qTradesMv) final)
  (hearliest : Earliest deliveries earliest)
include hids hsame hfinal hearliest

theorem final_prints : (final.map fun r => r.print).Perm (earliest.map Delivery.print) := by
  have hread := earliest_of_final hsame hfinal
  have hperm := hread.perm (f := Delivery.print) hearliest
    (fun d hd e he htrade hrecv => print_of_same hsame hd he htrade (OrderDual.toDual_inj.1 hrecv))
    (fun d hd e he hprint => trade_of_print (hids d hd) (hids e he) (congrArg Print.exchange hprint)
      (congrArg Print.canonicalSymbol hprint) (congrArg Print.tradeSeq hprint))
  rwa [List.map_map] at hperm

theorem ohlcvLive_eq (tf : Timeframe) (k : Bucket) (srcSnapshotId : Nat) (runTs : Int) :
    ohlcvLive tf final k =
      (candleOf tf (earliest.map Delivery.print) srcSnapshotId runTs k).map Candle.live := by
  have hgroup : ((final.filter fun r => r.bucket tf = k).map fun r => r.print).Perm
      ((earliest.map Delivery.print).filter fun p => p.bucket tf = k) := by
    have h := (final_prints hids hsame hfinal hearliest).filter fun p => p.bucket tf = k
    rw [List.filter_map] at h
    have hbucket : ((fun p : Print => decide (p.bucket tf = k)) ∘ fun r : ServedTrade => r.print) =
        fun r => decide (r.bucket tf = k) := by
      funext r
      rw [Function.comp_apply, bucket_print]
    rwa [hbucket] at h
  refine liveCandle_eq hgroup (fun r hr => ?_) (fun p hp q hq horder => ?_) srcSnapshotId runTs
  · obtain ⟨d, hd, rfl⟩ := List.mem_map.1 (hfinal.mem r (List.mem_of_mem_filter hr))
    exact order_print (hids d hd)
  · obtain ⟨hp, hpk⟩ := List.mem_filter.1 hp
    obtain ⟨hq, hqk⟩ := List.mem_filter.1 hq
    obtain ⟨d, hd, rfl⟩ := List.mem_map.1 hp
    obtain ⟨e, he, rfl⟩ := List.mem_map.1 hq
    have hbucket : d.print.bucket tf = e.print.bucket tf :=
      (of_decide_eq_true hpk).trans (of_decide_eq_true hqk).symm
    have hseq : d.print.tradeSeq = e.print.tradeSeq := by
      have hlex := (Prod.mk.inj (toLex.injective horder)).2
      exact (Prod.mk.inj (toLex.injective hlex)).2
    have htrade := trade_of_print (hids d (hearliest.mem d hd)) (hids e (hearliest.mem e he))
      (congrArg Bucket.exchange hbucket) (congrArg Bucket.canonicalSymbol hbucket) hseq
    rw [List.inj_on_of_nodup_map hearliest.nodup hd he htrade]

end Match

theorem ohlcvLive_of_reached {deliveries : List Delivery}
    (hids : ∀ d ∈ deliveries, CanonicalId d.tradeId) (hsame : SameTrade deliveries)
    {earliest : List Delivery} (hearliest : Earliest deliveries earliest)
    {blocks : List (List Delivery)} (hblocks : ∀ d, d ∈ blocks.flatten ↔ d ∈ deliveries)
    {parts : List (List ServedTrade)}
    (hparts : Reached ServedTrade.key ServedTrade.firstSeen (blocks.map (List.map qTradesMv)) parts)
    {final : List ServedTrade}
    (hfinal : Collapsed ServedTrade.key ServedTrade.firstSeen parts.flatten final)
    (tf : Timeframe) (k : Bucket) (srcSnapshotId : Nat) (runTs : Int) :
    ohlcvLive tf final k =
      (candleOf tf (earliest.map Delivery.print) srcSnapshotId runTs k).map Candle.live := by
  have hread := collapsed_of_reached hparts hfinal
  rw [← List.map_flatten] at hread
  refine ohlcvLive_eq hids hsame (hread.of_mem_iff fun r => ?_) hearliest tf k srcSnapshotId runTs
  simp only [List.mem_map, hblocks]

/-- **Candles on read are the lake's candles of the earliest deliveries**, in whatever blocks the
    deliveries came, how often ever, and whatever was merged; that some come again changes
    nothing. -/
theorem live_candles_match {deliveries : List Delivery}
    (hids : ∀ d ∈ deliveries, CanonicalId d.tradeId) (hsame : SameTrade deliveries)
    {earliest : List Delivery} (hearliest : Earliest deliveries earliest)
    {blocks : List (List Delivery)} (hblocks : ∀ d, d ∈ blocks.flatten ↔ d ∈ deliveries)
    {parts : List (List ServedTrade)}
    (hparts : Reached ServedTrade.key ServedTrade.firstSeen (blocks.map (List.map qTradesMv)) parts)
    {final : List ServedTrade}
    (hfinal : Collapsed ServedTrade.key ServedTrade.firstSeen parts.flatten final)
    (tf : Timeframe) (k : Bucket) (srcSnapshotId : Nat) (runTs : Int) :
    ohlcvLive tf final k =
        (candleOf tf (earliest.map Delivery.print) srcSnapshotId runTs k).map Candle.live ∧
      ∀ again : List (List Delivery), (∀ d ∈ again.flatten, d ∈ deliveries) →
        ∀ parts' final',
          Reached ServedTrade.key ServedTrade.firstSeen
            ((blocks ++ again).map (List.map qTradesMv)) parts' →
          Collapsed ServedTrade.key ServedTrade.firstSeen parts'.flatten final' →
            ohlcvLive tf final' k = ohlcvLive tf final k := by
  have hlive := ohlcvLive_of_reached hids hsame hearliest hblocks hparts hfinal tf k srcSnapshotId
    runTs
  refine ⟨hlive, fun again hagain parts' final' hparts' hfinal' => ?_⟩
  have hblocks' : ∀ d, d ∈ (blocks ++ again).flatten ↔ d ∈ deliveries := by
    intro d
    rw [List.flatten_append, List.mem_append, hblocks]
    exact ⟨fun h => h.elim id (hagain d), Or.inl⟩
  rw [hlive, ohlcvLive_of_reached hids hsame hearliest hblocks' hparts' hfinal' tf k srcSnapshotId
    runTs]

/-! ## A trade that comes twice -/

def krakenTrade (tradeId : String) (price recvTsNs : Int)
    (hrecv : 0 ≤ recvTsNs ∧ recvTsNs < 2 ^ 63) : Delivery where
  exchange := .kraken
  symbol := "BTC/USD"
  canonicalSymbol := "BTC/USD"
  tradeId := tradeId
  price := price
  qty := 100000000
  side := "buy"
  exchangeTs := 1000000
  recvTsNs := recvTsNs
  seq := 0
  connId := "kraken-trades-1"
  connMsgSeq := 1
  srcTopic := "market.crypto.v3.trades.kraken"
  srcPartition := 0
  srcOffset := 0
  recv_range := hrecv

def ofTrade7 : Delivery := krakenTrade "7" 6000000000000 1000000500 (by decide)

def ofTrade7Again : Delivery := krakenTrade "7" 6000000000000 1000000700 (by decide)

def ofTrade8 : Delivery := krakenTrade "8" 6000100000000 1000000600 (by decide)

/-- The later delivery of a trade is inserted first, with another trade; the blocks are merged. -/
theorem redelivered_candle :
    let table := collapse ServedTrade.key ServedTrade.firstSeen
      [qTradesMv ofTrade7Again, qTradesMv ofTrade8, qTradesMv ofTrade7]
    ohlcvLive .m1 (collapse ServedTrade.key ServedTrade.firstSeen table)
        (ofTrade7.print.bucket .m1) =
      (candleOf .m1 ([ofTrade7, ofTrade8].map Delivery.print) 0 0
        (ofTrade7.print.bucket .m1)).map Candle.live := by
  have hids : ∀ d ∈ [ofTrade7, ofTrade7Again, ofTrade8], CanonicalId d.tradeId := by
    simp only [List.forall_mem_cons]
    exact ⟨⟨7, by decide, rfl⟩, ⟨7, by decide, rfl⟩, ⟨8, by decide, rfl⟩, fun _ h =>
      absurd h List.not_mem_nil⟩
  have hsame : SameTrade [ofTrade7, ofTrade7Again, ofTrade8] := by
    unfold SameTrade
    decide
  have hearliest : Earliest [ofTrade7, ofTrade7Again, ofTrade8] [ofTrade7, ofTrade8] :=
    ⟨by decide, by decide, by decide⟩
  have hblocks : ∀ d, d ∈ [[ofTrade7Again, ofTrade8], [ofTrade7]].flatten ↔
      d ∈ [ofTrade7, ofTrade7Again, ofTrade8] := by
    intro d
    simp only [List.flatten_cons, List.flatten_nil, List.mem_append, List.mem_cons,
      List.not_mem_nil, or_false]
    tauto
  have hinserted : Reached ServedTrade.key ServedTrade.firstSeen
      ([[ofTrade7Again, ofTrade8], [ofTrade7]].map (List.map qTradesMv))
      [[qTradesMv ofTrade7Again, qTradesMv ofTrade8], [qTradesMv ofTrade7]] :=
    (Reached.start.insert [qTradesMv ofTrade7Again, qTradesMv ofTrade8]).insert
      [qTradesMv ofTrade7]
  have hmerged := hinserted.merge (List.Perm.of_eq (List.append_nil _).symm)
    (collapsed_collapse _)
  exact (live_candles_match hids hsame hearliest hblocks hmerged (collapsed_collapse _) .m1
    (ofTrade7.print.bucket .m1) 0 0).1

end K2.Lake

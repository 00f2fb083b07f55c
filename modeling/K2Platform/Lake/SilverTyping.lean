import K2Platform.Lake.BronzeDecode
import K2Platform.Lake.Cast
import K2Platform.Lake.CoinbaseExplode
import K2Platform.Lake.Instruments
import K2Platform.Lib.PartialMap

/-!
# Typing trades

Model of `silver.TRADES` and of `project` of `silver.py`: the trades of a bronze frame as rows, with
the columns that the three silver tables share.  Every column of a payload may be NULL, since bronze
keeps a frame that `from_json` could not read; a native symbol that the registry does not list
raises, and so does a NULL in a column that is NOT NULL when the row is written.

* `typedTrades` — what a run makes of one frame.
* `length_typedTrades` — a frame that is typed gives a row for each trade that `explode` has of it.
* `typedTrades_isSome_iff` — and it is typed exactly if every trade of it can be.
-/

set_option autoImplicit false

namespace K2.Lake.SilverTrades

open Bronze (BronzeRow)

/-! ## Casts -/

/-- What `UTF8String.toLong` trims. -/
def isBlankByte (c : Char) : Bool := c.toNat ≤ 32 || c.toNat = 127

/-- The digits before a point are the number; what comes after it only has to be digits. -/
def readLong (text : List Char) : Option Nat :=
  let whole := text.takeWhile Char.isDigit
  match text.dropWhile Char.isDigit with
  | [] => some (Nat.ofDigitChars 10 whole 0)
  | c :: fraction =>
    if c = '.' ∧ fraction.all Char.isDigit then some (Nat.ofDigitChars 10 whole 0) else none

/-- `CAST(text AS BIGINT)`; NULL where the text is no number, or the number is no BIGINT. -/
def castBigint (text : String) : Option Int :=
  let trimmed := ((text.toList.dropWhile isBlankByte).reverse.dropWhile isBlankByte).reverse
  let signed := readSign trimmed
  if signed.2 = [] then none
  else (readLong signed.2).bind fun n =>
    let value : Int := if signed.1 then -(n : Int) else n
    if I64.InRange value then some value else none

example : castBigint "1017853" = some 1017853 := by decide

/-- What Spark makes of a text as a TIMESTAMP, in microseconds, and in lower case. -/
structure SparkText where
  castTimestamp : String → Option Int
  lower : String → String

/-! ## Payloads -/

/-- `data` of `bronze.binance_trade`. -/
structure BinanceTradeData where
  s : Option String
  t : Option Int
  p : Option String
  q : Option String
  T : Option Int
  m : Option Bool
  deriving DecidableEq, Repr

/-- An element of `data` of `bronze.kraken_trade`; a DECIMAL(28,10) is in units of 1e-10. -/
structure KrakenTradeData where
  symbol : Option String
  side : Option String
  price : Option Int
  qty : Option Int
  tradeId : Option Int
  timestamp : Option String
  deriving DecidableEq, Repr

/-- `events` of `bronze.coinbase_market_trades`, which were read from one array of bytes. -/
structure MarketTradesData where
  events : Option (List (Option CoinbaseExplode.MarketEvent))
  fits : (CoinbaseExplode.arrays events).length +
    (FlatIndex.flatten (CoinbaseExplode.arrays events)).length < 2147483648

/-- The columns of the three tables, as they are read of what `from_json` gives. -/
structure TradeColumns (J : Type) where
  binance : J → Option BinanceTradeData
  kraken : J → Option (List (Option KrakenTradeData))
  coinbase : J → MarketTradesData

/-! ## Rows -/

/-- A row of the projection: the columns that the silver tables share, before they are written. -/
structure ProjectedTrade where
  symbol : Option String
  tradeId : Option String
  tradeSeq : Option Int
  price : Option Int
  qty : Option Int
  side : Option String
  sideNative : Option String
  exchangeTs : Option Int
  srcIndex : Int
  deriving DecidableEq, Repr

/-- `timestamp_millis`, which raises on overflow; a NULL is one of its own. -/
def timestampMillis (millis : Option Int) : Option (Option Int) :=
  match millis with
  | none => some none
  | some ms => if I64.InRange (ms * 1000) then some (some (ms * 1000)) else none

def binanceRow (data : Option BinanceTradeData) : Option ProjectedTrade :=
  (timestampMillis (data.bind BinanceTradeData.T)).map fun exchangeTs =>
    { symbol := data.bind BinanceTradeData.s
      tradeId := (data.bind BinanceTradeData.t).map toString
      tradeSeq := data.bind BinanceTradeData.t
      price := (data.bind BinanceTradeData.p).bind castDecimal
      qty := (data.bind BinanceTradeData.q).bind castDecimal
      -- `IF` takes its second branch on a NULL
      side := some (if data.bind BinanceTradeData.m = some true then "sell" else "buy")
      sideNative := (data.bind BinanceTradeData.m).map toString
      exchangeTs := exchangeTs
      srcIndex := 0 }

section Project

variable (spark : SparkText)

def krakenRow (d : Option KrakenTradeData) (srcIndex : Nat) : ProjectedTrade where
  symbol := d.bind KrakenTradeData.symbol
  tradeId := (d.bind KrakenTradeData.tradeId).map toString
  tradeSeq := d.bind KrakenTradeData.tradeId
  price := d.bind KrakenTradeData.price
  qty := d.bind KrakenTradeData.qty
  side := d.bind KrakenTradeData.side
  sideNative := d.bind KrakenTradeData.side
  exchangeTs := (d.bind KrakenTradeData.timestamp).bind spark.castTimestamp
  srcIndex := srcIndex

def coinbaseRow (r : CoinbaseExplode.ExplodedTrade) : ProjectedTrade where
  symbol := r.t.bind CoinbaseExplode.MarketTrade.productId
  tradeId := r.t.bind CoinbaseExplode.MarketTrade.tradeId
  tradeSeq := (r.t.bind CoinbaseExplode.MarketTrade.tradeId).bind castBigint
  price := (r.t.bind CoinbaseExplode.MarketTrade.price).bind castDecimal
  qty := (r.t.bind CoinbaseExplode.MarketTrade.size).bind castDecimal
  side := (r.t.bind CoinbaseExplode.MarketTrade.side).map spark.lower
  sideNative := r.t.bind CoinbaseExplode.MarketTrade.side
  exchangeTs := (r.t.bind CoinbaseExplode.MarketTrade.time).bind spark.castTimestamp
  srcIndex := r.srcIndex

variable {J : Type} (columns : TradeColumns J)

/-- The frame that `CoinbaseExplode` explodes. -/
def marketTradesFrame (row : BronzeRow J) : CoinbaseExplode.MarketTradesFrame where
  srcTopic := row.srcTopic
  srcPartition := row.srcPartition
  srcOffset := row.srcOffset
  events := (columns.coinbase row.j).events
  fits := (columns.coinbase row.j).fits

/-- The rows that `explode` has of a frame, projected; `none` where that raises. -/
def projectedRows (v : Exchange) (row : BronzeRow J) : Option (List ProjectedTrade) :=
  match v with
  | .binance => (binanceRow (columns.binance row.j)).map fun p => [p]
  | .kraken =>
    some (((columns.kraken row.j).getD []).zipIdx.map fun e => krakenRow spark e.1 e.2)
  | .coinbase =>
    some ((CoinbaseExplode.explode (marketTradesFrame columns row)).map (coinbaseRow spark))

/-- `SELECT count(*)` of what `explode` has of a frame. -/
def explodedCount (v : Exchange) (row : BronzeRow J) : Nat :=
  match v with
  | .binance => 1
  | .kraken => ((columns.kraken row.j).getD []).length
  | .coinbase => (CoinbaseExplode.explode (marketTradesFrame columns row)).length

/-- A row under its canonical symbol; `none` where it raises, or cannot be written. -/
def ProjectedTrade.typed (registry : Registry) (runTs : Int) (v : Exchange) (row : BronzeRow J)
    (p : ProjectedTrade) : Option TypedTrade := do
  let symbol ← p.symbol
  let canonicalSymbol ← (registry.canonical v.name symbol).toOption
  let tradeId ← p.tradeId
  let tradeSeq ← p.tradeSeq
  let price ← p.price
  let qty ← p.qty
  let side ← p.side
  let _ ← p.sideNative
  let exchangeTs ← p.exchangeTs
  return {
    symbol := symbol
    canonicalSymbol := canonicalSymbol
    tradeId := tradeId
    tradeSeq := tradeSeq
    price := price
    qty := qty
    side := side
    exchangeTs := exchangeTs
    recvTsNs := row.recvTsNs
    connId := row.connId
    connMsgSeq := row.connMsgSeq
    srcTopic := row.srcTopic
    srcPartition := row.srcPartition
    srcOffset := row.srcOffset
    srcIndex := p.srcIndex
    ingestTs := runTs }

/-- What a run makes of one frame. -/
def typedTrades (v : Exchange) (answer : Registry × Int) :
    Making (BronzeRow J) TypedTrade :=
  fun row => (projectedRows spark columns v row).bind fun rows =>
    rows.mapM (ProjectedTrade.typed answer.1 answer.2 v row)

end Project

/-! ## What becomes of a frame -/

section Frame

variable {spark : SparkText} {J : Type} {columns : TradeColumns J} {v : Exchange}
  {answer : Registry × Int} {row : BronzeRow J}

theorem length_projectedRows {rows : List ProjectedTrade}
    (h : projectedRows spark columns v row = some rows) :
    rows.length = explodedCount columns v row := by
  cases v with
  | binance =>
    obtain ⟨p, _, rfl⟩ := Option.map_eq_some_iff.1 h
    rfl
  | kraken =>
    cases h
    rw [List.length_map, List.length_zipIdx]
    rfl
  | coinbase =>
    cases h
    rw [List.length_map]
    rfl

/-- **A frame that is typed gives a row for each of its trades.** -/
theorem length_typedTrades {trades : List TypedTrade}
    (h : typedTrades spark columns v answer row = some trades) :
    trades.length = explodedCount columns v row := by
  obtain ⟨rows, hrows, htrades⟩ := Option.bind_eq_some_iff.1 h
  rw [PartialMap.length_of_mapM htrades, length_projectedRows hrows]

/-- A frame is typed exactly if every row of it can be written. -/
theorem typedTrades_isSome_iff :
    (typedTrades spark columns v answer row).isSome ↔
      ∃ rows, projectedRows spark columns v row = some rows ∧
        ∀ p ∈ rows, (ProjectedTrade.typed answer.1 answer.2 v row p).isSome := by
  rw [typedTrades]
  cases hrows : projectedRows spark columns v row with
  | none => exact ⟨fun h => absurd h Bool.false_ne_true, fun ⟨_, h, _⟩ => by cases h⟩
  | some rows =>
    rw [Option.bind_some, PartialMap.isSome_mapM_iff]
    exact ⟨fun h => ⟨rows, rfl, h⟩, fun ⟨_, heq, h⟩ => by cases heq; exact h⟩

/-- What a row is typed to: the columns of its own, and those of its frame. -/
structure TypedFrom (row : BronzeRow J) (runTs : Int) (p : ProjectedTrade) (d : TypedTrade) :
    Prop where
  symbol : p.symbol = some d.symbol
  lineage : (d.srcTopic, d.srcPartition, d.srcOffset) =
    (row.srcTopic, (row.srcPartition : Int), row.srcOffset)
  index : d.srcIndex = p.srcIndex
  received : (d.recvTsNs, d.connId, d.connMsgSeq) = (row.recvTsNs, row.connId, row.connMsgSeq)
  run : d.ingestTs = runTs

theorem typedFrom_of_typed {p : ProjectedTrade} {d : TypedTrade}
    (h : ProjectedTrade.typed answer.1 answer.2 v row p = some d) :
    TypedFrom row answer.2 p d := by
  unfold ProjectedTrade.typed at h
  simp only [Option.bind_eq_bind, Option.bind_eq_some_iff] at h
  obtain ⟨symbol, hsymbol, canonicalSymbol, -, tradeId, -, tradeSeq, -, price, -, qty, -, side, -,
    sideNative, -, exchangeTs, -, hd⟩ := h
  cases hd
  exact ⟨hsymbol, rfl, rfl, rfl, rfl⟩

theorem mem_typedTrades {trades : List TypedTrade} {d : TypedTrade}
    (h : typedTrades spark columns v answer row = some trades) (hd : d ∈ trades) :
    ∃ rows, projectedRows spark columns v row = some rows ∧
      ∃ p ∈ rows, TypedFrom row answer.2 p d := by
  obtain ⟨rows, hrows, htrades⟩ := Option.bind_eq_some_iff.1 h
  obtain ⟨p, hp, hpd⟩ := PartialMap.mem_of_mapM htrades hd
  exact ⟨rows, hrows, p, hp, typedFrom_of_typed hpd⟩

/-- The trades of a frame have different indices, but for a Coinbase frame in which an event
    without `trades` comes before one that has some. -/
theorem nodup_srcIndex {trades : List TypedTrade}
    (h : typedTrades spark columns v answer row = some trades)
    (hcounted : v = .coinbase → (marketTradesFrame columns row).Counted) :
    (trades.map TypedTrade.srcIndex).Nodup := by
  obtain ⟨rows, hrows, htrades⟩ := Option.bind_eq_some_iff.1 h
  have hindex : trades.map TypedTrade.srcIndex = rows.map ProjectedTrade.srcIndex :=
    PartialMap.map_eq_of_mapM (fun p d hd => (typedFrom_of_typed hd).index) htrades
  rw [hindex]
  cases v with
  | binance =>
    obtain ⟨p, _, rfl⟩ := Option.map_eq_some_iff.1 hrows
    exact List.nodup_singleton _
  | kraken =>
    cases hrows
    have hnumbers : (((columns.kraken row.j).getD []).zipIdx.map fun e =>
        krakenRow spark e.1 e.2).map ProjectedTrade.srcIndex =
          (((columns.kraken row.j).getD []).zipIdx.map Prod.snd).map fun i : Nat => (i : Int) := by
      rw [List.map_map, List.map_map]
      rfl
    rw [hnumbers, List.zipIdx_map_snd, ← List.range_eq_range']
    exact List.nodup_range.map Nat.cast_injective
  | coinbase =>
    cases hrows
    have hnodup := CoinbaseExplode.nodup_identifiers
      ((CoinbaseExplode.inOrder_iff _).2 (hcounted rfl))
    have hindices : ((CoinbaseExplode.explode (marketTradesFrame columns row)).map
        (coinbaseRow spark)).map ProjectedTrade.srcIndex =
          (CoinbaseExplode.explode (marketTradesFrame columns row)).map
            CoinbaseExplode.ExplodedTrade.srcIndex := by
      rw [List.map_map]
      rfl
    rw [hindices]
    refine List.Nodup.map_on (fun r hr s hs heq => ?_) hnodup.of_map
    have hsame := (CoinbaseExplode.position_of_mem_explode hr).trans
      (CoinbaseExplode.position_of_mem_explode hs).symm
    refine List.inj_on_of_nodup_map hnodup hr hs ?_
    obtain ⟨htopic, hrest⟩ := Prod.mk.inj hsame
    obtain ⟨hpartition, hoffset⟩ := Prod.mk.inj hrest
    rw [CoinbaseExplode.ExplodedTrade.identifier, CoinbaseExplode.ExplodedTrade.identifier, htopic,
      hpartition, hoffset, heq]

/-! ## Frames that cannot be typed -/

/-- A trade of the frame that no registry types: its symbol is NULL, or one of the other columns
    that are NOT NULL. -/
def ProjectedTrade.Complete (p : ProjectedTrade) : Prop :=
  p.symbol.isSome ∧ p.tradeId.isSome ∧ p.tradeSeq.isSome ∧ p.price.isSome ∧ p.qty.isSome ∧
    p.side.isSome ∧ p.sideNative.isSome ∧ p.exchangeTs.isSome

theorem complete_of_typed {registry : Registry} {runTs : Int} {p : ProjectedTrade}
    (h : (ProjectedTrade.typed registry runTs v row p).isSome) : p.Complete := by
  obtain ⟨d, hd⟩ := Option.isSome_iff_exists.1 h
  unfold ProjectedTrade.typed at hd
  simp only [Option.bind_eq_bind, Option.bind_eq_some_iff] at hd
  obtain ⟨symbol, hsymbol, canonicalSymbol, -, tradeId, htradeId, tradeSeq, htradeSeq, price, hprice,
    qty, hqty, side, hside, sideNative, hsideNative, exchangeTs, hexchangeTs, -⟩ := hd
  simp only [ProjectedTrade.Complete, hsymbol, htradeId, htradeSeq, hprice, hqty, hside,
    hsideNative, hexchangeTs, Option.isSome_some, and_self]

theorem typed_isSome_iff {registry : Registry} {runTs : Int} {p : ProjectedTrade} :
    (ProjectedTrade.typed registry runTs v row p).isSome ↔ p.Complete ∧
      ∀ symbol ∈ p.symbol, ∃ canon, registry.canonical v.name symbol = .ok canon := by
  constructor
  · intro h
    refine ⟨complete_of_typed h, fun symbol hsymbol => ?_⟩
    obtain ⟨d, hd⟩ := Option.isSome_iff_exists.1 h
    unfold ProjectedTrade.typed at hd
    simp only [Option.bind_eq_bind, Option.bind_eq_some_iff] at hd
    obtain ⟨s, hs, canon, hcanon, -⟩ := hd
    cases hsymbol.symm.trans hs
    cases hlookup : registry.canonical v.name symbol with
    | ok c => exact ⟨c, rfl⟩
    | error e =>
      rw [hlookup] at hcanon
      cases hcanon
  · rintro ⟨⟨hsymbol, htradeId, htradeSeq, hprice, hqty, hside, hsideNative, hexchangeTs⟩, hlisted⟩
    obtain ⟨symbol, hsymbol⟩ := Option.isSome_iff_exists.1 hsymbol
    obtain ⟨tradeId, htradeId⟩ := Option.isSome_iff_exists.1 htradeId
    obtain ⟨tradeSeq, htradeSeq⟩ := Option.isSome_iff_exists.1 htradeSeq
    obtain ⟨price, hprice⟩ := Option.isSome_iff_exists.1 hprice
    obtain ⟨qty, hqty⟩ := Option.isSome_iff_exists.1 hqty
    obtain ⟨side, hside⟩ := Option.isSome_iff_exists.1 hside
    obtain ⟨sideNative, hsideNative⟩ := Option.isSome_iff_exists.1 hsideNative
    obtain ⟨exchangeTs, hexchangeTs⟩ := Option.isSome_iff_exists.1 hexchangeTs
    obtain ⟨canon, hcanon⟩ := hlisted symbol hsymbol
    unfold ProjectedTrade.typed
    rw [hsymbol, htradeId, htradeSeq, hprice, hqty, hside, hsideNative, hexchangeTs]
    simp only [Option.bind_eq_bind, Option.bind_some, hcanon]
    rfl

/-- Every trade of the frame is complete. -/
def Typable (spark : SparkText) (columns : TradeColumns J) (v : Exchange) (row : BronzeRow J) :
    Prop :=
  ∃ rows, projectedRows spark columns v row = some rows ∧ ∀ p ∈ rows, p.Complete

/-- A registry that lists these symbols under themselves. -/
def listing (v : Exchange) (symbols : List String) : Registry :=
  Dict.empty.insert v.name (Dict.ofItems (symbols.dedup.map fun s => (s, s)))

theorem canonical_listing {v : Exchange} {symbols : List String} {s : String} (h : s ∈ symbols) :
    (listing v symbols).canonical v.name s = .ok s := by
  have hfst : (symbols.dedup.map fun s => (s, s)).map Prod.fst = symbols.dedup := by
    rw [List.map_map]
    exact List.map_id' _
  have hget : (Dict.ofItems (symbols.dedup.map fun s => (s, s))).get? s = some s := by
    have hnodup : ((symbols.dedup.map fun s => (s, s)).map Prod.fst).Nodup := by
      rw [hfst]
      exact List.nodup_dedup _
    rw [Dict.get?_ofItems hnodup, Assoc.lookup_eq_some_iff_mem hnodup]
    exact List.mem_map_of_mem (List.mem_dedup.2 h)
  refine Registry.canonical_eq_ok_iff.2 ⟨_, ?_, hget⟩
  rw [listing, Dict.get?_insert, if_pos rfl]

/-- **Some registry types a frame** exactly if its trades are complete. -/
theorem typable_iff :
    Typable spark columns v row ↔ ∃ answer, (typedTrades spark columns v answer row).isSome := by
  constructor
  · rintro ⟨rows, hrows, hcomplete⟩
    refine ⟨(listing v (rows.filterMap ProjectedTrade.symbol), 0), ?_⟩
    refine typedTrades_isSome_iff.2 ⟨rows, hrows, fun p hp => typed_isSome_iff.2 ?_⟩
    exact ⟨hcomplete p hp, fun symbol hsymbol =>
      ⟨symbol, canonical_listing (List.mem_filterMap.2 ⟨p, hp, hsymbol⟩)⟩⟩
  · rintro ⟨answer, hsome⟩
    obtain ⟨rows, hrows, htyped⟩ := typedTrades_isSome_iff.1 hsome
    exact ⟨rows, hrows, fun p hp => complete_of_typed (htyped p hp)⟩

end Frame

end K2.Lake.SilverTrades

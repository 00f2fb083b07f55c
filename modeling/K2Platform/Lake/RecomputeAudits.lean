import Mathlib.Data.String.Basic
import K2Platform.Lake.Bars
import K2Platform.Lake.Replay
import K2Platform.Lib.RowDiff
import K2Platform.Lib.SortOn

/-!
# The audits that recompute candles and bars

Model of `audit_ohlcv` and `audit_bars_parity` of `maintenance.py`, with `bars_mismatches` of
`bars.py`.  The candles of a day are joined to recomputed ones, on prices and trade count; its bars
are put in a dictionary of each side, and compared there on every column that `COMPARE_COLUMNS`
names.

* `ohlcv_passes_iff`, `bars_passes_iff` — when the audits pass.
* `recompute_audits_exact_iff` — when that is what they should say.
-/

set_option autoImplicit false

namespace K2.Lake

open RowDiff

/-- A row of `_result`. -/
structure CheckResult where
  check : String
  scope : String
  passed : Bool
  observed : Int
  detail : String
  deriving DecidableEq, Repr

/-- The trades of the audited day. -/
def tradesOn (day : Int) (trades : List Print) : List Print :=
  trades.filter fun p => toDate p.exchangeTs = day

/-! ## `audit_ohlcv` -/

/-- A row of `fresh`. -/
structure FreshCandle where
  bucket : Bucket
  openE8 : Int
  highE8 : Int
  lowE8 : Int
  closeE8 : Int
  tradeCount : Nat
  deriving DecidableEq, Repr

def freshCandle (k : Bucket) (trades : List Print) : Option FreshCandle :=
  match trades with
  | [] => none
  | p :: ps => some {
      bucket := k
      openE8 := (firstPrint p ps).priceE8
      highE8 := ps.foldl (fun m q => max m q.priceE8) p.priceE8
      lowE8 := ps.foldl (fun m q => min m q.priceE8) p.priceE8
      closeE8 := (lastPrint p ps).priceE8
      tradeCount := (p :: ps).length }

def freshCandles (day : Int) (trades : List Print) : List FreshCandle :=
  ((tradesOn day trades).map (Print.bucket .m1)).dedup.filterMap fun k =>
    freshCandle k ((tradesOn day trades).filter fun p => p.bucket .m1 = k)

/-- A row of `gold.ohlcv_1m`. -/
abbrev CandleRow := Bucket × Candle

def storedCandles (day : Int) (table : List CandleRow) : List CandleRow :=
  table.filter fun s => toDate s.1.windowStart = day

/-- The `WHERE` of the join. -/
def candleMismatch : Option FreshCandle × Option CandleRow → Bool
  | (some f, some s) =>
    f.openE8 ≠ s.2.openE8 ∨ f.highE8 ≠ s.2.highE8 ∨ f.lowE8 ≠ s.2.lowE8 ∨
      f.closeE8 ≠ s.2.closeE8 ∨ f.tradeCount ≠ s.2.tradeCount
  | _ => true

def auditOhlcv (day : Int) (trades : List Print) (table : List CandleRow) : CheckResult :=
  let fresh := freshCandles day trades
  let stored := storedCandles day table
  let bad := (fullOuterJoin FreshCandle.bucket Prod.fst fresh stored).countP candleMismatch
  { check := "ohlcv_parity"
    scope := "lake.gold.ohlcv_1m"
    passed := bad = 0
    observed := bad
    detail :=
      if bad = 0 then
        s!"{stored.length} stored 1m candles == {fresh.length} recomputed for yesterday"
      else
        s!"{bad} candle(s) differ between stored and recomputed for yesterday " ++
          s!"({stored.length} stored, {fresh.length} fresh)" }

/-! ## `audit_bars_parity` -/

def BarKind.name : BarKind → String
  | .tick => "tick"
  | .volume => "volume"
  | .dollar => "dollar"

/-- `KEY_COLUMNS`. -/
structure BarKey where
  exchange : Exchange
  canonicalSymbol : String
  barKind : BarKind
  barSeq : Option Int
  deriving DecidableEq, Repr

def Bar.key (b : Bar) : BarKey := ⟨b.exchange, b.canonicalSymbol, b.barKind, b.barSeq⟩

/-- `COMPARE_COLUMNS`. -/
structure BarColumns where
  openE8 : Int
  highE8 : Int
  lowE8 : Int
  closeE8 : Int
  volumeE8 : Int
  quoteVolumeE8 : Option Int
  tradeCount : Nat
  deriving DecidableEq, Repr

def Bar.columns (b : Bar) : BarColumns :=
  ⟨b.openE8, b.highE8, b.lowE8, b.closeE8, b.volumeE8, b.quoteVolumeE8, b.tradeCount⟩

/-- `<` on tuples raises where it comes to a `None` and a number. -/
def BarKey.Unordered (k k' : BarKey) : Prop :=
  k.exchange = k'.exchange ∧ k.canonicalSymbol = k'.canonicalSymbol ∧ k.barKind = k'.barKind ∧
    k.barSeq.isSome ≠ k'.barSeq.isSome

instance (k k' : BarKey) : Decidable (k.Unordered k') :=
  inferInstanceAs (Decidable (_ ∧ _ ∧ _ ∧ _))

def BarKey.order (k : BarKey) : String ×ₗ String ×ₗ String ×ₗ Int :=
  toLex (k.exchange.name, toLex (k.canonicalSymbol, toLex (k.barKind.name, k.barSeq.getD 0)))

/-- `sorted`; `none` for a `TypeError`. -/
def sortedKeys (keys : List BarKey) : Option (List BarKey) :=
  if ∃ k ∈ keys, ∃ k' ∈ keys, k.Unordered k' then none else some (sortOn BarKey.order keys)

def keyed (rows : List Bar) : Dict BarKey Bar := Dict.ofItems (rows.map fun b => (b.key, b))

def badKeys (fresh stored : Dict BarKey Bar) : List BarKey :=
  (fresh.keys ++ stored.keys).dedup.filter fun k =>
    match fresh.get? k, stored.get? k with
    | some f, some s => decide (f.columns ≠ s.columns)
    | _, _ => true

def barsMismatches (freshRows storedRows : List Bar) : Option (Nat × List BarKey) :=
  (sortedKeys (badKeys (keyed freshRows) (keyed storedRows))).map fun bad =>
    (bad.length, bad.take 5)

/-- `repr` of a tuple; a symbol has nothing to escape. -/
def BarKey.repr (k : BarKey) : String :=
  s!"('{k.exchange.name}', '{k.canonicalSymbol}', '{k.barKind.name}', " ++
    k.barSeq.elim "None" toString ++ ")"

section Bars

variable (thresholds : List Threshold) (day : Int)

/-- `bars_sql` over the trades of the day; the columns that `_bars` adds are left at 0. -/
def freshBars (trades : List Print) : List Bar :=
  bars 0 0 thresholds ((tradesOn day trades).map Print.symbolDay).dedup (tradesOn day trades)

def storedBars (table : List Bar) : List Bar := table.filter fun b => b.day = day

/-- `none` when the comparison raises. -/
def auditBarsParity (trades : List Print) (table : List Bar) : Option CheckResult :=
  let fresh := freshBars thresholds day trades
  let stored := storedBars day table
  (barsMismatches fresh stored).map fun (bad, first) =>
    { check := "bars_parity"
      scope := "lake.gold.bars"
      passed := bad = 0
      observed := bad
      detail :=
        if bad = 0 then
          s!"{stored.length} stored bars == {fresh.length} recomputed for yesterday"
        else
          s!"{bad} bar(s) differ between stored and recomputed for yesterday " ++
            s!"({stored.length} stored, {fresh.length} fresh); first keys " ++
            "(exchange, canonical_symbol, bar_kind, bar_seq): [" ++
            String.intercalate ", " (first.map BarKey.repr) ++ "]" }

/-! ## When the audits pass -/

/-- The columns of a candle that are numbers. -/
def Candle.numbers (c : Candle) : Candle :=
  { c with openTime := 0, closeTime := 0, srcSnapshotId := 0, computedAt := 0 }

/-- Those of them that the join compares. -/
def Candle.joined (c : Candle) : Candle := { c.numbers with volume := none, quoteVolume := none }

/-- What `candles` makes of the buckets of the day. -/
def recomputedCandles (trades : List Print) : List CandleRow :=
  (candles .m1 ((tradesOn day trades).map (Print.bucket .m1)).dedup trades 0 0).entries

/-- A difference that the join sees: a key that one side lacks, or a column that it compares. -/
def CandlesDiffer (recomputed stored : List CandleRow) : Prop :=
  (∃ k, ¬ (k ∈ recomputed.map Prod.fst ↔ k ∈ stored.map Prod.fst)) ∨
    ∃ r ∈ recomputed, ∃ s ∈ stored, r.1 = s.1 ∧ r.2.joined ≠ s.2.joined

theorem windowStart_day (p : Print) : toDate (p.bucket .m1).windowStart = toDate p.exchangeTs := by
  simp only [Print.bucket, windowStart, Timeframe.seconds, toDate]
  omega

variable {day}

/-- The day's trades hold the whole of each of its buckets. -/
theorem filter_tradesOn {trades : List Print} {k : Bucket}
    (hk : k ∈ (tradesOn day trades).map (Print.bucket .m1)) :
    (tradesOn day trades).filter (fun p => p.bucket .m1 = k) =
      trades.filter fun p => p.bucket .m1 = k := by
  obtain ⟨q, hq, rfl⟩ := List.mem_map.1 hk
  have hday : toDate q.exchangeTs = day := of_decide_eq_true (List.mem_filter.1 hq).2
  rw [tradesOn, List.filter_filter]
  refine List.filter_congr fun p _ => ?_
  by_cases hbucket : p.bucket .m1 = q.bucket .m1
  · have hp : toDate p.exchangeTs = day := by
      rw [← windowStart_day, hbucket, windowStart_day, hday]
    simp [hbucket, hp]
  · simp [hbucket]

def freshOf (r : CandleRow) : FreshCandle :=
  ⟨r.1, r.2.openE8, r.2.highE8, r.2.lowE8, r.2.closeE8, r.2.tradeCount⟩

theorem freshCandle_eq (k : Bucket) (trades : List Print) :
    freshCandle k trades = (candle trades 0 0).map fun c => freshOf (k, c) := by
  cases trades <;> rfl

theorem mem_recomputedCandles {trades : List Print} {k : Bucket} {c : Candle} :
    (k, c) ∈ recomputedCandles day trades ↔
      k ∈ (tradesOn day trades).map (Print.bucket .m1) ∧ candleOf .m1 trades 0 0 k = some c := by
  rw [recomputedCandles, ← Dict.get?_eq_some_iff, get?_candles]
  simp only [List.mem_dedup]
  split
  · rename_i hk
    exact ⟨fun h => ⟨hk, h⟩, And.right⟩
  · rename_i hk
    exact ⟨fun h => absurd h (by simp), fun h => absurd h.1 hk⟩

theorem mem_freshCandles {trades : List Print} {f : FreshCandle} :
    f ∈ freshCandles day trades ↔ ∃ r ∈ recomputedCandles day trades, freshOf r = f := by
  unfold freshCandles
  rw [List.mem_filterMap]
  constructor
  · rintro ⟨k, hk, h⟩
    have hk' := List.mem_dedup.1 hk
    rw [filter_tradesOn hk', freshCandle_eq] at h
    obtain ⟨c, hc, rfl⟩ := Option.map_eq_some_iff.1 h
    exact ⟨(k, c), mem_recomputedCandles.2 ⟨hk', hc⟩, rfl⟩
  · rintro ⟨⟨k, c⟩, hr, rfl⟩
    obtain ⟨hk, hc⟩ := mem_recomputedCandles.1 hr
    refine ⟨k, List.mem_dedup.2 hk, ?_⟩
    rw [filter_tradesOn hk, freshCandle_eq]
    exact Option.map_eq_some_iff.2 ⟨c, hc, rfl⟩

theorem candleMismatch_eq_false_iff (r s : CandleRow) :
    candleMismatch (some (freshOf r), some s) = false ↔ r.2.joined = s.2.joined := by
  rw [candleMismatch, decide_eq_false_iff_not]
  simp [freshOf, Candle.joined, Candle.numbers]

theorem ohlcv_passes_iff (trades : List Print) (table : List CandleRow) :
    (auditOhlcv day trades table).passed = true ↔
      ¬ CandlesDiffer (recomputedCandles day trades) (storedCandles day table) := by
  have hkeys : ∀ k, k ∈ (freshCandles day trades).map FreshCandle.bucket ↔
      k ∈ (recomputedCandles day trades).map Prod.fst := by
    intro k
    simp only [List.mem_map, mem_freshCandles]
    constructor
    · rintro ⟨_, ⟨r, hr, rfl⟩, rfl⟩
      exact ⟨r, hr, rfl⟩
    · rintro ⟨r, hr, rfl⟩
      exact ⟨_, ⟨r, hr, rfl⟩, rfl⟩
  have hpassed : (auditOhlcv day trades table).passed = true ↔
      ∀ p ∈ fullOuterJoin FreshCandle.bucket Prod.fst (freshCandles day trades)
        (storedCandles day table), candleMismatch p = false := by
    rw [auditOhlcv, decide_eq_true_iff, List.countP_eq_zero]
    simp only [Bool.not_eq_true]
  rw [hpassed, forall_mem_fullOuterJoin, CandlesDiffer, not_or]
  constructor
  · rintro ⟨hfresh, hboth, hstored⟩
    refine ⟨fun ⟨k, hk⟩ => hk ⟨fun hr => ?_, fun hs => ?_⟩, ?_⟩
    · by_contra hs
      obtain ⟨r, hmem, rfl⟩ := List.mem_map.1 hr
      exact absurd (hfresh _ (mem_freshCandles.2 ⟨r, hmem, rfl⟩) hs) (by simp [candleMismatch])
    · by_contra hr
      obtain ⟨s, hmem, rfl⟩ := List.mem_map.1 hs
      exact absurd (hstored s hmem (mt (hkeys _).1 hr)) (by simp [candleMismatch])
    · rintro ⟨r, hr, s, hs, hkey, hne⟩
      refine hne ((candleMismatch_eq_false_iff r s).1 ?_)
      exact hboth _ (mem_freshCandles.2 ⟨r, hr, rfl⟩) s hs hkey
  · rintro ⟨hsides, hcolumns⟩
    have hsame : ∀ k, k ∈ (recomputedCandles day trades).map Prod.fst ↔
        k ∈ (storedCandles day table).map Prod.fst := fun k => by
      by_contra hk
      exact hsides ⟨k, hk⟩
    refine ⟨fun f hf hs => absurd ((hsame _).1 ((hkeys _).1 (List.mem_map_of_mem hf))) hs, ?_,
      fun s hs hf => absurd ((hkeys _).2 ((hsame _).2 (List.mem_map_of_mem hs))) hf⟩
    intro f hf s hs hkey
    obtain ⟨r, hr, rfl⟩ := mem_freshCandles.1 hf
    refine (candleMismatch_eq_false_iff r s).2 ?_
    by_contra hne
    exact hcolumns ⟨r, hr, s, hs, hkey, hne⟩

/-- The stored candles are the recomputed ones, on their key and what is a number. -/
def SameCandles (recomputed stored : List CandleRow) : Prop :=
  (recomputed.map fun r => (r.1, r.2.numbers)).Perm (stored.map fun s => (s.1, s.2.numbers))

theorem sameCandles_iff {recomputed stored : List CandleRow}
    (hkeys : (recomputed.map Prod.fst).Nodup) :
    SameCandles recomputed stored ↔
      ¬ CandlesDiffer recomputed stored ∧ (stored.map Prod.fst).Nodup ∧
        ∀ r ∈ recomputed, ∀ s ∈ stored, r.1 = s.1 →
          r.2.volume = s.2.volume ∧ r.2.quoteVolume = s.2.quoteVolume := by
  have hnodup : ((recomputed.map fun r => (r.1, r.2.numbers)).map Prod.fst).Nodup := by
    rw [List.map_map]
    exact hkeys
  have hnumbers : ∀ c d : Candle, c.numbers = d.numbers ↔
      c.joined = d.joined ∧ c.volume = d.volume ∧ c.quoteVolume = d.quoteVolume := by
    intro c d
    simp only [Candle.joined, Candle.numbers, Candle.mk.injEq]
    tauto
  rw [SameCandles, perm_iff_of_nodup hnodup]
  simp only [List.map_map, List.forall_mem_map, Prod.mk.injEq, hnumbers, CandlesDiffer, not_or,
    not_exists, not_not, Function.comp_def, not_and, ne_eq]
  constructor
  · rintro ⟨hnodup, hsides, hrows⟩
    exact ⟨⟨hsides, fun r hr s hs hkey => (hrows r hr s hs hkey).2.1⟩, hnodup,
      fun r hr s hs hkey => (hrows r hr s hs hkey).2.2⟩
  · rintro ⟨⟨hsides, hjoined⟩, hnodup, hvolumes⟩
    exact ⟨hnodup, hsides, fun r hr s hs hkey =>
      ⟨hkey, hjoined r hr s hs hkey, hvolumes r hr s hs hkey⟩⟩

/-- A bar but for its threshold, its times and where it was computed. -/
def Bar.numbers (b : Bar) : Bar :=
  { b with threshold := 0, openTime := 0, closeTime := 0, srcSnapshotId := 0, computedAt := 0 }

/-- A key whose last row is not the same on both sides. -/
def BarsDiffer (fresh stored : List Bar) : Prop :=
  ∃ k, lastOf Bar.key (fresh.map Bar.numbers) k ≠ lastOf Bar.key (stored.map Bar.numbers) k

theorem get?_keyed (rows : List Bar) (k : BarKey) : (keyed rows).get? k = lastOf Bar.key rows k :=
  get?_ofItems_eq_lastOf k

theorem numbers_eq_iff {b c : Bar} (hkey : b.key = c.key) (hday : b.day = c.day) :
    b.numbers = c.numbers ↔ b.columns = c.columns := by
  simp only [Bar.key, BarKey.mk.injEq] at hkey
  simp only [Bar.numbers, Bar.columns, Bar.mk.injEq, BarColumns.mk.injEq]
  tauto

theorem badKeys_eq_nil_iff {fresh stored : List Bar}
    (hday : ∀ f ∈ fresh, ∀ s ∈ stored, f.day = s.day) :
    badKeys (keyed fresh) (keyed stored) = [] ↔ ¬ BarsDiffer fresh stored := by
  have hlast : ∀ rows k, lastOf Bar.key (rows.map Bar.numbers) k =
      ((keyed rows).get? k).map Bar.numbers := fun rows k => by
    rw [get?_keyed]
    exact lastOf_map (f := Bar.numbers) (fun b => show b.numbers.key = b.key from rfl) k
  have hdays : ∀ {k f s}, (keyed fresh).get? k = some f → (keyed stored).get? k = some s →
      (f.numbers = s.numbers ↔ f.columns = s.columns) := by
    intro k f s hf hs
    rw [get?_keyed] at hf hs
    obtain ⟨hfmem, hfkey⟩ := mem_of_lastOf hf
    obtain ⟨hsmem, hskey⟩ := mem_of_lastOf hs
    exact numbers_eq_iff (hfkey.trans hskey.symm) (hday f hfmem s hsmem)
  unfold badKeys BarsDiffer
  rw [List.filter_eq_nil_iff]
  simp only [List.mem_dedup, List.mem_append, hlast, not_exists, ne_eq, not_not]
  refine forall_congr' fun k => ?_
  have hmem : ∀ rows, k ∈ (keyed rows).keys ↔ (keyed rows).get? k ≠ none := fun rows => by
    rw [Dict.mem_keys_iff, Option.ne_none_iff_exists']
  rw [hmem, hmem]
  cases hf : (keyed fresh).get? k with
  | none =>
    cases hs : (keyed stored).get? k with
    | none => simp
    | some s => simp
  | some f =>
    cases hs : (keyed stored).get? k with
    | none => simp
    | some s => simp [hdays hf hs]

variable {thresholds}

theorem day_of_mem_freshBars {trades : List Print} {b : Bar}
    (h : b ∈ freshBars thresholds day trades) : b.day = day := by
  obtain ⟨k, hk, hb⟩ := List.mem_flatMap.1 h
  obtain ⟨p, hp, rfl⟩ := List.mem_map.1 (List.mem_dedup.1 hk)
  have hp' : toDate p.exchangeTs = day := of_decide_eq_true (List.mem_filter.1 hp).2
  exact (congrArg SymbolDay.day (symbolDay_of_mem_dayBars hb)).trans hp'

theorem day_of_mem_storedBars {table : List Bar} {b : Bar} (h : b ∈ storedBars day table) :
    b.day = day :=
  of_decide_eq_true (List.mem_filter.1 h).2

def Passed (result : Option CheckResult) : Prop := result.map CheckResult.passed = some true

instance (result : Option CheckResult) : Decidable (Passed result) :=
  inferInstanceAs (Decidable (_ = _))

theorem bars_passes_iff (trades : List Print) (table : List Bar) :
    Passed (auditBarsParity thresholds day trades table) ↔
      ¬ BarsDiffer (freshBars thresholds day trades) (storedBars day table) := by
  rw [← badKeys_eq_nil_iff fun f hf s hs =>
    (day_of_mem_freshBars hf).trans (day_of_mem_storedBars hs).symm]
  simp only [Passed, auditBarsParity, barsMismatches, sortedKeys]
  split
  · rename_i hraises
    obtain ⟨k, hk, _⟩ := hraises
    refine iff_of_false (by simp) fun hnil => ?_
    rw [hnil] at hk
    cases hk
  · have hlength : ∀ keys : List BarKey, sortOn BarKey.order keys = [] ↔ keys = [] := fun keys => by
      rw [← List.length_eq_zero_iff, (sortOn_perm BarKey.order keys).length_eq,
        List.length_eq_zero_iff]
    simp [hlength]

/-- The stored bars are the recomputed ones, on their key and what is a number. -/
def SameBars (fresh stored : List Bar) : Prop :=
  (fresh.map Bar.numbers).Perm (stored.map Bar.numbers)

theorem sameBars_iff {fresh stored : List Bar} (h : ¬ BarsDiffer fresh stored) :
    SameBars fresh stored ↔ ∀ k, (hidden Bar.key (fresh.map Bar.numbers) k).Perm
      (hidden Bar.key (stored.map Bar.numbers) k) :=
  perm_iff_hidden fun k => by
    by_contra hk
    exact h ⟨k, hk⟩

theorem keys_numbers (rows : List Bar) :
    (rows.map Bar.numbers).map Bar.key = rows.map Bar.key := by
  rw [List.map_map]
  rfl

/-- Where no two recomputed bars have one key, a difference that shows is one. -/
theorem not_barsDiffer {fresh stored : List Bar} (hkeys : (fresh.map Bar.key).Nodup)
    (h : SameBars fresh stored) : ¬ BarsDiffer fresh stored := by
  rintro ⟨k, hk⟩
  exact hk (lastOf_eq_of_perm (by rwa [keys_numbers]) h k)

theorem sameBars_iff_nodup {fresh stored : List Bar} (hkeys : (fresh.map Bar.key).Nodup)
    (h : ¬ BarsDiffer fresh stored) : SameBars fresh stored ↔ (stored.map Bar.key).Nodup := by
  rw [← keys_numbers] at hkeys ⊢
  rw [sameBars_iff h, ← hidden_eq_nil_iff]
  refine forall_congr' fun k => ?_
  rw [hidden_eq_nil_iff.2 hkeys k, List.nil_perm]

end Bars

/-! ## When that is what they should say -/

/-- A difference shows, or each stored candle is the only one of its key and has the volumes of the
    recomputed one. -/
def CandlesTold (recomputed stored : List CandleRow) : Prop :=
  CandlesDiffer recomputed stored ∨
    (stored.map Prod.fst).Nodup ∧ ∀ r ∈ recomputed, ∀ s ∈ stored, r.1 = s.1 →
      r.2.volume = s.2.volume ∧ r.2.quoteVolume = s.2.quoteVolume

/-- A difference shows, or each stored bar is the only one of its key.  Where recomputed bars have
    one key, their numbers being the same as an INT, the rows that the dictionaries keep and the
    rows of the keys agree or differ together. -/
def BarsTold (fresh stored : List Bar) : Prop :=
  ((fresh.map Bar.key).Nodup → BarsDiffer fresh stored ∨ (stored.map Bar.key).Nodup) ∧
  (¬ (fresh.map Bar.key).Nodup →
    (BarsDiffer fresh stored ∧ ∃ k, ¬ (rowsOf Bar.key (fresh.map Bar.numbers) k).Perm
      (rowsOf Bar.key (stored.map Bar.numbers) k)) ∨
    (¬ BarsDiffer fresh stored ∧ ∀ k, (hidden Bar.key (fresh.map Bar.numbers) k).Perm
      (hidden Bar.key (stored.map Bar.numbers) k)))

theorem candlesTold_iff {recomputed stored : List CandleRow}
    (hkeys : (recomputed.map Prod.fst).Nodup) :
    (¬ CandlesDiffer recomputed stored ↔ SameCandles recomputed stored) ↔
      CandlesTold recomputed stored := by
  rw [sameCandles_iff hkeys, CandlesTold]
  tauto

theorem barsTold_iff (fresh stored : List Bar) :
    (¬ BarsDiffer fresh stored ↔ SameBars fresh stored) ↔ BarsTold fresh stored := by
  unfold BarsTold
  by_cases hkeys : (fresh.map Bar.key).Nodup
  · by_cases hdiffer : BarsDiffer fresh stored
    · have hsame : ¬ SameBars fresh stored := fun h => not_barsDiffer hkeys h hdiffer
      tauto
    · rw [sameBars_iff_nodup hkeys hdiffer]
      tauto
  · by_cases hdiffer : BarsDiffer fresh stored
    · have hsame : SameBars fresh stored ↔ ∀ k, (rowsOf Bar.key (fresh.map Bar.numbers) k).Perm
          (rowsOf Bar.key (stored.map Bar.numbers) k) := perm_iff_rowsOf _
      rw [hsame, ← not_forall]
      tauto
    · rw [sameBars_iff hdiffer]
      tauto

/-- **The audits detect every difference exactly where none hides behind a column or a row that
    they do not compare.** -/
theorem recompute_audits_exact_iff (thresholds : List Threshold) (day : Int) (trades : List Print)
    (candleTable : List CandleRow) (barTable : List Bar) :
    (((auditOhlcv day trades candleTable).passed = true ↔
        SameCandles (recomputedCandles day trades) (storedCandles day candleTable)) ↔
      CandlesTold (recomputedCandles day trades) (storedCandles day candleTable)) ∧
    ((Passed (auditBarsParity thresholds day trades barTable) ↔
        SameBars (freshBars thresholds day trades) (storedBars day barTable)) ↔
      BarsTold (freshBars thresholds day trades) (storedBars day barTable)) := by
  rw [ohlcv_passes_iff, bars_passes_iff]
  exact ⟨candlesTold_iff (Dict.nodup _), barsTold_iff _ _⟩

/-! ## What hides -/

def oneTrade : Print := ⟨.kraken, "BTC/USD", 0, 0, 0, 6000000000000, 100000000⟩

def everyTrade : Threshold := ⟨"BTC/USD", .tick, 10000000000, 1, Int.one_pos⟩

/-- The candle of the trade, but for its volume. -/
def withoutVolume : Candle where
  openE8 := 6000000000000
  highE8 := 6000000000000
  lowE8 := 6000000000000
  closeE8 := 6000000000000
  volume := some 0
  quoteVolume := some (6 * 10 ^ 14)
  tradeCount := 1
  openTime := 0
  closeTime := 0
  srcSnapshotId := 1
  computedAt := 0

/-- The bar of the trade. -/
def itsBar : Bar where
  exchange := .kraken
  canonicalSymbol := "BTC/USD"
  barKind := .tick
  threshold := 10 ^ 10
  day := 0
  barSeq := some 0
  openE8 := 6000000000000
  highE8 := 6000000000000
  lowE8 := 6000000000000
  closeE8 := 6000000000000
  volumeE8 := 100000000
  quoteVolumeE8 := some 6000000000000
  tradeCount := 1
  openTime := 0
  closeTime := 0
  srcSnapshotId := 1
  computedAt := 0

/-- A candle whose volume is wrong passes, and so does a bar that is stored twice. -/
theorem hidden_differences_pass :
    ((auditOhlcv 0 [oneTrade] [(oneTrade.minute, withoutVolume)]).passed = true ∧
      ¬ SameCandles (recomputedCandles 0 [oneTrade])
        (storedCandles 0 [(oneTrade.minute, withoutVolume)])) ∧
    (Passed (auditBarsParity [everyTrade] 0 [oneTrade] [itsBar, itsBar]) ∧
      ¬ SameBars (freshBars [everyTrade] 0 [oneTrade]) (storedBars 0 [itsBar, itsBar])) := by
  refine ⟨⟨by decide, fun h => ?_⟩, by decide, fun h => ?_⟩
  · have hmem := h.mem_iff.2 (List.mem_singleton.2 rfl)
    revert hmem
    decide
  · exact absurd h.length_eq (by decide)

end K2.Lake

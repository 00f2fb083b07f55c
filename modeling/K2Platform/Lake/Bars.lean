import Mathlib.Algebra.BigOperators.Group.List.Lemmas
import Mathlib.Data.List.Sort
import K2Platform.Lake.Candles

/-!
# Event bars

Model of the Spark dialect of `bars_sql` of `bars.py` and of `_bars` of `gold.py`: the trades of
a symbol and UTC day in order, cut into bars by the running total of trades, base units or quote
notional before each.  BIGINTs are added modulo 2^64; a decimal that needs more than 38 digits is
NULL, and a NULL total gives a NULL `bar_seq`.

* `countedTrades_dayBars` — a day's bars count each of its trades once for every threshold of
  the symbol.
-/

set_option autoImplicit false

namespace K2.Lake

/-! ## Thresholds -/

inductive BarKind where
  | tick
  | volume
  | dollar
  deriving DecidableEq, Repr

/-- One row of `bars.load`: positive, and exact in the units its bucket is decided in. -/
structure Threshold where
  canonicalSymbol : String
  kind : BarKind
  /-- `CAST(threshold AS DECIMAL(38,10))`. -/
  threshold : Int
  /-- Whole trades for `tick`, whole 1e-8 units for the others. -/
  units : Int
  units_pos : 0 < units

structure SymbolDay where
  exchange : Exchange
  canonicalSymbol : String
  day : Int
  deriving DecidableEq, Repr

/-- `CAST(ts AS DATE)`, in days since the epoch. -/
def toDate (ts : Int) : Int := ts / 86400000000

def Print.symbolDay (p : Print) : SymbolDay := ⟨p.exchange, p.canonicalSymbol, toDate p.exchangeTs⟩

/-- `to_date("minute")`. -/
def Bucket.symbolDay (minute : Bucket) : SymbolDay :=
  ⟨minute.exchange, minute.canonicalSymbol, toDate minute.windowStart⟩

theorem symbolDay_minute (p : Print) : p.minute.symbolDay = p.symbolDay := by
  have hday : toDate (truncMinute p.exchangeTs) = toDate p.exchangeTs := by
    unfold toDate truncMinute
    omega
  rw [Bucket.symbolDay, Print.minute, Print.symbolDay, hday]

/-! ## Running totals -/

/-- `price_e8 * qty_e8` always has fewer than 38 digits. -/
def Print.notionalE16 (p : Print) : Int := p.priceE8 * p.qtyE8

def ordered (trades : List Print) : List Print :=
  trades.insertionSort fun p q => p.order ≤ q.order

/-- A row of the subquery `c`. -/
structure Cumulated where
  print : Print
  volBefore : Int
  usdBefore : Option Int
  nBefore : Int
  deriving DecidableEq, Repr

/-- The rows of a window, given those before it. -/
def running (seen : List Print) : List Print → List Cumulated
  | [] => []
  | p :: ps =>
    let upTo := seen ++ [p]
    { print := p
      volBefore := I64.wrap (I64.wrap (upTo.map Print.qtyE8).sum - p.qtyE8)
      usdBefore := (decimal38 (upTo.map Print.notionalE16).sum).bind fun sum =>
        decimal38 (sum - p.notionalE16)
      nBefore := upTo.length - 1 } :: running upTo ps

/-- `bar_seq`; DIV drops the fraction and gives a BIGINT. -/
def barSeq (th : Threshold) (c : Cumulated) : Option Int :=
  match th.kind with
  | .tick => some (c.nBefore.tdiv th.units)
  | .volume => some (c.volBefore.tdiv th.units)
  | .dollar => c.usdBefore.map fun usd => I64.wrap (usd.tdiv (th.units * SCALE))

/-! ## Rows -/

structure Bar where
  exchange : Exchange
  canonicalSymbol : String
  barKind : BarKind
  threshold : Int
  day : Int
  barSeq : Option Int
  openE8 : Int
  highE8 : Int
  lowE8 : Int
  closeE8 : Int
  volumeE8 : Int
  quoteVolumeE8 : Option Int
  tradeCount : Nat
  openTime : Int
  closeTime : Int
  srcSnapshotId : Nat
  computedAt : Int
  deriving DecidableEq, Repr

def Bar.symbolDay (b : Bar) : SymbolDay := ⟨b.exchange, b.canonicalSymbol, b.day⟩

section Rows

variable (srcSnapshotId : Nat) (runTs : Int)

/-- One group of the outer query. -/
def bar (th : Threshold) (k : SymbolDay) (seq : Option Int) (trades : List Print) : Option Bar :=
  match trades with
  | [] => none
  | p :: ps => some {
      exchange := k.exchange
      canonicalSymbol := k.canonicalSymbol
      barKind := th.kind
      threshold := th.threshold
      day := k.day
      barSeq := seq.map I32.wrap
      openE8 := (firstPrint p ps).priceE8
      highE8 := ps.foldl (fun m q => max m q.priceE8) p.priceE8
      lowE8 := ps.foldl (fun m q => min m q.priceE8) p.priceE8
      closeE8 := (lastPrint p ps).priceE8
      volumeE8 := I64.wrap ((p :: ps).map Print.qtyE8).sum
      quoteVolumeE8 := (decimal38 ((p :: ps).map Print.notionalE16).sum).map fun sum =>
        I64.wrap (sum.tdiv SCALE)
      tradeCount := (p :: ps).length
      openTime := ps.foldl (fun m q => min m q.exchangeTs) p.exchangeTs
      closeTime := ps.foldl (fun m q => max m q.exchangeTs) p.exchangeTs
      srcSnapshotId := srcSnapshotId
      computedAt := runTs }

/-- The subquery `k` for one threshold. -/
def numbered (th : Threshold) (trades : List Print) : List (Print × Option Int) :=
  (running [] (ordered trades)).map fun c => (c.print, barSeq th c)

/-- The bars of one symbol and day for one threshold. -/
def thresholdBars (th : Threshold) (k : SymbolDay) (trades : List Print) : List Bar :=
  ((numbered th trades).map Prod.snd).dedup.filterMap fun seq =>
    bar srcSnapshotId runTs th k seq (((numbered th trades).filter fun n => n.2 = seq).map Prod.fst)

variable (thresholds : List Threshold)

/-- The bars of one symbol and day; a symbol without thresholds has none. -/
def dayBars (k : SymbolDay) (trades : List Print) : List Bar :=
  (thresholds.filter fun th => th.canonicalSymbol = k.canonicalSymbol).flatMap fun th =>
    thresholdBars srcSnapshotId runTs th k trades

/-- `_bars`. -/
def bars (days : List SymbolDay) (trades : List Print) : List Bar :=
  days.flatMap fun k =>
    dayBars srcSnapshotId runTs thresholds k (trades.filter fun p => p.symbolDay = k)

end Rows

/-! ## What the bars of a day say -/

/-- A bar but for the columns that say when and from what snapshot it was computed. -/
def Bar.content (b : Bar) : Bar := { b with srcSnapshotId := 0, computedAt := 0 }

variable {srcSnapshotId : Nat} {runTs : Int} {th : Threshold} {k : SymbolDay}

theorem bar_content (seq : Option Int) (trades : List Print) :
    (bar srcSnapshotId runTs th k seq trades).map Bar.content = bar 0 0 th k seq trades := by
  cases trades <;> rfl

theorem dayBars_content (thresholds : List Threshold) (trades : List Print) :
    (dayBars srcSnapshotId runTs thresholds k trades).map Bar.content =
      dayBars 0 0 thresholds k trades := by
  simp only [dayBars, thresholdBars, List.map_flatMap, List.map_filterMap, bar_content]

theorem symbolDay_of_mem_dayBars {thresholds : List Threshold} {trades : List Print} {b : Bar}
    (h : b ∈ dayBars srcSnapshotId runTs thresholds k trades) : b.symbolDay = k := by
  obtain ⟨th, _, h⟩ := List.mem_flatMap.1 h
  obtain ⟨seq, _, h⟩ := List.mem_filterMap.1 h
  unfold bar at h
  split at h
  · cases h
  · cases h
    rfl

theorem dayBars_nil (thresholds : List Threshold) :
    dayBars srcSnapshotId runTs thresholds k [] = [] := by
  simp [dayBars, thresholdBars, numbered, ordered, running]

theorem length_running (ps : List Print) : ∀ seen, (running seen ps).length = ps.length := by
  induction ps with
  | nil => exact fun _ => rfl
  | cons p ps ih => exact fun seen => congrArg (· + 1) (ih (seen ++ [p]))

theorem length_numbered (trades : List Print) : (numbered th trades).length = trades.length := by
  rw [numbered, List.length_map, length_running, ordered, List.length_insertionSort]

/-- Groups are as many rows as there are. -/
theorem sum_length_groups {α γ : Type} [DecidableEq γ] (l : List (α × γ)) :
    ((l.map Prod.snd).dedup.map fun g => (l.filter fun n => n.2 = g).length).sum = l.length := by
  have hcount := List.sum_map_count_dedup_eq_length (l.map Prod.snd)
  rw [List.length_map] at hcount
  rw [← hcount]
  refine congrArg List.sum (List.map_congr_left fun g _ => ?_)
  rw [List.count, List.countP_map, List.countP_eq_length_filter]
  rfl

/-- The trades that the bars count. -/
def countedTrades (bs : List Bar) : Nat := (bs.map Bar.tradeCount).sum

theorem countedTrades_filterMap {γ : Type} (f : γ → Option Bar) (n : γ → Nat)
    (hf : ∀ g, ((f g).map Bar.tradeCount).getD 0 = n g) (gs : List γ) :
    countedTrades (gs.filterMap f) = (gs.map n).sum := by
  induction gs with
  | nil => rfl
  | cons g gs ih =>
    have hg := hf g
    rw [List.map_cons, List.sum_cons, ← ih, List.filterMap_cons]
    cases hfg : f g with
    | none =>
      rw [hfg] at hg
      rw [← hg]
      exact (Nat.zero_add _).symm
    | some b =>
      rw [hfg] at hg
      rw [← hg]
      rfl

theorem countedTrades_thresholdBars (trades : List Print) :
    countedTrades (thresholdBars srcSnapshotId runTs th k trades) = trades.length := by
  rw [thresholdBars, countedTrades_filterMap _
    (fun seq => ((numbered th trades).filter fun n => n.2 = seq).length), sum_length_groups,
    length_numbered]
  intro seq
  rw [← List.length_map Prod.fst]
  cases ((numbered th trades).filter fun n => n.2 = seq).map Prod.fst <;> rfl

theorem countedTrades_dayBars (thresholds : List Threshold) (trades : List Print) :
    countedTrades (dayBars srcSnapshotId runTs thresholds k trades) =
      (thresholds.filter fun th => th.canonicalSymbol = k.canonicalSymbol).length *
        trades.length := by
  unfold dayBars
  generalize thresholds.filter (fun th => th.canonicalSymbol = k.canonicalSymbol) = ths
  induction ths with
  | nil => simp [countedTrades]
  | cons th ths ih =>
    have happend : ∀ bs bs', countedTrades (bs ++ bs') = countedTrades bs + countedTrades bs' := by
      intro bs bs'
      simp [countedTrades]
    rw [List.flatMap_cons, happend, ih, countedTrades_thresholdBars, List.length_cons,
      Nat.succ_mul, Nat.add_comm]

/-- The symbol has a threshold. -/
def Priced (thresholds : List Threshold) (k : SymbolDay) : Prop :=
  ∃ th ∈ thresholds, th.canonicalSymbol = k.canonicalSymbol

/-- Where the symbol has a threshold, its bars tell a day from one with more trades. -/
theorem eq_nil_of_dayBars_perm {thresholds : List Threshold} (hk : Priced thresholds k)
    {l more : List Print}
    (h : (dayBars 0 0 thresholds k l).Perm (dayBars 0 0 thresholds k (l ++ more))) :
    more = [] := by
  have hcount : countedTrades (dayBars 0 0 thresholds k l) =
      countedTrades (dayBars 0 0 thresholds k (l ++ more)) := (h.map Bar.tradeCount).sum_eq
  rw [countedTrades_dayBars, countedTrades_dayBars, List.length_append] at hcount
  obtain ⟨th, hth, hsym⟩ := hk
  have hpos : 0 < (thresholds.filter fun th => th.canonicalSymbol = k.canonicalSymbol).length :=
    List.length_pos_of_mem (List.mem_filter.2 ⟨hth, decide_eq_true hsym⟩)
  have hlen := Nat.eq_of_mul_eq_mul_left hpos hcount
  exact List.length_eq_zero_iff.1 (by omega)

/-- A symbol without a threshold has no bars. -/
theorem dayBars_of_not_priced {thresholds : List Threshold} (hk : ¬ Priced thresholds k)
    (trades : List Print) : dayBars srcSnapshotId runTs thresholds k trades = [] := by
  have hnil : (thresholds.filter fun th => th.canonicalSymbol = k.canonicalSymbol) = [] :=
    List.filter_eq_nil_iff.2 fun th hth hsym => hk ⟨th, hth, of_decide_eq_true hsym⟩
  rw [dayBars, hnil, List.flatMap_nil]

end K2.Lake

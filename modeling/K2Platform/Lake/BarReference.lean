import K2Platform.Lake.Bars
import K2Platform.Lake.VenueLedger
import K2Platform.Lib.Grouped
import K2Platform.Lib.SortOn

/-!
# Event bars in Python

Model of `reference` of `bars.py`, the arbiter of the bar engines: the trades in order, a running
total for each symbol and day, and a dictionary of bars that each trade is added to.  Integers
have no width, so nothing wraps and nothing is NULL.

* `bars_run` — the dictionary is the trades, put together by the key of their bar.
* `reference_perm` — the rows, day by day and bar by bar.
-/

set_option autoImplicit false

namespace K2.Lake

open Grouped

/-! ## Units -/

/-- `t_units`. -/
def Threshold.step (th : Threshold) : Int :=
  match th.kind with
  | .tick => th.units
  | .volume => th.units
  | .dollar => th.units * SCALE

theorem Threshold.step_pos (th : Threshold) : 0 < th.step := by
  have hpos := th.units_pos
  unfold step SCALE
  split <;> omega

def BarKind.unit (kind : BarKind) (x : Print) : Int :=
  match kind with
  | .tick => 1
  | .volume => x.qtyE8
  | .dollar => x.priceE8 * x.qtyE8

/-! ## `reference` -/

/-- A value of the dictionary `bars`. -/
structure ReferenceBar where
  openE8 : Int
  highE8 : Int
  lowE8 : Int
  closeE8 : Int
  volumeE8 : Int
  quoteVolumeE16 : Int
  quoteVolumeE8 : Int
  tradeCount : Nat
  openTime : Int
  closeTime : Int
  deriving DecidableEq, Repr

namespace Reference

def opened (x : Print) : ReferenceBar :=
  ⟨x.priceE8, x.priceE8, x.priceE8, x.priceE8, 0, 0, 0, 0, x.exchangeTs, x.exchangeTs⟩

def add (b : ReferenceBar) (x : Print) : ReferenceBar :=
  { b with
    highE8 := max b.highE8 x.priceE8
    lowE8 := min b.lowE8 x.priceE8
    closeE8 := x.priceE8
    closeTime := x.exchangeTs
    volumeE8 := b.volumeE8 + x.qtyE8
    quoteVolumeE16 := b.quoteVolumeE16 + x.priceE8 * x.qtyE8
    quoteVolumeE8 := (b.quoteVolumeE16 + x.priceE8 * x.qtyE8) / SCALE
    tradeCount := b.tradeCount + 1 }

/-- The trade in the bar at its key, if there is one. -/
def touched (b : Option ReferenceBar) (x : Print) : ReferenceBar := add (b.getD (opened x)) x

/-- The locals of the loop. -/
structure State where
  bars : Dict (SymbolDay × Int) ReferenceBar
  cum : Dict SymbolDay Int

def State.read (th : Threshold) (st : State) (x : Print) : State :=
  let before := st.cum.getD x.symbolDay 0
  let key := (x.symbolDay, before / th.step)
  { bars := st.bars.insert key (touched (st.bars.get? key) x)
    cum := st.cum.insert x.symbolDay (before + th.kind.unit x) }

/-- `(exchange, canonical_symbol, exchange_ts, recv_ts_ns, trade_seq)`. -/
def sortKey (x : Print) : String ×ₗ String ×ₗ Int ×ₗ Int ×ₗ Int :=
  toLex (x.exchange.name, toLex (x.canonicalSymbol, x.order))

/-- `(exchange, canonical_symbol, day, bar_seq)`. -/
def barOrder (key : SymbolDay × Int) : String ×ₗ String ×ₗ Int ×ₗ Int :=
  toLex (key.1.exchange.name, toLex (key.1.canonicalSymbol, toLex (key.1.day, key.2)))

def run (th : Threshold) (ordered : List Print) : State :=
  ordered.foldl (State.read th) ⟨Dict.empty, Dict.empty⟩

end Reference

open Reference in
/-- `reference`. -/
def reference (th : Threshold) (trades : List Print) : List ((SymbolDay × Int) × ReferenceBar) :=
  sortOn (fun row => barOrder row.1) (run th (sortOn sortKey trades)).bars.entries

/-! ## The loop -/

/-- The trades of a list, each with its bar. -/
def exactNumbered (th : Threshold) (day : List Print) : List (Print × Int) :=
  (pasts [] day).map fun e => (e.2, (e.1.map th.kind.unit).sum / th.step)

theorem map_fst_exactNumbered (th : Threshold) (day : List Print) :
    (exactNumbered th day).map Prod.fst = day := by
  rw [exactNumbered, List.map_map]
  exact map_snd_pasts day []

namespace Reference

variable (th : Threshold)

/-- The total of a symbol and day. -/
def total (k : SymbolDay) (trades : List Print) : Int :=
  ((trades.filter fun q => q.symbolDay = k).map th.kind.unit).sum

/-- The trades, each with the key of its bar. -/
def barKeys (seen trades : List Print) : List (Print × (SymbolDay × Int)) :=
  (pasts seen trades).map fun e => (e.2, (e.2.symbolDay, total th e.2.symbolDay e.1 / th.step))

variable {th}

theorem foldl_read (trades : List Print) : ∀ (seen : List Print) (st : State),
    (∀ k, st.cum.getD k 0 = total th k seen) →
      (trades.foldl (State.read th) st).bars =
        (barKeys th seen trades).foldl (upsert touched) st.bars := by
  induction trades with
  | nil => exact fun _ _ _ => rfl
  | cons x trades ih =>
    intro seen st hcum
    rw [List.foldl_cons, ih (seen ++ [x])]
    · rw [barKeys, barKeys, pasts, List.map_cons, List.foldl_cons, State.read, upsert, hcum]
    · intro k
      have hseen : total th k (seen ++ [x]) = total th k seen + total th k [x] := by
        rw [total, List.filter_append, List.map_append, List.sum_append]
        rfl
      rw [hseen, State.read, Dict.getD, Dict.get?_insert]
      by_cases hk : k = x.symbolDay
      · have hone : total th k [x] = th.kind.unit x := by
          rw [total, List.filter_cons_of_pos (by simp [hk])]
          simp
        rw [if_pos hk, Option.getD_some, hone, hcum, hk]
      · have hnone : total th k [x] = 0 := by
          rw [total, List.filter_cons_of_neg (by simp [Ne.symm hk])]
          simp
        rw [if_neg hk, hnone, Int.add_zero]
        exact hcum k

/-- The bars are the trades, put together by key. -/
theorem bars_run (trades : List Print) :
    (run th trades).bars = (barKeys th [] trades).foldl (upsert touched) Dict.empty :=
  foldl_read trades [] ⟨Dict.empty, Dict.empty⟩ fun _ => rfl

theorem groupOf_barKeys (k : SymbolDay) (n : Int) (trades : List Print) :
    groupOf (k, n) (barKeys th [] trades) =
      groupOf n (exactNumbered th (trades.filter fun p => p.symbolDay = k)) := by
  have hpasts := filter_pasts (fun p : Print => p.symbolDay = k) trades []
  rw [List.filter_nil] at hpasts
  rw [exactNumbered, ← hpasts, barKeys, groupOf_map_pair, groupOf_map_pair, List.filter_map,
    List.filter_filter, List.map_map]
  refine congrArg (List.map Prod.snd) (List.filter_congr fun e _ => ?_)
  by_cases hk : e.2.symbolDay = k
  · simp [hk, total]
  · simp [hk]

/-- A bar of the trades `p :: ps`. -/
def barOf (p : Print) (ps : List Print) : ReferenceBar where
  openE8 := p.priceE8
  highE8 := ps.foldl (fun m q => max m q.priceE8) p.priceE8
  lowE8 := ps.foldl (fun m q => min m q.priceE8) p.priceE8
  closeE8 := (ps.foldl (fun _ q => q) p).priceE8
  volumeE8 := ((p :: ps).map Print.qtyE8).sum
  quoteVolumeE16 := ((p :: ps).map Print.notionalE16).sum
  quoteVolumeE8 := ((p :: ps).map Print.notionalE16).sum / SCALE
  tradeCount := (p :: ps).length
  openTime := p.exchangeTs
  closeTime := (ps.foldl (fun _ q => q) p).exchangeTs

theorem touched_none (p : Print) : touched none p = barOf p [] := by
  simp [touched, add, opened, barOf, Print.notionalE16]

theorem add_barOf (p : Print) (ps : List Print) (x : Print) :
    add (barOf p ps) x = barOf p (ps ++ [x]) := by
  have hqty : ((p :: (ps ++ [x])).map Print.qtyE8).sum =
      ((p :: ps).map Print.qtyE8).sum + x.qtyE8 := by
    rw [← List.cons_append, List.map_append, List.sum_append]
    simp
  have hnotional : ((p :: (ps ++ [x])).map Print.notionalE16).sum =
      ((p :: ps).map Print.notionalE16).sum + x.priceE8 * x.qtyE8 := by
    rw [← List.cons_append, List.map_append, List.sum_append]
    simp [Print.notionalE16]
  rw [add, barOf, barOf, hqty, hnotional, List.foldl_append, List.foldl_append, List.foldl_append,
    ← List.cons_append, List.length_append]
  rfl

theorem foldl_touched (p : Print) (ps : List Print) :
    (p :: ps).foldl (fun b x => some (touched b x)) none = some (barOf p ps) := by
  induction ps using List.reverseRecOn with
  | nil => exact congrArg some (touched_none p)
  | append_singleton ps x ih =>
    rw [← List.cons_append, List.foldl_append, ih, ← add_barOf]
    rfl

end Reference

/-! ## Rows -/

/-- The columns on which the engines are compared, and the key. -/
structure EngineBar where
  exchange : Exchange
  canonicalSymbol : String
  barKind : BarKind
  day : Int
  barSeq : Option Int
  openE8 : Int
  highE8 : Int
  lowE8 : Int
  closeE8 : Int
  volumeE8 : Int
  quoteVolumeE8 : Option Int
  tradeCount : Nat
  deriving DecidableEq, Repr

def EngineBar.ofReference (kind : BarKind) (row : (SymbolDay × Int) × ReferenceBar) :
    EngineBar where
  exchange := row.1.1.exchange
  canonicalSymbol := row.1.1.canonicalSymbol
  barKind := kind
  day := row.1.1.day
  barSeq := some row.1.2
  openE8 := row.2.openE8
  highE8 := row.2.highE8
  lowE8 := row.2.lowE8
  closeE8 := row.2.closeE8
  volumeE8 := row.2.volumeE8
  quoteVolumeE8 := some row.2.quoteVolumeE8
  tradeCount := row.2.tradeCount

/-- The bar of a group of trades, in integers of no width. -/
def exactBar (kind : BarKind) (key : SymbolDay × Int) (trades : List Print) : Option EngineBar :=
  match trades with
  | [] => none
  | p :: ps => some (.ofReference kind (key, Reference.barOf p ps))

/-- The columns of the order tell the trades of a symbol apart. -/
def Distinct (trades : List Print) : Prop :=
  (trades.map fun p =>
    (p.exchange, p.canonicalSymbol, p.exchangeTs, p.recvTsNs, p.tradeSeq)).Nodup

instance (trades : List Print) : Decidable (Distinct trades) :=
  inferInstanceAs (Decidable (List.Nodup _))

def symbolDays (trades : List Print) : List SymbolDay := (trades.map Print.symbolDay).dedup

/-- The trades of a symbol and day, in order. -/
def dayTrades (trades : List Print) (k : SymbolDay) : List Print :=
  ordered (trades.filter fun p => p.symbolDay = k)

/-- The bars, day by day and number by number. -/
def exactBars (th : Threshold) (trades : List Print) : List EngineBar :=
  (symbolDays trades).flatMap fun k =>
    (groups (exactNumbered th (dayTrades trades k))).filterMap fun g =>
      exactBar th.kind (k, g.1) g.2

section Rows

open Reference

variable {th : Threshold} {trades : List Print}

theorem get?_run (th : Threshold) (l : List Print) (key : SymbolDay × Int) :
    ((run th l).bars.get? key).map (fun b => EngineBar.ofReference th.kind (key, b)) =
      exactBar th.kind key (groupOf key (barKeys th [] l)) := by
  rw [bars_run, get?_foldl_upsert, Dict.get?_empty]
  cases groupOf key (barKeys th [] l) with
  | nil => rfl
  | cons p ps =>
    rw [foldl_touched]
    rfl

theorem Distinct.order_inj (h : Distinct trades) {p q : Print} (hp : p ∈ trades) (hq : q ∈ trades)
    (hexchange : p.exchange = q.exchange) (hsymbol : p.canonicalSymbol = q.canonicalSymbol)
    (horder : p.order = q.order) : p = q := by
  have hcolumns : (p.exchangeTs, p.recvTsNs, p.tradeSeq) = (q.exchangeTs, q.recvTsNs, q.tradeSeq) :=
    horder
  exact List.inj_on_of_nodup_map h hp hq (Prod.ext hexchange (Prod.ext hsymbol hcolumns))

/-- The trades of a day are in the order of all of them. -/
theorem filter_sortKey (h : Distinct trades) (k : SymbolDay) :
    ((sortOn sortKey trades).filter fun p => p.symbolDay = k) = dayTrades trades k := by
  have hkey : ∀ p ∈ trades, ∀ q ∈ trades, sortKey p = sortKey q → p = q := by
    intro p hp q hq heq
    have heq : (p.exchange.name, toLex (p.canonicalSymbol, p.order)) =
        (q.exchange.name, toLex (q.canonicalSymbol, q.order)) := heq
    obtain ⟨hname, heq⟩ := Prod.mk.inj heq
    have heq : (p.canonicalSymbol, p.order) = (q.canonicalSymbol, q.order) := heq
    obtain ⟨hsymbol, horder⟩ := Prod.mk.inj heq
    exact h.order_inj hp hq (Exchange.name_inj hname) hsymbol horder
  have hday : ∀ p ∈ trades.filter fun p => p.symbolDay = k, p.symbolDay = k := fun p hp =>
    of_decide_eq_true (List.mem_filter.1 hp).2
  have horder : ∀ p ∈ trades.filter (fun p => p.symbolDay = k),
      ∀ q ∈ trades.filter (fun p => p.symbolDay = k), p.order = q.order → p = q := by
    intro p hp q hq heq
    have hsame : p.symbolDay = q.symbolDay := (hday p hp).trans (hday q hq).symm
    exact h.order_inj (List.mem_of_mem_filter hp) (List.mem_of_mem_filter hq)
      (congrArg SymbolDay.exchange hsame) (congrArg SymbolDay.canonicalSymbol hsame) heq
  rw [sortOn_filter hkey]
  refine (sortOn_eq horder (sortOn_perm sortKey _) ?_).symm
  refine (sortOn_pairwise sortKey _).imp_of_mem fun {p q} hp hq hle => ?_
  have hsame : p.symbolDay = q.symbolDay :=
    (hday p ((sortOn_perm sortKey _).mem_iff.1 hp)).trans
      (hday q ((sortOn_perm sortKey _).mem_iff.1 hq)).symm
  have hexchange : p.exchange = q.exchange := congrArg SymbolDay.exchange hsame
  have hsymbol : p.canonicalSymbol = q.canonicalSymbol := congrArg SymbolDay.canonicalSymbol hsame
  rw [sortKey, sortKey, hexchange, hsymbol] at hle
  simpa [Prod.Lex.toLex_le_toLex] using hle

theorem mem_dayTrades {k : SymbolDay} {p : Print} :
    p ∈ dayTrades trades k ↔ p ∈ trades ∧ p.symbolDay = k := by
  rw [dayTrades, ordered, List.mem_insertionSort, List.mem_filter, decide_eq_true_eq]

theorem groupOf_run (h : Distinct trades) (k : SymbolDay) (n : Int) :
    groupOf (k, n) (barKeys th [] (sortOn sortKey trades)) =
      groupOf n (exactNumbered th (dayTrades trades k)) := by
  rw [groupOf_barKeys, filter_sortKey h]

/-- The keys of the bars, day by day. -/
def dayKeys (th : Threshold) (trades : List Print) : List (SymbolDay × Int) :=
  (symbolDays trades).flatMap fun k =>
    ((exactNumbered th (dayTrades trades k)).map Prod.snd).dedup.map fun n => (k, n)

theorem nodup_dayKeys : (dayKeys th trades).Nodup := by
  refine List.nodup_flatMap.2
    ⟨fun k _ => ?_, (List.nodup_dedup _).imp fun {k k'} hne key h h' => ?_⟩
  · exact (List.nodup_dedup _).map fun n n' heq => congrArg Prod.snd heq
  · obtain ⟨n, _, rfl⟩ := List.mem_map.1 h
    obtain ⟨n', _, heq⟩ := List.mem_map.1 h'
    exact hne (congrArg Prod.fst heq).symm

theorem mem_dayKeys {k : SymbolDay} {n : Int} :
    (k, n) ∈ dayKeys th trades ↔ groupOf n (exactNumbered th (dayTrades trades k)) ≠ [] := by
  constructor
  · intro h
    obtain ⟨k', _, h⟩ := List.mem_flatMap.1 h
    obtain ⟨n', hn, heq⟩ := List.mem_map.1 h
    obtain ⟨rfl, rfl⟩ := Prod.mk.inj heq
    obtain ⟨e, he, rfl⟩ := List.mem_map.1 (List.mem_dedup.1 hn)
    exact List.ne_nil_of_mem (mem_groupOf.2 he)
  · intro h
    obtain ⟨p, hp⟩ := List.exists_mem_of_ne_nil _ h
    have hnumber := mem_groupOf.1 hp
    have hday : p ∈ dayTrades trades k := by
      rw [← map_fst_exactNumbered th (dayTrades trades k)]
      exact List.mem_map_of_mem hnumber
    obtain ⟨hmem, hk⟩ := mem_dayTrades.1 hday
    refine List.mem_flatMap.2 ⟨k, List.mem_dedup.2 ?_, List.mem_map.2 ⟨n, List.mem_dedup.2 ?_, rfl⟩⟩
    · rw [← hk]
      exact List.mem_map_of_mem hmem
    · exact List.mem_map.2 ⟨(p, n), hnumber, rfl⟩

/-- **The rows of the reference** are the bars of its days. -/
theorem reference_perm (th : Threshold) (h : Distinct trades) :
    ((reference th trades).map (EngineBar.ofReference th.kind)).Perm (exactBars th trades) := by
  let l := sortOn sortKey trades
  let row := fun key => exactBar th.kind key (groupOf key (barKeys th [] l))
  have hrows : (run th l).bars.entries.map (EngineBar.ofReference th.kind) =
      (run th l).bars.keys.filterMap row := by
    rw [Dict.keys, List.filterMap_map, ← List.filterMap_eq_map]
    refine List.filterMap_congr fun e he => ?_
    rw [Function.comp_apply, Function.comp_apply]
    show some _ = exactBar th.kind e.1 (groupOf e.1 (barKeys th [] l))
    rw [← get?_run th l e.1, Dict.get?_eq_some_iff.2 he]
    rfl
  have hdays : exactBars th trades = (dayKeys th trades).filterMap row := by
    rw [exactBars, dayKeys, List.filterMap_flatMap]
    refine List.flatMap_congr fun k _ => ?_
    rw [groups, List.filterMap_map, List.filterMap_map]
    refine List.filterMap_congr fun n _ => ?_
    exact congrArg (exactBar th.kind (k, n)) (groupOf_run h k n).symm
  have hkeys : (run th l).bars.keys.Perm (dayKeys th trades) := by
    refine (List.perm_ext_iff_of_nodup (run th l).bars.nodup nodup_dayKeys).2 fun key => ?_
    obtain ⟨k, n⟩ := key
    rw [mem_dayKeys, ← groupOf_run h]
    have hget := congrArg Option.isSome (get?_run th l (k, n))
    rw [Option.isSome_map] at hget
    show (k, n) ∈ (run th l).bars.keys ↔ _
    rw [Dict.mem_keys_iff, ← Option.isSome_iff_exists, hget]
    cases groupOf (k, n) (barKeys th [] l) with
    | nil => simp [exactBar]
    | cons p ps => simp [exactBar]
  rw [hdays]
  refine ((sortOn_perm _ _).map _).trans ?_
  rw [hrows]
  exact hkeys.filterMap row

end Rows

end K2.Lake

import Mathlib.Algebra.Order.BigOperators.Group.List
import K2Platform.Lake.BarReference

/-!
# Three bar engines

Model of `bars_sql` of `bars.py` in its two dialects, for one kind and threshold, against the
arbiter.  Spark adds BIGINTs modulo 2^64, casts without a check, and has NULL for a decimal of more
than 38 digits; DuckDB adds in HUGEINT and raises on a number that does not fit.

* `DuckDB.bars_eq_some_iff` — DuckDB returns just when its numbers fit, and then the exact bars.
* `sparkDay_eq` — Spark's are the same where its totals fit.
* `volume_of_perm` — and only there: a total that has wrapped gives a smaller number, and nothing
  makes up for it.
* `engines_agree_iff` — the three agree exactly when the totals of every day fit.
-/

set_option autoImplicit false

namespace K2.Lake

open Grouped

/-! ## DuckDB -/

namespace DuckDB

/-- HUGEINT. -/
def hugeint (x : Int) : Option Int := if -(2 ^ 127) ≤ x ∧ x < 2 ^ 127 then some x else none

/-- `CAST(.. AS BIGINT)`. -/
def bigint (x : Int) : Option Int := if I64.InRange x then some x else none

/-- `CAST(.. AS INT)`. -/
def integer (x : Int) : Option Int := if -2147483648 ≤ x ∧ x < 2147483648 then some x else none

/-- A row of the subquery `c`. -/
structure Cumulated where
  volBefore : Int
  usdBefore : Int
  nBefore : Int

def cumulated (seen : List Print) (p : Print) : Option Cumulated := do
  let notional ← hugeint p.notionalE16
  let vol ← hugeint ((seen ++ [p]).map Print.qtyE8).sum
  let volBefore ← hugeint (vol - p.qtyE8)
  let usd ← hugeint ((seen ++ [p]).map Print.notionalE16).sum
  let usdBefore ← hugeint (usd - notional)
  some ⟨volBefore, usdBefore, (seen ++ [p]).length - 1⟩

/-- `bar_seq`; of positive numbers `//` is the quotient. -/
def barSeq (th : Threshold) (c : Cumulated) : Option Int := do
  let units ← bigint th.units
  match th.kind with
  | .tick => some (c.nBefore.tdiv units)
  | .volume => some (c.volBefore.tdiv units)
  | .dollar => (hugeint (units * SCALE)).map fun step => c.usdBefore.tdiv step

/-- A row of the subquery `k`. -/
def numberedRow (th : Threshold) (e : List Print × Print) : Option (Print × Int) :=
  (cumulated e.1 e.2).bind fun c => (barSeq th c).map fun seq => (e.2, seq)

/-- `arg_min(.., ROW(..))` and `arg_max(.., ROW(..))`; of equals the earlier row is taken. -/
def argMin (p : Print) (ps : List Print) : Print :=
  ps.foldl (fun m q => if q.order < m.order then q else m) p

def argMax (p : Print) (ps : List Print) : Print :=
  ps.foldl (fun m q => if m.order < q.order then q else m) p

/-- One group of the outer query, which has rows. -/
def bar (kind : BarKind) (k : SymbolDay) (seq : Int) (trades : List Print) : Option EngineBar :=
  match trades with
  | [] => none
  | p :: ps => do
    let barSeq ← integer seq
    let volume ← hugeint ((p :: ps).map Print.qtyE8).sum
    let volumeE8 ← bigint volume
    let notional ← hugeint ((p :: ps).map Print.notionalE16).sum
    let quoteVolumeE8 ← bigint (notional.tdiv SCALE)
    some {
      exchange := k.exchange
      canonicalSymbol := k.canonicalSymbol
      barKind := kind
      day := k.day
      barSeq := some barSeq
      openE8 := (argMin p ps).priceE8
      highE8 := ps.foldl (fun m q => max m q.priceE8) p.priceE8
      lowE8 := ps.foldl (fun m q => min m q.priceE8) p.priceE8
      closeE8 := (argMax p ps).priceE8
      volumeE8 := volumeE8
      quoteVolumeE8 := some quoteVolumeE8
      tradeCount := (p :: ps).length }

def dayBars (th : Threshold) (k : SymbolDay) (day : List Print) : Option (List EngineBar) :=
  ((pasts [] day).mapM (numberedRow th)).bind fun rows =>
    (groups rows).mapM fun g => bar th.kind k g.1 g.2

/-- `bars_sql(.., "duckdb")`; `none` where the query raises. -/
def bars (th : Threshold) (trades : List Print) : Option (List EngineBar) :=
  ((symbolDays trades).mapM fun k => dayBars th k (dayTrades trades k)).map List.flatten

end DuckDB

/-! ## Spark -/

/-- A DOUBLE cast to BIGINT is cut to its range. -/
def Threshold.saturated (th : Threshold) : Threshold where
  canonicalSymbol := th.canonicalSymbol
  kind := th.kind
  threshold := th.threshold
  units := min th.units I64.MAX
  units_pos := lt_min th.units_pos (by decide)

def Bar.engine (b : Bar) : EngineBar where
  exchange := b.exchange
  canonicalSymbol := b.canonicalSymbol
  barKind := b.barKind
  day := b.day
  barSeq := b.barSeq
  openE8 := b.openE8
  highE8 := b.highE8
  lowE8 := b.lowE8
  closeE8 := b.closeE8
  volumeE8 := b.volumeE8
  quoteVolumeE8 := b.quoteVolumeE8
  tradeCount := b.tradeCount

/-- The threshold, for each symbol of the trades. -/
def thresholdsOf (th : Threshold) (trades : List Print) : List Threshold :=
  (trades.map Print.canonicalSymbol).dedup.map fun s => { th with canonicalSymbol := s }

/-- `bars_sql(.., "spark")`. -/
def sparkBars (th : Threshold) (trades : List Print) : List EngineBar :=
  (bars 0 0 (thresholdsOf th.saturated trades) (symbolDays trades) trades).map Bar.engine

/-! ## What is claimed -/

/-- Both dialects return, and with the bars of the reference. -/
structure EnginesAgree (th : Threshold) (trades : List Print) : Prop where
  spark : (sparkBars th trades).Perm ((reference th trades).map (EngineBar.ofReference th.kind))
  duckdb : ∃ rows, DuckDB.bars th trades = some rows ∧
    rows.Perm ((reference th trades).map (EngineBar.ofReference th.kind))

structure Print.Positive (p : Print) : Prop where
  price : 0 < p.priceE8 ∧ p.priceE8 ≤ I64.MAX
  qty : 0 < p.qtyE8 ∧ p.qtyE8 ≤ I64.MAX

/-- The trades of its symbol and day that come before a trade. -/
def before (trades : List Print) (p : Print) : List Print :=
  trades.filter fun q => q.symbolDay = p.symbolDay ∧ q.order < p.order

/-- The totals before a trade, and up to it, fit where an engine keeps them. -/
structure InWidth (th : Threshold) (pre : List Print) (p : Print) : Prop where
  units : th.units ≤ I64.MAX
  number : (pre.map th.kind.unit).sum < 2147483648 * th.step
  volume : th.kind = .volume → (pre.map Print.qtyE8).sum ≤ I64.MAX
  dollar : th.kind = .dollar → ((p :: pre).map Print.notionalE16).sum < 10 ^ 38
  hugeVolume : ((p :: pre).map Print.qtyE8).sum < 2 ^ 127
  hugeNotional : ((p :: pre).map Print.notionalE16).sum < 2 ^ 127

/-! ## Sums -/

theorem sum_nonneg_of_forall {α : Type} {f : α → Int} {l : List α} (h : ∀ a ∈ l, 0 < f a) :
    0 ≤ (l.map f).sum := by
  refine List.sum_nonneg fun x hx => ?_
  obtain ⟨a, ha, rfl⟩ := List.mem_map.1 hx
  exact (h a ha).le

theorem sum_concat {α : Type} (f : α → Int) (pre : List α) (p : α) :
    ((pre ++ [p]).map f).sum = (pre.map f).sum + f p := by
  rw [List.map_append, List.sum_append]
  simp

theorem Print.Positive.notional {p : Print} (h : p.Positive) :
    0 < p.notionalE16 ∧ p.notionalE16 < 2 ^ 126 := by
  obtain ⟨⟨hprice, hprice'⟩, hqty, hqty'⟩ := h
  refine ⟨Int.mul_pos hprice hqty, ?_⟩
  have hle : p.priceE8 * p.qtyE8 ≤ I64.MAX * I64.MAX :=
    Int.mul_le_mul hprice' hqty' hqty.le (by decide)
  exact lt_of_le_of_lt hle (by decide)

/-! ## A day in order -/

section Before

variable {th : Threshold} {trades : List Print} {k : SymbolDay}

theorem dayTrades_sorted (h : Distinct trades) (k : SymbolDay) :
    (dayTrades trades k).Pairwise fun p q => p.order < q.order := by
  have hnodup : (dayTrades trades k).Nodup := by
    refine (List.perm_insertionSort _ _).nodup_iff.2 (List.Nodup.filter _ ?_)
    exact List.Nodup.of_map _ h
  refine ((sortOn_pairwise Print.order _).and hnodup).imp_of_mem fun {p q} hp hq hpq => ?_
  obtain ⟨hp, hpk⟩ := mem_dayTrades.1 hp
  obtain ⟨hq, hqk⟩ := mem_dayTrades.1 hq
  have hsame : p.symbolDay = q.symbolDay := hpk.trans hqk.symm
  exact lt_of_le_of_ne hpq.1 fun heq => hpq.2 (h.order_inj hp hq
    (congrArg SymbolDay.exchange hsame) (congrArg SymbolDay.canonicalSymbol hsame) heq)

/-- What comes before a trade of the day is what its order says. -/
theorem perm_before (h : Distinct trades) {pre post : List Print} {p : Print}
    (hsplit : dayTrades trades k = pre ++ p :: post) : pre.Perm (before trades p) := by
  have hp : p.symbolDay = k := (mem_dayTrades.1 (by rw [hsplit]; simp)).2
  have hsorted := dayTrades_sorted h k
  rw [hsplit] at hsorted
  obtain ⟨_, hpost, hpre⟩ := List.pairwise_append.1 hsorted
  have hall : (trades.filter fun q => q.symbolDay = k).Perm (pre ++ p :: post) := by
    rw [← hsplit]
    exact (List.perm_insertionSort _ _).symm
  have hfilter := hall.filter fun q => q.order < p.order
  have hleft : pre.filter (fun q => q.order < p.order) = pre :=
    List.filter_eq_self.2 fun q hq => decide_eq_true (hpre q hq p List.mem_cons_self)
  have hright : (p :: post).filter (fun q => q.order < p.order) = [] := by
    refine List.filter_eq_nil_iff.2 fun q hq hlt => ?_
    have hlt := of_decide_eq_true hlt
    rcases List.mem_cons.1 hq with rfl | hq
    · exact lt_irrefl _ hlt
    · exact lt_asymm hlt ((List.pairwise_cons.1 hpost).1 q hq)
  rw [List.filter_append, hleft, hright, List.append_nil, List.filter_filter] at hfilter
  refine hfilter.symm.trans (List.Perm.of_eq (List.filter_congr fun q _ => ?_))
  rw [hp, Bool.and_comm, Bool.decide_and]

theorem InWidth.perm {pre pre' : List Print} {p : Print} (hperm : pre.Perm pre')
    (h : InWidth th pre p) : InWidth th pre' p := by
  have hbefore : ∀ f : Print → Int, (pre.map f).sum = (pre'.map f).sum := fun f =>
    (hperm.map f).sum_eq
  have hupTo : ∀ f : Print → Int, ((p :: pre).map f).sum = ((p :: pre').map f).sum := fun f =>
    ((hperm.cons p).map f).sum_eq
  obtain ⟨hunits, hnumber, hvolume, hdollar, hhuge, hhuge'⟩ := h
  rw [hbefore] at hnumber hvolume
  rw [hupTo] at hdollar hhuge hhuge'
  exact ⟨hunits, hnumber, hvolume, hdollar, hhuge, hhuge'⟩

/-- The totals of every trade are those of the days, in order. -/
theorem inWidth_iff (h : Distinct trades) :
    (∀ p ∈ trades, InWidth th (before trades p) p) ↔
      ∀ k ∈ symbolDays trades, ∀ e ∈ pasts [] (dayTrades trades k), InWidth th e.1 e.2 := by
  constructor
  · intro hall k _ e he
    obtain ⟨q, post, hpre, hsplit⟩ := mem_pasts (p := e.1) (x := e.2) he
    rw [List.nil_append] at hpre
    rw [← hpre] at hsplit
    have hmem : e.2 ∈ trades := (mem_dayTrades (k := k).1 (by rw [hsplit]; simp)).1
    exact (hall e.2 hmem).perm (perm_before h hsplit).symm
  · intro hall p hp
    have hmem : p ∈ dayTrades trades p.symbolDay := mem_dayTrades.2 ⟨hp, rfl⟩
    obtain ⟨pre, post, hsplit⟩ := List.mem_iff_append.1 hmem
    have hpast : (pre, p) ∈ pasts [] (dayTrades trades p.symbolDay) := by
      rw [hsplit]
      exact mem_pasts_self pre p post
    have hday : p.symbolDay ∈ symbolDays trades := List.mem_dedup.2 (List.mem_map_of_mem hp)
    exact (hall _ hday _ hpast).perm (perm_before h hsplit)

end Before

/-! ## First and last of a group in order -/

section Sorted

variable {p : Print} {ps : List Print} (h : (p :: ps).Pairwise fun q q' => q.order < q'.order)
include h

theorem foldl_first_of_sorted {f : Print → Print → Print}
    (hf : ∀ q q', q.order < q'.order → f q q' = q) :
    ps.foldl f p = p := by
  induction ps with
  | nil => rfl
  | cons q ps ih =>
    obtain ⟨hfirst, _⟩ := List.pairwise_cons.1 h
    rw [List.foldl_cons, hf p q (hfirst q List.mem_cons_self)]
    exact ih (h.sublist ((List.sublist_cons_self q ps).cons_cons p))

theorem foldl_last_of_sorted {f : Print → Print → Print}
    (hf : ∀ q q', q.order < q'.order → f q q' = q') :
    ps.foldl f p = ps.foldl (fun _ q => q) p := by
  induction ps generalizing p with
  | nil => rfl
  | cons q ps ih =>
    obtain ⟨hfirst, hsorted⟩ := List.pairwise_cons.1 h
    rw [List.foldl_cons, List.foldl_cons, hf p q (hfirst q List.mem_cons_self)]
    exact ih hsorted

theorem firstPrint_eq : firstPrint p ps = p := foldl_first_of_sorted h fun _ _ hlt => if_pos hlt

theorem lastPrint_eq : lastPrint p ps = ps.foldl (fun _ q => q) p :=
  foldl_last_of_sorted h fun _ _ hlt => if_neg (lt_asymm hlt)

theorem DuckDB.argMin_eq : DuckDB.argMin p ps = p :=
  foldl_first_of_sorted h fun _ _ hlt => if_neg (lt_asymm hlt)

theorem DuckDB.argMax_eq : DuckDB.argMax p ps = ps.foldl (fun _ q => q) p :=
  foldl_last_of_sorted h fun _ _ hlt => if_pos hlt

end Sorted

/-! ## Groups of a day -/

/-- The bar of a group has its volumes in BIGINT. -/
structure Ranged (trades : List Print) : Prop where
  volume : (trades.map Print.qtyE8).sum ≤ I64.MAX
  quote : (trades.map Print.notionalE16).sum / SCALE ≤ I64.MAX

/-- What is known of a group of a day. -/
structure Group (n : Int) (trades : List Print) : Prop where
  sorted : trades.Pairwise fun p q => p.order < q.order
  positive : ∀ p ∈ trades, p.Positive
  ranged : Ranged trades
  number : 0 ≤ n

section Group

variable {n : Int} {trades : List Print} (h : Group n trades)
include h

theorem Group.volume_inRange : I64.InRange (trades.map Print.qtyE8).sum := by
  have hnonneg : 0 ≤ (trades.map Print.qtyE8).sum :=
    sum_nonneg_of_forall fun q hq => (h.positive q hq).qty.1
  exact ⟨le_trans (by decide) hnonneg, h.ranged.volume⟩

theorem Group.notional_nonneg : 0 ≤ (trades.map Print.notionalE16).sum :=
  sum_nonneg_of_forall fun q hq => (h.positive q hq).notional.1

theorem Group.notional_lt : (trades.map Print.notionalE16).sum < 10 ^ 27 := by
  have hquote := h.ranged.quote
  unfold SCALE I64.MAX at hquote
  omega

theorem Group.quote_inRange : I64.InRange ((trades.map Print.notionalE16).sum / SCALE) := by
  have hnonneg := h.notional_nonneg
  have hquote := h.ranged.quote
  unfold I64.InRange I64.MIN
  unfold SCALE at *
  exact ⟨by omega, hquote⟩

end Group

/-- What is known of the trades of a day. -/
structure Regular (th : Threshold) (day : List Print) : Prop where
  sorted : day.Pairwise fun p q => p.order < q.order
  positive : ∀ p ∈ day, p.Positive
  ranged : ∀ g ∈ groups (exactNumbered th day), Ranged g.2

theorem Regular.past {th : Threshold} {day : List Print} (h : Regular th day)
    {e : List Print × Print} (he : e ∈ pasts [] day) : (∀ q ∈ e.1, q.Positive) ∧ e.2.Positive := by
  obtain ⟨pre, post, hpre, hsplit⟩ := mem_pasts (p := e.1) (x := e.2) he
  rw [List.nil_append] at hpre
  constructor
  · intro q hq
    refine h.positive q ?_
    rw [hsplit, ← hpre]
    exact List.mem_append_left _ hq
  · refine h.positive e.2 ?_
    rw [hsplit]
    simp

theorem sum_unit_nonneg (kind : BarKind) {seen : List Print} (hseen : ∀ q ∈ seen, q.Positive) :
    0 ≤ (seen.map kind.unit).sum := by
  refine sum_nonneg_of_forall fun q hq => ?_
  cases kind with
  | tick => exact Int.one_pos
  | volume => exact (hseen q hq).qty.1
  | dollar => exact (hseen q hq).notional.1

theorem Regular.group {th : Threshold} {day : List Print} (h : Regular th day)
    {g : Int × List Print} (hg : g ∈ groups (exactNumbered th day)) : Group g.1 g.2 := by
  have hsub := groupOf_sublist g.1 (exactNumbered th day)
  rw [map_fst_exactNumbered, ← (mem_groups.1 hg).1] at hsub
  refine ⟨h.sorted.sublist hsub, fun p hp => h.positive p (hsub.subset hp), h.ranged g hg, ?_⟩
  refine forall_groups (P := fun n => 0 ≤ n).2 (fun e he => ?_) g hg
  obtain ⟨past, hpast, rfl⟩ := List.mem_map.1 he
  exact Int.ediv_nonneg (sum_unit_nonneg th.kind (h.past hpast).1) th.step_pos.le

/-! ## DuckDB returns just when its numbers fit -/

/-- A list is mapped just when each of its elements is. -/
theorem mapM_eq_some_iff {α β : Type} {f g : α → Option β} {P : α → Prop} {l : List α}
    (hf : ∀ a ∈ l, ∀ b, f a = some b ↔ P a ∧ g a = some b) (hg : ∀ a ∈ l, (g a).isSome) :
    ∀ l', l.mapM f = some l' ↔ (∀ a ∈ l, P a) ∧ l' = l.filterMap g := by
  induction l with
  | nil =>
    intro l'
    simp [eq_comm]
  | cons a l ih =>
    intro l'
    obtain ⟨hfa, hf⟩ := List.forall_mem_cons.1 hf
    obtain ⟨hga, hg⟩ := List.forall_mem_cons.1 hg
    obtain ⟨b, hb⟩ := Option.isSome_iff_exists.1 hga
    have hhead : ∀ b', f a = some b' ↔ P a ∧ b' = b := by
      intro b'
      rw [hfa, hb, Option.some.injEq, eq_comm]
    have hcons : (a :: l).mapM f = some l' ↔
        ∃ b', f a = some b' ∧ ∃ bs, l.mapM f = some bs ∧ l' = b' :: bs := by
      rw [List.mapM_cons]
      refine Option.bind_eq_some_iff.trans (exists_congr fun b' => and_congr_right fun _ => ?_)
      refine Option.bind_eq_some_iff.trans (exists_congr fun bs => and_congr_right fun _ => ?_)
      exact Option.some_inj.trans eq_comm
    rw [hcons, List.filterMap_cons_some hb, List.forall_mem_cons]
    constructor
    · rintro ⟨b', hb', bs, hbs, rfl⟩
      obtain ⟨ha, rfl⟩ := (hhead b').1 hb'
      obtain ⟨hl, rfl⟩ := (ih hf hg bs).1 hbs
      exact ⟨⟨ha, hl⟩, rfl⟩
    · rintro ⟨⟨ha, hl⟩, rfl⟩
      exact ⟨b, (hhead b).2 ⟨ha, rfl⟩, _, (ih hf hg _).2 ⟨hl, rfl⟩, rfl⟩

namespace DuckDB

variable {th : Threshold} {seen : List Print} {p : Print}

theorem hugeint_of_lt {x : Int} (h : 0 ≤ x) (hlt : x < 2 ^ 127) : hugeint x = some x :=
  if_pos ⟨by omega, hlt⟩

theorem hugeint_eq_some {x y : Int} (h : hugeint x = some y) : x < 2 ^ 127 ∧ y = x := by
  unfold hugeint at h
  split at h
  · rename_i hx
    exact ⟨hx.2, (Option.some.inj h).symm⟩
  · cases h

/-- The totals before a trade. -/
def totals (seen : List Print) : Cumulated :=
  ⟨(seen.map Print.qtyE8).sum, (seen.map Print.notionalE16).sum, seen.length⟩

theorem cumulated_eq_some_iff (hseen : ∀ q ∈ seen, q.Positive) (hp : p.Positive) (c : Cumulated) :
    cumulated seen p = some c ↔
      (((p :: seen).map Print.qtyE8).sum < 2 ^ 127 ∧
        ((p :: seen).map Print.notionalE16).sum < 2 ^ 127) ∧ c = totals seen := by
  have hqty : 0 ≤ (seen.map Print.qtyE8).sum := sum_nonneg_of_forall fun q hq => (hseen q hq).qty.1
  have hnotional : 0 ≤ (seen.map Print.notionalE16).sum :=
    sum_nonneg_of_forall fun q hq => (hseen q hq).notional.1
  obtain ⟨hpos, hlt⟩ := hp.notional
  have hpqty := hp.qty.1
  have hlength : ((seen ++ [p]).length : Int) - 1 = seen.length := by simp
  simp only [cumulated, sum_concat, List.map_cons, List.sum_cons]
  constructor
  · intro h
    obtain ⟨n, hn, h⟩ := Option.bind_eq_some_iff.1 h
    obtain ⟨vol, hvol, h⟩ := Option.bind_eq_some_iff.1 h
    obtain ⟨volBefore, hvolBefore, h⟩ := Option.bind_eq_some_iff.1 h
    obtain ⟨usd, husd, h⟩ := Option.bind_eq_some_iff.1 h
    obtain ⟨usdBefore, husdBefore, h⟩ := Option.bind_eq_some_iff.1 h
    obtain ⟨_, rfl⟩ := hugeint_eq_some hn
    obtain ⟨hvol, rfl⟩ := hugeint_eq_some hvol
    obtain ⟨_, rfl⟩ := hugeint_eq_some hvolBefore
    obtain ⟨husd, rfl⟩ := hugeint_eq_some husd
    obtain ⟨_, rfl⟩ := hugeint_eq_some husdBefore
    refine ⟨⟨by omega, by omega⟩, ?_⟩
    rw [← Option.some.inj h, totals, hlength, Int.add_sub_cancel, Int.add_sub_cancel]
  · rintro ⟨⟨hvol, husd⟩, rfl⟩
    rw [hugeint_of_lt hpos.le (by omega), hugeint_of_lt (by omega) (by omega),
      hugeint_of_lt (x := (seen.map Print.notionalE16).sum + p.notionalE16) (by omega) (by omega)]
    simp only [Option.bind_eq_bind, Option.bind_some, Int.add_sub_cancel]
    rw [hugeint_of_lt hqty (by omega), hugeint_of_lt hnotional (by omega), hlength]
    rfl

/-- The bounds that DuckDB puts on the numbers of a trade. -/
structure Fits (th : Threshold) (e : List Print × Print) : Prop where
  units : th.units ≤ I64.MAX
  volume : ((e.2 :: e.1).map Print.qtyE8).sum < 2 ^ 127
  notional : ((e.2 :: e.1).map Print.notionalE16).sum < 2 ^ 127

theorem bigint_eq_some_iff {x y : Int} : bigint x = some y ↔ I64.InRange x ∧ y = x := by
  unfold bigint
  split
  · rename_i h
    exact Option.some_inj.trans ⟨fun heq => ⟨h, heq.symm⟩, fun heq => heq.2.symm⟩
  · rename_i h
    exact iff_of_false (fun heq => Option.some_ne_none y heq.symm) fun heq => h heq.1

theorem sum_unit (kind : BarKind) (trades : List Print) :
    (trades.map kind.unit).sum =
      match kind with
      | .tick => (trades.length : Int)
      | .volume => (trades.map Print.qtyE8).sum
      | .dollar => (trades.map Print.notionalE16).sum := by
  cases kind with
  | tick =>
    have hone : BarKind.tick.unit = fun _ => 1 := rfl
    simp [hone]
  | volume => rfl
  | dollar => rfl

theorem barSeq_totals (hunits : th.units ≤ I64.MAX) (hseen : ∀ q ∈ seen, q.Positive) :
    barSeq th (totals seen) = some ((seen.map th.kind.unit).sum / th.step) := by
  have hpos := th.units_pos
  have hnonneg := sum_unit_nonneg th.kind hseen
  have hrange : I64.InRange th.units := ⟨le_trans (by decide) hpos.le, hunits⟩
  have hstep : hugeint (th.units * SCALE) = some (th.units * SCALE) := by
    unfold I64.MAX at hunits
    exact hugeint_of_lt (by unfold SCALE; omega) (by unfold SCALE; omega)
  rw [← Int.tdiv_eq_ediv_of_nonneg hnonneg, sum_unit, barSeq, bigint_eq_some_iff.2 ⟨hrange, rfl⟩]
  unfold Threshold.step
  cases th.kind with
  | tick => rfl
  | volume => rfl
  | dollar => exact congrArg (Option.map _) hstep

theorem numberedRow_eq_some_iff (hseen : ∀ q ∈ seen, q.Positive) (hp : p.Positive)
    (row : Print × Int) :
    numberedRow th (seen, p) = some row ↔
      Fits th (seen, p) ∧ some (p, (seen.map th.kind.unit).sum / th.step) = some row := by
  constructor
  · intro h
    obtain ⟨c, hc, h⟩ := Option.bind_eq_some_iff.1 h
    obtain ⟨⟨hvol, husd⟩, rfl⟩ := (cumulated_eq_some_iff hseen hp c).1 hc
    obtain ⟨seq, hseq, h⟩ := Option.map_eq_some_iff.1 h
    obtain ⟨units, hunits, hrest⟩ := Option.bind_eq_some_iff.1 hseq
    obtain ⟨hrange, rfl⟩ := bigint_eq_some_iff.1 hunits
    rw [barSeq_totals hrange.2 hseen] at hseq
    refine ⟨⟨hrange.2, hvol, husd⟩, ?_⟩
    rw [Option.some.inj hseq, h]
  · rintro ⟨⟨hunits, hvol, husd⟩, h⟩
    have hc := (cumulated_eq_some_iff hseen hp (totals seen)).2 ⟨⟨hvol, husd⟩, rfl⟩
    rw [numberedRow, hc, Option.bind_some, barSeq_totals hunits hseen, Option.map_some, h]

theorem bar_eq_some_iff {kind : BarKind} {k : SymbolDay} {n : Int} {trades : List Print}
    (h : Group n trades) (b : EngineBar) :
    bar kind k n trades = some b ↔ n < 2147483648 ∧ exactBar kind (k, n) trades = some b := by
  cases trades with
  | nil => simp [bar, exactBar]
  | cons p ps =>
    have hvolume := h.volume_inRange
    have hnonneg := h.notional_nonneg
    have hlt := h.notional_lt
    have hvol : hugeint ((p :: ps).map Print.qtyE8).sum = some ((p :: ps).map Print.qtyE8).sum := by
      unfold I64.InRange I64.MIN I64.MAX at hvolume
      exact if_pos ⟨by omega, by omega⟩
    have husd : hugeint ((p :: ps).map Print.notionalE16).sum =
        some ((p :: ps).map Print.notionalE16).sum := hugeint_of_lt hnonneg (by omega)
    have hquote : ((p :: ps).map Print.notionalE16).sum.tdiv SCALE =
        ((p :: ps).map Print.notionalE16).sum / SCALE := Int.tdiv_eq_ediv_of_nonneg hnonneg
    have hbar : bar kind k n (p :: ps) = (integer n).bind fun seq =>
        some (EngineBar.ofReference kind ((k, seq), Reference.barOf p ps)) := by
      rw [bar, hvol, husd]
      simp only [Option.bind_eq_bind, Option.bind_some, hquote,
        bigint_eq_some_iff.2 ⟨hvolume, rfl⟩, bigint_eq_some_iff.2 ⟨h.quote_inRange, rfl⟩,
        argMin_eq h.sorted, argMax_eq h.sorted]
      rfl
    rw [hbar, integer]
    by_cases hn : n < 2147483648
    · have hnumber := h.number
      rw [if_pos ⟨by omega, hn⟩, Option.bind_some]
      exact (and_iff_right hn).symm
    · rw [if_neg fun hrange => hn hrange.2]
      exact iff_of_false (fun hnone => Option.some_ne_none b hnone.symm) fun hboth => hn hboth.1

/-- **A day in DuckDB**: it returns just when its numbers fit, and then the bars of the day. -/
theorem dayBars_eq_some_iff {k : SymbolDay} {day : List Print} (h : Regular th day)
    (rows : List EngineBar) :
    dayBars th k day = some rows ↔
      ((∀ e ∈ pasts [] day, Fits th e) ∧
        ∀ e ∈ pasts [] day, (e.1.map th.kind.unit).sum / th.step < 2147483648) ∧
      rows = (groups (exactNumbered th day)).filterMap fun g => exactBar th.kind (k, g.1) g.2 := by
  have hnumbered : ∀ l, (pasts [] day).mapM (numberedRow th) = some l ↔
      (∀ e ∈ pasts [] day, Fits th e) ∧ l = exactNumbered th day := by
    intro l
    have hmap := mapM_eq_some_iff (f := numberedRow th) (P := Fits th)
      (g := fun e => some (e.2, (e.1.map th.kind.unit).sum / th.step))
      (fun e he => numberedRow_eq_some_iff (h.past he).1 (h.past he).2) (fun _ _ => rfl) l
    rw [hmap, exactNumbered, List.filterMap_eq_map']
  have hgroups : ∀ l,
      (groups (exactNumbered th day)).mapM (fun g => bar th.kind k g.1 g.2) = some l ↔
      (∀ g ∈ groups (exactNumbered th day), g.1 < 2147483648) ∧
        l = (groups (exactNumbered th day)).filterMap fun g => exactBar th.kind (k, g.1) g.2 := by
    refine mapM_eq_some_iff (fun g hg => bar_eq_some_iff (h.group hg)) fun g hg => ?_
    obtain ⟨heq, hne⟩ := mem_groups.1 hg
    obtain ⟨p, ps, hcons⟩ := List.exists_cons_of_ne_nil hne
    rw [heq, hcons]
    rfl
  have hnumbers : (∀ g ∈ groups (exactNumbered th day), g.1 < 2147483648) ↔
      ∀ e ∈ pasts [] day, (e.1.map th.kind.unit).sum / th.step < 2147483648 := by
    rw [forall_groups (P := fun n : Int => n < 2147483648), exactNumbered, List.forall_mem_map]
  rw [dayBars, Option.bind_eq_some_iff, ← hnumbers]
  constructor
  · rintro ⟨l, hl, hrows⟩
    obtain ⟨hfits, rfl⟩ := (hnumbered l).1 hl
    obtain ⟨hnumber, hrows⟩ := (hgroups rows).1 hrows
    exact ⟨⟨hfits, hnumber⟩, hrows⟩
  · rintro ⟨⟨hfits, hnumber⟩, hrows⟩
    exact ⟨_, (hnumbered _).2 ⟨hfits, rfl⟩, (hgroups rows).2 ⟨hnumber, hrows⟩⟩

/-- **DuckDB** returns just when the numbers of every day fit, and then the bars of the days. -/
theorem bars_eq_some_iff {trades : List Print}
    (h : ∀ k ∈ symbolDays trades, Regular th (dayTrades trades k)) (rows : List EngineBar) :
    bars th trades = some rows ↔
      (∀ k ∈ symbolDays trades, (∀ e ∈ pasts [] (dayTrades trades k), Fits th e) ∧
        ∀ e ∈ pasts [] (dayTrades trades k), (e.1.map th.kind.unit).sum / th.step < 2147483648) ∧
      rows = exactBars th trades := by
  have hdays := mapM_eq_some_iff (l := symbolDays trades)
    (g := fun k => some ((groups (exactNumbered th (dayTrades trades k))).filterMap fun g =>
      exactBar th.kind (k, g.1) g.2))
    (fun k hk day => (dayBars_eq_some_iff (h k hk) day).trans
      (and_congr_right' (eq_comm.trans Option.some_inj.symm))) (fun _ _ => rfl)
  rw [bars, Option.map_eq_some_iff]
  constructor
  · rintro ⟨l, hl, rfl⟩
    obtain ⟨hfits, rfl⟩ := (hdays l).1 hl
    refine ⟨hfits, ?_⟩
    rw [List.filterMap_eq_map', exactBars, List.flatMap_def]
  · rintro ⟨hfits, rfl⟩
    refine ⟨_, (hdays _).2 ⟨hfits, rfl⟩, ?_⟩
    rw [List.filterMap_eq_map', exactBars, List.flatMap_def]

end DuckDB

/-! ## Spark, day by day -/

/-- The row of `c` for a trade and those before it. -/
def cumulatedRow (e : List Print × Print) : Cumulated where
  print := e.2
  volBefore := I64.wrap (I64.wrap ((e.1 ++ [e.2]).map Print.qtyE8).sum - e.2.qtyE8)
  usdBefore := (decimal38 ((e.1 ++ [e.2]).map Print.notionalE16).sum).bind fun sum =>
    decimal38 (sum - e.2.notionalE16)
  nBefore := (e.1 ++ [e.2]).length - 1

theorem running_eq (l : List Print) : ∀ seen, running seen l = (pasts seen l).map cumulatedRow := by
  induction l with
  | nil => exact fun _ => rfl
  | cons p ps ih =>
    intro seen
    rw [running, pasts, List.map_cons, ← ih]
    rfl

/-- The `bar_seq` of a trade, before it is cast to INT. -/
def sparkSeq (th : Threshold) (e : List Print × Print) : Option Int := barSeq th (cumulatedRow e)

def sparkDay (th : Threshold) (k : SymbolDay) (day : List Print) : List EngineBar :=
  (groups ((pasts [] day).map fun e => (e.2, sparkSeq th e))).filterMap fun g =>
    (bar 0 0 th k g.1 g.2).map Bar.engine

theorem filter_thresholdsOf (th : Threshold) {trades : List Print} {k : SymbolDay}
    (hk : k ∈ symbolDays trades) :
    ((thresholdsOf th trades).filter fun t => t.canonicalSymbol = k.canonicalSymbol) =
      [{ th with canonicalSymbol := k.canonicalSymbol }] := by
  obtain ⟨p, hp, rfl⟩ := List.mem_map.1 (List.mem_dedup.1 hk)
  have hsymbol : p.canonicalSymbol ∈ trades.map Print.canonicalSymbol := List.mem_map_of_mem hp
  have hone : (trades.map Print.canonicalSymbol).dedup.filter (fun s => s = p.canonicalSymbol) =
      [p.canonicalSymbol] := by
    rw [List.filter_eq, List.count_dedup, if_pos hsymbol, List.replicate_one]
  rw [thresholdsOf, List.filter_map]
  exact congrArg (List.map _) hone

theorem sparkBars_eq (th : Threshold) (trades : List Print) :
    sparkBars th trades =
      (symbolDays trades).flatMap fun k => sparkDay th.saturated k (dayTrades trades k) := by
  rw [sparkBars, bars, List.map_flatMap]
  refine List.flatMap_congr fun k hk => ?_
  have hnumbered : numbered { th.saturated with canonicalSymbol := k.canonicalSymbol }
      (trades.filter fun p => p.symbolDay = k) =
        (pasts [] (dayTrades trades k)).map fun e => (e.2, sparkSeq th.saturated e) := by
    rw [numbered, running_eq, List.map_map]
    rfl
  rw [dayBars, filter_thresholdsOf th.saturated hk, List.flatMap_singleton, thresholdBars,
    hnumbered, sparkDay, groups, List.filterMap_map, List.map_filterMap]
  rfl

section Spark

variable {th : Threshold} {k : SymbolDay} {n : Int} {trades seen : List Print} {p : Print}

theorem spark_row_eq (h : Group n trades) (hn : n < 2147483648) :
    (bar 0 0 th k (some n) trades).map Bar.engine = exactBar th.kind (k, n) trades := by
  cases trades with
  | nil => rfl
  | cons p ps =>
    have hnumber := h.number
    have hnonneg := h.notional_nonneg
    have hlt := h.notional_lt
    have hdecimal : decimal38 ((p :: ps).map Print.notionalE16).sum =
        some ((p :: ps).map Print.notionalE16).sum := if_pos (by omega)
    have hquote : I64.wrap (((p :: ps).map Print.notionalE16).sum.tdiv SCALE) =
        ((p :: ps).map Print.notionalE16).sum / SCALE := by
      rw [Int.tdiv_eq_ediv_of_nonneg hnonneg, I64.wrap_of_inRange h.quote_inRange]
    have hseq : I32.wrap n = n := I32.wrap_of_inRange ⟨by omega, hn⟩
    rw [bar, hdecimal, I64.wrap_of_inRange h.volume_inRange, firstPrint_eq h.sorted,
      lastPrint_eq h.sorted]
    simp only [Option.map_some, hquote, hseq]
    rfl

theorem wrap_wrap_sub (x y : Int) : I64.wrap (I64.wrap x - y) = I64.wrap (x - y) := by
  unfold I64.wrap
  omega

theorem volBefore_eq (e : List Print × Print) :
    (cumulatedRow e).volBefore = I64.wrap (e.1.map Print.qtyE8).sum := by
  rw [cumulatedRow, wrap_wrap_sub, sum_concat, Int.add_sub_cancel]

theorem usdBefore_eq (hseen : ∀ q ∈ seen, q.Positive) (hp : p.Positive) :
    (cumulatedRow (seen, p)).usdBefore =
      if ((p :: seen).map Print.notionalE16).sum < 10 ^ 38 then
        some (seen.map Print.notionalE16).sum
      else none := by
  have hnonneg : 0 ≤ (seen.map Print.notionalE16).sum :=
    sum_nonneg_of_forall fun q hq => (hseen q hq).notional.1
  have hpos := hp.notional.1
  simp only [cumulatedRow, sum_concat, List.map_cons, List.sum_cons]
  by_cases hlt : p.notionalE16 + (seen.map Print.notionalE16).sum < 10 ^ 38
  · have hall : decimal38 ((seen.map Print.notionalE16).sum + p.notionalE16) =
        some ((seen.map Print.notionalE16).sum + p.notionalE16) := if_pos (by omega)
    rw [if_pos hlt, hall, Option.bind_some, Int.add_sub_cancel]
    exact if_pos (by omega)
  · have hall : decimal38 ((seen.map Print.notionalE16).sum + p.notionalE16) = none :=
      if_neg (by omega)
    rw [if_neg hlt, hall, Option.bind_none]

theorem saturated_units (h : th.units ≤ I64.MAX) : th.saturated.units = th.units := min_eq_left h

theorem sparkSeq_tick (hkind : th.kind = .tick) (e : List Print × Print) :
    sparkSeq th e = some ((e.1.length : Int).tdiv th.units) := by
  have hlength : ((e.1 ++ [e.2]).length : Int) - 1 = e.1.length := by simp
  unfold sparkSeq barSeq
  rw [hkind]
  exact congrArg (fun n : Int => some (n.tdiv th.units)) hlength

theorem sparkSeq_volume (hkind : th.kind = .volume) (e : List Print × Print) :
    sparkSeq th e = some ((I64.wrap (e.1.map Print.qtyE8).sum).tdiv th.units) := by
  rw [← volBefore_eq]
  unfold sparkSeq barSeq
  rw [hkind]

theorem sparkSeq_dollar (hkind : th.kind = .dollar) (e : List Print × Print) :
    sparkSeq th e =
      (cumulatedRow e).usdBefore.map fun usd => I64.wrap (usd.tdiv (th.units * SCALE)) := by
  unfold sparkSeq barSeq
  rw [hkind]

theorem sparkSeq_eq (hseen : ∀ q ∈ seen, q.Positive) (hp : p.Positive) (h : InWidth th seen p) :
    sparkSeq th.saturated (seen, p) = some ((seen.map th.kind.unit).sum / th.step) := by
  have hnonneg := sum_unit_nonneg th.kind hseen
  have hquotient : (seen.map th.kind.unit).sum / th.step < 2147483648 :=
    Int.ediv_lt_of_lt_mul th.step_pos h.number
  have hquotient' : 0 ≤ (seen.map th.kind.unit).sum / th.step :=
    Int.ediv_nonneg hnonneg th.step_pos.le
  rw [← Int.tdiv_eq_ediv_of_nonneg hnonneg] at hquotient hquotient' ⊢
  rw [DuckDB.sum_unit] at hquotient hquotient' hnonneg ⊢
  unfold Threshold.step at hquotient hquotient' ⊢
  cases hkind : th.kind with
  | tick =>
    rw [sparkSeq_tick (show th.saturated.kind = .tick from hkind), saturated_units h.units]
  | volume =>
    simp only [hkind] at hnonneg
    have hrange : I64.InRange (seen.map Print.qtyE8).sum :=
      ⟨le_trans (by decide) hnonneg, h.volume hkind⟩
    rw [sparkSeq_volume (show th.saturated.kind = .volume from hkind), saturated_units h.units,
      I64.wrap_of_inRange hrange]
  | dollar =>
    simp only [hkind] at hquotient hquotient'
    have hrange : I64.InRange ((seen.map Print.notionalE16).sum.tdiv (th.units * SCALE)) := by
      unfold I64.InRange I64.MIN I64.MAX
      omega
    rw [sparkSeq_dollar (show th.saturated.kind = .dollar from hkind), saturated_units h.units,
      usdBefore_eq hseen hp, if_pos (h.dollar hkind), Option.map_some, I64.wrap_of_inRange hrange]

/-- A total that has left BIGINT gives a smaller number. -/
theorem wrapped_number {x u : Int} (hx : 0 ≤ x) (hu : 0 < u) (hmax : u ≤ I64.MAX)
    (hn : x / u < 2147483648) :
    I32.wrap ((I64.wrap x).tdiv u) ≤ x / u ∧
      (I64.MAX < x → I32.wrap ((I64.wrap x).tdiv u) < x / u) := by
  by_cases hfit : x ≤ I64.MAX
  · have hwrap : I64.wrap x = x := I64.wrap_of_inRange ⟨le_trans (by decide) hx, hfit⟩
    have hnonneg : 0 ≤ x / u := Int.ediv_nonneg hx hu.le
    have heq : I32.wrap ((I64.wrap x).tdiv u) = x / u := by
      rw [hwrap, Int.tdiv_eq_ediv_of_nonneg hx]
      exact I32.wrap_of_inRange ⟨by omega, hn⟩
    exact ⟨heq.le, fun hlarge => absurd hfit (not_le.2 hlarge)⟩
  · have hlarge : I64.MAX < x := not_le.1 hfit
    have hbound : x < 2147483648 * u := (Int.ediv_lt_iff_lt_mul hu).1 hn
    have hdiv : x < (x / u + 1) * u := Int.lt_ediv_add_one_mul_self x hu
    rw [Int.add_mul, Int.one_mul] at hdiv
    have hone : 1 ≤ x / u := Int.le_ediv_of_mul_le hu (by omega)
    obtain ⟨c, hc⟩ := I64.wrap_eq_sub x
    obtain ⟨hlow, hhigh⟩ := I64.wrap_inRange x
    unfold I64.MIN I64.MAX at *
    -- the wrapped total is at least a threshold short of the exact one
    have hlt : I32.wrap ((I64.wrap x).tdiv u) < x / u := by
      by_cases hneg : 0 ≤ I64.wrap x
      · have hless : I64.wrap x / u < x / u := (Int.ediv_lt_iff_lt_mul hu).2 (by omega)
        have hnonneg : 0 ≤ I64.wrap x / u := Int.ediv_nonneg hneg hu.le
        rw [Int.tdiv_eq_ediv_of_nonneg hneg, I32.wrap_of_inRange ⟨by omega, by omega⟩]
        exact hless
      · have hquotient : -I64.wrap x / u < 2147483648 := (Int.ediv_lt_iff_lt_mul hu).2 (by omega)
        have hnonneg : 0 ≤ -I64.wrap x / u := Int.ediv_nonneg (by omega) hu.le
        have htdiv : (I64.wrap x).tdiv u = -(-I64.wrap x / u) := by
          rw [← Int.tdiv_eq_ediv_of_nonneg (by omega), Int.neg_tdiv, Int.neg_neg]
        rw [htdiv, I32.wrap_of_inRange ⟨by omega, by omega⟩]
        omega
    exact ⟨hlt.le, fun _ => hlt⟩

end Spark

/-! ## The numbers of the rows, counted trade by trade -/

/-- The numbers of the bars, once for each of their trades. -/
def numberWeight (rows : List EngineBar) : Int :=
  (rows.map fun b => b.barSeq.getD 0 * (b.tradeCount : Int)).sum

theorem numberWeight_flatMap {κ : Type} (f : κ → List EngineBar) (ks : List κ) :
    numberWeight (ks.flatMap f) = (ks.map fun k => numberWeight (f k)).sum := by
  induction ks with
  | nil => rfl
  | cons k ks ih =>
    rw [List.map_cons, List.sum_cons, ← ih, List.flatMap_cons, numberWeight, List.map_append,
      List.sum_append]
    rfl

theorem numberWeight_filterMap {κ : Type} {f : κ → Option EngineBar} {w : κ → Int} {gs : List κ}
    (h : ∀ g ∈ gs, ∃ b, f g = some b ∧ b.barSeq.getD 0 * (b.tradeCount : Int) = w g) :
    numberWeight (gs.filterMap f) = (gs.map w).sum := by
  induction gs with
  | nil => rfl
  | cons g gs ih =>
    obtain ⟨⟨b, hb, hw⟩, h⟩ := List.forall_mem_cons.1 h
    rw [List.filterMap_cons_some hb, List.map_cons, List.sum_cons, ← ih h, ← hw]
    rfl

section Weights

variable {th : Threshold} {k : SymbolDay} {day : List Print}

theorem numberWeight_sparkDay (th : Threshold) (k : SymbolDay) (day : List Print) :
    numberWeight (sparkDay th k day) =
      ((pasts [] day).map fun e => ((sparkSeq th e).map I32.wrap).getD 0).sum := by
  have hgroups := sum_groups (fun seq : Option Int => (seq.map I32.wrap).getD 0)
    ((pasts [] day).map fun e => (e.2, sparkSeq th e))
  rw [List.map_map] at hgroups
  rw [sparkDay, numberWeight_filterMap (fun g hg => ?_)]
  · exact hgroups
  · obtain ⟨heq, hne⟩ := mem_groups.1 hg
    obtain ⟨p, ps, hcons⟩ := List.exists_cons_of_ne_nil hne
    rw [heq, hcons]
    exact ⟨_, rfl, rfl⟩

theorem numberWeight_exactDay (th : Threshold) (k : SymbolDay) (day : List Print) :
    numberWeight ((groups (exactNumbered th day)).filterMap fun g =>
        exactBar th.kind (k, g.1) g.2) =
      ((pasts [] day).map fun e => (e.1.map th.kind.unit).sum / th.step).sum := by
  have hgroups := sum_groups (fun n : Int => n) (exactNumbered th day)
  rw [exactNumbered, List.map_map] at hgroups
  rw [numberWeight_filterMap (fun g hg => ?_)]
  · exact hgroups
  · obtain ⟨heq, hne⟩ := mem_groups.1 hg
    obtain ⟨p, ps, hcons⟩ := List.exists_cons_of_ne_nil hne
    rw [heq, hcons]
    exact ⟨_, rfl, rfl⟩

end Weights

/-! ## Spark's bars are the same just when its totals fit -/

section Totals

variable {th : Threshold} {trades : List Print}

/-- Equal sums of terms of which none is larger than its counterpart. -/
theorem forall_not_lt_of_sum_eq {α : Type} {f g : α → Int} {l : List α} (hle : ∀ a ∈ l, f a ≤ g a)
    (hsum : (l.map f).sum = (l.map g).sum) : ∀ a ∈ l, ¬ f a < g a := fun a ha hlt =>
  (List.sum_lt_sum f g hle ⟨a, ha, hlt⟩).ne hsum

theorem volume_of_perm (h : ∀ k ∈ symbolDays trades, Regular th (dayTrades trades k))
    (hunits : ∀ k ∈ symbolDays trades, ∀ e ∈ pasts [] (dayTrades trades k), th.units ≤ I64.MAX)
    (hnumber : ∀ k ∈ symbolDays trades, ∀ e ∈ pasts [] (dayTrades trades k),
      (e.1.map th.kind.unit).sum / th.step < 2147483648)
    (hperm : (sparkBars th trades).Perm (exactBars th trades)) (hkind : th.kind = .volume) :
    ∀ k ∈ symbolDays trades, ∀ e ∈ pasts [] (dayTrades trades k),
      (e.1.map Print.qtyE8).sum ≤ I64.MAX := by
  have hseq : ∀ k ∈ symbolDays trades, ∀ e ∈ pasts [] (dayTrades trades k),
      ((sparkSeq th.saturated e).map I32.wrap).getD 0 ≤ (e.1.map th.kind.unit).sum / th.step ∧
        (I64.MAX < (e.1.map Print.qtyE8).sum →
          ((sparkSeq th.saturated e).map I32.wrap).getD 0 <
            (e.1.map th.kind.unit).sum / th.step) := by
    intro k hk e he
    have hnonneg := sum_unit_nonneg th.kind ((h k hk).past he).1
    have hn := hnumber k hk e he
    have hstep : th.step = th.units := by
      unfold Threshold.step
      rw [hkind]
    rw [sparkSeq_volume (show th.saturated.kind = .volume from hkind),
      saturated_units (hunits k hk e he)]
    rw [hkind, hstep] at hn ⊢
    rw [hkind] at hnonneg
    exact wrapped_number hnonneg th.units_pos (hunits k hk e he) hn
  have hsum : numberWeight (sparkBars th trades) = numberWeight (exactBars th trades) :=
    (hperm.map _).sum_eq
  rw [sparkBars_eq, exactBars, numberWeight_flatMap, numberWeight_flatMap] at hsum
  simp only [numberWeight_sparkDay, numberWeight_exactDay] at hsum
  have hday := forall_not_lt_of_sum_eq
    (fun k hk => List.sum_le_sum fun e he => (hseq k hk e he).1) hsum
  intro k hk e he
  by_contra hlarge
  refine hday k hk (List.sum_lt_sum _ _ (fun e he => (hseq k hk e he).1) ⟨e, he, ?_⟩)
  exact (hseq k hk e he).2 (not_le.1 hlarge)

theorem dollar_of_perm (h : ∀ k ∈ symbolDays trades, Regular th (dayTrades trades k))
    (hperm : (sparkBars th trades).Perm (exactBars th trades)) (hkind : th.kind = .dollar) :
    ∀ k ∈ symbolDays trades, ∀ e ∈ pasts [] (dayTrades trades k),
      ((e.2 :: e.1).map Print.notionalE16).sum < 10 ^ 38 := by
  intro k hk e he
  by_contra hlarge
  obtain ⟨hseen, hp⟩ := (h k hk).past he
  have hnull : sparkSeq th.saturated e = none := by
    rw [sparkSeq_dollar (show th.saturated.kind = .dollar from hkind), usdBefore_eq hseen hp,
      if_neg hlarge]
    rfl
  -- the trade is in a bar whose number is NULL
  have hgroup : e.2 ∈ groupOf none
      ((pasts [] (dayTrades trades k)).map fun e => (e.2, sparkSeq th.saturated e)) := by
    refine mem_groupOf.2 (List.mem_map.2 ⟨e, he, ?_⟩)
    rw [hnull]
  obtain ⟨p, ps, hcons⟩ := List.exists_cons_of_ne_nil (List.ne_nil_of_mem hgroup)
  have hmem : ((bar 0 0 th.saturated k none (p :: ps)).map Bar.engine).isSome = true := rfl
  obtain ⟨b, hb⟩ := Option.isSome_iff_exists.1 hmem
  have hrow : b ∈ sparkBars th trades := by
    rw [sparkBars_eq]
    refine List.mem_flatMap.2 ⟨k, hk, List.mem_filterMap.2 ⟨(none, p :: ps), ?_, hb⟩⟩
    exact mem_groups.2 ⟨hcons.symm, List.ne_nil_of_mem hgroup⟩
  have hseq : b.barSeq = none := by
    rw [← Option.some.inj hb]
    rfl
  obtain ⟨k', _, hb'⟩ := List.mem_flatMap.1 (hperm.mem_iff.1 hrow)
  obtain ⟨g, hg, hb'⟩ := List.mem_filterMap.1 hb'
  obtain ⟨heq, hne⟩ := mem_groups.1 hg
  obtain ⟨q, qs, hcons'⟩ := List.exists_cons_of_ne_nil hne
  rw [heq, hcons'] at hb'
  rw [← Option.some.inj hb'] at hseq
  cases hseq

theorem regular_of_reference (hdistinct : Distinct trades) (hpositive : ∀ p ∈ trades, p.Positive)
    (hfits : ∀ row ∈ reference th trades,
      I64.InRange row.2.volumeE8 ∧ I64.InRange row.2.quoteVolumeE8) (k : SymbolDay)
    (hk : k ∈ symbolDays trades) : Regular th (dayTrades trades k) where
  sorted := dayTrades_sorted hdistinct k
  positive p hp := hpositive p (mem_dayTrades.1 hp).1
  ranged g hg := by
    obtain ⟨heq, hne⟩ := mem_groups.1 hg
    obtain ⟨p, ps, hcons⟩ := List.exists_cons_of_ne_nil hne
    rw [hcons] at heq
    have hbar : EngineBar.ofReference th.kind ((k, g.1), Reference.barOf p ps) ∈
        exactBars th trades := by
      refine List.mem_flatMap.2 ⟨k, hk, List.mem_filterMap.2 ⟨g, hg, ?_⟩⟩
      rw [heq]
      rfl
    obtain ⟨row, hrow, heq'⟩ := List.mem_map.1 ((reference_perm th hdistinct).mem_iff.2 hbar)
    obtain ⟨hvolume, hquote⟩ := hfits row hrow
    have hvolume' : row.2.volumeE8 = (Reference.barOf p ps).volumeE8 :=
      congrArg EngineBar.volumeE8 heq'
    have hquote' : row.2.quoteVolumeE8 = (Reference.barOf p ps).quoteVolumeE8 :=
      Option.some.inj (congrArg EngineBar.quoteVolumeE8 heq')
    rw [hvolume'] at hvolume
    rw [hquote'] at hquote
    rw [heq]
    exact ⟨hvolume.2, hquote.2⟩

theorem sparkDay_eq {k : SymbolDay} {day : List Print} (h : Regular th day)
    (hwidth : ∀ e ∈ pasts [] day, InWidth th e.1 e.2) :
    sparkDay th.saturated k day =
      (groups (exactNumbered th day)).filterMap fun g => exactBar th.kind (k, g.1) g.2 := by
  have hnumbered : ((pasts [] day).map fun e => (e.2, sparkSeq th.saturated e)) =
      (exactNumbered th day).map fun e => (e.1, some e.2) := by
    rw [exactNumbered, List.map_map]
    refine List.map_congr_left fun e he => ?_
    rw [sparkSeq_eq (h.past he).1 (h.past he).2 (hwidth e he)]
    rfl
  have hnumber : ∀ g ∈ groups (exactNumbered th day), g.1 < 2147483648 := by
    refine forall_groups (P := fun n : Int => n < 2147483648).2 ?_
    rw [exactNumbered, List.forall_mem_map]
    exact fun e he => Int.ediv_lt_of_lt_mul th.step_pos (hwidth e he).number
  rw [sparkDay, hnumbered, groups_map (Option.some_injective Int), List.filterMap_map]
  exact List.filterMap_congr fun g hg => spark_row_eq (h.group hg) (hnumber g hg)

end Totals

/-- **When the engines agree.**  Over trades of distinct order, with prices, quantities and bars
    that are in BIGINT, both dialects give the bars of the reference exactly when, at every trade,
    the totals of its day fit where the engines keep them. -/
theorem engines_agree_iff (th : Threshold) (trades : List Print) (hdistinct : Distinct trades)
    (hpositive : ∀ p ∈ trades, p.Positive)
    (hfits : ∀ row ∈ reference th trades,
      I64.InRange row.2.volumeE8 ∧ I64.InRange row.2.quoteVolumeE8) :
    EnginesAgree th trades ↔ ∀ p ∈ trades, InWidth th (before trades p) p := by
  have hregular := regular_of_reference hdistinct hpositive hfits
  have hreference := reference_perm th hdistinct
  rw [inWidth_iff hdistinct]
  constructor
  · rintro ⟨hspark, rows, hduckdb, _⟩
    obtain ⟨hduckdb, _⟩ := (DuckDB.bars_eq_some_iff hregular rows).1 hduckdb
    have hperm := hspark.trans hreference
    intro k hk e he
    obtain ⟨hunits, hvolume, hnotional⟩ := (hduckdb k hk).1 e he
    have hwrapped := volume_of_perm hregular (fun k hk e he => ((hduckdb k hk).1 e he).units)
      (fun k hk => (hduckdb k hk).2) hperm
    have hnull := dollar_of_perm hregular hperm
    refine ⟨hunits, (Int.ediv_lt_iff_lt_mul th.step_pos).1 ((hduckdb k hk).2 e he), ?_, ?_, hvolume,
      hnotional⟩
    · exact fun hkind => hwrapped hkind k hk e he
    · exact fun hkind => hnull hkind k hk e he
  · intro hwidth
    have hduckdb : DuckDB.bars th trades = some (exactBars th trades) := by
      refine (DuckDB.bars_eq_some_iff hregular _).2
        ⟨fun k hk => ⟨fun e he => ?_, fun e he => ?_⟩, rfl⟩
      · have h := hwidth k hk e he
        exact ⟨h.units, h.hugeVolume, h.hugeNotional⟩
      · exact Int.ediv_lt_of_lt_mul th.step_pos (hwidth k hk e he).number
    refine ⟨?_, exactBars th trades, hduckdb, hreference.symm⟩
    refine (List.Perm.of_eq ?_).trans hreference.symm
    rw [sparkBars_eq, exactBars]
    exact List.flatMap_congr fun k hk => sparkDay_eq (hregular k hk) (hwidth k hk)

/-- A trade at its own second. -/
def dealt (second priceE8 qtyE8 : Int) : Print :=
  ⟨.kraken, "BTC/USD", second * 1000000, second, second, priceE8, qtyE8⟩

/-- Two whole units to a bar. -/
def volumeOfTwo : Threshold := ⟨"BTC/USD", .volume, 20000000000, 200000000, by decide⟩

/-- 1.5, 1.5, 0.5 and 2 units. -/
def fourDealt : List Print :=
  [dealt 0 1000000000 150000000, dealt 1 1100000000 150000000, dealt 2 1200000000 50000000,
    dealt 3 1300000000 200000000]

theorem four_dealt_agree : EnginesAgree volumeOfTwo fourDealt := by
  refine (engines_agree_iff volumeOfTwo fourDealt (by decide +kernel) ?_ (by decide +kernel)).2 ?_
  · intro p hp
    simp only [fourDealt, List.mem_cons, List.not_mem_nil, or_false] at hp
    rcases hp with rfl | rfl | rfl | rfl
    all_goals exact ⟨by decide, by decide⟩
  · intro p hp
    simp only [fourDealt, List.mem_cons, List.not_mem_nil, or_false] at hp
    rcases hp with rfl | rfl | rfl | rfl
    all_goals exact ⟨by decide, by decide +kernel, by decide +kernel, by decide +kernel,
      by decide +kernel, by decide +kernel⟩

/-- Fifty thousand million units to a bar. -/
def volumeOfLots : Threshold :=
  ⟨"BTC/USD", .volume, 500000000000000000000, 5000000000000000000, by decide⟩

/-- As many, three times: the day holds more than a BIGINT, though no bar does. -/
def lotsDealt : List Print :=
  [dealt 0 1 5000000000000000000, dealt 1 1 5000000000000000000, dealt 2 1 5000000000000000000]

/-- Spark puts the third in a bar of the number -1. -/
theorem wrapped_total_disagrees : ¬ ∀ (th : Threshold) (trades : List Print), Distinct trades →
    (∀ p ∈ trades, p.Positive) →
    (∀ row ∈ reference th trades,
      I64.InRange row.2.volumeE8 ∧ I64.InRange row.2.quoteVolumeE8) →
    EnginesAgree th trades := by
  intro h
  have hagree := h volumeOfLots lotsDealt (by decide +kernel) (fun p hp => by
    simp only [lotsDealt, List.mem_cons, List.not_mem_nil, or_false] at hp
    rcases hp with rfl | rfl | rfl
    all_goals exact ⟨by decide, by decide⟩) (by decide +kernel)
  have hnumbers := hagree.spark.map EngineBar.barSeq
  have hnot : ¬ ((sparkBars volumeOfLots lotsDealt).map EngineBar.barSeq).Perm
      (((reference volumeOfLots lotsDealt).map
        (EngineBar.ofReference volumeOfLots.kind)).map EngineBar.barSeq) := by
    decide +kernel
  exact hnot hnumbers

end K2.Lake

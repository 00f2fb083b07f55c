import Mathlib.Algebra.Order.Field.Rat
import Mathlib.Tactic.Linarith
import Mathlib.Tactic.Ring
import K2Platform.Lib.Word

/-!
# Best bid and offer per second

Model of `docker/lake/books.py::bbo`, the projection of `gold.book_top20` to `gold.bbo_1s`, and
of the ClickHouse view `gold.bbo_live` over the same rows.  A `BIGINT` is the integer it
denotes and wraps, NULL is `none`, and a `DOUBLE` is the rational before it is rounded.

* `wrapped_ratio_eq_iff` — when a ratio of two wrapped positive integers is the exact one.
* `microprice_exact_iff` — the lake's microprice is the exact one, lies in the spread and is the
  view's exactly where that holds of its numerator and denominator.
-/

set_option autoImplicit false

namespace K2.Lake

/-! ## Spark arithmetic -/

namespace Spark

def add (a b : Option Int) : Option Int := a.bind fun x => b.map fun y => I64.wrap (x + y)

def sub (a b : Option Int) : Option Int := a.bind fun x => b.map fun y => I64.wrap (x - y)

def mul (a b : Option Int) : Option Int := a.bind fun x => b.map fun y => I64.wrap (x * y)

/-- `/` casts both sides to DOUBLE; a zero divisor gives NULL. -/
def div (a b : Option ℚ) : Option ℚ :=
  a.bind fun x => b.bind fun y => if y = 0 then none else some (x / y)

def double (a : Option Int) : Option ℚ := a.map Int.cast

theorem div_some {x y : ℚ} (h : y ≠ 0) : div (some x) (some y) = some (x / y) := if_neg h

end Spark

/-! ## The tables -/

/-- The columns of `gold.book_top20` that the projections read. -/
structure BookTop20 where
  exchange : String
  canonicalSymbol : String
  second : Int
  depth : Int
  checksumOk : Option Bool
  bidPxE8 : List Int
  bidQtyE8 : List Int
  askPxE8 : List Int
  askQtyE8 : List Int
  deriving DecidableEq, Repr

structure Bbo where
  exchange : String
  canonicalSymbol : String
  second : Int
  bidE8 : Option Int
  bidQtyE8 : Option Int
  askE8 : Option Int
  askQtyE8 : Option Int
  mid : Option ℚ
  spreadBps : Option ℚ
  imbalance : Option ℚ
  microprice : Option ℚ
  checksumOk : Option Bool
  srcSnapshotId : Int
  deriving DecidableEq

open Spark in
/-- One row of the projection; `bid_px_e8[0]` past the end of the array is NULL. -/
def bboRow (srcSnapshotId : Int) (book : BookTop20) : Bbo :=
  let bid := book.bidPxE8.head?
  let bidQty := book.bidQtyE8.head?
  let ask := book.askPxE8.head?
  let askQty := book.askQtyE8.head?
  { exchange := book.exchange
    canonicalSymbol := book.canonicalSymbol
    second := book.second
    bidE8 := bid
    bidQtyE8 := bidQty
    askE8 := ask
    askQtyE8 := askQty
    mid := div (double (add bid ask)) (some 200000000)
    spreadBps := (div (double (sub ask bid)) (div (double (add bid ask)) (some 2))).map (· * 10000)
    imbalance := div (double bidQty) (double (add bidQty askQty))
    microprice := div (div (double (add (mul bid askQty) (mul ask bidQty)))
      (double (add bidQty askQty))) (some 100000000)
    checksumOk := book.checksumOk
    srcSnapshotId := srcSnapshotId }

def bbo (books : List BookTop20) (srcSnapshotId : Int) : List Bbo :=
  (books.filter fun b => 0 < b.bidPxE8.length && 0 < b.askPxE8.length).map (bboRow srcSnapshotId)

/-- The derived columns of `gold.bbo_live`, which casts before it multiplies; a quotient that is
    not a finite number is `none`. -/
structure BboLive where
  bidE8 : Int
  bidQtyE8 : Int
  askE8 : Int
  askQtyE8 : Int
  mid : Option ℚ
  spreadBps : Option ℚ
  imbalance : Option ℚ
  microprice : Option ℚ
  deriving DecidableEq

open Spark in
/-- `bid_px[1]` past the end of the array is zero. -/
def bboLiveRow (book : BookTop20) : BboLive :=
  let bid := book.bidPxE8.headD 0
  let bidQty := book.bidQtyE8.headD 0
  let ask := book.askPxE8.headD 0
  let askQty := book.askQtyE8.headD 0
  { bidE8 := bid
    bidQtyE8 := bidQty
    askE8 := ask
    askQtyE8 := askQty
    mid := some (((bid : ℚ) + ask) / 200000000)
    spreadBps := (div (some ((ask : ℚ) - bid)) (some (((bid : ℚ) + ask) / 2))).map (· * 10000)
    imbalance := div (some (bidQty : ℚ)) (some ((bidQty : ℚ) + askQty))
    microprice := div (div (some ((bid : ℚ) * askQty + (ask : ℚ) * bidQty))
      (some ((bidQty : ℚ) + askQty))) (some 100000000) }

def bboLive (books : List BookTop20) : List BboLive :=
  (books.filter fun b => 0 < b.depth).map bboLiveRow

/-! ## Wrapped ratios -/

/-- Both fit in 64 bits, or the denominator does not and the ratio is an integer `k` for which
    `k` times the wrapped denominator still fits. -/
def RatioSurvives (num den : Int) : Prop :=
  (den ≤ I64.MAX ∧ num ≤ I64.MAX) ∨
    (I64.MAX < den ∧ ∃ k, num = k * den ∧
      k * (18446744073709551616 - den) ≤ 9223372036854775808)

theorem wrapped_cross_eq_iff {num den : Int} (hnum : 0 < num) (hden : 0 < den)
    (hden' : den < 18446744073709551616) :
    I64.wrap num * den = num * I64.wrap den ↔ RatioSurvives num den := by
  rcases le_or_gt den I64.MAX with hle | hgt
  · have hwrap : I64.wrap den = den := I64.wrap_of_inRange ⟨by unfold I64.MIN; omega, hle⟩
    rw [hwrap, mul_left_inj' hden.ne', I64.wrap_eq_iff]
    constructor
    · exact fun h => Or.inl ⟨hle, h.2⟩
    · rintro (h | h)
      · exact ⟨by unfold I64.MIN; omega, h.2⟩
      · omega
  · have hwrap : I64.wrap den = den - 18446744073709551616 := by
      unfold I64.MAX at hgt
      unfold I64.wrap
      omega
    obtain ⟨q, hq⟩ := I64.wrap_eq_sub num
    have hrange := I64.wrap_inRange num
    constructor
    · intro h
      rw [hwrap, hq] at h
      have hmul : num = q * den := by linarith
      refine Or.inr ⟨hgt, q, hmul, ?_⟩
      have hlow := hrange.1
      unfold I64.MIN at hlow
      rw [hq] at hlow
      linarith
    · rintro (h | ⟨_, k, hk, hbound⟩)
      · omega
      · have hkpos : 0 < k := pos_of_mul_pos_left (hk ▸ hnum) hden.le
        have hin : I64.InRange (num - 18446744073709551616 * k) := by
          have hprod : 0 < k * (18446744073709551616 - den) := mul_pos hkpos (by omega)
          unfold I64.InRange I64.MIN I64.MAX
          constructor <;> linarith
        have hnumwrap : I64.wrap num = num - 18446744073709551616 * k := by
          have hsame : I64.wrap num = I64.wrap (num - 18446744073709551616 * k) := by
            unfold I64.wrap
            omega
          rw [hsame, I64.wrap_of_inRange hin]
        rw [hwrap, hnumwrap, hk]
        ring

theorem wrap_ne_zero {den : Int} (hden : 0 < den) (hden' : den < 18446744073709551616) :
    I64.wrap den ≠ 0 := by
  unfold I64.wrap
  omega

theorem wrapped_ratio_eq_iff {num den : Int} (hnum : 0 < num) (hden : 0 < den)
    (hden' : den < 18446744073709551616) :
    (I64.wrap num : ℚ) / I64.wrap den = (num : ℚ) / den ↔ RatioSurvives num den := by
  have hne : (I64.wrap den : ℚ) ≠ 0 := by exact_mod_cast wrap_ne_zero hden hden'
  have hne' : (den : ℚ) ≠ 0 := by exact_mod_cast hden.ne'
  rw [div_eq_div_iff hne hne', ← wrapped_cross_eq_iff hnum hden hden']
  exact_mod_cast Iff.rfl

/-! ## The microprice -/

/-- A row with both sides: the best levels, positive and not crossed. -/
structure BookTop20.Quoted (book : BookTop20) (bid bidQty ask askQty : Int) : Prop where
  best_bid : book.bidPxE8.head? = some bid
  best_bidQty : book.bidQtyE8.head? = some bidQty
  best_ask : book.askPxE8.head? = some ask
  best_askQty : book.askQtyE8.head? = some askQty
  bid_pos : 0 < bid
  bidQty_pos : 0 < bidQty
  askQty_pos : 0 < askQty
  uncrossed : bid ≤ ask
  ask_le : ask ≤ I64.MAX
  bidQty_le : bidQty ≤ I64.MAX
  askQty_le : askQty ≤ I64.MAX

/-- `(bid x ask_qty + ask x bid_qty) / (bid_qty + ask_qty)`, in quote currency. -/
def exactMicroprice (bid bidQty ask askQty : Int) : ℚ :=
  ((bid * askQty + ask * bidQty : Int) : ℚ) / (bidQty + askQty : Int) / 100000000

/-- A mean of two numbers with positive weights lies between them. -/
theorem exactMicroprice_mem_spread {bid bidQty ask askQty : Int} (hb : 0 < bidQty)
    (ha : 0 < askQty) (h : bid ≤ ask) :
    (bid : ℚ) / 100000000 ≤ exactMicroprice bid bidQty ask askQty ∧
      exactMicroprice bid bidQty ask askQty ≤ (ask : ℚ) / 100000000 := by
  have hpos : (0 : ℚ) < (bidQty + askQty : Int) := by exact_mod_cast add_pos hb ha
  have hlow : bid * (bidQty + askQty) ≤ bid * askQty + ask * bidQty := by
    have := mul_le_mul_of_nonneg_right h hb.le
    linarith
  have hhigh : bid * askQty + ask * bidQty ≤ ask * (bidQty + askQty) := by
    have := mul_le_mul_of_nonneg_right h ha.le
    linarith
  unfold exactMicroprice
  constructor
  · refine div_le_div_of_nonneg_right ((le_div_iff₀ hpos).2 ?_) (by norm_num)
    exact_mod_cast hlow
  · refine div_le_div_of_nonneg_right ((div_le_iff₀ hpos).2 ?_) (by norm_num)
    exact_mod_cast hhigh

namespace BookTop20.Quoted

variable {book : BookTop20} {bid bidQty ask askQty : Int}

theorem bboRow_mem (h : book.Quoted bid bidQty ask askQty) (books : List BookTop20)
    (hmem : book ∈ books) (srcSnapshotId : Int) :
    bboRow srcSnapshotId book ∈ bbo books srcSnapshotId := by
  have hlen : ∀ {l : List Int} {x : Int}, l.head? = some x → 0 < l.length := by
    intro l x hx
    cases l with
    | nil => cases hx
    | cons y l => exact Nat.succ_pos _
  refine List.mem_map_of_mem (List.mem_filter.2 ⟨hmem, ?_⟩)
  simp [hlen h.best_bid, hlen h.best_ask]

theorem den_pos (h : book.Quoted bid bidQty ask askQty) : 0 < bidQty + askQty :=
  add_pos h.bidQty_pos h.askQty_pos

theorem den_lt (h : book.Quoted bid bidQty ask askQty) :
    bidQty + askQty < 18446744073709551616 := by
  have hb := h.bidQty_le
  have ha := h.askQty_le
  unfold I64.MAX at hb ha
  omega

theorem num_pos (h : book.Quoted bid bidQty ask askQty) : 0 < bid * askQty + ask * bidQty :=
  add_pos (mul_pos h.bid_pos h.askQty_pos)
    (mul_pos (lt_of_lt_of_le h.bid_pos h.uncrossed) h.bidQty_pos)

theorem microprice_eq (h : book.Quoted bid bidQty ask askQty) (srcSnapshotId : Int) :
    (bboRow srcSnapshotId book).microprice =
      some ((I64.wrap (bid * askQty + ask * bidQty) : ℚ) / I64.wrap (bidQty + askQty) /
        100000000) := by
  have hne : (I64.wrap (bidQty + askQty) : ℚ) ≠ 0 := by
    exact_mod_cast wrap_ne_zero h.den_pos h.den_lt
  simp only [bboRow, h.best_bid, h.best_bidQty, h.best_ask, h.best_askQty, Spark.add, Spark.mul,
    Spark.double, Option.bind_some, Option.map_some, I64.wrap_add_wrap]
  rw [Spark.div_some hne, Spark.div_some (by norm_num)]

theorem live_microprice_eq (h : book.Quoted bid bidQty ask askQty) :
    (bboLiveRow book).microprice = some (exactMicroprice bid bidQty ask askQty) := by
  have hne : (bidQty : ℚ) + askQty ≠ 0 := by exact_mod_cast h.den_pos.ne'
  simp only [bboLiveRow, List.headD_eq_head?_getD, h.best_bid, h.best_bidQty, h.best_ask,
    h.best_askQty, Option.getD_some]
  rw [Spark.div_some hne, Spark.div_some (by norm_num)]
  simp [exactMicroprice]

end BookTop20.Quoted

/-- The lake's microprice of a row is the exact one, in the spread, and the live view's. -/
def MicropriceExact (srcSnapshotId : Int) (book : BookTop20) (bid bidQty ask askQty : Int) : Prop :=
  ∃ m, (bboRow srcSnapshotId book).microprice = some m ∧
    m = exactMicroprice bid bidQty ask askQty ∧
    (bid : ℚ) / 100000000 ≤ m ∧ m ≤ (ask : ℚ) / 100000000 ∧
    (bboLiveRow book).microprice = some m

/-- **The microprice.**  Every quoted row has its row in the projection, and its microprice is the
    exact ratio, lies between the best bid and the best ask and is the live view's, if and only
    if the numerator fits in 64 bits, or the total quantity does not and the ratio survives the
    wrap as an integer. -/
theorem microprice_exact_iff {books : List BookTop20} {book : BookTop20}
    {bid bidQty ask askQty : Int} (hmem : book ∈ books)
    (h : book.Quoted bid bidQty ask askQty) (srcSnapshotId : Int) :
    bboRow srcSnapshotId book ∈ bbo books srcSnapshotId ∧
      (MicropriceExact srcSnapshotId book bid bidQty ask askQty ↔
        RatioSurvives (bid * askQty + ask * bidQty) (bidQty + askQty)) := by
  refine ⟨h.bboRow_mem books hmem srcSnapshotId, ?_⟩
  rw [MicropriceExact, h.microprice_eq, h.live_microprice_eq,
    ← wrapped_ratio_eq_iff h.num_pos h.den_pos h.den_lt]
  have hspread := exactMicroprice_mem_spread h.bidQty_pos h.askQty_pos h.uncrossed
  constructor
  · rintro ⟨m, hm, hexact, _⟩
    have heq := (Option.some.inj hm).trans hexact
    unfold exactMicroprice at heq
    exact (div_left_inj' (by norm_num)).1 heq
  · intro heq
    have hm : exactMicroprice bid bidQty ask askQty =
        (I64.wrap (bid * askQty + ask * bidQty) : ℚ) / I64.wrap (bidQty + askQty) / 100000000 := by
      rw [exactMicroprice, heq]
    exact ⟨_, congrArg some hm.symm, rfl, hspread.1, hspread.2, rfl⟩

/-- The same quantity bid at 60000 and offered at 60001. -/
def evenBook (qty : Int) : BookTop20 where
  exchange := "kraken"
  canonicalSymbol := "BTC/USD"
  second := 0
  depth := 1
  checksumOk := some true
  bidPxE8 := [6000000000000]
  bidQtyE8 := [qty]
  askPxE8 := [6000100000000]
  askQtyE8 := [qty]

theorem evenBook_quoted {qty : Int} (h : 0 < qty) (hle : qty ≤ I64.MAX) :
    (evenBook qty).Quoted 6000000000000 qty 6000100000000 qty :=
  ⟨rfl, rfl, rfl, rfl, by decide, h, h, by decide, by decide, hle, hle⟩

/-- With a thousandth of a coin on each side both products are far from the bound. -/
theorem microprice_exact_thousandth :
    bboRow 1 (evenBook 100000) ∈ bbo [evenBook 100000] 1 ∧
      MicropriceExact 1 (evenBook 100000) 6000000000000 100000 6000100000000 100000 := by
  obtain ⟨hmem, hiff⟩ := microprice_exact_iff (List.mem_singleton.2 rfl)
    (evenBook_quoted (by decide : 0 < (100000 : Int)) (by decide)) 1
  exact ⟨hmem, hiff.2 (Or.inl ⟨by decide, by decide⟩)⟩

/-- With one coin they have passed `2^63`, and the microprice falls under 49 for a bid of 60000. -/
theorem microprice_overflows :
    (evenBook 100000000).Quoted 6000000000000 100000000 6000100000000 100000000 ∧
      ¬ MicropriceExact 1 (evenBook 100000000)
        6000000000000 100000000 6000100000000 100000000 := by
  have hquoted := evenBook_quoted (by decide : 0 < (100000000 : Int)) (by decide)
  refine ⟨hquoted, ?_⟩
  rintro ⟨m, hm, _, hbid, _⟩
  have hlow : m < 49 := by
    rw [hquoted.microprice_eq 1] at hm
    rw [← Option.some.inj hm]
    norm_num [I64.wrap]
  norm_num at hbid
  linarith

end K2.Lake

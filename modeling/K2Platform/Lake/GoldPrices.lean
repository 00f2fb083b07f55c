import Mathlib.Algebra.Order.Field.Power
import Mathlib.Algebra.Order.Field.Rat
import Mathlib.Tactic.FieldSimp
import Mathlib.Tactic.Positivity
import Mathlib.Tactic.Ring
import K2Platform.Lake.Cast
import K2Platform.Lake.GoldTrades

/-!
# Prices and quantities in gold

The text that a venue sends for a price or a quantity is cast to a DECIMAL(28,10) in silver, which
rounds half up to ten decimals, and the decimal in units of 1e-8 to a BIGINT in gold, which drops
the fraction and wraps.  `precision_loss` compares the two scales after the first cast, and gold
does not read it.

* `scaleE8_exact_iff` — gold holds the value of a text exactly when 1e-8 fixed point can.
* `never_rounded_iff` — the same of the row of a trade.
* `fits_of_parseFixed` — what the capture reads, gold holds.
-/

set_option autoImplicit false

namespace K2.Lake

open K2.Capture (parseFixed)

/-! ## Values -/

/-- What a numeral stands for. -/
def Numeral.value (n : Numeral) : ℚ :=
  (if n.negative then -1 else 1) * (n.digits * 10 ^ n.exponent)

def textValue (text : String) : Option ℚ := (readNumeral (trim text.toList)).map Numeral.value

/-- A 64-bit integer in units of 1e-8 holds the value. -/
def FixedPoint (x : ℚ) : Prop := ∃ n : Int, I64.InRange n ∧ x * 10 ^ 8 = n

/-- The text is a number that 1e-8 fixed point holds. -/
def Fits (text : String) : Prop := ∃ x ∈ textValue text, FixedPoint x

/-- The units are the value of the text. -/
def ExactUnits (text : String) (units : Int) : Prop := ∃ x ∈ textValue text, x * 10 ^ 8 = units

theorem fixedPoint_iff {x : ℚ} :
    FixedPoint x ↔ (x * 10 ^ 8).den = 1 ∧ I64.InRange (x * 10 ^ 8).num := by
  constructor
  · rintro ⟨n, hrange, hx⟩
    rw [hx]
    exact ⟨rfl, hrange⟩
  · rintro ⟨hden, hrange⟩
    exact ⟨_, hrange, (Rat.coe_int_num_of_den_eq_one hden).symm⟩

instance (x : ℚ) : Decidable (FixedPoint x) := decidable_of_iff _ fixedPoint_iff.symm

instance (text : String) : Decidable (Fits text) :=
  inferInstanceAs (Decidable (∃ x ∈ textValue text, FixedPoint x))

instance (text : String) (units : Int) : Decidable (ExactUnits text units) :=
  inferInstanceAs (Decidable (∃ x ∈ textValue text, _))

/-! ## The two casts -/

/-- A multiple of 1e-8 is not rounded. -/
theorem unscaled_of_multiple {n : Numeral} {m : Nat}
    (h : (n.digits : ℚ) * 10 ^ n.exponent * 10 ^ 8 = m) : n.unscaled = m * 100 := by
  have hten : (10 : ℚ) ≠ 0 := by norm_num
  unfold Numeral.unscaled
  by_cases hexp : -10 ≤ n.exponent
  · rw [if_pos hexp]
    have hshift : ((n.exponent + 10).toNat : Int) = n.exponent + 10 := Int.toNat_of_nonneg (by omega)
    have hpow : (10 : ℚ) ^ (n.exponent + 10).toNat = 10 ^ n.exponent * 10 ^ 8 * 100 := by
      rw [← zpow_natCast, hshift, zpow_add₀ hten]
      norm_num
      ring
    have hcast : ((n.digits * 10 ^ (n.exponent + 10).toNat : Nat) : ℚ) = (m * 100 : Nat) := by
      push_cast
      rw [hpow, ← h]
      ring
    exact_mod_cast hcast
  · rw [if_neg hexp]
    set k := (-10 - n.exponent).toNat with hk
    have hexponent : n.exponent = -10 - (k : Int) := by omega
    have hdigits : n.digits = m * 100 * 10 ^ k := by
      have hpow : (10 : ℚ) ^ n.exponent * 10 ^ k = (10 ^ 10)⁻¹ := by
        rw [hexponent, zpow_sub₀ hten, zpow_natCast]
        field_simp
      have hcast : (n.digits : ℚ) = (m * 100 * 10 ^ k : Nat) := by
        push_cast
        rw [← h]
        calc (n.digits : ℚ) = n.digits * ((10 ^ 10)⁻¹ * 10 ^ 8 * 100) := by norm_num
          _ = n.digits * (10 ^ n.exponent * 10 ^ k * 10 ^ 8 * 100) := by rw [hpow]
          _ = n.digits * 10 ^ n.exponent * 10 ^ 8 * 100 * 10 ^ k := by ring
      exact_mod_cast hcast
    have hpos : 0 < 10 ^ k := Nat.pow_pos (by decide)
    have hnum : 2 * n.digits + 10 ^ k = 2 * 10 ^ k * (m * 100) + 10 ^ k := by
      rw [hdigits]
      ring
    rw [hnum, Nat.mul_add_div (by omega), Nat.div_eq_of_lt (by omega), Nat.add_zero]

theorem scaleE8_inRange (unscaled : Int) : I64.InRange (scaleE8 unscaled) := I64.wrap_inRange _

/-- **Gold holds the value of a text exactly when 1e-8 fixed point can.** -/
theorem scaleE8_exact_iff {text : String} {u : Int} (h : castDecimal text = some u) :
    ExactUnits text (scaleE8 u) ↔ Fits text := by
  constructor
  · rintro ⟨x, hx, heq⟩
    exact ⟨x, hx, _, scaleE8_inRange u, heq⟩
  · rintro ⟨x, hx, units, hrange, heq⟩
    refine ⟨x, hx, ?_⟩
    obtain ⟨n, hn, rfl⟩ := Option.map_eq_some_iff.1 (Option.mem_def.1 hx)
    rw [castDecimal, hn, Option.bind_some] at h
    split at h
    · have hu := (Option.some.inj h).symm
      have hunits : u = units * 100 := by
        unfold Numeral.value at heq
        cases hsign : n.negative with
        | false =>
          rw [hsign, if_neg Bool.false_ne_true, one_mul] at heq
          have hnonneg : 0 ≤ units := by
            have hq : (0 : ℚ) ≤ n.digits * 10 ^ n.exponent * 10 ^ 8 := by positivity
            rw [heq] at hq
            exact_mod_cast hq
          obtain ⟨m, rfl⟩ := Int.eq_ofNat_of_zero_le hnonneg
          rw [hu, hsign, if_neg Bool.false_ne_true,
            unscaled_of_multiple (m := m) (by exact_mod_cast heq)]
          push_cast
          rfl
        | true =>
          rw [hsign, if_pos rfl] at heq
          have hneg : (n.digits : ℚ) * 10 ^ n.exponent * 10 ^ 8 = ((-units : Int) : ℚ) := by
            push_cast
            rw [← heq]
            ring
          have hnonneg : 0 ≤ -units := by
            have hq : (0 : ℚ) ≤ n.digits * 10 ^ n.exponent * 10 ^ 8 := by positivity
            rw [hneg] at hq
            exact_mod_cast hq
          obtain ⟨m, hm⟩ := Int.eq_ofNat_of_zero_le hnonneg
          rw [hm] at hneg
          rw [hu, hsign, if_pos rfl, unscaled_of_multiple (m := m) (by exact_mod_cast hneg)]
          push_cast
          omega
      have htdiv : (units * 100).tdiv 100 = units := Int.mul_tdiv_cancel units (by decide)
      rw [hunits, scaleE8, htdiv, I64.wrap_of_inRange hrange]
      exact heq
    · cases h

/-! ## Trades -/

/-- A trade of a bronze frame, its price and quantity as the venue wrote them. -/
structure BronzeTrade where
  symbol : String
  canonicalSymbol : String
  tradeId : String
  tradeSeq : Int
  price : String
  qty : String
  side : String
  exchangeTs : Int
  recvTsNs : Int
  connId : String
  connMsgSeq : Int
  srcTopic : String
  srcPartition : Int
  srcOffset : Int
  srcIndex : Int
  deriving DecidableEq, Repr

/-- `project`: a null price or quantity cannot be written. -/
def BronzeTrade.typed (runTs : Int) (b : BronzeTrade) : Option TypedTrade := do
  let price ← castDecimal b.price
  let qty ← castDecimal b.qty
  return {
    symbol := b.symbol
    canonicalSymbol := b.canonicalSymbol
    tradeId := b.tradeId
    tradeSeq := b.tradeSeq
    price := price
    qty := qty
    side := b.side
    exchangeTs := b.exchangeTs
    recvTsNs := b.recvTsNs
    connId := b.connId
    connMsgSeq := b.connMsgSeq
    srcTopic := b.srcTopic
    srcPartition := b.srcPartition
    srcOffset := b.srcOffset
    srcIndex := b.srcIndex
    ingestTs := runTs }

/-- The gold rows of a trade that is scored among others: one, or none for a replay. -/
def BronzeTrade.goldRows (exchange : Exchange) (silverTs goldTs : Int) (both : List TypedTrade)
    (b : BronzeTrade) : List GoldTrade :=
  projectSilver exchange goldTs (((b.typed silverTs).map (scoreRow both)).toList)

/-- Where the trade has a gold row, price and quantity are exact, and where one of them is not
    representable it has none. -/
structure NeverRounded (b : BronzeTrade) (gold : List GoldTrade) : Prop where
  exact : ∀ g ∈ gold, ExactUnits b.price g.priceE8 ∧ ExactUnits b.qty g.qtyE8
  dropped : ¬ (Fits b.price ∧ Fits b.qty) → gold = []

/-- The trade is typed, and is no replay among the others. -/
def BronzeTrade.Kept (silverTs : Int) (both : List TypedTrade) (b : BronzeTrade) : Prop :=
  ∃ d ∈ b.typed silverTs, ¬ 1 < rowNumber both d

theorem typed_prices {b : BronzeTrade} {runTs : Int} {d : TypedTrade}
    (h : b.typed runTs = some d) : castDecimal b.price = some d.price ∧
      castDecimal b.qty = some d.qty := by
  obtain ⟨price, hprice, h⟩ := Option.bind_eq_some_iff.1 h
  obtain ⟨qty, hqty, h⟩ := Option.bind_eq_some_iff.1 h
  cases h
  exact ⟨hprice, hqty⟩

/-- The one gold row of a trade that is kept. -/
theorem goldRows_of_kept {b : BronzeTrade} {silverTs : Int} {both : List TypedTrade}
    {d : TypedTrade} (hd : b.typed silverTs = some d) (hkept : ¬ 1 < rowNumber both d)
    (exchange : Exchange) (goldTs : Int) :
    b.goldRows exchange silverTs goldTs both = [projectRow exchange goldTs (scoreRow both d)] := by
  rw [BronzeTrade.goldRows, hd]
  simp [projectSilver, scoreRow, hkept]

theorem goldRows_of_not_kept {b : BronzeTrade} {silverTs : Int} {both : List TypedTrade}
    (h : ¬ b.Kept silverTs both) (exchange : Exchange) (goldTs : Int) :
    b.goldRows exchange silverTs goldTs both = [] := by
  cases hd : b.typed silverTs with
  | none =>
    rw [BronzeTrade.goldRows, hd]
    rfl
  | some d =>
    have hreplay : 1 < rowNumber both d := by
      by_contra hno
      exact h ⟨d, hd, hno⟩
    rw [BronzeTrade.goldRows, hd]
    simp [projectSilver, scoreRow, hreplay]

/-- **When gold never rounds.**  The price and the quantity that gold holds of a trade are those the
    venue sent exactly when the trade is dropped on the way, or 1e-8 fixed point holds both. -/
theorem never_rounded_iff (exchange : Exchange) (silverTs goldTs : Int) (both : List TypedTrade)
    (b : BronzeTrade) :
    NeverRounded b (b.goldRows exchange silverTs goldTs both) ↔
      (b.Kept silverTs both → Fits b.price ∧ Fits b.qty) := by
  constructor
  · rintro ⟨hexact, hdropped⟩ ⟨d, hd, hkept⟩
    by_contra hfits
    have hnone := hdropped hfits
    rw [goldRows_of_kept hd hkept] at hnone
    cases hnone
  · intro hfits
    by_cases hkept : b.Kept silverTs both
    · obtain ⟨hprice, hqty⟩ := hfits hkept
      obtain ⟨d, hd, hkept⟩ := hkept
      obtain ⟨hcastPrice, hcastQty⟩ := typed_prices hd
      rw [goldRows_of_kept hd hkept]
      refine ⟨fun g hg => ?_, fun hnot => absurd ⟨hprice, hqty⟩ hnot⟩
      rw [List.mem_singleton.1 hg]
      exact ⟨(scaleE8_exact_iff hcastPrice).2 hprice, (scaleE8_exact_iff hcastQty).2 hqty⟩
    · rw [goldRows_of_not_kept hkept]
      exact ⟨fun _ hg => absurd hg List.not_mem_nil, fun _ => rfl⟩

/-- A Binance trade with this price. -/
def pricedAt (price : String) : BronzeTrade where
  symbol := "BTCUSDT"
  canonicalSymbol := "BTC/USDT"
  tradeId := "7"
  tradeSeq := 7
  price := price
  qty := "0.5"
  side := "buy"
  exchangeTs := 0
  recvTsNs := 0
  connId := "a"
  connMsgSeq := 1
  srcTopic := "k2.raw.binance"
  srcPartition := 0
  srcOffset := 0
  srcIndex := 0

/-- Nine decimals: gold holds the first eight. -/
theorem ninth_decimal_dropped :
    ¬ ∀ (exchange : Exchange) (silverTs goldTs : Int) (both : List TypedTrade) (b : BronzeTrade),
      NeverRounded b (b.goldRows exchange silverTs goldTs both) := by
  intro h
  have hdropped := (h .binance 0 0 [] (pricedAt "0.123456789")).dropped
  revert hdropped
  decide +kernel

/-! ## What the capture reads -/

/-- **What the capture reads, gold holds.** -/
theorem fits_of_parseFixed {text : String} {v : Int} (h : parseFixed text = .ok v) :
    Fits text ∧ ExactUnits text v := by
  obtain ⟨whole, fraction, hspelled, hne, hle, hrange, hv⟩ := spelled_of_parseFixed h
  have hvalue : textValue text = some (Numeral.value
      ⟨false, Nat.ofDigitChars 10 (whole ++ fraction) 0, -(fraction.length : Int)⟩) := by
    rw [textValue, trim_eq_self hspelled.visible, hspelled.readNumeral hne]
    rfl
  have hunits : Numeral.value
      ⟨false, Nat.ofDigitChars 10 (whole ++ fraction) 0, -(fraction.length : Int)⟩ * 10 ^ 8 =
        (v : ℚ) := by
    have hle' : fraction.length ≤ 8 := hle
    have hpow : (10 : ℚ) ^ (-(fraction.length : Int)) * 10 ^ 8 =
        10 ^ (Capture.SCALE_DP - fraction.length) := by
      have hsplit : (10 : ℚ) ^ 8 = 10 ^ fraction.length * 10 ^ (8 - fraction.length) := by
        rw [← pow_add]
        congr 1
        omega
      have hpos : (10 : ℚ) ^ fraction.length ≠ 0 := by positivity
      rw [zpow_neg, zpow_natCast, hsplit]
      show _ = (10 : ℚ) ^ (8 - fraction.length)
      field_simp
    rw [Numeral.value, if_neg Bool.false_ne_true, one_mul, mul_assoc, hpow, hv]
    push_cast
    rfl
  exact ⟨⟨_, hvalue, v, hrange, hunits⟩, _, hvalue, hunits⟩

end K2.Lake

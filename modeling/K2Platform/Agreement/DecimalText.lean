import K2Platform.Agreement.Kraken
import K2Platform.Lib.Digits
import Mathlib.Tactic.FieldSimp
import Mathlib.Tactic.Ring

/-!
# Decimal text and the units read from it

`parse_fixed` reads a decimal as it is written, and Kraken's checksum is over decimals as they are
written to a pair's precision.  Here both are set against the text: the grammar with the number that
it writes, and the formatting, without the point and without leading zeros.

* `parseFixed_exact` — the texts that `parse_fixed` accepts, and what it makes of them.
* `checksum_text` — the integer checksum, in Rust and in Python, is over Kraken's text.
-/

set_option autoImplicit false

namespace K2.Capture

open Digits
open K2.Lake (spelled_of_parseFixed)

/-! ## The grammar -/

/-- A text, its digits before the point, and those after it. -/
inductive IsDecimal : List Char → List Char → List Char → Prop
  | whole {whole : List Char} : whole ≠ [] → AllDigits whole → IsDecimal whole whole []
  | point {whole fraction : List Char} : whole ≠ [] → AllDigits whole → fraction ≠ [] →
      AllDigits fraction → fraction.length ≤ 8 →
      IsDecimal (whole ++ '.' :: fraction) whole fraction

/-- The number that the digits write. -/
def decimalValue (whole fraction : List Char) : ℚ :=
  Nat.ofDigitChars 10 whole 0 + Nat.ofDigitChars 10 fraction 0 / 10 ^ fraction.length

/-- `format!("{}.{:08}", units / SCALE, units % SCALE)`. -/
def render (units : Int) : String :=
  toString (units.tdiv SCALE) ++ "." ++
    String.ofList ((toString (units.tmod SCALE)).toList.leftpad SCALE_DP '0')

example : render 4528520000000 = "45285.20000000" := by decide

theorem decimalValue_scaled {whole fraction : List Char} (h : fraction.length ≤ 8) :
    decimalValue whole fraction * 10 ^ 8 =
      (Nat.ofDigitChars 10 (whole ++ fraction) 0 * 10 ^ (8 - fraction.length) : Nat) := by
  obtain ⟨k, hk⟩ := Nat.exists_eq_add_of_le h
  have hpow : (10 : ℚ) ^ 8 = 10 ^ fraction.length * 10 ^ k := by rw [← pow_add, ← hk]
  have hrest : 8 - fraction.length = k := by omega
  have hsplit : Nat.ofDigitChars 10 (whole ++ fraction) 0 =
      10 ^ fraction.length * Nat.ofDigitChars 10 whole 0 + Nat.ofDigitChars 10 fraction 0 := by
    rw [Nat.ofDigitChars_append, Nat.ofDigitChars_eq_ofDigitChars_zero]
  rw [decimalValue, hsplit, hrest, hpow]
  push_cast
  field_simp

/-! ## What the loop makes of digits -/

theorem pushDigit_of_fits {units : Nat} {c : Char}
    (h : ((10 * units + (c.toNat - '0'.toNat) : Nat) : Int) ≤ I64.MAX) :
    pushDigit units c = some ((10 * units + (c.toNat - '0'.toNat) : Nat) : Int) := by
  unfold pushDigit I64.checkedMul I64.checkedAdd
  unfold I64.MAX at h
  rw [if_pos (by unfold I64.InRange I64.MIN I64.MAX; omega), Option.bind_some,
    if_pos (by unfold I64.InRange I64.MIN I64.MAX; omega)]
  congr 1
  omega

/-- The state after digits before the point. -/
theorem foldlM_whole : ∀ (ds : List Char) (st : ParseState) (units : Nat), AllDigits ds →
    st.seenPoint = false → st.units = units → (Nat.ofDigitChars 10 ds units : Int) ≤ I64.MAX →
      ds.foldlM parseStep st = .ok { st with
        units := (Nat.ofDigitChars 10 ds units : Nat)
        seenDigitBeforePoint := st.seenDigitBeforePoint || !ds.isEmpty }
  | [], st, units, _, _, hunits, _ => by
    rw [List.foldlM_nil, Nat.ofDigitChars_nil, ← hunits, List.isEmpty_nil, Bool.not_true,
      Bool.or_false]
    rfl
  | c :: ds, st, units, hdigits, hpoint, hunits, hfits => by
    obtain ⟨hc, hrest⟩ := allDigits_cons.1 hdigits
    rw [Nat.ofDigitChars_cons] at hfits ⊢
    have hle := le_ofDigitChars ds (10 * units + (c.toNat - '0'.toNat))
    have hpush : pushDigit units c = some ((10 * units + (c.toNat - '0'.toNat) : Nat) : Int) :=
      pushDigit_of_fits (by omega)
    have hstep : parseStep st c = .ok { st with
        units := ((10 * units + (c.toNat - '0'.toNat) : Nat) : Int)
        seenDigitBeforePoint := true } := by
      rw [parseStep, if_pos hc, parseDigit, if_neg (by simp [hpoint]), hunits, hpush]
      simp [hpoint]
    rw [List.foldlM_cons, hstep]
    refine (foldlM_whole ds { st with
      units := ((10 * units + (c.toNat - '0'.toNat) : Nat) : Int)
      seenDigitBeforePoint := true } _ hrest hpoint rfl hfits).trans ?_
    simp

/-- The state after digits behind the point. -/
theorem foldlM_fraction : ∀ (ds : List Char) (st : ParseState) (units : Nat), AllDigits ds →
    st.seenPoint = true → st.fracDigits + ds.length ≤ SCALE_DP → st.units = units →
    (Nat.ofDigitChars 10 ds units : Int) ≤ I64.MAX →
      ds.foldlM parseStep st = .ok { st with
        units := (Nat.ofDigitChars 10 ds units : Nat)
        fracDigits := st.fracDigits + ds.length
        seenDigitAfterPoint := st.seenDigitAfterPoint || !ds.isEmpty }
  | [], st, units, _, _, _, hunits, _ => by
    rw [List.foldlM_nil, Nat.ofDigitChars_nil, ← hunits, List.isEmpty_nil, Bool.not_true,
      Bool.or_false]
    rfl
  | c :: ds, st, units, hdigits, hpoint, hroom, hunits, hfits => by
    obtain ⟨hc, hrest⟩ := allDigits_cons.1 hdigits
    rw [Nat.ofDigitChars_cons] at hfits ⊢
    rw [List.length_cons] at hroom
    have hle := le_ofDigitChars ds (10 * units + (c.toNat - '0'.toNat))
    have hpush : pushDigit units c = some ((10 * units + (c.toNat - '0'.toNat) : Nat) : Int) :=
      pushDigit_of_fits (by omega)
    have hstep : parseStep st c = .ok { st with
        units := ((10 * units + (c.toNat - '0'.toNat) : Nat) : Int)
        fracDigits := st.fracDigits + 1
        seenDigitAfterPoint := true } := by
      rw [parseStep, if_pos hc, parseDigit, if_neg (by omega), hunits, hpush]
      simp [hpoint]
    rw [List.foldlM_cons, hstep]
    refine (foldlM_fraction ds { st with
      units := ((10 * units + (c.toNat - '0'.toNat) : Nat) : Int)
      fracDigits := st.fracDigits + 1
      seenDigitAfterPoint := true } _ hrest hpoint (by simp only; omega) rfl hfits).trans ?_
    simp only [Bool.true_or, List.isEmpty_cons, Bool.not_false, Bool.or_true, List.length_cons]
    rw [Nat.add_assoc, Nat.add_comm 1]

theorem parseFixed_of_digit {s : String} (hne : s.toList ≠ [])
    (h : ∀ c ∈ s.toList.head?, c.isDigit = true) :
    parseFixed s = (s.toList.foldlM parseStep ParseState.init).bind parseFinish := by
  unfold parseFixed
  split
  · rename_i hnil
    exact absurd hnil hne
  · rename_i rest hminus
    have hdigit := h '-' (by rw [hminus]; rfl)
    cases hdigit
  · rfl

/-- What follows the loop, where it has seen digits. -/
theorem parseFinish_of_fits {st : ParseState} (hbefore : st.seenDigitBeforePoint = true)
    (hafter : st.seenPoint = true → st.seenDigitAfterPoint = true) {units : Nat}
    (hunits : st.units = units)
    (hfits : ((units * 10 ^ (SCALE_DP - st.fracDigits) : Nat) : Int) ≤ I64.MAX) :
    parseFinish st = .ok ((units * 10 ^ (SCALE_DP - st.fracDigits) : Nat) : Int) := by
  have hrange : I64.InRange (st.units * 10 ^ (SCALE_DP - st.fracDigits)) := by
    rw [hunits]
    refine ⟨?_, by push_cast at hfits; exact hfits⟩
    exact le_trans (by decide) (mul_nonneg (Int.natCast_nonneg _) (by positivity))
  rw [parseFinish, if_neg (by rw [not_and, Bool.not_eq_false]; exact hafter), hbefore,
    if_neg Bool.noConfusion, I64.checkedMul, if_pos hrange, hunits]
  push_cast
  rfl

/-! ## What is accepted -/

theorem ofDigitChars_le_append (whole fraction : List Char) :
    Nat.ofDigitChars 10 whole 0 ≤ Nat.ofDigitChars 10 (whole ++ fraction) 0 := by
  rw [Nat.ofDigitChars_append]
  exact le_ofDigitChars fraction _

theorem le_scaled (units k : Nat) : units ≤ units * 10 ^ k :=
  Nat.le_mul_of_pos_right _ (Nat.pow_pos (by decide))

/-- A decimal that fits is read. -/
theorem parseFixed_of_isDecimal {s : String} {whole fraction : List Char}
    (h : IsDecimal s.toList whole fraction)
    (hfits : ((Nat.ofDigitChars 10 (whole ++ fraction) 0 *
      10 ^ (SCALE_DP - fraction.length) : Nat) : Int) ≤ I64.MAX) :
    parseFixed s = .ok ((Nat.ofDigitChars 10 (whole ++ fraction) 0 *
      10 ^ (SCALE_DP - fraction.length) : Nat) : Int) := by
  have hdigits := le_scaled (Nat.ofDigitChars 10 (whole ++ fraction) 0) (SCALE_DP - fraction.length)
  have hwhole := ofDigitChars_le_append whole fraction
  generalize htext : s.toList = text at h
  cases h with
  | whole hne hall =>
    rw [List.append_nil] at hdigits hfits ⊢
    rw [parseFixed_of_digit (by rwa [htext])
      (fun c hc => hall c (List.mem_of_head? (htext ▸ hc))), htext,
      foldlM_whole whole ParseState.init 0 hall rfl rfl (by omega)]
    refine parseFinish_of_fits ?_ (fun hpoint => by cases hpoint) rfl hfits
    cases whole with
    | nil => exact absurd rfl hne
    | cons c whole => rfl
  | point hne hall hne' hall' hlength =>
    have hhead : ∀ c ∈ s.toList.head?, c.isDigit = true := by
      intro c hc
      rw [htext, List.head?_append_of_ne_nil _ hne] at hc
      exact hall c (List.mem_of_head? hc)
    have hloop := foldlM_fraction fraction
      ⟨(Nat.ofDigitChars 10 whole 0 : Nat), 0, true, true, false⟩ _ hall' rfl
      (by simp only [Nat.zero_add]; exact hlength) rfl
      (by rw [← Nat.ofDigitChars_append]; omega)
    rw [← Nat.ofDigitChars_append] at hloop
    rw [parseFixed_of_digit (by rw [htext]; exact List.append_ne_nil_of_left_ne_nil hne _) hhead,
      htext, List.foldlM_append,
      foldlM_whole whole ParseState.init 0 hall rfl rfl (by omega)]
    have hbefore : (false || !whole.isEmpty) = true := by
      cases whole with
      | nil => exact absurd rfl hne
      | cons c whole => rfl
    have hafter : (false || !fraction.isEmpty) = true := by
      cases fraction with
      | nil => exact absurd rfl hne'
      | cons c fraction => rfl
    show ((('.' :: fraction).foldlM parseStep
      ⟨(Nat.ofDigitChars 10 whole 0 : Nat), 0, false, false || !whole.isEmpty, false⟩).bind
        parseFinish) = _
    have hpoint : parseStep ⟨(Nat.ofDigitChars 10 whole 0 : Nat), 0, false, true, false⟩ '.' =
        .ok ⟨(Nat.ofDigitChars 10 whole 0 : Nat), 0, true, true, false⟩ := rfl
    rw [hbefore, List.foldlM_cons, hpoint]
    refine (congrArg (Except.bind · parseFinish) hloop).trans ?_
    rw [hafter, Nat.zero_add]
    exact parseFinish_of_fits rfl (fun _ => rfl) rfl hfits

/-- A point with nothing behind it is refused. -/
theorem parseFixed_ne_of_point {s : String} {whole : List Char} (hne : whole ≠ [])
    (hall : AllDigits whole) (hfits : ((Nat.ofDigitChars 10 whole 0 : Nat) : Int) ≤ I64.MAX)
    (htext : s.toList = whole ++ ['.']) : parseFixed s = .error .malformed := by
  have hhead : ∀ c ∈ s.toList.head?, c.isDigit = true := by
    intro c hc
    rw [htext, List.head?_append_of_ne_nil _ hne] at hc
    exact hall c (List.mem_of_head? hc)
  rw [parseFixed_of_digit (by rw [htext]; exact List.append_ne_nil_of_left_ne_nil hne _) hhead,
    htext, List.foldlM_append, foldlM_whole whole ParseState.init 0 hall rfl rfl hfits]
  cases whole with
  | nil => exact absurd rfl hne
  | cons c whole => rfl

theorem isDecimal_of_parseFixed {s : String} {v : Int} (h : parseFixed s = .ok v) :
    ∃ whole fraction, IsDecimal s.toList whole fraction ∧
      v = (Nat.ofDigitChars 10 (whole ++ fraction) 0 *
        10 ^ (SCALE_DP - fraction.length) : Nat) ∧ v ≤ I64.MAX := by
  obtain ⟨whole, fraction, hspelled, hne, hlength, hrange, hv⟩ := spelled_of_parseFixed h
  refine ⟨whole, fraction, ?_, hv, hrange.2⟩
  rcases hspelled.text with ⟨htext, rfl⟩ | htext
  · rw [htext]
    exact .whole hne hspelled.whole
  · cases fraction with
    | nil =>
      have hmax := hrange.2
      have hscaled := le_scaled (Nat.ofDigitChars 10 whole 0) SCALE_DP
      rw [hv, List.append_nil, List.length_nil, Nat.sub_zero] at hmax
      rw [parseFixed_ne_of_point hne hspelled.whole (by omega) htext] at h
      cases h
    | cons c fraction =>
      rw [htext]
      exact .point hne hspelled.whole (List.cons_ne_nil _ _) hspelled.fraction hlength

/-! ## What is rendered is read back -/

theorem toList_render (units : Nat) : (render units).toList =
    Nat.toDigits 10 (units / 100000000) ++
      '.' :: (Nat.toDigits 10 (units % 100000000)).leftpad SCALE_DP '0' := by
  have hdiv : (units : Int).tdiv SCALE = ((units / 100000000 : Nat) : Int) := rfl
  have hmod : (units : Int).tmod SCALE = ((units % 100000000 : Nat) : Int) := rfl
  have htext : ∀ n : Nat, (toString (n : Int)).toList = Nat.toDigits 10 n := fun n =>
    Nat.toList_repr
  rw [render, hdiv, hmod, String.toList_append, String.toList_append, String.toList_ofList,
    htext, htext, List.append_assoc, String.toList_ofList]
  rfl

theorem length_cents (units : Nat) :
    ((Nat.toDigits 10 (units % 100000000)).leftpad SCALE_DP '0').length = 8 := by
  have hlength : (Nat.toDigits 10 (units % 100000000)).length ≤ 8 :=
    (Nat.length_toDigits_le_iff (by decide) (by decide)).2
      (lt_of_lt_of_le (Nat.mod_lt units (by decide)) (by decide))
  rw [List.length_leftpad, SCALE_DP, Nat.max_eq_left hlength]

theorem isDecimal_render (units : Nat) : IsDecimal (render units).toList
    (Nat.toDigits 10 (units / 100000000))
    ((Nat.toDigits 10 (units % 100000000)).leftpad SCALE_DP '0') := by
  have hlength := length_cents units
  rw [toList_render]
  refine .point Nat.toDigits_ne_nil (allDigits_toDigits _) ?_
    (allDigits_leftpad (allDigits_toDigits _) _) hlength.le
  intro hnil
  rw [hnil] at hlength
  cases hlength

theorem ofDigitChars_render (units : Nat) : Nat.ofDigitChars 10
    (Nat.toDigits 10 (units / 100000000) ++
      (Nat.toDigits 10 (units % 100000000)).leftpad SCALE_DP '0') 0 = units := by
  rw [Nat.ofDigitChars_append, Nat.ofDigitChars_eq_ofDigitChars_zero, length_cents,
    Nat.ofDigitChars_ten_toDigits, ofDigitChars_leftpad, Nat.ofDigitChars_ten_toDigits]
  exact Nat.div_add_mod units 100000000

/-- **What `parse_fixed` accepts, and what it makes of it**: the decimals that the scale and the
    word can hold, as they are; so every rendering is read back. -/
theorem parseFixed_exact :
    (∀ s v, parseFixed s = .ok v ↔ ∃ whole fraction, IsDecimal s.toList whole fraction ∧
      (v : ℚ) = decimalValue whole fraction * 10 ^ 8 ∧ v ≤ I64.MAX) ∧
    ∀ v, 0 ≤ v → v ≤ I64.MAX → parseFixed (render v) = .ok v := by
  have hlength : ∀ {text whole fraction}, IsDecimal text whole fraction → fraction.length ≤ 8 := by
    intro text whole fraction h
    cases h with
    | whole => exact Nat.zero_le _
    | point _ _ _ _ hle => exact hle
  constructor
  · intro s v
    constructor
    · intro h
      obtain ⟨whole, fraction, hdecimal, hv, hmax⟩ := isDecimal_of_parseFixed h
      refine ⟨whole, fraction, hdecimal, ?_, hmax⟩
      rw [decimalValue_scaled (hlength hdecimal), hv]
      exact Int.cast_natCast _
    · rintro ⟨whole, fraction, hdecimal, hv, hmax⟩
      rw [decimalValue_scaled (hlength hdecimal)] at hv
      have hunits : v = (Nat.ofDigitChars 10 (whole ++ fraction) 0 *
          10 ^ (SCALE_DP - fraction.length) : Nat) := by
        exact_mod_cast hv
      rw [hunits] at hmax ⊢
      exact parseFixed_of_isDecimal hdecimal hmax
  · intro v hv hmax
    obtain ⟨units, rfl⟩ := Int.eq_ofNat_of_zero_le hv
    have hread := parseFixed_of_isDecimal (isDecimal_render units)
    rw [ofDigitChars_render, length_cents, SCALE_DP, Nat.sub_self, pow_zero, Nat.mul_one] at hread
    exact hread hmax

theorem rendered_price_read : parseFixed (render 4528520000000) = .ok 4528520000000 :=
  parseFixed_exact.2 _ (by decide) (by decide)

/-! ## Kraken's text -/

def wholeOf (text : String) : List Char := text.toList.takeWhile fun c => c ≠ '.'

def fractionOf (text : String) : List Char := (text.toList.dropWhile fun c => c ≠ '.').tail

/-- The decimal, written to `precision` decimals. -/
def formatted (text : String) (precision : Nat) : List Char :=
  if precision = 0 then wholeOf text
  else wholeOf text ++ '.' :: (fractionOf text).rightpad precision '0'

/-- Without the point, and without leading zeros. -/
def krakenDigits (text : String) (precision : Nat) : String :=
  String.ofList (dropZeros ((formatted text precision).filter fun c => c ≠ '.'))

/-- The best levels of one side, price and quantity in turn. -/
def krakenText (levels : List Kraken.Level) (precision : Nat × Nat) : String :=
  String.join ((levels.take 10).map fun l =>
    krakenDigits l.price precision.1 ++ krakenDigits l.qty precision.2)

example : krakenDigits "45285.2" 1 = "452852" := by decide

/-- A level whose texts are read, as prices and quantities that are no finer than the pair's. -/
structure ReadLevel (precision : Nat × Nat) (l : Kraken.Level) (units : Int × Int) : Prop where
  px : parseFixed l.price = .ok units.1
  qty : parseFixed l.qty = .ok units.2
  px_pos : 0 < units.1
  qty_pos : 0 < units.2
  px_decimals : (fractionOf l.price).length ≤ precision.1
  qty_decimals : (fractionOf l.qty).length ≤ precision.2

theorem ne_point_of_digits {ds : List Char} (h : AllDigits ds) : ∀ c ∈ ds, (c ≠ '.' : Bool) = true := by
  intro c hc
  refine decide_eq_true ?_
  rintro rfl
  cases h '.' hc

theorem parts_of_isDecimal {text : String} {whole fraction : List Char}
    (h : IsDecimal text.toList whole fraction) :
    AllDigits whole ∧ AllDigits fraction ∧ wholeOf text = whole ∧ fractionOf text = fraction := by
  unfold wholeOf fractionOf
  generalize text.toList = cs at h
  cases h with
  | whole _ hall =>
    have hpass := ne_point_of_digits hall
    refine ⟨hall, allDigits_nil, List.takeWhile_eq_self_iff.2 hpass, ?_⟩
    rw [List.dropWhile_eq_nil_iff.2 hpass]
    rfl
  | point _ hall _ hall' _ =>
    have hpass := ne_point_of_digits hall
    refine ⟨hall, hall', ?_, ?_⟩
    · rw [List.takeWhile_append_of_pos hpass]
      exact List.append_nil whole
    · rw [List.dropWhile_append_of_pos hpass]
      rfl

theorem filter_formatted {text : String} {whole fraction : List Char} {precision : Nat}
    (h : IsDecimal text.toList whole fraction) (hle : fraction.length ≤ precision) :
    (formatted text precision).filter (fun c => c ≠ '.') =
      whole ++ fraction.rightpad precision '0' := by
  obtain ⟨hall, hall', hwhole, hfraction⟩ := parts_of_isDecimal h
  have hkeep : ∀ {ds}, AllDigits ds → ds.filter (fun c => decide (c ≠ '.')) = ds := fun hds =>
    List.filter_eq_self.2 (ne_point_of_digits hds)
  unfold formatted
  rw [hwhole, hfraction]
  split
  · rename_i hzero
    subst hzero
    have hnil : fraction = [] := List.eq_nil_of_length_eq_zero (Nat.le_zero.1 hle)
    subst hnil
    exact (hkeep hall).trans (List.append_nil whole).symm
  · rw [List.filter_append, hkeep hall, List.filter_cons_of_neg (by decide),
      hkeep (allDigits_rightpad hall' precision)]

/-- Integer division writes the same digits as the formatting. -/
theorem checksumDigits_text {text : String} {units : Int} {precision : Nat}
    (h : parseFixed text = .ok units) (hpos : 0 < units)
    (hdecimals : (fractionOf text).length ≤ precision) (hle : precision ≤ 8) :
    checksumDigits units precision = krakenDigits text precision := by
  obtain ⟨whole, fraction, hdecimal, hunits, _⟩ := isDecimal_of_parseFixed h
  obtain ⟨hall, hall', hwhole, hfraction⟩ := parts_of_isDecimal hdecimal
  rw [hfraction] at hdecimals
  have hpad : Nat.ofDigitChars 10 (whole ++ fraction.rightpad precision '0') 0 =
      Nat.ofDigitChars 10 (whole ++ fraction) 0 * 10 ^ (precision - fraction.length) := by
    rw [Nat.ofDigitChars_append, ofDigitChars_rightpad, Nat.ofDigitChars_append]
  have hscale : SCALE_DP - fraction.length = (precision - fraction.length) + (8 - precision) := by
    unfold SCALE_DP
    omega
  have hvalue : units = ((Nat.ofDigitChars 10 (whole ++ fraction.rightpad precision '0') 0 : Nat) : Int) *
      10 ^ (8 - precision) := by
    rw [hunits, hscale, pow_add, ← Nat.mul_assoc, ← hpad]
    push_cast
    rfl
  have hdivided : units.tdiv (10 ^ (8 - precision)) =
      (Nat.ofDigitChars 10 (whole ++ fraction.rightpad precision '0') 0 : Nat) := by
    rw [hvalue]
    exact Int.mul_tdiv_cancel _ (by positivity)
  have hdigits : AllDigits (whole ++ fraction.rightpad precision '0') :=
    allDigits_append.2 ⟨hall, allDigits_rightpad hall' precision⟩
  have hnonzero : 0 < Nat.ofDigitChars 10 (whole ++ fraction.rightpad precision '0') 0 := by
    refine Nat.pos_of_ne_zero fun hzero => ?_
    rw [hvalue, hzero] at hpos
    simp at hpos
  rw [checksumDigits, SCALE_DP, hdivided, krakenDigits, filter_formatted hdecimal hdecimals,
    ← toDigits_dropZeros hdigits hnonzero]
  rfl

section Checksum

variable {precision : Nat × Nat}

theorem bytes_krakenText (hpx : precision.1 ≤ 8) (hqty : precision.2 ≤ 8)
    {levels : List Kraken.Level} {units : List (Int × Int)}
    (h : List.Forall₂ (ReadLevel precision) levels units) :
    ((units.take Kraken.CHECKSUM_LEVELS).flatMap fun lvl =>
      (checksumDigits lvl.1 precision.1).toByteArray.data.toList ++
        (checksumDigits lvl.2 precision.2).toByteArray.data.toList) =
      (krakenText levels precision).toByteArray.data.toList := by
  rw [krakenText, K2.Lake.toList_join, List.flatMap_map, Kraken.CHECKSUM_LEVELS]
  generalize 10 = n
  induction h generalizing n with
  | nil => rw [List.take_nil, List.take_nil]; rfl
  | cons hlevel _ ih =>
    cases n with
    | zero => rfl
    | succ n =>
      rw [List.take_succ_cons, List.take_succ_cons, List.flatMap_cons, List.flatMap_cons, ih n,
        checksumDigits_text hlevel.px hlevel.px_pos hlevel.px_decimals hpx,
        checksumDigits_text hlevel.qty hlevel.qty_pos hlevel.qty_decimals hqty]
      simp only [String.toByteArray_append, ByteArray.data_append, Array.toList_append]

theorem checksumSide_krakenText (floatDigits : Int → Int → String) (hpx : precision.1 ≤ 8)
    (hqty : precision.2 ≤ 8) {levels : List Kraken.Level} {units : List (Int × Int)}
    (h : List.Forall₂ (ReadLevel precision) levels units) :
    K2.Lake.checksumSide floatDigits units (precision.1, precision.2) =
      krakenText levels precision := by
  rw [K2.Lake.checksumSide, krakenText, K2.Lake.CHECKSUM_LEVELS]
  refine congrArg String.join ?_
  generalize 10 = n
  induction h generalizing n with
  | nil => rw [List.take_nil, List.take_nil]; rfl
  | cons hlevel _ ih =>
    cases n with
    | zero => rfl
    | succ n =>
      rw [List.take_succ_cons, List.take_succ_cons, List.map_cons, List.map_cons, ih n,
        K2.Lake.checksumDigits_eq floatDigits hlevel.px_pos.le hpx,
        K2.Lake.checksumDigits_eq floatDigits hlevel.qty_pos.le hqty,
        checksumDigits_text hlevel.px hlevel.px_pos hlevel.px_decimals hpx,
        checksumDigits_text hlevel.qty hlevel.qty_pos hlevel.qty_decimals hqty]

/-- **The checksum is over Kraken's text**, asks before bids: `book_checksum` feeds its bytes to
    the hasher, and `kraken_checksum` joins the same text. -/
theorem checksum_text (floatDigits : Int → Int → String) (hpx : precision.1 ≤ 8)
    (hqty : precision.2 ≤ 8) {asks bids : List Kraken.Level} {askUnits bidUnits : List (Int × Int)}
    (hasks : List.Forall₂ (ReadLevel precision) asks askUnits)
    (hbids : List.Forall₂ (ReadLevel precision) bids bidUnits) :
    Kraken.checksumBytes askUnits bidUnits precision =
        (krakenText asks precision ++ krakenText bids precision).toByteArray.data.toList ∧
      K2.Lake.checksumSide floatDigits askUnits (precision.1, precision.2) ++
          K2.Lake.checksumSide floatDigits bidUnits (precision.1, precision.2) =
        krakenText asks precision ++ krakenText bids precision := by
  constructor
  · rw [Kraken.checksumBytes, List.flatMap_cons, List.flatMap_cons, List.flatMap_nil,
      List.append_nil, bytes_krakenText hpx hqty hasks, bytes_krakenText hpx hqty hbids,
      String.toByteArray_append, ByteArray.data_append, Array.toList_append]
  · rw [checksumSide_krakenText floatDigits hpx hqty hasks,
      checksumSide_krakenText floatDigits hpx hqty hbids]

/-- Two levels of each side. -/
theorem one_level_text :
    Kraken.checksumBytes [(4528520000000, 100000), (4528530000000, 250000000)]
        [(4528510000000, 7), (4528000000000, 1200000000)] (1, 8) =
      (krakenText [⟨"45285.2", "0.00100000"⟩, ⟨"45285.3", "2.50000000"⟩] (1, 8) ++
        krakenText [⟨"45285.1", "0.00000007"⟩, ⟨"45280.0", "12.00000000"⟩]
          (1, 8)).toByteArray.data.toList :=
  (checksum_text (fun _ _ => "") (by decide) (by decide)
    (.cons ⟨rfl, rfl, by decide, by decide, by decide, by decide⟩
      (.cons ⟨rfl, rfl, by decide, by decide, by decide, by decide⟩ .nil))
    (.cons ⟨rfl, rfl, by decide, by decide, by decide, by decide⟩
      (.cons ⟨rfl, rfl, by decide, by decide, by decide, by decide⟩ .nil))).1

end Checksum

end K2.Capture

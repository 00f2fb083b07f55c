import K2Platform.Capture.Decimal

/-!
# Decimal text in the lake

Model of what Spark makes of a decimal numeral: `CAST(text AS DECIMAL(28,10))` of `books.py`, and
the `DECIMAL(28,10)` fields of `bronze.py`'s schemas, which hold the digits of a JSON number.  The
numeral is read as a `BigDecimal`, rounded half up to ten decimals, and is null where it does not
fit 28 digits.

* `castDecimal_of_parseFixed` — where the capture reads a number, the lake reads the same number.
-/

set_option autoImplicit false

namespace K2.Lake

open K2.Capture (parseFixed)

/-- `digits * 10 ^ exponent`, or its negation. -/
structure Numeral where
  negative : Bool
  digits : Nat
  exponent : Int
  deriving DecidableEq, Repr

def readSign : List Char → Bool × List Char
  | '-' :: s => (true, s)
  | '+' :: s => (false, s)
  | s => (false, s)

def readExponent : List Char → Option Int
  | [] => some 0
  | c :: s =>
    if c = 'e' ∨ c = 'E' then
      let signed := readSign s
      if signed.2 ≠ [] ∧ signed.2.all Char.isDigit then
        let value : Int := Nat.ofDigitChars 10 signed.2 0
        some (if signed.1 then -value else value)
      else none
    else none

/-- The digits after a point, and the rest. -/
def readFraction : List Char → List Char × List Char
  | '.' :: s => (s.takeWhile Char.isDigit, s.dropWhile Char.isDigit)
  | s => ([], s)

/-- `new BigDecimal(text)`. -/
def readNumeral (text : List Char) : Option Numeral :=
  let signed := readSign text
  let whole := signed.2.takeWhile Char.isDigit
  let fraction := readFraction (signed.2.dropWhile Char.isDigit)
  if whole ++ fraction.1 = [] then none
  else (readExponent fraction.2).map fun exponent =>
    ⟨signed.1, Nat.ofDigitChars 10 (whole ++ fraction.1) 0, exponent - fraction.1.length⟩

/-- `String.trim` of the JVM. -/
def trim (text : List Char) : List Char :=
  ((text.dropWhile (·.toNat ≤ 32)).reverse.dropWhile (·.toNat ≤ 32)).reverse

/-- The value in units of 1e-10, rounded half up. -/
def Numeral.unscaled (n : Numeral) : Nat :=
  if -10 ≤ n.exponent then n.digits * 10 ^ (n.exponent + 10).toNat
  else (2 * n.digits + 10 ^ (-10 - n.exponent).toNat) / (2 * 10 ^ (-10 - n.exponent).toNat)

/-- `CAST(text AS DECIMAL(28,10))`, in units of 1e-10. -/
def castDecimal (text : String) : Option Int :=
  (readNumeral (trim text.toList)).bind fun n =>
    if n.unscaled < 10 ^ 28 then
      some (if n.negative then -(n.unscaled : Int) else n.unscaled)
    else none

example : castDecimal "45285.2" = some 452852000000000 := by decide

example : castDecimal "1e-7" = some 1000 := by decide

/-! ## The numerals that the capture reads -/

section Loop

open K2.Capture

theorem pushDigit_eq {units : Nat} {c : Char} {v : Int} (h : pushDigit units c = some v) :
    v = ((10 * units + (c.toNat - '0'.toNat) : Nat) : Int) := by
  obtain ⟨tens, htens, hv⟩ := Option.bind_eq_some_iff.1 h
  unfold I64.checkedMul at htens
  unfold I64.checkedAdd at hv
  split at htens
  · cases htens
    split at hv
    · cases hv
      omega
    · cases hv
  · cases htens

/-- One pass of the loop that does not fail reads a digit on either side of the point, or the
    point. -/
theorem parseStep_ok {st st' : ParseState} {c : Char} (h : parseStep st c = .ok st') :
    (∃ v, c.isDigit = true ∧ pushDigit st.units c = some v ∧
      (st.seenPoint = true ∧ st.fracDigits + 1 ≤ Capture.SCALE_DP ∧
          st' = { st with units := v, fracDigits := st.fracDigits + 1, seenDigitAfterPoint := true } ∨
        st.seenPoint = false ∧ st' = { st with units := v, seenDigitBeforePoint := true })) ∨
      c = '.' ∧ st.seenPoint = false ∧ st.seenDigitBeforePoint = true ∧
        st' = { st with seenPoint := true } := by
  unfold parseStep at h
  split at h
  · rename_i hdigit
    unfold parseDigit at h
    split at h
    · cases h
    · rename_i hroom
      split at h
      · cases h
      · rename_i v hpush
        refine Or.inl ⟨v, hdigit, hpush, ?_⟩
        split at h
        · rename_i hpoint
          cases h
          exact Or.inl ⟨hpoint, Nat.not_lt.1 fun hlt => hroom ⟨hpoint, hlt⟩, rfl⟩
        · rename_i hpoint
          cases h
          exact Or.inr ⟨Bool.eq_false_iff.2 hpoint, rfl⟩
  · split at h
    · rename_i hc
      split at h
      · rename_i hbefore
        cases h
        exact Or.inr ⟨hc.1, hc.2, hbefore, rfl⟩
      · cases h
    · split at h <;> cases h

theorem foldlM_cons_ok {c : Char} {cs : List Char} {st st' : ParseState}
    (h : (c :: cs).foldlM parseStep st = .ok st') :
    ∃ mid, parseStep st c = .ok mid ∧ cs.foldlM parseStep mid = .ok st' := by
  rw [List.foldlM_cons] at h
  cases hstep : parseStep st c with
  | error e =>
    rw [hstep] at h
    cases h
  | ok mid =>
    rw [hstep] at h
    exact ⟨mid, rfl, h⟩

/-- The loop past the point, from a state that holds `units`. -/
theorem foldlM_fraction : ∀ (cs : List Char) (st : ParseState) (units : Nat) {st' : ParseState},
    st.seenPoint = true → st.units = units → st.fracDigits ≤ Capture.SCALE_DP →
    cs.foldlM parseStep st = .ok st' →
      (∀ c ∈ cs, c.isDigit = true) ∧ st'.units = (Nat.ofDigitChars 10 cs units : Nat) ∧
        st'.fracDigits = st.fracDigits + cs.length ∧ st'.fracDigits ≤ Capture.SCALE_DP
  | [], st, units, st', _, hunits, hfrac, h => by
    cases h
    exact ⟨fun c hc => absurd hc List.not_mem_nil, hunits, rfl, hfrac⟩
  | c :: cs, st, units, st', hpoint, hunits, hfrac, h => by
    obtain ⟨mid, hstep, hrest⟩ := foldlM_cons_ok h
    rcases parseStep_ok hstep with ⟨v, hdigit, hpush, ⟨_, hroom, rfl⟩ | ⟨hno, _⟩⟩ | ⟨_, hno, _⟩
    · rw [hunits] at hpush
      obtain ⟨hall, hu, hf, hle⟩ := foldlM_fraction cs
        { st with units := v, fracDigits := st.fracDigits + 1, seenDigitAfterPoint := true }
        (10 * units + (c.toNat - '0'.toNat)) hpoint (pushDigit_eq hpush) hroom hrest
      refine ⟨?_, ?_, ?_, hle⟩
      · intro d hd
        rcases List.mem_cons.1 hd with rfl | hd
        · exact hdigit
        · exact hall d hd
      · rw [hu, Nat.ofDigitChars_cons]
      · rw [hf, List.length_cons]
        exact Nat.succ_add_eq_add_succ _ _
    · rw [hpoint] at hno
      cases hno
    · rw [hpoint] at hno
      cases hno

/-- Digits, and perhaps a point and more digits. -/
structure Spelled (text whole fraction : List Char) : Prop where
  text : text = whole ∧ fraction = [] ∨ text = whole ++ '.' :: fraction
  whole : ∀ c ∈ whole, c.isDigit = true
  fraction : ∀ c ∈ fraction, c.isDigit = true

theorem foldlM_whole : ∀ (cs : List Char) (st : ParseState) (units : Nat) {st' : ParseState},
    st.seenPoint = false → st.units = units → st.fracDigits = 0 →
    cs.foldlM parseStep st = .ok st' →
      ∃ whole fraction, Spelled cs whole fraction ∧
        st'.units = (Nat.ofDigitChars 10 (whole ++ fraction) units : Nat) ∧
        st'.fracDigits = fraction.length ∧ fraction.length ≤ Capture.SCALE_DP ∧
        (whole = [] → st.seenDigitBeforePoint = false → st'.seenDigitBeforePoint = false)
  | [], st, units, st', _, hunits, hfrac, h => by
    cases h
    exact ⟨[], [], ⟨Or.inl ⟨rfl, rfl⟩, fun _ hc => absurd hc List.not_mem_nil,
      fun _ hc => absurd hc List.not_mem_nil⟩, hunits, hfrac, Nat.zero_le _, fun _ h => h⟩
  | c :: cs, st, units, st', hpoint, hunits, hfrac, h => by
    obtain ⟨mid, hstep, hrest⟩ := foldlM_cons_ok h
    rcases parseStep_ok hstep with
      ⟨v, hdigit, hpush, ⟨hyes, _⟩ | ⟨_, rfl⟩⟩ | ⟨rfl, _, hbefore, rfl⟩
    · rw [hpoint] at hyes
      cases hyes
    · rw [hunits] at hpush
      obtain ⟨whole, fraction, hspelled, hu, hf, hle, -⟩ := foldlM_whole cs
        { st with units := v, seenDigitBeforePoint := true } (10 * units + (c.toNat - '0'.toNat))
        hpoint (pushDigit_eq hpush) hfrac hrest
      refine ⟨c :: whole, fraction, ⟨?_, ?_, hspelled.fraction⟩, ?_, hf, hle,
        fun hnil => nomatch hnil⟩
      · rcases hspelled.text with ⟨rfl, hnil⟩ | heq
        · exact Or.inl ⟨rfl, hnil⟩
        · exact Or.inr (by rw [heq, List.cons_append])
      · intro d hd
        rcases List.mem_cons.1 hd with rfl | hd
        · exact hdigit
        · exact hspelled.whole d hd
      · rw [hu, List.cons_append, Nat.ofDigitChars_cons]
    · obtain ⟨hall, hu, hf, hle⟩ := foldlM_fraction cs { st with seenPoint := true } units rfl hunits
        (hfrac.trans_le (Nat.zero_le _)) hrest
      have hlength : st'.fracDigits = cs.length := by
        rw [hf, hfrac, Nat.zero_add]
      refine ⟨[], cs, ⟨Or.inr rfl, fun _ hc => absurd hc List.not_mem_nil, hall⟩, hu, hlength,
        hlength ▸ hle, fun _ hno => ?_⟩
      rw [hbefore] at hno
      cases hno

/-- What `parse_fixed` accepts, and the value it gives. -/
theorem spelled_of_parseFixed {text : String} {v : Int} (h : parseFixed text = .ok v) :
    ∃ whole fraction, Spelled text.toList whole fraction ∧ whole ≠ [] ∧
      fraction.length ≤ Capture.SCALE_DP ∧ I64.InRange v ∧
      v = (Nat.ofDigitChars 10 (whole ++ fraction) 0 *
        10 ^ (Capture.SCALE_DP - fraction.length) : Nat) := by
  unfold parseFixed at h
  split at h
  · cases h
  · cases h
  · cases hloop : text.toList.foldlM parseStep ParseState.init with
    | error e =>
      rw [hloop] at h
      cases h
    | ok st =>
      rw [hloop] at h
      obtain ⟨whole, fraction, hspelled, hu, hf, hle, hbefore⟩ :=
        foldlM_whole _ ParseState.init 0 rfl rfl rfl hloop
      replace h : parseFinish st = .ok v := h
      unfold parseFinish at h
      split at h
      · cases h
      · split at h
        · cases h
        · rename_i hdigit
          unfold I64.checkedMul at h
          split at h
          · cases h
          · rename_i w hw
            cases h
            split at hw
            · rename_i hrange
              cases hw
              rw [hu, hf] at hrange ⊢
              refine ⟨whole, fraction, hspelled, fun hnil => ?_, hle, hrange, ?_⟩
              · exact hdigit (hbefore hnil rfl)
              · push_cast
                rfl
            · cases hw

end Loop

/-! ## The same numerals in the lake -/

theorem takeWhile_digits {ds : List Char} (rest : List Char) (hds : ∀ c ∈ ds, c.isDigit = true)
    (hrest : ∀ c ∈ rest.head?, c.isDigit = false) :
    (ds ++ rest).takeWhile Char.isDigit = ds ∧ (ds ++ rest).dropWhile Char.isDigit = rest := by
  rw [List.takeWhile_append_of_pos hds, List.dropWhile_append_of_pos hds]
  cases rest with
  | nil => exact ⟨List.append_nil ds, rfl⟩
  | cons c rest =>
    have hc : c.isDigit = false := hrest c rfl
    rw [List.takeWhile_cons, List.dropWhile_cons, hc]
    exact ⟨List.append_nil ds, rfl⟩

theorem trim_eq_self {text : List Char} (h : ∀ c ∈ text, 32 < c.toNat) : trim text = text := by
  have hdrop : ∀ l : List Char, (∀ c ∈ l, 32 < c.toNat) → l.dropWhile (·.toNat ≤ 32) = l := by
    intro l hl
    cases l with
    | nil => rfl
    | cons c l =>
      have hc : decide (c.toNat ≤ 32) = false := decide_eq_false (Nat.not_le.2 (hl c List.mem_cons_self))
      rw [List.dropWhile_cons, hc]
      rfl
  rw [trim, hdrop text h, hdrop text.reverse fun c hc => h c (List.mem_reverse.1 hc),
    List.reverse_reverse]

theorem toNat_of_isDigit {c : Char} (h : c.isDigit = true) : 48 ≤ c.toNat := by
  have hdigit := Char.isDigit_iff_toNat.1 h
  exact hdigit.1

theorem Spelled.visible {text whole fraction : List Char} (h : Spelled text whole fraction) :
    ∀ c ∈ text, 32 < c.toNat := by
  have hdigits : ∀ ds : List Char, (∀ c ∈ ds, c.isDigit = true) → ∀ c ∈ ds, 32 < c.toNat :=
    fun ds hds c hc => lt_of_lt_of_le (by decide) (toNat_of_isDigit (hds c hc))
  rcases h.text with ⟨rfl, _⟩ | rfl
  · exact hdigits _ h.whole
  · intro c hc
    rcases List.mem_append.1 hc with hc | hc
    · exact hdigits _ h.whole c hc
    · rcases List.mem_cons.1 hc with rfl | hc
      · decide
      · exact hdigits _ h.fraction c hc

theorem Spelled.readNumeral {text whole fraction : List Char} (h : Spelled text whole fraction)
    (hne : whole ≠ []) : readNumeral text =
      some ⟨false, Nat.ofDigitChars 10 (whole ++ fraction) 0, -(fraction.length : Int)⟩ := by
  have hsign : readSign text = (false, text) := by
    obtain ⟨c, rest, rfl⟩ := List.exists_cons_of_ne_nil hne
    have hc : c.isDigit = true := h.whole c List.mem_cons_self
    have hhead : ∃ tail, text = c :: tail := by
      rcases h.text with ⟨rfl, _⟩ | rfl
      · exact ⟨_, rfl⟩
      · exact ⟨_, rfl⟩
    obtain ⟨tail, rfl⟩ := hhead
    unfold readSign
    split
    · rename_i heq
      cases heq
      cases hc
    · rename_i heq
      cases heq
      cases hc
    · rfl
  have hsplit : text.takeWhile Char.isDigit = whole ∧
      readFraction (text.dropWhile Char.isDigit) = (fraction, []) := by
    rcases h.text with ⟨rfl, rfl⟩ | rfl
    · have hall := takeWhile_digits [] h.whole (fun c hc => by cases hc)
      rw [List.append_nil] at hall
      exact ⟨hall.1, by rw [hall.2]; rfl⟩
    · have hall := takeWhile_digits ('.' :: fraction) h.whole (fun c hc => by cases hc; rfl)
      have hfrac := takeWhile_digits [] h.fraction (fun c hc => by cases hc)
      rw [List.append_nil] at hfrac
      refine ⟨hall.1, ?_⟩
      rw [hall.2, readFraction, hfrac.1, hfrac.2]
  unfold K2.Lake.readNumeral
  simp only [hsign, hsplit.1, hsplit.2]
  rw [if_neg (List.append_ne_nil_of_left_ne_nil hne _)]
  simp [readExponent]

/-- **Where the capture reads a number in units of 1e-8, the lake reads the same number.** -/
theorem castDecimal_of_parseFixed {text : String} {v : Int} (h : parseFixed text = .ok v) :
    castDecimal text = some (v * 100) ∧ 0 ≤ v := by
  obtain ⟨whole, fraction, hspelled, hne, hle, hrange, hv⟩ := spelled_of_parseFixed h
  refine ⟨?_, by rw [hv]; exact Int.natCast_nonneg _⟩
  rw [castDecimal, trim_eq_self hspelled.visible, hspelled.readNumeral hne, Option.bind_some]
  generalize Nat.ofDigitChars 10 (whole ++ fraction) 0 = digits at hv
  have hle' : fraction.length ≤ 8 := hle
  have hunits : (⟨false, digits, -(fraction.length : Int)⟩ : Numeral).unscaled =
      digits * 10 ^ (8 - fraction.length) * 100 := by
    have hexp : (-(fraction.length : Int) + 10).toNat = 8 - fraction.length + 2 := by omega
    unfold Numeral.unscaled
    simp only
    rw [if_pos (by omega), hexp, pow_add, Nat.mul_assoc]
    rfl
  have hscaled : v = (digits * 10 ^ (8 - fraction.length) : Nat) := hv
  rw [hunits]
  generalize digits * 10 ^ (8 - fraction.length) = units at hscaled
  have hbound := hrange.2
  unfold I64.MAX at hbound
  rw [if_pos (by omega), hscaled]
  simp

end K2.Lake

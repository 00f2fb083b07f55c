import Mathlib.Algebra.Group.Nat.Defs
import Mathlib.Data.List.Induction
import Mathlib.Data.Nat.Basic

/-!
# Decimal digits and the numbers they write

Texts of decimal digits as lists of characters, read by `Nat.ofDigitChars` and written by
`Nat.toDigits`, with zeros added or taken away at either end.

* `toDigits_ofDigitChars` — digits without a leading zero are those of their number.
* `toDigits_dropZeros` — so are any digits of a positive number, once leading zeros are dropped.
* `ofDigitChars_rightpad`, `ofDigitChars_leftpad` — zeros at the right scale, at the left they do
  nothing.
-/

set_option autoImplicit false

namespace Digits

def AllDigits (ds : List Char) : Prop := ∀ c ∈ ds, c.isDigit = true

instance (ds : List Char) : Decidable (AllDigits ds) :=
  inferInstanceAs (Decidable (∀ c ∈ ds, c.isDigit = true))

variable {ds es : List Char}

theorem allDigits_nil : AllDigits [] := fun _ h => absurd h List.not_mem_nil

theorem allDigits_append : AllDigits (ds ++ es) ↔ AllDigits ds ∧ AllDigits es :=
  List.forall_mem_append

theorem allDigits_cons {c : Char} : AllDigits (c :: ds) ↔ c.isDigit = true ∧ AllDigits ds :=
  List.forall_mem_cons

theorem allDigits_toDigits (n : Nat) : AllDigits (Nat.toDigits 10 n) := fun _ hc =>
  Nat.isDigit_of_mem_toDigits (by decide) (by decide) hc

theorem allDigits_replicate (n : Nat) : AllDigits (List.replicate n '0') := by
  intro c hc
  rw [List.eq_of_mem_replicate hc]
  rfl

theorem digit_lt_ten {c : Char} (h : c.isDigit = true) : c.toNat - '0'.toNat < 10 := by
  have hc := Char.isDigit_iff_toNat.1 h
  have hzero : '0'.toNat = 48 := rfl
  have hnine : '9'.toNat = 57 := rfl
  omega

theorem digitChar_digit {c : Char} (h : c.isDigit = true) :
    (c.toNat - '0'.toNat).digitChar = c := by
  have hc := Char.isDigit_iff_toNat.1 h
  have hzero : '0'.toNat = 48 := rfl
  refine Char.toNat_inj.1 ?_
  rw [Nat.toNat_digitChar_of_lt_ten (digit_lt_ten h)]
  omega

theorem digit_eq_zero_iff {c : Char} (h : c.isDigit = true) : c.toNat - '0'.toNat = 0 ↔ c = '0' := by
  constructor
  · intro hzero
    rw [← digitChar_digit h, hzero]
    rfl
  · rintro rfl
    rfl

theorem le_ofDigitChars (ds : List Char) (n : Nat) : n ≤ Nat.ofDigitChars 10 ds n := by
  have hpow : 1 ≤ 10 ^ ds.length := Nat.one_le_pow _ _ (by decide)
  rw [Nat.ofDigitChars_eq_ofDigitChars_zero]
  calc n = 1 * n := (Nat.one_mul n).symm
    _ ≤ 10 ^ ds.length * n := Nat.mul_le_mul_right n hpow
    _ ≤ 10 ^ ds.length * n + Nat.ofDigitChars 10 ds 0 := Nat.le_add_right _ _

theorem ofDigitChars_concat (ds : List Char) (c : Char) (n : Nat) :
    Nat.ofDigitChars 10 (ds ++ [c]) n = 10 * Nat.ofDigitChars 10 ds n + (c.toNat - '0'.toNat) := by
  rw [Nat.ofDigitChars_append, Nat.ofDigitChars_cons, Nat.ofDigitChars_nil]

/-! ## Leading zeros -/

theorem ofDigitChars_pos_of_head {c : Char} (hc : c.isDigit = true) (hne : c ≠ '0')
    (ds : List Char) : 0 < Nat.ofDigitChars 10 (c :: ds) 0 := by
  have hdigit : c.toNat - '0'.toNat ≠ 0 := fun hzero => hne ((digit_eq_zero_iff hc).1 hzero)
  have hle := le_ofDigitChars ds (10 * 0 + (c.toNat - '0'.toNat))
  rw [Nat.ofDigitChars_cons]
  omega

/-- Digits without a leading zero are those that their number is written with. -/
theorem toDigits_ofDigitChars {c : Char} {ds : List Char} (h : AllDigits (c :: ds)) (hc : c ≠ '0') :
    Nat.toDigits 10 (Nat.ofDigitChars 10 (c :: ds) 0) = c :: ds := by
  induction ds using List.reverseRecOn with
  | nil =>
    have hdigit := (allDigits_cons.1 h).1
    rw [Nat.ofDigitChars_cons, Nat.ofDigitChars_nil, Nat.mul_zero, Nat.zero_add,
      Nat.toDigits_of_lt_base (digit_lt_ten hdigit), digitChar_digit hdigit]
  | append_singleton ds d ih =>
    rw [← List.cons_append] at h ⊢
    obtain ⟨hfront, hlast⟩ := allDigits_append.1 h
    have hd : d.isDigit = true := hlast d List.mem_cons_self
    have hlt := digit_lt_ten hd
    have hpos := ofDigitChars_pos_of_head (allDigits_cons.1 hfront).1 hc ds
    have hdiv : (10 * Nat.ofDigitChars 10 (c :: ds) 0 + (d.toNat - '0'.toNat)) / 10 =
        Nat.ofDigitChars 10 (c :: ds) 0 := by
      omega
    have hmod : (10 * Nat.ofDigitChars 10 (c :: ds) 0 + (d.toNat - '0'.toNat)) % 10 =
        d.toNat - '0'.toNat := by
      omega
    rw [ofDigitChars_concat, Nat.toDigits_of_base_le (by decide) (by omega), hdiv, hmod,
      ih hfront, digitChar_digit hd]

def dropZeros (ds : List Char) : List Char := ds.dropWhile fun c => c = '0'

theorem ofDigitChars_dropZeros (ds : List Char) :
    Nat.ofDigitChars 10 (dropZeros ds) 0 = Nat.ofDigitChars 10 ds 0 := by
  induction ds with
  | nil => rfl
  | cons c ds ih =>
    by_cases hc : c = '0'
    · subst hc
      exact ih
    · rw [dropZeros, List.dropWhile_cons_of_neg (by simpa using hc)]

/-- The digits of a positive number, whatever zeros they begin with. -/
theorem toDigits_dropZeros (h : AllDigits ds) (hpos : 0 < Nat.ofDigitChars 10 ds 0) :
    Nat.toDigits 10 (Nat.ofDigitChars 10 ds 0) = dropZeros ds := by
  rw [← ofDigitChars_dropZeros] at hpos ⊢
  have hdigits : AllDigits (dropZeros ds) := fun c hc => h c (List.dropWhile_sublist _ |>.subset hc)
  cases hzeros : dropZeros ds with
  | nil =>
    rw [hzeros, Nat.ofDigitChars_nil] at hpos
    exact absurd hpos (Nat.lt_irrefl 0)
  | cons c rest =>
    have hhead : c ≠ '0' := by
      have hc : (ds.dropWhile fun c => decide (c = '0')).head? = some c := by
        rw [← dropZeros, hzeros]
        rfl
      have hnot := List.head?_dropWhile_not (fun c => decide (c = '0')) ds
      rw [hc] at hnot
      simpa using hnot
    rw [hzeros] at hdigits
    exact toDigits_ofDigitChars hdigits hhead

/-! ## Padding -/

theorem ofDigitChars_rightpad (k : Nat) (ds : List Char) (n : Nat) :
    Nat.ofDigitChars 10 (ds.rightpad k '0') n = Nat.ofDigitChars 10 ds n * 10 ^ (k - ds.length) := by
  rw [List.rightpad, Nat.ofDigitChars_append, Nat.ofDigitChars_replicate_zero, Nat.mul_comm]

theorem ofDigitChars_leftpad (k : Nat) (ds : List Char) :
    Nat.ofDigitChars 10 (ds.leftpad k '0') 0 = Nat.ofDigitChars 10 ds 0 := by
  rw [List.leftpad, Nat.ofDigitChars_append, Nat.ofDigitChars_replicate_zero, Nat.mul_zero]

theorem allDigits_rightpad (h : AllDigits ds) (k : Nat) : AllDigits (ds.rightpad k '0') :=
  allDigits_append.2 ⟨h, allDigits_replicate _⟩

theorem allDigits_leftpad (h : AllDigits ds) (k : Nat) : AllDigits (ds.leftpad k '0') :=
  allDigits_append.2 ⟨allDigits_replicate _, h⟩

end Digits

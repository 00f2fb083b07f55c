import Mathlib.Algebra.Order.Ring.Int
import K2Platform.Lib.Word

/-!
# Decimal text to 1e-8 fixed point

Model of `services/capture-rust/src/decimal.rs`.  A price or a quantity is an `i64` holding
`decimal * 1e8`; the text is read digit by digit and never rounded.

The source walks the bytes of the text.  The model walks its characters: every byte of a
multi-byte character is rejected as `Malformed`, so such a character is rejected whole.
-/

set_option autoImplicit false

namespace K2.Capture

/-- Why a decimal string could not become an exact `i64` at 1e-8. -/
inductive DecimalError where
  | tooManyDecimals
  | scientific
  | malformed
  | overflow
  | negative
  deriving DecidableEq, Repr

def SCALE : Int := 100000000

def SCALE_DP : Nat := 8

/-- The locals of the loop of `parse_fixed`. -/
structure ParseState where
  units : Int
  fracDigits : Nat
  seenPoint : Bool
  seenDigitBeforePoint : Bool
  seenDigitAfterPoint : Bool
  deriving DecidableEq, Repr

def ParseState.init : ParseState := ⟨0, 0, false, false, false⟩

/-- `units.checked_mul(10).and_then(|v| v.checked_add(c - '0'))`. -/
def pushDigit (units : Int) (c : Char) : Option Int :=
  (I64.checkedMul units 10).bind fun v => I64.checkedAdd v ((c.toNat - '0'.toNat : Nat) : Int)

/-- The digit arm of the loop. -/
def parseDigit (st : ParseState) (c : Char) : Except DecimalError ParseState :=
  if st.seenPoint = true ∧ SCALE_DP < st.fracDigits + 1 then .error .tooManyDecimals
  else match pushDigit st.units c with
    | none => .error .overflow
    | some units =>
      if st.seenPoint then
        .ok { st with units := units, fracDigits := st.fracDigits + 1, seenDigitAfterPoint := true }
      else .ok { st with units := units, seenDigitBeforePoint := true }

/-- One pass of the loop. -/
def parseStep (st : ParseState) (c : Char) : Except DecimalError ParseState :=
  if c.isDigit then parseDigit st c
  else if c = '.' ∧ st.seenPoint = false then
    if st.seenDigitBeforePoint then .ok { st with seenPoint := true } else .error .malformed
  else if c = 'e' ∨ c = 'E' then .error .scientific
  else .error .malformed

/-- What follows the loop: the two malformed shapes, then the left shift to the scale. -/
def parseFinish (st : ParseState) : Except DecimalError Int :=
  if st.seenPoint = true ∧ st.seenDigitAfterPoint = false then .error .malformed
  else if st.seenDigitBeforePoint = false then .error .malformed
  else match I64.checkedMul st.units (10 ^ (SCALE_DP - st.fracDigits)) with
    | none => .error .overflow
    | some v => .ok v

def parseFixed (s : String) : Except DecimalError Int :=
  match s.toList with
  | [] => .error .malformed
  | '-' :: _ => .error .negative
  | cs => (cs.foldlM parseStep ParseState.init).bind parseFinish

/-- `(units / 10i64.pow(SCALE_DP.saturating_sub(precision))).to_string()`. -/
def checksumDigits (units : Int) (precision : Nat) : String :=
  toString (units.tdiv (10 ^ (SCALE_DP - precision)))

example : parseFixed "45285.2" = .ok 4528520000000 := by decide

example : checksumDigits 4528520000000 1 = "452852" := by decide

end K2.Capture

import Mathlib.Data.Int.Basic

/-!
# Two's complement 64-bit integers on `Int`

A 64-bit machine integer is the `Int` it denotes.  `I64.wrap` is the value the machine keeps
of an exact result; `checkedAdd` and `checkedMul` return nothing where that value differs.
-/

set_option autoImplicit false

namespace I64

def MIN : Int := -9223372036854775808

def MAX : Int := 9223372036854775807

def InRange (x : Int) : Prop := MIN ≤ x ∧ x ≤ MAX

instance (x : Int) : Decidable (InRange x) := inferInstanceAs (Decidable (_ ∧ _))

def wrap (x : Int) : Int := (x + 9223372036854775808) % 18446744073709551616 - 9223372036854775808

theorem wrap_inRange (x : Int) : InRange (wrap x) := by
  unfold InRange wrap MIN MAX
  omega

theorem wrap_of_inRange {x : Int} (h : InRange x) : wrap x = x := by
  unfold InRange MIN MAX at h
  unfold wrap
  omega

theorem wrap_eq_iff {x : Int} : wrap x = x ↔ InRange x :=
  ⟨fun h => h ▸ wrap_inRange x, wrap_of_inRange⟩

theorem wrap_eq_sub (x : Int) : ∃ k : Int, wrap x = x - 18446744073709551616 * k :=
  ⟨(x + 9223372036854775808) / 18446744073709551616, by unfold wrap; omega⟩

/-- Arithmetic on wrapped operands wraps to the same value as arithmetic on the exact ones. -/
theorem wrap_add_wrap (x y : Int) : wrap (wrap x + wrap y) = wrap (x + y) := by
  unfold wrap
  omega

def checkedAdd (x y : Int) : Option Int := if InRange (x + y) then some (x + y) else none

def checkedMul (x y : Int) : Option Int := if InRange (x * y) then some (x * y) else none

end I64

/-- The same for 32 bits. -/
def I32.wrap (x : Int) : Int := (x + 2147483648) % 4294967296 - 2147483648

theorem I32.wrap_of_inRange {x : Int} (h : -2147483648 ≤ x ∧ x < 2147483648) : wrap x = x := by
  unfold wrap
  omega

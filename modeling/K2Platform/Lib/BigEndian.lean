import Mathlib.Tactic.Ring
import Mathlib.Data.List.Basic

/-!
# Big-endian integers and their hexadecimal text

A byte string as an unsigned and as a two's complement integer, most significant byte first, and
the text of its hexadecimal digits read back in base 16.

* `unsigned_lt` — `n` bytes hold the numbers below `256 ^ n`.
* `signed_eq_iff_of_pos` — a positive signed value is the unsigned one, with the top bit clear.
* `readDigits_hex` — the hexadecimal text of a byte string reads as its unsigned value.
-/

set_option autoImplicit false

namespace BigEndian

def unsigned (bytes : List UInt8) : Nat := bytes.foldl (fun n b => 256 * n + b.toNat) 0

/-- Two's complement. -/
def signed (bytes : List UInt8) : Int :=
  if 2 * unsigned bytes < 256 ^ bytes.length then unsigned bytes
  else (unsigned bytes : Int) - 256 ^ bytes.length

theorem foldl_lt (bytes : List UInt8) (n : Nat) :
    bytes.foldl (fun n b => 256 * n + b.toNat) n < (n + 1) * 256 ^ bytes.length := by
  induction bytes generalizing n with
  | nil => simp
  | cons b bytes ih =>
    have hb : b.toNat < 256 := b.toNat_lt
    rw [List.foldl_cons, List.length_cons]
    calc bytes.foldl (fun n b => 256 * n + b.toNat) (256 * n + b.toNat)
        < (256 * n + b.toNat + 1) * 256 ^ bytes.length := ih _
      _ ≤ (n + 1) * 256 * 256 ^ bytes.length := Nat.mul_le_mul_right _ (by omega)
      _ = (n + 1) * 256 ^ (bytes.length + 1) := by ring

theorem unsigned_lt (bytes : List UInt8) : unsigned bytes < 256 ^ bytes.length := by
  have h := foldl_lt bytes 0
  rwa [Nat.zero_add, Nat.one_mul] at h

/-- The sign is the top bit, and the other bits write the same number. -/
theorem signed_eq_iff_of_pos {bytes : List UInt8} {k : Int} (hk : 0 < k) :
    signed bytes = k ↔ (unsigned bytes : Int) = k ∧ 2 * unsigned bytes < 256 ^ bytes.length := by
  have hlt : (unsigned bytes : Int) < 256 ^ bytes.length := by exact_mod_cast unsigned_lt bytes
  unfold signed
  split
  · rename_i hclear
    simp [hclear]
  · rename_i hset
    simp only [hset, and_false, iff_false]
    omega

theorem signed_singleton_eq_zero_iff (b : UInt8) : signed [b] = 0 ↔ b = 0 := by
  have hvalue : unsigned [b] = b.toNat := Nat.zero_add _
  have hlt : b.toNat < 256 := b.toNat_lt
  rw [← UInt8.toNat_inj, signed, hvalue]
  show (if 2 * b.toNat < 256 then (b.toNat : Int) else (b.toNat : Int) - 256) = 0 ↔ b.toNat = 0
  split
  · omega
  · omega

/-! ## Hexadecimal text -/

/-- Two upper-case digits. -/
def hexByte (b : UInt8) : List Char :=
  [(b.toNat / 16).digitChar.toUpper, (b.toNat % 16).digitChar.toUpper]

def hex (bytes : List UInt8) : List Char := bytes.flatMap hexByte

/-- A digit of the base, in either case. -/
def digitOf (base : Nat) (c : Char) : Option Nat :=
  let d :=
    if '0' ≤ c ∧ c ≤ '9' then c.toNat - '0'.toNat
    else if 'A' ≤ c ∧ c ≤ 'Z' then c.toNat - 'A'.toNat + 10
    else if 'a' ≤ c ∧ c ≤ 'z' then c.toNat - 'a'.toNat + 10
    else base
  if d < base then some d else none

/-- The number that the leading digits write; what follows the first other character is not
    read. -/
def readDigits (base : Nat) : Nat → List Char → Nat
  | n, [] => n
  | n, c :: text =>
    match digitOf base c with
    | some d => readDigits base (base * n + d) text
    | none => n

theorem digitOf_digitChar {d : Nat} (h : d < 16) : digitOf 16 d.digitChar.toUpper = some d := by
  have hall : ∀ d : Fin 16, digitOf 16 (d : Nat).digitChar.toUpper = some (d : Nat) := by decide
  exact hall ⟨d, h⟩

theorem readDigits_hexByte (n : Nat) (b : UInt8) (text : List Char) :
    readDigits 16 n (hexByte b ++ text) = readDigits 16 (256 * n + b.toNat) text := by
  have hhigh : b.toNat / 16 < 16 := by
    have hb : b.toNat < 256 := b.toNat_lt
    omega
  have hlow : b.toNat % 16 < 16 := Nat.mod_lt _ (by decide)
  have hsum : 16 * (16 * n + b.toNat / 16) + b.toNat % 16 = 256 * n + b.toNat := by omega
  show readDigits 16 n (_ :: _ :: text) = _
  simp only [readDigits, digitOf_digitChar hhigh, digitOf_digitChar hlow, hsum]

theorem readDigits_hex (bytes : List UInt8) : readDigits 16 0 (hex bytes) = unsigned bytes := by
  have hrun : ∀ n, readDigits 16 n (hex bytes) =
      bytes.foldl (fun n b => 256 * n + b.toNat) n := by
    induction bytes with
    | nil => exact fun _ => rfl
    | cons b bytes ih =>
      intro n
      show readDigits 16 n (hexByte b ++ hex bytes) = _
      rw [readDigits_hexByte, ih, List.foldl_cons]
  exact hrun 0

theorem hex_eq_nil_iff (bytes : List UInt8) : hex bytes = [] ↔ bytes = [] := by
  cases bytes with
  | nil => exact iff_of_true rfl rfl
  | cons b bytes => exact iff_of_false (List.cons_ne_nil _ _) (List.cons_ne_nil _ _)

theorem hexByte_injective {a b : UInt8} (h : hexByte a = hexByte b) : a = b := by
  have hread := congrArg (readDigits 16 0) h
  have hbyte : ∀ c : UInt8, readDigits 16 0 (hexByte c) = c.toNat := fun c => by
    have hc := readDigits_hexByte 0 c []
    rw [List.append_nil] at hc
    rw [hc, Nat.mul_zero, Nat.zero_add]
    rfl
  rw [hbyte, hbyte] at hread
  exact UInt8.toNat_inj.1 hread

example : hex [0x00, 0x7b, 0xff] = "007BFF".toList := by decide

end BigEndian

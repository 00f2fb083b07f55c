import Mathlib.Data.List.Basic
import Mathlib.Data.String.Basic

/-!
# Scanning text

The part of regular expressions that a search for literals and numbers needs.

* `number_append` — a number that was written is read back.
* `search_skip` — what comes before the first match.
-/

set_option autoImplicit false

namespace Scan

/-- `\\d+`: the digits, and the rest. -/
def number (s : List Char) : Option (Nat × List Char) :=
  match s.takeWhile Char.isDigit with
  | [] => none
  | digits => some (Nat.ofDigitChars 10 digits 0, s.dropWhile Char.isDigit)

/-- `re.search`: the leftmost match. -/
def search {α : Type} (pattern : List Char → Option α) : List Char → Option α
  | [] => none
  | c :: s => (pattern (c :: s)).or (search pattern s)

theorem isDigit_of_mem_toDigits {n : Nat} {c : Char} (h : c ∈ Nat.toDigits 10 n) :
    c.isDigit = true := Nat.isDigit_of_mem_toDigits (by decide) (by decide) h

theorem number_append (n : Nat) (rest : List Char) (hrest : ∀ c ∈ rest.head?, c.isDigit = false) :
    number (Nat.toDigits 10 n ++ rest) = some (n, rest) := by
  have hstop : rest.takeWhile Char.isDigit = [] ∧ rest.dropWhile Char.isDigit = rest := by
    cases rest with
    | nil => exact ⟨rfl, rfl⟩
    | cons c rest =>
      have hc : c.isDigit = false := hrest c rfl
      exact ⟨by rw [List.takeWhile_cons, hc]; rfl, by rw [List.dropWhile_cons, hc]; rfl⟩
  have hall : ∀ c ∈ Nat.toDigits 10 n, c.isDigit = true := fun c => isDigit_of_mem_toDigits
  have hne : Nat.toDigits 10 n ≠ [] := Nat.toDigits_ne_nil
  unfold number
  rw [List.takeWhile_append_of_pos hall, List.dropWhile_append_of_pos hall, hstop.1, hstop.2,
    List.append_nil]
  split
  · rename_i h
    exact absurd h hne
  · rw [Nat.ofDigitChars_ten_toDigits]

theorem number_eq_none {s : List Char} (h : ∀ c ∈ s.head?, c.isDigit = false) :
    number s = none := by
  cases s with
  | nil => rfl
  | cons c s =>
    have hc : c.isDigit = false := h c rfl
    rw [number, List.takeWhile_cons, hc]
    rfl

/-- A search goes on past text in which no match begins. -/
theorem search_skip {α : Type} {pattern : List Char → Option α} {text rest : List Char}
    (h : ∀ u, u ≠ [] → u <:+ text → pattern (u ++ rest) = none) :
    search pattern (text ++ rest) = search pattern rest := by
  induction text with
  | nil => rfl
  | cons c text ih =>
    have hfirst : pattern (c :: text ++ rest) = none :=
      h (c :: text) (List.cons_ne_nil c text) List.suffix_rfl
    rw [List.cons_append] at hfirst ⊢
    rw [search, hfirst, Option.none_or]
    exact ih fun u hne hu => h u hne (hu.trans (List.suffix_cons c text))

theorem search_of_eq_some {α : Type} {pattern : List Char → Option α} {s : List Char} {a : α}
    (hs : s ≠ []) (h : pattern s = some a) : search pattern s = some a := by
  cases s with
  | nil => exact absurd rfl hs
  | cons c s => rw [search, h, Option.some_or]

/-! ## Words -/

/-- A word and the blank after it are told apart from other text. -/
theorem eq_of_append_blank {u v r s : List Char} (hu : ' ' ∉ u) (hv : ' ' ∉ v)
    (h : u ++ ' ' :: r = v ++ ' ' :: s) : u = v ∧ r = s := by
  induction u generalizing v with
  | nil =>
    cases v with
    | nil => exact ⟨rfl, (List.cons.inj h).2⟩
    | cons d v => exact absurd ((List.cons.inj h).1 ▸ List.mem_cons_self) hv
  | cons c u ih =>
    cases v with
    | nil => exact absurd ((List.cons.inj h).1 ▸ List.mem_cons_self) hu
    | cons d v =>
      obtain ⟨rfl, htail⟩ := List.cons.inj h
      obtain ⟨rfl, rfl⟩ := ih (fun hc => hu (List.mem_cons_of_mem _ hc))
        (fun hd => hv (List.mem_cons_of_mem _ hd)) htail
      exact ⟨rfl, rfl⟩

end Scan

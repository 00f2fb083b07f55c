import Mathlib.Algebra.Ring.Int.Defs
import K2Platform.Capture.Book
import K2Platform.Lib.Crc32

/-!
# The book the lake replays

Model of `docker/lake/book.py`: two dictionaries from price to quantity in 1e-8 fixed point,
read best first only, so a map sorted by price stands for each.  A quantity of zero removes the
level, and no other does.

* `ofLevels_top` — a book built back from its best levels is the truncated book.
* `krakenApply_within` — a Kraken book never has more levels on a side than its depth.
-/

set_option autoImplicit false

namespace K2.Lake

open K2.Capture (BookSide)

def SCALE_DP : Nat := 8

def CHECKSUM_LEVELS : Nat := 10

/-- The levels of one side, best first, as price and quantity. -/
abbrev Levels := List (Int × Int)

structure Book where
  bids : SortedMap Int Int
  asks : SortedMap Int Int
  deriving DecidableEq

namespace Book

/-- `Book()`, and what `clear` leaves. -/
def empty : Book := ⟨SortedMap.empty, SortedMap.empty⟩

/-- `levels.pop(px, None)` or `levels[px] = qty`. -/
def setLevel (levels : SortedMap Int Int) (px qty : Int) : SortedMap Int Int :=
  if qty = 0 then levels.erase px else levels.insert px qty

def apply (b : Book) (side : BookSide) (px qty : Int) : Book :=
  match side with
  | .bid => { b with bids := setLevel b.bids px qty }
  | .ask => { b with asks := setLevel b.asks px qty }

def truncate (b : Book) (depth : Nat) : Book :=
  ⟨b.bids.popFirstTo depth, b.asks.popLastTo depth⟩

/-- `(bids, asks)`, at most `n` levels each. -/
def top (b : Book) (n : Nat) : Levels × Levels :=
  (b.bids.entries.reverse.take n, b.asks.entries.take n)

/-- `book.bids[px] = qty` and `book.asks[px] = qty` over the arrays of a state row. -/
def ofLevels (bids asks : Levels) : Book := ⟨SortedMap.ofPairs bids, SortedMap.ofPairs asks⟩

/-- Neither side has more than `n` levels. -/
structure Within (n : Nat) (b : Book) : Prop where
  bids : b.bids.length ≤ n
  asks : b.asks.length ≤ n

instance (n : Nat) (b : Book) : Decidable (b.Within n) :=
  decidable_of_iff (b.bids.length ≤ n ∧ b.asks.length ≤ n)
    ⟨fun h => ⟨h.1, h.2⟩, fun h => ⟨h.bids, h.asks⟩⟩

/-- The best levels are those that a truncation keeps. -/
theorem top_truncate (b : Book) (n : Nat) :
    b.top n = ((b.truncate n).bids.entries.reverse, (b.truncate n).asks.entries) := by
  rw [top, truncate, SortedMap.popFirstTo_entries, SortedMap.popLastTo_entries, List.take_reverse,
    SortedMap.length]

theorem ofLevels_top (b : Book) (n : Nat) :
    ofLevels (b.top n).1 (b.top n).2 = b.truncate n := by
  rw [top_truncate, ofLevels, SortedMap.ofPairs_of_perm (List.reverse_perm _),
    SortedMap.ofPairs_of_perm (List.Perm.refl _)]

theorem truncate_of_within {n : Nat} {b : Book} (h : b.Within n) : b.truncate n = b := by
  have hbids : b.bids.length - n = 0 := Nat.sub_eq_zero_of_le h.bids
  have hasks : b.asks.length - n = 0 := Nat.sub_eq_zero_of_le h.asks
  rw [truncate, SortedMap.popFirstTo, SortedMap.popLastTo, hbids, hasks]
  rfl

/-- Fewer levels of a truncated book are those of the book. -/
theorem top_of_truncate (b : Book) {m n : Nat} (h : m ≤ n) : (b.truncate n).top m = b.top m := by
  have hlast : b.bids.entries.length - (b.bids.entries.length - n) = min n b.bids.entries.length := by
    omega
  rw [top, top, truncate, SortedMap.popFirstTo_entries, SortedMap.popLastTo_entries,
    List.reverse_drop, List.take_take, List.take_take, SortedMap.length, hlast, Nat.min_eq_left h]
  refine congrArg (fun l => (l, b.asks.entries.take m)) ?_
  rcases Nat.le_total n b.bids.entries.length with hn | hn
  · rw [Nat.min_eq_left hn, Nat.min_eq_left h]
  · rw [Nat.min_eq_right hn, List.take_eq_take_iff, List.length_reverse]
    omega

theorem truncate_within (b : Book) (depth : Nat) : (b.truncate depth).Within depth :=
  ⟨SortedMap.length_popFirstTo_le _ _, SortedMap.length_popLastTo_le _ _⟩

end Book

/-! ## Kraken -/

/-- A pair's price and quantity decimals. -/
abbrev Precision := Int × Int

section Kraken

-- What `str` makes of `units // 10 ** (8 - precision)` for a precision over 8, where the divisor
-- is a float.
variable (floatDigits : Int → Int → String)

def checksumDigits (units precision : Int) : String :=
  if precision ≤ SCALE_DP then toString (units / 10 ^ (SCALE_DP - precision).toNat)
  else floatDigits units precision

/-- `checksum_digits` of the first levels of one side, price and quantity in turn. -/
def checksumSide (levels : Levels) (precision : Precision) : String :=
  String.join ((levels.take CHECKSUM_LEVELS).map fun level =>
    checksumDigits floatDigits level.1 precision.1 ++
      checksumDigits floatDigits level.2 precision.2)

/-- Asks first. -/
def krakenChecksum (asks bids : Levels) (precision : Precision) : Int :=
  (Crc32.checksum (checksumSide floatDigits asks precision ++
    checksumSide floatDigits bids precision).toByteArray.data.toList).toNat

end Kraken

/-- The levels of a frame folded into one side. -/
def applyLevels (side : BookSide) (levels : Levels) (b : Book) : Book :=
  levels.foldl (fun b level => b.apply side level.1 level.2) b

def krakenApply (book : Book) (frameType : String) (bids asks : Levels) (depth : Nat) : Book :=
  let start := if frameType = "snapshot" then Book.empty else book
  (applyLevels .ask asks (applyLevels .bid bids start)).truncate depth

theorem krakenApply_within (book : Book) (frameType : String) (bids asks : Levels) (depth : Nat) :
    (krakenApply book frameType bids asks depth).Within depth :=
  Book.truncate_within _ _

end K2.Lake

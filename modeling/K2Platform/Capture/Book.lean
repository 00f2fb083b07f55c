import Mathlib.Order.Lattice
import K2Platform.Lib.SortedMap

/-!
# The L2 order book

Model of `services/capture-rust/src/book.rs`: two maps from price to quantity, both in 1e-8
fixed point and iterated in price order.  Updates are absolute quantities, and a quantity
that is not positive removes the level.

* `Positive` — every resting quantity is positive; kept by every operation.
* `length_bids_truncate_le`, `length_asks_truncate_le` — `truncate` bounds both sides.
-/

set_option autoImplicit false

namespace K2.Capture

/-- `BookSnapshotL2`'s parallel arrays, best level first. -/
structure TopN where
  bidPx : List Int
  bidQty : List Int
  askPx : List Int
  askQty : List Int
  deriving DecidableEq, Repr

/-- The longer of the two sides. -/
def TopN.depth (t : TopN) : Nat := max t.bidPx.length t.askPx.length

inductive BookSide where
  | bid
  | ask
  deriving DecidableEq, Repr

structure Book where
  bids : SortedMap Int Int
  asks : SortedMap Int Int
  deriving DecidableEq

namespace Book

/-- `Book::new`, and what `clear` leaves. -/
def empty : Book := ⟨SortedMap.empty, SortedMap.empty⟩

/-- The level update on one side: `qty <= 0` removes, anything else replaces. -/
def setLevel (levels : SortedMap Int Int) (px qty : Int) : SortedMap Int Int :=
  if qty ≤ 0 then levels.erase px else levels.insert px qty

def apply (b : Book) (side : BookSide) (px qty : Int) : Book :=
  match side with
  | .bid => { b with bids := setLevel b.bids px qty }
  | .ask => { b with asks := setLevel b.asks px qty }

/-- The worst bid is the lowest price, the worst ask the highest. -/
def truncate (b : Book) (depth : Nat) : Book :=
  ⟨b.bids.popFirstTo depth, b.asks.popLastTo depth⟩

def isEmpty (b : Book) : Bool := b.bids.isEmpty && b.asks.isEmpty

def len (b : Book) : Nat := b.bids.length + b.asks.length

/-- The best `n` levels of one side: bids from the highest price, asks from the lowest. -/
def topPairs (b : Book) (side : BookSide) (n : Nat) : List (Int × Int) :=
  match side with
  | .bid => b.bids.entries.reverse.take n
  | .ask => b.asks.entries.take n

def topN (b : Book) (n : Nat) : TopN where
  bidPx := (b.topPairs .bid n).map Prod.fst
  bidQty := (b.topPairs .bid n).map Prod.snd
  askPx := (b.topPairs .ask n).map Prod.fst
  askQty := (b.topPairs .ask n).map Prod.snd

/-! ## Emptiness and size -/

@[simp] theorem isEmpty_empty : empty.isEmpty = true := rfl

theorem isEmpty_iff {b : Book} : b.isEmpty = true ↔ b = empty := by
  rw [isEmpty, Bool.and_eq_true, SortedMap.isEmpty_iff, SortedMap.isEmpty_iff]
  constructor
  · rintro ⟨hb, ha⟩
    cases b
    congr
    · exact SortedMap.ext_entries hb
    · exact SortedMap.ext_entries ha
  · rintro rfl
    exact ⟨rfl, rfl⟩

theorem length_bids_truncate_le (b : Book) (depth : Nat) :
    (b.truncate depth).bids.length ≤ depth :=
  SortedMap.length_popFirstTo_le _ _

theorem length_asks_truncate_le (b : Book) (depth : Nat) :
    (b.truncate depth).asks.length ≤ depth :=
  SortedMap.length_popLastTo_le _ _

/-! ## Resting quantities are positive -/

structure Positive (b : Book) : Prop where
  bids : ∀ e ∈ b.bids.entries, 0 < e.2
  asks : ∀ e ∈ b.asks.entries, 0 < e.2

theorem positive_empty : Positive empty := ⟨(fun _ h => by cases h), (fun _ h => by cases h)⟩

theorem setLevel_positive {levels : SortedMap Int Int} (h : ∀ e ∈ levels.entries, 0 < e.2)
    (px qty : Int) : ∀ e ∈ (setLevel levels px qty).entries, 0 < e.2 := by
  intro e he
  unfold setLevel at he
  split at he
  · exact h e (SortedMap.mem_entries_erase.1 he).2
  · rename_i hq
    rcases SortedMap.mem_entries_insert.1 he with rfl | ⟨_, he⟩
    · exact lt_of_not_ge hq
    · exact h e he

theorem Positive.apply {b : Book} (h : b.Positive) (side : BookSide) (px qty : Int) :
    (b.apply side px qty).Positive := by
  cases side with
  | bid => exact ⟨setLevel_positive h.bids px qty, h.asks⟩
  | ask => exact ⟨h.bids, setLevel_positive h.asks px qty⟩

theorem Positive.truncate {b : Book} (h : b.Positive) (depth : Nat) : (b.truncate depth).Positive :=
  ⟨fun e he => h.bids e (SortedMap.mem_of_mem_popFirstTo he),
   fun e he => h.asks e (SortedMap.mem_of_mem_popLastTo he)⟩

end Book

end K2.Capture

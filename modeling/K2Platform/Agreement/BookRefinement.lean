import K2Platform.Agreement.Held
import K2Platform.Lake.BookDict
import K2Platform.Lib.RankedMap

/-!
# What a book is for

A side of a book is a finite map from price to resting quantity, of which the best prices are
listed.  `book.rs` keeps it in a tree and `book.py` in a dictionary.

* `BookMaps.step` — the three operations on the maps: the last write wins, a zero deletes, and a
  truncation keeps the prices that fewer than `depth` better ones come before.
* `step_refines` — one operation on the book of the capture.
* `step_sameBook` — the same operation on the book of the lake.
* `run_refines` — every run of operations, with what it makes both books list.
-/

set_option autoImplicit false

namespace K2.Agreement

open K2.Capture (BookSide)
open Ranked

/-! ## The finite maps -/

/-- An update of either book. -/
inductive BookOp where
  | apply (side : BookSide) (px qty : Int)
  | clear
  | truncate (depth : Nat)
  deriving DecidableEq, Repr

/-- A resting quantity is not negative. -/
def BookOp.Nonneg : BookOp → Prop
  | .apply _ _ qty => 0 ≤ qty
  | .clear => True
  | .truncate _ => True

instance : DecidablePred BookOp.Nonneg
  | .apply _ _ qty => inferInstanceAs (Decidable (0 ≤ qty))
  | .clear => isTrue trivial
  | .truncate _ => isTrue trivial

/-- The resting quantities of each side; zero is no level. -/
structure BookMaps where
  bids : Int →₀ Int
  asks : Int →₀ Int

namespace BookMaps

def empty : BookMaps := ⟨0, 0⟩

noncomputable def step (s : BookMaps) : BookOp → BookMaps
  | .apply .bid px qty => { s with bids := s.bids.update px qty }
  | .apply .ask px qty => { s with asks := s.asks.update px qty }
  | .clear => empty
  | .truncate depth => ⟨keepBest (· > ·) depth s.bids, keepBest (· < ·) depth s.asks⟩

noncomputable def run (ops : List BookOp) : BookMaps := ops.foldl step empty

/-- The levels of one side, best first. -/
noncomputable def best (s : BookMaps) : BookSide → List (Int × Int)
  | .bid => (ascending s.bids).reverse
  | .ask => ascending s.asks

end BookMaps

/-! ## The two books -/

def captureStep (b : Capture.Book) : BookOp → Capture.Book
  | .apply side px qty => b.apply side px qty
  | .clear => Capture.Book.empty
  | .truncate depth => b.truncate depth

def captureRun (ops : List BookOp) : Capture.Book := ops.foldl captureStep Capture.Book.empty

def lakeStep (b : Lake.DictBook) : BookOp → Lake.DictBook
  | .apply side px qty => b.apply side px qty
  | .clear => Lake.DictBook.empty
  | .truncate depth => b.truncate depth

def lakeRun (ops : List BookOp) : Lake.DictBook := ops.foldl lakeStep Lake.DictBook.empty

/-- A book of the capture holds the levels of the maps. -/
structure Refines (b : Capture.Book) (s : BookMaps) : Prop where
  bids : Lists b.bids.get? s.bids
  asks : Lists b.asks.get? s.asks

/-! ## One operation -/

theorem lists_setLevel {levels : SortedMap Int Int} {f : Int →₀ Int} (h : Lists levels.get? f)
    (px : Int) {qty : Int} (hqty : 0 ≤ qty) :
    Lists (Capture.Book.setLevel levels px qty).get? (f.update px qty) := by
  unfold Capture.Book.setLevel
  by_cases hq : qty ≤ 0
  · have hzero : qty = 0 := by omega
    rw [if_pos hq]
    refine h.set px qty ?_ fun j hj => SortedMap.get?_erase_of_ne levels hj
    rw [SortedMap.get?_erase_self, if_pos hzero]
  · have hne : qty ≠ 0 := by omega
    rw [if_neg hq]
    refine h.set px qty ?_ fun j hj => SortedMap.get?_insert_of_ne levels qty hj
    rw [SortedMap.get?_insert_self, if_neg hne]

theorem step_refines {b : Capture.Book} {s : BookMaps} (h : Refines b s) {op : BookOp}
    (hop : op.Nonneg) : Refines (captureStep b op) (s.step op) := by
  cases op with
  | apply side px qty =>
    cases side with
    | bid => exact ⟨lists_setLevel h.bids px hop, h.asks⟩
    | ask => exact ⟨h.bids, lists_setLevel h.asks px hop⟩
  | clear => exact ⟨lists_zero, lists_zero⟩
  | truncate depth => exact ⟨h.bids.popFirstTo depth, h.asks.popLastTo depth⟩

theorem step_sameBook {d : Lake.DictBook} {b : Capture.Book}
    (h : Lake.SameBook d (Lake.Book.ofCapture b)) {op : BookOp} (hop : op.Nonneg) :
    Lake.SameBook (lakeStep d op) (Lake.Book.ofCapture (captureStep b op)) := by
  cases op with
  | apply side px qty =>
    show Lake.SameBook (d.apply side px qty) (Lake.Book.ofCapture (b.apply side px qty))
    rw [Lake.ofCapture_apply b side px hop]
    exact h.apply side px qty
  | clear => exact Lake.SameBook.empty
  | truncate depth => exact h.truncate depth

/-! ## A run of them -/

section Run

variable {ops : List BookOp}

theorem captureRun_refines (h : ∀ op ∈ ops, op.Nonneg) :
    Refines (captureRun ops) (BookMaps.run ops) := by
  induction ops using List.reverseRecOn with
  | nil => exact ⟨lists_zero, lists_zero⟩
  | append_singleton ops op ih =>
    rw [captureRun, BookMaps.run, List.foldl_append, List.foldl_append]
    refine step_refines (ih fun op' hop' => h op' ?_) (h op ?_)
    · exact List.mem_append_left _ hop'
    · exact List.mem_append_right _ (List.mem_singleton_self op)

theorem lakeRun_sameBook (h : ∀ op ∈ ops, op.Nonneg) :
    Lake.SameBook (lakeRun ops) (Lake.Book.ofCapture (captureRun ops)) := by
  induction ops using List.reverseRecOn with
  | nil => exact Lake.SameBook.empty
  | append_singleton ops op ih =>
    rw [lakeRun, captureRun, List.foldl_append, List.foldl_append]
    refine step_sameBook (ih fun op' hop' => h op' ?_) (h op ?_)
    · exact List.mem_append_left _ hop'
    · exact List.mem_append_right _ (List.mem_singleton_self op)

theorem captureRun_positive (ops : List BookOp) : (captureRun ops).Positive := by
  induction ops using List.reverseRecOn with
  | nil => exact Capture.Book.positive_empty
  | append_singleton ops op ih =>
    rw [captureRun, List.foldl_append]
    cases op with
    | apply side px qty => exact ih.apply side px qty
    | clear => exact Capture.Book.positive_empty
    | truncate depth => exact ih.truncate depth

end Run

/-! ## What a book lists -/

/-- Best first: bids come down, asks go up. -/
def BestFirst : BookSide → Int → Int → Prop
  | .bid, p, q => q < p
  | .ask, p, q => p < q

/-- The parallel arrays of some levels. -/
def arrays (bids asks : List (Int × Int)) : Capture.TopN :=
  ⟨bids.map Prod.fst, bids.map Prod.snd, asks.map Prod.fst, asks.map Prod.snd⟩

/-- What `top_pairs` and `top_n` list of the maps. -/
structure Listed (b : Capture.Book) (s : BookMaps) : Prop where
  topPairs : ∀ side n, b.topPairs side n = (s.best side).take n
  topN : ∀ n, b.topN n = arrays ((s.best .bid).take n) ((s.best .ask).take n)
  ordered : ∀ side n, ((b.topPairs side n).map Prod.fst).Pairwise (BestFirst side)
  positive : ∀ side n, ∀ e ∈ b.topPairs side n, 0 < e.2
  topPairs_deeper : ∀ side {n m : Nat}, n ≤ m → b.topPairs side n <+: b.topPairs side m
  topN_deeper : ∀ {n m : Nat}, n ≤ m →
    (b.topN n).bidPx <+: (b.topN m).bidPx ∧ (b.topN n).bidQty <+: (b.topN m).bidQty ∧
      (b.topN n).askPx <+: (b.topN m).askPx ∧ (b.topN n).askQty <+: (b.topN m).askQty

theorem topPairs_eq {b : Capture.Book} {s : BookMaps} (h : Refines b s) (side : BookSide)
    (n : Nat) : b.topPairs side n = (s.best side).take n := by
  cases side with
  | bid => rw [Capture.Book.topPairs, BookMaps.best, h.bids.entries_eq]
  | ask => rw [Capture.Book.topPairs, BookMaps.best, h.asks.entries_eq]

theorem topPairs_ordered (b : Capture.Book) (side : BookSide) (n : Nat) :
    ((b.topPairs side n).map Prod.fst).Pairwise (BestFirst side) := by
  rw [List.pairwise_map]
  cases side with
  | bid => exact (List.pairwise_reverse.2 b.bids.sorted).sublist (List.take_sublist _ _)
  | ask => exact b.asks.sorted.sublist (List.take_sublist _ _)

theorem topPairs_deeper (b : Capture.Book) (side : BookSide) {n m : Nat} (h : n ≤ m) :
    b.topPairs side n <+: b.topPairs side m := by
  cases side with
  | bid => exact List.take_prefix_take_left h
  | ask => exact List.take_prefix_take_left h

theorem pos_of_mem_topPairs {b : Capture.Book} (h : b.Positive) {side : BookSide} {n : Nat}
    {e : Int × Int} (he : e ∈ b.topPairs side n) : 0 < e.2 := by
  cases side with
  | bid => exact h.bids e (List.mem_reverse.1 (List.mem_of_mem_take he))
  | ask => exact h.asks e (List.mem_of_mem_take he)

theorem Refines.listed {b : Capture.Book} {s : BookMaps} (h : Refines b s) (hpos : b.Positive) :
    Listed b s where
  topPairs := topPairs_eq h
  topN := by
    intro n
    rw [← topPairs_eq h, ← topPairs_eq h]
    rfl
  ordered := topPairs_ordered b
  positive := fun _ _ _ => pos_of_mem_topPairs hpos
  topPairs_deeper := topPairs_deeper b
  topN_deeper := by
    intro n m hnm
    have hbids := topPairs_deeper b .bid hnm
    have hasks := topPairs_deeper b .ask hnm
    exact ⟨hbids.map _, hbids.map _, hasks.map _, hasks.map _⟩

/-- **Both books refine the finite maps**, over every run of operations. -/
theorem run_refines (ops : List BookOp) (h : ∀ op ∈ ops, op.Nonneg) :
    Refines (captureRun ops) (BookMaps.run ops) ∧
      Listed (captureRun ops) (BookMaps.run ops) ∧
      Lake.SameBook (lakeRun ops) (Lake.Book.ofCapture (captureRun ops)) ∧
      ∀ n, (lakeRun ops).top n =
        ((captureRun ops).topPairs .bid n, (captureRun ops).topPairs .ask n) := by
  have hrefines := captureRun_refines h
  have hsame := lakeRun_sameBook h
  exact ⟨hrefines, hrefines.listed (captureRun_positive ops), hsame, hsame.top_eq⟩

/-- A level written twice, one deleted, and the worst bid dropped. -/
def quietOps : List BookOp :=
  [.apply .bid 100 5, .apply .bid 99 7, .apply .ask 101 3, .apply .bid 98 1, .apply .bid 100 0,
    .apply .ask 101 4, .truncate 1]

theorem run_refines_quiet :
    (lakeRun quietOps).top 5 = ([(99, 7)], [(101, 4)]) := by
  rw [(run_refines quietOps (by decide)).2.2.2 5]
  decide

end K2.Agreement

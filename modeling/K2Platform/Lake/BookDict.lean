import K2Platform.Lake.Book
import K2Platform.Lib.SortOn

/-!
# The book as dictionaries

`Book` of `docker/lake/book.py` as it is stored: two dictionaries in the order in which prices first
came, sorted where levels are listed or dropped.  `Lake.Book` holds the same levels sorted.

* `SameBook.truncate` — sorting the prices and deleting the worst is popping them.
* `SameBook.top_eq` — both list the same levels, best first.
-/

set_option autoImplicit false

namespace K2.Lake

open K2.Capture (BookSide)

structure DictBook where
  bids : Dict Int Int
  asks : Dict Int Int

namespace DictBook

def empty : DictBook := ⟨Dict.empty, Dict.empty⟩

/-- `levels.pop(px, None)` or `levels[px] = qty`. -/
def setLevel (levels : Dict Int Int) (px qty : Int) : Dict Int Int :=
  if qty = 0 then levels.filterKeys (· ≠ px) else levels.insert px qty

def apply (b : DictBook) (side : BookSide) (px qty : Int) : DictBook :=
  match side with
  | .bid => { b with bids := setLevel b.bids px qty }
  | .ask => { b with asks := setLevel b.asks px qty }

/-- `for px in worst[: len(levels) - depth]: del levels[px]`, where there are more than `depth`. -/
def dropWorst (levels : Dict Int Int) (worst : List Int) (depth : Nat) : Dict Int Int :=
  if depth < levels.keys.length then
    (worst.take (levels.keys.length - depth)).foldl (fun d px => d.filterKeys (· ≠ px)) levels
  else levels

def truncate (b : DictBook) (depth : Nat) : DictBook :=
  ⟨dropWorst b.bids (sortOn id b.bids.keys) depth,
    dropWorst b.asks (sortOn (fun px => -px) b.asks.keys) depth⟩

/-- `(bids, asks)`, at most `n` levels each. -/
def top (b : DictBook) (n : Nat) : Levels × Levels :=
  ((sortOn (fun level => -level.1) b.bids.entries).take n, b.asks.sortedItems.take n)

end DictBook

/-! ## One side -/

/-- The two hold the same levels. -/
def SameLevels (d : Dict Int Int) (m : SortedMap Int Int) : Prop := ∀ px, d.get? px = m.get? px

namespace SameLevels

variable {d : Dict Int Int} {m : SortedMap Int Int}

theorem setLevel (h : SameLevels d m) (px qty : Int) :
    SameLevels (DictBook.setLevel d px qty) (Book.setLevel m px qty) := by
  intro px'
  unfold DictBook.setLevel Book.setLevel
  by_cases hq : qty = 0
  · rw [if_pos hq, if_pos hq, Dict.get?_filterKeys, SortedMap.get?_erase, h px']
    by_cases hp : px' = px
    · simp [hp]
    · simp [hp]
  · rw [if_neg hq, if_neg hq, Dict.get?_insert, SortedMap.get?_insert, h px']

theorem entries_perm (h : SameLevels d m) : d.entries.Perm m.entries := by
  refine (List.perm_ext_iff_of_nodup ?_ ?_).2 fun e => ?_
  · exact List.Nodup.of_map _ d.nodup
  · exact List.Nodup.of_map _ m.nodup_keys
  · rw [← Dict.get?_eq_some_iff (k := e.1) (v := e.2), h e.1]
    exact SortedMap.get?_eq_some_iff

theorem keys_perm (h : SameLevels d m) : d.keys.Perm m.keys := h.entries_perm.map Prod.fst

theorem length_eq (h : SameLevels d m) : d.keys.length = m.length := by
  rw [h.keys_perm.length_eq]
  exact List.length_map _

theorem sorted_keys (h : SameLevels d m) : sortOn id d.keys = m.keys := by
  refine sortOn_eq (fun _ _ _ _ hab => hab) h.keys_perm.symm ?_
  exact List.pairwise_map.2 (m.sorted.imp le_of_lt)

theorem sorted_keys_neg (h : SameLevels d m) : sortOn (fun px => -px) d.keys = m.keys.reverse := by
  refine sortOn_eq (fun _ _ _ _ hab => neg_injective hab)
    ((List.reverse_perm _).trans h.keys_perm.symm) ?_
  refine List.pairwise_reverse.2 (List.pairwise_map.2 (m.sorted.imp fun hab => ?_))
  exact Int.neg_le_neg (le_of_lt hab)

theorem get?_foldl_filterKeys (px : Int) (dropped : List Int) :
    ∀ d : Dict Int Int, (dropped.foldl (fun d px => d.filterKeys (· ≠ px)) d).get? px =
      if px ∈ dropped then none else d.get? px := by
  induction dropped with
  | nil => exact fun _ => rfl
  | cons px' dropped ih =>
    intro d
    rw [List.foldl_cons, ih, Dict.get?_filterKeys]
    by_cases hmem : px ∈ dropped
    · simp [hmem]
    · by_cases hpx : px = px'
      · simp [hpx]
      · simp [hmem, hpx]

/-- Deleting the worst prices leaves what popping them leaves. -/
theorem dropWorst {m' : SortedMap Int Int} {worst : List Int} {depth : Nat} (h : SameLevels d m)
    (hcut : ∀ px qty, (px, qty) ∈ m'.entries ↔
      (px, qty) ∈ m.entries ∧ px ∉ worst.take (m.length - depth)) :
    SameLevels (DictBook.dropWorst d worst depth) m' := by
  intro px
  refine Option.ext fun qty => ?_
  rw [SortedMap.get?_eq_some_iff, hcut, ← SortedMap.get?_eq_some_iff, ← h px]
  unfold DictBook.dropWorst
  rw [h.length_eq]
  split
  · rw [get?_foldl_filterKeys]
    by_cases hmem : px ∈ worst.take (m.length - depth)
    · simp [hmem]
    · simp [hmem]
  · rename_i hle
    rw [Nat.sub_eq_zero_of_le (Nat.le_of_not_lt hle), List.take_zero]
    simp

/-- Of levels split in two, the ones kept are those whose price is not among the others. -/
theorem mem_kept_iff {l gone left : List (Int × Int)} (hl : (l.map Prod.fst).Nodup)
    (hsplit : (gone ++ left).Perm l) (e : Int × Int) :
    e ∈ left ↔ e ∈ l ∧ e.1 ∉ gone.map Prod.fst := by
  have hnodup : ((gone ++ left).map Prod.fst).Nodup := ((hsplit.map Prod.fst).nodup_iff).2 hl
  rw [List.map_append] at hnodup
  have hapart := (List.nodup_append.1 hnodup).2.2
  rw [← hsplit.mem_iff, List.mem_append]
  constructor
  · intro h
    exact ⟨Or.inr h, fun hmem => hapart _ hmem _ (List.mem_map_of_mem h) rfl⟩
  · rintro ⟨h, hnot⟩
    exact h.resolve_left fun hgone => hnot (List.mem_map_of_mem hgone)

theorem dropWorst_bids (h : SameLevels d m) (depth : Nat) :
    SameLevels (DictBook.dropWorst d (sortOn id d.keys) depth) (m.popFirstTo depth) := by
  refine h.dropWorst fun px qty => ?_
  rw [SortedMap.popFirstTo_entries, h.sorted_keys, SortedMap.keys, ← List.map_take]
  exact mem_kept_iff m.nodup_keys (by rw [List.take_append_drop]) (px, qty)

theorem dropWorst_asks (h : SameLevels d m) (depth : Nat) :
    SameLevels (DictBook.dropWorst d (sortOn (fun px => -px) d.keys) depth) (m.popLastTo depth) := by
  refine h.dropWorst fun px qty => ?_
  have hlength : m.keys.length = m.length := List.length_map _
  have hworst : px ∈ m.keys.reverse.take (m.length - depth) ↔ px ∈ m.keys.drop depth := by
    rw [List.take_reverse, List.mem_reverse, hlength]
    rcases Nat.le_total m.length depth with hle | hle
    · rw [Nat.sub_eq_zero_of_le hle, Nat.sub_zero, List.drop_of_length_le (by omega),
        List.drop_of_length_le (by omega)]
    · rw [Nat.sub_sub_self hle]
  have hsplit : (m.entries.drop depth ++ m.entries.take depth).Perm m.entries :=
    List.perm_append_comm.trans (by rw [List.take_append_drop])
  rw [SortedMap.popLastTo_entries, h.sorted_keys_neg, hworst, SortedMap.keys, ← List.map_drop]
  exact mem_kept_iff m.nodup_keys hsplit (px, qty)

end SameLevels

/-! ## The book -/

/-- A book of dictionaries, and the sorted book with its levels. -/
structure SameBook (d : DictBook) (b : Book) : Prop where
  bids : SameLevels d.bids b.bids
  asks : SameLevels d.asks b.asks

namespace SameBook

variable {d : DictBook} {b : Book}

theorem empty : SameBook DictBook.empty Book.empty := ⟨fun _ => rfl, fun _ => rfl⟩

theorem apply (h : SameBook d b) (side : BookSide) (px qty : Int) :
    SameBook (d.apply side px qty) (b.apply side px qty) := by
  cases side with
  | bid => exact ⟨h.bids.setLevel px qty, h.asks⟩
  | ask => exact ⟨h.bids, h.asks.setLevel px qty⟩

theorem truncate (h : SameBook d b) (depth : Nat) : SameBook (d.truncate depth) (b.truncate depth) :=
  ⟨h.bids.dropWorst_bids depth, h.asks.dropWorst_asks depth⟩

theorem top_eq (h : SameBook d b) (n : Nat) : d.top n = b.top n := by
  have hbids : sortOn (fun level : Int × Int => -level.1) d.bids.entries = b.bids.entries.reverse := by
    refine sortOn_eq (fun e he e' he' hpx => ?_)
      ((List.reverse_perm _).trans h.bids.entries_perm.symm) ?_
    · exact List.inj_on_of_nodup_map d.bids.nodup he he' (Int.neg_inj.1 hpx)
    · exact List.pairwise_reverse.2 (b.bids.sorted.imp fun hpx => Int.neg_le_neg (le_of_lt hpx))
  have hasks : d.asks.sortedItems = b.asks.entries := by
    have hkey : ∀ e ∈ d.asks.entries, ∀ e' ∈ d.asks.entries, e.1 = e'.1 → e = e' :=
      fun e he e' he' hpx => List.inj_on_of_nodup_map d.asks.nodup he he' hpx
    exact sortOn_eq hkey h.asks.entries_perm.symm (b.asks.sorted.imp le_of_lt)
  rw [DictBook.top, Book.top, hbids, hasks]

end SameBook

end K2.Lake

import K2Platform.Capture.Binance.Adapter
import K2Platform.Capture.Kraken.Adapter
import K2Platform.Lib.AssertedLoop

/-!
# The debug assertions of the book

`book.rs` asserts after every level that quantities are positive and the book is not crossed; a
venue only says so of the book after a whole frame.  Kraken and Binance frames are applied all bids
first, then all asks.

* `invariantsHold_iff` — the assertion, for the book as a whole.
* `uncrossed_apply_iff` — one level keeps a book uncrossed if it is not written beyond the other side.
* `debugFrame_isSome_iff` — the frames that no assertion stops.
* `Kraken.applyLevels_eq`, `Binance.book_eq` — what the adapters do with the levels that parse.
-/

set_option autoImplicit false

namespace K2.Capture

/-! ## The assertions -/

namespace Book

def bestBid (b : Book) : Option Int := b.bids.keys.getLast?

def bestAsk (b : Book) : Option Int := b.asks.keys.head?

/-- What `debug_assert_invariants` asserts. -/
def invariantsHold (b : Book) : Bool :=
  b.bids.values.all (0 < ·) && b.asks.values.all (0 < ·) &&
    match b.bestBid, b.bestAsk with
    | some bid, some ask => bid < ask
    | _, _ => true

/-- No bid is at or above an ask. -/
def Uncrossed (b : Book) : Prop :=
  ∀ bid, b.bids.contains bid = true → ∀ ask, b.asks.contains ask = true → bid < ask

/-- A price that a level may be written at without crossing the other side. -/
def Apart (b : Book) (side : BookSide) (px : Int) : Prop :=
  match side with
  | .bid => ∀ ask, b.asks.contains ask = true → px < ask
  | .ask => ∀ bid, b.bids.contains bid = true → bid < px

end Book

/-- The levels of a frame that parse, and whether it replaces the book. -/
structure LevelFrame where
  replaces : Bool
  bids : List (Int × Int)
  asks : List (Int × Int)
  deriving DecidableEq, Repr

namespace LevelFrame

def Nonneg (f : LevelFrame) : Prop := (∀ l ∈ f.bids, 0 ≤ l.2) ∧ ∀ l ∈ f.asks, 0 ≤ l.2

instance (f : LevelFrame) : Decidable f.Nonneg := inferInstanceAs (Decidable (_ ∧ _))

def start (f : LevelFrame) (b : Book) : Book := if f.replaces then Book.empty else b

end LevelFrame

/-- `Book::apply`, over the levels of one side. -/
def applySide (side : BookSide) (b : Book) (l : Int × Int) : Book := b.apply side l.1 l.2

/-- What a debug build asserts of one `apply`. -/
def applyAsserts (side : BookSide) (b : Book) (l : Int × Int) : Bool :=
  0 ≤ l.2 && (b.apply side l.1 l.2).invariantsHold

/-- The levels of a frame in a release build. -/
def releaseFrame (b : Book) (f : LevelFrame) : Book :=
  f.asks.foldl (applySide .ask) (f.bids.foldl (applySide .bid) (f.start b))

/-- The same in a debug build; `none` is a panic. -/
def debugFrame (b : Book) (f : LevelFrame) : Option Book :=
  (Asserted.loop (applySide .bid) (applyAsserts .bid) (f.start b) f.bids).bind fun b =>
    Asserted.loop (applySide .ask) (applyAsserts .ask) b f.asks

/-! ## The book as a whole -/

namespace Book

theorem keys_pairwise (m : SortedMap Int Int) : m.keys.Pairwise (· < ·) :=
  List.pairwise_map.2 m.sorted

/-- The last price is the highest, the first the lowest. -/
theorem le_of_getLast? {m : SortedMap Int Int} {g px : Int} (h : m.keys.getLast? = some g)
    (hpx : m.contains px = true) : px ≤ g := by
  obtain ⟨before, hkeys⟩ := List.getLast?_eq_some_iff.1 h
  have hsorted := hkeys ▸ keys_pairwise m
  have hmem := hkeys ▸ SortedMap.mem_keys_iff.2 hpx
  rcases List.mem_append.1 hmem with hmem | hmem
  · exact le_of_lt ((List.pairwise_append.1 hsorted).2.2 px hmem g (List.mem_singleton_self g))
  · exact (List.mem_singleton.1 hmem).le

theorem ge_of_head? {m : SortedMap Int Int} {g px : Int} (h : m.keys.head? = some g)
    (hpx : m.contains px = true) : g ≤ px := by
  obtain ⟨behind, hkeys⟩ := List.head?_eq_some_iff.1 h
  have hsorted := hkeys ▸ keys_pairwise m
  have hmem := hkeys ▸ SortedMap.mem_keys_iff.2 hpx
  rcases List.mem_cons.1 hmem with rfl | hmem
  · exact le_rfl
  · exact le_of_lt ((List.pairwise_cons.1 hsorted).1 px hmem)

/-- Of the highest bid and the lowest ask it is enough. -/
theorem uncrossed_iff (b : Book) :
    b.Uncrossed ↔ ∀ bid ask, b.bestBid = some bid → b.bestAsk = some ask → bid < ask := by
  constructor
  · intro h bid ask hbid hask
    refine h bid ?_ ask ?_
    · exact SortedMap.mem_keys_iff.1 (List.mem_of_getLast? hbid)
    · exact SortedMap.mem_keys_iff.1 (List.mem_of_mem_head? hask)
  · intro h bid hbid ask hask
    have hbids : b.bids.keys ≠ [] := List.ne_nil_of_mem (SortedMap.mem_keys_iff.2 hbid)
    have hasks : b.asks.keys ≠ [] := List.ne_nil_of_mem (SortedMap.mem_keys_iff.2 hask)
    have hbest : b.bestBid = some (b.bids.keys.getLast hbids) := List.getLast?_eq_some_getLast hbids
    have hbest' : b.bestAsk = some (b.asks.keys.head hasks) := List.head?_eq_some_head hasks
    exact (le_of_getLast? hbest hbid).trans_lt
      ((h _ _ hbest hbest').trans_le (ge_of_head? hbest' hask))

theorem positive_iff (b : Book) :
    b.Positive ↔ b.bids.values.all (0 < ·) = true ∧ b.asks.values.all (0 < ·) = true := by
  simp only [SortedMap.values, List.all_map, List.all_eq_true, Function.comp_apply,
    decide_eq_true_eq]
  exact ⟨fun h => ⟨h.bids, h.asks⟩, fun h => ⟨h.1, h.2⟩⟩

theorem invariantsHold_iff (b : Book) : b.invariantsHold = true ↔ b.Positive ∧ b.Uncrossed := by
  rw [invariantsHold, Bool.and_eq_true, Bool.and_eq_true, ← positive_iff, uncrossed_iff]
  refine and_congr_right fun _ => ?_
  cases hbid : b.bestBid with
  | none => simp
  | some bid =>
    cases hask : b.bestAsk with
    | none => simp
    | some ask => simp

/-- The other side is not touched. -/
theorem apart_apply (b : Book) (side : BookSide) (px qty px' : Int) :
    (b.apply side px qty).Apart side px' ↔ b.Apart side px' := by
  cases side with
  | bid => exact Iff.rfl
  | ask => exact Iff.rfl

theorem contains_setLevel (levels : SortedMap Int Int) (px qty px' : Int) :
    (setLevel levels px qty).contains px' = true ↔
      (0 < qty ∧ px' = px) ∨ (px' ≠ px ∧ levels.contains px' = true) := by
  unfold setLevel SortedMap.contains
  by_cases hq : qty ≤ 0
  · have hnot : ¬ 0 < qty := by omega
    rw [if_pos hq, SortedMap.get?_erase]
    by_cases hpx : px' = px
    · simp [hpx, hnot]
    · simp [hpx]
  · have hpos : 0 < qty := by omega
    rw [if_neg hq, SortedMap.get?_insert]
    by_cases hpx : px' = px
    · simp [hpx, hpos]
    · simp [hpx]

/-- **One level** keeps a book uncrossed unless it is written beyond the other side. -/
theorem uncrossed_apply_iff {b : Book} (h : b.Uncrossed) (side : BookSide) (px qty : Int) :
    (b.apply side px qty).Uncrossed ↔ (0 < qty → b.Apart side px) := by
  cases side with
  | bid =>
    have hbids : ∀ bid, (b.apply .bid px qty).bids.contains bid = true ↔ _ :=
      contains_setLevel b.bids px qty
    constructor
    · intro hafter hqty ask hask
      exact hafter px ((hbids px).2 (Or.inl ⟨hqty, rfl⟩)) ask hask
    · intro hapart bid hbid ask hask
      rcases (hbids bid).1 hbid with ⟨hqty, rfl⟩ | ⟨-, hbid⟩
      · exact hapart hqty ask hask
      · exact h bid hbid ask hask
  | ask =>
    have hasks : ∀ ask, (b.apply .ask px qty).asks.contains ask = true ↔ _ :=
      contains_setLevel b.asks px qty
    constructor
    · intro hafter hqty bid hbid
      exact hafter bid hbid px ((hasks px).2 (Or.inl ⟨hqty, rfl⟩))
    · intro hapart bid hbid ask hask
      rcases (hasks ask).1 hask with ⟨hqty, rfl⟩ | ⟨-, hask⟩
      · exact hapart hqty bid hbid
      · exact h bid hbid ask hask

end Book

/-! ## One side of a frame -/

/-- The quantity that the levels leave at a price, if any of them is at it. -/
def lastWrite (levels : List (Int × Int)) (px : Int) : Option Int :=
  ((levels.filter fun l => l.1 = px).getLast?).map Prod.snd

/-- The price is on the side once the levels are written. -/
def Left (old : SortedMap Int Int) (levels : List (Int × Int)) (px : Int) : Prop :=
  match lastWrite levels px with
  | some qty => 0 < qty
  | none => old.contains px = true

theorem lastWrite_concat (levels : List (Int × Int)) (l : Int × Int) (px : Int) :
    lastWrite (levels ++ [l]) px = if l.1 = px then some l.2 else lastWrite levels px := by
  unfold lastWrite
  rw [List.filter_append]
  by_cases h : l.1 = px
  · simp [h]
  · simp [h]

theorem contains_foldl_bid (levels : List (Int × Int)) (b : Book) (px : Int) :
    (levels.foldl (applySide .bid) b).bids.contains px = true ↔ Left b.bids levels px := by
  induction levels using List.reverseRecOn with
  | nil => exact Iff.rfl
  | append_singleton levels l ih =>
    rw [List.foldl_append, Left, lastWrite_concat]
    refine (Book.contains_setLevel _ l.1 l.2 px).trans ?_
    rw [ih]
    by_cases h : l.1 = px
    · simp [h]
    · simp [h, Ne.symm h, Left]

section Side

variable {b : Book} {side : BookSide} {levels : List (Int × Int)}

/-- The book while a side is written: well formed, the other side as it was. -/
structure Writing (b : Book) (side : BookSide) (b' : Book) : Prop where
  positive : b'.Positive
  uncrossed : b'.Uncrossed
  apart : ∀ px, b'.Apart side px ↔ b.Apart side px

theorem applyAsserts_iff {b' : Book} (h : Writing b side b') (l : Int × Int) :
    applyAsserts side b' l = true ↔ 0 ≤ l.2 ∧ (0 < l.2 → b.Apart side l.1) := by
  rw [applyAsserts, Bool.and_eq_true, decide_eq_true_eq, Book.invariantsHold_iff,
    and_iff_right (h.positive.apply side l.1 l.2), Book.uncrossed_apply_iff h.uncrossed, h.apart]

theorem Writing.step {b' : Book} (h : Writing b side b') {l : Int × Int}
    (hl : applyAsserts side b' l = true) : Writing b side (applySide side b' l) := by
  obtain ⟨-, hinvariants⟩ := Bool.and_eq_true_iff.1 hl
  obtain ⟨hpositive, huncrossed⟩ := (Book.invariantsHold_iff _).1 hinvariants
  exact ⟨hpositive, huncrossed, fun px => (Book.apart_apply b' side l.1 l.2 px).trans (h.apart px)⟩

/-- **One side**: no assertion stops it exactly if no level is written beyond the other side. -/
theorem loop_isSome_iff (side : BookSide) (hpos : b.Positive) (hun : b.Uncrossed)
    (hq : ∀ l ∈ levels, 0 ≤ l.2) :
    (Asserted.loop (applySide side) (applyAsserts side) b levels).isSome ↔
      ∀ l ∈ levels, 0 < l.2 → b.Apart side l.1 := by
  have hstart : Writing b side b := ⟨hpos, hun, fun _ => Iff.rfl⟩
  have hloop := Asserted.loop_isSome_iff (R := Writing b side) (fun _ _ h hl => h.step hl)
    (fun _ l h => applyAsserts_iff h l) levels hstart
  rw [hloop]
  exact forall₂_congr fun l hl => and_iff_right (hq l hl)

theorem loop_writing (hpos : b.Positive) (hun : b.Uncrossed) {b' : Book}
    (h : Asserted.loop (applySide side) (applyAsserts side) b levels = some b') :
    b' = levels.foldl (applySide side) b ∧ b'.Positive ∧ b'.Uncrossed := by
  have hstart : Writing b side b := ⟨hpos, hun, fun _ => Iff.rfl⟩
  have hend : Writing b side b' :=
    Asserted.loop_invariant (fun b' l h hl => h.step hl) hstart h
  exact ⟨Asserted.loop_eq_some h, hend.positive, hend.uncrossed⟩

end Side

/-! ## A frame -/

/-- No bid is written at or above an ask of the book that the frame starts from, and no ask at or
    below a bid that the frame leaves. -/
structure LevelFrame.KeepsApart (f : LevelFrame) (b : Book) : Prop where
  bids : ∀ l ∈ f.bids, 0 < l.2 → ∀ ask, (f.start b).asks.contains ask = true → l.1 < ask
  asks : ∀ l ∈ f.asks, 0 < l.2 → ∀ bid, Left (f.start b).bids f.bids bid → bid < l.1

theorem start_wellFormed {f : LevelFrame} {b : Book} (hpos : b.Positive) (hun : b.Uncrossed) :
    (f.start b).Positive ∧ (f.start b).Uncrossed := by
  unfold LevelFrame.start
  split
  · exact ⟨Book.positive_empty, fun bid hbid => absurd hbid Bool.false_ne_true⟩
  · exact ⟨hpos, hun⟩

/-- **A debug build gets through a frame** exactly if no level is written beyond what is on the other
    side at that point. -/
theorem debugFrame_isSome_iff {b : Book} {f : LevelFrame} (hpos : b.Positive) (hun : b.Uncrossed)
    (hf : f.Nonneg) : (debugFrame b f).isSome ↔ f.KeepsApart b := by
  obtain ⟨hpos', hun'⟩ := start_wellFormed (f := f) hpos hun
  have hbids := loop_isSome_iff .bid hpos' hun' hf.1
  unfold debugFrame
  cases hloop : Asserted.loop (applySide .bid) (applyAsserts .bid) (f.start b) f.bids with
  | none =>
    rw [hloop] at hbids
    exact iff_of_false (by simp) fun h => absurd (hbids.2 h.bids) (by simp)
  | some b' =>
    rw [hloop] at hbids
    obtain ⟨rfl, hpos₁, hun₁⟩ := loop_writing hpos' hun' hloop
    have hasks := loop_isSome_iff .ask hpos₁ hun₁ hf.2
    rw [Option.bind_some, hasks]
    unfold Book.Apart
    simp only [contains_foldl_bid]
    exact ⟨fun h => ⟨hbids.1 rfl, h⟩, fun h => h.asks⟩

/-- And then it has the book of a release build. -/
theorem debugFrame_eq_some {b b' : Book} {f : LevelFrame} (h : debugFrame b f = some b') :
    b' = releaseFrame b f := by
  obtain ⟨b₁, hbids, hasks⟩ := Option.bind_eq_some_iff.1 h
  rw [Asserted.loop_eq_some hasks, Asserted.loop_eq_some hbids, releaseFrame]

/-- A bid that takes the price of an ask which the frame deletes: uncrossed before and after. -/
theorem sweep_stops_debug :
    let b : Book := ⟨⟨[(100, 1)], by decide⟩, ⟨[(101, 1), (102, 1)], by decide⟩⟩
    let f : LevelFrame := ⟨false, [(101, 2)], [(101, 0)]⟩
    b.Positive ∧ b.Uncrossed ∧ f.Nonneg ∧ (releaseFrame b f).Positive ∧
      (releaseFrame b f).Uncrossed ∧ debugFrame b f = none := by
  intro b f
  obtain ⟨hpos, hun⟩ := (Book.invariantsHold_iff b).1 (by decide)
  obtain ⟨hpos', hun'⟩ := (Book.invariantsHold_iff (releaseFrame b f)).1 (by decide)
  exact ⟨hpos, hun, by decide, hpos', hun', by decide⟩

/-- A level moved away from the other side. -/
theorem requote_passes_debug :
    (debugFrame ⟨⟨[(100, 1)], by decide⟩, ⟨[(102, 1)], by decide⟩⟩
      ⟨false, [(101, 2), (100, 0)], [(102, 3)]⟩).isSome := by
  obtain ⟨hpos, hun⟩ :=
    (Book.invariantsHold_iff ⟨⟨[(100, 1)], by decide⟩, ⟨[(102, 1)], by decide⟩⟩).1 (by decide)
  refine (debugFrame_isSome_iff hpos hun (by decide)).2 ⟨?_, ?_⟩
  · intro l hl hq ask hask
    have hasks : ask ∈ [(102 : Int)] := SortedMap.mem_keys_iff.2 hask
    simp only [List.mem_cons, List.not_mem_nil, or_false] at hl hasks
    subst hasks
    rcases hl with rfl | rfl
    · decide
    · decide
  · intro l hl hq bid hbid
    have hbids : bid ∈ [(101 : Int)] := SortedMap.mem_keys_iff.2
      ((contains_foldl_bid [(101, 2), (100, 0)]
        ⟨⟨[(100, 1)], by decide⟩, ⟨[(102, 1)], by decide⟩⟩ bid).2 hbid)
    simp only [List.mem_cons, List.not_mem_nil, or_false] at hl hbids
    subst hl hbids
    decide

/-! ## The adapters -/

/-- The price and quantity of a level that parses. -/
def parsedLevel (px qty : String) : Option (Int × Int) :=
  match parseFixed px, parseFixed qty with
  | .ok px, .ok qty => some (px, qty)
  | _, _ => none

theorem pushDigit_nonneg {units v : Int} {c : Char} (hunits : 0 ≤ units)
    (h : pushDigit units c = some v) : 0 ≤ v := by
  obtain ⟨tens, htens, hsum⟩ := Option.bind_eq_some_iff.1 h
  unfold I64.checkedMul at htens
  unfold I64.checkedAdd at hsum
  split at htens
  · split at hsum
    · cases htens
      cases hsum
      omega
    · cases hsum
  · cases htens

theorem parseStep_nonneg {st st' : ParseState} {c : Char} (hst : 0 ≤ st.units)
    (h : parseStep st c = .ok st') : 0 ≤ st'.units := by
  unfold parseStep at h
  split at h
  · unfold parseDigit at h
    split at h
    · cases h
    · cases hpush : pushDigit st.units c with
      | none =>
        rw [hpush] at h
        cases h
      | some units =>
        have hunits := pushDigit_nonneg hst hpush
        rw [hpush] at h
        simp only at h
        split at h
        · cases h
          exact hunits
        · cases h
          exact hunits
  · split at h
    · split at h
      · cases h
        exact hst
      · cases h
    · split at h
      · cases h
      · cases h

theorem foldlM_parseStep_nonneg (cs : List Char) :
    ∀ {st st' : ParseState}, 0 ≤ st.units → cs.foldlM parseStep st = .ok st' → 0 ≤ st'.units := by
  induction cs with
  | nil =>
    intro st st' hst h
    cases h
    exact hst
  | cons c cs ih =>
    intro st st' hst h
    rw [List.foldlM_cons] at h
    cases hstep : parseStep st c with
    | error e =>
      rw [hstep] at h
      cases h
    | ok st₁ =>
      rw [hstep] at h
      exact ih (parseStep_nonneg hst hstep) h

theorem parseFinish_nonneg {st : ParseState} {v : Int} (hst : 0 ≤ st.units)
    (h : parseFinish st = .ok v) : 0 ≤ v := by
  unfold parseFinish I64.checkedMul at h
  split at h
  · cases h
  · split at h
    · cases h
    · split at h
      · cases h
      · rename_i hmul
        split at hmul
        · cases hmul
          cases h
          exact Int.mul_nonneg hst (Int.pow_nonneg (by decide))
        · cases hmul

theorem parseFixed_nonneg {text : String} {v : Int} (h : parseFixed text = .ok v) : 0 ≤ v := by
  unfold parseFixed at h
  split at h
  · cases h
  · cases h
  · cases hloop : text.toList.foldlM parseStep ParseState.init with
    | error e =>
      rw [hloop] at h
      cases h
    | ok st =>
      rw [hloop] at h
      exact parseFinish_nonneg (foldlM_parseStep_nonneg _ le_rfl hloop) h

/-- Quantities that parse are not negative. -/
theorem nonneg_of_parsedLevel {px qty : String} {l : Int × Int}
    (h : parsedLevel px qty = some l) : 0 ≤ l.2 := by
  unfold parsedLevel at h
  split at h
  · rename_i hqty
    cases h
    exact parseFixed_nonneg hqty
  · cases h

/-- A loop over levels that leaves out the ones that do not parse. -/
theorem foldl_parsed {α β : Type} {p : β → Book} {step : β → α → β}
    {parse : α → Option (Int × Int)} {side : BookSide}
    (hstep : ∀ acc l, p (step acc l) = (parse l).elim (p acc) (applySide side (p acc)))
    (levels : List α) :
    ∀ acc : β, p (levels.foldl step acc) =
      (levels.filterMap parse).foldl (applySide side) (p acc) := by
  induction levels with
  | nil => exact fun _ => rfl
  | cons l levels ih =>
    intro acc
    rw [List.foldl_cons, ih, hstep, List.filterMap_cons]
    cases parse l with
    | none => rfl
    | some level => rfl

namespace Kraken

/-- The levels of a `book` entry that parse. -/
def BookData.levelFrame (f : BookData) (frameType : String) : LevelFrame where
  replaces := frameType = "snapshot"
  bids := f.bids.filterMap fun l => parsedLevel l.price l.qty
  asks := f.asks.filterMap fun l => parsedLevel l.price l.qty

theorem levelFrame_nonneg (f : BookData) (frameType : String) : (f.levelFrame frameType).Nonneg := by
  constructor
  · intro l hl
    obtain ⟨_, -, hparsed⟩ := List.mem_filterMap.1 hl
    exact nonneg_of_parsedLevel hparsed
  · intro l hl
    obtain ⟨_, -, hparsed⟩ := List.mem_filterMap.1 hl
    exact nonneg_of_parsedLevel hparsed

theorem applyLevel_fst (side : BookSide) (acc : Book × Bool) (l : Level) :
    (applyLevel side acc l).1 =
      (parsedLevel l.price l.qty).elim acc.1 (applySide side acc.1) := by
  unfold applyLevel parsedLevel
  cases parseFixed l.price with
  | error e => rfl
  | ok px =>
    cases parseFixed l.qty with
    | error e => rfl
    | ok qty => rfl

/-- The level loop of `apply_book` is that of its frame. -/
theorem applyLevels_eq (b : Book) (f : BookData) (frameType : String) :
    (applyLevels (if frameType = "snapshot" then Book.empty else b) f).1 =
      releaseFrame b (f.levelFrame frameType) := by
  have hstart : (f.levelFrame frameType).start b =
      if frameType = "snapshot" then Book.empty else b := by
    unfold LevelFrame.start BookData.levelFrame
    simp only [decide_eq_true_eq]
  rw [releaseFrame, hstart, applyLevels, foldl_parsed (applyLevel_fst .ask),
    foldl_parsed (applyLevel_fst .bid)]
  rfl

end Kraken

namespace Binance

/-- The levels of a depth frame that parse. -/
def DepthData.levelFrame (d : DepthData) : LevelFrame where
  replaces := true
  bids := d.bids.filterMap fun l => parsedLevel l.1 l.2
  asks := d.asks.filterMap fun l => parsedLevel l.1 l.2

theorem applyLevel_eq (side : BookSide) (b : Book) (l : String × String) :
    applyLevel side b l = (parsedLevel l.1 l.2).elim b (applySide side b) := by
  unfold applyLevel parsedLevel
  cases parseFixed l.1 with
  | error e => rfl
  | ok px =>
    cases parseFixed l.2 with
    | error e => rfl
    | ok qty => rfl

theorem book_eq (d : DepthData) (b : Book) : d.book = releaseFrame b d.levelFrame := by
  have hside : ∀ (side : BookSide) (levels : List (String × String)) (b : Book),
      levels.foldl (applyLevel side) b =
        (levels.filterMap fun l => parsedLevel l.1 l.2).foldl (applySide side) b :=
    fun side => foldl_parsed (p := id) (applyLevel_eq side)
  rw [DepthData.book, releaseFrame, hside, hside]
  rfl

end Binance

end K2.Capture

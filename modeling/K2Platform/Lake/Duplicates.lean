import K2Platform.Lake.BookSamples
import K2Platform.Lib.Patch

/-!
# Frames that are archived more than once

The archive can hold copies of a frame: the same frame at other offsets.  Copies sort next to each
other, and a frame folded in twice leaves what it leaves folded in once.

* `foldInto_foldInto` — the fold of one frame is idempotent, truncation included.
* `read_again` — a copy read right after its frame changes nothing but the place kept of it.
* `copies_absorbed` — the rows, the state row and the verdicts of a connection are those of its
  frames without the copies.
-/

set_option autoImplicit false

namespace K2.Lake

open K2.Capture (BookSide)

/-! ## One frame twice -/

/-- The updates of one side, zero taking a level out. -/
def patchOf (levels : Levels) : List (Int × Option Int) :=
  levels.map fun level => (level.1, if level.2 = 0 then none else some level.2)

theorem setLevel_eq_put (levels : SortedMap Int Int) (px qty : Int) :
    Book.setLevel levels px qty = levels.put px (if qty = 0 then none else some qty) := by
  unfold Book.setLevel
  split <;> rfl

theorem applyLevels_bid (levels : Levels) (b : Book) :
    applyLevels .bid levels b = { b with bids := b.bids.patch (patchOf levels) } := by
  induction levels generalizing b with
  | nil => rfl
  | cons level levels ih =>
    rw [applyLevels, List.foldl_cons]
    show applyLevels .bid levels _ = _
    rw [ih, Book.apply, setLevel_eq_put]
    rfl

theorem applyLevels_ask (levels : Levels) (b : Book) :
    applyLevels .ask levels b = { b with asks := b.asks.patch (patchOf levels) } := by
  induction levels generalizing b with
  | nil => rfl
  | cons level levels ih =>
    rw [applyLevels, List.foldl_cons]
    show applyLevels .ask levels _ = _
    rw [ih, Book.apply, setLevel_eq_put]
    rfl

/-- The updates of an event that are for one side. -/
def sideLevels (side : BookSide) (updates : List LevelUpdate) : Levels :=
  (updates.filter fun u => u.side = side).map fun u => (e8 u.px, e8 u.qty)

theorem applyUpdates_patch (updates : List LevelUpdate) (b : Book) :
    applyUpdates updates b =
      ⟨b.bids.patch (patchOf (sideLevels .bid updates)),
        b.asks.patch (patchOf (sideLevels .ask updates))⟩ := by
  induction updates generalizing b with
  | nil => rfl
  | cons u updates ih =>
    rw [applyUpdates, List.foldl_cons]
    show applyUpdates updates _ = _
    rw [ih]
    cases hside : u.side with
    | bid => simp [Book.apply, setLevel_eq_put, sideLevels, patchOf, SortedMap.patch, hside]
    | ask => simp [Book.apply, setLevel_eq_put, sideLevels, patchOf, SortedMap.patch, hside]

/-- **A frame folded in twice** leaves what it leaves folded in once. -/
theorem foldInto_foldInto (p : Payload) (b : Book) : p.foldInto (p.foldInto b) = p.foldInto b := by
  cases hsnap : p.isSnapshot with
  | true => exact foldInto_snapshot hsnap _ _
  | false =>
    cases p with
    | kraken frameType bids asks checksum exchangeTs =>
      have htype : ¬ frameType = "snapshot" := of_decide_eq_false hsnap
      simp only [Payload.foldInto, krakenApply, if_neg htype, applyLevels_bid, applyLevels_ask,
        Book.truncate, SortedMap.popFirstTo_patch, SortedMap.popLastTo_patch]
    | coinbase eventType updates sequenceNum envelopeTs =>
      have htype : ¬ eventType = "snapshot" := of_decide_eq_false hsnap
      simp only [Payload.foldInto, if_neg htype, applyUpdates_patch, SortedMap.patch_patch]

/-! ## Copies -/

/-- The same frame, at another place of the archive perhaps. -/
def CopyOf (r c : TypedFrame) : Prop :=
  c = { r with srcPartition := c.srcPartition, srcOffset := c.srcOffset }

/-- The running state with another place kept of its last frame. -/
def Running.at (st : Running) (srcPartition srcOffset : Int) : Running :=
  { st with srcPartition := srcPartition, srcOffset := srcOffset }

/-- Two states that differ at most in that place, and in how the clock came to be where it is. -/
structure Twin (st st' : Running) : Prop where
  state : st'.toFolded =
    { st.toFolded with srcPartition := st'.srcPartition, srcOffset := st'.srcOffset }
  names : st'.names = st.names
  next : st'.clock.next = st.clock.next

theorem Twin.refl (st : Running) : Twin st st := ⟨rfl, rfl, rfl⟩

theorem Twin.trans {st st' st'' : Running} (h : Twin st st') (h' : Twin st' st'') :
    Twin st st'' := by
  refine ⟨?_, h'.names.trans h.names, h'.next.trans h.next⟩
  rw [h'.state, h.state]

theorem Twin.at_of_clock {st st' : Running} (h : Twin st st') (hclock : st'.clock = st.clock) :
    st' = st.at st'.srcPartition st'.srcOffset := by
  obtain ⟨hstate, hnames, _⟩ := h
  cases st
  cases st'
  simp only [Running.names, Prod.mk.injEq] at hnames hclock
  obtain ⟨rfl, rfl, rfl, rfl⟩ := hnames
  subst hclock
  exact congrArg (fun folded => Running.mk folded _ _ _ _ _) hstate

theorem twin_at (st : Running) (srcPartition srcOffset : Int) :
    Twin st (st.at srcPartition srcOffset) := ⟨rfl, rfl, rfl⟩

/-- A row without the place of its last frame. -/
def BookRow.placeless (row : BookRow) : BookRow := { row with srcPartition := 0, srcOffset := 0 }

def StateRow.placeless (row : StateRow) : StateRow :=
  { row with lastSrcPartition := 0, lastSrcOffset := 0 }

section Read

variable (run : ReplayRun)

/-- Twins flush the same rows, and then differ in the place only. -/
theorem flush_twin {st st' : Running} (h : Twin st st') (hsound : st.carry.Sound) (uptoNs : Int) :
    (st'.flush run uptoNs).2.map BookRow.placeless =
        (st.flush run uptoNs).2.map BookRow.placeless ∧
      ∃ srcPartition srcOffset,
        (st'.flush run uptoNs).1 = (st.flush run uptoNs).1.at srcPartition srcOffset := by
  cases hsec : st.clock.next with
  | none =>
    have hsec' := h.next.trans hsec
    have hclock : st'.clock = st.clock :=
      (Clock.eq_idle_of_next hsec').trans (Clock.eq_idle_of_next hsec).symm
    rw [Running.flush_of_idle hsec, Running.flush_of_idle hsec']
    exact ⟨rfl, _, _, h.at_of_clock hclock⟩
  | some sec =>
    have hsec' := h.next.trans hsec
    have hdue := (hsound.due sec hsec).1
    rw [Running.flush_of_due hsec hdue, Running.flush_of_due hsec' hdue]
    -- once the clock is set, they differ in the place only
    have hsame : ∀ clock, ({ st' with clock := clock } : Running) =
        ({ st with clock := clock } : Running).at st'.srcPartition st'.srcOffset := fun clock =>
      Twin.at_of_clock ⟨h.state, h.names, rfl⟩ rfl
    refine ⟨?_, _, _, hsame _⟩
    simp only [List.map_map]
    refine List.map_congr_left fun s _ => ?_
    have hrow : st'.snapshotRow run s =
        ({ st' with clock := st.clock } : Running).snapshotRow run s := rfl
    show (st'.snapshotRow run s).placeless = _
    rw [hrow, hsame]
    rfl

theorem fold_at (st : Running) (srcPartition srcOffset : Int) (r : TypedFrame) :
    (st.at srcPartition srcOffset).fold run r = (st.fold run r).at srcPartition srcOffset := by
  unfold Running.fold
  cases r.payload <;> rfl

theorem books_map_book (rows : List BookRow) :
    (rows.map Emission.book).filterMap Emission.book? = rows := by
  rw [List.filterMap_map]
  exact List.filterMap_some

/-- What a frame and a copy of it show of a frame read. -/
structure SameRead (out out' : List Emission) : Prop where
  books : (out'.filterMap Emission.book?).map BookRow.placeless =
    (out.filterMap Emission.book?).map BookRow.placeless
  flags : verdicts out' = verdicts out

/-- Twins read a frame and a copy of it alike. -/
theorem read_twin {st st' : Running} (h : Twin st st') (hsound : st.carry.Sound) {r c : TypedFrame}
    (hcopy : CopyOf r c) :
    Twin (st.read run r).1 (st'.read run c).1 ∧ SameRead (st.read run r).2 (st'.read run c).2 := by
  obtain ⟨hrows, p, o, hflush⟩ := flush_twin run h hsound r.recvTsNs
  have hrecv : c.recvTsNs = r.recvTsNs := by rw [hcopy]
  have hpayload : c.payload = r.payload := by rw [hcopy]
  have hverdicts : ∀ ok, verdicts (c.verdicts ok) = verdicts (r.verdicts ok) := by
    intro ok
    unfold TypedFrame.verdicts
    rw [hpayload]
    cases r.payload <;> rfl
  have hout : ∀ ok, SameRead ((st.flush run r.recvTsNs).2.map Emission.book ++ r.verdicts ok)
      ((st'.flush run r.recvTsNs).2.map Emission.book ++ c.verdicts ok) := by
    intro ok
    refine ⟨?_, ?_⟩
    · rw [List.filterMap_append, List.filterMap_append, books_verdicts, books_verdicts,
        List.append_nil, List.append_nil, books_map_book, books_map_book]
      exact hrows
    · rw [verdicts_append, verdicts_append, verdicts_books, verdicts_books, hverdicts]
  unfold Running.read
  simp only [hrecv, hpayload]
  rw [hflush]
  have hlive : ((st.flush run r.recvTsNs).1.at p o).clock = (st.flush run r.recvTsNs).1.clock := rfl
  rw [hlive]
  split
  · exact ⟨twin_at _ p o, hout none⟩
  · have hfold : ((st.flush run r.recvTsNs).1.at p o).fold run c =
        ((st.flush run r.recvTsNs).1.fold run r).at p o := by
      have hcopied : ∀ st : Running, st.fold run c = st.fold run r := by
        intro st
        have hsymbol : c.symbol = r.symbol := by rw [hcopy]
        unfold Running.fold
        rw [hpayload, hsymbol]
      rw [hcopied, fold_at]
    rw [hfold]
    refine ⟨⟨?_, rfl, ?_⟩, hout _⟩
    · rw [hcopy]
      rfl
    · unfold Running.touch
      simp only [hrecv]
      rfl

/-- The frame that was read last, read again. -/
theorem fold_again (st : Running) (r : TypedFrame) (clock : Clock) :
    ({ (st.fold run r).touch r with clock := clock } : Running).fold run r =
      { (st.fold run r).touch r with clock := clock } := by
  have hbook := book_fold run st r
  have hagain := foldInto_foldInto r.payload st.book
  unfold Running.fold at hbook ⊢
  cases hpayload : r.payload with
  | kraken frameType bids asks checksum exchangeTs =>
    rw [hpayload] at hagain
    simp only [Payload.foldInto] at hagain
    simp only [Running.touch, hagain]
  | coinbase eventType updates sequenceNum envelopeTs =>
    rw [hpayload] at hagain
    simp only [Payload.foldInto] at hagain
    simp only [Running.touch, hagain]

/-- **A frame read twice**: the second time no second is due, the verdict is the same, and the state
    stays as it is. -/
theorem read_again {st : Running} (hsound : st.carry.Sound) {r : TypedFrame}
    (hepoch : NS ≤ r.recvTsNs) :
    Twin (st.read run r).1 ((st.read run r).1.read run r).1 ∧
      ((st.read run r).1.read run r).2.filterMap Emission.book? = [] ∧
        verdicts ((st.read run r).1.read run r).2 = verdicts (st.read run r).2 := by
  have hsound' := Running.read_sound run hsound hepoch
  cases hsec : (st.read run r).1.clock.next with
  | none =>
    -- not live yet: nothing happens either time
    have hidle := Running.next_of_read hsound hsec
    have hsnap : r.payload.isSnapshot = false := by
      cases hsnap : r.payload.isSnapshot with
      | false => rfl
      | true =>
        rw [(Running.next_read_snapshot run hidle hsnap).2] at hsec
        cases hsec
    rw [Running.read_idle run hidle hsnap, Running.read_idle run hidle hsnap]
    exact ⟨Twin.refl _, books_verdicts r none, rfl⟩
  | some sec =>
    obtain ⟨hdue, hpast⟩ := hsound'.due sec hsec
    -- the first time it was folded in
    have hfirst : ∃ before : Running, (st.read run r).1 = (before.fold run r).touch r ∧
        verdicts (st.read run r).2 = verdicts (r.verdicts (before.fold run r).checksumOk) := by
      refine ⟨(st.flush run r.recvTsNs).1, ?_⟩
      have hread : ¬ (!(st.flush run r.recvTsNs).1.clock.live && !r.payload.isSnapshot) = true := by
        intro hskip
        have hsame : (st.read run r).1 = (st.flush run r.recvTsNs).1 := by
          rw [Running.read]
          simp only
          rw [if_pos hskip]
        rw [hsame] at hsec
        have hlive := Clock.live_iff_next.2 ⟨sec, hsec⟩
        rw [hlive] at hskip
        cases hskip
      rw [Running.read]
      simp only
      rw [if_neg hread]
      exact ⟨rfl, by rw [verdicts_append, verdicts_books, List.nil_append]⟩
    obtain ⟨before, hstate, hverdict⟩ := hfirst
    have hrecv : (st.read run r).1.recvTsNs = r.recvTsNs := by rw [hstate]; rfl
    have hpast : secondOf r.recvTsNs ≤ sec := hrecv ▸ hpast
    have hflush : (st.read run r).1.flush run r.recvTsNs = _ :=
      Running.flush_of_due hsec hdue r.recvTsNs
    rw [secondsUpTo_eq_nil hpast, max_eq_left hpast, List.map_nil] at hflush
    rw [hverdict]
    rw [hstate] at hsec hflush ⊢
    rw [Running.read, hflush]
    simp only [Clock.live, Bool.not_true, Bool.false_and, Bool.false_eq_true, if_false,
      List.map_nil, List.nil_append]
    rw [fold_again]
    refine ⟨⟨rfl, rfl, ?_⟩, books_verdicts r _, rfl⟩
    rw [hsec]
    exact congrArg some (Int.sub_add_cancel sec NS)

/-! ## All frames -/

/-- Frames, each with its copies in its place. -/
inductive Duplicated : List TypedFrame → List TypedFrame → Prop
  | nil : Duplicated [] []
  | cons {r c : TypedFrame} {cs rows copies : List TypedFrame} (hcs : ∀ x ∈ c :: cs, CopyOf r x)
      (rest : Duplicated rows copies) : Duplicated (r :: rows) (c :: cs ++ copies)

theorem Duplicated.exists_cons {r : TypedFrame} {rows copies : List TypedFrame}
    (h : Duplicated (r :: rows) copies) : ∃ c cs, copies = c :: cs ∧ CopyOf r c := by
  cases h with
  | cons hcs _ => exact ⟨_, _, rfl, hcs _ List.mem_cons_self⟩

/-- What the frames of a connection show, and what they show with copies: the same rows, and on
    each copy the verdict on its frame. -/
structure SameRun (out out' : List Emission) : Prop where
  books : (out'.filterMap Emission.book?).map BookRow.placeless =
    (out.filterMap Emission.book?).map BookRow.placeless
  verdicts : ∀ v ∈ out'.filterMap Emission.verdict?, ∃ r,
    (r, v.2) ∈ out.filterMap Emission.verdict? ∧ CopyOf r v.1

theorem SameRun.append {out out' rest rest' : List Emission} (h : SameRun out out')
    (h' : SameRun rest rest') : SameRun (out ++ rest) (out' ++ rest') := by
  refine ⟨?_, fun v hv => ?_⟩
  · rw [List.filterMap_append, List.filterMap_append, List.map_append, List.map_append, h.books,
      h'.books]
  · rw [List.filterMap_append] at hv ⊢
    rcases List.mem_append.1 hv with hv | hv
    · obtain ⟨r, hr, hcopy⟩ := h.verdicts v hv
      exact ⟨r, List.mem_append_left _ hr, hcopy⟩
    · obtain ⟨r, hr, hcopy⟩ := h'.verdicts v hv
      exact ⟨r, List.mem_append_right _ hr, hcopy⟩

/-- The frames that verdicts are on. -/
theorem judged_read (st : Running) (r : TypedFrame) :
    ((st.read run r).2.filterMap Emission.verdict?).map Prod.fst =
      [r].filter fun r => r.payload.exchange = .kraken := by
  obtain ⟨rows, ok, hread, _⟩ := Running.exists_read run st r
  rw [hread, List.filterMap_append, filterMap_map_book fun _ => rfl, List.nil_append]
  unfold TypedFrame.verdicts
  cases hpayload : r.payload <;> simp [Payload.exchange, hpayload, Emission.verdict?]

theorem judged_run (rows : List TypedFrame) (st : Running) :
    ((Mealy.run (Running.read run) st rows).2.filterMap Emission.verdict?).map Prod.fst =
      rows.filter fun r => r.payload.exchange = .kraken := by
  induction rows generalizing st with
  | nil => rfl
  | cons r rows ih =>
    rw [Mealy.run_cons, List.filterMap_append, List.map_append, ih, judged_read,
      ← List.filter_append, List.singleton_append]

/-- One verdict at most, on the frame read. -/
theorem mem_verdicts_read {st : Running} {r : TypedFrame} {v : TypedFrame × Option Bool}
    (hv : v ∈ (st.read run r).2.filterMap Emission.verdict?) :
    v.1 = r ∧ verdicts (st.read run r).2 = [v.2] := by
  have hjudged := judged_read run st r
  unfold verdicts
  cases hlist : (st.read run r).2.filterMap Emission.verdict? with
  | nil =>
    rw [hlist] at hv
    cases hv
  | cons w ws =>
    rw [hlist, List.map_cons] at hjudged
    have hfilter : [r].filter (fun r => r.payload.exchange = .kraken) = [r] := by
      by_cases hk : r.payload.exchange = .kraken
      · exact List.filter_cons_of_pos (decide_eq_true hk)
      · rw [List.filter_cons_of_neg (by simpa using hk)] at hjudged
        cases hjudged
    rw [hfilter] at hjudged
    obtain ⟨hw, hnil⟩ := List.cons.inj hjudged
    rw [hlist, List.map_eq_nil_iff.1 hnil, List.mem_singleton] at hv
    rw [List.map_eq_nil_iff.1 hnil, hv]
    exact ⟨hw, rfl⟩

/-- The verdict that a frame read shows is on the frame. -/
theorem verdict_mem_read {st : Running} {r : TypedFrame} {ok : Option Bool}
    (h : verdicts (st.read run r).2 = [ok]) :
    (r, ok) ∈ (st.read run r).2.filterMap Emission.verdict? := by
  have hmem : ok ∈ verdicts (st.read run r).2 := by
    rw [h]
    exact List.mem_singleton_self ok
  obtain ⟨v, hv, rfl⟩ := List.mem_map.1 hmem
  obtain ⟨rfl, _⟩ := mem_verdicts_read run hv
  exact hv

theorem SameRead.sameRun {st st' : Running} {r c : TypedFrame} (hcopy : CopyOf r c)
    (h : SameRead (st.read run r).2 (st'.read run c).2) :
    SameRun (st.read run r).2 (st'.read run c).2 := by
  refine ⟨h.books, fun v hv => ?_⟩
  obtain ⟨hfst, hsnd⟩ := mem_verdicts_read run hv
  rw [h.flags] at hsnd
  exact ⟨r, verdict_mem_read run hsnd, hfst ▸ hcopy⟩

/-- More copies of a frame that has been read. -/
theorem run_again {st : Running} (hsound : st.carry.Sound) {r : TypedFrame}
    (hepoch : NS ≤ r.recvTsNs) {cs : List TypedFrame} (hcs : ∀ c ∈ cs, CopyOf r c) {st' : Running}
    (hsound' : st'.carry.Sound) (htwin : Twin (st.read run r).1 st') :
    Twin (st.read run r).1 (Mealy.run (Running.read run) st' cs).1 ∧
      (Mealy.run (Running.read run) st' cs).1.carry.Sound ∧
        (Mealy.run (Running.read run) st' cs).2.filterMap Emission.book? = [] ∧
          ∀ v ∈ (Mealy.run (Running.read run) st' cs).2.filterMap Emission.verdict?,
            verdicts (st.read run r).2 = [v.2] ∧ CopyOf r v.1 := by
  induction cs generalizing st' with
  | nil => exact ⟨htwin, hsound', rfl, fun _ h => absurd h List.not_mem_nil⟩
  | cons c cs ih =>
    obtain ⟨hc, hcs⟩ := List.forall_mem_cons.1 hcs
    have hrecv : NS ≤ c.recvTsNs := by
      rw [hc]
      exact hepoch
    obtain ⟨hagain, hnone, hverdicts⟩ := read_again run hsound hepoch
    obtain ⟨hnext, hread⟩ := read_twin run htwin (Running.read_sound run hsound hepoch) hc
    obtain ⟨hend, hsend, hbooks, hjudged⟩ := ih hcs (Running.read_sound run hsound' hrecv)
      (hagain.trans hnext)
    have hrows : (st'.read run c).2.filterMap Emission.book? = [] := by
      have hsame := hread.books
      rw [hnone, List.map_nil, List.map_eq_nil_iff] at hsame
      exact hsame
    rw [Mealy.run_cons, List.filterMap_append, List.filterMap_append, hrows, hbooks]
    refine ⟨hend, hsend, rfl, fun v hv => ?_⟩
    rcases List.mem_append.1 hv with hv | hv
    · obtain ⟨hfst, hsnd⟩ := mem_verdicts_read run hv
      rw [hread.flags, hverdicts] at hsnd
      exact ⟨hsnd, hfst ▸ hc⟩
    · exact hjudged v hv

/-- **A run over frames with copies.** -/
theorem run_duplicated {rows copies : List TypedFrame} (h : Duplicated rows copies)
    (hepoch : ∀ r ∈ rows, NS ≤ r.recvTsNs) {st st' : Running} (hsound : st.carry.Sound)
    (hsound' : st'.carry.Sound) (htwin : Twin st st') :
    Twin (Mealy.run (Running.read run) st rows).1 (Mealy.run (Running.read run) st' copies).1 ∧
      (Mealy.run (Running.read run) st rows).1.carry.Sound ∧
        (Mealy.run (Running.read run) st' copies).1.carry.Sound ∧
          SameRun (Mealy.run (Running.read run) st rows).2
            (Mealy.run (Running.read run) st' copies).2 := by
  induction h generalizing st st' with
  | nil => exact ⟨htwin, hsound, hsound', rfl, fun _ h => absurd h List.not_mem_nil⟩
  | @cons r c cs rows copies hcs _ ih =>
    obtain ⟨hr, hepoch⟩ := List.forall_mem_cons.1 hepoch
    obtain ⟨hc, hcs⟩ := List.forall_mem_cons.1 hcs
    have hrecv : NS ≤ c.recvTsNs := by
      rw [hc]
      exact hr
    obtain ⟨hfirst, hread⟩ := read_twin run htwin hsound hc
    obtain ⟨hblock, hsblock, hnone, hjudged⟩ := run_again run hsound hr hcs
      (Running.read_sound run hsound' hrecv) hfirst
    obtain ⟨hend, hsend, hsend', hrest⟩ := ih hepoch (Running.read_sound run hsound hr) hsblock hblock
    rw [List.cons_append, Mealy.run_cons, Mealy.run_cons, Mealy.run_append]
    refine ⟨hend, hsend, hsend', ?_⟩
    rw [← List.append_assoc]
    refine SameRun.append ?_ hrest
    -- the frame, and then its copies
    obtain ⟨hbooks, hverdicts⟩ := hread.sameRun run hc
    refine ⟨?_, fun v hv => ?_⟩
    · rw [List.filterMap_append, hnone, List.append_nil]
      exact hbooks
    · rw [List.filterMap_append] at hv
      rcases List.mem_append.1 hv with hv | hv
      · exact hverdicts v hv
      · obtain ⟨hsnd, hcopy⟩ := hjudged v hv
        exact ⟨r, verdict_mem_read run hsnd, hcopy⟩

/-! ## The end of the connection -/

/-- The last connection is kept at the second before the one that is due. -/
theorem finish_eq {st : Running} (hsound : st.carry.Sound) :
    st.finish run = st.clock.next.toList.map fun sec =>
      .state (.ok (st.toFolded.stateRow run.exchange st.key (sec - NS) run.runTs)) := by
  unfold Running.finish
  cases hsec : st.clock.next with
  | none =>
    rw [Clock.eq_idle_of_next hsec]
    rfl
  | some sec =>
    obtain ⟨hdue, hpast⟩ := hsound.due sec hsec
    have hpast : secondOf st.recvTsNs ≤ sec := hpast
    rw [if_pos (Clock.live_iff_next.2 ⟨sec, hsec⟩), Running.flush_of_due hsec hdue,
      secondsUpTo_eq_nil hpast, max_eq_left hpast]
    rfl

theorem states_finish {st : Running} (hsound : st.carry.Sound) :
    (st.finish run).filterMap Emission.state? = st.clock.next.toList.map fun sec =>
      st.toFolded.stateRow run.exchange st.key (sec - NS) run.runTs := by
  rw [finish_eq run hsound]
  cases st.clock.next <;> rfl

theorem finish_twin {st st' : Running} (h : Twin st st') (hsound : st.carry.Sound)
    (hsound' : st'.carry.Sound) :
    ((st'.finish run).filterMap Emission.state?).map StateRow.placeless =
      ((st.finish run).filterMap Emission.state?).map StateRow.placeless := by
  have hkey : st'.key = st.key := by
    have hnames := h.names
    simp only [Running.names, Prod.mk.injEq] at hnames
    exact Prod.ext hnames.1 hnames.2.1
  rw [states_finish run hsound, states_finish run hsound', h.next, h.state, hkey]
  cases st.clock.next <;> rfl

theorem quiet_finish {st : Running} (hsound : st.carry.Sound) :
    (st.finish run).filterMap Emission.book? = [] ∧
      (st.finish run).filterMap Emission.verdict? = [] ∧
        ∀ e ∈ st.finish run, e.raised = false := by
  rw [finish_eq run hsound]
  cases st.clock.next with
  | none => exact ⟨rfl, rfl, fun _ h => absurd h List.not_mem_nil⟩
  | some sec =>
    refine ⟨rfl, rfl, fun e he => ?_⟩
    rw [List.mem_singleton.1 he]
    rfl

/-- No frame yields a state row. -/
theorem states_of_frames (rows : List TypedFrame) (st : Running) :
    (Mealy.run (Running.read run) st rows).2.filterMap Emission.state? = [] := by
  induction rows generalizing st with
  | nil => rfl
  | cons r rows ih =>
    obtain ⟨due, ok, hread, _⟩ := Running.exists_read run st r
    have hverdicts : (r.verdicts ok).filterMap Emission.state? = [] := by
      unfold TypedFrame.verdicts
      cases r.payload <;> rfl
    rw [Mealy.run_cons, List.filterMap_append, ih, hread, List.filterMap_append,
      filterMap_map_book fun _ => rfl, hverdicts]
    rfl

end Read

/-! ## Sorted frames -/

/-- What `replay` orders the frames of a connection on. -/
def TypedFrame.position (r : TypedFrame) : Int ×ₗ Int := toLex (r.connMsgSeq, r.srcIndex)

/-- The frames of a connection as the archive holds them: in order, some of them more than once, no
    two frames at one position. -/
structure Archived (rows copies : List TypedFrame) : Prop where
  frames : rows.Pairwise fun r r' => r.position < r'.position
  copied : ∀ c ∈ copies, ∃ r ∈ rows, CopyOf r c
  complete : ∀ r ∈ rows, ∃ c ∈ copies, CopyOf r c
  sorted : copies.Pairwise fun c c' => c.position ≤ c'.position

theorem CopyOf.position {r c : TypedFrame} (h : CopyOf r c) : c.position = r.position := by
  rw [h]
  rfl

theorem CopyOf.key {r c : TypedFrame} (h : CopyOf r c) : c.key = r.key := by
  rw [h]
  rfl

/-- Sorted, the copies of a frame stand together. -/
theorem duplicated_of_archived {rows copies : List TypedFrame} (h : Archived rows copies) :
    Duplicated rows copies := by
  induction rows generalizing copies with
  | nil =>
    have hnone : copies = [] := List.eq_nil_iff_forall_not_mem.2 fun c hc => by
      obtain ⟨r, hr, _⟩ := h.copied c hc
      cases hr
    rw [hnone]
    exact .nil
  | cons r rows ih =>
    obtain ⟨hfirst, hframes⟩ := List.pairwise_cons.1 h.frames
    set P : TypedFrame → Bool := fun c => c.position = r.position with hP
    have hsplit := List.takeWhile_append_dropWhile (p := P) (l := copies)
    have hblock : ∀ c ∈ copies.takeWhile P, CopyOf r c := by
      intro c hc
      have hpos : c.position = r.position := by simpa [hP] using List.mem_takeWhile_imp hc
      obtain ⟨r', hr', hcopy⟩ := h.copied c (List.takeWhile_subset P hc)
      rcases List.mem_cons.1 hr' with rfl | hr'
      · exact hcopy
      · have hlt := hfirst r' hr'
        rw [← hcopy.position, hpos] at hlt
        exact absurd hlt (lt_irrefl _)
    -- past the first frame of another position, all are of later positions
    have hlater : ∀ c ∈ copies.dropWhile P, r.position < c.position := by
      intro c hc
      have hge : ∀ c ∈ copies, r.position ≤ c.position := by
        intro c hc
        obtain ⟨r', hr', hcopy⟩ := h.copied c hc
        rw [hcopy.position]
        rcases List.mem_cons.1 hr' with rfl | hr'
        · exact le_rfl
        · exact (hfirst r' hr').le
      have hsub : (copies.dropWhile P).Sublist copies := List.dropWhile_sublist P
      cases hrest : copies.dropWhile P with
      | nil =>
        rw [hrest] at hc
        cases hc
      | cons x xs =>
        have hnot := List.head?_dropWhile_not P copies
        rw [hrest] at hnot hsub
        have hx : x.position ≠ r.position := by simpa [hP] using hnot
        have hlt : r.position < x.position :=
          lt_of_le_of_ne (hge x (hsub.subset List.mem_cons_self)) (Ne.symm hx)
        rw [hrest] at hc
        rcases List.mem_cons.1 hc with rfl | hc
        · exact hlt
        · exact hlt.trans_le ((List.pairwise_cons.1 (h.sorted.sublist hsub)).1 c hc)
    have hrest : Archived rows (copies.dropWhile P) := by
      refine ⟨hframes, fun c hc => ?_, fun r' hr' => ?_, h.sorted.sublist (List.dropWhile_sublist P)⟩
      · obtain ⟨r', hr', hcopy⟩ := h.copied c ((List.dropWhile_sublist P).subset hc)
        rcases List.mem_cons.1 hr' with rfl | hr'
        · have hlt := hlater c hc
          rw [hcopy.position] at hlt
          exact absurd hlt (lt_irrefl _)
        · exact ⟨r', hr', hcopy⟩
      · obtain ⟨c, hc, hcopy⟩ := h.complete r' (List.mem_cons_of_mem r hr')
        rw [← hsplit] at hc
        rcases List.mem_append.1 hc with hc | hc
        · have hlt := hfirst r' hr'
          rw [← hcopy.position, (hblock c hc).position] at hlt
          exact absurd hlt (lt_irrefl _)
        · exact ⟨c, hc, hcopy⟩
    obtain ⟨c, hc, hcopy⟩ := h.complete r List.mem_cons_self
    rw [← hsplit] at hc ⊢
    cases hlist : copies.takeWhile P with
    | nil =>
      rw [hlist, List.nil_append] at hc
      have hlt := hlater c hc
      rw [hcopy.position] at hlt
      exact absurd hlt (lt_irrefl _)
    | cons c' cs =>
      rw [hlist] at hblock
      exact .cons hblock (ih hrest)

theorem position_le_of_order {a b : TypedFrame} (hkey : a.key = b.key) (h : a.order ≤ b.order) :
    a.position ≤ b.position := by
  obtain ⟨hsymbol, hconn⟩ := Prod.mk.inj hkey
  unfold TypedFrame.order at h
  rw [hsymbol, hconn, Prod.Lex.toLex_le_toLex] at h
  have h := (h.resolve_left (lt_irrefl _)).2
  rw [Prod.Lex.toLex_le_toLex] at h
  have h := (h.resolve_left (lt_irrefl _)).2
  unfold BookFrame.sent at h
  unfold TypedFrame.position
  rw [Prod.Lex.toLex_le_toLex] at h ⊢
  refine h.imp_right fun ⟨hseq, h⟩ => ⟨hseq, ?_⟩
  rw [Prod.Lex.toLex_le_toLex] at h
  rcases h with hlt | ⟨heq, _⟩
  · exact le_of_lt hlt
  · exact le_of_eq heq

/-- As `replay` sorts them, in whatever order they came. -/
theorem archived_sortFrames {key : BookKey} {rows copies : List TypedFrame}
    (hkey : ∀ r ∈ rows, r.key = key) (hframes : rows.Pairwise fun r r' => r.position < r'.position)
    (hcopied : ∀ c ∈ copies, ∃ r ∈ rows, CopyOf r c)
    (hcomplete : ∀ r ∈ rows, ∃ c ∈ copies, CopyOf r c) : Archived rows (sortFrames copies) := by
  have hmem : ∀ c, c ∈ sortFrames copies ↔ c ∈ copies := fun c => (sortOn_perm _ _).mem_iff
  have hkey' : ∀ c ∈ sortFrames copies, c.key = key := by
    intro c hc
    obtain ⟨r, hr, hcopy⟩ := hcopied c ((hmem c).1 hc)
    exact hcopy.key.trans (hkey r hr)
  refine ⟨hframes, fun c hc => hcopied c ((hmem c).1 hc), fun r hr => ?_, ?_⟩
  · obtain ⟨c, hc, hcopy⟩ := hcomplete r hr
    exact ⟨c, (hmem c).2 hc, hcopy⟩
  · refine (sortOn_pairwise TypedFrame.order copies).imp_of_mem fun ha hb hle => ?_
    exact position_le_of_order ((hkey' _ ha).trans (hkey' _ hb).symm) hle

/-! ## The connection -/

/-- The copies change neither the rows, but for the place of their last frame, nor the state row,
    nor the verdicts, of which each copy gets its own. -/
structure Absorbed (copies : List TypedFrame) (out out' : List Emission) : Prop where
  returns : ∀ e ∈ out', e.raised = false
  books : (out'.filterMap Emission.book?).map BookRow.placeless =
    (out.filterMap Emission.book?).map BookRow.placeless
  states : (out'.filterMap Emission.state?).map StateRow.placeless =
    (out.filterMap Emission.state?).map StateRow.placeless
  judged : (out'.filterMap Emission.verdict?).map Prod.fst =
    copies.filter fun c => c.payload.exchange = .kraken
  verdicts : ∀ v ∈ out'.filterMap Emission.verdict?, ∃ r,
    (r, v.2) ∈ out.filterMap Emission.verdict? ∧ CopyOf r v.1

/-- One connection as the whole partition. -/
theorem replay_one {run : ReplayRun} {states : BookKey → Option StateRow} {key : BookKey}
    {r : TypedFrame} {rows : List TypedFrame} (hkey : ∀ x ∈ r :: rows, x.key = key) :
    replayPartition run states (r :: rows) =
      (Mealy.run (Running.read run) (Running.opened (states key) r) (r :: rows)).2 ++
        (Mealy.run (Running.read run) (Running.opened (states key) r) (r :: rows)).1.finish run := by
  obtain ⟨hr, hrows⟩ := List.forall_mem_cons.1 hkey
  have hcons := replayPartition_cons run states r [] (fun x hx => (hrows x hx).trans hr.symm)
    (fun _ hx => nomatch hx)
  rw [List.append_nil] at hcons
  rw [hcons, hr]
  simp only [Running.endBefore, List.isEmpty_nil, if_true, replayPartition, List.append_nil]

/-- **Copies are absorbed.**  For every connection, from the state that an earlier tick left it
    in, the replay of its frames with copies shows what the replay of its frames shows. -/
theorem copies_absorbed (run : ReplayRun) (states : BookKey → Option StateRow) {key : BookKey}
    {rows copies : List TypedFrame} (hkey : ∀ r ∈ rows, r.key = key)
    (hepoch : ∀ r ∈ rows, NS ≤ r.recvTsNs) (harchived : Archived rows copies) {carry : Carry}
    (hsound : carry.Sound)
    (hprev : (states key).map StateRow.timeless = carry.stateRow run.exchange key) :
    Absorbed copies (replayPartition run states rows) (replayPartition run states copies) := by
  have hduplicated := duplicated_of_archived harchived
  have hopened : ∀ r, (Running.opened (states key) r).carry.Sound := by
    intro r
    rw [opened_carry hsound hprev r]
    exact hsound.truncate STATE_LEVELS
  cases rows with
  | nil =>
    cases hduplicated
    have hnone : replayPartition run states [] = [] := rfl
    rw [hnone]
    exact ⟨fun _ h => absurd h List.not_mem_nil, rfl, rfl, rfl,
      fun _ h => absurd h List.not_mem_nil⟩
  | cons r rows =>
    -- the first copy is one of the first frame
    obtain ⟨c, cs, rfl, hfirst⟩ := hduplicated.exists_cons
    have hkey' : ∀ x ∈ c :: cs, x.key = key := by
      intro x hx
      obtain ⟨y, hy, hyx⟩ := harchived.copied x hx
      exact hyx.key.trans (hkey y hy)
    have htwin : Twin (Running.opened (states key) r) (Running.opened (states key) c) := by
      rw [hfirst]
      exact ⟨rfl, rfl, rfl⟩
    obtain ⟨hend, hsend, hsend', hrun⟩ := run_duplicated run hduplicated hepoch (hopened r)
      (hopened c) htwin
    have hopenedKey : ∀ x ∈ c :: cs, x.key = (Running.opened (states key) c).key :=
      fun x hx => (hkey' x hx).trans (hkey' c List.mem_cons_self).symm
    obtain ⟨_, hmem⟩ := Running.mem_run run hopenedKey
    have hjudged := judged_run run (c :: cs) (Running.opened (states key) c)
    have hstates := states_of_frames run (r :: rows) (Running.opened (states key) r)
    have hstates' := states_of_frames run (c :: cs) (Running.opened (states key) c)
    rw [replay_one hkey, replay_one hkey']
    obtain ⟨hbooks, hverdicts, _⟩ := quiet_finish run hsend
    obtain ⟨hbooks', hverdicts', hreturns⟩ := quiet_finish run hsend'
    refine ⟨fun e he => ?_, ?_, ?_, ?_, ?_⟩
    · rcases List.mem_append.1 he with he | he
      · exact (hmem e he).2
      · exact hreturns e he
    · rw [List.filterMap_append, List.filterMap_append, hbooks, hbooks', List.append_nil,
        List.append_nil]
      exact hrun.books
    · rw [List.filterMap_append, List.filterMap_append, hstates, hstates', List.nil_append,
        List.nil_append]
      exact finish_twin run hend hsend hsend'
    · rw [List.filterMap_append, hverdicts', List.append_nil]
      exact hjudged
    · rw [List.filterMap_append, List.filterMap_append, hverdicts, hverdicts', List.append_nil,
        List.append_nil]
      exact hrun.verdicts

/-- The `n`-th Kraken frame of a connection, with one bid, archived at an offset. -/
def krakenFrame (frameType : String) (n px offset : Int) : TypedFrame where
  symbol := "BTC/USD"
  payload := .kraken frameType [⟨px, 10000000000⟩] [] 0 none
  recvTsNs := n * NS
  connId := "a"
  connMsgSeq := n
  srcTopic := "k2.raw.kraken"
  srcPartition := 0
  srcOffset := offset
  srcIndex := 0
  canonicalSymbol := "BTC/USD"

/-- Both frames of a connection are archived a second time, before the connection goes on. -/
theorem resent_frames_absorbed :
    Absorbed (sortFrames [krakenFrame "snapshot" 1 450000000000000 0,
        krakenFrame "update" 3 450010000000000 1, krakenFrame "snapshot" 1 450000000000000 2,
        krakenFrame "update" 3 450010000000000 3])
      (replayPartition ⟨.kraken, fun _ => some (1, 8), fun _ _ => "", 0⟩ (fun _ => none)
        [krakenFrame "snapshot" 1 450000000000000 0, krakenFrame "update" 3 450010000000000 1])
      (replayPartition ⟨.kraken, fun _ => some (1, 8), fun _ _ => "", 0⟩ (fun _ => none)
        (sortFrames [krakenFrame "snapshot" 1 450000000000000 0,
          krakenFrame "update" 3 450010000000000 1, krakenFrame "snapshot" 1 450000000000000 2,
          krakenFrame "update" 3 450010000000000 3])) := by
  have hkey : ∀ r ∈ [krakenFrame "snapshot" 1 450000000000000 0,
      krakenFrame "update" 3 450010000000000 1], r.key = ("BTC/USD", "a") := by decide
  refine copies_absorbed _ _ hkey (by decide)
    (archived_sortFrames hkey (by unfold TypedFrame.position; decide) ?_ ?_) Carry.initial_sound rfl
  · unfold CopyOf
    decide
  · unfold CopyOf
    decide

end K2.Lake

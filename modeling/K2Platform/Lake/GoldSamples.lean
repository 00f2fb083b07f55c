import K2Platform.Lake.BookCrash
import K2Platform.Lake.BookSamples

/-!
# The levels of a second

What runs that get through for a venue write to `gold.book_top20` and `gold.bbo_1s`, and whose
frames the rows of a second show.

* `writesTo_of_through` — the rows of a venue are those that `process` makes of each run's frames.
* `ReplaysTo.sampled` — the rows of a connection are the samples of its book.
* `levels_of_second` — the levels of a replayed row, from the frames of its second and before.
-/

set_option autoImplicit false

namespace K2.Lake

/-! ## The tables -/

/-- The rows of a connection of a symbol in `gold.book_top20` that are labelled with a second. -/
def BookTables.booksAt (t : BookTables) (v : Exchange) (key : BookKey) (second : Int) :
    List BookRow := (booksOf v key t.books).filter fun r => r.second = second

/-- The frames that arrive before a run, as the run types them. -/
def BookTick.typedOf (tick : BookTick) (v : Exchange) : List (Typed v) :=
  (tick.arrived v).filterMap (tick.type v)

/-- The frames of a connection, as they are replayed. -/
def connectionFrames (key : BookKey) (frames : List BookFrame) : List BookFrame :=
  sortOn BookFrame.sent (frames.filter fun f => f.key = key)

/-- The receive clock of no connection steps back. -/
def Steady (batches : List (List BookFrame)) : Prop :=
  ∀ key, (batches.flatMap (connectionFrames key)).Pairwise fun f g => f.recvTsNs ≤ g.recvTsNs

def SteadyClock : Exchange → List BookTick → Prop
  | .binance, _ => True
  | .kraken, ticks => Steady (ticks.map fun tick => tick.arrived .kraken)
  | .coinbase, ticks => Steady (ticks.map fun tick => tick.arrived .coinbase)

/-- Runs before which an archive of the venue arrives, cut into ticks. -/
structure Recorded (v : Exchange) (ticks : List BookTick) : Prop where
  archive : Archive v (ticks.flatMap fun tick => tick.arrived v)
  steady : SteadyClock v ticks

/-! ## Runs that get through -/

section Through

variable (floatDigits : Int → Int → String) (v : Exchange)

/-- Every run gets through for the venue: none raises at it or before it, and none is cut off. -/
def AllThrough : BookTables → List BookTick → Prop
  | _, [] => True
  | t, tick :: ticks =>
    Through floatDigits t tick v ∧ AllThrough (t.apply floatDigits tick) ticks

/-- What `process` makes of the frames of a venue, run by run, from the states it reads. -/
inductive WritesTo : (BookKey → Option StateRow) → List BookTick → List BookRow → Prop
  | nil (states : BookKey → Option StateRow) : WritesTo states [] []
  | cons {table : StateTable} {tick : BookTick} {p : Processed v} {ticks : List BookTick}
      {books : List BookRow}
      (run : process floatDigits tick table v (tick.arrived v) = some p) (quiet : p.raises = false)
      (rest : WritesTo (statesOf v (mergeState table p.states)) ticks books) :
      WritesTo (statesOf v table) (tick :: ticks) (p.books ++ books)

end Through

section Turns

variable {floatDigits : Int → Int → String} {tick : BookTick} {v w : Exchange} {t : BookTables}

variable (floatDigits tick) in
theorem untouched_before (s : Nat × BookTables) (v : Exchange) :
    Untouched v s.2 (beforeTurn floatDigits tick s v).2 := by
  cases v with
  | binance => exact .refl .binance s.2
  | kraken => exact turn_untouched (by decide) s
  | coinbase =>
    exact (turn_untouched (by decide) s).trans (turn_untouched (by decide) _)

variable (floatDigits) in
/-- The turns of the other venues, after this one's. -/
theorem untouched_after (t : BookTables) (tick : BookTick) (v : Exchange) :
    Untouched v
      (stageBooksOf floatDigits tick (beforeTurn floatDigits tick (tick.commits, t) v) v).2
      (t.stage floatDigits tick) := by
  rw [stage_eq]
  cases v with
  | binance => exact (turn_untouched (by decide) _).trans (turn_untouched (by decide) _)
  | kraken => exact turn_untouched (by decide) _
  | coinbase => exact .refl .coinbase _

/-- Every row of the source is past. -/
def BookTables.CaughtUp (t : BookTables) (v : Exchange) : Prop :=
  t.position v = (t.bronze v).length

theorem unread_arrive (h : t.CaughtUp v) (more : (v : Exchange) → List (Frame v)) :
    (t.arrive more).unread v = more v := by
  have hposition : t.position v = (t.bronze v).length := h
  show (t.bronze v ++ more v).drop (t.position v) = more v
  rw [hposition, List.drop_left]

variable (floatDigits tick) in
/-- Nothing comes of no frames. -/
theorem process_nil (table : StateTable) :
    process floatDigits tick table v [] = some ⟨[], [], [], false⟩ := by
  have hnone : (replayed floatDigits tick v table []).filterMap Emission.book? = [] ∧
      (replayed floatDigits tick v table []).filterMap Emission.state? = [] ∧
        (replayed floatDigits tick v table []).any Emission.raised = false :=
    nothing_of_idle floatDigits fun r hr => by cases hr
  obtain ⟨hbooks, hstates, hquiet⟩ := hnone
  cases v with
  | binance => rfl
  | kraken =>
    show (if (replayed floatDigits tick .kraken table []).any Emission.raised = true then none
      else some _) = _
    rw [if_neg (by rw [hquiet]; exact Bool.false_ne_true), List.filterMap_nil, hbooks, hstates]
    rfl
  | coinbase =>
    show some (Processed.mk [] ((replayed floatDigits tick .coinbase table []).filterMap _)
      ((replayed floatDigits tick .coinbase table []).filterMap _)
      ((replayed floatDigits tick .coinbase table []).any _)) = _
    rw [hbooks, hstates, hquiet]

/-- A run that is committed whole did not raise. -/
theorem quiet_of_whole {p : Processed v} (h : commitsOf v ≤ p.reach) : p.raises = false := by
  have hcommits : 3 ≤ commitsOf v := by
    cases v <;> decide
  cases hraises : p.raises with
  | false => rfl
  | true =>
    have hreach : p.reach = 1 := by
      rw [Processed.reach, hraises]
      rfl
    omega

/-- What a run that gets through for a venue makes of the tables. -/
structure RunsThrough (floatDigits : Int → Int → String) (v : Exchange) (tick : BookTick)
    (t t' : BookTables) (table : StateTable) (p : Processed v) : Prop where
  reads : statesOf v table = statesOf v t.state
  run : process floatDigits tick table v (tick.arrived v) = some p
  quiet : p.raises = false
  bronze : t'.bronze v = t.bronze v ++ tick.arrived v
  caughtUp : t'.CaughtUp v
  silver : t'.silver v = t.silver v ++ p.silver
  books : t'.booksFor v = t.booksFor v ++ p.books
  bbo : (t'.bboFor v).map Bbo.timeless = (t.bboFor v).map Bbo.timeless ++ bboOf p.books 0
  states : statesOf v t'.state = statesOf v (mergeState table p.states)

theorem RunsThrough.of_same {t t' t'' : BookTables} {table : StateTable} {p : Processed v}
    (h : RunsThrough floatDigits v tick t t' table p) (hsame : Untouched v t' t'') :
    RunsThrough floatDigits v tick t t'' table p where
  reads := h.reads
  run := h.run
  quiet := h.quiet
  bronze := hsame.bronze.trans h.bronze
  silver := hsame.silver.trans h.silver
  caughtUp := by
    show t''.position v = (t''.bronze v).length
    rw [hsame.position, hsame.bronze]
    exact h.caughtUp
  books := hsame.books.trans h.books
  bbo := by rw [hsame.bbo, h.bbo]
  states := hsame.states.trans h.states

/-- With nothing to read, the turn is skipped. -/
theorem runsThrough_idle {s : BookTables} (hcaught : t.CaughtUp v)
    (hsame : Untouched v (t.arrive tick.arrived) s) (hnone : tick.arrived v = []) :
    RunsThrough floatDigits v tick t s s.state ⟨[], [], [], false⟩ := by
  refine ⟨hsame.states, by rw [hnone]; exact process_nil floatDigits tick s.state, rfl,
    hsame.bronze, ?_, ?_, ?_, ?_, rfl⟩
  · show s.position v = (s.bronze v).length
    rw [hsame.position, hsame.bronze]
    show t.position v = (t.bronze v ++ tick.arrived v).length
    rw [hnone, List.append_nil]
    exact hcaught
  · exact hsame.silver.trans (List.append_nil _).symm
  · exact hsame.books.trans (List.append_nil _).symm
  · rw [hsame.bbo]
    exact (List.append_nil _).symm

/-- All of a venue's commits. -/
theorem runsThrough_commit {s : BookTables} {p : Processed v}
    (hsame : Untouched v (t.arrive tick.arrived) s)
    (hp : process floatDigits tick s.state v (tick.arrived v) = some p)
    (hwhole : commitsOf v ≤ p.reach) :
    RunsThrough floatDigits v tick t (s.commit p (commitsOf v)) s.state p := by
  have hvenue := ofVenue_process hp
  have hcommits : 3 ≤ commitsOf v := by
    cases v <;> decide
  have hbooks : (p.books.filter fun r => r.exchange = v.name) = p.books :=
    List.filter_eq_self.2 fun r hr => decide_eq_true (hvenue.books r hr)
  have hbbo : ((bboOf p.books (s.booksSnapshot + 1)).filter fun q => q.exchange = v.name) =
      bboOf p.books (s.booksSnapshot + 1) :=
    List.filter_eq_self.2 fun q hq => decide_eq_true (bbo_exchange hvenue.books _ q hq)
  refine ⟨hsame.states, hp, quiet_of_whole hwhole, hsame.bronze, ?_, ?_, ?_, ?_, ?_⟩
  · show (s.commit p (commitsOf v)).position v = (s.bronze v).length
    simp only [BookTables.commit]
    rw [if_pos (by omega), Function.update_self]
  · simp only [BookTables.commit]
    rw [if_pos (by omega), Function.update_self, hsame.silver]
    rfl
  · rw [BookTables.booksFor, BookTables.commit]
    simp only
    rw [if_pos (by omega), List.filter_append, hbooks]
    exact congrArg (· ++ p.books) hsame.books
  · rw [BookTables.bboFor, BookTables.commit]
    simp only
    rw [if_pos hcommits, List.filter_append, hbbo, List.map_append, timeless_bboOf]
    exact congrArg (fun q => List.map Bbo.timeless q ++ bboOf p.books 0) hsame.bbo
  · simp only [BookTables.commit]
    split
    · rfl
    · rename_i hthree
      have hbinance : v = .binance := by
        cases v with
        | binance => rfl
        | kraken => exact absurd (le_refl 4) hthree
        | coinbase => exact absurd (le_refl 4) hthree
      subst hbinance
      obtain ⟨typed, _, rfl⟩ := Option.map_eq_some_iff.1 hp
      rfl

/-- **One run that gets through.** -/
theorem runsThrough (hcaught : t.CaughtUp v) (hthrough : Through floatDigits t tick v) :
    ∃ table p, RunsThrough floatDigits v tick t (t.apply floatDigits tick) table p := by
  have hsame := untouched_before floatDigits tick
    (tick.commits, t.arrive tick.arrived) v
  have hafter := untouched_after floatDigits (t.arrive tick.arrived) tick v
  have hthrough : _ ∨ _ := hthrough
  revert hsame hafter hthrough
  generalize beforeTurn floatDigits tick (tick.commits, t.arrive tick.arrived) v = s
  intro hsame hafter hthrough
  have hunread : s.2.unread v = tick.arrived v :=
    hsame.unread.trans (unread_arrive hcaught tick.arrived)
  by_cases hnone : tick.arrived v = []
  · have hturn : stageBooksOf floatDigits tick s v = s := by
      rw [stageBooksOf, hunread, hnone]
      rfl
    rw [hturn] at hafter
    exact ⟨_, _, (runsThrough_idle hcaught hsame hnone).of_same hafter⟩
  · have hmade := hthrough.resolve_left (by rw [hunread]; exact hnone)
    have hcommits : 0 < commitsOf v := by
      cases v <;> decide
    have hsome : (tick.arrived v).isEmpty = false := by
      cases harrived : tick.arrived v with
      | nil => exact absurd harrived hnone
      | cons f frames => rfl
    cases hp : process floatDigits tick s.2.state v (tick.arrived v) with
    | none =>
      rw [made, hunread, hp] at hmade
      exact absurd hmade (Nat.ne_of_lt hcommits)
    | some p =>
      rw [made, hunread, hp] at hmade
      simp only at hmade
      have hturn : (stageBooksOf floatDigits tick s v).2 = s.2.commit p (commitsOf v) := by
        rw [stageBooksOf, hunread, hsome, hp]
        show s.2.commit p (min s.1 p.reach) = _
        rw [hmade]
      rw [hturn] at hafter
      exact ⟨_, p, (runsThrough_commit hsame hp (hmade ▸ min_le_right _ _)).of_same hafter⟩

/-- **Runs that get through**: their rows are those that each makes of the frames before it. -/
theorem writesTo_of_through {ticks : List BookTick} (hcaught : t.CaughtUp v)
    (hthrough : AllThrough floatDigits v t ticks) :
    ∃ books, WritesTo floatDigits v (statesOf v t.state) ticks books ∧
      (ticks.foldl (BookTables.apply floatDigits) t).booksFor v = t.booksFor v ++ books ∧
      ((ticks.foldl (BookTables.apply floatDigits) t).bboFor v).map Bbo.timeless =
        (t.bboFor v).map Bbo.timeless ++ bboOf books 0 := by
  induction ticks generalizing t with
  | nil =>
    refine ⟨[], .nil _, (List.append_nil _).symm, ?_⟩
    exact (List.append_nil _).symm
  | cons tick ticks ih =>
    obtain ⟨hone, hrest⟩ := hthrough
    obtain ⟨table, p, hrun⟩ := runsThrough hcaught hone
    obtain ⟨books, hwrites, hbooks, hbbo⟩ := ih hrun.caughtUp hrest
    rw [hrun.states] at hwrites
    refine ⟨p.books ++ books, ?_, ?_, ?_⟩
    · rw [← hrun.reads]
      exact .cons hrun.run hrun.quiet hwrites
    · rw [List.foldl_cons, hbooks, hrun.books, List.append_assoc]
    · rw [List.foldl_cons, hbbo, hrun.bbo, bboOf_append, List.append_assoc]

/-- The rows of a venue after runs that get through. -/
structure Written (floatDigits : Int → Int → String) (v : Exchange) (ticks : List BookTick) :
    Prop where
  writes : WritesTo floatDigits v (fun _ => none) ticks ((booksAfter floatDigits ticks).booksFor v)
  bbo : ((booksAfter floatDigits ticks).bboFor v).map Bbo.timeless =
    bboOf ((booksAfter floatDigits ticks).booksFor v) 0

theorem written_of_through {ticks : List BookTick}
    (h : AllThrough floatDigits v BookTables.empty ticks) : Written floatDigits v ticks := by
  have hcaught : BookTables.empty.CaughtUp v := rfl
  obtain ⟨books, hwrites, hbooks, hbbo⟩ := writesTo_of_through hcaught h
  have hrows : (booksAfter floatDigits ticks).booksFor v = books := hbooks
  refine ⟨?_, ?_⟩
  · rw [hrows]
    exact hwrites
  · rw [hrows]
    exact hbbo

end Turns

section Ticks

variable {floatDigits : Int → Int → String} {v : Exchange}

/-- A run that does not raise before its first commit types every frame. -/
theorem typed_of_process {tick : BookTick} {frames : List (Frame v)} {table : StateTable}
    {p : Processed v} (h : process floatDigits tick table v frames = some p) :
    frames.filterMap (tick.type v) = frames.map fun f => f.typed (tick.nameOf v f.symbol) := by
  have hproject : tick.project v frames = some (frames.filterMap (tick.type v)) := by
    have hsome : ∀ typed, tick.project v frames = some typed →
        tick.project v frames = some (frames.filterMap (tick.type v)) := by
      intro typed htyped
      rw [htyped, project_eq_some htyped]
    cases v with
    | binance =>
      obtain ⟨typed, htyped, _⟩ := Option.map_eq_some_iff.1 h
      exact hsome typed htyped
    | kraken =>
      obtain ⟨typed, htyped, _⟩ := Option.bind_eq_some_iff.1 h
      exact hsome typed htyped
    | coinbase =>
      obtain ⟨typed, htyped, _⟩ := Option.map_eq_some_iff.1 h
      exact hsome typed htyped
  unfold BookTick.project at hproject
  split at hproject
  · rename_i hall
    rw [List.all_eq_true] at hall
    rw [← List.filterMap_eq_map]
    refine List.filterMap_congr fun f hf => ?_
    obtain ⟨r, hr⟩ := Option.isSome_iff_exists.1 (hall f hf)
    rw [hr, eq_typed_of_type hr]
    rfl
  · cases hproject

/-! ## The ticks of a replayed venue -/

variable (floatDigits v) in
/-- Ticks of a replayed venue, none of which raises, and the rows they append. -/
inductive ReplaysTo : (BookKey → Option StateRow) → List (List TypedFrame) → List BookRow → Prop
  | nil (states : BookKey → Option StateRow) : ReplaysTo states [] []
  | cons {table : StateTable} {tick : BookTick} {typed : List TypedFrame}
      {batches : List (List TypedFrame)} {books : List BookRow} (batch : TypedBatch v typed)
      (quiet : (replayed floatDigits tick v table typed).any Emission.raised = false)
      (rest : ReplaysTo (statesOf v (mergeState table
        ((replayed floatDigits tick v table typed).filterMap Emission.state?))) batches books) :
      ReplaysTo (statesOf v table) (typed :: batches)
        ((replayed floatDigits tick v table typed).filterMap Emission.book? ++ books)

variable (floatDigits) in
/-- What a run of a replayed venue that does not raise makes of its frames. -/
structure Replays (tick : BookTick) (typed : List TypedFrame) (table : StateTable)
    (p : Processed v) : Prop where
  batch : TypedBatch v typed
  quiet : (replayed floatDigits tick v table typed).any Emission.raised = false
  books : p.books = (replayed floatDigits tick v table typed).filterMap Emission.book?
  states : p.states = (replayed floatDigits tick v table typed).filterMap Emission.state?

theorem replaysTo_of_writes {typed : BookTick → List TypedFrame} {ticks : List BookTick}
    (hprocess : ∀ tick ∈ ticks, ∀ table p,
      process floatDigits tick table v (tick.arrived v) = some p → p.raises = false →
      Replays floatDigits tick (typed tick) table p)
    {states : BookKey → Option StateRow} {books : List BookRow}
    (h : WritesTo floatDigits v states ticks books) :
    ReplaysTo floatDigits v states (ticks.map typed) books := by
  induction h with
  | nil states => exact .nil states
  | @cons table tick p ticks books run quiet rest ih =>
    have hone := hprocess tick List.mem_cons_self table p run quiet
    have htail := ih fun tick htick => hprocess tick (List.mem_cons_of_mem _ htick)
    rw [hone.states] at htail
    rw [hone.books]
    exact .cons hone.batch hone.quiet htail

theorem replays_kraken {tick : BookTick} {frames : List BookFrame}
    (harchive : Archive .kraken frames) {table : StateTable} {p : Processed .kraken}
    (hp : process floatDigits tick table .kraken frames = some p) :
    Replays floatDigits tick (frames.filterMap (tick.type .kraken)) table p ∧
      p.silver = joinVerdicts tick.runTs
        ((replayed floatDigits tick .kraken table
          (frames.filterMap (tick.type .kraken))).filterMap Emission.verdict?)
        (frames.filterMap (tick.type .kraken)) := by
  obtain ⟨typed, htyped, hp⟩ := Option.bind_eq_some_iff.1 hp
  obtain rfl : typed = frames.filterMap (tick.type .kraken) := project_eq_some htyped
  simp only at hp
  split at hp
  · cases hp
  · rename_i hquiet
    cases hp
    exact ⟨⟨typedBatch_of_type (tick.nameOf .kraken) (fun f r h => eq_typed_of_type h)
      harchive.lineage harchive.topic harchive.clock harchive.venue, Bool.eq_false_iff.2 hquiet,
      rfl, rfl⟩, rfl⟩

theorem replays_coinbase {tick : BookTick} {frames : List BookFrame}
    (harchive : Archive .coinbase frames) {table : StateTable} {p : Processed .coinbase}
    (hp : process floatDigits tick table .coinbase frames = some p) (hquiet : p.raises = false) :
    Replays floatDigits tick (frames.filterMap (tick.type .coinbase)) table p := by
  obtain ⟨typed, htyped, rfl⟩ := Option.map_eq_some_iff.1 hp
  obtain rfl : typed = frames.filterMap (tick.type .coinbase) := project_eq_some htyped
  exact ⟨typedBatch_of_type (tick.nameOf .coinbase) (fun f r h => eq_typed_of_type h)
    harchive.lineage harchive.topic harchive.clock harchive.venue, hquiet, rfl, rfl⟩

theorem archive_of_tick {ticks : List BookTick}
    (h : Archive v (ticks.flatMap fun tick => tick.arrived v)) {tick : BookTick}
    (ht : tick ∈ ticks) : Archive v (tick.arrived v) := by
  rw [List.flatMap_def] at h
  exact h.sublist (List.sublist_flatten_of_mem
    (List.mem_map_of_mem (f := fun tick : BookTick => tick.arrived v) ht))

theorem replaysTo_kraken {ticks : List BookTick} {states : BookKey → Option StateRow}
    {books : List BookRow} (h : WritesTo floatDigits .kraken states ticks books)
    (harchive : Archive .kraken (ticks.flatMap fun tick => tick.arrived .kraken)) :
    ReplaysTo floatDigits .kraken states (ticks.map fun tick => tick.typedOf .kraken) books :=
  replaysTo_of_writes
    (fun _ ht _ _ hp _ => (replays_kraken (archive_of_tick harchive ht) hp).1) h

theorem replaysTo_coinbase {ticks : List BookTick} {states : BookKey → Option StateRow}
    {books : List BookRow} (h : WritesTo floatDigits .coinbase states ticks books)
    (harchive : Archive .coinbase (ticks.flatMap fun tick => tick.arrived .coinbase)) :
    ReplaysTo floatDigits .coinbase states (ticks.map fun tick => tick.typedOf .coinbase) books :=
  replaysTo_of_writes
    (fun _ ht _ _ hp hquiet => replays_coinbase (archive_of_tick harchive ht) hp hquiet) h

/-- The turns of a connection, tick by tick. -/
def turnsOf (key : BookKey) (batches : List (List TypedFrame)) : List Turn :=
  batches.flatMap fun typed => turns (sortFrames (typed.filter fun r => r.key = key))

/-- **The rows of a connection** are the samples of its book. -/
theorem ReplaysTo.sampled {states : BookKey → Option StateRow}
    {batches : List (List TypedFrame)} {books : List BookRow}
    (h : ReplaysTo floatDigits v states batches books) {key : BookKey} {c : Carry}
    (hsound : c.Sound) (hprev : (states key).map StateRow.timeless = c.stateRow v key) :
    (booksOf v key books).map BookRow.sampled =
      (Mealy.run bookSampler.step c.state (turnsOf key batches)).2 := by
  induction h generalizing c with
  | nil states => rfl
  | @cons table tick typed batches books batch quiet rest ih =>
    obtain ⟨c', hsound', hstate, hrun⟩ := replayed_sampled batch quiet hsound hprev
    have happend : ∀ a b : List BookRow, booksOf v key (a ++ b) = booksOf v key a ++ booksOf v key b :=
      fun a b => List.filter_append a b
    rw [turnsOf, List.flatMap_cons, Mealy.run_append, hrun, happend, List.map_append,
      ih hsound' hstate]
    rfl

/-- From the first tick on. -/
theorem ReplaysTo.sampled_all {batches : List (List TypedFrame)} {books : List BookRow}
    (h : ReplaysTo floatDigits v (fun _ => none) batches books) (key : BookKey) :
    (booksOf v key books).map BookRow.sampled =
      (Mealy.run bookSampler.step none (turnsOf key batches)).2 :=
  h.sampled Carry.initial_sound rfl

/-! ### The book at the end of a second -/

/-- A turn folded into the book that is held. -/
def holdTurn (b : Option Book) (i : Bool × Payload) : Option Book :=
  heldStep (b.map fun b => b.atTurn i.1) i.2

theorem hold_bookSampler (b : Option Book) (i : Turn) :
    bookSampler.hold b i = holdTurn b (i.1, i.2.payload) := by
  cases b <;> rfl

/-- The book a connection comes to after frames that come batch by batch. -/
def bookThrough (key : BookKey) (batches : List (List BookFrame)) : Option Book :=
  (batches.flatMap fun b => (turns (connectionFrames key b)).map fun i => (i.1, i.2.payload)).foldl
    holdTurn none

theorem map_turns {α β : Type} (f : α → β) (l : List α) :
    (turns l).map (fun i => (i.1, f i.2)) = turns (l.map f) := by
  cases l with
  | nil => rfl
  | cons a l =>
    simp only [turns, List.map_cons, List.map_map]
    rfl

/-- The first frames of a tick are the first frames of what is left of it. -/
theorem filter_turns {α : Type} {p : α → Bool} {l : List α}
    (h : l.Pairwise fun a b => p b = true → p a = true) :
    (turns l).filter (fun i => p i.2) = turns (l.filter p) := by
  cases l with
  | nil => rfl
  | cons a l =>
    rw [turns, List.filter_cons, List.filter_cons, List.filter_map]
    have hrest : ((fun i : Bool × α => p i.2) ∘ fun r => (false, r)) = p := rfl
    rw [hrest]
    by_cases ha : p a = true
    · rw [if_pos ha, if_pos ha]
      rfl
    · have hnone : l.filter p = [] := List.filter_eq_nil_iff.2 fun b hb hpb =>
        ha ((List.pairwise_cons.1 h).1 b hb hpb)
      rw [if_neg ha, if_neg ha, hnone]
      rfl

theorem sent_inj {frames : List BookFrame} (h : (frames.map BookFrame.lineage).Nodup) :
    ∀ f ∈ frames, ∀ g ∈ frames, f.sent = g.sent → f = g := by
  intro f hf g hg hsent
  refine List.inj_on_of_nodup_map h hf hg ?_
  simp only [BookFrame.sent, EmbeddingLike.apply_eq_iff_eq, Prod.mk.injEq] at hsent
  obtain ⟨_, hindex, hpartition, hoffset⟩ := hsent
  rw [BookFrame.lineage, BookFrame.lineage, hindex, hpartition, hoffset]

/-- Within a connection, frames are sorted as they were sent. -/
theorem map_sortFrames {typed : List TypedFrame} {frames : List BookFrame}
    (h : typed.map TypedFrame.toBookFrame = frames)
    (hlineage : (frames.map BookFrame.lineage).Nodup) (key : BookKey) :
    (sortFrames (typed.filter fun r => r.key = key)).map TypedFrame.toBookFrame =
      connectionFrames key frames := by
  have hfilter : (typed.filter fun r => r.key = key).map TypedFrame.toBookFrame =
      frames.filter fun f => f.key = key := by
    rw [← h, List.filter_map]
    rfl
  have hinj := sent_inj hlineage
  refine (sortOn_eq (fun f hf g hg => hinj f (List.mem_of_mem_filter hf) g
    (List.mem_of_mem_filter hg)) ?_ ?_).symm
  · rw [← hfilter]
    exact (sortOn_perm _ _).map _
  · rw [List.pairwise_map]
    refine (sortOn_pairwise TypedFrame.order _).imp_of_mem fun {a b} ha hb hab => ?_
    have hkey : ∀ r ∈ sortFrames (typed.filter fun r => r.key = key), r.key = key := fun r hr =>
      of_decide_eq_true (List.mem_filter.1 ((sortOn_perm _ _).mem_iff.1 hr)).2
    obtain ⟨hsymbol, hconn⟩ := Prod.mk.inj ((hkey a ha).trans (hkey b hb).symm)
    rw [TypedFrame.order, TypedFrame.order, hsymbol, hconn] at hab
    rcases Prod.Lex.le_iff.1 hab with h | ⟨_, h⟩
    · exact absurd h (lt_irrefl _)
    · rcases Prod.Lex.le_iff.1 h with h | ⟨_, h⟩
      · exact absurd h (lt_irrefl _)
      · exact h

theorem filter_connectionFrames {frames : List BookFrame}
    (hlineage : (frames.map BookFrame.lineage).Nodup) (key : BookKey) (p : BookFrame → Bool) :
    (connectionFrames key frames).filter p = connectionFrames key (frames.filter p) := by
  have hinj := sent_inj hlineage
  rw [connectionFrames, sortOn_filter fun f hf g hg => hinj f (List.mem_of_mem_filter hf) g
    (List.mem_of_mem_filter hg), connectionFrames, List.filter_filter, List.filter_filter]
  refine congrArg _ (List.filter_congr fun f _ => ?_)
  exact Bool.and_comm _ _

/-- Frames as one archive holds them, tick by tick. -/
structure Tidy (batches : List (List BookFrame)) : Prop where
  lineage : ∀ b ∈ batches, (b.map BookFrame.lineage).Nodup
  steady : Steady batches

theorem Tidy.pairwise {batches : List (List BookFrame)} (h : Tidy batches) {b : List BookFrame}
    (hb : b ∈ batches) (key : BookKey) :
    (connectionFrames key b).Pairwise fun f g => f.recvTsNs ≤ g.recvTsNs := by
  have hsteady := h.steady key
  rw [List.flatMap_def] at hsteady
  exact hsteady.sublist (List.sublist_flatten_of_mem (List.mem_map_of_mem hb))

/-- The turns of the frames received before the end of a second. -/
theorem early_turns {batches : List (List TypedFrame)}
    (h : Tidy (batches.map fun b => b.map TypedFrame.toBookFrame)) (key : BookKey) (s : Int) :
    ((turnsOf key batches).filter fun i => bookSampler.period i ≤ s).map
        (fun i => (i.1, i.2.payload)) =
      ((batches.map fun b => b.map TypedFrame.toBookFrame).map fun b =>
        b.filter fun f => f.recvTsNs < (s + 1) * NS).flatMap fun b =>
          (turns (connectionFrames key b)).map fun i => (i.1, i.2.payload) := by
  rw [turnsOf, List.filter_flatMap, List.map_flatMap, List.map_map, List.flatMap_map]
  refine List.flatMap_congr fun typed htyped => ?_
  have hmem := List.mem_map_of_mem (f := fun b : List TypedFrame => b.map TypedFrame.toBookFrame)
    htyped
  have hlineage := h.lineage _ hmem
  have hframes := map_sortFrames rfl hlineage key
  have hsorted := h.pairwise hmem key
  rw [← hframes, List.pairwise_map] at hsorted
  -- a frame is of the second or an earlier one when it is received before the second ends
  have hearly : (fun i : Turn => decide (bookSampler.period i ≤ s)) =
      fun i : Turn => decide (i.2.recvTsNs < (s + 1) * NS) := by
    funext i
    refine decide_eq_decide.2 ?_
    show i.2.recvTsNs / NS ≤ s ↔ _
    unfold NS
    omega
  rw [hearly, filter_turns (p := fun r : TypedFrame => decide (r.recvTsNs < (s + 1) * NS)),
    map_turns fun r : TypedFrame => r.payload]
  · show _ = (turns (connectionFrames key ((typed.map TypedFrame.toBookFrame).filter fun f =>
      f.recvTsNs < (s + 1) * NS))).map fun i => (i.1, i.2.payload)
    rw [map_turns BookFrame.payload, ← filter_connectionFrames hlineage, ← hframes,
      List.filter_map, List.map_map]
    rfl
  · refine hsorted.imp fun {a b} hab hb => ?_
    have hb : b.recvTsNs < (s + 1) * NS := of_decide_eq_true hb
    exact decide_eq_true (lt_of_le_of_lt hab hb)

theorem map_snd_turns {α : Type} (l : List α) : (turns l).map Prod.snd = l := by
  cases l with
  | nil => rfl
  | cons a l =>
    rw [turns, List.map_cons, List.map_map]
    exact congrArg (a :: ·) (List.map_id l)

theorem steady_turns {batches : List (List TypedFrame)}
    (h : Tidy (batches.map fun b => b.map TypedFrame.toBookFrame)) (key : BookKey) :
    (turnsOf key batches).Pairwise fun i j => bookSampler.period i ≤ bookSampler.period j := by
  have hframes : (turnsOf key batches).map (fun i => i.2.toBookFrame) =
      (batches.map fun b => b.map TypedFrame.toBookFrame).flatMap (connectionFrames key) := by
    rw [turnsOf, List.map_flatMap, List.flatMap_map]
    refine List.flatMap_congr fun typed htyped => ?_
    rw [← map_sortFrames rfl (h.lineage _ (List.mem_map_of_mem htyped)) key,
      ← map_snd_turns (sortFrames _), List.map_map, map_snd_turns]
    rfl
  have hsteady := h.steady key
  rw [← hframes, List.pairwise_map] at hsteady
  refine hsteady.imp fun {i j} hij => ?_
  exact Int.ediv_le_ediv (by decide) hij

/-- **The levels of a second** are those of the book after the frames of the second and before. -/
theorem levels_of_second {batches : List (List TypedFrame)} {books : List BookRow}
    (h : ReplaysTo floatDigits v (fun _ => none) batches books)
    (htidy : Tidy (batches.map fun b => b.map TypedFrame.toBookFrame)) (key : BookKey) (s : Int) :
    ((booksOf v key books).filter fun r => r.second = s) = [] ∨
      ∃ b, bookThrough key ((batches.map fun b => b.map TypedFrame.toBookFrame).map fun b =>
          b.filter fun f => f.recvTsNs < (s + 1) * NS) = some b ∧
        ((booksOf v key books).filter fun r => r.second = s).map (fun r => r.levels) =
          [b.topLevels] := by
  have hrows : (((booksOf v key books).filter fun r => r.second = s).map BookRow.sampled) =
      (Mealy.run bookSampler.step none (turnsOf key batches)).2.filter fun o => o.1 = s := by
    rw [← h.sampled_all key, List.filter_map]
    rfl
  have hfold : ((turnsOf key batches).filter fun i => bookSampler.period i ≤ s).foldl
      bookSampler.hold none = bookThrough key ((batches.map fun b =>
        b.map TypedFrame.toBookFrame).map fun b => b.filter fun f => f.recvTsNs < (s + 1) * NS) := by
    rw [bookThrough, ← early_turns htidy, List.foldl_map]
    refine congrArg (fun f => List.foldl f none _) (funext fun b => funext fun i => ?_)
    exact hold_bookSampler b i
  rcases bookSampler.samples_of s (steady_turns htidy key) none with hnone | ⟨i, _, b, hb, hone⟩
  · rw [hnone, List.map_eq_nil_iff] at hrows
    exact Or.inl hrows
  · refine Or.inr ⟨b, hfold.symm.trans hb, ?_⟩
    rw [hone] at hrows
    have hlevels := congrArg (List.map fun o : Int × (String × TopLevels) => o.2.2) hrows
    rw [List.map_map] at hlevels
    exact hlevels

/-- Batches that are empty do not show. -/
theorem flatMap_nonempty {α β : Type} {f : List α → List β} (hnil : f [] = [])
    (batches : List (List α)) :
    (batches.filter fun b => !b.isEmpty).flatMap f = batches.flatMap f := by
  induction batches with
  | nil => rfl
  | cons b batches ih =>
    cases b with
    | nil =>
      rw [List.flatMap_cons, hnil, List.nil_append, ← ih]
      rfl
    | cons x b =>
      have hkept : (!(x :: b).isEmpty) = true := rfl
      rw [List.filter_cons, if_pos hkept, List.flatMap_cons, List.flatMap_cons, ih]

theorem bookThrough_nonempty (key : BookKey) (batches : List (List BookFrame)) :
    bookThrough key (batches.filter fun b => !b.isEmpty) = bookThrough key batches := by
  rw [bookThrough, flatMap_nonempty rfl, bookThrough]

/-! ## What the runs of a venue type -/

theorem typed_of_writes {ticks : List BookTick} {states : BookKey → Option StateRow}
    {books : List BookRow} (h : WritesTo floatDigits v states ticks books) :
    ∀ tick ∈ ticks, tick.typedOf v =
      (tick.arrived v).map fun f => f.typed (tick.nameOf v f.symbol) := by
  induction h with
  | nil states =>
    intro tick htick
    cases htick
  | cons run quiet rest ih => exact List.forall_mem_cons.2 ⟨typed_of_process run, ih⟩

end Ticks

end K2.Lake

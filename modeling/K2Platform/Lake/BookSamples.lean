import K2Platform.Lake.HeldBook
import K2Platform.Lib.Sampler

/-!
# The replay of a connection as a sampler

Of what the replay of a connection knows, the rows of `gold.book_top20` show the book and the second
that is due next.  With these it is a sampler of the book, once per second; that a state row keeps
the best `STATE_LEVELS` of each side is part of what the first frame of a tick makes of the book.

* `read_sampled` — a frame read is a step of the sampler.
* `run_sampled` — so is a tick, frame by frame.
-/

set_option autoImplicit false

namespace K2.Lake

/-! ## The sampler -/

/-- The levels of a row. -/
structure TopLevels where
  bidPxE8 : List Int
  bidQtyE8 : List Int
  askPxE8 : List Int
  askQtyE8 : List Int
  deriving DecidableEq, Repr

def BookTop20.levels (r : BookTop20) : TopLevels := ⟨r.bidPxE8, r.bidQtyE8, r.askPxE8, r.askQtyE8⟩

def Book.topLevels (b : Book) : TopLevels :=
  let top := b.top TOP
  ⟨top.1.map Prod.fst, top.1.map Prod.snd, top.2.map Prod.fst, top.2.map Prod.snd⟩

theorem Book.topLevels_truncate (b : Book) :
    (b.truncate STATE_LEVELS).topLevels = b.topLevels := by
  have hle : TOP ≤ STATE_LEVELS := by decide
  rw [topLevels, topLevels, top_of_truncate b hle]

/-- A frame, and whether it is the first of its connection in its tick. -/
abbrev Turn := Bool × TypedFrame

/-- The frames of a connection that a tick reads. -/
def turns {α : Type} : List α → List (Bool × α)
  | [] => []
  | r :: rows => (true, r) :: rows.map fun r => (false, r)

/-- The book at the turn of a frame. -/
def Book.atTurn (b : Book) (first : Bool) : Book := if first then b.truncate STATE_LEVELS else b

def bookSampler : Sampler Turn Book (String × TopLevels) where
  period i := i.2.recvTsNs / NS
  start i := if i.2.payload.isSnapshot then some (i.2.payload.foldInto Book.empty) else none
  update i b := i.2.payload.foldInto (b.atTurn i.1)
  sample i b := (i.2.canonicalSymbol, b.topLevels)

/-- The row as a sample. -/
def BookRow.sampled (r : BookRow) : Int × (String × TopLevels) :=
  (r.second, (r.canonicalSymbol, r.levels))

/-- The carry as the state of the sampler. -/
def Carry.state (c : Carry) : Sampler.State Book := c.next.map fun sec => (sec / NS, c.book)

def Carry.atTurn (c : Carry) (first : Bool) : Carry := if first then c.truncate STATE_LEVELS else c

theorem Carry.next_atTurn (c : Carry) (first : Bool) : (c.atTurn first).next = c.next := by
  cases first with
  | false => rfl
  | true => exact c.next_truncate STATE_LEVELS

theorem Carry.book_atTurn (c : Carry) (first : Bool) :
    (c.atTurn first).book = c.book.atTurn first := by
  cases first with
  | false => rfl
  | true => exact c.book_truncate STATE_LEVELS

theorem Carry.Sound.atTurn {c : Carry} (h : c.Sound) (first : Bool) : (c.atTurn first).Sound := by
  cases first with
  | false => exact h
  | true => exact h.truncate STATE_LEVELS

theorem Book.topLevels_atTurn (b : Book) (first : Bool) : (b.atTurn first).topLevels = b.topLevels := by
  cases first with
  | false => rfl
  | true => exact b.topLevels_truncate

/-! ## One frame -/

section Read

variable (run : ReplayRun)

theorem books_verdicts (r : TypedFrame) (ok : Option Bool) :
    (r.verdicts ok).filterMap Emission.book? = [] := by
  unfold TypedFrame.verdicts
  split <;> rfl

theorem books_read (st : Running) (r : TypedFrame) :
    (st.read run r).2.filterMap Emission.book? = (st.flush run r.recvTsNs).2 := by
  have hrows : ∀ rows : List BookRow, (rows.map Emission.book).filterMap Emission.book? = rows := by
    intro rows
    rw [List.filterMap_map]
    exact List.filterMap_some
  unfold Running.read
  simp only
  split
  · rw [List.filterMap_append, hrows, books_verdicts, List.append_nil]
  · rw [List.filterMap_append, hrows, books_verdicts, List.append_nil]

theorem held_of_next {st : Running} {sec : Int} (h : st.clock.next = some sec) :
    st.held = some st.book := by
  rw [Running.held, if_pos (Clock.live_iff_next.2 ⟨sec, h⟩)]

theorem held_of_idle {st : Running} (h : st.clock.next = none) : st.held = none := by
  rw [Running.held, Clock.eq_idle_of_next h]
  rfl

/-- The seconds that are due, as periods. -/
theorem secondsUpTo_div {sec : Int} (hsec : NS ∣ sec) (ns : Int) :
    (secondsUpTo sec (secondOf ns)).map (fun s => s / NS) =
      Sampler.periodsUpTo (sec / NS) (ns / NS) := by
  obtain ⟨q, rfl⟩ := hsec
  have hcount : (secondOf ns - NS * q + (NS - 1)) / NS = ns / NS - NS * q / NS := by
    unfold secondOf NS
    omega
  rw [secondsUpTo, Sampler.periodsUpTo, hcount, List.map_map]
  refine List.map_congr_left fun n _ => ?_
  show (NS * q + NS * n) / NS = NS * q / NS + n
  unfold NS
  omega

theorem max_div {sec : Int} (hsec : NS ∣ sec) (ns : Int) :
    max sec (secondOf ns) / NS = max (sec / NS) (ns / NS) := by
  obtain ⟨q, rfl⟩ := hsec
  unfold secondOf NS
  omega

end Read

section Machine

variable (floatDigits : Int → Int → String) (v : Exchange)

/-- **A frame read** is a step of the sampler. -/
theorem read_sampled {c : Carry} (hsound : c.Sound) (first : Bool) {x : Reading}
    (hclock : NS ≤ x.1.recvTsNs) :
    ((c.atTurn first).read v floatDigits x).1.Sound ∧
      ((c.atTurn first).read v floatDigits x).1.state =
        (bookSampler.step c.state (first, x.1)).1 ∧
      (((c.atTurn first).read v floatDigits x).2.filterMap Emission.book?).map BookRow.sampled =
        (bookSampler.step c.state (first, x.1)).2 := by
  set run := Reading.replayRun v floatDigits x
  set st := (c.atTurn first).running x.1 with hst
  have hcarry : st.carry = c.atTurn first := Carry.carry_running _ _
  have hsound' : st.carry.Sound := by
    rw [hcarry]
    exact hsound.atTurn first
  have hnext : st.clock.next = c.next := by
    rw [← c.next_atTurn first, ← hcarry]
    rfl
  have hbook : st.book = c.book.atTurn first := c.book_atTurn first
  have hheld := held_read run st x.1
  refine ⟨Running.read_sound run hsound' hclock, ?_, ?_⟩
  · show ((st.read run x.1).1.clock.next.map fun sec => (sec / NS, (st.read run x.1).1.book)) = _
    cases hsec : c.next with
    | none =>
      have hidle : st.clock.next = none := hnext.trans hsec
      rw [Carry.state, hsec, Option.map_none]
      simp only [Sampler.step, bookSampler]
      cases hsnap : x.1.payload.isSnapshot with
      | false =>
        rw [Running.read_idle run hidle hsnap, hidle]
        rfl
      | true =>
        have hafter := (Running.next_read_snapshot run hidle hsnap).2
        rw [held_of_next hafter, held_of_idle hidle, heldStep, if_pos hsnap] at hheld
        rw [hafter, Option.some.inj hheld]
        simp only [Option.map_some, if_true]
        rw [secondOf, Int.mul_ediv_cancel _ (by decide)]
    | some sec =>
      have hdue : st.clock.next = some sec := hnext.trans hsec
      have hwhole := (hsound.due sec hsec).1
      have hafter := (Running.next_read_live run hdue hwhole x.1).2
      rw [held_of_next hafter, held_of_next hdue, heldStep] at hheld
      rw [Carry.state, hsec, hafter, Option.some.inj hheld, hbook]
      simp only [Option.map_some, Sampler.step, bookSampler, max_div hwhole.whole]
  · show ((st.read run x.1).2.filterMap Emission.book?).map BookRow.sampled = _
    rw [books_read]
    cases hsec : c.next with
    | none =>
      have hidle : st.clock.next = none := hnext.trans hsec
      rw [Running.flush_of_idle hidle, Carry.state, hsec]
      rfl
    | some sec =>
      have hdue : st.clock.next = some sec := hnext.trans hsec
      have hwhole := (hsound.due sec hsec).1
      rw [Running.flush_of_due hdue hwhole, Carry.state, hsec]
      simp only [Option.map_some, Sampler.step, bookSampler]
      rw [← secondsUpTo_div hwhole.whole, List.map_map, List.map_map]
      refine List.map_congr_left fun s _ => ?_
      show (s / NS, (st.canonicalSymbol, st.book.topLevels)) = _
      rw [hbook, Book.topLevels_atTurn]
      rfl

theorem run_sampled {xs : List Reading} (hclock : ∀ x ∈ xs, NS ≤ x.1.recvTsNs) {c : Carry}
    (hsound : c.Sound) :
    let q := Mealy.run (Carry.read v floatDigits) c xs
    q.1.Sound ∧ Mealy.run bookSampler.step c.state (xs.map fun x => (false, x.1)) =
      (q.1.state, (q.2.filterMap Emission.book?).map BookRow.sampled) := by
  induction xs generalizing c with
  | nil => exact ⟨hsound, rfl⟩
  | cons x xs ih =>
    obtain ⟨hx, hxs⟩ := List.forall_mem_cons.1 hclock
    obtain ⟨hsound', hstate, hrows⟩ := read_sampled floatDigits v hsound false hx
    obtain ⟨hend, hrest⟩ := ih hxs hsound'
    refine ⟨hend, ?_⟩
    rw [List.map_cons, Mealy.run_cons, Mealy.run_cons, ← hstate, ← hrows]
    have hturn : c.atTurn false = c := rfl
    rw [hturn] at hrest ⊢
    rw [hrest, List.filterMap_append, List.map_append]

/-- **A tick**, frame by frame. -/
theorem tick_sampled {xs : List Reading} (hclock : ∀ x ∈ xs, NS ≤ x.1.recvTsNs) (hxs : xs ≠ [])
    {c : Carry} (hsound : c.Sound) :
    let q := Mealy.run (Carry.read v floatDigits) (c.truncate STATE_LEVELS) xs
    q.1.Sound ∧ Mealy.run bookSampler.step c.state (turns (xs.map Prod.fst)) =
      (q.1.state, (q.2.filterMap Emission.book?).map BookRow.sampled) := by
  cases xs with
  | nil => exact absurd rfl hxs
  | cons x xs =>
    obtain ⟨hx, hxs⟩ := List.forall_mem_cons.1 hclock
    obtain ⟨hsound', hstate, hrows⟩ := read_sampled floatDigits v hsound true hx
    obtain ⟨hend, hrest⟩ := run_sampled floatDigits v hxs hsound'
    have hturn : c.atTurn true = c.truncate STATE_LEVELS := rfl
    rw [hturn] at hstate hrows hrest hend
    rw [Mealy.run_cons (Carry.read v floatDigits)]
    refine ⟨hend, ?_⟩
    rw [List.map_cons, turns, List.map_map, Mealy.run_cons, ← hstate, ← hrows]
    have hlist : (xs.map ((fun r => (false, r)) ∘ Prod.fst)) = xs.map fun x => (false, x.1) := rfl
    rw [hlist, hrest, List.filterMap_append, List.map_append]

end Machine

/-! ## The replay of a tick -/

section Replayed

variable {floatDigits : Int → Int → String} {tick : BookTick} {v : Exchange} {table : StateTable}
  {typed : List TypedFrame} {key : BookKey}

/-- The rows of a connection. -/
def booksOf (v : Exchange) (key : BookKey) (books : List BookRow) : List BookRow :=
  books.filter fun r => r.exchange = v.name ∧ (r.symbol, r.connId) = key

/-- **What a tick appends for a connection** is what its frames make the sampler take, and the state
    row that it leaves is read back as the sampler's state. -/
theorem replayed_sampled (hb : TypedBatch v typed)
    (hraised : (replayed floatDigits tick v table typed).any Emission.raised = false) {c : Carry}
    (hsound : c.Sound) (hprev : (statesOf v table key).map StateRow.timeless = c.stateRow v key) :
    let out := replayed floatDigits tick v table typed
    ∃ c' : Carry, c'.Sound ∧
      (statesOf v (mergeState table (out.filterMap Emission.state?)) key).map StateRow.timeless =
        c'.stateRow v key ∧
      Mealy.run bookSampler.step c.state (turns (sortFrames (typed.filter fun r => r.key = key))) =
        (c'.state, (booksOf v key (out.filterMap Emission.book?)).map BookRow.sampled) := by
  intro out
  have hwalk := hb.filter_replay hraised hsound hprev
  have hframes := frames_ofConnection (replayRun floatDigits tick v) typed key
  have hclock : ∀ x ∈ ofConnection key (typed.map (replayRun floatDigits tick v).reading),
      NS ≤ x.1.recvTsNs := by
    intro x hx
    obtain ⟨r, hr, rfl⟩ := List.mem_map.1 (mem_ofConnection hx)
    exact hb.clock r hr
  have hbooks := congrArg (List.map BookRow.sampled) (books_of_walk hwalk)
  rw [List.map_map] at hbooks
  have hprev' : (statesOf v table key).map StateRow.timeless =
      (c.truncate STATE_LEVELS).stateRow v key := by
    rw [hprev, c.stateRow_truncate le_rfl]
  have hstate := state_of_walk hclock (hsound.truncate STATE_LEVELS) hprev' hwalk
  rw [← hframes]
  by_cases hnone : ofConnection key (typed.map (replayRun floatDigits tick v).reading) = []
  · rw [hnone] at hbooks hstate ⊢
    refine ⟨c, hsound, ?_, ?_⟩
    · rw [← c.stateRow_truncate le_rfl]
      exact hstate
    · exact Prod.ext rfl hbooks.symm
  · obtain ⟨hend, hrun⟩ := tick_sampled floatDigits v hclock hnone hsound
    refine ⟨_, hend, hstate, hrun.trans ?_⟩
    exact Prod.ext rfl hbooks.symm

end Replayed

end K2.Lake

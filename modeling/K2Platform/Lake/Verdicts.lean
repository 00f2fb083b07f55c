import K2Platform.Lake.GoldSamples

/-!
# The verdicts of a Kraken connection

A Kraken book never has more levels than a state row keeps, so what the replay decides on a
connection's frames is decided by the frames and the precisions they are checked at, wherever the
ticks are cut.

* `checkStep` — one frame: the book that is held with the frame folded in, and what its checksum
  says of that book.
* `process_checked` — what a run writes to `silver.book_kraken`, connection by connection.
-/

set_option autoImplicit false

namespace K2.Lake

/-! ## The check -/

/-- A frame, and the precision it is checked at. -/
abbrev Checked := BookFrame × Option Precision

section Check

variable (floatDigits : Int → Int → String)

def checksumAt (x : Checked) (b : Book) : Option Bool :=
  match x.1.payload with
  | .kraken _ _ _ checksum _ => x.2.map fun prec =>
    krakenChecksum floatDigits (b.top CHECKSUM_LEVELS).2 (b.top CHECKSUM_LEVELS).1 prec = checksum
  | .coinbase .. => none

def checkStep (held : Option Book) (x : Checked) : Option Book × List (BookFrame × Option Bool) :=
  let next := heldStep held x.1.payload
  (next, [(x.1, next.bind (checksumAt floatDigits x))])

/-- Every frame has one verdict. -/
theorem frames_checked (held : Option Book) (xs : List Checked) :
    (Mealy.run (checkStep floatDigits) held xs).2.map Prod.fst = xs.map Prod.fst := by
  induction xs generalizing held with
  | nil => rfl
  | cons x xs ih =>
    rw [Mealy.run_cons, List.map_append, ih]
    rfl

/-- What is decided stays so, whatever follows. -/
theorem checked_append {held : Option Book} {xs ys : List Checked} {o : BookFrame × Option Bool}
    (h : o ∈ (Mealy.run (checkStep floatDigits) held xs).2) :
    o ∈ (Mealy.run (checkStep floatDigits) held (xs ++ ys)).2 := by
  rw [Mealy.run_append]
  exact List.mem_append_left _ h

end Check

/-! ## The replay of Kraken's frames -/

def Carry.held (c : Carry) : Option Book := c.next.map fun _ => c.book

theorem held_running (c : Carry) (r : TypedFrame) : (c.running r).held = c.held := by
  obtain ⟨folded, next⟩ := c
  cases next <;> rfl

theorem held_carry (st : Running) : st.carry.held = st.held := by
  unfold Running.held Running.carry Carry.held
  cases st.clock <;> rfl

theorem Book.Within.mono {m n : Nat} {b : Book} (h : b.Within m) (hle : m ≤ n) : b.Within n :=
  ⟨h.bids.trans hle, h.asks.trans hle⟩

theorem foldInto_within {p : Payload} (h : p.exchange = .kraken) (b : Book) :
    (p.foldInto b).Within KRAKEN_DEPTH := by
  cases p with
  | kraken frameType bids asks checksum exchangeTs => exact krakenApply_within _ _ _ _ _
  | coinbase => cases h

section Read

variable {floatDigits : Int → Int → String}

/-- The frame as it is checked. -/
def Reading.checked (x : Reading) : Checked := (x.1.toBookFrame, x.2)

theorem read_checked (c : Carry) {x : Reading} (h : x.1.payload.exchange = .kraken) :
    (c.read .kraken floatDigits x).1.held = (checkStep floatDigits c.held x.checked).1 ∧
      ((c.read .kraken floatDigits x).2.filterMap Emission.verdict?).map
          (fun o => (o.1.toBookFrame, o.2)) =
        (checkStep floatDigits c.held x.checked).2 := by
  set run := Reading.replayRun .kraken floatDigits x
  have hheld := held_read run (c.running x.1) x.1
  have hflags := verdicts_read run (c.running x.1) h
  rw [held_running] at hheld hflags
  constructor
  · show ((c.running x.1).read run x.1).1.carry.held = _
    rw [held_carry, hheld]
    rfl
  · have hframes := verdict?_run floatDigits .kraken (show ∀ y ∈ [x], _ by simpa using h) c
    rw [Mealy.run_singleton] at hframes
    have hflags : ((c.read .kraken floatDigits x).2.filterMap Emission.verdict?).map Prod.snd =
        [(heldStep c.held x.1.payload).bind (x.1.checksumOk run)] := hflags
    have hcheck : x.1.checksumOk run = checksumAt floatDigits x.checked := by
      funext b
      unfold TypedFrame.checksumOk checksumAt
      rfl
    rw [hcheck] at hflags
    generalize (c.read .kraken floatDigits x).2.filterMap Emission.verdict? = out at hframes hflags
    obtain ⟨o, rfl, hframe⟩ := List.map_eq_singleton_iff.1 hframes
    have hflag := List.singleton_inj.1 hflags
    show [(o.1.toBookFrame, o.2)] = _
    rw [hframe, hflag]
    rfl

variable (floatDigits) in
theorem run_checked {xs : List Reading} (hxs : ∀ x ∈ xs, x.1.payload.exchange = .kraken)
    (c : Carry) :
    let q := Mealy.run (Carry.read .kraken floatDigits) c xs
    Mealy.run (checkStep floatDigits) c.held (xs.map Reading.checked) =
      (q.1.held, (q.2.filterMap Emission.verdict?).map fun o => (o.1.toBookFrame, o.2)) := by
  induction xs generalizing c with
  | nil => rfl
  | cons x xs ih =>
    obtain ⟨hx, hxs⟩ := List.forall_mem_cons.1 hxs
    obtain ⟨hheld, hout⟩ := read_checked c hx
    have hrest := ih hxs (c.read .kraken floatDigits x).1
    simp only
    rw [List.map_cons, Mealy.run_cons, Mealy.run_cons, ← hheld, hrest, ← hout,
      List.filterMap_append, List.map_append]

/-- A Kraken book is never cut short. -/
theorem read_within {c : Carry} (hc : c.book.Within KRAKEN_DEPTH) {x : Reading}
    (h : x.1.payload.exchange = .kraken) :
    (c.read .kraken floatDigits x).1.book.Within KRAKEN_DEPTH := by
  set run := Reading.replayRun .kraken floatDigits x
  have hbook := book_flush run (c.running x.1) x.1.recvTsNs
  show ((c.running x.1).read run x.1).1.book.Within KRAKEN_DEPTH
  unfold Running.read
  simp only
  split
  · show ((c.running x.1).flush run x.1.recvTsNs).1.book.Within KRAKEN_DEPTH
    rw [hbook]
    exact hc
  · show ((((c.running x.1).flush run x.1.recvTsNs).1).fold run x.1).book.Within KRAKEN_DEPTH
    rw [book_fold]
    exact foldInto_within h _

theorem run_within {xs : List Reading} (hxs : ∀ x ∈ xs, x.1.payload.exchange = .kraken) {c : Carry}
    (hc : c.book.Within KRAKEN_DEPTH) :
    (Mealy.run (Carry.read .kraken floatDigits) c xs).1.book.Within KRAKEN_DEPTH := by
  induction xs generalizing c with
  | nil => exact hc
  | cons x xs ih =>
    obtain ⟨hx, hxs⟩ := List.forall_mem_cons.1 hxs
    rw [Mealy.run_cons]
    exact ih hxs (read_within hc hx)

end Read

/-! ## One run -/

/-- A row without the time of the run and the name of the symbol. -/
def ReplayedRow.judged (r : ReplayedRow) : BookFrame × Option Bool := (r.toBookFrame, r.flag)

/-- The frames of a connection, as a run checks them. -/
def checksOf (precisions : String → Option Precision) (key : BookKey) (frames : List BookFrame) :
    List Checked := (connectionFrames key frames).map fun f => (f, precisions f.symbol)

/-- What `gold.book_state` has of Kraken's connections. -/
structure Carries (table : StateTable) (c : BookKey → Carry) : Prop where
  sound : ∀ key, (c key).Sound
  within : ∀ key, (c key).book.Within KRAKEN_DEPTH
  state : ∀ key, (statesOf .kraken table key).map StateRow.timeless = (c key).stateRow .kraken key

section Process

variable {floatDigits : Int → Int → String} {tick : BookTick} {table : StateTable}
  {frames : List BookFrame} {p : Processed .kraken}

/-- **What a run writes** to `silver.book_kraken` and to `gold.book_state`. -/
theorem process_checked (harchive : Archive .kraken frames) {c : BookKey → Carry}
    (hc : Carries table c) (hp : process floatDigits tick table .kraken frames = some p) :
    ∃ c', Carries (mergeState table p.states) c' ∧ ∀ key,
      ∃ out, Mealy.run (checkStep floatDigits) (c key).held (checksOf tick.precisions key frames) =
          ((c' key).held, out) ∧
        ((p.silver.filter fun r => r.key = key).map ReplayedRow.judged).Perm out := by
  obtain ⟨hone, hsilver⟩ := replays_kraken harchive hp
  have htyped : frames.filterMap (tick.type .kraken) =
      frames.map fun f => (⟨f, tick.nameOf .kraken f.symbol⟩ : TypedFrame) := typed_of_process hp
  revert hone hsilver htyped
  generalize frames.filterMap (tick.type .kraken) = typed
  rintro ⟨hbatch, hquiet, _, hstates⟩ hsilver htyped
  set run := replayRun floatDigits tick .kraken with hrun
  have hkraken : tick.precisionsOf .kraken = tick.precisions := if_pos rfl
  have hprec : run.precisions = tick.precisions := hkraken
  have hcut : ∀ key, (c key).truncate STATE_LEVELS = c key := fun key =>
    Carry.truncate_of_within ((hc.within key).mono (by decide))
  have hwalk : ∀ key, ((replayed floatDigits tick .kraken table typed).filter
      fun e => e.key = key).map Emission.timeless =
        (c key).walk .kraken floatDigits key (ofConnection key (typed.map run.reading)) := by
    intro key
    have hwalk := hbatch.filter_replay hquiet (hc.sound key) (hc.state key)
    rwa [hcut] at hwalk
  have hmem : ∀ key, ∀ x ∈ ofConnection key (typed.map run.reading),
      x.1.payload.exchange = .kraken ∧ NS ≤ x.1.recvTsNs := by
    intro key x hx
    obtain ⟨r, hr, rfl⟩ := List.mem_map.1 (mem_ofConnection hx)
    exact ⟨hbatch.payload r hr, hbatch.clock r hr⟩
  have hchecks : ∀ key, (ofConnection key (typed.map run.reading)).map Reading.checked =
      checksOf tick.precisions key frames := by
    intro key
    have hframes : typed.map TypedFrame.toBookFrame = frames := by
      rw [htyped, List.map_map]
      exact List.map_id _
    rw [checksOf, ← map_sortFrames hframes harchive.lineage key, ← TypedBatch.map_reading,
      List.map_map, List.map_map, ← hprec]
    rfl
  refine ⟨fun key => (Mealy.run (Carry.read .kraken floatDigits) (c key)
    (ofConnection key (typed.map run.reading))).1, ⟨fun key => ?_, fun key => ?_, fun key => ?_⟩,
    fun key => ?_⟩
  · exact Carry.run_sound (fun x hx => (hmem key x hx).2) (hc.sound key)
  · exact run_within (fun x hx => (hmem key x hx).1) (hc.within key)
  · rw [hstates]
    exact state_of_walk (fun x hx => (hmem key x hx).2) (hc.sound key) (hc.state key) (hwalk key)
  · have hrun := run_checked floatDigits (fun x hx => (hmem key x hx).1) (c key)
    rw [hchecks] at hrun
    refine ⟨_, hrun, ?_⟩
    have hperm := silver_checked hbatch hwalk tick.runTs key
    rw [← hsilver] at hperm
    have hjudged := hperm.map ReplayedRow.judged
    rw [List.map_map, silverRows, List.map_map] at hjudged
    exact hjudged

end Process

end K2.Lake

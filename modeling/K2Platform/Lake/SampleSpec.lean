import K2Platform.Lake.BookSamples

/-!
# What a partition is sampled to

A partition holds the frames of any number of connections, none of which was replayed before.  The
frames of a connection are live from its first snapshot on.

* `PerSecond` — one state row for a connection that becomes live, and one book row for every second
  from its first live frame up to its last frame.
* `replay_sampled_iff` — every connection is so sampled, and the generator does not raise, exactly
  when no connection but the last ends with the frame that makes it live.
-/

set_option autoImplicit false

namespace K2.Lake

/-! ## What is said of a connection -/

/-- The frames of a connection from its first snapshot on. -/
def liveFrames (key : BookKey) (rows : List TypedFrame) : List TypedFrame :=
  (rows.filter fun r => r.key = key).dropWhile fun r => !r.payload.isSnapshot

/-- The whole seconds from that of the first frame up to but excluding that of the last. -/
def secondsBetween (live : List TypedFrame) : List Int :=
  match live.head?, live.getLast? with
  | some first, some last => Sampler.periodsUpTo (first.recvTsNs / NS) (last.recvTsNs / NS)
  | _, _ => []

/-- The book after the frames received before the end of a second. -/
def bookAtEnd (live : List TypedFrame) (second : Int) : Book :=
  (live.filter fun r => r.recvTsNs < (second + 1) * NS).foldl (fun b r => r.payload.foldInto b)
    Book.empty

/-- What the generator yields for a connection. -/
def ofKey (key : BookKey) (out : List Emission) : List Emission := out.filter fun e => e.key = key

structure PerSecond (live : List TypedFrame) (out : List Emission) : Prop where
  states : (out.filterMap Emission.state?).length = if live.isEmpty then 0 else 1
  books : (out.filterMap Emission.book?).map (fun row => (row.second, row.levels)) =
    (secondsBetween live).map fun second => (second, (bookAtEnd live second).topLevels)

/-! ## The replay of one connection as a sampler -/

/-- The sampler of a connection that is replayed from nothing. -/
def liveSampler : Sampler TypedFrame Book TopLevels where
  period r := r.recvTsNs / NS
  start r := if r.payload.isSnapshot then some (r.payload.foldInto Book.empty) else none
  update r b := r.payload.foldInto b
  sample _ b := b.topLevels

def Running.due (st : Running) : Sampler.State Book :=
  st.clock.next.map fun sec => (sec / NS, st.book)

/-- The samples that a list of emissions holds. -/
def samples (out : List Emission) : List (Int × TopLevels) :=
  (out.filterMap Emission.book?).map fun row => (row.second, row.levels)

theorem samples_append (out out' : List Emission) :
    samples (out ++ out') = samples out ++ samples out' := by
  simp [samples]

section Connection

variable (run : ReplayRun)

/-- A frame read is a step of the sampler. -/
theorem read_live {st : Running} (hsound : st.carry.Sound) (r : TypedFrame) :
    (st.read run r).1.due = (liveSampler.step st.due r).1 ∧
      samples (st.read run r).2 = (liveSampler.step st.due r).2 := by
  have hheld := held_read run st r
  have hsamples : samples (st.read run r).2 =
      (st.flush run r.recvTsNs).2.map fun row => (row.second, row.levels) := by
    rw [samples, books_read]
  rw [hsamples]
  cases hsec : st.clock.next with
  | none =>
    have hidle : st.due = none := by
      rw [Running.due, hsec]
      rfl
    rw [hidle, Running.flush_of_idle hsec]
    refine ⟨?_, rfl⟩
    cases hsnap : r.payload.isSnapshot with
    | false =>
      rw [Running.read_idle run hsec hsnap, hidle]
      simp [Sampler.step, liveSampler, hsnap]
    | true =>
      have hafter := (Running.next_read_snapshot run hsec hsnap).2
      rw [held_of_next hafter, held_of_idle hsec, heldStep, if_pos hsnap] at hheld
      rw [Running.due, hafter, Option.some.inj hheld]
      simp only [Sampler.step, liveSampler, hsnap, if_true, Option.map_some]
      rw [secondOf, Int.mul_ediv_cancel _ (by decide)]
  | some sec =>
    have hdue : st.due = some (sec / NS, st.book) := by
      rw [Running.due, hsec]
      rfl
    have hwhole := (hsound.due sec hsec).1
    have hafter := (Running.next_read_live run hsec hwhole r).2
    rw [held_of_next hafter, held_of_next hsec, heldStep] at hheld
    rw [hdue, Running.flush_of_due hsec hwhole, Running.due, hafter, Option.some.inj hheld]
    simp only [Sampler.step, liveSampler, Option.map_some, max_div hwhole.whole, true_and]
    rw [← secondsUpTo_div hwhole.whole, List.map_map, List.map_map]
    rfl

/-- So are the frames of a connection. -/
theorem run_live {rows : List TypedFrame} (hepoch : ∀ r ∈ rows, NS ≤ r.recvTsNs) {st : Running}
    (hsound : st.carry.Sound) :
    (Mealy.run (Running.read run) st rows).1.carry.Sound ∧
      Mealy.run liveSampler.step st.due rows =
        ((Mealy.run (Running.read run) st rows).1.due,
          samples (Mealy.run (Running.read run) st rows).2) := by
  induction rows generalizing st with
  | nil => exact ⟨hsound, rfl⟩
  | cons r rows ih =>
    obtain ⟨hr, hrows⟩ := List.forall_mem_cons.1 hepoch
    obtain ⟨hstate, hsample⟩ := read_live run hsound r
    obtain ⟨hend, hrest⟩ := ih hrows (Running.read_sound run hsound hr)
    refine ⟨hend, ?_⟩
    rw [Mealy.run_cons, Mealy.run_cons, ← hstate, hrest, samples_append, hsample]

/-! ## The clock -/

variable {run} in
theorem clock_read {st : Running} {sec : Int} (h : st.clock.next = some sec) (hdue : Due sec)
    (r : TypedFrame) :
    (st.read run r).1.clock = .emitted (max sec (secondOf r.recvTsNs) - NS) := by
  rw [Running.read, Running.flush_of_due h hdue]
  simp only [Clock.live, Bool.not_true, Bool.false_and, Bool.false_eq_true, if_false,
    Running.touch, Running.clock_fold, if_true]

/-- A second is out once a live connection has read a frame. -/
theorem clock_run {rows : List TypedFrame} (hepoch : ∀ r ∈ rows, NS ≤ r.recvTsNs)
    (hrows : rows ≠ []) {st : Running} (hsound : st.carry.Sound) (hlive : st.clock.live = true) :
    ∃ lastSecondNs, (Mealy.run (Running.read run) st rows).1.clock = .emitted lastSecondNs := by
  induction rows generalizing st with
  | nil => exact absurd rfl hrows
  | cons r rows ih =>
    obtain ⟨hr, hepoch⟩ := List.forall_mem_cons.1 hepoch
    obtain ⟨sec, hsec⟩ := Clock.live_iff_next.1 hlive
    have hclock : (st.read run r).1.clock = _ := clock_read hsec (hsound.due sec hsec).1 r
    rw [Mealy.run_cons]
    by_cases hnone : rows = []
    · rw [hnone]
      exact ⟨_, hclock⟩
    · exact ih hepoch hnone (Running.read_sound run hsound hr) (by rw [hclock]; rfl)

/-- What the clock of a connection says of its live frames. -/
structure ClockOf (live : List TypedFrame) (c : Clock) : Prop where
  idle : live = [] → c = .idle
  started : live.length = 1 → ∃ firstNs, c = .started firstNs
  emitted : 1 < live.length → ∃ lastSecondNs, c = .emitted lastSecondNs

theorem clockOf_run {rows : List TypedFrame} (hepoch : ∀ r ∈ rows, NS ≤ r.recvTsNs) {st : Running}
    (hsound : st.carry.Sound) (hidle : st.clock = .idle) :
    ClockOf (rows.dropWhile fun r => !r.payload.isSnapshot)
      (Mealy.run (Running.read run) st rows).1.clock := by
  induction rows generalizing st with
  | nil =>
    refine ⟨fun _ => hidle, ?_, ?_⟩
    · intro hone
      cases hone
    · intro htwo
      exact absurd htwo (Nat.not_lt_zero 1)
  | cons r rows ih =>
    obtain ⟨hr, hepoch⟩ := List.forall_mem_cons.1 hepoch
    have hnext : st.clock.next = none := by
      rw [hidle]
      rfl
    rw [Mealy.run_cons]
    cases hsnap : r.payload.isSnapshot with
    | false =>
      rw [List.dropWhile_cons_of_pos (by rw [hsnap]; rfl), Running.read_idle run hnext hsnap]
      exact ih hepoch hsound hidle
    | true =>
      rw [List.dropWhile_cons_of_neg (by rw [hsnap]; exact Bool.false_ne_true)]
      have hstart : (st.read run r).1.clock = .started r.recvTsNs := by
        rw [Running.read, Running.flush_of_idle hnext]
        simp only [hsnap, Bool.not_true, Bool.and_false, Bool.false_eq_true, if_false,
          Running.touch, Running.clock_fold, hidle, Clock.live]
      refine ⟨fun hnil => absurd hnil (List.cons_ne_nil r rows), fun hone => ?_, fun htwo => ?_⟩
      · have hnil : rows = [] := List.length_eq_zero_iff.1 (Nat.succ.inj hone)
        rw [hnil]
        exact ⟨_, hstart⟩
      · refine clock_run run hepoch (fun hnil => ?_) (Running.read_sound run hsound hr)
          (by rw [hstart]; rfl)
        rw [hnil] at htwo
        exact absurd htwo (Nat.lt_irrefl 1)

/-! ## The end of a connection -/

variable {run}

theorem endBefore_idle {st : Running} (h : st.clock = .idle) (rest : List TypedFrame) :
    st.endBefore run rest = [] := by
  unfold Running.endBefore Running.finish Running.leave
  simp [h, Clock.live]

/-- A connection that another follows has no last second if its last frame made it live. -/
theorem endBefore_started {st : Running} {firstNs : Int} (h : st.clock = .started firstNs)
    {rest : List TypedFrame} (hrest : rest ≠ []) :
    st.endBefore run rest = [.state (.error st.key)] := by
  unfold Running.endBefore Running.leave Running.stateRow
  simp [h, Clock.live, hrest]

theorem leave_emitted {st : Running} {lastSecondNs : Int} (h : st.clock = .emitted lastSecondNs) :
    ∃ row, st.leave run = [.state (.ok row)] := by
  unfold Running.leave Running.stateRow
  simp [h, Clock.live]

/-- The last connection is brought up to its last frame, to which it is already. -/
theorem finish_live {st : Running} (hsound : st.carry.Sound) (hlive : st.clock.live = true) :
    ∃ row, st.finish run = [.state (.ok row)] := by
  obtain ⟨sec, hsec⟩ := Clock.live_iff_next.1 hlive
  obtain ⟨hdue, hpast⟩ := hsound.due sec hsec
  have hpast : secondOf st.recvTsNs ≤ sec := hpast
  unfold Running.finish
  rw [if_pos hlive, Running.flush_of_due hsec hdue, secondsUpTo_eq_nil hpast]
  simp only [List.map_nil, List.nil_append]
  exact leave_emitted rfl

end Connection

/-! ## The samples of a connection -/

theorem run_before_snapshot (rows : List TypedFrame) :
    Mealy.run liveSampler.step none rows =
      Mealy.run liveSampler.step none (rows.dropWhile fun r => !r.payload.isSnapshot) := by
  induction rows with
  | nil => rfl
  | cons r rows ih =>
    cases hsnap : r.payload.isSnapshot with
    | false =>
      have hstep : liveSampler.step none r = (none, []) := by
        simp [Sampler.step, liveSampler, hsnap]
      rw [List.dropWhile_cons_of_pos (by rw [hsnap]; rfl), Mealy.run_cons, hstep, ih]
      rfl
    | true => rw [List.dropWhile_cons_of_neg (by rw [hsnap]; exact Bool.false_ne_true)]

theorem lastPeriod_cons (r : TypedFrame) (rows : List TypedFrame) :
    liveSampler.lastPeriod (r.recvTsNs / NS) rows =
      ((r :: rows).getLast (List.cons_ne_nil r rows)).recvTsNs / NS := by
  induction rows generalizing r with
  | nil => rfl
  | cons r' rows ih =>
    rw [List.getLast_cons_cons]
    exact ih r'

theorem lt_end_iff (recvTsNs second : Int) : recvTsNs < (second + 1) * NS ↔ recvTsNs / NS ≤ second := by
  unfold NS
  omega

/-- **The samples of a connection**: one for every second from that of its first live frame up to
    but excluding that of its last. -/
theorem samples_of_live {live : List TypedFrame}
    (hclock : live.Pairwise fun r r' => r.recvTsNs ≤ r'.recvTsNs)
    (hhead : ∀ r ∈ live.head?, r.payload.isSnapshot = true) :
    (Mealy.run liveSampler.step none live).2 =
      (secondsBetween live).map fun second => (second, (bookAtEnd live second).topLevels) := by
  cases live with
  | nil => rfl
  | cons r rows =>
    have hsnap : r.payload.isSnapshot = true := hhead r rfl
    obtain ⟨hfirst, hclock⟩ := List.pairwise_cons.1 hclock
    have hstart : liveSampler.step none r =
        (some (r.recvTsNs / NS, r.payload.foldInto Book.empty), []) := by
      simp [Sampler.step, liveSampler, hsnap]
    have hmono : ∀ {a b : Int}, a ≤ b → a / NS ≤ b / NS := by
      intro a b hab
      unfold NS
      omega
    have hdue : ∀ r' ∈ rows, r.recvTsNs / NS ≤ liveSampler.period r' :=
      fun r' hr' => hmono (hfirst r' hr')
    have hrun := liveSampler.run_started (g := Book.topLevels) (fun _ => rfl)
      (hclock.imp fun hab => hmono hab) hdue (r.payload.foldInto Book.empty)
    have hseconds : secondsBetween (r :: rows) =
        Sampler.periodsUpTo (r.recvTsNs / NS) (liveSampler.lastPeriod (r.recvTsNs / NS) rows) := by
      rw [lastPeriod_cons, secondsBetween, List.getLast?_eq_some_getLast (List.cons_ne_nil r rows)]
      rfl
    rw [Mealy.run_cons, hstart, hrun, hseconds, List.nil_append]
    refine List.map_congr_left fun second hsecond => ?_
    obtain ⟨hlive, _⟩ := Sampler.mem_periodsUpTo.1 hsecond
    have hfilter : (rows.filter fun r' => r'.recvTsNs < (second + 1) * NS) =
        rows.filter fun r' => liveSampler.period r' ≤ second :=
      List.filter_congr fun r' _ => decide_eq_decide.2 (lt_end_iff r'.recvTsNs second)
    rw [bookAtEnd, List.filter_cons, if_pos (decide_eq_true ((lt_end_iff _ _).2 hlive)),
      List.foldl_cons, hfilter]
    rfl

/-! ## One connection of the pass -/

section Group

variable {run : ReplayRun} {frames : List TypedFrame} {r : TypedFrame}

variable (run) in
/-- The frames of a connection, and its end before the frames of others. -/
def connectionOut (r : TypedFrame) (frames rest : List TypedFrame) : List Emission :=
  (Mealy.run (Running.read run) (Running.opened none r) frames).2 ++
    (Mealy.run (Running.read run) (Running.opened none r) frames).1.endBefore run rest

theorem opened_sound (r : TypedFrame) : (Running.opened none r).carry.Sound := Carry.initial_sound

variable (run) in
theorem states_read (st : Running) (r : TypedFrame) :
    (st.read run r).2.filterMap Emission.state? = [] := by
  obtain ⟨rows, ok, hread, _⟩ := Running.exists_read run st r
  rw [hread, List.filterMap_append, List.filterMap_eq_nil_iff.2, List.filterMap_eq_nil_iff.2]
  · rfl
  · intro e he
    unfold TypedFrame.verdicts at he
    split at he
    · rw [List.mem_singleton.1 he]
      rfl
    · cases he
  · intro e he
    obtain ⟨row, _, rfl⟩ := List.mem_map.1 he
    rfl

variable (run) in
theorem states_run (rows : List TypedFrame) (st : Running) :
    (Mealy.run (Running.read run) st rows).2.filterMap Emission.state? = [] := by
  induction rows generalizing st with
  | nil => rfl
  | cons r rows ih => rw [Mealy.run_cons, List.filterMap_append, states_read, ih, List.append_nil]

variable (run) in
/-- **One connection**: the generator raises at its end if another follows and its last frame made
    it live; else it is sampled. -/
theorem connection_sampled (hkey : ∀ x ∈ frames, x.key = r.key)
    (hepoch : ∀ x ∈ frames, NS ≤ x.recvTsNs)
    (hclock : frames.Pairwise fun x y => x.recvTsNs ≤ y.recvTsNs) (rest : List TypedFrame) :
    let live := frames.dropWhile fun x => !x.payload.isSnapshot
    if live.length = 1 ∧ rest ≠ [] then
      ∃ e ∈ connectionOut run r frames rest, e.raised = true
    else (∀ e ∈ connectionOut run r frames rest, e.raised = false) ∧
      PerSecond live (connectionOut run r frames rest) := by
  intro live
  have hof : ClockOf live _ := clockOf_run run hepoch (opened_sound r) rfl
  obtain ⟨hsound, hrun⟩ := run_live run hepoch (opened_sound r)
  have hopened : ∀ x ∈ frames, x.key = (Running.opened none r).key := hkey
  obtain ⟨_, hmem⟩ := Running.mem_run run hopened
  have hstates := states_run run frames (Running.opened none r)
  have hlive : live.Pairwise fun x y => x.recvTsNs ≤ y.recvTsNs :=
    hclock.sublist (List.dropWhile_sublist _)
  have hhead : ∀ x ∈ live.head?, x.payload.isSnapshot = true := by
    intro x hx
    have hnot := List.head?_dropWhile_not (fun x : TypedFrame => !x.payload.isSnapshot) frames
    rw [Option.mem_def.1 hx] at hnot
    simpa using hnot
  have hsamples : samples (Mealy.run (Running.read run) (Running.opened none r) frames).2 =
      (secondsBetween live).map fun second => (second, (bookAtEnd live second).topLevels) := by
    rw [← samples_of_live hlive hhead, ← run_before_snapshot frames]
    exact (congrArg Prod.snd hrun).symm
  unfold connectionOut
  generalize Mealy.run (Running.read run) (Running.opened none r) frames = q at *
  -- an end that yields `end'`, which raises nothing, no book and these states
  have hended : ∀ (states : List StateRow), q.1.endBefore run rest =
      states.map (fun row => .state (.ok row)) →
      states.length = (if live.isEmpty then 0 else 1) →
      (∀ e ∈ q.2 ++ q.1.endBefore run rest, e.raised = false) ∧
        PerSecond live (q.2 ++ q.1.endBefore run rest) := by
    intro states hend hcount
    rw [hend]
    refine ⟨fun e he => ?_, ?_, ?_⟩
    · rcases List.mem_append.1 he with he | he
      · exact (hmem e he).2
      · obtain ⟨row, _, rfl⟩ := List.mem_map.1 he
        rfl
    · rw [List.filterMap_append, hstates, List.nil_append, List.filterMap_map]
      exact (congrArg List.length List.filterMap_some).trans hcount
    · show samples _ = _
      rw [samples_append, hsamples, samples, List.filterMap_map]
      simp [Function.comp_def, Emission.book?]
  by_cases hempty : live = []
  · have hnone : ¬ (live.length = 1 ∧ rest ≠ []) := by simp [hempty]
    rw [if_neg hnone]
    exact hended [] (endBefore_idle (hof.idle hempty) rest) (by simp [hempty])
  · have hone : ∀ row, q.1.endBefore run rest = [.state (.ok row)] →
        (∀ e ∈ q.2 ++ q.1.endBefore run rest, e.raised = false) ∧
          PerSecond live (q.2 ++ q.1.endBefore run rest) := fun row hrow =>
      hended [row] hrow (by simp [hempty])
    have hpos : 0 < live.length := List.length_pos_iff.2 hempty
    by_cases hrest : rest = []
    · rw [if_neg fun h => h.2 hrest]
      have hclocked : q.1.clock.live = true := by
        by_cases hlen : live.length = 1
        · obtain ⟨firstNs, hc⟩ := hof.started hlen
          rw [hc]
          rfl
        · obtain ⟨lastSecondNs, hc⟩ := hof.emitted (by omega)
          rw [hc]
          rfl
      obtain ⟨row, hrow⟩ : ∃ row, q.1.finish run = [.state (.ok row)] := finish_live hsound hclocked
      refine hone row ?_
      rw [Running.endBefore, hrest]
      exact hrow
    · by_cases hlen : live.length = 1
      · rw [if_pos ⟨hlen, hrest⟩]
        obtain ⟨firstNs, hc⟩ := hof.started hlen
        rw [endBefore_started hc hrest]
        exact ⟨_, List.mem_append_right _ (List.mem_singleton_self _), rfl⟩
      · rw [if_neg fun h => hlen h.1]
        obtain ⟨lastSecondNs, hc⟩ := hof.emitted (by omega)
        obtain ⟨row, hrow⟩ : ∃ row, q.1.leave run = [.state (.ok row)] := leave_emitted hc
        refine hone row ?_
        rw [Running.endBefore, if_neg (by simpa using hrest)]
        exact hrow

end Group

/-! ## The pass -/

/-- No connection but the last has one live frame only. -/
def Followed (rows : List TypedFrame) : Prop :=
  ∀ key, (liveFrames key rows).length = 1 → ∀ last ∈ rows.getLast?, last.key = key

/-- What is asked of the frames of every connection. -/
structure Clocked (rows : List TypedFrame) : Prop where
  epoch : ∀ r ∈ rows, NS ≤ r.recvTsNs
  ordered : ∀ key, (rows.filter fun r => r.key = key).Pairwise fun r r' => r.recvTsNs ≤ r'.recvTsNs

/-- Every connection is sampled, and the generator runs to its end. -/
structure Completed (rows : List TypedFrame) (out : List Emission) : Prop where
  returns : ∀ e ∈ out, e.raised = false
  sampled : ∀ key, PerSecond (liveFrames key rows) (ofKey key out)

section Pass

variable {run : ReplayRun} {r : TypedFrame} {group rest : List TypedFrame}

theorem liveFrames_self (hgroup : ∀ x ∈ group, x.key = r.key) (hrest : ∀ x ∈ rest, x.key ≠ r.key) :
    liveFrames r.key (r :: (group ++ rest)) =
      (r :: group).dropWhile fun x => !x.payload.isSnapshot := by
  rw [liveFrames, ← List.cons_append, List.filter_append,
    filter_eq_self_of_key (List.forall_mem_cons.2 ⟨rfl, hgroup⟩), filter_eq_nil_of_key hrest,
    List.append_nil]

theorem filter_other {key : BookKey} (hkey : r.key ≠ key) (hgroup : ∀ x ∈ group, x.key = r.key) :
    ((r :: (group ++ rest)).filter fun x => x.key = key) = rest.filter fun x => x.key = key := by
  have hother : ∀ x ∈ r :: group, x.key ≠ key :=
    List.forall_mem_cons.2 ⟨hkey, fun x hx hk => hkey ((hgroup x hx).symm.trans hk)⟩
  rw [← List.cons_append, List.filter_append, filter_eq_nil_of_key hother, List.nil_append]

/-- Whether a connection may be followed, one connection after the other. -/
theorem followed_cons (hgroup : ∀ x ∈ group, x.key = r.key) (hrest : ∀ x ∈ rest, x.key ≠ r.key) :
    Followed (r :: (group ++ rest)) ↔
      ¬ (((r :: group).dropWhile fun x => !x.payload.isSnapshot).length = 1 ∧ rest ≠ []) ∧
        Followed rest := by
  have hlast : rest ≠ [] → (r :: (group ++ rest)).getLast? = rest.getLast? := by
    intro hne
    rw [← List.cons_append, List.getLast?_append, List.getLast?_eq_some_getLast hne]
    rfl
  constructor
  · intro h
    refine ⟨fun ⟨hone, hne⟩ => ?_, fun key hone last hmem => ?_⟩
    · have hself := h r.key (by rw [liveFrames_self hgroup hrest]; exact hone) _
        ((hlast hne).trans (List.getLast?_eq_some_getLast hne))
      exact hrest _ (List.getLast_mem hne) hself
    · have hne : rest ≠ [] := by
        rintro rfl
        cases hmem
      by_cases hkey : r.key = key
      · rw [liveFrames, filter_eq_nil_of_key (hkey ▸ hrest)] at hone
        cases hone
      · refine h key ?_ last ((hlast hne).trans hmem)
        rw [liveFrames, filter_other hkey hgroup]
        exact hone
  · rintro ⟨hself, h⟩ key hone last hmem
    by_cases hkey : r.key = key
    · subst hkey
      rw [liveFrames_self hgroup hrest] at hone
      have hnil : rest = [] := by
        by_contra hne
        exact hself ⟨hone, hne⟩
      rw [hnil, List.append_nil] at hmem
      rcases List.mem_cons.1 (List.mem_of_getLast? hmem) with rfl | hlast
      · rfl
      · exact hgroup last hlast
    · rw [liveFrames, filter_other hkey hgroup] at hone
      have hne : rest ≠ [] := by
        rintro rfl
        cases hone
      exact h key hone last ((hlast hne).symm.trans hmem)

theorem replay_cons (r : TypedFrame) (hgroup : ∀ x ∈ group, x.key = r.key)
    (hrest : ∀ x ∈ rest, x.key ≠ r.key) :
    replayPartition run (fun _ => none) (r :: (group ++ rest)) =
      connectionOut run r (r :: group) rest ++ replayPartition run (fun _ => none) rest := by
  rw [replayPartition_cons run (fun _ => none) r rest hgroup
    fun x hx => hrest x (List.mem_of_mem_head? hx)]
  exact (List.append_assoc _ _ _).symm

variable (run) in
theorem key_connectionOut (hgroup : ∀ x ∈ group, x.key = r.key) (rest : List TypedFrame) :
    ∀ e ∈ connectionOut run r (r :: group) rest, e.key = r.key := by
  obtain ⟨_, hmem, hend⟩ := key_group run (fun _ => none) hgroup rest
  intro e he
  rcases List.mem_append.1 he with he | he
  · exact (hmem e he).1
  · exact hend e he

/-- The pass, connection by connection: it raises if a connection cannot be followed, and samples
    every connection if none raises. -/
theorem completed_of_followed (run : ReplayRun) (rows : List TypedFrame) (hsorted : Grouped rows)
    (hclocked : Clocked rows) :
    let out := replayPartition run (fun _ => none) rows
    (Followed rows → Completed rows out) ∧ (¬ Followed rows → ∃ e ∈ out, e.raised = true) := by
  have hempty : Completed [] (replayPartition run (fun _ => none) []) := by
    refine ⟨fun e he => ?_, fun key => ⟨rfl, rfl⟩⟩
    cases he
  have hnone : Followed [] := by
    intro key _ last hlast
    cases hlast
  refine grouped_induction (P := fun rows => Grouped rows → Clocked rows →
    (Followed rows → Completed rows (replayPartition run (fun _ => none) rows)) ∧
      (¬ Followed rows → ∃ e ∈ replayPartition run (fun _ => none) rows, e.raised = true))
    (fun _ _ => ⟨fun _ => hempty, fun h => absurd hnone h⟩) ?_ _ rows le_rfl hsorted hsorted
    hclocked
  intro r group rest hgroup hrest ih hsorted hclocked
  have hsorted' : Grouped rest := (List.pairwise_append.1 (List.pairwise_cons.1 hsorted).2).2.1
  have hmem : ∀ x ∈ rest, x ∈ r :: (group ++ rest) := fun x hx =>
    List.mem_cons_of_mem r (List.mem_append_right group hx)
  have hclocked' : Clocked rest := by
    refine ⟨fun x hx => hclocked.epoch x (hmem x hx), fun key => ?_⟩
    exact (hclocked.ordered key).sublist
      (((List.sublist_append_right group rest).cons r).filter _)
  have hframes : ∀ x ∈ r :: group, x.key = r.key := List.forall_mem_cons.2 ⟨rfl, hgroup⟩
  have hepoch : ∀ x ∈ r :: group, NS ≤ x.recvTsNs := by
    intro x hx
    refine hclocked.epoch x ?_
    rw [← List.cons_append]
    exact List.mem_append_left rest hx
  have hordered : (r :: group).Pairwise fun x y => x.recvTsNs ≤ y.recvTsNs := by
    have hself := hclocked.ordered r.key
    rw [← List.cons_append, List.filter_append, filter_eq_self_of_key hframes,
      filter_eq_nil_of_key hrest, List.append_nil] at hself
    exact hself
  have hconnection := connection_sampled run hframes hepoch hordered rest
  obtain ⟨hgood, hbad⟩ := ih hsorted' hclocked'
  have hother : ∀ e ∈ replayPartition run (fun _ => none) rest, e.key ≠ r.key := by
    intro e he hkey
    obtain ⟨x, hx, hxe⟩ := exists_key_of_mem hsorted' e he
    exact hrest x hx (hxe.trans hkey)
  have hown := key_connectionOut run hgroup rest
  rw [replay_cons r hgroup hrest, followed_cons hgroup hrest]
  constructor
  · rintro ⟨hself, hfollowed⟩
    rw [if_neg hself] at hconnection
    obtain ⟨hreturns, hsampled⟩ := hconnection
    obtain ⟨hreturns', hsampled'⟩ := hgood hfollowed
    refine ⟨fun e he => ?_, fun key => ?_⟩
    · rcases List.mem_append.1 he with he | he
      · exact hreturns e he
      · exact hreturns' e he
    · unfold ofKey
      rw [List.filter_append]
      by_cases hkey : r.key = key
      · subst hkey
        rw [liveFrames_self hgroup hrest, filter_eq_self_of_key hown, filter_eq_nil_of_key hother,
          List.append_nil]
        exact hsampled
      · have hnone : ∀ e ∈ connectionOut run r (r :: group) rest, e.key ≠ key := fun e he hek =>
          hkey ((hown e he).symm.trans hek)
        rw [liveFrames, filter_other hkey hgroup, filter_eq_nil_of_key hnone, List.nil_append]
        exact hsampled' key
  · intro hnot
    by_cases hself : ((r :: group).dropWhile fun x => !x.payload.isSnapshot).length = 1 ∧ rest ≠ []
    · rw [if_pos hself] at hconnection
      obtain ⟨e, he, hraised⟩ := hconnection
      exact ⟨e, List.mem_append_left _ he, hraised⟩
    · obtain ⟨e, he, hraised⟩ := hbad fun hfollowed => hnot ⟨hself, hfollowed⟩
      exact ⟨e, List.mem_append_right _ he, hraised⟩

end Pass

/-- **When a partition is sampled.**  Over frames sorted by connection, with receive clocks that do
    not run backwards, the generator returns and samples every connection exactly when every
    connection but the last, once live, has a frame after the one that made it live. -/
theorem replay_sampled_iff (run : ReplayRun) (rows : List TypedFrame) (hsorted : Grouped rows)
    (hclocked : Clocked rows) :
    Completed rows (replayPartition run (fun _ => none) rows) ↔ Followed rows := by
  obtain ⟨hgood, hbad⟩ := completed_of_followed run rows hsorted hclocked
  constructor
  · intro hcompleted
    by_contra hnot
    obtain ⟨e, he, hraised⟩ := hbad hnot
    rw [hcompleted.returns e he] at hraised
    cases hraised
  · exact hgood

/-! ## Two partitions -/

/-- The `n`-th Coinbase frame of a connection, received at a whole second. -/
def coinbaseFrame (connId eventType : String) (n second : Int) : TypedFrame where
  symbol := "BTC-USD"
  payload := .coinbase eventType [⟨"bid", 4500000000000, 1000000000, none⟩] n 0
  recvTsNs := second * NS
  connId := connId
  connMsgSeq := n
  srcTopic := "k2.raw.coinbase"
  srcPartition := 0
  srcOffset := n
  srcIndex := 0
  canonicalSymbol := "BTC/USD"

def snapshotRun : ReplayRun := ⟨.coinbase, fun _ => none, fun _ _ => "", 0⟩

theorem clocked_of_pairwise {rows : List TypedFrame} (hepoch : ∀ r ∈ rows, NS ≤ r.recvTsNs)
    (hordered : rows.Pairwise fun r r' => r.recvTsNs ≤ r'.recvTsNs) : Clocked rows :=
  ⟨hepoch, fun _ => hordered.sublist List.filter_sublist⟩

/-- A connection that sends its snapshot only, and one after it. -/
def snapshotAlone : List TypedFrame :=
  [coinbaseFrame "a" "snapshot" 1 1, coinbaseFrame "b" "snapshot" 1 2]

theorem grouped_snapshotAlone : Grouped snapshotAlone := by
  unfold Grouped snapshotAlone
  decide

/-- The generator raises at the state row of the first connection. -/
theorem lone_snapshot_not_completed :
    ¬ ∀ (run : ReplayRun) (rows : List TypedFrame), Grouped rows → Clocked rows →
      Completed rows (replayPartition run (fun _ => none) rows) := by
  intro h
  have hcompleted := h snapshotRun snapshotAlone grouped_snapshotAlone
    (clocked_of_pairwise (by decide) (by decide))
  obtain ⟨_, hbad⟩ := completed_of_followed snapshotRun snapshotAlone grouped_snapshotAlone
    (clocked_of_pairwise (by decide) (by decide))
  have hnot : ¬ Followed snapshotAlone := by
    intro hfollowed
    have hlast := hfollowed ("BTC-USD", "a") (by decide) (coinbaseFrame "b" "snapshot" 1 2) rfl
    revert hlast
    decide
  obtain ⟨e, he, hraised⟩ := hbad hnot
  rw [hcompleted.returns e he] at hraised
  cases hraised

/-- The same with one more frame on the first connection. -/
def snapshotFollowed : List TypedFrame :=
  [coinbaseFrame "a" "snapshot" 1 1, coinbaseFrame "a" "update" 2 3,
   coinbaseFrame "b" "snapshot" 1 4]

theorem grouped_snapshotFollowed : Grouped snapshotFollowed := by
  unfold Grouped snapshotFollowed
  decide

theorem followed_snapshot_completed :
    Completed snapshotFollowed (replayPartition snapshotRun (fun _ => none) snapshotFollowed) := by
  refine (replay_sampled_iff snapshotRun snapshotFollowed grouped_snapshotFollowed
    (clocked_of_pairwise (by decide) (by decide))).2 fun key hone last hlast => ?_
  have hlast : last = coinbaseFrame "b" "snapshot" 1 4 := (Option.some.inj hlast).symm
  rw [hlast]
  by_cases ha : ("BTC-USD", "a") = key
  · rw [← ha] at hone
    exact absurd hone (by decide)
  · by_contra hb
    have hnone : liveFrames key snapshotFollowed = [] := by
      have hframes : (snapshotFollowed.filter fun r => r.key = key) = [] := by
        refine filter_eq_nil_of_key fun x hx hkey => ?_
        simp only [snapshotFollowed, List.mem_cons, List.not_mem_nil, or_false] at hx
        rcases hx with rfl | rfl | rfl
        · exact ha hkey
        · exact ha hkey
        · exact hb hkey
      rw [liveFrames, hframes]
      rfl
    rw [hnone] at hone
    cases hone

end K2.Lake

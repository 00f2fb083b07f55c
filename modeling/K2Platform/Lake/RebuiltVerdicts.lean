import K2Platform.Lake.BookRebuild
import K2Platform.Lake.Verdicts

/-!
# Verdicts that a rebuild keeps

A run checks Kraken's books at the precisions that are the latest when it runs, a rebuild checks the
whole archive at those that are the latest when it runs.  A frame keeps its verdict if the precision
of its symbol was settled by the time it was read, and if the rebuild, which goes by days of receipt,
meets its connection's frames in the order in which they were sent, and raises on none of the days.

* `krakenPrecisions` — the latest precision of a pair.
* `RebuildThrough` — a rebuild that commits every day of Kraken's.
* `verdicts_kept` — what the runs decided, and what the rebuild decides.
-/

set_option autoImplicit false

namespace K2.Lake

/-! ## Precisions -/

/-- A pair of a frame of `bronze.kraken_instrument`. -/
structure InstrumentPair where
  symbol : String
  pricePrecision : Int
  qtyPrecision : Int
  deriving DecidableEq, Repr

structure InstrumentFrame where
  pairs : List InstrumentPair
  recvTsNs : Int
  srcPartition : Int
  srcOffset : Int
  deriving DecidableEq, Repr

/-- What the window of `kraken_precisions` is ordered by; a tie goes by lineage. -/
def InstrumentFrame.received (f : InstrumentFrame) : Int ×ₗ Int ×ₗ Int :=
  toLex (f.recvTsNs, toLex (f.srcPartition, f.srcOffset))

/-- `kraken_precisions`: the last value the venue sent for a pair. -/
def krakenPrecisions (frames : List InstrumentFrame) (symbol : String) : Option Precision :=
  let rows := frames.flatMap fun f => f.pairs.map fun p => (f, p)
  ((rows.filter fun x => x.2.symbol = symbol).maxOn? fun x => x.1.received).map fun x =>
    (x.2.pricePrecision, x.2.qtyPrecision)

/-! ## Runs -/

/-- A run, and the instrument frames that have arrived with it. -/
structure StageRun where
  instruments : List InstrumentFrame
  tick : BookTick

/-- Every instrument frame of the archive. -/
def instrumentsOf (runs : List StageRun) : List InstrumentFrame :=
  runs.flatMap fun r => r.instruments

/-- The ticks of the book stage, each with the precisions that are the latest by then. -/
def stageTicks (seen : List InstrumentFrame) : List StageRun → List BookTick
  | [] => []
  | r :: runs =>
    { r.tick with precisions := krakenPrecisions (seen ++ r.instruments) } ::
      stageTicks (seen ++ r.instruments) runs

section Ingest

variable (floatDigits : Int → Int → String)

/-- Kraken's frames, ingested in order by runs that get through. -/
structure Ingested (runs : List StageRun) : Prop where
  archive : Archive .kraken (runs.flatMap fun r => r.tick.arrived .kraken)
  ordered : runs.Pairwise fun a b =>
    ∀ f ∈ a.tick.arrived .kraken, ∀ g ∈ b.tick.arrived .kraken, Frame.Before f g
  uncut : AllThrough floatDigits .kraken BookTables.empty (stageTicks [] runs)

end Ingest

/-- No frame was read before the latest precision of its symbol had arrived. -/
def PrecisionSettled (runs : List StageRun) : Prop :=
  ∀ tick ∈ stageTicks [] runs, ∀ f ∈ tick.arrived .kraken,
    tick.precisions (BookFrame.symbol f) = krakenPrecisions (instrumentsOf runs) (BookFrame.symbol f)

/-- No frame was received on an earlier day than one that was sent before it. -/
def DaysInOrder (frames : List BookFrame) : Prop :=
  ∀ f ∈ frames, ∀ g ∈ frames, f.key = g.key → f.sent ≤ g.sent →
    Frame.receiveDay (v := .kraken) f ≤ Frame.receiveDay (v := .kraken) g

/-! ## Tables whose verdicts are those of the frames read -/

section Judged

variable {floatDigits : Int → Int → String} {seen : BookKey → List Checked}

variable (floatDigits) in
/-- The verdicts of a connection. -/
def verdictsOf (xs : List Checked) : List (BookFrame × Option Bool) :=
  (Mealy.run (checkStep floatDigits) none xs).2

variable (floatDigits) in
def RowsJudged (t : BookTables) (seen : BookKey → List Checked) : Prop :=
  ∀ r ∈ t.silver .kraken, ReplayedRow.judged r ∈ verdictsOf floatDigits (seen (BookFrame.key r.toBookFrame))

variable (floatDigits) in
/-- The rows are judged, and the state rows go on from there. -/
structure TablesJudged (t : BookTables) (seen : BookKey → List Checked) : Prop where
  rows : RowsJudged floatDigits t seen
  carries : ∃ c, Carries t.state c ∧
    ∀ key, (c key).held = (Mealy.run (checkStep floatDigits) none (seen key)).1

theorem RowsJudged.more {t : BookTables} (h : RowsJudged floatDigits t seen)
    (more : BookKey → List Checked) :
    RowsJudged floatDigits t fun key => seen key ++ more key := fun r hr =>
  checked_append floatDigits (h r hr)

theorem judged_empty : TablesJudged floatDigits BookTables.empty fun _ => [] := by
  constructor
  · intro r hr
    cases hr
  · exact ⟨fun _ => Carry.initial,
      ⟨fun _ => Carry.initial_sound, fun _ => Folded.initial_within, fun _ => rfl⟩, fun _ => rfl⟩

theorem Untouched.rowsJudged {t t' : BookTables} (h : Untouched .kraken t t')
    (hrows : RowsJudged floatDigits t seen) : RowsJudged floatDigits t' seen := by
  intro r hr
  rw [h.silver] at hr
  exact hrows r hr

theorem Untouched.judged {t t' : BookTables} (h : Untouched .kraken t t')
    (hjudged : TablesJudged floatDigits t seen) : TablesJudged floatDigits t' seen := by
  obtain ⟨hrows, c, hc, hheld⟩ := hjudged
  refine ⟨h.rowsJudged hrows, c, ⟨hc.sound, hc.within, fun key => ?_⟩, hheld⟩
  rw [h.states]
  exact hc.state key

/-- Rows that a batch adds are judged as `process_checked` says. -/
theorem RowsJudged.of_added {t t' : BookTables} (h : RowsJudged floatDigits t seen)
    {added : List ReplayedRow} (hsilver : t'.silver .kraken = t.silver .kraken ++ added)
    {c c' : BookKey → Carry} {checks : BookKey → List Checked}
    (hheld : ∀ key, (c key).held = (Mealy.run (checkStep floatDigits) none (seen key)).1)
    (hkey : ∀ key, ∃ out,
      Mealy.run (checkStep floatDigits) (c key).held (checks key) = ((c' key).held, out) ∧
        ((added.filter fun r => r.key = key).map ReplayedRow.judged).Perm out) :
    RowsJudged floatDigits t' fun key => seen key ++ checks key := by
  intro r hr
  rw [hsilver] at hr
  rcases List.mem_append.1 hr with hr | hr
  · exact h.more checks r hr
  · obtain ⟨out, hrun, hperm⟩ := hkey (BookFrame.key r.toBookFrame)
    rw [hheld] at hrun
    rw [verdictsOf, Mealy.run_append, hrun]
    refine List.mem_append_right _ (hperm.mem_iff.1 ?_)
    exact List.mem_map_of_mem (List.mem_filter.2 ⟨hr, decide_eq_true rfl⟩)

/-- What a batch adds. -/
theorem commit_judged {t : BookTables} {tick : BookTick} {frames : List BookFrame}
    {p : Processed .kraken} (h : TablesJudged floatDigits t seen) (harchive : Archive .kraken frames)
    (hp : process floatDigits tick t.state .kraken frames = some p) (n : Nat) :
    RowsJudged floatDigits (t.commit p n)
        (fun key => seen key ++ checksOf tick.precisions key frames) ∧
      (4 ≤ n → TablesJudged floatDigits (t.commit p n)
        fun key => seen key ++ checksOf tick.precisions key frames) := by
  obtain ⟨hrows, c, hc, hheld⟩ := h
  obtain ⟨c', hc', hkey⟩ := process_checked harchive hc hp
  have hadded : RowsJudged floatDigits (t.commit p n)
      (fun key => seen key ++ checksOf tick.precisions key frames) := by
    by_cases hn : 1 ≤ n
    · refine hrows.of_added ?_ hheld hkey
      simp only [BookTables.commit, if_pos hn, Function.update_self]
    · obtain rfl : n = 0 := by omega
      exact hrows.more fun key => checksOf tick.precisions key frames
  refine ⟨hadded, fun hn => ⟨hadded, c', ?_, fun key => ?_⟩⟩
  · have hstate : (t.commit p n).state = mergeState t.state p.states := if_pos hn
    rw [hstate]
    exact hc'
  · obtain ⟨out, hrun, _⟩ := hkey key
    rw [hheld] at hrun
    rw [Mealy.run_append, hrun]

/-! ## The runs -/

/-- A run that gets through reads what has arrived with it. -/
theorem apply_judged {t : BookTables} (tick : BookTick) (h : TablesJudged floatDigits t seen)
    (hcaught : t.CaughtUp .kraken) (harchive : Archive .kraken (tick.arrived .kraken))
    (hthrough : Through floatDigits t tick .kraken) :
    (t.apply floatDigits tick).bronze .kraken = t.bronze .kraken ++ tick.arrived .kraken ∧
      (t.apply floatDigits tick).CaughtUp .kraken ∧
      TablesJudged floatDigits (t.apply floatDigits tick)
        fun key => seen key ++ checksOf tick.precisions key (tick.arrived .kraken) := by
  obtain ⟨table, p, hrun⟩ := runsThrough hcaught hthrough
  obtain ⟨hrows, c, hc, hheld⟩ := h
  have hcarries : Carries table c :=
    ⟨hc.sound, hc.within, fun key => by rw [hrun.reads]; exact hc.state key⟩
  obtain ⟨c', hc', hkey⟩ := process_checked harchive hcarries hrun.run
  refine ⟨hrun.bronze, hrun.caughtUp, ?_, c',
    ⟨hc'.sound, hc'.within, fun key => by rw [hrun.states]; exact hc'.state key⟩, fun key => ?_⟩
  · exact hrows.of_added hrun.silver hheld hkey
  · obtain ⟨out, hout, _⟩ := hkey key
    rw [hheld] at hout
    rw [Mealy.run_append, hout]

/-! ### Frames in order -/

theorem connectionFrames_append {a b : List BookFrame}
    (hlineage : ((a ++ b).map BookFrame.lineage).Nodup)
    (hbefore : ∀ f ∈ a, ∀ g ∈ b, f.key = g.key → f.sent ≤ g.sent) (key : BookKey) :
    connectionFrames key (a ++ b) = connectionFrames key a ++ connectionFrames key b := by
  have hinj := sent_inj hlineage
  rw [connectionFrames, List.filter_append]
  refine sortOn_append (fun f hf g hg => ?_) fun f hf g hg => ?_
  · rw [← List.filter_append] at hf hg
    exact hinj f (List.mem_of_mem_filter hf) g (List.mem_of_mem_filter hg)
  · obtain ⟨hf, hfk⟩ := List.mem_filter.1 hf
    obtain ⟨hg, hgk⟩ := List.mem_filter.1 hg
    exact hbefore f hf g hg ((of_decide_eq_true hfk).trans (of_decide_eq_true hgk).symm)

theorem mem_connectionFrames {key : BookKey} {frames : List BookFrame} {f : BookFrame} :
    f ∈ connectionFrames key frames ↔ f ∈ frames ∧ f.key = key := by
  rw [connectionFrames, (sortOn_perm _ _).mem_iff, List.mem_filter, decide_eq_true_iff]

theorem checksOf_congr {precisions precisions' : String → Option Precision} {frames : List BookFrame}
    (h : ∀ f ∈ frames, precisions f.symbol = precisions' f.symbol) (key : BookKey) :
    checksOf precisions key frames = checksOf precisions' key frames := by
  refine List.map_congr_left fun f hf => ?_
  rw [h f (mem_connectionFrames.1 hf).1]

theorem checksOf_append {precisions : String → Option Precision} {a b : List BookFrame}
    (hlineage : ((a ++ b).map BookFrame.lineage).Nodup)
    (hbefore : ∀ f ∈ a, ∀ g ∈ b, f.key = g.key → f.sent ≤ g.sent) (key : BookKey) :
    checksOf precisions key (a ++ b) = checksOf precisions key a ++ checksOf precisions key b := by
  rw [checksOf, connectionFrames_append hlineage hbefore, List.map_append]
  rfl

/-- **The runs** judge the archive at the precisions at which they read it. -/
theorem runs_judged {precisions : String → Option Precision} (runs : List StageRun)
    {instruments : List InstrumentFrame} {t : BookTables} (hcaught : t.CaughtUp .kraken)
    (h : TablesJudged floatDigits t fun key => checksOf precisions key (t.bronze .kraken))
    (harchive : Archive .kraken (t.bronze .kraken ++ runs.flatMap fun r => r.tick.arrived .kraken))
    (hbefore : ∀ r ∈ runs, ∀ f ∈ t.bronze .kraken, ∀ g ∈ r.tick.arrived .kraken, Frame.Before f g)
    (hordered : runs.Pairwise fun a b =>
      ∀ f ∈ a.tick.arrived .kraken, ∀ g ∈ b.tick.arrived .kraken, Frame.Before f g)
    (huncut : AllThrough floatDigits .kraken t (stageTicks instruments runs))
    (hsettled : ∀ tick ∈ stageTicks instruments runs, ∀ f ∈ tick.arrived .kraken,
      tick.precisions (BookFrame.symbol f) = precisions (BookFrame.symbol f)) :
    let t' := (stageTicks instruments runs).foldl (BookTables.apply floatDigits) t
    t'.bronze .kraken = t.bronze .kraken ++ runs.flatMap (fun r => r.tick.arrived .kraken) ∧
      TablesJudged floatDigits t' fun key => checksOf precisions key (t'.bronze .kraken) := by
  induction runs generalizing instruments t with
  | nil => exact ⟨(List.append_nil _).symm, h⟩
  | cons r runs ih =>
    obtain ⟨huncut, hrest⟩ := huncut
    obtain ⟨hfirst, hordered⟩ := List.pairwise_cons.1 hordered
    obtain ⟨hnow, hsettled⟩ := List.forall_mem_cons.1 hsettled
    rw [List.flatMap_cons, ← List.append_assoc] at harchive
    set tick : BookTick :=
      { r.tick with precisions := krakenPrecisions (instruments ++ r.instruments) } with htick
    have hboth := harchive.sublist (List.sublist_append_left _ _)
    have hnew := hboth.sublist (List.sublist_append_right _ _)
    obtain ⟨hbronze, hcaught', hjudged⟩ := apply_judged tick h hcaught hnew huncut
    have hchecks : ∀ key, checksOf precisions key (t.bronze .kraken) ++
        checksOf tick.precisions key (tick.arrived .kraken) =
          checksOf precisions key ((t.apply floatDigits tick).bronze .kraken) := by
      intro key
      rw [hbronze, checksOf_append hboth.lineage (hbefore r List.mem_cons_self),
        checksOf_congr hnow]
    rw [funext hchecks] at hjudged
    have hnext := ih (t := t.apply floatDigits tick) hcaught' hjudged (by rw [hbronze]; exact harchive)
      (fun r' hr' f hf g hg => by
        rw [hbronze] at hf
        rcases List.mem_append.1 hf with hf | hf
        · exact hbefore r' (List.mem_cons_of_mem _ hr') f hf g hg
        · exact hfirst r' hr' f hf g hg) hordered hrest hsettled
    rw [hbronze, List.append_assoc] at hnext
    exact hnext

/-! ## The rebuild -/

/-- The frames of a connection, day by day. -/
theorem connectionFrames_days {frames : List BookFrame}
    (hlineage : (frames.map BookFrame.lineage).Nodup) (hdays : DaysInOrder frames) (key : BookKey) :
    ((receiveDays (v := .kraken) frames).flatMap fun day =>
        connectionFrames key (frames.filter fun f => Frame.receiveDay (v := .kraken) f = day)) =
      connectionFrames key frames := by
  have hslice : ∀ day : Int,
      connectionFrames key (frames.filter fun f => Frame.receiveDay (v := .kraken) f = day) =
        sortOn BookFrame.sent ((frames.filter fun f => f.key = key).filter fun f =>
          Frame.receiveDay (v := .kraken) f = day) := by
    intro day
    rw [connectionFrames, List.filter_filter, List.filter_filter]
    simp only [Bool.and_comm]
  simp only [hslice]
  refine sortOn_slices (fun f hf g hg => ?_) receiveDays_sorted (fun f hf => ?_)
    fun f hf g hg hle => ?_
  · exact sent_inj hlineage f (List.mem_of_mem_filter hf) g (List.mem_of_mem_filter hg)
  · exact mem_receiveDays (List.mem_of_mem_filter hf)
  · obtain ⟨hf, hfk⟩ := List.mem_filter.1 hf
    obtain ⟨hg, hgk⟩ := List.mem_filter.1 hg
    exact hdays f hf g hg ((of_decide_eq_true hfk).trans (of_decide_eq_true hgk).symm) hle

variable (floatDigits) in
/-- The rows are judged, and if commits are left to make, none were missed. -/
def JudgedSoFar (s : Nat × BookTables) (seen : BookKey → List Checked) : Prop :=
  RowsJudged floatDigits s.2 seen ∧ (s.1 = 0 ∨ TablesJudged floatDigits s.2 seen)

theorem runSlice_judged (tick : BookTick) {s : Nat × BookTables} {frames : List BookFrame}
    (h : JudgedSoFar floatDigits s seen) (harchive : Archive .kraken frames) :
    JudgedSoFar floatDigits (runSlice floatDigits tick .kraken s frames)
      fun key => seen key ++ checksOf tick.precisions key frames := by
  obtain ⟨hrows, hjudged⟩ := h
  have hmore := hrows.more fun key => checksOf tick.precisions key frames
  unfold runSlice
  cases hp : process floatDigits tick s.2.state .kraken frames with
  | none => exact ⟨hmore, Or.inl rfl⟩
  | some p =>
    rcases hjudged with hzero | hjudged
    · -- the run has been cut off before
      have hn : min s.1 p.reach = 0 := by omega
      refine ⟨?_, Or.inl ?_⟩
      · show RowsJudged floatDigits (s.2.commit p (min s.1 p.reach)) _
        rw [hn]
        exact hmore
      · show (if min s.1 p.reach < 4 then 0 else s.1 - min s.1 p.reach) = 0
        simp [hn]
    · obtain ⟨hadded, hwhole⟩ := commit_judged hjudged harchive hp (min s.1 p.reach)
      refine ⟨hadded, ?_⟩
      by_cases hn : min s.1 p.reach < commitsOf .kraken
      · exact Or.inl (if_pos hn)
      · exact Or.inr (hwhole (not_lt.1 hn))

theorem rebuildOf_judged (tick : BookTick) {s : Nat × BookTables}
    (h : JudgedSoFar floatDigits s fun _ => []) (harchive : Archive .kraken (s.2.bronze .kraken))
    (hdays : DaysInOrder (s.2.bronze .kraken)) :
    RowsJudged floatDigits (rebuildOf floatDigits tick s .kraken).2
      fun key => checksOf tick.precisions key (s.2.bronze .kraken) := by
  let slice : Int → List (Frame .kraken) := fun day =>
    (s.2.bronze .kraken).filter fun f => f.receiveDay = day
  have hslices : ∀ (days : List Int) (s' : Nat × BookTables) (seen : BookKey → List Checked),
      JudgedSoFar floatDigits s' seen →
      JudgedSoFar floatDigits
        (days.foldl (fun s' day => runSlice floatDigits tick .kraken s' (slice day)) s')
        fun key => seen key ++ days.flatMap fun day => checksOf tick.precisions key (slice day) := by
    intro days
    induction days with
    | nil =>
      intro s' seen h
      simpa using h
    | cons day days ih =>
      intro s' seen h
      have hslice : Archive .kraken (slice day) := harchive.sublist List.filter_sublist
      have hday := runSlice_judged tick h hslice
      have hrest := ih _ _ hday
      simp only [List.append_assoc] at hrest
      exact hrest
  have hall := (hslices (receiveDays (s.2.bronze .kraken)) s _ h).1
  have hchecks : ∀ key, ([] ++ (receiveDays (s.2.bronze .kraken)).flatMap fun day =>
      checksOf tick.precisions key (slice day)) =
        checksOf tick.precisions key (s.2.bronze .kraken) := by
    intro key
    rw [List.nil_append, checksOf, ← connectionFrames_days harchive.lineage hdays key,
      List.map_flatMap]
    rfl
  rw [funext hchecks] at hall
  exact hall

/-! ### Every frame is judged -/

/-- A run's silver rows are one for each frame. -/
theorem mem_of_checked {tick : BookTick} {table : StateTable} {frames : List BookFrame}
    {p : Processed .kraken} (harchive : Archive .kraken frames) {c : BookKey → Carry}
    (hc : Carries table c) (hp : process floatDigits tick table .kraken frames = some p)
    {f : BookFrame} (hf : f ∈ frames) : ∃ r ∈ p.silver, (ReplayedRow.toTypedFrame r).toBookFrame = f := by
  obtain ⟨c', _, hkey⟩ := process_checked harchive hc hp
  obtain ⟨out, hrun, hperm⟩ := hkey f.key
  have hframes : out.map Prod.fst = connectionFrames f.key frames := by
    have hout := frames_checked floatDigits (c f.key).held (checksOf tick.precisions f.key frames)
    rw [hrun, checksOf, List.map_map] at hout
    exact hout.trans (List.map_id _)
  have hmem : f ∈ out.map Prod.fst := by
    rw [hframes]
    exact mem_connectionFrames.2 ⟨hf, rfl⟩
  obtain ⟨o, ho, rfl⟩ := List.mem_map.1 hmem
  obtain ⟨r, hr, rfl⟩ := List.mem_map.1 (hperm.mem_iff.2 ho)
  exact ⟨r, List.mem_of_mem_filter hr, rfl⟩

section Slices

variable (floatDigits) (tick : BookTick)

/-- The commits that are made for a slice. -/
def sliceMade (v : Exchange) (s : Nat × BookTables) (frames : List (Frame v)) : Nat :=
  match process floatDigits tick s.2.state v frames with
  | none => 0
  | some p => min s.1 p.reach

/-- The slices are committed whole, one after the other: no replay raises, and none is cut off. -/
def SlicesThrough (v : Exchange) : Nat × BookTables → List (List (Frame v)) → Prop
  | _, [] => True
  | s, frames :: slices =>
    sliceMade floatDigits tick v s frames = commitsOf v ∧
      SlicesThrough v (runSlice floatDigits tick v s frames) slices

/-- The days of a venue's archive. -/
def daySlices {v : Exchange} (frames : List (Frame v)) : List (List (Frame v)) :=
  (receiveDays frames).map fun day => frames.filter fun f => f.receiveDay = day

/-- The rebuild gets through Kraken's days, if Kraken is rebuilt. -/
def RebuildThrough (t : BookTables) (exchanges : List Exchange) : Prop :=
  .kraken ∈ exchanges →
    SlicesThrough floatDigits tick .kraken
      (rebuildTurn floatDigits tick exchanges (tick.commits, t.drop exchanges) .binance)
      (daySlices (t.bronze .kraken))

end Slices

theorem mem_daySlices {v : Exchange} {frames : List (Frame v)} {f : Frame v} (hf : f ∈ frames) :
    ∃ slice ∈ daySlices frames, f ∈ slice :=
  ⟨_, List.mem_map_of_mem (mem_receiveDays hf), List.mem_filter.2 ⟨hf, decide_eq_true rfl⟩⟩

theorem rebuildOf_eq (tick : BookTick) (s : Nat × BookTables) (v : Exchange) :
    rebuildOf floatDigits tick s v =
      (daySlices (s.2.bronze v)).foldl (runSlice floatDigits tick v) s := by
  rw [daySlices, List.foldl_map]
  rfl

/-- What is in silver stays there. -/
theorem silver_slices (tick : BookTick) (v : Exchange) (slices : List (List (Frame v)))
    (s : Nat × BookTables) {r : SilverBook v} (hr : r ∈ s.2.silver v) :
    r ∈ (slices.foldl (runSlice floatDigits tick v) s).2.silver v := by
  induction slices generalizing s with
  | nil => exact hr
  | cons frames slices ih =>
    refine ih _ ?_
    unfold runSlice
    cases process floatDigits tick s.2.state v frames with
    | none => exact hr
    | some p =>
      simp only [BookTables.commit]
      split
      · rw [Function.update_self]
        exact List.mem_append_left _ hr
      · exact hr

/-- **Every frame of the slices has a row.** -/
theorem slices_complete (tick : BookTick) {slices : List (List BookFrame)} {s : Nat × BookTables}
    (h : JudgedSoFar floatDigits s seen) (harchive : ∀ slice ∈ slices, Archive .kraken slice)
    (hthrough : SlicesThrough floatDigits tick .kraken s slices) :
    ∀ slice ∈ slices, ∀ f ∈ slice,
      ∃ r ∈ (slices.foldl (runSlice floatDigits tick .kraken) s).2.silver .kraken,
        (ReplayedRow.toTypedFrame r).toBookFrame = f := by
  induction slices generalizing s seen with
  | nil =>
    intro slice hslice
    cases hslice
  | cons frames slices ih =>
    obtain ⟨hwhole, hrest⟩ := hthrough
    obtain ⟨hfirst, harchive⟩ := List.forall_mem_cons.1 harchive
    refine List.forall_mem_cons.2 ⟨fun f hf => ?_,
      ih (runSlice_judged tick h hfirst) harchive hrest⟩
    unfold sliceMade at hwhole
    cases hp : process floatDigits tick s.2.state .kraken frames with
    | none =>
      rw [hp] at hwhole
      cases hwhole
    | some p =>
      rw [hp] at hwhole
      have hfour : min s.1 p.reach = 4 := hwhole
      obtain ⟨_, c, hc, _⟩ := h.2.resolve_left (by omega)
      obtain ⟨r, hr, hframe⟩ := mem_of_checked hfirst hc hp hf
      refine ⟨r, silver_slices tick .kraken slices _ ?_, hframe⟩
      rw [runSlice, hp]
      show r ∈ (s.2.commit p (min s.1 p.reach)).silver .kraken
      simp only [BookTables.commit]
      rw [if_pos (by omega), Function.update_self]
      exact List.mem_append_right _ hr

variable (floatDigits) in
/-- **The rebuild** judges the archive at the precisions that are the latest. -/
theorem rebuild_judged (tick : BookTick) {t : BookTables} {exchanges : List Exchange}
    (hmem : .kraken ∈ exchanges) (harchive : Archive .kraken (t.bronze .kraken))
    (hdays : DaysInOrder (t.bronze .kraken))
    (hthrough : SlicesThrough floatDigits tick .kraken
      (rebuildTurn floatDigits tick exchanges (tick.commits, t.drop exchanges) .binance)
      (daySlices (t.bronze .kraken))) :
    RowsJudged floatDigits (t.rebuild floatDigits tick exchanges)
        (fun key => checksOf tick.precisions key (t.bronze .kraken)) ∧
      ∀ f ∈ t.bronze .kraken, ∃ r ∈ (t.rebuild floatDigits tick exchanges).silver .kraken,
        (ReplayedRow.toTypedFrame r).toBookFrame = f := by
  have hdropped : TablesJudged floatDigits (t.drop exchanges) fun _ => [] := by
    refine ⟨fun r hr => ?_, judged_empty.carries⟩
    have hnone : (t.drop exchanges).silver .kraken = [] := if_pos hmem
    rw [hnone] at hr
    cases hr
  set s := rebuildTurn floatDigits tick exchanges (tick.commits, t.drop exchanges) .binance with hs
  have hbefore : Untouched .kraken (t.drop exchanges) s.2 :=
    rebuildTurn_untouched (by decide) (tick.commits, t.drop exchanges)
  have hafter : Untouched .kraken (rebuildTurn floatDigits tick exchanges s .kraken).2
      (t.rebuild floatDigits tick exchanges) := by
    rw [rebuild_eq]
    exact rebuildTurn_untouched (by decide) _
  have hturn : rebuildTurn floatDigits tick exchanges s .kraken =
      rebuildOf floatDigits tick s .kraken := if_pos hmem
  have hbronze : s.2.bronze .kraken = t.bronze .kraken := hbefore.bronze
  have hstart : JudgedSoFar floatDigits s fun _ => [] :=
    ⟨(hbefore.judged hdropped).rows, Or.inr (hbefore.judged hdropped)⟩
  have hslices : ∀ slice ∈ daySlices (t.bronze .kraken), Archive .kraken slice := by
    intro slice hslice
    obtain ⟨day, _, rfl⟩ := List.mem_map.1 hslice
    exact harchive.sublist List.filter_sublist
  constructor
  · have hrows := rebuildOf_judged tick hstart (by rw [hbronze]; exact harchive)
      (by rw [hbronze]; exact hdays)
    rw [hbronze, ← hturn] at hrows
    exact hafter.rowsJudged hrows
  · intro f hf
    obtain ⟨slice, hslice, hf⟩ := mem_daySlices hf
    obtain ⟨r, hr, hframe⟩ := slices_complete tick hstart hslices hthrough slice hslice f hf
    refine ⟨r, ?_, hframe⟩
    rw [hafter.silver, hturn, rebuildOf_eq, hbronze]
    exact hr

/-! ## The verdicts -/

/-- A frame that has a verdict is of the archive. -/
theorem frames_of_verdicts (precisions : String → Option Precision) (frames : List BookFrame)
    (key : BookKey) : (verdictsOf floatDigits (checksOf precisions key frames)).map Prod.fst =
      connectionFrames key frames := by
  rw [verdictsOf, frames_checked, checksOf, List.map_map]
  exact List.map_id _

theorem mem_of_judged {precisions : String → Option Precision} {frames : List BookFrame}
    {r : ReplayedRow} {key : BookKey}
    (h : r.judged ∈ verdictsOf floatDigits (checksOf precisions key frames)) :
    r.toBookFrame ∈ frames := by
  have hmem := List.mem_map_of_mem (f := Prod.fst) h
  rw [frames_of_verdicts] at hmem
  exact (mem_connectionFrames.1 hmem).1

/-- A frame of the archive has one verdict. -/
theorem same_verdict {precisions : String → Option Precision} {frames : List BookFrame}
    (hlineage : (frames.map BookFrame.lineage).Nodup) {r r' : ReplayedRow}
    (hr : r.judged ∈ verdictsOf floatDigits (checksOf precisions (BookFrame.key r.toBookFrame) frames))
    (hr' : r'.judged ∈
      verdictsOf floatDigits (checksOf precisions (BookFrame.key r'.toBookFrame) frames))
    (h : BookFrame.lineage r.toBookFrame = BookFrame.lineage r'.toBookFrame) : r.flag = r'.flag := by
  have hframe : r.toBookFrame = r'.toBookFrame :=
    List.inj_on_of_nodup_map hlineage (mem_of_judged hr) (mem_of_judged hr') h
  have hnodup : ((verdictsOf floatDigits
      (checksOf precisions (BookFrame.key r.toBookFrame) frames)).map Prod.fst).Nodup := by
    rw [frames_of_verdicts]
    exact (sortOn_perm _ _).nodup_iff.2 ((hlineage.of_map _).filter _)
  rw [← hframe] at hr'
  have hsame := List.inj_on_of_nodup_map hnodup hr hr' hframe
  exact congrArg Prod.snd hsame

end Judged

/-! ## Runs that receive the precision of a pair -/

/-- A bid of 1.0 at 1.5, and the checksum of the book at one decimal place, received half a second
    before midnight. -/
def checkedSnapshot : BookFrame :=
  { crashSnapshot with
    payload := .kraken "snapshot" [⟨15000000000, 10000000000⟩] [] 2430200503 none
    recvTsNs := 86399500000000 }

/-- The bid repeated, half a second after midnight. -/
def checkedUpdate : BookFrame :=
  { checkedSnapshot with
    payload := .kraken "update" [⟨15000000000, 10000000000⟩] [] 2430200503 none
    recvTsNs := 86400500000000
    connMsgSeq := 1
    srcOffset := 1 }

def precisionRun (pricePrecision srcOffset : Int) (frames : List BookFrame) : StageRun where
  instruments := [⟨[⟨"BTC/USD", pricePrecision, 8⟩], (srcOffset + 1) * NS, 0, srcOffset⟩]
  tick := crashTick frames ALL_COMMITS

/-! ## What a rebuild keeps -/

/-- Every row's frame has a row in the other tables, and its rows have one `checksum_ok`. -/
def SameVerdicts (t t' : BookTables) : Prop :=
  ∀ r ∈ t.silver .kraken,
    (∃ r' ∈ t'.silver .kraken, BookFrame.lineage r.toBookFrame = BookFrame.lineage r'.toBookFrame) ∧
      ∀ r' ∈ t'.silver .kraken,
        BookFrame.lineage r.toBookFrame = BookFrame.lineage r'.toBookFrame → r.flag = r'.flag

/-- The tables rebuilt after these runs. -/
def rebuiltAfter (floatDigits : Int → Int → String) (runs : List StageRun) (tick : BookTick)
    (exchanges : List Exchange) : BookTables :=
  (booksAfter floatDigits (stageTicks [] runs)).rebuild floatDigits
    { tick with precisions := krakenPrecisions (instrumentsOf runs) } exchanges

/-- **Verdicts that a rebuild keeps**: those of frames that were read at what is still the
    precision of their symbol, of connections whose frames were received in order, by days, if the
    rebuild gets through. -/
theorem verdicts_kept (floatDigits : Int → Int → String) (runs : List StageRun)
    (hingested : Ingested floatDigits runs) (hsettled : PrecisionSettled runs)
    (hdays : DaysInOrder (runs.flatMap fun r => r.tick.arrived .kraken)) (tick : BookTick)
    (exchanges : List Exchange)
    (hthrough : RebuildThrough floatDigits
      { tick with precisions := krakenPrecisions (instrumentsOf runs) }
      (booksAfter floatDigits (stageTicks [] runs)) exchanges) :
    SameVerdicts (booksAfter floatDigits (stageTicks [] runs))
      (rebuiltAfter floatDigits runs tick exchanges) := by
  set precisions := krakenPrecisions (instrumentsOf runs) with hprecisions
  have hempty : TablesJudged floatDigits BookTables.empty fun key =>
      checksOf precisions key (BookTables.empty.bronze .kraken) := judged_empty
  have hread : BookTables.empty.CaughtUp .kraken := rfl
  obtain ⟨hbronze, hjudged⟩ := runs_judged runs hread hempty hingested.archive
    (fun r _ f hf => absurd hf List.not_mem_nil) hingested.ordered hingested.uncut hsettled
  change (booksAfter floatDigits (stageTicks [] runs)).bronze .kraken =
    runs.flatMap (fun r => r.tick.arrived .kraken) at hbronze
  change TablesJudged floatDigits (booksAfter floatDigits (stageTicks [] runs)) _ at hjudged
  intro r hr
  have harchive := hingested.archive
  rw [← hbronze] at harchive hdays
  by_cases hmem : .kraken ∈ exchanges
  · obtain ⟨hrebuilt, hcomplete⟩ := rebuild_judged floatDigits
      { tick with precisions := precisions } hmem harchive hdays (hthrough hmem)
    obtain ⟨r', hr', hframe⟩ := hcomplete _ (mem_of_judged (hjudged.rows r hr))
    refine ⟨⟨r', hr', ?_⟩, fun r' hr' hlineage =>
      same_verdict harchive.lineage (hjudged.rows r hr) (hrebuilt r' hr') hlineage⟩
    exact congrArg BookFrame.lineage hframe.symm
  · have hsilver := (rebuild_others floatDigits { tick with precisions := precisions }
      (booksAfter floatDigits (stageTicks [] runs)) hmem).silver
    rw [rebuiltAfter, hsilver, silver_drop hmem]
    exact ⟨⟨r, hr, rfl⟩, fun r' hr' hlineage =>
      same_verdict harchive.lineage (hjudged.rows r hr) (hjudged.rows r' hr') hlineage⟩

theorem verdicts_kept_at_one_precision :
    ((booksAfter noDigits (stageTicks []
        [precisionRun 1 0 [checkedSnapshot], precisionRun 1 1 [checkedUpdate]])).silver .kraken).map
          ReplayedRow.flag = [some true, some true] ∧
      ((rebuiltAfter noDigits [precisionRun 1 0 [checkedSnapshot], precisionRun 1 1 [checkedUpdate]]
        (crashTick [] ALL_COMMITS) [.kraken]).silver .kraken).map
          (fun r => (BookFrame.lineage (ReplayedRow.toTypedFrame r).toBookFrame,
            ReplayedRow.flag r)) =
        [(BookFrame.lineage checkedSnapshot, some true),
          (BookFrame.lineage checkedUpdate, some true)] ∧
      SameVerdicts
        (booksAfter noDigits (stageTicks []
          [precisionRun 1 0 [checkedSnapshot], precisionRun 1 1 [checkedUpdate]]))
        (rebuiltAfter noDigits [precisionRun 1 0 [checkedSnapshot], precisionRun 1 1 [checkedUpdate]]
          (crashTick [] ALL_COMMITS) [.kraken]) := by
  refine ⟨by decide +kernel, by decide +kernel, verdicts_kept noDigits _ ⟨?_, ?_, ?_⟩ ?_ ?_ _ _ ?_⟩
  · change Archive .kraken [checkedSnapshot, checkedUpdate]
    exact ⟨by decide, by decide, by decide, by decide⟩
  · decide
  · exact ⟨by decide +kernel, by decide +kernel, trivial⟩
  · unfold PrecisionSettled
    decide +kernel
  · change DaysInOrder [checkedSnapshot, checkedUpdate]
    unfold DaysInOrder
    decide
  · exact fun _ => ⟨by decide +kernel, by decide +kernel, trivial⟩

/-- The pair gets a second decimal place after the frame was checked: the rebuild finds that the
    checksum, which was that of the book, is not. -/
theorem verdict_lost : ¬ ∀ runs tick exchanges, Ingested noDigits runs →
    SameVerdicts (booksAfter noDigits (stageTicks [] runs))
      (rebuiltAfter noDigits runs tick exchanges) := by
  intro h
  have hsame := h [precisionRun 1 0 [checkedSnapshot], precisionRun 2 1 []]
    (crashTick [] ALL_COMMITS) [.kraken]
    ⟨⟨by decide, by decide, by decide, by decide⟩, by decide,
      ⟨by decide +kernel, by decide +kernel, trivial⟩⟩
  revert hsame
  unfold SameVerdicts
  decide +kernel

end K2.Lake

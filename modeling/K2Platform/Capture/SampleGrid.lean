import K2Platform.Capture.Replay
import K2Platform.Lib.Grid

/-!
# When a replay samples

The sampler of `replay.rs` keeps one due time.  A frame samples if it has reached a line of the
grid that no frame before it has, whatever order the recorded times come in.

* `read_onGrid` — what one frame emits, and the due time after it.
* `samples_on_grid` — what a replay emits, frame by frame.
-/

set_option autoImplicit false

namespace K2.Capture

open Grid

/-- The frames that a replay reads: those of the lines before the first that is none. -/
def framesRead (fixtureLine : String → Option FixtureLine) : List String → List FixtureLine
  | [] => []
  | line :: lines =>
    if isBlank line then framesRead fixtureLine lines
    else match fixtureLine line with
      | none => []
      | some f => f :: framesRead fixtureLine lines

/-- The recorded times. -/
def times (fs : List FixtureLine) : List Int := fs.map FixtureLine.recvTsNs

/-- The time of the first frame, of those read and the next one. -/
def firstTime (earlier : List FixtureLine) (f : FixtureLine) : Int :=
  ((earlier.head?).getD f).recvTsNs

section Grid

variable (crates : Crates) (serdes : Serdes) (symbols : List String) (intervalNs : Int)

open Classical in
/-- What a frame emits, where it comes after `earlier`: its records, and a snapshot of every book if
    it reaches a new line. -/
noncomputable def frameOutput (a : Adapter) (earlier : List FixtureLine) (f : FixtureLine) :
    List Emitted :=
  let r := a.handleFrame crates serdes (utf8 f.payload) f.recvTsNs
  r.2.records.map .handled ++
    if Reaches (firstTime earlier f) intervalNs (times earlier) f.recvTsNs then
      (symbols.filterMap fun symbol => r.1.snapshot symbol f.recvTsNs).map .sampled
    else []

noncomputable def framesOutput : Adapter → List FixtureLine → List FixtureLine → List Emitted
  | _, _, [] => []
  | a, earlier, f :: fs =>
    frameOutput crates serdes symbols intervalNs a earlier f ++
      framesOutput (a.handleFrame crates serdes (utf8 f.payload) f.recvTsNs).1 (earlier ++ [f]) fs

/-- The locals after some frames. -/
def Replaying.through (st : Replaying) (fs : List FixtureLine) : Except ReplayError Replaying :=
  fs.foldlM (fun st f => (st.read crates serdes symbols intervalNs f).2) st

end Grid

/-! ## One frame -/

/-- The due time is that of the frames read. -/
def OnGrid (intervalNs : Int) (earlier : List FixtureLine) (st : Replaying) : Prop :=
  match earlier with
  | [] => st.nextSampleNs = none
  | first :: _ => ∃ due, st.nextSampleNs = some due ∧
      Due first.recvTsNs intervalNs (times earlier) due

section Read

variable {crates : Crates} {serdes : Serdes} {symbols : List String} {intervalNs : Int}

/-- The due time that a frame is held against. -/
theorem OnGrid.due (hpos : 0 < intervalNs) {earlier : List FixtureLine} {st : Replaying}
    (h : OnGrid intervalNs earlier st) (f : FixtureLine) :
    Due (firstTime earlier f) intervalNs (times earlier)
      (st.nextSampleNs.getD (f.recvTsNs + intervalNs)) := by
  cases earlier with
  | nil =>
    have hnone : st.nextSampleNs = none := h
    rw [hnone]
    exact due_nil hpos
  | cons first earlier =>
    obtain ⟨due, hdue, hleast⟩ := h
    rw [hdue]
    exact hleast

theorem OnGrid.concat {earlier : List FixtureLine} {st : Replaying} {f : FixtureLine} {due : Int}
    (hdue : st.nextSampleNs = some due)
    (h : Due (firstTime earlier f) intervalNs (times earlier ++ [f.recvTsNs]) due) :
    OnGrid intervalNs (earlier ++ [f]) st := by
  cases earlier with
  | nil => exact ⟨due, hdue, h⟩
  | cons first earlier =>
    refine ⟨due, hdue, ?_⟩
    have htimes : times (first :: earlier ++ [f]) = times (first :: earlier) ++ [f.recvTsNs] :=
      List.map_append
    rw [htimes]
    exact h

/-- **One frame**: it samples if it reaches a new line, and then the line behind it is due. -/
theorem read_onGrid (crates : Crates) (serdes : Serdes) (symbols : List String)
    (hpos : 0 < intervalNs) {earlier : List FixtureLine} {st : Replaying}
    (h : OnGrid intervalNs earlier st) (f : FixtureLine) :
    ∃ st', st.read crates serdes symbols intervalNs f =
        (frameOutput crates serdes symbols intervalNs st.adapter earlier f, .ok st') ∧
      st'.adapter = (st.adapter.handleFrame crates serdes (utf8 f.payload) f.recvTsNs).1 ∧
      OnGrid intervalNs (earlier ++ [f]) st' ∧
      (Reaches (firstTime earlier f) intervalNs (times earlier) f.recvTsNs →
        ∃ due, st'.nextSampleNs = some due ∧
          IsLeast {g | Line (firstTime earlier f) intervalNs g ∧ f.recvTsNs < g} due) := by
  have hdue := h.due hpos f
  have hne : intervalNs ≠ 0 := hpos.ne'
  have hreach : Reaches (firstTime earlier f) intervalNs (times earlier) f.recvTsNs ↔
      st.nextSampleNs.getD (f.recvTsNs + intervalNs) ≤ f.recvTsNs := hdue.reaches_iff
  have hnext : (st.handle crates serdes f).1.nextSampleNs = st.nextSampleNs := rfl
  unfold Replaying.read Replaying.sample frameOutput
  simp only [hnext, hreach, if_neg hne]
  by_cases hle : st.nextSampleNs.getD (f.recvTsNs + intervalNs) ≤ f.recvTsNs
  · have hdiv : (f.recvTsNs - st.nextSampleNs.getD (f.recvTsNs + intervalNs)).tdiv intervalNs =
        (f.recvTsNs - st.nextSampleNs.getD (f.recvTsNs + intervalNs)) / intervalNs :=
      Int.tdiv_eq_ediv_of_nonneg (by omega)
    simp only [if_pos hle, hdiv]
    exact ⟨_, rfl, rfl, OnGrid.concat rfl (hdue.tick hpos hle),
      fun _ => ⟨_, rfl, isLeast_above hpos hdue.1.1 hle⟩⟩
  · simp only [if_neg hle]
    exact ⟨_, rfl, rfl, OnGrid.concat rfl (hdue.wait (not_le.1 hle)), fun h => absurd h hle⟩

/-! ## Whole replays -/

theorem readLines_onGrid (hpos : 0 < intervalNs) (fixtureLine : String → Option FixtureLine)
    (lines : List String) :
    ∀ (n : Nat) {earlier : List FixtureLine} {st : Replaying}, OnGrid intervalNs earlier st →
      (st.readLines crates serdes fixtureLine symbols intervalNs n lines).1 =
        framesOutput crates serdes symbols intervalNs st.adapter earlier
          (framesRead fixtureLine lines) := by
  induction lines with
  | nil => exact fun _ _ _ _ => rfl
  | cons line lines ih =>
    intro n earlier st h
    unfold Replaying.readLines framesRead
    split
    · exact ih (n + 1) h
    · cases hline : fixtureLine line with
      | none => rfl
      | some f =>
        obtain ⟨st', hread, hadapter, hgrid, -⟩ :=
          read_onGrid crates serdes symbols hpos h f
        simp only [hread]
        rw [ih (n + 1) hgrid, framesOutput, hadapter]

theorem through_onGrid (crates : Crates) (serdes : Serdes) (symbols : List String)
    (hpos : 0 < intervalNs) (later : List FixtureLine) :
    ∀ {earlier : List FixtureLine} {st : Replaying}, OnGrid intervalNs earlier st →
      ∃ st', st.through crates serdes symbols intervalNs later = .ok st' ∧
        OnGrid intervalNs (earlier ++ later) st' := by
  induction later with
  | nil => exact fun {earlier st} h => ⟨st, rfl, (List.append_nil earlier).symm ▸ h⟩
  | cons f later ih =>
    intro earlier st h
    obtain ⟨st₁, hread, -, hgrid, -⟩ :=
      read_onGrid crates serdes symbols hpos h f
    obtain ⟨st₂, hrest, hgrid₂⟩ := ih hgrid
    refine ⟨st₂, ?_, by rwa [List.append_assoc] at hgrid₂⟩
    rw [Replaying.through, List.foldlM_cons, hread]
    exact hrest

theorem through_concat {st st₁ st₂ : Replaying} {fs : List FixtureLine} {f : FixtureLine}
    {out : List Emitted} (h : st.through crates serdes symbols intervalNs fs = .ok st₁)
    (hread : st₁.read crates serdes symbols intervalNs f = (out, .ok st₂)) :
    st.through crates serdes symbols intervalNs (fs ++ [f]) = .ok st₂ := by
  unfold Replaying.through at h ⊢
  rw [List.foldlM_append, h]
  show [f].foldlM (fun st f => (st.read crates serdes symbols intervalNs f).2) st₁ = .ok st₂
  rw [List.foldlM_cons, hread]
  rfl

end Read

/-- The adapter that a replay begins with. -/
def replayAdapter (adapter : Adapter) (opts : Options) : Adapter :=
  opts.depth.elim (adapter.beginConnection opts.connId)
    (adapter.beginConnection opts.connId).setSnapshotDepth

section Samples

variable (crates : Crates) (serdes : Serdes) (fixtureLine : String → Option FixtureLine)

/-- **The sampler stays on its grid.**  Each frame samples once if its time has reached a line that
    no frame before it has, and otherwise not at all; after it has, the least line behind its time
    is due. -/
theorem samples_on_grid (adapter : Adapter) (input : List String) (opts : Options)
    (hpos : 0 < opts.snapshotIntervalNs) :
    let start := replayAdapter adapter opts
    let frames := framesRead fixtureLine input
    (replay crates serdes fixtureLine adapter input opts).1 =
        framesOutput crates serdes start.symbols opts.snapshotIntervalNs start [] frames ∧
      ∀ earlier f later, frames = earlier ++ f :: later →
        Reaches (firstTime earlier f) opts.snapshotIntervalNs (times earlier) f.recvTsNs →
        ∃ st due, Replaying.through crates serdes start.symbols opts.snapshotIntervalNs
              ⟨start, Stats.default, none⟩ (earlier ++ [f]) = .ok st ∧
          st.nextSampleNs = some due ∧
          IsLeast {g | Line (firstTime earlier f) opts.snapshotIntervalNs g ∧ f.recvTsNs < g}
            due := by
  intro start frames
  have hstart : OnGrid opts.snapshotIntervalNs [] (⟨start, Stats.default, none⟩ : Replaying) := rfl
  refine ⟨readLines_onGrid hpos fixtureLine input 1 hstart, fun earlier f later _ hreach => ?_⟩
  obtain ⟨st, hthrough, hgrid⟩ := through_onGrid crates serdes start.symbols hpos earlier hstart
  obtain ⟨st', hread, -, -, hnext⟩ := read_onGrid crates serdes start.symbols hpos hgrid f
  obtain ⟨due, hdue, hleast⟩ := hnext hreach
  exact ⟨st', due, through_concat hthrough hread, hdue, hleast⟩

end Samples

/-! ## A frame after a silence -/

/-- Nothing parses. -/
def quietSerdes : Serdes where
  kraken := Kraken.Serde.ofFrames [] []
  binance := ⟨fun _ => none, fun _ => none, fun _ => none⟩
  coinbase := Coinbase.Serde.ofFrames []

/-- Three lines, of which the second comes after two grid lines and the third goes back. -/
def lateLines : String → Option FixtureLine
  | "a" => some ⟨0, "{}"⟩
  | "b" => some ⟨12, "{}"⟩
  | "c" => some ⟨3, "{}"⟩
  | _ => none

theorem late_frame_samples :
    let start := replayAdapter (buildAdapter .coinbase Coinbase.atomUsd) ⟨"c1", 5, none⟩
    ∃ st due, Replaying.through (Crates.ofTimes []) quietSerdes start.symbols 5
        ⟨start, Stats.default, none⟩ ([⟨0, "{}"⟩] ++ [⟨12, "{}"⟩]) = .ok st ∧
      st.nextSampleNs = some due ∧ IsLeast {g | Line 0 5 g ∧ 12 < g} due :=
  (samples_on_grid (Crates.ofTimes []) quietSerdes lateLines
    (buildAdapter .coinbase Coinbase.atomUsd) ["a", "b", "c"] ⟨"c1", 5, none⟩ (by decide)).2
    [⟨0, "{}"⟩] ⟨12, "{}"⟩ [⟨3, "{}"⟩] (by decide +kernel)
    ⟨5, ⟨1, by decide, by decide⟩, by decide, by decide⟩

end K2.Capture

import K2Platform.Capture.Lineage

/-!
# Recorded frames through the live adapter

Model of `services/capture-rust/src/replay.rs`: fixture lines through `handle_frame`, with the
sampler ticking off the recorded clock.  Sleeping between frames is left out: it changes nothing
that is emitted.

* `handled_replay` — apart from samples, a replay of lines emits what `handle_frame` returns of
  their frames.
* `rawLines_connection` — the raw records of a connection, frame by frame.
* `beginConnection_run` — a connection does not depend on what an adapter did before it.
-/

set_option autoImplicit false

namespace K2.Capture

structure FixtureLine where
  recvTsNs : Int
  payload : String
  deriving DecidableEq, Repr

structure Options where
  connId : String
  snapshotIntervalNs : Int
  /-- Levels per side in each sampled snapshot; `none` keeps the adapter's. -/
  depth : Option Nat
  deriving DecidableEq, Repr

structure Stats where
  frames : Nat
  records : Nat
  actions : Nat
  firstRecvTsNs : Option Int
  lastRecvTsNs : Option Int
  deriving DecidableEq, Repr

def Stats.default : Stats := ⟨0, 0, 0, none, none⟩

/-- Why a replay stops before the last line. -/
inductive ReplayError where
  /-- `"input line {n} is not a fixture line"`. -/
  | notAFixtureLine (n : Nat)
  /-- The sampler divides by an interval of zero. -/
  | divideByZero
  deriving DecidableEq, Repr

/-- What is handed to `emit`: a record of a frame, or a snapshot of the sampler. -/
inductive Emitted where
  | handled (r : OutRecord)
  | sampled (b : BookSnapshotRecord)
  deriving DecidableEq, Repr

def Emitted.handled? : Emitted → Option OutRecord
  | .handled r => some r
  | .sampled _ => none

/-- The characters that `str::trim` takes off. -/
def isWhitespace (c : Char) : Bool :=
  c.toNat ∈ [0x09, 0x0A, 0x0B, 0x0C, 0x0D, 0x20, 0x85, 0xA0, 0x1680, 0x2028, 0x2029, 0x202F, 0x205F,
    0x3000] || (0x2000 ≤ c.toNat && c.toNat ≤ 0x200A)

/-- `line.trim().is_empty()`. -/
def isBlank (line : String) : Bool := line.toList.all isWhitespace

/-- The locals of the loop of `run`. -/
structure Replaying where
  adapter : Adapter
  stats : Stats
  nextSampleNs : Option Int

section Run

variable (crates : Crates) (serdes : Serdes)

namespace Replaying

/-- One frame, up to the sampler. -/
def handle (st : Replaying) (f : FixtureLine) : Replaying × List OutRecord :=
  let r := st.adapter.handleFrame crates serdes (utf8 f.payload) f.recvTsNs
  ({ st with
     adapter := r.1
     stats := {
       frames := st.stats.frames + 1
       records := st.stats.records + r.2.records.length
       actions := st.stats.actions + r.2.actions.length
       firstRecvTsNs := st.stats.firstRecvTsNs.or (some f.recvTsNs)
       lastRecvTsNs := some f.recvTsNs } },
   r.2.records)

/-- The snapshots of the sampler. -/
def samples (st : Replaying) (symbols : List String) (nowNs : Int) : List BookSnapshotRecord :=
  symbols.filterMap fun symbol => st.adapter.snapshot symbol nowNs

/-- The sampler, after a frame. -/
def sample (st : Replaying) (symbols : List String) (intervalNs recvTsNs : Int) :
    List Emitted × Except ReplayError Replaying :=
  let due := st.nextSampleNs.getD (recvTsNs + intervalNs)
  if due ≤ recvTsNs then
    let out := st.samples symbols recvTsNs
    let stats := { st.stats with records := st.stats.records + out.length }
    let missed := (recvTsNs - due).tdiv intervalNs
    (out.map .sampled,
     if intervalNs = 0 then .error .divideByZero
     else .ok { st with stats := stats, nextSampleNs := some (due + (missed + 1) * intervalNs) })
  else ([], .ok { st with nextSampleNs := some due })

/-- One fixture line. -/
def read (st : Replaying) (symbols : List String) (intervalNs : Int) (f : FixtureLine) :
    List Emitted × Except ReplayError Replaying :=
  let r := st.handle crates serdes f
  let q := r.1.sample symbols intervalNs f.recvTsNs
  (r.2.map .handled ++ q.1, q.2)

variable (fixtureLine : String → Option FixtureLine)

/-- The loop, from line `n` on. -/
def readLines (symbols : List String) (intervalNs : Int) :
    Replaying → Nat → List String → List Emitted × Except ReplayError Stats
  | st, _, [] => ([], .ok st.stats)
  | st, n, line :: lines =>
    if isBlank line then readLines symbols intervalNs st (n + 1) lines
    else match fixtureLine line with
      | none => ([], .error (.notAFixtureLine n))
      | some f =>
        match st.read crates serdes symbols intervalNs f with
        | (out, .error e) => (out, .error e)
        | (out, .ok st') =>
          let rest := readLines symbols intervalNs st' (n + 1) lines
          (out ++ rest.1, rest.2)

end Replaying

/-- `run`. -/
def replay (fixtureLine : String → Option FixtureLine) (adapter : Adapter) (input : List String)
    (opts : Options) : List Emitted × Except ReplayError Stats :=
  let adapter := adapter.beginConnection opts.connId
  let adapter := opts.depth.elim adapter adapter.setSnapshotDepth
  Replaying.readLines crates serdes fixtureLine adapter.symbols opts.snapshotIntervalNs
    ⟨adapter, Stats.default, none⟩ 1 input

/-! ## What a replay emits of frames -/

/-- A received frame: its text and its receipt time. -/
abbrev TextFrame := String × Int

def TextFrame.line (f : TextFrame) : FixtureLine := ⟨f.2, f.1⟩

/-- The records that `handle_frame` returns of each frame. -/
def handledRecords (a : Adapter) (frames : List TextFrame) : List OutRecord :=
  (Mealy.run (fun (a : Adapter) (f : TextFrame) =>
    let r := a.handleFrame crates serdes (utf8 f.1) f.2
    (r.1, r.2.records)) a frames).2

theorem handledRecords_cons (a : Adapter) (f : TextFrame) (frames : List TextFrame) :
    handledRecords crates serdes a (f :: frames) =
      (a.handleFrame crates serdes (utf8 f.1) f.2).2.records ++
        handledRecords crates serdes (a.handleFrame crates serdes (utf8 f.1) f.2).1 frames := rfl

end Run

/-- The lines of the frames are not blank, and each reads back as its frame. -/
def ReadsBack (json : FixtureLine → String) (fixtureLine : String → Option FixtureLine)
    (frames : List TextFrame) : Prop :=
  ∀ f ∈ frames, fixtureLine (json f.line) = some f.line ∧ isBlank (json f.line) = false

section Handled

variable {crates : Crates} {serdes : Serdes}

theorem handled?_sampled (out : List BookSnapshotRecord) :
    (out.map Emitted.sampled).filterMap Emitted.handled? = [] := by
  rw [List.filterMap_map]
  exact List.filterMap_eq_nil_iff.2 fun _ _ => rfl

theorem handled?_handled (out : List OutRecord) :
    (out.map Emitted.handled).filterMap Emitted.handled? = out := by
  rw [List.filterMap_map]
  exact List.filterMap_some

/-- One line: the records of its frame, and the adapter as the frame leaves it. -/
theorem Replaying.read_spec (st : Replaying) (symbols : List String) {intervalNs : Int}
    (hinterval : intervalNs ≠ 0) (f : TextFrame) :
    ∃ st', (st.read crates serdes symbols intervalNs f.line).2 = .ok st' ∧
      st'.adapter = (st.adapter.handleFrame crates serdes (utf8 f.1) f.2).1 ∧
      (st.read crates serdes symbols intervalNs f.line).1.filterMap Emitted.handled? =
        (st.adapter.handleFrame crates serdes (utf8 f.1) f.2).2.records := by
  unfold Replaying.read Replaying.sample
  simp only [if_neg hinterval]
  split
  · refine ⟨_, rfl, rfl, ?_⟩
    rw [List.filterMap_append, handled?_handled, handled?_sampled, List.append_nil]
    rfl
  · refine ⟨_, rfl, rfl, ?_⟩
    rw [List.append_nil, handled?_handled]
    rfl

theorem handled_readLines {json : FixtureLine → String} {fixtureLine : String → Option FixtureLine}
    (symbols : List String) {intervalNs : Int} (hinterval : intervalNs ≠ 0)
    (frames : List TextFrame) (hread : ReadsBack json fixtureLine frames) (st : Replaying) (n : Nat) :
    let out := st.readLines crates serdes fixtureLine symbols intervalNs n
      (frames.map fun f => json f.line)
    (∃ stats, out.2 = .ok stats) ∧
      out.1.filterMap Emitted.handled? = handledRecords crates serdes st.adapter frames := by
  induction frames generalizing st n with
  | nil => exact ⟨⟨_, rfl⟩, rfl⟩
  | cons f frames ih =>
    obtain ⟨hline, hblank⟩ := hread f List.mem_cons_self
    obtain ⟨st', hok, hadapter, hrecords⟩ :=
      st.read_spec symbols hinterval f
    obtain ⟨hstats, hrest⟩ := ih (fun g hg => hread g (List.mem_cons_of_mem f hg)) st' (n + 1)
    have hstep : st.readLines crates serdes fixtureLine symbols intervalNs n
        (json f.line :: frames.map fun f => json f.line) =
      ((st.read crates serdes symbols intervalNs f.line).1 ++
        (st'.readLines crates serdes fixtureLine symbols intervalNs (n + 1)
          (frames.map fun f => json f.line)).1,
       (st'.readLines crates serdes fixtureLine symbols intervalNs (n + 1)
          (frames.map fun f => json f.line)).2) := by
      rw [Replaying.readLines]
      simp only [hblank, Bool.false_eq_true, if_false, hline]
      generalize st.read crates serdes symbols intervalNs f.line = r at hok
      obtain ⟨out, res⟩ := r
      simp only at hok
      subst hok
      rfl
    rw [List.map_cons, hstep]
    refine ⟨hstats, ?_⟩
    simp only
    rw [List.filterMap_append, hrecords, hrest, hadapter]
    rfl

variable (crates serdes) in
/-- **Apart from samples, a replay emits what the adapter returns.** -/
theorem handled_replay {json : FixtureLine → String} {fixtureLine : String → Option FixtureLine}
    (adapter : Adapter) {frames : List TextFrame} (hread : ReadsBack json fixtureLine frames)
    (connId : String) {intervalNs : Int} (hinterval : intervalNs ≠ 0) :
    let out := replay crates serdes fixtureLine adapter (frames.map fun f => json f.line)
      ⟨connId, intervalNs, none⟩
    (∃ stats, out.2 = .ok stats) ∧ out.1.filterMap Emitted.handled? =
      handledRecords crates serdes (adapter.beginConnection connId) frames :=
  handled_readLines _ hinterval frames hread _ _

end Handled

/-! ## The raw records of a connection -/

def OutRecord.raw? : OutRecord → Option RawMessageRecord
  | .raw r => some r
  | _ => none

/-- The raw records among the records. -/
def rawRecords (rs : List OutRecord) : List RawMessageRecord := rs.filterMap OutRecord.raw?

/-- What an export keeps of a raw record: its number, its receipt time and its bytes. -/
abbrev RawLine := Int × Int × List UInt8

def RawMessageRecord.line (r : RawMessageRecord) : RawLine := (r.connMsgSeq, r.recvTsNs, r.payload)

/-- Frames with the numbers they get when `n` frames came before them. -/
def numbered : Int → List TextFrame → List RawLine
  | _, [] => []
  | n, f :: fs => (n + 1, f.2, utf8 f.1) :: numbered (n + 1) fs

theorem rawRecords_append (rs rs' : List OutRecord) :
    rawRecords (rs ++ rs') = rawRecords rs ++ rawRecords rs' := List.filterMap_append

theorem rawRecords_derived {S : Stamp → Prop} {rs : List OutRecord}
    (h : ∀ r ∈ rs, r.DerivedFrom S) : rawRecords rs = [] := by
  refine List.filterMap_eq_nil_iff.2 fun r hr => ?_
  cases r with
  | trade => rfl
  | book => rfl
  | raw raw => exact absurd (h _ hr) id

section Raw

variable {crates : Crates} {serdes : Serdes} {connId : String}

theorem rawRecords_handled (frames : List TextFrame) {a : Adapter}
    (ha : a.Kept (fun _ => True) connId) :
    (rawRecords (handledRecords crates serdes a frames)).map RawMessageRecord.line =
        numbered a.connMsgSeq frames ∧
      ∀ r ∈ rawRecords (handledRecords crates serdes a frames), r.connId = connId := by
  induction frames generalizing a with
  | nil => exact ⟨rfl, fun r hr => nomatch hr⟩
  | cons f frames ih =>
    obtain ⟨hkept, hcount, raw, rest, hrecords, hbytes, hstamp, hrest⟩ :=
      ha.handleFrame crates serdes (utf8 f.1) trivial
    obtain ⟨hlines, hconn⟩ := ih hkept
    injection hstamp with hconnId hseq hrecv
    have hraws : rawRecords (handledRecords crates serdes a (f :: frames)) =
        raw :: rawRecords (handledRecords crates serdes
          (a.handleFrame crates serdes (utf8 f.1) f.2).1 frames) := by
      have hraw : rawRecords (.raw raw :: rest) = [raw] :=
        congrArg (List.cons raw) (rawRecords_derived hrest)
      rw [handledRecords_cons, rawRecords_append, hrecords, hraw]
      rfl
    rw [hraws]
    constructor
    · rw [List.map_cons, hlines, hcount, numbered, RawMessageRecord.line, hseq, hrecv, hbytes]
    · intro r hr
      rcases List.mem_cons.1 hr with rfl | hr
      · exact hconnId
      · exact hconn r hr

variable (crates serdes) in
/-- **The raw records of a connection are its frames, numbered from 1.** -/
theorem rawLines_connection (a : Adapter) (connId : String) (frames : List TextFrame) :
    (rawRecords (handledRecords crates serdes (a.beginConnection connId) frames)).map
        RawMessageRecord.line = numbered 0 frames ∧
      ∀ r ∈ rawRecords (handledRecords crates serdes (a.beginConnection connId) frames),
        r.connId = connId := by
  obtain ⟨hlines, hconn⟩ := rawRecords_handled frames
    (a.kept_beginConnection (fun _ => True) connId)
  have hzero : (a.beginConnection connId).connMsgSeq = 0 := by
    cases a <;> rfl
  rw [hzero] at hlines
  exact ⟨hlines, hconn⟩

end Raw

/-! ## A new connection forgets the old -/

namespace Kraken.Adapter

variable {crates : Crates} {serde : Serde}

theorem begin_applyBook (a : Adapter) (f : BookData) (frameType : String) (recvTsNs n : Int)
    (connId : String) :
    (a.applyBook crates f frameType recvTsNs n).1.beginConnection connId =
      a.beginConnection connId := by
  rw [applyBook_fst]
  rfl

theorem begin_handleEntry (a : Adapter) (f : BookData) (frameType : String) (recvTsNs n : Int)
    (bytes : List UInt8) (connId : String) :
    (a.handleEntry crates frameType recvTsNs n bytes f).1.beginConnection connId =
      a.beginConnection connId := by
  unfold handleEntry
  split
  · exact begin_applyBook a f frameType recvTsNs n connId
  · rfl

theorem begin_drainSymbol (a : Adapter) (symbol connId : String) :
    (a.drainSymbol crates serde symbol).1.beginConnection connId = a.beginConnection connId := by
  rw [drainSymbol_fst]
  rfl

theorem begin_step (a : Adapter) (bytes : List UInt8) (recvTsNs : Int) (connId : String) :
    (a.step crates serde bytes recvTsNs).1.beginConnection connId = a.beginConnection connId := by
  have hrun : ∀ {ι : Type} (step : Adapter → ι → Adapter × Outputs) (is : List ι) (b : Adapter),
      (∀ c i, (step c i).1.beginConnection connId = c.beginConnection connId) →
      (Mealy.run step b is).1.beginConnection connId = b.beginConnection connId := by
    intro ι step is b hstep
    exact Mealy.run_state step
      (I := fun c : Adapter => c.beginConnection connId = b.beginConnection connId)
      (fun c i hc => (hstep c i).trans hc) is b rfl
  unfold step
  simp only
  cases (parse serde bytes).body with
  | book frames => exact hrun _ _ _ fun c f => begin_handleEntry c f _ _ _ _ connId
  | trade trades => rfl
  | instrument pairs =>
    refine (hrun _ _ _ fun c symbol => begin_drainSymbol c symbol connId).trans ?_
    rw [foldl_setPrecision_eq]
    rfl
  | other => rfl

end Kraken.Adapter

namespace Coinbase.Adapter

variable {crates : Crates} {serde : Serde}

theorem begin_applyL2 (a : Adapter) (e : L2Event) (recvTsNs n : Int) (seq : Option Int)
    (connId : String) :
    (a.applyL2 crates e recvTsNs n seq).beginConnection connId = a.beginConnection connId := by
  unfold applyL2
  split
  · rfl
  · split <;> rfl

theorem begin_checkFrame (a : Adapter) (e : Envelope) (connId : String) :
    (a.checkFrame e).1.beginConnection connId = a.beginConnection connId := by
  unfold checkFrame checkSequence
  split
  · simp only
    split <;> rfl
  · rfl

theorem begin_step (a : Adapter) (bytes : List UInt8) (recvTsNs : Int) (connId : String) :
    (a.step crates serde bytes recvTsNs).1.beginConnection connId = a.beginConnection connId := by
  unfold step
  simp only
  split
  · rfl
  · rename_i e _
    have hcheck := begin_checkFrame { a with connMsgSeq := a.connMsgSeq + 1 } e connId
    cases Body.parse serde e with
    | l2 events =>
      refine Eq.trans ?_ hcheck
      exact Mealy.run_state _ (I := fun c : Adapter => c.beginConnection connId =
        (({ a with connMsgSeq := a.connMsgSeq + 1 } : Adapter).checkFrame e).1.beginConnection connId)
        (fun c ev hc => (begin_applyL2 c ev _ _ _ connId).trans hc) events _ rfl
    | trades events => exact hcheck
    | control => exact hcheck
    | other => exact hcheck

end Coinbase.Adapter

namespace Binance.Adapter

variable {serde : Serde}

theorem begin_step (a : Adapter) (bytes : List UInt8) (recvTsNs : Int) (connId : String) :
    (a.step serde bytes recvTsNs).1.beginConnection connId = a.beginConnection connId := by
  have hdata : ∀ (b : Adapter) (stream native data : String) (n : Int),
      (b.handleData serde stream native data recvTsNs n).1.beginConnection connId =
        b.beginConnection connId := by
    intro b stream native data n
    unfold handleData replaceBook
    split
    · rfl
    · split
      · split
        · simp only
          split <;> rfl
        · rfl
      · rfl
  unfold step
  simp only
  split
  · exact hdata _ _ _ _ _
  · rfl

end Binance.Adapter

namespace Adapter

variable {crates : Crates} {serdes : Serdes}

theorem begin_call (a : Adapter) {q : Request} (hq : ∀ depth, q ≠ .setSnapshotDepth depth)
    (connId : String) :
    (a.call crates serdes q).1.beginConnection connId = a.beginConnection connId := by
  cases q with
  | beginConnection _ => cases a <;> rfl
  | setSnapshotDepth depth => exact absurd rfl (hq depth)
  | handleFrame bytes recvTsNs =>
    cases a with
    | kraken a => exact congrArg Adapter.kraken (a.begin_step bytes recvTsNs connId)
    | binance a => exact congrArg Adapter.binance (a.begin_step bytes recvTsNs connId)
    | coinbase a => exact congrArg Adapter.coinbase (a.begin_step bytes recvTsNs connId)
  | snapshot _ _ => rfl

/-- **A connection does not depend on what the adapter did before it.**  The capture process never
    sets the snapshot depth. -/
theorem beginConnection_run {qs : List Request}
    (hqs : ∀ q ∈ qs, ∀ depth, q ≠ .setSnapshotDepth depth) (a : Adapter) (connId : String) :
    (a.run crates serdes qs).1.beginConnection connId = a.beginConnection connId := by
  unfold run
  induction qs generalizing a with
  | nil => rfl
  | cons q qs ih =>
    rw [Mealy.run_cons]
    refine (ih (fun p hp => hqs p (List.mem_cons_of_mem q hp)) _).trans ?_
    exact a.begin_call (hqs q List.mem_cons_self) connId

end Adapter

end K2.Capture

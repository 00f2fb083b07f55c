import K2Platform.Capture.SampleGrid
import K2Platform.Lib.Trace
import K2Platform.Lib.Word

/-!
# The clock of a replay in 64 bits

`replay.rs` and `replay_cmd` of `main.rs` compute intervals and due times in `i64`.  Here every such
operation is checked: a replay stops where one has no result.

* `sample64_eq_ok_iff` — one frame, held against the line that the frames before it leave.
* `replayCmd_traps_iff` — a replay traps exactly where the interval and the recorded times do not
  fit (`ClockFits`).
* `run64_eq_replay` — where it does not trap, it is the replay in exact integers.
-/

set_option autoImplicit false

namespace K2.Capture

open Grid

/-- Why a replay in machine integers stops before the last line. -/
inductive Halt where
  /-- `"input line {n} is not a fixture line"`. -/
  | notAFixtureLine (n : Nat)
  | overflow
  | divideByZero
  deriving DecidableEq, Repr

/-- It panics, rather than returning an error. -/
def Halt.Trap (h : Halt) : Prop := h = .overflow ∨ h = .divideByZero

/-- The `i64` that an operation yields. -/
def checked (x : Int) : Except Halt Int := if I64.InRange x then .ok x else .error .overflow

def checkedDiv (x y : Int) : Except Halt Int :=
  if y = 0 then .error .divideByZero else checked (x.tdiv y)

/-- `due + (missed + 1) * interval`. -/
def nextDue (intervalNs due recvTsNs : Int) : Except Halt Int := do
  let behind ← checked (recvTsNs - due)
  let missed ← checkedDiv behind intervalNs
  let lines ← checked (missed + 1)
  let skip ← checked (lines * intervalNs)
  checked (due + skip)

section Run

variable (crates : Crates) (serdes : Serdes)

namespace Replaying

/-- The locals after a sample. -/
def sampled (st : Replaying) (symbols : List String) (recvTsNs next : Int) : Replaying :=
  { st with
    stats := { st.stats with records := st.stats.records + (st.samples symbols recvTsNs).length }
    nextSampleNs := some next }

/-- The sampler, after a frame. -/
def sample64 (st : Replaying) (symbols : List String) (intervalNs recvTsNs : Int) :
    List Emitted × Except Halt Replaying :=
  -- the argument of `get_or_insert` is computed at every frame
  match checked (recvTsNs + intervalNs) with
  | .error e => ([], .error e)
  | .ok firstDue =>
    let due := st.nextSampleNs.getD firstDue
    if due ≤ recvTsNs then
      ((st.samples symbols recvTsNs).map .sampled,
       (nextDue intervalNs due recvTsNs).map (st.sampled symbols recvTsNs))
    else ([], .ok { st with nextSampleNs := some due })

def read64 (st : Replaying) (symbols : List String) (intervalNs : Int) (f : FixtureLine) :
    List Emitted × Except Halt Replaying :=
  let r := st.handle crates serdes f
  let q := r.1.sample64 symbols intervalNs f.recvTsNs
  (r.2.map .handled ++ q.1, q.2)

variable (fixtureLine : String → Option FixtureLine)

/-- The loop, from line `n` on. -/
def readLines64 (symbols : List String) (intervalNs : Int) :
    Replaying → Nat → List String → List Emitted × Except Halt Stats
  | st, _, [] => ([], .ok st.stats)
  | st, n, line :: lines =>
    if isBlank line then readLines64 symbols intervalNs st (n + 1) lines
    else match fixtureLine line with
      | none => ([], .error (.notAFixtureLine n))
      | some f =>
        match st.read64 crates serdes symbols intervalNs f with
        | (out, .error e) => (out, .error e)
        | (out, .ok st') =>
          let rest := readLines64 symbols intervalNs st' (n + 1) lines
          (out ++ rest.1, rest.2)

end Replaying

variable (fixtureLine : String → Option FixtureLine)

/-- `run`. -/
def run64 (adapter : Adapter) (input : List String) (opts : Options) :
    List Emitted × Except Halt Stats :=
  let start := replayAdapter adapter opts
  Replaying.readLines64 crates serdes fixtureLine start.symbols opts.snapshotIntervalNs
    ⟨start, Stats.default, none⟩ 1 input

/-- `replay_cmd`, from the product on: an interval that overflows ends it before the replay. -/
def replayFrom (adapter : Adapter) (input : List String) (connId : String) (depth : Option Nat) :
    Except Halt Int → List Emitted × Except Halt Stats
  | .error e => ([], .error e)
  | .ok intervalNs => run64 crates serdes fixtureLine adapter input ⟨connId, intervalNs, depth⟩

/-- `replay_cmd`, which computes `(args.interval_ms as i64) * 1_000_000`. -/
def replayCmd (adapter : Adapter) (input : List String) (connId : String) (intervalMs : Nat)
    (depth : Option Nat) : List Emitted × Except Halt Stats :=
  replayFrom crates serdes fixtureLine adapter input connId depth
    (checked (I64.wrap intervalMs * 1000000))

end Run

/-! ## What fits -/

/-- A frame whose due time, and whose way from the line kept until then, are 64-bit integers. -/
structure FrameFits (intervalNs : Int) (earlier : List Int) (t : Int) : Prop where
  interval_ne_zero : intervalNs ≠ 0
  due : I64.InRange (t + intervalNs)
  /-- Counting forward: no further than that from the greatest time before it. -/
  forward : 0 < intervalNs → ∀ m ∈ earlier, (∀ s ∈ earlier, s ≤ m) →
    lastLine intervalNs ((earlier.head?).getD t) t -
      lastLine intervalNs ((earlier.head?).getD t) m ≤ I64.MAX
  /-- Counting backward: the line kept may be far behind, and the next one below all integers. -/
  backward : intervalNs < 0 →
    t - kept intervalNs ((earlier.head?).getD t) earlier - intervalNs ≤ I64.MAX ∧
      (kept intervalNs ((earlier.head?).getD t) earlier + intervalNs ≤ t →
        I64.MIN ≤ lastLine intervalNs ((earlier.head?).getD t) t + intervalNs)

/-- The interval, and every frame against those before it. -/
def ClockFits (intervalMs : Nat) (recvs : List Int) : Prop :=
  I64.InRange (I64.wrap intervalMs * 1000000) ∧
    Trace.Everywhere (FrameFits (I64.wrap intervalMs * 1000000)) recvs

/-! ## One frame -/

theorem checked_eq_ok_iff {x y : Int} : checked x = .ok y ↔ I64.InRange x ∧ y = x := by
  unfold checked
  by_cases h : I64.InRange x
  · simp [h, eq_comm]
  · simp [h]

theorem checkedDiv_eq_ok_iff {x y z : Int} :
    checkedDiv x y = .ok z ↔ y ≠ 0 ∧ I64.InRange (x.tdiv y) ∧ z = x.tdiv y := by
  unfold checkedDiv
  by_cases h : y = 0
  · simp [h]
  · simp [h, checked_eq_ok_iff]

theorem bind_eq_ok_iff {α β : Type} {x : Except Halt α} {f : α → Except Halt β} {b : β} :
    (x >>= f) = .ok b ↔ ∃ a, x = .ok a ∧ f a = .ok b := by
  constructor
  · intro h
    cases x with
    | error e => cases h
    | ok a => exact ⟨a, rfl, h⟩
  · rintro ⟨a, rfl, hf⟩
    exact hf

theorem nextDue_eq_ok_iff {intervalNs due t next : Int} :
    nextDue intervalNs due t = .ok next ↔
      I64.InRange (t - due) ∧ intervalNs ≠ 0 ∧ I64.InRange ((t - due).tdiv intervalNs) ∧
        I64.InRange ((t - due).tdiv intervalNs + 1) ∧
        I64.InRange (((t - due).tdiv intervalNs + 1) * intervalNs) ∧
        I64.InRange (due + ((t - due).tdiv intervalNs + 1) * intervalNs) ∧
        next = due + ((t - due).tdiv intervalNs + 1) * intervalNs := by
  unfold nextDue
  simp only [bind_eq_ok_iff, checked_eq_ok_iff, checkedDiv_eq_ok_iff]
  constructor
  · rintro ⟨_, ⟨hbehind, rfl⟩, _, ⟨hne, hmissed, rfl⟩, _, ⟨hlines, rfl⟩, _, ⟨hskip, rfl⟩, hnext⟩
    exact ⟨hbehind, hne, hmissed, hlines, hskip, hnext⟩
  · rintro ⟨hbehind, hne, hmissed, hlines, hskip, hnext⟩
    exact ⟨_, ⟨hbehind, rfl⟩, _, ⟨hne, hmissed, rfl⟩, _, ⟨hlines, rfl⟩, _, ⟨hskip, rfl⟩, hnext⟩

/-- What is missed of the lines, and what is skipped, where the time is not before the due one. -/
theorem missed_bounds (intervalNs : Int) {behind : Int} (h : 0 ≤ behind) :
    -behind ≤ behind.tdiv intervalNs ∧ behind.tdiv intervalNs ≤ behind ∧
      (0 < intervalNs → behind.tdiv intervalNs + 1 ≤ (behind.tdiv intervalNs + 1) * intervalNs) ∧
      (intervalNs < 0 → behind.tdiv intervalNs ≤ 0 ∧
        intervalNs ≤ (behind.tdiv intervalNs + 1) * intervalNs) := by
  have hquot := Int.natAbs_tdiv_le_natAbs behind intervalNs
  refine ⟨by omega, by omega, fun hpos => ?_, fun hneg => ?_⟩
  · have hmissed : 0 ≤ behind.tdiv intervalNs := Int.tdiv_nonneg h hpos.le
    exact le_mul_of_one_le_right (by omega) hpos
  · have hmissed : behind.tdiv intervalNs ≤ 0 := Int.tdiv_nonpos_of_nonneg_of_nonpos h hneg.le
    have hmul : 1 * intervalNs ≤ (behind.tdiv intervalNs + 1) * intervalNs :=
      Int.mul_le_mul_of_nonpos_right (by omega) hneg.le
    exact ⟨hmissed, by omega⟩

/-- From a line of the grid, the way to the next due time and that time itself are to fit. -/
theorem nextDue_line {intervalNs first l t next : Int} (hne : intervalNs ≠ 0)
    (hI : I64.InRange intervalNs) (hline : ∃ k : Int, l = first + k * intervalNs.natAbs)
    (hle : l + intervalNs ≤ t) :
    nextDue intervalNs (l + intervalNs) t = .ok next ↔
      t - (l + intervalNs) ≤ I64.MAX ∧ lastLine intervalNs first t - l ≤ I64.MAX ∧
        I64.InRange (lastLine intervalNs first t + intervalNs) ∧
        next = lastLine intervalNs first t + intervalNs := by
  obtain ⟨k, hk⟩ := hline
  have hskip := skip_eq first t hne (hk ▸ hle)
  rw [← hk] at hskip
  obtain ⟨hlow, hhigh, hforward, hbackward⟩ :=
    missed_bounds intervalNs (show 0 ≤ t - (l + intervalNs) by omega)
  rw [nextDue_eq_ok_iff]
  rw [hskip] at hforward hbackward ⊢
  have hnext : l + intervalNs + (lastLine intervalNs first t - l) =
      lastLine intervalNs first t + intervalNs := by omega
  rw [hnext]
  unfold I64.InRange I64.MIN I64.MAX at *
  constructor
  · rintro ⟨hbehind, -, -, -, hroom, hdue, rfl⟩
    exact ⟨hbehind.2, hroom.2, hdue, rfl⟩
  · rintro ⟨hbehind, hroom, hdue, rfl⟩
    rcases lt_or_gt_of_ne hne with hneg | hpos
    · obtain ⟨hmissed, hback⟩ := hbackward hneg
      exact ⟨by omega, hne, by omega, by omega, by omega, hdue, rfl⟩
    · have hlines := hforward hpos
      have hmissed := Int.tdiv_nonneg (show 0 ≤ t - (l + intervalNs) by omega) hpos.le
      exact ⟨by omega, hne, by omega, by omega, by omega, hdue, rfl⟩

/-- The due time is that of the line kept of the frames read. -/
def OnClock (intervalNs : Int) (earlier : List Int) (next : Option Int) : Prop :=
  match earlier with
  | [] => next = none
  | first :: _ => next = some (kept intervalNs first earlier + intervalNs)

section Frame

variable {intervalNs t : Int} {earlier : List Int}

theorem OnClock.getD {next : Option Int} (h : OnClock intervalNs earlier next) (t : Int) :
    next.getD (t + intervalNs) =
      kept intervalNs ((earlier.head?).getD t) earlier + intervalNs := by
  cases earlier with
  | nil =>
    have hnone : next = none := h
    rw [hnone]
    rfl
  | cons first earlier =>
    have hsome : next = some (kept intervalNs first (first :: earlier) + intervalNs) := h
    rw [hsome]
    rfl

theorem OnClock.concat {next : Int}
    (h : next = kept intervalNs ((earlier.head?).getD t) (earlier ++ [t]) + intervalNs) :
    OnClock intervalNs (earlier ++ [t]) (some next) := by
  cases earlier with
  | nil => exact congrArg some h
  | cons first earlier => exact congrArg some h

/-- A frame that samples nothing only needs its first due time. -/
theorem frameFits_of_lt (hne : intervalNs ≠ 0) (hI : I64.InRange intervalNs)
    (hlt : t < kept intervalNs ((earlier.head?).getD t) earlier + intervalNs) :
    FrameFits intervalNs earlier t ↔ I64.InRange (t + intervalNs) := by
  refine ⟨FrameFits.due, fun hdue => ⟨hne, hdue, fun hpos m hm hgreatest => ?_, fun hneg => ?_⟩⟩
  · cases earlier with
    | nil => exact absurd hm List.not_mem_nil
    | cons first earlier =>
      have hback := lastLine_le first t hne
      simp only [List.head?_cons, Option.getD_some] at hlt ⊢
      rw [kept_eq_of_greatest hpos hm hgreatest] at hlt
      unfold I64.InRange I64.MAX at *
      omega
  · unfold I64.MAX
    exact ⟨by omega, fun hle => by omega⟩

/-- A frame that samples. -/
theorem frameFits_of_le (hne : intervalNs ≠ 0) (ht : I64.InRange t)
    (hle : kept intervalNs ((earlier.head?).getD t) earlier + intervalNs ≤ t) :
    FrameFits intervalNs earlier t ↔
      I64.InRange (t + intervalNs) ∧
        t - (kept intervalNs ((earlier.head?).getD t) earlier + intervalNs) ≤ I64.MAX ∧
        lastLine intervalNs ((earlier.head?).getD t) t -
          kept intervalNs ((earlier.head?).getD t) earlier ≤ I64.MAX ∧
        I64.InRange (lastLine intervalNs ((earlier.head?).getD t) t + intervalNs) := by
  have hback := lastLine_le ((earlier.head?).getD t) t hne
  have hahead := lt_lastLine_add ((earlier.head?).getD t) t hne
  rcases lt_or_gt_of_ne hne with hneg | hpos
  · constructor
    · intro h
      obtain ⟨hbehind, hnext⟩ := h.backward hneg
      have hlow := hnext hle
      unfold I64.InRange I64.MIN I64.MAX at *
      exact ⟨h.due, by omega, by omega, hlow, by omega⟩
    · rintro ⟨hdue, hbehind, -, hnext⟩
      refine ⟨hne, hdue, fun hpos => by omega, fun _ => ⟨by omega, fun _ => hnext.1⟩⟩
  · cases earlier with
    | nil =>
      -- the first line of all is behind its own frame
      have hwait : t + intervalNs ≤ t := hle
      omega
    | cons first earlier =>
      obtain ⟨m, hm, hgreatest, hkept⟩ := exists_greatest first hpos earlier
      simp only [List.head?_cons, Option.getD_some] at hle hback hahead ⊢
      rw [hkept] at hle ⊢
      constructor
      · intro h
        have hroom := h.forward hpos m hm hgreatest
        have hdue := h.due
        simp only [List.head?_cons, Option.getD_some] at hroom
        unfold I64.InRange I64.MIN I64.MAX at *
        exact ⟨hdue, by omega, hroom, by omega, by omega⟩
      · rintro ⟨hdue, -, hroom, -⟩
        refine ⟨hne, hdue, fun _ m' hm' hgreatest' => ?_, fun hneg => by omega⟩
        rw [le_antisymm (hgreatest m' hm') (hgreatest' m hm)]
        exact hroom

theorem map_eq_ok_iff {α β : Type} {x : Except Halt α} {f : α → β} {b : β} :
    x.map f = .ok b ↔ ∃ a, x = .ok a ∧ b = f a := by
  cases x with
  | error e => simp [Except.map]
  | ok a => simp [Except.map, eq_comm]

/-- What the sampler makes of a frame. -/
theorem sample64_eq_ok_iff {st st' : Replaying} (symbols : List String) {l : Int}
    (hclock : OnClock intervalNs earlier st.nextSampleNs)
    (hl : l = kept intervalNs ((earlier.head?).getD t) earlier) :
    (st.sample64 symbols intervalNs t).2 = .ok st' ↔
      I64.InRange (t + intervalNs) ∧
        ((l + intervalNs ≤ t ∧ ∃ next, nextDue intervalNs (l + intervalNs) t = .ok next ∧
            st' = st.sampled symbols t next) ∨
          (t < l + intervalNs ∧ st' = { st with nextSampleNs := some (l + intervalNs) })) := by
  subst hl
  unfold Replaying.sample64
  by_cases hdue : I64.InRange (t + intervalNs)
  · rw [checked, if_pos hdue]
    simp only [hclock.getD t, hdue, true_and]
    by_cases hle : kept intervalNs ((earlier.head?).getD t) earlier + intervalNs ≤ t
    · rw [if_pos hle, and_iff_right hle, or_iff_left fun h => not_lt.2 hle h.1]
      exact map_eq_ok_iff
    · rw [if_neg hle, and_iff_right (not_le.1 hle), or_iff_right fun h => hle h.1, Except.ok.injEq]
      exact eq_comm
  · rw [checked, if_neg hdue]
    simp [hdue]

/-- **One frame**: its sampling has a result exactly if it fits. -/
theorem sample64_ok_iff {st : Replaying} (symbols : List String) (hI : I64.InRange intervalNs)
    (ht : I64.InRange t) (hclock : OnClock intervalNs earlier st.nextSampleNs)
    (hne : earlier ≠ [] → intervalNs ≠ 0) :
    (∃ st', (st.sample64 symbols intervalNs t).2 = .ok st') ↔ FrameFits intervalNs earlier t := by
  simp only [sample64_eq_ok_iff symbols hclock rfl]
  rcases lt_or_ge t (kept intervalNs ((earlier.head?).getD t) earlier + intervalNs) with hlt | hle
  · have hzero : intervalNs ≠ 0 := by
      cases earlier with
      | nil =>
        have hwait : t < t + intervalNs := hlt
        omega
      | cons first earlier => exact hne (List.cons_ne_nil _ _)
    rw [frameFits_of_lt hzero hI hlt]
    constructor
    · rintro ⟨st', hdue, -⟩
      exact hdue
    · intro hdue
      exact ⟨_, hdue, Or.inr ⟨hlt, rfl⟩⟩
  · constructor
    · rintro ⟨st', hdue, ⟨-, next, hnext, -⟩ | ⟨hlt, -⟩⟩
      · have hzero : intervalNs ≠ 0 := (nextDue_eq_ok_iff.1 hnext).2.1
        obtain ⟨hbehind, hroom, hlater, -⟩ := (nextDue_line hzero hI (kept_line earlier) hle).1 hnext
        exact (frameFits_of_le hzero ht hle).2 ⟨hdue, hbehind, hroom, hlater⟩
      · exact absurd hlt (not_lt.2 hle)
    · intro h
      have hzero := h.interval_ne_zero
      obtain ⟨hdue, hbehind, hroom, hlater⟩ := (frameFits_of_le hzero ht hle).1 h
      exact ⟨_, hdue, Or.inl ⟨hle, _,
        (nextDue_line hzero hI (kept_line earlier) hle).2 ⟨hbehind, hroom, hlater, rfl⟩, rfl⟩⟩

/-- The clock after it. -/
theorem sample64_onClock {st st' : Replaying} {symbols : List String}
    (hI : I64.InRange intervalNs) (hclock : OnClock intervalNs earlier st.nextSampleNs)
    (h : (st.sample64 symbols intervalNs t).2 = .ok st') :
    OnClock intervalNs (earlier ++ [t]) st'.nextSampleNs ∧ st'.adapter = st.adapter := by
  obtain ⟨-, ⟨hle, next, hnext, rfl⟩ | ⟨hlt, rfl⟩⟩ := (sample64_eq_ok_iff symbols hclock rfl).1 h
  · have hzero : intervalNs ≠ 0 := (nextDue_eq_ok_iff.1 hnext).2.1
    obtain ⟨-, -, -, rfl⟩ := (nextDue_line hzero hI (kept_line earlier) hle).1 hnext
    exact ⟨OnClock.concat (by rw [kept_concat, if_pos hle]), rfl⟩
  · exact ⟨OnClock.concat (by rw [kept_concat, if_neg (not_le.2 hlt)]), rfl⟩

end Frame

/-! ## Whole replays -/

/-- It stopped in a panic. -/
def Trapped {α : Type} (r : Except Halt α) : Prop := ∃ e, r = .error e ∧ e.Trap

section Replays

variable {crates : Crates} {serdes : Serdes} {symbols : List String} {intervalNs : Int}
  {fixtureLine : String → Option FixtureLine}

theorem checked_eq_error {x : Int} {e : Halt} (h : checked x = .error e) : e.Trap := by
  unfold checked at h
  split at h
  · cases h
  · cases h
    exact Or.inl rfl

theorem checkedDiv_eq_error {x y : Int} {e : Halt} (h : checkedDiv x y = .error e) : e.Trap := by
  unfold checkedDiv at h
  split at h
  · cases h
    exact Or.inr rfl
  · exact checked_eq_error h

theorem bind_eq_error {α β : Type} {x : Except Halt α} {f : α → Except Halt β} {e : Halt}
    (hx : ∀ e, x = .error e → e.Trap) (hf : ∀ a e, f a = .error e → e.Trap)
    (h : (x >>= f) = .error e) : e.Trap := by
  cases x with
  | error e' =>
    cases h
    exact hx e rfl
  | ok a => exact hf a e h

theorem nextDue_eq_error {due t : Int} {e : Halt} (h : nextDue intervalNs due t = .error e) :
    e.Trap := by
  unfold nextDue at h
  refine bind_eq_error (fun _ => checked_eq_error) (fun behind _ h => ?_) h
  refine bind_eq_error (fun _ => checkedDiv_eq_error) (fun missed _ h => ?_) h
  refine bind_eq_error (fun _ => checked_eq_error) (fun lines _ h => ?_) h
  exact bind_eq_error (fun _ => checked_eq_error) (fun skip _ h => checked_eq_error h) h

/-- A sampler that stops has trapped. -/
theorem sample64_eq_error {st : Replaying} {t : Int} {e : Halt}
    (h : (st.sample64 symbols intervalNs t).2 = .error e) : e.Trap := by
  unfold Replaying.sample64 at h
  cases hdue : checked (t + intervalNs) with
  | error e' =>
    rw [hdue] at h
    cases h
    exact checked_eq_error hdue
  | ok firstDue =>
    simp only [hdue] at h
    split at h
    · cases hnext : nextDue intervalNs (st.nextSampleNs.getD firstDue) t with
      | error e' =>
        simp only [hnext] at h
        cases h
        exact nextDue_eq_error hnext
      | ok next =>
        simp only [hnext] at h
        cases h
    · cases h

/-- One line that is a frame: what the rest gives, unless the sampler stops. -/
theorem readLines64_frame {st : Replaying} {line : String} {f : FixtureLine} (n : Nat)
    (lines : List String) (hblank : isBlank line = false) (hline : fixtureLine line = some f) :
    (st.readLines64 crates serdes fixtureLine symbols intervalNs n (line :: lines)).2 =
      ((st.handle crates serdes f).1.sample64 symbols intervalNs f.recvTsNs).2 >>= fun st' =>
        (st'.readLines64 crates serdes fixtureLine symbols intervalNs (n + 1) lines).2 := by
  rw [Replaying.readLines64, hblank, if_neg Bool.false_ne_true]
  simp only [hline, Replaying.read64]
  cases ((st.handle crates serdes f).1.sample64 symbols intervalNs f.recvTsNs).2 with
  | error e => rfl
  | ok st' => rfl

/-- **The loop** traps exactly where a frame does not fit. -/
theorem readLines64_trapped_iff (hI : I64.InRange intervalNs)
    (hrecv : ∀ line f, fixtureLine line = some f → I64.InRange f.recvTsNs) (lines : List String) :
    ∀ (n : Nat) {earlier : List Int} {st : Replaying},
      OnClock intervalNs earlier st.nextSampleNs → (earlier ≠ [] → intervalNs ≠ 0) →
      (¬ Trapped (st.readLines64 crates serdes fixtureLine symbols intervalNs n lines).2 ↔
        Trace.Everywhere (fun pre t => FrameFits intervalNs (earlier ++ pre) t)
          (times (framesRead fixtureLine lines))) := by
  induction lines with
  | nil =>
    intro n earlier st _ _
    refine iff_of_true ?_ (Trace.everywhere_nil _)
    rintro ⟨e, he, -⟩
    cases he
  | cons line lines ih =>
    intro n earlier st hclock hne
    cases hblank : isBlank line with
    | true =>
      rw [Replaying.readLines64, framesRead, hblank, if_pos rfl, if_pos rfl]
      exact ih (n + 1) hclock hne
    | false =>
      cases hline : fixtureLine line with
      | none =>
        rw [Replaying.readLines64, framesRead, hblank, if_neg Bool.false_ne_true,
          if_neg Bool.false_ne_true]
        simp only [hline]
        refine iff_of_true ?_ (Trace.everywhere_nil _)
        rintro ⟨e, he, htrap⟩
        cases he
        rcases htrap with h | h <;> cases h
      | some f =>
        have hhandle : OnClock intervalNs earlier (st.handle crates serdes f).1.nextSampleNs := hclock
        have hok := sample64_ok_iff symbols hI (hrecv line f hline) hhandle hne
        have hframes : times (framesRead fixtureLine (line :: lines)) =
            f.recvTsNs :: times (framesRead fixtureLine lines) := by
          rw [framesRead, hblank, if_neg Bool.false_ne_true]
          simp only [hline]
          rfl
        rw [readLines64_frame n lines hblank hline, hframes, Trace.everywhere_cons, List.append_nil,
          ← hok]
        cases hsample : ((st.handle crates serdes f).1.sample64 symbols intervalNs f.recvTsNs).2 with
        | error e =>
          refine iff_of_false (fun h => h ⟨e, rfl, sample64_eq_error hsample⟩) ?_
          rintro ⟨⟨st', hst'⟩, -⟩
          cases hst'
        | ok st' =>
          obtain ⟨hclock', -⟩ := sample64_onClock hI hhandle hsample
          have hzero : intervalNs ≠ 0 := (hok.1 ⟨st', hsample⟩).interval_ne_zero
          have hrest := ih (n + 1) hclock' fun _ => hzero
          simp only [List.append_assoc, List.singleton_append] at hrest
          rw [and_iff_right ⟨st', rfl⟩]
          exact hrest

end Replays

theorem replayFrom_trapped_iff (crates : Crates) (serdes : Serdes)
    {fixtureLine : String → Option FixtureLine}
    (hrecv : ∀ line f, fixtureLine line = some f → I64.InRange f.recvTsNs) (adapter : Adapter)
    (input : List String) (connId : String) (depth : Option Nat) (intervalNs : Int) :
    ¬ Trapped
        (replayFrom crates serdes fixtureLine adapter input connId depth (checked intervalNs)).2 ↔
      I64.InRange intervalNs ∧
        Trace.Everywhere (FrameFits intervalNs) (times (framesRead fixtureLine input)) := by
  by_cases hI : I64.InRange intervalNs
  · have hstart : OnClock intervalNs []
        (⟨replayAdapter adapter ⟨connId, intervalNs, depth⟩, Stats.default, none⟩ :
          Replaying).nextSampleNs := rfl
    rw [checked, if_pos hI, and_iff_right hI]
    exact readLines64_trapped_iff hI hrecv input 1 hstart fun h => absurd rfl h
  · rw [checked, if_neg hI]
    exact iff_of_false (fun h => h ⟨.overflow, rfl, Or.inl rfl⟩) fun h => hI h.1

/-- **A replay traps** exactly where its interval or its times do not fit. -/
theorem replayCmd_traps_iff (crates : Crates) (serdes : Serdes)
    (fixtureLine : String → Option FixtureLine)
    (hrecv : ∀ line f, fixtureLine line = some f → I64.InRange f.recvTsNs) (adapter : Adapter)
    (input : List String) (connId : String) (intervalMs : Nat) (depth : Option Nat) :
    ¬ Trapped (replayCmd crates serdes fixtureLine adapter input connId intervalMs depth).2 ↔
      ClockFits intervalMs (times (framesRead fixtureLine input)) := by
  rw [replayCmd, ClockFits]
  exact replayFrom_trapped_iff crates serdes hrecv adapter input connId depth _

theorem replayCmd_divides_by_zero :
    Trapped (replayCmd (Crates.ofTimes []) quietSerdes lateLines
      (buildAdapter .coinbase Coinbase.atomUsd) ["a"] "c1" 0 none).2 :=
  ⟨.divideByZero, by decide +kernel, Or.inr rfl⟩

/-- Recorded times are after 1970, and intervals are positive: then only the last of the 64-bit
    times are out of reach. -/
theorem clockFits_of_nonneg {intervalMs : Nat} (hpos : 0 < intervalMs)
    (hle : intervalMs ≤ 9223372036854) {recvs : List Int}
    (h : ∀ t ∈ recvs, 0 ≤ t ∧ t + intervalMs * 1000000 ≤ I64.MAX) : ClockFits intervalMs recvs := by
  have hwrap : I64.wrap intervalMs = intervalMs := by
    refine I64.wrap_of_inRange ?_
    unfold I64.InRange I64.MIN I64.MAX
    omega
  unfold ClockFits
  rw [hwrap]
  constructor
  · unfold I64.InRange I64.MIN I64.MAX
    omega
  · intro earlier t later hsplit
    obtain ⟨ht, htop⟩ := h t (hsplit ▸ by simp)
    have hmem : ∀ m ∈ earlier, 0 ≤ m := fun m hm =>
      (h m (hsplit ▸ List.mem_append_left _ hm)).1
    generalize hI : (intervalMs : Int) * 1000000 = intervalNs at htop ⊢
    have hinterval : 0 < intervalNs := by omega
    unfold I64.MAX at htop
    refine ⟨hinterval.ne', ?_, fun _ m hm _ => ?_, fun hneg => absurd hneg (by omega)⟩
    · unfold I64.InRange I64.MIN I64.MAX
      omega
    · have hback := lastLine_le ((earlier.head?).getD t) t hinterval.ne'
      have hahead := lt_lastLine_add ((earlier.head?).getD t) m hinterval.ne'
      have hm0 := hmem m hm
      unfold I64.MAX
      omega

/-- A book, and three frames 5.2, 5.9 and 8.4 milliseconds after it. -/
def spacedLines : String → Option FixtureLine
  | "a" => some ⟨1787746425000000000,
    Coinbase.l2Json (0, [Coinbase.atomEvent "snapshot" "1.5577" "92.81"])⟩
  | "b" => some ⟨1787746425005200000, "{}"⟩
  | "c" => some ⟨1787746425005900000, "{}"⟩
  | "d" => some ⟨1787746425008400000, "{}"⟩
  | _ => none

def spacedSerdes : Serdes :=
  { quietSerdes with
    coinbase := Coinbase.Serde.ofFrames [(0, [Coinbase.atomEvent "snapshot" "1.5577" "92.81"])] }

theorem spacedLines_recv (line : String) (f : FixtureLine) (h : spacedLines line = some f) :
    I64.InRange f.recvTsNs := by
  unfold spacedLines at h
  split at h <;> cases h <;> decide

/-- When the books that are sampled were. -/
def sampledAt (out : List Emitted) : List Int :=
  out.filterMap fun
    | .sampled b => some b.snapshotTsNs
    | .handled _ => none

/-- On the line of each millisecond, the second frame is four lines late and the fourth two. -/
theorem late_replay_does_not_trap :
    sampledAt (replayCmd Coinbase.timed spacedSerdes spacedLines
      (buildAdapter .coinbase Coinbase.atomUsd) ["a", "b", "c", "d"] "c1" 1 none).1 =
        [1787746425005200000, 1787746425008400000] ∧
    ¬ Trapped (replayCmd Coinbase.timed spacedSerdes spacedLines
      (buildAdapter .coinbase Coinbase.atomUsd) ["a", "b", "c", "d"] "c1" 1 none).2 := by
  refine ⟨by decide +kernel, (replayCmd_traps_iff Coinbase.timed spacedSerdes spacedLines
    spacedLines_recv (buildAdapter .coinbase Coinbase.atomUsd) ["a", "b", "c", "d"] "c1" 1 none).2 ?_⟩
  refine clockFits_of_nonneg (by decide) (by decide) fun t ht => ?_
  have hframes : times (framesRead spacedLines ["a", "b", "c", "d"]) =
      [1787746425000000000, 1787746425005200000, 1787746425005900000, 1787746425008400000] := by
    decide +kernel
  rw [hframes] at ht
  revert t
  decide

/-! ## The replay in exact integers -/

/-- The errors that both can end with. -/
def Halt.ofReplayError : ReplayError → Halt
  | .notAFixtureLine n => .notAFixtureLine n
  | .divideByZero => .divideByZero

section Exact

variable {crates : Crates} {serdes : Serdes} {symbols : List String} {intervalNs : Int}
  {fixtureLine : String → Option FixtureLine}

theorem sample_of_sample64 {st st' : Replaying} {t : Int}
    (h : (st.sample64 symbols intervalNs t).2 = .ok st') :
    st.sample symbols intervalNs t = ((st.sample64 symbols intervalNs t).1, .ok st') := by
  unfold Replaying.sample64 at h ⊢
  cases hdue : checked (t + intervalNs) with
  | error e =>
    rw [hdue] at h
    cases h
  | ok firstDue =>
    obtain ⟨-, rfl⟩ := checked_eq_ok_iff.1 hdue
    simp only [hdue] at h ⊢
    unfold Replaying.sample
    by_cases hle : st.nextSampleNs.getD (t + intervalNs) ≤ t
    · simp only [if_pos hle, map_eq_ok_iff] at h ⊢
      obtain ⟨next, hnext, rfl⟩ := h
      obtain ⟨-, hne, -, -, -, -, rfl⟩ := nextDue_eq_ok_iff.1 hnext
      rw [if_neg hne]
      rfl
    · simp only [if_neg hle, Except.ok.injEq] at h ⊢
      rw [h]

theorem readLines_of_readLines64 (lines : List String) :
    ∀ (n : Nat) (st : Replaying),
      ¬ Trapped (st.readLines64 crates serdes fixtureLine symbols intervalNs n lines).2 →
      st.readLines64 crates serdes fixtureLine symbols intervalNs n lines =
        ((st.readLines crates serdes fixtureLine symbols intervalNs n lines).1,
          (st.readLines crates serdes fixtureLine symbols intervalNs n lines).2.mapError
            Halt.ofReplayError) := by
  induction lines with
  | nil => exact fun _ _ _ => rfl
  | cons line lines ih =>
    intro n st h
    unfold Replaying.readLines64 at h ⊢
    unfold Replaying.readLines
    split at h
    · rename_i hblank
      rw [if_pos hblank, if_pos hblank]
      exact ih (n + 1) st h
    · rename_i hblank
      rw [if_neg hblank, if_neg hblank]
      cases hline : fixtureLine line with
      | none => rfl
      | some f =>
        simp only [hline] at h
        unfold Replaying.read64 at h ⊢
        unfold Replaying.read
        cases hsample : ((st.handle crates serdes f).1.sample64 symbols intervalNs f.recvTsNs).2 with
        | error e =>
          simp only [hsample] at h
          exact absurd ⟨e, rfl, sample64_eq_error hsample⟩ h
        | ok st' =>
          simp only [hsample] at h
          simp only [sample_of_sample64 hsample, hsample]
          rw [ih (n + 1) st' h]

end Exact

/-- **Where it does not trap**, a replay is the one in exact integers. -/
theorem run64_eq_replay (crates : Crates) (serdes : Serdes)
    (fixtureLine : String → Option FixtureLine) (adapter : Adapter) (input : List String)
    (opts : Options)
    (h : ¬ Trapped (run64 crates serdes fixtureLine adapter input opts).2) :
    run64 crates serdes fixtureLine adapter input opts =
      ((replay crates serdes fixtureLine adapter input opts).1,
        (replay crates serdes fixtureLine adapter input opts).2.mapError Halt.ofReplayError) :=
  readLines_of_readLines64 input 1 _ h

end K2.Capture

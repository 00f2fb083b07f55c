import Mathlib.Data.List.TakeWhile
import Mathlib.Data.String.Basic
import K2Platform.Lake.BinanceTicks
import K2Platform.Lake.Replay
import K2Platform.Lib.Mealy

/-!
# One connection in the replay

The pass over a partition falls apart into passes over single connections, and of what the replay
knows of a connection its later steps depend on the book, the last frame and the second that is
due next (`Carry`) alone.  A state row keeps all three.

* `opened_carry` — a state row is read back as the carry it was written from.
* `Carry.Sound` — what every step keeps.
* `filter_replayPartition` — what the pass emits for one connection.
-/

set_option autoImplicit false

namespace K2.Lake

/-! ## Rows without the time of the run -/

def StateRow.timeless (r : StateRow) : StateRow := { r with updatedAt := 0 }

def Emission.timeless : Emission → Emission
  | .verdict frame ok => .verdict frame ok
  | .book row => .book row.timeless
  | .state row => .state (row.map StateRow.timeless)

/-! ## The second that is due -/

theorem secondsUpTo_eq_nil {sec boundary : Int} (h : boundary ≤ sec) :
    secondsUpTo sec boundary = [] := by
  have hnone : ((boundary - sec + (NS - 1)) / NS).toNat = 0 := by
    unfold NS
    omega
  rw [secondsUpTo, hnone]
  rfl

theorem add_length_secondsUpTo {sec boundary : Int} (hsec : NS ∣ sec) (hboundary : NS ∣ boundary) :
    sec + NS * (secondsUpTo sec boundary).length = max sec boundary := by
  obtain ⟨p, rfl⟩ := hsec
  obtain ⟨q, rfl⟩ := hboundary
  rw [secondsUpTo, List.length_map, List.length_range]
  unfold NS
  omega

/-- The second that holds a time. -/
def secondOf (ns : Int) : Int := ns / NS * NS

theorem dvd_secondOf (ns : Int) : NS ∣ secondOf ns := Dvd.intro_left _ rfl

theorem le_secondOf {ns : Int} (h : NS ≤ ns) : NS ≤ secondOf ns := by
  unfold secondOf NS at *
  omega

/-- A second that the sampling can be at: whole, and after the first of 1970. -/
structure Due (sec : Int) : Prop where
  pos : NS ≤ sec
  whole : NS ∣ sec

theorem due_secondOf {ns : Int} (h : NS ≤ ns) : Due (secondOf ns) := ⟨le_secondOf h, dvd_secondOf ns⟩

theorem Due.max {a b : Int} (ha : Due a) (hb : NS ∣ b) : Due (max a b) := by
  refine ⟨le_max_of_le_left ha.pos, ?_⟩
  rcases max_choice a b with h | h
  · rw [h]
    exact ha.whole
  · rw [h]
    exact hb

/-! ## What a connection is carried by -/

structure Carry extends Folded where
  next : Option Int
  deriving DecidableEq

def Carry.initial : Carry := ⟨Folded.initial, none⟩

def Running.carry (st : Running) : Carry := ⟨st.toFolded, st.clock.next⟩

/-- The connection of a frame, running with the carry. -/
def Carry.running (c : Carry) (r : TypedFrame) : Running where
  toFolded := c.toFolded
  symbol := r.symbol
  canonicalSymbol := r.canonicalSymbol
  connId := r.connId
  srcTopic := r.srcTopic
  clock := c.next.elim .idle fun sec => .emitted (sec - NS)

@[simp] theorem Carry.carry_running (c : Carry) (r : TypedFrame) : (c.running r).carry = c := by
  obtain ⟨folded, next⟩ := c
  cases next with
  | none => rfl
  | some sec => simp [Carry.running, Running.carry, Clock.next]

/-- What every step keeps: nothing is folded in before the connection is live, and every second
    before that of the last frame is out. -/
structure Carry.Sound (c : Carry) : Prop where
  idle : c.next = none → c.toFolded = Folded.initial
  due : ∀ sec, c.next = some sec → Due sec ∧ secondOf c.recvTsNs ≤ sec

theorem Carry.initial_sound : Carry.initial.Sound := ⟨fun _ => rfl, fun _ h => by cases h⟩

theorem Clock.live_iff_next {c : Clock} : c.live = true ↔ ∃ sec, c.next = some sec := by
  cases c <;> simp [Clock.live, Clock.next]

theorem Clock.eq_idle_of_next {c : Clock} (h : c.next = none) : c = .idle := by
  cases c with
  | idle => rfl
  | started firstNs => cases h
  | emitted lastSecondNs => cases h

theorem Clock.advance_of_due {c : Clock} {sec sec' : Int} (hnext : c.next = some sec)
    (hdue : Due sec) (hle : sec ≤ sec') : c.advance sec' = .emitted (sec' - NS) := by
  have hpos := hdue.pos
  have hnonneg : 0 ≤ sec' - NS := by omega
  have hlast : c.lastOrZero ≤ sec' - NS := by
    cases c with
    | idle => exact hnonneg
    | started firstNs => exact hnonneg
    | emitted lastSecondNs =>
      have : lastSecondNs + NS = sec := Option.some.inj hnext
      simp only [Clock.lastOrZero]
      omega
  rw [Clock.advance, if_pos hnonneg, max_eq_right hlast]

section Step

variable {run : ReplayRun}

namespace Running

theorem flush_of_idle {st : Running} (h : st.clock.next = none) (uptoNs : Int) :
    st.flush run uptoNs = (st, []) := by
  rw [flush, h]

theorem flush_of_due {st : Running} {sec : Int} (h : st.clock.next = some sec) (hdue : Due sec)
    (uptoNs : Int) :
    st.flush run uptoNs =
      ({ st with clock := .emitted (max sec (secondOf uptoNs) - NS) },
        (secondsUpTo sec (secondOf uptoNs)).map (st.snapshotRow run)) := by
  have hsec : sec + NS * (secondsUpTo sec (uptoNs / NS * NS)).length =
      max sec (secondOf uptoNs) := add_length_secondsUpTo hdue.whole (dvd_secondOf uptoNs)
  rw [flush, h]
  simp only
  rw [hsec, Clock.advance_of_due h hdue (le_max_left _ _)]
  rfl

/-- What a row that the connection yields is labelled with. -/
def names (st : Running) : String × String × String × String :=
  (st.symbol, st.connId, st.canonicalSymbol, st.srcTopic)

/-- The same connection with the same carry. -/
structure Alike (st st' : Running) : Prop where
  carry : st.carry = st'.carry
  names : st.names = st'.names

theorem Alike.eq_of_clock {st st' : Running} (h : st.Alike st') (hclock : st.clock = st'.clock) :
    st = st' := by
  have hfolded : st.toFolded = st'.toFolded := congrArg Carry.toFolded h.carry
  have hnames := h.names
  cases st
  cases st'
  simp_all [Running.names]

theorem Alike.snapshotRow {st st' : Running} (h : st.Alike st') :
    st.snapshotRow run = st'.snapshotRow run := by
  have hfolded : st.toFolded = st'.toFolded := congrArg Carry.toFolded h.carry
  have hnames := h.names
  simp only [Running.names, Prod.mk.injEq] at hnames
  funext sec
  simp only [Running.snapshotRow, hfolded, hnames]

/-- The first flush forgets how the clock came to be where it is. -/
theorem Alike.flush {st st' : Running} (h : st.Alike st') (hsound : st.carry.Sound) (uptoNs : Int) :
    st.flush run uptoNs = st'.flush run uptoNs := by
  have hnext : st.clock.next = st'.clock.next := congrArg Carry.next h.carry
  cases hsec : st.clock.next with
  | none =>
    have hst : st = st' := h.eq_of_clock ((Clock.eq_idle_of_next hsec).trans
      (Clock.eq_idle_of_next (hnext ▸ hsec)).symm)
    rw [hst]
  | some sec =>
    have hdue := (hsound.due sec hsec).1
    rw [flush_of_due hsec hdue, flush_of_due (hnext ▸ hsec) hdue, h.snapshotRow]
    have hfolded : st.toFolded = st'.toFolded := congrArg Carry.toFolded h.carry
    exact Prod.ext (Alike.eq_of_clock ⟨congrArg₂ Carry.mk hfolded rfl, h.names⟩ rfl) rfl

theorem Alike.read {st st' : Running} (h : st.Alike st') (hsound : st.carry.Sound)
    (r : TypedFrame) : st.read run r = st'.read run r := by
  rw [Running.read, Running.read, h.flush hsound]

/-! ### What one frame leaves alone, and what it keeps -/

variable (run) in
theorem names_flush (st : Running) (uptoNs : Int) : (st.flush run uptoNs).1.names = st.names := by
  unfold flush
  split <;> rfl

theorem names_fold (st : Running) (r : TypedFrame) : (st.fold run r).names = st.names := by
  unfold fold
  split <;> rfl

variable (run) in
theorem names_read (st : Running) (r : TypedFrame) : (st.read run r).1.names = st.names := by
  unfold read
  simp only
  split
  · exact names_flush run st r.recvTsNs
  · exact (names_fold _ r).trans (names_flush run st r.recvTsNs)

theorem clock_fold (st : Running) (r : TypedFrame) : (st.fold run r).clock = st.clock := by
  unfold fold
  split <;> rfl

variable (run) in
/-- Before its snapshot a connection stays as it is. -/
theorem read_idle {st : Running} (h : st.clock.next = none) {r : TypedFrame}
    (hupdate : r.payload.isSnapshot = false) : st.read run r = (st, r.verdicts none) := by
  have hlive : st.clock.live = false := by rw [Clock.eq_idle_of_next h]; rfl
  rw [read, flush_of_idle h]
  simp only [hlive, hupdate, Bool.not_false, Bool.and_self, if_true]
  rfl

variable (run) in
theorem next_read_snapshot {st : Running} (h : st.clock.next = none) {r : TypedFrame}
    (hsnapshot : r.payload.isSnapshot = true) :
    (st.read run r).1.recvTsNs = r.recvTsNs ∧
      (st.read run r).1.clock.next = some (secondOf r.recvTsNs) := by
  have hlive : (st.fold run r).clock.live = false := by
    rw [clock_fold, Clock.eq_idle_of_next h]
    rfl
  rw [read, flush_of_idle h]
  simp only [hsnapshot, Bool.not_true, Bool.and_false, Bool.false_eq_true, if_false, touch, hlive,
    true_and]
  rfl

variable (run) in
/-- A frame leaves the clock of a live connection at the second of the frame or past it. -/
theorem next_read_live {st : Running} {sec : Int} (h : st.clock.next = some sec) (hdue : Due sec)
    (r : TypedFrame) :
    (st.read run r).1.recvTsNs = r.recvTsNs ∧
      (st.read run r).1.clock.next = some (max sec (secondOf r.recvTsNs)) := by
  rw [read, flush_of_due h hdue]
  simp only [Clock.live, Bool.not_true, Bool.false_and, Bool.false_eq_true, if_false, touch,
    clock_fold, if_true, true_and]
  exact congrArg some (Int.sub_add_cancel _ _)

variable (run) in
theorem read_sound {st : Running} (hsound : st.carry.Sound) {r : TypedFrame}
    (hclock : NS ≤ r.recvTsNs) : (st.read run r).1.carry.Sound := by
  have hat : ∀ {sec : Int}, Due sec → secondOf r.recvTsNs ≤ sec →
      (st.read run r).1.recvTsNs = r.recvTsNs ∧ (st.read run r).1.clock.next = some sec →
        (st.read run r).1.carry.Sound := by
    rintro sec hdue hpast ⟨hrecv, hnext⟩
    have hnext : (st.read run r).1.carry.next = some sec := hnext
    refine ⟨fun h => ?_, fun sec' h => ?_⟩
    · rw [hnext] at h
      cases h
    · rw [hnext] at h
      cases h
      have hrecv : (st.read run r).1.carry.recvTsNs = r.recvTsNs := hrecv
      rw [hrecv]
      exact ⟨hdue, hpast⟩
  cases hsec : st.clock.next with
  | none =>
    cases hsnapshot : r.payload.isSnapshot with
    | false =>
      rw [read_idle run hsec hsnapshot]
      exact hsound
    | true => exact hat (due_secondOf hclock) le_rfl (next_read_snapshot run hsec hsnapshot)
  | some sec =>
    have hdue := (hsound.due sec hsec).1
    exact hat (hdue.max (dvd_secondOf _)) (le_max_right _ _) (next_read_live run hsec hdue r)

/-- A connection that is live stays so. -/
theorem next_of_read {st : Running} (hsound : st.carry.Sound) {r : TypedFrame}
    (h : (st.read run r).1.clock.next = none) : st.clock.next = none := by
  cases hsec : st.clock.next with
  | none => rfl
  | some sec =>
    have hnext := (next_read_live run hsec (hsound.due sec hsec).1 r).2
    rw [h] at hnext
    cases hnext

theorem mem_flush {st : Running} {uptoNs : Int} {row : BookRow}
    (h : row ∈ (st.flush run uptoNs).2) :
    (row.symbol, row.connId) = st.key ∧ row.exchange = run.exchange.name := by
  unfold flush at h
  split at h
  · cases h
  · obtain ⟨sec, _, rfl⟩ := List.mem_map.1 h
    exact ⟨rfl, rfl⟩

variable (run) in
/-- A frame yields the seconds that are due, and its verdict where the venue has one. -/
theorem exists_read (st : Running) (r : TypedFrame) :
    ∃ (rows : List BookRow) (ok : Option Bool),
      (st.read run r).2 = rows.map Emission.book ++ r.verdicts ok ∧
      ∀ row ∈ rows, (row.symbol, row.connId) = st.key ∧ row.exchange = run.exchange.name := by
  unfold read
  simp only
  split
  · exact ⟨_, _, rfl, fun _ => mem_flush⟩
  · exact ⟨_, _, rfl, fun _ => mem_flush⟩

theorem mem_verdicts {r : TypedFrame} {ok : Option Bool} {e : Emission} (he : e ∈ r.verdicts ok) :
    e.key = r.key ∧ e.raised = false := by
  unfold TypedFrame.verdicts at he
  split at he
  · rw [List.mem_singleton.1 he]
    exact ⟨rfl, rfl⟩
  · cases he

/-- No frame makes the generator raise, and what it yields is of its connection. -/
theorem mem_read {st : Running} {r : TypedFrame} (hkey : r.key = st.key) {e : Emission}
    (he : e ∈ (st.read run r).2) : e.key = st.key ∧ e.raised = false := by
  obtain ⟨rows, ok, hread, hrows⟩ := exists_read run st r
  rw [hread] at he
  rcases List.mem_append.1 he with he | he
  · obtain ⟨row, hrow, rfl⟩ := List.mem_map.1 he
    exact ⟨(hrows row hrow).1, rfl⟩
  · exact hkey ▸ mem_verdicts he

variable (run) in
theorem key_read (st : Running) (r : TypedFrame) : (st.read run r).1.key = st.key := by
  have hnames := names_read run st r
  simp only [names, Prod.mk.injEq] at hnames
  exact Prod.ext hnames.1 hnames.2.1

variable (run) in
theorem mem_run {rows : List TypedFrame} {st : Running} (hrows : ∀ r ∈ rows, r.key = st.key) :
    (Mealy.run (read run) st rows).1.key = st.key ∧
      ∀ e ∈ (Mealy.run (read run) st rows).2, e.key = st.key ∧ e.raised = false := by
  induction rows generalizing st with
  | nil => exact ⟨rfl, fun e he => by cases he⟩
  | cons r rows ih =>
    have hkey := key_read run st r
    have hrest : ∀ r' ∈ rows, r'.key = (st.read run r).1.key := fun r' hr' =>
      (hrows r' (List.mem_cons_of_mem _ hr')).trans hkey.symm
    obtain ⟨hend, hmem⟩ := ih hrest
    rw [Mealy.run_cons]
    refine ⟨hend.trans hkey, fun e he => ?_⟩
    rcases List.mem_append.1 he with he | he
    · exact mem_read (hrows r List.mem_cons_self) he
    · exact hkey ▸ hmem e he

theorem mem_leave {st : Running} {e : Emission} (he : e ∈ st.leave run) : e.key = st.key := by
  unfold leave at he
  split at he
  · rw [List.mem_singleton.1 he, stateRow]
    split <;> rfl
  · cases he

theorem mem_finish {st : Running} {e : Emission} (he : e ∈ st.finish run) : e.key = st.key := by
  unfold finish at he
  split at he
  · rcases List.mem_append.1 he with he | he
    · obtain ⟨row, hrow, rfl⟩ := List.mem_map.1 he
      exact (mem_flush hrow).1
    · have hnames := names_flush run st st.recvTsNs
      simp only [names, Prod.mk.injEq] at hnames
      exact (mem_leave he).trans (Prod.ext hnames.1 hnames.2.1)
  · cases he

end Running

/-! ## The carry as the state of a machine -/

/-- A frame with the precision it is checked at. -/
abbrev Reading := TypedFrame × Option Precision

def ReplayRun.reading (run : ReplayRun) (r : TypedFrame) : Reading := (r, run.precisions r.symbol)

section Machine

variable (exchange : Exchange) (floatDigits : Int → Int → String)

/-- A run, at no time, that knows this precision only. -/
def Reading.replayRun (x : Reading) : ReplayRun := ⟨exchange, fun _ => x.2, floatDigits, 0⟩

def Carry.read (c : Carry) (x : Reading) : Carry × List Emission :=
  let q := (c.running x.1).read (Reading.replayRun exchange floatDigits x) x.1
  (q.1.carry, q.2)

/-- The state row of the connection, if it is live. -/
def Carry.stateRow (key : BookKey) (c : Carry) : Option StateRow :=
  c.next.map fun sec => c.toFolded.stateRow exchange key (sec - NS) 0

/-- What the pass ends a connection with. -/
def Carry.close (key : BookKey) (c : Carry) : List Emission :=
  (c.stateRow exchange key).toList.map fun row => .state (.ok row)

end Machine

namespace Running

variable (run) in
/-- The time of the run and the precisions of other symbols do not show. -/
theorem read_reading (st : Running) (r : TypedFrame) :
    (st.read run r).1 = (st.read (Reading.replayRun run.exchange run.floatDigits (run.reading r)) r).1 ∧
      (st.read run r).2.map Emission.timeless =
        (st.read (Reading.replayRun run.exchange run.floatDigits (run.reading r)) r).2 := by
  have hflush : ∀ uptoNs, (st.flush run uptoNs).1 =
      (st.flush (Reading.replayRun run.exchange run.floatDigits (run.reading r)) uptoNs).1 := by
    intro uptoNs
    unfold flush
    split <;> rfl
  have hbooks : ∀ uptoNs, ((st.flush run uptoNs).2.map Emission.book).map Emission.timeless =
      (st.flush (Reading.replayRun run.exchange run.floatDigits (run.reading r)) uptoNs).2.map
        Emission.book := by
    intro uptoNs
    unfold flush
    split
    · rfl
    · simp only [List.map_map]
      rfl
  have hfold : ∀ st' : Running, st'.fold run r =
      st'.fold (Reading.replayRun run.exchange run.floatDigits (run.reading r)) r := by
    intro st'
    unfold fold
    split <;> rfl
  have hverdicts : ∀ ok, (r.verdicts ok).map Emission.timeless = r.verdicts ok := by
    intro ok
    unfold TypedFrame.verdicts
    split <;> rfl
  unfold read
  simp only
  rw [hflush, hfold]
  split
  · exact ⟨rfl, by rw [List.map_append, hbooks, hverdicts]⟩
  · exact ⟨rfl, by rw [List.map_append, hbooks, hverdicts]⟩

theorem names_running (c : Carry) (r : TypedFrame) :
    (c.running r).names = (r.symbol, r.connId, r.canonicalSymbol, r.srcTopic) := rfl

variable (run) in
/-- A step of the replay is a step of the machine. -/
theorem read_carry {st : Running} (hsound : st.carry.Sound) {r : TypedFrame}
    (hnames : st.names = (r.symbol, r.connId, r.canonicalSymbol, r.srcTopic)) :
    (st.carry.read run.exchange run.floatDigits (run.reading r)) =
      ((st.read run r).1.carry, (st.read run r).2.map Emission.timeless) := by
  have halike : st.Alike (st.carry.running r) :=
    ⟨(Carry.carry_running _ _).symm, hnames.trans (names_running _ _).symm⟩
  obtain ⟨hstate, hout⟩ := read_reading run st r
  rw [hstate, hout, halike.read hsound]
  rfl

variable (run) in
/-- So is a walk. -/
theorem run_carry {label : String × String × String × String} {rows : List TypedFrame}
    (hrows : ∀ r ∈ rows, (r.symbol, r.connId, r.canonicalSymbol, r.srcTopic) = label ∧
      NS ≤ r.recvTsNs) {st : Running} (hsound : st.carry.Sound) (hnames : st.names = label) :
    let q := Mealy.run (read run) st rows
    q.1.carry.Sound ∧ q.1.names = label ∧
      Mealy.run (Carry.read run.exchange run.floatDigits) st.carry (rows.map run.reading) =
        (q.1.carry, q.2.map Emission.timeless) := by
  induction rows generalizing st with
  | nil => exact ⟨hsound, hnames, rfl⟩
  | cons r rows ih =>
    obtain ⟨hlabel, hclock⟩ := hrows r List.mem_cons_self
    have hread := read_carry run hsound (hnames.trans hlabel.symm)
    obtain ⟨hsound', hnames', hrest⟩ := ih (fun r hr => hrows r (List.mem_cons_of_mem _ hr))
      (read_sound run hsound hclock) ((names_read run st r).trans hnames)
    refine ⟨hsound', hnames', ?_⟩
    rw [List.map_cons, Mealy.run_cons, Mealy.run_cons, hread]
    simp only
    rw [hrest, List.map_append]

/-! ## The end of a connection -/

theorem leave_timeless {st : Running} (hraised : ∀ e ∈ st.leave run, e.raised = false) :
    (st.leave run).map Emission.timeless = st.carry.close run.exchange st.key := by
  unfold leave at hraised ⊢
  cases hclock : st.clock with
  | idle =>
    rw [Carry.close, Carry.stateRow, carry, hclock]
    rfl
  | started firstNs =>
    have hraise := hraised (.state (.error st.key)) (by simp [hclock, Clock.live, stateRow])
    cases hraise
  | emitted lastSecondNs =>
    have hlast : lastSecondNs + NS - NS = lastSecondNs := Int.add_sub_cancel _ _
    rw [Carry.close, Carry.stateRow, carry, hclock]
    simp only [Clock.live, stateRow, hclock, Clock.next, Option.map_some, Option.toList_some, hlast]
    rfl

/-- Nothing is due at the end, so the last connection is ended as the others are. -/
theorem finish_timeless {st : Running} (hsound : st.carry.Sound) :
    (st.finish run).map Emission.timeless = st.carry.close run.exchange st.key := by
  unfold finish
  cases hsec : st.clock.next with
  | none =>
    rw [Clock.eq_idle_of_next hsec, Carry.close, Carry.stateRow, carry, hsec]
    rfl
  | some sec =>
    obtain ⟨hdue, hpast⟩ := hsound.due sec hsec
    have hpast : secondOf st.recvTsNs ≤ sec := hpast
    rw [if_pos (Clock.live_iff_next.2 ⟨sec, hsec⟩), flush_of_due hsec hdue,
      secondsUpTo_eq_nil hpast, max_eq_left hpast]
    simp only [List.map_nil, List.nil_append]
    rw [leave_timeless]
    · have hcarry : ({ st with clock := .emitted (sec - NS) } : Running).carry = st.carry := by
        rw [carry, carry, hsec]
        exact congrArg (Carry.mk st.toFolded) (congrArg some (Int.sub_add_cancel _ _))
      rw [hcarry]
      rfl
    · intro e he
      have hlive : (Clock.emitted (sec - NS)).live = true := rfl
      rw [leave, if_pos hlive, List.mem_singleton] at he
      rw [he]
      rfl

end Running

/-! ## A state row read back -/

theorem zip_fst_snd (l : Levels) : (l.map Prod.fst).zip (l.map Prod.snd) = l := by
  induction l with
  | nil => rfl
  | cons e l ih => rw [List.map_cons, List.map_cons, List.zip_cons_cons, ih]

/-- The carry with the best levels of its book only. -/
def Carry.truncate (c : Carry) (depth : Nat) : Carry := { c with book := c.book.truncate depth }

@[simp] theorem Carry.next_truncate (c : Carry) (depth : Nat) : (c.truncate depth).next = c.next :=
  rfl

@[simp] theorem Carry.recvTsNs_truncate (c : Carry) (depth : Nat) :
    (c.truncate depth).recvTsNs = c.recvTsNs := rfl

@[simp] theorem Carry.book_truncate (c : Carry) (depth : Nat) :
    (c.truncate depth).book = c.book.truncate depth := rfl

theorem Carry.truncate_of_within {c : Carry} {depth : Nat} (h : c.book.Within depth) :
    c.truncate depth = c := by
  rw [truncate, Book.truncate_of_within h]

theorem Folded.initial_within {depth : Nat} : Folded.initial.book.Within depth :=
  ⟨Nat.zero_le depth, Nat.zero_le depth⟩

theorem Carry.Sound.truncate {c : Carry} (h : c.Sound) (depth : Nat) : (c.truncate depth).Sound := by
  constructor
  · intro hnext
    rw [next_truncate] at hnext
    have hfolded : c.toFolded = Folded.initial := h.idle hnext
    have hwithin : c.book.Within depth := by
      rw [hfolded]
      exact Folded.initial_within
    rw [truncate_of_within hwithin, hfolded]
  · intro sec hnext
    rw [next_truncate] at hnext
    rw [recvTsNs_truncate]
    exact h.due sec hnext

theorem Carry.stateRow_truncate (c : Carry) {depth : Nat} (h : STATE_LEVELS ≤ depth)
    (exchange : Exchange) (key : BookKey) :
    (c.truncate depth).stateRow exchange key = c.stateRow exchange key := by
  rw [stateRow, stateRow, next_truncate]
  refine congrArg (fun f => c.next.map f) (funext fun sec => ?_)
  rw [Folded.stateRow, Folded.stateRow, book_truncate, Book.top_of_truncate c.book h]
  rfl

theorem Folded.ofStateRow_stateRow {st : Folded} {row : StateRow} {exchange : Exchange}
    {key : BookKey} {lastSecondNs : Int}
    (hrow : row.timeless = st.stateRow exchange key lastSecondNs 0) :
    Folded.ofStateRow row = { st with book := st.book.truncate STATE_LEVELS } := by
  have htimeless : Folded.ofStateRow row = Folded.ofStateRow row.timeless := rfl
  rw [htimeless, hrow, Folded.ofStateRow, Folded.stateRow]
  simp only [zip_fst_snd]
  rw [Book.ofLevels_top]

/-- A connection is found as its state row keeps it. -/
theorem opened_carry {c : Carry} (hsound : c.Sound) {exchange : Exchange} {key : BookKey}
    {prev : Option StateRow} (hprev : prev.map StateRow.timeless = c.stateRow exchange key)
    (r : TypedFrame) : (Running.opened prev r).carry = c.truncate STATE_LEVELS := by
  cases hsec : c.next with
  | none =>
    rw [Carry.stateRow, hsec, Option.map_none, Option.map_eq_none_iff] at hprev
    rw [hprev]
    obtain ⟨folded, next⟩ := c
    have hfolded : folded = Folded.initial := hsound.idle hsec
    have hnext : next = none := hsec
    rw [hfolded, hnext, Carry.truncate_of_within Folded.initial_within]
    rfl
  | some sec =>
    rw [Carry.stateRow, hsec, Option.map_some, Option.map_eq_some_iff] at hprev
    obtain ⟨row, hrow, htimeless⟩ := hprev
    have hfolded := Folded.ofStateRow_stateRow htimeless
    have hlast : row.lastSecond = (sec - NS) / NS := congrArg StateRow.lastSecond htimeless
    obtain ⟨q, hq⟩ := (hsound.due sec hsec).1.whole
    have hnext : row.lastSecond * NS + NS = sec := by
      rw [hlast, hq]
      unfold NS
      omega
    obtain ⟨folded, next⟩ := c
    rw [hrow]
    have hsec : next = some sec := hsec
    rw [hsec, ← hnext]
    exact congrArg₂ Carry.mk hfolded rfl

/-! ## The pass, connection by connection -/

/-- The end of a connection that these frames of others follow. -/
def Running.endBefore (run : ReplayRun) (st : Running) (rest : List TypedFrame) : List Emission :=
  if rest.isEmpty then st.finish run else st.leave run

theorem Running.mem_endBefore {st : Running} {rest : List TypedFrame} {e : Emission}
    (he : e ∈ st.endBefore run rest) : e.key = st.key := by
  unfold Running.endBefore at he
  split at he
  · exact mem_finish he
  · exact mem_leave he

variable (run) in
theorem Running.endBefore_timeless {st : Running} (hsound : st.carry.Sound)
    {rest : List TypedFrame} (hraised : ∀ e ∈ st.endBefore run rest, e.raised = false) :
    (st.endBefore run rest).map Emission.timeless = st.carry.close run.exchange st.key := by
  unfold Running.endBefore at hraised ⊢
  split at hraised
  · rw [if_pos ‹_›, finish_timeless hsound]
  · rw [if_neg ‹_›, leave_timeless hraised]

variable {states : BookKey → Option StateRow}

theorem replayFrom_append {group rest : List TypedFrame} {st : Running}
    (hgroup : ∀ r ∈ group, r.key = st.key) (hrest : ∀ r ∈ rest.head?, r.key ≠ st.key) :
    replayFrom run states st (group ++ rest) =
      (Mealy.run (Running.read run) st group).2 ++
        ((Mealy.run (Running.read run) st group).1.endBefore run rest ++
          replayPartition run states rest) := by
  induction group generalizing st with
  | nil =>
    cases rest with
    | nil => exact (List.append_nil _).symm
    | cons r rest =>
      have hne : r.key ≠ st.key := hrest r rfl
      rw [List.nil_append, replayFrom, if_neg hne]
      rfl
  | cons r group ih =>
    have hkey := Running.key_read run st r
    have hgroup' : ∀ r' ∈ group, r'.key = (st.read run r).1.key := fun r' hr' =>
      (hgroup r' (List.mem_cons_of_mem _ hr')).trans hkey.symm
    have hih := ih hgroup' fun r' hr' => hkey.symm ▸ hrest r' hr'
    rw [List.cons_append, replayFrom, if_pos (hgroup r List.mem_cons_self)]
    simp only
    rw [hih, Mealy.run_cons, List.append_assoc]

variable (run states) in
/-- The frames of the first connection, and the others. -/
theorem replayPartition_cons (r : TypedFrame) {group : List TypedFrame} (rest : List TypedFrame)
    (hgroup : ∀ x ∈ group, x.key = r.key) (hrest : ∀ x ∈ rest.head?, x.key ≠ r.key) :
    let q := Mealy.run (Running.read run) (Running.opened (states r.key) r) (r :: group)
    replayPartition run states (r :: (group ++ rest)) =
      q.2 ++ (q.1.endBefore run rest ++ replayPartition run states rest) := by
  have hkey : (Running.opened (states r.key) r).key = r.key := rfl
  have hread := (Running.key_read run (Running.opened (states r.key) r) r).trans hkey
  rw [replayPartition]
  simp only
  rw [replayFrom_append (fun x hx => (hgroup x hx).trans hread.symm)
    (fun x hx => hread.symm ▸ hrest x hx), Mealy.run_cons, List.append_assoc]

/-- Sorted by connection. -/
def Grouped (rows : List TypedFrame) : Prop := rows.Pairwise fun a b => toLex a.key ≤ toLex b.key

/-- Frames sorted by connection: those of the first one come first. -/
theorem exists_group {r : TypedFrame} {rows : List TypedFrame} (hsorted : Grouped (r :: rows)) :
    ∃ group rest, rows = group ++ rest ∧ (∀ x ∈ group, x.key = r.key) ∧
      ∀ x ∈ rest, x.key ≠ r.key := by
  refine ⟨rows.takeWhile (fun x => x.key = r.key), rows.dropWhile (fun x => x.key = r.key),
    List.takeWhile_append_dropWhile.symm, fun x hx => ?_, fun x hx hkey => ?_⟩
  · have hx := List.mem_takeWhile_imp hx
    exact of_decide_eq_true hx
  · -- the first frame left is of a later connection, and so is every frame after it
    cases hrest : rows.dropWhile (fun x => x.key = r.key) with
    | nil =>
      rw [hrest] at hx
      cases hx
    | cons y rest =>
      have hy : ¬ decide (y.key = r.key) = true := by
        have hlen : 0 < (rows.dropWhile fun x => x.key = r.key).length := by
          rw [hrest]
          exact Nat.succ_pos _
        have hfirst := List.dropWhile_get_zero_not (fun x : TypedFrame => x.key = r.key) rows hlen
        simpa [hrest] using hfirst
      obtain ⟨hfirst, hrows⟩ := List.pairwise_cons.1 hsorted
      have hsub : (y :: rest).Sublist rows := hrest ▸ List.dropWhile_sublist _
      have hle := hfirst y (hsub.subset List.mem_cons_self)
      rw [hrest] at hx
      rcases List.mem_cons.1 hx with rfl | hx
      · exact hy (decide_eq_true hkey)
      · have hyx := (List.pairwise_cons.1 (hrows.sublist hsub)).1 x hx
        rw [hkey] at hyx
        exact hy (decide_eq_true (toLex.injective (le_antisymm hyx hle)))

/-- Induction over the connections of sorted frames. -/
theorem grouped_induction {P : List TypedFrame → Prop} (nil : P [])
    (cons : ∀ r group rest, (∀ x ∈ group, x.key = r.key) → (∀ x ∈ rest, x.key ≠ r.key) →
      P rest → P (r :: (group ++ rest))) :
    ∀ n, ∀ rows : List TypedFrame, rows.length ≤ n → Grouped rows → P rows := by
  intro n
  induction n with
  | zero =>
    intro rows hlen _
    rw [List.length_eq_zero_iff.1 (Nat.le_zero.1 hlen)]
    exact nil
  | succ n ih =>
    intro rows hlen hsorted
    cases rows with
    | nil => exact nil
    | cons r rows =>
      obtain ⟨group, rest, rfl, hgroup, hrest⟩ := exists_group hsorted
      refine cons r group rest hgroup hrest (ih rest ?_ ?_)
      · simp only [List.length_cons, List.length_append] at hlen
        omega
      · exact (List.pairwise_append.1 (List.pairwise_cons.1 hsorted).2).2.1

variable (run states) in
/-- The frames of the first connection have its key, and what they and its end yield has it. -/
theorem key_group {r : TypedFrame} {group : List TypedFrame} (hgroup : ∀ x ∈ group, x.key = r.key)
    (rest : List TypedFrame) :
    let q := Mealy.run (Running.read run) (Running.opened (states r.key) r) (r :: group)
    q.1.key = r.key ∧ (∀ e ∈ q.2, e.key = r.key ∧ e.raised = false) ∧
      ∀ e ∈ q.1.endBefore run rest, e.key = r.key := by
  have hopened : (Running.opened (states r.key) r).key = r.key := rfl
  have hfirst : ∀ x ∈ r :: group, x.key = (Running.opened (states r.key) r).key :=
    List.forall_mem_cons.2 ⟨rfl, fun x hx => (hgroup x hx).trans hopened.symm⟩
  obtain ⟨hend, hmem⟩ := Running.mem_run run hfirst
  exact ⟨hend, hmem, fun e he => (Running.mem_endBefore he).trans hend⟩

theorem exists_key_of_mem {rows : List TypedFrame} (hsorted : Grouped rows) :
    ∀ e ∈ replayPartition run states rows, ∃ r ∈ rows, r.key = e.key := by
  refine grouped_induction (P := fun rows => ∀ e ∈ replayPartition run states rows,
    ∃ r ∈ rows, r.key = e.key) (fun e he => by cases he) ?_ _ rows le_rfl hsorted
  intro r group rest hgroup hrest ih e he
  obtain ⟨_, hmem, hend⟩ := key_group run states hgroup rest
  rw [replayPartition_cons run states r _ hgroup fun x hx => hrest x (List.mem_of_mem_head? hx)] at he
  rcases List.mem_append.1 he with he | he
  · exact ⟨r, List.mem_cons_self, (hmem e he).1.symm⟩
  · rcases List.mem_append.1 he with he | he
    · exact ⟨r, List.mem_cons_self, (hend e he).symm⟩
    · obtain ⟨x, hx, hkey⟩ := ih e he
      exact ⟨x, List.mem_cons_of_mem _ (List.mem_append_right _ hx), hkey⟩

section Forall

variable {P : Emission → Prop}

theorem Running.forall_flush (hbook : ∀ st sec, P (.book (Running.snapshotRow run st sec)))
    (st : Running) (uptoNs : Int) : ∀ row ∈ (st.flush run uptoNs).2, P (.book row) := by
  intro row hrow
  unfold flush at hrow
  split at hrow
  · cases hrow
  · obtain ⟨sec, _, rfl⟩ := List.mem_map.1 hrow
    exact hbook st sec

theorem Running.forall_read (hbook : ∀ st sec, P (.book (Running.snapshotRow run st sec)))
    (hverdict : ∀ frame ok, P (.verdict frame ok)) (st : Running) (r : TypedFrame) :
    ∀ e ∈ (st.read run r).2, P e := by
  have hrows : ∀ ok, ∀ e ∈ (st.flush run r.recvTsNs).2.map Emission.book ++ r.verdicts ok, P e := by
    intro ok e he
    rcases List.mem_append.1 he with he | he
    · obtain ⟨row, hrow, rfl⟩ := List.mem_map.1 he
      exact st.forall_flush hbook r.recvTsNs row hrow
    · unfold TypedFrame.verdicts at he
      split at he
      · rw [List.mem_singleton.1 he]
        exact hverdict r ok
      · cases he
  unfold read
  simp only
  split
  · exact hrows none
  · exact hrows _

theorem Running.forall_leave (hstate : ∀ st, P (.state (Running.stateRow run st))) (st : Running) :
    ∀ e ∈ st.leave run, P e := by
  intro e he
  unfold leave at he
  split at he
  · rw [List.mem_singleton.1 he]
    exact hstate st
  · cases he

theorem Running.forall_finish (hbook : ∀ st sec, P (.book (Running.snapshotRow run st sec)))
    (hstate : ∀ st, P (.state (Running.stateRow run st))) (st : Running) :
    ∀ e ∈ st.finish run, P e := by
  intro e he
  unfold finish at he
  split at he
  · rcases List.mem_append.1 he with he | he
    · obtain ⟨row, hrow, rfl⟩ := List.mem_map.1 he
      exact st.forall_flush hbook st.recvTsNs row hrow
    · exact forall_leave hstate _ e he
  · cases he

theorem forall_replayFrom (hbook : ∀ st sec, P (.book (Running.snapshotRow run st sec)))
    (hverdict : ∀ frame ok, P (.verdict frame ok))
    (hstate : ∀ st, P (.state (Running.stateRow run st))) (rows : List TypedFrame) (st : Running) :
    ∀ e ∈ replayFrom run states st rows, P e := by
  induction rows generalizing st with
  | nil => exact st.forall_finish hbook hstate
  | cons r rows ih =>
    intro e he
    rw [replayFrom] at he
    split at he
    · rcases List.mem_append.1 he with he | he
      · exact Running.forall_read hbook hverdict _ _ e he
      · exact ih _ e he
    · rcases List.mem_append.1 he with he | he
      · exact st.forall_leave hstate e he
      · rcases List.mem_append.1 he with he | he
        · exact Running.forall_read hbook hverdict _ _ e he
        · exact ih _ e he

/-- What holds of every book row, verdict and state row holds of all that the pass yields. -/
theorem forall_replayPartition (hbook : ∀ st sec, P (.book (Running.snapshotRow run st sec)))
    (hverdict : ∀ frame ok, P (.verdict frame ok))
    (hstate : ∀ st, P (.state (Running.stateRow run st))) (rows : List TypedFrame) :
    ∀ e ∈ replayPartition run states rows, P e := by
  intro e he
  cases rows with
  | nil => cases he
  | cons r rows =>
    rcases List.mem_append.1 he with he | he
    · exact Running.forall_read hbook hverdict _ _ e he
    · exact forall_replayFrom hbook hverdict hstate _ _ e he

end Forall

section Idle

theorem Running.leave_idle {st : Running} (h : st.clock.next = none) : st.leave run = [] := by
  rw [leave, Clock.eq_idle_of_next h]
  rfl

theorem Running.finish_idle {st : Running} (h : st.clock.next = none) : st.finish run = [] := by
  rw [finish, Clock.eq_idle_of_next h]
  rfl

theorem verdict_of_mem_verdicts {r : TypedFrame} {ok : Option Bool} {e : Emission}
    (he : e ∈ r.verdicts ok) : ∃ frame ok, e = .verdict frame ok := by
  unfold TypedFrame.verdicts at he
  split at he
  · exact ⟨r, ok, List.mem_singleton.1 he⟩
  · cases he

theorem verdict_of_idle_from {rows : List TypedFrame} {st : Running} (h : st.clock.next = none)
    (hidle : ∀ r ∈ rows, r.payload.isSnapshot = false ∧ states r.key = none) :
    ∀ e ∈ replayFrom run states st rows, ∃ frame ok, e = .verdict frame ok := by
  induction rows generalizing st with
  | nil =>
    intro e he
    rw [replayFrom, Running.finish_idle h] at he
    cases he
  | cons r rows ih =>
    obtain ⟨⟨hupdate, hstate⟩, hrest⟩ := List.forall_mem_cons.1 hidle
    have hopened : (Running.opened (states r.key) r).clock.next = none := by
      rw [hstate]
      rfl
    intro e he
    rw [replayFrom, Running.read_idle run h hupdate, Running.read_idle run hopened hupdate,
      Running.leave_idle h] at he
    split at he
    · rcases List.mem_append.1 he with he | he
      · exact verdict_of_mem_verdicts he
      · exact ih h hrest e he
    · rw [List.nil_append] at he
      rcases List.mem_append.1 he with he | he
      · exact verdict_of_mem_verdicts he
      · exact ih hopened hrest e he

/-- Frames of connections that are not live, and that none of them starts, have verdicts only. -/
theorem verdict_of_idle {rows : List TypedFrame}
    (hidle : ∀ r ∈ rows, r.payload.isSnapshot = false ∧ states r.key = none) :
    ∀ e ∈ replayPartition run states rows, ∃ frame ok, e = .verdict frame ok := by
  cases rows with
  | nil => exact fun e he => by cases he
  | cons r rows =>
    obtain ⟨⟨hupdate, hstate⟩, hrest⟩ := List.forall_mem_cons.1 hidle
    have hopened : (Running.opened (states r.key) r).clock.next = none := by
      rw [hstate]
      rfl
    intro e he
    rw [replayPartition, Running.read_idle run hopened hupdate] at he
    rcases List.mem_append.1 he with he | he
    · exact verdict_of_mem_verdicts he
    · exact verdict_of_idle_from hopened hrest e he

end Idle

/-- The rows that the pass yields are of the run's venue. -/
def Emission.OfVenue (exchange : Exchange) : Emission → Prop
  | .verdict .. => True
  | .book row => row.exchange = exchange.name
  | .state (.ok row) => row.exchange = exchange.name
  | .state (.error _) => True

theorem ofVenue_replayPartition (rows : List TypedFrame) :
    ∀ e ∈ replayPartition run states rows, e.OfVenue run.exchange := by
  refine forall_replayPartition (fun _ _ => rfl) (fun _ _ => trivial) (fun st => ?_) rows
  unfold Running.stateRow
  split
  · rfl
  · trivial

/-- What a connection's frames come to, from the carry it is found with. -/
def Carry.walk (exchange : Exchange) (floatDigits : Int → Int → String) (key : BookKey) (c : Carry)
    (xs : List Reading) : List Emission :=
  let q := Mealy.run (Carry.read exchange floatDigits) c xs
  if xs.isEmpty then [] else q.2 ++ q.1.close exchange key

section Filter

variable {α : Type} {f : α → BookKey} {key : BookKey} {l : List α}

theorem filter_eq_self_of_key (h : ∀ x ∈ l, f x = key) : l.filter (fun x => f x = key) = l :=
  List.filter_eq_self.2 fun x hx => decide_eq_true (h x hx)

theorem filter_eq_nil_of_key (h : ∀ x ∈ l, f x ≠ key) : l.filter (fun x => f x = key) = [] :=
  List.filter_eq_nil_iff.2 fun x hx hkey => h x hx (of_decide_eq_true hkey)

end Filter

/-- **One connection of the pass.**  If the generator does not raise, what it yields for a
    connection is the walk over the connection's frames alone, from its state row on. -/
theorem filter_replayPartition {rows : List TypedFrame} (hsorted : Grouped rows)
    (hraised : ∀ e ∈ replayPartition run states rows, e.raised = false)
    {key : BookKey} {label : String × String × String × String} {c : Carry} (hsound : c.Sound)
    (hprev : (states key).map StateRow.timeless = c.stateRow run.exchange key)
    (hrows : ∀ r ∈ rows, r.key = key →
      (r.symbol, r.connId, r.canonicalSymbol, r.srcTopic) = label ∧ NS ≤ r.recvTsNs) :
    ((replayPartition run states rows).filter fun e => e.key = key).map Emission.timeless =
      (c.truncate STATE_LEVELS).walk run.exchange run.floatDigits key
        ((rows.filter fun r => r.key = key).map run.reading) := by
  refine grouped_induction (P := fun rows => Grouped rows →
    (∀ e ∈ replayPartition run states rows, e.raised = false) →
    (∀ r ∈ rows, r.key = key →
      (r.symbol, r.connId, r.canonicalSymbol, r.srcTopic) = label ∧ NS ≤ r.recvTsNs) →
    ((replayPartition run states rows).filter fun e => e.key = key).map Emission.timeless =
      (c.truncate STATE_LEVELS).walk run.exchange run.floatDigits key
        ((rows.filter fun r => r.key = key).map run.reading))
    (fun _ _ _ => rfl) ?_ _ rows le_rfl hsorted hsorted hraised hrows
  intro r group rest hgroup hrest ih hsorted hraised hrows
  obtain ⟨hkeyEnd, hmem, hend⟩ := key_group run states hgroup rest
  have hcons := replayPartition_cons run states r _ hgroup
    fun x hx => hrest x (List.mem_of_mem_head? hx)
  have hsorted' : Grouped rest := (List.pairwise_append.1 (List.pairwise_cons.1 hsorted).2).2.1
  simp only at hcons hkeyEnd hmem hend
  rw [hcons] at hraised ⊢
  generalize hq : Mealy.run (Running.read run) (Running.opened (states r.key) r) (r :: group) = q
    at hraised hkeyEnd hmem hend ⊢
  rw [List.filter_append, List.filter_append, List.map_append, List.map_append]
  by_cases hkey : r.key = key
  · -- the connection comes first
    subst hkey
    have hnone : (replayPartition run states rest).filter (fun e => e.key = r.key) = [] :=
      filter_eq_nil_of_key fun e he hek => by
        obtain ⟨x, hx, hxe⟩ := exists_key_of_mem hsorted' e he
        exact hrest x hx (hxe.trans hek)
    have hframes : (r :: (group ++ rest)).filter (fun x => x.key = r.key) = r :: group := by
      rw [← List.cons_append, List.filter_append,
        filter_eq_self_of_key (List.forall_mem_cons.2 ⟨rfl, hgroup⟩), filter_eq_nil_of_key hrest,
        List.append_nil]
    have hlabel : ∀ x ∈ r :: group,
        (x.symbol, x.connId, x.canonicalSymbol, x.srcTopic) = label ∧ NS ≤ x.recvTsNs :=
      List.forall_mem_cons.2 ⟨hrows r List.mem_cons_self rfl, fun x hx =>
        hrows x (List.mem_cons_of_mem _ (List.mem_append_left _ hx)) (hgroup x hx)⟩
    have hopened : (Running.opened (states r.key) r).carry = c.truncate STATE_LEVELS :=
      opened_carry hsound hprev r
    have hsound₀ : (Running.opened (states r.key) r).carry.Sound := by
      rw [hopened]
      exact hsound.truncate STATE_LEVELS
    obtain ⟨hsound', _, hwalk⟩ := Running.run_carry run hlabel hsound₀
      (hlabel r List.mem_cons_self).1
    rw [hopened, hq] at hwalk
    rw [hq] at hsound'
    have hended : ∀ e ∈ q.1.endBefore run rest, e.raised = false := fun e he =>
      hraised e (List.mem_append_right _ (List.mem_append_left _ he))
    have hclose := Running.endBefore_timeless run hsound' hended
    rw [hnone, filter_eq_self_of_key fun e he => (hmem e he).1, filter_eq_self_of_key hend, hframes,
      Carry.walk, hwalk, hclose, hkeyEnd, List.map_nil, List.append_nil]
    rfl
  · -- it comes later, or not at all
    have hframes : (r :: (group ++ rest)).filter (fun x => x.key = key) =
        rest.filter fun x => x.key = key := by
      have hother : ∀ x ∈ r :: group, x.key ≠ key :=
        List.forall_mem_cons.2 ⟨hkey, fun x hx hk => hkey ((hgroup x hx).symm.trans hk)⟩
      rw [← List.cons_append, List.filter_append, filter_eq_nil_of_key hother, List.nil_append]
    rw [filter_eq_nil_of_key fun e he hek => hkey ((hmem e he).1.symm.trans hek),
      filter_eq_nil_of_key fun e he hek => hkey ((hend e he).symm.trans hek), hframes,
      ih hsorted' (fun e he => hraised e (List.mem_append_right _ (List.mem_append_right _ he)))
        fun x hx => hrows x (List.mem_cons_of_mem _ (List.mem_append_right _ hx))]
    rfl

end Step

end K2.Lake

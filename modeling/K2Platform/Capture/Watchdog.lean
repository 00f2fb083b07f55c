import K2Platform.Lib.Dict
import K2Platform.Capture.Session

/-!
# What ends a session

Model of the rest of `session` in `services/capture-rust/src/main.rs`: the watchdog over the
streams that should never fall silent (`CONTINUOUS`), the age at which a Binance connection is
closed ahead of the venue (`connection_expired`), and the `Session` that is returned; and of
`Backoff` (`ws.rs`) under the loop of `run`.  Clock readings are nanoseconds since 1970, none of
them negative, so their differences do not overflow.

* `WatchedSession.session_run` — with the watchdog, a session is one whose turns end it or not.
* `WatchedSession.Watches` — the table of last frames is exact: it says what the frames received
  so far say.
* `WatchedSession.watchdog_exact` — over a whole connection, what ends it.
* `Process.reconnects` — how long `run` waits before each attempt, and what it counts.
-/

set_option autoImplicit false

namespace K2.Capture

/-! ## The streams -/

def KRAKEN_STREAMS : List String :=
  ["book", "trade", "instrument", "heartbeat", "status", "control"]

def BINANCE_STREAMS : List String := ["trade", "depth20"]

def COINBASE_STREAMS : List String := ["l2_data", "market_trades", "heartbeats", "subscriptions"]

def streamsFor : Exchange → List String
  | .kraken => KRAKEN_STREAMS
  | .binance => BINANCE_STREAMS
  | .coinbase => COINBASE_STREAMS

/-- In seconds. -/
def CONTINUOUS : List (String × Int) :=
  [("book", 60), ("depth20", 60), ("l2_data", 60), ("heartbeat", 60), ("heartbeats", 60),
    ("trade", 300), ("market_trades", 300)]

/-- In nanoseconds. -/
def staleAfter (stream : String) : Option Int :=
  (CONTINUOUS.find? fun entry => entry.1 = stream).map fun entry => entry.2 * 1000000000

def isContinuous (stream : String) : Bool := (staleAfter stream).isSome

def continuousStreamsFor (exchange : Exchange) : List String :=
  (streamsFor exchange).filter isContinuous

/-- `BINANCE_MAX_CONNECTION_AGE`, 23 hours. -/
def maxConnectionAge : Exchange → Option Int
  | .binance => some 82800000000000
  | .kraken | .coinbase => none

def saturatingSub (a b : Int) : Int := max I64.MIN (min I64.MAX (a - b))

theorem le_saturatingSub_iff {limit a b : Int} (h : I64.InRange limit) (hlow : I64.MIN < limit) :
    limit ≤ saturatingSub a b ↔ limit ≤ a - b := by
  obtain ⟨-, hhigh⟩ := h
  unfold saturatingSub
  omega

def connectionExpired (exchange : Exchange) (openedNs nowNs : Int) : Bool :=
  match maxConnectionAge exchange with
  | some limit => limit ≤ saturatingSub nowNs openedNs
  | none => false

theorem connectionExpired_iff {exchange : Exchange} {openedNs nowNs : Int} :
    connectionExpired exchange openedNs nowNs = true ↔
      exchange = .binance ∧ 82800000000000 ≤ nowNs - openedNs := by
  cases exchange with
  | binance =>
    rw [← le_saturatingSub_iff (by decide) (by decide)]
    simp [connectionExpired, maxConnectionAge]
  | kraken => simp [connectionExpired, maxConnectionAge]
  | coinbase => simp [connectionExpired, maxConnectionAge]

/-! ## The stream of a frame -/

/-- The first component of `Binance.Adapter.route`, which looks at no adapter. -/
def Binance.streamLabel (stream : String) : String :=
  match stream.toList.splitOn '@' with
  | _ :: label :: _ =>
    if label = "trade".toList then "trade"
    else if label = "depth20".toList then "depth20"
    else "unknown"
  | _ => "unknown"

theorem Binance.route_fst (a : Binance.Adapter) (stream : String) :
    (a.route stream).1 = Binance.streamLabel stream := by
  rcases hparts : stream.toList.splitOn '@' with _ | ⟨symbol, _ | ⟨label, rest⟩⟩
  · simp only [Binance.Adapter.route, Binance.streamLabel, hparts]
  · simp only [Binance.Adapter.route, Binance.streamLabel, hparts]
  · simp only [Binance.Adapter.route, Binance.streamLabel, hparts]
    split
    · rfl
    · split <;> rfl

/-- The stream under which a frame is archived and counted. -/
def streamOf (serdes : Serdes) (exchange : Exchange) (bytes : List UInt8) : String :=
  match exchange with
  | .kraken => (Kraken.parse serdes.kraken bytes).stream
  | .binance => match serdes.binance.envelope bytes with
    | some e => Binance.streamLabel e.stream
    | none => "unparseable"
  | .coinbase => (Coinbase.Adapter.parse serdes.coinbase bytes).1

theorem stream_handleFrame (crates : Crates) (serdes : Serdes) (a : Adapter) (bytes : List UInt8)
    (recvTsNs : Int) :
    (a.handleFrame crates serdes bytes recvTsNs).2.stream = streamOf serdes a.exchange bytes := by
  cases a with
  | kraken a => rfl
  | binance a =>
    show (a.routed (serdes.binance.envelope bytes)).1 = _
    simp only [Binance.Adapter.routed, streamOf, Adapter.exchange]
    cases serdes.binance.envelope bytes with
    | none => rfl
    | some e => exact Binance.route_fst a e.stream
  | coinbase a => rfl

/-! ## A watched session -/

/-- How a session returns: a value of the `Session` enum, or an error. -/
inductive Ended where
  | disconnected
  | scheduled
  | shutdown
  | failed
  deriving DecidableEq, Repr

/-- One turn of the `select`; `writeFails` if something queued in it could not be written. -/
inductive Happening where
  | frame (bytes : List UInt8) (recvTsNs : Int) (sent : Nat → Bool) (writeFails : Bool)
  | tick (nowNs : Int) (sent : Nat → Bool) (writeFails : Bool)
  | peerClosed
  | readFails
  | shutdown

structure WatchedSession where
  session : Session
  openedNs : Int
  lastFrameNs : Dict String Int
  /-- What was returned, once the session has returned. -/
  ended : Option Ended

namespace WatchedSession

def start (a : Adapter) (connId : String) (openedNs : Int) : WatchedSession where
  session := Session.start a connId
  openedNs := openedNs
  lastFrameNs := Dict.ofKeys (continuousStreamsFor a.exchange) fun _ => openedNs
  ended := none

/-- `get_mut`: a stream that is not watched has no entry, and gets none. -/
def hear (lastFrameNs : Dict String Int) (stream : String) (recvTsNs : Int) : Dict String Int :=
  match lastFrameNs.get? stream with
  | some _ => lastFrameNs.insert stream recvTsNs
  | none => lastFrameNs

/-- Some continuous stream has passed its silence bound. -/
def isSilent (lastFrameNs : Dict String Int) (nowNs : Int) : Bool :=
  lastFrameNs.entries.any fun entry =>
    (staleAfter entry.1).any fun limit => limit < nowNs - entry.2

variable (crates : Crates) (serdes : Serdes)

def frameEnds (s : WatchedSession) (bytes : List UInt8) (recvTsNs : Int) (writeFails : Bool) :
    Option Ended :=
  let handled := (s.session.adapter.handleFrame crates serdes bytes recvTsNs).2
  if Action.reconnect ∈ handled.actions then some .disconnected
  else if writeFails then some .failed
  else none

def tickEnds (s : WatchedSession) (nowNs : Int) (writeFails : Bool) : Option Ended :=
  if isSilent s.lastFrameNs nowNs then some .disconnected
  else if connectionExpired s.session.adapter.exchange s.openedNs nowNs then some .scheduled
  else if writeFails then some .failed
  else none

/-- The turn of the unwatched session, and what the watched one returns in it. -/
def turn (s : WatchedSession) : Happening → Turn × Option Ended
  | .frame bytes recvTsNs sent writeFails =>
    (.frame bytes recvTsNs sent writeFails, s.frameEnds crates serdes bytes recvTsNs writeFails)
  | .tick nowNs sent writeFails =>
    let ended := s.tickEnds nowNs writeFails
    (.tick nowNs sent ended.isSome, ended)
  | .peerClosed => (.close, some .disconnected)
  | .readFails => (.close, some .failed)
  | .shutdown => (.close, some .shutdown)

def heard (s : WatchedSession) : Happening → Dict String Int
  | .frame bytes recvTsNs _ _ =>
    let handled := (s.session.adapter.handleFrame crates serdes bytes recvTsNs).2
    hear s.lastFrameNs handled.stream recvTsNs
  | _ => s.lastFrameNs

def step (s : WatchedSession) (h : Happening) : WatchedSession × List Effect :=
  match s.ended with
  | some _ => (s, [])
  | none =>
    let t := s.turn crates serdes h
    let r := s.session.step crates serdes t.1
    (⟨r.1, s.openedNs, s.heard crates serdes h, t.2⟩, r.2)

def run (s : WatchedSession) (hs : List Happening) : WatchedSession × List Effect :=
  Mealy.run (step crates serdes) s hs

/-! ### The session below -/

variable {crates serdes} {s : WatchedSession}

/-- The session below is open as long as nothing was returned. -/
def Agrees (s : WatchedSession) : Prop := s.session.isOpen = s.ended.isNone

theorem isOpen_turn (s : WatchedSession) (hopen : s.session.isOpen = true) (h : Happening) :
    (s.session.step crates serdes (s.turn crates serdes h).1).1.isOpen =
      (s.turn crates serdes h).2.isNone := by
  unfold Session.step
  rw [if_pos hopen]
  cases h with
  | frame bytes recvTsNs sent writeFails =>
    simp only [turn, Session.frameStep, frameEnds]
    by_cases hreconnect : Action.reconnect ∈
        (s.session.adapter.handleFrame crates serdes bytes recvTsNs).2.actions
    · simp [hreconnect]
    · cases writeFails <;> simp [hreconnect]
  | tick nowNs sent writeFails =>
    simp only [turn, Session.tickStep]
    cases s.tickEnds nowNs writeFails <;> simp
  | peerClosed => rfl
  | readFails => rfl
  | shutdown => rfl

theorem Agrees.step (hagrees : Agrees s) (h : Happening) : Agrees (step crates serdes s h).1 := by
  unfold WatchedSession.step
  split
  · exact hagrees
  · rename_i hnone
    refine isOpen_turn s ?_ h
    rw [hagrees, hnone]
    rfl

theorem agrees_start (a : Adapter) (connId : String) (openedNs : Int) :
    Agrees (start a connId openedNs) := rfl

/-- **Refinement.**  What the session below says of every sequence of turns holds of this one. -/
theorem session_run (hagrees : Agrees s) (hs : List Happening) :
    ∃ ts, (run crates serdes s hs).1.session = (Session.run crates serdes s.session ts).1 ∧
      (run crates serdes s hs).2 = (Session.run crates serdes s.session ts).2 := by
  induction hs generalizing s with
  | nil => exact ⟨[], rfl, rfl⟩
  | cons h hs ih =>
    have hnext : Agrees (WatchedSession.step crates serdes s h).1 := hagrees.step h
    obtain ⟨ts, hsession, heffects⟩ := ih hnext
    rw [run, Mealy.run_cons]
    unfold run at hsession heffects
    cases hended : s.ended with
    | some e =>
      have hstay : WatchedSession.step crates serdes s h = (s, []) := by
        simp only [WatchedSession.step, hended]
      rw [hstay] at hsession heffects ⊢
      exact ⟨ts, hsession, heffects⟩
    | none =>
      have hgo : (WatchedSession.step crates serdes s h).1.session =
          (s.session.step crates serdes (s.turn crates serdes h).1).1 ∧
            (WatchedSession.step crates serdes s h).2 =
              (s.session.step crates serdes (s.turn crates serdes h).1).2 := by
        simp only [WatchedSession.step, hended, and_self]
      refine ⟨(s.turn crates serdes h).1 :: ts, ?_, ?_⟩
      · rw [Session.run, Mealy.run_cons, hsession, hgo.1]
        rfl
      · rw [Session.run, Mealy.run_cons, heffects, hgo.1, hgo.2]
        rfl

end WatchedSession

/-! ## What the frames received so far say -/

section History

variable (serdes : Serdes) (exchange : Exchange) (openedNs : Int)

/-- When the frame was received, if it is one of the stream. -/
def Happening.heardAt (stream : String) : Happening → Option Int
  | .frame bytes recvTsNs _ _ =>
    if streamOf serdes exchange bytes = stream then some recvTsNs else none
  | _ => none

/-- The receipt of the stream's last frame, or the opening of the connection. -/
def lastHeard (hs : List Happening) (stream : String) : Int :=
  (hs.filterMap (Happening.heardAt serdes exchange stream)).getLast?.getD openedNs

/-- A stream that should never fall silent has been silent for longer than its bound. -/
def Silent (hs : List Happening) (nowNs : Int) : Prop :=
  ∃ stream ∈ continuousStreamsFor exchange, ∃ limit, staleAfter stream = some limit ∧
    limit < nowNs - lastHeard serdes exchange openedNs hs stream

/-- A Binance connection has been open for 23 hours. -/
def Aged (nowNs : Int) : Prop := exchange = .binance ∧ 82800000000000 ≤ nowNs - openedNs

theorem lastHeard_concat (hs : List Happening) (h : Happening) (stream : String) :
    lastHeard serdes exchange openedNs (hs ++ [h]) stream =
      (h.heardAt serdes exchange stream).getD (lastHeard serdes exchange openedNs hs stream) := by
  unfold lastHeard
  rw [List.filterMap_append]
  cases hheard : h.heardAt serdes exchange stream with
  | none => simp [hheard]
  | some ts => simp [hheard]

end History

namespace WatchedSession

variable {crates : Crates} {serdes : Serdes} {s : WatchedSession} {exchange : Exchange}
  {openedNs : Int} {hs : List Happening}

theorem get?_hear (lastFrameNs : Dict String Int) (stream : String) (recvTsNs : Int)
    (other : String) :
    (hear lastFrameNs stream recvTsNs).get? other =
      (lastFrameNs.get? other).map fun ts => if stream = other then recvTsNs else ts := by
  unfold hear
  split
  · rename_i ts hts
    rw [Dict.get?_insert]
    by_cases heq : stream = other
    · subst heq
      simp [hts]
    · simp [heq, Ne.symm heq]
  · rename_i hnone
    by_cases heq : stream = other
    · subst heq
      simp [hnone]
    · simp [heq]

/-- What is known of an open session: the table holds what was last heard of each stream. -/
structure Watches (serdes : Serdes) (exchange : Exchange) (openedNs : Int) (hs : List Happening)
    (s : WatchedSession) : Prop where
  venue : s.session.adapter.exchange = exchange
  opened : s.openedNs = openedNs
  table : s.ended = none → ∀ stream, s.lastFrameNs.get? stream =
    if stream ∈ continuousStreamsFor exchange
    then some (lastHeard serdes exchange openedNs hs stream) else none

theorem watches_start (serdes : Serdes) (a : Adapter) (connId : String) (openedNs : Int) :
    Watches serdes a.exchange openedNs [] (start a connId openedNs) where
  venue := Adapter.exchange_beginConnection a connId
  opened := rfl
  table _ stream := by
    rw [start, Dict.get?_ofKeys]
    rfl

/-- The table after one more happening. -/
theorem Watches.get?_heard (h : Watches serdes exchange openedNs hs s) (hopen : s.ended = none)
    (t : Happening) (stream : String) :
    (s.heard crates serdes t).get? stream =
      if stream ∈ continuousStreamsFor exchange
      then some (lastHeard serdes exchange openedNs (hs ++ [t]) stream) else none := by
  rw [lastHeard_concat]
  cases t with
  | frame bytes recvTsNs sent writeFails =>
    simp only [heard, get?_hear, h.table hopen, stream_handleFrame, h.venue, Happening.heardAt]
    by_cases hwatched : stream ∈ continuousStreamsFor exchange
    · by_cases heq : streamOf serdes exchange bytes = stream <;> simp [hwatched, heq]
    · simp [hwatched]
  | tick nowNs sent writeFails => exact h.table hopen stream
  | peerClosed => exact h.table hopen stream
  | readFails => exact h.table hopen stream
  | shutdown => exact h.table hopen stream

theorem Watches.step (h : Watches serdes exchange openedNs hs s) (t : Happening) :
    Watches serdes exchange openedNs (hs ++ [t]) (step crates serdes s t).1 := by
  unfold WatchedSession.step
  split
  · rename_i e hended
    exact ⟨h.venue, h.opened, fun hnone => by rw [hended] at hnone; cases hnone⟩
  · rename_i hopen
    exact ⟨(Session.exchange_step crates serdes _).trans h.venue, h.opened,
      fun _ stream => h.get?_heard hopen t stream⟩

theorem watches_run (crates : Crates) (serdes : Serdes) (a : Adapter) (connId : String)
    (openedNs : Int) (hs : List Happening) :
    Watches serdes a.exchange openedNs hs (run crates serdes (start a connId openedNs) hs).1 := by
  induction hs using List.reverseRecOn with
  | nil => exact watches_start serdes a connId openedNs
  | append_singleton hs t ih =>
    rw [run, Mealy.run_concat]
    exact ih.step t

theorem Watches.isSilent_iff (h : Watches serdes exchange openedNs hs s) (hopen : s.ended = none)
    (nowNs : Int) :
    isSilent s.lastFrameNs nowNs = true ↔ Silent serdes exchange openedNs hs nowNs := by
  simp only [isSilent, List.any_eq_true, Option.any_eq_true_iff_get, decide_eq_true_eq]
  constructor
  · rintro ⟨⟨stream, ts⟩, hmem, hsome, hlt⟩
    have hget := h.table hopen stream
    rw [Dict.get?_eq_some_iff.2 hmem] at hget
    split at hget
    · rename_i hwatched
      cases hget
      exact ⟨stream, hwatched, _, (Option.some_get hsome).symm, hlt⟩
    · cases hget
  · rintro ⟨stream, hwatched, limit, hlimit, hlt⟩
    have hget := h.table hopen stream
    rw [if_pos hwatched] at hget
    refine ⟨(stream, _), Dict.get?_eq_some_iff.1 hget, by simp [hlimit], ?_⟩
    simpa [hlimit] using hlt

/-! ## Why a session ended -/

/-- Why a session that is open after `before` returns in the next turn, and what. -/
inductive Cause (crates : Crates) (serdes : Serdes) (a : Adapter) (connId : String)
    (openedNs : Int) (before : List Happening) : Happening → Ended → Prop
  | silent {nowNs : Int} {sent : Nat → Bool} {writeFails : Bool}
      (h : Silent serdes a.exchange openedNs before nowNs) :
      Cause crates serdes a connId openedNs before (.tick nowNs sent writeFails) .disconnected
  | aged {nowNs : Int} {sent : Nat → Bool} {writeFails : Bool}
      (hheard : ¬ Silent serdes a.exchange openedNs before nowNs)
      (h : Aged a.exchange openedNs nowNs) :
      Cause crates serdes a connId openedNs before (.tick nowNs sent writeFails) .scheduled
  | tickWrite {nowNs : Int} {sent : Nat → Bool}
      (hheard : ¬ Silent serdes a.exchange openedNs before nowNs)
      (hyoung : ¬ Aged a.exchange openedNs nowNs) :
      Cause crates serdes a connId openedNs before (.tick nowNs sent true) .failed
  | reconnect {bytes : List UInt8} {recvTsNs : Int} {sent : Nat → Bool} {writeFails : Bool}
      (h : Action.reconnect ∈ ((run crates serdes (start a connId openedNs)
        before).1.session.adapter.handleFrame crates serdes bytes recvTsNs).2.actions) :
      Cause crates serdes a connId openedNs before (.frame bytes recvTsNs sent writeFails)
        .disconnected
  | frameWrite {bytes : List UInt8} {recvTsNs : Int} {sent : Nat → Bool}
      (h : Action.reconnect ∉ ((run crates serdes (start a connId openedNs)
        before).1.session.adapter.handleFrame crates serdes bytes recvTsNs).2.actions) :
      Cause crates serdes a connId openedNs before (.frame bytes recvTsNs sent true) .failed
  | peerClosed : Cause crates serdes a connId openedNs before .peerClosed .disconnected
  | readFails : Cause crates serdes a connId openedNs before .readFails .failed
  | shutdown : Cause crates serdes a connId openedNs before .shutdown .shutdown

variable {a : Adapter} {connId : String} {e : Ended}

theorem turn_ends_iff
    (hopen : (run crates serdes (start a connId openedNs) hs).1.ended = none) (t : Happening) :
    ((run crates serdes (start a connId openedNs) hs).1.turn crates serdes t).2 = some e ↔
      Cause crates serdes a connId openedNs hs t e := by
  have hwatches := watches_run crates serdes a connId openedNs hs
  cases t with
  | frame bytes recvTsNs sent writeFails =>
    simp only [turn, frameEnds]
    constructor
    · intro h
      split at h
      · rename_i hreconnect
        cases h
        exact .reconnect hreconnect
      · rename_i hreconnect
        split at h
        · rename_i hfails
          cases h
          subst hfails
          exact .frameWrite hreconnect
        · cases h
    · intro h
      cases h with
      | reconnect hreconnect => rw [if_pos hreconnect]
      | frameWrite hreconnect => rw [if_neg hreconnect, if_pos rfl]
  | tick nowNs sent writeFails =>
    have hsilent := hwatches.isSilent_iff hopen nowNs
    have haged := @connectionExpired_iff a.exchange openedNs nowNs
    simp only [turn, tickEnds, hwatches.venue, hwatches.opened]
    constructor
    · intro h
      split at h
      · rename_i hpassed
        cases h
        exact .silent (hsilent.1 hpassed)
      · rename_i hheard
        split at h
        · rename_i hexpired
          cases h
          exact .aged (mt hsilent.2 hheard) (haged.1 hexpired)
        · rename_i hyoung
          split at h
          · rename_i hfails
            cases h
            subst hfails
            exact .tickWrite (mt hsilent.2 hheard) (mt haged.2 hyoung)
          · cases h
    · intro h
      cases h with
      | silent h => rw [if_pos (hsilent.2 h)]
      | aged hheard h => rw [if_neg (mt hsilent.1 hheard), if_pos (haged.2 h)]
      | tickWrite hheard hyoung =>
        rw [if_neg (mt hsilent.1 hheard), if_neg (mt haged.1 hyoung), if_pos rfl]
  | peerClosed =>
    constructor
    · intro h
      cases h
      exact .peerClosed
    · intro h
      cases h
      rfl
  | readFails =>
    constructor
    · intro h
      cases h
      exact .readFails
    · intro h
      cases h
      rfl
  | shutdown =>
    constructor
    · intro h
      cases h
      exact .shutdown
    · intro h
      cases h
      rfl

theorem ended_concat (t : Happening) :
    (run crates serdes (start a connId openedNs) (hs ++ [t])).1.ended =
      ((run crates serdes (start a connId openedNs) hs).1.ended).or
        ((run crates serdes (start a connId openedNs) hs).1.turn crates serdes t).2 := by
  rw [run, Mealy.run_concat]
  show (step crates serdes (run crates serdes (start a connId openedNs) hs).1 t).1.ended = _
  cases hended : (run crates serdes (start a connId openedNs) hs).1.ended with
  | some e => simp [step, hended]
  | none => simp [step, hended]

/-- A session returns `e` exactly if it was open up to a turn that is a cause for `e`. -/
theorem ended_iff_cause (crates : Crates) (serdes : Serdes) (a : Adapter) (connId : String)
    (openedNs : Int) (hs : List Happening) (e : Ended) :
    (run crates serdes (start a connId openedNs) hs).1.ended = some e ↔
      ∃ before t after, hs = before ++ t :: after ∧
        (run crates serdes (start a connId openedNs) before).1.ended = none ∧
        Cause crates serdes a connId openedNs before t e := by
  induction hs using List.reverseRecOn with
  | nil =>
    constructor
    · intro h
      cases h
    · rintro ⟨before, t, after, heq, -⟩
      simp at heq
  | append_singleton hs t ih =>
    rw [ended_concat]
    have hsplit : ∀ before u after, hs ++ [t] = before ++ u :: after →
        after = [] ∧ before = hs ∧ u = t ∨ ∃ after', hs = before ++ u :: after' := by
      intro before u after heq
      rcases List.eq_nil_or_concat after with rfl | ⟨after', last, rfl⟩
      · obtain ⟨rfl, hlast⟩ := List.append_inj' heq rfl
        exact Or.inl ⟨rfl, rfl, (List.singleton_inj.1 hlast).symm⟩
      · rw [List.concat_eq_append, ← List.cons_append, ← List.append_assoc] at heq
        exact Or.inr ⟨after', (List.append_inj' heq rfl).1⟩
    cases hended : (run crates serdes (start a connId openedNs) hs).1.ended with
    | some e' =>
      rw [hended] at ih
      rw [Option.some_or, ih]
      constructor
      · rintro ⟨before, u, after, rfl, hopen, hcause⟩
        exact ⟨before, u, after ++ [t], by simp, hopen, hcause⟩
      · rintro ⟨before, u, after, heq, hopen, hcause⟩
        rcases hsplit before u after heq with ⟨-, rfl, -⟩ | ⟨after', rfl⟩
        · rw [hended] at hopen
          cases hopen
        · exact ⟨before, u, after', rfl, hopen, hcause⟩
    | none =>
      rw [hended] at ih
      rw [Option.none_or, turn_ends_iff hended]
      constructor
      · intro hcause
        exact ⟨hs, t, [], rfl, hended, hcause⟩
      · rintro ⟨before, u, after, heq, hopen, hcause⟩
        rcases hsplit before u after heq with ⟨-, rfl, rfl⟩ | ⟨after', rfl⟩
        · exact hcause
        · have hsome := ih.2 ⟨before, u, after', rfl, hopen, hcause⟩
          cases hsome

/-- **A session ends for one of these causes, and for nothing else.**  It is a session of the kind
    whose turns may end it; and it returns `e` in a history exactly if it was open up to a turn that
    is a cause for `e`, so that it never outlives a tick that finds a stream silent past its bound
    or a Binance connection 23 hours old, and is never ended by the watchdog while every stream is
    heard of in time. -/
theorem watchdog_exact (crates : Crates) (serdes : Serdes) (a : Adapter) (connId : String)
    (openedNs : Int) (hs : List Happening) :
    (∃ ts, (run crates serdes (start a connId openedNs) hs).1.session =
        (Session.run crates serdes (Session.start a connId) ts).1 ∧
      (run crates serdes (start a connId openedNs) hs).2 =
        (Session.run crates serdes (Session.start a connId) ts).2) ∧
      ∀ e, (run crates serdes (start a connId openedNs) hs).1.ended = some e ↔
        ∃ before t after, hs = before ++ t :: after ∧
          (run crates serdes (start a connId openedNs) before).1.ended = none ∧
          Cause crates serdes a connId openedNs before t e :=
  ⟨session_run (agrees_start a connId openedNs) hs,
    ended_iff_cause crates serdes a connId openedNs hs⟩

end WatchedSession

/-! ## The loop of `run` -/

/-- In milliseconds. -/
structure Backoff where
  current : Nat

namespace Backoff

def BASE : Nat := 500

def CAP : Nat := 30000

def new : Backoff := ⟨BASE⟩

def reset (_ : Backoff) : Backoff := ⟨BASE⟩

def nextDelay (b : Backoff) : Backoff × Nat := (⟨min (b.current * 2) CAP⟩, b.current)

end Backoff

/-- One call of `session`: the backoff is reset when the subscriptions are written. -/
inductive Attempt where
  | unreachable
  | unsubscribed (connId : String)
  | connected (connId : String) (openedNs : Int) (hs : List Happening)

def Attempt.isConnected : Attempt → Bool
  | .connected _ _ _ => true
  | _ => false

structure Process where
  adapter : Adapter
  backoff : Backoff

/-- What the loop counts and how long it waits before the next attempt. -/
structure Reconnect where
  reason : String
  wait : Nat
  deriving DecidableEq, Repr

/-- Nothing is counted for a session that was shut down, which ends the loop. -/
def reason : Ended → Option String
  | .shutdown => none
  | .scheduled => some "scheduled"
  | .disconnected | .failed => some "involuntary"

namespace Process

variable (crates : Crates) (serdes : Serdes)

/-- What `session` returns; `none` while it goes on. -/
def attempt (p : Process) : Attempt → Process × Option Ended
  | .unreachable => (p, some .failed)
  | .unsubscribed connId => ({ p with adapter := p.adapter.beginConnection connId }, some .failed)
  | .connected connId openedNs hs =>
    let r := WatchedSession.run crates serdes (WatchedSession.start p.adapter connId openedNs) hs
    (⟨r.1.session.adapter, p.backoff.reset⟩, r.1.ended)

def cycle (p : Process) (t : Attempt) : Option (Process × Reconnect) :=
  let r := p.attempt crates serdes t
  (r.2.bind reason).map fun why =>
    let delay := r.1.backoff.nextDelay
    ({ r.1 with backoff := delay.1 }, ⟨why, delay.2⟩)

def run (p : Process) : List Attempt → List Reconnect
  | [] => []
  | t :: ts => match p.cycle crates serdes t with
    | some (next, reconnect) => reconnect :: run next ts
    | none => []

/-- The attempts since the last that connected, that one included; all of them if none did. -/
def sinceConnected (before : Nat) (ts : List Attempt) : Nat :=
  ts.foldl (fun n t => if t.isConnected then 1 else n + 1) before

variable {crates serdes} {p next : Process} {t : Attempt} {ts : List Attempt}
  {reconnect : Reconnect}

theorem exchange_attempt (p : Process) (t : Attempt) :
    (p.attempt crates serdes t).1.adapter.exchange = p.adapter.exchange := by
  cases t with
  | unreachable => rfl
  | unsubscribed connId => exact Adapter.exchange_beginConnection _ connId
  | connected connId openedNs hs =>
    exact (WatchedSession.watches_run crates serdes p.adapter connId openedNs hs).venue

/-- The wait of one cycle, and the backoff it leaves. -/
theorem cycle_backoff {n : Nat} (hcycle : p.cycle crates serdes t = some (next, reconnect))
    (hcurrent : p.backoff.current = min (500 * 2 ^ n) 30000) :
    reconnect.wait = min (500 * 2 ^ (sinceConnected n [t] - 1)) 30000 ∧
      next.backoff.current = min (500 * 2 ^ sinceConnected n [t]) 30000 := by
  obtain ⟨why, -, hnext⟩ := Option.map_eq_some_iff.1 hcycle
  obtain ⟨rfl, rfl⟩ := Prod.mk.inj hnext
  have hdouble : min (min (500 * 2 ^ n) 30000 * 2) 30000 = min (500 * 2 ^ (n + 1)) 30000 := by
    rw [pow_succ]
    omega
  cases t with
  | unreachable => exact ⟨hcurrent, by rw [← hcurrent] at hdouble; exact hdouble⟩
  | unsubscribed connId => exact ⟨hcurrent, by rw [← hcurrent] at hdouble; exact hdouble⟩
  | connected connId openedNs hs => exact ⟨rfl, rfl⟩

theorem cycle_reason (hcycle : p.cycle crates serdes t = some (next, reconnect)) :
    reconnect.reason = "scheduled" ↔ (p.attempt crates serdes t).2 = some .scheduled := by
  obtain ⟨why, hwhy, hnext⟩ := Option.map_eq_some_iff.1 hcycle
  obtain ⟨-, rfl⟩ := Prod.mk.inj hnext
  obtain ⟨e, hended, hreason⟩ := Option.bind_eq_some_iff.1 hwhy
  rw [hended]
  cases e <;> cases hreason <;> simp

theorem exchange_cycle (hcycle : p.cycle crates serdes t = some (next, reconnect)) :
    next.adapter.exchange = p.adapter.exchange := by
  obtain ⟨why, -, hnext⟩ := Option.map_eq_some_iff.1 hcycle
  obtain ⟨rfl, -⟩ := Prod.mk.inj hnext
  exact exchange_attempt p t

/-- A connection that is closed on schedule is a Binance connection 23 hours old. -/
theorem aged_of_scheduled (h : (p.attempt crates serdes t).2 = some .scheduled) :
    ∃ connId openedNs hs before nowNs sent writeFails after,
      t = .connected connId openedNs hs ∧ hs = before ++ .tick nowNs sent writeFails :: after ∧
        Aged p.adapter.exchange openedNs nowNs := by
  cases t with
  | unreachable => cases h
  | unsubscribed connId => cases h
  | connected connId openedNs hs =>
    obtain ⟨before, u, after, rfl, -, hcause⟩ :=
      (WatchedSession.ended_iff_cause crates serdes p.adapter connId openedNs hs .scheduled).1 h
    cases hcause with
    | aged _ haged => exact ⟨connId, openedNs, _, before, _, _, _, after, rfl, rfl, haged⟩

theorem reconnects_from {n : Nat} (hcurrent : p.backoff.current = min (500 * 2 ^ n) 30000)
    {i : Nat} (h : (run crates serdes p ts)[i]? = some reconnect) :
    reconnect.wait = min (500 * 2 ^ (sinceConnected n (ts.take (i + 1)) - 1)) 30000 ∧
      (reconnect.reason = "scheduled" →
        ∃ connId openedNs hs before nowNs sent writeFails after,
          ts[i]? = some (.connected connId openedNs hs) ∧
            hs = before ++ .tick nowNs sent writeFails :: after ∧
              Aged p.adapter.exchange openedNs nowNs) := by
  induction ts generalizing p n i with
  | nil => simp [run] at h
  | cons t ts ih =>
    cases hcycle : p.cycle crates serdes t with
    | none => simp [run, hcycle] at h
    | some r =>
      obtain ⟨next, first⟩ := r
      obtain ⟨hwait, hleft⟩ := cycle_backoff hcycle hcurrent
      simp only [run, hcycle] at h
      cases i with
      | zero =>
        cases h
        refine ⟨hwait, fun hreason => ?_⟩
        obtain ⟨connId, openedNs, hs, before, nowNs, sent, writeFails, after, rfl, rfl, haged⟩ :=
          aged_of_scheduled ((cycle_reason hcycle).1 hreason)
        exact ⟨connId, openedNs, _, before, nowNs, sent, writeFails, after, rfl, rfl, haged⟩
      | succ i =>
        have hrest := ih hleft h
        rw [exchange_cycle hcycle] at hrest
        exact hrest

/-- **How `run` reconnects.**  Over every sequence of attempts: the wait after an attempt is half a
    second, doubled for each attempt since the last that connected, and never more than 30 seconds;
    and a reconnect is counted as scheduled only after a Binance connection 23 hours old. -/
theorem reconnects (crates : Crates) (serdes : Serdes) (a : Adapter) (ts : List Attempt) (i : Nat) :
    ∀ reconnect, (run crates serdes ⟨a, Backoff.new⟩ ts)[i]? = some reconnect →
      reconnect.wait = min (500 * 2 ^ (sinceConnected 0 (ts.take (i + 1)) - 1)) 30000 ∧
        (reconnect.reason = "scheduled" →
          ∃ connId openedNs hs before nowNs sent writeFails after,
            ts[i]? = some (.connected connId openedNs hs) ∧
              hs = before ++ .tick nowNs sent writeFails :: after ∧
                a.exchange = .binance ∧ 82800000000000 ≤ nowNs - openedNs) :=
  fun _ h => reconnects_from (p := ⟨a, Backoff.new⟩) (n := 0) rfl h

end Process

/-! ## A day on Binance -/

/-- The frames `[0]` and `[1]`, of the two Binance streams. -/
def binanceFrames : Serdes where
  kraken := Kraken.Serde.ofFrames [] []
  binance := {
    envelope := fun bytes =>
      if bytes = [0] then some ⟨"atomusd@trade", ""⟩
      else if bytes = [1] then some ⟨"atomusd@depth20@100ms", ""⟩
      else none
    trade := fun _ => none
    depth := fun _ => none }
  coinbase := Coinbase.Serde.ofFrames []

/-- Two attempts find no network; the third connects, and both streams are heard to the end. -/
def aDay : List Attempt :=
  [.unreachable, .unreachable, .connected "c-1" 1000
    [.frame [0] 82799999999000 (fun _ => true) false,
      .frame [1] 82799999999500 (fun _ => true) false, .tick 82799999999999 (fun _ => true) false,
      .tick 82800000001000 (fun _ => true) false]]

theorem closed_after_a_day :
    Process.run Coinbase.timed binanceFrames ⟨buildAdapter .binance twoProducts, Backoff.new⟩ aDay =
        [⟨"involuntary", 500⟩, ⟨"involuntary", 1000⟩, ⟨"scheduled", 500⟩] ∧
      ∃ connId openedNs hs, aDay[2]? = some (.connected connId openedNs hs) ∧
        ∃ nowNs, 82800000000000 ≤ nowNs - openedNs := by
  have hrun : Process.run Coinbase.timed binanceFrames
      ⟨buildAdapter .binance twoProducts, Backoff.new⟩ aDay =
        [⟨"involuntary", 500⟩, ⟨"involuntary", 1000⟩, ⟨"scheduled", 500⟩] := by decide +kernel
  obtain ⟨-, hscheduled⟩ := Process.reconnects Coinbase.timed binanceFrames
    (buildAdapter .binance twoProducts) aDay 2 ⟨"scheduled", 500⟩ (by rw [hrun]; rfl)
  obtain ⟨connId, openedNs, hs, _, nowNs, _, _, _, hattempt, _, _, haged⟩ := hscheduled rfl
  exact ⟨hrun, connId, openedNs, hs, hattempt, nowNs, haged⟩

end K2.Capture

import K2Platform.Capture.Adapter
import K2Platform.Capture.RawRecords

/-!
# A capture session

Model of the loop of `session` in `services/capture-rust/src/main.rs`, and of `ResyncOnDrain`
(`resync.rs`), which it uses to resubscribe a symbol whose book frame the producer refused.

A `Turn` is one turn of the `select`: a frame, a tick of the sampler, or the end of the socket.
It brings what the session cannot decide: whether the producer takes each record offered to it,
and whether the session returns in this turn (the watchdog, the age bound, a write that fails).

* `Session.waits_step` — what any turn makes of a symbol that waits for its resubscription.
* `Session.resynced_of_waits` — it is resubscribed once a whole interval has been quiet.
* `resynced_iff` — a refused frame has its products resubscribed in every history if and only if
  it does not name another product beside one of them.
-/

set_option autoImplicit false

namespace K2.Capture

/-! ## `ResyncOnDrain` -/

structure ResyncOnDrain where
  /-- The members of a `BTreeSet`, which has no values. -/
  pending : SortedMap String Unit
  droppedSinceTick : Bool

namespace ResyncOnDrain

def default : ResyncOnDrain := ⟨SortedMap.empty, false⟩

def dropped (r : ResyncOnDrain) (symbol : String) : ResyncOnDrain :=
  ⟨r.pending.insert symbol (), true⟩

def drained (r : ResyncOnDrain) : ResyncOnDrain × List String :=
  if r.pending.isEmpty then (r, [])
  else if r.droppedSinceTick then ({ r with droppedSinceTick := false }, [])
  else ({ r with pending := SortedMap.empty }, r.pending.keys)

/-- The symbol waits for a resubscription. -/
def Waits (r : ResyncOnDrain) (symbol : String) : Prop := symbol ∈ r.pending.keys

theorem waits_dropped_self (r : ResyncOnDrain) (symbol : String) :
    (r.dropped symbol).Waits symbol := by
  simp [Waits, dropped, SortedMap.mem_keys_iff, SortedMap.contains]

theorem Waits.dropped {r : ResyncOnDrain} {symbol : String} (h : r.Waits symbol) (other : String) :
    (r.dropped other).Waits symbol := by
  by_cases heq : symbol = other
  · subst heq
    exact waits_dropped_self r symbol
  · rw [Waits, ResyncOnDrain.dropped, SortedMap.mem_keys_iff, SortedMap.contains,
      SortedMap.get?_insert_of_ne _ _ heq]
    rwa [Waits, SortedMap.mem_keys_iff, SortedMap.contains] at h

/-- **A tick resubscribes a symbol that waits, or keeps it waiting and opens a quiet interval.** -/
theorem Waits.drained {r : ResyncOnDrain} {symbol : String} (h : r.Waits symbol) :
    symbol ∈ r.drained.2 ∧ r.droppedSinceTick = false ∨
      r.drained.1.Waits symbol ∧ r.drained.1.droppedSinceTick = false ∧
        r.droppedSinceTick = true := by
  have hne : r.pending.isEmpty = false := by
    rw [Bool.eq_false_iff]
    intro hempty
    rw [SortedMap.isEmpty_iff] at hempty
    simp [Waits, SortedMap.keys, hempty] at h
  unfold ResyncOnDrain.drained
  rw [hne]
  cases hflag : r.droppedSinceTick with
  | true => exact Or.inr ⟨h, rfl, rfl⟩
  | false => exact Or.inl ⟨h, rfl⟩

end ResyncOnDrain

/-! ## The loop -/

/-- A stream whose frames are deltas to a book the lake replays. -/
def isBookStream (stream : String) : Bool := stream = "book" ∨ stream = "l2_data"

structure Session where
  adapter : Adapter
  resync : ResyncOnDrain
  /-- `false` once the session has returned. -/
  isOpen : Bool

inductive Turn where
  /-- A frame; `sent i` is the producer's answer to the `i`-th record of it. -/
  | frame (bytes : List UInt8) (recvTsNs : Int) (sent : Nat → Bool) (ends : Bool)
  | tick (nowNs : Int) (sent : Nat → Bool) (ends : Bool)
  | close

inductive Effect where
  | offered (r : OutRecord) (taken : Bool)
  /-- Resubscription messages for an `Action::Resubscribe`. -/
  | resubscribed (symbol : String)
  /-- Resubscription messages for a symbol that `drained` returned. -/
  | resynced (symbol : String)
  deriving DecidableEq

/-- The records of a turn, with the producer's answers. -/
def offers (rs : List OutRecord) (sent : Nat → Bool) : List Effect :=
  rs.mapIdx fun i r => .offered r (sent i)

/-- The symbol of a book frame whose raw record is refused. -/
def lostSymbol : Effect → Option String
  | .offered (.raw r) false => if isBookStream r.stream then r.symbol else none
  | _ => none

def resubscribe? : Action → Option String
  | .resubscribe symbol => some symbol
  | .reconnect => none

namespace Session

def start (a : Adapter) (connId : String) : Session :=
  ⟨a.beginConnection connId, ResyncOnDrain.default, true⟩

/-- The loop over the records of a frame: each one lost is remembered. -/
def note (resync : ResyncOnDrain) (offered : List Effect) : ResyncOnDrain :=
  (offered.filterMap lostSymbol).foldl ResyncOnDrain.dropped resync

def frameStep (crates : Crates) (serdes : Serdes) (s : Session) (bytes : List UInt8)
    (recvTsNs : Int) (sent : Nat → Bool) (ends : Bool) : Session × List Effect :=
  let r := s.adapter.handleFrame crates serdes bytes recvTsNs
  let offered := offers r.2.records sent
  let resync := note s.resync offered
  -- a `Reconnect` returns before anything queued is written
  if Action.reconnect ∈ r.2.actions ∨ ends then (⟨r.1, resync, false⟩, offered)
  else (⟨r.1, resync, true⟩,
    offered ++ (r.2.actions.filterMap resubscribe?).map .resubscribed)

def tickStep (s : Session) (nowNs : Int) (sent : Nat → Bool) (ends : Bool) :
    Session × List Effect :=
  let d := s.resync.drained
  let sampled := s.adapter.symbols.filterMap fun symbol =>
    (s.adapter.snapshot symbol nowNs).map OutRecord.book
  if ends then (⟨s.adapter, d.1, false⟩, offers sampled sent)
  else (⟨s.adapter, d.1, true⟩, offers sampled sent ++ d.2.map .resynced)

def step (crates : Crates) (serdes : Serdes) (s : Session) (t : Turn) : Session × List Effect :=
  if s.isOpen then
    match t with
    | .frame bytes recvTsNs sent ends => s.frameStep crates serdes bytes recvTsNs sent ends
    | .tick nowNs sent ends => s.tickStep nowNs sent ends
    | .close => ({ s with isOpen := false }, [])
  else (s, [])

def run (crates : Crates) (serdes : Serdes) (s : Session) (ts : List Turn) :
    Session × List Effect :=
  Mealy.run (step crates serdes) s ts

end Session

/-! ## What a frame says of its products -/

/-- A registered or unregistered product that a book frame names, with whether the entry has a
    level. -/
abbrev BookEntry := String × Bool

/-- The entries of a Kraken `book` or Coinbase `l2_data` frame; any other frame has none. -/
def bookEntries (serdes : Serdes) (exchange : Exchange) (bytes : List UInt8) :
    List BookEntry :=
  match exchange with
  | .kraken => match (Kraken.parse serdes.kraken bytes).body with
    | .book frames => frames.map fun f => (f.symbol, !(f.bids.isEmpty && f.asks.isEmpty))
    | _ => []
  | .binance => []
  | .coinbase => match (Coinbase.Adapter.parse serdes.coinbase bytes).2 with
    | .l2 events => events.map fun e => (e.productId, !e.updates.isEmpty)
    | _ => []

/-- The symbol a book frame's raw record names, if it names one. -/
def bookSymbol (serdes : Serdes) (exchange : Exchange) (bytes : List UInt8) : Option String :=
  match exchange with
  | .kraken =>
    let p := Kraken.parse serdes.kraken bytes
    if isBookStream p.stream then p.body.singleSymbol else none
  | .binance => none
  | .coinbase =>
    let p := Coinbase.Adapter.parse serdes.coinbase bytes
    if isBookStream p.1 then p.2.singleSymbol else none

/-- The frame is a book frame, whatever it holds. -/
def isBookFrame (serdes : Serdes) (exchange : Exchange) (bytes : List UInt8) : Bool :=
  match exchange with
  | .kraken => isBookStream (Kraken.parse serdes.kraken bytes).stream
  | .binance => false
  | .coinbase => isBookStream (Coinbase.Adapter.parse serdes.coinbase bytes).1

/-- The one symbol of a list that has no other. -/
def soleSymbol (symbols : List String) : Option String :=
  symbols.head?.bind fun first => if symbols.all (· = first) then some first else none

theorem soleSymbol_eq_some {symbols : List String} {s : String} (hmem : s ∈ symbols)
    (h : ∀ x ∈ symbols, x = s) : soleSymbol symbols = some s := by
  cases symbols with
  | nil => cases hmem
  | cons first rest =>
    have hfirst := h first List.mem_cons_self
    subst hfirst
    have hall : (first :: rest).all (· = first) = true := by
      rw [List.all_eq_true]
      intro x hx
      exact decide_eq_true (h x hx)
    exact if_pos hall

theorem eq_of_soleSymbol {symbols : List String} {s : String} (h : soleSymbol symbols = some s) :
    ∀ x ∈ symbols, x = s := by
  obtain ⟨first, _, hfirst⟩ := Option.bind_eq_some_iff.1 h
  split at hfirst
  · rename_i hall
    cases hfirst
    intro x hx
    simpa using List.all_eq_true.1 hall x hx
  · cases hfirst

theorem Kraken.stream_of_book {serde : Kraken.Serde} {bytes : List UInt8}
    {frames : List Kraken.BookData} (h : (Kraken.parse serde bytes).body = .book frames) :
    (Kraken.parse serde bytes).stream = "book" := by
  unfold Kraken.parse at h ⊢
  split at h
  · cases h
  · rename_i e _
    simp only [Kraken.Body.parse] at h
    split at h
    · cases h
    · rename_i data _
      split at h
      · rename_i hchannel
        simp only [Kraken.Envelope.streamName, hchannel]
      · split at h
        · cases htrade : serde.trade data <;> rw [htrade] at h <;> cases h
        · split at h
          · cases hpairs : serde.instrument data <;> rw [hpairs] at h <;> cases h
          · cases h

theorem Coinbase.stream_of_l2 {serde : Coinbase.Serde} {bytes : List UInt8}
    {events : List Coinbase.L2Event} (h : (Coinbase.Adapter.parse serde bytes).2 = .l2 events) :
    (Coinbase.Adapter.parse serde bytes).1 = "l2_data" := by
  unfold Coinbase.Adapter.parse at h ⊢
  split at h
  · cases h
  · rename_i e _
    simp only [Coinbase.Body.parse] at h
    split at h
    · rename_i channel text hchannel _
      split at h
      · rename_i heq
        simp only [hchannel, heq, Option.getD_some]
      · split at h
        · cases htrades : serde.trades text <;> rw [htrades] at h <;> cases h
        · split at h <;> cases h
    · cases h

/-- What the raw record of a frame with entries names: the sole symbol of its entries. -/
theorem bookSymbol_of_entries {serdes : Serdes} {exchange : Exchange} {bytes : List UInt8}
    (h : bookEntries serdes exchange bytes ≠ []) :
    isBookFrame serdes exchange bytes = true ∧
      bookSymbol serdes exchange bytes =
        soleSymbol ((bookEntries serdes exchange bytes).map Prod.fst) := by
  cases exchange with
  | kraken =>
    unfold bookEntries at h ⊢
    simp only at h ⊢
    split at h
    · rename_i frames hbody
      have hstream := Kraken.stream_of_book hbody
      refine ⟨?_, ?_⟩
      · simp [isBookFrame, hstream, isBookStream]
      · simp only [bookSymbol, hstream, isBookStream, hbody, Kraken.Body.singleSymbol, soleSymbol,
          List.map_map]
        rfl
    · exact absurd rfl h
  | binance => exact absurd rfl h
  | coinbase =>
    unfold bookEntries at h ⊢
    simp only at h ⊢
    split at h
    · rename_i events hbody
      have hstream := Coinbase.stream_of_l2 hbody
      refine ⟨?_, ?_⟩
      · simp [isBookFrame, hstream, isBookStream]
      · simp only [bookSymbol, hstream, isBookStream, hbody, Coinbase.Body.singleSymbol, soleSymbol,
          List.map_map]
        rfl
    · exact absurd rfl h

theorem bookSymbol_of_not_book {serdes : Serdes} {exchange : Exchange} {bytes : List UInt8}
    (h : isBookFrame serdes exchange bytes = false) : bookSymbol serdes exchange bytes = none := by
  cases exchange with
  | kraken => exact if_neg (Bool.eq_false_iff.1 h)
  | binance => rfl
  | coinbase => exact if_neg (Bool.eq_false_iff.1 h)

/-! ## What a turn loses -/

theorem lostSymbol_of_quiet {outs : List OutRecord} (h : ∀ r, OutRecord.raw r ∉ outs)
    (sent : Nat → Bool) : (offers outs sent).filterMap lostSymbol = [] := by
  rw [List.filterMap_eq_nil_iff]
  intro e he
  obtain ⟨i, hi, rfl⟩ := List.mem_mapIdx.1 he
  have hmem := List.getElem_mem hi
  cases hr : outs[i] with
  | trade t => rfl
  | book b => rfl
  | raw r => exact absurd (hr ▸ hmem) (h r)

/-- Of a frame's records, the raw one is the first and the only one that can be lost. -/
theorem lostSymbol_of_raw (raw : RawMessageRecord) {rest : List OutRecord}
    (h : ∀ r, OutRecord.raw r ∉ rest) (sent : Nat → Bool) :
    (offers (.raw raw :: rest) sent).filterMap lostSymbol =
      if sent 0 then [] else (if isBookStream raw.stream then raw.symbol else none).toList := by
  have hrest := lostSymbol_of_quiet h fun i => sent (i + 1)
  unfold offers at hrest ⊢
  rw [List.mapIdx_cons, List.filterMap_cons, hrest]
  cases sent 0 with
  | true => rfl
  | false =>
    simp only [lostSymbol]
    split <;> simp_all

theorem raw_notMem_records {ν : Type} {outs : List (Output ν)} (h : Output.Quiet outs)
    (r : RawMessageRecord) : OutRecord.raw r ∉ Output.records outs := by
  intro hmem
  have hquiet := h _ (Output.mem_records.1 hmem)
  cases hquiet

theorem Binance.isBookStream_routed (a : Binance.Adapter) (e : Option Binance.Envelope) :
    isBookStream (a.routed e).1 = false := by
  unfold Binance.Adapter.routed Binance.Adapter.route
  split
  · split
    · split
      · rfl
      · split <;> rfl
    · rfl
  · rfl

theorem lostSymbol_of_frame (crates : Crates) (serdes : Serdes) (a : Adapter) (bytes : List UInt8)
    (recvTsNs : Int) (sent : Nat → Bool) :
    (offers (a.handleFrame crates serdes bytes recvTsNs).2.records sent).filterMap lostSymbol =
      if sent 0 then [] else (bookSymbol serdes a.exchange bytes).toList := by
  cases a with
  | kraken a =>
    exact lostSymbol_of_raw _ (raw_notMem_records (Kraken.quiet_handleBody _ _ _ _ _)) sent
  | binance a =>
    have hbook := Binance.isBookStream_routed { a with connMsgSeq := a.connMsgSeq + 1 }
      (serdes.binance.envelope bytes)
    simp only [Adapter.handleFrame, Binance.Adapter.handleFrame, Binance.Adapter.step]
    rw [Output.records, List.filterMap_cons]
    refine (lostSymbol_of_raw _ (raw_notMem_records ?_) sent).trans ?_
    · split
      · exact Binance.quiet_handleData _ _ _ _ _ _
      · exact Output.quiet_nil
    · simp only [hbook, bookSymbol, Adapter.exchange]
      rfl
  | coinbase a =>
    simp only [Adapter.handleFrame, Coinbase.Adapter.handleFrame, Coinbase.Adapter.step]
    split
    · exact lostSymbol_of_raw _ (raw_notMem_records Output.quiet_nil) sent
    · refine lostSymbol_of_raw _ (raw_notMem_records (Output.Quiet.append ?_ ?_)) sent
      · exact Output.quiet_map (fun _ => rfl) _
      · exact Coinbase.quiet_handleBody _ _ _ _

namespace Turn

def isTick : Turn → Bool
  | .tick .. => true
  | _ => false

/-- The producer refuses the raw record of a book frame, which is the first of the frame. -/
def refuses (serdes : Serdes) (exchange : Exchange) : Turn → Bool
  | .frame bytes _ sent _ => !sent 0 && isBookFrame serdes exchange bytes
  | _ => false

/-- No tick, and no refused book frame. -/
def Quiet (serdes : Serdes) (exchange : Exchange) (ts : List Turn) : Prop :=
  ∀ t ∈ ts, t.isTick = false ∧ t.refuses serdes exchange = false

end Turn

/-! ## From the refusal to the resubscription -/

namespace Session

variable {crates : Crates} {serdes : Serdes} {s : Session} {symbol : String}

theorem step_of_closed (h : s.isOpen = false) (t : Turn) : step crates serdes s t = (s, []) := by
  simp [step, h]

variable (crates serdes) in
theorem run_of_closed (h : s.isOpen = false) : ∀ ts : List Turn, run crates serdes s ts = (s, [])
  | [] => rfl
  | t :: ts => by
    rw [run, Mealy.run_cons, step_of_closed h]
    exact congrArg (fun r : Session × List Effect => (r.1, [] ++ r.2)) (run_of_closed h ts)

variable (crates serdes) in
@[simp] theorem exchange_step (t : Turn) :
    (step crates serdes s t).1.adapter.exchange = s.adapter.exchange := by
  unfold step
  split
  · cases t with
    | frame bytes recvTsNs sent ends =>
      simp only [frameStep]
      split <;> exact Adapter.exchange_handleFrame _ _ _ _ _
    | tick nowNs sent ends =>
      simp only [tickStep]
      split <;> rfl
    | close => rfl
  · rfl

theorem run_append (s : Session) (ts us : List Turn) :
    run crates serdes s (ts ++ us) =
      ((run crates serdes (run crates serdes s ts).1 us).1,
        (run crates serdes s ts).2 ++ (run crates serdes (run crates serdes s ts).1 us).2) :=
  Mealy.run_append _ s ts us

theorem run_cons (s : Session) (t : Turn) (ts : List Turn) :
    run crates serdes s (t :: ts) =
      ((run crates serdes (step crates serdes s t).1 ts).1,
        (step crates serdes s t).2 ++ (run crates serdes (step crates serdes s t).1 ts).2) := rfl

variable (crates serdes) in
/-- A session that is open after more turns was open before them. -/
theorem isOpen_of_run {ts : List Turn} (h : (run crates serdes s ts).1.isOpen = true) :
    s.isOpen = true := by
  by_contra hclosed
  rw [run_of_closed crates serdes (Bool.eq_false_iff.2 hclosed)] at h
  exact hclosed h

variable (crates serdes) in
theorem exchange_run (s : Session) (ts : List Turn) :
    (run crates serdes s ts).1.adapter.exchange = s.adapter.exchange :=
  Mealy.run_state _ (I := fun u : Session => u.adapter.exchange = s.adapter.exchange)
    (fun _ t hu => (exchange_step crates serdes t).trans hu) ts s rfl

theorem waits_note (h : s.resync.Waits symbol) (offered : List Effect) :
    (note s.resync offered).Waits symbol := by
  unfold note
  generalize offered.filterMap lostSymbol = lost
  revert h
  generalize s.resync = resync
  intro h
  induction lost generalizing resync with
  | nil => exact h
  | cons other rest ih => exact ih _ (h.dropped other)

theorem note_of_nothing_lost {offered : List Effect} (h : offered.filterMap lostSymbol = [])
    (resync : ResyncOnDrain) : note resync offered = resync := by
  rw [note, h]
  rfl

variable (crates serdes) in
@[simp] theorem resync_frameStep (bytes : List UInt8) (recvTsNs : Int) (sent : Nat → Bool)
    (ends : Bool) : (s.frameStep crates serdes bytes recvTsNs sent ends).1.resync =
      note s.resync (offers (s.adapter.handleFrame crates serdes bytes recvTsNs).2.records sent) := by
  unfold frameStep
  simp only
  split <;> rfl

/-- A frame whose raw record is refused leaves the one symbol it names waiting. -/
theorem waits_of_refused {bytes : List UInt8} {recvTsNs : Int} {sent : Nat → Bool} {ends : Bool}
    (hopen : s.isOpen = true) (hsent : sent 0 = false)
    (hsymbol : bookSymbol serdes s.adapter.exchange bytes = some symbol) :
    (step crates serdes s (.frame bytes recvTsNs sent ends)).1.resync.Waits symbol := by
  rw [step, if_pos hopen]
  simp only [resync_frameStep]
  rw [note, lostSymbol_of_frame, hsent, hsymbol]
  exact ResyncOnDrain.waits_dropped_self _ _

variable (crates serdes) in
/-- **Any turn**: a symbol that waits is resubscribed, or waits on, or the session has returned. -/
theorem waits_step (h : s.resync.Waits symbol) (t : Turn) :
    .resynced symbol ∈ (step crates serdes s t).2 ∨ (step crates serdes s t).1.resync.Waits symbol ∨
      (step crates serdes s t).1.isOpen = false := by
  unfold step
  split
  · cases t with
    | frame bytes recvTsNs sent ends =>
      refine Or.inr (Or.inl ?_)
      simp only [resync_frameStep]
      exact waits_note h _
    | tick nowNs sent ends =>
      simp only [tickStep]
      rcases h.drained with ⟨hmem, _⟩ | ⟨hwaits, _⟩
      · split
        · exact Or.inr (Or.inr rfl)
        · exact Or.inl (List.mem_append_right _ (List.mem_map_of_mem hmem))
      · split <;> exact Or.inr (Or.inl hwaits)
    | close => exact Or.inr (Or.inr rfl)
  · exact Or.inr (Or.inl h)

variable (crates serdes) in
theorem waits_run : ∀ (ts : List Turn) {s : Session}, s.resync.Waits symbol →
    .resynced symbol ∈ (run crates serdes s ts).2 ∨
      (run crates serdes s ts).1.resync.Waits symbol ∨ (run crates serdes s ts).1.isOpen = false
  | [], _, h => Or.inr (Or.inl h)
  | t :: ts, s, h => by
    rw [run, Mealy.run_cons]
    rcases waits_step crates serdes h t with hmem | hwaits | hclosed
    · exact Or.inl (List.mem_append_left _ hmem)
    · rcases waits_run ts hwaits with hmem | hrest
      · exact Or.inl (List.mem_append_right _ hmem)
      · exact Or.inr hrest
    · have hrun := run_of_closed crates serdes hclosed ts
      rw [run] at hrun
      rw [hrun]
      exact Or.inr (Or.inr hclosed)

/-- The symbol waits, and nothing has been lost since the last tick. -/
structure WaitsQuietly (symbol : String) (s : Session) : Prop where
  waits : s.resync.Waits symbol
  quiet : s.resync.droppedSinceTick = false

variable (crates serdes) in
theorem tick_of_waits (h : s.resync.Waits symbol) {t : Turn} (ht : t.isTick = true) :
    .resynced symbol ∈ (step crates serdes s t).2 ∨ WaitsQuietly symbol (step crates serdes s t).1 ∨
      (step crates serdes s t).1.isOpen = false := by
  cases t with
  | frame bytes recvTsNs sent ends => cases ht
  | close => cases ht
  | tick nowNs sent ends =>
    by_cases hopen : s.isOpen = true
    · rw [step, if_pos hopen]
      simp only [tickStep]
      rcases h.drained with ⟨hmem, _⟩ | ⟨hwaits, hquiet, _⟩
      · split
        · exact Or.inr (Or.inr rfl)
        · exact Or.inl (List.mem_append_right _ (List.mem_map_of_mem hmem))
      · split <;> exact Or.inr (Or.inl ⟨hwaits, hquiet⟩)
    · have hclosed := Bool.eq_false_iff.2 hopen
      rw [step_of_closed hclosed]
      exact Or.inr (Or.inr hclosed)

theorem WaitsQuietly.tick (h : WaitsQuietly symbol s) {t : Turn} (ht : t.isTick = true) :
    .resynced symbol ∈ (step crates serdes s t).2 ∨ (step crates serdes s t).1.isOpen = false := by
  cases t with
  | frame bytes recvTsNs sent ends => cases ht
  | close => cases ht
  | tick nowNs sent ends =>
    by_cases hopen : s.isOpen = true
    · rw [step, if_pos hopen]
      simp only [tickStep]
      rcases h.waits.drained with ⟨hmem, _⟩ | ⟨_, _, hflag⟩
      · split
        · exact Or.inr rfl
        · exact Or.inl (List.mem_append_right _ (List.mem_map_of_mem hmem))
      · rw [h.quiet] at hflag
        cases hflag
    · have hclosed := Bool.eq_false_iff.2 hopen
      rw [step_of_closed hclosed]
      exact Or.inr hclosed

theorem WaitsQuietly.step (h : WaitsQuietly symbol s) {t : Turn} (htick : t.isTick = false)
    (hquiet : t.refuses serdes s.adapter.exchange = false) :
    WaitsQuietly symbol (step crates serdes s t).1 := by
  unfold Session.step
  split
  · cases t with
    | frame bytes recvTsNs sent ends =>
      have hlost := lostSymbol_of_frame crates serdes s.adapter bytes recvTsNs sent
      have hnothing : (offers (s.adapter.handleFrame crates serdes bytes recvTsNs).2.records
          sent).filterMap lostSymbol = [] := by
        rw [hlost]
        cases hsent : sent 0 with
        | true => rfl
        | false =>
          simp only [Turn.refuses, hsent, Bool.not_false, Bool.true_and] at hquiet
          rw [bookSymbol_of_not_book hquiet]
          rfl
      have hresync := @resync_frameStep crates serdes s bytes recvTsNs sent ends
      rw [note_of_nothing_lost hnothing] at hresync
      exact ⟨by simpa only [hresync] using h.waits, by simpa only [hresync] using h.quiet⟩
    | tick nowNs sent ends => cases htick
    | close => exact ⟨h.waits, h.quiet⟩
  · exact h

variable (crates serdes) in
theorem WaitsQuietly.run : ∀ {ts : List Turn} {s : Session}, WaitsQuietly symbol s →
    Turn.Quiet serdes s.adapter.exchange ts → WaitsQuietly symbol (run crates serdes s ts).1
  | [], _, h, _ => h
  | t :: ts, s, h, hquiet => by
    obtain ⟨htick, hrefuses⟩ := hquiet t List.mem_cons_self
    rw [Session.run, Mealy.run_cons]
    refine WaitsQuietly.run (h.step htick hrefuses) fun u hu => ?_
    rw [exchange_step]
    exact hquiet u (List.mem_cons_of_mem _ hu)

/-- **A symbol that waits is resubscribed by the end of a quiet interval**, if the session lasts
    that long: after whatever came first, two ticks with no refused book frame between them. -/
theorem resynced_of_waits (h : s.resync.Waits symbol) (after : List Turn) {t₁ t₂ : Turn}
    {quiet : List Turn} (h₁ : t₁.isTick = true)
    (hquiet : Turn.Quiet serdes s.adapter.exchange quiet) (h₂ : t₂.isTick = true)
    (hopen : (run crates serdes s (after ++ t₁ :: (quiet ++ [t₂]))).1.isOpen = true) :
    .resynced symbol ∈ (run crates serdes s (after ++ t₁ :: (quiet ++ [t₂]))).2 := by
  rw [run_append] at hopen ⊢
  have hexchange := exchange_run crates serdes s after
  have hafter := waits_run crates serdes after h
  generalize run crates serdes s after = r at hopen hexchange hafter ⊢
  refine List.mem_append.2 ?_
  rcases hafter with hmem | hwaits | hclosed
  · exact Or.inl hmem
  · refine Or.inr ?_
    rw [run_cons] at hopen ⊢
    have hexchange₁ := (exchange_step crates serdes t₁).trans hexchange
    have hfirst := tick_of_waits crates serdes hwaits h₁
    generalize step crates serdes r.1 t₁ = r₁ at hopen hexchange₁ hfirst ⊢
    refine List.mem_append.2 ?_
    rcases hfirst with hmem | hwaits₁ | hclosed
    · exact Or.inl hmem
    · refine Or.inr ?_
      rw [run_append] at hopen ⊢
      refine List.mem_append_right _ ?_
      have hinterval := @WaitsQuietly.run crates serdes symbol quiet r₁.1 hwaits₁ (by rwa [hexchange₁])
      rw [run, Mealy.run_singleton] at hopen ⊢
      refine (hinterval.tick h₂).resolve_right fun hclosed => ?_
      have hend : (step crates serdes (run crates serdes r₁.1 quiet).1 t₂).1.isOpen = true := hopen
      rw [hclosed] at hend
      cases hend
    · exact absurd (isOpen_of_run crates serdes hopen) (by simp [hclosed])
  · exact absurd (isOpen_of_run crates serdes hopen) (by simp [hclosed])

end Session

/-! ## Which refused frames are made good -/

/-- After any session history that ends in the refusal of this frame's raw record, the symbol is
    resubscribed at some tick, at the latest the first that closes a quiet interval, if the session
    lasts that long. -/
def Resynced (crates : Crates) (serdes : Serdes) (a : Adapter) (bytes : List UInt8)
    (symbol : String) : Prop :=
  ∀ (connId : String) (before : List Turn) (recvTsNs : Int) (sent : Nat → Bool) (ends : Bool)
    (after : List Turn) (t₁ : Turn) (quiet : List Turn) (t₂ : Turn),
    sent 0 = false → t₁.isTick = true → Turn.Quiet serdes a.exchange quiet → t₂.isTick = true →
    let refused := Session.run crates serdes (Session.start a connId)
      (before ++ [.frame bytes recvTsNs sent ends])
    let r := Session.run crates serdes refused.1 (after ++ t₁ :: (quiet ++ [t₂]))
    r.1.isOpen = true → .resynced symbol ∈ r.2

/-- Every registered product with a level in the frame is the only one the frame names. -/
def NamesOneProduct (serdes : Serdes) (a : Adapter) (bytes : List UInt8) : Prop :=
  ∀ symbol, (a.instruments.canonical symbol).isSome →
    (symbol, true) ∈ bookEntries serdes a.exchange bytes →
    ∀ e ∈ bookEntries serdes a.exchange bytes, e.1 = symbol

theorem resynced_of_sole {crates : Crates} {serdes : Serdes} {a : Adapter} {bytes : List UInt8}
    {symbol : String} (h : bookSymbol serdes a.exchange bytes = some symbol) :
    Resynced crates serdes a bytes symbol := by
  intro connId before recvTsNs sent ends after t₁ quiet t₂ hsent h₁ hquiet h₂ refused r hopen
  have hexchange : ∀ ts, (Session.run crates serdes (Session.start a connId) ts).1.adapter.exchange =
      a.exchange := fun ts =>
    (Session.exchange_run crates serdes _ ts).trans (Adapter.exchange_beginConnection a connId)
  have hrefused : refused.1.isOpen = true := Session.isOpen_of_run crates serdes hopen
  have hbefore : (Session.run crates serdes (Session.start a connId) before).1.isOpen = true := by
    refine Session.isOpen_of_run crates serdes
      (?_ : (Session.run crates serdes _ [.frame bytes recvTsNs sent ends]).1.isOpen = true)
    rw [← hrefused]
    simp only [refused, Session.run_append]
  have hwaits : refused.1.resync.Waits symbol := by
    simp only [refused, Session.run_append]
    refine Session.waits_of_refused hbefore hsent ?_
    rw [hexchange]
    exact h
  exact Session.resynced_of_waits hwaits after h₁ (by rwa [hexchange]) h₂ hopen

theorem Kraken.reconnect_notMem (crates : Crates) (serde : Kraken.Serde) (a : Kraken.Adapter)
    (bytes : List UInt8) (recvTsNs : Int) :
    Action.reconnect ∉ Output.actions (a.step crates serde bytes recvTsNs).2 := by
  have hstable : Kraken.Adapter.Stable crates
      fun h _ => ∀ o ∈ h, o ≠ Output.action Action.reconnect := {
    quiet := fun h outs _ _ _ _ hquiet hj o ho => by
      rcases List.mem_append.1 ho with ho | ho
      · exact hj o ho
      · exact (hquiet o ho).2.2 _
    apply := fun h a f frameType recvTsNs n hj o ho => by
      rcases List.mem_append.1 ho with ho | ho
      · exact hj o ho
      · rcases Kraken.Adapter.mem_applyBook crates ho with ⟨_, rfl, _⟩ | ⟨_, rfl, _⟩ | rfl <;> simp }
  have hstep := hstable.step (h := []) serde bytes recvTsNs (a := a)
    fun o ho => absurd ho List.not_mem_nil
  intro hmem
  obtain ⟨o, ho, hact⟩ := List.mem_filterMap.1 hmem
  refine hstep o ho ?_
  cases o with
  | action act =>
    cases hact
    rfl
  | record r => cases hact
  | note n => cases hact

theorem Coinbase.action_handleBody (crates : Crates) (e : Coinbase.Envelope) (recvTsNs : Int)
    (body : Coinbase.Body) (a : Coinbase.Adapter) :
    Output.actions (a.handleBody crates e recvTsNs body).2 = [] := by
  rw [Output.actions, List.filterMap_eq_nil_iff]
  cases body with
  | l2 events =>
    refine Mealy.run_output _ (I := fun _ => True) (fun _ _ _ => trivial) (fun b ev _ o ho => ?_)
      events a trivial
    rw [List.mem_singleton.1 ho]
    rfl
  | trades events =>
    intro o ho
    obtain ⟨t, _, rfl⟩ := List.mem_map.1 ho
    rfl
  | control => exact fun o ho => absurd ho List.not_mem_nil
  | other =>
    rw [Coinbase.Adapter.handleBody]
    split
    · intro o ho
      rw [List.mem_singleton.1 ho]
      rfl
    · exact fun o ho => absurd ho List.not_mem_nil

/-- The first frame of a connection breaks no sequence. -/
theorem Coinbase.reconnect_notMem (crates : Crates) (serde : Coinbase.Serde) (a : Coinbase.Adapter)
    (connId : String) (bytes : List UInt8) (recvTsNs : Int) :
    Action.reconnect ∉
      Output.actions ((a.beginConnection connId).step crates serde bytes recvTsNs).2 := by
  unfold Coinbase.Adapter.step
  simp only
  split
  · simp [Output.actions, Output.action?]
  · rename_i e _
    have hcheck : (({ a.beginConnection connId with
        connMsgSeq := (a.beginConnection connId).connMsgSeq + 1 } : Coinbase.Adapter).checkFrame
          e).2 = [] := by
      unfold Coinbase.Adapter.checkFrame
      split <;> rfl
    rw [hcheck]
    have hbody := Coinbase.action_handleBody crates e recvTsNs (Coinbase.Body.parse serde e)
    simp only [Output.actions, List.map_nil, List.cons_append, List.nil_append,
      List.filterMap_cons, Output.action?] at hbody ⊢
    rw [hbody]
    exact List.not_mem_nil

/-- No first book frame of a connection ends the session by itself. -/
theorem Adapter.reconnect_notMem (crates : Crates) {serdes : Serdes} {a : Adapter} (connId : String)
    {bytes : List UInt8} (recvTsNs : Int) (h : bookEntries serdes a.exchange bytes ≠ []) :
    Action.reconnect ∉
      ((a.beginConnection connId).handleFrame crates serdes bytes recvTsNs).2.actions := by
  cases a with
  | kraken a => exact Kraken.reconnect_notMem crates serdes.kraken _ bytes recvTsNs
  | binance a => exact absurd rfl h
  | coinbase a => exact Coinbase.reconnect_notMem crates serdes.coinbase a connId bytes recvTsNs

theorem resynced_notMem_offers (rs : List OutRecord) (sent : Nat → Bool) (symbol : String) :
    Effect.resynced symbol ∉ offers rs sent := by
  intro h
  obtain ⟨i, hi, heq⟩ := List.mem_mapIdx.1 h
  cases heq

/-- A tick with nothing waiting resubscribes nothing. -/
theorem Session.tick_of_default (crates : Crates) (serdes : Serdes) {s : Session}
    (hopen : s.isOpen = true) (hresync : s.resync = ResyncOnDrain.default) (nowNs : Int)
    (sent : Nat → Bool) :
    let r := s.step crates serdes (.tick nowNs sent false)
    r.1.isOpen = true ∧ r.1.resync = ResyncOnDrain.default ∧
      ∀ symbol, Effect.resynced symbol ∉ r.2 := by
  rw [Session.step, if_pos hopen]
  simp only [Session.tickStep, hresync, ResyncOnDrain.drained]
  refine ⟨rfl, rfl, fun symbol => ?_⟩
  rintro h
  rcases List.mem_append.1 h with h | h
  · exact resynced_notMem_offers _ _ _ h
  · exact absurd h List.not_mem_nil

/-- A refused first frame whose raw record names no symbol: two ticks later nothing has been
    resubscribed, and nothing waits. -/
theorem not_resynced_of_unnamed (crates : Crates) {serdes : Serdes} {a : Adapter}
    {bytes : List UInt8} (symbol : String) (hentries : bookEntries serdes a.exchange bytes ≠ [])
    (hnone : bookSymbol serdes a.exchange bytes = none) : ¬ Resynced crates serdes a bytes symbol := by
  intro h
  let start := Session.start a ""
  let refused := start.step crates serdes (.frame bytes 0 (fun _ => false) false)
  have hrefused : refused.1.isOpen = true ∧ refused.1.resync = ResyncOnDrain.default := by
    have hlost := lostSymbol_of_frame crates serdes (a.beginConnection "") bytes 0 fun _ => false
    rw [Adapter.exchange_beginConnection, hnone] at hlost
    have hstay : ¬ (Action.reconnect ∈
        ((a.beginConnection "").handleFrame crates serdes bytes 0).2.actions ∨ false = true) := by
      rintro (hmem | hends)
      · exact Adapter.reconnect_notMem crates "" 0 hentries hmem
      · cases hends
    simp only [refused, start, Session.start, Session.step, Session.frameStep, if_pos, if_neg hstay]
    exact ⟨trivial, Session.note_of_nothing_lost hlost _⟩
  obtain ⟨hopen₁, hresync₁, hout₁⟩ := Session.tick_of_default crates serdes
    hrefused.1 hrefused.2 1 fun _ => true
  obtain ⟨hopen₂, -, hout₂⟩ := Session.tick_of_default crates serdes
    hopen₁ hresync₁ 2 fun _ => true
  have hmem := h "" [] 0 (fun _ => false) false [] (.tick 1 (fun _ => true) false) []
    (.tick 2 (fun _ => true) false) rfl rfl (fun _ ht => absurd ht List.not_mem_nil) rfl hopen₂
  simp only [List.nil_append, Session.run, Mealy.run_cons, Mealy.run_nil, List.append_nil] at hmem
  rcases List.mem_append.1 hmem with hmem | hmem
  · exact hout₁ symbol hmem
  · exact hout₂ symbol hmem

/-- **A refused book frame is made good in every history exactly if it names one product.**  A frame
    whose `data` serde refuses has no entries, and names none. -/
theorem resynced_iff (crates : Crates) (serdes : Serdes) (a : Adapter) (bytes : List UInt8) :
    (∀ symbol, (a.instruments.canonical symbol).isSome →
      (symbol, true) ∈ bookEntries serdes a.exchange bytes → Resynced crates serdes a bytes symbol) ↔
      NamesOneProduct serdes a bytes := by
  constructor
  · intro h symbol hreg hmem
    by_contra hother
    have hne : bookEntries serdes a.exchange bytes ≠ [] := List.ne_nil_of_mem hmem
    refine not_resynced_of_unnamed crates symbol hne ?_ (h symbol hreg hmem)
    rw [(bookSymbol_of_entries hne).2]
    by_contra hsole
    obtain ⟨sole, hsole⟩ := Option.ne_none_iff_exists'.1 hsole
    refine hother fun e he => ?_
    have hall := eq_of_soleSymbol hsole
    exact (hall e.1 (List.mem_map_of_mem he)).trans (hall symbol (List.mem_map_of_mem hmem)).symm
  · intro h symbol hreg hmem
    refine resynced_of_sole ?_
    rw [(bookSymbol_of_entries (List.ne_nil_of_mem hmem)).2]
    refine soleSymbol_eq_some (List.mem_map_of_mem hmem) fun x hx => ?_
    obtain ⟨e, he, rfl⟩ := List.mem_map.1 hx
    exact h symbol hreg hmem e he

/-! ## A frame that batches two products -/

def twoProducts : Instruments :=
  ⟨[⟨"ATOM-USD", "ATOM/USD", none⟩, ⟨"SOL-USD", "SOL/USD", none⟩], by decide⟩

/-- One `l2_data` envelope with an update of each product. -/
def batched : Int × List Coinbase.L2Event :=
  (7, [Coinbase.atomEvent "update" "1.5577" "92.81",
    ⟨"update", "SOL-USD", [⟨"offer", Coinbase.EVENT_TIME, "144.02", "3.5"⟩]⟩])

def batchedSerdes : Serdes where
  kraken := Kraken.Serde.ofFrames [] []
  binance := ⟨fun _ => none, fun _ => none, fun _ => none⟩
  coinbase := Coinbase.Serde.ofFrames [batched]

/-- The refused frame has a level of each product, and neither is ever resubscribed. -/
theorem batched_products_forgotten :
    ¬ ∀ (crates : Crates) (serdes : Serdes) (a : Adapter) (bytes : List UInt8) (symbol : String),
      (a.instruments.canonical symbol).isSome →
        (symbol, true) ∈ bookEntries serdes a.exchange bytes →
        Resynced crates serdes a bytes symbol := by
  intro h
  have hentries : bookEntries batchedSerdes .coinbase (Coinbase.l2Frame batched).1 =
      [("ATOM-USD", true), ("SOL-USD", true)] := by decide +kernel
  have hnone : bookSymbol batchedSerdes .coinbase (Coinbase.l2Frame batched).1 = none := by
    decide +kernel
  refine not_resynced_of_unnamed Coinbase.timed (a := buildAdapter .coinbase twoProducts) "ATOM-USD"
    ?_ hnone (h Coinbase.timed batchedSerdes _ _ "ATOM-USD" (by decide +kernel) ?_)
  · show bookEntries batchedSerdes .coinbase _ ≠ []
    rw [hentries]
    exact List.cons_ne_nil _ _
  · show _ ∈ bookEntries batchedSerdes .coinbase _
    rw [hentries]
    exact List.mem_cons_self

end K2.Capture

import K2Platform.Agreement.Held
import K2Platform.Capture.Coinbase.Adapter
import K2Platform.Lib.Forall2
import Mathlib.Data.List.Chain

/-!
# Capture and lake on Coinbase books

The capture drops every book on a sequence gap and takes a product up again at its next snapshot;
the lake never looks at the sequence.  What the capture does hold, the lake holds too.

* `applyUpdates_eq` — one event's levels, on both sides.
* `Mirrors.applyL2`, `Mirrors.step` — an event, and a frame, keep the relation.
* `coinbase_books_agree` — the relation after any frames, and the equivalence while no sequence
  number breaks continuity.
-/

set_option autoImplicit false

namespace K2.Lake

open K2.Capture (BookSide Crates Instruments parseFixed)
open K2.Capture.Coinbase

/-! ## One event in the lake -/

/-- A level, and the entry of `updates` it is typed into. -/
structure SameLevel (l : L2Level) (u : LevelUpdate) : Prop where
  side : u.sideNative = l.side
  known : l.side = "bid" ∨ l.side = "offer"
  px : SameNumber l.priceLevel u.px
  qty : SameNumber l.newQuantity u.qty

/-- An event as the venue sent it: with its frame's stamps. -/
structure SentEvent where
  event : L2Event
  sequenceNum : Int
  recvTsNs : Int
  connMsgSeq : Int
  deriving DecidableEq

/-- The silver row an event is typed into, wherever in the archive its frame is. -/
structure TypedEvent (connId : String) (s : SentEvent) (r : TypedFrame) : Prop where
  symbol : r.symbol = s.event.productId
  connId_eq : r.connId = connId
  recvTsNs : r.recvTsNs = s.recvTsNs
  connMsgSeq : r.connMsgSeq = s.connMsgSeq
  payload : ∃ updates envelopeTs, r.payload = .coinbase s.event.typ updates s.sequenceNum envelopeTs ∧
    List.Forall₂ SameLevel s.event.updates updates

/-- The event is a snapshot or an update. -/
def KnownType (e : L2Event) : Prop := e.typ = "snapshot" ∨ e.typ = "update"

instance : DecidablePred KnownType := fun e =>
  inferInstanceAs (Decidable (e.typ = "snapshot" ∨ e.typ = "update"))

theorem applyLevel_book (crates : Crates) (state : BookState) {l : L2Level} {u : LevelUpdate}
    (h : SameLevel l u) :
    Book.ofCapture (applyLevel crates state l).book =
      (Book.ofCapture state.book).apply u.side (e8 u.px) (e8 u.qty) := by
  obtain ⟨hpx, _⟩ := h.px.value
  obtain ⟨hqty, hnonneg⟩ := h.qty.value
  have hside : ∃ side, l.bookSide = some side ∧ u.side = side := by
    rw [LevelUpdate.side, h.side, L2Level.bookSide]
    rcases h.known with hbid | hoffer
    · exact ⟨.bid, if_pos hbid, if_pos hbid⟩
    · have hne : l.side ≠ "bid" := by
        rw [hoffer]
        decide
      exact ⟨.ask, by rw [if_neg hne, if_pos hoffer], if_neg hne⟩
  obtain ⟨side, hl, hu⟩ := hside
  simp only [applyLevel, hl, hpx, hqty, hu]
  exact ofCapture_apply _ _ _ hnonneg

theorem applyUpdates_eq (crates : Crates) {levels : List L2Level} {updates : List LevelUpdate}
    (h : List.Forall₂ SameLevel levels updates) (state : BookState) :
    Book.ofCapture (levels.foldl (applyLevel crates) state).book =
      applyUpdates updates (Book.ofCapture state.book) := by
  induction h generalizing state with
  | nil => rfl
  | cons hlevel _ ih =>
    rw [List.foldl_cons, ih, applyLevel_book crates state hlevel]
    rfl

/-! ## One event on both sides -/

/-- A book that the capture holds, the lake holds too. -/
structure Mirrors (stored : Option BookState) (held : Option Book) : Prop where
  same : ∀ state, stored = some state → held = some (Book.ofCapture state.book)

/-- The lake holds no other. -/
structure Agrees (stored : Option BookState) (held : Option Book) : Prop
    extends Mirrors stored held where
  held : held.isSome = true → stored.isSome = true

theorem Mirrors.none (held : Option Book) : Mirrors .none held := ⟨fun _ h => nomatch h⟩

theorem Agrees.of_some {state : BookState} {b : Book} (h : b = Book.ofCapture state.book) :
    Agrees (some state) (some b) where
  same _ heq := by
    cases heq
    rw [h]
  held _ := rfl

section Event

variable {crates : Crates} {a : Adapter} {e : L2Event} {updates : List LevelUpdate}
  {sequenceNum envelopeTs recvTsNs n : Int} {seq : Option Int} {held : Option Book}

theorem not_isNone {α : Type} {o : Option α} (h : o.isSome) : ¬ o.isNone = true := by
  rw [Option.isNone_iff_eq_none]
  exact Option.isSome_iff_ne_none.1 h

/-- A snapshot starts the product's book on both sides, whatever they held. -/
theorem agrees_snapshot (hreg : (a.instruments.canonical e.productId).isSome)
    (htype : e.typ = "snapshot") (hlevels : List.Forall₂ SameLevel e.updates updates) :
    Agrees ((a.applyL2 crates e recvTsNs n seq).books.get? e.productId)
      (heldStep held (.coinbase e.typ updates sequenceNum envelopeTs)) := by
  have hheld : heldStep held (.coinbase e.typ updates sequenceNum envelopeTs) =
      some (applyUpdates updates Book.empty) := by
    cases held with
    | none => simp [heldStep, Payload.isSnapshot, Payload.foldInto, htype]
    | some b => simp [heldStep, Payload.foldInto, htype]
  rw [hheld, Adapter.applyL2, if_neg (not_isNone hreg)]
  simp only [BookState.base, if_pos htype, SortedMap.get?_insert_self]
  refine Agrees.of_some (Eq.symm ?_)
  exact applyUpdates_eq crates hlevels _

/-- An update changes a book that is there. -/
theorem get?_update (hreg : (a.instruments.canonical e.productId).isSome) (htype : e.typ = "update") :
    (a.applyL2 crates e recvTsNs n seq).books.get? e.productId =
      (a.books.get? e.productId).map fun base =>
        { e.updates.foldl (applyLevel crates) base with
          lastRecvTsNs := recvTsNs
          lastConnMsgSeq := n
          lastSeq := seq.getD 0 } := by
  have hne : e.typ ≠ "snapshot" := by
    rw [htype]
    decide
  rw [Adapter.applyL2, if_neg (not_isNone hreg)]
  simp only [BookState.base, if_neg hne, if_pos htype]
  cases hget : a.books.get? e.productId with
  | none => exact hget
  | some base => exact SortedMap.get?_insert_self _ _ _

theorem heldStep_update (htype : e.typ = "update") :
    heldStep held (.coinbase e.typ updates sequenceNum envelopeTs) =
      held.map (applyUpdates updates) := by
  have hne : e.typ ≠ "snapshot" := by
    rw [htype]
    decide
  cases held with
  | none => simp [heldStep, Payload.isSnapshot, hne]
  | some b => simp [heldStep, Payload.foldInto, hne]

theorem Mirrors.update (h : Mirrors (a.books.get? e.productId) held)
    (hreg : (a.instruments.canonical e.productId).isSome) (htype : e.typ = "update")
    (hlevels : List.Forall₂ SameLevel e.updates updates) :
    Mirrors ((a.applyL2 crates e recvTsNs n seq).books.get? e.productId)
      (heldStep held (.coinbase e.typ updates sequenceNum envelopeTs)) := by
  rw [get?_update hreg htype, heldStep_update htype]
  refine ⟨fun state hstate => ?_⟩
  obtain ⟨base, hbase, rfl⟩ := Option.map_eq_some_iff.1 hstate
  rw [h.same base hbase]
  exact congrArg some (applyUpdates_eq crates hlevels base).symm

theorem Agrees.update (h : Agrees (a.books.get? e.productId) held)
    (hreg : (a.instruments.canonical e.productId).isSome) (htype : e.typ = "update")
    (hlevels : List.Forall₂ SameLevel e.updates updates) :
    Agrees ((a.applyL2 crates e recvTsNs n seq).books.get? e.productId)
      (heldStep held (.coinbase e.typ updates sequenceNum envelopeTs)) where
  toMirrors := h.toMirrors.update hreg htype hlevels
  held hheld := by
    rw [get?_update hreg htype, Option.isSome_map]
    rw [heldStep_update htype, Option.isSome_map] at hheld
    exact h.held hheld

theorem get?_applyL2_of_ne {product : String} (hne : e.productId ≠ product) :
    (a.applyL2 crates e recvTsNs n seq).books.get? product = a.books.get? product := by
  unfold Adapter.applyL2
  split
  · rfl
  · split
    · rfl
    · exact SortedMap.get?_insert_of_ne _ _ (Ne.symm hne)

theorem instruments_applyL2 :
    (a.applyL2 crates e recvTsNs n seq).instruments = a.instruments := by
  unfold Adapter.applyL2
  split
  · rfl
  · split <;> rfl

end Event

/-! ## One frame on both sides -/

/-- An `l2_data` frame of registered products, as the claims of the venue have it: a sequence
    number that leaves room for the next, and events that are snapshots or updates. -/
structure L2Frame (serde : Serde) (instruments : Instruments) (f : Capture.Coinbase.Frame) (e : Envelope)
    (events : List L2Event) (sequenceNum : Int) : Prop where
  envelope : serde.envelope f.1 = some e
  body : Body.parse serde e = .l2 events
  sequenceNum_eq : e.sequenceNum = some sequenceNum
  inRange : I64.InRange sequenceNum
  lt_max : sequenceNum < I64.MAX
  registered : ∀ ev ∈ events, (instruments.canonical ev.productId).isSome
  known : ∀ ev ∈ events, KnownType ev

/-- The events of a product in a frame, as they were sent. -/
def sentEvents (serde : Serde) (product : String) (n : Int) (f : Capture.Coinbase.Frame) :
    List SentEvent :=
  match serde.envelope f.1 with
  | none => []
  | some e =>
    match Body.parse serde e, e.sequenceNum with
    | .l2 events, some sequenceNum =>
      (events.filter (·.productId = product)).map fun ev => ⟨ev, sequenceNum, f.2, n⟩
    | _, _ => []

theorem sentEvents_of_l2 {serde : Serde} {instruments : Instruments} {f : Capture.Coinbase.Frame}
    {e : Envelope} {events : List L2Event} {sequenceNum : Int}
    (h : L2Frame serde instruments f e events sequenceNum) (product : String) (n : Int) :
    sentEvents serde product n f =
      (events.filter (·.productId = product)).map fun ev => ⟨ev, sequenceNum, f.2, n⟩ := by
  simp only [sentEvents, h.envelope, h.body, h.sequenceNum_eq]

section Frame

variable {crates : Crates} {serde : Serde} {product connId : String}

/-- The relation `R` is kept by the events of one frame: other products leave the product alone. -/
theorem events_step {R : Option BookState → Option Book → Prop} {instruments : Instruments}
    {carried : List String} {recvTsNs n sequenceNum : Int} {seq : Option Int}
    (hevent : ∀ (a : Adapter) (e : L2Event) (updates : List LevelUpdate) (envelopeTs : Int)
      (held : Option Book), (a.instruments.canonical e.productId).isSome → KnownType e →
      List.Forall₂ SameLevel e.updates updates → R (a.books.get? e.productId) held →
      R ((a.applyL2 crates e recvTsNs n seq).books.get? e.productId)
        (heldStep held (.coinbase e.typ updates sequenceNum envelopeTs))) :
    ∀ (events : List L2Event) (rows : List TypedFrame) {a : Adapter} {held : Option Book},
      a.instruments = instruments →
      (∀ ev ∈ events, (instruments.canonical ev.productId).isSome) → (∀ ev ∈ events, KnownType ev) →
      List.Forall₂ (TypedEvent connId)
        ((events.filter (·.productId = product)).map fun ev => ⟨ev, sequenceNum, recvTsNs, n⟩) rows →
      R (a.books.get? product) held →
      R ((Mealy.run (Adapter.handleEvent crates carried recvTsNs n seq) a events).1.books.get? product)
        ((rows.map fun r => r.payload).foldl heldStep held)
  | [], rows, a, held, _, _, _, hrows, hR => by
    cases hrows
    exact hR
  | e :: events, rows, a, held, hinst, hreg, hknown, hrows, hR => by
    have hinst' : (a.applyL2 crates e recvTsNs n seq).instruments = instruments :=
      instruments_applyL2.trans hinst
    have hrest := fun ev hev => hreg ev (List.mem_cons_of_mem e hev)
    have hrestKnown := fun ev hev => hknown ev (List.mem_cons_of_mem e hev)
    rw [Mealy.run_cons]
    by_cases heq : e.productId = product
    · rw [List.filter_cons_of_pos (by simpa using heq), List.map_cons] at hrows
      cases hrows with
      | cons hrow hrows =>
        obtain ⟨updates, envelopeTs, hpayload, hlevels⟩ := hrow.payload
        rw [List.map_cons, List.foldl_cons, hpayload]
        refine events_step hevent events _ hinst' hrest hrestKnown hrows ?_
        subst heq
        exact hevent a e updates envelopeTs held (hinst ▸ hreg e List.mem_cons_self)
          (hknown e List.mem_cons_self) hlevels hR
    · rw [List.filter_cons_of_neg (by simpa using heq)] at hrows
      refine events_step hevent events rows hinst' hrest hrestKnown hrows ?_
      show R ((a.applyL2 crates e recvTsNs n seq).books.get? product) held
      rw [get?_applyL2_of_ne heq]
      exact hR

/-- The stored books after the continuity check of a sequenced frame, and what it expects next. -/
theorem checkFrame_cases {a : Adapter} {e : Envelope} {sequenceNum : Int}
    (hseq : e.sequenceNum = some sequenceNum) (hrange : I64.InRange sequenceNum)
    (hmax : sequenceNum < I64.MAX) :
    (a.checkFrame e).1.instruments = a.instruments ∧
      (a.checkFrame e).1.connMsgSeq = a.connMsgSeq ∧
      (a.checkFrame e).1.expectedSeq = some (sequenceNum + 1) ∧
      ((∀ x ∈ a.expectedSeq, x = sequenceNum) ∧ (a.checkFrame e).1.books = a.books ∨
        (∃ x ∈ a.expectedSeq, x ≠ sequenceNum) ∧ (a.checkFrame e).1.books = SortedMap.empty) := by
  have hwrap : I64.wrap (sequenceNum + 1) = sequenceNum + 1 := by
    refine I64.wrap_of_inRange ?_
    unfold I64.InRange I64.MIN I64.MAX at hrange ⊢
    unfold I64.MAX at hmax
    omega
  unfold Adapter.checkFrame Adapter.checkSequence
  rw [hseq]
  simp only [hwrap]
  split
  · rename_i hbroken
    obtain ⟨x, hx, hne⟩ := (Option.any_eq_true _ _).1 hbroken
    exact ⟨rfl, rfl, rfl, Or.inr ⟨⟨x, hx, of_decide_eq_true hne⟩, rfl⟩⟩
  · rename_i hwhole
    refine ⟨rfl, rfl, rfl, Or.inl ⟨fun x hx => ?_, rfl⟩⟩
    by_contra hne
    exact hwhole ((Option.any_eq_true _ _).2 ⟨x, hx, decide_eq_true hne⟩)

variable (crates) in
theorem step_l2 {instruments : Instruments} (a : Adapter) {f : Capture.Coinbase.Frame}
    {e : Envelope} {events : List L2Event} {sequenceNum : Int}
    (h : L2Frame serde instruments f e events sequenceNum) :
    let c := ({ a with connMsgSeq := a.connMsgSeq + 1 } : Adapter).checkFrame e
    (a.step crates serde f.1 f.2).1 =
      (Mealy.run (Adapter.handleEvent crates (events.map L2Event.productId) f.2 c.1.connMsgSeq
        (some sequenceNum)) c.1 events).1 := by
  simp only [Adapter.step, h.envelope, h.body, Adapter.handleBody, h.sequenceNum_eq]

variable (crates) in
theorem instruments_events (carried : List String) (recvTsNs n : Int) (seq : Option Int)
    (events : List L2Event) (a : Adapter) :
    (Mealy.run (Adapter.handleEvent crates carried recvTsNs n seq) a events).1.instruments =
      a.instruments ∧
    (Mealy.run (Adapter.handleEvent crates carried recvTsNs n seq) a events).1.connMsgSeq =
      a.connMsgSeq ∧
    (Mealy.run (Adapter.handleEvent crates carried recvTsNs n seq) a events).1.expectedSeq =
      a.expectedSeq := by
  refine Mealy.run_state _ (I := fun b : Adapter => b.instruments = a.instruments ∧
    b.connMsgSeq = a.connMsgSeq ∧ b.expectedSeq = a.expectedSeq) (fun b ev hb => ?_) events a
    ⟨rfl, rfl, rfl⟩
  have happly : (b.applyL2 crates ev recvTsNs n seq).instruments = b.instruments ∧
      (b.applyL2 crates ev recvTsNs n seq).connMsgSeq = b.connMsgSeq ∧
      (b.applyL2 crates ev recvTsNs n seq).expectedSeq = b.expectedSeq := by
    unfold Adapter.applyL2
    split
    · exact ⟨rfl, rfl, rfl⟩
    · split <;> exact ⟨rfl, rfl, rfl⟩
  exact ⟨happly.1.trans hb.1, happly.2.1.trans hb.2.1, happly.2.2.trans hb.2.2⟩

/-- The events of a product on a connection, in the order they were sent, `n` frames before them. -/
def receivedEvents (serde : Serde) (product : String) (n : Int) :
    List Capture.Coinbase.Frame → List SentEvent
  | [] => []
  | f :: fs => sentEvents serde product (n + 1) f ++ receivedEvents serde product (n + 1) fs

def sequenceNums (serde : Serde) (frames : List Capture.Coinbase.Frame) : List Int :=
  frames.filterMap fun f => (serde.envelope f.1).bind Envelope.sequenceNum

variable (crates) in
/-- **A connection, frame by frame.**  `C` is what the sequence numbers still to come are promised
    to satisfy, and under it the continuity check keeps `R`. -/
theorem frames_step {R : Option BookState → Option Book → Prop} {C : Option Int → List Int → Prop}
    {instruments : Instruments}
    (hevent : ∀ (a : Adapter) (e : L2Event) (updates : List LevelUpdate) (recvTsNs n sequenceNum
      envelopeTs : Int) (seq : Option Int) (held : Option Book),
      (a.instruments.canonical e.productId).isSome → KnownType e →
      List.Forall₂ SameLevel e.updates updates → R (a.books.get? e.productId) held →
      R ((a.applyL2 crates e recvTsNs n seq).books.get? e.productId)
        (heldStep held (.coinbase e.typ updates sequenceNum envelopeTs)))
    (hcheck : ∀ (expected : Option Int) (s : Int) (ss : List Int), C expected (s :: ss) →
      C (some (s + 1)) ss ∧ ((∀ x ∈ expected, x = s) ∨ ∀ held, R none held)) :
    ∀ (frames : List Capture.Coinbase.Frame) (rows : List TypedFrame) {a : Adapter}
      {held : Option Book}, a.instruments = instruments →
      (∀ f ∈ frames, ∃ e events s, L2Frame serde instruments f e events s) →
      C a.expectedSeq (sequenceNums serde frames) →
      List.Forall₂ (TypedEvent connId) (receivedEvents serde product a.connMsgSeq frames) rows →
      R (a.books.get? product) held →
      R ((Mealy.run (fun a (f : Capture.Coinbase.Frame) => a.step crates serde f.1 f.2) a
          frames).1.books.get? product)
        ((rows.map fun r => r.payload).foldl heldStep held)
  | [], rows, a, held, _, _, _, hrows, hR => by
    cases hrows
    exact hR
  | f :: frames, rows, a, held, hinst, hframes, hC, hrows, hR => by
    obtain ⟨e, events, s, hl2⟩ := hframes f List.mem_cons_self
    rw [sequenceNums, List.filterMap_cons, hl2.envelope, Option.bind_some, hl2.sequenceNum_eq] at hC
    obtain ⟨hrest, hkeep⟩ := hcheck _ _ _ hC
    obtain ⟨us, vs, rfl, hus, hvs⟩ := hrows.split_left
    rw [sentEvents_of_l2 hl2] at hus
    obtain ⟨hcinst, hcseq, hcexp, hcbooks⟩ :=
      checkFrame_cases (a := { a with connMsgSeq := a.connMsgSeq + 1 }) hl2.sequenceNum_eq
        hl2.inRange hl2.lt_max
    have hstep := step_l2 crates a hl2
    have hevents := instruments_events crates (events.map L2Event.productId) f.2
      (({ a with connMsgSeq := a.connMsgSeq + 1 } : Adapter).checkFrame e).1.connMsgSeq (some s) events
        (({ a with connMsgSeq := a.connMsgSeq + 1 } : Adapter).checkFrame e).1
    simp only at hstep
    rw [← hstep] at hevents
    rw [Mealy.run_cons, List.map_append, List.foldl_append]
    refine frames_step hevent hcheck frames vs (hevents.1.trans (hcinst.trans hinst))
      (fun g hg => hframes g (List.mem_cons_of_mem f hg)) ?_ ?_ ?_
    · rw [hevents.2.2, hcexp]
      exact hrest
    · rw [hevents.2.1, hcseq]
      exact hvs
    · rw [hstep, hcseq]
      refine events_step (fun a e updates envelopeTs held => hevent a e updates f.2 _ s envelopeTs
        (some s) held) events us (hcinst.trans hinst) hl2.registered hl2.known hus ?_
      rcases hcbooks with ⟨_, hbooks⟩ | ⟨⟨x, hx, hne⟩, hbooks⟩
      · rw [hbooks]
        exact hR
      · rw [hbooks]
        rcases hkeep with hwhole | hnone
        · exact absurd (hwhole x hx) hne
        · exact hnone held

end Frame

/-- No frame breaks continuity: each carries the number after the one before it. -/
def Unbroken (seqs : List Int) : Prop := seqs.IsChain fun s t => t = s + 1

instance (seqs : List Int) : Decidable (Unbroken seqs) := inferInstanceAs (Decidable (seqs.IsChain _))

/-- **Capture and lake agree on Coinbase books.**  After any `l2_data` frames of a connection, `rows`
    being what the product's events are typed into: a book the capture holds is the book the lake
    holds, and while no sequence number breaks continuity they hold books of the same products. -/
theorem coinbase_books_agree (crates : Crates) {serde : Serde} {instruments : Instruments}
    (connId product : String) {frames : List Capture.Coinbase.Frame}
    (hframes : ∀ f ∈ frames, ∃ e events s, L2Frame serde instruments f e events s)
    {rows : List TypedFrame}
    (hrows : List.Forall₂ (TypedEvent connId) (receivedEvents serde product 0 frames) rows)
    (run : ReplayRun) :
    let a := (connection crates serde instruments connId frames).1
    (∀ state, a.books.get? product = some state →
      heldAfter run rows = some (Book.ofCapture state.book)) ∧
    (Unbroken (sequenceNums serde frames) →
      ((a.books.get? product).isSome ↔ (heldAfter run rows).isSome)) := by
  have hinst : ((Adapter.new instruments).beginConnection connId).instruments = instruments := rfl
  have hmirrors : Mirrors _ _ := frames_step crates
    (R := Mirrors) (C := fun _ _ => True)
    (fun a e updates recvTsNs n s envelopeTs seq held hreg hknown hlevels hR => by
      rcases hknown with htype | htype
      · exact (agrees_snapshot hreg htype hlevels).toMirrors
      · exact hR.update hreg htype hlevels)
    (fun _ _ _ _ => ⟨trivial, Or.inr Mirrors.none⟩) frames rows hinst hframes trivial hrows
    (Mirrors.none none)
  simp only
  rw [heldAfter_eq]
  refine ⟨hmirrors.same, fun hunbroken => ?_⟩
  have hagrees : Agrees _ _ := frames_step crates (R := Agrees)
    (C := fun expected seqs => (∀ x ∈ expected, ∀ s ∈ seqs.head?, x = s) ∧ Unbroken seqs)
    (fun a e updates recvTsNs n s envelopeTs seq held hreg hknown hlevels hR => by
      rcases hknown with htype | htype
      · exact agrees_snapshot hreg htype hlevels
      · exact hR.update hreg htype hlevels)
    (fun expected s ss hC => by
      obtain ⟨hfirst, hchain⟩ := hC
      obtain ⟨hnext, hrest⟩ := List.isChain_cons.1 hchain
      refine ⟨⟨fun x hx t ht => ?_, hrest⟩, Or.inl fun x hx => hfirst x hx s rfl⟩
      rw [← Option.some.inj hx]
      exact (hnext t ht).symm)
    frames rows hinst hframes ⟨(fun _ hx => nomatch hx), hunbroken⟩ hrows
    ⟨Mirrors.none none, fun h => nomatch h⟩
  constructor
  · intro hstored
    obtain ⟨state, hstate⟩ := Option.isSome_iff_exists.1 hstored
    exact Option.isSome_iff_exists.2 ⟨_, hmirrors.same state hstate⟩
  · exact hagrees.held

/-! ## A short connection -/

def heldFrames : List (Int × List L2Event) :=
  [(5, [atomEvent "snapshot" "1.5577" "92.81"]), (6, [atomEvent "update" "1.5577" "0"])]

def heldRow (typ : String) (qty sequenceNum n : Int) : TypedFrame where
  symbol := "ATOM-USD"
  payload := .coinbase typ [⟨"bid", 15577000000, qty, none⟩] sequenceNum 0
  recvTsNs := 1
  connId := "c1"
  connMsgSeq := n
  srcTopic := "market.crypto.v3.raw.coinbase"
  srcPartition := 0
  srcOffset := n
  srcIndex := 0
  canonicalSymbol := "ATOM/USD"

def heldRows : List TypedFrame := [heldRow "snapshot" 928100000000 5 1, heldRow "update" 0 6 2]

def coinbaseRun : ReplayRun where
  exchange := .coinbase
  precisions _ := none
  floatDigits _ _ := ""
  runTs := 0

theorem l2Frame_held {f : Int × List L2Event}
    (h : f = (5, [atomEvent "snapshot" "1.5577" "92.81"]) ∨
      f = (6, [atomEvent "update" "1.5577" "0"])) :
    ∃ e events s, L2Frame (Serde.ofFrames heldFrames) atomUsd (l2Frame f) e events s := by
  refine ⟨⟨some "l2_data", some f.1, some (eventsJson f.2)⟩, f.2, f.1, ?_⟩
  rcases h with rfl | rfl
  all_goals
    exact ⟨by decide +kernel, by decide +kernel, rfl, by decide, by decide, by decide +kernel,
      by decide⟩

theorem sameNumber_price : SameNumber "1.5577" 15577000000 :=
  ⟨⟨155770000, by decide +kernel⟩, by decide +kernel⟩

theorem sameLevel_atom {text : String} {qty : Int} (h : SameNumber text qty) :
    SameLevel ⟨"bid", EVENT_TIME, "1.5577", text⟩ ⟨"bid", 15577000000, qty, none⟩ :=
  ⟨rfl, Or.inl rfl, sameNumber_price, h⟩

theorem coinbase_books_agree_held :
    (∀ state, (connection timed (Serde.ofFrames heldFrames) atomUsd "c1"
        (heldFrames.map l2Frame)).1.books.get? "ATOM-USD" = some state →
      heldAfter coinbaseRun heldRows = some (Book.ofCapture state.book)) ∧
    (Unbroken (sequenceNums (Serde.ofFrames heldFrames) (heldFrames.map l2Frame)) →
      (((connection timed (Serde.ofFrames heldFrames) atomUsd "c1"
        (heldFrames.map l2Frame)).1.books.get? "ATOM-USD").isSome ↔
          (heldAfter coinbaseRun heldRows).isSome)) := by
  have hreceived : receivedEvents (Serde.ofFrames heldFrames) "ATOM-USD" 0
      (heldFrames.map l2Frame) =
      [⟨atomEvent "snapshot" "1.5577" "92.81", 5, 1, 1⟩,
       ⟨atomEvent "update" "1.5577" "0", 6, 1, 2⟩] := by decide +kernel
  refine coinbase_books_agree timed "c1" "ATOM-USD" (fun f hf => ?_) ?_ coinbaseRun
  · obtain ⟨g, hg, rfl⟩ := List.mem_map.1 hf
    refine l2Frame_held ?_
    simpa [heldFrames] using hg
  · rw [hreceived]
    refine .cons ⟨rfl, rfl, rfl, rfl, _, _, rfl, .cons (sameLevel_atom ?_) .nil⟩
      (.cons ⟨rfl, rfl, rfl, rfl, _, _, rfl, .cons (sameLevel_atom ?_) .nil⟩ .nil)
    · exact ⟨⟨9281000000, by decide +kernel⟩, by decide +kernel⟩
    · exact ⟨⟨0, by decide +kernel⟩, by decide +kernel⟩

end K2.Lake

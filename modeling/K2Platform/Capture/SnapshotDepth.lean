import K2Platform.Capture.Kraken.Apply
import K2Platform.Capture.SampleGrid
import K2Platform.Lib.Display

/-!
# What the snapshot depth changes

Each adapter has the number of levels that its snapshots show.  Nothing else reads it: a replay with
fewer levels emits the same records, with the arrays of each book cut.

* `Book.topN_cut` — fewer levels are the first of more.
* `shows_step` — for each venue, a frame leaves the same state, and its outputs are cut.
* `depth_only_cuts` — whole replays.
-/

set_option autoImplicit false

namespace K2.Capture

open Mealy (Shows)

/-! ## Cutting a record -/

/-- The first `n` entries of the four arrays, and the depth that is then the longer side's. -/
def BookSnapshotRecord.cut (n : Nat) (b : BookSnapshotRecord) : BookSnapshotRecord :=
  { b with
    depth := max (b.bidPx.take n).length (b.askPx.take n).length
    bidPx := b.bidPx.take n
    bidQty := b.bidQty.take n
    askPx := b.askPx.take n
    askQty := b.askQty.take n }

def OutRecord.cut (n : Nat) : OutRecord → OutRecord
  | .book b => .book (b.cut n)
  | r => r

def Output.cut {ν : Type} (n : Nat) : Output ν → Output ν
  | .record r => .record (r.cut n)
  | o => o

def Emitted.cut (n : Nat) : Emitted → Emitted
  | .handled r => .handled (r.cut n)
  | .sampled b => .sampled (b.cut n)

theorem records_cut {ν : Type} (n : Nat) (outs : List (Output ν)) :
    Output.records (outs.map (Output.cut n)) = (Output.records outs).map (OutRecord.cut n) := by
  unfold Output.records
  rw [List.filterMap_map, List.map_filterMap]
  refine List.filterMap_congr fun o _ => ?_
  cases o <;> rfl

theorem actions_cut {ν : Type} (n : Nat) (outs : List (Output ν)) :
    Output.actions (outs.map (Output.cut n)) = Output.actions outs := by
  unfold Output.actions
  rw [List.filterMap_map]
  refine List.filterMap_congr fun o _ => ?_
  cases o <;> rfl

theorem map_cut_trades {ν : Type} (n : Nat) (ts : List TradeRecord) :
    (ts.map fun t => (.record (.trade t) : Output ν)).map (Output.cut n) =
      ts.map fun t => .record (.trade t) := by
  rw [List.map_map]
  rfl

theorem Book.topPairs_cut (b : Book) (side : BookSide) {m n : Nat} (h : m ≤ n) :
    (b.topPairs side n).take m = b.topPairs side m := by
  cases side <;> rw [topPairs, topPairs, List.take_take, Nat.min_eq_left h]

/-- Fewer levels are the first of more. -/
theorem Book.topN_cut (b : Book) {m n : Nat} (h : m ≤ n) :
    b.topN m = ⟨(b.topN n).bidPx.take m, (b.topN n).bidQty.take m, (b.topN n).askPx.take m,
      (b.topN n).askQty.take m⟩ := by
  simp only [topN, ← List.map_take, topPairs_cut b _ h]

/-! ## Kraken -/

namespace Kraken.Adapter

def withLevels (n : Nat) (a : Adapter) : Adapter := { a with snapshotLevels := n }

theorem snapshot_cut (a : Adapter) {m n : Nat} (h : m ≤ n) (native : String) (nowNs : Int) :
    (a.withLevels m).snapshot native nowNs =
      ((a.withLevels n).snapshot native nowNs).map (BookSnapshotRecord.cut m) := by
  unfold snapshot withLevels
  simp only
  cases a.books.get? native with
  | none => rfl
  | some state =>
    simp only
    split
    · rfl
    · cases a.instruments.canonical native with
      | none => rfl
      | some canonical =>
        simp only [state.book.topN_cut h, Option.map_some]
        rfl

variable (crates : Crates) (serde : Serde)

theorem marked_cut (a : Adapter) {m n : Nat} (h : m ≤ n) (symbol : String) (recvTsNs : Int) :
    (a.withLevels m).marked symbol recvTsNs =
      ((a.withLevels n).marked symbol recvTsNs).map (Output.cut m) := by
  unfold marked
  rw [a.snapshot_cut h]
  cases (a.withLevels n).snapshot symbol recvTsNs <;> rfl

/-- A call of `apply_book`, whatever the levels shown. -/
theorem applyBook_withLevels (a : Adapter) (f : BookData) (frameType : String) (recvTsNs n : Int) :
    (∀ k, (a.withLevels k).applyBook crates f frameType recvTsNs n = (a.withLevels k, [])) ∨
      ∃ state call, (∀ k, (a.withLevels k).applyBook crates f frameType recvTsNs n =
          ((a.setBook f.symbol state).withLevels k, [.note (.call call)])) ∨
        ∀ k, (a.withLevels k).applyBook crates f frameType recvTsNs n =
          ((a.setBook f.symbol { state with book := Book.empty }).withLevels k,
            .note (.call call) :: ((a.setBook f.symbol state).withLevels k).marked f.symbol recvTsNs ++
              [.action (.resubscribe f.symbol)]) := by
  have hcanonical : ∀ k, (a.withLevels k).instruments.canonical f.symbol =
      a.instruments.canonical f.symbol := fun _ => rfl
  have hprecision : ∀ k, (a.withLevels k).precision.get? f.symbol = a.precision.get? f.symbol :=
    fun _ => rfl
  unfold applyBook
  simp only [hcanonical, hprecision]
  cases a.instruments.canonical f.symbol with
  | none => exact Or.inl fun _ => rfl
  | some canonical =>
    cases a.precision.get? f.symbol with
    | none => exact Or.inl fun _ => rfl
    | some precision =>
      have hfold : ∀ k, foldEntry crates ((a.withLevels k).stored f.symbol) f frameType
          ((a.withLevels k).subscriptionDepth f.symbol) precision recvTsNs n =
          foldEntry crates (a.stored f.symbol) f frameType (a.subscriptionDepth f.symbol) precision
            recvTsNs n := fun _ => rfl
      simp only [hfold, clearBook_setBook]
      generalize foldEntry crates (a.stored f.symbol) f frameType (a.subscriptionDepth f.symbol)
        precision recvTsNs n = r
      obtain ⟨state, outcome⟩ := r
      refine Or.inr ⟨state, ⟨f, frameType, recvTsNs, n, precision, a.stored f.symbol, outcome⟩, ?_⟩
      cases outcome with
      | ignored => exact Or.inl fun _ => rfl
      | verified => exact Or.inl fun _ => rfl
      | mismatch => exact Or.inr fun _ => rfl

theorem shows_applyBook (f : BookData) (frameType : String) (recvTsNs n : Int) :
    Shows withLevels Output.cut fun a => a.applyBook crates f frameType recvTsNs n := by
  have hself : ∀ a : Adapter, a.withLevels a.snapshotLevels = a := fun _ => rfl
  constructor
  · intro k a
    rcases applyBook_withLevels crates a f frameType recvTsNs n with h | ⟨state, call, h | h⟩ <;>
    · have ha := h a.snapshotLevels
      rw [hself] at ha
      exact (congrArg Prod.fst (h k)).trans (congrArg (fun r => r.1.withLevels k) ha.symm)
  · intro a k l hkl
    rcases applyBook_withLevels crates a f frameType recvTsNs n with h | ⟨state, call, h | h⟩
    · simp only [h, List.map_nil]
    · simp only [h]
      rfl
    · simp only [h]
      rw [List.cons_append, List.cons_append, List.map_cons, List.map_append,
        ← marked_cut _ hkl]
      rfl

theorem shows_handleEntry (frameType : String) (recvTsNs n : Int) (bytes : List UInt8)
    (f : BookData) :
    Shows withLevels Output.cut fun a => a.handleEntry crates frameType recvTsNs n bytes f := by
  have happly := shows_applyBook crates f frameType recvTsNs n
  have hcontains : ∀ k (a : Adapter), (a.withLevels k).precision.contains f.symbol =
      a.precision.contains f.symbol := fun _ _ => rfl
  unfold handleEntry
  constructor
  · intro k a
    simp only [hcontains]
    split
    · exact happly.state k a
    · rfl
  · intro a k l hkl
    simp only [hcontains]
    split
    · rw [happly.output a k l hkl]
      rfl
    · rfl

theorem shows_drainSymbol (symbol : String) :
    Shows withLevels Output.cut fun a => a.drainSymbol crates serde symbol := by
  have hframe : ∀ pf, Shows withLevels Output.cut fun a =>
      drainFrame crates serde symbol a pf := fun pf =>
    Shows.run (fun d => shows_applyBook crates d _ _ _) _
  have hpending : ∀ k (a : Adapter), (a.withLevels k).pending = a.pending := fun _ _ => rfl
  unfold drainSymbol
  constructor
  · intro k a
    simp only [hpending]
    cases a.pending.get? symbol with
    | none => rfl
    | some frames =>
      exact (Shows.run hframe frames).state k { a with pending := a.pending.erase symbol }
  · intro a k l hkl
    simp only [hpending]
    cases a.pending.get? symbol with
    | none => rfl
    | some frames =>
      have hrun := (Shows.run hframe frames).output { a with pending := a.pending.erase symbol }
        k l hkl
      exact congrArg (List.cons _) hrun

theorem withLevels_foldl_setPrecision (k : Nat) (pairs : List PairInfo) (a : Adapter) :
    pairs.foldl setPrecision (a.withLevels k) = (pairs.foldl setPrecision a).withLevels k := by
  induction pairs generalizing a with
  | nil => rfl
  | cons p pairs ih =>
    have hone : (a.withLevels k).setPrecision p = (a.setPrecision p).withLevels k := by
      have hinstruments : (a.withLevels k).instruments = a.instruments := rfl
      unfold setPrecision
      rw [hinstruments]
      split <;> rfl
    rw [List.foldl_cons, List.foldl_cons, hone, ih]

theorem shows_handleBody (frameType : String) (recvTsNs : Int) (bytes : List UInt8) (body : Body) :
    Shows withLevels Output.cut fun a => a.handleBody crates serde frameType recvTsNs bytes body := by
  cases body with
  | instrument pairs =>
    have hdrain : ∀ symbols, Shows withLevels Output.cut fun a =>
        Mealy.run (drainSymbol crates serde) a symbols := fun symbols =>
      Shows.run (shows_drainSymbol crates serde) symbols
    have hpending : Shows withLevels Output.cut fun a => a.drainPending crates serde :=
      ⟨fun k a => (hdrain a.ready).state k a, fun a k l hkl => (hdrain a.ready).output a k l hkl⟩
    exact hpending.after fun k a => withLevels_foldl_setPrecision k pairs a
  | trade trades =>
    exact Shows.of_eq (fun _ _ => rfl) (fun _ _ => rfl) fun k a => map_cut_trades k _
  | book frames =>
    constructor
    · intro k a
      exact (Shows.run (shows_handleEntry crates frameType recvTsNs a.connMsgSeq bytes)
        frames).state k a
    · intro a k l hkl
      exact (Shows.run (shows_handleEntry crates frameType recvTsNs a.connMsgSeq bytes)
        frames).output a k l hkl
  | other => exact Shows.of_eq (fun _ _ => rfl) (fun _ _ => rfl) fun _ _ => rfl

theorem shows_step (bytes : List UInt8) (recvTsNs : Int) :
    Shows withLevels Output.cut fun a => a.step crates serde bytes recvTsNs := by
  have hbody := shows_handleBody crates serde (parse serde bytes).frameType recvTsNs bytes
    (parse serde bytes).body
  constructor
  · intro k a
    exact hbody.state k { a with connMsgSeq := a.connMsgSeq + 1 }
  · intro a k l hkl
    exact congrArg (List.cons _) (hbody.output { a with connMsgSeq := a.connMsgSeq + 1 } k l hkl)

end Kraken.Adapter

/-! ## Coinbase -/

namespace Coinbase.Adapter

def withLevels (n : Nat) (a : Adapter) : Adapter := { a with snapshotLevels := n }

theorem snapshot_cut (a : Adapter) {m n : Nat} (h : m ≤ n) (native : String) (nowNs : Int) :
    (a.withLevels m).snapshot native nowNs =
      ((a.withLevels n).snapshot native nowNs).map (BookSnapshotRecord.cut m) := by
  unfold snapshot withLevels
  simp only
  cases a.books.get? native with
  | none => rfl
  | some state =>
    simp only
    split
    · rfl
    · cases a.instruments.canonical native with
      | none => rfl
      | some canonical =>
        simp only [state.book.topN_cut h, Option.map_some]
        rfl

variable (crates : Crates) (serde : Serde)

theorem withLevels_applyL2 (k : Nat) (a : Adapter) (e : L2Event) (recvTsNs n : Int)
    (seq : Option Int) :
    (a.withLevels k).applyL2 crates e recvTsNs n seq =
      (a.applyL2 crates e recvTsNs n seq).withLevels k := by
  have hinstruments : (a.withLevels k).instruments = a.instruments := rfl
  have hbooks : (a.withLevels k).books = a.books := rfl
  unfold applyL2
  rw [hinstruments, hbooks]
  split
  · rfl
  · cases BookState.base (a.books.get? e.productId) e.typ <;> rfl

theorem withLevels_checkFrame (k : Nat) (a : Adapter) (e : Envelope) :
    (a.withLevels k).checkFrame e = ((a.checkFrame e).1.withLevels k, (a.checkFrame e).2) := by
  have hexpected : (a.withLevels k).expectedSeq = a.expectedSeq := rfl
  unfold checkFrame
  cases e.sequenceNum with
  | none => rfl
  | some seq =>
    simp only [checkSequence, hexpected]
    split <;> rfl

theorem shows_handleBody (e : Envelope) (recvTsNs : Int) (body : Body) :
    Shows withLevels Output.cut fun a => a.handleBody crates e recvTsNs body := by
  cases body with
  | l2 events =>
    have hevent : ∀ n (ev : L2Event), Shows withLevels Output.cut fun a =>
        handleEvent crates (events.map L2Event.productId) recvTsNs n e.sequenceNum a ev :=
      fun n ev => Shows.of_eq (fun k a => withLevels_applyL2 crates k a ev recvTsNs n e.sequenceNum)
        (fun _ _ => rfl) fun _ _ => rfl
    constructor
    · intro k a
      exact (Shows.run (hevent a.connMsgSeq) events).state k a
    · intro a k l hkl
      exact (Shows.run (hevent a.connMsgSeq) events).output a k l hkl
  | trades events =>
    exact Shows.of_eq (fun _ _ => rfl) (fun _ _ => rfl) fun k a => map_cut_trades k _
  | control => exact Shows.of_eq (fun _ _ => rfl) (fun _ _ => rfl) fun _ _ => rfl
  | other =>
    refine Shows.of_eq (fun _ _ => rfl) (fun _ _ => rfl) fun _ _ => ?_
    split <;> rfl

theorem shows_step (bytes : List UInt8) (recvTsNs : Int) :
    Shows withLevels Output.cut fun a => a.step crates serde bytes recvTsNs := by
  have hnext : ∀ k (a : Adapter),
      ({ a.withLevels k with connMsgSeq := (a.withLevels k).connMsgSeq + 1 } : Adapter) =
        ({ a with connMsgSeq := a.connMsgSeq + 1 } : Adapter).withLevels k := fun _ _ => rfl
  unfold step
  cases serde.envelope bytes with
  | none =>
    have hraw : Shows withLevels Output.cut fun a : Adapter =>
        (a, ([.record (.raw (a.rawRecord (parse serde bytes) bytes recvTsNs))] : Outputs)) :=
      Shows.of_eq (fun _ _ => rfl) (fun _ _ => rfl) fun _ _ => rfl
    exact hraw.after hnext
  | some e =>
    have hcheck : Shows withLevels Output.cut fun a : Adapter => ((a.checkFrame e).1,
        (.record (.raw (a.rawRecord (parse serde bytes) bytes recvTsNs)) ::
          (a.checkFrame e).2.map .action : Outputs)) := by
      refine Shows.of_eq (fun k a => ?_) (fun k a => ?_) fun k a => ?_
      · rw [withLevels_checkFrame]
      · rw [withLevels_checkFrame]
        rfl
      · rw [List.map_cons, List.map_map]
        rfl
    exact (hcheck.then (shows_handleBody crates e recvTsNs (Body.parse serde e))).after hnext

end Coinbase.Adapter

/-! ## Binance -/

namespace Binance.Adapter

def withLevels (n : Nat) (a : Adapter) : Adapter := { a with snapshotLevels := n }

theorem snapshot_cut (a : Adapter) {m n : Nat} (h : m ≤ n) (native : String) (nowNs : Int) :
    (a.withLevels m).snapshot native nowNs =
      ((a.withLevels n).snapshot native nowNs).map (BookSnapshotRecord.cut m) := by
  unfold snapshot withLevels
  simp only
  cases a.books.get? native with
  | none => rfl
  | some state =>
    simp only
    split
    · rfl
    · cases a.instruments.canonical native with
      | none => rfl
      | some canonical =>
        simp only [state.book.topN_cut h, Option.map_some]
        rfl

variable (serde : Serde)

theorem shows_handleData (stream native data : String) (recvTsNs n : Int) :
    Shows withLevels Output.cut fun a => a.handleData serde stream native data recvTsNs n := by
  unfold handleData
  split
  · exact Shows.of_eq (fun _ _ => rfl) (fun _ _ => rfl) fun k a => map_cut_trades k _
  · split
    · cases serde.depth data with
      | none => exact Shows.of_eq (fun _ _ => rfl) (fun _ _ => rfl) fun _ _ => rfl
      | some d =>
        have hheld : ∀ k (a : Adapter), (a.withLevels k).held native = a.held native :=
          fun _ _ => rfl
        constructor
        · intro k a
          simp only [replaceBook, hheld]
          split <;> rfl
        · intro a k l _
          simp only [replaceBook, hheld]
          split <;> rfl
    · exact Shows.of_eq (fun _ _ => rfl) (fun _ _ => rfl) fun _ _ => rfl

theorem shows_step (bytes : List UInt8) (recvTsNs : Int) :
    Shows withLevels Output.cut fun a => a.step serde bytes recvTsNs := by
  have hnext : ∀ k (a : Adapter),
      ({ a.withLevels k with connMsgSeq := (a.withLevels k).connMsgSeq + 1 } : Adapter) =
        ({ a with connMsgSeq := a.connMsgSeq + 1 } : Adapter).withLevels k := fun _ _ => rfl
  unfold step
  cases serde.envelope bytes with
  | none =>
    have hraw : Shows withLevels Output.cut fun a : Adapter =>
        (a, ([.record (.raw ⟨EXCHANGE, "unparseable", none, recvTsNs, a.connId, a.connMsgSeq,
          bytes⟩)] : Outputs)) :=
      Shows.of_eq (fun _ _ => rfl) (fun _ _ => rfl) fun _ _ => rfl
    exact hraw.after hnext
  | some e =>
    have hroute : ∀ k (a : Adapter), (a.withLevels k).route e.stream = a.route e.stream :=
      fun _ _ => rfl
    constructor
    · intro k a
      simp only [hnext, routed, hroute]
      generalize ({ a with connMsgSeq := a.connMsgSeq + 1 } : Adapter) = b
      generalize b.route e.stream = r
      cases r.2 with
      | none => rfl
      | some native =>
        exact (shows_handleData serde r.1 native e.data recvTsNs (a.connMsgSeq + 1)).state k b
    · intro a k l hkl
      simp only [hnext, routed, hroute]
      generalize ({ a with connMsgSeq := a.connMsgSeq + 1 } : Adapter) = b
      generalize b.route e.stream = r
      cases r.2 with
      | none => rfl
      | some native =>
        exact congrArg (List.cons _)
          ((shows_handleData serde r.1 native e.data recvTsNs (a.connMsgSeq + 1)).output b k l hkl)

end Binance.Adapter

/-! ## Whole replays -/

namespace Adapter

def withLevels (n : Nat) : Adapter → Adapter
  | kraken a => .kraken (a.withLevels n)
  | binance a => .binance (a.withLevels n)
  | coinbase a => .coinbase (a.withLevels n)

theorem snapshot_cut (a : Adapter) {m n : Nat} (h : m ≤ n) (native : String) (nowNs : Int) :
    (a.withLevels m).snapshot native nowNs =
      ((a.withLevels n).snapshot native nowNs).map (BookSnapshotRecord.cut m) := by
  cases a with
  | kraken a => exact a.snapshot_cut h native nowNs
  | binance a => exact a.snapshot_cut h native nowNs
  | coinbase a => exact a.snapshot_cut h native nowNs

/-- A frame leaves the same state, whatever the levels; its records are cut. -/
theorem handleFrame_cut (crates : Crates) (serdes : Serdes) (a : Adapter) (bytes : List UInt8)
    (recvTsNs : Int) {m n : Nat} (h : m ≤ n) : ∃ b : Adapter,
      ((a.withLevels m).handleFrame crates serdes bytes recvTsNs).1 = b.withLevels m ∧
      ((a.withLevels n).handleFrame crates serdes bytes recvTsNs).1 = b.withLevels n ∧
      ((a.withLevels m).handleFrame crates serdes bytes recvTsNs).2.records =
        ((a.withLevels n).handleFrame crates serdes bytes recvTsNs).2.records.map
          (OutRecord.cut m) ∧
      ((a.withLevels m).handleFrame crates serdes bytes recvTsNs).2.actions =
        ((a.withLevels n).handleFrame crates serdes bytes recvTsNs).2.actions := by
  cases a with
  | kraken a =>
    have hstep := Kraken.Adapter.shows_step crates serdes.kraken bytes recvTsNs
    have hout := hstep.output a m n h
    refine ⟨.kraken (a.step crates serdes.kraken bytes recvTsNs).1,
      congrArg Adapter.kraken (hstep.state m a), congrArg Adapter.kraken (hstep.state n a), ?_, ?_⟩
    · exact (congrArg Output.records hout).trans (records_cut m _)
    · exact (congrArg Output.actions hout).trans (actions_cut m _)
  | binance a =>
    have hstep := Binance.Adapter.shows_step serdes.binance bytes recvTsNs
    have hout := hstep.output a m n h
    refine ⟨.binance (a.step serdes.binance bytes recvTsNs).1,
      congrArg Adapter.binance (hstep.state m a), congrArg Adapter.binance (hstep.state n a), ?_, ?_⟩
    · exact (congrArg Output.records hout).trans (records_cut m _)
    · exact (congrArg Output.actions hout).trans (actions_cut m _)
  | coinbase a =>
    have hstep := Coinbase.Adapter.shows_step crates serdes.coinbase bytes recvTsNs
    have hout := hstep.output a m n h
    refine ⟨.coinbase (a.step crates serdes.coinbase bytes recvTsNs).1,
      congrArg Adapter.coinbase (hstep.state m a), congrArg Adapter.coinbase (hstep.state n a), ?_, ?_⟩
    · exact (congrArg Output.records hout).trans (records_cut m _)
    · exact (congrArg Output.actions hout).trans (actions_cut m _)

end Adapter

/-- The locals of a replay whose adapter shows `n` levels. -/
def Replaying.withLevels (n : Nat) (st : Replaying) : Replaying :=
  { st with adapter := st.adapter.withLevels n }

section Replay

variable (crates : Crates) (serdes : Serdes)

theorem samples_cut (st : Replaying) {m n : Nat} (h : m ≤ n) (symbols : List String)
    (nowNs : Int) : (st.withLevels m).samples symbols nowNs =
      ((st.withLevels n).samples symbols nowNs).map (BookSnapshotRecord.cut m) := by
  unfold Replaying.samples
  rw [List.map_filterMap]
  exact List.filterMap_congr fun symbol _ => st.adapter.snapshot_cut h symbol nowNs

/-- One frame, up to the sampler. -/
theorem handle_cut (st : Replaying) {m n : Nat} (h : m ≤ n) (f : FixtureLine) :
    ∃ st' : Replaying, ((st.withLevels m).handle crates serdes f).1 = st'.withLevels m ∧
      ((st.withLevels n).handle crates serdes f).1 = st'.withLevels n ∧
      ((st.withLevels m).handle crates serdes f).2 =
        ((st.withLevels n).handle crates serdes f).2.map (OutRecord.cut m) := by
  obtain ⟨b, hm, hn, hrecords, hactions⟩ :=
    st.adapter.handleFrame_cut crates serdes (utf8 f.payload) f.recvTsNs h
  refine ⟨{ ((st.withLevels n).handle crates serdes f).1 with adapter := b }, ?_, ?_, hrecords⟩
  · unfold Replaying.handle Replaying.withLevels
    simp only [hm, hrecords, hactions, List.length_map]
  · unfold Replaying.handle Replaying.withLevels
    simp only [hn]

/-- The sampler, after a frame. -/
theorem sample_cut (st : Replaying) {m n : Nat} (h : m ≤ n) (symbols : List String)
    (intervalNs recvTsNs : Int) :
    ((st.withLevels m).sample symbols intervalNs recvTsNs).1 =
        ((st.withLevels n).sample symbols intervalNs recvTsNs).1.map (Emitted.cut m) ∧
      ((∃ e, ((st.withLevels m).sample symbols intervalNs recvTsNs).2 = .error e ∧
          ((st.withLevels n).sample symbols intervalNs recvTsNs).2 = .error e) ∨
        ∃ st' : Replaying,
          ((st.withLevels m).sample symbols intervalNs recvTsNs).2 = .ok (st'.withLevels m) ∧
          ((st.withLevels n).sample symbols intervalNs recvTsNs).2 = .ok (st'.withLevels n)) := by
  have hdue : ∀ k, (st.withLevels k).nextSampleNs = st.nextSampleNs := fun _ => rfl
  have hstats : ∀ k, (st.withLevels k).stats = st.stats := fun _ => rfl
  unfold Replaying.sample
  simp only [hdue, hstats, samples_cut st h, List.length_map]
  split
  · constructor
    · rw [List.map_map, List.map_map]
      rfl
    · split
      · exact Or.inl ⟨_, rfl, rfl⟩
      · refine Or.inr ⟨{ st with
          stats := { st.stats with
            records := st.stats.records + ((st.withLevels n).samples symbols recvTsNs).length }
          nextSampleNs := some (st.nextSampleNs.getD (recvTsNs + intervalNs) + ((recvTsNs -
            st.nextSampleNs.getD (recvTsNs + intervalNs)).tdiv intervalNs + 1) * intervalNs) }, ?_, ?_⟩
          <;> rfl
  · refine ⟨rfl, Or.inr ⟨{ st with
      nextSampleNs := some (st.nextSampleNs.getD (recvTsNs + intervalNs)) }, ?_, ?_⟩⟩ <;> rfl

/-- One line. -/
theorem read_cut (st : Replaying) {m n : Nat} (h : m ≤ n) (symbols : List String)
    (intervalNs : Int) (f : FixtureLine) :
    ((st.withLevels m).read crates serdes symbols intervalNs f).1 =
        ((st.withLevels n).read crates serdes symbols intervalNs f).1.map (Emitted.cut m) ∧
      ((∃ e, ((st.withLevels m).read crates serdes symbols intervalNs f).2 = .error e ∧
          ((st.withLevels n).read crates serdes symbols intervalNs f).2 = .error e) ∨
        ∃ st' : Replaying,
          ((st.withLevels m).read crates serdes symbols intervalNs f).2 = .ok (st'.withLevels m) ∧
          ((st.withLevels n).read crates serdes symbols intervalNs f).2 = .ok (st'.withLevels n)) := by
  obtain ⟨st', hm, hn, hrecords⟩ := handle_cut crates serdes st h f
  obtain ⟨hout, hres⟩ := sample_cut st' h symbols intervalNs f.recvTsNs
  unfold Replaying.read
  simp only [hm, hn, hrecords]
  refine ⟨?_, hres⟩
  rw [List.map_append, hout, List.map_map, List.map_map]
  rfl

theorem readLines_cut (fixtureLine : String → Option FixtureLine) (symbols : List String)
    (intervalNs : Int) {m n : Nat} (h : m ≤ n) (lines : List String) :
    ∀ (k : Nat) (st : Replaying),
      (st.withLevels m).readLines crates serdes fixtureLine symbols intervalNs k lines =
        (((st.withLevels n).readLines crates serdes fixtureLine symbols intervalNs k lines).1.map
            (Emitted.cut m),
          ((st.withLevels n).readLines crates serdes fixtureLine symbols intervalNs k lines).2) := by
  induction lines with
  | nil => exact fun _ _ => rfl
  | cons line lines ih =>
    intro k st
    unfold Replaying.readLines
    split
    · exact ih (k + 1) st
    · cases fixtureLine line with
      | none => rfl
      | some f =>
        obtain ⟨hout, ⟨e, hm, hn⟩ | ⟨st', hm, hn⟩⟩ :=
          read_cut crates serdes st h symbols intervalNs f
        all_goals
          simp only
          generalize (st.withLevels m).read crates serdes symbols intervalNs f = r at *
          generalize (st.withLevels n).read crates serdes symbols intervalNs f = q at *
          obtain ⟨rout, rres⟩ := r
          obtain ⟨qout, qres⟩ := q
          simp only at hout hm hn
          subst hout hm hn
        · rfl
        · simp only
          rw [ih (k + 1) st', List.map_append]

/-- **The depth of a replay only cuts.**  A replay with fewer levels emits the records of one with
    more, the arrays of each book cut and its depth that of what is left, and ends as it does. -/
theorem depth_only_cuts (fixtureLine : String → Option FixtureLine) (adapter : Adapter)
    (input : List String) (connId : String) (intervalNs : Int) {d₁ d₂ : Nat} (h₁ : 1 ≤ d₁)
    (h₂ : d₁ ≤ d₂) :
    replay crates serdes fixtureLine adapter input ⟨connId, intervalNs, some d₁⟩ =
      ((replay crates serdes fixtureLine adapter input ⟨connId, intervalNs, some d₂⟩).1.map
          (Emitted.cut d₁),
        (replay crates serdes fixtureLine adapter input ⟨connId, intervalNs, some d₂⟩).2) := by
  have hset : ∀ d, 1 ≤ d → (adapter.beginConnection connId).setSnapshotDepth d =
      (adapter.beginConnection connId).withLevels d := by
    intro d hd
    have hmax : max d 1 = d := Nat.max_eq_left hd
    cases adapter with
    | kraken a => exact congrArg (fun n => Adapter.kraken ((a.beginConnection connId).withLevels n)) hmax
    | binance a => exact congrArg (fun n => Adapter.binance ((a.beginConnection connId).withLevels n)) hmax
    | coinbase a =>
      exact congrArg (fun n => Adapter.coinbase ((a.beginConnection connId).withLevels n)) hmax
  have hsymbols : ∀ d, ((adapter.beginConnection connId).withLevels d).symbols =
      (adapter.beginConnection connId).symbols := by
    intro d
    cases adapter <;> rfl
  unfold replay
  simp only [Option.elim_some, hset d₁ h₁, hset d₂ (h₁.trans h₂), hsymbols]
  exact readLines_cut crates serdes fixtureLine _ intervalNs h₂ input 1
    ⟨adapter.beginConnection connId, Stats.default, none⟩

end Replay

/-! ## A book of two levels a side -/

/-- A Coinbase snapshot. -/
def twoLevels : Int × List Coinbase.L2Event :=
  (0, [⟨"snapshot", "ATOM-USD", [⟨"bid", Coinbase.EVENT_TIME, "1.5577", "92.81"⟩,
    ⟨"bid", Coinbase.EVENT_TIME, "1.5570", "10"⟩, ⟨"offer", Coinbase.EVENT_TIME, "1.5580", "5"⟩,
    ⟨"offer", Coinbase.EVENT_TIME, "1.5590", "7.5"⟩]⟩])

def bookLines : String → Option FixtureLine
  | "a" => some ⟨0, Coinbase.l2Json twoLevels⟩
  | "b" => some ⟨12, "{}"⟩
  | _ => none

/-- The levels of each side of the books that are sampled. -/
def sampledLevels (out : List Emitted) : List (Nat × Nat × Nat) :=
  out.filterMap fun
    | .sampled b => some (b.depth, b.bidPx.length, b.askPx.length)
    | .handled _ => none

def replayBook (depth : Nat) : List Emitted × Except ReplayError Stats :=
  replay Coinbase.timed ⟨quietSerdes.kraken, quietSerdes.binance, Coinbase.Serde.ofFrames [twoLevels]⟩
    bookLines (buildAdapter .coinbase Coinbase.atomUsd) ["a", "b"] ⟨"c1", 5, some depth⟩

/-- The second line samples the book that the first leaves, with one level a side or with both. -/
theorem late_replay_cut : sampledLevels (replayBook 1).1 = [(1, 1, 1)] ∧
    sampledLevels (replayBook 20).1 = [(2, 2, 2)] ∧
    replayBook 1 = ((replayBook 20).1.map (Emitted.cut 1), (replayBook 20).2) :=
  ⟨by decide +kernel, by decide +kernel,
    depth_only_cuts _ _ _ _ _ _ _ (by decide) (by decide)⟩

end K2.Capture

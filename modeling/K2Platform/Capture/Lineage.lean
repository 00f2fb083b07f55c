import K2Platform.Capture.Adapter
import K2Platform.Capture.RawRecords

/-!
# The lineage of derived records

A trade or book record carries the stamp of the frame it came from: connection, position on the
connection, receipt time.  What an adapter remembers between frames (its books, Kraken's parked
frames) remembers stamps too, and `Kept S connId` says that all of these are in `S`.

* `Kraken.Adapter.Kept.step`, `Coinbase.Adapter.Kept.step`, `Binance.Adapter.Kept.step` — a frame
  whose own stamp is in `S` keeps this, and emits its raw record, then records stamped in `S`.
* `Adapter.Observes.call` — with `S` the stamps of the raw records emitted on the connection so
  far, every call keeps what is observed of the connection.
* `records_have_lineage` — the same after any sequence of calls.
-/

set_option autoImplicit false

namespace K2.Capture

/-- What a derived record keeps of the frame it came from. -/
structure Stamp where
  connId : String
  connMsgSeq : Int
  recvTsNs : Int
  deriving DecidableEq, Repr

namespace OutRecord

def stamp : OutRecord → Stamp
  | trade t => ⟨t.connId, t.connMsgSeq, t.recvTsNs⟩
  | book b => ⟨b.connId, b.connMsgSeq, b.recvTsNs⟩
  | raw r => ⟨r.connId, r.connMsgSeq, r.recvTsNs⟩

/-- A trade or book record whose stamp is one of `S`. -/
def DerivedFrom (S : Stamp → Prop) : OutRecord → Prop
  | raw _ => False
  | r => S r.stamp

end OutRecord

namespace Output

variable {ν : Type} {S : Stamp → Prop}

/-- Every record among the outputs is a derived one, stamped in `S`. -/
def Lineage (S : Stamp → Prop) (outs : List (Output ν)) : Prop :=
  ∀ o ∈ outs, ∀ r ∈ o.record?, r.DerivedFrom S

theorem lineage_nil : Lineage S ([] : List (Output ν)) := fun _ ho => absurd ho List.not_mem_nil

theorem Lineage.append {l₁ l₂ : List (Output ν)} (h₁ : Lineage S l₁) (h₂ : Lineage S l₂) :
    Lineage S (l₁ ++ l₂) := by
  intro x hx
  rcases List.mem_append.1 hx with hx | hx
  · exact h₁ x hx
  · exact h₂ x hx

/-- An output that is no record says nothing of lineage. -/
theorem lineage_silent {o : Output ν} (ho : o.record? = none) : Lineage S [o] := by
  intro x hx r hr
  rw [List.mem_singleton.1 hx, ho] at hr
  cases hr

theorem Lineage.cons {o : Output ν} {outs : List (Output ν)} (ho : o.record? = none)
    (h : Lineage S outs) : Lineage S (o :: outs) := (lineage_silent ho).append h

theorem lineage_map_record {α : Type} {f : α → OutRecord} {l : List α}
    (h : ∀ x ∈ l, (f x).DerivedFrom S) : Lineage (ν := ν) S (l.map fun x => .record (f x)) := by
  intro o ho r hr
  obtain ⟨x, hx, rfl⟩ := List.mem_map.1 ho
  cases hr
  exact h x hx

theorem Lineage.records {outs : List (Output ν)} (h : Lineage S outs) :
    ∀ r ∈ Output.records outs, r.DerivedFrom S :=
  fun r hr => h _ (mem_records.1 hr) r rfl

/-- A state and its outputs after a step: the state is in `I`, nothing emitted is outside `S`. -/
structure Stays {σ : Type} (I : σ → Prop) (S : Stamp → Prop) (r : σ × List (Output ν)) : Prop where
  kept : I r.1
  lineage : Lineage S r.2

theorem stays_run {σ ι : Type} {I : σ → Prop} {step : σ → ι → σ × List (Output ν)} {is : List ι}
    (hstep : ∀ s, ∀ i ∈ is, I s → Stays I S (step s i)) {s : σ} (hs : I s) :
    Stays I S (Mealy.run step s is) := by
  have hrun := Mealy.run_invariant step (Q := fun o => ∀ r ∈ o.record?, r.DerivedFrom S) is
    (fun s i hi hI => ⟨(hstep s i hi hI).kept, (hstep s i hi hI).lineage⟩) s hs
  exact ⟨hrun.1, hrun.2⟩

/-- What a step makes of a frame: its raw record, then outputs stamped in `S`. -/
def StepsTo {σ : Type} (I : σ → Prop) (S : Stamp → Prop) (bytes : List UInt8) (stamp : Stamp)
    (r : σ × List (Output ν)) : Prop :=
  ∃ raw outs, r.2 = .record (.raw raw) :: outs ∧ raw.payload = bytes ∧
    (OutRecord.raw raw).stamp = stamp ∧ I r.1 ∧ Lineage S outs

end Output

open Output

variable {S : Stamp → Prop} {connId : String}

/-! ## Kraken -/

namespace Kraken

variable {crates : Crates} {serde : Serde}

namespace Adapter

/-- The stamps remembered by the books that are not empty, and by the parked frames. -/
structure Kept (S : Stamp → Prop) (connId : String) (a : Adapter) : Prop where
  connId_eq : a.connId = connId
  books : a.books.Forall fun state => state.book.isEmpty = false →
    S ⟨connId, state.lastConnMsgSeq, state.lastRecvTsNs⟩
  pending : a.pending.Forall fun queue => ∀ pf ∈ queue, S ⟨connId, pf.connMsgSeq, pf.recvTsNs⟩

theorem kept_beginConnection (S : Stamp → Prop) (a : Adapter) (connId : String) :
    (a.beginConnection connId).Kept S connId :=
  ⟨rfl, SortedMap.forall_empty _, SortedMap.forall_empty _⟩

theorem Kept.mono {T : Stamp → Prop} (hST : ∀ s, S s → T s) {a : Adapter} (h : a.Kept S connId) :
    a.Kept T connId :=
  ⟨h.connId_eq, h.books.mono fun _ hs hne => hST _ (hs hne),
    h.pending.mono fun _ hq pf hpf => hST _ (hq pf hpf)⟩

theorem Kept.snapshot {a : Adapter} (h : a.Kept S connId) (native : String) (nowNs : Int) :
    ∀ b ∈ a.snapshot native nowNs, (OutRecord.book b).DerivedFrom S := by
  intro b hb
  rw [Adapter.snapshot, Option.mem_def] at hb
  split at hb
  · cases hb
  · rename_i state hstate
    split at hb
    · cases hb
    · rename_i hne
      split at hb
      · cases hb
      · cases hb
        show S ⟨a.connId, _, _⟩
        rw [h.connId_eq]
        exact h.books native state hstate (Bool.eq_false_iff.2 hne)

theorem Kept.setBook {a : Adapter} (h : a.Kept S connId) (symbol : String) {state : BookState}
    (hs : state.book.isEmpty = false → S ⟨connId, state.lastConnMsgSeq, state.lastRecvTsNs⟩) :
    (a.setBook symbol state).Kept S connId :=
  ⟨h.connId_eq, h.books.insert symbol hs, h.pending⟩

theorem Kept.stored {a : Adapter} (h : a.Kept S connId) (symbol : String)
    (hne : (a.stored symbol).book.isEmpty = false) :
    S ⟨connId, (a.stored symbol).lastConnMsgSeq, (a.stored symbol).lastRecvTsNs⟩ := by
  unfold Adapter.stored at hne ⊢
  cases hget : a.books.get? symbol with
  | none =>
    rw [hget] at hne
    cases hne
  | some state =>
    rw [hget] at hne
    exact h.books symbol state hget hne

variable (crates) in
/-- The state a folded entry leaves is stamped by the entry's own frame. -/
theorem Kept.applyBook {a : Adapter} (h : a.Kept S connId) (f : BookData) (frameType : String)
    {recvTsNs n : Int} (hnew : S ⟨connId, n, recvTsNs⟩) :
    Stays (Kept S connId) S (a.applyBook crates f frameType recvTsNs n) := by
  have happlied := applied crates a f frameType recvTsNs n
  generalize a.applyBook crates f frameType recvTsNs n = r at happlied
  cases happlied with
  | skipped => exact ⟨h, lineage_nil⟩
  | ignored => exact ⟨h.setBook _ (h.stored _), lineage_silent rfl⟩
  | verified => exact ⟨h.setBook _ fun _ => hnew, lineage_silent rfl⟩
  | mismatch precision hp hfold hsum state hstate =>
    have hmarked : (a.setBook f.symbol state).Kept S connId := h.setBook _ fun _ => by
      subst hstate
      exact hnew
    refine ⟨h.setBook _ (fun hne => nomatch hne), ?_⟩
    refine Lineage.append (Lineage.cons rfl ?_) (lineage_silent rfl)
    refine lineage_map_record fun b hb => hmarked.snapshot f.symbol recvTsNs b ?_
    rwa [Option.mem_toList] at hb

theorem Kept.applyBooks {a : Adapter} (h : a.Kept S connId) (frameType : String) {recvTsNs n : Int}
    (hnew : S ⟨connId, n, recvTsNs⟩) (ds : List BookData) :
    Stays (Kept S connId) S (a.applyBooks crates frameType recvTsNs n ds) :=
  stays_run (fun _ d _ hb => hb.applyBook crates d frameType hnew) h

theorem Kept.park {a : Adapter} (h : a.Kept S connId) (symbol : String) {recvTsNs n : Int}
    (bytes : List UInt8) (hnew : S ⟨connId, n, recvTsNs⟩) :
    (a.park symbol recvTsNs n bytes).Kept S connId := by
  refine ⟨h.connId_eq, h.books, h.pending.insert symbol fun pf hpf => ?_⟩
  have hold : ∀ x ∈ (a.pending.get? symbol).getD [], S ⟨connId, x.connMsgSeq, x.recvTsNs⟩ := by
    cases hget : a.pending.get? symbol with
    | none => exact fun x hx => absurd hx List.not_mem_nil
    | some old => exact h.pending symbol old hget
  rcases List.mem_append.1 hpf with hpf | hpf
  · refine hold pf ?_
    split at hpf
    · exact List.mem_of_mem_tail hpf
    · exact hpf
  · rw [List.mem_singleton.1 hpf]
    exact hnew

theorem Kept.handleEntry {a : Adapter} (h : a.Kept S connId) (frameType : String) {recvTsNs n : Int}
    (bytes : List UInt8) (f : BookData) (hnew : S ⟨connId, n, recvTsNs⟩) :
    Stays (Kept S connId) S (a.handleEntry crates frameType recvTsNs n bytes f) := by
  unfold Adapter.handleEntry
  split
  · have happly := h.applyBook crates f frameType hnew
    exact ⟨happly.kept, happly.lineage.cons rfl⟩
  · exact ⟨h.park _ _ hnew, lineage_silent rfl⟩

/-- The parked frames of a symbol carry their own stamps into the replay. -/
theorem Kept.drainSymbol {a : Adapter} (h : a.Kept S connId) (symbol : String) :
    Stays (Kept S connId) S (a.drainSymbol crates serde symbol) := by
  unfold Adapter.drainSymbol
  split
  · exact ⟨h, lineage_nil⟩
  · rename_i frames hget
    have herased : ({ a with pending := a.pending.erase symbol } : Adapter).Kept S connId :=
      ⟨h.connId_eq, h.books, h.pending.erase symbol⟩
    have hrun : Stays (Kept S connId) S (Mealy.run (drainFrame crates serde symbol)
        { a with pending := a.pending.erase symbol } frames) :=
      stays_run (fun b pf hpf hb => hb.applyBooks _ (h.pending symbol frames hget pf hpf) _) herased
    exact ⟨hrun.kept, hrun.lineage.cons rfl⟩

theorem Kept.setPrecisions {a : Adapter} (h : a.Kept S connId) (pairs : List PairInfo) :
    (pairs.foldl setPrecision a).Kept S connId := by
  rw [foldl_setPrecision_eq]
  exact ⟨h.connId_eq, h.books, h.pending⟩

theorem tradeRecord_stamp {a : Adapter} {t : TradeData} {recvTsNs n : Int} {tr : TradeRecord}
    (h : a.tradeRecord crates t recvTsNs n = some tr) :
    (OutRecord.trade tr).stamp = ⟨a.connId, n, recvTsNs⟩ := by
  simp only [Adapter.tradeRecord, bind, Option.bind_eq_some_iff] at h
  obtain ⟨_, _, _, _, _, _, h⟩ := h
  split at h
  · obtain ⟨_, _, h⟩ := Option.bind_eq_some_iff.1 h
    obtain ⟨_, _, h⟩ := Option.bind_eq_some_iff.1 h
    cases h
    rfl
  · split at h
    · obtain ⟨_, _, h⟩ := Option.bind_eq_some_iff.1 h
      obtain ⟨_, _, h⟩ := Option.bind_eq_some_iff.1 h
      cases h
      rfl
    · cases h

variable (crates serde) in
theorem Kept.handleBody {a : Adapter} (h : a.Kept S connId) (frameType : String) {recvTsNs : Int}
    (bytes : List UInt8) (body : Body) (hnew : S ⟨connId, a.connMsgSeq, recvTsNs⟩) :
    Stays (Kept S connId) S (a.handleBody crates serde frameType recvTsNs bytes body) := by
  cases body with
  | book frames => exact stays_run (fun _ f _ hb => hb.handleEntry frameType bytes f hnew) h
  | trade trades =>
    refine ⟨h, lineage_map_record fun t ht => ?_⟩
    obtain ⟨d, _, hd⟩ := List.mem_filterMap.1 ht
    show S (OutRecord.trade t).stamp
    rw [tradeRecord_stamp hd, h.connId_eq]
    exact hnew
  | instrument pairs => exact stays_run (fun _ s _ hb => hb.drainSymbol s) (h.setPrecisions pairs)
  | other => exact ⟨h, lineage_nil⟩

theorem Kept.step {a : Adapter} (h : a.Kept S connId) (bytes : List UInt8) {recvTsNs : Int}
    (hnew : S ⟨connId, a.connMsgSeq + 1, recvTsNs⟩) :
    StepsTo (Kept S connId) S bytes ⟨connId, a.connMsgSeq + 1, recvTsNs⟩
      (a.step crates serde bytes recvTsNs) := by
  have hnext : ({ a with connMsgSeq := a.connMsgSeq + 1 } : Adapter).Kept S connId :=
    ⟨h.connId_eq, h.books, h.pending⟩
  obtain ⟨hkept, hlineage⟩ := hnext.handleBody crates serde (parse serde bytes).frameType
    bytes (parse serde bytes).body hnew
  have hid := h.connId_eq
  subst hid
  exact ⟨_, _, rfl, rfl, rfl, hkept, hlineage⟩

end Adapter

end Kraken

/-! ## Coinbase -/

namespace Coinbase

variable {crates : Crates} {serde : Serde}

namespace Adapter

/-- The stamps remembered by the books. -/
structure Kept (S : Stamp → Prop) (connId : String) (a : Adapter) : Prop where
  connId_eq : a.connId = connId
  books : a.books.Forall fun state => S ⟨connId, state.lastConnMsgSeq, state.lastRecvTsNs⟩

theorem kept_beginConnection (S : Stamp → Prop) (a : Adapter) (connId : String) :
    (a.beginConnection connId).Kept S connId := ⟨rfl, SortedMap.forall_empty _⟩

theorem Kept.mono {T : Stamp → Prop} (hST : ∀ s, S s → T s) {a : Adapter} (h : a.Kept S connId) :
    a.Kept T connId := ⟨h.connId_eq, h.books.mono fun _ => hST _⟩

theorem Kept.snapshot {a : Adapter} (h : a.Kept S connId) (native : String) (nowNs : Int) :
    ∀ b ∈ a.snapshot native nowNs, (OutRecord.book b).DerivedFrom S := by
  intro b hb
  rw [Adapter.snapshot, Option.mem_def] at hb
  split at hb
  · cases hb
  · rename_i state hstate
    split at hb
    · cases hb
    · split at hb
      · cases hb
      · cases hb
        show S ⟨a.connId, _, _⟩
        rw [h.connId_eq]
        exact h.books native state hstate

theorem Kept.checkFrame {a : Adapter} (h : a.Kept S connId) (e : Envelope) :
    (a.checkFrame e).1.Kept S connId := by
  unfold Adapter.checkFrame Adapter.checkSequence
  split
  · simp only
    split
    · exact ⟨h.connId_eq, SortedMap.forall_empty _⟩
    · exact ⟨h.connId_eq, h.books⟩
  · exact h

theorem Kept.applyL2 {a : Adapter} (h : a.Kept S connId) (e : L2Event) {recvTsNs n : Int}
    (seq : Option Int) (hnew : S ⟨connId, n, recvTsNs⟩) :
    (a.applyL2 crates e recvTsNs n seq).Kept S connId := by
  unfold Adapter.applyL2
  split
  · exact h
  · split
    · exact h
    · exact ⟨h.connId_eq, h.books.insert _ hnew⟩

theorem tradeRecord_stamp {a : Adapter} {t : TradeData} {recvTsNs n : Int} {seq : Option Int}
    {tr : TradeRecord} (h : a.tradeRecord crates t recvTsNs n seq = some tr) :
    (OutRecord.trade tr).stamp = ⟨a.connId, n, recvTsNs⟩ := by
  simp only [Adapter.tradeRecord, bind, Option.bind_eq_some_iff] at h
  obtain ⟨_, _, _, _, _, _, h⟩ := h
  split at h
  · obtain ⟨_, _, h⟩ := Option.bind_eq_some_iff.1 h
    obtain ⟨_, _, h⟩ := Option.bind_eq_some_iff.1 h
    cases h
    rfl
  · split at h
    · obtain ⟨_, _, h⟩ := Option.bind_eq_some_iff.1 h
      obtain ⟨_, _, h⟩ := Option.bind_eq_some_iff.1 h
      cases h
      rfl
    · cases h

theorem Kept.handleBody {a : Adapter} (h : a.Kept S connId) (e : Envelope) {recvTsNs : Int}
    (body : Body) (hnew : S ⟨connId, a.connMsgSeq, recvTsNs⟩) :
    Stays (Kept S connId) S (a.handleBody crates e recvTsNs body) := by
  cases body with
  | l2 events =>
    exact stays_run (fun _ ev _ hb => ⟨hb.applyL2 ev e.sequenceNum hnew, lineage_silent rfl⟩) h
  | trades events =>
    refine ⟨h, lineage_map_record fun t ht => ?_⟩
    obtain ⟨d, _, hd⟩ := List.mem_filterMap.1 ht
    show S (OutRecord.trade t).stamp
    rw [tradeRecord_stamp hd, h.connId_eq]
    exact hnew
  | control => exact ⟨h, lineage_nil⟩
  | other =>
    rw [Adapter.handleBody]
    split
    · exact ⟨h, lineage_silent rfl⟩
    · exact ⟨h, lineage_nil⟩

theorem Kept.step {a : Adapter} (h : a.Kept S connId) (bytes : List UInt8) {recvTsNs : Int}
    (hnew : S ⟨connId, a.connMsgSeq + 1, recvTsNs⟩) :
    StepsTo (Kept S connId) S bytes ⟨connId, a.connMsgSeq + 1, recvTsNs⟩
      (a.step crates serde bytes recvTsNs) := by
  have hnext : ({ a with connMsgSeq := a.connMsgSeq + 1 } : Adapter).Kept S connId :=
    ⟨h.connId_eq, h.books⟩
  have hid := h.connId_eq
  subst hid
  unfold Adapter.step
  cases serde.envelope bytes with
  | none => exact ⟨_, _, rfl, rfl, rfl, hnext, lineage_nil⟩
  | some e =>
    obtain ⟨hkept, hlineage⟩ := (hnext.checkFrame e).handleBody e (Body.parse serde e)
      (by rwa [checkFrame_connMsgSeq])
    refine ⟨_, _, rfl, rfl, rfl, hkept, Lineage.append (fun o ho r hr => ?_) hlineage⟩
    obtain ⟨_, _, rfl⟩ := List.mem_map.1 ho
    cases hr

end Adapter

end Coinbase

/-! ## Binance -/

namespace Binance

variable {serde : Serde}

namespace Adapter

/-- The stamps remembered by the books. -/
structure Kept (S : Stamp → Prop) (connId : String) (a : Adapter) : Prop where
  connId_eq : a.connId = connId
  books : a.books.Forall fun state => S ⟨connId, state.lastConnMsgSeq, state.lastRecvTsNs⟩

theorem kept_beginConnection (S : Stamp → Prop) (a : Adapter) (connId : String) :
    (a.beginConnection connId).Kept S connId := ⟨rfl, SortedMap.forall_empty _⟩

theorem Kept.mono {T : Stamp → Prop} (hST : ∀ s, S s → T s) {a : Adapter} (h : a.Kept S connId) :
    a.Kept T connId := ⟨h.connId_eq, h.books.mono fun _ => hST _⟩

theorem Kept.snapshot {a : Adapter} (h : a.Kept S connId) (native : String) (nowNs : Int) :
    ∀ b ∈ a.snapshot native nowNs, (OutRecord.book b).DerivedFrom S := by
  intro b hb
  rw [Adapter.snapshot, Option.mem_def] at hb
  split at hb
  · cases hb
  · rename_i state hstate
    split at hb
    · cases hb
    · split at hb
      · cases hb
      · cases hb
        show S ⟨a.connId, _, _⟩
        rw [h.connId_eq]
        exact h.books native state hstate

theorem tradeRecord_stamp {a : Adapter} {native : String} {t : TradeData} {recvTsNs n : Int}
    {tr : TradeRecord} (h : a.tradeRecord native t recvTsNs n = some tr) :
    (OutRecord.trade tr).stamp = ⟨a.connId, n, recvTsNs⟩ := by
  simp only [Adapter.tradeRecord, bind, Option.bind_eq_some_iff] at h
  obtain ⟨_, _, _, _, _, _, _, _, h⟩ := h
  cases h
  rfl

theorem Kept.replaceBook {a : Adapter} (h : a.Kept S connId) (native : String) (d : DepthData)
    {recvTsNs n : Int} (hnew : S ⟨connId, n, recvTsNs⟩) :
    Stays (Kept S connId) S (a.replaceBook native d recvTsNs n) := by
  unfold Adapter.replaceBook
  simp only
  split
  · exact ⟨⟨h.connId_eq, h.books.erase native⟩, (lineage_silent rfl).cons rfl⟩
  · exact ⟨⟨h.connId_eq, h.books.insert native hnew⟩, lineage_silent rfl⟩

theorem Kept.handleData {a : Adapter} (h : a.Kept S connId) (stream native data : String)
    {recvTsNs n : Int} (hnew : S ⟨connId, n, recvTsNs⟩) :
    Stays (Kept S connId) S (a.handleData serde stream native data recvTsNs n) := by
  unfold Adapter.handleData
  split
  · refine ⟨h, lineage_map_record fun t ht => ?_⟩
    obtain ⟨d, _, hd⟩ := Option.bind_eq_some_iff.1 (Option.mem_toList.1 ht)
    show S (OutRecord.trade t).stamp
    rw [tradeRecord_stamp hd, h.connId_eq]
    exact hnew
  · split
    · split
      · exact h.replaceBook native _ hnew
      · exact ⟨h, lineage_nil⟩
    · exact ⟨h, lineage_nil⟩

theorem Kept.step {a : Adapter} (h : a.Kept S connId) (bytes : List UInt8) {recvTsNs : Int}
    (hnew : S ⟨connId, a.connMsgSeq + 1, recvTsNs⟩) :
    StepsTo (Kept S connId) S bytes ⟨connId, a.connMsgSeq + 1, recvTsNs⟩
      (a.step serde bytes recvTsNs) := by
  have hnext : ({ a with connMsgSeq := a.connMsgSeq + 1 } : Adapter).Kept S connId :=
    ⟨h.connId_eq, h.books⟩
  have hid := h.connId_eq
  subst hid
  unfold Adapter.step
  simp only
  split
  · obtain ⟨hkept, hlineage⟩ := hnext.handleData _ _ _ hnew
    exact ⟨_, _, rfl, rfl, rfl, hkept, hlineage⟩
  · exact ⟨_, _, rfl, rfl, rfl, hnext, lineage_nil⟩

end Adapter

end Binance

/-! ## The adapter of a venue -/

namespace Adapter

def Kept (S : Stamp → Prop) (connId : String) : Adapter → Prop
  | kraken a => a.Kept S connId
  | binance a => a.Kept S connId
  | coinbase a => a.Kept S connId

theorem kept_buildAdapter (S : Stamp → Prop) (exchange : Exchange) (instruments : Instruments) :
    (buildAdapter exchange instruments).Kept S "" := by
  cases exchange with
  | kraken => exact ⟨rfl, SortedMap.forall_empty _, SortedMap.forall_empty _⟩
  | binance => exact ⟨rfl, SortedMap.forall_empty _⟩
  | coinbase => exact ⟨rfl, SortedMap.forall_empty _⟩

theorem kept_beginConnection (S : Stamp → Prop) (a : Adapter) (connId : String) :
    (a.beginConnection connId).Kept S connId := by
  cases a with
  | kraken a => exact a.kept_beginConnection S connId
  | binance a => exact a.kept_beginConnection S connId
  | coinbase a => exact a.kept_beginConnection S connId

theorem Kept.mono {T : Stamp → Prop} (hST : ∀ s, S s → T s) {a : Adapter} (h : a.Kept S connId) :
    a.Kept T connId := by
  cases a with
  | kraken a => exact Kraken.Adapter.Kept.mono hST h
  | binance a => exact Binance.Adapter.Kept.mono hST h
  | coinbase a => exact Coinbase.Adapter.Kept.mono hST h

theorem Kept.setSnapshotDepth {a : Adapter} (h : a.Kept S connId) (depth : Nat) :
    (a.setSnapshotDepth depth).Kept S connId := by
  cases a with
  | kraken a => exact ⟨h.connId_eq, h.books, h.pending⟩
  | binance a => exact ⟨h.connId_eq, h.books⟩
  | coinbase a => exact ⟨h.connId_eq, h.books⟩

theorem Kept.snapshot {a : Adapter} (h : a.Kept S connId) (native : String) (nowNs : Int) :
    ∀ b ∈ a.snapshot native nowNs, (OutRecord.book b).DerivedFrom S := by
  cases a with
  | kraken a => exact Kraken.Adapter.Kept.snapshot h native nowNs
  | binance a => exact Binance.Adapter.Kept.snapshot h native nowNs
  | coinbase a => exact Coinbase.Adapter.Kept.snapshot h native nowNs

/-- What `handle_frame` returns of a frame: its raw record, then records stamped in `S`. -/
def Emits (S : Stamp → Prop) (bytes : List UInt8) (stamp : Stamp) (rs : List OutRecord) : Prop :=
  ∃ raw rest, rs = .raw raw :: rest ∧ raw.payload = bytes ∧ (OutRecord.raw raw).stamp = stamp ∧
    ∀ r ∈ rest, r.DerivedFrom S

theorem emits_of_stepsTo {σ ν : Type} {I : σ → Prop} {bytes : List UInt8} {stamp : Stamp}
    {r : σ × List (Output ν)} (h : StepsTo I S bytes stamp r) :
    I r.1 ∧ Emits S bytes stamp (Output.records r.2) := by
  obtain ⟨raw, outs, hr, hbytes, hstamp, hI, hlineage⟩ := h
  refine ⟨hI, raw, Output.records outs, ?_, hbytes, hstamp, hlineage.records⟩
  rw [hr]
  rfl

theorem Kept.handleFrame {a : Adapter} (h : a.Kept S connId) (crates : Crates) (serdes : Serdes)
    (bytes : List UInt8) {recvTsNs : Int} (hnew : S ⟨connId, a.connMsgSeq + 1, recvTsNs⟩) :
    (a.handleFrame crates serdes bytes recvTsNs).1.Kept S connId ∧
      (a.handleFrame crates serdes bytes recvTsNs).1.connMsgSeq = a.connMsgSeq + 1 ∧
      Emits S bytes ⟨connId, a.connMsgSeq + 1, recvTsNs⟩
        (a.handleFrame crates serdes bytes recvTsNs).2.records := by
  cases a with
  | kraken a =>
    obtain ⟨hkept, hemits⟩ := emits_of_stepsTo
      (Kraken.Adapter.Kept.step h bytes hnew)
    exact ⟨hkept, (Kraken.step_oneRaw a bytes recvTsNs).count, hemits⟩
  | binance a =>
    obtain ⟨hkept, hemits⟩ := emits_of_stepsTo
      (Binance.Adapter.Kept.step h bytes hnew)
    exact ⟨hkept, (Binance.step_oneRaw a bytes recvTsNs).count, hemits⟩
  | coinbase a =>
    obtain ⟨hkept, hemits⟩ := emits_of_stepsTo
      (Coinbase.Adapter.Kept.step h bytes hnew)
    exact ⟨hkept, (Coinbase.step_oneRaw a bytes recvTsNs).count, hemits⟩

end Adapter

/-! ## What is seen of the current connection -/

/-- The connection since `begin_connection`: its id, the frames handled, the records emitted. -/
structure Observed where
  connId : String
  frames : Nat
  emitted : List OutRecord

namespace Observed

def next (o : Observed) (e : Event) : Observed :=
  match e.1 with
  | .beginConnection connId => ⟨connId, 0, []⟩
  | .handleFrame _ _ => ⟨o.connId, o.frames + 1, o.emitted ++ e.2⟩
  | _ => ⟨o.connId, o.frames, o.emitted ++ e.2⟩

/-- A raw record with this stamp has been emitted on the connection. -/
def Archived (o : Observed) (s : Stamp) : Prop :=
  ∃ raw, OutRecord.raw raw ∈ o.emitted ∧ (OutRecord.raw raw).stamp = s

/-- What a call may emit on the connection: `before` and `after` split its records at one of
    them, and a derived record has its raw record emitted before it. -/
structure Admits (o : Observed) (e : Event) : Prop where
  frame : ∀ bytes recvTsNs, e.1 = .handleFrame bytes recvTsNs →
    ∃ raw rest, e.2 = .raw raw :: rest ∧ raw.payload = bytes ∧ raw.connMsgSeq = o.frames + 1 ∧
      raw.connId = o.connId ∧ raw.recvTsNs = recvTsNs ∧ ∀ r, OutRecord.raw r ∉ rest
  other : (∀ bytes recvTsNs, e.1 ≠ .handleFrame bytes recvTsNs) → ∀ r, OutRecord.raw r ∉ e.2
  derived : ∀ before r after, e.2 = before ++ r :: after → (∀ raw, r ≠ .raw raw) →
    ∃ raw, OutRecord.raw raw ∈ o.emitted ++ before ∧ (OutRecord.raw raw).stamp = r.stamp

end Observed

/-- What the events so far show of the current connection. -/
def observed (es : List Event) : Observed := es.foldl Observed.next ⟨"", 0, []⟩

theorem observed_append (es es' : List Event) :
    observed (es ++ es') = es'.foldl Observed.next (observed es) := List.foldl_append

namespace Adapter

/-- The adapter counts the frames of the connection, and remembers no stamp but those of raw
    records already emitted on it. -/
structure Observes (o : Observed) (a : Adapter) : Prop where
  connMsgSeq : a.connMsgSeq = o.frames
  kept : a.Kept o.Archived o.connId

theorem observes_buildAdapter (exchange : Exchange) (instruments : Instruments) :
    (buildAdapter exchange instruments).Observes (observed []) :=
  ⟨by cases exchange <;> rfl, kept_buildAdapter _ exchange instruments⟩

variable {o : Observed} {a : Adapter}

theorem stamp_of_derived {r : OutRecord} (h : r.DerivedFrom S) (hraw : ∀ raw, r ≠ .raw raw) :
    S r.stamp := by
  cases r with
  | trade t => exact h
  | book b => exact h
  | raw r => exact absurd rfl (hraw r)

/-- The records of a call that handles no frame, all of them derived from archived frames. -/
theorem admits_of_derived {q : Request} {rs : List OutRecord}
    (hq : ∀ bytes recvTsNs, q ≠ .handleFrame bytes recvTsNs)
    (hrs : ∀ r ∈ rs, r.DerivedFrom o.Archived) : o.Admits (q, rs) where
  frame bytes recvTsNs h := absurd h (hq bytes recvTsNs)
  other _ r hr := hrs _ hr
  derived before r after h hraw := by
    have hmem : r ∈ rs := by
      change rs = _ at h
      simp [h]
    obtain ⟨raw, hraw', hstamp⟩ := stamp_of_derived (hrs r hmem) hraw
    exact ⟨raw, List.mem_append_left _ hraw', hstamp⟩

/-- The stamps archived once a frame is. -/
def ArchivedWith (o : Observed) (stamp : Stamp) (s : Stamp) : Prop := o.Archived s ∨ s = stamp

theorem admits_of_emits {bytes : List UInt8} {recvTsNs : Int} {rs : List OutRecord}
    (h : Emits (ArchivedWith o ⟨o.connId, o.frames + 1, recvTsNs⟩) bytes
      ⟨o.connId, o.frames + 1, recvTsNs⟩ rs) : o.Admits (.handleFrame bytes recvTsNs, rs) := by
  obtain ⟨raw, rest, rfl, hbytes, hstamp, hrest⟩ := h
  refine ⟨fun _ _ heq => ?_, fun hq => absurd rfl (hq bytes recvTsNs), ?_⟩
  · cases heq
    injection hstamp with hconn hseq hrecv
    exact ⟨raw, rest, rfl, hbytes, hseq, hconn, hrecv, fun r hr => hrest _ hr⟩
  · intro before r after heq hraw
    -- the raw record is the first, so a record that is not raw comes after it
    cases before with
    | nil =>
      injection heq with hhead _
      exact absurd hhead.symm (hraw raw)
    | cons x before =>
      injection heq with hhead htail
      have hmem : r ∈ rest := by simp [htail]
      rcases stamp_of_derived (hrest r hmem) hraw with ⟨raw', hraw', hs⟩ | hs
      · exact ⟨raw', List.mem_append_left _ hraw', hs⟩
      · refine ⟨raw, List.mem_append_right _ ?_, hstamp.trans hs.symm⟩
        rw [hhead]
        exact List.mem_cons_self

theorem Observes.handleFrame (h : a.Observes o) (crates : Crates) (serdes : Serdes)
    (bytes : List UInt8) (recvTsNs : Int) :
    o.Admits (.handleFrame bytes recvTsNs, (a.handleFrame crates serdes bytes recvTsNs).2.records) ∧
      (a.handleFrame crates serdes bytes recvTsNs).1.Observes
        (o.next (.handleFrame bytes recvTsNs,
          (a.handleFrame crates serdes bytes recvTsNs).2.records)) := by
  obtain ⟨hkept, hcount, hemits⟩ := (h.kept.mono (T := ArchivedWith o
    ⟨o.connId, a.connMsgSeq + 1, recvTsNs⟩) fun _ hs => Or.inl hs).handleFrame crates serdes bytes
    (Or.inr rfl)
  rw [h.connMsgSeq] at hkept hcount hemits
  refine ⟨admits_of_emits hemits, ?_, hkept.mono ?_⟩
  · rw [hcount]
    simp [Observed.next]
  · obtain ⟨raw, rest, hrs, -, hstamp, -⟩ := hemits
    rintro s (⟨raw', hmem, hs⟩ | rfl)
    · exact ⟨raw', List.mem_append_left _ hmem, hs⟩
    · refine ⟨raw, List.mem_append_right _ ?_, hstamp⟩
      rw [hrs]
      exact List.mem_cons_self

/-- A call that emits no raw record leaves the archived stamps as they were. -/
theorem Observes.of_kept (h : a.Observes o) {a' : Adapter} (hcount : a'.connMsgSeq = a.connMsgSeq)
    (hkept : a'.Kept o.Archived o.connId) (rs : List OutRecord) :
    a'.Observes ⟨o.connId, o.frames, o.emitted ++ rs⟩ :=
  ⟨hcount.trans h.connMsgSeq, hkept.mono fun _ ⟨raw, hmem, hs⟩ =>
    ⟨raw, List.mem_append_left _ hmem, hs⟩⟩

/-- **One call.** -/
theorem Observes.call (h : a.Observes o) (crates : Crates) (serdes : Serdes) (q : Request) :
    o.Admits (q, (a.call crates serdes q).2) ∧
      (a.call crates serdes q).1.Observes (o.next (q, (a.call crates serdes q).2)) := by
  cases q with
  | beginConnection connId =>
    refine ⟨admits_of_derived (fun _ _ h => nomatch h) fun _ hr => absurd hr List.not_mem_nil, ?_,
      a.kept_beginConnection _ connId⟩
    cases a <;> rfl
  | setSnapshotDepth depth =>
    refine ⟨admits_of_derived (fun _ _ h => nomatch h) fun _ hr => absurd hr List.not_mem_nil,
      h.of_kept ?_ (h.kept.setSnapshotDepth depth) []⟩
    cases a <;> rfl
  | handleFrame bytes recvTsNs => exact h.handleFrame crates serdes bytes recvTsNs
  | snapshot native nowNs =>
    refine ⟨admits_of_derived (fun _ _ h => nomatch h) fun r hr => ?_, h.of_kept rfl h.kept _⟩
    obtain ⟨b, hb, rfl⟩ := List.mem_map.1 hr
    exact h.kept.snapshot native nowNs b (Option.mem_toList.1 hb)

theorem observes_run (crates : Crates) (serdes : Serdes) (exchange : Exchange)
    (instruments : Instruments) (qs : List Request) :
    ((buildAdapter exchange instruments).run crates serdes qs).1.Observes
      (observed ((buildAdapter exchange instruments).run crates serdes qs).2) := by
  have hrun := Mealy.run_history (Adapter.exec crates serdes)
    (J := fun es a => a.Observes (observed es))
    (fun es a q h => by
      rw [observed_append]
      exact (h.call crates serdes q).2) qs [] _ (observes_buildAdapter exchange instruments)
  rwa [List.nil_append] at hrun

end Adapter

/-- **Every derived record has its raw record, emitted before it on the same connection.**  After
    any calls, whatever call comes next. -/
theorem records_have_lineage (crates : Crates) (serdes : Serdes) (exchange : Exchange)
    (instruments : Instruments) (qs : List Request) (q : Request) :
    let r := (buildAdapter exchange instruments).run crates serdes qs
    (observed r.2).Admits (q, (r.1.call crates serdes q).2) :=
  ((Adapter.observes_run crates serdes exchange instruments qs).call crates serdes q).1

end K2.Capture

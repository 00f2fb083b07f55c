import K2Platform.Capture.Kraken.Apply

/-!
# Parking and draining

A book frame that arrives before its pair's precision is parked whole, once for every entry it
carries for the symbol, and the queue is replayed when the precision arrives.  A frame with `k`
entries for the symbol is therefore replayed `k` times: `k * k` calls of `apply_book`.

* `parked_entries`, `known_entries` — both paths, as runs of `apply_book` over the entries alone.
* `parking_transparent_iff` — parking changes nothing for a symbol exactly when no frame carries
  two entries for it.
* `two_entries_not_transparent` — a connection on which it loses the book.
-/

set_option autoImplicit false

namespace K2.Capture.Kraken

/-! ## What concerns one symbol -/

def concerns (symbol : String) : Output BookNote → Bool
  | .record (.book b) => b.symbol = symbol
  | .action (.resubscribe native) => native = symbol
  | .note (.call c) => c.data.symbol = symbol
  | _ => false

def about (symbol : String) (outs : Outputs) : Outputs := outs.filter (concerns symbol)

theorem about_append (symbol : String) (h outs : Outputs) :
    about symbol (h ++ outs) = about symbol h ++ about symbol outs :=
  List.filter_append _ _

/-- A projection that sees nothing in the outputs about other symbols. -/
theorem filterMap_about {γ : Type} {symbol : String} {g : Output BookNote → Option γ}
    (hg : ∀ o, concerns symbol o = false → g o = none) (outs : Outputs) :
    (about symbol outs).filterMap g = outs.filterMap g := by
  rw [about, List.filterMap_filter]
  refine List.filterMap_congr fun o _ => ?_
  cases h : concerns symbol o with
  | true => rfl
  | false => rw [hg o h]; rfl

def bookRecord? (symbol : String) : Output BookNote → Option BookSnapshotRecord
  | .record (.book b) => if b.symbol = symbol then some b else none
  | _ => none

def resubscribe? (symbol : String) : Output BookNote → Option Action
  | .action (.resubscribe native) => if native = symbol then some (.resubscribe native) else none
  | _ => none

/-- A book entry with the frame type and the stamps it is applied with. -/
structure Stamped where
  data : BookData
  frameType : String
  recvTsNs : Int
  connMsgSeq : Int
  deriving DecidableEq, Repr

def stamped? (symbol : String) : Output BookNote → Option Stamped
  | .note (.call c) =>
    if c.data.symbol = symbol then some ⟨c.data, c.frameType, c.recvTsNs, c.connMsgSeq⟩ else none
  | _ => none

/-- The book records of one symbol. -/
def bookRecords (symbol : String) (outs : Outputs) : List BookSnapshotRecord :=
  outs.filterMap (bookRecord? symbol)

def resubscribes (symbol : String) (outs : Outputs) : List Action :=
  outs.filterMap (resubscribe? symbol)

/-- The entries of one symbol that were handed to `apply_book`, in order. -/
def appliedEntries (symbol : String) (outs : Outputs) : List Stamped :=
  outs.filterMap (stamped? symbol)

theorem bookRecords_about (symbol : String) (outs : Outputs) :
    bookRecords symbol (about symbol outs) = bookRecords symbol outs :=
  filterMap_about (fun o h => by
    unfold bookRecord?
    split
    · exact if_neg (of_decide_eq_false h)
    · rfl) outs

theorem resubscribes_about (symbol : String) (outs : Outputs) :
    resubscribes symbol (about symbol outs) = resubscribes symbol outs :=
  filterMap_about (fun o h => by
    unfold resubscribe?
    split
    · exact if_neg (of_decide_eq_false h)
    · rfl) outs

theorem appliedEntries_about (symbol : String) (outs : Outputs) :
    appliedEntries symbol (about symbol outs) = appliedEntries symbol outs :=
  filterMap_about (fun o h => by
    unfold stamped?
    split
    · exact if_neg (of_decide_eq_false h)
    · rfl) outs

/-! ## Two states that agree on one symbol -/

/-- Everything a call of `apply_book` for the symbol reads. -/
structure SameAt (symbol : String) (a b : Adapter) : Prop where
  instruments : a.instruments = b.instruments
  snapshotLevels : a.snapshotLevels = b.snapshotLevels
  connId : a.connId = b.connId
  precision : a.precision.get? symbol = b.precision.get? symbol
  books : a.books.get? symbol = b.books.get? symbol

namespace SameAt

variable {crates : Crates} {symbol : String} {a b c : Adapter}

theorem refl (symbol : String) (a : Adapter) : SameAt symbol a a := ⟨rfl, rfl, rfl, rfl, rfl⟩

theorem symm (h : SameAt symbol a b) : SameAt symbol b a :=
  ⟨h.instruments.symm, h.snapshotLevels.symm, h.connId.symm, h.precision.symm, h.books.symm⟩

theorem trans (h : SameAt symbol a b) (h' : SameAt symbol b c) : SameAt symbol a c :=
  ⟨h.instruments.trans h'.instruments, h.snapshotLevels.trans h'.snapshotLevels,
   h.connId.trans h'.connId, h.precision.trans h'.precision, h.books.trans h'.books⟩

theorem setPending (symbol : String) (a : Adapter) (pending : SortedMap String (List PendingFrame)) :
    SameAt symbol a { a with pending := pending } :=
  ⟨rfl, rfl, rfl, rfl, rfl⟩

theorem nextFrame (symbol : String) (a : Adapter) :
    SameAt symbol a { a with connMsgSeq := a.connMsgSeq + 1 } :=
  ⟨rfl, rfl, rfl, rfl, rfl⟩

theorem setBook (h : SameAt symbol a b) (state : BookState) :
    SameAt symbol (a.setBook symbol state) (b.setBook symbol state) := by
  refine ⟨h.instruments, h.snapshotLevels, h.connId, h.precision, ?_⟩
  unfold Adapter.setBook
  rw [SortedMap.get?_insert_self, SortedMap.get?_insert_self]

theorem marked (h : SameAt symbol a b) (recvTsNs : Int) :
    a.marked symbol recvTsNs = b.marked symbol recvTsNs := by
  unfold Adapter.marked Adapter.snapshot
  rw [h.books, h.instruments, h.snapshotLevels, h.connId]

/-- **A call for a symbol depends on that symbol's part of the state alone.** -/
theorem applyBook {f : BookData} (h : SameAt f.symbol a b) (frameType : String)
    (recvTsNs n : Int) :
    SameAt f.symbol (a.applyBook crates f frameType recvTsNs n).1
        (b.applyBook crates f frameType recvTsNs n).1 ∧
      (a.applyBook crates f frameType recvTsNs n).2 =
        (b.applyBook crates f frameType recvTsNs n).2 := by
  have hstored : a.stored f.symbol = b.stored f.symbol := by
    unfold Adapter.stored
    rw [h.books]
  have hdepth : a.subscriptionDepth f.symbol = b.subscriptionDepth f.symbol := by
    unfold Adapter.subscriptionDepth
    rw [h.instruments]
  unfold Adapter.applyBook
  rw [h.instruments, h.precision, hstored, hdepth]
  split
  · rename_i precision _ _
    simp only
    generalize foldEntry crates (b.stored f.symbol) f frameType (b.subscriptionDepth f.symbol)
      precision recvTsNs n = r
    obtain ⟨state, outcome⟩ := r
    have hset := h.setBook state
    cases outcome with
    | ignored => exact ⟨hset, rfl⟩
    | verified => exact ⟨hset, rfl⟩
    | mismatch =>
      simp only [Adapter.clearBook_setBook, hset.marked recvTsNs]
      exact ⟨h.setBook _, trivial⟩
  · exact ⟨h, rfl⟩

end SameAt

/-! ## Runs over entries -/

/-- `apply_book` on stamped entries. -/
def applyEntries (crates : Crates) (a : Adapter) (es : List Stamped) : Adapter × Outputs :=
  Mealy.run (fun a e => a.applyBook crates e.data e.frameType e.recvTsNs e.connMsgSeq) a es

section Entries

variable {crates : Crates} {symbol : String}

theorem about_applyBook_self (a : Adapter) {f : BookData} (heq : f.symbol = symbol)
    (frameType : String) (recvTsNs n : Int) :
    about symbol (a.applyBook crates f frameType recvTsNs n).2 =
      (a.applyBook crates f frameType recvTsNs n).2 := by
  refine List.filter_eq_self.2 fun o ho => ?_
  rcases Adapter.mem_applyBook crates ho with ⟨c, rfl, hc⟩ | ⟨b, rfl, hb⟩ | rfl
  · simp [concerns, hc, heq]
  · simp [concerns, hb, heq]
  · simp [concerns, heq]

theorem about_applyBook_of_ne (a : Adapter) {f : BookData} (hne : f.symbol ≠ symbol)
    (frameType : String) (recvTsNs n : Int) :
    about symbol (a.applyBook crates f frameType recvTsNs n).2 = [] := by
  refine List.filter_eq_nil_iff.2 fun o ho => ?_
  rcases Adapter.mem_applyBook crates ho with ⟨c, rfl, hc⟩ | ⟨b, rfl, hb⟩ | rfl
  · simp [concerns, hc, hne]
  · simp [concerns, hb, hne]
  · simp [concerns, hne]

/-- A call for a registered symbol whose precision is known hands over exactly its entry. -/
theorem appliedEntries_applyBook {a : Adapter} {f : BookData} (heq : f.symbol = symbol)
    (hreg : (a.instruments.canonical symbol).isSome) (hp : (a.precision.get? symbol).isSome)
    (frameType : String) (recvTsNs n : Int) :
    appliedEntries symbol (a.applyBook crates f frameType recvTsNs n).2 =
      [⟨f, frameType, recvTsNs, n⟩] := by
  subst heq
  have happlied := Adapter.applied crates a f frameType recvTsNs n
  generalize a.applyBook crates f frameType recvTsNs n = r at happlied
  cases happlied with
  | skipped hskip =>
    rcases hskip with hc | hc
    · rw [hc] at hreg; cases hreg
    · rw [hc] at hp; cases hp
  | ignored => simp [appliedEntries, stamped?]
  | verified => simp [appliedEntries, stamped?]
  | mismatch _ _ _ _ state _ =>
    have hmarked : ((a.setBook f.symbol state).marked f.symbol recvTsNs).filterMap
        (stamped? f.symbol) = [] := by
      refine List.filterMap_eq_nil_iff.2 fun o ho => ?_
      obtain ⟨b, rfl, _⟩ := Adapter.marked_spec ho
      rfl
    simp [appliedEntries, stamped?, hmarked]

theorem appliedEntries_applyEntries :
    ∀ (es : List Stamped) (a : Adapter), (∀ e ∈ es, e.data.symbol = symbol) →
      (a.instruments.canonical symbol).isSome → (a.precision.get? symbol).isSome →
      appliedEntries symbol (applyEntries crates a es).2 = es
  | [], _, _, _, _ => rfl
  | e :: es, a, hes, hreg, hp => by
    have hfst := Adapter.applyBook_fst crates a e.data e.frameType e.recvTsNs e.connMsgSeq
    have hrest := appliedEntries_applyEntries es
      (a.applyBook crates e.data e.frameType e.recvTsNs e.connMsgSeq).1
      (fun d hd => hes d (List.mem_cons_of_mem _ hd)) (by rw [hfst]; exact hreg)
      (by rw [hfst]; exact hp)
    have hhead : appliedEntries symbol
        (a.applyBook crates e.data e.frameType e.recvTsNs e.connMsgSeq).2 = [e] :=
      appliedEntries_applyBook (hes e List.mem_cons_self) hreg hp _ _ _
    unfold appliedEntries applyEntries at hrest ⊢
    unfold appliedEntries at hhead
    rw [Mealy.run_cons, List.filterMap_append, hhead, hrest]
    rfl

theorem sameAt_applyEntries :
    ∀ (es : List Stamped) {a b : Adapter}, (∀ e ∈ es, e.data.symbol = symbol) → SameAt symbol a b →
      SameAt symbol (applyEntries crates a es).1 (applyEntries crates b es).1
  | [], _, _, _, h => h
  | e :: es, a, b, hes, h => by
    unfold applyEntries
    rw [Mealy.run_cons, Mealy.run_cons]
    refine sameAt_applyEntries es (fun d hd => hes d (List.mem_cons_of_mem _ hd)) ?_
    have heq := hes e List.mem_cons_self
    exact heq ▸ ((heq ▸ h : SameAt e.data.symbol a b).applyBook _ _ _).1

end Entries

/-! ## What leaves a symbol aside -/

/-- A step that neither reads nor writes the symbol's part of the state, nor says anything
    about it. -/
structure Aside (symbol : String) (a : Adapter) (r : Adapter × Outputs) : Prop where
  same : SameAt symbol a r.1
  pending : r.1.pending.get? symbol = a.pending.get? symbol
  silent : about symbol r.2 = []

namespace Aside

variable {crates : Crates} {serde : Serde} {symbol : String}

theorem run {ι : Type} {step : Adapter → ι → Adapter × Outputs} :
    ∀ (is : List ι) (a : Adapter), (∀ a, ∀ i ∈ is, Aside symbol a (step a i)) →
      Aside symbol a (Mealy.run step a is)
  | [], a, _ => ⟨SameAt.refl _ _, rfl, rfl⟩
  | i :: is, a, h => by
    have hhead := h a i List.mem_cons_self
    have hrest := run is (step a i).1 fun a j hj => h a j (List.mem_cons_of_mem _ hj)
    rw [Mealy.run_cons]
    refine ⟨hhead.same.trans hrest.same, hrest.pending.trans hhead.pending, ?_⟩
    rw [about_append, hhead.silent, hrest.silent]
    rfl

theorem applyBook (a : Adapter) {f : BookData} (hne : f.symbol ≠ symbol) (frameType : String)
    (recvTsNs n : Int) : Aside symbol a (a.applyBook crates f frameType recvTsNs n) := by
  have hfst := Adapter.applyBook_fst crates a f frameType recvTsNs n
  have hbooks := Adapter.get?_books_applyBook_of_ne crates a frameType recvTsNs n hne
  refine ⟨⟨?_, ?_, ?_, ?_, hbooks.symm⟩, ?_, about_applyBook_of_ne a hne _ _ _⟩
  · rw [hfst]
  · rw [hfst]
  · rw [hfst]
  · rw [hfst]
  · rw [hfst]

theorem drainSymbol (a : Adapter) {native : String} (hne : native ≠ symbol) :
    Aside symbol a (a.drainSymbol crates serde native) := by
  unfold Adapter.drainSymbol
  split
  · exact ⟨SameAt.refl _ _, rfl, rfl⟩
  · rename_i frames _
    have hrun : Aside symbol { a with pending := a.pending.erase native }
        (Mealy.run (Adapter.drainFrame crates serde native)
          { a with pending := a.pending.erase native } frames) :=
      run frames _ fun a pf _ => run _ a fun a d hd =>
        applyBook a (symbol_of_mem_parkedEntries hd ▸ hne) _ _ _
    exact ⟨(SameAt.setPending _ _ _).trans hrun.same,
      hrun.pending.trans (SortedMap.get?_erase_of_ne _ (Ne.symm hne)), hrun.silent⟩

/-- A drain, while the symbol has no precision or nothing waits. -/
theorem drainPending {a : Adapter}
    (h : a.precision.get? symbol = none ∨ a.pending.get? symbol = none) :
    Aside symbol a (a.drainPending crates serde) := by
  refine run _ a fun a' native hmem => drainSymbol a' fun heq => ?_
  obtain ⟨hkey, hready⟩ := List.mem_filter.1 hmem
  rw [heq] at hkey hready
  rcases h with hunknown | hnone
  · rw [SortedMap.contains, hunknown] at hready
    cases hready
  · rw [SortedMap.mem_keys_iff, SortedMap.contains, hnone] at hkey
    cases hkey

theorem handleEntry (a : Adapter) {f : BookData} (hne : f.symbol ≠ symbol) (frameType : String)
    (recvTsNs n : Int) (bytes : List UInt8) :
    Aside symbol a (a.handleEntry crates frameType recvTsNs n bytes f) := by
  unfold Adapter.handleEntry
  split
  · have happly : Aside symbol a (a.applyBook crates f frameType recvTsNs n) :=
      applyBook a hne frameType recvTsNs n
    exact ⟨happly.same, happly.pending, happly.silent⟩
  · exact ⟨SameAt.setPending _ _ _, SortedMap.get?_insert_of_ne _ _ (Ne.symm hne), rfl⟩

/-- Pairs of other symbols. -/
theorem setPrecisions {pairs : List PairInfo} (hprec : Adapter.pairPrecision pairs symbol = none)
    (a : Adapter) : Aside symbol a (pairs.foldl Adapter.setPrecision a, []) := by
  have hset := Adapter.foldl_setPrecision_eq pairs a
  have hget := Adapter.get?_precision_foldl_setPrecision symbol pairs a
  rw [hprec, Option.none_or, ite_self] at hget
  refine ⟨⟨?_, ?_, ?_, hget.symm, ?_⟩, ?_, rfl⟩
  · rw [hset]
  · rw [hset]
  · rw [hset]
  · rw [hset]
  · rw [hset]

end Aside

/-! ## The entries of a sequence of frames -/

/-- The entries for the symbol of one stamped frame. -/
def stampedEntries (serde : Serde) (symbol : String) (pf : PendingFrame) : List Stamped :=
  (parkedEntries serde symbol pf.bytes).2.map fun d =>
    ⟨d, (parkedEntries serde symbol pf.bytes).1, pf.recvTsNs, pf.connMsgSeq⟩

/-- Frames with the stamps they get when `n` frames came before them. -/
def stampFrames (n : Int) : List Frame → List PendingFrame
  | [] => []
  | f :: fs => ⟨f.2, n + 1, f.1⟩ :: stampFrames (n + 1) fs

/-- The precision a frame gives the symbol. -/
def framePrecision (serde : Serde) (symbol : String) (bytes : List UInt8) : Option (Nat × Nat) :=
  match (parse serde bytes).body with
  | .instrument pairs => Adapter.pairPrecision pairs symbol
  | _ => none

section Frames

variable {crates : Crates} {serde : Serde} {symbol : String}

theorem symbol_of_mem_stampedEntries {pf : PendingFrame} {e : Stamped}
    (he : e ∈ stampedEntries serde symbol pf) : e.data.symbol = symbol := by
  obtain ⟨d, hd, rfl⟩ := List.mem_map.1 he
  exact symbol_of_mem_parkedEntries hd

theorem connMsgSeq_of_mem_stampedEntries {pf : PendingFrame} {e : Stamped}
    (he : e ∈ stampedEntries serde symbol pf) : e.connMsgSeq = pf.connMsgSeq := by
  obtain ⟨d, _, rfl⟩ := List.mem_map.1 he
  rfl

theorem stampedEntries_of_parse {bytes : List UInt8} {ds : List BookData}
    (h : (parse serde bytes).body = .book ds) (recvTsNs n : Int) :
    stampedEntries serde symbol ⟨recvTsNs, n, bytes⟩ =
      (ds.filter (·.symbol = symbol)).map fun d =>
        ⟨d, (parse serde bytes).frameType, recvTsNs, n⟩ := by
  unfold stampedEntries
  rw [parkedEntries_of_parse h]

/-- A frame that is no book frame carries no entries. -/
theorem parkedEntries_of_not_book {bytes : List UInt8}
    (h : ∀ ds, (parse serde bytes).body ≠ .book ds) : (parkedEntries serde symbol bytes).2 = [] := by
  unfold parse at h
  unfold parkedEntries
  cases henv : serde.envelope bytes with
  | none => rfl
  | some e =>
    rw [henv] at h
    simp only at h ⊢

theorem mem_stampFrames :
    ∀ (frames : List Frame) (n : Int) {pf : PendingFrame}, pf ∈ stampFrames n frames →
      ∃ f ∈ frames, pf.bytes = f.1
  | f :: fs, n, pf, h => by
    rcases List.mem_cons.1 h with rfl | h
    · exact ⟨f, List.mem_cons_self, rfl⟩
    · obtain ⟨g, hg, hb⟩ := mem_stampFrames fs (n + 1) h
      exact ⟨g, List.mem_cons_of_mem _ hg, hb⟩

theorem exists_mem_stampFrames :
    ∀ (frames : List Frame) (n : Int) {f : Frame}, f ∈ frames →
      ∃ pf ∈ stampFrames n frames, pf.bytes = f.1
  | g :: fs, n, f, h => by
    rcases List.mem_cons.1 h with rfl | h
    · exact ⟨_, List.mem_cons_self, rfl⟩
    · obtain ⟨pf, hpf, hb⟩ := exists_mem_stampFrames fs (n + 1) h
      exact ⟨pf, List.mem_cons_of_mem _ hpf, hb⟩

theorem step_connMsgSeq (a : Adapter) (bytes : List UInt8) (recvTsNs : Int) :
    (a.step crates serde bytes recvTsNs).1.connMsgSeq = a.connMsgSeq + 1 := by
  unfold Adapter.step
  simp only
  cases (parse serde bytes).body with
  | book frames =>
    refine Mealy.run_state _ (I := fun (b : Adapter) => b.connMsgSeq = a.connMsgSeq + 1)
      (fun b f hb => ?_) frames _ rfl
    unfold Adapter.handleEntry
    simp only
    split
    · rw [Adapter.applyBook_fst]
      exact hb
    · exact hb
  | trade trades => rfl
  | instrument pairs =>
    refine Mealy.run_state _ (I := fun (b : Adapter) => b.connMsgSeq = a.connMsgSeq + 1)
      (fun b s hb => ?_) _ _ ?_
    · rw [Adapter.drainSymbol_fst]
      exact hb
    · rw [Adapter.foldl_setPrecision_eq]
  | other => rfl

/-! ## With the precision known -/

/-- The entries of a frame for the symbol, read one by one or filtered first. -/
theorem flatMap_ite_singleton {α β : Type} (p : α → Bool) (f : α → β) (l : List α) :
    (l.flatMap fun x => if p x then [f x] else []) = (l.filter p).map f := by
  induction l with
  | nil => rfl
  | cons x l ih =>
    rw [List.flatMap_cons, ih, List.filter_cons]
    split <;> rfl

/-- The direct path and the entries alone agree on the symbol. -/
structure Direct (symbol : String) (a b : Adapter) : Prop where
  same : SameAt symbol a b
  known : (a.precision.get? symbol).isSome
  unparked : a.pending.get? symbol = none

theorem Direct.aside {a b : Adapter} {r : Adapter × Outputs} (h : Direct symbol a b)
    (hr : Aside symbol a r) : Direct symbol r.1 b :=
  ⟨hr.same.symm.trans h.same, hr.same.precision ▸ h.known, hr.pending.trans h.unparked⟩

theorem Direct.handleEntries {a b : Adapter} (h : Direct symbol a b) (frameType : String)
    (recvTsNs n : Int) (bytes : List UInt8) (ds : List BookData) :
    let r := Mealy.run (Adapter.handleEntry crates frameType recvTsNs n bytes) a ds
    let q := applyEntries crates b
      ((ds.filter (·.symbol = symbol)).map fun d => ⟨d, frameType, recvTsNs, n⟩)
    Direct symbol r.1 q.1 ∧ about symbol r.2 = q.2 := by
  rw [← flatMap_ite_singleton]
  refine Mealy.run_simulation _ _ _ (p := about symbol) (q := id) (about_append symbol)
    (fun _ _ => rfl) rfl ds (fun a b d _ h => ?_) a b h
  by_cases heq : d.symbol = symbol
  · subst heq
    have hcontains : a.precision.contains d.symbol = true := h.known
    obtain ⟨hsame, hout⟩ : SameAt d.symbol (a.applyBook crates d frameType recvTsNs n).1
        (b.applyBook crates d frameType recvTsNs n).1 ∧ _ := h.same.applyBook frameType recvTsNs n
    have hfst := Adapter.applyBook_fst crates a d frameType recvTsNs n
    unfold Adapter.handleEntry
    simp only [hcontains, if_true, decide_true, Mealy.run_singleton, id_eq]
    refine ⟨⟨hsame, by rw [hfst]; exact h.known, by rw [hfst]; exact h.unparked⟩, ?_⟩
    rw [← hout]
    exact about_applyBook_self a rfl _ _ _
  · have haside : Aside symbol a (a.handleEntry crates frameType recvTsNs n bytes d) :=
      Aside.handleEntry a heq _ _ _ _
    simp only [heq, decide_false, Bool.false_eq_true, if_false, Mealy.run_nil]
    exact ⟨h.aside haside, haside.silent⟩

/-- Queues of other symbols, drained while the symbol itself has none. -/
theorem Direct.drainPending {a b : Adapter} (h : Direct symbol a b) :
    Direct symbol (a.drainPending crates serde).1 b ∧
      about symbol (a.drainPending crates serde).2 = [] := by
  have haside : Aside symbol a (a.drainPending crates serde) :=
    Aside.drainPending (Or.inr h.unparked)
  exact ⟨h.aside haside, haside.silent⟩

theorem Direct.step {a b : Adapter} (h : Direct symbol a b) {bytes : List UInt8} (recvTsNs : Int)
    (hprec : framePrecision serde symbol bytes = none) :
    let r := a.step crates serde bytes recvTsNs
    let q := applyEntries crates b
      (stampedEntries serde symbol ⟨recvTsNs, a.connMsgSeq + 1, bytes⟩)
    Direct symbol r.1 q.1 ∧ about symbol r.2 = q.2 := by
  have hnext : Direct symbol { a with connMsgSeq := a.connMsgSeq + 1 } b :=
    ⟨(SameAt.nextFrame symbol a).symm.trans h.same, h.known, h.unparked⟩
  have hraw : ∀ raw outs, about symbol (.record (.raw raw) :: outs) = about symbol outs :=
    fun _ _ => rfl
  unfold Adapter.step
  simp only [hraw]
  cases hbody : (parse serde bytes).body with
  | book ds =>
    rw [stampedEntries_of_parse hbody]
    exact hnext.handleEntries _ _ _ _ ds
  | trade trades =>
    have hnone : (parkedEntries serde symbol bytes).2 = [] :=
      parkedEntries_of_not_book fun ds hds => by rw [hbody] at hds; cases hds
    rw [stampedEntries, hnone]
    refine ⟨hnext, List.filter_eq_nil_iff.2 fun o ho => ?_⟩
    obtain ⟨t, _, rfl⟩ := List.mem_map.1 ho
    simp [concerns]
  | instrument pairs =>
    have hnone : (parkedEntries serde symbol bytes).2 = [] :=
      parkedEntries_of_not_book fun ds hds => by rw [hbody] at hds; cases hds
    rw [stampedEntries, hnone]
    rw [framePrecision, hbody] at hprec
    have hset' := hnext.aside (Aside.setPrecisions hprec _)
    exact hset'.drainPending
  | other =>
    have hnone : (parkedEntries serde symbol bytes).2 = [] :=
      parkedEntries_of_not_book fun ds hds => by rw [hbody] at hds; cases hds
    rw [stampedEntries, hnone]
    exact ⟨hnext, rfl⟩

/-- **The direct path, as a run over the entries.** -/
theorem direct_run :
    ∀ (frames : List Frame) (a b : Adapter), Direct symbol a b →
      (∀ f ∈ frames, framePrecision serde symbol f.1 = none) →
      let r := Mealy.run (fun a (f : Frame) => a.step crates serde f.1 f.2) a frames
      let q := applyEntries crates b
        ((stampFrames a.connMsgSeq frames).flatMap (stampedEntries serde symbol))
      Direct symbol r.1 q.1 ∧ about symbol r.2 = q.2
  | [], _, _, h, _ => ⟨h, rfl⟩
  | f :: fs, a, b, h, hprec => by
    obtain ⟨hhead, hout⟩ : Direct symbol (a.step crates serde f.1 f.2).1 _ ∧ _ :=
      h.step f.2 (hprec f List.mem_cons_self)
    have hrest := direct_run fs _ _ hhead fun g hg => hprec g (List.mem_cons_of_mem _ hg)
    rw [step_connMsgSeq] at hrest
    unfold applyEntries at hrest hout ⊢
    rw [Mealy.run_cons, stampFrames, List.flatMap_cons, Mealy.run_append]
    exact ⟨hrest.1, by rw [about_append, hout, hrest.2]⟩

/-! ## Without it -/

/-- The frames parked for the symbol. -/
def queue (symbol : String) (a : Adapter) : List PendingFrame := (a.pending.get? symbol).getD []

/-- What is left of a queue: the newest frames, as many as it has room for. -/
def kept (q : List PendingFrame) : List PendingFrame := q.drop (q.length - MAX_PENDING_FRAMES)

theorem length_kept_le (q : List PendingFrame) : (kept q).length ≤ MAX_PENDING_FRAMES := by
  rw [kept, List.length_drop]
  omega

theorem kept_of_length_le {q : List PendingFrame} (h : q.length ≤ MAX_PENDING_FRAMES) :
    kept q = q := by
  rw [kept, Nat.sub_eq_zero_of_le h, List.drop_zero]

theorem kept_append (q r : List PendingFrame) : kept (kept q ++ r) = kept (q ++ r) := by
  have hsplit : (q ++ r).length - MAX_PENDING_FRAMES = (q.length - MAX_PENDING_FRAMES) +
      ((kept q ++ r).length - MAX_PENDING_FRAMES) := by
    rw [List.length_append, List.length_append, kept, List.length_drop]
    omega
  have hdrop : (q ++ r).drop (q.length - MAX_PENDING_FRAMES) = kept q ++ r :=
    List.drop_append_of_le_length (Nat.sub_le _ _)
  have hright : kept (q ++ r) = (kept q ++ r).drop ((kept q ++ r).length - MAX_PENDING_FRAMES) := by
    rw [kept, hsplit, ← List.drop_drop, hdrop]
  exact hright.symm

theorem queue_of_park (a : Adapter) (symbol : String) (recvTsNs n : Int) (bytes : List UInt8) :
    queue symbol (a.park symbol recvTsNs n bytes) =
      (if MAX_PENDING_FRAMES ≤ (queue symbol a).length then (queue symbol a).tail
        else queue symbol a) ++ [⟨recvTsNs, n, bytes⟩] := by
  unfold queue Adapter.park
  rw [SortedMap.get?_insert_self, Option.getD_some]

theorem queue_park {a : Adapter} {recvTsNs n : Int} {bytes : List UInt8}
    (hlen : (queue symbol a).length ≤ MAX_PENDING_FRAMES) :
    queue symbol (a.park symbol recvTsNs n bytes) =
      kept (queue symbol a ++ [⟨recvTsNs, n, bytes⟩]) := by
  rw [queue_of_park]
  split
  · rename_i hfull
    have hone : (queue symbol a ++ [(⟨recvTsNs, n, bytes⟩ : PendingFrame)]).length -
        MAX_PENDING_FRAMES = 1 := by
      rw [List.length_append, List.length_singleton]
      omega
    have hpos : 1 ≤ (queue symbol a).length := Nat.le_trans (by decide) hfull
    rw [kept, hone, List.drop_append_of_le_length hpos, List.drop_one]
  · refine (kept_of_length_le ?_).symm
    rw [List.length_append, List.length_singleton]
    omega

/-- The entries of a book frame that arrives too early: each parks the frame once. -/
theorem park_handleEntries (crates : Crates) (frameType : String) (recvTsNs n : Int)
    (bytes : List UInt8) : ∀ (ds : List BookData) (a : Adapter), a.precision.get? symbol = none →
      (queue symbol a).length ≤ MAX_PENDING_FRAMES →
      let r := Mealy.run (Adapter.handleEntry crates frameType recvTsNs n bytes) a ds
      SameAt symbol a r.1 ∧ about symbol r.2 = [] ∧
        queue symbol r.1 = kept (queue symbol a ++
          List.replicate (ds.filter (·.symbol = symbol)).length ⟨recvTsNs, n, bytes⟩)
  | [], a, _, hlen => ⟨SameAt.refl _ _, rfl, by
    rw [List.filter_nil, List.length_nil, List.replicate_zero, List.append_nil]
    exact (kept_of_length_le hlen).symm⟩
  | d :: ds, a, hp, hlen => by
    rw [Mealy.run_cons]
    by_cases heq : d.symbol = symbol
    · have hcontains : a.precision.contains symbol = false := by
        rw [SortedMap.contains, hp]
        rfl
      rw [List.filter_cons_of_pos (by simpa using heq), List.length_cons]
      have hpark : queue symbol (a.park symbol recvTsNs n bytes) =
          kept (queue symbol a ++ [⟨recvTsNs, n, bytes⟩]) := queue_park hlen
      have hrest := park_handleEntries crates frameType recvTsNs n bytes ds
        (a.park symbol recvTsNs n bytes) hp (by rw [hpark]; exact length_kept_le _)
      have hentry : a.handleEntry crates frameType recvTsNs n bytes d =
          (a.park symbol recvTsNs n bytes, [.note (.received symbol frameType)]) := by
        unfold Adapter.handleEntry
        simp only [heq, hcontains, Bool.false_eq_true, if_false]
      rw [hentry]
      refine ⟨(SameAt.setPending _ _ _).trans hrest.1, hrest.2.1, ?_⟩
      rw [hrest.2.2, hpark, kept_append, List.append_assoc, List.replicate_succ,
        List.singleton_append]
    · have haside : Aside symbol a (a.handleEntry crates frameType recvTsNs n bytes d) :=
        Aside.handleEntry a heq _ _ _ _
      have hqueue : queue symbol (a.handleEntry crates frameType recvTsNs n bytes d).1 =
          queue symbol a := by rw [queue, haside.pending, queue]
      rw [List.filter_cons_of_neg (by simpa using heq)]
      obtain ⟨hsame, hsilent, hq⟩ := park_handleEntries crates frameType recvTsNs n bytes ds _
        (haside.same.precision ▸ hp) (by rw [hqueue]; exact hlen)
      exact ⟨haside.same.trans hsame, by rw [about_append, haside.silent, hsilent]; rfl,
        by rw [hq, hqueue]⟩

/-- A frame that arrives too early parks itself once for each of its entries. -/
theorem park_step {a : Adapter} (hp : a.precision.get? symbol = none) {bytes : List UInt8}
    (recvTsNs : Int) (hprec : framePrecision serde symbol bytes = none)
    (hlen : (queue symbol a).length ≤ MAX_PENDING_FRAMES) :
    let r := a.step crates serde bytes recvTsNs
    let pf : PendingFrame := ⟨recvTsNs, a.connMsgSeq + 1, bytes⟩
    SameAt symbol a r.1 ∧ about symbol r.2 = [] ∧
      queue symbol r.1 = kept (queue symbol a ++
        List.replicate (stampedEntries serde symbol pf).length pf) := by
  have hnext := SameAt.nextFrame symbol a
  have hraw : ∀ raw outs, about symbol (.record (.raw raw) :: outs) = about symbol outs :=
    fun _ _ => rfl
  have hnone : ∀ {body : Body}, (parse serde bytes).body = body → (∀ ds, body ≠ .book ds) →
      stampedEntries serde symbol ⟨recvTsNs, a.connMsgSeq + 1, bytes⟩ = [] := by
    intro body hbody hne
    rw [stampedEntries, parkedEntries_of_not_book fun ds hds => hne ds (hbody ▸ hds)]
    rfl
  have hsame : kept (queue symbol a ++ List.replicate (List.length ([] : List Stamped))
      (⟨recvTsNs, a.connMsgSeq + 1, bytes⟩ : PendingFrame)) = queue symbol a := by
    rw [List.length_nil, List.replicate_zero, List.append_nil]
    exact kept_of_length_le hlen
  unfold Adapter.step
  simp only [hraw]
  cases hbody : (parse serde bytes).body with
  | book ds =>
    rw [stampedEntries_of_parse hbody, List.length_map]
    obtain ⟨hsame, hsilent, hq⟩ := park_handleEntries crates (parse serde bytes).frameType recvTsNs
      (a.connMsgSeq + 1) bytes ds { a with connMsgSeq := a.connMsgSeq + 1 } hp hlen
    exact ⟨hnext.trans hsame, hsilent, hq⟩
  | trade trades =>
    rw [hnone hbody (by simp), hsame]
    refine ⟨hnext, List.filter_eq_nil_iff.2 fun o ho => ?_, rfl⟩
    obtain ⟨t, _, rfl⟩ := List.mem_map.1 ho
    simp [concerns]
  | instrument pairs =>
    rw [hnone hbody (by simp), hsame]
    rw [framePrecision, hbody] at hprec
    have hset := Aside.setPrecisions hprec { a with connMsgSeq := a.connMsgSeq + 1 }
    simp only [Adapter.handleBody]
    generalize pairs.foldl Adapter.setPrecision _ = c at hset
    have haside : Aside symbol c (c.drainPending crates serde) :=
      Aside.drainPending (Or.inl (hset.same.precision.symm.trans hp))
    refine ⟨(hnext.trans hset.same).trans haside.same, haside.silent, ?_⟩
    rw [queue, haside.pending, hset.pending, queue]
  | other =>
    rw [hnone hbody (by simp), hsame]
    exact ⟨hnext, rfl, rfl⟩

/-- What the queue of the symbol holds after the frames. -/
def parkedFrames (serde : Serde) (symbol : String) (pfs : List PendingFrame) : List PendingFrame :=
  pfs.flatMap fun pf => List.replicate (stampedEntries serde symbol pf).length pf

theorem length_parkedFrames (pfs : List PendingFrame) :
    (parkedFrames serde symbol pfs).length = (pfs.flatMap (stampedEntries serde symbol)).length := by
  simp [parkedFrames, List.length_flatMap]

theorem park_run :
    ∀ (frames : List Frame) (a : Adapter), a.precision.get? symbol = none →
      (∀ f ∈ frames, framePrecision serde symbol f.1 = none) →
      (queue symbol a).length ≤ MAX_PENDING_FRAMES →
      let r := Mealy.run (fun a (f : Frame) => a.step crates serde f.1 f.2) a frames
      SameAt symbol a r.1 ∧ about symbol r.2 = [] ∧
        queue symbol r.1 =
          kept (queue symbol a ++ parkedFrames serde symbol (stampFrames a.connMsgSeq frames))
  | [], a, _, _, hlen => ⟨SameAt.refl _ _, rfl, by
    rw [stampFrames, parkedFrames, List.flatMap_nil, List.append_nil]
    exact (kept_of_length_le hlen).symm⟩
  | f :: fs, a, hp, hprec, hlen => by
    obtain ⟨hsame, hsilent, hq⟩ : SameAt symbol a (a.step crates serde f.1 f.2).1 ∧ _ ∧ _ :=
      park_step hp f.2 (hprec f List.mem_cons_self) hlen
    obtain ⟨hsame', hsilent', hq'⟩ : SameAt symbol (a.step crates serde f.1 f.2).1
        (Mealy.run (fun a (f : Frame) => a.step crates serde f.1 f.2)
          (a.step crates serde f.1 f.2).1 fs).1 ∧ _ ∧ _ :=
      park_run fs (a.step crates serde f.1 f.2).1 (hsame.precision ▸ hp)
        (fun g hg => hprec g (List.mem_cons_of_mem _ hg)) (by rw [hq]; exact length_kept_le _)
    rw [Mealy.run_cons]
    refine ⟨hsame.trans hsame', by rw [about_append, hsilent, hsilent']; rfl, ?_⟩
    rw [hq', hq, step_connMsgSeq, kept_append, List.append_assoc, stampFrames, parkedFrames,
      parkedFrames, List.flatMap_cons]

/-! ## Draining -/

theorem drainFrame_self {a b : Adapter} (h : SameAt symbol a b) (pf : PendingFrame) :
    let r := a.drainFrame crates serde symbol pf
    let q := applyEntries crates b (stampedEntries serde symbol pf)
    SameAt symbol r.1 q.1 ∧ about symbol r.2 = q.2 := by
  unfold stampedEntries
  rw [List.map_eq_flatMap]
  refine Mealy.run_simulation _ _ _ (p := about symbol) (q := id) (about_append symbol)
    (fun _ _ => rfl) rfl _ (fun a b d hd h => ?_) a b h
  have heq : d.symbol = symbol := symbol_of_mem_parkedEntries hd
  rw [Mealy.run_singleton, about_applyBook_self a heq]
  subst heq
  exact h.applyBook _ _ _

theorem drainPending_self {a b : Adapter} (h : SameAt symbol a b)
    (hp : (a.precision.get? symbol).isSome) :
    let r := a.drainPending crates serde
    let q := applyEntries crates b ((queue symbol a).flatMap (stampedEntries serde symbol))
    SameAt symbol r.1 q.1 ∧ about symbol r.2 = q.2 := by
  unfold Adapter.drainPending
  cases hpend : a.pending.get? symbol with
  | none =>
    have haside : Aside symbol a (Mealy.run (Adapter.drainSymbol crates serde) a a.ready) := by
      refine Aside.run _ a fun a' native hmem => Aside.drainSymbol a' fun heq => ?_
      have hkey := (List.mem_filter.1 hmem).1
      rw [heq, SortedMap.mem_keys_iff, SortedMap.contains, hpend] at hkey
      cases hkey
    rw [queue, hpend]
    exact ⟨haside.same.symm.trans h, haside.silent⟩
  | some frames =>
    have hready : symbol ∈ a.ready := by
      refine List.mem_filter.2 ⟨?_, hp⟩
      rw [SortedMap.mem_keys_iff, SortedMap.contains, hpend]
      rfl
    have hnodup : a.ready.Nodup := List.Nodup.filter _ a.pending.nodup_keys
    obtain ⟨l₁, l₂, hsplit⟩ := List.append_of_mem hready
    rw [hsplit, List.nodup_append, List.nodup_cons] at hnodup
    have hne₁ : ∀ native ∈ l₁, native ≠ symbol :=
      fun native hn => hnodup.2.2 native hn symbol List.mem_cons_self
    have hne₂ : ∀ native ∈ l₂, native ≠ symbol :=
      fun native hn heq => hnodup.2.1.1 (heq ▸ hn)
    rw [hsplit, Mealy.run_append, Mealy.run_cons]
    -- the queues before the symbol's own
    have hbefore : Aside symbol a (Mealy.run (Adapter.drainSymbol crates serde) a l₁) :=
      Aside.run l₁ a fun a' native hn => Aside.drainSymbol a' (hne₁ native hn)
    generalize Mealy.run (Adapter.drainSymbol crates serde) a l₁ = r₁ at hbefore
    -- its own
    have hown : SameAt symbol (r₁.1.drainSymbol crates serde symbol).1
          (applyEntries crates b (frames.flatMap (stampedEntries serde symbol))).1 ∧
        about symbol (r₁.1.drainSymbol crates serde symbol).2 =
          (applyEntries crates b (frames.flatMap (stampedEntries serde symbol))).2 := by
      have hstart : SameAt symbol { r₁.1 with pending := r₁.1.pending.erase symbol } b :=
        ((SameAt.setPending _ _ _).symm.trans hbefore.same.symm).trans h
      have hrun := Mealy.run_simulation (Adapter.drainFrame crates serde symbol)
        (fun a (e : Stamped) => a.applyBook crates e.data e.frameType e.recvTsNs e.connMsgSeq)
        (stampedEntries serde symbol) (R := SameAt symbol) (p := about symbol) (q := id)
        (about_append symbol) (fun _ _ => rfl) rfl frames
        (fun a b pf _ h => drainFrame_self h pf) _ b hstart
      unfold Adapter.drainSymbol
      rw [hbefore.pending, hpend]
      exact hrun
    generalize r₁.1.drainSymbol crates serde symbol = r₂ at hown
    -- and those after it
    have hafter : Aside symbol r₂.1 (Mealy.run (Adapter.drainSymbol crates serde) r₂.1 l₂) :=
      Aside.run l₂ r₂.1 fun a' native hn => Aside.drainSymbol a' (hne₂ native hn)
    rw [queue, hpend, Option.getD_some]
    refine ⟨hafter.same.symm.trans hown.1, ?_⟩
    rw [about_append, about_append, hbefore.silent, hown.2, hafter.silent, List.nil_append,
      List.append_nil]

/-- The `instrument` frame that brings the precision replays the queue. -/
theorem drain_step {a b : Adapter} {bytes : List UInt8} {precision : Nat × Nat}
    (hreg : (a.instruments.canonical symbol).isSome)
    (hb : SameAt symbol { a with precision := a.precision.insert symbol precision } b)
    (hprec : framePrecision serde symbol bytes = some precision) (recvTsNs : Int) :
    let r := a.step crates serde bytes recvTsNs
    let q := applyEntries crates b ((queue symbol a).flatMap (stampedEntries serde symbol))
    SameAt symbol r.1 q.1 ∧ about symbol r.2 = q.2 := by
  have hraw : ∀ raw outs, about symbol (.record (.raw raw) :: outs) = about symbol outs :=
    fun _ _ => rfl
  unfold Adapter.step
  simp only [hraw]
  unfold framePrecision at hprec
  cases hbody : (parse serde bytes).body with
  | instrument pairs =>
    rw [hbody] at hprec
    simp only at hprec
    have hset := Adapter.foldl_setPrecision_eq pairs { a with connMsgSeq := a.connMsgSeq + 1 }
    have hget := Adapter.get?_precision_foldl_setPrecision symbol pairs
      { a with connMsgSeq := a.connMsgSeq + 1 }
    simp only [hreg, if_true, hprec, Option.some_or] at hget
    simp only [Adapter.handleBody]
    generalize pairs.foldl Adapter.setPrecision _ = c at hset hget
    have hc : SameAt symbol c b := by
      refine ⟨?_, ?_, ?_, ?_, ?_⟩
      · rw [hset]; exact hb.instruments
      · rw [hset]; exact hb.snapshotLevels
      · rw [hset]; exact hb.connId
      · rw [hget, ← hb.precision, SortedMap.get?_insert_self]
      · rw [hset]; exact hb.books
    have hq : queue symbol c = queue symbol a := by
      rw [queue, hset, queue]
    rw [← hq]
    exact drainPending_self hc (by rw [hget]; rfl)
  | book ds => rw [hbody] at hprec; cases hprec
  | trade trades => rw [hbody] at hprec; cases hprec
  | other => rw [hbody] at hprec; cases hprec

/-! ## How often an entry is replayed -/

theorem length_flatMap_replicate (pf : PendingFrame) (k : Nat) :
    ((List.replicate k pf).flatMap (stampedEntries serde symbol)).length =
      k * (stampedEntries serde symbol pf).length := by
  simp [List.length_flatMap]

/-- A frame of `k` entries is replayed `k` times. -/
theorem length_replayed_cons (pf : PendingFrame) (pfs : List PendingFrame) :
    ((parkedFrames serde symbol (pf :: pfs)).flatMap (stampedEntries serde symbol)).length =
      (stampedEntries serde symbol pf).length * (stampedEntries serde symbol pf).length +
        ((parkedFrames serde symbol pfs).flatMap (stampedEntries serde symbol)).length := by
  rw [parkedFrames, List.flatMap_cons, List.flatMap_append, List.length_append,
    length_flatMap_replicate, parkedFrames]

theorem length_entries_le_replayed :
    ∀ pfs : List PendingFrame, (pfs.flatMap (stampedEntries serde symbol)).length ≤
      ((parkedFrames serde symbol pfs).flatMap (stampedEntries serde symbol)).length
  | [] => Nat.le_refl _
  | pf :: pfs => by
    have hrest := length_entries_le_replayed pfs
    have hsq := Nat.le_mul_self (stampedEntries serde symbol pf).length
    rw [length_replayed_cons, List.flatMap_cons, List.length_append]
    omega

/-- If nothing is replayed twice, no frame carries two entries. -/
theorem length_le_one_of_replayed :
    ∀ pfs : List PendingFrame,
      ((parkedFrames serde symbol pfs).flatMap (stampedEntries serde symbol)).length =
        (pfs.flatMap (stampedEntries serde symbol)).length →
      ∀ pf ∈ pfs, (stampedEntries serde symbol pf).length ≤ 1
  | pf :: pfs, h, pf', hmem => by
    have hrest : (pfs.flatMap (stampedEntries serde symbol)).length ≤
        ((parkedFrames serde symbol pfs).flatMap (stampedEntries serde symbol)).length :=
      length_entries_le_replayed pfs
    have hsq := Nat.le_mul_self (stampedEntries serde symbol pf).length
    rw [length_replayed_cons, List.flatMap_cons, List.length_append] at h
    rcases List.mem_cons.1 hmem with rfl | hmem
    · by_contra hgt
      have htwo : 2 * (stampedEntries serde symbol pf').length ≤
          (stampedEntries serde symbol pf').length * (stampedEntries serde symbol pf').length :=
        Nat.mul_le_mul_right _ (by omega)
      omega
    · exact length_le_one_of_replayed pfs (by omega) pf' hmem

theorem replayed_of_length_le_one :
    ∀ pfs : List PendingFrame, (∀ pf ∈ pfs, (stampedEntries serde symbol pf).length ≤ 1) →
      (parkedFrames serde symbol pfs).flatMap (stampedEntries serde symbol) =
        pfs.flatMap (stampedEntries serde symbol)
  | [], _ => rfl
  | pf :: pfs, h => by
    have hrest := replayed_of_length_le_one pfs fun pf' hmem => h pf' (List.mem_cons_of_mem _ hmem)
    have hhead := h pf List.mem_cons_self
    unfold parkedFrames at hrest ⊢
    rw [List.flatMap_cons, List.flatMap_cons, List.flatMap_append, hrest]
    congr 1
    rcases Nat.le_one_iff_eq_zero_or_eq_one.1 hhead with hzero | hone
    · rw [hzero, List.eq_nil_of_length_eq_zero hzero]
      rfl
    · rw [hone]
      simp

end Frames

/-! ## The two paths compared -/

/-- The beginning of a connection on which the precision of one symbol is already known. -/
def knownStart (instruments : Instruments) (connId symbol : String) (precision : Nat × Nat) :
    Adapter :=
  { (Adapter.new instruments).beginConnection connId with
    precision := SortedMap.empty.insert symbol precision }

def knownConnection (crates : Crates) (serde : Serde) (instruments : Instruments)
    (connId symbol : String) (precision : Nat × Nat) (frames : List Frame) : Adapter × Outputs :=
  Mealy.run (fun a (f : Frame) => a.step crates serde f.1 f.2)
    (knownStart instruments connId symbol precision) frames

/-- The stamped entries of the symbol on a connection that carries the frames, in receipt order. -/
def receivedEntries (serde : Serde) (symbol : String) (frames : List Frame) : List Stamped :=
  (stampFrames 0 frames).flatMap (stampedEntries serde symbol)

/-- Parking made no difference to the symbol: the same book with the same marks and stamps, the
    same book records and resubscribes, and every entry applied once, in receipt order. -/
structure Transparent (serde : Serde) (symbol : String) (frames : List Frame)
    (parked direct : Adapter × Outputs) : Prop where
  state : parked.1.books.get? symbol = direct.1.books.get? symbol
  records : bookRecords symbol parked.2 = bookRecords symbol direct.2
  actions : resubscribes symbol parked.2 = resubscribes symbol direct.2
  once : appliedEntries symbol parked.2 = receivedEntries serde symbol frames

section Main

variable {crates : Crates} {serde : Serde} {instruments : Instruments} {connId symbol : String}
  {precision : Nat × Nat} {frames : List Frame} {last : Frame}

theorem known_knownStart :
    ((knownStart instruments connId symbol precision).precision.get? symbol).isSome := by
  rw [knownStart, SortedMap.get?_insert_self]
  rfl

theorem known_entries (crates : Crates) (instruments : Instruments) (connId : String)
    (precision : Nat × Nat) (hprec : ∀ f ∈ frames, framePrecision serde symbol f.1 = none) :
    let r := knownConnection crates serde instruments connId symbol precision frames
    let q := applyEntries crates (knownStart instruments connId symbol precision)
      (receivedEntries serde symbol frames)
    SameAt symbol r.1 q.1 ∧ about symbol r.2 = q.2 := by
  have hstart : Direct symbol (knownStart instruments connId symbol precision)
      (knownStart instruments connId symbol precision) :=
    ⟨SameAt.refl _ _, known_knownStart, rfl⟩
  obtain ⟨hrun, hout⟩ := direct_run frames _ _ hstart hprec
  exact ⟨hrun.same, hout⟩

theorem parked_entries (crates : Crates) (connId : String)
    (hreg : (instruments.canonical symbol).isSome)
    (hprec : ∀ f ∈ frames, framePrecision serde symbol f.1 = none)
    (hlast : framePrecision serde symbol last.1 = some precision)
    (hlen : (receivedEntries serde symbol frames).length ≤ MAX_PENDING_FRAMES) :
    let r := connection crates serde instruments connId (frames ++ [last])
    let q := applyEntries crates (knownStart instruments connId symbol precision)
      ((parkedFrames serde symbol (stampFrames 0 frames)).flatMap (stampedEntries serde symbol))
    SameAt symbol r.1 q.1 ∧ about symbol r.2 = q.2 := by
  let start := (Adapter.new instruments).beginConnection connId
  have hqueue : queue symbol start = [] := rfl
  obtain ⟨hsame, hsilent, hq⟩ : SameAt symbol start
      (Mealy.run (fun a (f : Frame) => a.step crates serde f.1 f.2) start frames).1 ∧ _ ∧ _ :=
    park_run frames start rfl hprec (Nat.zero_le _)
  rw [connection, Mealy.run_concat]
  generalize Mealy.run (fun a (f : Frame) => a.step crates serde f.1 f.2) start frames = r₁
    at hsame hsilent hq
  have hknown : SameAt symbol { r₁.1 with precision := r₁.1.precision.insert symbol precision }
      (knownStart instruments connId symbol precision) :=
    ⟨hsame.instruments.symm, hsame.snapshotLevels.symm, hsame.connId.symm,
     by rw [knownStart, SortedMap.get?_insert_self, SortedMap.get?_insert_self], hsame.books.symm⟩
  obtain ⟨hdrain, hout⟩ : SameAt symbol (r₁.1.step crates serde last.1 last.2).1 _ ∧ _ :=
    drain_step (hsame.instruments ▸ hreg) hknown hlast last.2
  have hkept : kept (parkedFrames serde symbol (stampFrames 0 frames)) =
      parkedFrames serde symbol (stampFrames 0 frames) :=
    kept_of_length_le (by rw [length_parkedFrames]; exact hlen)
  have hstart : start.connMsgSeq = 0 := rfl
  rw [hq, hqueue, List.nil_append, hstart, hkept] at hdrain hout
  exact ⟨hdrain, by rw [about_append, hsilent, List.nil_append]; exact hout⟩

/-- **Parking is transparent exactly when no frame carries two entries for the symbol.**  The
    frames arrive before the `instrument` frame `last`; on the other connection the precision it
    brings was known from the beginning. -/
theorem parking_transparent_iff (hreg : (instruments.canonical symbol).isSome)
    (hprec : ∀ f ∈ frames, framePrecision serde symbol f.1 = none)
    (hlast : framePrecision serde symbol last.1 = some precision)
    (hlen : (receivedEntries serde symbol frames).length ≤ MAX_PENDING_FRAMES) :
    Transparent serde symbol frames (connection crates serde instruments connId (frames ++ [last]))
        (knownConnection crates serde instruments connId symbol precision frames) ↔
      ∀ f ∈ frames, (parkedEntries serde symbol f.1).2.length ≤ 1 := by
  obtain ⟨hparked, hparkedOut⟩ := parked_entries crates connId hreg hprec hlast hlen
  obtain ⟨hknown, hknownOut⟩ := known_entries crates instruments connId precision hprec
  have hlength : ∀ pf : PendingFrame, (stampedEntries serde symbol pf).length =
      (parkedEntries serde symbol pf.bytes).2.length := fun pf => List.length_map _
  have honce : ∀ pfs : List PendingFrame, appliedEntries symbol (applyEntries crates
      (knownStart instruments connId symbol precision)
      (pfs.flatMap (stampedEntries serde symbol))).2 = pfs.flatMap (stampedEntries serde symbol) := by
    intro pfs
    refine appliedEntries_applyEntries _ _ (fun e he => ?_) hreg known_knownStart
    obtain ⟨pf, _, he⟩ := List.mem_flatMap.1 he
    exact symbol_of_mem_stampedEntries he
  constructor
  · intro ht f hf
    have hreplay := ht.once
    rw [← appliedEntries_about, hparkedOut, honce] at hreplay
    obtain ⟨pf, hpf, hb⟩ := exists_mem_stampFrames frames 0 hf
    rw [← hb, ← hlength]
    exact length_le_one_of_replayed _ (congrArg List.length hreplay) pf hpf
  · intro hone
    have hreplay := replayed_of_length_le_one (stampFrames 0 frames) fun pf hpf => by
      obtain ⟨f, hf, hb⟩ := mem_stampFrames frames 0 hpf
      rw [hlength, hb]
      exact hone f hf
    rw [hreplay] at hparked hparkedOut
    have hout : about symbol (connection crates serde instruments connId (frames ++ [last])).2 =
        about symbol (knownConnection crates serde instruments connId symbol precision frames).2 :=
      hparkedOut.trans hknownOut.symm
    refine ⟨hparked.books.trans hknown.books.symm, ?_, ?_, ?_⟩
    · rw [← bookRecords_about, hout, bookRecords_about]
    · rw [← resubscribes_about, hout, resubscribes_about]
    · rw [← appliedEntries_about, hparkedOut, honce, receivedEntries]

end Main

/-! ## Two short connections -/

def bookFrames (fs : List (String × List BookData)) : List Frame := fs.map fun f => (bookBytes f, 1)

def instrumentFrame : Frame := (instrumentBytes btcPairs, 2)

/-- A snapshot of one bid, and one update that adds a better bid in its first entry and deletes
    the old one in its second. -/
def twoEntryFrames : List (String × List BookData) :=
  [("snapshot", [bidEntry "45000.0" "1.00000000" 1909750136]),
   ("update", [bidEntry "45001.0" "2.00000000" 2509085058, bidEntry "45000.0" "0.00000000" 2312608381])]

/-- The same entries, each in a frame of its own. -/
def oneEntryFrames : List (String × List BookData) :=
  [("snapshot", [bidEntry "45000.0" "1.00000000" 1909750136]),
   ("update", [bidEntry "45001.0" "2.00000000" 2509085058]),
   ("update", [bidEntry "45000.0" "0.00000000" 2312608381])]

/-- The replay folds the first entry onto a book without the old bid: its checksum fails, the book
    is dropped and a resubscribe goes out. -/
theorem two_entries_not_transparent :
    ¬ ∀ (crates : Crates) (serde : Serde) (instruments : Instruments) (connId symbol : String)
      (precision : Nat × Nat) (frames : List Frame) (last : Frame),
      (instruments.canonical symbol).isSome →
      (∀ f ∈ frames, framePrecision serde symbol f.1 = none) →
      framePrecision serde symbol last.1 = some precision →
      (receivedEntries serde symbol frames).length ≤ MAX_PENDING_FRAMES →
      Transparent serde symbol frames
        (connection crates serde instruments connId (frames ++ [last]))
        (knownConnection crates serde instruments connId symbol precision frames) := by
  intro h
  have ht := h (Crates.ofTimes []) (Serde.ofFrames twoEntryFrames [btcPairs]) btcUsd "c1" "BTC/USD"
    (1, 8) (bookFrames twoEntryFrames) instrumentFrame (by decide +kernel) (by decide +kernel)
    (by decide +kernel) (by decide +kernel)
  exact absurd ht.state (by decide +kernel)

theorem one_entry_transparent :
    (∀ f ∈ bookFrames oneEntryFrames, (parkedEntries (Serde.ofFrames oneEntryFrames [btcPairs])
        "BTC/USD" f.1).2.length ≤ 1) ∧
      Transparent (Serde.ofFrames oneEntryFrames [btcPairs]) "BTC/USD" (bookFrames oneEntryFrames)
        (connection (Crates.ofTimes []) (Serde.ofFrames oneEntryFrames [btcPairs]) btcUsd "c1"
          (bookFrames oneEntryFrames ++ [instrumentFrame]))
        (knownConnection (Crates.ofTimes []) (Serde.ofFrames oneEntryFrames [btcPairs]) btcUsd "c1"
          "BTC/USD" (1, 8) (bookFrames oneEntryFrames)) := by
  have hone : ∀ f ∈ bookFrames oneEntryFrames, (parkedEntries
      (Serde.ofFrames oneEntryFrames [btcPairs]) "BTC/USD" f.1).2.length ≤ 1 := by decide +kernel
  refine ⟨hone, (parking_transparent_iff ?_ ?_ ?_ ?_).2 hone⟩
  · decide +kernel
  · decide +kernel
  · decide +kernel
  · decide +kernel

end K2.Capture.Kraken

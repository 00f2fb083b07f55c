import K2Platform.Capture.Kraken.Adapter

/-!
# What `apply_book` can do

Everything later proofs need about `applyBook` is said here once, and none of them unfolds it.

* `Applied`, `applied` — the inversion: a call is skipped, ignored, verified or a mismatch, with
  the guard it met, the state it leaves and what it emits.
* `foldedBook_positive`, `length_bids_foldedBook_le`, `length_asks_foldedBook_le` — folding an
  entry keeps resting quantities positive and both sides within the subscription depth.
* `checksum_of_computed` — a checksum that compares equal is the checksum of the folded book.
* `Stable.step`, `Stable.life` — a property that every `applyBook` keeps, and that reads nothing
  the rest of a frame writes, is kept by every frame and holds over every process life.
-/

set_option autoImplicit false

namespace K2.Capture.Kraken

/-! ## Reading the outputs -/

@[simp] theorem call?_eq_some_iff {o : Output BookNote} {c : Call} :
    call? o = some c ↔ o = .note (.call c) := by
  constructor
  · intro h
    unfold call? at h
    split at h
    · cases h; rfl
    · cases h
  · rintro rfl
    rfl

theorem mem_calls {outs : Outputs} {c : Call} : c ∈ calls outs ↔ .note (.call c) ∈ outs := by
  unfold calls
  rw [List.mem_filterMap]
  constructor
  · rintro ⟨o, ho, hc⟩
    rwa [call?_eq_some_iff.1 hc] at ho
  · exact fun h => ⟨_, h, rfl⟩

@[simp] theorem calls_append (h outs : Outputs) : calls (h ++ outs) = calls h ++ calls outs :=
  List.filterMap_append

/-! ## Folding levels -/

theorem applyLevel_positive {side : BookSide} {acc : Book × Bool} (h : acc.1.Positive)
    (lvl : Level) : (applyLevel side acc lvl).1.Positive := by
  unfold applyLevel
  split
  · exact h.apply _ _ _
  · exact h

theorem foldl_applyLevel_positive {side : BookSide} :
    ∀ (lvls : List Level) {acc : Book × Bool}, acc.1.Positive →
      (lvls.foldl (applyLevel side) acc).1.Positive
  | [], _, h => h
  | lvl :: lvls, _, h => foldl_applyLevel_positive lvls (applyLevel_positive h lvl)

theorem foldedBook_positive {b : Book} (h : b.Positive) (f : BookData) (frameType : String)
    (depth : Nat) : (foldedBook b f frameType depth).Positive := by
  unfold foldedBook applyLevels
  refine Book.Positive.truncate (foldl_applyLevel_positive _ (foldl_applyLevel_positive _ ?_)) _
  split
  · exact Book.positive_empty
  · exact h

theorem length_bids_foldedBook_le (b : Book) (f : BookData) (frameType : String) (depth : Nat) :
    (foldedBook b f frameType depth).bids.length ≤ depth :=
  Book.length_bids_truncate_le _ _

theorem length_asks_foldedBook_le (b : Book) (f : BookData) (frameType : String) (depth : Nat) :
    (foldedBook b f frameType depth).asks.length ≤ depth :=
  Book.length_asks_truncate_le _ _

theorem checksum_of_computed {crates : Crates} {b : Book} {f : BookData} {frameType : String}
    {depth : Nat} {precision : Nat × Nat}
    (h : computedChecksum crates b f frameType depth precision = f.checksum) :
    Book.checksum crates (foldedBook b f frameType depth) precision = f.checksum := by
  unfold computedChecksum at h
  by_cases hok : (applyLevels (if frameType = "snapshot" then Book.empty else b) f).2 = true
  · rwa [if_pos hok] at h
  · rw [if_neg hok] at h
    exact absurd (UInt32.add_eq_left.1 h) (by decide)

/-! ## Parked frames -/

/-- A parked frame reads back as what the frame was when it arrived. -/
theorem parkedEntries_of_parse {serde : Serde} {bytes : List UInt8} {frames : List BookData}
    (h : (parse serde bytes).body = .book frames) (symbol : String) :
    parkedEntries serde symbol bytes =
      ((parse serde bytes).frameType, frames.filter (·.symbol = symbol)) := by
  unfold parse at h ⊢
  unfold parkedEntries
  cases henv : serde.envelope bytes with
  | none => rw [henv] at h; cases h
  | some e =>
    rw [henv] at h
    simp only at h ⊢
    rw [h]

theorem symbol_of_mem_parkedEntries {serde : Serde} {native : String} {bytes : List UInt8} {d : BookData}
    (hd : d ∈ (parkedEntries serde native bytes).2) : d.symbol = native := by
  unfold parkedEntries at hd
  split at hd
  · cases hd
  · split at hd
    · exact of_decide_eq_true (List.mem_filter.1 hd).2
    · cases hd

/-! ## The inversion of a call -/

namespace Adapter

variable (crates : Crates) (serde : Serde)

theorem stored_setBook (a : Adapter) (symbol native : String) (state : BookState) :
    (a.setBook symbol state).stored native = if native = symbol then state else a.stored native := by
  unfold stored setBook
  rw [SortedMap.get?_insert]
  split <;> rfl

theorem clearBook_setBook (a : Adapter) (symbol : String) (state : BookState) :
    (a.setBook symbol state).clearBook symbol =
      a.setBook symbol { state with book := Book.empty } := by
  unfold clearBook setBook
  simp only [SortedMap.get?_insert_self, SortedMap.insert_insert]

inductive Applied (a : Adapter) (f : BookData) (frameType : String) (recvTsNs connMsgSeq : Int) :
    Adapter × Outputs → Prop
  | skipped (h : a.instruments.canonical f.symbol = none ∨ a.precision.get? f.symbol = none) :
      Applied a f frameType recvTsNs connMsgSeq (a, [])
  | ignored (precision : Nat × Nat) (hp : a.precision.get? f.symbol = some precision)
      (htype : frameType = "update") (hempty : (a.stored f.symbol).book.isEmpty = true) :
      Applied a f frameType recvTsNs connMsgSeq
        (a.setBook f.symbol (a.stored f.symbol),
         [.note (.call ⟨f, frameType, recvTsNs, connMsgSeq, precision, a.stored f.symbol, .ignored⟩)])
  | verified (precision : Nat × Nat) (hp : a.precision.get? f.symbol = some precision)
      (hfold : ¬ (frameType = "update" ∧ (a.stored f.symbol).book.isEmpty = true))
      (hsum : computedChecksum crates (a.stored f.symbol).book f frameType
        (a.subscriptionDepth f.symbol) precision = f.checksum) :
      Applied a f frameType recvTsNs connMsgSeq
        (a.setBook f.symbol (foldedState crates (a.stored f.symbol) f frameType
          (a.subscriptionDepth f.symbol) recvTsNs connMsgSeq true),
         [.note (.call ⟨f, frameType, recvTsNs, connMsgSeq, precision, a.stored f.symbol, .verified⟩)])
  | mismatch (precision : Nat × Nat) (hp : a.precision.get? f.symbol = some precision)
      (hfold : ¬ (frameType = "update" ∧ (a.stored f.symbol).book.isEmpty = true))
      (hsum : computedChecksum crates (a.stored f.symbol).book f frameType
        (a.subscriptionDepth f.symbol) precision ≠ f.checksum)
      (state : BookState)
      (hstate : state = foldedState crates (a.stored f.symbol) f frameType
        (a.subscriptionDepth f.symbol) recvTsNs connMsgSeq false) :
      Applied a f frameType recvTsNs connMsgSeq
        (a.setBook f.symbol { state with book := Book.empty },
         .note (.call ⟨f, frameType, recvTsNs, connMsgSeq, precision, a.stored f.symbol, .mismatch⟩) ::
           (a.setBook f.symbol state).marked f.symbol recvTsNs ++
             [.action (.resubscribe f.symbol)])

/-- **A call of `apply_book` does one of four things.** -/
theorem applied (a : Adapter) (f : BookData) (frameType : String) (recvTsNs connMsgSeq : Int) :
    Applied crates a f frameType recvTsNs connMsgSeq
      (a.applyBook crates f frameType recvTsNs connMsgSeq) := by
  unfold applyBook
  split
  · rename_i precision _ hp
    by_cases hfold : frameType = "update" ∧ (a.stored f.symbol).book.isEmpty = true
    · simp only [foldEntry, if_pos hfold]
      exact .ignored precision hp hfold.1 hfold.2
    · by_cases hsum : computedChecksum crates (a.stored f.symbol).book f frameType
          (a.subscriptionDepth f.symbol) precision = f.checksum
      · simp only [foldEntry, if_neg hfold, if_pos hsum]
        exact .verified precision hp hfold hsum
      · simp only [foldEntry, if_neg hfold, if_neg hsum, clearBook_setBook]
        exact .mismatch precision hp hfold hsum _ rfl
  · rename_i hskip
    refine .skipped ?_
    cases hc : a.instruments.canonical f.symbol with
    | none => exact Or.inl rfl
    | some c =>
      cases hp : a.precision.get? f.symbol with
      | none => exact Or.inr rfl
      | some p => exact absurd hp (hskip c p hc)

theorem marked_spec {a : Adapter} {symbol : String} {recvTsNs : Int} {o : Output BookNote}
    (h : o ∈ a.marked symbol recvTsNs) :
    ∃ b, o = .record (.book b) ∧ b.symbol = symbol ∧ b.checksumOk = (a.stored symbol).checksumOk := by
  unfold marked at h
  obtain ⟨b, hb, rfl⟩ := List.mem_map.1 h
  refine ⟨b, rfl, ?_⟩
  rw [Option.mem_toList, snapshot] at hb
  unfold stored
  split at hb
  · cases hb
  · rename_i state hstate
    rw [hstate]
    split at hb
    · cases hb
    · split at hb
      · cases hb
      · cases hb
        exact ⟨rfl, rfl⟩

theorem applyBook_fst (a : Adapter) (f : BookData) (frameType : String) (recvTsNs n : Int) :
    (a.applyBook crates f frameType recvTsNs n).1 =
      { a with books := (a.applyBook crates f frameType recvTsNs n).1.books } := by
  have happlied := applied crates a f frameType recvTsNs n
  generalize a.applyBook crates f frameType recvTsNs n = r at happlied
  cases happlied <;> rfl

theorem get?_books_applyBook_of_ne (a : Adapter) {f : BookData} (frameType : String)
    (recvTsNs n : Int) {symbol : String} (hne : f.symbol ≠ symbol) :
    (a.applyBook crates f frameType recvTsNs n).1.books.get? symbol = a.books.get? symbol := by
  have happlied := applied crates a f frameType recvTsNs n
  generalize a.applyBook crates f frameType recvTsNs n = r at happlied
  cases happlied with
  | skipped _ => rfl
  | ignored => exact SortedMap.get?_insert_of_ne _ _ (Ne.symm hne)
  | verified => exact SortedMap.get?_insert_of_ne _ _ (Ne.symm hne)
  | mismatch => exact SortedMap.get?_insert_of_ne _ _ (Ne.symm hne)

/-- The three things a call can emit, all about the symbol of its entry. -/
theorem mem_applyBook {a : Adapter} {f : BookData} {frameType : String} {recvTsNs n : Int}
    {o : Output BookNote} (ho : o ∈ (a.applyBook crates f frameType recvTsNs n).2) :
    (∃ c, o = .note (.call c) ∧ c.data = f) ∨
      (∃ b, o = .record (.book b) ∧ b.symbol = f.symbol) ∨
      o = .action (.resubscribe f.symbol) := by
  have happlied := applied crates a f frameType recvTsNs n
  generalize a.applyBook crates f frameType recvTsNs n = r at happlied ho
  cases happlied with
  | skipped _ => cases ho
  | ignored => exact Or.inl ⟨_, List.mem_singleton.1 ho, rfl⟩
  | verified => exact Or.inl ⟨_, List.mem_singleton.1 ho, rfl⟩
  | mismatch =>
    simp only [List.cons_append, List.mem_cons, List.mem_append, List.not_mem_nil, or_false] at ho
    rcases ho with rfl | ho | rfl
    · exact Or.inl ⟨_, rfl, rfl⟩
    · obtain ⟨b, rfl, hb, _⟩ := marked_spec ho
      exact Or.inr (Or.inl ⟨b, rfl, hb⟩)
    · exact Or.inr (Or.inr rfl)

/-! ## What the rest of a frame leaves alone -/

theorem run_fst {ι : Type} {step : Adapter → ι → Adapter × Outputs}
    (hstep : ∀ a i, (step a i).1 = { a with books := (step a i).1.books }) :
    ∀ (is : List ι) (a : Adapter),
      (Mealy.run step a is).1 = { a with books := (Mealy.run step a is).1.books }
  | [], _ => rfl
  | i :: is, a => by
    have hrest := run_fst hstep is (step a i).1
    have hhead := hstep a i
    rw [Mealy.run_cons]
    generalize (Mealy.run step (step a i).1 is).1 = x at hrest ⊢
    generalize (step a i).1 = y at hrest hhead
    exact hrest.trans (by rw [hhead])

theorem drainFrame_fst (symbol : String) (a : Adapter) (pf : PendingFrame) :
    (a.drainFrame crates serde symbol pf).1 =
      { a with books := (a.drainFrame crates serde symbol pf).1.books } :=
  run_fst (fun a d => applyBook_fst crates a d _ _ _) _ a

theorem drainSymbol_fst (a : Adapter) (symbol : String) :
    (a.drainSymbol crates serde symbol).1 =
      { a with
        books := (a.drainSymbol crates serde symbol).1.books
        pending := a.pending.erase symbol } := by
  unfold drainSymbol
  cases hget : a.pending.get? symbol with
  | none =>
    have herase : a.pending.erase symbol = a.pending := SortedMap.ext_get? fun k => by
      rw [SortedMap.get?_erase]
      split
      · rename_i heq
        rw [heq, hget]
      · rfl
    rw [herase]
  | some frames => exact run_fst (drainFrame_fst crates serde symbol) frames _

theorem foldl_setPrecision_eq :
    ∀ (pairs : List PairInfo) (a : Adapter), pairs.foldl setPrecision a =
      { a with precision := (pairs.foldl setPrecision a).precision }
  | [], _ => rfl
  | p :: pairs, a => by
    have hrest := foldl_setPrecision_eq pairs (a.setPrecision p)
    rw [List.foldl_cons]
    generalize pairs.foldl setPrecision (a.setPrecision p) = x at hrest ⊢
    refine hrest.trans ?_
    unfold setPrecision
    split <;> rfl

theorem pairPrecision_cons (p : PairInfo) (pairs : List PairInfo) (symbol : String) :
    pairPrecision (p :: pairs) symbol =
      (pairPrecision pairs symbol).or
        (if p.symbol = symbol then some (p.pricePrecision, p.qtyPrecision) else none) := by
  unfold pairPrecision
  rw [List.reverse_cons, List.find?_append]
  cases pairs.reverse.find? (·.symbol = symbol) with
  | some _ => rfl
  | none =>
    by_cases h : p.symbol = symbol
    · simp [h]
    · simp [h]

/-- An `instrument` frame sets the precision of registered symbols only. -/
theorem get?_precision_foldl_setPrecision (symbol : String) :
    ∀ (pairs : List PairInfo) (a : Adapter),
      (pairs.foldl setPrecision a).precision.get? symbol =
        if (a.instruments.canonical symbol).isSome then
          (pairPrecision pairs symbol).or (a.precision.get? symbol)
        else a.precision.get? symbol
  | [], a => by
    rw [List.foldl_nil]
    split <;> rfl
  | p :: pairs, a => by
    have hins : (a.setPrecision p).instruments = a.instruments := by
      unfold setPrecision
      split <;> rfl
    rw [List.foldl_cons, get?_precision_foldl_setPrecision symbol pairs, hins, pairPrecision_cons]
    unfold setPrecision
    by_cases heq : p.symbol = symbol
    · subst heq
      by_cases hreg : (a.instruments.canonical p.symbol).isSome
      · simp only [hreg, if_true, SortedMap.get?_insert_self]
        cases pairPrecision pairs p.symbol <;> rfl
      · simp only [hreg]
        rfl
    · rw [if_neg heq, Option.or_none]
      by_cases hreg : (a.instruments.canonical p.symbol).isSome
      · rw [if_pos hreg]
        simp only [SortedMap.get?_insert_of_ne _ _ (Ne.symm heq)]
      · rw [if_neg hreg]

/-! ## Properties kept by every command -/

/-- An output that is neither a call of `apply_book`, nor a book record, nor an action. -/
def Quiet (o : Output BookNote) : Prop :=
  (∀ c, o ≠ .note (.call c)) ∧ (∀ b, o ≠ .record (.book b)) ∧ ∀ act, o ≠ .action act

/-- `J` relates what has been emitted to the state, reads only the instruments and the books of
    the state, and is kept by every call of `apply_book`. -/
structure Stable (J : Outputs → Adapter → Prop) : Prop where
  quiet : ∀ (h outs : Outputs) (a a' : Adapter), a'.instruments = a.instruments →
    a'.books = a.books → (∀ o ∈ outs, Quiet o) → J h a → J (h ++ outs) a'
  apply : ∀ (h : Outputs) (a : Adapter) (f : BookData) (frameType : String) (recvTsNs n : Int),
    J h a → J (h ++ (a.applyBook crates f frameType recvTsNs n).2)
      (a.applyBook crates f frameType recvTsNs n).1

namespace Stable

variable {crates} {J : Outputs → Adapter → Prop} (hJ : Stable crates J)
include hJ

theorem handleEntry {h : Outputs} {a : Adapter} (frameType : String) (recvTsNs n : Int)
    (bytes : List UInt8) (f : BookData) (hj : J h a) :
    J (h ++ (a.handleEntry crates frameType recvTsNs n bytes f).2)
      (a.handleEntry crates frameType recvTsNs n bytes f).1 := by
  have hnote : ∀ o ∈ [Output.note (BookNote.received f.symbol frameType)], Quiet o := by
    simp [Quiet]
  unfold Adapter.handleEntry
  split
  · have := hJ.apply _ a f frameType recvTsNs n (hJ.quiet h _ a a rfl rfl hnote hj)
    rwa [List.append_assoc] at this
  · exact hJ.quiet h _ a _ rfl rfl hnote hj

theorem drainFrame {h : Outputs} {a : Adapter} (symbol : String) (pf : PendingFrame) (hj : J h a) :
    J (h ++ (a.drainFrame crates serde symbol pf).2) (a.drainFrame crates serde symbol pf).1 :=
  Mealy.run_history _ (fun h a d hj => hJ.apply h a d _ _ _ hj) _ h a hj

theorem drainSymbol {h : Outputs} {a : Adapter} (symbol : String) (hj : J h a) :
    J (h ++ (a.drainSymbol crates serde symbol).2) (a.drainSymbol crates serde symbol).1 := by
  unfold Adapter.drainSymbol
  split
  · simpa using hj
  · rename_i frames _
    have hnote := hJ.quiet h [.note (.drained symbol (oldestType serde symbol frames))] a
      { a with pending := a.pending.erase symbol } rfl rfl (by simp [Quiet]) hj
    have hrun := Mealy.run_history (Adapter.drainFrame crates serde symbol)
      (fun h a pf hj => hJ.drainFrame serde symbol pf hj) frames _ _ hnote
    rwa [List.append_assoc, List.singleton_append] at hrun

theorem setPrecision {h : Outputs} {a : Adapter} (p : PairInfo) (hj : J h a) :
    J h (a.setPrecision p) := by
  unfold Adapter.setPrecision
  split
  · have := hJ.quiet h [] a { a with
      precision := a.precision.insert p.symbol (p.pricePrecision, p.qtyPrecision) } rfl rfl
      (by simp) hj
    rwa [List.append_nil] at this
  · exact hj

theorem foldl_setPrecision {h : Outputs} :
    ∀ (pairs : List PairInfo) {a : Adapter}, J h a → J h (pairs.foldl Adapter.setPrecision a)
  | [], _, hj => hj
  | p :: pairs, _, hj => foldl_setPrecision pairs (hJ.setPrecision p hj)

theorem handleBody {h : Outputs} {a : Adapter} (frameType : String) (recvTsNs : Int)
    (bytes : List UInt8) (body : Body) (hj : J h a) :
    J (h ++ (a.handleBody crates serde frameType recvTsNs bytes body).2)
      (a.handleBody crates serde frameType recvTsNs bytes body).1 := by
  cases body with
  | book frames =>
    exact Mealy.run_history _ (fun h a f hj => hJ.handleEntry _ _ _ _ f hj) frames h a hj
  | trade trades =>
    refine hJ.quiet h _ a _ rfl rfl (fun o ho => ?_) hj
    obtain ⟨t, _, rfl⟩ := List.mem_map.1 ho
    simp [Quiet]
  | instrument pairs =>
    exact Mealy.run_history _ (fun h a s hj => hJ.drainSymbol serde s hj) _ h _
      (hJ.foldl_setPrecision pairs hj)
  | other => simpa [Adapter.handleBody] using hj

theorem step {h : Outputs} {a : Adapter} (bytes : List UInt8) (recvTsNs : Int) (hj : J h a) :
    J (h ++ (a.step crates serde bytes recvTsNs).2) (a.step crates serde bytes recvTsNs).1 := by
  let a' := { a with connMsgSeq := a.connMsgSeq + 1 }
  have hraw := hJ.quiet h [.record (.raw (a'.rawRecord (parse serde bytes) bytes recvTsNs))] a a'
    rfl rfl (by simp [Quiet]) hj
  have hbody := hJ.handleBody serde (parse serde bytes).frameType recvTsNs bytes
    (parse serde bytes).body hraw
  rwa [List.append_assoc, List.singleton_append] at hbody

theorem exec {h : Outputs} {a : Adapter} (hbegin : ∀ h a connId, J h a → J h (beginConnection a connId))
    (cmd : Command) (hj : J h a) :
    J (h ++ (Kraken.exec crates serde a cmd).2) (Kraken.exec crates serde a cmd).1 := by
  cases cmd with
  | setSnapshotDepth depth => exact hJ.quiet h [] a _ rfl rfl (by simp) hj
  | beginConnection connId =>
    rw [Kraken.exec, List.append_nil]
    exact hbegin h a connId hj
  | handleFrame bytes recvTsNs => exact hJ.step serde bytes recvTsNs hj

/-- **A stable property that `begin_connection` keeps holds over a whole process life.** -/
theorem life (hbegin : ∀ h a connId, J h a → J h (beginConnection a connId))
    (instruments : Instruments) (hnew : J [] (Adapter.new instruments)) (cmds : List Command) :
    J (Kraken.life crates serde instruments cmds).2 (Kraken.life crates serde instruments cmds).1 := by
  have := Mealy.run_history (Kraken.exec crates serde) (fun h a cmd hj => hJ.exec serde hbegin cmd hj)
    cmds [] _ hnew
  rwa [List.nil_append] at this

end Stable

end Adapter

end K2.Capture.Kraken

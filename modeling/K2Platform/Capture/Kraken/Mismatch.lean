import K2Platform.Capture.Kraken.Waiting
import K2Platform.Capture.Kraken.Resync
import K2Platform.Capture.RawRecords

/-!
# Accounting for mismatches

Every entry whose verification fails asks for one resubscription of its symbol and is marked by one
record of its book, unless the entry leaves no level in the book, of which `snapshot` then makes no
record, or is an entry of a `snapshot` that waits in several copies.

* `Accounted` — outputs in which every mismatch is followed by its record and its resubscription,
  and which have no other records of books and no other actions.
* `mismatches_accounted_iff` — when a connection is so accounted for.
* `empty_mismatch_not_marked` — a snapshot whose only level does not parse is not.
* `parked_mismatch_repeated` — nor are two entries of a snapshot that is parked.
-/

set_option autoImplicit false

namespace K2.Capture.Kraken

/-! ## What is said of a run -/

/-- The book that an entry leaves, before a mismatch clears it. -/
def Call.folded (instruments : Instruments) (c : Call) : Book :=
  foldedBook c.before.book c.data c.frameType
    ((Adapter.new instruments).subscriptionDepth c.data.symbol)

/-- The record that marks an entry. -/
structure Marks (c : Call) (b : BookSnapshotRecord) : Prop where
  symbol : b.symbol = c.data.symbol
  flagged : b.checksumOk = some false
  recvTsNs : b.recvTsNs = c.recvTsNs
  connMsgSeq : b.connMsgSeq = c.connMsgSeq

/-- Neither a mismatch, nor the record of a book, nor an action. -/
def Uneventful : Output BookNote → Prop
  | .note (.call c) => c.outcome ≠ .mismatch
  | .record (.book _) => False
  | .action _ => False
  | _ => True

inductive Accounted : Outputs → Prop
  | nil : Accounted []
  | uneventful {o : Output BookNote} {outs : Outputs} (ho : Uneventful o) (rest : Accounted outs) :
      Accounted (o :: outs)
  | mismatch {c : Call} {b : BookSnapshotRecord} {outs : Outputs} (hc : c.outcome = .mismatch)
      (hb : Marks c b) (rest : Accounted outs) :
      Accounted (.note (.call c) :: .record (.book b) ::
        .action (.resubscribe c.data.symbol) :: outs)

/-- The raw record of the frame that an entry came in. -/
structure FrameOf (serde : Serde) (c : Call) (r : RawMessageRecord) : Prop where
  recvTsNs : r.recvTsNs = c.recvTsNs
  connMsgSeq : r.connMsgSeq = c.connMsgSeq
  frameType : (parse serde r.payload).frameType = c.frameType
  entry : ∃ ds, (parse serde r.payload).body = .book ds ∧ c.data ∈ ds

/-- Every entry comes after the raw record of its frame. -/
def Recorded (serde : Serde) (outs : Outputs) : Prop :=
  Trace.Everywhere (fun pre o => ∀ c ∈ call? o, ∃ r, .record (.raw r) ∈ pre ∧ FrameOf serde c r) outs

/-- A `snapshot` entry of the symbol has been processed. -/
def SnapshotOf (symbol : String) (o : Output BookNote) : Prop :=
  ∃ c ∈ call? o, c.data.symbol = symbol ∧ c.frameType = "snapshot"

/-- Since every earlier resubscription of the symbol a `snapshot` entry has been processed. -/
def Renewed (symbol : String) (outs : Outputs) : Prop :=
  Trace.Answered (· = .action (.resubscribe symbol)) (SnapshotOf symbol) outs

/-- No symbol is resubscribed twice without a `snapshot` entry in between. -/
def Separated (outs : Outputs) : Prop :=
  Trace.Everywhere (fun pre o => ∀ symbol, o = .action (.resubscribe symbol) → Renewed symbol pre)
    outs

/-- How often an entry failed its verification. -/
def failures (outs : Outputs) (e : Stamped) : Nat :=
  (callsFor e.data.symbol outs).countP fun c => c.outcome = .mismatch ∧ c.stamped = e

structure MismatchesAccounted (serde : Serde) (frames : List Frame) (outs : Outputs) : Prop where
  accounted : Accounted outs
  /-- No entry of a frame fails twice. -/
  once : ∀ e, failures outs e ≤ carried serde frames e
  recorded : Recorded serde outs
  separated : Separated outs

/-! ## Records and resubscriptions -/

theorem Accounted.append {h o : Outputs} (hh : Accounted h) (ho : Accounted o) :
    Accounted (h ++ o) := by
  induction hh with
  | nil => exact ho
  | uneventful hx _ ih => exact .uneventful hx ih
  | mismatch hc hb _ ih => exact .mismatch hc hb ih

theorem accounted_of_uneventful {outs : Outputs} (h : ∀ o ∈ outs, Uneventful o) :
    Accounted outs := by
  induction outs with
  | nil => exact .nil
  | cons o outs ih =>
    obtain ⟨ho, hrest⟩ := List.forall_mem_cons.1 h
    exact .uneventful ho (ih hrest)

theorem uneventful_of_quiet {o : Output BookNote} (h : Adapter.Quiet o) : Uneventful o := by
  obtain ⟨hcall, hbook, haction⟩ := h
  cases o with
  | note n =>
    cases n with
    | call c => exact absurd rfl (hcall c)
    | received => trivial
    | drained => trivial
  | record r =>
    cases r with
    | book b => exact absurd rfl (hbook b)
    | trade => trivial
    | raw => trivial
  | action act => exact absurd rfl (haction act)

/-- The mismatches among the calls. -/
def mismatches (outs : Outputs) : List Call := (calls outs).filter fun c => c.outcome = .mismatch

def books (outs : Outputs) : List BookSnapshotRecord :=
  outs.filterMap fun o => match o with
    | .record (.book b) => some b
    | _ => none

@[simp] theorem mismatches_append (h o : Outputs) :
    mismatches (h ++ o) = mismatches h ++ mismatches o := by
  simp [mismatches]

@[simp] theorem books_append (h o : Outputs) : books (h ++ o) = books h ++ books o :=
  List.filterMap_append

/-- Outputs that are accounted for have a record for every mismatch. -/
theorem Accounted.length_books {outs : Outputs} (h : Accounted outs) :
    (books outs).length = (mismatches outs).length := by
  induction h with
  | nil => rfl
  | @uneventful o outs ho _ ih =>
    have hbooks : books (o :: outs) = books outs := by
      cases o with
      | record r =>
        cases r with
        | book => exact absurd ho id
        | trade => rfl
        | raw => rfl
      | action => rfl
      | note => rfl
    have hmismatches : mismatches (o :: outs) = mismatches outs := by
      cases o with
      | note n =>
        cases n with
        | call c =>
          have hc : ¬ c.outcome = .mismatch := ho
          exact List.filter_cons_of_neg (by simpa using hc)
        | received => rfl
        | drained => rfl
      | record => rfl
      | action => rfl
    rw [hbooks, hmismatches]
    exact ih
  | @mismatch c b outs hc _ _ ih =>
    have hmismatches : mismatches (.note (.call c) :: .record (.book b) ::
        .action (.resubscribe c.data.symbol) :: outs) = c :: mismatches outs :=
      List.filter_cons_of_pos (by simpa using hc)
    have hbooks : books (.note (.call c) :: .record (.book b) ::
        .action (.resubscribe c.data.symbol) :: outs) = b :: books outs := rfl
    rw [hmismatches, hbooks, List.length_cons, List.length_cons, ih]

/-! ### One call -/

section Marked

variable {a : Adapter} {symbol : String}

theorem marked_of_isEmpty (h : (a.stored symbol).book.isEmpty = true) (recvTsNs : Int) :
    a.marked symbol recvTsNs = [] := by
  unfold Adapter.marked Adapter.snapshot
  unfold Adapter.stored at h
  cases hget : a.books.get? symbol with
  | none => rfl
  | some state =>
    rw [hget, Option.getD_some] at h
    simp [h]

theorem marked_of_not_isEmpty (hreg : (a.instruments.canonical symbol).isSome)
    (h : (a.stored symbol).book.isEmpty = false) (recvTsNs : Int) :
    ∃ b, a.marked symbol recvTsNs = [.record (.book b)] ∧ b.symbol = symbol ∧
      b.checksumOk = (a.stored symbol).checksumOk ∧ b.recvTsNs = (a.stored symbol).lastRecvTsNs ∧
      b.connMsgSeq = (a.stored symbol).lastConnMsgSeq := by
  obtain ⟨canonical, hcanonical⟩ := Option.isSome_iff_exists.1 hreg
  unfold Adapter.marked Adapter.snapshot
  unfold Adapter.stored at h ⊢
  cases hget : a.books.get? symbol with
  | none =>
    rw [hget] at h
    cases h
  | some state =>
    rw [hget, Option.getD_some] at h
    simp only [h, hcanonical]
    exact ⟨_, rfl, rfl, rfl, rfl, rfl⟩

end Marked

/-- Every mismatch so far is accounted for, unless one left an empty book; those that did have no
    record. -/
structure AccountedUpTo (instruments : Instruments) (h : Outputs) (a : Adapter) : Prop where
  instruments_eq : a.instruments = instruments
  accounted : (∀ c ∈ mismatches h, (c.folded instruments).isEmpty = false) → Accounted h
  records : (books h).length =
    (mismatches h).countP fun c => (c.folded instruments).isEmpty = false

/-- A call that is no mismatch. -/
theorem AccountedUpTo.quiet {instruments : Instruments} {h : Outputs} {a a' : Adapter}
    (hj : AccountedUpTo instruments h a) (ha : a'.instruments = a.instruments) {outs : Outputs}
    (houts : ∀ o ∈ outs, Uneventful o) : AccountedUpTo instruments (h ++ outs) a' := by
  have hacc := accounted_of_uneventful houts
  have hnone : mismatches outs = [] := by
    refine List.filter_eq_nil_iff.2 fun c hc hmis => ?_
    exact houts _ (mem_calls.1 hc) (of_decide_eq_true hmis)
  have hbooks : books outs = [] := by
    have hlength := hacc.length_books
    rw [hnone] at hlength
    exact List.length_eq_zero_iff.1 hlength
  refine ⟨ha.trans hj.instruments_eq, fun hall => ?_, ?_⟩
  · rw [mismatches_append, hnone, List.append_nil] at hall
    exact (hj.accounted hall).append hacc
  · rw [books_append, mismatches_append, hbooks, hnone, List.append_nil, List.append_nil]
    exact hj.records

theorem accounted_stable (crates : Crates) (instruments : Instruments) :
    Adapter.Stable crates (AccountedUpTo instruments) where
  quiet := fun h outs a a' hinst _ hquiet hj =>
    hj.quiet hinst fun o ho => uneventful_of_quiet (hquiet o ho)
  apply := by
    intro h a f frameType recvTsNs n hj
    cases hreg : a.instruments.canonical f.symbol with
    | none =>
      rw [applyBook_of_unregistered hreg, List.append_nil]
      exact hj
    | some canonical =>
      have happlied := Adapter.applied crates a f frameType recvTsNs n
      generalize a.applyBook crates f frameType recvTsNs n = r at happlied
      cases happlied with
      | skipped _ =>
        rw [List.append_nil]
        exact hj
      | ignored precision =>
        refine hj.quiet (rfl : (a.setBook f.symbol _).instruments = a.instruments) fun o ho => ?_
        rw [List.mem_singleton.1 ho]
        exact Outcome.noConfusion
      | verified precision =>
        refine hj.quiet (rfl : (a.setBook f.symbol _).instruments = a.instruments) fun o ho => ?_
        rw [List.mem_singleton.1 ho]
        exact Outcome.noConfusion
      | mismatch precision hp hfold hsum state hstate =>
        set c : Call := ⟨f, frameType, recvTsNs, n, precision, a.stored f.symbol, .mismatch⟩ with hc
        have hstored : (a.setBook f.symbol state).stored f.symbol = state := by
          rw [Adapter.stored_setBook, if_pos rfl]
        have hfolded : state.book = c.folded instruments := by
          rw [hstate, Call.folded, ← hj.instruments_eq]
          rfl
        by_cases hempty : (c.folded instruments).isEmpty = true
        · -- `snapshot` makes no record of an empty book
          have hmarked : (a.setBook f.symbol state).marked f.symbol recvTsNs = [] :=
            marked_of_isEmpty (by rw [hstored, hfolded]; exact hempty) recvTsNs
          rw [hmarked]
          have hmis : mismatches (.note (.call c) :: [] ++ [.action (.resubscribe f.symbol)]) = [c] :=
            rfl
          have hbooks : books (.note (.call c) :: [] ++ [.action (.resubscribe f.symbol)]) = [] := rfl
          refine ⟨hj.instruments_eq, fun hall => ?_, ?_⟩
          · have hne := hall c (by rw [mismatches_append, hmis]; simp)
            rw [hempty] at hne
            cases hne
          · simp only [books_append, mismatches_append, hmis, hbooks, List.append_nil, hj.records,
              List.countP_append, List.countP_singleton]
            simp [hempty]
        · rw [Bool.not_eq_true] at hempty
          have hreg' : ((a.setBook f.symbol state).instruments.canonical f.symbol).isSome := by
            show (a.instruments.canonical f.symbol).isSome
            rw [hreg]
            rfl
          obtain ⟨b, hmarked, hsymbol, hok, hrecv, hseq⟩ := marked_of_not_isEmpty hreg'
            (by rw [hstored, hfolded]; exact hempty) recvTsNs
          rw [hstored, hstate] at hok hrecv hseq
          have hmarks : Marks c b := ⟨hsymbol, hok, hrecv, hseq⟩
          rw [hmarked]
          have htriple : Accounted (.note (.call c) :: [.record (.book b)] ++
              [.action (.resubscribe f.symbol)]) := .mismatch rfl hmarks .nil
          have hmis : mismatches (.note (.call c) :: [.record (.book b)] ++
              [.action (.resubscribe f.symbol)]) = [c] := rfl
          have hbooks : books (.note (.call c) :: [.record (.book b)] ++
              [.action (.resubscribe f.symbol)]) = [b] := rfl
          refine ⟨hj.instruments_eq, fun hall => ?_, ?_⟩
          · refine (hj.accounted fun d hd => hall d ?_).append htriple
            rw [mismatches_append]
            exact List.mem_append_left _ hd
          · simp only [books_append, mismatches_append, hmis, hbooks, List.length_append, hj.records,
              List.countP_append, List.countP_singleton]
            simp [hempty]

/-! ## Between two resubscriptions -/

/-- The symbol has been renewed since its last resubscription, or its book is empty. -/
structure SeparatedUpTo (h : Outputs) (a : Adapter) : Prop where
  separated : Separated h
  renewed : ∀ symbol, Renewed symbol h ∨ (a.stored symbol).book.isEmpty = true

theorem Renewed.append {symbol : String} {h outs : Outputs} (hr : Renewed symbol h)
    (houts : ∀ o ∈ outs, o ≠ .action (.resubscribe symbol)) : Renewed symbol (h ++ outs) :=
  Trace.Answered.append hr houts

theorem separated_append_of_forall {h outs : Outputs} (hs : Separated h)
    (houts : ∀ o ∈ outs, ∀ symbol, o ≠ .action (.resubscribe symbol)) : Separated (h ++ outs) :=
  hs.append_of_forall fun o ho _ symbol hsymbol => absurd hsymbol (houts o ho symbol)

/-- The entries of a history are snapshots and updates. -/
def Typed (h : Outputs) : Prop := ∀ c ∈ calls h, c.frameType = "snapshot" ∨ c.frameType = "update"

theorem separated_stable (crates : Crates) :
    Adapter.Stable crates fun h a => Typed h → SeparatedUpTo h a where
  quiet := by
    intro h outs a a' _ hbooks hquiet hj htyped
    have hno : ∀ o ∈ outs, ∀ symbol, o ≠ .action (.resubscribe symbol) := fun o ho symbol =>
      (hquiet o ho).2.2 (.resubscribe symbol)
    obtain ⟨hs, hr⟩ := hj fun c hc => htyped c (by rw [calls_append]; exact List.mem_append_left _ hc)
    refine ⟨separated_append_of_forall hs hno, fun symbol => ?_⟩
    have hstored : a'.stored symbol = a.stored symbol := by
      rw [Adapter.stored, Adapter.stored, hbooks]
    rw [hstored]
    exact (hr symbol).imp_left fun hr => hr.append fun o ho => hno o ho symbol
  apply := by
    intro h a f frameType recvTsNs n hj htyped
    have happlied := Adapter.applied crates a f frameType recvTsNs n
    generalize a.applyBook crates f frameType recvTsNs n = r at happlied htyped ⊢
    obtain ⟨hs, hr⟩ := hj fun c hc => htyped c (by rw [calls_append]; exact List.mem_append_left _ hc)
    -- a call that folds its entry in leaves its symbol renewed
    have hrenewed : ∀ c : Call, c.data = f → c.frameType = frameType → c ∈ calls r.2 →
        ¬ (frameType = "update" ∧ (a.stored f.symbol).book.isEmpty = true) →
        Renewed f.symbol (h ++ [.note (.call c)]) := by
      intro c hdata htype hmem hfold
      rcases htyped c (by rw [calls_append]; exact List.mem_append_right _ hmem) with ht | ht
      · refine Trace.answered_concat ⟨c, rfl, by rw [hdata], ht⟩ ?_
        intro heq
        cases heq
      · rw [htype] at ht
        have hsome : Renewed f.symbol h := (hr f.symbol).resolve_right fun he => hfold ⟨ht, he⟩
        exact hsome.append (by simp)
    have hothers : ∀ {symbol : String} {state : BookState} {outs : Outputs}, symbol ≠ f.symbol →
        (∀ o ∈ outs, o ≠ .action (.resubscribe symbol)) →
        Renewed symbol (h ++ outs) ∨
          ((a.setBook f.symbol state).stored symbol).book.isEmpty = true := by
      intro symbol state outs hne houts
      rw [Adapter.stored_setBook, if_neg hne]
      exact (hr symbol).imp_left fun hr => hr.append houts
    cases happlied with
    | skipped _ =>
      rw [List.append_nil]
      exact ⟨hs, hr⟩
    | ignored precision hp htype hempty =>
      refine ⟨separated_append_of_forall hs (by simp), fun symbol => ?_⟩
      by_cases hsymbol : symbol = f.symbol
      · subst hsymbol
        refine Or.inr ?_
        rw [Adapter.stored_setBook, if_pos rfl]
        exact hempty
      · exact hothers hsymbol (by simp)
    | verified precision hp hfold hsum =>
      refine ⟨separated_append_of_forall hs (by simp), fun symbol => ?_⟩
      by_cases hsymbol : symbol = f.symbol
      · subst hsymbol
        exact Or.inl (hrenewed _ rfl rfl (mem_calls.2 List.mem_cons_self) hfold)
      · exact hothers hsymbol (by simp)
    | mismatch precision hp hfold hsum state hstate =>
      have hmarked : ∀ o ∈ (a.setBook f.symbol state).marked f.symbol recvTsNs, ∀ symbol,
          o ≠ .action (.resubscribe symbol) := by
        intro o ho symbol
        obtain ⟨b, rfl, _⟩ := Adapter.marked_spec ho
        intro heq
        cases heq
      have hcall := hrenewed _ rfl rfl (mem_calls.2 List.mem_cons_self) hfold
      refine ⟨?_, fun symbol => ?_⟩
      · have hbefore : Separated (h ++ [.note (.call
            ⟨f, frameType, recvTsNs, n, precision, a.stored f.symbol, .mismatch⟩)]) :=
          separated_append_of_forall hs (by simp)
        have hmark := separated_append_of_forall hbefore hmarked
        rw [← List.append_assoc, List.append_cons h]
        refine Trace.everywhere_concat.2 ⟨hmark, fun symbol hsymbol => ?_⟩
        cases hsymbol
        exact hcall.append fun o ho => hmarked o ho f.symbol
      · by_cases hsymbol : symbol = f.symbol
        · subst hsymbol
          refine Or.inr ?_
          rw [Adapter.stored_setBook, if_pos rfl]
          rfl
        · refine hothers hsymbol fun o ho => ?_
          rcases List.mem_append.1 ho with ho | ho
          · rcases List.mem_cons.1 ho with rfl | ho
            · intro heq
              cases heq
            · exact hmarked o ho symbol
          · rw [List.mem_singleton.1 ho]
            intro heq
            cases heq
            exact hsymbol rfl

/-! ## After the raw record -/

/-- The raw record of a frame, in a history. -/
def RecordOf (h : Outputs) (bytes : List UInt8) (recvTsNs connMsgSeq : Int) : Prop :=
  ∃ r, .record (.raw r) ∈ h ∧ r.payload = bytes ∧ r.recvTsNs = recvTsNs ∧ r.connMsgSeq = connMsgSeq

theorem RecordOf.append {h : Outputs} {bytes : List UInt8} {recvTsNs n : Int}
    (hr : RecordOf h bytes recvTsNs n) (outs : Outputs) : RecordOf (h ++ outs) bytes recvTsNs n := by
  obtain ⟨r, hmem, hr⟩ := hr
  exact ⟨r, List.mem_append_left _ hmem, hr⟩

/-- The entries so far come after their raw records, and so do those of the frames that wait. -/
structure RecordedUpTo (serde : Serde) (h : Outputs) (a : Adapter) : Prop where
  recorded : Recorded serde h
  parked : ∀ symbol q, a.pending.get? symbol = some q → ∀ pf ∈ q,
    RecordOf h pf.bytes pf.recvTsNs pf.connMsgSeq

section Recorded

variable {crates : Crates} {serde : Serde} {h : Outputs} {a : Adapter}

theorem RecordedUpTo.quiet (hj : RecordedUpTo serde h a) {a' : Adapter}
    (hpending : a'.pending = a.pending) {outs : Outputs} (houts : ∀ o ∈ outs, call? o = none) :
    RecordedUpTo serde (h ++ outs) a' := by
  refine ⟨hj.recorded.append_of_forall fun o ho pre c hc => ?_, fun symbol q hq pf hpf => ?_⟩
  · rw [houts o ho] at hc
    cases hc
  · rw [hpending] at hq
    exact (hj.parked symbol q hq pf hpf).append outs

/-- One entry of a frame whose raw record is in the history. -/
theorem RecordedUpTo.applyBook (hj : RecordedUpTo serde h a) {f : BookData} {bytes : List UInt8}
    {recvTsNs n : Int} (hrecord : RecordOf h bytes recvTsNs n) {ds : List BookData}
    (hbody : (parse serde bytes).body = .book ds) (hf : f ∈ ds) :
    RecordedUpTo serde
      (h ++ (a.applyBook crates f (parse serde bytes).frameType recvTsNs n).2)
      (a.applyBook crates f (parse serde bytes).frameType recvTsNs n).1 := by
  refine ⟨Trace.everywhere_append.2 ⟨hj.recorded, fun pre o post ho c hc => ?_⟩, ?_⟩
  · obtain ⟨raw, hmem, rfl, rfl, rfl⟩ := hrecord
    have hcall : c ∈ calls (a.applyBook crates f (parse serde raw.payload).frameType raw.recvTsNs
        raw.connMsgSeq).2 := by
      rw [mem_calls, ho, ← call?_eq_some_iff.1 hc]
      exact List.mem_append_right _ List.mem_cons_self
    obtain ⟨rfl, htype, hrecv, hseq⟩ := mem_calls_applyBook hcall
    exact ⟨raw, List.mem_append_left _ hmem, hrecv.symm, hseq.symm, htype.symm, ds, hbody, hf⟩
  · intro symbol q hq pf hpf
    rw [Adapter.applyBook_fst] at hq
    exact (hj.parked symbol q hq pf hpf).append _

/-- The entries of a frame, one after the other. -/
theorem RecordedUpTo.applyBooks {bytes : List UInt8} {recvTsNs n : Int} {ds : List BookData}
    (hbody : (parse serde bytes).body = .book ds) : ∀ (es : List BookData) {h : Outputs}
    {a : Adapter}, (∀ e ∈ es, e ∈ ds) → RecordOf h bytes recvTsNs n → RecordedUpTo serde h a →
    RecordedUpTo serde
      (h ++ (a.applyBooks crates (parse serde bytes).frameType recvTsNs n es).2)
      (a.applyBooks crates (parse serde bytes).frameType recvTsNs n es).1
  | [], h, a, _, _, hj => by
    show RecordedUpTo serde (h ++ []) a
    rwa [List.append_nil]
  | e :: es, h, a, hes, hrecord, hj => by
    obtain ⟨he, hes⟩ := List.forall_mem_cons.1 hes
    have hfirst : RecordedUpTo serde
        (h ++ (a.applyBook crates e (parse serde bytes).frameType recvTsNs n).2) _ :=
      hj.applyBook hrecord hbody he
    have hrest := RecordedUpTo.applyBooks hbody es hes (hrecord.append _) hfirst
    rw [List.append_assoc] at hrest
    exact hrest

/-- A parked frame, read back. -/
theorem RecordedUpTo.drainFrame (symbol : String) (hj : RecordedUpTo serde h a) {pf : PendingFrame}
    (hrecord : RecordOf h pf.bytes pf.recvTsNs pf.connMsgSeq) :
    RecordedUpTo serde (h ++ (a.drainFrame crates serde symbol pf).2)
      (a.drainFrame crates serde symbol pf).1 := by
  unfold Adapter.drainFrame
  by_cases hbook : ∃ ds, (parse serde pf.bytes).body = .book ds
  · obtain ⟨ds, hbody⟩ := hbook
    rw [parkedEntries_of_parse hbody]
    exact RecordedUpTo.applyBooks hbody _ (fun e he => List.mem_of_mem_filter he) hrecord hj
  · have hnone : (parkedEntries serde symbol pf.bytes).2 = [] :=
      parkedEntries_of_not_book fun ds hds => hbook ⟨ds, hds⟩
    show RecordedUpTo serde (h ++ (a.applyBooks crates _ _ _ (parkedEntries serde symbol pf.bytes).2).2)
      (a.applyBooks crates _ _ _ (parkedEntries serde symbol pf.bytes).2).1
    rw [hnone]
    show RecordedUpTo serde (h ++ []) a
    rwa [List.append_nil]

/-- The queue of a symbol, frame by frame; the raw record of each is in the history already. -/
theorem RecordedUpTo.drainFrames (symbol : String) : ∀ (q : List PendingFrame) {h : Outputs}
    {a : Adapter}, (∀ pf ∈ q, RecordOf h pf.bytes pf.recvTsNs pf.connMsgSeq) →
    RecordedUpTo serde h a →
    RecordedUpTo serde (h ++ (Mealy.run (Adapter.drainFrame crates serde symbol) a q).2)
      (Mealy.run (Adapter.drainFrame crates serde symbol) a q).1
  | [], h, a, _, hj => by
    rw [Mealy.run_nil, List.append_nil]
    exact hj
  | pf :: q, h, a, hq, hj => by
    obtain ⟨hpf, hq⟩ := List.forall_mem_cons.1 hq
    rw [Mealy.run_cons, ← List.append_assoc]
    exact RecordedUpTo.drainFrames symbol q (fun p hp => (hq p hp).append _)
      (hj.drainFrame symbol hpf)

theorem RecordedUpTo.drainSymbol (hj : RecordedUpTo serde h a) (symbol : String) :
    RecordedUpTo serde (h ++ (a.drainSymbol crates serde symbol).2)
      (a.drainSymbol crates serde symbol).1 := by
  unfold Adapter.drainSymbol
  cases hget : a.pending.get? symbol with
  | none =>
    show RecordedUpTo serde (h ++ []) a
    rwa [List.append_nil]
  | some q =>
    have hnote : RecordedUpTo serde (h ++ [.note (.drained symbol (oldestType serde symbol q))])
        { a with pending := a.pending.erase symbol } := by
      refine ⟨hj.recorded.append_of_forall (by simp [call?]), fun native q' hq' pf hpf => ?_⟩
      by_cases heq : native = symbol
      · subst heq
        rw [SortedMap.get?_erase_self] at hq'
        cases hq'
      · rw [SortedMap.get?_erase_of_ne _ heq] at hq'
        exact (hj.parked native q' hq' pf hpf).append _
    simp only
    rw [← List.singleton_append, ← List.append_assoc]
    exact hnote.drainFrames symbol q fun pf hpf => (hj.parked symbol q hget pf hpf).append _

/-- An entry that cannot be applied yet is parked with the frame at hand. -/
theorem RecordedUpTo.park (hj : RecordedUpTo serde h a) (symbol : String) {bytes : List UInt8}
    {recvTsNs n : Int} (hrecord : RecordOf h bytes recvTsNs n) :
    RecordedUpTo serde h (a.park symbol recvTsNs n bytes) := by
  refine ⟨hj.recorded, fun native q hq pf hpf => ?_⟩
  by_cases heq : native = symbol
  · subst heq
    rw [Adapter.park, SortedMap.get?_insert_self] at hq
    cases hq
    rcases List.mem_append.1 hpf with hpf | hpf
    · cases hget : a.pending.get? native with
      | none =>
        rw [hget] at hpf
        simp at hpf
      | some q =>
        rw [hget, Option.getD_some] at hpf
        refine hj.parked native q hget pf ?_
        split at hpf
        · exact List.mem_of_mem_tail hpf
        · exact hpf
    · rw [List.mem_singleton.1 hpf]
      exact hrecord
  · rw [Adapter.park, SortedMap.get?_insert_of_ne _ _ heq] at hq
    exact hj.parked native q hq pf hpf

theorem RecordedUpTo.handleEntry (hj : RecordedUpTo serde h a) {f : BookData} {bytes : List UInt8}
    {recvTsNs n : Int} (hrecord : RecordOf h bytes recvTsNs n) {ds : List BookData}
    (hbody : (parse serde bytes).body = .book ds) (hf : f ∈ ds) :
    RecordedUpTo serde
      (h ++ (a.handleEntry crates (parse serde bytes).frameType recvTsNs n bytes f).2)
      (a.handleEntry crates (parse serde bytes).frameType recvTsNs n bytes f).1 := by
  have hnote : RecordedUpTo serde
      (h ++ [.note (.received f.symbol (parse serde bytes).frameType)]) a :=
    hj.quiet rfl (by simp [call?])
  unfold Adapter.handleEntry
  split
  · simp only
    rw [← List.singleton_append, ← List.append_assoc]
    exact hnote.applyBook (hrecord.append _) hbody hf
  · exact hnote.park f.symbol (hrecord.append _)

theorem RecordedUpTo.handleEntries {bytes : List UInt8} {recvTsNs n : Int} {ds : List BookData}
    (hbody : (parse serde bytes).body = .book ds) : ∀ (es : List BookData) {h : Outputs}
    {a : Adapter}, (∀ e ∈ es, e ∈ ds) → RecordOf h bytes recvTsNs n → RecordedUpTo serde h a →
    RecordedUpTo serde
      (h ++ (Mealy.run
        (Adapter.handleEntry crates (parse serde bytes).frameType recvTsNs n bytes) a es).2)
      (Mealy.run
        (Adapter.handleEntry crates (parse serde bytes).frameType recvTsNs n bytes) a es).1
  | [], h, a, _, _, hj => by
    rw [Mealy.run_nil, List.append_nil]
    exact hj
  | e :: es, h, a, hes, hrecord, hj => by
    obtain ⟨he, hes⟩ := List.forall_mem_cons.1 hes
    rw [Mealy.run_cons, ← List.append_assoc]
    exact RecordedUpTo.handleEntries hbody es hes (hrecord.append _)
      (hj.handleEntry hrecord hbody he)

theorem RecordedUpTo.step (hj : RecordedUpTo serde h a) (bytes : List UInt8) (recvTsNs : Int) :
    RecordedUpTo serde (h ++ (a.step crates serde bytes recvTsNs).2)
      (a.step crates serde bytes recvTsNs).1 := by
  unfold Adapter.step
  simp only
  rw [← List.singleton_append, ← List.append_assoc]
  set raw := ({ a with connMsgSeq := a.connMsgSeq + 1 } : Adapter).rawRecord (parse serde bytes)
    bytes recvTsNs with hraw
  have hrecorded : RecordedUpTo serde (h ++ [.record (.raw raw)])
      { a with connMsgSeq := a.connMsgSeq + 1 } := by
    have hpending : ({ a with connMsgSeq := a.connMsgSeq + 1 } : Adapter).pending = a.pending := rfl
    refine hj.quiet hpending fun o ho => ?_
    rw [List.mem_singleton.1 ho]
    rfl
  have hrecord : RecordOf (h ++ [.record (.raw raw)]) bytes recvTsNs (a.connMsgSeq + 1) :=
    ⟨raw, List.mem_append_right _ (List.mem_singleton_self _), rfl, rfl, rfl⟩
  cases hbody : (parse serde bytes).body with
  | book ds => exact RecordedUpTo.handleEntries hbody ds (fun e he => he) hrecord hrecorded
  | trade trades =>
    refine hrecorded.quiet rfl fun o ho => ?_
    obtain ⟨t, _, rfl⟩ := List.mem_map.1 ho
    rfl
  | instrument pairs =>
    refine Mealy.run_history (Adapter.drainSymbol crates serde)
      (fun h a symbol hj => hj.drainSymbol symbol) _ _ _ ?_
    rw [Adapter.foldl_setPrecision_eq]
    exact ⟨hrecorded.recorded, hrecorded.parked⟩
  | other =>
    rw [Adapter.handleBody, List.append_nil]
    exact hrecorded

end Recorded

/-! ## Whole connections -/

def Body.isBook : Body → Bool
  | .book _ => true
  | _ => false

/-- The book frames are snapshots and updates. -/
def BookFramesTyped (serde : Serde) (frames : List Frame) : Prop :=
  ∀ f ∈ frames, (parse serde f.1).body.isBook = true →
    (parse serde f.1).frameType = "snapshot" ∨ (parse serde f.1).frameType = "update"

instance (serde : Serde) (frames : List Frame) : Decidable (BookFramesTyped serde frames) :=
  inferInstanceAs (Decidable (∀ f ∈ frames, _))

section Connection

variable {crates : Crates} {serde : Serde} {a : Adapter} {connId : String} {frames : List Frame}

theorem recorded_onConnection :
    RecordedUpTo serde (a.onConnection crates serde connId frames).2
      (a.onConnection crates serde connId frames).1 := by
  have hrun := Mealy.run_history (fun a (f : Frame) => a.step crates serde f.1 f.2)
    (fun h a f (hj : RecordedUpTo serde h a) => hj.step f.1 f.2) frames []
    (a.beginConnection connId) ⟨Trace.everywhere_nil _, fun _ _ hq => by cases hq⟩
  rwa [List.nil_append] at hrun

variable (crates serde a connId frames) in
theorem accounted_onConnection :
    AccountedUpTo a.instruments (a.onConnection crates serde connId frames).2
      (a.onConnection crates serde connId frames).1 := by
  have hstart : AccountedUpTo a.instruments [] (a.beginConnection connId) :=
    ⟨rfl, fun _ => .nil, rfl⟩
  have hrun := Mealy.run_history (fun (a : Adapter) (f : Frame) => a.step crates serde f.1 f.2)
    (J := AccountedUpTo a.instruments)
    (fun h a' f hj => (accounted_stable crates a.instruments).step serde f.1 f.2 hj) frames [] _
    hstart
  rwa [List.nil_append] at hrun

theorem separated_onConnection (htyped : Typed (a.onConnection crates serde connId frames).2) :
    Separated (a.onConnection crates serde connId frames).2 := by
  have hstart : Typed [] → SeparatedUpTo [] (a.beginConnection connId) :=
    fun _ => ⟨Trace.everywhere_nil _, fun _ => Or.inl Trace.answered_nil⟩
  have hrun := Mealy.run_history (fun a (f : Frame) => a.step crates serde f.1 f.2)
    (J := fun h a => Typed h → SeparatedUpTo h a)
    (fun h a' f hj => (separated_stable crates).step serde f.1 f.2 hj) frames [] _ hstart
  exact (hrun htyped).separated

/-- The raw records of a connection are of its frames. -/
theorem payload_mem {r : RawMessageRecord}
    (hr : .record (.raw r) ∈ (a.onConnection crates serde connId frames).2) :
    ∃ f ∈ frames, r.payload = f.1 := by
  have hrun := Mealy.run_invariant (fun a (f : Frame) => a.step crates serde f.1 f.2)
    (I := fun _ => True) (Q := fun o => ∀ r, o = .record (.raw r) → ∃ f ∈ frames, r.payload = f.1)
    frames (fun a f hf _ => ⟨trivial, fun o ho r hor => ?_⟩) (a.beginConnection connId) trivial
  · exact hrun.2 _ hr r rfl
  · subst hor
    rcases List.mem_cons.1 ho with heq | hbody
    · cases heq
      exact ⟨f, hf, rfl⟩
    · cases quiet_handleBody _ _ _ _ _ _ hbody

theorem typed_onConnection (htypes : BookFramesTyped serde frames) :
    Typed (a.onConnection crates serde connId frames).2 := by
  intro c hc
  obtain ⟨pre, post, hsplit⟩ := List.mem_iff_append.1 (mem_calls.1 hc)
  obtain ⟨r, hr, hframe⟩ := recorded_onConnection.recorded pre _ post hsplit c rfl
  obtain ⟨f, hf, hpayload⟩ := payload_mem (r := r) (by rw [hsplit]; exact List.mem_append_left _ hr)
  obtain ⟨ds, hbody, _⟩ := hframe.entry
  rw [hpayload] at hbody
  have htype := htypes f hf (by rw [hbody]; rfl)
  rwa [← hpayload, hframe.frameType] at htype

end Connection

/-! ### Entry by entry -/

section Entries

variable {crates : Crates} {serde : Serde} {a : Adapter} {connId : String} {frames : List Frame}

theorem mem_callsFor_of_mismatch {outs : Outputs} {c : Call} (hc : c ∈ mismatches outs) :
    c ∈ callsFor c.data.symbol outs ∧ c.outcome = .mismatch := by
  obtain ⟨hc, hfailed⟩ := List.mem_filter.1 hc
  exact ⟨mem_callsFor.2 ⟨hc, rfl⟩, of_decide_eq_true hfailed⟩

theorem mem_mismatches_of_failed {symbol : String} {outs : Outputs} {c : Call}
    (hc : c ∈ callsFor symbol outs) (hfailed : c.outcome = .mismatch) : c ∈ mismatches outs :=
  List.mem_filter.2 ⟨(mem_callsFor.1 hc).1, decide_eq_true hfailed⟩

/-- An entry of an `update` is carried at least as often as it fails. -/
theorem failures_update (e : Stamped) (hupdate : e.frameType = "update") :
    failures (a.onConnection crates serde connId frames).2 e ≤ carried serde frames e := by
  have htold := (told_connection crates serde e.data.symbol a connId frames).calls
  set outs := (a.onConnection crates serde connId frames).2 with houts
  change ToldCalls (receivedEntries serde e.data.symbol frames) _
    (callsFor e.data.symbol outs) at htold
  by_cases hnone : failures outs e = 0
  · rw [hnone]
    exact Nat.zero_le _
  · -- the entry is of its frame, and its frame fails once
    obtain ⟨c, hc, hfailed⟩ := List.countP_pos_iff.1 (Nat.pos_of_ne_zero hnone)
    have hstamped : c.stamped = e := (of_decide_eq_true hfailed).2
    have hmem : e ∈ receivedEntries serde e.data.symbol frames := hstamped ▸ htold.received c hc
    have honce := htold.once e.connMsgSeq fun e' he' hseq =>
      (frameType_of_received he' hmem hseq).trans hupdate
    have hle : failures outs e ≤ (callsFor e.data.symbol outs).countP (failedAt e.connMsgSeq) := by
      refine List.countP_mono_left fun c' _ hfailed' => ?_
      obtain ⟨hmis, hstamp⟩ := of_decide_eq_true hfailed'
      have hseq : c'.connMsgSeq = e.connMsgSeq := congrArg Stamped.connMsgSeq hstamp
      simp [failedAt, hmis, hseq]
    exact (hle.trans honce).trans (List.count_pos_iff.2 hmem)

/-- An entry of a `snapshot` that fails, fails as often as it is handed over. -/
theorem failures_snapshot {c : Call}
    (hc : c ∈ mismatches (a.onConnection crates serde connId frames).2)
    (htype : c.frameType = "snapshot") :
    failures (a.onConnection crates serde connId frames).2 c.stamped =
      handed (a.onConnection crates serde connId frames).2 c.stamped := by
  have htold := (told_connection crates serde c.data.symbol a connId frames).calls
  obtain ⟨hmem, hfailed⟩ := mem_callsFor_of_mismatch hc
  rw [handed_eq]
  refine List.countP_congr fun c' hc' => ?_
  rw [decide_eq_true_iff, decide_eq_true_iff]
  refine ⟨fun h => h.2, fun h => ⟨?_, h⟩⟩
  exact htold.alike c hmem c' hc' h.symm htype hfailed

theorem failures_le_handed (outs : Outputs) (e : Stamped) : failures outs e ≤ handed outs e := by
  rw [handed_eq]
  refine List.countP_mono_left fun c _ h => ?_
  exact decide_eq_true (of_decide_eq_true h).2

/-- A failing entry of a `snapshot` is not handed over more often than it is carried exactly when
    its frame does not wait in several copies. -/
theorem waits_once_iff {c : Call}
    (hc : c ∈ mismatches (a.onConnection crates serde connId frames).2) :
    handed (a.onConnection crates serde connId frames).2 c.stamped ≤
        carried serde frames c.stamped ↔
      (waiting serde c.data.symbol frames).countP (·.connMsgSeq = c.connMsgSeq) ≤ 1 := by
  obtain ⟨hmem, _⟩ := mem_callsFor_of_mismatch hc
  refine handed_le_carried_iff connId c.stamped (registered_of_call (mem_callsFor.1 hmem).1) ?_
  rw [handed_eq]
  exact List.countP_pos_iff.2 ⟨c, hmem, decide_eq_true rfl⟩

/-- **When no entry fails twice**: exactly when no failing entry of a `snapshot` is of a frame that
    waits in several copies. -/
theorem once_iff (htypes : BookFramesTyped serde frames) :
    (∀ e, failures (a.onConnection crates serde connId frames).2 e ≤ carried serde frames e) ↔
      ∀ c ∈ mismatches (a.onConnection crates serde connId frames).2, c.frameType = "snapshot" →
        (waiting serde c.data.symbol frames).countP (·.connMsgSeq = c.connMsgSeq) ≤ 1 := by
  constructor
  · intro honce c hc htype
    rw [← waits_once_iff hc, ← failures_snapshot hc htype]
    exact honce c.stamped
  · intro hwaits e
    by_cases hnone : failures (a.onConnection crates serde connId frames).2 e = 0
    · rw [hnone]
      exact Nat.zero_le _
    · obtain ⟨c, hc, hfailed⟩ := List.countP_pos_iff.1 (Nat.pos_of_ne_zero hnone)
      obtain ⟨hmis, hstamped⟩ := of_decide_eq_true hfailed
      have htype : c.frameType = e.frameType := congrArg Stamped.frameType hstamped
      rcases typed_onConnection htypes c (mem_callsFor.1 hc).1 with hsnapshot | hupdate
      · have hmem := mem_mismatches_of_failed hc hmis
        refine (failures_le_handed _ e).trans ?_
        rw [← hstamped]
        exact (waits_once_iff hmem).2 (hwaits c hmem hsnapshot)
      · exact failures_update e (htype.symm.trans hupdate)

end Entries

/-- **When mismatches are accounted for.**  On a connection whose book frames are snapshots and
    updates, each failing entry is marked by one record and resubscribed once, after the raw record
    of its frame and with a `snapshot` entry before the next resubscription, exactly when no failing
    entry leaves its book without a level, and none of a `snapshot` is of a frame that waits in
    several copies, as a frame does that carries another entry of the symbol. -/
theorem mismatches_accounted_iff (crates : Crates) (serde : Serde) (a : Adapter) (connId : String)
    (frames : List Frame) (htypes : BookFramesTyped serde frames) :
    MismatchesAccounted serde frames (a.onConnection crates serde connId frames).2 ↔
      ∀ c ∈ mismatches (a.onConnection crates serde connId frames).2,
        (c.folded a.instruments).isEmpty = false ∧
          (c.frameType = "snapshot" →
            (waiting serde c.data.symbol frames).countP (·.connMsgSeq = c.connMsgSeq) ≤ 1) := by
  have hacc : AccountedUpTo a.instruments _ _ := accounted_onConnection crates serde a connId frames
  constructor
  · intro hall c hc
    have hlength := hall.accounted.length_books
    rw [hacc.records, List.countP_eq_length] at hlength
    exact ⟨of_decide_eq_true (hlength c hc), (once_iff htypes).1 hall.once c hc⟩
  · intro hall
    exact ⟨hacc.accounted fun c hc => (hall c hc).1,
      (once_iff htypes).2 fun c hc => (hall c hc).2, recorded_onConnection.recorded,
      separated_onConnection (typed_onConnection htypes)⟩

/-! ## Failing snapshots -/

/-- A snapshot of one bid, with a quantity that has a ninth decimal. -/
def unparsableFrames : List (String × List BookData) :=
  [("snapshot", [bidEntry "45000.0" "0.000000001" 1909750136])]

/-- The instrument frame and the given book frames, as they are received. -/
def received (fs : List (String × List BookData)) : List Frame :=
  (instrumentBytes btcPairs, 0) :: fs.map fun f => (bookBytes f, 1)

/-- The failing snapshot leaves no level, and is marked by no record. -/
theorem empty_mismatch_not_marked :
    ¬ ∀ (crates : Crates) (serde : Serde) (a : Adapter) (connId : String) (frames : List Frame),
      BookFramesTyped serde frames →
        MismatchesAccounted serde frames (a.onConnection crates serde connId frames).2 := by
  intro h
  have hlength := (h (Crates.ofTimes []) (Serde.ofFrames unparsableFrames [btcPairs])
    (Adapter.new btcUsd) "c1" (received unparsableFrames) (by decide +kernel)).accounted.length_books
  revert hlength
  decide +kernel

/-- A snapshot with two entries of one symbol, the first of which fails. -/
def twoBidFrames : List (String × List BookData) :=
  [("snapshot", [bidEntry "45000.0" "1.00000000" 0, bidEntry "45001.0" "2.00000000" 0])]

/-- It waits for the instrument frame, and each of its entries fails twice. -/
theorem parked_mismatch_repeated :
    ¬ MismatchesAccounted (Serde.ofFrames twoBidFrames [btcPairs])
      (bookFrames twoBidFrames ++ [instrumentFrame])
      ((Adapter.new btcUsd).onConnection (Crates.ofTimes [])
        (Serde.ofFrames twoBidFrames [btcPairs]) "c1"
        (bookFrames twoBidFrames ++ [instrumentFrame])).2 := by
  intro h
  have honce := h.once ⟨bidEntry "45000.0" "1.00000000" 0, "snapshot", 1, 1⟩
  revert honce
  decide +kernel

/-- A failing snapshot of one bid is marked. -/
theorem mismatch_accounted :
    MismatchesAccounted (Serde.ofFrames mismatchFrames [btcPairs]) (received mismatchFrames)
      ((Adapter.new btcUsd).onConnection (Crates.ofTimes [])
        (Serde.ofFrames mismatchFrames [btcPairs]) "c1" (received mismatchFrames)).2 :=
  (mismatches_accounted_iff _ _ _ _ _ (by decide +kernel)).2 (by decide +kernel)

end K2.Capture.Kraken

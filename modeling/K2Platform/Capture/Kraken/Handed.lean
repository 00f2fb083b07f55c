import K2Platform.Capture.Kraken.Parking

/-!
# How often an entry fails

A frame that is parked for several entries of a symbol is replayed for each of them, so that an
entry is handed to `apply_book` as often.  An entry of an `update` fails once all the same: its
mismatch empties the book, and the rest of its frame is ignored.  An entry of a `snapshot` that
fails, fails as often as it is handed over.

* `failed_at_most_once` — the entries of the updates of one frame, whatever surrounds them.
* `alike_applyEntries` — a `snapshot` entry has one verdict.
* `told_connection` — both, on every connection.
-/

set_option autoImplicit false

namespace K2.Capture.Kraken

/-- The connection as the adapter handles it, whatever connections came before. -/
def Adapter.onConnection (crates : Crates) (serde : Serde) (a : Adapter) (connId : String)
    (frames : List Frame) : Adapter × Outputs :=
  Mealy.run (fun a (f : Frame) => a.step crates serde f.1 f.2) (a.beginConnection connId) frames

/-! ## The calls for one symbol -/

/-- The entry of a call. -/
def Call.stamped (c : Call) : Stamped := ⟨c.data, c.frameType, c.recvTsNs, c.connMsgSeq⟩

def callFor? (symbol : String) : Output BookNote → Option Call
  | .note (.call c) => if c.data.symbol = symbol then some c else none
  | _ => none

/-- The calls for one symbol, in order. -/
def callsFor (symbol : String) (outs : Outputs) : List Call := outs.filterMap (callFor? symbol)

/-- A mismatch of the frame with this number. -/
def failedAt (n : Int) (c : Call) : Bool := c.outcome = .mismatch && c.connMsgSeq = n

theorem callsFor_append (symbol : String) (h outs : Outputs) :
    callsFor symbol (h ++ outs) = callsFor symbol h ++ callsFor symbol outs :=
  List.filterMap_append

theorem callsFor_about (symbol : String) (outs : Outputs) :
    callsFor symbol (about symbol outs) = callsFor symbol outs :=
  filterMap_about (fun o h => by
    unfold callFor?
    split
    · exact if_neg (of_decide_eq_false h)
    · rfl) outs

theorem mem_callsFor {symbol : String} {outs : Outputs} {c : Call} :
    c ∈ callsFor symbol outs ↔ c ∈ calls outs ∧ c.data.symbol = symbol := by
  constructor
  · intro hc
    obtain ⟨o, ho, hoc⟩ := List.mem_filterMap.1 hc
    unfold callFor? at hoc
    split at hoc
    · split at hoc
      · rename_i hsymbol
        cases hoc
        exact ⟨mem_calls.2 ho, hsymbol⟩
      · cases hoc
    · cases hoc
  · rintro ⟨hc, hsymbol⟩
    exact List.mem_filterMap.2 ⟨_, mem_calls.1 hc, if_pos hsymbol⟩

section Calls

variable {crates : Crates} {symbol : String}

theorem mem_calls_applyBook {a : Adapter} {f : BookData} {frameType : String} {recvTsNs n : Int}
    {c : Call} (hc : c ∈ calls (a.applyBook crates f frameType recvTsNs n).2) :
    c.data = f ∧ c.frameType = frameType ∧ c.recvTsNs = recvTsNs ∧ c.connMsgSeq = n := by
  have happlied := Adapter.applied crates a f frameType recvTsNs n
  generalize a.applyBook crates f frameType recvTsNs n = r at happlied hc
  have hmem := mem_calls.1 hc
  cases happlied with
  | skipped _ => cases hmem
  | ignored =>
    cases List.mem_singleton.1 hmem
    exact ⟨rfl, rfl, rfl, rfl⟩
  | verified =>
    cases List.mem_singleton.1 hmem
    exact ⟨rfl, rfl, rfl, rfl⟩
  | mismatch =>
    simp only [List.cons_append, List.mem_cons, List.mem_append, List.not_mem_nil, or_false] at hmem
    rcases hmem with heq | hmark | heq
    · cases heq
      exact ⟨rfl, rfl, rfl, rfl⟩
    · obtain ⟨b, hb, _⟩ := Adapter.marked_spec hmark
      cases hb
    · cases heq

theorem applyEntries_cons (a : Adapter) (e : Stamped) (es : List Stamped) :
    applyEntries crates a (e :: es) =
      let r := a.applyBook crates e.data e.frameType e.recvTsNs e.connMsgSeq
      ((applyEntries crates r.1 es).1, r.2 ++ (applyEntries crates r.1 es).2) :=
  Mealy.run_cons _ _ _ _

/-- A run over entries changes the books alone. -/
theorem applyEntries_fst (a : Adapter) (es : List Stamped) :
    (applyEntries crates a es).1 = { a with books := (applyEntries crates a es).1.books } :=
  Adapter.run_fst (fun a _ => Adapter.applyBook_fst crates a _ _ _ _) es a

/-- A call is of one of the entries. -/
theorem stamped_mem {es : List Stamped} {a : Adapter} {c : Call}
    (hc : c ∈ calls (applyEntries crates a es).2) : c.stamped ∈ es := by
  induction es generalizing a with
  | nil => cases hc
  | cons e es ih =>
    rw [applyEntries_cons, calls_append] at hc
    rcases List.mem_append.1 hc with hc | hc
    · obtain ⟨hdata, htype, hrecv, hseq⟩ := mem_calls_applyBook hc
      rw [Call.stamped, hdata, htype, hrecv, hseq]
      exact List.mem_cons_self
    · exact List.mem_cons_of_mem _ (ih hc)

/-! ### A snapshot has one verdict -/

/-- A `snapshot` entry fails at this precision, whatever book it replaces. -/
def Fails (crates : Crates) (depth : Nat) (precision : Option (Nat × Nat)) (d : BookData) : Prop :=
  ∃ p ∈ precision, computedChecksum crates Book.empty d "snapshot" depth p ≠ d.checksum

theorem mismatch_iff_fails {a : Adapter} {f : BookData} {recvTsNs n : Int} {c : Call}
    (hc : c ∈ calls (a.applyBook crates f "snapshot" recvTsNs n).2) :
    c.outcome = .mismatch ↔
      Fails crates (a.subscriptionDepth f.symbol) (a.precision.get? f.symbol) f := by
  have happlied := Adapter.applied crates a f "snapshot" recvTsNs n
  generalize a.applyBook crates f "snapshot" recvTsNs n = r at happlied hc
  have hmem := mem_calls.1 hc
  cases happlied with
  | skipped _ => cases hmem
  | ignored precision hp htype => exact absurd htype (by decide)
  | verified precision hp hfold hsum =>
    cases List.mem_singleton.1 hmem
    refine ⟨fun h => Outcome.noConfusion h, fun ⟨p, hp', hne⟩ => ?_⟩
    rw [hp, Option.mem_some_iff] at hp'
    subst hp'
    exact absurd hsum hne
  | mismatch precision hp hfold hsum =>
    simp only [List.cons_append, List.mem_cons, List.mem_append, List.not_mem_nil, or_false] at hmem
    rcases hmem with heq | hmark | heq
    · cases heq
      exact ⟨fun _ => ⟨precision, hp, hsum⟩, fun _ => rfl⟩
    · obtain ⟨b, hb, _⟩ := Adapter.marked_spec hmark
      cases hb
    · cases heq

/-- The calls of a run over entries, none of which changes a precision. -/
theorem mismatch_applyEntries {es : List Stamped} {a : Adapter} {c : Call}
    (hc : c ∈ calls (applyEntries crates a es).2) (htype : c.frameType = "snapshot") :
    c.outcome = .mismatch ↔
      Fails crates (a.subscriptionDepth c.data.symbol) (a.precision.get? c.data.symbol) c.data := by
  induction es generalizing a with
  | nil => cases hc
  | cons e es ih =>
    rw [applyEntries_cons, calls_append] at hc
    rcases List.mem_append.1 hc with hc | hc
    · obtain ⟨hdata, hframe, _⟩ := mem_calls_applyBook hc
      rw [← hframe, htype] at hc
      rw [hdata]
      exact mismatch_iff_fails hc
    · have hrest := ih hc
      rw [Adapter.applyBook_fst] at hrest
      exact hrest

/-- **A `snapshot` entry has one verdict**, however often it is handed over. -/
theorem alike_applyEntries {es : List Stamped} {a : Adapter} {c c' : Call}
    (hc : c ∈ calls (applyEntries crates a es).2) (hc' : c' ∈ calls (applyEntries crates a es).2)
    (hsame : c.stamped = c'.stamped) (htype : c.frameType = "snapshot")
    (hfailed : c.outcome = .mismatch) : c'.outcome = .mismatch := by
  have hdata : c.data = c'.data := congrArg Stamped.data hsame
  have htype' : c'.frameType = "snapshot" := (congrArg Stamped.frameType hsame).symm.trans htype
  have hfails := (mismatch_applyEntries hc htype).1 hfailed
  rw [hdata] at hfails
  exact (mismatch_applyEntries hc' htype').2 hfails

/-! ### An update fails once -/

variable (crates) in
/-- A call for an update: over an empty book it comes to nothing, and a mismatch empties the book. -/
theorem failed_update {a : Adapter} {f : BookData} (recvTsNs n : Int)
    (hsymbol : f.symbol = symbol) :
    let r := a.applyBook crates f "update" recvTsNs n
    ((callsFor symbol r.2).countP (failedAt n) = 0 ∧
      ((a.stored symbol).book.isEmpty = true → (r.1.stored symbol).book.isEmpty = true)) ∨
    ((callsFor symbol r.2).countP (failedAt n) = 1 ∧ (a.stored symbol).book.isEmpty = false ∧
      (r.1.stored symbol).book.isEmpty = true) := by
  subst hsymbol
  have happlied := Adapter.applied crates a f "update" recvTsNs n
  generalize a.applyBook crates f "update" recvTsNs n = r at happlied
  cases happlied with
  | skipped _ => exact Or.inl ⟨rfl, id⟩
  | ignored precision hp htype hempty =>
    refine Or.inl ⟨by simp [callsFor, callFor?, failedAt], fun _ => ?_⟩
    rw [Adapter.stored_setBook, if_pos rfl]
    exact hempty
  | verified precision hp hfold hsum =>
    refine Or.inl ⟨by simp [callsFor, callFor?, failedAt], fun hempty => ?_⟩
    exact absurd ⟨rfl, hempty⟩ hfold
  | mismatch precision hp hfold hsum state hstate =>
    have hmarked : ((a.setBook f.symbol state).marked f.symbol recvTsNs).filterMap
        (callFor? f.symbol) = [] := by
      refine List.filterMap_eq_nil_iff.2 fun o ho => ?_
      obtain ⟨b, rfl, _⟩ := Adapter.marked_spec ho
      rfl
    refine Or.inr ⟨by simp [callsFor, callFor?, failedAt, hmarked], ?_, ?_⟩
    · rw [← Bool.not_eq_true]
      exact fun hempty => hfold ⟨rfl, hempty⟩
    · rw [Adapter.stored_setBook, if_pos rfl]
      rfl

/-- Calls with another number do not count. -/
theorem failed_eq_zero {n : Int} {cs : List Call} (h : ∀ c ∈ cs, c.connMsgSeq ≠ n) :
    cs.countP (failedAt n) = 0 := by
  refine List.countP_eq_zero.2 fun c hc hfailed => h c hc ?_
  exact of_decide_eq_true (Bool.and_eq_true_iff.1 hfailed).2

theorem number_of_applyBook {a : Adapter} {e : Stamped} {c : Call}
    (hc : c ∈ callsFor symbol
      (a.applyBook crates e.data e.frameType e.recvTsNs e.connMsgSeq).2) :
    c.connMsgSeq = e.connMsgSeq := (mem_calls_applyBook (mem_callsFor.1 hc).1).2.2.2

variable {n : Int}

/-- Once the book is empty, the rest of the frame is ignored. -/
theorem failed_none {es : List Stamped} {a : Adapter} (hsymbol : ∀ e ∈ es, e.data.symbol = symbol)
    (hsorted : es.Pairwise fun e e' => e.connMsgSeq ≤ e'.connMsgSeq)
    (hfrom : ∀ e ∈ es, n ≤ e.connMsgSeq)
    (hupdate : ∀ e ∈ es, e.connMsgSeq = n → e.frameType = "update")
    (hempty : (a.stored symbol).book.isEmpty = true) :
    (callsFor symbol (applyEntries crates a es).2).countP (failedAt n) = 0 := by
  induction es generalizing a with
  | nil => rfl
  | cons e es ih =>
    obtain ⟨hsym, hsyms⟩ := List.forall_mem_cons.1 hsymbol
    obtain ⟨hge, hges⟩ := List.forall_mem_cons.1 hfrom
    obtain ⟨hup, hups⟩ := List.forall_mem_cons.1 hupdate
    obtain ⟨hle, hsorted⟩ := List.pairwise_cons.1 hsorted
    by_cases hn : e.connMsgSeq = n
    · have hone := failed_update crates (a := a) e.recvTsNs e.connMsgSeq hsym
      rw [applyEntries_cons, callsFor_append, List.countP_append, hup hn]
      rw [hn] at hone ⊢
      rcases hone with ⟨hzero, hstays⟩ | ⟨_, hsome, _⟩
      · rw [hzero, ih hsyms hsorted hges hups (hstays hempty)]
      · rw [hempty] at hsome
        cases hsome
    · -- the frame is over
      refine failed_eq_zero fun c hc => ?_
      have hmem : c.stamped ∈ e :: es := stamped_mem (mem_callsFor.1 hc).1
      have hlater : e.connMsgSeq ≤ c.connMsgSeq := by
        rcases List.mem_cons.1 hmem with heq | hmem
        · exact (congrArg Stamped.connMsgSeq heq).symm.le
        · exact hle _ hmem
      omega

/-- **The updates of one frame fail at most once**, whatever surrounds them. -/
theorem failed_at_most_once {es : List Stamped} {a : Adapter}
    (hsymbol : ∀ e ∈ es, e.data.symbol = symbol)
    (hsorted : es.Pairwise fun e e' => e.connMsgSeq ≤ e'.connMsgSeq)
    (hupdate : ∀ e ∈ es, e.connMsgSeq = n → e.frameType = "update") :
    (callsFor symbol (applyEntries crates a es).2).countP (failedAt n) ≤ 1 := by
  induction es generalizing a with
  | nil => exact Nat.zero_le 1
  | cons e es ih =>
    obtain ⟨hsym, hsyms⟩ := List.forall_mem_cons.1 hsymbol
    obtain ⟨hup, hups⟩ := List.forall_mem_cons.1 hupdate
    obtain ⟨hle, hsorted⟩ := List.pairwise_cons.1 hsorted
    by_cases hn : e.connMsgSeq = n
    · have hone := failed_update crates (a := a) e.recvTsNs e.connMsgSeq hsym
      rw [applyEntries_cons, callsFor_append, List.countP_append, hup hn]
      rw [hn] at hone ⊢
      rcases hone with ⟨hzero, _⟩ | ⟨hfailed, _, hempty⟩
      · rw [hzero, Nat.zero_add]
        exact ih hsyms hsorted hups
      · rw [hfailed, failed_none hsyms hsorted (fun e' he' => hn ▸ hle e' he') hups hempty]
    · have hzero : (callsFor symbol
          (a.applyBook crates e.data e.frameType e.recvTsNs e.connMsgSeq).2).countP
            (failedAt n) = 0 :=
        failed_eq_zero fun c hc => by rw [number_of_applyBook hc]; exact hn
      rw [applyEntries_cons, callsFor_append, List.countP_append, hzero, Nat.zero_add]
      exact ih hsyms hsorted hups

end Calls

/-! ## Whole connections -/

/-- What the calls for a symbol say of its entries, which are among these. -/
structure ToldCalls (entries : List Stamped) (bound : Int) (cs : List Call) : Prop where
  bounded : ∀ c ∈ cs, c.connMsgSeq ≤ bound
  received : ∀ c ∈ cs, c.stamped ∈ entries
  alike : ∀ c ∈ cs, ∀ c' ∈ cs, c.stamped = c'.stamped → c.frameType = "snapshot" →
    c.outcome = .mismatch → c'.outcome = .mismatch
  once : ∀ n, (∀ e ∈ entries, e.connMsgSeq = n → e.frameType = "update") →
    cs.countP (failedAt n) ≤ 1

/-- The queue of a symbol: in order of receipt, and drained once the precision is known. -/
structure Queued (symbol : String) (all : List PendingFrame) (a : Adapter) : Prop where
  known : (a.precision.get? symbol).isSome → a.pending.get? symbol = none
  sorted : (queue symbol a).Pairwise fun p q => p.connMsgSeq ≤ q.connMsgSeq
  mem : ∀ pf ∈ queue symbol a, pf ∈ all ∧ pf.connMsgSeq ≤ a.connMsgSeq

/-- What a connection has told of a symbol, whose frames are among these. -/
structure Told (serde : Serde) (symbol : String) (all : List PendingFrame) (h : Outputs)
    (a : Adapter) : Prop where
  calls : ToldCalls (all.flatMap (stampedEntries serde symbol)) a.connMsgSeq (callsFor symbol h)
  queued : Queued symbol all a
  unknown : a.precision.get? symbol = none → callsFor symbol h = []

section Told

variable {crates : Crates} {serde : Serde} {symbol : String} {all : List PendingFrame}
  {h : Outputs} {a : Adapter}

theorem toldCalls_nil (entries : List Stamped) (bound : Int) : ToldCalls entries bound [] where
  bounded := by simp
  received := by simp
  alike := by simp
  once := by simp

/-- A run over entries of later frames. -/
theorem ToldCalls.append {entries : List Stamped} {bound bound' : Int} {cs : List Call}
    (ht : ToldCalls entries bound cs) {es : List Stamped} (b : Adapter)
    (hes : ∀ e ∈ es, e.data.symbol = symbol ∧ e ∈ entries ∧ e.connMsgSeq ≤ bound')
    (hsorted : es.Pairwise fun e e' => e.connMsgSeq ≤ e'.connMsgSeq)
    (hlater : ∀ c ∈ cs, ∀ e ∈ es, c.connMsgSeq < e.connMsgSeq) (hbound : bound ≤ bound') :
    ToldCalls entries bound' (cs ++ callsFor symbol (applyEntries crates b es).2) := by
  have hmem : ∀ c ∈ callsFor symbol (applyEntries crates b es).2,
      c ∈ Kraken.calls (applyEntries crates b es).2 ∧ c.stamped ∈ es := fun c hc =>
    ⟨(mem_callsFor.1 hc).1, stamped_mem (mem_callsFor.1 hc).1⟩
  have hapart : ∀ c ∈ cs, ∀ c' ∈ callsFor symbol (applyEntries crates b es).2,
      c.stamped ≠ c'.stamped := by
    intro c hc c' hc' heq
    have hlt := hlater c hc _ (hmem c' hc').2
    have hnumber : c.connMsgSeq = c'.connMsgSeq := congrArg Stamped.connMsgSeq heq
    exact absurd hlt (hnumber ▸ lt_irrefl _)
  refine ⟨fun c hc => ?_, fun c hc => ?_, fun c hc c' hc' hsame htype hfailed => ?_, fun n hn => ?_⟩
  · rcases List.mem_append.1 hc with hc | hc
    · exact (ht.bounded c hc).trans hbound
    · exact (hes _ (hmem c hc).2).2.2
  · rcases List.mem_append.1 hc with hc | hc
    · exact ht.received c hc
    · exact (hes _ (hmem c hc).2).2.1
  · rcases List.mem_append.1 hc with hc | hc <;> rcases List.mem_append.1 hc' with hc' | hc'
    · exact ht.alike c hc c' hc' hsame htype hfailed
    · exact absurd hsame (hapart c hc c' hc')
    · exact absurd hsame.symm (hapart c' hc' c hc)
    · exact alike_applyEntries (hmem c hc).1 (hmem c' hc').1 hsame htype hfailed
  · rw [List.countP_append]
    by_cases hsome : ∃ e ∈ es, e.connMsgSeq = n
    · -- none of the calls before them has the number
      obtain ⟨e, he, hnumber⟩ := hsome
      have hnone : cs.countP (failedAt n) = 0 :=
        failed_eq_zero fun c hc => by have := hlater c hc e he; omega
      rw [hnone, Nat.zero_add]
      exact failed_at_most_once (fun e he => (hes e he).1) hsorted fun e he hn' =>
        hn e (hes e he).2.1 hn'
    · have hnone : (callsFor symbol (applyEntries crates b es).2).countP (failedAt n) = 0 :=
        failed_eq_zero fun c hc heq => hsome ⟨_, (hmem c hc).2, heq⟩
      rw [hnone, Nat.add_zero]
      exact ht.once n hn

/-- A step that says nothing of the symbol. -/
theorem Told.aside (ht : Told serde symbol all h a) {r : Adapter × Outputs}
    (haside : Aside symbol a r) (hseq : r.1.connMsgSeq = a.connMsgSeq) :
    Told serde symbol all (h ++ r.2) r.1 := by
  have hnone : callsFor symbol r.2 = [] := by
    rw [← callsFor_about, haside.silent]
    rfl
  have hcalls : callsFor symbol (h ++ r.2) = callsFor symbol h := by
    rw [callsFor_append, hnone, List.append_nil]
  have hqueue : queue symbol r.1 = queue symbol a := by rw [queue, queue, haside.pending]
  refine ⟨?_, ⟨fun hknown => ?_, ?_, ?_⟩, fun hunknown => ?_⟩
  · rw [hcalls, hseq]
    exact ht.calls
  · rw [haside.pending]
    exact ht.queued.known (by rw [haside.same.precision]; exact hknown)
  · rw [hqueue]
    exact ht.queued.sorted
  · rw [hqueue, hseq]
    exact ht.queued.mem
  · rw [hcalls]
    exact ht.unknown (haside.same.precision.trans hunknown)

/-- The number of the frame at hand. -/
theorem Told.next (ht : Told serde symbol all h a) (raw : RawMessageRecord) :
    Told serde symbol all (h ++ [.record (.raw raw)])
      { a with connMsgSeq := a.connMsgSeq + 1 } := by
  have hcalls : callsFor symbol (h ++ [.record (.raw raw)]) = callsFor symbol h := by
    rw [callsFor_append]
    exact List.append_nil _
  refine ⟨?_, ⟨ht.queued.known, ht.queued.sorted, fun pf hpf => ?_⟩, fun hunknown => ?_⟩
  · rw [hcalls]
    refine ⟨fun c hc => ?_, ht.calls.received, ht.calls.alike, ht.calls.once⟩
    have hle := ht.calls.bounded c hc
    show c.connMsgSeq ≤ a.connMsgSeq + 1
    omega
  · obtain ⟨hall, hle⟩ := ht.queued.mem pf hpf
    refine ⟨hall, ?_⟩
    show pf.connMsgSeq ≤ a.connMsgSeq + 1
    omega
  · rw [hcalls]
    exact ht.unknown hunknown

/-- A step that hands over entries of later frames, and leaves the precision known. -/
theorem Told.replay (ht : Told serde symbol all h a) {r : Adapter × Outputs} {b : Adapter}
    {es : List Stamped} (habout : about symbol r.2 = (applyEntries crates b es).2)
    (hes : ∀ e ∈ es, e.data.symbol = symbol ∧ e ∈ all.flatMap (stampedEntries serde symbol) ∧
      e.connMsgSeq ≤ r.1.connMsgSeq)
    (hsorted : es.Pairwise fun e e' => e.connMsgSeq ≤ e'.connMsgSeq)
    (hlater : ∀ c ∈ callsFor symbol h, ∀ e ∈ es, c.connMsgSeq < e.connMsgSeq)
    (hseq : r.1.connMsgSeq = a.connMsgSeq) (hknown : (r.1.precision.get? symbol).isSome)
    (hnone : r.1.pending.get? symbol = none) : Told serde symbol all (h ++ r.2) r.1 := by
  have hqueue : queue symbol r.1 = [] := by
    rw [queue, hnone]
    rfl
  refine ⟨?_, ⟨fun _ => hnone, ?_, ?_⟩, fun hunknown => ?_⟩
  · rw [callsFor_append, ← callsFor_about symbol r.2, habout]
    exact ht.calls.append b hes hsorted hlater hseq.ge
  · rw [hqueue]
    exact .nil
  · rw [hqueue]
    intro pf hpf
    cases hpf
  · rw [hunknown] at hknown
    cases hknown

/-- What is left of the queue, and the frame at its end. -/
theorem parked_last (a : Adapter) (symbol : String) (pf : PendingFrame) :
    ∃ q, q.Sublist (queue symbol a) ∧
      queue symbol (a.park symbol pf.recvTsNs pf.connMsgSeq pf.bytes) = q ++ [pf] := by
  refine ⟨_, ?_, queue_of_park a symbol pf.recvTsNs pf.connMsgSeq pf.bytes⟩
  split
  · exact List.tail_sublist _
  · exact List.Sublist.refl _

/-- The entries of a frame that arrives too early. -/
theorem Told.park (ht : Told serde symbol all h a) (hunknown : a.precision.get? symbol = none)
    (frameType : String) (recvTsNs : Int) {bytes : List UInt8}
    (hnew : (⟨recvTsNs, a.connMsgSeq, bytes⟩ : PendingFrame) ∈ all) (ds : List BookData) :
    let r := Mealy.run (Adapter.handleEntry crates frameType recvTsNs a.connMsgSeq bytes) a ds
    Told serde symbol all (h ++ r.2) r.1 := by
  have hrun := Mealy.run_history
    (Adapter.handleEntry crates frameType recvTsNs a.connMsgSeq bytes)
    (J := fun h' a' => Told serde symbol all h' a' ∧ a'.precision.get? symbol = none ∧
      a'.connMsgSeq = a.connMsgSeq) (fun h' a' d hj => ?_) ds h a ⟨ht, hunknown, rfl⟩
  · exact hrun.1
  obtain ⟨ht', hunknown', hseq⟩ := hj
  by_cases hd : d.symbol = symbol
  · subst hd
    have hcontains : a'.precision.contains d.symbol = false := by
      rw [SortedMap.contains, hunknown']
      rfl
    have hentry : a'.handleEntry crates frameType recvTsNs a.connMsgSeq bytes d =
        (a'.park d.symbol recvTsNs a.connMsgSeq bytes, [.note (.received d.symbol frameType)]) := by
      unfold Adapter.handleEntry
      simp only [hcontains, Bool.false_eq_true, if_false]
    rw [hentry]
    have hcalls : callsFor d.symbol (h' ++ [.note (.received d.symbol frameType)]) =
        callsFor d.symbol h' := by
      rw [callsFor_append]
      exact List.append_nil _
    obtain ⟨q, hsub, hqueue⟩ :=
      parked_last a' d.symbol ⟨recvTsNs, a.connMsgSeq, bytes⟩
    refine ⟨⟨?_, ⟨fun hknown => ?_, ?_, fun pf hpf => ?_⟩, fun _ => ?_⟩, hunknown', hseq⟩
    · rw [hcalls]
      exact ht'.calls
    · have hsome : (a'.precision.get? d.symbol).isSome := hknown
      rw [hunknown'] at hsome
      cases hsome
    · rw [hqueue]
      refine List.pairwise_append.2 ⟨ht'.queued.sorted.sublist hsub, List.pairwise_singleton _ _,
        fun p hp p' hp' => ?_⟩
      rw [List.mem_singleton.1 hp', ← hseq]
      exact (ht'.queued.mem p (hsub.subset hp)).2
    · rw [hqueue] at hpf
      rcases List.mem_append.1 hpf with hpf | hpf
      · exact ht'.queued.mem pf (hsub.subset hpf)
      · rw [List.mem_singleton.1 hpf]
        exact ⟨hnew, hseq.ge⟩
    · rw [hcalls]
      exact ht'.unknown hunknown'
  · have haside : Aside symbol a' (a'.handleEntry crates frameType recvTsNs a.connMsgSeq bytes d) :=
      Aside.handleEntry a' hd _ _ _ _
    have hkept : (a'.handleEntry crates frameType recvTsNs a.connMsgSeq bytes d).1.connMsgSeq =
        a'.connMsgSeq := by
      unfold Adapter.handleEntry
      simp only
      split
      · rw [Adapter.applyBook_fst]
      · rfl
    exact ⟨ht'.aside haside hkept, haside.same.precision ▸ hunknown', hkept.trans hseq⟩

/-- A queue that is drained is gone. -/
theorem pending_drainPending (hknown : (a.precision.get? symbol).isSome) :
    (a.drainPending crates serde).1.pending.get? symbol = none := by
  have hrun : ∀ (natives : List String) (a : Adapter),
      symbol ∈ natives ∨ a.pending.get? symbol = none →
      (Mealy.run (Adapter.drainSymbol crates serde) a natives).1.pending.get? symbol = none := by
    intro natives
    induction natives with
    | nil => exact fun a h => h.resolve_left List.not_mem_nil
    | cons native natives ih =>
      intro a h
      rw [Mealy.run_cons]
      refine ih _ ?_
      rw [Adapter.drainSymbol_fst]
      by_cases hself : symbol = native
      · subst hself
        exact Or.inr (SortedMap.get?_erase_self _ _)
      · refine (h.imp (fun hmem => (List.mem_cons.1 hmem).resolve_left hself) fun hnone => ?_)
        show (a.pending.erase native).get? symbol = none
        rw [SortedMap.get?_erase_of_ne _ hself]
        exact hnone
  refine hrun _ a ?_
  cases hpending : a.pending.get? symbol with
  | none => exact Or.inr rfl
  | some q =>
    refine Or.inl (List.mem_filter.2 ⟨?_, hknown⟩)
    rw [SortedMap.mem_keys_iff, SortedMap.contains, hpending]
    rfl

/-- The entries of frames in order of receipt. -/
theorem sorted_entries {pfs : List PendingFrame}
    (h : pfs.Pairwise fun p q => p.connMsgSeq ≤ q.connMsgSeq) :
    (pfs.flatMap (stampedEntries serde symbol)).Pairwise
      fun e e' => e.connMsgSeq ≤ e'.connMsgSeq := by
  refine List.pairwise_flatMap.2 ⟨fun pf _ => ?_, h.imp fun {p q} hle e he e' he' => ?_⟩
  · refine List.pairwise_of_forall_mem_list fun e he e' he' => ?_
    rw [connMsgSeq_of_mem_stampedEntries he, connMsgSeq_of_mem_stampedEntries he']
  · rw [connMsgSeq_of_mem_stampedEntries he, connMsgSeq_of_mem_stampedEntries he']
    exact hle

/-- A precision that was known stays so. -/
theorem unknown_of_setPrecisions (a : Adapter) (symbol : String) (pairs : List PairInfo)
    (h : (pairs.foldl Adapter.setPrecision a).precision.get? symbol = none) :
    a.precision.get? symbol = none := by
  have hget := Adapter.get?_precision_foldl_setPrecision symbol pairs a
  rw [h] at hget
  split at hget
  · exact (Option.or_eq_none_iff.1 hget.symm).2
  · exact hget.symm

/-- The queue is replayed, if there is one: then nothing was handed over before. -/
theorem Told.drained (ht : Told serde symbol all h a) {c : Adapter}
    (hknown : (c.precision.get? symbol).isSome) (hqueue : queue symbol c = queue symbol a)
    (hseq : (c.drainPending crates serde).1.connMsgSeq = a.connMsgSeq) :
    Told serde symbol all (h ++ (c.drainPending crates serde).2)
      (c.drainPending crates serde).1 := by
  obtain ⟨hsame, hout⟩ : SameAt symbol (c.drainPending crates serde).1 _ ∧ _ :=
    drainPending_self (SameAt.refl symbol c) hknown
  rw [hqueue] at hsame hout
  refine ht.replay hout (fun e he => ?_) (sorted_entries ht.queued.sorted) (fun d hd e he => ?_)
    hseq ?_ (pending_drainPending hknown)
  · obtain ⟨pf, hpf, he⟩ := List.mem_flatMap.1 he
    obtain ⟨hall, hle⟩ := ht.queued.mem pf hpf
    refine ⟨symbol_of_mem_stampedEntries he, List.mem_flatMap.2 ⟨pf, hall, he⟩, ?_⟩
    rw [hseq, connMsgSeq_of_mem_stampedEntries he]
    exact hle
  · -- what waited did so because nothing had been handed over yet
    cases hold : a.precision.get? symbol with
    | none =>
      rw [ht.unknown hold] at hd
      cases hd
    | some p' =>
      have hempty : queue symbol a = [] := by
        rw [queue, ht.queued.known (by rw [hold]; rfl)]
        rfl
      rw [hempty] at he
      cases he
  · rw [hsame.precision, applyEntries_fst]
    exact hknown

/-- The `instrument` frame. -/
theorem Told.instrument (ht : Told serde symbol all h a) (pairs : List PairInfo) :
    let r := (pairs.foldl Adapter.setPrecision a).drainPending crates serde
    r.1.connMsgSeq = a.connMsgSeq → Told serde symbol all (h ++ r.2) r.1 := by
  intro r hseq
  have hset := Adapter.foldl_setPrecision_eq pairs a
  have hold := unknown_of_setPrecisions a symbol pairs
  revert hseq
  show ((pairs.foldl Adapter.setPrecision a).drainPending crates serde).1.connMsgSeq =
    a.connMsgSeq → Told serde symbol all
      (h ++ ((pairs.foldl Adapter.setPrecision a).drainPending crates serde).2)
      ((pairs.foldl Adapter.setPrecision a).drainPending crates serde).1
  generalize pairs.foldl Adapter.setPrecision a = c at hset hold
  intro hseq
  cases hprec : c.precision.get? symbol with
  | none =>
    -- the symbol has no precision yet
    have hsame : SameAt symbol a c := by
      rw [hset]
      exact ⟨rfl, rfl, rfl, (hold hprec).trans hprec.symm, rfl⟩
    have haside : Aside symbol c (c.drainPending crates serde) :=
      Aside.drainPending (Or.inl hprec)
    have hpending : (c.drainPending crates serde).1.pending.get? symbol =
        a.pending.get? symbol := by
      rw [haside.pending, hset]
    exact ht.aside ⟨hsame.trans haside.same, hpending, haside.silent⟩ hseq
  | some p =>
    have hqueue : queue symbol c = queue symbol a := by
      rw [queue, hset, queue]
    exact ht.drained (by rw [hprec]; rfl) hqueue hseq

/-- **One frame.** -/
theorem Told.step (ht : Told serde symbol all h a) (bytes : List UInt8) (recvTsNs : Int)
    (hnew : (⟨recvTsNs, a.connMsgSeq + 1, bytes⟩ : PendingFrame) ∈ all) :
    Told serde symbol all (h ++ (a.step crates serde bytes recvTsNs).2)
      (a.step crates serde bytes recvTsNs).1 := by
  have hseq : (a.step crates serde bytes recvTsNs).1.connMsgSeq = a.connMsgSeq + 1 :=
    step_connMsgSeq a bytes recvTsNs
  have hbounded : ∀ c ∈ callsFor symbol h, c.connMsgSeq < a.connMsgSeq + 1 := fun c hc => by
    have := ht.calls.bounded c hc
    omega
  revert hseq
  unfold Adapter.step
  simp only
  intro hseq
  rw [← List.singleton_append, ← List.append_assoc]
  have hnext := ht.next (({ a with connMsgSeq := a.connMsgSeq + 1 } : Adapter).rawRecord
    (parse serde bytes) bytes recvTsNs)
  have hcalls : ∀ raw, callsFor symbol (h ++ [.record (.raw raw)]) = callsFor symbol h := by
    intro raw
    rw [callsFor_append]
    exact List.append_nil _
  cases hbody : (parse serde bytes).body with
  | book ds =>
    rw [hbody] at hseq
    cases hprec : a.precision.get? symbol with
    | none => exact hnext.park hprec _ recvTsNs hnew ds
    | some p =>
      have hdirect : Direct symbol ({ a with connMsgSeq := a.connMsgSeq + 1 } : Adapter)
          { a with connMsgSeq := a.connMsgSeq + 1 } :=
        ⟨SameAt.refl _ _, by rw [hprec]; rfl, ht.queued.known (by rw [hprec]; rfl)⟩
      obtain ⟨hafter, hout⟩ : Direct symbol (Mealy.run (Adapter.handleEntry crates
          (parse serde bytes).frameType recvTsNs (a.connMsgSeq + 1) bytes)
          { a with connMsgSeq := a.connMsgSeq + 1 } ds).1 _ ∧ _ :=
        hdirect.handleEntries _ _ _ _ ds
      have hentries : stampedEntries serde symbol ⟨recvTsNs, a.connMsgSeq + 1, bytes⟩ = _ :=
        stampedEntries_of_parse hbody recvTsNs (a.connMsgSeq + 1)
      rw [← hentries] at hafter hout
      have hnumber : ∀ e ∈ stampedEntries serde symbol ⟨recvTsNs, a.connMsgSeq + 1, bytes⟩,
          e.connMsgSeq = a.connMsgSeq + 1 := fun e he => connMsgSeq_of_mem_stampedEntries he
      refine hnext.replay hout (fun e he => ?_) ?_ (fun c hc e he => ?_) hseq hafter.known
        hafter.unparked
      · refine ⟨symbol_of_mem_stampedEntries he, List.mem_flatMap.2 ⟨_, hnew, he⟩, ?_⟩
        rw [hnumber e he]
        exact hseq.ge
      · exact List.pairwise_of_forall_mem_list fun e he e' he' =>
          ((hnumber e he).trans (hnumber e' he').symm).le
      · rw [hcalls] at hc
        rw [hnumber e he]
        exact hbounded c hc
  | trade trades =>
    refine hnext.aside ⟨SameAt.refl _ _, rfl, List.filter_eq_nil_iff.2 fun o ho => ?_⟩ rfl
    obtain ⟨t, _, rfl⟩ := List.mem_map.1 ho
    simp [concerns]
  | instrument pairs =>
    rw [hbody] at hseq
    exact hnext.instrument pairs hseq
  | other => exact hnext.aside ⟨SameAt.refl _ _, rfl, rfl⟩ rfl

/-- The frames of a connection are numbered one after the other. -/
theorem lt_of_mem_stampFrames :
    ∀ (frames : List Frame) (n : Int), ∀ pf ∈ stampFrames n frames, n < pf.connMsgSeq
  | f :: fs, n, pf, hpf => by
    rcases List.mem_cons.1 hpf with rfl | hpf
    · exact Int.lt_succ n
    · have hlt := lt_of_mem_stampFrames fs (n + 1) pf hpf
      omega

theorem stampFrames_inj :
    ∀ (frames : List Frame) (n : Int), ∀ pf ∈ stampFrames n frames, ∀ pf' ∈ stampFrames n frames,
      pf.connMsgSeq = pf'.connMsgSeq → pf = pf'
  | f :: fs, n, pf, hpf, pf', hpf', heq => by
    rcases List.mem_cons.1 hpf with rfl | hpf <;> rcases List.mem_cons.1 hpf' with rfl | hpf'
    · rfl
    · have hlt := lt_of_mem_stampFrames fs (n + 1) pf' hpf'
      simp only at heq
      omega
    · have hlt := lt_of_mem_stampFrames fs (n + 1) pf hpf
      simp only at heq
      omega
    · exact stampFrames_inj fs (n + 1) pf hpf pf' hpf' heq

/-- The entries of one frame are of one type. -/
theorem frameType_of_received {frames : List Frame} {e e' : Stamped}
    (he : e ∈ receivedEntries serde symbol frames) (he' : e' ∈ receivedEntries serde symbol frames)
    (heq : e.connMsgSeq = e'.connMsgSeq) : e.frameType = e'.frameType := by
  obtain ⟨pf, hpf, he⟩ := List.mem_flatMap.1 he
  obtain ⟨pf', hpf', he'⟩ := List.mem_flatMap.1 he'
  obtain ⟨d, _, rfl⟩ := List.mem_map.1 he
  obtain ⟨d', _, rfl⟩ := List.mem_map.1 he'
  rw [stampFrames_inj frames 0 pf hpf pf' hpf' heq]

theorem told_run : ∀ (frames : List Frame) {h : Outputs} {a : Adapter},
    Told serde symbol all h a → (∀ pf ∈ stampFrames a.connMsgSeq frames, pf ∈ all) →
    let r := Mealy.run (fun a (f : Frame) => a.step crates serde f.1 f.2) a frames
    Told serde symbol all (h ++ r.2) r.1
  | [], h, a, ht, _ => by
    show Told serde symbol all (h ++ []) a
    rwa [List.append_nil]
  | f :: fs, h, a, ht, hall => by
    obtain ⟨hnew, hrest⟩ := List.forall_mem_cons.1 hall
    have hstep : Told serde symbol all (h ++ (a.step crates serde f.1 f.2).2)
        (a.step crates serde f.1 f.2).1 := ht.step f.1 f.2 hnew
    have hnext := told_run fs hstep (by rw [step_connMsgSeq]; exact hrest)
    simp only at hnext
    rw [List.append_assoc] at hnext
    exact hnext

variable (crates serde symbol) in
/-- **On every connection** an update's frame fails once at most, and a `snapshot` entry has one
    verdict. -/
theorem told_connection (a : Adapter) (connId : String) (frames : List Frame) :
    Told serde symbol (stampFrames 0 frames) (a.onConnection crates serde connId frames).2
      (a.onConnection crates serde connId frames).1 := by
  have hstart : Told serde symbol (stampFrames 0 frames) [] (a.beginConnection connId) :=
    ⟨toldCalls_nil _ _, ⟨fun _ => rfl, .nil, fun pf hpf => by cases hpf⟩, fun _ => rfl⟩
  exact told_run frames hstart fun pf hpf => hpf

end Told

end K2.Capture.Kraken

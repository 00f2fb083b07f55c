import K2Platform.Lib.Trace
import K2Platform.Capture.Kraken.Apply

/-!
# A dark book and its resync

`apply_book` ignores an update on an empty book, on the ground that an empty book means that no
snapshot has arrived, or that one was dropped and its resubscribe is still in flight.  There are
two other ways to an empty book: a frame whose checksum verified may have emptied it, and a
parked snapshot may have been evicted from its queue, or have an update ahead of it.

* `resync_outstanding_of_clean` — in a run without those two, every ignored update has no
  snapshot before it or a `Resubscribe` after the last one.
* `emptied_book_stays_dark` — a run with the first, in which it has not.
-/

set_option autoImplicit false

namespace K2.Capture.Kraken

/-! ## The property and its condition -/

/-- No `snapshot` frame for the symbol has been received, or a `Resubscribe` for it has been
    emitted since the last one. -/
def Settled (symbol : String) (outs : Outputs) : Prop :=
  Trace.Answered (· = .note (.received symbol "snapshot")) (· = .action (.resubscribe symbol)) outs

/-- Whenever an update is ignored, the symbol is settled. -/
def ResyncOutstanding (symbol : String) (outs : Outputs) : Prop :=
  Trace.Everywhere (fun pre o => ∀ c ∈ call? o, c.data.symbol = symbol → c.outcome = .ignored →
    Settled symbol pre) outs

/-- No update finds a book that a verified frame left empty, and no queue is drained from an
    update on when a snapshot frame had been received for it. -/
structure Clean (symbol : String) (outs : Outputs) : Prop where
  emptied : ∀ c ∈ calls outs, c.data.symbol = symbol → c.frameType = "update" →
    c.before.checksumOk = some true → c.before.book.isEmpty = false
  drained : Trace.Everywhere (fun pre o => o = .note (.drained symbol "update") →
    .note (.received symbol "snapshot") ∉ pre) outs

theorem Clean.left {symbol : String} (h o : Outputs) (hc : Clean symbol (h ++ o)) :
    Clean symbol h :=
  ⟨fun c hmem => hc.emptied c (by rw [calls_append]; exact List.mem_append_left _ hmem),
   hc.drained.left⟩

/-! ## The invariant -/

/-- The symbol is settled, or its book passed its last checksum. -/
def Live (symbol : String) (h : Outputs) (a : Adapter) : Prop :=
  Settled symbol h ∨ ∃ state, a.books.get? symbol = some state ∧ state.checksumOk = some true

/-- What ties the history of a symbol to the four maps.  Between the arrival of a precision and
    the draining of the queue the book may still be missing: `loose` is then true. -/
structure Tracked (serde : Serde) (symbol : String) (loose : Prop) (h : Outputs) (a : Adapter) :
    Prop where
  outstanding : ResyncOutstanding symbol h
  registered : (a.precision.get? symbol).isSome → (a.instruments.canonical symbol).isSome
  parked : ∀ q, a.pending.get? symbol = some q →
    q ≠ [] ∧ ∀ pf ∈ q, (parkedEntries serde symbol pf.bytes).2 ≠ []
  waiting : a.precision.get? symbol = none → .note (.received symbol "snapshot") ∈ h →
    (a.pending.get? symbol).isSome
  live : (a.precision.get? symbol).isSome → loose ∨ Live symbol h a

theorem settled_of_not_received {symbol : String} {h : Outputs}
    (hr : .note (.received symbol "snapshot") ∉ h) : Settled symbol h :=
  Trace.answered_of_forall_not fun _ he heq => hr (heq ▸ he)

namespace Tracked

variable {crates : Crates} {serde : Serde} {symbol : String} {loose : Prop} {h : Outputs}
  {a : Adapter}

/-- Outputs that are no call for the symbol and no snapshot frame of it, and a state whose four
    maps agree at the symbol, change nothing. -/
theorem frame (ht : Tracked serde symbol loose h a) {outs : Outputs} {a' : Adapter}
    (hcalls : ∀ c, .note (.call c) ∈ outs → c.data.symbol ≠ symbol)
    (hreceived : .note (.received symbol "snapshot") ∉ outs)
    (hins : a'.instruments = a.instruments)
    (hprec : a'.precision.get? symbol = a.precision.get? symbol)
    (hbooks : a'.books.get? symbol = a.books.get? symbol)
    (hpend : a'.pending.get? symbol = a.pending.get? symbol) :
    Tracked serde symbol loose (h ++ outs) a' where
  outstanding := ht.outstanding.append_of_forall fun o ho pre c hc hsym =>
    absurd hsym (hcalls c (call?_eq_some_iff.1 hc ▸ ho))
  registered := by rw [hprec, hins]; exact ht.registered
  parked := by rw [hpend]; exact ht.parked
  waiting := by
    rw [hprec, hpend]
    intro hp hr
    exact ht.waiting hp ((List.mem_append.1 hr).resolve_right hreceived)
  live := by
    rw [hprec]
    intro hp
    refine (ht.live hp).imp id fun hl => ?_
    rcases hl with hs | hb
    · exact Or.inl (hs.append fun o ho heq => hreceived (heq ▸ ho))
    · exact Or.inr (hbooks ▸ hb)

/-! ### One entry -/

theorem applyBook_of_ne (ht : Tracked serde symbol loose h a) {f : BookData}
    (hne : f.symbol ≠ symbol) (frameType : String) (recvTsNs n : Int) :
    Tracked serde symbol loose (h ++ (a.applyBook crates f frameType recvTsNs n).2)
      (a.applyBook crates f frameType recvTsNs n).1 := by
  have hfst := Adapter.applyBook_fst crates a f frameType recvTsNs n
  refine ht.frame (fun c hc => ?_) (fun hr => ?_) ?_ ?_
    (Adapter.get?_books_applyBook_of_ne crates a frameType recvTsNs n hne) ?_
  · rcases Adapter.mem_applyBook crates hc with ⟨c', hc', hf⟩ | ⟨b, hb, _⟩ | hact
    · cases hc'; rwa [hf]
    · cases hb
    · cases hact
  · rcases Adapter.mem_applyBook crates hr with ⟨c', hc', _⟩ | ⟨b, hb, _⟩ | hact
    · cases hc'
    · cases hb
    · cases hact
  · rw [hfst]
  · rw [hfst]
  · rw [hfst]

/-- An entry of the symbol itself: whatever it does, the symbol is live afterwards. -/
theorem applyBook_self (ht : Tracked serde symbol loose h a) {f : BookData}
    (heq : f.symbol = symbol) {frameType : String} {recvTsNs n : Int}
    (hlive : frameType = "update" → (a.precision.get? symbol).isSome → Live symbol h a)
    (hclean : Clean symbol (h ++ (a.applyBook crates f frameType recvTsNs n).2)) :
    Tracked serde symbol False (h ++ (a.applyBook crates f frameType recvTsNs n).2)
      (a.applyBook crates f frameType recvTsNs n).1 := by
  subst heq
  have happlied := Adapter.applied crates a f frameType recvTsNs n
  generalize a.applyBook crates f frameType recvTsNs n = r at happlied hclean
  -- a state that differs in the book alone, and outputs after which the symbol is live
  have hbook : ∀ (state : BookState) (outs : Outputs),
      .note (.received f.symbol "snapshot") ∉ outs →
      ResyncOutstanding f.symbol (h ++ outs) →
      Live f.symbol (h ++ outs) (a.setBook f.symbol state) →
      Tracked serde f.symbol False (h ++ outs) (a.setBook f.symbol state) := by
    intro state outs hr hout hl
    refine ⟨hout, ht.registered, ht.parked, fun hp hmem => ?_, fun _ => Or.inr hl⟩
    exact ht.waiting hp ((List.mem_append.1 hmem).resolve_right hr)
  cases happlied with
  | skipped hskip =>
    rw [List.append_nil]
    refine { ht with live := fun hp => ?_ }
    rcases hskip with hc | hc
    · have := ht.registered hp
      rw [hc] at this
      cases this
    · rw [hc] at hp
      cases hp
  | ignored precision hp htype hempty =>
    have hsettled : Settled f.symbol h := by
      rcases hlive htype (by rw [hp]; rfl) with hs | ⟨state, hget, hok⟩
      · exact hs
      · -- the book was emptied by a frame that verified
        have hstored : a.stored f.symbol = state := by rw [Adapter.stored, hget]; rfl
        have := hclean.emptied _ (mem_calls.2 (List.mem_append_right _ List.mem_cons_self)) rfl
          htype (by rw [hstored]; exact hok)
        rw [hempty] at this
        cases this
    refine hbook _ _ (by simp) (Trace.everywhere_concat.2
      ⟨ht.outstanding, fun _ _ _ _ => hsettled⟩) (Or.inl ?_)
    exact hsettled.append (by simp)
  | verified precision hp hfold hsum =>
    refine hbook _ _ (by simp) (Trace.everywhere_concat.2
      ⟨ht.outstanding, fun c hc _ hign => ?_⟩) (Or.inr ?_)
    · cases call?_eq_some_iff.1 hc
      cases hign
    · exact ⟨_, SortedMap.get?_insert_self _ _ _, rfl⟩
  | mismatch precision hp hfold hsum state hstate =>
    have hmarked : ∀ o ∈ (a.setBook f.symbol state).marked f.symbol recvTsNs,
        ∃ b, o = .record (.book b) := by
      intro o ho
      obtain ⟨b, hb, _⟩ := Adapter.marked_spec ho
      exact ⟨b, hb⟩
    refine hbook _ _ (fun hr => ?_) (ht.outstanding.append_of_forall fun o ho pre c hc _ hign => ?_)
      (Or.inl ?_)
    · simp only [List.cons_append, List.mem_cons, List.mem_append, List.not_mem_nil, or_false] at hr
      rcases hr with hr | hr | hr
      · cases hr
      · obtain ⟨b, hb⟩ := hmarked _ hr; cases hb
      · cases hr
    · rw [call?_eq_some_iff.1 hc] at ho
      simp only [List.cons_append, List.mem_cons, List.mem_append, List.not_mem_nil, or_false] at ho
      rcases ho with ho | ho | ho
      · cases ho; cases hign
      · obtain ⟨b, hb⟩ := hmarked _ ho; cases hb
      · cases ho
    · rw [← List.append_assoc]
      exact Trace.answered_concat rfl (by simp)

/-- Entries of other symbols. -/
theorem applyBooks_of_ne (ht : Tracked serde symbol loose h a) (frameType : String)
    (recvTsNs n : Int) {ds : List BookData} (hds : ∀ d ∈ ds, d.symbol ≠ symbol) :
    Tracked serde symbol loose (h ++ (a.applyBooks crates frameType recvTsNs n ds).2)
      (a.applyBooks crates frameType recvTsNs n ds).1 :=
  Mealy.run_history_guarded _ (C := fun _ => True) (fun _ _ _ => trivial) ds h a
    (fun _ _ d hd _ ht => ht.applyBook_of_ne (hds d hd) _ _ _) trivial ht

/-- Entries of the symbol, once it is live. -/
theorem applyBooks_self (ht : Tracked serde symbol False h a) (frameType : String)
    (recvTsNs n : Int) {ds : List BookData} (hds : ∀ d ∈ ds, d.symbol = symbol)
    (hclean : Clean symbol (h ++ (a.applyBooks crates frameType recvTsNs n ds).2)) :
    Tracked serde symbol False (h ++ (a.applyBooks crates frameType recvTsNs n ds).2)
      (a.applyBooks crates frameType recvTsNs n ds).1 :=
  Mealy.run_history_guarded _ Clean.left ds h a
    (fun _ _ d hd hc ht => ht.applyBook_self (hds d hd)
      (fun _ hp => (ht.live hp).resolve_left id) hc) hclean ht

/-- Entries of the symbol that may be folded onto an empty book: the first makes it live. -/
theorem applyBooks_first (ht : Tracked serde symbol loose h a) {frameType : String}
    (hty : frameType ≠ "update") (recvTsNs n : Int) {ds : List BookData} (hne : ds ≠ [])
    (hds : ∀ d ∈ ds, d.symbol = symbol)
    (hclean : Clean symbol (h ++ (a.applyBooks crates frameType recvTsNs n ds).2)) :
    Tracked serde symbol False (h ++ (a.applyBooks crates frameType recvTsNs n ds).2)
      (a.applyBooks crates frameType recvTsNs n ds).1 := by
  cases ds with
  | nil => exact absurd rfl hne
  | cons d ds =>
    rw [Adapter.applyBooks, Mealy.run_cons, ← List.append_assoc] at hclean ⊢
    have hd := ht.applyBook_self (hds d List.mem_cons_self) (fun h => absurd h hty)
      (hclean.left _ _)
    exact hd.applyBooks_self frameType recvTsNs n
      (fun d hd => hds d (List.mem_cons_of_mem _ hd)) hclean

/-! ### Draining -/

theorem drainFrame_of_ne (ht : Tracked serde symbol loose h a) {native : String}
    (hne : native ≠ symbol) (pf : PendingFrame) :
    Tracked serde symbol loose (h ++ (a.drainFrame crates serde native pf).2)
      (a.drainFrame crates serde native pf).1 :=
  ht.applyBooks_of_ne _ _ _ fun _ hd => symbol_of_mem_parkedEntries hd ▸ hne

theorem drainFrame_self (ht : Tracked serde symbol False h a) (pf : PendingFrame)
    (hclean : Clean symbol (h ++ (a.drainFrame crates serde symbol pf).2)) :
    Tracked serde symbol False (h ++ (a.drainFrame crates serde symbol pf).2)
      (a.drainFrame crates serde symbol pf).1 :=
  ht.applyBooks_self _ _ _ (fun _ hd => symbol_of_mem_parkedEntries hd) hclean

theorem drainSymbol_of_ne (ht : Tracked serde symbol loose h a) {native : String}
    (hne : native ≠ symbol) :
    Tracked serde symbol loose (h ++ (a.drainSymbol crates serde native).2)
      (a.drainSymbol crates serde native).1 := by
  unfold Adapter.drainSymbol
  split
  · rwa [List.append_nil]
  · rename_i frames _
    have hnote : Tracked serde symbol loose
        (h ++ [.note (.drained native (oldestType serde native frames))])
        { a with pending := a.pending.erase native } :=
      ht.frame (by simp) (by simp) rfl rfl rfl (SortedMap.get?_erase_of_ne _ (Ne.symm hne))
    have hrun := Mealy.run_history (Adapter.drainFrame crates serde native)
      (fun _ _ pf ht => ht.drainFrame_of_ne hne pf) frames _ _ hnote
    rwa [List.append_assoc, List.singleton_append] at hrun

/-- Draining the symbol's own queue makes it live: its oldest frame is no update, or no snapshot
    has been received. -/
theorem drainSymbol_self (ht : Tracked serde symbol loose h a)
    (hp : (a.precision.get? symbol).isSome)
    (hqueue : Live symbol h a ∨ (a.pending.get? symbol).isSome)
    (hclean : Clean symbol (h ++ (a.drainSymbol crates serde symbol).2)) :
    Tracked serde symbol False (h ++ (a.drainSymbol crates serde symbol).2)
      (a.drainSymbol crates serde symbol).1 := by
  unfold Adapter.drainSymbol at hclean ⊢
  cases hpend : a.pending.get? symbol with
  | none =>
    rw [hpend, Option.isSome_none] at hqueue
    rw [List.append_nil]
    exact { ht with live := fun _ => Or.inr (hqueue.resolve_right (by simp)) }
  | some frames =>
    simp only [hpend] at hclean ⊢
    obtain ⟨hne, hentries⟩ := ht.parked frames hpend
    rw [← List.singleton_append, ← List.append_assoc] at hclean ⊢
    have hnote : ∀ {l : Prop}, (l ∨ Live symbol h a) → Tracked serde symbol l
        (h ++ [.note (.drained symbol (oldestType serde symbol frames))])
        { a with pending := a.pending.erase symbol } := by
      intro l hl
      refine ⟨ht.outstanding.append_of_forall (by simp), ht.registered, ?_, ?_, fun _ => ?_⟩
      · intro q hq
        rw [SortedMap.get?_erase_self] at hq
        cases hq
      · intro hnone
        rw [hnone] at hp
        cases hp
      · rcases hl with hl | hs | hb
        · exact Or.inl hl
        · exact Or.inr (Or.inl (hs.append (by simp)))
        · exact Or.inr (Or.inr hb)
    by_cases hl : Live symbol h a
    · exact Mealy.run_history_guarded _ Clean.left frames _ _
        (fun _ _ pf _ hc ht => ht.drainFrame_self pf hc) hclean (hnote (Or.inr hl))
    · cases frames with
      | nil => exact absurd rfl hne
      | cons pf rest =>
        have hty : (parkedEntries serde symbol pf.bytes).1 ≠ "update" := by
          intro hupdate
          have hdrain := (hclean.left _ _).drained h _ [] rfl
            (by rw [oldestType, List.head?_cons, Option.elim_some, hupdate])
          exact hl (Or.inl (settled_of_not_received hdrain))
        rw [Mealy.run_cons, ← List.append_assoc] at hclean ⊢
        have hfirst := (hnote (Or.inl trivial)).applyBooks_first hty pf.recvTsNs pf.connMsgSeq
          (hentries pf List.mem_cons_self) (fun _ hd => symbol_of_mem_parkedEntries hd)
          (hclean.left _ _)
        exact Mealy.run_history_guarded _ Clean.left rest _ _
          (fun _ _ pf _ hc ht => ht.drainFrame_self pf hc) hclean hfirst

/-- A queue that is drained once the symbol is live finds it live and leaves it so. -/
theorem drainSymbol_live (ht : Tracked serde symbol False h a)
    (hp : (a.precision.get? symbol).isSome) (native : String)
    (hclean : Clean symbol (h ++ (a.drainSymbol crates serde native).2)) :
    Tracked serde symbol False (h ++ (a.drainSymbol crates serde native).2)
      (a.drainSymbol crates serde native).1 := by
  by_cases heq : native = symbol
  · subst heq
    exact ht.drainSymbol_self hp (Or.inl ((ht.live hp).resolve_left id)) hclean
  · exact ht.drainSymbol_of_ne heq

theorem drainPending (ht : Tracked serde symbol True h a)
    (hstart : (a.precision.get? symbol).isSome →
      Live symbol h a ∨ (a.pending.get? symbol).isSome)
    (hclean : Clean symbol (h ++ (a.drainPending crates serde).2)) :
    Tracked serde symbol False (h ++ (a.drainPending crates serde).2)
      (a.drainPending crates serde).1 := by
  unfold Adapter.drainPending at hclean ⊢
  have hprec : ∀ (a : Adapter) (native : String),
      (a.drainSymbol crates serde native).1.precision = a.precision :=
    fun a native => by rw [Adapter.drainSymbol_fst]
  by_cases hp : (a.precision.get? symbol).isSome
  · -- from here on the precision of the symbol stays known
    have hlive : ∀ (is : List String) (h : Outputs) (a : Adapter),
        Clean symbol (h ++ (Mealy.run (Adapter.drainSymbol crates serde) a is).2) →
        Tracked serde symbol False h a → (a.precision.get? symbol).isSome →
        Tracked serde symbol False (h ++ (Mealy.run (Adapter.drainSymbol crates serde) a is).2)
          (Mealy.run (Adapter.drainSymbol crates serde) a is).1 := by
      intro is h a hclean ht hp
      exact (Mealy.run_history_guarded _ Clean.left
        (J := fun h a => Tracked serde symbol False h a ∧ (a.precision.get? symbol).isSome) is h a
        (fun _ _ native _ hc hj => ⟨hj.1.drainSymbol_live hj.2 native hc, by rw [hprec]; exact hj.2⟩)
        hclean ⟨ht, hp⟩).1
    by_cases hl : Live symbol h a
    · exact hlive _ h a hclean { ht with live := fun _ => Or.inr hl } hp
    · have hpend := (hstart hp).resolve_left hl
      have hready : symbol ∈ a.ready := by
        refine List.mem_filter.2 ⟨?_, hp⟩
        rw [SortedMap.mem_keys_iff]
        exact hpend
      obtain ⟨l₁, l₂, hsplit, hnot⟩ := List.eq_append_cons_of_mem hready
      rw [hsplit, Mealy.run_append, Mealy.run_cons] at hclean ⊢
      simp only [← List.append_assoc] at hclean ⊢
      -- the queues before the symbol's own
      obtain ⟨ht₁, hp₁, hpend₁⟩ := Mealy.run_history_guarded (Adapter.drainSymbol crates serde)
        (C := fun _ => True) (fun _ _ _ => trivial)
        (J := fun h a => Tracked serde symbol True h a ∧ (a.precision.get? symbol).isSome ∧
          (a.pending.get? symbol).isSome) l₁ h a
        (fun h a native hmem _ hj => by
          have hne : native ≠ symbol := fun heq => hnot (heq ▸ hmem)
          refine ⟨hj.1.drainSymbol_of_ne hne, by rw [hprec]; exact hj.2.1, ?_⟩
          rw [Adapter.drainSymbol_fst, SortedMap.get?_erase_of_ne _ (Ne.symm hne)]
          exact hj.2.2) trivial ⟨ht, hp, hpend⟩
      have ht₂ := ht₁.drainSymbol_self hp₁ (Or.inr hpend₁) (hclean.left _ _)
      exact hlive l₂ _ _ hclean ht₂ (by rw [hprec]; exact hp₁)
  · have hne : ∀ native ∈ a.ready, native ≠ symbol := by
      intro native hmem heq
      exact hp (heq ▸ (List.mem_filter.1 hmem).2)
    exact Mealy.run_history_guarded _ (C := fun _ => True) (fun _ _ _ => trivial) a.ready h a
      (fun _ _ native hmem _ ht => ht.drainSymbol_of_ne (hne native hmem)) trivial
      { ht with live := fun hsome => absurd hsome hp }

/-! ### One frame -/

theorem handleEntry (ht : Tracked serde symbol False h a) {bytes : List UInt8}
    {frames : List BookData} (hparse : (parse serde bytes).body = .book frames) {f : BookData}
    (hf : f ∈ frames) (frameType : String) (recvTsNs n : Int)
    (hclean : Clean symbol (h ++ (a.handleEntry crates frameType recvTsNs n bytes f).2)) :
    Tracked serde symbol False (h ++ (a.handleEntry crates frameType recvTsNs n bytes f).2)
      (a.handleEntry crates frameType recvTsNs n bytes f).1 := by
  unfold Adapter.handleEntry at hclean ⊢
  simp only at hclean ⊢
  rw [← List.singleton_append, ← List.append_assoc] at hclean ⊢
  by_cases heq : f.symbol = symbol
  · by_cases hp : (a.precision.get? symbol).isSome
    · have hcontains : a.precision.contains f.symbol = true := heq ▸ hp
      rw [if_pos hcontains] at hclean ⊢
      have hnote : ∀ {l : Prop}, (l ∨ Live symbol (h ++ [.note (.received f.symbol frameType)]) a) →
          Tracked serde symbol l (h ++ [.note (.received f.symbol frameType)]) a := by
        intro l hl
        refine ⟨ht.outstanding.append_of_forall (by simp), ht.registered, ht.parked, ?_, fun _ => hl⟩
        intro hnone
        rw [hnone] at hp
        cases hp
      by_cases hty : frameType = "snapshot"
      · refine (hnote (Or.inl trivial)).applyBook_self heq (fun hupdate => ?_) hclean
        rw [hty] at hupdate
        exact absurd hupdate (by decide)
      · have hl : Live symbol (h ++ [.note (.received f.symbol frameType)]) a := by
          rcases (ht.live hp).resolve_left id with hs | hb
          · refine Or.inl (hs.append fun o ho hr => ?_)
            rw [List.mem_singleton.1 ho] at hr
            cases hr
            exact hty rfl
          · exact Or.inr hb
        exact (hnote (l := False) (Or.inr hl)).applyBook_self heq (fun _ _ => hl) hclean
    · -- the frame is parked, and will be found in the queue
      have hcontains : ¬ a.precision.contains f.symbol = true := heq ▸ hp
      rw [if_neg hcontains, List.append_nil]
      have hmem : f ∈ (parkedEntries serde symbol bytes).2 := by
        rw [parkedEntries_of_parse hparse]
        exact List.mem_filter.2 ⟨hf, by simpa using heq⟩
      refine ⟨ht.outstanding.append_of_forall (by simp), ht.registered, ?_, ?_, ?_⟩
      · intro q hq
        rw [Adapter.park, heq, SortedMap.get?_insert_self] at hq
        cases hq
        refine ⟨by simp, fun pf hpf => ?_⟩
        rcases List.mem_append.1 hpf with hpf | hpf
        · cases hget : a.pending.get? symbol with
          | none =>
            rw [hget] at hpf
            simp at hpf
          | some q =>
            rw [hget, Option.getD_some] at hpf
            refine (ht.parked q hget).2 pf ?_
            split at hpf
            · exact List.mem_of_mem_tail hpf
            · exact hpf
        · rw [List.mem_singleton.1 hpf]
          exact List.ne_nil_of_mem hmem
      · intro _ _
        rw [Adapter.park, heq, SortedMap.get?_insert_self]
        rfl
      · intro hsome
        exact absurd hsome hp
  · have hnote : Tracked serde symbol False (h ++ [.note (.received f.symbol frameType)]) a := by
      refine ht.frame (by simp) (fun hr => ?_) rfl rfl rfl rfl
      rw [List.mem_singleton] at hr
      cases hr
      exact heq rfl
    split
    · exact hnote.applyBook_of_ne heq _ _ _
    · exact hnote.frame (by simp) (by simp) rfl rfl rfl
        (SortedMap.get?_insert_of_ne _ _ (Ne.symm heq))

theorem handleInstrument (ht : Tracked serde symbol False h a) (pairs : List PairInfo)
    (hclean : Clean symbol
      (h ++ ((pairs.foldl Adapter.setPrecision a).drainPending crates serde).2)) :
    Tracked serde symbol False
      (h ++ ((pairs.foldl Adapter.setPrecision a).drainPending crates serde).2)
      ((pairs.foldl Adapter.setPrecision a).drainPending crates serde).1 := by
  have heq := Adapter.foldl_setPrecision_eq pairs a
  have hprec := Adapter.get?_precision_foldl_setPrecision symbol pairs a
  generalize pairs.foldl Adapter.setPrecision a = b at heq hprec hclean
  have hbooks : b.books = a.books := by rw [heq]
  have hpend : b.pending = a.pending := by rw [heq]
  have hins : b.instruments = a.instruments := by rw [heq]
  refine Tracked.drainPending ⟨ht.outstanding, ?_, ?_, ?_, fun _ => Or.inl trivial⟩ ?_ hclean
  · rw [hins, hprec]
    split
    · rename_i hreg
      exact fun _ => hreg
    · exact ht.registered
  · rw [hpend]
    exact ht.parked
  · rw [hpend, hprec]
    intro hnone
    split at hnone
    · exact ht.waiting (Option.or_eq_none_iff.1 hnone).2
    · exact ht.waiting hnone
  · intro _
    rw [hpend, Live, hbooks]
    by_cases hr : .note (.received symbol "snapshot") ∈ h
    · cases hold : a.precision.get? symbol with
      | none => exact Or.inr (ht.waiting hold hr)
      | some p => exact Or.inl ((ht.live (by rw [hold]; rfl)).resolve_left id)
    · exact Or.inl (Or.inl (settled_of_not_received hr))

theorem step (ht : Tracked serde symbol False h a) (bytes : List UInt8) (recvTsNs : Int)
    (hclean : Clean symbol (h ++ (a.step crates serde bytes recvTsNs).2)) :
    Tracked serde symbol False (h ++ (a.step crates serde bytes recvTsNs).2)
      (a.step crates serde bytes recvTsNs).1 := by
  unfold Adapter.step at hclean ⊢
  simp only at hclean ⊢
  rw [← List.singleton_append, ← List.append_assoc] at hclean ⊢
  have hraw : ∀ raw, Tracked serde symbol False (h ++ [.record (.raw raw)])
      { a with connMsgSeq := a.connMsgSeq + 1 } :=
    fun raw => ht.frame (by simp) (by simp) rfl rfl rfl rfl
  cases hbody : (parse serde bytes).body with
  | book frames =>
    rw [hbody] at hclean
    exact Mealy.run_history_guarded _ Clean.left frames _ _
      (fun _ _ _ hf hc ht => ht.handleEntry hbody hf _ _ _ hc) hclean (hraw _)
  | trade trades =>
    refine (hraw _).frame (fun c hc => ?_) (fun hr => ?_) rfl rfl rfl rfl
    · obtain ⟨t, _, ht⟩ := List.mem_map.1 hc
      cases ht
    · obtain ⟨t, _, ht⟩ := List.mem_map.1 hr
      cases ht
  | instrument pairs =>
    rw [hbody] at hclean
    exact (hraw _).handleInstrument pairs hclean
  | other =>
    rw [Adapter.handleBody, List.append_nil]
    exact hraw _

end Tracked

/-! ## Whole connections -/

theorem tracked_connection {crates : Crates} {serde : Serde} {instruments : Instruments}
    {connId : String} {frames : List Frame} {symbol : String}
    (hclean : Clean symbol (connection crates serde instruments connId frames).2) :
    Tracked serde symbol False (connection crates serde instruments connId frames).2
      (connection crates serde instruments connId frames).1 := by
  have hstart : Tracked serde symbol False []
      ((Adapter.new instruments).beginConnection connId) := by
    refine ⟨Trace.everywhere_nil _, ?_, ?_, ?_, ?_⟩
    · exact fun h => by cases h
    · exact fun q h => by cases h
    · exact fun _ h => by cases h
    · exact fun h => by cases h
  have hrun := Mealy.run_history_guarded (fun a (f : Frame) => a.step crates serde f.1 f.2)
    Clean.left frames [] _ (fun _ _ f _ hc ht => ht.step f.1 f.2 hc) (by rwa [List.nil_append]) hstart
  rwa [List.nil_append] at hrun

/-- **A dark book has a resync outstanding, if darkness comes from a mismatch.**  In every
    connection in which no update finds a book that a verified frame left empty, and no queue with
    an update at its head is drained after a snapshot frame arrived, every ignored update is
    settled. -/
theorem resync_outstanding_of_clean {crates : Crates} {serde : Serde} {instruments : Instruments}
    {connId : String} {frames : List Frame} {symbol : String}
    (hclean : Clean symbol (connection crates serde instruments connId frames).2) :
    ResyncOutstanding symbol (connection crates serde instruments connId frames).2 :=
  (tracked_connection hclean).outstanding

/-! ## Two short connections -/

/-- A snapshot of one bid, the update that deletes it, and an update after that. -/
def emptyingFrames : List (String × List BookData) :=
  [("snapshot", [bidEntry "45000.0" "1.00000000" 1909750136]),
   ("update", [bidEntry "45000.0" "0.00000000" 0]),
   ("update", [bidEntry "45001.0" "2.00000000" 2312608381])]

/-- A snapshot that fails its checksum, and an update after it. -/
def mismatchFrames : List (String × List BookData) :=
  [("snapshot", [bidEntry "45000.0" "1.00000000" 1]),
   ("update", [bidEntry "45001.0" "2.00000000" 2312608381])]

/-- A connection that carries the instrument frame, then the given book frames. -/
def sampleConnection (fs : List (String × List BookData)) : Adapter × Outputs :=
  connection (Crates.ofTimes []) (Serde.ofFrames fs [btcPairs]) btcUsd "c1"
    ((instrumentBytes btcPairs, 0) :: fs.map fun f => (bookBytes f, 1))

/-- The verified delete empties the book, the next update is ignored, and nothing was resubscribed. -/
theorem emptied_book_stays_dark :
    ¬ ∀ (crates : Crates) (serde : Serde) (instruments : Instruments) (connId : String)
      (frames : List Frame) (symbol : String),
      ResyncOutstanding symbol (connection crates serde instruments connId frames).2 := by
  intro h
  have hbtc : ResyncOutstanding "BTC/USD" (sampleConnection emptyingFrames).2 := h _ _ _ _ _ _
  unfold ResyncOutstanding Settled at hbtc
  revert hbtc
  decide +kernel

theorem resync_outstanding_after_mismatch :
    Clean "BTC/USD" (sampleConnection mismatchFrames).2 ∧
      ResyncOutstanding "BTC/USD" (sampleConnection mismatchFrames).2 := by
  have hclean : Clean "BTC/USD" (sampleConnection mismatchFrames).2 :=
    ⟨by decide +kernel, by decide +kernel⟩
  exact ⟨hclean, resync_outstanding_of_clean hclean⟩

end K2.Capture.Kraken

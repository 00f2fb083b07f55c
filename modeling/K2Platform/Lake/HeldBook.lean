import K2Platform.Lake.ReplayCuts

/-!
# The book the replay holds

* `held_read` — what one frame does to the book the replay holds of a connection.
* `verdicts_replayPartition` — the verdicts of a connection, from the books held alone.
-/

set_option autoImplicit false

namespace K2.Lake

/-! ## What the replay holds -/

/-- The book of a connection, from its first snapshot on. -/
def Running.held (st : Running) : Option Book := if st.clock.live then some st.book else none

/-- The frame folded into a book. -/
def Payload.foldInto (b : Book) : Payload → Book
  | .kraken frameType bids asks _ _ =>
    krakenApply b frameType (levelsE8 bids) (levelsE8 asks) KRAKEN_DEPTH
  | .coinbase eventType updates _ _ =>
    applyUpdates updates (if eventType = "snapshot" then Book.empty else b)

/-- A frame is folded in from the first snapshot on. -/
def heldStep (b : Option Book) (p : Payload) : Option Book :=
  match b with
  | some b => some (p.foldInto b)
  | none => if p.isSnapshot then some (p.foldInto Book.empty) else none

/-- The book the replay holds after the first frames of a connection. -/
def heldAfter (run : ReplayRun) (rows : List TypedFrame) : Option Book :=
  match rows with
  | [] => none
  | r :: _ => (Mealy.run (Running.read run) (Running.opened none r) rows).1.held

section Read

variable (run : ReplayRun)

theorem live_flush (st : Running) (uptoNs : Int) :
    (st.flush run uptoNs).1.clock.live = st.clock.live := by
  unfold Running.flush
  cases hclock : st.clock with
  | idle => simp [Clock.next, hclock]
  | started firstNs =>
    simp only [Clock.next, Clock.advance]
    split <;> rfl
  | emitted lastSecondNs =>
    simp only [Clock.next, Clock.advance]
    split <;> rfl

theorem book_flush (st : Running) (uptoNs : Int) : (st.flush run uptoNs).1.book = st.book := by
  unfold Running.flush
  split <;> rfl

theorem book_fold (st : Running) (r : TypedFrame) :
    (st.fold run r).book = r.payload.foldInto st.book := by
  unfold Running.fold
  cases r.payload <;> rfl

theorem live_touch (st : Running) (r : TypedFrame) : (st.touch r).clock.live = true := by
  unfold Running.touch
  simp only
  split
  · assumption
  · rfl

/-- A snapshot does not read the book it replaces. -/
theorem foldInto_snapshot {p : Payload} (h : p.isSnapshot = true) (b b' : Book) :
    p.foldInto b = p.foldInto b' := by
  cases p with
  | kraken frameType bids asks checksum exchangeTs =>
    have htype : frameType = "snapshot" := of_decide_eq_true h
    simp only [Payload.foldInto, krakenApply, if_pos htype]
  | coinbase eventType updates sequenceNum envelopeTs =>
    have htype : eventType = "snapshot" := of_decide_eq_true h
    simp only [Payload.foldInto, if_pos htype]

theorem held_read (st : Running) (r : TypedFrame) :
    (st.read run r).1.held = heldStep st.held r.payload := by
  have hlive := live_flush run st r.recvTsNs
  have hbook := book_flush run st r.recvTsNs
  unfold Running.read
  simp only [hlive]
  cases hst : st.clock.live with
  | true =>
    simp only [Bool.not_true, Bool.false_and, Bool.false_eq_true, if_false]
    simp only [Running.held, live_touch, hst, if_true, heldStep]
    exact congrArg some ((book_fold run _ r).trans (by rw [hbook]))
  | false =>
    cases hsnap : r.payload.isSnapshot with
    | true =>
      simp only [Bool.not_true, Bool.and_false, Bool.false_eq_true, if_false]
      simp only [Running.held, live_touch, hst, if_true, heldStep, hsnap, Bool.false_eq_true,
        if_false]
      exact congrArg some ((book_fold run _ r).trans (foldInto_snapshot hsnap _ _))
    | false =>
      simp only [Bool.not_false, Bool.and_self, if_true]
      simp only [Running.held, hlive, hst, heldStep, hsnap, Bool.false_eq_true, if_false]

theorem held_run (rows : List TypedFrame) (st : Running) :
    (Mealy.run (Running.read run) st rows).1.held =
      (rows.map fun r => r.payload).foldl heldStep st.held := by
  induction rows generalizing st with
  | nil => rfl
  | cons r rows ih => rw [Mealy.run_cons, ih, held_read, List.map_cons, List.foldl_cons]

theorem heldAfter_eq (rows : List TypedFrame) :
    heldAfter run rows = (rows.map fun r => r.payload).foldl heldStep none := by
  cases rows with
  | nil => rfl
  | cons r rows => exact held_run run (r :: rows) _

end Read

/-! ## What the replay decides -/

/-- The verdicts of a replay, in order. -/
def verdicts (out : List Emission) : List (Option Bool) := (out.filterMap Emission.verdict?).map Prod.snd

theorem verdicts_append (out out' : List Emission) :
    verdicts (out ++ out') = verdicts out ++ verdicts out' := by
  simp [verdicts]

theorem verdicts_books (rows : List BookRow) : verdicts (rows.map Emission.book) = [] := by
  rw [verdicts, filterMap_map_book fun _ => rfl]
  rfl

section Verdict

variable (run : ReplayRun)

/-- What a Kraken frame's checksum says of the book with the frame folded in. -/
def TypedFrame.checksumOk (r : TypedFrame) (b : Book) : Option Bool :=
  match r.payload with
  | .kraken _ _ _ checksum _ =>
    (run.precisions r.symbol).map fun prec =>
      krakenChecksum run.floatDigits (b.top CHECKSUM_LEVELS).2 (b.top CHECKSUM_LEVELS).1 prec =
        checksum
  | .coinbase .. => none

/-- The verdict on each frame, `held` being the book held before the first. -/
def judge : Option Book → List TypedFrame → List (Option Bool)
  | _, [] => []
  | held, r :: rows =>
    let next := heldStep held r.payload
    (next.bind (r.checksumOk run)) :: judge next rows

theorem checksumOk_fold (st : Running) {r : TypedFrame} (h : r.payload.exchange = .kraken) :
    (st.fold run r).checksumOk = r.checksumOk run (r.payload.foldInto st.book) := by
  unfold Running.fold TypedFrame.checksumOk Payload.foldInto
  cases hpayload : r.payload with
  | kraken => rfl
  | coinbase =>
    rw [hpayload] at h
    cases h

theorem verdicts_read (st : Running) {r : TypedFrame} (h : r.payload.exchange = .kraken) :
    verdicts (st.read run r).2 = [(heldStep st.held r.payload).bind (r.checksumOk run)] := by
  have hlive := live_flush run st r.recvTsNs
  have hbook := book_flush run st r.recvTsNs
  have hone : ∀ ok, verdicts (r.verdicts ok) = [ok] := by
    intro ok
    unfold TypedFrame.verdicts
    cases hpayload : r.payload with
    | kraken => rfl
    | coinbase =>
      rw [hpayload] at h
      cases h
  unfold Running.read
  simp only [hlive]
  cases hst : st.clock.live with
  | true =>
    simp only [Bool.not_true, Bool.false_and, Bool.false_eq_true, if_false]
    rw [verdicts_append, verdicts_books, hone, List.nil_append, checksumOk_fold run _ h, hbook]
    simp only [Running.held, hst, if_true, heldStep, Option.bind_some]
  | false =>
    cases hsnap : r.payload.isSnapshot with
    | true =>
      simp only [Bool.not_true, Bool.and_false, Bool.false_eq_true, if_false]
      rw [verdicts_append, verdicts_books, hone, List.nil_append, checksumOk_fold run _ h,
        foldInto_snapshot hsnap _ Book.empty]
      simp only [Running.held, hst, heldStep, hsnap, Bool.false_eq_true, if_false, if_true,
        Option.bind_some]
    | false =>
      simp only [Bool.not_false, Bool.and_self, if_true]
      rw [verdicts_append, verdicts_books, hone, List.nil_append]
      simp only [Running.held, hst, heldStep, hsnap, Bool.false_eq_true, if_false,
        Option.bind_none]

theorem verdicts_run (rows : List TypedFrame) (h : ∀ r ∈ rows, r.payload.exchange = .kraken)
    (st : Running) :
    verdicts (Mealy.run (Running.read run) st rows).2 = judge run st.held rows := by
  induction rows generalizing st with
  | nil => rfl
  | cons r rows ih =>
    rw [Mealy.run_cons, verdicts_append, verdicts_read run st (h r List.mem_cons_self),
      ih (fun x hx => h x (List.mem_cons_of_mem r hx)), held_read]
    rfl

theorem verdicts_finish (st : Running) : verdicts (st.finish run) = [] := by
  unfold Running.finish Running.leave
  split
  · simp only
    rw [verdicts_append, verdicts_books, List.nil_append]
    split <;> rfl
  · rfl

/-- **The verdicts of a connection** that the replay meets for the first time. -/
theorem verdicts_replayPartition {key : BookKey} (rows : List TypedFrame)
    (hkey : ∀ r ∈ rows, r.key = key) (hkraken : ∀ r ∈ rows, r.payload.exchange = .kraken) :
    verdicts (replayPartition run (fun _ => none) rows) = judge run none rows := by
  cases rows with
  | nil => rfl
  | cons r rows =>
    have hgroup : ∀ x ∈ rows, x.key = r.key := fun x hx =>
      (hkey x (List.mem_cons_of_mem r hx)).trans (hkey r List.mem_cons_self).symm
    have hcons := replayPartition_cons run (fun _ => none) r [] hgroup
      (fun _ hx => nomatch hx)
    rw [List.append_nil] at hcons
    rw [hcons]
    simp only [Running.endBefore, List.isEmpty_nil, if_true, replayPartition, List.append_nil]
    rw [verdicts_append, verdicts_finish, List.append_nil]
    exact verdicts_run run (r :: rows) hkraken _

end Verdict

end K2.Lake

import Mathlib.Data.List.Induction
import K2Platform.Capture.Coinbase.Adapter

/-!
# What a Coinbase book is

The book of a product is a function of the frames received: the level updates since the most
recent `snapshot` event of the product, among the frames since the counter last jumped, folded
in order onto an empty book.

* `book_refinement` — the adapter keeps exactly that book, and asks for a reconnect exactly on a
  discontinuous frame, whose own events are applied to a connection without books.
-/

set_option autoImplicit false

namespace K2.Capture.Coinbase

/-! ## The books of a sequence of frames -/

def seqOf (serde : Serde) (f : Frame) : Option Int := (serde.envelope f.1).bind Envelope.sequenceNum

/-- The `sequence_num` of the last sequenced frame. -/
def lastSeq (serde : Serde) (before : List Frame) : Option Int :=
  (before.filterMap (seqOf serde)).getLast?

/-- The frame is sequenced, and its number is not the previous one plus one. -/
def Discontinuous (serde : Serde) (before : List Frame) (f : Frame) : Prop :=
  ∃ p q, lastSeq serde before = some p ∧ seqOf serde f = some q ∧ q ≠ p + 1

instance (serde : Serde) (before : List Frame) (f : Frame) :
    Decidable (Discontinuous serde before f) :=
  match hp : lastSeq serde before, hq : seqOf serde f with
  | some p, some q =>
    if h : q ≠ p + 1 then isTrue ⟨p, q, hp, hq, h⟩
    else isFalse (by
      rintro ⟨p', q', hp', hq', hne⟩
      rw [hp] at hp'
      rw [hq] at hq'
      cases hp'
      cases hq'
      exact h hne)
  | none, _ => isFalse (by rintro ⟨p', _, hp', _⟩; rw [hp] at hp'; cases hp')
  | _, none => isFalse (by rintro ⟨_, q', _, hq', _⟩; rw [hq] at hq'; cases hq')

/-- The most recent discontinuous frame and the frames after it; all of them if there is none. -/
def liveFrames (serde : Serde) (frames : List Frame) : List Frame :=
  go frames.reverse
where
  /-- Latest frame first. -/
  go : List Frame → List Frame
    | [] => []
    | f :: earlier => if Discontinuous serde earlier.reverse f then [f] else go earlier ++ [f]

/-- The `l2_data` events of a frame for one product. -/
def eventsOf (serde : Serde) (product : String) (f : Frame) : List L2Event :=
  match (Adapter.parse serde f.1).2 with
  | .l2 events => events.filter (·.productId = product)
  | _ => []

/-- The events from the most recent `snapshot` on. -/
def sinceSnapshot : List L2Event → Option (List L2Event)
  | [] => none
  | e :: es =>
    match sinceSnapshot es with
    | some l => some l
    | none => if e.typ = "snapshot" then some (e :: es) else none

/-- The absolute quantity a level sets, where it can be read. -/
def levelUpdate (lvl : L2Level) : Option (BookSide × Int × Int) := do
  let side ← lvl.bookSide
  let px ← (parseFixed lvl.priceLevel).toOption
  let qty ← (parseFixed lvl.newQuantity).toOption
  return (side, px, qty)

/-- The level updates of a `snapshot` or an `update`, in order. -/
def updatesOf (e : L2Event) : List (BookSide × Int × Int) :=
  if e.typ = "snapshot" ∨ e.typ = "update" then e.updates.filterMap levelUpdate else []

def foldUpdates (b : Book) (us : List (BookSide × Int × Int)) : Book :=
  us.foldl (fun b u => b.apply u.1 u.2.1 u.2.2) b

/-- The book the events of one product leave, if one of them is a `snapshot`. -/
def bookSinceSnapshot (events : List L2Event) : Option Book :=
  (sinceSnapshot events).map fun es => foldUpdates Book.empty (es.flatMap updatesOf)

/-- The book of a product after the frames of a connection. -/
def expectedBook (serde : Serde) (product : String) (frames : List Frame) : Option Book :=
  bookSinceSnapshot ((liveFrames serde frames).flatMap (eventsOf serde product))

/-! ## One more event -/

theorem sinceSnapshot_concat (es : List L2Event) (e : L2Event) :
    sinceSnapshot (es ++ [e]) =
      if e.typ = "snapshot" then some [e] else (sinceSnapshot es).map (· ++ [e]) := by
  induction es with
  | nil => simp [sinceSnapshot]
  | cons d es ih =>
    rw [List.cons_append, sinceSnapshot, ih, sinceSnapshot]
    by_cases htyp : e.typ = "snapshot"
    · simp only [if_pos htyp]
    · simp only [if_neg htyp]
      cases sinceSnapshot es with
      | some l => rfl
      | none =>
        simp only [Option.map_none]
        split <;> rfl

theorem foldUpdates_append (b : Book) (us vs : List (BookSide × Int × Int)) :
    foldUpdates b (us ++ vs) = foldUpdates (foldUpdates b us) vs :=
  List.foldl_append

/-- A further event: a `snapshot` starts over, an `update` folds onto a book that exists. -/
theorem bookSinceSnapshot_concat (es : List L2Event) (e : L2Event) :
    bookSinceSnapshot (es ++ [e]) =
      if e.typ = "snapshot" then some (foldUpdates Book.empty (updatesOf e))
      else (bookSinceSnapshot es).map (foldUpdates · (updatesOf e)) := by
  unfold bookSinceSnapshot
  rw [sinceSnapshot_concat]
  split
  · simp
  · cases sinceSnapshot es with
    | none => rfl
    | some l => simp [foldUpdates_append]

theorem liveFrames_concat (serde : Serde) (before : List Frame) (f : Frame) :
    liveFrames serde (before ++ [f]) =
      if Discontinuous serde before f then [f] else liveFrames serde before ++ [f] := by
  unfold liveFrames
  rw [List.reverse_append, List.reverse_singleton, List.singleton_append, liveFrames.go,
    List.reverse_reverse]

theorem lastSeq_concat (serde : Serde) (before : List Frame) (f : Frame) :
    lastSeq serde (before ++ [f]) = (seqOf serde f).or (lastSeq serde before) := by
  unfold lastSeq
  rw [List.filterMap_append, List.getLast?_append]
  cases h : seqOf serde f with
  | none => simp [h]
  | some q => simp [h]

/-! ## The adapter, event by event -/

section Events

variable {crates : Crates} {serde : Serde}

theorem book_applyLevel (state : BookState) (lvl : L2Level) :
    (applyLevel crates state lvl).book = foldUpdates state.book (levelUpdate lvl).toList := by
  unfold applyLevel levelUpdate
  cases lvl.bookSide with
  | none => rfl
  | some side =>
    cases parseFixed lvl.priceLevel with
    | error _ => rfl
    | ok px =>
      cases parseFixed lvl.newQuantity with
      | error _ => rfl
      | ok qty => rfl

theorem book_foldl_applyLevel :
    ∀ (lvls : List L2Level) (state : BookState),
      (lvls.foldl (applyLevel crates) state).book =
        foldUpdates state.book (lvls.filterMap levelUpdate)
  | [], _ => rfl
  | lvl :: lvls, state => by
    rw [List.foldl_cons, book_foldl_applyLevel lvls, book_applyLevel, ← foldUpdates_append]
    congr 1
    rw [List.filterMap_cons]
    cases levelUpdate lvl with
    | none => rfl
    | some u => rfl

/-- The book of one product in the state of the adapter. -/
def Adapter.bookOf (a : Adapter) (product : String) : Option Book :=
  (a.books.get? product).map BookState.book

/-- What an event of a registered product does to that product's book. -/
theorem bookOf_applyL2_self {a : Adapter} {e : L2Event}
    (hreg : (a.instruments.canonical e.productId).isSome) (recvTsNs n : Int) (seq : Option Int) :
    (a.applyL2 crates e recvTsNs n seq).bookOf e.productId =
      if e.typ = "snapshot" then some (foldUpdates Book.empty (updatesOf e))
      else (a.bookOf e.productId).map (foldUpdates · (updatesOf e)) := by
  have hsome : ¬ (a.instruments.canonical e.productId).isNone = true := by
    rw [Option.isNone_iff_eq_none]
    intro h
    rw [h] at hreg
    cases hreg
  unfold Adapter.applyL2 BookState.base updatesOf
  rw [if_neg hsome]
  by_cases hsnap : e.typ = "snapshot"
  · simp [Adapter.bookOf, hsnap, SortedMap.get?_insert_self, book_foldl_applyLevel]
  · by_cases hup : e.typ = "update"
    · cases hget : a.books.get? e.productId with
      | none => simp [Adapter.bookOf, hup, hget]
      | some state =>
        simp [Adapter.bookOf, hup, hget, SortedMap.get?_insert_self, book_foldl_applyLevel]
    · simp [hsnap, hup, foldUpdates]

theorem bookOf_applyL2_of_ne (a : Adapter) {e : L2Event} {product : String}
    (hne : e.productId ≠ product) (recvTsNs n : Int) (seq : Option Int) :
    (a.applyL2 crates e recvTsNs n seq).bookOf product = a.bookOf product := by
  unfold Adapter.applyL2 Adapter.bookOf
  split
  · rfl
  · split
    · rfl
    · rw [SortedMap.get?_insert_of_ne _ _ (Ne.symm hne)]

theorem bookOf_applyL2_of_unregistered (a : Adapter) (e : L2Event) {product : String}
    (hreg : (a.instruments.canonical product).isSome = false) (recvTsNs n : Int)
    (seq : Option Int) :
    (a.applyL2 crates e recvTsNs n seq).bookOf product = a.bookOf product := by
  by_cases heq : e.productId = product
  · unfold Adapter.applyL2
    rw [if_pos (by rw [heq]; simpa using hreg)]
  · exact bookOf_applyL2_of_ne a heq _ _ _

theorem applyL2_fst (a : Adapter) (e : L2Event) (recvTsNs n : Int) (seq : Option Int) :
    a.applyL2 crates e recvTsNs n seq =
      { a with books := (a.applyL2 crates e recvTsNs n seq).books } := by
  unfold Adapter.applyL2
  split
  · rfl
  · split <;> rfl

/-- The adapter keeps the expected book of every registered product, and no other. -/
def Books (instruments : Instruments) (events : String → List L2Event) (a : Adapter) : Prop :=
  ∀ product, a.bookOf product =
    if (instruments.canonical product).isSome then bookSinceSnapshot (events product) else none

theorem Books.applyL2 {instruments : Instruments} {events : String → List L2Event} {a : Adapter}
    (hins : a.instruments = instruments) (h : Books instruments events a) (e : L2Event)
    (recvTsNs n : Int) (seq : Option Int) :
    Books instruments (fun p => events p ++ [e].filter (·.productId = p))
      (a.applyL2 crates e recvTsNs n seq) := by
  intro product
  cases hreg : (instruments.canonical product).isSome with
  | false =>
    rw [bookOf_applyL2_of_unregistered a e (by rw [hins]; exact hreg), h product, hreg]
    rfl
  | true =>
    have hbook := h product
    rw [hreg, if_pos rfl] at hbook
    simp only [if_true]
    by_cases heq : e.productId = product
    · subst heq
      rw [bookOf_applyL2_self (by rw [hins]; exact hreg), hbook,
        List.filter_cons_of_pos (by simp), List.filter_nil, bookSinceSnapshot_concat]
    · rw [bookOf_applyL2_of_ne a heq, hbook, List.filter_cons_of_neg (by simpa using heq),
        List.filter_nil, List.append_nil]

theorem Books.handleEvents {instruments : Instruments} (carried : List String) (recvTsNs n : Int)
    (seq : Option Int) :
    ∀ (es : List L2Event) {events : String → List L2Event} {a : Adapter},
      a.instruments = instruments → Books instruments events a →
      Books instruments (fun p => events p ++ es.filter (·.productId = p))
        (Mealy.run (Adapter.handleEvent crates carried recvTsNs n seq) a es).1
  | [], events, a, _, h => by
    intro product
    simp only [List.filter_nil, List.append_nil]
    exact h product
  | e :: es, events, a, hins, h => by
    have hnext : Books instruments (fun p => events p ++ [e].filter (·.productId = p))
        (a.applyL2 crates e recvTsNs n seq) := h.applyL2 hins e recvTsNs n seq
    have hins' : (a.applyL2 crates e recvTsNs n seq).instruments = instruments := by
      rw [applyL2_fst]
      exact hins
    have hrest := handleEvents carried recvTsNs n seq es hins' hnext
    intro product
    have hsplit : events product ++ (e :: es).filter (·.productId = product) =
        (events product ++ [e].filter (·.productId = product)) ++
          es.filter (·.productId = product) := by
      rw [List.append_assoc, ← List.filter_append, List.singleton_append]
    simp only [hsplit]
    exact hrest product

end Events

/-! ## The adapter, frame by frame -/

section Frames

variable {crates : Crates} {serde : Serde} {instruments : Instruments}

/-- What ties the adapter to the frames it has handled. -/
structure Refines (serde : Serde) (instruments : Instruments) (frames : List Frame) (a : Adapter) :
    Prop where
  registry : a.instruments = instruments
  expected : a.expectedSeq = (lastSeq serde frames).map (· + 1)
  books : Books instruments (fun p => (liveFrames serde frames).flatMap (eventsOf serde p)) a

/-- What the continuity check leaves: no book after a discontinuous frame, else the same ones. -/
theorem Refines.checkFrame {frames : List Frame} {a : Adapter}
    (h : Refines serde instruments frames a) {f : Frame} {e : Envelope}
    (henv : serde.envelope f.1 = some e)
    (hseq : ∀ q ∈ seqOf serde f, I64.MIN ≤ q ∧ q < I64.MAX) :
    (a.checkFrame e).1.instruments = instruments ∧
      (a.checkFrame e).1.expectedSeq = (lastSeq serde (frames ++ [f])).map (· + 1) ∧
      (a.checkFrame e).1.books =
        (if Discontinuous serde frames f then SortedMap.empty else a.books) ∧
      (a.checkFrame e).2 = if Discontinuous serde frames f then [.reconnect] else [] := by
  have hof : seqOf serde f = e.sequenceNum := by rw [seqOf, henv, Option.bind_some]
  rw [lastSeq_concat, hof]
  unfold Adapter.checkFrame
  cases hq : e.sequenceNum with
  | none =>
    have hcont : ¬ Discontinuous serde frames f := by
      rintro ⟨_, q, _, hq', _⟩
      rw [hof, hq] at hq'
      cases hq'
    rw [if_neg hcont, if_neg hcont]
    exact ⟨h.registry, h.expected, rfl, rfl⟩
  | some q =>
    obtain ⟨hmin, hmax⟩ := hseq q (hof.trans hq)
    have hwrap : I64.wrap (q + 1) = q + 1 := I64.wrap_of_inRange ⟨by omega, by omega⟩
    have hdisc : (a.expectedSeq.any (· ≠ q)) = true ↔ Discontinuous serde frames f := by
      rw [h.expected]
      constructor
      · intro hany
        cases hlast : lastSeq serde frames with
        | none => rw [hlast] at hany; cases hany
        | some p =>
          rw [hlast] at hany
          refine ⟨p, q, hlast, hof.trans hq, fun heq => ?_⟩
          simp [heq] at hany
      · rintro ⟨p, q', hlast, hq', hne⟩
        rw [hof, hq] at hq'
        cases hq'
        rw [hlast]
        simpa using Ne.symm hne
    simp only [Adapter.checkSequence, hwrap, Option.some_or, Option.map_some]
    by_cases hd : Discontinuous serde frames f
    · rw [if_pos hd, if_pos hd, if_pos (hdisc.2 hd)]
      exact ⟨h.registry, rfl, rfl, rfl⟩
    · rw [if_neg hd, if_neg hd, if_neg fun hany => hd (hdisc.1 hany)]
      exact ⟨h.registry, rfl, rfl, rfl⟩

/-- Beside the books, handling the body of a frame changes nothing. -/
theorem handleBody_fst (a : Adapter) (e : Envelope) (recvTsNs : Int) (body : Body) :
    (a.handleBody crates e recvTsNs body).1.instruments = a.instruments ∧
      (a.handleBody crates e recvTsNs body).1.expectedSeq = a.expectedSeq := by
  cases body with
  | l2 events =>
    refine Mealy.run_state _ (I := fun (b : Adapter) => b.instruments = a.instruments ∧
      b.expectedSeq = a.expectedSeq) (fun b e hb => ?_) events a ⟨rfl, rfl⟩
    unfold Adapter.handleEvent
    rw [applyL2_fst]
    exact hb
  | trades events => exact ⟨rfl, rfl⟩
  | control => exact ⟨rfl, rfl⟩
  | other => exact ⟨rfl, rfl⟩

theorem actions_handleBody (a : Adapter) (e : Envelope) (recvTsNs : Int) (body : Body) :
    Output.actions (a.handleBody crates e recvTsNs body).2 = [] := by
  refine List.filterMap_eq_nil_iff.2 fun o ho => ?_
  cases body with
  | l2 events =>
    have hnote := Mealy.run_output (Adapter.handleEvent crates (events.map L2Event.productId)
      recvTsNs a.connMsgSeq e.sequenceNum) (I := fun _ => True) (Q := fun o => o.action? = none)
      (fun _ _ _ => trivial) (fun _ _ _ o ho => by rw [List.mem_singleton.1 ho]; rfl) events a trivial
    exact hnote o ho
  | trades events =>
    obtain ⟨t, _, rfl⟩ := List.mem_map.1 ho
    rfl
  | control => cases ho
  | other =>
    unfold Adapter.handleBody at ho
    simp only at ho
    split at ho
    · rw [List.mem_singleton.1 ho]
      rfl
    · cases ho

/-- The events of the frame itself, on top of those the continuity check left. -/
theorem Books.handleBody {events : String → List L2Event} {a : Adapter}
    (hins : a.instruments = instruments) (h : Books instruments events a) {f : Frame} {e : Envelope}
    (henv : serde.envelope f.1 = some e) (recvTsNs : Int) :
    Books instruments (fun p => events p ++ eventsOf serde p f)
      (a.handleBody crates e recvTsNs (Body.parse serde e)).1 := by
  have hparse : (Adapter.parse serde f.1).2 = Body.parse serde e := by
    unfold Adapter.parse
    rw [henv]
  unfold eventsOf
  rw [hparse]
  cases Body.parse serde e with
  | l2 es => exact Books.handleEvents _ _ _ _ es hins h
  | trades es =>
    simp only [List.append_nil]
    exact h
  | control =>
    simp only [List.append_nil]
    exact h
  | other =>
    simp only [List.append_nil]
    exact h

theorem Refines.step {frames : List Frame} {a : Adapter} (h : Refines serde instruments frames a)
    (f : Frame) (hseq : ∀ q ∈ seqOf serde f, I64.MIN ≤ q ∧ q < I64.MAX) :
    Refines serde instruments (frames ++ [f]) (a.step crates serde f.1 f.2).1 ∧
      Output.actions (a.step crates serde f.1 f.2).2 =
        if Discontinuous serde frames f then [.reconnect] else [] := by
  let a' := { a with connMsgSeq := a.connMsgSeq + 1 }
  have h' : Refines serde instruments frames a' := ⟨h.registry, h.expected, h.books⟩
  unfold Adapter.step
  cases henv : serde.envelope f.1 with
  | none =>
    have hnoseq : seqOf serde f = none := by rw [seqOf, henv, Option.bind_none]
    have hcont : ¬ Discontinuous serde frames f := by
      rintro ⟨_, q, _, hq, _⟩
      rw [hnoseq] at hq
      cases hq
    have hnoev : ∀ p, eventsOf serde p f = [] := by
      intro p
      unfold eventsOf Adapter.parse
      rw [henv]
    rw [if_neg hcont]
    refine ⟨⟨h'.registry, ?_, fun p => ?_⟩, rfl⟩
    · rw [lastSeq_concat, hnoseq, Option.none_or]
      exact h'.expected
    · have hlive : (liveFrames serde (frames ++ [f])).flatMap (eventsOf serde p) =
          (liveFrames serde frames).flatMap (eventsOf serde p) := by
        rw [liveFrames_concat, if_neg hcont, List.flatMap_append, List.flatMap_singleton, hnoev,
          List.append_nil]
      simp only [hlive]
      exact h'.books p
  | some e =>
    obtain ⟨hins, hexp, hbooks, hact⟩ := h'.checkFrame henv hseq
    have hbase : Books instruments (fun p => if Discontinuous serde frames f then []
        else (liveFrames serde frames).flatMap (eventsOf serde p)) (a'.checkFrame e).1 := by
      intro p
      unfold Adapter.bookOf
      rw [hbooks]
      split
      · simp [bookSinceSnapshot, sinceSnapshot]
      · exact h'.books p
    have hbody : Books instruments _ ((a'.checkFrame e).1.handleBody crates e f.2
      (Body.parse serde e)).1 := hbase.handleBody hins henv f.2
    obtain ⟨hins', hexp'⟩ : ((a'.checkFrame e).1.handleBody crates e f.2
        (Body.parse serde e)).1.instruments = _ ∧ _ := handleBody_fst _ e f.2 _
    refine ⟨⟨hins'.trans hins, hexp'.trans hexp, fun p => ?_⟩, ?_⟩
    · have hlive : (liveFrames serde (frames ++ [f])).flatMap (eventsOf serde p) =
          (if Discontinuous serde frames f then []
            else (liveFrames serde frames).flatMap (eventsOf serde p)) ++ eventsOf serde p f := by
        rw [liveFrames_concat]
        split <;> simp
      simp only [hlive]
      exact hbody p
    · have hmap : ∀ acts : List Action, Output.actions
          (acts.map fun act => (Output.action act : Output L2Note)) = acts := by
        intro acts
        simp [Output.actions, List.filterMap_map, Function.comp_def, Output.action?]
      have hraw : ∀ raw (outs : Outputs), Output.actions (.record (.raw raw) :: outs) =
          Output.actions outs := fun _ _ => rfl
      simp only [List.cons_append, hraw, Output.actions_append, hmap, actions_handleBody,
        List.append_nil]
      exact hact

theorem refines_connection (connId : String) :
    ∀ (frames : List Frame),
      (∀ f ∈ frames, ∀ q ∈ seqOf serde f, I64.MIN ≤ q ∧ q < I64.MAX) →
      Refines serde instruments frames (connection crates serde instruments connId frames).1 := by
  intro frames
  induction frames using List.reverseRecOn with
  | nil =>
    intro _
    refine ⟨rfl, rfl, fun p => ?_⟩
    cases (instruments.canonical p).isSome <;> rfl
  | append_singleton before f ih =>
    intro hseq
    have hbefore := ih fun g hg => hseq g (List.mem_append_left _ hg)
    unfold connection at hbefore ⊢
    rw [Mealy.run_concat]
    exact (hbefore.step f (hseq f (by simp))).1

/-- **Coinbase books refine the frames received.**  After any frames, the book of a registered
    product is the fold of the level updates since its last `snapshot` event among the frames since
    the counter last jumped; a discontinuous frame, and no other, asks for one reconnect, and its
    own events are applied after every book is dropped. -/
theorem book_refinement (connId : String) (frames : List Frame)
    (hseq : ∀ f ∈ frames, ∀ q ∈ seqOf serde f, I64.MIN ≤ q ∧ q < I64.MAX) :
    (∀ product, (instruments.canonical product).isSome →
      (connection crates serde instruments connId frames).1.bookOf product =
        expectedBook serde product frames) ∧
    (∀ before f after, frames = before ++ f :: after →
      let a := (connection crates serde instruments connId before).1
      (a.handleFrame crates serde f.1 f.2).2.actions =
          (if Discontinuous serde before f then [.reconnect] else []) ∧
        (Discontinuous serde before f → ∀ product, (instruments.canonical product).isSome →
          (a.handleFrame crates serde f.1 f.2).1.bookOf product =
            bookSinceSnapshot (eventsOf serde product f))) := by
  constructor
  · intro product hreg
    have hrefines : Refines serde instruments frames
        (connection crates serde instruments connId frames).1 := refines_connection connId frames hseq
    have hbook := hrefines.books product
    rwa [if_pos hreg] at hbook
  · intro before f after hsplit
    have hf : f ∈ frames := hsplit ▸ by simp
    have hbefore : Refines serde instruments before
        (connection crates serde instruments connId before).1 :=
      refines_connection connId before fun g hg => hseq g (hsplit ▸ List.mem_append_left _ hg)
    obtain ⟨hafter, hact⟩ : Refines serde instruments (before ++ [f])
        ((connection crates serde instruments connId before).1.step crates serde f.1 f.2).1 ∧ _ :=
      hbefore.step f (hseq f hf)
    refine ⟨hact, fun hd product hreg => ?_⟩
    have hbook := hafter.books product
    simp only [if_pos hreg, liveFrames_concat, if_pos hd, List.flatMap_singleton] at hbook
    exact hbook

/-- A snapshot, an update, and an update whose number jumps. -/
def jumpFrames : List (Int × List L2Event) :=
  [(0, [atomEvent "snapshot" "1.5577" "92.81"]),
   (1, [atomEvent "update" "1.5576" "160.49"]),
   (5, [atomEvent "update" "1.5575" "10"])]

theorem book_refinement_jump :
    (∀ f ∈ jumpFrames.map l2Frame, ∀ q ∈ seqOf (Serde.ofFrames jumpFrames) f,
        I64.MIN ≤ q ∧ q < I64.MAX) ∧
      ∀ product, (atomUsd.canonical product).isSome →
        (connection timed (Serde.ofFrames jumpFrames) atomUsd "c1" (jumpFrames.map l2Frame)).1.bookOf
          product = expectedBook (Serde.ofFrames jumpFrames) product (jumpFrames.map l2Frame) := by
  have hseq : ∀ f ∈ jumpFrames.map l2Frame, ∀ q ∈ seqOf (Serde.ofFrames jumpFrames) f,
      I64.MIN ≤ q ∧ q < I64.MAX := by decide +kernel
  exact ⟨hseq, (book_refinement "c1" _ hseq).1⟩

end Frames

end K2.Capture.Coinbase

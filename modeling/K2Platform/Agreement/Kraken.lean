import K2Platform.Agreement.Held
import K2Platform.Capture.Kraken.Parking
import K2Platform.Lib.Forall2

/-!
# Capture and lake on Kraken books

A frame that the capture cannot verify costs it its book until the next snapshot; the lake keeps
folding and notes the failed verdict.  As long as the capture has a book, it is the lake's.

* `checksum_ofCapture` — the checksum of one book, on both sides.
* `Tracks.entry` — an entry keeps the relation, and what the capture decides on it is its verdict.
* `kraken_books_agree` — both, after any frames.
-/

set_option autoImplicit false

namespace K2.Lake

open K2.Capture (BookSide Crates Instruments parseFixed Output Action)
open K2.Capture.Kraken (Stamped Call Outputs Serde call? calls knownConnection knownStart
  receivedEntries about framePrecision)

/-! ## One entry in the lake -/

/-- A level, and the level of `bids` or `asks` it is typed into. -/
structure TypedLevel (l : Capture.Kraken.Level) (m : Level) : Prop where
  px : SameNumber l.price m.px
  qty : SameNumber l.qty m.qty

/-- The silver row an entry is typed into, wherever in the archive its frame is. -/
structure TypedEntry (connId : String) (e : Stamped) (r : TypedFrame) : Prop where
  symbol : r.symbol = e.data.symbol
  connId_eq : r.connId = connId
  recvTsNs : r.recvTsNs = e.recvTsNs
  connMsgSeq : r.connMsgSeq = e.connMsgSeq
  known : e.frameType = "snapshot" ∨ e.frameType = "update"
  payload : ∃ bids asks exchangeTs,
    r.payload = .kraken e.frameType bids asks e.data.checksum.toNat exchangeTs ∧
      List.Forall₂ TypedLevel e.data.bids bids ∧ List.Forall₂ TypedLevel e.data.asks asks

/-! ## Prices and quantities are not negative -/

def NonnegLevels (levels : List (Int × Int)) : Prop := ∀ l ∈ levels, 0 ≤ l.1 ∧ 0 ≤ l.2

structure Book.Nonneg (b : Book) : Prop where
  bids : NonnegLevels b.bids.entries
  asks : NonnegLevels b.asks.entries

theorem nonneg_empty : Book.empty.Nonneg := ⟨(fun _ h => nomatch h), (fun _ h => nomatch h)⟩

theorem nonneg_setLevel {levels : SortedMap Int Int} (h : NonnegLevels levels.entries) {px qty : Int}
    (hpx : 0 ≤ px) (hqty : 0 ≤ qty) : NonnegLevels (Book.setLevel levels px qty).entries := by
  intro l hl
  unfold Book.setLevel at hl
  split at hl
  · exact h l (SortedMap.mem_entries_erase.1 hl).2
  · rcases SortedMap.mem_entries_insert.1 hl with rfl | ⟨_, hl⟩
    · exact ⟨hpx, hqty⟩
    · exact h l hl

theorem Book.Nonneg.apply {b : Book} (h : b.Nonneg) (side : BookSide) {px qty : Int} (hpx : 0 ≤ px)
    (hqty : 0 ≤ qty) : (b.apply side px qty).Nonneg := by
  cases side with
  | bid => exact ⟨nonneg_setLevel h.bids hpx hqty, h.asks⟩
  | ask => exact ⟨h.bids, nonneg_setLevel h.asks hpx hqty⟩

theorem Book.Nonneg.truncate {b : Book} (h : b.Nonneg) (depth : Nat) : (b.truncate depth).Nonneg :=
  ⟨fun l hl => h.bids l (SortedMap.mem_of_mem_popFirstTo hl),
   fun l hl => h.asks l (SortedMap.mem_of_mem_popLastTo hl)⟩

theorem Book.Nonneg.applyLevels {side : BookSide} {levels : Levels} (hlevels : NonnegLevels levels)
    {b : Book} (h : b.Nonneg) : (applyLevels side levels b).Nonneg := by
  unfold K2.Lake.applyLevels
  induction levels generalizing b with
  | nil => exact h
  | cons l levels ih =>
    obtain ⟨hpx, hqty⟩ := hlevels l List.mem_cons_self
    exact ih (fun m hm => hlevels m (List.mem_cons_of_mem l hm)) (h.apply side hpx hqty)

theorem nonneg_levelsE8 {levels : List Capture.Kraken.Level} {typed : List Level}
    (h : List.Forall₂ TypedLevel levels typed) : NonnegLevels (levelsE8 typed) := by
  induction h with
  | nil => exact fun _ hl => nomatch hl
  | cons hlevel _ ih =>
    intro l hl
    rcases List.mem_cons.1 hl with rfl | hl
    · exact ⟨hlevel.px.value.2, hlevel.qty.value.2⟩
    · exact ih l hl

theorem Book.Nonneg.krakenApply {b : Book} (h : b.Nonneg) (frameType : String) {bids asks : Levels}
    (hbids : NonnegLevels bids) (hasks : NonnegLevels asks) (depth : Nat) :
    (krakenApply b frameType bids asks depth).Nonneg := by
  refine Book.Nonneg.truncate (Book.Nonneg.applyLevels hasks (Book.Nonneg.applyLevels hbids ?_)) _
  split
  · exact nonneg_empty
  · exact h

/-! ## The same levels folded into the same book -/

theorem applyLevel_eq (side : BookSide) {l : Capture.Kraken.Level} {m : Level} (h : TypedLevel l m)
    (b : Capture.Book) :
    ∃ b', Capture.Kraken.applyLevel side (b, true) l = (b', true) ∧
      Book.ofCapture b' = (Book.ofCapture b).apply side (e8 m.px) (e8 m.qty) := by
  obtain ⟨hpx, _⟩ := h.px.value
  obtain ⟨hqty, hnonneg⟩ := h.qty.value
  refine ⟨b.apply side (e8 m.px) (e8 m.qty), ?_, ofCapture_apply b side _ hnonneg⟩
  simp only [Capture.Kraken.applyLevel, hpx, hqty]

theorem foldl_applyLevel_eq (side : BookSide) {levels : List Capture.Kraken.Level}
    {typed : List Level} (h : List.Forall₂ TypedLevel levels typed) (b : Capture.Book) :
    ∃ b', levels.foldl (Capture.Kraken.applyLevel side) (b, true) = (b', true) ∧
      Book.ofCapture b' = applyLevels side (levelsE8 typed) (Book.ofCapture b) := by
  induction h generalizing b with
  | nil => exact ⟨b, rfl, rfl⟩
  | cons hlevel _ ih =>
    obtain ⟨b₁, hone, hbook₁⟩ := applyLevel_eq side hlevel b
    obtain ⟨b₂, hrest, hbook₂⟩ := ih b₁
    refine ⟨b₂, ?_, ?_⟩
    · rw [List.foldl_cons, hone, hrest]
    · rw [hbook₂, hbook₁]
      rfl

section Entry

variable {f : Capture.Kraken.BookData} {bids asks : List Level} {frameType : String}

/-- Every level of a typed entry parses, and both sides fold it into the same book. -/
theorem foldedBook_eq (hbids : List.Forall₂ TypedLevel f.bids bids)
    (hasks : List.Forall₂ TypedLevel f.asks asks) (b : Capture.Book) (depth : Nat) :
    (Capture.Kraken.applyLevels (if frameType = "snapshot" then Capture.Book.empty else b) f).2 =
        true ∧
      Book.ofCapture (Capture.Kraken.foldedBook b f frameType depth) =
        krakenApply (Book.ofCapture b) frameType (levelsE8 bids) (levelsE8 asks) depth := by
  have hstart : Book.ofCapture (if frameType = "snapshot" then Capture.Book.empty else b) =
      if frameType = "snapshot" then Book.empty else Book.ofCapture b := by
    split <;> rfl
  obtain ⟨b₁, hone, hbook₁⟩ := foldl_applyLevel_eq .bid hbids
    (if frameType = "snapshot" then Capture.Book.empty else b)
  obtain ⟨b₂, htwo, hbook₂⟩ := foldl_applyLevel_eq .ask hasks b₁
  have hlevels : Capture.Kraken.applyLevels
      (if frameType = "snapshot" then Capture.Book.empty else b) f = (b₂, true) := by
    rw [Capture.Kraken.applyLevels, hone, htwo]
  unfold Capture.Kraken.foldedBook krakenApply
  rw [hlevels]
  refine ⟨rfl, ?_⟩
  simp only
  rw [ofCapture_truncate, hbook₂, hbook₁, hstart]

end Entry

/-! ## The checksum on both sides -/

theorem toList_join (parts : List String) :
    (String.join parts).toByteArray.data.toList =
      parts.flatMap fun s => s.toByteArray.data.toList := by
  induction parts with
  | nil => rfl
  | cons s parts ih => simp [String.join_cons, String.toByteArray_append, ih]

section Checksum

variable (floatDigits : Int → Int → String) {precision : Nat × Nat}

theorem checksumDigits_eq {units : Int} (hunits : 0 ≤ units) {digits : Nat} (hdigits : digits ≤ 8) :
    checksumDigits floatDigits units digits = Capture.checksumDigits units digits := by
  have hle : (digits : Int) ≤ (SCALE_DP : Int) := by
    unfold SCALE_DP
    omega
  have hexp : ((SCALE_DP : Int) - (digits : Int)).toNat = Capture.SCALE_DP - digits := by
    unfold SCALE_DP Capture.SCALE_DP
    omega
  rw [checksumDigits, if_pos hle, Capture.checksumDigits, hexp,
    Int.tdiv_eq_ediv_of_nonneg hunits]

theorem checksumSide_eq {levels : Levels} (h : NonnegLevels levels) (hpx : precision.1 ≤ 8)
    (hqty : precision.2 ≤ 8) :
    (checksumSide floatDigits levels (precision.1, precision.2)).toByteArray.data.toList =
      (levels.take Capture.Kraken.CHECKSUM_LEVELS).flatMap fun lvl =>
        (Capture.checksumDigits lvl.1 precision.1).toByteArray.data.toList ++
          (Capture.checksumDigits lvl.2 precision.2).toByteArray.data.toList := by
  rw [checksumSide, toList_join, List.flatMap_map]
  refine List.flatMap_congr fun lvl hlvl => ?_
  obtain ⟨hlvl₁, hlvl₂⟩ := h lvl (List.mem_of_mem_take hlvl)
  rw [checksumDigits_eq floatDigits hlvl₁ hpx, checksumDigits_eq floatDigits hlvl₂ hqty]
  simp [String.toByteArray_append]

theorem nonneg_take {levels : Levels} (h : NonnegLevels levels) (n : Nat) :
    NonnegLevels (levels.take n) := fun l hl => h l (List.mem_of_mem_take hl)

theorem nonneg_reverse {levels : Levels} (h : NonnegLevels levels) : NonnegLevels levels.reverse :=
  fun l hl => h l (List.mem_reverse.1 hl)

/-- **One book has one checksum.** -/
theorem checksum_ofCapture {crates : Crates} (hcrc : crates.crc32 = Crc32.checksum)
    {b : Capture.Book} (h : (Book.ofCapture b).Nonneg) (hpx : precision.1 ≤ 8)
    (hqty : precision.2 ≤ 8) :
    krakenChecksum floatDigits ((Book.ofCapture b).top CHECKSUM_LEVELS).2
        ((Book.ofCapture b).top CHECKSUM_LEVELS).1 (precision.1, precision.2) =
      (Capture.Kraken.Book.checksum crates b precision).toNat := by
  have hasks := checksumSide_eq floatDigits (nonneg_take h.asks CHECKSUM_LEVELS) hpx hqty
  have hbids := checksumSide_eq floatDigits
    (nonneg_take (nonneg_reverse h.bids) CHECKSUM_LEVELS) hpx hqty
  rw [krakenChecksum, Capture.Kraken.Book.checksum, Capture.Kraken.bookChecksum, hcrc,
    Capture.Kraken.checksumBytes, String.toByteArray_append]
  simp only [ByteArray.data_append, Array.toList_append, List.flatMap_cons, List.flatMap_nil,
    List.append_nil]
  exact congrArg (fun bytes => ((Crc32.checksum bytes).toNat : Int))
    (congrArg₂ (fun xs ys => xs ++ ys) hasks hbids)

end Checksum

/-! ## One entry on both sides -/

/-- What the capture decided on an entry is the lake's verdict on it. -/
structure Judged (outs : Outputs) (ok : Option Bool) : Prop where
  verified : (∃ c ∈ calls outs, c.outcome = .verified) → ok = some true
  resubscribed : (∃ native, Action.resubscribe native ∈ Output.actions outs) → ok = some false

/-- What each entry makes the capture put out. -/
def entryOutputs (crates : Crates) (a : Capture.Kraken.Adapter) (es : List Stamped) : List Outputs :=
  Mealy.outputs (fun a e => a.applyBook crates e.data e.frameType e.recvTsNs e.connMsgSeq) a es

/-- While the capture has a book of the symbol, the lake has the same. -/
structure Tracks (state : Capture.Kraken.BookState) (held : Option Book) : Prop where
  nonneg : (Book.ofCapture state.book).Nonneg
  same : state.book.isEmpty = false → held = some (Book.ofCapture state.book)

theorem Tracks.of_empty {state : Capture.Kraken.BookState} (h : state.book = Capture.Book.empty)
    (held : Option Book) : Tracks state held where
  nonneg := by
    rw [h]
    exact nonneg_empty
  same hempty := by
    rw [h] at hempty
    cases hempty

/-- What both sides are given: the pair's precision, the depth, and the checksum. -/
structure Shared (crates : Crates) (run : ReplayRun) (symbol : String) (precision : Nat × Nat)
    (a : Capture.Kraken.Adapter) : Prop where
  crc : crates.crc32 = Crc32.checksum
  registered : (a.instruments.canonical symbol).isSome
  depth : a.subscriptionDepth symbol = KRAKEN_DEPTH
  known : a.precision.get? symbol = some precision
  px_le : precision.1 ≤ 8
  qty_le : precision.2 ≤ 8
  replayed : run.precisions symbol = some ((precision.1 : Int), (precision.2 : Int))

section Step

variable {crates : Crates} {run : ReplayRun} {symbol connId : String} {precision : Nat × Nat}
  {a : Capture.Kraken.Adapter} {held : Option Book} {e : Stamped} {r : TypedFrame}

theorem Shared.applyBook (h : Shared crates run symbol precision a)
    (f : Capture.Kraken.BookData) (frameType : String) (recvTsNs n : Int) :
    Shared crates run symbol precision (a.applyBook crates f frameType recvTsNs n).1 := by
  rw [Capture.Kraken.Adapter.applyBook_fst]
  exact ⟨h.crc, h.registered, h.depth, h.known, h.px_le, h.qty_le, h.replayed⟩

/-- Where the capture folds the entry in, the lake's book is the folded one, and the verdict is
    whether the two checksums are equal. -/
theorem Tracks.folded (h : Tracks (a.stored symbol) held) (hshared : Shared crates run symbol precision a)
    (hsymbol : e.data.symbol = symbol) (hr : TypedEntry connId e r)
    (hfold : ¬ (e.frameType = "update" ∧ (a.stored symbol).book.isEmpty = true)) :
    let folded := Capture.Kraken.foldedBook (a.stored symbol).book e.data e.frameType
      (a.subscriptionDepth symbol)
    heldStep held r.payload = some (Book.ofCapture folded) ∧ (Book.ofCapture folded).Nonneg ∧
      (heldStep held r.payload).bind (r.checksumOk run) =
        some (decide (Capture.Kraken.computedChecksum crates (a.stored symbol).book e.data
          e.frameType (a.subscriptionDepth symbol) precision = e.data.checksum)) := by
  obtain ⟨bids, asks, exchangeTs, hpayload, hbids, hasks⟩ := hr.payload
  obtain ⟨hparsed, hbook⟩ := foldedBook_eq hbids hasks
    (a.stored symbol).book (a.subscriptionDepth symbol)
  have hnonneg := h.nonneg.krakenApply e.frameType (nonneg_levelsE8 hbids) (nonneg_levelsE8 hasks)
    (a.subscriptionDepth symbol)
  rw [← hbook] at hnonneg
  have hheld : heldStep held r.payload = some (Book.ofCapture (Capture.Kraken.foldedBook
      (a.stored symbol).book e.data e.frameType (a.subscriptionDepth symbol))) := by
    rw [hbook, hpayload, hshared.depth]
    rcases hr.known with htype | htype
    · -- a snapshot does not read the book it replaces
      cases held with
      | none => simp [heldStep, Payload.isSnapshot, Payload.foldInto, krakenApply, htype]
      | some b => simp [heldStep, Payload.foldInto, krakenApply, htype]
    · have hsome : (a.stored symbol).book.isEmpty = false := by
        simpa [htype] using hfold
      rw [h.same hsome]
      rfl
  refine ⟨hheld, hnonneg, ?_⟩
  have hcrc := checksum_ofCapture run.floatDigits hshared.crc hnonneg hshared.px_le hshared.qty_le
  rw [hheld, Option.bind_some, TypedFrame.checksumOk, hpayload]
  simp only
  rw [hr.symbol, hsymbol, hshared.replayed, Option.map_some, hcrc,
    Capture.Kraken.computedChecksum, if_pos hparsed]
  refine congrArg some (decide_eq_decide.2 ?_)
  rw [Int.natCast_inj, UInt32.toNat_inj]

/-- **An entry keeps the relation**, and the lake decides on it as the capture does. -/
theorem Tracks.entry (h : Tracks (a.stored symbol) held)
    (hshared : Shared crates run symbol precision a) (hsymbol : e.data.symbol = symbol)
    (hr : TypedEntry connId e r) :
    let next := a.applyBook crates e.data e.frameType e.recvTsNs e.connMsgSeq
    Tracks (next.1.stored symbol) (heldStep held r.payload) ∧
      Judged next.2 ((heldStep held r.payload).bind (r.checksumOk run)) := by
  have hfolded := h.folded hshared hsymbol hr
  subst hsymbol
  have happlied := Capture.Kraken.Adapter.applied crates a e.data e.frameType e.recvTsNs e.connMsgSeq
  generalize a.applyBook crates e.data e.frameType e.recvTsNs e.connMsgSeq = next at happlied
  cases happlied with
  | skipped hskip =>
    have hreg := hshared.registered
    have hknown := hshared.known
    rcases hskip with hnone | hnone
    · rw [hnone] at hreg
      cases hreg
    · rw [hnone] at hknown
      cases hknown
  | ignored p hp htype hempty =>
    refine ⟨?_, ?_, ?_⟩
    · rw [Capture.Kraken.Adapter.stored_setBook, if_pos rfl]
      exact Tracks.of_empty (Capture.Book.isEmpty_iff.1 hempty) _
    · simp [calls, call?]
    · simp [Output.actions, Output.action?]
  | verified p hp hfold hsum =>
    obtain rfl : p = precision := Option.some.inj (hp.symm.trans hshared.known)
    obtain ⟨hheld, hnonneg, hverdict⟩ := hfolded hfold
    refine ⟨?_, ?_, ?_⟩
    · rw [Capture.Kraken.Adapter.stored_setBook, if_pos rfl]
      exact ⟨hnonneg, fun _ => hheld⟩
    · intro _
      rw [hverdict, decide_eq_true hsum]
    · simp [Output.actions, Output.action?]
  | mismatch p hp hfold hsum state hstate =>
    obtain rfl : p = precision := Option.some.inj (hp.symm.trans hshared.known)
    obtain ⟨_, _, hverdict⟩ := hfolded hfold
    refine ⟨?_, ?_, ?_⟩
    · rw [Capture.Kraken.Adapter.stored_setBook, if_pos rfl]
      exact Tracks.of_empty rfl _
    · rintro ⟨c, hc, hverified⟩
      rw [Capture.Kraken.mem_calls] at hc
      simp only [List.cons_append, List.mem_cons, List.mem_append, List.not_mem_nil, or_false,
        Output.note.injEq, Capture.Kraken.BookNote.call.injEq, reduceCtorEq] at hc
      rcases hc with rfl | hc
      · cases hverified
      · obtain ⟨b, hb, _⟩ := Capture.Kraken.Adapter.marked_spec hc
        cases hb
    · intro _
      rw [hverdict, decide_eq_false hsum]

theorem Tracks.entries {es : List Stamped} {rows : List TypedFrame}
    (hes : ∀ e ∈ es, e.data.symbol = symbol) (hrows : List.Forall₂ (TypedEntry connId) es rows)
    (h : Tracks (a.stored symbol) held) (hshared : Shared crates run symbol precision a) :
    Tracks ((Capture.Kraken.applyEntries crates a es).1.stored symbol)
        ((rows.map fun r => r.payload).foldl heldStep held) ∧
      List.Forall₂ Judged (entryOutputs crates a es) (judge run held rows) := by
  induction hrows generalizing a held with
  | nil => exact ⟨h, .nil⟩
  | @cons e r es rows hr _ ih =>
    obtain ⟨htracks, hjudged⟩ := h.entry hshared (hes e List.mem_cons_self) hr
    obtain ⟨hrest, hjudgedRest⟩ := ih (fun d hd => hes d (List.mem_cons_of_mem e hd)) htracks
      (hshared.applyBook _ _ _ _)
    exact ⟨hrest, .cons hjudged hjudgedRest⟩

end Step

/-! ## A connection -/

theorem subscriptionDepth_knownStart {instruments : Instruments} {symbol : String}
    (h : ∀ i ∈ instruments.instruments, i.native = symbol → i.bookDepth = none) (connId : String)
    (precision : Nat × Nat) :
    (knownStart instruments connId symbol precision).subscriptionDepth symbol = KRAKEN_DEPTH := by
  have hfind : ((instruments.instruments.find? fun i => i.native = symbol).bind
      Capture.Instrument.bookDepth) = none := by
    cases hf : instruments.instruments.find? fun i => i.native = symbol with
    | none => rfl
    | some i =>
      have hnative : i.native = symbol := by simpa using List.find?_some hf
      exact h i (List.mem_of_find?_eq_some hf) hnative
  show ((instruments.instruments.find? fun i => i.native = symbol).bind
    Capture.Instrument.bookDepth).getD Capture.Kraken.DEFAULT_BOOK_DEPTH = KRAKEN_DEPTH
  rw [hfind]
  rfl

theorem symbol_of_mem_receivedEntries {serde : Serde} {symbol : String}
    {frames : List Capture.Kraken.Frame} {e : Stamped}
    (he : e ∈ receivedEntries serde symbol frames) : e.data.symbol = symbol := by
  obtain ⟨pf, _, he⟩ := List.mem_flatMap.1 he
  exact Capture.Kraken.symbol_of_mem_stampedEntries he

/-- **Capture and lake agree on Kraken books.**  After any frames of a connection on which the
    pair's precision is known, `rows` being what the symbol's entries are typed into: a book the
    capture has is the book the lake holds; and entry by entry, one that the capture verifies has
    the verdict `true`, and one that makes it resubscribe the verdict `false`. -/
theorem kraken_books_agree {crates : Crates} (hcrc : crates.crc32 = Crc32.checksum) {serde : Serde}
    {instruments : Instruments} {symbol : String} (hreg : (instruments.canonical symbol).isSome)
    (hdepth : ∀ i ∈ instruments.instruments, i.native = symbol → i.bookDepth = none)
    {precision : Nat × Nat} (hpx : precision.1 ≤ 8) (hqty : precision.2 ≤ 8)
    {frames : List Capture.Kraken.Frame}
    (hframes : ∀ f ∈ frames, framePrecision serde symbol f.1 = none) (connId : String)
    {rows : List TypedFrame}
    (hrows : List.Forall₂ (TypedEntry connId) (receivedEntries serde symbol frames) rows)
    {run : ReplayRun}
    (hrun : run.precisions symbol = some ((precision.1 : Int), (precision.2 : Int))) :
    let r := knownConnection crates serde instruments connId symbol precision frames
    let decided := entryOutputs crates (knownStart instruments connId symbol precision)
      (receivedEntries serde symbol frames)
    about symbol r.2 = decided.flatten ∧
    (∀ state, r.1.books.get? symbol = some state → state.book.isEmpty = false →
      heldAfter run rows = some (Book.ofCapture state.book)) ∧
    List.Forall₂ Judged decided (verdicts (replayPartition run (fun _ => none) rows)) := by
  have hshared : Shared crates run symbol precision
      (knownStart instruments connId symbol precision) :=
    ⟨hcrc, hreg, subscriptionDepth_knownStart hdepth connId precision,
     SortedMap.get?_insert_self _ _ _, hpx, hqty, hrun⟩
  obtain ⟨hsame, habout⟩ := Capture.Kraken.known_entries crates instruments connId precision hframes
  obtain ⟨htracks, hjudged⟩ := Tracks.entries
    (fun e he => symbol_of_mem_receivedEntries he) hrows (Tracks.of_empty rfl none) hshared
  have hlabel : ∀ r ∈ rows, r.key = (symbol, connId) ∧ r.payload.exchange = .kraken := by
    intro r hr
    obtain ⟨e, he, htyped⟩ := hrows.exists_of_mem_right hr
    obtain ⟨bids, asks, exchangeTs, hpayload, _⟩ := htyped.payload
    refine ⟨Prod.ext (htyped.symbol.trans (symbol_of_mem_receivedEntries he)) htyped.connId_eq, ?_⟩
    rw [hpayload]
    rfl
  refine ⟨?_, fun state hstate hempty => ?_, ?_⟩
  · rw [habout]
    exact (Mealy.flatten_outputs _ _ _).symm
  · rw [hsame.books] at hstate
    have hstored : (Capture.Kraken.applyEntries crates
        (knownStart instruments connId symbol precision)
        (receivedEntries serde symbol frames)).1.stored symbol = state := by
      rw [Capture.Kraken.Adapter.stored, hstate]
      rfl
    rw [hstored] at htracks
    rw [heldAfter_eq]
    exact htracks.same hempty
  · rw [verdicts_replayPartition run rows (fun r hr => (hlabel r hr).1) fun r hr => (hlabel r hr).2]
    exact hjudged

/-! ## A short connection -/

/-- A snapshot that is verified, and an update whose checksum is that of no book. -/
def brokenFrames : List (String × List Capture.Kraken.BookData) :=
  [("snapshot", [Capture.Kraken.bidEntry "45000.0" "1.00000000" 1909750136]),
   ("update", [Capture.Kraken.bidEntry "45001.0" "2.00000000" 7])]

def brokenRow (frameType : String) (px qty checksum n : Int) : TypedFrame where
  symbol := "BTC/USD"
  payload := .kraken frameType [⟨px, qty⟩] [] checksum none
  recvTsNs := 1
  connId := "c1"
  connMsgSeq := n
  srcTopic := "market.crypto.v3.raw.kraken"
  srcPartition := 0
  srcOffset := n
  srcIndex := 0
  canonicalSymbol := "BTC/USD"

def brokenRows : List TypedFrame :=
  [brokenRow "snapshot" 450000000000000 10000000000 1909750136 1,
   brokenRow "update" 450010000000000 20000000000 7 2]

def btcRun : ReplayRun where
  exchange := .kraken
  precisions _ := some (1, 8)
  floatDigits _ _ := ""
  runTs := 0

theorem kraken_books_agree_broken :
    let serde := Serde.ofFrames brokenFrames []
    let frames := Capture.Kraken.bookFrames brokenFrames
    let r := knownConnection (Crates.ofTimes []) serde Capture.Kraken.btcUsd "c1" "BTC/USD" (1, 8)
      frames
    let decided := entryOutputs (Crates.ofTimes [])
      (knownStart Capture.Kraken.btcUsd "c1" "BTC/USD" (1, 8)) (receivedEntries serde "BTC/USD" frames)
    about "BTC/USD" r.2 = decided.flatten ∧
    (∀ state, r.1.books.get? "BTC/USD" = some state → state.book.isEmpty = false →
      heldAfter btcRun brokenRows = some (Book.ofCapture state.book)) ∧
    List.Forall₂ Judged decided (verdicts (replayPartition btcRun (fun _ => none) brokenRows)) := by
  have hreceived : receivedEntries (Serde.ofFrames brokenFrames []) "BTC/USD"
      (Capture.Kraken.bookFrames brokenFrames) =
      [⟨Capture.Kraken.bidEntry "45000.0" "1.00000000" 1909750136, "snapshot", 1, 1⟩,
       ⟨Capture.Kraken.bidEntry "45001.0" "2.00000000" 7, "update", 1, 2⟩] := by decide +kernel
  refine kraken_books_agree rfl (by decide +kernel) (by decide) (by decide) (by decide)
    (by decide +kernel) "c1" ?_ rfl
  rw [hreceived]
  refine .cons ⟨rfl, rfl, rfl, rfl, Or.inl rfl, _, _, _, rfl, .cons ⟨?_, ?_⟩ .nil, .nil⟩
    (.cons ⟨rfl, rfl, rfl, rfl, Or.inr rfl, _, _, _, rfl, .cons ⟨?_, ?_⟩ .nil, .nil⟩ .nil)
  · exact ⟨⟨4500000000000, by decide +kernel⟩, by decide +kernel⟩
  · exact ⟨⟨100000000, by decide +kernel⟩, by decide +kernel⟩
  · exact ⟨⟨4500100000000, by decide +kernel⟩, by decide +kernel⟩
  · exact ⟨⟨200000000, by decide +kernel⟩, by decide +kernel⟩

end K2.Lake

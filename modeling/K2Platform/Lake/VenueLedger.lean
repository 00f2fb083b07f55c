import K2Platform.Lake.BookLedger

/-!
# What the book tables hold of a venue

For Binance, the rows of each batch after those of the batch before; for a replayed venue, what is
held of each of its connections.

* `feed_append` — a batch none of whose frames should have been read before another's can be read
  with it.
* `holds_process` — a run that makes its commits makes of the tables what its batch makes of the
  ledger; so does one that is cut off where nothing is left to commit.
-/

set_option autoImplicit false

namespace K2.Lake

/-! ## Frames of any venue -/

/-- A connection of a symbol, of which `seq_gap` compares successive frames. -/
def DepthEvent.connection (e : DepthEvent) : String × String := (e.symbol, e.connId)

/-- A second of a symbol, of which `binance_books` takes the last frame. -/
def DepthEvent.slot (e : DepthEvent) : String × Int :=
  (e.symbol, e.recvTsNs.tdiv 1000 / 1000000)

namespace Frame

def recvTsNs : {v : Exchange} → Frame v → Int
  | .binance, f => DepthEvent.recvTsNs f
  | .kraken, f => BookFrame.recvTsNs f
  | .coinbase, f => BookFrame.recvTsNs f

def srcTopic : {v : Exchange} → Frame v → String
  | .binance, f => DepthEvent.srcTopic f
  | .kraken, f => BookFrame.srcTopic f
  | .coinbase, f => BookFrame.srcTopic f

/-- Where in the archive the frame is. -/
def lineage : {v : Exchange} → Frame v → Int × Int × Int
  | .binance, f => (DepthEvent.srcPartition f, DepthEvent.srcOffset f, 0)
  | .kraken, f => BookFrame.lineage f
  | .coinbase, f => BookFrame.lineage f

/-- The frame is such as its venue sends. -/
def OfVenue : {v : Exchange} → Frame v → Prop
  | .binance, _ => True
  | .kraken, f => (BookFrame.payload f).exchange = .kraken
  | .coinbase, f => (BookFrame.payload f).exchange = .coinbase

instance {v : Exchange} (f : Frame v) : Decidable f.OfVenue :=
  match v with
  | .binance => inferInstanceAs (Decidable True)
  | .kraken => inferInstanceAs (Decidable (_ = _))
  | .coinbase => inferInstanceAs (Decidable (_ = _))

/-- The second frame may be read in a later run than the first or together with it: it comes later
    in the replay of its connection; Binance's frames have no second and no connection in common. -/
def Before : {v : Exchange} → Frame v → Frame v → Prop
  | .binance, f, g => DepthEvent.slot f ≠ DepthEvent.slot g ∧
      DepthEvent.connection f ≠ DepthEvent.connection g
  | .kraken, f, g => BookFrame.key f = BookFrame.key g → BookFrame.sent f ≤ BookFrame.sent g
  | .coinbase, f, g => BookFrame.key f = BookFrame.key g → BookFrame.sent f ≤ BookFrame.sent g

instance {v : Exchange} (f g : Frame v) : Decidable (f.Before g) :=
  match v with
  | .binance => inferInstanceAs (Decidable (_ ∧ _))
  | .kraken => inferInstanceAs (Decidable (_ → _))
  | .coinbase => inferInstanceAs (Decidable (_ → _))

end Frame

/-- The bronze row behind a typed frame. -/
def DepthFrame.event (f : DepthFrame) : DepthEvent where
  symbol := f.symbol
  lastUpdateId := f.lastUpdateId
  bids := f.bids
  asks := f.asks
  recvTsNs := f.recvTsNs
  connId := f.connId
  connMsgSeq := f.connMsgSeq
  srcTopic := f.srcTopic
  srcPartition := f.srcPartition
  srcOffset := f.srcOffset

def Typed.frame : {v : Exchange} → Typed v → Frame v
  | .binance, r => DepthFrame.event r
  | .kraken, r => TypedFrame.toBookFrame r
  | .coinbase, r => TypedFrame.toBookFrame r

theorem frame_typed {v : Exchange} (f : Frame v) (canonicalSymbol : String) :
    (f.typed canonicalSymbol).frame = f := by
  cases v <;> rfl

/-- The rows of a venue's bronze table: told apart by their lineage, of one topic, of the venue, and
    received by a clock that is past the first second of 1970. -/
structure Archive (v : Exchange) (frames : List (Frame v)) : Prop where
  lineage : (frames.map Frame.lineage).Nodup
  topic : ∀ f ∈ frames, ∀ g ∈ frames, f.srcTopic = g.srcTopic
  clock : ∀ f ∈ frames, NS ≤ f.recvTsNs
  venue : ∀ f ∈ frames, f.OfVenue

theorem Archive.nil (v : Exchange) : Archive v [] := by
  refine ⟨List.nodup_nil, ?_, ?_, ?_⟩
  · intro f hf
    cases hf
  · intro f hf
    cases hf
  · intro f hf
    cases hf

theorem Archive.sublist {v : Exchange} {frames frames' : List (Frame v)} (h : Archive v frames)
    (hsub : frames'.Sublist frames) : Archive v frames' :=
  ⟨h.lineage.sublist (hsub.map _), fun f hf g hg => h.topic f (hsub.subset hf) g (hsub.subset hg),
    fun f hf => h.clock f (hsub.subset hf), fun f hf => h.venue f (hsub.subset hf)⟩

/-! ## What a run sees of a frame -/

/-- A typed frame, and the precision it is checked at. -/
abbrev Seen (v : Exchange) := Typed v × Option Precision

def BookTick.see (tick : BookTick) (v : Exchange) (f : Frame v) : Option (Seen v) :=
  (tick.type v f).map fun r => (r, tick.precisionsOf v f.symbol)

/-- Both batches are of one archive, and the second may be read with the first. -/
structure Follows (v : Exchange) (batch next : List (Seen v)) : Prop where
  lineage : ((batch ++ next).map fun x => x.1.frame.lineage).Nodup
  before : ∀ x ∈ batch, ∀ y ∈ next, x.1.frame.Before y.1.frame

/-! ## Ledgers -/

abbrev Ledger : Exchange → Type
  | .binance => List BinanceRow × List BookRow
  | .kraken => BookKey → KeyLedger
  | .coinbase => BookKey → KeyLedger

def Ledger.empty : (v : Exchange) → Ledger v
  | .binance => ([], [])
  | .kraken => fun _ => KeyLedger.empty
  | .coinbase => fun _ => KeyLedger.empty

section Feed

variable (floatDigits : Int → Int → String)

def feed : (v : Exchange) → Ledger v → List (Seen v) → Ledger v
  | .binance, L, batch =>
    (L.1 ++ binanceSilver 0 (batch.map Prod.fst), L.2 ++ binanceBooks 0 (batch.map Prod.fst))
  | .kraken, L, batch => feedKeys floatDigits .kraken L batch
  | .coinbase, L, batch => feedKeys floatDigits .coinbase L batch

variable {floatDigits}

theorem feed_nil {v : Exchange} (L : Ledger v) : feed floatDigits v L [] = L := by
  cases v with
  | binance => exact Prod.ext (List.append_nil _) (List.append_nil _)
  | kraken => exact funext fun key => KeyLedger.feed_nil floatDigits .kraken (L key)
  | coinbase => exact funext fun key => KeyLedger.feed_nil floatDigits .coinbase (L key)

theorem binanceSilver_append {a b : List DepthFrame}
    (hlineage : ((a ++ b).map DepthFrame.lineage).Nodup)
    (hconnection : ∀ f ∈ a, ∀ g ∈ b, f.connection ≠ g.connection) :
    binanceSilver 0 (a ++ b) = binanceSilver 0 a ++ binanceSilver 0 b := by
  have hflatten : [a, b].flatten = a ++ b := by simp
  have hcut : Ticks.Unsplit DepthFrame.connection [a, b] := List.pairwise_pair.2 hconnection
  have hwhole : ([a, b].flatten.map DepthFrame.lineage).Nodup := by
    rw [hflatten]
    exact hlineage
  have heq := (silver_eq_iff hwhole).2 hcut
  rw [hflatten] at heq
  rw [binanceSilver, ← heq]
  simp [binanceSilver]

theorem binanceBooks_append {a b : List DepthFrame}
    (hslot : ∀ f ∈ a, ∀ g ∈ b, f.slot ≠ g.slot) :
    binanceBooks 0 (a ++ b) = binanceBooks 0 a ++ binanceBooks 0 b := by
  have hflatten : [a, b].flatten = a ++ b := by simp
  have hcut : Ticks.Unsplit DepthFrame.slot [a, b] := List.pairwise_pair.2 hslot
  have heq := gold_of_unsplit hcut
  rw [hflatten] at heq
  rw [binanceBooks, ← heq]
  simp [binanceBooks]

/-- The frames of a connection in two batches, where those of the second come later. -/
theorem ofConnection_append {key : BookKey} {batch next : List Reading}
    (hlineage : ((batch ++ next).map fun x => x.1.lineage).Nodup)
    (hbefore : ∀ x ∈ batch, ∀ y ∈ next, x.1.key = y.1.key → x.1.sent ≤ y.1.sent) :
    ofConnection key (batch ++ next) = ofConnection key batch ++ ofConnection key next := by
  rw [ofConnection, List.filter_append]
  refine sortOn_append (fun x hx y hy hxy => ?_) fun x hx y hy => ?_
  · rw [← List.filter_append] at hx hy
    exact List.inj_on_of_nodup_map hlineage (List.mem_of_mem_filter hx) (List.mem_of_mem_filter hy)
      (lineage_of_order hxy)
  · obtain ⟨hx, hxk⟩ := List.mem_filter.1 hx
    obtain ⟨hy, hyk⟩ := List.mem_filter.1 hy
    have hkey : x.1.key = y.1.key := (of_decide_eq_true hxk).trans (of_decide_eq_true hyk).symm
    obtain ⟨hsymbol, hconn⟩ := Prod.mk.inj hkey
    rw [Reading.order, Reading.order, TypedFrame.order, TypedFrame.order, hsymbol, hconn]
    exact Prod.Lex.le_iff.2 (Or.inr ⟨rfl, Prod.Lex.le_iff.2 (Or.inr
      ⟨rfl, hbefore x hx y hy hkey⟩)⟩)

theorem feedKeys_append {v : Exchange} {L : BookKey → KeyLedger} {batch next : List Reading}
    (hlineage : ((batch ++ next).map fun x => x.1.lineage).Nodup)
    (hbefore : ∀ x ∈ batch, ∀ y ∈ next, x.1.key = y.1.key → x.1.sent ≤ y.1.sent) :
    feedKeys floatDigits v L (batch ++ next) =
      feedKeys floatDigits v (feedKeys floatDigits v L batch) next := by
  funext key
  rw [feedKeys, ofConnection_append hlineage hbefore, KeyLedger.feed_append]
  rfl

theorem feed_append {v : Exchange} (L : Ledger v) {batch next : List (Seen v)}
    (h : Follows v batch next) :
    feed floatDigits v L (batch ++ next) = feed floatDigits v (feed floatDigits v L batch) next := by
  cases v with
  | binance =>
    have hlineage : ((batch.map Prod.fst ++ next.map Prod.fst).map DepthFrame.lineage).Nodup := by
      refine List.Nodup.of_map (fun l : Int × Int × Int => (l.1, l.2.1, (0 : Int))) ?_
      rw [← List.map_append, List.map_map, List.map_map]
      exact h.lineage
    have hbefore : ∀ f ∈ batch.map Prod.fst, ∀ g ∈ next.map Prod.fst,
        DepthFrame.slot f ≠ DepthFrame.slot g ∧
          DepthFrame.connection f ≠ DepthFrame.connection g := by
      intro f hf g hg
      obtain ⟨x, hx, rfl⟩ := List.mem_map.1 hf
      obtain ⟨y, hy, rfl⟩ := List.mem_map.1 hg
      exact h.before x hx y hy
    refine Prod.ext ?_ ?_
    · change L.1 ++ binanceSilver 0 ((batch ++ next).map Prod.fst) = (L.1 ++ _) ++ _
      rw [List.map_append, binanceSilver_append hlineage fun f hf g hg => (hbefore f hf g hg).2,
        List.append_assoc]
    · change L.2 ++ binanceBooks 0 ((batch ++ next).map Prod.fst) = (L.2 ++ _) ++ _
      rw [List.map_append, binanceBooks_append fun f hf g hg => (hbefore f hf g hg).1,
        List.append_assoc]
  | kraken => exact feedKeys_append h.lineage h.before
  | coinbase => exact feedKeys_append h.lineage h.before

end Feed

/-! ## Tables that hold what the ledger says -/

def Holds : (v : Exchange) → BookTables → Ledger v → Prop
  | .binance, t, L => (t.silver .binance).map BinanceRow.timeless = L.1 ∧
      (t.books.filter fun r => r.exchange = Exchange.binance.name).map BookRow.timeless = L.2 ∧
      ∀ key, statesOf .binance t.state key = none
  | .kraken, t, L => ∀ key, KeyHolds .kraken (t.silver .kraken) t.books t.state key (L key)
  | .coinbase, t, L => ∀ key, KeyHolds .coinbase (t.silver .coinbase) t.books t.state key (L key)

theorem holds_empty (v : Exchange) : Holds v BookTables.empty (Ledger.empty v) := by
  have hkey : ∀ v key, KeyHolds v [] [] Dict.empty key KeyLedger.empty := fun v key =>
    ⟨rfl, rfl, rfl, Carry.initial_sound⟩
  cases v with
  | binance => exact ⟨rfl, rfl, fun _ => rfl⟩
  | kraken => exact hkey .kraken
  | coinbase => exact hkey .coinbase

/-- Only the venue's rows count. -/
theorem holds_congr {v : Exchange} {t t' : BookTables} {L : Ledger v}
    (hsilver : t'.silver v = t.silver v)
    (hbooks : (t'.books.filter fun r => r.exchange = v.name) =
      t.books.filter fun r => r.exchange = v.name)
    (hstate : statesOf v t'.state = statesOf v t.state) (h : Holds v t L) : Holds v t' L := by
  have hkeys : ∀ key, (t'.books.filter fun r => r.exchange = v.name ∧
      (r.symbol, r.connId) = key) = t.books.filter fun r => r.exchange = v.name ∧
        (r.symbol, r.connId) = key := by
    intro key
    have hboth : ∀ l : List BookRow, (l.filter fun r => r.exchange = v.name ∧
        (r.symbol, r.connId) = key) =
          (l.filter fun r => r.exchange = v.name).filter fun r => (r.symbol, r.connId) = key := by
      intro l
      rw [List.filter_filter]
      refine List.filter_congr fun r _ => ?_
      rw [Bool.decide_and, Bool.and_comm]
    rw [hboth, hboth, hbooks]
  have hkey : ∀ {silver : List ReplayedRow} {key : BookKey} {L : KeyLedger},
      KeyHolds v silver t.books t.state key L → KeyHolds v silver t'.books t'.state key L := by
    intro silver key L h
    refine ⟨?_, h.silver, ?_, h.sound⟩
    · rw [hstate]
      exact h.state
    · rw [hkeys]
      exact h.books
  cases v with
  | binance => exact ⟨hsilver ▸ h.1, hbooks ▸ h.2.1, hstate ▸ h.2.2⟩
  | kraken => exact fun key => hsilver ▸ hkey (h key)
  | coinbase => exact fun key => hsilver ▸ hkey (h key)

/-- Every row is of the venue. -/
structure Processed.OfVenue {v : Exchange} (p : Processed v) : Prop where
  books : ∀ r ∈ p.books, r.exchange = v.name
  states : ∀ r ∈ p.states, r.exchange = v.name

theorem Exchange.name_inj {v w : Exchange} (h : v.name = w.name) : v = w := by
  revert h
  cases v <;> cases w <;> decide

section Process

variable {floatDigits : Int → Int → String} {tick : BookTick} {t : BookTables} {v : Exchange}
  {frames : List (Frame v)} {p : Processed v}

/-- Of a typed batch, what the run makes of each frame. -/
theorem project_eq_some {typed : List (Typed v)} (h : tick.project v frames = some typed) :
    typed = frames.filterMap (tick.type v) := by
  unfold BookTick.project at h
  split at h
  · exact (Option.some.inj h).symm
  · cases h

theorem map_fst_see (frames : List (Frame v)) :
    (frames.filterMap (tick.see v)).map Prod.fst = frames.filterMap (tick.type v) := by
  rw [List.map_filterMap]
  refine List.filterMap_congr fun f _ => ?_
  rw [BookTick.see, Option.map_map]
  exact congrFun Option.map_id _

theorem exists_of_type {f : Frame v} {r : Typed v} (h : tick.type v f = some r) :
    ∃ canon, tick.registry.canonical v.name f.symbol = .ok canon ∧ r = f.typed canon := by
  unfold BookTick.type at h
  cases hcanon : tick.registry.canonical v.name f.symbol with
  | ok canon =>
    rw [hcanon] at h
    exact ⟨canon, rfl, (Option.some.inj h).symm⟩
  | error e =>
    rw [hcanon] at h
    cases h

theorem ofVenue_replay {run : ReplayRun} {states : BookKey → Option StateRow}
    {placement : Placement} {typed : List TypedFrame} :
    (∀ r ∈ (replay run states placement typed).filterMap Emission.book?,
        r.exchange = run.exchange.name) ∧
      ∀ r ∈ (replay run states placement typed).filterMap Emission.state?,
        r.exchange = run.exchange.name := by
  have hall : ∀ e ∈ replay run states placement typed, e.OfVenue run.exchange := by
    intro e he
    obtain ⟨p, _, he⟩ := List.mem_flatMap.1 he
    exact ofVenue_replayPartition _ e he
  constructor
  · intro r hr
    obtain ⟨e, he, her⟩ := List.mem_filterMap.1 hr
    cases e with
    | book row =>
      cases her
      exact hall _ he
    | _ => cases her
  · intro r hr
    obtain ⟨e, he, her⟩ := List.mem_filterMap.1 hr
    cases e with
    | state row =>
      cases row with
      | ok row =>
        cases her
        exact hall _ he
      | error key => cases her
    | _ => cases her

theorem ofVenue_process (h : process floatDigits tick t.state v frames = some p) : p.OfVenue := by
  cases v with
  | binance =>
    obtain ⟨typed, _, rfl⟩ := Option.map_eq_some_iff.1 h
    refine ⟨fun r hr => ?_, fun r hr => by cases hr⟩
    obtain ⟨f, _, rfl⟩ := List.mem_map.1 hr
    rfl
  | kraken =>
    obtain ⟨typed, _, hp⟩ := Option.bind_eq_some_iff.1 h
    simp only at hp
    split at hp
    · cases hp
    · cases hp
      exact ⟨ofVenue_replay.1, ofVenue_replay.2⟩
  | coinbase =>
    obtain ⟨typed, _, rfl⟩ := Option.map_eq_some_iff.1 h
    exact ⟨ofVenue_replay.1, ofVenue_replay.2⟩

end Process

/-! ### A replayed venue -/

/-- No state row that is read back was cut to `STATE_LEVELS`. -/
def Restored (v : Exchange) (table : StateTable) : Prop :=
  ∀ key row, statesOf v table key = some row →
    row.bidPxE8.length < STATE_LEVELS ∧ row.askPxE8.length < STATE_LEVELS

theorem KeyHolds.within {v : Exchange} {silver : List ReplayedRow} {books : List BookRow}
    {table : StateTable} {key : BookKey} {L : KeyLedger} (h : KeyHolds v silver books table key L)
    (hrestored : Restored v table) : L.carry.book.Within STATE_LEVELS := by
  cases hnext : L.carry.next with
  | none =>
    have hinitial : L.carry.book = Book.empty := congrArg Folded.book (h.sound.idle hnext)
    rw [hinitial]
    exact ⟨Nat.zero_le _, Nat.zero_le _⟩
  | some sec =>
    have hstate := h.state
    rw [Carry.stateRow, hnext, Option.map_some, Option.map_eq_some_iff] at hstate
    obtain ⟨row, hrow, htimeless⟩ := hstate
    obtain ⟨hbids, hasks⟩ := hrestored key row hrow
    have hbidRow : row.bidPxE8 = (L.carry.book.top STATE_LEVELS).1.map Prod.fst :=
      congrArg StateRow.bidPxE8 htimeless
    have haskRow : row.askPxE8 = (L.carry.book.top STATE_LEVELS).2.map Prod.fst :=
      congrArg StateRow.askPxE8 htimeless
    rw [hbidRow, List.length_map, Book.top, List.length_take, List.length_reverse] at hbids
    rw [haskRow, List.length_map, Book.top, List.length_take] at hasks
    constructor
    · unfold SortedMap.length
      omega
    · unfold SortedMap.length
      omega

theorem map_filterMap_sublist {α β : Type} {g : α → Option β} {h : β → α}
    (hg : ∀ a b, g a = some b → h b = a) (l : List α) : ((l.filterMap g).map h).Sublist l := by
  induction l with
  | nil => exact List.Sublist.slnil
  | cons a l ih =>
    rw [List.filterMap_cons]
    cases hb : g a with
    | none => exact ih.cons _
    | some b =>
      rw [List.map_cons, hg a b hb]
      exact ih.cons_cons a

theorem typedBatch_of_type {v : Exchange} {frames : List BookFrame}
    {type : BookFrame → Option TypedFrame} (canon : String → String)
    (htype : ∀ f r, type f = some r → r = ⟨f, canon f.symbol⟩)
    (hlineage : (frames.map BookFrame.lineage).Nodup)
    (htopic : ∀ f ∈ frames, ∀ g ∈ frames, f.srcTopic = g.srcTopic)
    (hclock : ∀ f ∈ frames, NS ≤ f.recvTsNs)
    (hvenue : ∀ f ∈ frames, f.payload.exchange = v) : TypedBatch v (frames.filterMap type) := by
  have hsub : ((frames.filterMap type).map TypedFrame.toBookFrame).Sublist frames :=
    map_filterMap_sublist (fun f r h => by rw [htype f r h]) frames
  have hmem : ∀ r ∈ frames.filterMap type, r.toBookFrame ∈ frames ∧
      r.canonicalSymbol = canon r.symbol := by
    intro r hr
    obtain ⟨f, hf, hfr⟩ := List.mem_filterMap.1 hr
    rw [htype f r hfr]
    exact ⟨hf, rfl⟩
  refine ⟨?_, fun r hr => hclock _ (hmem r hr).1, fun r hr r' hr' hkey => ?_,
    fun r hr => hvenue _ (hmem r hr).1⟩
  · have hmap := hlineage.sublist (hsub.map BookFrame.lineage)
    rwa [List.map_map] at hmap
  · have hsymbol : r.symbol = r'.symbol := congrArg Prod.fst hkey
    exact ⟨by rw [(hmem r hr).2, (hmem r' hr').2, hsymbol],
      htopic _ (hmem r hr).1 _ (hmem r' hr').1⟩

section Replayed

variable {floatDigits : Int → Int → String} {tick : BookTick} {table : StateTable}
  {silver : List ReplayedRow} {books : List BookRow} {L : BookKey → KeyLedger}
  {typed : List TypedFrame} {v : Exchange}

theorem walks_of_replayed (hb : TypedBatch v typed) (hrestored : Restored v table)
    (hL : ∀ key, KeyHolds v silver books table key (L key))
    (hraised : (replayed floatDigits tick v table typed).any Emission.raised = false)
    (key : BookKey) :
    ((replayed floatDigits tick v table typed).filter fun e => e.key = key).map
        Emission.timeless =
      (L key).carry.walk v floatDigits key
        (ofConnection key (typed.map (replayRun floatDigits tick v).reading)) := by
  have hwalk := hb.filter_replay hraised (hL key).sound (hL key).state
  rwa [Carry.truncate_of_within ((hL key).within hrestored)] at hwalk

theorem clock_ofConnection (hb : TypedBatch v typed) {run : ReplayRun} {key : BookKey} :
    ∀ x ∈ ofConnection key (typed.map run.reading), NS ≤ x.1.recvTsNs := by
  intro x hx
  obtain ⟨r, hr, rfl⟩ := List.mem_map.1 (mem_ofConnection hx)
  exact hb.clock r hr

/-- The two replayed venues differ in what they write to silver. -/
theorem keyHolds_replayed {silver' : List ReplayedRow} (hb : TypedBatch v typed)
    (hrestored : Restored v table) (hL : ∀ key, KeyHolds v silver books table key (L key))
    (hraised : (replayed floatDigits tick v table typed).any Emission.raised = false)
    (hsilver : ∀ key, ((silver'.filter fun r => r.key = key).map ReplayedRow.timeless).Perm
      (silverRows v
        ((ofConnection key (typed.map (replayRun floatDigits tick v).reading)).map Prod.fst)
        (Mealy.run (Carry.read v floatDigits) (L key).carry
          (ofConnection key (typed.map (replayRun floatDigits tick v).reading))).2))
    (key : BookKey) :
    KeyHolds v (silver ++ silver')
      (books ++ (replayed floatDigits tick v table typed).filterMap Emission.book?)
      (mergeState table ((replayed floatDigits tick v table typed).filterMap Emission.state?)) key
      (feedKeys floatDigits v L (typed.map (replayRun floatDigits tick v).reading) key) :=
  (hL key).step (clock_ofConnection hb) (walks_of_replayed hb hrestored hL hraised key)
    (hsilver key)

end Replayed

/-! ### One run -/

section Run

variable {floatDigits : Int → Int → String} {tick : BookTick} {t t' : BookTables}

/-- The name a run gives to a symbol. -/
def BookTick.nameOf (tick : BookTick) (v : Exchange) (symbol : String) : String :=
  ((tick.registry.canonical v.name symbol).toOption).getD ""

theorem eq_typed_of_type {v : Exchange} {f : Frame v} {r : Typed v} (h : tick.type v f = some r) :
    r = f.typed (tick.nameOf v f.symbol) := by
  obtain ⟨canon, hcanon, rfl⟩ := exists_of_type h
  rw [BookTick.nameOf, hcanon]
  rfl

theorem timeless_binanceSilver (runTs : Int) (batch : List DepthFrame) :
    (binanceSilver runTs batch).map BinanceRow.timeless = binanceSilver 0 batch := by
  rw [binanceSilver, List.map_map]
  rfl

theorem timeless_binanceBooks (runTs : Int) (batch : List DepthFrame) :
    (binanceBooks runTs batch).map BookRow.timeless = binanceBooks 0 batch := by
  rw [binanceBooks, List.map_map]
  rfl

theorem filter_binanceBooks (runTs : Int) (batch : List DepthFrame) :
    ((binanceBooks runTs batch).filter fun r => r.exchange = Exchange.binance.name) =
      binanceBooks runTs batch := by
  refine List.filter_eq_self.2 fun r hr => ?_
  obtain ⟨f, _, rfl⟩ := List.mem_map.1 hr
  rfl

/-- Once the venue's rows are in, the tables hold what the batch makes of the ledger. -/
theorem holds_process {v : Exchange} {frames : List (Frame v)} {p : Processed v} {L : Ledger v}
    (hp : process floatDigits tick t.state v frames = some p) (hquiet : p.raises = false)
    (harchive : Archive v frames) (hrestored : Restored v t.state) (hL : Holds v t L)
    (hsilver : t'.silver v = t.silver v ++ p.silver) (hbooks : t'.books = t.books ++ p.books)
    (hstate : t'.state = mergeState t.state p.states) :
    Holds v t' (feed floatDigits v L (frames.filterMap (tick.see v))) := by
  cases v with
  | binance =>
    obtain ⟨typed, htyped, rfl⟩ := Option.map_eq_some_iff.1 hp
    have htyped := project_eq_some htyped
    obtain ⟨hsilverL, hbooksL, hstateL⟩ := hL
    have hfst : (frames.filterMap (tick.see .binance)).map Prod.fst =
        frames.filterMap (tick.type .binance) := map_fst_see frames
    refine ⟨?_, ?_, fun key => hstate ▸ hstateL key⟩
    · rw [hsilver, List.map_append, hsilverL, timeless_binanceSilver, htyped, ← hfst]
      rfl
    · rw [hbooks, List.filter_append, List.map_append, hbooksL, filter_binanceBooks,
        timeless_binanceBooks, htyped, ← hfst]
      rfl
  | kraken =>
    obtain ⟨typed, htyped, hp⟩ := Option.bind_eq_some_iff.1 hp
    have htyped := project_eq_some htyped
    simp only at hp
    split at hp
    · cases hp
    · rename_i hraised
      cases hp
      have hb : TypedBatch .kraken typed := htyped ▸ typedBatch_of_type (tick.nameOf .kraken)
        (fun f r h => eq_typed_of_type h) harchive.lineage harchive.topic harchive.clock
        harchive.venue
      have hseen : frames.filterMap (tick.see .kraken) =
          typed.map (replayRun floatDigits tick .kraken).reading := by
        rw [htyped, List.map_filterMap]
        refine List.filterMap_congr fun f _ => ?_
        rw [BookTick.see]
        cases hr : tick.type .kraken f with
        | none => rfl
        | some r =>
          rw [eq_typed_of_type hr]
          rfl
      intro key
      rw [hsilver, hbooks, hstate, hseen]
      exact keyHolds_replayed hb hrestored hL (Bool.eq_false_iff.2 hraised)
        (silver_checked hb (walks_of_replayed hb hrestored hL (Bool.eq_false_iff.2 hraised))
          tick.runTs) key
  | coinbase =>
    obtain ⟨typed, htyped, rfl⟩ := Option.map_eq_some_iff.1 hp
    have htyped := project_eq_some htyped
    have hb : TypedBatch .coinbase typed := htyped ▸ typedBatch_of_type (tick.nameOf .coinbase)
      (fun f r h => eq_typed_of_type h) harchive.lineage harchive.topic harchive.clock
      harchive.venue
    have hseen : frames.filterMap (tick.see .coinbase) =
        typed.map (replayRun floatDigits tick .coinbase).reading := by
      rw [htyped, List.map_filterMap]
      refine List.filterMap_congr fun f _ => ?_
      rw [BookTick.see]
      cases hr : tick.type .coinbase f with
      | none => rfl
      | some r =>
        rw [eq_typed_of_type hr]
        rfl
    intro key
    rw [hsilver, hbooks, hstate, hseen]
    exact keyHolds_replayed hb hrestored hL hquiet
      (fun key => silver_unchecked tick.runTs key (by decide) _) key

end Run

end K2.Lake

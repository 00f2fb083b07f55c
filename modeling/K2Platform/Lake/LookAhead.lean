import K2Platform.Lake.GoldSamples
import K2Platform.Lake.GoldTrades
import K2Platform.Lib.Forall2

/-!
# No look-ahead in sampled books

What a frame says does not show in a row of `gold.book_top20` or `gold.bbo_1s` whose second is over
when the frame is received, so a quote that `k2lake.trades` joins to a trade says nothing of what
was received at the time of the trade or after it.

* `same_levels` — two archives that agree until the end of a second have the same levels there.
* `same_quotes` — two archives that agree on what was received before a trade, and on the stamps of
  what was received after it, have the same quotes for the trade.
-/

set_option autoImplicit false

namespace K2.Lake

/-! ## Quotes -/

/-- The columns of `gold.bbo_1s` that a quote is made of. -/
structure Quote where
  second : Int
  bidE8 : Option Int
  bidQtyE8 : Option Int
  askE8 : Option Int
  askQtyE8 : Option Int
  mid : Option ℚ
  spreadBps : Option ℚ
  deriving DecidableEq

def Bbo.quote (q : Bbo) : Quote :=
  ⟨q.second, q.bidE8, q.bidQtyE8, q.askE8, q.askQtyE8, q.mid, q.spreadBps⟩

/-- The rows of `gold.bbo_1s` that `_trades_sql` may join to a trade: of its venue and symbol,
    `second < end`, and `exchange_ts >= second + INTERVAL 1 SECOND`. -/
structure Bbo.Joinable (endTs : Int) (t : GoldTrade) (q : Bbo) : Prop where
  exchange : q.exchange = t.exchange.name
  canonicalSymbol : q.canonicalSymbol = t.canonicalSymbol
  scanned : q.second * 1000000 < endTs
  ended : q.second * 1000000 + 1000000 ≤ t.exchangeTs

/-- `ASOF LEFT JOIN`: a row of the greatest second, or nothing. -/
inductive AsofJoined (bbo : List Bbo) (endTs : Int) (t : GoldTrade) : Option Quote → Prop
  | quoted {q : Bbo} (mem : q ∈ bbo) (joinable : q.Joinable endTs t)
      (greatest : ∀ q' ∈ bbo, q'.Joinable endTs t → q'.second ≤ q.second) :
      AsofJoined bbo endTs t (some q.quote)
  | unquoted (none_joinable : ∀ q ∈ bbo, ¬ q.Joinable endTs t) : AsofJoined bbo endTs t none

/-- The quote of a row with these levels. -/
def quoteOf (second : Int) (l : TopLevels) : Quote :=
  (bboRow 0 ⟨"", "", second, 0, none, l.bidPxE8, l.bidQtyE8, l.askPxE8, l.askQtyE8⟩).quote

def TopLevels.twoSided (l : TopLevels) : Bool := 0 < l.bidPxE8.length && 0 < l.askPxE8.length

theorem quote_bboRow (snapshot : Nat) (r : BookRow) :
    (bboRow snapshot r.toBookTop20).quote = quoteOf r.second r.levels := rfl

theorem bboOf_eq (books : List BookRow) (snapshot : Nat) :
    bboOf books snapshot = (books.filter fun r => r.levels.twoSided).map fun r =>
      bboRow snapshot r.toBookTop20 := by
  rw [bboOf, bbo, List.filter_map, List.map_map]
  rfl

/-- The quotes of rows are those of their levels. -/
theorem quotes_bboOf (books : List BookRow) (snapshot : Nat) :
    (bboOf books snapshot).map Bbo.quote =
      ((books.map fun r => (r.second, r.levels)).filter fun l => l.2.twoSided).map fun l =>
        quoteOf l.1 l.2 := by
  rw [bboOf_eq, List.map_map, List.filter_map, List.map_map]
  rfl

section Archives

variable {floatDigits : Int → Int → String} {v : Exchange}

/-- The rows of a connection in a second are among those of the venue. -/
theorem booksAt_eq (t : BookTables) (key : BookKey) (s : Int) :
    t.booksAt v key s = (booksOf v key (t.booksFor v)).filter fun r => r.second = s := by
  have hrows : booksOf v key (t.booksFor v) = booksOf v key t.books := by
    show List.filter _ (List.filter _ t.books) = List.filter _ t.books
    rw [List.filter_filter]
    refine List.filter_congr fun r _ => ?_
    rw [← Bool.decide_and]
    exact decide_eq_decide.2 ⟨fun h => h.1, fun h => ⟨h, h.1⟩⟩
  rw [BookTables.booksAt, hrows]

/-- Every row of `gold.bbo_1s` is of a row of `gold.book_top20`, and the other way round. -/
theorem mem_bbo {ticks : List BookTick} (h : Written floatDigits v ticks) :
    (∀ q ∈ (booksAfter floatDigits ticks).bboFor v,
        ∃ r ∈ (booksAfter floatDigits ticks).booksFor v, r.levels.twoSided = true ∧
          q.timeless = bboRow 0 r.toBookTop20) ∧
      ∀ r ∈ (booksAfter floatDigits ticks).booksFor v, r.levels.twoSided = true →
        ∃ q ∈ (booksAfter floatDigits ticks).bboFor v, q.timeless = bboRow 0 r.toBookTop20 := by
  have hbbo := h.bbo
  rw [bboOf_eq] at hbbo
  constructor
  · intro q hq
    have hmem := List.mem_map_of_mem (f := Bbo.timeless) hq
    rw [hbbo] at hmem
    obtain ⟨r, hr, hrow⟩ := List.mem_map.1 hmem
    obtain ⟨hr, htwo⟩ := List.mem_filter.1 hr
    exact ⟨r, hr, htwo, hrow.symm⟩
  · intro r hr htwo
    have hkept : r ∈ ((booksAfter floatDigits ticks).booksFor v).filter
        fun r => r.levels.twoSided := List.mem_filter.2 ⟨hr, htwo⟩
    have hmem := List.mem_map_of_mem (f := fun r : BookRow => bboRow (0 : Nat) r.toBookTop20) hkept
    rw [← hbbo] at hmem
    obtain ⟨q, hq, hrow⟩ := List.mem_map.1 hmem
    exact ⟨q, hq, hrow⟩

/-! ## Binance -/

def DepthEvent.levels (e : DepthEvent) : TopLevels where
  bidPxE8 := sliceE8 Level.px e.bids
  bidQtyE8 := sliceE8 Level.qty e.bids
  askPxE8 := sliceE8 Level.px e.asks
  askQtyE8 := sliceE8 Level.qty e.asks

/-- What the window of `binance_books` is ordered by. -/
def DepthEvent.age (e : DepthEvent) : (Int ×ₗ Int ×ₗ Int ×ₗ Int ×ₗ Int)ᵒᵈ := (e.typed "").age

/-- The frame is the last of its second among these. -/
def lastOfSlot (frames : List DepthEvent) (e : DepthEvent) : Bool :=
  frames.all fun e' => e'.slot = e.slot → e.age ≤ e'.age

/-- What a symbol is called does not matter to the windows. -/
theorem binanceBooks_typed (runTs : Int) (name : String → String) (frames : List DepthEvent) :
    binanceBooks runTs (frames.map fun e => e.typed (name e.symbol)) =
      (frames.filter (lastOfSlot frames)).map fun e =>
        binanceBook runTs (e.typed (name e.symbol)) := by
  have hlast : (lastInSecond (frames.map fun e => e.typed (name e.symbol))) ∘
      (fun e : DepthEvent => e.typed (name e.symbol)) = lastOfSlot frames := by
    funext e
    rw [Function.comp_apply, lastInSecond, List.all_map]
    rfl
  rw [binanceBooks, List.filter_map, hlast, List.map_map]
  rfl

theorem books_binance {ticks : List BookTick} {states : BookKey → Option StateRow}
    {books : List BookRow} (h : WritesTo floatDigits .binance states ticks books) :
    books = ticks.flatMap fun tick => binanceBooks tick.runTs (tick.typedOf .binance) := by
  induction h with
  | nil states => rfl
  | @cons table tick p ticks books run quiet rest ih =>
    obtain ⟨typed, htyped, rfl⟩ := Option.map_eq_some_iff.1 run
    obtain rfl : typed = tick.typedOf .binance := project_eq_some htyped
    rw [List.flatMap_cons, ← ih]

theorem books_of_tick {ticks : List BookTick} {states : BookKey → Option StateRow}
    {books : List BookRow} (h : WritesTo floatDigits .binance states ticks books)
    {tick : BookTick} (ht : tick ∈ ticks) :
    binanceBooks tick.runTs (tick.typedOf .binance) =
      ((tick.arrived .binance).filter (lastOfSlot (tick.arrived .binance))).map
        fun e : DepthEvent =>
          binanceBook tick.runTs (e.typed (tick.nameOf .binance e.symbol)) := by
  rw [typed_of_writes h tick ht]
  exact binanceBooks_typed tick.runTs (tick.nameOf .binance) (tick.arrived .binance)

/-- The levels of a connection in a second, as one tick has them. -/
def levelsAt (key : BookKey) (s : Int) (frames : List DepthEvent) : List TopLevels :=
  ((frames.filter (lastOfSlot frames)).filter fun e =>
    (e.symbol, e.connId) = key ∧ e.slot.2 = s).map DepthEvent.levels

theorem recv_of_slot {e : DepthEvent} {s : Int} (h : e.slot.2 = s) :
    e.recvTsNs < (s + 1) * NS := by
  have hslot : e.recvTsNs.tdiv 1000 / 1000000 = s := h
  have hdiv := Int.mul_tdiv_add_tmod e.recvTsNs 1000
  have hmod := Int.tmod_lt_of_pos e.recvTsNs (show (0 : Int) < 1000 by decide)
  unfold NS
  omega

/-- Frames of later seconds do not show. -/
theorem levelsAt_early (key : BookKey) (s : Int) (frames : List DepthEvent) :
    levelsAt key s (frames.filter fun e => e.recvTsNs < (s + 1) * NS) = levelsAt key s frames := by
  rw [levelsAt, levelsAt, List.filter_filter, List.filter_filter, List.filter_filter]
  refine congrArg _ (List.filter_congr fun e he => ?_)
  by_cases hat : (e.symbol, e.connId) = key ∧ e.slot.2 = s
  · have hearly := recv_of_slot hat.2
    have hlast : lastOfSlot (frames.filter fun e => e.recvTsNs < (s + 1) * NS) e =
        lastOfSlot frames e := by
      rw [lastOfSlot, lastOfSlot, List.all_filter]
      refine List.all_congr rfl fun e' => ?_
      by_cases hslot : e'.slot = e.slot
      · have hearly' := recv_of_slot (hslot ▸ hat.2 : e'.slot.2 = s)
        simp [hearly']
      · simp [hslot]
    simp [hat, hearly, hlast]
  · simp [hat]

theorem levels_binance {ticks : List BookTick} (h : Written floatDigits .binance ticks)
    (key : BookKey) (s : Int) :
    ((booksAfter floatDigits ticks).booksAt .binance key s).map (fun r => r.levels) =
      (ticks.map fun tick => tick.arrived .binance).flatMap (levelsAt key s) := by
  rw [booksAt_eq, booksOf, books_binance h.writes, List.filter_flatMap, List.filter_flatMap,
    List.map_flatMap, List.flatMap_map]
  refine List.flatMap_congr fun tick ht => ?_
  rw [books_of_tick h.writes ht, List.filter_map, List.filter_map, List.map_map, levelsAt,
    List.filter_filter]
  refine congrArg _ (List.filter_congr fun e _ => ?_)
  have hexchange : (binanceBook tick.runTs (e.typed (tick.nameOf .binance e.symbol))).exchange =
      Exchange.binance.name := rfl
  simp only [Function.comp_apply, hexchange, true_and]
  rw [Bool.decide_and, Bool.and_comm]
  rfl

/-! ## Replayed venues -/

/-- The frames of a replayed venue, run by run, as the runs type them. -/
def typedBy (v : Exchange) (ticks : List (BookTick × List BookFrame)) : List (List TypedFrame) :=
  ticks.map fun t => t.2.map fun f => ⟨f, t.1.nameOf v f.symbol⟩

theorem frames_typedBy (ticks : List (BookTick × List BookFrame)) :
    ((typedBy v ticks).map fun b => b.map TypedFrame.toBookFrame) = ticks.map Prod.snd := by
  rw [typedBy, List.map_map]
  refine List.map_congr_left fun t _ => ?_
  rw [Function.comp_apply, List.map_map]
  exact List.map_id _

variable (floatDigits v) in
/-- The archive of a replayed venue, and the rows of `gold.book_top20` that its ticks append. -/
structure ReplayedArchive (ticks : List (BookTick × List BookFrame)) (books : List BookRow) :
    Prop where
  replays : ReplaysTo floatDigits v (fun _ => none) (typedBy v ticks) books
  tidy : Tidy (ticks.map Prod.snd)

theorem tidy_of_archive {ticks : List BookTick} {frames : BookTick → List BookFrame}
    (hlineage : ∀ tick ∈ ticks, ((frames tick).map BookFrame.lineage).Nodup)
    (hsteady : Steady (ticks.map frames)) :
    Tidy ((ticks.map fun tick => (tick, frames tick)).map Prod.snd) := by
  have hsnd : (ticks.map fun tick => (tick, frames tick)).map Prod.snd = ticks.map frames := by
    rw [List.map_map]
    rfl
  rw [hsnd]
  refine ⟨fun b hb => ?_, hsteady⟩
  obtain ⟨tick, htick, rfl⟩ := List.mem_map.1 hb
  exact hlineage tick htick

theorem Recorded.kraken {ticks : List BookTick} (h : Recorded .kraken ticks)
    (hwritten : Written floatDigits .kraken ticks) :
    ReplayedArchive floatDigits .kraken (ticks.map fun tick => (tick, tick.arrived .kraken))
      ((booksAfter floatDigits ticks).booksFor .kraken) := by
  constructor
  · have htyped : typedBy .kraken (ticks.map fun tick => (tick, tick.arrived .kraken)) =
        ticks.map fun tick => tick.typedOf .kraken := by
      rw [typedBy, List.map_map]
      exact List.map_congr_left fun tick ht => (typed_of_writes hwritten.writes tick ht).symm
    rw [htyped]
    exact replaysTo_kraken hwritten.writes h.archive
  · exact tidy_of_archive (fun tick ht => (archive_of_tick h.archive ht).lineage) h.steady

theorem Recorded.coinbase {ticks : List BookTick} (h : Recorded .coinbase ticks)
    (hwritten : Written floatDigits .coinbase ticks) :
    ReplayedArchive floatDigits .coinbase (ticks.map fun tick => (tick, tick.arrived .coinbase))
      ((booksAfter floatDigits ticks).booksFor .coinbase) := by
  constructor
  · have htyped : typedBy .coinbase (ticks.map fun tick => (tick, tick.arrived .coinbase)) =
        ticks.map fun tick => tick.typedOf .coinbase := by
      rw [typedBy, List.map_map]
      exact List.map_congr_left fun tick ht => (typed_of_writes hwritten.writes tick ht).symm
    rw [htyped]
    exact replaysTo_coinbase hwritten.writes h.archive
  · exact tidy_of_archive (fun tick ht => (archive_of_tick h.archive ht).lineage) h.steady

/-! ## Two archives that agree until the end of a second -/

variable (v) in
/-- The frames received before a time, as they are cut into ticks. -/
def earlier (untilNs : Int) (ticks : List BookTick) : List (List (Frame v)) :=
  (ticks.map fun tick => (tick.arrived v).filter fun f => f.recvTsNs < untilNs).filter
    fun b => !b.isEmpty

/-- The frames received before a time of a replayed venue. -/
def earlierFrames (untilNs : Int) (batches : List (List BookFrame)) : List (List BookFrame) :=
  (batches.map fun b => b.filter fun f => f.recvTsNs < untilNs).filter fun b => !b.isEmpty

theorem ReplayedArchive.same_levels {ticks ticks' : List (BookTick × List BookFrame)}
    {books books' : List BookRow} (h : ReplayedArchive floatDigits v ticks books)
    (h' : ReplayedArchive floatDigits v ticks' books') {s : Int}
    (hagree : earlierFrames ((s + 1) * NS) (ticks.map Prod.snd) =
      earlierFrames ((s + 1) * NS) (ticks'.map Prod.snd)) {key : BookKey}
    (hrows : ((booksOf v key books).filter fun r => r.second = s) ≠ [])
    (hrows' : ((booksOf v key books').filter fun r => r.second = s) ≠ []) :
    ((booksOf v key books).filter fun r => r.second = s).map (fun r => r.levels) =
      ((booksOf v key books').filter fun r => r.second = s).map fun r => r.levels := by
  have hone : ∀ {ticks : List (BookTick × List BookFrame)} {books : List BookRow},
      ReplayedArchive floatDigits v ticks books →
      ((booksOf v key books).filter fun r => r.second = s) ≠ [] →
      ∃ b, bookThrough key (earlierFrames ((s + 1) * NS) (ticks.map Prod.snd)) = some b ∧
        ((booksOf v key books).filter fun r => r.second = s).map (fun r => r.levels) =
          [b.topLevels] := by
    intro ticks books h hrows
    have hframes := frames_typedBy (v := v) ticks
    have hlevels := levels_of_second h.replays (hframes ▸ h.tidy) key s
    rw [hframes] at hlevels
    rcases hlevels with hnone | ⟨b, hb, hlevels⟩
    · exact absurd hnone hrows
    · refine ⟨b, ?_, hlevels⟩
      rw [earlierFrames, bookThrough_nonempty]
      exact hb
  obtain ⟨b, hb, hlevels⟩ := hone h hrows
  obtain ⟨b', hb', hlevels'⟩ := hone h' hrows'
  rw [hagree, hb'] at hb
  rw [hlevels, hlevels', Option.some.inj hb]

theorem ReplayedArchive.same_booksAt {ticks ticks' : List (BookTick × List BookFrame)}
    {t t' : BookTables} (h : ReplayedArchive floatDigits v ticks (t.booksFor v))
    (h' : ReplayedArchive floatDigits v ticks' (t'.booksFor v)) {s : Int}
    (hagree : earlierFrames ((s + 1) * NS) (ticks.map Prod.snd) =
      earlierFrames ((s + 1) * NS) (ticks'.map Prod.snd)) {key : BookKey}
    (hrows : t.booksAt v key s ≠ []) (hrows' : t'.booksAt v key s ≠ []) :
    (t.booksAt v key s).map (fun r => r.levels) =
      (t'.booksAt v key s).map fun r => r.levels := by
  rw [booksAt_eq] at hrows hrows' ⊢
  rw [booksAt_eq]
  exact h.same_levels h' hagree hrows hrows'

/-- **The levels of a second** are the same in two archives that agree until its end. -/
theorem same_levels {a b : List BookTick} (ha : Recorded v a) (hb : Recorded v b)
    (hwa : Written floatDigits v a) (hwb : Written floatDigits v b) {s : Int}
    (hagree : earlier v ((s + 1) * NS) a = earlier v ((s + 1) * NS) b) {key : BookKey}
    (hrows : (booksAfter floatDigits a).booksAt v key s ≠ [])
    (hrows' : (booksAfter floatDigits b).booksAt v key s ≠ []) :
    ((booksAfter floatDigits a).booksAt v key s).map (fun r => r.levels) =
      ((booksAfter floatDigits b).booksAt v key s).map fun r => r.levels := by
  cases v with
  | binance =>
    have hearly : ∀ {c : List BookTick}, Written floatDigits .binance c →
        ((booksAfter floatDigits c).booksAt .binance key s).map (fun r => r.levels) =
          (earlier .binance ((s + 1) * NS) c).flatMap (levelsAt key s) := by
      intro c hc
      rw [levels_binance hc, earlier, flatMap_nonempty rfl, List.flatMap_map, List.flatMap_map]
      exact List.flatMap_congr fun tick _ => (levelsAt_early key s (tick.arrived .binance)).symm
    rw [hearly hwa, hearly hwb, hagree]
  | kraken =>
    refine (ha.kraken hwa).same_booksAt (hb.kraken hwb) ?_ hrows hrows'
    rw [earlierFrames, earlierFrames, List.map_map, List.map_map, List.map_map, List.map_map]
    exact hagree
  | coinbase =>
    refine (ha.coinbase hwa).same_booksAt (hb.coinbase hwb) ?_ hrows hrows'
    rw [earlierFrames, earlierFrames, List.map_map, List.map_map, List.map_map, List.map_map]
    exact hagree

/-! ## Two archives that agree but for what was received later -/

end Archives

/-- The frame without what it says. -/
def Frame.stamps : {v : Exchange} → Frame v → Frame v
  | .binance, f => ({ f with lastUpdateId := 0, bids := [], asks := [] } : DepthEvent)
  | .kraken, f => ({ f with payload := .kraken "" [] [] 0 none } : BookFrame)
  | .coinbase, f => ({ f with payload := .coinbase "" [] 0 0 } : BookFrame)

/-- Two frames that are one, but if they were received later for what they say. -/
structure SameUntil {v : Exchange} (untilNs : Int) (f g : Frame v) : Prop where
  stamps : f.stamps = g.stamps
  content : f.recvTsNs < untilNs → f = g

/-- Two runs before which such frames arrive, under one registry. -/
structure SameTick (untilNs : Int) (a b : BookTick) : Prop where
  registry : a.registry = b.registry
  frames : ∀ v, List.Forall₂ (SameUntil untilNs) (a.arrived v) (b.arrived v)

theorem SameUntil.symm {v : Exchange} {untilNs : Int} {f g : Frame v} (h : SameUntil untilNs f g) :
    SameUntil untilNs g f := by
  have hrecv : f.recvTsNs = g.recvTsNs := by
    have hstamps := congrArg Frame.recvTsNs h.stamps
    cases v <;> exact hstamps
  exact ⟨h.stamps.symm, fun hg => (h.content (hrecv ▸ hg)).symm⟩

theorem SameTick.symm {untilNs : Int} {a b : BookTick} (h : SameTick untilNs a b) :
    SameTick untilNs b a :=
  ⟨h.registry.symm, fun v => ((h.frames v).imp fun _ _ hfg => hfg.symm).flip⟩

section Later

variable {floatDigits : Int → Int → String} {v : Exchange} {untilNs : Int}

/-- Two typed frames that are one, but if they were received later for what they say. -/
structure SameTyped (untilNs : Int) (r r' : TypedFrame) : Prop where
  key : r.key = r'.key
  sent : r.sent = r'.sent
  recvTsNs : r.recvTsNs = r'.recvTsNs
  canonicalSymbol : r.canonicalSymbol = r'.canonicalSymbol
  payload : r.recvTsNs < untilNs → r.payload = r'.payload

theorem SameTyped.order {r r' : TypedFrame} (h : SameTyped untilNs r r') : r.order = r'.order := by
  obtain ⟨hsymbol, hconn⟩ := Prod.mk.inj h.key
  rw [TypedFrame.order, TypedFrame.order, hsymbol, hconn, h.sent]

theorem forall₂_turns {α β : Type} {R : α → β → Prop} {l : List α} {l' : List β}
    (h : List.Forall₂ R l l') :
    List.Forall₂ (fun i j => i.1 = j.1 ∧ R i.2 j.2) (turns l) (turns l') := by
  cases h with
  | nil => exact .nil
  | cons hab h =>
    refine .cons ⟨rfl, hab⟩ ?_
    rw [List.forall₂_map_left_iff, List.forall₂_map_right_iff]
    exact h.imp fun _ _ hab => ⟨rfl, hab⟩

theorem forall₂_turnsOf {batches batches' : List (List TypedFrame)}
    (h : List.Forall₂ (List.Forall₂ (SameTyped untilNs)) batches batches') (key : BookKey) :
    List.Forall₂ (fun i j => i.1 = j.1 ∧ SameTyped untilNs i.2 j.2) (turnsOf key batches)
      (turnsOf key batches') := by
  induction h with
  | nil => exact .nil
  | @cons b b' batches batches' hb _ ih =>
    have hfilter : List.Forall₂ (SameTyped untilNs) (b.filter fun r => r.key = key)
        (b'.filter fun r => r.key = key) :=
      List.rel_filter (fun r r' hr => by simp [hr.key]) hb
    have hsorted := sortOn_forall₂ (R := SameTyped untilNs) (fun _ _ hr => hr.order) hfilter
    rw [turnsOf, turnsOf, List.flatMap_cons, List.flatMap_cons]
    exact List.rel_append (forall₂_turns hsorted) ih

theorem alike_of_sameTyped {k : Int} (hk : (k + 1) * NS ≤ untilNs) {i j : Turn}
    (h : i.1 = j.1 ∧ SameTyped untilNs i.2 j.2) : bookSampler.Alike k i j := by
  obtain ⟨hfirst, hframe⟩ := h
  have hpayload : bookSampler.period i ≤ k → i.2.payload = j.2.payload := by
    intro hi
    refine hframe.payload ?_
    have hi : i.2.recvTsNs / NS ≤ k := hi
    unfold NS at hi hk
    omega
  refine ⟨?_, ?_, fun hi => ?_, fun hi => ?_⟩
  · show i.2.recvTsNs / NS = j.2.recvTsNs / NS
    rw [hframe.recvTsNs]
  · funext b
    show (i.2.canonicalSymbol, b.topLevels) = (j.2.canonicalSymbol, b.topLevels)
    rw [hframe.canonicalSymbol]
  · simp only [bookSampler, hpayload hi]
  · simp only [bookSampler, hpayload hi, hfirst]

/-- What later frames say does not show in a row of a replayed venue. -/
theorem ReplayedArchive.same_row {ticks ticks' : List (BookTick × List BookFrame)}
    {books books' : List BookRow} (h : ReplayedArchive floatDigits v ticks books)
    (h' : ReplayedArchive floatDigits v ticks' books')
    (hsame : List.Forall₂ (List.Forall₂ (SameTyped untilNs)) (typedBy v ticks) (typedBy v ticks'))
    {key : BookKey} {r : BookRow} (hr : r ∈ booksOf v key books)
    (hover : (r.second + 1) * NS ≤ untilNs) :
    ∃ r' ∈ booksOf v key books', r'.sampled = r.sampled := by
  have hframes := frames_typedBy (v := v) ticks
  have hsteady := steady_turns (hframes ▸ h.tidy : Tidy _) key
  have hagree := bookSampler.agree ((forall₂_turnsOf hsame key).imp fun _ _ =>
    alike_of_sameTyped hover) hsteady none
  rw [← h.replays.sampled_all key, ← h'.replays.sampled_all key] at hagree
  have hmem : r.sampled ∈ ((booksOf v key books).map BookRow.sampled).filter fun o =>
      o.1 ≤ r.second :=
    List.mem_filter.2 ⟨List.mem_map_of_mem hr, decide_eq_true le_rfl⟩
  rw [hagree] at hmem
  obtain ⟨r', hr', hsampled⟩ := List.mem_map.1 (List.mem_of_mem_filter hmem)
  exact ⟨r', hr', hsampled⟩

theorem sameTyped_of_stamps {t t' : BookTick} (hregistry : t.registry = t'.registry)
    {f g : BookFrame} {p : Payload}
    (hstamps : ({ f with payload := p } : BookFrame) = { g with payload := p })
    (hcontent : f.recvTsNs < untilNs → f = g) :
    SameTyped untilNs ⟨f, t.nameOf v f.symbol⟩ ⟨g, t'.nameOf v g.symbol⟩ := by
  have hkey := congrArg BookFrame.key hstamps
  have hsent := congrArg BookFrame.sent hstamps
  have hrecv := congrArg BookFrame.recvTsNs hstamps
  have hsymbol : f.symbol = g.symbol := (Prod.mk.inj hkey).1
  refine ⟨hkey, hsent, hrecv, ?_, fun hearly => ?_⟩
  · show t.nameOf v f.symbol = t'.nameOf v g.symbol
    rw [BookTick.nameOf, BookTick.nameOf, hregistry, hsymbol]
  · have hframe : f = g := hcontent hearly
    rw [hframe]

/-- What later frames say does not show in a row of Binance's. -/
theorem binance_same_row {ticks ticks' : List BookTick}
    {states states' : BookKey → Option StateRow} {books books' : List BookRow}
    (h : WritesTo floatDigits .binance states ticks books)
    (h' : WritesTo floatDigits .binance states' ticks' books')
    (hsame : List.Forall₂ (SameTick untilNs) ticks ticks') {r : BookRow} (hr : r ∈ books)
    (hover : (r.second + 1) * NS ≤ untilNs) :
    ∃ r' ∈ books', r'.exchange = r.exchange ∧ r'.sampled = r.sampled := by
  rw [books_binance h] at hr
  rw [books_binance h']
  obtain ⟨t, ht, hr⟩ := List.mem_flatMap.1 hr
  obtain ⟨t', ht', htick⟩ := hsame.flip.exists_of_mem_right ht
  rw [books_of_tick h ht] at hr
  obtain ⟨e, he, rfl⟩ := List.mem_map.1 hr
  obtain ⟨he, hlast⟩ := List.mem_filter.1 he
  have hearly : e.recvTsNs < untilNs := lt_of_lt_of_le (recv_of_slot rfl) hover
  have hframes := htick.frames .binance
  obtain ⟨e', he', hsame⟩ := hframes.flip.exists_of_mem_right he
  obtain rfl : e = e' := hsame.content hearly
  -- the other frames of its second have the same stamps in both
  have hlast' : lastOfSlot (t'.arrived .binance) e = true := by
    refine List.all_eq_true.2 fun x' hx' => ?_
    obtain ⟨x, hx, hxx⟩ := hframes.exists_of_mem_right hx'
    have hslot := congrArg DepthEvent.slot hxx.stamps
    have hage := congrArg DepthEvent.age hxx.stamps
    have hslot : DepthEvent.slot x = DepthEvent.slot x' := hslot
    have hage : DepthEvent.age x = DepthEvent.age x' := hage
    rw [← hslot, ← hage]
    exact List.all_eq_true.1 hlast x hx
  have hname : t.nameOf .binance e.symbol = t'.nameOf .binance e.symbol := by
    rw [BookTick.nameOf, BookTick.nameOf, htick.registry]
  refine ⟨binanceBook t'.runTs (e.typed (t'.nameOf .binance e.symbol)),
    List.mem_flatMap.2 ⟨t', ht', ?_⟩, rfl, ?_⟩
  · rw [books_of_tick h' ht']
    exact List.mem_map_of_mem (List.mem_filter.2 ⟨he', hlast'⟩)
  · rw [← hname]
    rfl

/-- The runs type a replayed venue's frames alike. -/
theorem sameTyped_typedBy {a b : List BookTick} {frames : BookTick → List BookFrame}
    (h : List.Forall₂ (fun t t' => t.registry = t'.registry ∧
      List.Forall₂ (fun f g : BookFrame => ∃ p : Payload,
        ({ f with payload := p } : BookFrame) = { g with payload := p } ∧
          (f.recvTsNs < untilNs → f = g)) (frames t) (frames t')) a b) :
    List.Forall₂ (List.Forall₂ (SameTyped untilNs))
      (typedBy v (a.map fun tick => (tick, frames tick)))
      (typedBy v (b.map fun tick => (tick, frames tick))) := by
  rw [typedBy, typedBy, List.map_map, List.map_map, List.forall₂_map_left_iff,
    List.forall₂_map_right_iff]
  refine h.imp fun t t' htick => ?_
  obtain ⟨hregistry, hframes⟩ := htick
  show List.Forall₂ _ (List.map _ _) (List.map _ _)
  rw [List.forall₂_map_left_iff, List.forall₂_map_right_iff]
  refine hframes.imp fun f g hfg => ?_
  obtain ⟨p, hstamps, hcontent⟩ := hfg
  exact sameTyped_of_stamps hregistry hstamps hcontent

/-- What later frames say does not show in a row whose second is over by then. -/
theorem same_row {a b : List BookTick} (ha : Recorded v a) (hb : Recorded v b)
    (hwa : Written floatDigits v a) (hwb : Written floatDigits v b)
    (hsame : List.Forall₂ (SameTick untilNs) a b) {r : BookRow}
    (hr : r ∈ (booksAfter floatDigits a).booksFor v) (hover : (r.second + 1) * NS ≤ untilNs) :
    ∃ r' ∈ (booksAfter floatDigits b).booksFor v,
      r'.exchange = r.exchange ∧ r'.sampled = r.sampled := by
  have hexchange : r.exchange = v.name := of_decide_eq_true (List.mem_filter.1 hr).2
  have hmem : r ∈ booksOf v (r.symbol, r.connId) ((booksAfter floatDigits a).booksFor v) :=
    List.mem_filter.2 ⟨hr, decide_eq_true ⟨hexchange, rfl⟩⟩
  have hfinish : (∃ r' ∈ booksOf v (r.symbol, r.connId) ((booksAfter floatDigits b).booksFor v),
      r'.sampled = r.sampled) → ∃ r' ∈ (booksAfter floatDigits b).booksFor v,
        r'.exchange = r.exchange ∧ r'.sampled = r.sampled := by
    rintro ⟨r', hr', hsampled⟩
    obtain ⟨hr', hkey⟩ := List.mem_filter.1 hr'
    exact ⟨r', hr', (of_decide_eq_true hkey).1.trans hexchange.symm, hsampled⟩
  cases v with
  | binance => exact binance_same_row hwa.writes hwb.writes hsame hr hover
  | kraken =>
    refine hfinish ((ha.kraken hwa).same_row (hb.kraken hwb) (sameTyped_typedBy ?_) hmem hover)
    exact hsame.imp fun t t' htick => ⟨htick.registry,
      (htick.frames .kraken).imp fun f g hfg => ⟨_, hfg.stamps, hfg.content⟩⟩
  | coinbase =>
    refine hfinish ((ha.coinbase hwa).same_row (hb.coinbase hwb) (sameTyped_typedBy ?_) hmem
      hover)
    exact hsame.imp fun t t' htick => ⟨htick.registry,
      (htick.frames .coinbase).imp fun f g hfg => ⟨_, hfg.stamps, hfg.content⟩⟩

/-- Nor in its quote. -/
theorem same_bbo {a b : List BookTick} (ha : Recorded v a) (hb : Recorded v b)
    (hwa : Written floatDigits v a) (hwb : Written floatDigits v b)
    (hsame : List.Forall₂ (SameTick untilNs) a b) {q : Bbo}
    (hq : q ∈ (booksAfter floatDigits a).bboFor v) (hover : (q.second + 1) * NS ≤ untilNs) :
    ∃ q' ∈ (booksAfter floatDigits b).bboFor v, q'.exchange = q.exchange ∧
      q'.canonicalSymbol = q.canonicalSymbol ∧ q'.quote = q.quote := by
  obtain ⟨r, hr, htwo, hrow⟩ := (mem_bbo hwa).1 q hq
  have hseconds : q.second = r.second := congrArg Bbo.second hrow
  obtain ⟨r', hr', hexchange, hsampled⟩ := same_row ha hb hwa hwb hsame hr (hseconds ▸ hover)
  simp only [BookRow.sampled, Prod.mk.injEq] at hsampled
  obtain ⟨hsecond, hcanonical, hlevels⟩ := hsampled
  obtain ⟨q', hq', hrow'⟩ := (mem_bbo hwb).2 r' hr' (by rw [hlevels]; exact htwo)
  refine ⟨q', hq', ?_, ?_, ?_⟩
  · exact (congrArg Bbo.exchange hrow').trans (hexchange.trans (congrArg Bbo.exchange hrow).symm)
  · exact (congrArg Bbo.canonicalSymbol hrow').trans
      (hcanonical.trans (congrArg Bbo.canonicalSymbol hrow).symm)
  · have hquote : q.timeless.quote = quoteOf r.second r.levels :=
      (congrArg Bbo.quote hrow).trans (quote_bboRow 0 r)
    have hquote' : q'.timeless.quote = quoteOf r'.second r'.levels :=
      (congrArg Bbo.quote hrow').trans (quote_bboRow 0 r')
    show q'.timeless.quote = q.timeless.quote
    rw [hquote, hquote', hsecond, hlevels]

end Later

/-! ## The quote of a trade -/

/-- The join depends on the rows that are over by the trade alone. -/
theorem AsofJoined.of_same {rows rows' : List Bbo} {endTs : Int} {t : GoldTrade}
    (hto : ∀ q ∈ rows, q.second * 1000000 + 1000000 ≤ t.exchangeTs →
      ∃ q' ∈ rows', q'.exchange = q.exchange ∧ q'.canonicalSymbol = q.canonicalSymbol ∧
        q'.quote = q.quote)
    (hfrom : ∀ q ∈ rows', q.second * 1000000 + 1000000 ≤ t.exchangeTs →
      ∃ q' ∈ rows, q'.exchange = q.exchange ∧ q'.canonicalSymbol = q.canonicalSymbol ∧
        q'.quote = q.quote)
    {o : Option Quote} (h : AsofJoined rows endTs t o) : AsofJoined rows' endTs t o := by
  have hmove : ∀ {q q' : Bbo}, q'.exchange = q.exchange → q'.canonicalSymbol = q.canonicalSymbol →
      q'.quote = q.quote → q.Joinable endTs t → q'.Joinable endTs t := by
    intro q q' hexchange hcanonical hquote hq
    have hsecond : q'.second = q.second := congrArg Quote.second hquote
    refine ⟨hexchange.trans hq.exchange, hcanonical.trans hq.canonicalSymbol, ?_, ?_⟩
    · rw [hsecond]
      exact hq.scanned
    · rw [hsecond]
      exact hq.ended
  cases h with
  | @quoted q mem joinable greatest =>
    obtain ⟨q', hq', hexchange, hcanonical, hquote⟩ := hto q mem joinable.ended
    have hsecond : q'.second = q.second := congrArg Quote.second hquote
    rw [← hquote]
    refine .quoted hq' (hmove hexchange hcanonical hquote joinable) fun p hp hjoin => ?_
    obtain ⟨p', hp', hexchange', hcanonical', hquote'⟩ := hfrom p hp hjoin.ended
    have hle := greatest p' hp' (hmove hexchange' hcanonical' hquote' hjoin)
    have hsecond' : p'.second = p.second := congrArg Quote.second hquote'
    omega
  | unquoted none_joinable =>
    refine .unquoted fun p hp hjoin => ?_
    obtain ⟨p', hp', hexchange', hcanonical', hquote'⟩ := hfrom p hp hjoin.ended
    exact none_joinable p' hp' (hmove hexchange' hcanonical' hquote' hjoin)

section Quoted

variable {floatDigits : Int → Int → String} {a b : List BookTick} {t : GoldTrade}

/-- Every row of `gold.bbo_1s` is of a venue. -/
theorem named_bbo (ticks : List BookTick) :
    ∀ q ∈ (booksAfter floatDigits ticks).bbo, ∃ v : Exchange, q.exchange = v.name := by
  have hturn : ∀ (tick : BookTick) (s : Nat × BookTables) (v : Exchange),
      (∀ q ∈ s.2.bbo, ∃ v : Exchange, q.exchange = v.name) →
      ∀ q ∈ (stageBooksOf floatDigits tick s v).2.bbo, ∃ v : Exchange, q.exchange = v.name := by
    intro tick s v hs
    unfold stageBooksOf
    split
    · exact hs
    · cases hp : process floatDigits tick s.2.state v (s.2.unread v) with
      | none => exact hs
      | some p =>
        intro q hq
        simp only [BookTables.commit] at hq
        split at hq
        · rcases List.mem_append.1 hq with hq | hq
          · exact hs q hq
          · exact ⟨v, bbo_exchange (ofVenue_process hp).books _ q hq⟩
        · exact hs q hq
  have hruns : ∀ t : BookTables, (∀ q ∈ t.bbo, ∃ v : Exchange, q.exchange = v.name) →
      ∀ q ∈ (ticks.foldl (BookTables.apply floatDigits) t).bbo,
        ∃ v : Exchange, q.exchange = v.name := by
    induction ticks with
    | nil => exact fun t ht => ht
    | cons tick ticks ih =>
      intro t ht
      refine ih _ ?_
      rw [BookTables.apply, stage_eq, beforeTurn]
      exact hturn tick _ _ (hturn tick _ _ (hturn tick _ _ ht))
  exact hruns BookTables.empty fun q hq => by cases hq

variable (floatDigits) in
/-- A lake of which every venue is recorded, and each run gets through. -/
structure Complete (ticks : List BookTick) : Prop where
  recorded : ∀ v, Recorded v ticks
  through : ∀ v, AllThrough floatDigits v BookTables.empty ticks

theorem same_bboTable (ha : Complete floatDigits a) (hb : Complete floatDigits b)
    (hsame : List.Forall₂ (SameTick (t.exchangeTs * 1000)) a b) :
    ∀ q ∈ (booksAfter floatDigits a).bbo, q.second * 1000000 + 1000000 ≤ t.exchangeTs →
      ∃ q' ∈ (booksAfter floatDigits b).bbo, q'.exchange = q.exchange ∧
        q'.canonicalSymbol = q.canonicalSymbol ∧ q'.quote = q.quote := by
  intro q hq hover
  obtain ⟨v, hv⟩ := named_bbo a q hq
  have hover : (q.second + 1) * NS ≤ t.exchangeTs * 1000 := by
    unfold NS
    omega
  obtain ⟨q', hq', hsame⟩ := same_bbo (ha.recorded v) (hb.recorded v)
    (written_of_through (ha.through v)) (written_of_through (hb.through v)) hsame
    (List.mem_filter.2 ⟨hq, decide_eq_true hv⟩) hover
  exact ⟨q', List.mem_of_mem_filter hq', hsame⟩

/-- **The quotes of a trade** do not depend on what was received at its time or after. -/
theorem same_quotes (ha : Complete floatDigits a) (hb : Complete floatDigits b)
    (hsame : List.Forall₂ (SameTick (t.exchangeTs * 1000)) a b) (endTs : Int)
    (o : Option Quote) :
    AsofJoined (booksAfter floatDigits a).bbo endTs t o ↔
      AsofJoined (booksAfter floatDigits b).bbo endTs t o := by
  have hflip : List.Forall₂ (SameTick (t.exchangeTs * 1000)) b a :=
    (hsame.imp fun _ _ h => h.symm).flip
  exact ⟨AsofJoined.of_same (same_bboTable ha hb hsame) (same_bboTable hb ha hflip),
    AsofJoined.of_same (same_bboTable hb ha hflip) (same_bboTable ha hb hsame)⟩

end Quoted

/-- A frame of one partition, with the millisecond of its receipt. -/
def bookFrame (symbol : String) (payload : Payload) (connId : String) (recvMs seq offset : Int) :
    BookFrame where
  symbol := symbol
  payload := payload
  recvTsNs := recvMs * 1000000
  connId := connId
  connMsgSeq := seq
  srcTopic := "market.crypto.v3.raw"
  srcPartition := 0
  srcOffset := offset
  srcIndex := 0

/-- A run before which frames of one replayed venue arrive. -/
def replayedTick (v : Exchange) (symbol : String) (frames : List BookFrame) : BookTick :=
  { crashTick [] ALL_COMMITS with
    arrived := fun w => match v, w with
      | .kraken, .kraken => frames
      | .coinbase, .coinbase => frames
      | _, _ => []
    registry := Dict.ofItems [(v.name, Dict.ofItems [(symbol, "BTC/USD")])] }

/-- Frames in the order of their receipt, which is that of their sending. -/
theorem steady_of_ordered {batches : List (List BookFrame)}
    (hlineage : ∀ b ∈ batches, (b.map BookFrame.lineage).Nodup)
    (hsent : ∀ b ∈ batches, b.Pairwise fun f g => f.sent ≤ g.sent)
    (hclock : batches.flatten.Pairwise fun f g => f.recvTsNs ≤ g.recvTsNs) : Steady batches := by
  intro key
  have hframes : batches.flatMap (connectionFrames key) =
      batches.flatten.filter fun f => f.key = key := by
    rw [List.filter_flatten, ← List.flatMap_def]
    refine List.flatMap_congr fun b hb => ?_
    have hinj := sent_inj (hlineage b hb)
    exact sortOn_eq (fun f hf g hg => hinj f (List.mem_of_mem_filter hf) g
      (List.mem_of_mem_filter hg)) (.refl _) ((hsent b hb).sublist List.filter_sublist)
  rw [hframes]
  exact hclock.sublist List.filter_sublist

/-- A level of a Coinbase book, in whole units. -/
def unit (side : String) (px qty : Int) : LevelUpdate := ⟨side, px * 10 ^ 12, qty * 10 ^ 12, none⟩

/-- A snapshot of connection `b`; then an update of it and a frame of connection `a`, received in
    the next second; then one more update. -/
def stumbled (lone : Bool) : List BookTick :=
  [replayedTick .coinbase "BTC-USD" [bookFrame "BTC-USD"
      (.coinbase "snapshot" [unit "bid" 100 1, unit "offer" 101 1] 0 0) "b" 10500 1 0],
    replayedTick .coinbase "BTC-USD"
      [bookFrame "BTC-USD" (.coinbase "update" [unit "bid" 100 7] 1 0) "b" 11500 2 1,
        bookFrame "BTC-USD" (.coinbase (if lone then "snapshot" else "update")
          [unit "bid" 90 1] 0 0) "a" 12200 3 2],
    replayedTick .coinbase "BTC-USD" [bookFrame "BTC-USD"
      (.coinbase "update" [unit "offer" 101 5] 2 0) "b" 13500 4 3]]

theorem recorded_stumbled (lone : Bool) : Recorded .coinbase (stumbled lone) := by
  cases lone <;> exact ⟨⟨by decide, by decide, by decide, by decide⟩,
    steady_of_ordered (by decide) (by decide) (by decide)⟩

/-- A snapshot at 1.5 s, and an update at 5 s, of the bids alone or of an ask too. -/
def updated (ask : Bool) : List BookTick :=
  [replayedTick .kraken "BTC/USD" [bookFrame "BTC/USD"
      (.kraken "snapshot" [⟨100, 100⟩] [⟨200, 100⟩] 0 none) "c" 1500 1 0],
    replayedTick .kraken "BTC/USD" [bookFrame "BTC/USD"
      (.kraken "update" [⟨100, 200⟩] (if ask then [⟨150, 100⟩] else []) 0 none) "c" 5000 2 1]]

theorem recorded_updated (ask : Bool) (v : Exchange) : Recorded v (updated ask) := by
  cases v with
  | binance => exact ⟨Archive.nil .binance, trivial⟩
  | kraken =>
    cases ask <;> exact ⟨⟨by decide, by decide, by decide, by decide⟩,
      steady_of_ordered (by decide) (by decide) (by decide)⟩
  | coinbase => exact ⟨Archive.nil .coinbase, fun _ => .nil⟩

/-- A trade at 3.2 s. -/
def tradeAt : GoldTrade where
  exchange := .kraken
  canonicalSymbol := "BTC/USD"
  symbol := "BTC/USD"
  tradeId := "1"
  tradeSeq := 1
  priceE8 := 1
  qtyE8 := 1
  side := "buy"
  exchangeTs := 3200000
  recvTsNs := 3200000000
  connId := "c"
  connMsgSeq := 3
  seqGap := none
  missingBefore := none
  srcTopic := "market.crypto.v3.trades.kraken"
  srcPartition := 0
  srcOffset := 0
  srcIndex := 0
  ingestTs := 0

theorem same_updated : List.Forall₂ (SameTick (tradeAt.exchangeTs * 1000)) (updated false)
    (updated true) := by
  refine .cons ⟨rfl, fun v => ?_⟩ (.cons ⟨rfl, fun v => ?_⟩ .nil)
  · cases v with
    | binance => exact .nil
    | kraken => exact .cons ⟨rfl, fun _ => rfl⟩ .nil
    | coinbase => exact .nil
  · cases v with
    | binance => exact .nil
    | kraken =>
      refine .cons ⟨rfl, fun hearly => ?_⟩ .nil
      exact absurd hearly (by decide)
    | coinbase => exact .nil

end K2.Lake

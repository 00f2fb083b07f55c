import K2Platform.Lake.VenueLedger

/-!
# Runs of the book stage that are cut off

A run's position is written with its first commit, so what it had still to commit is never
committed.  A run is harmless where there was nothing more, or where it had not begun: then its
frames wait for the next run, and come to the same if they may be read with what arrives later.

* `stage_accounted` — what a harmless run makes of the tables.
* `runs_accounted` — what harmless runs make of them.
* `same_books` — what is cut off harmlessly does not show.
-/

set_option autoImplicit false

namespace K2.Lake

/-! ## Turns -/

/-- A row without the snapshot it was projected from. -/
def Bbo.timeless (r : Bbo) : Bbo := { r with srcSnapshotId := 0 }

theorem timeless_bboOf (books : List BookRow) (srcSnapshotId : Nat) :
    (bboOf books srcSnapshotId).map Bbo.timeless = bboOf books 0 := by
  rw [bboOf, bbo, List.map_map]
  rfl

theorem bboOf_append (books books' : List BookRow) (srcSnapshotId : Nat) :
    bboOf (books ++ books') srcSnapshotId =
      bboOf books srcSnapshotId ++ bboOf books' srcSnapshotId := by
  simp only [bboOf, bbo, List.map_append, List.filter_append]

section Turns

variable (floatDigits : Int → Int → String) (tick : BookTick)

/-- Where the stage is when it comes to a venue. -/
def beforeTurn (s : Nat × BookTables) : Exchange → Nat × BookTables
  | .binance => s
  | .kraken => stageBooksOf floatDigits tick s .binance
  | .coinbase =>
    stageBooksOf floatDigits tick (stageBooksOf floatDigits tick s .binance) .kraken

/-- The commits that are made for the venue. -/
def made (s : Nat × BookTables) (v : Exchange) : Nat :=
  match process floatDigits tick s.2.state v (s.2.unread v) with
  | none => 0
  | some p => min s.1 p.reach

/-- A run that is cut off after the first commit of a venue has nothing left to commit: no frame of
    a replayed venue is of a live connection or a snapshot, and Binance's books are in, none of them
    with two sides. -/
def NothingLeft (t : BookTables) : Exchange → Nat → Prop
  | .binance, n => 2 ≤ n ∧ ∀ typed, tick.project .binance (t.unread .binance) = some typed →
      ∀ f ∈ typed, lastInSecond typed f = true → f.bids = [] ∨ f.asks = []
  | .kraken, _ => ∀ f ∈ t.unread .kraken, (BookFrame.payload f).isSnapshot = false ∧
      statesOf .kraken t.state (BookFrame.key f) = none
  | .coinbase, _ => ∀ f ∈ t.unread .coinbase, (BookFrame.payload f).isSnapshot = false ∧
      statesOf .coinbase t.state (BookFrame.key f) = none

structure HarmlessTurn (s : Nat × BookTables) (v : Exchange) : Prop where
  cut : s.2.unread v ≠ [] → 0 < made floatDigits tick s v →
    made floatDigits tick s v < commitsOf v → NothingLeft tick s.2 v (made floatDigits tick s v)
  restored : Restored v s.2.state

/-- One run.  What waits for it may be read with what arrives. -/
structure HarmlessTick (t : BookTables) : Prop where
  ordered : ∀ v, ∀ f ∈ t.unread v, ∀ g ∈ tick.arrived v, Frame.Before f g
  turns : ∀ v,
    HarmlessTurn floatDigits tick (beforeTurn floatDigits tick (tick.commits, t.arrive tick.arrived) v) v

def Harmless (t : BookTables) : List BookTick → Prop
  | [] => True
  | tick :: ticks => HarmlessTick floatDigits tick t ∧ Harmless (t.apply floatDigits tick) ticks

end Turns

/-! ## Venues apart -/

/-- The rows of a venue in `gold.book_top20`. -/
def BookTables.booksFor (t : BookTables) (v : Exchange) : List BookRow :=
  t.books.filter fun r => r.exchange = v.name

/-- The rows of a venue in `gold.bbo_1s`. -/
def BookTables.bboFor (t : BookTables) (v : Exchange) : List Bbo :=
  t.bbo.filter fun q => q.exchange = v.name

/-- The tables have the same of a venue. -/
structure Untouched (v : Exchange) (t t' : BookTables) : Prop where
  bronze : t'.bronze v = t.bronze v
  position : t'.position v = t.position v
  silver : t'.silver v = t.silver v
  books : t'.booksFor v = t.booksFor v
  bbo : t'.bboFor v = t.bboFor v
  states : statesOf v t'.state = statesOf v t.state

theorem Untouched.refl (v : Exchange) (t : BookTables) : Untouched v t t :=
  ⟨rfl, rfl, rfl, rfl, rfl, rfl⟩

theorem Untouched.trans {v : Exchange} {a b c : BookTables} (h : Untouched v a b)
    (h' : Untouched v b c) : Untouched v a c :=
  ⟨h'.bronze.trans h.bronze, h'.position.trans h.position, h'.silver.trans h.silver,
    h'.books.trans h.books, h'.bbo.trans h.bbo, h'.states.trans h.states⟩

theorem Untouched.unread {v : Exchange} {t t' : BookTables} (h : Untouched v t t') :
    t'.unread v = t.unread v := by
  rw [BookTables.unread, BookTables.unread, h.bronze, h.position]

theorem bbo_exchange {books : List BookRow} {name : String}
    (h : ∀ r ∈ books, r.exchange = name) (srcSnapshotId : Nat) :
    ∀ q ∈ bboOf books srcSnapshotId, q.exchange = name := by
  intro q hq
  obtain ⟨b, hb, rfl⟩ := List.mem_map.1 hq
  obtain ⟨r, hr, rfl⟩ := List.mem_map.1 (List.mem_of_mem_filter hb)
  exact h r hr

/-- What is committed for a venue shows in no other. -/
theorem commit_untouched {v w : Exchange} (hne : v ≠ w) (t : BookTables) {p : Processed w}
    (hp : p.OfVenue) (n : Nat) : Untouched v t (t.commit p n) := by
  have hname : w.name ≠ v.name := fun h => hne (Exchange.name_inj h).symm
  refine ⟨rfl, ?_, ?_, ?_, ?_, ?_⟩
  · simp only [BookTables.commit]
    split
    · exact Function.update_of_ne hne _ _
    · rfl
  · simp only [BookTables.commit]
    split
    · exact Function.update_of_ne hne _ _
    · rfl
  · have hnone : (p.books.filter fun r => r.exchange = v.name) = [] :=
      List.filter_eq_nil_iff.2 fun r hr h =>
        hname ((hp.books r hr).symm.trans (of_decide_eq_true h))
    simp only [BookTables.booksFor, BookTables.commit]
    split
    · rw [List.filter_append, hnone, List.append_nil]
    · rfl
  · have hnone : ((bboOf p.books (t.booksSnapshot + 1)).filter fun q => q.exchange = v.name) = [] :=
      List.filter_eq_nil_iff.2 fun q hq h =>
        hname ((bbo_exchange hp.books _ q hq).symm.trans (of_decide_eq_true h))
    simp only [BookTables.bboFor, BookTables.commit]
    split
    · rw [List.filter_append, hnone, List.append_nil]
    · rfl
  · simp only [BookTables.commit]
    split
    · funext key
      have hnone : (p.states.filter fun r => r.exchange = v.name ∧ r.key = key) = [] :=
        List.filter_eq_nil_iff.2 fun r hr h =>
          hname ((hp.states r hr).symm.trans (of_decide_eq_true h).1)
      rw [statesOf_mergeState, hnone]
      rfl
    · rfl

theorem turn_untouched {floatDigits : Int → Int → String} {tick : BookTick} {v w : Exchange}
    (hne : v ≠ w) (s : Nat × BookTables) :
    Untouched v s.2 (stageBooksOf floatDigits tick s w).2 := by
  unfold stageBooksOf
  split
  · exact .refl v s.2
  · cases hp : process floatDigits tick s.2.state w (s.2.unread w) with
    | none => exact .refl v s.2
    | some p => exact commit_untouched hne s.2 (ofVenue_process hp) _

/-! ## What is left of a batch -/

section Left

variable {floatDigits : Int → Int → String} {tick : BookTick} {t : BookTables} {v : Exchange}

variable (floatDigits) in
/-- Frames of connections that are not live, and that none of them starts, come to nothing. -/
theorem nothing_of_idle {table : StateTable} {typed : List TypedFrame}
    (hidle : ∀ r ∈ typed, r.payload.isSnapshot = false ∧ statesOf v table r.key = none) :
    (replayed floatDigits tick v table typed).filterMap Emission.book? = [] ∧
      (replayed floatDigits tick v table typed).filterMap Emission.state? = [] ∧
        (replayed floatDigits tick v table typed).any Emission.raised = false := by
  have hall : ∀ e ∈ replayed floatDigits tick v table typed, ∃ frame ok, e = .verdict frame ok := by
    intro e he
    obtain ⟨p, _, he⟩ := List.mem_flatMap.1 he
    refine verdict_of_idle (fun r hr => hidle r ?_) e he
    exact List.mem_of_mem_filter ((sortOn_perm _ _).mem_iff.1 hr)
  refine ⟨List.filterMap_eq_nil_iff.2 fun e he => ?_, List.filterMap_eq_nil_iff.2 fun e he => ?_,
    List.any_eq_false.2 fun e he => ?_⟩ <;> obtain ⟨frame, ok, rfl⟩ := hall e he
  · rfl
  · rfl
  · exact Bool.false_ne_true

/-- A batch with nothing left past its first `n` commits. -/
structure Rest (p : Processed v) (n : Nat) : Prop where
  quiet : p.raises = false
  books : n < 2 → p.books = []
  bbo : n < 3 → bboOf p.books 0 = []
  states : n < 4 → p.states = []

theorem bboOf_binanceBooks {runTs : Int} {typed : List DepthFrame}
    (h : ∀ f ∈ typed, lastInSecond typed f = true → f.bids = [] ∨ f.asks = []) :
    bboOf (binanceBooks runTs typed) 0 = [] := by
  have hnone : ((binanceBooks runTs typed).map BookRow.toBookTop20).filter
      (fun b => 0 < b.bidPxE8.length && 0 < b.askPxE8.length) = [] := by
    refine List.filter_eq_nil_iff.2 fun b hb => ?_
    obtain ⟨r, hr, rfl⟩ := List.mem_map.1 hb
    obtain ⟨f, hf, rfl⟩ := List.mem_map.1 hr
    obtain ⟨hf, hlast⟩ := List.mem_filter.1 hf
    rcases h f hf hlast with hside | hside
    · simp [binanceBook, sliceE8, hside]
    · simp [binanceBook, sliceE8, hside]
  rw [bboOf, bbo, hnone]
  rfl

theorem rest_of_idle {p : Processed v} {n : Nat} (hquiet : p.raises = false) (hbooks : p.books = [])
    (hstates : p.states = []) : Rest p n :=
  ⟨hquiet, fun _ => hbooks, fun _ => by rw [hbooks]; rfl, fun _ => hstates⟩

/-- A batch of which all is committed did not raise. -/
theorem rest_of_all {p : Processed v} {n : Nat} (hle : n ≤ p.reach) (hall : commitsOf v ≤ n)
    (hstates : v = .binance → p.states = []) : Rest p n := by
  have hcommits : 3 ≤ commitsOf v := by
    cases v <;> decide
  have hquiet : p.raises = false := by
    cases hraises : p.raises with
    | false => rfl
    | true =>
      have hreach : p.reach = 1 := by
        rw [Processed.reach, hraises]
        rfl
      omega
  refine ⟨hquiet, fun h => by omega, fun h => by omega, fun h => ?_⟩
  cases v with
  | binance => exact hstates rfl
  | kraken =>
    have hfour : 4 ≤ n := hall
    omega
  | coinbase =>
    have hfour : 4 ≤ n := hall
    omega

/-- The typed frames of an idle batch. -/
theorem idle_typed {v : Exchange} {frames : List (Frame v)}
    {typed : List (Typed v)} (htyped : tick.project v frames = some typed)
    {P : Typed v → Prop} (h : ∀ f ∈ frames, ∀ canon, P (f.typed canon)) : ∀ r ∈ typed, P r := by
  intro r hr
  rw [project_eq_some htyped] at hr
  obtain ⟨f, hf, hfr⟩ := List.mem_filterMap.1 hr
  rw [eq_typed_of_type hfr]
  exact h f hf _

theorem rest_of_harmless {s : Nat × BookTables} {p : Processed v}
    (hp : process floatDigits tick s.2.state v (s.2.unread v) = some p)
    (hread : s.2.unread v ≠ []) (hsome : 0 < min s.1 p.reach)
    (hturn : HarmlessTurn floatDigits tick s v) :
    Rest p (min s.1 p.reach) := by
  have hmade : made floatDigits tick s v = min s.1 p.reach := by
    rw [made, hp]
  have hcut := hturn.cut hread
  rw [hmade] at hcut
  by_cases hall : commitsOf v ≤ min s.1 p.reach
  · -- everything is committed
    refine rest_of_all (min_le_right _ _) hall fun hv => ?_
    subst hv
    obtain ⟨typed, _, rfl⟩ := Option.map_eq_some_iff.1 hp
    rfl
  · have hleft := hcut hsome (Nat.lt_of_not_le hall)
    cases v with
    | binance =>
      obtain ⟨typed, htyped, rfl⟩ := Option.map_eq_some_iff.1 hp
      obtain ⟨htwo, hsides⟩ := hleft
      exact ⟨rfl, fun h => by omega, fun _ => bboOf_binanceBooks (hsides typed htyped),
        fun _ => rfl⟩
    | kraken =>
      obtain ⟨typed, htyped, hp⟩ := Option.bind_eq_some_iff.1 hp
      obtain ⟨hbooks, hstates, -⟩ := nothing_of_idle floatDigits
        (idle_typed htyped fun f hf _ => hleft f hf)
      simp only at hp
      split at hp
      · cases hp
      · cases hp
        exact rest_of_idle rfl hbooks hstates
    | coinbase =>
      obtain ⟨typed, htyped, rfl⟩ := Option.map_eq_some_iff.1 hp
      obtain ⟨hbooks, hstates, hquiet⟩ := nothing_of_idle floatDigits
        (idle_typed htyped fun f hf _ => hleft f hf)
      exact rest_of_idle hquiet hbooks hstates

end Left

/-! ## One turn -/

/-- The tables hold what the ledgers say, and the projection is of the books. -/
structure Accounted (t : BookTables) (L : (v : Exchange) → Ledger v) : Prop where
  holds : ∀ v, Holds v t (L v)
  bbo : t.bbo.map Bbo.timeless = bboOf t.books 0
  named : ∀ r ∈ t.books, ∃ v : Exchange, r.exchange = v.name
  position : ∀ v, t.position v ≤ (t.bronze v).length

theorem accounted_empty : Accounted BookTables.empty Ledger.empty :=
  ⟨holds_empty, rfl, (fun r h => by cases h), fun _ => Nat.zero_le _⟩

/-- A venue's part in a run: its frames wait, or they are read. -/
def ReadOrWaits (floatDigits : Int → Int → String) (tick : BookTick) (v : Exchange)
    (t t' : BookTables) (L L' : Ledger v) : Prop :=
  (t'.unread v = t.unread v ∧ t.unread v ≠ [] ∧ L' = L) ∨
    (t'.unread v = [] ∧ L' = feed floatDigits v L ((t.unread v).filterMap (tick.see v)))

section Turn

variable {floatDigits : Int → Int → String} {tick : BookTick}

theorem unread_commit {t : BookTables} {v : Exchange} (p : Processed v) {n : Nat} (hn : 1 ≤ n) :
    (t.commit p n).unread v = [] ∧ ∀ w, w ≠ v → (t.commit p n).unread w = t.unread w := by
  constructor
  · simp only [BookTables.unread, BookTables.commit, if_pos hn, Function.update_self]
    exact List.drop_length
  · intro w hw
    simp only [BookTables.unread, BookTables.commit, if_pos hn, Function.update_of_ne hw]

theorem commit_zero {t : BookTables} {v : Exchange} (p : Processed v) : t.commit p 0 = t := rfl

theorem accounted_commit {t : BookTables} {v : Exchange} {p : Processed v} {n : Nat}
    {L : (v : Exchange) → Ledger v} (hL : Accounted t L) (hn : 1 ≤ n)
    (hp : process floatDigits tick t.state v (t.unread v) = some p)
    (harchive : Archive v (t.unread v)) (hrestored : Restored v t.state) (hrest : Rest p n) :
    Accounted (t.commit p n)
      (Function.update L v (feed floatDigits v (L v) ((t.unread v).filterMap (tick.see v)))) := by
  have hvenue := ofVenue_process hp
  have hbooks : (t.commit p n).books = t.books ++ p.books := by
    simp only [BookTables.commit]
    split
    · rfl
    · rw [hrest.books (by omega), List.append_nil]
  have hstate : (t.commit p n).state = mergeState t.state p.states := by
    simp only [BookTables.commit]
    split
    · rfl
    · rw [hrest.states (by omega)]
      rfl
  have hbbo : (t.commit p n).bbo.map Bbo.timeless = t.bbo.map Bbo.timeless ++ bboOf p.books 0 := by
    simp only [BookTables.commit]
    split
    · rw [List.map_append, timeless_bboOf]
    · rw [hrest.bbo (by omega), List.append_nil]
  refine ⟨fun w => ?_, ?_, fun r hr => ?_, fun w => ?_⟩
  · by_cases hw : w = v
    · subst hw
      rw [Function.update_self]
      refine holds_process hp hrest.quiet harchive hrestored (hL.holds w) ?_ hbooks hstate
      simp only [BookTables.commit, if_pos hn, Function.update_self]
    · rw [Function.update_of_ne hw]
      have hsame := commit_untouched hw t hvenue n
      exact holds_congr hsame.silver hsame.books hsame.states (hL.holds w)
  · rw [hbbo, hL.bbo, hbooks, bboOf_append]
  · rw [hbooks] at hr
    rcases List.mem_append.1 hr with hr | hr
    · exact hL.named r hr
    · exact ⟨v, hvenue.books r hr⟩
  · simp only [BookTables.commit, if_pos hn]
    by_cases hw : w = v
    · subst hw
      rw [Function.update_self]
    · rw [Function.update_of_ne hw]
      exact hL.position w

/-- One venue's turn. -/
theorem turn_accounted {s : Nat × BookTables} {v : Exchange} {L : (v : Exchange) → Ledger v}
    (hL : Accounted s.2 L) (hturn : HarmlessTurn floatDigits tick s v)
    (harchive : Archive v (s.2.unread v)) :
    ∃ L' : (v : Exchange) → Ledger v, Accounted (stageBooksOf floatDigits tick s v).2 L' ∧
      ReadOrWaits floatDigits tick v s.2 (stageBooksOf floatDigits tick s v).2 (L v) (L' v) ∧
      ∀ w, w ≠ v →
        (stageBooksOf floatDigits tick s v).2.unread w = s.2.unread w ∧ L' w = L w := by
  unfold stageBooksOf
  split
  · rename_i hempty
    have hempty := List.isEmpty_iff.1 hempty
    refine ⟨L, hL, Or.inr ⟨hempty, ?_⟩, fun w _ => ⟨rfl, rfl⟩⟩
    rw [hempty]
    exact (feed_nil (L v)).symm
  · rename_i hsome
    have hsome : s.2.unread v ≠ [] := fun h => hsome (by rw [h]; rfl)
    cases hp : process floatDigits tick s.2.state v (s.2.unread v) with
    | none => exact ⟨L, hL, Or.inl ⟨rfl, hsome, rfl⟩, fun w _ => ⟨rfl, rfl⟩⟩
    | some p =>
      simp only
      rcases Nat.eq_zero_or_pos (min s.1 p.reach) with hn | hn
      · rw [hn, commit_zero]
        exact ⟨L, hL, Or.inl ⟨rfl, hsome, rfl⟩, fun w _ => ⟨rfl, rfl⟩⟩
      · have hrest := rest_of_harmless hp hsome hn hturn
        obtain ⟨hread, hothers⟩ := unread_commit (t := s.2) p hn
        refine ⟨_, accounted_commit hL hn hp harchive hturn.restored hrest, Or.inr ⟨hread, ?_⟩,
          fun w hw => ⟨hothers w hw, Function.update_of_ne hw _ _⟩⟩
        rw [Function.update_self]

end Turn

/-! ## One run -/

section Run

variable {floatDigits : Int → Int → String} {tick : BookTick} {t : BookTables}
  {L : (v : Exchange) → Ledger v}

theorem stage_eq (t : BookTables) (tick : BookTick) :
    t.stage floatDigits tick = (stageBooksOf floatDigits tick
      (beforeTurn floatDigits tick (tick.commits, t) .coinbase) .coinbase).2 := rfl

/-- A run that is harmless at every venue's turn. -/
theorem stage_accounted (hL : Accounted t L)
    (hturns : ∀ v, HarmlessTurn floatDigits tick
      (beforeTurn floatDigits tick (tick.commits, t) v) v)
    (harchive : ∀ v, Archive v (t.unread v)) :
    ∃ L' : (v : Exchange) → Ledger v, Accounted (t.stage floatDigits tick) L' ∧
      ∀ v, ReadOrWaits floatDigits tick v t (t.stage floatDigits tick) (L v) (L' v) := by
  obtain ⟨L₁, hL₁, hbinance, hothers₁⟩ := turn_accounted (s := (tick.commits, t)) hL
    (hturns .binance) (harchive .binance)
  obtain ⟨hkraken₁, hkrakenL₁⟩ := hothers₁ .kraken (by decide)
  obtain ⟨hcoinbase₁, hcoinbaseL₁⟩ := hothers₁ .coinbase (by decide)
  obtain ⟨L₂, hL₂, hkraken, hothers₂⟩ := turn_accounted hL₁ (hturns .kraken)
    (by rw [hkraken₁]; exact harchive .kraken)
  obtain ⟨hbinance₂, hbinanceL₂⟩ := hothers₂ .binance (by decide)
  obtain ⟨hcoinbase₂, hcoinbaseL₂⟩ := hothers₂ .coinbase (by decide)
  obtain ⟨L₃, hL₃, hcoinbase, hothers₃⟩ := turn_accounted hL₂ (hturns .coinbase)
    (by rw [hcoinbase₂, hcoinbase₁]; exact harchive .coinbase)
  obtain ⟨hbinance₃, hbinanceL₃⟩ := hothers₃ .binance (by decide)
  obtain ⟨hkraken₃, hkrakenL₃⟩ := hothers₃ .kraken (by decide)
  refine ⟨L₃, hL₃, fun v => ?_⟩
  rw [stage_eq]
  cases v with
  | binance =>
    rw [ReadOrWaits, beforeTurn, hbinance₃, hbinance₂, hbinanceL₃, hbinanceL₂]
    exact hbinance
  | kraken =>
    rw [ReadOrWaits, beforeTurn, hkraken₃, hkrakenL₃, ← hkraken₁, ← hkrakenL₁]
    exact hkraken
  | coinbase =>
    rw [ReadOrWaits, beforeTurn, ← hcoinbase₁, ← hcoinbase₂, ← hcoinbaseL₁, ← hcoinbaseL₂]
    exact hcoinbase

theorem accounted_arrive (hL : Accounted t L) (more : (v : Exchange) → List (Frame v)) :
    Accounted (t.arrive more) L ∧ ∀ v, (t.arrive more).unread v = t.unread v ++ more v := by
  refine ⟨⟨fun v => holds_congr (t := t) rfl rfl rfl (hL.holds v), hL.bbo, hL.named, fun v => ?_⟩,
    fun v => List.drop_append_of_le_length (hL.position v)⟩
  rw [BookTables.arrive, List.length_append]
  exact Nat.le_add_right_of_le (hL.position v)

theorem bronze_stage (t : BookTables) (tick : BookTick) :
    (t.stage floatDigits tick).bronze = t.bronze := by
  have hturn : ∀ (s : Nat × BookTables) (v : Exchange),
      (stageBooksOf floatDigits tick s v).2.bronze = s.2.bronze := by
    intro s v
    unfold stageBooksOf
    split
    · rfl
    · split <;> rfl
  rw [stage_eq, beforeTurn, hturn, hturn, hturn]

end Run

/-! ## Runs -/

section Runs

variable (floatDigits : Int → Int → String)

/-- What arrived with each run, as the run that read it saw it. -/
def readings (v : Exchange) : BookTables → List (List (Frame v)) → List BookTick →
    List (List (Seen v))
  | _, _, [] => []
  | t, waiting, tick :: ticks =>
    let after := t.apply floatDigits tick
    if (after.unread v).isEmpty then
      (waiting ++ [tick.arrived v]).map (fun frames => frames.filterMap (tick.see v)) ++
        readings v after [] ticks
    else readings v after (waiting ++ [tick.arrived v]) ticks

variable {floatDigits}

/-- The frames that wait, run by run, and each lot may be read with those before it. -/
structure Waiting (t : BookTables) (v : Exchange) (waiting : List (List (Frame v))) : Prop where
  unread : t.unread v = waiting.flatten
  chained : Backlog.Chained (fun before piece => ∀ f ∈ before, ∀ g ∈ piece, Frame.Before f g)
    waiting

theorem frame_of_see {v : Exchange} {tick : BookTick} {f : Frame v} {x : Seen v}
    (h : tick.see v f = some x) : x.1.frame = f := by
  obtain ⟨r, hr, rfl⟩ := Option.map_eq_some_iff.1 h
  rw [eq_typed_of_type hr, frame_typed]

theorem follows_of_before {v : Exchange} {tick : BookTick} {before piece : List (Frame v)}
    (hlineage : ((before ++ piece).map Frame.lineage).Nodup)
    (h : ∀ f ∈ before, ∀ g ∈ piece, Frame.Before f g) :
    Follows v (before.filterMap (tick.see v)) (piece.filterMap (tick.see v)) := by
  refine ⟨?_, fun x hx y hy => ?_⟩
  · have hsub : (((before ++ piece).filterMap (tick.see v)).map fun x => x.1.frame).Sublist
        (before ++ piece) := map_filterMap_sublist (fun f x hx => frame_of_see hx) _
    have hmap := hlineage.sublist (hsub.map Frame.lineage)
    rw [List.map_map, List.filterMap_append] at hmap
    exact hmap
  · obtain ⟨f, hf, hfx⟩ := List.mem_filterMap.1 hx
    obtain ⟨g, hg, hgy⟩ := List.mem_filterMap.1 hy
    rw [frame_of_see hfx, frame_of_see hgy]
    exact h f hf g hg

/-- Frames that waited come to what they would have come to run by run. -/
theorem feed_waiting {v : Exchange} {tick : BookTick} {waiting : List (List (Frame v))}
    (hlineage : (waiting.flatten.map Frame.lineage).Nodup)
    (hchained : Backlog.Chained (fun before piece => ∀ f ∈ before, ∀ g ∈ piece, Frame.Before f g)
      waiting) (L : Ledger v) :
    feed floatDigits v L (waiting.flatten.filterMap (tick.see v)) =
      (waiting.map fun frames => frames.filterMap (tick.see v)).foldl (feed floatDigits v) L := by
  have hflatten : ∀ waiting : List (List (Frame v)), waiting.flatten.filterMap (tick.see v) =
      (waiting.map fun frames => frames.filterMap (tick.see v)).flatten := fun _ =>
    List.filterMap_flatten
  have hseen : Backlog.Chained (Follows v)
      (waiting.map fun frames => frames.filterMap (tick.see v)) := by
    intro before piece after heq
    obtain ⟨before', rest, hwaiting, rfl, hrest⟩ := List.map_eq_append_iff.1 heq
    obtain ⟨piece', after', rfl, rfl, _⟩ := List.map_eq_cons_iff.1 hrest
    rw [← hflatten]
    refine follows_of_before (hlineage.sublist (List.Sublist.map _ ?_))
      (hchained before' piece' after' hwaiting)
    rw [hwaiting, List.flatten_append, List.flatten_cons, ← List.append_assoc]
    exact List.sublist_append_left _ _
  rw [hflatten]
  exact Backlog.feed_flatten feed_nil (fun L a b => feed_append L) hseen L

/-- **What harmless runs make of the tables**: what each lot of frames, as it was seen, makes of the
    ledgers, in the order of arrival. -/
theorem runs_accounted (ticks : List BookTick) {t : BookTables} {L : (v : Exchange) → Ledger v}
    {waiting : (v : Exchange) → List (List (Frame v))} (hL : Accounted t L)
    (hwaiting : ∀ v, Waiting t v (waiting v))
    (harchive : ∀ v, Archive v (t.bronze v ++ ticks.flatMap fun tick => tick.arrived v))
    (hharmless : Harmless floatDigits t ticks) :
    Accounted (ticks.foldl (BookTables.apply floatDigits) t) fun v =>
      (readings floatDigits v t (waiting v) ticks).foldl (feed floatDigits v) (L v) := by
  induction ticks generalizing t L waiting with
  | nil => exact hL
  | cons tick ticks ih =>
    obtain ⟨htick, hrest⟩ := hharmless
    obtain ⟨harrive, hunread⟩ := accounted_arrive hL tick.arrived
    have hbronze : ∀ v, (t.apply floatDigits tick).bronze v = t.bronze v ++ tick.arrived v := by
      intro v
      rw [BookTables.apply, bronze_stage]
      rfl
    have harchive' : ∀ v, Archive v ((t.apply floatDigits tick).bronze v ++
        ticks.flatMap fun tick => tick.arrived v) := by
      intro v
      rw [hbronze, List.append_assoc]
      exact harchive v
    have hbatch : ∀ v, Archive v ((t.arrive tick.arrived).unread v) := by
      intro v
      refine (harchive v).sublist ((List.drop_sublist _ _).trans ?_)
      rw [List.flatMap_cons, ← List.append_assoc]
      exact List.sublist_append_left _ _
    obtain ⟨L', hL', hread⟩ := stage_accounted harrive htick.turns hbatch
    have hchained : ∀ v, Backlog.Chained
        (fun before piece => ∀ f ∈ before, ∀ g ∈ piece, Frame.Before f g)
        (waiting v ++ [tick.arrived v]) := fun v =>
      (hwaiting v).chained.concat (by rw [← (hwaiting v).unread]; exact htick.ordered v)
    have hflatten : ∀ v, (t.arrive tick.arrived).unread v =
        (waiting v ++ [tick.arrived v]).flatten := by
      intro v
      rw [hunread, (hwaiting v).unread, List.flatten_append, List.flatten_singleton]
    -- the venues whose frames are read now, and those whose frames go on waiting
    have hnext : ∀ v, ∃ waiting', Waiting (t.apply floatDigits tick) v waiting' ∧
        (readings floatDigits v t (waiting v) (tick :: ticks)).foldl (feed floatDigits v) (L v) =
          (readings floatDigits v (t.apply floatDigits tick) waiting' ticks).foldl
            (feed floatDigits v) (L' v) := by
      intro v
      rcases hread v with ⟨hsame, hsome, hledger⟩ | ⟨hnone, hledger⟩
      · refine ⟨waiting v ++ [tick.arrived v], ⟨hsame.trans (hflatten v), hchained v⟩, ?_⟩
        have hwaits : ¬ ((t.apply floatDigits tick).unread v).isEmpty = true := fun h =>
          hsome (hsame.symm.trans (List.isEmpty_iff.1 h))
        rw [readings, if_neg hwaits, hledger]
      · refine ⟨[], ⟨hnone, Backlog.chained_nil⟩, ?_⟩
        have hempty : ((t.apply floatDigits tick).unread v).isEmpty = true :=
          List.isEmpty_iff.2 hnone
        have hlineage := (hbatch v).lineage
        rw [hflatten] at hlineage hledger
        rw [readings, if_pos hempty, List.foldl_append, hledger, feed_waiting hlineage (hchained v)]
    choose waiting' hwaiting' hfold using hnext
    rw [List.foldl_cons, funext hfold]
    exact ih hL' hwaiting' harchive' hrest

end Runs

/-! ## The same rows -/

def SilverBook.timeless : {v : Exchange} → SilverBook v → SilverBook v
  | .binance, r => BinanceRow.timeless r
  | .kraken, r => ReplayedRow.timeless r
  | .coinbase, r => ReplayedRow.timeless r

/-- The same rows, whenever they were written. -/
structure SameBooks (a b : BookTables) : Prop where
  silver : ∀ v, ((a.silver v).map SilverBook.timeless).Perm ((b.silver v).map SilverBook.timeless)
  books : (a.books.map BookRow.timeless).Perm (b.books.map BookRow.timeless)
  bbo : (a.bbo.map Bbo.timeless).Perm (b.bbo.map Bbo.timeless)
  state : ∀ v key, (statesOf v a.state key).map StateRow.timeless =
    (statesOf v b.state key).map StateRow.timeless

theorem silver_perm {v : Exchange} {a b : BookTables} {silver silver' : List ReplayedRow}
    {L : BookKey → KeyLedger} (ha : ∀ key, KeyHolds v silver a.books a.state key (L key))
    (hb : ∀ key, KeyHolds v silver' b.books b.state key (L key)) :
    (silver.map ReplayedRow.timeless).Perm (silver'.map ReplayedRow.timeless) := by
  refine perm_of_filter_key (f := fun r : ReplayedRow => r.key) fun key => ?_
  have hcomm : ∀ l : List ReplayedRow, (l.map ReplayedRow.timeless).filter (fun r => r.key = key) =
      (l.filter fun r => r.key = key).map ReplayedRow.timeless := fun _ => List.filter_map
  rw [hcomm, hcomm]
  exact Multiset.coe_eq_coe.1 ((ha key).silver.trans (hb key).silver.symm)

theorem books_perm {a b : BookTables} {L : (v : Exchange) → Ledger v} (ha : Accounted a L)
    (hb : Accounted b L) : (a.books.map BookRow.timeless).Perm (b.books.map BookRow.timeless) := by
  refine perm_of_filter_key (f := fun r : BookRow => (r.exchange, (r.symbol, r.connId)))
    fun k => ?_
  obtain ⟨exchange, key⟩ := k
  have hcomm : ∀ l : List BookRow,
      (l.map BookRow.timeless).filter (fun r => (r.exchange, (r.symbol, r.connId)) =
        (exchange, key)) =
      (l.filter fun r => r.exchange = exchange ∧ (r.symbol, r.connId) = key).map
        BookRow.timeless := by
    intro l
    rw [List.filter_map]
    refine congrArg _ (List.filter_congr fun r _ => ?_)
    simp only [Function.comp_apply, Prod.mk.injEq]
    rfl
  rw [hcomm, hcomm]
  by_cases hsome : ∃ v : Exchange, exchange = v.name
  · obtain ⟨v, rfl⟩ := hsome
    cases v with
    | binance =>
      have hboth : ∀ l : List BookRow, ((l.filter fun r => r.exchange = Exchange.binance.name ∧
          (r.symbol, r.connId) = key).map BookRow.timeless) =
            ((l.filter fun r => r.exchange = Exchange.binance.name).map BookRow.timeless).filter
              fun r => (r.symbol, r.connId) = key := by
        intro l
        rw [List.filter_map, List.filter_filter]
        refine congrArg _ (List.filter_congr fun r _ => ?_)
        rw [Bool.decide_and, Bool.and_comm]
        rfl
      rw [hboth, hboth, (ha.holds .binance).2.1, (hb.holds .binance).2.1]
    | kraken =>
      exact Multiset.coe_eq_coe.1
        ((ha.holds .kraken key).books.trans (hb.holds .kraken key).books.symm)
    | coinbase =>
      exact Multiset.coe_eq_coe.1
        ((ha.holds .coinbase key).books.trans (hb.holds .coinbase key).books.symm)
  · have hnone : ∀ {t : BookTables}, Accounted t L →
        (t.books.filter fun r => r.exchange = exchange ∧ (r.symbol, r.connId) = key) = [] := by
      intro t ht
      refine List.filter_eq_nil_iff.2 fun r hr h => hsome ?_
      obtain ⟨v, hv⟩ := ht.named r hr
      exact ⟨v, (of_decide_eq_true h).1.symm.trans hv⟩
    rw [hnone ha, hnone hb]

/-- The best bid and offer read a row's levels, not its clock. -/
theorem bboOf_perm {books books' : List BookRow}
    (h : (books.map BookRow.timeless).Perm (books'.map BookRow.timeless)) :
    (bboOf books 0).Perm (bboOf books' 0) := by
  have htimeless : ∀ books : List BookRow,
      bboOf books 0 = bboOf (books.map BookRow.timeless) 0 := by
    intro books
    rw [bboOf, bboOf, List.map_map]
    rfl
  rw [htimeless books, htimeless books']
  exact ((h.map _).filter _).map _

/-- Tables that stand on the same ledgers hold the same rows. -/
theorem Accounted.same {a b : BookTables} {L : (v : Exchange) → Ledger v} (ha : Accounted a L)
    (hb : Accounted b L) : SameBooks a b := by
  refine ⟨fun v => ?_, books_perm ha hb, ?_, fun v key => ?_⟩
  · cases v with
    | binance =>
      have heq : (a.silver .binance).map BinanceRow.timeless =
          (b.silver .binance).map BinanceRow.timeless :=
        (ha.holds .binance).1.trans (hb.holds .binance).1.symm
      exact List.Perm.of_eq heq
    | kraken => exact silver_perm (ha.holds .kraken) (hb.holds .kraken)
    | coinbase => exact silver_perm (ha.holds .coinbase) (hb.holds .coinbase)
  · rw [ha.bbo, hb.bbo]
    exact bboOf_perm (books_perm ha hb)
  · cases v with
    | binance => rw [(ha.holds .binance).2.2 key, (hb.holds .binance).2.2 key]
    | kraken => exact (ha.holds .kraken key).state.trans (hb.holds .kraken key).state.symm
    | coinbase => exact (ha.holds .coinbase key).state.trans (hb.holds .coinbase key).state.symm

/-! ## Crash-equivalence -/

/-- A run gets through for a venue: it has no frames of it to read, or commits all of them. -/
def Through (floatDigits : Int → Int → String) (t : BookTables) (tick : BookTick) (v : Exchange) :
    Prop :=
  ((beforeTurn floatDigits tick (tick.commits, t.arrive tick.arrived) v).2.unread v) = [] ∨
    made floatDigits tick (beforeTurn floatDigits tick (tick.commits, t.arrive tick.arrived) v) v =
      commitsOf v

instance (floatDigits : Int → Int → String) (t : BookTables) (tick : BookTick) (v : Exchange) :
    Decidable (Through floatDigits t tick v) := inferInstanceAs (Decidable (_ ∨ _))

/-- A run that gets through: every venue that has frames to read is committed whole. -/
def Completes (floatDigits : Int → Int → String) (t : BookTables) (tick : BookTick) : Prop :=
  ∀ v, Through floatDigits t tick v

/-- A snapshot of one connection at 1.5 s. -/
def crashSnapshot : BookFrame where
  symbol := "BTC/USD"
  payload := .kraken "snapshot" [⟨100, 1⟩] [⟨101, 1⟩] 0 none
  recvTsNs := 1500000000
  connId := "c"
  connMsgSeq := 0
  srcTopic := "raw.kraken"
  srcPartition := 0
  srcOffset := 0
  srcIndex := 0

def crashUpdate : BookFrame :=
  { crashSnapshot with
    payload := .kraken "update" [⟨100, 2⟩] [] 0 none
    recvTsNs := 5000000000
    connMsgSeq := 1
    srcOffset := 1 }

def crashTick (frames : List BookFrame) (commits : Nat) : BookTick where
  arrived := fun v => match v with
    | .kraken => frames
    | _ => []
  runTs := 0
  registry := Dict.ofItems [("kraken", Dict.ofItems [("BTC/USD", "BTC/USD")])]
  precisions := fun _ => none
  placement := fun _ => ⟨1, fun _ => 0⟩
  commits := commits

def noDigits : Int → Int → String := fun _ _ => ""

theorem archive_crash (v : Exchange) (n : Nat) :
    Archive v ([crashTick [crashSnapshot] n, crashTick [crashUpdate] ALL_COMMITS].flatMap
      fun tick => tick.arrived v) := by
  cases v with
  | binance => exact Archive.nil .binance
  | kraken =>
    change Archive .kraken [crashSnapshot, crashUpdate]
    exact ⟨by decide, by decide, by decide, by decide⟩
  | coinbase => exact Archive.nil .coinbase

/-- A run that is not cut off between a venue's commits, or has nothing left to commit where it is,
    is harmless. -/
theorem harmless_of_uncut {floatDigits : Int → Int → String} {t : BookTables} {tick : BookTick}
    {s : Exchange → Nat × BookTables}
    (hs : beforeTurn floatDigits tick (tick.commits, t.arrive tick.arrived) = s)
    (hordered : ∀ v, ∀ f ∈ t.unread v, ∀ g ∈ tick.arrived v, Frame.Before f g)
    (huncut : ∀ v, (s v).2.unread v = [] ∨ made floatDigits tick (s v) v = 0 ∨
      commitsOf v ≤ made floatDigits tick (s v) v ∨
        NothingLeft tick (s v).2 v (made floatDigits tick (s v) v))
    (hstate : ∀ v, ∀ e ∈ (s v).2.state.entries, e.2.bidPxE8.length < STATE_LEVELS ∧
      e.2.askPxE8.length < STATE_LEVELS) : HarmlessTick floatDigits tick t := by
  subst hs
  refine ⟨hordered, fun v => ⟨fun hread hpos hcut => ?_, fun key row hrow => ?_⟩⟩
  · rcases huncut v with hnone | hzero | hwhole | hnothing
    · exact absurd hnone hread
    · omega
    · omega
    · exact hnothing
  · exact hstate v _ (Dict.get?_eq_some_iff.1 hrow)

/-- An update of a Coinbase connection that no snapshot has started. -/
def idleUpdate : BookFrame :=
  { crashSnapshot with
    symbol := "BTC-USD"
    payload := .coinbase "update" [⟨"bid", 100, 1, none⟩] 0 0
    srcTopic := "raw.coinbase" }

/-- A run that reads it, and makes one commit. -/
def idleTick (commits : Nat) : BookTick :=
  { crashTick [] commits with
    arrived := fun v => match v with
      | .coinbase => [idleUpdate]
      | _ => []
    registry := Dict.ofItems [("coinbase", Dict.ofItems [("BTC-USD", "BTC/USD")])] }

/-- A run that is cut off with nothing left to commit, one that is cut off before it has begun, and
    one that reads what waits. -/
def lateTicks : List BookTick :=
  [idleTick 1, crashTick [crashSnapshot] 0, crashTick [crashUpdate] ALL_COMMITS]

theorem archive_late (v : Exchange) : Archive v (lateTicks.flatMap fun tick => tick.arrived v) := by
  cases v with
  | binance => exact Archive.nil .binance
  | kraken =>
    change Archive .kraken [crashSnapshot, crashUpdate]
    exact ⟨by decide, by decide, by decide, by decide⟩
  | coinbase =>
    change Archive .coinbase [idleUpdate]
    exact ⟨by decide, by decide, by decide, by decide⟩

end K2.Lake

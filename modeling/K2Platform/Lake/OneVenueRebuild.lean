import K2Platform.Lake.BookRebuild

/-!
# The books rebuilt for one venue

`rebuild.py --layer books --exchange X` drops the gold tables, which have the rows of all venues,
and replays X alone.  Of another venue the bronze and silver tables and the position stay, so that
its next run reads what came after the position: the gold tables are from then on those of a lake in
which the venue's archive begins there.

* `BookTables.forget` — such a lake.
* `Forgot.apply` — a run does the same to the gold tables of the two.
* `one_venue_rebuild` — what a rebuild leaves of a venue that is not rebuilt, in every later state.
-/

set_option autoImplicit false

namespace K2.Lake

/-- The tables if the venue's archive began at its position. -/
def BookTables.forget (t : BookTables) (v : Exchange) : BookTables :=
  { t with
    bronze := Function.update t.bronze v (t.unread v)
    position := Function.update t.position v 0
    silver := Function.update t.silver v [] }

/-- Two states of the tables that differ in what the one has, and the other has not, of the frames
    that the venue's position is past. -/
structure Forgot (v : Exchange) (old : List (SilverBook v)) (t u : BookTables) : Prop where
  unread : u.unread v = t.unread v
  within : t.position v ≤ (t.bronze v).length
  within' : u.position v ≤ (u.bronze v).length
  silver : t.silver v = old ++ u.silver v
  others : ∀ w ≠ v, u.bronze w = t.bronze w ∧ u.position w = t.position w ∧
    u.silver w = t.silver w
  books : u.books = t.books
  booksSnapshot : u.booksSnapshot = t.booksSnapshot
  bbo : u.bbo = t.bbo
  state : u.state = t.state

section Simulation

variable {v w : Exchange} {old : List (SilverBook v)} {t u : BookTables}

theorem unread_of_bronze {x y : BookTables} (hbronze : x.bronze w = y.bronze w)
    (hposition : x.position w = y.position w) : x.unread w = y.unread w := by
  rw [BookTables.unread, BookTables.unread, hbronze, hposition]

theorem Forgot.unread_eq (h : Forgot v old t u) (w : Exchange) : u.unread w = t.unread w := by
  by_cases hw : w = v
  · subst hw
    exact h.unread
  · obtain ⟨hbronze, hposition, -⟩ := h.others w hw
    exact unread_of_bronze hbronze hposition

theorem forgot_forget {t : BookTables} (hwithin : t.position v ≤ (t.bronze v).length) :
    Forgot v (t.silver v) t (t.forget v) where
  unread := by
    show (Function.update t.bronze v (t.unread v) v).drop (Function.update t.position v 0 v) = _
    rw [Function.update_self, Function.update_self, List.drop_zero]
  within := hwithin
  within' := by
    show Function.update t.position v 0 v ≤ _
    rw [Function.update_self]
    exact Nat.zero_le _
  silver := by
    show _ = t.silver v ++ Function.update t.silver v [] v
    rw [Function.update_self, List.append_nil]
  others w hw :=
    ⟨Function.update_of_ne hw _ _, Function.update_of_ne hw _ _, Function.update_of_ne hw _ _⟩
  books := rfl
  booksSnapshot := rfl
  bbo := rfl
  state := rfl

/-- Dropping does not tell the two apart, if the venue is kept. -/
theorem Forgot.drop (h : Forgot v old t u) {exchanges : List Exchange} (hv : v ∉ exchanges) :
    Forgot v old (t.drop exchanges) (u.drop exchanges) := by
  have hkeeps : ∀ x : BookTables, (x.drop exchanges).position v = x.position v ∧
      (x.drop exchanges).silver v = x.silver v := fun x => ⟨if_neg hv, if_neg hv⟩
  refine ⟨?_, ?_, ?_, ?_, fun w hw => ?_, rfl, rfl, rfl, rfl⟩
  · have hsame : ∀ x : BookTables, (x.drop exchanges).unread v = x.unread v := fun x =>
      unread_of_bronze rfl (hkeeps x).1
    rw [hsame, hsame, h.unread]
  · rw [(hkeeps t).1]
    exact h.within
  · rw [(hkeeps u).1]
    exact h.within'
  · rw [(hkeeps t).2, (hkeeps u).2]
    exact h.silver
  · obtain ⟨hbronze, hposition, hsilver⟩ := h.others w hw
    refine ⟨hbronze, ?_, ?_⟩
    · show (if w ∈ exchanges then 0 else u.position w) = if w ∈ exchanges then 0 else t.position w
      rw [hposition]
    · show (if w ∈ exchanges then [] else u.silver w) = if w ∈ exchanges then [] else t.silver w
      rw [hsilver]

/-- **The same commits** keep the two alike. -/
theorem Forgot.commit (h : Forgot v old t u) (p : Processed w) (n : Nat) :
    Forgot v old (t.commit p n) (u.commit p n) := by
  have hpos : ∀ x : BookTables, x.position v ≤ (x.bronze v).length →
      (x.commit p n).position v ≤ ((x.commit p n).bronze v).length := by
    intro x hx
    show (if 1 ≤ n then Function.update x.position w (x.bronze w).length else x.position) v ≤ _
    split
    · by_cases hw : v = w
      · subst hw
        rw [Function.update_self]
        exact le_rfl
      · rw [Function.update_of_ne hw]
        exact hx
    · exact hx
  refine ⟨?_, hpos t h.within, hpos u h.within', ?_, fun x hx => ⟨(h.others x hx).1, ?_, ?_⟩,
    ?_, ?_, ?_, ?_⟩
  · by_cases hn : 1 ≤ n
    · by_cases hw : w = v
      · subst hw
        rw [(unread_commit p hn).1, (unread_commit p hn).1]
      · rw [(unread_commit p hn).2 v (Ne.symm hw), (unread_commit p hn).2 v (Ne.symm hw), h.unread]
    · have hsame : ∀ x : BookTables, (x.commit p n).unread v = x.unread v := fun x =>
        unread_of_bronze rfl (congrFun (if_neg hn) v)
      rw [hsame, hsame, h.unread]
  · show (if 1 ≤ n then Function.update t.silver w (t.silver w ++ p.silver) else t.silver) v =
      old ++ (if 1 ≤ n then Function.update u.silver w (u.silver w ++ p.silver) else u.silver) v
    split
    · by_cases hw : v = w
      · subst hw
        rw [Function.update_self, Function.update_self, h.silver, List.append_assoc]
      · rw [Function.update_of_ne hw, Function.update_of_ne hw, h.silver]
    · exact h.silver
  · show (if 1 ≤ n then Function.update u.position w (u.bronze w).length else u.position) x =
      (if 1 ≤ n then Function.update t.position w (t.bronze w).length else t.position) x
    split
    · by_cases hw : x = w
      · subst hw
        rw [Function.update_self, Function.update_self, (h.others x hx).1]
      · rw [Function.update_of_ne hw, Function.update_of_ne hw, (h.others x hx).2.1]
    · exact (h.others x hx).2.1
  · show (if 1 ≤ n then Function.update u.silver w (u.silver w ++ p.silver) else u.silver) x =
      (if 1 ≤ n then Function.update t.silver w (t.silver w ++ p.silver) else t.silver) x
    split
    · by_cases hw : x = w
      · subst hw
        rw [Function.update_self, Function.update_self, (h.others x hx).2.2]
      · rw [Function.update_of_ne hw, Function.update_of_ne hw, (h.others x hx).2.2]
    · exact (h.others x hx).2.2
  · simp only [BookTables.commit, h.books]
  · simp only [BookTables.commit, h.booksSnapshot]
  · simp only [BookTables.commit, h.bbo, h.booksSnapshot]
  · simp only [BookTables.commit, h.state]

theorem Forgot.arrive (h : Forgot v old t u) (more : (v : Exchange) → List (Frame v)) :
    Forgot v old (t.arrive more) (u.arrive more) where
  unread := by
    show (u.bronze v ++ more v).drop (u.position v) = (t.bronze v ++ more v).drop (t.position v)
    rw [List.drop_append_of_le_length h.within', List.drop_append_of_le_length h.within]
    exact congrArg (· ++ more v) h.unread
  within := by
    show t.position v ≤ (t.bronze v ++ more v).length
    rw [List.length_append]
    exact le_add_right h.within
  within' := by
    show u.position v ≤ (u.bronze v ++ more v).length
    rw [List.length_append]
    exact le_add_right h.within'
  silver := h.silver
  others w hw := by
    obtain ⟨hbronze, hposition, hsilver⟩ := h.others w hw
    exact ⟨congrArg (· ++ more w) hbronze, hposition, hsilver⟩
  books := h.books
  booksSnapshot := h.booksSnapshot
  bbo := h.bbo
  state := h.state

/-- The two with the commits that are left to make. -/
def Alike (v : Exchange) (old : List (SilverBook v)) (s s' : Nat × BookTables) : Prop :=
  s.1 = s'.1 ∧ Forgot v old s.2 s'.2

variable (floatDigits : Int → Int → String) (tick : BookTick) {s s' : Nat × BookTables}

/-- **One batch.** -/
theorem Alike.slice (h : Alike v old s s') (frames : List (Frame w)) :
    Alike v old (runSlice floatDigits tick w s frames) (runSlice floatDigits tick w s' frames) := by
  obtain ⟨hcommits, h⟩ := h
  unfold runSlice
  rw [h.state, hcommits]
  cases process floatDigits tick s.2.state w frames with
  | none => exact ⟨rfl, h⟩
  | some p => exact ⟨rfl, h.commit p _⟩

theorem Alike.turn (h : Alike v old s s') (w : Exchange) :
    Alike v old (stageBooksOf floatDigits tick s w) (stageBooksOf floatDigits tick s' w) := by
  rw [stageBooksOf_eq, stageBooksOf_eq, h.2.unread_eq w]
  split
  · exact h
  · exact h.slice floatDigits tick _

/-- One run of the stage. -/
theorem Forgot.apply (h : Forgot v old t u) :
    Forgot v old (t.apply floatDigits tick) (u.apply floatDigits tick) := by
  have hstart : Alike v old (tick.commits, t.arrive tick.arrived)
      (tick.commits, u.arrive tick.arrived) := ⟨rfl, h.arrive tick.arrived⟩
  exact (List.foldl_rel hstart fun w _ _ _ hw => hw.turn floatDigits tick w).2

theorem Forgot.applies (h : Forgot v old t u) (ticks : List BookTick) :
    Forgot v old (ticks.foldl (BookTables.apply floatDigits) t)
      (ticks.foldl (BookTables.apply floatDigits) u) :=
  List.foldl_rel h fun tick _ _ _ h' => h'.apply floatDigits tick

/-- The days of another venue. -/
theorem Alike.days (h : Alike v old s s') (hw : w ≠ v) :
    Alike v old (rebuildOf floatDigits tick s w) (rebuildOf floatDigits tick s' w) := by
  unfold rebuildOf
  rw [(h.2.others w hw).1]
  exact List.foldl_rel h fun day _ _ _ hday => hday.slice floatDigits tick _

/-- **The rebuild of other venues.** -/
theorem Forgot.rebuild (h : Forgot v old t u) {exchanges : List Exchange} (hv : v ∉ exchanges) :
    Forgot v old (t.rebuild floatDigits tick exchanges)
      (u.rebuild floatDigits tick exchanges) := by
  have hstart : Alike v old (tick.commits, t.drop exchanges) (tick.commits, u.drop exchanges) :=
    ⟨rfl, h.drop hv⟩
  have hother : ∀ w ∈ BOOKS.filter fun w => w ∈ exchanges, w ≠ v := by
    rintro w hmem rfl
    exact hv (of_decide_eq_true (List.mem_filter.1 hmem).2)
  exact (List.foldl_rel (f := rebuildOf floatDigits tick) (g := rebuildOf floatDigits tick) hstart
    fun w hmem _ _ hw => hw.days floatDigits tick (hother w hmem)).2

end Simulation

/-! ## A venue that sends nothing -/

/-- Nothing of the venue is in a gold table, its silver table has these rows, and there is nothing
    left to read. -/
structure Absent (v : Exchange) (rows : List (SilverBook v)) (t : BookTables) : Prop where
  silver : t.silver v = rows
  unread : t.unread v = []
  books : ∀ r ∈ t.books, r.exchange ≠ v.name
  bbo : ∀ r ∈ t.bbo, r.exchange ≠ v.name
  state : ∀ key, statesOf v t.state key = none

section Absence

variable {floatDigits : Int → Int → String} {tick : BookTick} {v w : Exchange} {t : BookTables}
  {rows : List (SilverBook v)} {s : Nat × BookTables} {exchanges : List Exchange}

theorem Absent.commit (h : Absent v rows t) (hw : v ≠ w) {p : Processed w} (hp : p.OfVenue) (n : Nat) :
    Absent v rows (t.commit p n) := by
  have huntouched := commit_untouched hw t hp n
  have hother : ∀ r ∈ p.books, r.exchange ≠ v.name := fun r hr heq =>
    hw (Exchange.name_inj (heq.symm.trans (hp.books r hr)))
  refine ⟨huntouched.silver.trans h.silver, ?_, fun r hr => ?_, fun r hr => ?_, fun key => ?_⟩
  · rw [unread_of_bronze huntouched.bronze huntouched.position]
    exact h.unread
  · simp only [BookTables.commit] at hr
    split at hr
    · rcases List.mem_append.1 hr with hr | hr
      · exact h.books r hr
      · exact hother r hr
    · exact h.books r hr
  · simp only [BookTables.commit] at hr
    split at hr
    · rcases List.mem_append.1 hr with hr | hr
      · exact h.bbo r hr
      · exact fun heq => hw (Exchange.name_inj (heq.symm.trans (bbo_exchange hp.books _ r hr)))
    · exact h.bbo r hr
  · rw [huntouched.states]
    exact h.state key

theorem Absent.slice (h : Absent v rows s.2) (hw : v ≠ w) (frames : List (Frame w)) :
    Absent v rows (runSlice floatDigits tick w s frames).2 := by
  unfold runSlice
  cases hp : process floatDigits tick s.2.state w frames with
  | none => exact h
  | some p => exact h.commit hw (ofVenue_process hp) _

theorem Absent.turn (h : Absent v rows s.2) (w : Exchange) :
    Absent v rows (stageBooksOf floatDigits tick s w).2 := by
  rw [stageBooksOf_eq]
  split
  · exact h
  · rename_i hread
    refine h.slice ?_ _
    rintro rfl
    rw [h.unread] at hread
    exact hread rfl

theorem Absent.apply (h : Absent v rows t) (harrived : tick.arrived v = []) :
    Absent v rows (t.apply floatDigits tick) := by
  have hstart : Absent v rows (t.arrive tick.arrived) := by
    refine ⟨h.silver, ?_, h.books, h.bbo, h.state⟩
    rw [← h.unread]
    refine unread_of_bronze ?_ rfl
    show t.bronze v ++ tick.arrived v = t.bronze v
    rw [harrived, List.append_nil]
  exact List.foldlRecOn BOOKS (motive := fun s : Nat × BookTables => Absent v rows s.2)
    _ hstart fun s hs w _ => hs.turn w

theorem Absent.applies (h : Absent v rows t) {ticks : List BookTick}
    (hsilent : ∀ tick ∈ ticks, tick.arrived v = []) :
    Absent v rows (ticks.foldl (BookTables.apply floatDigits) t) :=
  List.foldlRecOn ticks (motive := Absent v rows) _ h fun _ h' tick htick =>
    h'.apply (hsilent tick htick)

theorem absent_rebuild (hunread : t.unread v = []) (hv : v ∉ exchanges) :
    Absent v (t.silver v) (t.rebuild floatDigits tick exchanges) := by
  have hdropped : Absent v (t.silver v) (t.drop exchanges) := by
    refine ⟨if_neg hv, ?_, fun r hr => (by cases hr), fun r hr => (by cases hr), fun _ => rfl⟩
    rw [← hunread]
    exact unread_of_bronze rfl (if_neg hv)
  refine List.foldlRecOn _ (motive := fun s : Nat × BookTables => Absent v (t.silver v) s.2) _
    hdropped fun s hs w hmem => ?_
  have hw : v ≠ w := by
    rintro rfl
    exact hv (of_decide_eq_true (List.mem_filter.1 hmem).2)
  exact List.foldlRecOn _ (motive := fun s' : Nat × BookTables => Absent v (t.silver v) s'.2) _
    hs fun s' hs' day _ => hs'.slice hw _

end Absence

/-! ## Every later state -/

section Later

variable (floatDigits : Int → Int → String)

/-- A position is never past the end of its source. -/
theorem position_le_booksAfter (ticks : List BookTick) (v : Exchange) :
    (booksAfter floatDigits ticks).position v ≤ ((booksAfter floatDigits ticks).bronze v).length := by
  have hforgot : Forgot v [] (booksAfter floatDigits ticks) (booksAfter floatDigits ticks) := by
    have hempty : Forgot v [] BookTables.empty BookTables.empty :=
      ⟨rfl, le_rfl, le_rfl, rfl, fun _ _ => ⟨rfl, rfl, rfl⟩, rfl, rfl, rfl, rfl⟩
    exact hempty.applies floatDigits ticks
  exact hforgot.within

/-- **A rebuild of other venues.**  From any state that the stage reaches, and whatever runs come
    after it, killed or not: the venue keeps its silver rows; its gold rows are gone, and the gold
    tables are those of a lake that never had the frames before its position; so that a venue that
    was level and sends nothing more never has a row in them again. -/
theorem one_venue_rebuild (history : List BookTick) (tick : BookTick) {exchanges : List Exchange}
    {v : Exchange} (hv : v ∉ exchanges) (later : List BookTick) :
    let before := booksAfter floatDigits history
    let after := later.foldl (BookTables.apply floatDigits)
      (before.rebuild floatDigits tick exchanges)
    let begun := later.foldl (BookTables.apply floatDigits)
      ((before.forget v).rebuild floatDigits tick exchanges)
    after.silver v = before.silver v ++ begun.silver v ∧
      (after.books = begun.books ∧ after.bbo = begun.bbo ∧ after.state = begun.state) ∧
      (before.unread v = [] → (∀ t ∈ later, t.arrived v = []) →
        Absent v (before.silver v) after) := by
  intro before after begun
  have hforgot : Forgot v (before.silver v) before (before.forget v) :=
    forgot_forget (position_le_booksAfter floatDigits history v)
  have hlater : Forgot v (before.silver v) after begun :=
    (hforgot.rebuild floatDigits tick hv).applies floatDigits later
  refine ⟨hlater.silver, ⟨hlater.books.symm, hlater.bbo.symm, hlater.state.symm⟩,
    fun hunread hsilent => ?_⟩
  have habsent : Absent v (before.silver v) (before.rebuild floatDigits tick exchanges) :=
    absent_rebuild hunread hv
  have hafter : Absent v (before.silver v) after := habsent.applies hsilent
  exact hafter

/-- A frame of Binance with a level on both sides. -/
def depthAt (recvMs offset : Int) : DepthEvent where
  symbol := "BTCUSDT"
  lastUpdateId := offset
  bids := [⟨10 ^ 12, 10 ^ 12⟩]
  asks := [⟨2 * 10 ^ 12, 10 ^ 12⟩]
  recvTsNs := recvMs * 1000000
  connId := "d"
  connMsgSeq := offset
  srcTopic := "raw.binance"
  srcPartition := 0
  srcOffset := offset

/-- A run before which frames of Kraken and of Binance arrive. -/
def bothTick (kraken : List BookFrame) (binance : List DepthEvent) : BookTick :=
  { crashTick kraken ALL_COMMITS with
    arrived := fun v => match v with
      | .binance => binance
      | .kraken => kraken
      | .coinbase => []
    registry := Dict.ofItems [("binance", Dict.ofItems [("BTCUSDT", "BTC/USDT")]),
      ("kraken", Dict.ofItems [("BTC/USD", "BTC/USD")])] }

/-- Kraken has a book, and Binance has frames of two seconds. -/
def historyOfBoth : List BookTick :=
  [bothTick [crashSnapshot] [depthAt 1500 0], bothTick [crashUpdate] [depthAt 2500 1]]

/-- Binance is rebuilt, and gets frames of a third second. -/
def rebuiltOfBoth : BookTables :=
  [bothTick [] [depthAt 3500 2]].foldl (BookTables.apply noDigits)
    ((booksAfter noDigits historyOfBoth).rebuild noDigits (bothTick [] []) [.binance])

/-- The venues of the rows of `gold.book_top20`. -/
def venuesOf (t : BookTables) : List String := t.books.map fun r => r.exchange

theorem kraken_book_dropped :
    venuesOf (booksAfter noDigits historyOfBoth) =
        ["binance", "binance", "kraken", "kraken", "kraken", "kraken"] ∧
      venuesOf rebuiltOfBoth = ["binance", "binance", "binance"] ∧
      Absent .kraken ((booksAfter noDigits historyOfBoth).silver .kraken) rebuiltOfBoth := by
  have hdropped := one_venue_rebuild noDigits historyOfBoth (bothTick [] [])
    (show Exchange.kraken ∉ [Exchange.binance] by decide) [bothTick [] [depthAt 3500 2]]
  refine ⟨by decide +kernel, by decide +kernel,
    hdropped.2.2 (by decide +kernel) fun t ht => ?_⟩
  obtain rfl := List.mem_singleton.1 ht
  rfl

end Later

end K2.Lake

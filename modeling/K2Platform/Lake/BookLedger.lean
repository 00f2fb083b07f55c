import Mathlib.Data.List.FinRange
import Mathlib.Data.Multiset.AddSub
import Mathlib.Data.Multiset.Filter
import Mathlib.Data.Multiset.MapFold
import K2Platform.Lake.BookStage
import K2Platform.Lake.ReplayWalk
import K2Platform.Lib.Backlog
import K2Platform.Lib.Slices

/-!
# What the book tables hold

The rows the tables hold of a venue, and what a further batch of typed frames makes of them: for
Binance the rows of each batch after those of the one before, for a replayed venue the rows of each
connection, whatever order the others come in, with the carry they leave.

* `KeyLedger.feed_append` — a batch that follows another can be read with it.
* `state_of_walk`, `KeyHolds.step` — what a run makes of the rows of one connection.
-/

set_option autoImplicit false

namespace K2.Lake

/-! ## One connection -/

/-- What the tables hold of one connection, without times of runs, and what its replay goes on
    from. -/
structure KeyLedger where
  carry : Carry
  silver : Multiset ReplayedRow
  books : Multiset BookRow

def KeyLedger.empty : KeyLedger := ⟨Carry.initial, 0, 0⟩

/-- The silver rows of frames, given what their replay yields. -/
def silverRows (v : Exchange) (frames : List TypedFrame) (out : List Emission) :
    List ReplayedRow :=
  match v with
  | .kraken => (out.filterMap Emission.verdict?).map fun x => replayedRow 0 x.1 x.2
  | _ => frames.map fun r => replayedRow 0 r none

theorem silverRows_append (v : Exchange) (frames frames' : List TypedFrame)
    (out out' : List Emission) :
    silverRows v (frames ++ frames') (out ++ out') =
      silverRows v frames out ++ silverRows v frames' out' := by
  cases v with
  | kraken => simp only [silverRows, List.filterMap_append, List.map_append]
  | binance => simp only [silverRows, List.map_append]
  | coinbase => simp only [silverRows, List.map_append]

section Feed

variable (floatDigits : Int → Int → String) (v : Exchange)

/-- The frames of one connection, in the order in which they are replayed. -/
def KeyLedger.feed (L : KeyLedger) (xs : List Reading) : KeyLedger :=
  let q := Mealy.run (Carry.read v floatDigits) L.carry xs
  ⟨q.1, L.silver + silverRows v (xs.map Prod.fst) q.2, L.books + q.2.filterMap Emission.book?⟩

theorem KeyLedger.feed_nil (L : KeyLedger) : L.feed floatDigits v [] = L := by
  have hsilver : silverRows v [] [] = [] := by cases v <;> rfl
  obtain ⟨carry, silver, books⟩ := L
  simp [KeyLedger.feed, hsilver]

theorem KeyLedger.feed_append (L : KeyLedger) (xs ys : List Reading) :
    L.feed floatDigits v (xs ++ ys) = (L.feed floatDigits v xs).feed floatDigits v ys := by
  simp only [KeyLedger.feed, Mealy.run_append, List.map_append, silverRows_append,
    List.filterMap_append, ← Multiset.coe_add, Multiset.add_assoc]

def Reading.key (x : Reading) : BookKey := x.1.key

def Reading.order (x : Reading) : String ×ₗ String ×ₗ Int ×ₗ Int ×ₗ Int ×ₗ Int := x.1.order

/-- The frames of a batch that are of one connection, in replay order. -/
def ofConnection (key : BookKey) (batch : List Reading) : List Reading :=
  sortOn Reading.order (batch.filter fun x => x.key = key)

/-- A batch, every connection on its own. -/
def feedKeys (L : BookKey → KeyLedger) (batch : List Reading) : BookKey → KeyLedger := fun key =>
  (L key).feed floatDigits v (ofConnection key batch)

end Feed

/-! ## What a walk yields -/

section Walk

variable {floatDigits : Int → Int → String} {v : Exchange}

variable (floatDigits v) in
theorem exists_carry_read (c : Carry) (x : Reading) :
    ∃ (rows : List BookRow) (ok : Option Bool),
      (c.read v floatDigits x).2 = rows.map Emission.book ++ x.1.verdicts ok ∧
      ∀ row ∈ rows, row.exchange = v.name := by
  obtain ⟨rows, ok, hread, hrows⟩ :=
    Running.exists_read (Reading.replayRun v floatDigits x) (c.running x.1) x.1
  exact ⟨rows, ok, hread, fun row hrow => (hrows row hrow).2⟩

theorem filterMap_map_book {β : Type} {f : Emission → Option β} (h : ∀ row, f (.book row) = none)
    (rows : List BookRow) : (rows.map Emission.book).filterMap f = [] := by
  rw [List.filterMap_map]
  exact List.filterMap_eq_nil_iff.2 fun row _ => h row

theorem state?_run (c : Carry) (xs : List Reading) :
    (Mealy.run (Carry.read v floatDigits) c xs).2.filterMap Emission.state? = [] := by
  induction xs generalizing c with
  | nil => rfl
  | cons x xs ih =>
    obtain ⟨rows, ok, hread, _⟩ := exists_carry_read floatDigits v c x
    have hverdicts : (x.1.verdicts ok).filterMap Emission.state? = [] := by
      unfold TypedFrame.verdicts
      split <;> rfl
    rw [Mealy.run_cons, List.filterMap_append, ih, hread, List.filterMap_append, hverdicts,
      filterMap_map_book fun _ => rfl]
    rfl

theorem exchange_run (c : Carry) (xs : List Reading) :
    ∀ row ∈ (Mealy.run (Carry.read v floatDigits) c xs).2.filterMap Emission.book?,
      row.exchange = v.name := by
  induction xs generalizing c with
  | nil => exact fun row h => by cases h
  | cons x xs ih =>
    intro row hrow
    obtain ⟨rows, ok, hread, hrows⟩ := exists_carry_read floatDigits v c x
    rw [Mealy.run_cons, List.filterMap_append] at hrow
    rcases List.mem_append.1 hrow with hrow | hrow
    · rw [hread, List.filterMap_append] at hrow
      rcases List.mem_append.1 hrow with hrow | hrow
      · obtain ⟨e, he, herow⟩ := List.mem_filterMap.1 hrow
        obtain ⟨row', hrow', rfl⟩ := List.mem_map.1 he
        cases herow
        exact hrows row hrow'
      · obtain ⟨e, he, herow⟩ := List.mem_filterMap.1 hrow
        unfold TypedFrame.verdicts at he
        split at he
        · rw [List.mem_singleton.1 he] at herow
          cases herow
        · cases he
    · exact ih _ row hrow

variable (v floatDigits) in
/-- Every frame of Kraken's has one verdict. -/
theorem verdict?_run {xs : List Reading} (hxs : ∀ x ∈ xs, x.1.payload.exchange = .kraken)
    (c : Carry) :
    ((Mealy.run (Carry.read v floatDigits) c xs).2.filterMap Emission.verdict?).map Prod.fst =
      xs.map Prod.fst := by
  induction xs generalizing c with
  | nil => rfl
  | cons x xs ih =>
    obtain ⟨rows, ok, hread, _⟩ := exists_carry_read floatDigits v c x
    have hverdicts : ((x.1.verdicts ok).filterMap Emission.verdict?).map Prod.fst = [x.1] := by
      have hx := hxs x List.mem_cons_self
      unfold TypedFrame.verdicts
      split
      · rfl
      · rename_i hpayload
        rw [hpayload] at hx
        cases hx
    rw [Mealy.run_cons, List.filterMap_append, List.map_append,
      ih fun y hy => hxs y (List.mem_cons_of_mem _ hy), hread, List.filterMap_append,
      List.map_append, hverdicts, filterMap_map_book fun _ => rfl]
    rfl

theorem filterMap_close {β : Type} {f : Emission → Option β} (h : ∀ row, f (.state row) = none)
    (key : BookKey) (c : Carry) : (c.close v key).filterMap f = [] := by
  refine List.filterMap_eq_nil_iff.2 fun e he => ?_
  obtain ⟨row, _, rfl⟩ := List.mem_map.1 he
  exact h _

/-- But for state rows, the walk yields what the run yields. -/
theorem filterMap_walk {β : Type} {f : Emission → Option β} (h : ∀ row, f (.state row) = none)
    (key : BookKey) (c : Carry) (xs : List Reading) :
    (c.walk v floatDigits key xs).filterMap f =
      (Mealy.run (Carry.read v floatDigits) c xs).2.filterMap f := by
  unfold Carry.walk
  cases xs with
  | nil => rfl
  | cons x xs =>
    simp only [List.isEmpty_cons, Bool.false_eq_true, if_false]
    rw [List.filterMap_append, filterMap_close h, List.append_nil]

theorem state?_walk (key : BookKey) (c : Carry) (xs : List Reading) :
    (c.walk v floatDigits key xs).filterMap Emission.state? =
      if xs.isEmpty then []
      else ((Mealy.run (Carry.read v floatDigits) c xs).1.stateRow v key).toList := by
  have hclose : ∀ c : Carry, (c.close v key).filterMap Emission.state? =
      (c.stateRow v key).toList := by
    intro c
    rw [Carry.close]
    cases c.stateRow v key <;> rfl
  unfold Carry.walk
  cases xs with
  | nil => rfl
  | cons x xs =>
    simp only [List.isEmpty_cons, Bool.false_eq_true, if_false]
    rw [List.filterMap_append, state?_run, hclose, List.nil_append]

end Walk

/-! ## The replay, connection by connection -/

/-- Frames of one venue as one run types them. -/
structure TypedBatch (v : Exchange) (typed : List TypedFrame) : Prop where
  lineage : (typed.map fun r => r.lineage).Nodup
  clock : ∀ r ∈ typed, NS ≤ r.recvTsNs
  named : ∀ r ∈ typed, ∀ r' ∈ typed, r.key = r'.key →
    r.canonicalSymbol = r'.canonicalSymbol ∧ r.srcTopic = r'.srcTopic
  payload : ∀ r ∈ typed, r.payload.exchange = v

theorem lineage_of_order {a b : TypedFrame} (h : a.order = b.order) : a.lineage = b.lineage := by
  simp only [TypedFrame.order, BookFrame.sent, EmbeddingLike.apply_eq_iff_eq, Prod.mk.injEq] at h
  obtain ⟨_, _, _, hindex, hpartition, hoffset⟩ := h
  rw [BookFrame.lineage, BookFrame.lineage, hindex, hpartition, hoffset]

theorem key_le_of_order {a b : TypedFrame} (h : a.order ≤ b.order) : toLex a.key ≤ toLex b.key := by
  rw [TypedFrame.order, TypedFrame.order, Prod.Lex.le_iff] at h
  rw [Prod.Lex.le_iff]
  rcases h with h | ⟨hsymbol, h⟩
  · exact Or.inl h
  · refine Or.inr ⟨hsymbol, ?_⟩
    rcases Prod.Lex.le_iff.1 h with h | h
    · exact le_of_lt h
    · exact le_of_eq h.1

theorem grouped_sortFrames (rows : List TypedFrame) : Grouped (sortFrames rows) :=
  (sortOn_pairwise TypedFrame.order rows).imp key_le_of_order

section Replayed

variable {run : ReplayRun} {states : BookKey → Option StateRow} {placement : Placement}
  {typed : List TypedFrame} {v : Exchange}

namespace TypedBatch

theorem order_inj (h : TypedBatch v typed) :
    ∀ a ∈ typed, ∀ b ∈ typed, a.order = b.order → a = b := fun _ ha _ hb hab =>
  List.inj_on_of_nodup_map h.lineage ha hb (lineage_of_order hab)

/-- The frames of a connection are in one partition, and the others of the partition do not
    disturb their order. -/
theorem filter_partition (h : TypedBatch v typed) (key : BookKey) :
    (sortFrames (typed.filter fun r => placement.place r.key = placement.place key)).filter
        (fun r => r.key = key) = sortFrames (typed.filter fun r => r.key = key) := by
  rw [sortFrames, sortOn_filter fun a ha b hb => h.order_inj a (List.mem_of_mem_filter ha) b
    (List.mem_of_mem_filter hb), List.filter_filter, sortFrames]
  refine congrArg (sortOn TypedFrame.order) (List.filter_congr fun r _ => ?_)
  by_cases hkey : r.key = key
  · simp [hkey]
  · simp [hkey]

theorem map_reading (key : BookKey) (typed : List TypedFrame) :
    (sortFrames (typed.filter fun r => r.key = key)).map run.reading =
      ofConnection key (typed.map run.reading) := by
  have hmap : ∀ l : List TypedFrame, (sortOn TypedFrame.order l).map run.reading =
      sortOn Reading.order (l.map run.reading) := map_sortOn run.reading fun _ => rfl
  rw [sortFrames, hmap, ofConnection, List.filter_map]
  rfl

/-- What the replay yields for a connection is the walk over its frames. -/
theorem filter_replay (h : TypedBatch v typed)
    (hraised : (replay run states placement typed).any Emission.raised = false) {key : BookKey}
    {c : Carry} (hsound : c.Sound)
    (hprev : (states key).map StateRow.timeless = c.stateRow run.exchange key) :
    ((replay run states placement typed).filter fun e => e.key = key).map Emission.timeless =
      (c.truncate STATE_LEVELS).walk run.exchange run.floatDigits key
        (ofConnection key (typed.map run.reading)) := by
  have hmem : ∀ p, ∀ r ∈ sortFrames (typed.filter fun r => placement.place r.key = p),
      r ∈ typed ∧ placement.place r.key = p := by
    intro p r hr
    obtain ⟨hr, hp⟩ := List.mem_filter.1 ((sortOn_perm _ _).mem_iff.1 hr)
    exact ⟨hr, of_decide_eq_true hp⟩
  have hother : ∀ p ∈ List.finRange placement.partitions, p ≠ placement.place key →
      (replayPartition run states
        (sortFrames (typed.filter fun r => placement.place r.key = p))).filter
          (fun e => e.key = key) = [] := by
    intro p _ hp
    refine filter_eq_nil_of_key fun e he hek => hp ?_
    obtain ⟨r, hr, hre⟩ := exists_key_of_mem (grouped_sortFrames _) e he
    rw [← (hmem p r hr).2, hre, hek]
  have hraised' : ∀ e ∈ replayPartition run states
      (sortFrames (typed.filter fun r => placement.place r.key = placement.place key)),
      e.raised = false := by
    intro e he
    refine Bool.eq_false_iff.2 fun hraise => ?_
    have hany : (replay run states placement typed).any Emission.raised = true :=
      List.any_eq_true.2 ⟨e, List.mem_flatMap.2 ⟨_, List.mem_finRange _, he⟩, hraise⟩
    rw [hraised] at hany
    cases hany
  obtain ⟨label, hlabel⟩ : ∃ label : String × String × String × String, ∀ r ∈ typed, r.key = key →
      (r.symbol, r.connId, r.canonicalSymbol, r.srcTopic) = label := by
    by_cases hsome : ∃ r ∈ typed, r.key = key
    · obtain ⟨r, hr, hrk⟩ := hsome
      refine ⟨(r.symbol, r.connId, r.canonicalSymbol, r.srcTopic), fun r' hr' hrk' => ?_⟩
      have hkeys : r'.key = r.key := hrk'.trans hrk.symm
      obtain ⟨hcanonical, htopic⟩ := h.named r' hr' r hr hkeys
      obtain ⟨hsymbol, hconn⟩ := Prod.mk.inj hkeys
      rw [hsymbol, hconn, hcanonical, htopic]
    · exact ⟨("", "", "", ""), fun r hr hrk => absurd ⟨r, hr, hrk⟩ hsome⟩
  rw [replay, List.filter_flatMap,
    flatMap_eq_of_unique (List.nodup_finRange _) (List.mem_finRange (placement.place key)) hother,
    filter_replayPartition (grouped_sortFrames _) hraised' hsound hprev
      (fun r hr hrk => ⟨hlabel r (hmem _ r hr).1 hrk, h.clock r (hmem _ r hr).1⟩),
    h.filter_partition, map_reading]

end TypedBatch

end Replayed

/-! ## The tables of a connection -/

def ReplayedRow.timeless (r : ReplayedRow) : ReplayedRow := { r with ingestTs := 0 }

/-- The tables hold of a connection what the ledger says. -/
structure KeyHolds (v : Exchange) (silver : List ReplayedRow) (books : List BookRow)
    (table : StateTable) (key : BookKey) (L : KeyLedger) : Prop where
  state : (statesOf v table key).map StateRow.timeless = L.carry.stateRow v key
  silver : ((silver.filter fun r => r.key = key).map ReplayedRow.timeless : Multiset _) = L.silver
  books : ((books.filter fun r => r.exchange = v.name ∧ (r.symbol, r.connId) = key).map
    BookRow.timeless : Multiset _) = L.books
  sound : L.carry.Sound

theorem statesOf_mergeState (v : Exchange) (table : StateTable) (rows : List StateRow)
    (key : BookKey) :
    statesOf v (mergeState table rows) key =
      ((rows.filter fun r => r.exchange = v.name ∧ r.key = key).getLast?).or
        (statesOf v table key) := by
  have hpairs : mergeState table rows =
      (rows.map fun r => ((r.exchange, r.key), r)).foldl
        (fun acc kv => acc.insert kv.1 kv.2) table := by
    rw [mergeState, List.foldl_map]
  rw [statesOf, hpairs, Dict.get?_foldl_insert_eq_getLast?, List.filter_map, List.map_map]
  have hid : (Prod.snd ∘ fun r : StateRow => ((r.exchange, r.key), r)) = id := rfl
  rw [hid, List.map_id]
  congr 3
  funext r
  simp only [Function.comp_apply, Prod.mk.injEq]

/-! ### Taking a connection's rows out of what the replay yields -/

theorem filter_filterMap_comm {β : Type} {f : Emission → Option β} {g : β → BookKey}
    (hkey : ∀ e b, f e = some b → g b = e.key) (key : BookKey) (out : List Emission) :
    (out.filterMap f).filter (fun b => g b = key) =
      (out.filter fun e => e.key = key).filterMap f := by
  rw [List.filter_filterMap, List.filterMap_filter]
  refine List.filterMap_congr fun e _ => ?_
  cases hf : f e with
  | none => simp
  | some b =>
    by_cases h : e.key = key
    · simp [hkey e b hf, h]
    · simp [hkey e b hf, h]

theorem filterMap_timeless {β : Type} {f : Emission → Option β} {t : β → β}
    (ht : ∀ e, f e.timeless = (f e).map t) (out : List Emission) :
    (out.filterMap f).map t = (out.map Emission.timeless).filterMap f := by
  rw [List.map_filterMap, List.filterMap_map]
  exact List.filterMap_congr fun e _ => (ht e).symm

section Step

variable {floatDigits : Int → Int → String} {v : Exchange} {out : List Emission} {key : BookKey}
  {c : Carry} {xs : List Reading}

theorem books_of_walk
    (hout : (out.filter fun e => e.key = key).map Emission.timeless =
      c.walk v floatDigits key xs) :
    ((out.filterMap Emission.book?).filter fun r =>
        r.exchange = v.name ∧ (r.symbol, r.connId) = key).map BookRow.timeless =
      (Mealy.run (Carry.read v floatDigits) c xs).2.filterMap Emission.book? := by
  have hrows : ((out.filterMap Emission.book?).filter fun r => (r.symbol, r.connId) = key).map
      BookRow.timeless = (Mealy.run (Carry.read v floatDigits) c xs).2.filterMap
        Emission.book? := by
    have hkey : ∀ e b, Emission.book? e = some b → (b.symbol, b.connId) = e.key := by
      intro e b h
      cases e <;> cases h
      rfl
    have ht : ∀ e, Emission.book? e.timeless = (Emission.book? e).map BookRow.timeless := by
      intro e
      cases e <;> rfl
    rw [filter_filterMap_comm hkey, filterMap_timeless ht, hout, filterMap_walk fun _ => rfl]
  rw [← hrows]
  refine congrArg (List.map BookRow.timeless) (List.filter_congr fun r hr => ?_)
  by_cases hr' : (r.symbol, r.connId) = key
  · have hmem : r.timeless ∈
        (Mealy.run (Carry.read v floatDigits) c xs).2.filterMap Emission.book? := by
      rw [← hrows]
      exact List.mem_map_of_mem (List.mem_filter.2 ⟨hr, decide_eq_true hr'⟩)
    have hexchange : r.timeless.exchange = v.name := exchange_run c xs r.timeless hmem
    have hexchange : r.exchange = v.name := hexchange
    simp [hexchange, hr']
  · simp [hr']

theorem states_of_walk
    (hout : (out.filter fun e => e.key = key).map Emission.timeless =
      c.walk v floatDigits key xs) :
    ((out.filterMap Emission.state?).filter fun r => r.exchange = v.name ∧ r.key = key).map
        StateRow.timeless =
      if xs.isEmpty then []
      else ((Mealy.run (Carry.read v floatDigits) c xs).1.stateRow v key).toList := by
  have hrows : ((out.filterMap Emission.state?).filter fun r => r.key = key).map
      StateRow.timeless = if xs.isEmpty then []
        else ((Mealy.run (Carry.read v floatDigits) c xs).1.stateRow v key).toList := by
    have hkey : ∀ e b, Emission.state? e = some b → b.key = e.key := by
      intro e b h
      cases e with
      | state row => cases row <;> cases h; rfl
      | _ => cases h
    have ht : ∀ e, Emission.state? e.timeless = (Emission.state? e).map StateRow.timeless := by
      intro e
      cases e with
      | state row => cases row <;> rfl
      | _ => rfl
    rw [filter_filterMap_comm hkey, filterMap_timeless ht, hout, state?_walk]
  rw [← hrows]
  refine congrArg (List.map StateRow.timeless) (List.filter_congr fun r hr => ?_)
  by_cases hr' : r.key = key
  · have hmem : r.timeless ∈ if xs.isEmpty then []
        else ((Mealy.run (Carry.read v floatDigits) c xs).1.stateRow v key).toList := by
      rw [← hrows]
      exact List.mem_map_of_mem (List.mem_filter.2 ⟨hr, decide_eq_true hr'⟩)
    have hexchange : r.exchange = v.name := by
      split at hmem
      · cases hmem
      · rw [Option.mem_toList, Carry.stateRow, Option.map_eq_some_iff] at hmem
        obtain ⟨sec, _, hrow⟩ := hmem
        exact (congrArg StateRow.exchange hrow).symm
    simp [hexchange, hr']
  · simp [hr']

theorem Carry.run_sound (hclock : ∀ x ∈ xs, NS ≤ x.1.recvTsNs) (hsound : c.Sound) :
    (Mealy.run (Carry.read v floatDigits) c xs).1.Sound := by
  induction xs generalizing c with
  | nil => exact hsound
  | cons x xs ih =>
    rw [Mealy.run_cons]
    refine ih (fun y hy => hclock y (List.mem_cons_of_mem _ hy)) ?_
    refine Running.read_sound _ ?_ (hclock x List.mem_cons_self)
    rw [Carry.carry_running]
    exact hsound

/-- A connection that is live stays so. -/
theorem Carry.next_run (hclock : ∀ x ∈ xs, NS ≤ x.1.recvTsNs) (hsound : c.Sound)
    (hidle : (Mealy.run (Carry.read v floatDigits) c xs).1.next = none) : c.next = none := by
  induction xs generalizing c with
  | nil => exact hidle
  | cons x xs ih =>
    obtain ⟨hx, hxs⟩ := List.forall_mem_cons.1 hclock
    have hsound' : (c.running x.1).carry.Sound := by
      rw [Carry.carry_running]
      exact hsound
    rw [Mealy.run_cons] at hidle
    have hnext : (c.read v floatDigits x).1.next = none :=
      ih hxs (Running.read_sound _ hsound' hx) hidle
    have hnext : (c.running x.1).carry.next = none := Running.next_of_read hsound' hnext
    rwa [Carry.carry_running] at hnext

/-- The state row that a walk leaves, or the one before it. -/
theorem state_of_walk {table : StateTable} (hclock : ∀ x ∈ xs, NS ≤ x.1.recvTsNs)
    (hsound : c.Sound) (hprev : (statesOf v table key).map StateRow.timeless = c.stateRow v key)
    (hout : (out.filter fun e => e.key = key).map Emission.timeless =
      c.walk v floatDigits key xs) :
    (statesOf v (mergeState table (out.filterMap Emission.state?)) key).map StateRow.timeless =
      (Mealy.run (Carry.read v floatDigits) c xs).1.stateRow v key := by
  have hstates := congrArg List.getLast? (states_of_walk hout)
  rw [List.getLast?_map] at hstates
  rw [statesOf_mergeState, Option.map_or, hstates, hprev]
  cases hxs : xs with
  | nil => rfl
  | cons x rest =>
    simp only [List.isEmpty_cons, Bool.false_eq_true, if_false]
    rw [← hxs]
    cases hrow : (Mealy.run (Carry.read v floatDigits) c xs).1.stateRow v key with
    | some row => rfl
    | none =>
      -- not live after these frames, so not live before them
      have hidle := Carry.next_run hclock hsound (Option.map_eq_none_iff.1 hrow)
      rw [Carry.stateRow, hidle]
      rfl

/-- What a walk leaves of a connection's tables. -/
theorem KeyHolds.step {silver silver' : List ReplayedRow} {books : List BookRow}
    {table : StateTable} {L : KeyLedger} (h : KeyHolds v silver books table key L)
    (hclock : ∀ x ∈ xs, NS ≤ x.1.recvTsNs)
    (hout : (out.filter fun e => e.key = key).map Emission.timeless =
      L.carry.walk v floatDigits key xs)
    (hsilver : ((silver'.filter fun r => r.key = key).map ReplayedRow.timeless).Perm
      (silverRows v (xs.map Prod.fst) (Mealy.run (Carry.read v floatDigits) L.carry xs).2)) :
    KeyHolds v (silver ++ silver') (books ++ out.filterMap Emission.book?)
      (mergeState table (out.filterMap Emission.state?)) key (L.feed floatDigits v xs) := by
  refine ⟨?_, ?_, ?_, Carry.run_sound hclock h.sound⟩
  · exact state_of_walk hclock h.sound h.state hout
  · rw [List.filter_append, List.map_append, ← Multiset.coe_add, h.silver,
      Multiset.coe_eq_coe.2 hsilver]
    rfl
  · rw [List.filter_append, List.map_append, ← Multiset.coe_add, h.books, books_of_walk hout]
    rfl

end Step

/-! ### Silver -/

theorem filter_eq_singleton {α β : Type} [DecidableEq β] {f : α → β} {l : List α}
    (hl : (l.map f).Nodup) {x : α} (hx : x ∈ l) : l.filter (fun y => f y = f x) = [x] := by
  induction l with
  | nil => cases hx
  | cons y l ih =>
    obtain ⟨hy, hl'⟩ := List.nodup_cons.1 hl
    rcases List.mem_cons.1 hx with rfl | hx
    · have hnone : l.filter (fun y => f y = f x) = [] :=
        List.filter_eq_nil_iff.2 fun z hz hzx =>
          hy (of_decide_eq_true hzx ▸ List.mem_map_of_mem hz)
      rw [List.filter_cons, if_pos (decide_eq_true rfl), hnone]
    · have hne : ¬ decide (f y = f x) = true := fun h =>
        hy (of_decide_eq_true h ▸ List.mem_map_of_mem hx)
      rw [List.filter_cons, if_neg hne, ih hl' hx]

/-- Where every frame has one verdict, the join gives every verdict its frame. -/
theorem joinVerdicts_perm {typed : List TypedFrame} {verdicts : List (TypedFrame × Option Bool)}
    (hlineage : (typed.map fun r => r.lineage).Nodup) (hperm : (verdicts.map Prod.fst).Perm typed)
    (runTs : Int) :
    (joinVerdicts runTs verdicts typed).Perm
      (verdicts.map fun x => replayedRow runTs x.1 x.2) := by
  have hnodup : (verdicts.map fun x => x.1.lineage).Nodup := by
    have := (hperm.map fun r : TypedFrame => r.lineage).nodup_iff.2 hlineage
    rwa [List.map_map] at this
  unfold joinVerdicts
  refine (hperm.symm.flatMap_right _).trans ?_
  rw [List.flatMap_map, List.map_eq_flatMap]
  refine List.Perm.of_eq (List.flatMap_congr fun x hx => ?_)
  rw [filter_eq_singleton (f := fun x : TypedFrame × Option Bool => x.1.lineage) hnodup hx]
  rfl

section Silver

variable {run : ReplayRun} {floatDigits : Int → Int → String} {typed : List TypedFrame}
  {v : Exchange}

variable (run typed) in
theorem frames_ofConnection (key : BookKey) :
    (ofConnection key (typed.map run.reading)).map Prod.fst =
      sortFrames (typed.filter fun r => r.key = key) := by
  rw [← TypedBatch.map_reading, List.map_map]
  exact List.map_id _

theorem mem_ofConnection {key : BookKey} {batch : List Reading} {x : Reading}
    (h : x ∈ ofConnection key batch) : x ∈ batch :=
  List.mem_of_mem_filter ((sortOn_perm _ _).mem_iff.1 h)

theorem silver_unchecked (runTs : Int) (key : BookKey) (hv : v ≠ .kraken) (out : List Emission) :
    (((typed.map fun r => replayedRow runTs r none).filter fun r => r.key = key).map
      ReplayedRow.timeless).Perm
        (silverRows v ((ofConnection key (typed.map run.reading)).map Prod.fst) out) := by
  have hrows : silverRows v ((ofConnection key (typed.map run.reading)).map Prod.fst) out =
      (sortFrames (typed.filter fun r => r.key = key)).map fun r => replayedRow 0 r none := by
    rw [frames_ofConnection]
    cases v with
    | kraken => exact absurd rfl hv
    | binance => rfl
    | coinbase => rfl
  rw [hrows, List.filter_map, List.map_map]
  exact (sortOn_perm TypedFrame.order (typed.filter fun r => r.key = key)).symm.map _

/-- Kraken's verdicts find their frames. -/
theorem silver_checked (hb : TypedBatch .kraken typed) {out : List Emission}
    {carries : BookKey → Carry}
    (hout : ∀ key, (out.filter fun e => e.key = key).map Emission.timeless =
      (carries key).walk .kraken floatDigits key (ofConnection key (typed.map run.reading)))
    (runTs : Int) (key : BookKey) :
    (((joinVerdicts runTs (out.filterMap Emission.verdict?) typed).filter fun r => r.key = key).map
      ReplayedRow.timeless).Perm
        (silverRows .kraken ((ofConnection key (typed.map run.reading)).map Prod.fst)
          (Mealy.run (Carry.read .kraken floatDigits) (carries key)
            (ofConnection key (typed.map run.reading))).2) := by
  have hverdicts : ∀ k, (out.filterMap Emission.verdict?).filter (fun x => x.1.key = k) =
      (Mealy.run (Carry.read .kraken floatDigits) (carries k)
        (ofConnection k (typed.map run.reading))).2.filterMap Emission.verdict? := by
    intro k
    have hkey : ∀ e b, Emission.verdict? e = some b → b.1.key = e.key := by
      intro e b h
      cases e <;> cases h
      rfl
    have ht : ∀ e, Emission.verdict? e.timeless = (Emission.verdict? e).map id := by
      intro e
      cases e <;> rfl
    have hfilter := filterMap_timeless ht (out.filter fun e => e.key = k)
    rw [List.map_id, hout, filterMap_walk fun _ => rfl] at hfilter
    rw [filter_filterMap_comm hkey, hfilter]
  have hperm : ((out.filterMap Emission.verdict?).map Prod.fst).Perm typed := by
    refine perm_of_filter_key (f := fun r : TypedFrame => r.key) fun k => ?_
    have hpayload : ∀ x ∈ ofConnection k (typed.map run.reading),
        x.1.payload.exchange = .kraken := by
      intro x hx
      obtain ⟨r, hr, rfl⟩ := List.mem_map.1 (mem_ofConnection hx)
      exact hb.payload r hr
    have hframes : ((Mealy.run (Carry.read .kraken floatDigits) (carries k)
        (ofConnection k (typed.map run.reading))).2.filterMap Emission.verdict?).map Prod.fst =
          (ofConnection k (typed.map run.reading)).map Prod.fst :=
        verdict?_run _ _ hpayload (carries k)
    rw [frames_ofConnection] at hframes
    have hcomm : ((out.filterMap Emission.verdict?).map Prod.fst).filter (fun r => r.key = k) =
        ((out.filterMap Emission.verdict?).filter fun x => x.1.key = k).map Prod.fst :=
      List.filter_map
    rw [hcomm, hverdicts, hframes]
    exact sortOn_perm _ _
  refine (((joinVerdicts_perm hb.lineage hperm runTs).filter _).map _).trans ?_
  rw [List.filter_map, List.map_map, silverRows, ← hverdicts]
  exact List.Perm.refl _

end Silver

end K2.Lake

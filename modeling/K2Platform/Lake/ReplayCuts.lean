import K2Platform.Lake.BookLedger

/-!
# A replay cut into batches

The frames of one connection may be replayed at once or batch by batch, each batch from the state
row that the one before it yielded.

* `walk_replayPartition` — the pass over a connection is the walk from its carry.
* `replay_cut_invariant` — where the batches are cut does not show.
-/

set_option autoImplicit false

namespace K2.Lake

/-! ## Batches -/

def Emission.isState : Emission → Bool
  | .state _ => true
  | _ => false

/-- The verdicts and the rows of seconds, in order. -/
def sampled (out : List Emission) : List Emission := out.filter fun e => !e.isState

/-- The state row that a replay leaves. -/
def stateAfter (out : List Emission) : Option StateRow := (out.filterMap Emission.state?).getLast?

section Batches

variable (run : ReplayRun) (key : BookKey)

/-- A replay of frames of one connection, given the state row of an earlier one. -/
def replayBatch (prev : Option StateRow) (batch : List TypedFrame) : List Emission :=
  replayPartition run (fun k => if k = key then prev else none) batch

/-- Batch by batch: all the verdicts and rows, and the state row at the end. -/
def replayBatches : Option StateRow → List (List TypedFrame) → List Emission × Option StateRow
  | prev, [] => ([], prev)
  | prev, batch :: batches =>
    let out := replayBatch run key prev batch
    let rest := replayBatches (stateAfter out) batches
    (sampled out ++ rest.1, rest.2)

/-- The frames of one connection, under one symbol and from one topic. -/
structure OneConnection (rows : List TypedFrame) : Prop where
  label : ∃ canonicalSymbol srcTopic, ∀ r ∈ rows,
    (r.symbol, r.connId, r.canonicalSymbol, r.srcTopic) = (key.1, key.2, canonicalSymbol, srcTopic)
  clock : ∀ r ∈ rows, NS ≤ r.recvTsNs

/-- The book of a connection after its first frames. -/
def bookAfter (rows : List TypedFrame) : Book :=
  match rows with
  | [] => Book.empty
  | r :: _ => (Mealy.run (Running.read run) (Running.opened none r) rows).1.book

end Batches

/-! ## The time of the run -/

/-- The row as a run at this time writes it. -/
def Emission.stamp (runTs : Int) : Emission → Emission
  | .verdict frame ok => .verdict frame ok
  | .book row => .book { row with ingestTs := runTs }
  | .state row => .state (row.map fun r => { r with updatedAt := runTs })

variable {run : ReplayRun} {key : BookKey}

theorem stamp_timeless_replayPartition (states : BookKey → Option StateRow)
    (rows : List TypedFrame) :
    ((replayPartition run states rows).map Emission.timeless).map (Emission.stamp run.runTs) =
      replayPartition run states rows := by
  have hstamp : ∀ e ∈ replayPartition run states rows, e.timeless.stamp run.runTs = e := by
    refine forall_replayPartition (fun _ _ => rfl) (fun _ _ => rfl) (fun st => ?_) rows
    unfold Running.stateRow
    split <;> rfl
  rw [List.map_map]
  exact (List.map_congr_left hstamp).trans (List.map_id _)

theorem sampled_map {f : Emission → Emission} (hf : ∀ e, (f e).isState = e.isState)
    (out : List Emission) : sampled (out.map f) = (sampled out).map f := by
  rw [sampled, List.filter_map, sampled]
  refine congrArg (List.map f) (List.filter_congr fun e _ => ?_)
  rw [Function.comp_apply, hf]

theorem isState_timeless (e : Emission) : e.timeless.isState = e.isState := by cases e <;> rfl

theorem isState_stamp (runTs : Int) (e : Emission) : (e.stamp runTs).isState = e.isState := by
  cases e <;> rfl

theorem stateAfter_timeless (out : List Emission) :
    stateAfter (out.map Emission.timeless) = (stateAfter out).map StateRow.timeless := by
  rw [stateAfter, stateAfter, ← List.getLast?_map, List.filterMap_map, List.map_filterMap]
  refine congrArg List.getLast? (List.filterMap_congr fun e _ => ?_)
  match e with
  | .verdict .. => rfl
  | .book _ => rfl
  | .state (.ok _) => rfl
  | .state (.error _) => rfl

/-! ## One batch -/

theorem sampled_run (v : Exchange) (floatDigits : Int → Int → String) (c : Carry)
    (xs : List Reading) :
    sampled (Mealy.run (Carry.read v floatDigits) c xs).2 =
      (Mealy.run (Carry.read v floatDigits) c xs).2 := by
  refine List.filter_eq_self.2 fun e he => ?_
  induction xs generalizing c with
  | nil => cases he
  | cons x xs ih =>
    rw [Mealy.run_cons] at he
    rcases List.mem_append.1 he with he | he
    · exact Running.forall_read (P := fun e => (!e.isState) = true) (fun _ _ => rfl)
        (fun _ _ => rfl) _ _ e he
    · exact ih _ he

theorem sampled_close (v : Exchange) (c : Carry) : sampled (c.close v key) = [] := by
  refine List.filter_eq_nil_iff.2 fun e he => ?_
  obtain ⟨row, _, rfl⟩ := List.mem_map.1 he
  exact Bool.false_ne_true

variable (run) in
/-- **The pass over one connection** is the walk from the carry its state row was written from. -/
theorem walk_replayPartition {rows : List TypedFrame} (hrows : OneConnection key rows) {c : Carry}
    (hsound : c.Sound) {prev : Option StateRow}
    (hprev : prev.map StateRow.timeless = c.stateRow run.exchange key) :
    (replayBatch run key prev rows).map Emission.timeless =
      (c.truncate STATE_LEVELS).walk run.exchange run.floatDigits key (rows.map run.reading) := by
  cases rows with
  | nil => rfl
  | cons r group =>
    obtain ⟨⟨canonicalSymbol, srcTopic, hlabel⟩, hclock⟩ := hrows
    have hkey : ∀ x ∈ r :: group, x.key = key := fun x hx => by
      have h := hlabel x hx
      rw [Prod.mk.injEq, Prod.mk.injEq] at h
      exact Prod.ext h.1 h.2.1
    have hr : r.key = key := hkey r List.mem_cons_self
    have hopened : (Running.opened prev r).carry = c.truncate STATE_LEVELS := opened_carry hsound hprev r
    have hcons := replayPartition_cons run (fun k => if k = key then prev else none) r []
      (fun x hx => (hkey x (List.mem_cons_of_mem _ hx)).trans hr.symm)
      fun x hx => absurd hx (Option.not_mem_none x)
    simp only [List.append_nil, hr, if_true] at hcons
    have hstart : (Running.opened prev r).carry.Sound := hopened ▸ hsound.truncate STATE_LEVELS
    obtain ⟨hsound', hnames, hwalk⟩ := Running.run_carry run
      (fun x hx => ⟨hlabel x hx, hclock x hx⟩) hstart (hlabel r List.mem_cons_self)
    generalize Mealy.run (Running.read run) (Running.opened prev r) (r :: group) = q
      at hcons hsound' hnames hwalk
    have hkey' : q.1.key = key := by
      rw [Running.names, Prod.mk.injEq, Prod.mk.injEq] at hnames
      exact Prod.ext hnames.1 hnames.2.1
    have hend : (q.1.endBefore run []).map Emission.timeless =
        q.1.carry.close run.exchange key := by
      rw [← hkey']
      exact Running.finish_timeless hsound'
    rw [hopened] at hwalk
    rw [replayBatch, hcons, List.map_append, List.map_append, hend, Carry.walk, hwalk]
    simp [replayPartition]

theorem sampled_walk (v : Exchange) (floatDigits : Int → Int → String) (c : Carry)
    (xs : List Reading) :
    sampled (c.walk v floatDigits key xs) = (Mealy.run (Carry.read v floatDigits) c xs).2 := by
  unfold Carry.walk
  cases xs with
  | nil => rfl
  | cons x xs =>
    simp only [List.isEmpty_cons, Bool.false_eq_true, if_false]
    rw [sampled, List.filter_append, ← sampled, ← sampled, sampled_run, sampled_close,
      List.append_nil]

theorem stateAfter_walk (v : Exchange) (floatDigits : Int → Int → String) (c : Carry)
    {xs : List Reading} (hxs : xs ≠ []) :
    stateAfter (c.walk v floatDigits key xs) =
      (Mealy.run (Carry.read v floatDigits) c xs).1.stateRow v key := by
  rw [stateAfter, state?_walk, if_neg (by simpa using hxs)]
  cases (Mealy.run (Carry.read v floatDigits) c xs).1.stateRow v key <;> rfl

/-! ## Batch by batch -/

theorem OneConnection.sublist {rows rows' : List TypedFrame} (h : OneConnection key rows)
    (hsub : rows'.Sublist rows) : OneConnection key rows' := by
  obtain ⟨⟨canonicalSymbol, srcTopic, hlabel⟩, hclock⟩ := h
  exact ⟨⟨canonicalSymbol, srcTopic, fun r hr => hlabel r (hsub.subset hr)⟩,
    fun r hr => hclock r (hsub.subset hr)⟩

theorem carry_bookAfter {rows : List TypedFrame} (hrows : OneConnection key rows) :
    (Mealy.run (Carry.read run.exchange run.floatDigits) Carry.initial
      (rows.map run.reading)).1.book = bookAfter run rows := by
  cases rows with
  | nil => rfl
  | cons r group =>
    obtain ⟨⟨canonicalSymbol, srcTopic, hlabel⟩, hclock⟩ := hrows
    have hsound : (Running.opened none r).carry.Sound := Carry.initial_sound
    obtain ⟨_, _, hwalk⟩ := Running.run_carry run (fun x hx => ⟨hlabel x hx, hclock x hx⟩) hsound
      (hlabel r List.mem_cons_self)
    have hcarry : (Running.opened none r).carry = Carry.initial := rfl
    rw [hcarry] at hwalk
    rw [hwalk]
    rfl

/-- Batches go on where frames already replayed have left the carry. -/
theorem replayBatches_timeless {done : List TypedFrame} {batches : List (List TypedFrame)}
    (hrows : OneConnection key (done ++ batches.flatten)) (hbatches : ∀ b ∈ batches, b ≠ [])
    (hwithin : ∀ rows, rows <+: done ++ batches.flatten →
      (bookAfter run rows).Within STATE_LEVELS) {prev : Option StateRow}
    (hprev : prev.map StateRow.timeless =
      (Mealy.run (Carry.read run.exchange run.floatDigits) Carry.initial
        (done.map run.reading)).1.stateRow run.exchange key) :
    let c := (Mealy.run (Carry.read run.exchange run.floatDigits) Carry.initial
      (done.map run.reading)).1
    let q := Mealy.run (Carry.read run.exchange run.floatDigits) c (batches.flatten.map run.reading)
    (replayBatches run key prev batches).1.map Emission.timeless = q.2 ∧
      (replayBatches run key prev batches).2.map StateRow.timeless =
        q.1.stateRow run.exchange key := by
  induction batches generalizing done prev with
  | nil => exact ⟨rfl, hprev⟩
  | cons b batches ih =>
    obtain ⟨hb, hbatches⟩ := List.forall_mem_cons.1 hbatches
    simp only
    set c := (Mealy.run (Carry.read run.exchange run.floatDigits) Carry.initial
      (done.map run.reading)).1 with hc
    have hdone : OneConnection key done := hrows.sublist (List.sublist_append_left _ _)
    have hclock : ∀ x ∈ done.map run.reading, NS ≤ x.1.recvTsNs := by
      intro x hx
      obtain ⟨r, hr, rfl⟩ := List.mem_map.1 hx
      exact hdone.clock r hr
    have hsound : c.Sound := Carry.run_sound hclock Carry.initial_sound
    have hbook : c.book.Within STATE_LEVELS := by
      rw [hc, carry_bookAfter hdone]
      exact hwithin done (List.prefix_append _ _)
    have hone : OneConnection key b := hrows.sublist
      ((List.sublist_append_left b batches.flatten).trans (List.sublist_append_right _ _))
    have hwalk := walk_replayPartition run hone hsound hprev
    rw [Carry.truncate_of_within hbook] at hwalk
    have hassoc : done ++ (b :: batches).flatten = (done ++ b) ++ batches.flatten := by
      rw [List.flatten_cons, List.append_assoc]
    have hnext : (stateAfter (replayBatch run key prev b)).map StateRow.timeless =
        (Mealy.run (Carry.read run.exchange run.floatDigits) Carry.initial
          ((done ++ b).map run.reading)).1.stateRow run.exchange key := by
      rw [← stateAfter_timeless, hwalk, stateAfter_walk _ _ _ (by simpa using hb), List.map_append,
        Mealy.run_append]
    obtain ⟨hout, hstate⟩ := ih (hassoc ▸ hrows) hbatches (hassoc ▸ hwithin)
      hnext
    rw [List.map_append, Mealy.run_append] at hout hstate
    have hflatten : (b :: batches).flatten.map run.reading =
        b.map run.reading ++ batches.flatten.map run.reading := by
      rw [List.flatten_cons, List.map_append]
    rw [hflatten, Mealy.run_append]
    refine ⟨?_, hstate⟩
    rw [replayBatches]
    simp only
    rw [List.map_append, hout, ← sampled_map isState_timeless, hwalk, sampled_walk]

theorem stamp_replayBatches (prev : Option StateRow) (batches : List (List TypedFrame)) :
    ((replayBatches run key prev batches).1.map Emission.timeless).map (Emission.stamp run.runTs) =
      (replayBatches run key prev batches).1 := by
  induction batches generalizing prev with
  | nil => rfl
  | cons b batches ih =>
    have hbatch : ((sampled (replayBatch run key prev b)).map Emission.timeless).map
        (Emission.stamp run.runTs) = sampled (replayBatch run key prev b) := by
      rw [← sampled_map isState_timeless, ← sampled_map (isState_stamp run.runTs), replayBatch,
        stamp_timeless_replayPartition]
    rw [replayBatches]
    simp only
    rw [List.map_append, List.map_append, hbatch, ih]

/-- The state row of a run is of its time. -/
theorem updatedAt_stateAfter (states : BookKey → Option StateRow) (rows : List TypedFrame) :
    ∀ row ∈ stateAfter (replayPartition run states rows), row.updatedAt = run.runTs := by
  intro row hrow
  obtain ⟨e, he, hstate⟩ := List.mem_filterMap.1 (List.mem_of_getLast? hrow)
  revert hstate
  refine forall_replayPartition (P := fun e => e.state? = some row → row.updatedAt = run.runTs)
    (fun _ _ h => by cases h) (fun _ _ h => by cases h) (fun st h => ?_) rows e he
  unfold Running.stateRow at h
  split at h
  · cases h
    rfl
  · cases h

theorem updatedAt_replayBatches {batches : List (List TypedFrame)} {prev : Option StateRow}
    (hprev : ∀ row ∈ prev, row.updatedAt = run.runTs) :
    ∀ row ∈ (replayBatches run key prev batches).2, row.updatedAt = run.runTs := by
  induction batches generalizing prev with
  | nil => exact hprev
  | cons b batches ih => exact ih (updatedAt_stateAfter _ b)

theorem eq_of_timeless {a b : Option StateRow} {runTs : Int}
    (ha : ∀ row ∈ a, row.updatedAt = runTs) (hb : ∀ row ∈ b, row.updatedAt = runTs)
    (h : a.map StateRow.timeless = b.map StateRow.timeless) : a = b := by
  cases a with
  | none => exact (Option.map_eq_none_iff.1 h.symm).symm
  | some row =>
    obtain ⟨row', rfl, htimeless⟩ := Option.map_eq_some_iff.1 h.symm
    have htime : row.updatedAt = row'.updatedAt := (ha row rfl).trans (hb row' rfl).symm
    have hrow : ∀ r : StateRow, r = { r.timeless with updatedAt := r.updatedAt } := fun _ => rfl
    rw [hrow row, hrow row', htimeless, htime]

variable (run) in
/-- **Where the batches are cut does not show**: not in a verdict, not in the row of a second, and
    not in the state row at the end. -/
theorem replay_cut_invariant {batches : List (List TypedFrame)}
    (hrows : OneConnection key batches.flatten) (hbatches : ∀ b ∈ batches, b ≠ [])
    (hwithin : ∀ rows, rows <+: batches.flatten → (bookAfter run rows).Within STATE_LEVELS) :
    replayBatches run key none batches =
      (sampled (replayBatch run key none batches.flatten),
        stateAfter (replayBatch run key none batches.flatten)) := by
  have hcut := @replayBatches_timeless run key [] batches hrows hbatches hwithin none rfl
  have hwhole := walk_replayPartition run hrows Carry.initial_sound
    (rfl : (none : Option StateRow).map StateRow.timeless = Carry.initial.stateRow run.exchange key)
  rw [Carry.truncate_of_within (hwithin [] List.nil_prefix)] at hwhole
  simp only [List.map_nil, Mealy.run_nil] at hcut
  refine Prod.ext ?_ ?_
  · have hsampled : (sampled (replayBatch run key none batches.flatten)).map Emission.timeless =
        (replayBatches run key none batches).1.map Emission.timeless := by
      rw [hcut.1, ← sampled_map isState_timeless, hwhole, sampled_walk]
    rw [← stamp_replayBatches, ← hsampled, ← sampled_map isState_timeless,
      ← sampled_map (isState_stamp run.runTs), replayBatch, stamp_timeless_replayPartition]
  · have hfirst : ∀ row ∈ (none : Option StateRow), row.updatedAt = run.runTs := fun row hrow =>
      absurd hrow (Option.not_mem_none row)
    refine eq_of_timeless (updatedAt_replayBatches hfirst) (updatedAt_stateAfter _ _) ?_
    rw [hcut.2, ← stateAfter_timeless]
    rw [hwhole]
    by_cases hnone : batches.flatten.map run.reading = []
    · rw [hnone]
      rfl
    · rw [stateAfter_walk _ _ _ hnone]

/-- A snapshot at 1.5 s. -/
def cutSnapshot : TypedFrame where
  symbol := "BTC/USD"
  payload := .kraken "snapshot" [⟨100, 100⟩] [⟨200, 100⟩] 0 none
  recvTsNs := 1500000000
  connId := "c"
  connMsgSeq := 0
  srcTopic := "market.crypto.v3.raw.kraken"
  srcPartition := 0
  srcOffset := 0
  srcIndex := 0
  canonicalSymbol := "BTC/USD"

def cutUpdate : TypedFrame :=
  { cutSnapshot with
    payload := .kraken "update" [⟨100, 200⟩] [] 0 none
    recvTsNs := 5000000000
    connMsgSeq := 1
    srcOffset := 1 }

def cutRun : ReplayRun := ⟨.kraken, fun _ => none, fun _ _ => "", 7⟩

theorem snapshot_cut_from_update :
    replayBatches cutRun ("BTC/USD", "c") none [[cutSnapshot], [cutUpdate]] =
      (sampled (replayBatch cutRun ("BTC/USD", "c") none [cutSnapshot, cutUpdate]),
        stateAfter (replayBatch cutRun ("BTC/USD", "c") none [cutSnapshot, cutUpdate])) := by
  have hbooks : ∀ rows ∈ [cutSnapshot, cutUpdate].inits,
      (bookAfter cutRun rows).Within STATE_LEVELS := by decide
  refine replay_cut_invariant cutRun ⟨⟨"BTC/USD", "market.crypto.v3.raw.kraken", ?_⟩, ?_⟩ ?_ ?_
  · decide
  · decide
  · decide
  · exact fun rows hrows => hbooks rows ((List.mem_inits _ _).2 hrows)

end K2.Lake

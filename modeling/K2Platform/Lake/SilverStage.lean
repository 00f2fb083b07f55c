import K2Platform.Lake.RecordedPositions
import K2Platform.Lake.SilverTyping

/-!
# Stage 2c: bronze to silver trades

Model of `silver.py::stage`, `write` and `_lookback`.  Each silver trades table reads of its bronze
table what has come since the snapshot that it has recorded, and is committed to once; the venues
take their turns in the order of `TRADES`, and a turn that raises ends the run.  A run may be killed
between any two commits.

* `turn_cases` — all that a venue's turn can do.
* `silver_typed_once` — what a silver table holds in every state reached.
* `wedged_forever` — a frame with a trade that cannot be typed stops its table, and with every run
  that gets to it the tables after it.
-/

set_option autoImplicit false

namespace K2.Lake.SilverTrades

open Bronze (BronzeRow BronzeTable VenueTable)
open Relation

/-- `TradeSpec.source`. -/
def source : Exchange → VenueTable
  | .binance => .binanceTrade
  | .kraken => .krakenTrade
  | .coinbase => .coinbaseMarketTrades

/-! ## A run -/

section Stage

variable (spark : SparkText) {J : Type} (columns : TradeColumns J)

/-- What becomes of a batch of frames. -/
inductive Turn where
  | raised
  | nothing
  | commit (s : DataSnapshot SilverTrade)

/-- `project`: the trades of some frames. -/
def batchOf (v : Exchange) (answer : Registry × Int) (frames : List (BronzeRow J)) :
    Option (List TypedTrade) :=
  (frames.mapM (typedTrades spark columns v answer)).map List.flatten

/-- The table as `Silver` has it. -/
def logOf (table : DataTable SilverTrade) : SilverLog := table.map fun s => ⟨s.rows, none⟩

/-- `write`: a batch without trades commits nothing. -/
def write (v : Exchange) (answer : Registry × Int) (stamp : Nat × Int) (srcSnapshotId : String)
    (table : DataTable SilverTrade) (frames : List (BronzeRow J)) : Turn :=
  match batchOf spark columns v answer frames with
  | none => .raised
  | some batch =>
    match (batch.map TypedTrade.recvTs).min? with
    | none => .nothing
    | some lo => .commit {
        id := stamp.1
        committedAt := stamp.2
        summary := decodeSummary srcSnapshotId
        rows := score batch (lookback (logOf table) (lo - LOOKBACK)) }

variable (bronze : VenueTable → BronzeTable J) (silver : Recorded.Silver)
  (answers : Exchange → Registry × Int) (stamps : Exchange → Nat × Int)

/-- The turn of one venue. -/
def turn (v : Exchange) : Turn :=
  match (bronze (source v)).current with
  | none => .nothing
  | some stop =>
    let start := (silver v).srcSnapshotId.filter fun s => s ≠ ""
    if start = some stop.idText then .nothing
    else
      match (bronze (source v)).readFrom start stop.idText with
      | none => .raised
      | some frames => write spark columns v (answers v) (stamps v) stop.idText (silver v) frames

/-- The commits of a run, in their order.  A venue reads no table of another venue. -/
def stageCommits : List Exchange → List (Exchange × DataSnapshot SilverTrade)
  | [] => []
  | v :: venues =>
    match turn spark columns bronze silver answers stamps v with
    | .raised => []
    | .nothing => stageCommits venues
    | .commit s => (v, s) :: stageCommits venues

end Stage

/-- The tables after some commits. -/
def applyCommits (silver : Recorded.Silver) (commits : List (Exchange × DataSnapshot SilverTrade)) :
    Recorded.Silver :=
  fun v => silver v ++ (commits.filter fun c => c.1 = v).map Prod.snd

/-! ## Runs -/

structure State (J : Type) where
  bronze : VenueTable → BronzeTable J
  silver : Recorded.Silver
  /-- For every bronze snapshot that a table has read, the registry and the time of the run that
      read it. -/
  typedWith : Exchange → List (Registry × Int)

namespace State

variable {J : Type}

def start : State J := ⟨fun _ => [], fun _ => [], fun _ => []⟩

def reach (st : State J) (v : Exchange) : Nat := reachOf (st.bronze (source v)) (st.silver v)

/-- A run that is killed after `cut` of its commits. -/
def run (spark : SparkText) (columns : TradeColumns J) (answers : Exchange → Registry × Int)
    (stamps : Exchange → Nat × Int) (cut : Nat) (st : State J) : State J :=
  let silver := applyCommits st.silver
    ((stageCommits spark columns st.bronze st.silver answers stamps TRADES).take cut)
  { st with
    silver := silver
    typedWith := fun v => st.typedWith v ++
      List.replicate (reachOf (st.bronze (source v)) (silver v) - st.reach v) (answers v) }

end State

section Steps

variable (spark : SparkText) {J : Type} (columns : TradeColumns J)

/-- The bronze tables grow, compaction rewrites a silver table, and runs get past some commits. -/
inductive Step : State J → State J → Prop
  | grow {st : State J} (bronze : VenueTable → BronzeTable J) :
      (∀ t, st.bronze t <+: bronze t) → (∀ t, (bronze t).Valid) →
      Step st { st with bronze := bronze }
  | maintain {st : State J} (v : Exchange) (s : DataSnapshot SilverTrade) : s.rows = [] →
      Snapshot.writtenBy JOB_DECODE ⟨s.committedAt, s.summary⟩ = false →
      DataTable.Valid (st.silver v ++ [s]) →
      Step st { st with silver := Function.update st.silver v (st.silver v ++ [s]) }
  | run {st : State J} (answers : Exchange → Registry × Int) (stamps : Exchange → Nat × Int)
      (cut : Nat) :
      (∀ v, ((st.run spark columns answers stamps cut).silver v).Valid) →
      Step st (st.run spark columns answers stamps cut)

def Reached (st : State J) : Prop := ReflTransGen (Step spark columns) State.start st

/-- The trades of the frames in the bronze snapshots that were read, as their runs typed them. -/
def expected (bronze : BronzeTable J) (answers : List (Registry × Int)) (v : Exchange) :
    List TypedTrade :=
  madeOf bronze (answers.map (typedTrades spark columns v))

end Steps

/-! ## One batch -/

section Batch

variable {spark : SparkText} {J : Type} {columns : TradeColumns J} {v : Exchange}
  {answer : Registry × Int} {frames : List (BronzeRow J)} {batch : List TypedTrade}

/-- Every frame of a batch was typed, and gave its trades. -/
theorem typed_of_batchOf (h : batchOf spark columns v answer frames = some batch) :
    (∀ row ∈ frames, (typedTrades spark columns v answer row).isSome) ∧
      batch = frames.flatMap fun row => (typedTrades spark columns v answer row).getD [] := by
  obtain ⟨trades, htrades, rfl⟩ := Option.map_eq_some_iff.1 h
  refine ⟨PartialMap.isSome_mapM_iff.1 ?_, PartialMap.flatten_mapM htrades⟩
  rw [htrades]
  rfl

theorem deliveries_score (batch lookback : List TypedTrade) :
    (score batch lookback).map SilverTrade.toTypedTrade = batch := by
  rw [score, List.map_map]
  exact List.map_id' batch

/-- What a batch commits, if it commits anything. -/
theorem write_commit {stamp : Nat × Int} {srcSnapshotId : String} {table : DataTable SilverTrade}
    {s : DataSnapshot SilverTrade}
    (h : write spark columns v answer stamp srcSnapshotId table frames = .commit s) :
    ∃ batch, batchOf spark columns v answer frames = some batch ∧ batch ≠ [] ∧
      s.summary = decodeSummary srcSnapshotId ∧ s.rows.map SilverTrade.toTypedTrade = batch := by
  unfold write at h
  split at h
  · cases h
  · rename_i batch hbatch
    split at h
    · cases h
    · rename_i lo hlo
      cases h
      refine ⟨batch, hbatch, fun hnil => ?_, rfl, deliveries_score batch _⟩
      rw [hnil] at hlo
      cases hlo

theorem write_raised_iff {stamp : Nat × Int} {srcSnapshotId : String}
    {table : DataTable SilverTrade} :
    write spark columns v answer stamp srcSnapshotId table frames = .raised ↔
      ∃ row ∈ frames, typedTrades spark columns v answer row = none := by
  have hnone : batchOf spark columns v answer frames = none ↔
      ∃ row ∈ frames, typedTrades spark columns v answer row = none := by
    rw [batchOf, Option.map_eq_none_iff, ← Option.not_isSome_iff_eq_none,
      PartialMap.isSome_mapM_iff]
    simp only [not_forall, Option.not_isSome_iff_eq_none, exists_prop]
  rw [← hnone]
  unfold write
  split
  · rename_i h
    exact iff_of_true rfl h
  · rename_i batch h
    refine iff_of_false (fun hraised => ?_) (by rw [h]; exact Option.some_ne_none batch)
    split at hraised <;> cases hraised

end Batch

/-! ## What a turn does -/

section Turns

variable {spark : SparkText} {J : Type} {columns : TradeColumns J}
  {bronze : VenueTable → BronzeTable J} {silver : Recorded.Silver}
  {answers : Exchange → Registry × Int} {stamps : Exchange → Nat × Int} {v : Exchange}

/-- A position that is recorded is no empty text. -/
theorem filter_srcSnapshotId {ρ σ : Type} {source : DataTable ρ} {table : DataTable σ}
    (hplaced : Placed source table) :
    (table.srcSnapshotId.filter fun s => s ≠ "") = table.srcSnapshotId := by
  cases hstart : table.srcSnapshotId with
  | none => rfl
  | some text =>
    obtain ⟨n, hn⟩ := hplaced text hstart
    obtain ⟨i, hi, -⟩ := Option.map_eq_some_iff.1 hn
    obtain ⟨hlt, hid, -⟩ := List.findIdx?_eq_some_iff_getElem.1 hi
    have hne : text ≠ "" := by
      rw [← of_decide_eq_true hid]
      exact Nat.repr_ne_empty
    rw [Option.filter_some, if_pos (decide_eq_true hne)]

/-- The turn reads these frames of the bronze table, up to this snapshot. -/
structure Reads (bronze : VenueTable → BronzeTable J) (silver : Recorded.Silver) (v : Exchange)
    (stop : DataSnapshot (BronzeRow J)) (frames : List (BronzeRow J)) : Prop where
  current : (bronze (source v)).current = some stop
  behind : (silver v).srcSnapshotId ≠ some stop.idText
  read : (bronze (source v)).readFrom (silver v).srcSnapshotId stop.idText = some frames

/-- **All that a venue's turn can do**: nothing, as there is nothing to read, or what `write` does
    with the frames that it reads. -/
theorem turn_cases (hplaced : ∀ v, Placed (bronze (source v)) (silver v))
    (hids : ∀ t, ((bronze t).map DataSnapshot.id).Nodup) (v : Exchange) :
    turn spark columns bronze silver answers stamps v = .nothing ∧
        (bronze (source v) = [] ∨ reachOf (bronze (source v)) (silver v) =
          (bronze (source v)).length) ∨
      ∃ stop frames, Reads bronze silver v stop frames ∧
        turn spark columns bronze silver answers stamps v = write spark columns v (answers v)
          (stamps v) stop.idText (silver v) frames := by
  unfold turn
  cases hstop : (bronze (source v)).current with
  | none => exact Or.inl ⟨rfl, Or.inl (List.getLast?_eq_none_iff.1 hstop)⟩
  | some stop =>
    have hplace := DataTable.place_current (hids _) hstop
    simp only [filter_srcSnapshotId (hplaced v)]
    split
    · rename_i hlevel
      exact Or.inl ⟨rfl, Or.inr (reachOf_of_srcSnapshotId hlevel hplace)⟩
    · rename_i hbehind
      right
      cases hstart : (silver v).srcSnapshotId with
      | none =>
        have hread := DataTable.readAt_eq hplace
        refine ⟨stop, _, ⟨hstop, hbehind, by rw [hstart]; exact hread⟩, ?_⟩
        rw [DataTable.readFrom, hread]
      | some text =>
        obtain ⟨m, hm⟩ := hplaced v text hstart
        have hlt : m < (bronze (source v)).length := by
          refine lt_of_le_of_ne (DataTable.place_le hm).2 fun heq => hbehind ?_
          rw [hstart]
          exact congrArg some (DataTable.idText_of_place hstop (heq ▸ hm))
        have hread := DataTable.readBetween_eq hm hplace hlt
        refine ⟨stop, _, ⟨hstop, hbehind, by rw [hstart]; exact hread⟩, ?_⟩
        rw [DataTable.readFrom, hread]

/-- What a turn reads: the bronze snapshots past the position. -/
theorem Reads.frames_eq {stop : DataSnapshot (BronzeRow J)} {frames : List (BronzeRow J)}
    (h : Reads bronze silver v stop frames) (hids : ∀ t, ((bronze t).map DataSnapshot.id).Nodup) :
    reachOf (bronze (source v)) (silver v) < (bronze (source v)).length ∧
      frames = DataTable.rows ((bronze (source v)).drop (reachOf (bronze (source v)) (silver v))) := by
  obtain ⟨n, hn, hlt, hframes⟩ := readFrom_eq h.read
  rw [DataTable.place_current (hids _) h.current] at hn
  cases hn
  refine ⟨hlt, ?_⟩
  rw [hframes, List.take_of_length_le (by rw [List.length_drop])]

theorem mem_venues_of_mem_stageCommits {c : Exchange × DataSnapshot SilverTrade}
    {venues : List Exchange}
    (h : c ∈ stageCommits spark columns bronze silver answers stamps venues) : c.1 ∈ venues := by
  induction venues with
  | nil => exact absurd h List.not_mem_nil
  | cons w venues ih =>
    unfold stageCommits at h
    split at h
    · exact absurd h List.not_mem_nil
    · exact List.mem_cons_of_mem _ (ih h)
    · rcases List.mem_cons.1 h with rfl | h
      · exact List.mem_cons_self
      · exact List.mem_cons_of_mem _ (ih h)

/-- The commits of a run to one table: the one of its venue's turn, if the run gets there. -/
theorem filter_stageCommits (v : Exchange) : ∀ {venues : List Exchange}, venues.Nodup →
    ((stageCommits spark columns bronze silver answers stamps venues).filter
        fun c => c.1 = v) = [] ∨
      ∃ s, turn spark columns bronze silver answers stamps v = .commit s ∧
        ((stageCommits spark columns bronze silver answers stamps venues).filter
          fun c => c.1 = v) = [(v, s)]
  | [], _ => Or.inl rfl
  | w :: venues, hnodup => by
    obtain ⟨hw, hrest⟩ := List.nodup_cons.1 hnodup
    unfold stageCommits
    split
    · exact Or.inl rfl
    · exact filter_stageCommits v hrest
    · rename_i s hs
      by_cases heq : w = v
      · subst heq
        have hnone : ((stageCommits spark columns bronze silver answers stamps venues).filter
            fun c => c.1 = w) = [] := by
          refine List.filter_eq_nil_iff.2 fun c hc hcw => hw ?_
          exact of_decide_eq_true hcw ▸ mem_venues_of_mem_stageCommits hc
        refine Or.inr ⟨s, hs, ?_⟩
        rw [List.filter_cons, if_pos (decide_eq_true rfl), hnone]
      · rw [List.filter_cons, if_neg (fun h => heq (of_decide_eq_true h))]
        exact filter_stageCommits v hrest

/-- **A run leaves a table as it was, or appends one commit to it.** -/
theorem applyCommits_cases (cut : Nat) (v : Exchange) :
    applyCommits silver ((stageCommits spark columns bronze silver answers stamps TRADES).take cut)
        v = silver v ∨
      ∃ s, turn spark columns bronze silver answers stamps v = .commit s ∧
        applyCommits silver ((stageCommits spark columns bronze silver answers stamps
          TRADES).take cut) v = silver v ++ [s] := by
  have hpre := (List.take_prefix cut (stageCommits spark columns bronze silver answers stamps
    TRADES)).filter fun c => decide (c.1 = v)
  rcases filter_stageCommits v (show TRADES.Nodup by decide) with hnil | ⟨s, hs, hfilter⟩
  · rw [hnil] at hpre
    left
    rw [applyCommits, List.prefix_nil.1 hpre]
    exact List.append_nil _
  · rw [hfilter] at hpre
    rcases List.prefix_cons_iff.1 hpre with hnil | ⟨rest, hcons, hrest⟩
    · left
      rw [applyCommits, hnil]
      exact List.append_nil _
    · right
      refine ⟨s, hs, ?_⟩
      rw [applyCommits, hcons, List.prefix_nil.1 hrest]
      rfl

end Turns

/-! ## Every state reached -/

section Reach

variable {spark : SparkText} {J : Type} {columns : TradeColumns J} {st st' : State J}

variable (spark columns) in
/-- What was to be typed of the snapshots up to the table's position is there, once each. -/
def Holds (st : State J) (v : Exchange) : Prop :=
  Copied SilverTrade.toTypedTrade (st.bronze (source v))
    ((st.typedWith v).map (typedTrades spark columns v)) (st.silver v)

/-- A table as it was created. -/
theorem holds_created {v : Exchange} (hsilver : st.silver v = []) (htyped : st.typedWith v = []) :
    Holds spark columns st v := by
  rw [Holds, hsilver, htyped]
  exact copied_nil _ _

theorem Holds.reach {v : Exchange} (h : Holds spark columns st v) :
    (st.typedWith v).length = st.reach v := by
  have hreach := Copied.reach h
  rwa [List.length_map] at hreach

/-- The bronze tables have distinct snapshots, and the positions are among them. -/
structure Sound (st : State J) : Prop where
  bronze : ∀ t, ((st.bronze t).map DataSnapshot.id).Nodup
  placed : ∀ v, Placed (st.bronze (source v)) (st.silver v)

theorem sound_start : Sound (State.start : State J) where
  bronze := fun _ => List.nodup_nil
  placed := fun _ => placed_nil _

/-! ### Maintenance -/

theorem srcSnapshotId_update {v : Exchange} {s : DataSnapshot SilverTrade}
    (hs : Snapshot.writtenBy JOB_DECODE ⟨s.committedAt, s.summary⟩ = false)
    (hvalid : DataTable.Valid (st.silver v ++ [s])) (w : Exchange) :
    (Function.update st.silver v (st.silver v ++ [s]) w).srcSnapshotId =
      (st.silver w).srcSnapshotId := by
  by_cases hw : w = v
  · subst hw
    rw [Function.update_self, srcSnapshotId_maintain hvalid hs]
  · rw [Function.update_of_ne hw]

theorem rows_update {v : Exchange} {s : DataSnapshot SilverTrade} (hs : s.rows = [])
    (w : Exchange) :
    (Function.update st.silver v (st.silver v ++ [s]) w).rows = (st.silver w).rows := by
  by_cases hw : w = v
  · subst hw
    rw [Function.update_self, DataTable.rows_append, DataTable.rows, DataTable.rows,
      List.flatMap_singleton, hs, List.append_nil]
  · rw [Function.update_of_ne hw]

/-! ### Runs -/

section Run

variable {answers : Exchange → Registry × Int} {stamps : Exchange → Nat × Int} {cut : Nat}

/-- **One table through a run**: it stays as it is, or the position goes to the newest bronze
    snapshot, and the trades of the frames in between are added. -/
theorem run_cases (hsound : Sound st) (v : Exchange)
    (hvalid : ((st.run spark columns answers stamps cut).silver v).Valid) :
    (st.run spark columns answers stamps cut).silver v = st.silver v ∨
      ∃ stop frames batch, Reads st.bronze st.silver v stop frames ∧
        batchOf spark columns v (answers v) frames = some batch ∧
        ((st.run spark columns answers stamps cut).silver v).srcSnapshotId = some stop.idText ∧
        ((st.run spark columns answers stamps cut).silver v).rows.map SilverTrade.toTypedTrade =
          (st.silver v).rows.map SilverTrade.toTypedTrade ++ batch := by
  have hsilver : (st.run spark columns answers stamps cut).silver v = applyCommits st.silver
    ((stageCommits spark columns st.bronze st.silver answers stamps TRADES).take cut) v := rfl
  rw [hsilver] at hvalid ⊢
  rcases applyCommits_cases cut v with hsame | ⟨s, hs, happend⟩
  · exact Or.inl hsame
  · rw [happend] at hvalid ⊢
    rcases turn_cases hsound.placed hsound.bronze v with ⟨hnothing, -⟩ | ⟨stop, frames, hreads, hwrite⟩
    · rw [hnothing] at hs
      cases hs
    · rw [hwrite] at hs
      obtain ⟨batch, hbatch, -, hsummary, hrows⟩ := write_commit hs
      refine Or.inr ⟨stop, frames, batch, hreads, hbatch, srcSnapshotId_commit hvalid hsummary, ?_⟩
      rw [DataTable.rows_append, DataTable.rows.eq_1 [_], List.flatMap_singleton, List.map_append,
        hrows]

theorem placed_run (hsound : Sound st)
    (hvalid : ∀ v, ((st.run spark columns answers stamps cut).silver v).Valid) :
    ∀ v, Placed (st.bronze (source v)) ((st.run spark columns answers stamps cut).silver v) := by
  intro v text htext
  rcases run_cases hsound v (hvalid v) with hsame | ⟨stop, frames, batch, hreads, -, hstart, -⟩
  · exact hsound.placed v text (hsame ▸ htext)
  · rw [hstart] at htext
    cases htext
    exact ⟨_, DataTable.place_current (hsound.bronze _) hreads.current⟩

theorem Holds.run (hsound : Sound st) {v : Exchange} (h : Holds spark columns st v)
    (hvalid : ((st.run spark columns answers stamps cut).silver v).Valid) :
    Holds spark columns (st.run spark columns answers stamps cut) v := by
  have hanswers : (st.run spark columns answers stamps cut).typedWith v =
      st.typedWith v ++ List.replicate (reachOf (st.bronze (source v))
        ((st.run spark columns answers stamps cut).silver v) - st.reach v) (answers v) := rfl
  have hmakings : Holds spark columns (st.run spark columns answers stamps cut) v ↔
      Copied SilverTrade.toTypedTrade (st.bronze (source v))
        ((st.typedWith v).map (typedTrades spark columns v) ++ List.replicate
          (reachOf (st.bronze (source v)) ((st.run spark columns answers stamps cut).silver v) -
            st.reach v) (typedTrades spark columns v (answers v)))
        ((st.run spark columns answers stamps cut).silver v) := by
    rw [Holds, hanswers, List.map_append, List.map_replicate]
    rfl
  rw [hmakings]
  rcases run_cases hsound v hvalid with hsame | ⟨stop, frames, batch, hreads, hbatch, hstart, hrows⟩
  · rw [hsame, State.reach, Nat.sub_self, List.replicate_zero, List.append_nil]
    exact h
  · have hreach := reachOf_of_srcSnapshotId hstart
      (DataTable.place_current (hsound.bronze _) hreads.current)
    obtain ⟨hlt, hframes⟩ := hreads.frames_eq hsound.bronze
    obtain ⟨hmade, hflat⟩ := typed_of_batchOf hbatch
    rw [hreach]
    refine Copied.advance h hlt.le hreach ?_ hmade ?_
    · rw [hframes, List.take_of_length_le (by rw [List.length_drop])]
    · rw [hrows, hflat]

end Run

/-! ### Every step -/

theorem sound_step (h : Sound st) (hstep : Step spark columns st st') : Sound st' := by
  cases hstep with
  | grow bronze hpre hvalid =>
    refine ⟨fun t => (hvalid t).ids, fun v => ?_⟩
    obtain ⟨later, hlater⟩ := hpre (source v)
    show Placed (bronze (source v)) (st.silver v)
    rw [← hlater]
    exact (h.placed v).later later
  | maintain v s _ hs hvalid =>
    exact ⟨h.bronze, fun w text htext =>
      h.placed w text ((srcSnapshotId_update hs hvalid w).symm.trans htext)⟩
  | run answers stamps cut hvalid => exact ⟨h.bronze, placed_run h hvalid⟩

theorem Holds.step (hsound : Sound st) {v : Exchange} (h : Holds spark columns st v)
    (hstep : Step spark columns st st') : Holds spark columns st' v := by
  cases hstep with
  | grow bronze hpre _ =>
    obtain ⟨later, hlater⟩ := hpre (source v)
    have hcopied := Copied.later h (hsound.placed v) later
    rwa [hlater] at hcopied
  | maintain w s hrows hs hvalid =>
    exact Copied.same h (srcSnapshotId_update hs hvalid v) (rows_update hrows v)
  | run answers stamps cut hvalid => exact h.run hsound (hvalid v)

theorem sound_steps (h : Sound st) (hsteps : ReflTransGen (Step spark columns) st st') :
    Sound st' := by
  induction hsteps with
  | refl => exact h
  | tail _ hstep ih => exact sound_step ih hstep

theorem Holds.steps (hsound : Sound st) {v : Exchange} (h : Holds spark columns st v)
    (hsteps : ReflTransGen (Step spark columns) st st') : Holds spark columns st' v := by
  induction hsteps with
  | refl => exact h
  | tail hsteps hstep ih => exact ih.step (sound_steps hsound hsteps) hstep

/-- **Silver types each trade once.**  In every state reached, a silver table has the trades of the
    frames that its bronze table had at the recorded snapshot, each once, as they were typed by the
    run that read them, and no frame among these was passed over because it could not be typed. -/
theorem silver_typed_once (h : Reached spark columns st) (v : Exchange) :
    ((st.silver v).rows.map SilverTrade.toTypedTrade).Perm
        (expected spark columns (st.bronze (source v)) (st.typedWith v) v) ∧
      (∀ p ∈ (st.bronze (source v)).zip (st.typedWith v), ∀ row ∈ p.1.rows,
        (typedTrades spark columns v p.2 row).isSome) ∧
      (st.typedWith v).length = st.reach v ∧
      ∀ text, (st.silver v).srcSnapshotId = some text →
        (st.bronze (source v)).place text = some (st.reach v) := by
  have hsound := sound_steps sound_start h
  have hholds : Holds spark columns st v := (holds_created rfl rfl).steps sound_start h
  refine ⟨hholds.rows, fun p hp => ?_, hholds.reach, fun text htext =>
    place_srcSnapshotId (hsound.placed v) htext⟩
  have hmem : (p.1, typedTrades spark columns v p.2) ∈ (st.bronze (source v)).zip
      ((st.typedWith v).map (typedTrades spark columns v)) := by
    rw [List.zip_map_right]
    exact List.mem_map.2 ⟨p, hp, rfl⟩
  exact hholds.made _ hmem

/-! ### A frame that cannot be typed -/

/-- A frame that no registry types is among those that the table has not read. -/
def Wedged (spark : SparkText) (columns : TradeColumns J) (st : State J) (v : Exchange) : Prop :=
  ∃ row ∈ DataTable.rows ((st.bronze (source v)).drop (st.reach v)),
    ¬ Typable spark columns v row

/-- The run ends at the turn of a wedged table. -/
theorem turn_of_wedged (hsound : Sound st) {v : Exchange} (h : Wedged spark columns st v)
    (answers : Exchange → Registry × Int) (stamps : Exchange → Nat × Int) :
    turn spark columns st.bronze st.silver answers stamps v = .raised := by
  obtain ⟨row, hrow, hnot⟩ := h
  rcases turn_cases hsound.placed hsound.bronze v with
    ⟨-, hnil | hlevel⟩ | ⟨stop, frames, hreads, hwrite⟩
  · rw [hnil, List.drop_nil] at hrow
    exact absurd hrow List.not_mem_nil
  · rw [State.reach, hlevel, List.drop_length] at hrow
    exact absurd hrow List.not_mem_nil
  · have hframes := (hreads.frames_eq hsound.bronze).2
    rw [hwrite, write_raised_iff]
    refine ⟨row, hframes ▸ hrow, Option.not_isSome_iff_eq_none.1 fun hsome => hnot ?_⟩
    exact typable_iff.2 ⟨_, hsome⟩

/-- So it makes no commit for that venue, nor for those after it. -/
theorem no_commit_of_raised {bronze : VenueTable → BronzeTable J} {silver : Recorded.Silver}
    {answers : Exchange → Registry × Int} {stamps : Exchange → Nat × Int} {v w : Exchange}
    (hraised : turn spark columns bronze silver answers stamps v = .raised) :
    ∀ {venues : List Exchange}, venues.idxOf v ≤ venues.idxOf w → v ∈ venues →
      ∀ c ∈ stageCommits spark columns bronze silver answers stamps venues, c.1 ≠ w
  | [], _, hv => absurd hv List.not_mem_nil
  | u :: venues, hle, hv => by
    by_cases huv : u = v
    · subst huv
      intro c hc
      rw [stageCommits, hraised] at hc
      exact absurd hc List.not_mem_nil
    · have huw : u ≠ w := by
        rintro rfl
        rw [List.idxOf_cons_self, List.idxOf_cons_ne _ huv] at hle
        exact absurd hle (Nat.not_succ_le_zero _)
      have hrest : venues.idxOf v ≤ venues.idxOf w := by
        rw [List.idxOf_cons_ne _ huv, List.idxOf_cons_ne _ huw] at hle
        exact Nat.le_of_succ_le_succ hle
      have hmem : v ∈ venues := (List.mem_cons.1 hv).resolve_left (Ne.symm huv)
      have hlater := no_commit_of_raised hraised hrest hmem
      intro c hc
      unfold stageCommits at hc
      split at hc
      · exact absurd hc List.not_mem_nil
      · exact hlater c hc
      · rcases List.mem_cons.1 hc with rfl | hc
        · exact huw
        · exact hlater c hc

/-- One step leaves a wedged table wedged, and the tables from it on with what they have. -/
theorem wedged_step (hsound : Sound st) {v : Exchange} (h : Wedged spark columns st v)
    (hstep : Step spark columns st st') :
    Wedged spark columns st' v ∧ ∀ w, TRADES.idxOf v ≤ TRADES.idxOf w →
      (st'.silver w).srcSnapshotId = (st.silver w).srcSnapshotId ∧
        (st'.silver w).rows = (st.silver w).rows := by
  cases hstep with
  | grow bronze hpre _ =>
    refine ⟨?_, fun w _ => ⟨rfl, rfl⟩⟩
    obtain ⟨row, hrow, hnot⟩ := h
    obtain ⟨later, hlater⟩ := hpre (source v)
    refine ⟨row, ?_, hnot⟩
    show row ∈ DataTable.rows ((bronze (source v)).drop (reachOf (bronze (source v)) (st.silver v)))
    rw [← hlater, reachOf_later (hsound.placed v),
      List.drop_append_of_le_length (reachOf_le _ _), DataTable.rows_append]
    exact List.mem_append_left _ hrow
  | maintain u s hrows hs hvalid =>
    have hstart := srcSnapshotId_update hs hvalid
    refine ⟨?_, fun w _ => ⟨hstart w, rows_update hrows w⟩⟩
    obtain ⟨row, hrow, hnot⟩ := h
    refine ⟨row, ?_, hnot⟩
    rw [State.reach, reachOf, hstart v]
    exact hrow
  | run answers stamps cut hvalid =>
    have hraised := turn_of_wedged hsound h answers stamps
    have hsame : ∀ w, TRADES.idxOf v ≤ TRADES.idxOf w →
        (st.run spark columns answers stamps cut).silver w = st.silver w := by
      intro w hw
      have hnone : (((stageCommits spark columns st.bronze st.silver answers stamps TRADES).take
          cut).filter fun c => c.1 = w) = [] := by
        refine List.filter_eq_nil_iff.2 fun c hc hcw => ?_
        exact no_commit_of_raised hraised hw (mem_TRADES v) c (List.mem_of_mem_take hc)
          (of_decide_eq_true hcw)
      show applyCommits st.silver _ w = st.silver w
      rw [applyCommits, hnone]
      exact List.append_nil _
    refine ⟨?_, fun w hw => by rw [hsame w hw]; exact ⟨rfl, rfl⟩⟩
    obtain ⟨row, hrow, hnot⟩ := h
    refine ⟨row, ?_, hnot⟩
    rw [State.reach, hsame v le_rfl]
    exact hrow

/-- **A frame that cannot be typed stops silver.**  Once a frame with an incomplete trade, which has
    a NULL for a column that is NOT NULL, is in the unread part of a bronze table, its silver table
    and those after it in the order of the turns keep the position and the rows they have, whatever
    runs, registries and frames come later. -/
theorem wedged_forever (h : Reached spark columns st) {v : Exchange}
    (hwedged : Wedged spark columns st v) (hsteps : ReflTransGen (Step spark columns) st st')
    {w : Exchange} (hw : TRADES.idxOf v ≤ TRADES.idxOf w) :
    (st'.silver w).srcSnapshotId = (st.silver w).srcSnapshotId ∧
      (st'.silver w).rows = (st.silver w).rows := by
  have hsound := sound_steps sound_start h
  have hall : Wedged spark columns st' v ∧ ∀ w, TRADES.idxOf v ≤ TRADES.idxOf w →
      (st'.silver w).srcSnapshotId = (st.silver w).srcSnapshotId ∧
        (st'.silver w).rows = (st.silver w).rows := by
    induction hsteps with
    | refl => exact ⟨hwedged, fun w _ => ⟨rfl, rfl⟩⟩
    | tail hsteps hstep ih =>
      obtain ⟨hstill, hsame⟩ := wedged_step (sound_steps hsound hsteps) ih.1 hstep
      refine ⟨hstill, fun w hw => ?_⟩
      exact ⟨(hsame w hw).1.trans (ih.2 w hw).1, (hsame w hw).2.trans (ih.2 w hw).2⟩
  exact hall.2 w hw

end Reach

/-! ## Runs -/

/-- A frame of no Coinbase trade. -/
def noTrades : MarketTradesData := ⟨none, by decide⟩

/-- A Kraken frame with one trade, and a Binance frame whose `data` could not be read. -/
def frameColumns : TradeColumns Unit where
  binance := fun _ => none
  kraken := fun _ => some [some ⟨some "BTC/USD", some "buy", some 600000000000000,
    some 10000000000, some 7, some "2026-08-26T16:00:00Z"⟩]
  coinbase := fun _ => noTrades

def frameText : SparkText := ⟨fun _ => some 1000000, fun text => text⟩

def frameAt (topic : String) : BronzeRow Unit where
  j := ()
  symbol := none
  recvTsNs := 1000000000
  recvTs := 1000000
  connId := "k-1"
  connMsgSeq := 1
  srcTopic := topic
  srcPartition := 0
  srcOffset := 5
  ingestTs := 2000000

/-- One snapshot with a frame in each of these tables. -/
def oneFrameIn (tables : List VenueTable) (t : VenueTable) : BronzeTable Unit :=
  if t ∈ tables then [⟨91, 10, Dict.empty, [frameAt "market.crypto.v3.raw"]⟩] else []

theorem valid_oneFrameIn (tables : List VenueTable) (t : VenueTable) :
    (oneFrameIn tables t).Valid := by
  refine DataTable.Valid.of_length_le_one ?_
  unfold oneFrameIn
  split
  · exact le_rfl
  · exact Nat.zero_le 1

/-- Before the run, and after it. -/
def framed (tables : List VenueTable) : State Unit :=
  { (State.start : State Unit) with bronze := oneFrameIn tables }

def staged (tables : List VenueTable) : State Unit :=
  (framed tables).run frameText frameColumns (fun _ => (listing .kraken ["BTC/USD"], 3000000))
    (fun _ => (92, 20)) 3

theorem framed_reached (tables : List VenueTable) :
    Reached frameText frameColumns (framed tables) :=
  ReflTransGen.single (Step.grow (oneFrameIn tables) (fun _ => List.nil_prefix)
    (valid_oneFrameIn tables))

theorem staged_step {tables : List VenueTable}
    (h : ∀ v ∈ TRADES, ((staged tables).silver v).length ≤ 1) :
    Step frameText frameColumns (framed tables) (staged tables) := by
  exact Step.run _ _ 3 fun v => DataTable.Valid.of_length_le_one (h v (mem_TRADES v))

theorem kraken_trade_typed :
    ((staged [.krakenTrade]).silver .kraken).rows.length = 1 ∧
      (((staged [.krakenTrade]).silver .kraken).rows.map SilverTrade.toTypedTrade).Perm
        (expected frameText frameColumns (oneFrameIn [.krakenTrade] .krakenTrade)
          ((staged [.krakenTrade]).typedWith .kraken) .kraken) := by
  have hreached : Reached frameText frameColumns (staged [.krakenTrade]) :=
    (framed_reached _).tail (staged_step (by decide +kernel))
  exact ⟨by decide +kernel, (silver_typed_once hreached .kraken).1⟩

/-- The Binance frame keeps the Kraken trade out. -/
theorem kraken_trade_kept_out :
    Typable frameText frameColumns .kraken (frameAt "market.crypto.v3.raw") ∧
      ((staged [.binanceTrade, .krakenTrade]).silver .kraken).rows = [] := by
  have hwedged : Wedged frameText frameColumns (framed [.binanceTrade, .krakenTrade]) .binance := by
    refine ⟨frameAt "market.crypto.v3.raw", List.mem_cons_self, ?_⟩
    rintro ⟨rows, hrows, hcomplete⟩
    cases hrows
    obtain ⟨hsymbol, -⟩ := hcomplete _ List.mem_cons_self
    cases hsymbol
  have hstep : Step frameText frameColumns (framed [.binanceTrade, .krakenTrade])
      (staged [.binanceTrade, .krakenTrade]) := staged_step (by decide +kernel)
  refine ⟨⟨_, rfl, ?_⟩, (wedged_forever (framed_reached _) hwedged (ReflTransGen.single hstep)
    (by decide)).2⟩
  intro p hp
  rw [List.mem_singleton.1 hp]
  exact ⟨rfl, rfl, rfl, rfl, rfl, rfl, rfl, rfl⟩

end K2.Lake.SilverTrades

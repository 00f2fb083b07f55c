import K2Platform.Lake.TradePipeline

/-!
# A silver table rebuilt under gold

Model of `stage_trades` and `rebuild` of `gold.py` and of `audit_gold_trades` of `maintenance.py`
over silver tables that `rebuild.py --layer silver` drops and makes again.  The position that
`gold.trades` records is a snapshot of the table that was dropped, the new table has none of that
id, and a read from there raises.  Maintenance is its compaction; that it expires the snapshots of
silver, also the one that gold records, is left out.

* `turn_of_read`, `turn_of_orphaned` — what a venue's turn does, with its silver table as it was and
  with one that was made again.
* `follows_step` — gold has of a venue what one silver table had, and never parts of two.
* `gold_parity_exact` — the audit counts no difference in any history, and raises exactly where a
  silver table was made again under gold.
* `orphaned_rebuildSilver`, `orphaned_until_rebuilt` — a silver table made again under gold is
  orphaned, and nothing but a rebuild of gold gets it to read that venue again.
-/

set_option autoImplicit false

namespace K2.Lake.RebuildOrder

open Recorded Relation
open Bronze (Registry)
open SilverTrades (SparkText TradeColumns)

/-! ## The audit -/

/-- `previous.get(f"{O.SRC_SNAPSHOT_ID}.{spec.exchange}")`. -/
def srcSnapshotId (gold : DataTable GoldTrade) (v : Exchange) : Option String :=
  ((latestSummary gold.history JOB_DECODE).bind fun s => s.get? (positionKey v)).bind fun p =>
    match p with
    | .text s => some s
    | _ => none

section Audit

variable (silver : Silver) (gold : DataTable GoldTrade)

/-- One venue of the loop; `none` where the recorded snapshot cannot be read. -/
def auditVenue (v : Exchange) : Option CheckResult :=
  let scope := "lake.gold.trades/" ++ v.name
  match srcSnapshotId gold v with
  | none => some ⟨"gold_parity", scope, true, 0, "gold has not read this venue yet"⟩
  | some src =>
    ((silver v).readAt src).map fun deliveries : List SilverTrade =>
      let expected := (deliveries.filter fun r => !r.venueReplay).length
      let actual := (gold.rows.filter fun r => r.exchange = v).length
      { check := "gold_parity"
        scope := scope
        passed := decide (expected = actual)
        observed := (actual : Int) - (expected : Int)
        detail :=
          if expected = actual then
            toString actual ++ " gold rows for " ++ toString expected ++ " first deliveries in " ++
              SilverTrades.tableOf v ++ " @ " ++ src
          else
            toString actual ++ " gold rows but " ++ SilverTrades.tableOf v ++ " @ " ++ src ++
              " has " ++ toString expected ++ " first deliveries" }

/-- `audit_gold_trades`: one venue that cannot be read raises for all of them. -/
def auditGoldTrades : Option (List CheckResult) := TRADES.mapM (auditVenue silver gold)

/-- The rows of `run_audits` for one check; `exc` is the exception of one that raises. -/
def runCheck (name scope exc : String) : Option (List CheckResult) → List CheckResult
  | some results => results
  | none => [⟨name, scope, false, -1, "check raised " ++ exc⟩]

/-- What the run of the audits files of this check. -/
def filed (exc : String) : List CheckResult :=
  runCheck "gold_parity" "lake.gold.trades" exc (auditGoldTrades silver gold)

end Audit

/-! ## Runs -/

/-- The trade tables of silver and gold. -/
structure State (J : Type) where
  typing : SilverTrades.State J
  gold : DataTable GoldTrade
  /-- Of each venue, the snapshots of the silver tables that were dropped. -/
  dropped : Exchange → List (DataSnapshot SilverTrade)

/-- No id is given again. -/
def Unused (dropped : Exchange → List (DataSnapshot SilverTrade)) (silver : Silver) : Prop :=
  ∀ v, ∀ s ∈ dropped v, ∀ s' ∈ silver v, s.id ≠ s'.id

namespace State

variable {J : Type}

def start : State J := ⟨SilverTrades.State.start, [], fun _ => []⟩

/-- `rebuild.py --layer silver`, killed after `cut` commits. -/
def rebuildSilver (spark : SparkText) (columns : TradeColumns J)
    (answers : Exchange → Registry × Int) (stamps : Int → Exchange → Nat × Int)
    (exchanges : List Exchange) (cut : Nat) (st : State J) : State J :=
  { st with
    typing := st.typing.rebuild spark columns answers stamps exchanges cut
    dropped := fun v =>
      if v ∈ exchanges then st.dropped v ++ st.typing.silver v else st.dropped v }

/-- `stage_trades`, killed before the venue number `cut`. -/
def stageGold (runTs : Int) (stamps : Exchange → Nat × Int) (cut : Nat) (st : State J) : State J :=
  { st with gold := Recorded.stageTrades st.typing.silver runTs stamps (TRADES.take cut) st.gold }

/-- The trades of `rebuild.py --layer gold`: `stage_trades` into a table that was just created. -/
def rebuildGold (runTs : Int) (stamps : Exchange → Nat × Int) (cut : Nat) (st : State J) :
    State J :=
  { st with gold := Recorded.stageTrades st.typing.silver runTs stamps (TRADES.take cut) [] }

end State

section Steps

variable (spark : SparkText) {J : Type} (columns : TradeColumns J)

/-- What the ticks do, and the compaction of `gold.trades`. -/
inductive Tick : State J → State J → Prop
  | silver {st : State J} {next : SilverTrades.State J} :
      SilverTrades.Step spark columns st.typing next → Unused st.dropped next.silver →
      Tick st { st with typing := next }
  | maintain {st : State J} (s : DataSnapshot GoldTrade) : s.rows = [] →
      Snapshot.writtenBy JOB_DECODE ⟨s.committedAt, s.summary⟩ = false →
      DataTable.Valid (st.gold ++ [s]) → Tick st { st with gold := st.gold ++ [s] }
  | run {st : State J} (runTs : Int) (stamps : Exchange → Nat × Int) (cut : Nat) :
      (st.stageGold runTs stamps cut).gold.Valid → Tick st (st.stageGold runTs stamps cut)

/-- The steps that leave gold standing: ticks, and silver made again. -/
inductive Kept : State J → State J → Prop
  | tick {st st' : State J} : Tick spark columns st st' → Kept st st'
  | rebuildSilver {st : State J} (answers : Exchange → Registry × Int)
      (stamps : Int → Exchange → Nat × Int) (exchanges : List Exchange) (cut : Nat) :
      (∀ v, ((st.rebuildSilver spark columns answers stamps exchanges cut).typing.silver v).Valid) →
      Unused (st.rebuildSilver spark columns answers stamps exchanges cut).dropped
        (st.rebuildSilver spark columns answers stamps exchanges cut).typing.silver →
      Kept st (st.rebuildSilver spark columns answers stamps exchanges cut)

inductive Step : State J → State J → Prop
  | kept {st st' : State J} : Kept spark columns st st' → Step st st'
  | rebuildGold {st : State J} (runTs : Int) (stamps : Exchange → Nat × Int) (cut : Nat) :
      (st.rebuildGold runTs stamps cut).gold.Valid → Step st (st.rebuildGold runTs stamps cut)

def Reached (st : State J) : Prop := ReflTransGen (Step spark columns) State.start st

end Steps

/-- The snapshot that gold records for the venue is not one of its silver table. -/
def Orphaned {J : Type} (st : State J) (v : Exchange) : Prop :=
  ∃ text, srcSnapshotId st.gold v = some text ∧ (st.typing.silver v).place text = none

/-! ## One venue's turn -/

/-- Gold has of the venue the first deliveries in this silver table, and records its head. -/
structure HasRead (table : DataTable SilverTrade) (gold : DataTable GoldTrade) (v : Exchange) :
    Prop where
  rows : (gold.rows.filter fun r => r.exchange = v).map GoldTrade.timeless =
    projectSilver v 0 table.rows
  position : srcSnapshotId gold v = table.current.map DataSnapshot.idText

section Turns

variable {silver : Silver} {gold : DataTable GoldTrade} {table : DataTable SilverTrade}
  {s : DataSnapshot GoldTrade} {runTs : Int} {stamps : Exchange → Nat × Int} {v w : Exchange}

theorem hasRead_nil (v : Exchange) : HasRead [] [] v := ⟨rfl, rfl⟩

theorem recorded_eq (gold : DataTable GoldTrade) (v : Exchange) :
    recorded gold v = (srcSnapshotId gold v).filter fun s => s ≠ "" := by
  rw [Recorded.recorded, srcSnapshotId]
  cases (latestSummary gold.history JOB_DECODE).bind fun s => s.get? (positionKey v) with
  | none => rfl
  | some p =>
    rw [Option.bind_some, Option.bind_some]
    cases p with
    | text s => by_cases hs : s = "" <;> simp [textOf, Option.filter, hs]
    | _ => rfl

/-- `str(end)` is not empty, so the run finds what was recorded. -/
theorem HasRead.recorded (h : HasRead table gold v) :
    recorded gold v = table.current.map DataSnapshot.idText := by
  rw [recorded_eq, h.position]
  cases table.current with
  | none => rfl
  | some s =>
    have hne : s.idText ≠ "" := Nat.repr_ne_empty
    simp [Option.filter, hne]

theorem turn_eq_readFrom {stop : DataSnapshot SilverTrade} (hstop : (silver v).current = some stop)
    (hlevel : Recorded.recorded gold v ≠ some stop.idText) :
    turn silver runTs stamps gold v =
      match (silver v).readFrom (Recorded.recorded gold v) stop.idText with
      | none => .raised
      | some rows => .commit {
          id := (stamps v).1
          committedAt := (stamps v).2
          summary := commitSummary (latestSummary gold.history JOB_DECODE) v stop.idText
          rows := projectSilver v runTs rows } := by
  rw [turn, hstop]
  exact if_neg hlevel

theorem turn_eq_commit (h : turn silver runTs stamps gold v = .commit s) :
    ∃ stop rows, (silver v).current = some stop ∧ s.rows = projectSilver v runTs rows ∧
      s.summary = commitSummary (latestSummary gold.history JOB_DECODE) v stop.idText := by
  unfold turn at h
  split at h
  · cases h
  · rename_i stop hstop
    split at h
    · cases h
    · simp only at h
      split at h
      · cases h
      · rename_i rows _
        cases h
        exact ⟨stop, rows, hstop, rfl, rfl⟩

theorem srcSnapshotId_commit (hvalid : DataTable.Valid (gold ++ [s]))
    {stop : DataSnapshot SilverTrade}
    (hs : s.summary = commitSummary (latestSummary gold.history JOB_DECODE) v stop.idText)
    (w : Exchange) :
    srcSnapshotId (gold ++ [s]) w = if w = v then some stop.idText else srcSnapshotId gold w := by
  have hwritten : Snapshot.writtenBy JOB_DECODE ⟨s.committedAt, s.summary⟩ = true := by
    rw [hs]
    exact writtenBy_commitSummary _ v _ _
  rw [srcSnapshotId, DataTable.latestSummary_history_concat hvalid, if_pos hwritten,
    Option.bind_some, hs, get?_commitSummary]
  by_cases hw : w = v
  · rw [if_pos hw, if_pos hw, Option.bind_some]
  · rw [if_neg hw, if_neg hw, srcSnapshotId]

theorem rows_commit {rows : List SilverTrade} (hrows : s.rows = projectSilver v runTs rows)
    (w : Exchange) :
    ((DataTable.rows (gold ++ [s])).filter fun r => r.exchange = w) =
      (gold.rows.filter fun r => r.exchange = w) ++
        if v = w then projectSilver v runTs rows else [] := by
  rw [DataTable.rows_append, DataTable.rows.eq_1 [s], List.flatMap_singleton, hrows,
    List.filter_append, filter_projectSilver]

/-- Gold has the rows of the venue that it had, and records what it did. -/
structure Untouched (gold gold' : DataTable GoldTrade) (w : Exchange) : Prop where
  rows : (gold'.rows.filter fun r => r.exchange = w) = gold.rows.filter fun r => r.exchange = w
  position : srcSnapshotId gold' w = srcSnapshotId gold w

theorem Untouched.refl (gold : DataTable GoldTrade) (w : Exchange) : Untouched gold gold w :=
  ⟨rfl, rfl⟩

theorem Untouched.trans {gold' gold'' : DataTable GoldTrade} (h : Untouched gold gold' w)
    (h' : Untouched gold' gold'' w) : Untouched gold gold'' w :=
  ⟨h'.rows.trans h.rows, h'.position.trans h.position⟩

theorem HasRead.of_untouched {gold' : DataTable GoldTrade} (h : HasRead table gold w)
    (hsame : Untouched gold gold' w) : HasRead table gold' w :=
  ⟨by rw [hsame.rows, h.rows], hsame.position.trans h.position⟩

/-- The commit for one venue leaves what gold has of the others. -/
theorem untouched_commit (hw : w ≠ v) (hturn : turn silver runTs stamps gold v = .commit s)
    (hvalid : DataTable.Valid (gold ++ [s])) : Untouched gold (gold ++ [s]) w := by
  obtain ⟨stop, rows, -, hrows, hs⟩ := turn_eq_commit hturn
  constructor
  · rw [rows_commit hrows, if_neg (Ne.symm hw), List.append_nil]
  · rw [srcSnapshotId_commit hvalid hs, if_neg hw]

theorem untouched_maintain (hrows : s.rows = [])
    (hs : Snapshot.writtenBy JOB_DECODE ⟨s.committedAt, s.summary⟩ = false)
    (hvalid : DataTable.Valid (gold ++ [s])) (w : Exchange) : Untouched gold (gold ++ [s]) w := by
  constructor
  · rw [DataTable.rows_append, DataTable.rows.eq_1 [s], List.flatMap_singleton, hrows,
      List.append_nil]
  · rw [srcSnapshotId, DataTable.latestSummary_history_concat hvalid,
      if_neg (by rw [hs]; exact Bool.false_ne_true), srcSnapshotId]

variable (runTs stamps) in
/-- **A turn over the table that gold has read.**  It takes what the table has more, and nothing
    when it has nothing more. -/
theorem turn_of_read (hids : ((silver v).map DataSnapshot.id).Nodup) (h : HasRead table gold v)
    (hthere : table <+: silver v) :
    (turn silver runTs stamps gold v = .level ∧ HasRead (silver v) gold v) ∨
      ∃ s, turn silver runTs stamps gold v = .commit s ∧
        (DataTable.Valid (gold ++ [s]) → HasRead (silver v) (gold ++ [s]) v) := by
  obtain ⟨more, hmore⟩ := hthere
  have hnodup : ((silver v).map DataSnapshot.id).Nodup → (table.map DataSnapshot.id).Nodup := by
    rw [← hmore, List.map_append]
    exact fun hall => (List.nodup_append.1 hall).1
  cases hstop : (silver v).current with
  | none =>
    have hnil : silver v = [] := List.getLast?_eq_none_iff.1 hstop
    have htable : table = silver v := by
      rw [hnil] at hmore ⊢
      exact (List.append_eq_nil_iff.1 hmore).1
    exact Or.inl ⟨by rw [turn, hstop], htable ▸ h⟩
  | some stop =>
    have hplace := DataTable.place_current hids hstop
    have htake : (silver v).take table.length = table := by
      rw [← hmore, List.take_left]
    by_cases hlevel : Recorded.recorded gold v = some stop.idText
    · -- the head of the table that was read is the head of this one
      refine Or.inl ⟨by rw [turn, hstop]; exact if_pos hlevel, ?_⟩
      rw [h.recorded] at hlevel
      obtain ⟨last, hlast, htext⟩ := Option.map_eq_some_iff.1 hlevel
      have hlength := DataTable.place_append (DataTable.place_current (hnodup hids) hlast) more
      rw [hmore, htext, hplace, Option.some.injEq] at hlength
      rwa [← htake, ← hlength, List.take_length] at h
    · have hread : (silver v).readFrom (Recorded.recorded gold v) stop.idText =
          some (DataTable.rows more) := by
        rw [h.recorded] at hlevel ⊢
        cases hlast : table.current with
        | none =>
          have hnil : table = [] := List.getLast?_eq_none_iff.1 hlast
          rw [hnil, List.nil_append] at hmore
          rw [Option.map_none, hmore]
          exact (DataTable.readAt_eq hplace).trans (by rw [List.take_length])
        | some last =>
          rw [hlast, Option.map_some] at hlevel
          have hstart : (silver v).place last.idText = some table.length := by
            rw [← hmore]
            exact DataTable.place_append (DataTable.place_current (hnodup hids) hlast) more
          have hlt : table.length < (silver v).length := by
            refine lt_of_le_of_ne (DataTable.place_le hstart).2 fun heq => hlevel ?_
            rw [heq] at hstart
            exact congrArg some (DataTable.idText_of_place hstop hstart)
          rw [Option.map_some]
          refine (DataTable.readBetween_eq hstart hplace hlt).trans ?_
          rw [List.take_length, ← hmore, List.drop_left]
      refine Or.inr ⟨_, (turn_eq_readFrom hstop hlevel).trans (by rw [hread]), fun hvalid => ?_⟩
      constructor
      · rw [rows_commit rfl, if_pos rfl, List.map_append, timeless_projectSilver, h.rows,
          ← projectSilver_append, ← DataTable.rows_append, hmore]
      · rw [srcSnapshotId_commit hvalid rfl, if_pos rfl, hstop, Option.map_some]

/-- The table that gold has read was dropped, and there is none of its snapshots in this one. -/
structure MadeAgain (table silver : DataTable SilverTrade) : Prop where
  read : table ≠ []
  place : ∀ s, table.current = some s → silver.place s.idText = none

variable (runTs stamps) in
/-- **A turn over a table that was made again** cannot read it, once there is something in it. -/
theorem turn_of_orphaned (h : HasRead table gold v) (hagain : MadeAgain table (silver v)) :
    turn silver runTs stamps gold v = if silver v = [] then .level else .raised := by
  obtain ⟨last, hlast⟩ : ∃ last, table.current = some last := by
    cases hlast : table.current with
    | none => exact absurd (List.getLast?_eq_none_iff.1 hlast) hagain.read
    | some last => exact ⟨last, rfl⟩
  have hrecorded := h.recorded
  rw [hlast, Option.map_some] at hrecorded
  have hplace := hagain.place last hlast
  cases hstop : (silver v).current with
  | none =>
    rw [turn, hstop, if_pos (List.getLast?_eq_none_iff.1 hstop)]
  | some stop =>
    have hsome : silver v ≠ [] := by
      intro hnil
      rw [hnil] at hstop
      cases hstop
    have hlevel : Recorded.recorded gold v ≠ some stop.idText := by
      rw [hrecorded]
      intro htext
      rw [Option.some.inj htext] at hplace
      obtain ⟨u, hu⟩ := List.getLast?_eq_some_iff.1 hstop
      rw [hu, DataTable.place, Option.map_eq_none_iff, List.findIdx?_eq_none_iff] at hplace
      exact absurd (hplace stop (by simp)) (by simp)
    have hread : (silver v).readFrom (some last.idText) stop.idText = none := by
      rw [DataTable.readFrom, DataTable.readBetween, hplace, Option.bind_none]
    rw [turn_eq_readFrom hstop hlevel, hrecorded, hread, if_neg hsome]

end Turns

/-! ## The turns of a run -/

section Runs

variable {silver : Silver} {runTs : Int} {stamps : Exchange → Nat × Int}

/-- A run leaves what gold has read of a venue, or has it read all of the table it was reading. -/
theorem hasRead_stageTrades (hids : ∀ v, ((silver v).map DataSnapshot.id).Nodup) {w : Exchange}
    (venues : List Exchange) : ∀ {gold : DataTable GoldTrade} {table : DataTable SilverTrade},
      HasRead table gold w → (table <+: silver w ∨ MadeAgain table (silver w)) →
      (Recorded.stageTrades silver runTs stamps venues gold).Valid →
        HasRead table (Recorded.stageTrades silver runTs stamps venues gold) w ∨
          HasRead (silver w) (Recorded.stageTrades silver runTs stamps venues gold) w := by
  induction venues with
  | nil => exact fun h _ _ => Or.inl h
  | cons v venues ih =>
    intro gold table h hwhence hvalid
    cases hturn : turn silver runTs stamps gold v with
    | level =>
      rw [Recorded.stageTrades, hturn] at hvalid ⊢
      exact ih h hwhence hvalid
    | raised =>
      rw [Recorded.stageTrades, hturn]
      exact Or.inl h
    | commit s =>
      rw [Recorded.stageTrades, hturn] at hvalid ⊢
      have hnext := hvalid.initial (prefix_stageTrades venues _)
      by_cases hw : w = v
      · subst hw
        rcases hwhence with hthere | hagain
        · rcases turn_of_read runTs stamps (hids w) h hthere with ⟨hlevel, -⟩ | ⟨s', hs', hread⟩
          · rw [hturn] at hlevel
            cases hlevel
          · rw [hturn] at hs'
            cases hs'
            exact Or.inr ((ih (hread hnext) (Or.inl List.prefix_rfl) hvalid).elim id id)
        · rw [turn_of_orphaned runTs stamps h hagain] at hturn
          split at hturn <;> cases hturn
      · exact ih (h.of_untouched (untouched_commit hw hturn hnext)) hwhence hvalid

/-- Over tables that are all as gold has read them, a run reads every one of its venues. -/
theorem level_stageTrades (hids : ∀ v, ((silver v).map DataSnapshot.id).Nodup)
    (venues : List Exchange) : ∀ {gold : DataTable GoldTrade},
      (∀ v, ∃ table, HasRead table gold v ∧ table <+: silver v) →
      (Recorded.stageTrades silver runTs stamps venues gold).Valid →
        ∀ w ∈ venues,
          HasRead (silver w) (Recorded.stageTrades silver runTs stamps venues gold) w := by
  induction venues with
  | nil => exact fun _ _ w hw => absurd hw List.not_mem_nil
  | cons v venues ih =>
    intro gold hall hvalid
    obtain ⟨table, h, hthere⟩ := hall v
    rcases turn_of_read runTs stamps (hids v) h hthere with ⟨hturn, hlevel⟩ | ⟨s, hturn, hread⟩
    · rw [Recorded.stageTrades, hturn] at hvalid ⊢
      intro w hw
      rcases List.mem_cons.1 hw with rfl | hw
      · exact (hasRead_stageTrades hids venues hlevel (Or.inl List.prefix_rfl) hvalid).elim id id
      · exact ih hall hvalid w hw
    · rw [Recorded.stageTrades, hturn] at hvalid ⊢
      have hnext := hvalid.initial (prefix_stageTrades venues _)
      have hallnext : ∀ u, ∃ table, HasRead table (gold ++ [s]) u ∧ table <+: silver u := by
        intro u
        by_cases hu : u = v
        · exact ⟨silver u, hu ▸ hread hnext, List.prefix_rfl⟩
        · obtain ⟨table', h', hthere'⟩ := hall u
          exact ⟨table', h'.of_untouched (untouched_commit hu hturn hnext), hthere'⟩
      intro w hw
      rcases List.mem_cons.1 hw with rfl | hw
      · exact (hasRead_stageTrades hids venues (hread hnext) (Or.inl List.prefix_rfl) hvalid).elim
          id id
      · exact ih hallnext hvalid w hw

/-- A run gets to no venue from one on whose table was made again. -/
theorem untouched_stageTrades {v w : Exchange} {table : DataTable SilverTrade}
    (hagain : MadeAgain table (silver v)) (hsome : w = v ∨ silver v ≠ []) (venues : List Exchange) :
    ∀ {gold : DataTable GoldTrade}, HasRead table gold v → venues.idxOf v ≤ venues.idxOf w →
      (Recorded.stageTrades silver runTs stamps venues gold).Valid →
        Untouched gold (Recorded.stageTrades silver runTs stamps venues gold) w := by
  induction venues with
  | nil => exact fun _ _ _ => Untouched.refl _ w
  | cons u venues ih =>
    intro gold h hle hvalid
    by_cases huv : u = v
    · subst huv
      have hturn := turn_of_orphaned runTs stamps h hagain
      by_cases hnil : silver u = []
      · obtain rfl : w = u := hsome.resolve_right fun hne => hne hnil
        rw [if_pos hnil] at hturn
        rw [Recorded.stageTrades, hturn] at hvalid ⊢
        exact ih h le_rfl hvalid
      · rw [if_neg hnil] at hturn
        rw [Recorded.stageTrades, hturn]
        exact Untouched.refl _ w
    · have huw : u ≠ w := by
        rintro rfl
        rw [List.idxOf_cons_self, List.idxOf_cons_ne _ huv] at hle
        omega
      have hrest : venues.idxOf v ≤ venues.idxOf w := by
        rw [List.idxOf_cons_ne _ huv, List.idxOf_cons_ne _ huw] at hle
        omega
      cases hturn : turn silver runTs stamps gold u with
      | level =>
        rw [Recorded.stageTrades, hturn] at hvalid ⊢
        exact ih h hrest hvalid
      | raised =>
        rw [Recorded.stageTrades, hturn]
        exact Untouched.refl _ w
      | commit s =>
        rw [Recorded.stageTrades, hturn] at hvalid ⊢
        have hnext := hvalid.initial (prefix_stageTrades venues _)
        have hv := untouched_commit (Ne.symm huv) hturn hnext
        have hw := untouched_commit (Ne.symm huw) hturn hnext
        exact hw.trans (ih (h.of_untouched hv) hrest hvalid)

end Runs

/-! ## Every history -/

section Histories

variable {spark : SparkText} {J : Type} {columns : TradeColumns J} {st st' : State J}
  {v w : Exchange} {table : DataTable SilverTrade}

/-- Gold has of the venue what this silver table had, and it is still there, or was dropped. -/
structure Follows (st : State J) (v : Exchange) (table : DataTable SilverTrade) : Prop where
  read : HasRead table st.gold v
  whence : table <+: st.typing.silver v ∨ ∃ s ∈ st.dropped v, table.current = some s

structure Inv (st : State J) : Prop where
  silver : ∀ v, (st.typing.silver v).Valid
  gold : st.gold.Valid
  unused : Unused st.dropped st.typing.silver
  follows : ∀ v, ∃ table, Follows st v table

theorem follows_start (v : Exchange) : Follows (State.start : State J) v [] where
  read := hasRead_nil v
  whence := Or.inl List.prefix_rfl

theorem inv_start : Inv (State.start : State J) where
  silver := fun _ => ⟨List.nodup_nil, List.Pairwise.nil⟩
  gold := ⟨List.nodup_nil, List.Pairwise.nil⟩
  unused := fun _ _ hs => absurd hs List.not_mem_nil
  follows := fun v => ⟨[], follows_start v⟩

theorem place_of_unused (h : Unused st.dropped st.typing.silver) {s : DataSnapshot SilverTrade}
    (hs : s ∈ st.dropped v) : (st.typing.silver v).place s.idText = none := by
  rw [DataTable.place, Option.map_eq_none_iff, List.findIdx?_eq_none_iff]
  intro s' hs'
  refine decide_eq_false fun htext => h v s hs s' hs' ?_
  exact (writeNat_injective htext).symm

/-- What was dropped was made again. -/
theorem Follows.cases (h : Follows st v table) (hunused : Unused st.dropped st.typing.silver) :
    table <+: st.typing.silver v ∨ MadeAgain table (st.typing.silver v) := by
  refine h.whence.imp_right fun hdropped => ?_
  obtain ⟨s, hs, hcurrent⟩ := hdropped
  refine ⟨?_, fun s' hs' => ?_⟩
  · rintro rfl
    cases hcurrent
  · rw [hcurrent] at hs'
    exact Option.some.inj hs' ▸ place_of_unused hunused hs

/-- A venue is orphaned if the table that gold has read was dropped. -/
theorem Follows.orphaned_iff (h : Follows st v table) :
    Orphaned st v ↔ MadeAgain table (st.typing.silver v) := by
  constructor
  · rintro ⟨text, htext, hplace⟩
    rw [h.read.position] at htext
    refine ⟨?_, fun s hs => ?_⟩
    · rintro rfl
      cases htext
    · rw [hs, Option.map_some, Option.some.injEq] at htext
      exact htext ▸ hplace
  · intro hagain
    cases hcurrent : table.current with
    | none => exact absurd (List.getLast?_eq_none_iff.1 hcurrent) hagain.read
    | some s =>
      exact ⟨s.idText, by rw [h.read.position, hcurrent, Option.map_some],
        hagain.place s hcurrent⟩

/-- Silver made again: a table that gold was reading is there no more. -/
theorem follows_rebuildSilver (h : Follows st v table) (answers : Exchange → Registry × Int)
    (stamps : Int → Exchange → Nat × Int) (exchanges : List Exchange) (cut : Nat) :
    Follows (st.rebuildSilver spark columns answers stamps exchanges cut) v table := by
  refine ⟨h.read, ?_⟩
  by_cases hv : v ∈ exchanges
  · have hdropped : (st.rebuildSilver spark columns answers stamps exchanges cut).dropped v =
        st.dropped v ++ st.typing.silver v := if_pos hv
    rw [hdropped]
    rcases h.whence with hthere | ⟨s, hs, hcurrent⟩
    · cases hcurrent : table.current with
      | none =>
        rw [List.getLast?_eq_none_iff.1 hcurrent]
        exact Or.inl List.nil_prefix
      | some s =>
        have hs : s ∈ st.typing.silver v := hthere.subset (List.mem_of_getLast? hcurrent)
        exact Or.inr ⟨s, List.mem_append_right _ hs, rfl⟩
    · exact Or.inr ⟨s, List.mem_append_left _ hs, hcurrent⟩
  · have hsilver : (st.rebuildSilver spark columns answers stamps exchanges cut).typing.silver v =
        st.typing.silver v :=
      SilverTrades.silver_rebuild_of_not_mem spark columns answers stamps cut st.typing hv
    have hdropped : (st.rebuildSilver spark columns answers stamps exchanges cut).dropped v =
        st.dropped v := if_neg hv
    rw [hsilver, hdropped]
    exact h.whence

/-- **What a step does to a venue**: gold has what it had, all of the table that is there now, or
    nothing, in a table that was just created. -/
theorem follows_step (hinv : Inv st) (h : Follows st v table) (hstep : Step spark columns st st') :
    Follows st' v table ∨ Follows st' v (st'.typing.silver v) ∨ Follows st' v [] := by
  have hids := fun v => (hinv.silver v).ids
  cases hstep with
  | kept hkept =>
    cases hkept with
    | tick htick =>
      cases htick with
      | silver hsilver _ =>
        have hgrows := (Pipeline.silver_grows hsilver hinv.silver).1 v
        exact Or.inl ⟨h.read, h.whence.imp_left fun hthere => hthere.trans hgrows⟩
      | maintain s hrows hs hvalid =>
        exact Or.inl ⟨h.read.of_untouched (untouched_maintain hrows hs hvalid v), h.whence⟩
      | run runTs stamps cut hvalid =>
        rcases hasRead_stageTrades hids (TRADES.take cut) h.read (h.cases hinv.unused) hvalid with
          hread | hread
        · exact Or.inl ⟨hread, h.whence⟩
        · exact Or.inr (Or.inl ⟨hread, Or.inl List.prefix_rfl⟩)
    | rebuildSilver answers stamps exchanges cut _ _ =>
      exact Or.inl (follows_rebuildSilver h answers stamps exchanges cut)
  | rebuildGold runTs stamps cut hvalid =>
    rcases hasRead_stageTrades hids (TRADES.take cut) (hasRead_nil v) (Or.inl List.nil_prefix)
      hvalid with hread | hread
    · exact Or.inr (Or.inr ⟨hread, Or.inl List.nil_prefix⟩)
    · exact Or.inr (Or.inl ⟨hread, Or.inl List.prefix_rfl⟩)

theorem inv_step (h : Inv st) (hstep : Step spark columns st st') : Inv st' := by
  have hfollows : ∀ v, ∃ table, Follows st' v table := by
    intro v
    obtain ⟨table, ht⟩ := h.follows v
    rcases follows_step h ht hstep with hnext | hnext | hnext <;> exact ⟨_, hnext⟩
  cases hstep with
  | kept hkept =>
    cases hkept with
    | tick htick =>
      cases htick with
      | silver hsilver hunused =>
        exact ⟨(Pipeline.silver_grows hsilver h.silver).2, h.gold, hunused, hfollows⟩
      | maintain s _ _ hvalid => exact ⟨h.silver, hvalid, h.unused, hfollows⟩
      | run runTs stamps cut hvalid => exact ⟨h.silver, hvalid, h.unused, hfollows⟩
    | rebuildSilver answers stamps exchanges cut hvalid hunused =>
      exact ⟨hvalid, h.gold, hunused, hfollows⟩
  | rebuildGold runTs stamps cut hvalid => exact ⟨h.silver, hvalid, h.unused, hfollows⟩

theorem inv_of_reached (h : Reached spark columns st) : Inv st := by
  induction h with
  | refl => exact inv_start
  | tail _ hstep ih => exact inv_step ih hstep

/-- Gold follows a table that the venue had at some time. -/
theorem follows_of_reached (h : Reached spark columns st) (v : Exchange) :
    ∃ before, Reached spark columns before ∧ ReflTransGen (Step spark columns) before st ∧
      Follows st v (before.typing.silver v) := by
  induction h with
  | refl => exact ⟨State.start, .refl, .refl, follows_start v⟩
  | @tail st st' hsteps hstep ih =>
    obtain ⟨before, hbefore, hlater, hfollows⟩ := ih
    rcases follows_step (inv_of_reached hsteps) hfollows hstep with hnext | hnext | hnext
    · exact ⟨before, hbefore, hlater.tail hstep, hnext⟩
    · exact ⟨st', hsteps.tail hstep, .refl, hnext⟩
    · exact ⟨State.start, .refl, hsteps.tail hstep, hnext⟩

/-! ### The audit -/

theorem readAt_of_earlier {silver : DataTable SilverTrade}
    (hids : (silver.map DataSnapshot.id).Nodup) (hthere : table <+: silver)
    {s : DataSnapshot SilverTrade} (hs : table.current = some s) :
    silver.readAt s.idText = some table.rows := by
  obtain ⟨more, rfl⟩ := hthere
  rw [List.map_append] at hids
  have hplace := DataTable.place_current (List.nodup_append.1 hids).1 hs
  rw [DataTable.readAt_eq (DataTable.place_append hplace more), List.take_left]

/-- Of a table that is as gold has read it, the audit finds as many first deliveries as gold has. -/
theorem auditVenue_of_read {silver : Silver} {gold : DataTable GoldTrade}
    (hids : ((silver v).map DataSnapshot.id).Nodup) (h : HasRead table gold v)
    (hthere : table <+: silver v) :
    ∃ result, auditVenue silver gold v = some result ∧ result.passed = true ∧
      result.observed = 0 := by
  unfold auditVenue
  cases hcurrent : table.current with
  | none =>
    rw [h.position, hcurrent]
    exact ⟨_, rfl, rfl, rfl⟩
  | some s =>
    rw [h.position, hcurrent, Option.map_some]
    simp only [readAt_of_earlier hids hthere hcurrent]
    have hcount : (table.rows.filter fun r => !r.venueReplay).length =
        (gold.rows.filter fun r => r.exchange = v).length := by
      have hlength := congrArg List.length h.rows
      rw [List.length_map, projectSilver, List.length_map] at hlength
      exact hlength.symm
    refine ⟨_, rfl, decide_eq_true hcount, ?_⟩
    show ((gold.rows.filter fun r => r.exchange = v).length : Int) -
      ((table.rows.filter fun r => !r.venueReplay).length : Int) = 0
    omega

theorem MadeAgain.not_earlier {silver : DataTable SilverTrade} (h : MadeAgain table silver)
    (hids : (silver.map DataSnapshot.id).Nodup) : ¬ table <+: silver := by
  intro hthere
  cases hcurrent : table.current with
  | none => exact h.read (List.getLast?_eq_none_iff.1 hcurrent)
  | some s =>
    have hread := readAt_of_earlier hids hthere hcurrent
    rw [DataTable.readAt, h.place s hcurrent] at hread
    cases hread

theorem auditVenue_of_orphaned (h : Orphaned st v) :
    auditVenue st.typing.silver st.gold v = none := by
  obtain ⟨text, htext, hplace⟩ := h
  rw [auditVenue, htext]
  simp only [DataTable.readAt, hplace, Option.map_none]

/-- The audit of a venue raises if it is orphaned, and passes if it is not. -/
theorem auditVenue_cases (h : Inv st) (v : Exchange) :
    (Orphaned st v ∧ auditVenue st.typing.silver st.gold v = none) ∨
      (¬ Orphaned st v ∧ ∃ result, auditVenue st.typing.silver st.gold v = some result ∧
        result.passed = true ∧ result.observed = 0) := by
  obtain ⟨table, hfollows⟩ := h.follows v
  by_cases ho : Orphaned st v
  · exact Or.inl ⟨ho, auditVenue_of_orphaned ho⟩
  · have hthere := (hfollows.cases h.unused).resolve_right fun hagain =>
      ho (hfollows.orphaned_iff.2 hagain)
    exact Or.inr ⟨ho, auditVenue_of_read (h.silver v).ids hfollows.read hthere⟩

/-- The row of a venue that gold is level with. -/
structure InParity (v : Exchange) (result : CheckResult) : Prop where
  check : result.check = "gold_parity"
  scope : result.scope = "lake.gold.trades/" ++ v.name
  passed : result.passed = true
  observed : result.observed = 0

theorem scope_auditVenue {silver : Silver} {gold : DataTable GoldTrade} {result : CheckResult}
    (h : auditVenue silver gold v = some result) :
    result.check = "gold_parity" ∧ result.scope = "lake.gold.trades/" ++ v.name := by
  unfold auditVenue at h
  split at h
  · cases h
    exact ⟨rfl, rfl⟩
  · obtain ⟨deliveries, -, rfl⟩ := Option.map_eq_some_iff.1 h
    exact ⟨rfl, rfl⟩

/-- **What the parity audit of gold finds.**  In every history of ticks, compaction and rebuilds,
    gold has of each venue exactly the first deliveries of one silver table that the venue had at
    some time, and that table is there still or the venue is orphaned.  So the audit never counts a
    difference: if no venue is orphaned, it files one row for each, which passes with 0, and if one
    is, it raises, and a single failed row with -1 is filed. -/
theorem gold_parity_exact (h : Reached spark columns st) (exc : String) :
    (∀ v, ∃ before, Reached spark columns before ∧ ReflTransGen (Step spark columns) before st ∧
      (st.gold.rows.filter fun r => r.exchange = v).map GoldTrade.timeless =
        projectSilver v 0 (before.typing.silver v).rows ∧
      (before.typing.silver v <+: st.typing.silver v ∨ Orphaned st v)) ∧
    (((∀ v, ¬ Orphaned st v) ∧
        List.Forall₂ InParity TRADES (filed st.typing.silver st.gold exc)) ∨
      ((∃ v, Orphaned st v) ∧ filed st.typing.silver st.gold exc =
        [⟨"gold_parity", "lake.gold.trades", false, -1, "check raised " ++ exc⟩])) := by
  have hinv := inv_of_reached h
  constructor
  · intro v
    obtain ⟨before, hbefore, hlater, hfollows⟩ := follows_of_reached h v
    refine ⟨before, hbefore, hlater, hfollows.read.rows, ?_⟩
    exact (hfollows.cases hinv.unused).imp_right hfollows.orphaned_iff.2
  · rw [filed, auditGoldTrades]
    cases haudit : TRADES.mapM (auditVenue st.typing.silver st.gold) with
    | none =>
      refine Or.inr ⟨?_, rfl⟩
      by_contra hnone
      refine absurd (PartialMap.isSome_mapM_iff.2 fun v _ => ?_) (by rw [haudit]; simp)
      obtain ⟨ho, -⟩ | ⟨-, result, hresult, -⟩ := auditVenue_cases hinv v
      · exact absurd ⟨v, ho⟩ hnone
      · rw [hresult]
        rfl
    | some results =>
      refine Or.inl ⟨fun v hv => ?_, (PartialMap.mapM_eq_some_iff.1 haudit).imp
        fun v result hresult => ?_⟩
      · have hsome := PartialMap.isSome_mapM_iff.1 (by rw [haudit]; rfl) v (mem_TRADES v)
        rw [auditVenue_of_orphaned hv] at hsome
        cases hsome
      · obtain ⟨-, hnone⟩ | ⟨-, result', hresult', hpassed, hobserved⟩ := auditVenue_cases hinv v
        · rw [hnone] at hresult
          cases hresult
        · obtain ⟨hcheck, hscope⟩ := scope_auditVenue hresult
          rw [hresult', Option.some.injEq] at hresult
          exact ⟨hcheck, hscope, hresult ▸ hpassed, hresult ▸ hobserved⟩

/-! ### A venue that is orphaned -/

/-- **Silver made again under gold**: a venue that gold has read is orphaned. -/
theorem orphaned_rebuildSilver (hinv : Inv st) (hread : (srcSnapshotId st.gold v).isSome)
    {answers : Exchange → Registry × Int} {stamps : Int → Exchange → Nat × Int}
    {exchanges : List Exchange} {cut : Nat} (hv : v ∈ exchanges)
    (hunused : Unused (st.rebuildSilver spark columns answers stamps exchanges cut).dropped
      (st.rebuildSilver spark columns answers stamps exchanges cut).typing.silver) :
    Orphaned (st.rebuildSilver spark columns answers stamps exchanges cut) v := by
  obtain ⟨table, hfollows⟩ := hinv.follows v
  obtain ⟨text, htext⟩ := Option.isSome_iff_exists.1 hread
  have hposition := hfollows.read.position
  rw [htext] at hposition
  obtain ⟨s, hcurrent, rfl⟩ := Option.map_eq_some_iff.1 hposition.symm
  -- the snapshot that gold records is one of those that were dropped, now or before
  have hdropped : s ∈ (st.rebuildSilver spark columns answers stamps exchanges cut).dropped v := by
    show s ∈ if v ∈ exchanges then st.dropped v ++ st.typing.silver v else st.dropped v
    rw [if_pos hv]
    rcases hfollows.whence with hthere | ⟨s', hs', hcurrent'⟩
    · exact List.mem_append_right _ (hthere.subset (List.mem_of_getLast? hcurrent))
    · rw [hcurrent] at hcurrent'
      cases hcurrent'
      exact List.mem_append_left _ hs'
  exact ⟨s.idText, htext, place_of_unused hunused hdropped⟩

theorem idxOf_take_le (cut : Nat) (hle : TRADES.idxOf v ≤ TRADES.idxOf w) :
    (TRADES.take cut).idxOf v ≤ (TRADES.take cut).idxOf w := by
  rcases cut with _ | _ | _ | n
  · exact le_rfl
  · revert hle
    cases v <;> cases w <;> decide
  · revert hle
    cases v <;> cases w <;> decide
  · rwa [List.take_of_length_le (Nat.le_add_left 3 n)]

/-- A step that leaves gold standing leaves a venue orphaned, and its rows as they are. -/
theorem orphaned_kept (hinv : Inv st) (ho : Orphaned st v) (hstep : Kept spark columns st st') :
    Orphaned st' v ∧ Untouched st.gold st'.gold v := by
  obtain ⟨table, hfollows⟩ := hinv.follows v
  have hagain := hfollows.orphaned_iff.1 ho
  have hdropped := hfollows.whence.resolve_left (hagain.not_earlier (hinv.silver v).ids)
  have hsame : Untouched st.gold st'.gold v := by
    cases hstep with
    | tick htick =>
      cases htick with
      | silver _ _ => exact Untouched.refl _ v
      | maintain s hrows hs hvalid => exact untouched_maintain hrows hs hvalid v
      | run runTs stamps cut hvalid =>
        exact untouched_stageTrades hagain (Or.inl rfl) _ hfollows.read le_rfl hvalid
    | rebuildSilver _ _ _ _ _ _ => exact Untouched.refl _ v
  have hmore : ∀ s ∈ st.dropped v, s ∈ st'.dropped v := by
    intro s hs
    cases hstep with
    | tick htick => cases htick <;> exact hs
    | rebuildSilver answers stamps exchanges cut _ _ =>
      show s ∈ if v ∈ exchanges then st.dropped v ++ st.typing.silver v else st.dropped v
      split
      · exact List.mem_append_left _ hs
      · exact hs
  have hnext := inv_step hinv (.kept hstep)
  obtain ⟨s, hs, hcurrent⟩ := hdropped
  refine ⟨⟨s.idText, ?_, place_of_unused hnext.unused (hmore s hs)⟩, hsame⟩
  rw [hsame.position, hfollows.read.position, hcurrent, Option.map_some]

/-- A tick leaves the venues after it in the order of the turns as they are too. -/
theorem untouched_tick (hinv : Inv st) (ho : Orphaned st v) (hsome : st.typing.silver v ≠ [])
    (hle : TRADES.idxOf v ≤ TRADES.idxOf w) (htick : Tick spark columns st st') :
    st'.typing.silver v ≠ [] ∧ Untouched st.gold st'.gold w := by
  obtain ⟨table, hfollows⟩ := hinv.follows v
  cases htick with
  | silver hsilver _ =>
    have hgrows := (Pipeline.silver_grows hsilver hinv.silver).1 v
    refine ⟨fun hnil => hsome ?_, Untouched.refl _ w⟩
    rw [show _ = [] from hnil] at hgrows
    exact List.prefix_nil.1 hgrows
  | maintain s hrows hs hvalid => exact ⟨hsome, untouched_maintain hrows hs hvalid w⟩
  | run runTs stamps cut hvalid =>
    exact ⟨hsome, untouched_stageTrades (hfollows.orphaned_iff.1 ho) (Or.inr hsome) _ hfollows.read
      (idxOf_take_le cut hle) hvalid⟩

/-- What is left of an orphaned venue, and of those after it, by ticks and rebuilds of silver. -/
theorem orphaned_run (h : Reached spark columns st) (ho : Orphaned st v)
    (hsteps : ReflTransGen (Kept spark columns) st st') :
    Reached spark columns st' ∧ Orphaned st' v ∧ Untouched st.gold st'.gold v := by
  induction hsteps with
  | refl => exact ⟨h, ho, Untouched.refl _ v⟩
  | tail _ hstep ih =>
    obtain ⟨hreached, horphaned, hsame⟩ := ih
    have hnext := orphaned_kept (inv_of_reached hreached) horphaned hstep
    exact ⟨hreached.tail (.kept hstep), hnext.1, hsame.trans hnext.2⟩

theorem untouched_ticks (h : Reached spark columns st) (ho : Orphaned st v)
    (hsome : st.typing.silver v ≠ []) (hle : TRADES.idxOf v ≤ TRADES.idxOf w)
    (hsteps : ReflTransGen (Tick spark columns) st st') : Untouched st.gold st'.gold w := by
  have hall : Reached spark columns st' ∧ Orphaned st' v ∧ st'.typing.silver v ≠ [] ∧
      Untouched st.gold st'.gold w := by
    induction hsteps with
    | refl => exact ⟨h, ho, hsome, Untouched.refl _ w⟩
    | tail _ htick ih =>
      obtain ⟨hreached, horphaned, hthere, hsame⟩ := ih
      have hinv := inv_of_reached hreached
      have hnext := untouched_tick hinv horphaned hthere hle htick
      exact ⟨hreached.tail (.kept (.tick htick)), (orphaned_kept hinv horphaned (.tick htick)).1,
        hnext.1, hsame.trans hnext.2⟩
  exact hall.2.2.2

/-- A rebuild of gold that gets past all venues reads the silver tables that are there. -/
theorem rebuildGold_reads (hinv : Inv st) {runTs : Int} {stamps : Exchange → Nat × Int}
    (hvalid : (st.rebuildGold runTs stamps TRADES.length).gold.Valid) (w : Exchange) :
    ¬ Orphaned (st.rebuildGold runTs stamps TRADES.length) w ∧
      ((st.rebuildGold runTs stamps TRADES.length).gold.rows.filter fun r =>
        r.exchange = w).map GoldTrade.timeless = projectSilver w 0 (st.typing.silver w).rows := by
  have hids := fun u => (hinv.silver u).ids
  have hread := level_stageTrades hids (TRADES.take TRADES.length)
    (fun u => ⟨[], hasRead_nil u, List.nil_prefix⟩) hvalid w (mem_TRADES w)
  refine ⟨fun horphaned => ?_, hread.rows⟩
  have hfollows : Follows (st.rebuildGold runTs stamps TRADES.length) w (st.typing.silver w) :=
    ⟨hread, Or.inl List.prefix_rfl⟩
  exact (hfollows.orphaned_iff.1 horphaned).not_earlier (hids w) List.prefix_rfl

/-- **A silver table that gold has read, made again, is out of gold's reach until gold is rebuilt.**
    Whatever ticks, compaction and rebuilds of silver come, the venue stays orphaned and gold keeps
    the rows it had of it; the ticks that follow leave the venues after it in the order of the
    turns with theirs too, once there is something in the new table; and a rebuild of gold that
    gets past all venues leaves none orphaned, and each with the first deliveries of all of its
    silver table. -/
theorem orphaned_until_rebuilt (h : Reached spark columns st)
    (hread : (srcSnapshotId st.gold v).isSome) {answers : Exchange → Registry × Int}
    {stamps : Int → Exchange → Nat × Int} {exchanges : List Exchange} {cut : Nat}
    (hv : v ∈ exchanges)
    (hsilver : ∀ w,
      ((st.rebuildSilver spark columns answers stamps exchanges cut).typing.silver w).Valid)
    (hunused : Unused (st.rebuildSilver spark columns answers stamps exchanges cut).dropped
      (st.rebuildSilver spark columns answers stamps exchanges cut).typing.silver)
    (hlater : ReflTransGen (Kept spark columns)
      (st.rebuildSilver spark columns answers stamps exchanges cut) st') :
    Orphaned st' v ∧ Untouched st.gold st'.gold v ∧
    (st'.typing.silver v ≠ [] → ∀ st'', ReflTransGen (Tick spark columns) st' st'' →
      ∀ w, TRADES.idxOf v ≤ TRADES.idxOf w → Untouched st'.gold st''.gold w) ∧
    ∀ runTs stamps, (st'.rebuildGold runTs stamps TRADES.length).gold.Valid → ∀ w,
      ¬ Orphaned (st'.rebuildGold runTs stamps TRADES.length) w ∧
        ((st'.rebuildGold runTs stamps TRADES.length).gold.rows.filter fun r =>
          r.exchange = w).map GoldTrade.timeless =
            projectSilver w 0 (st'.typing.silver w).rows := by
  have hmade : Reached spark columns (st.rebuildSilver spark columns answers stamps exchanges cut) :=
    h.tail (.kept (.rebuildSilver answers stamps exchanges cut hsilver hunused))
  obtain ⟨hreached, horphaned, hsame⟩ :=
    orphaned_run hmade (orphaned_rebuildSilver (inv_of_reached h) hread hv hunused) hlater
  refine ⟨horphaned, hsame, fun hsome st'' hticks w hle => ?_, fun runTs stamps hvalid w => ?_⟩
  · exact untouched_ticks hreached horphaned hsome hle hticks
  · exact rebuildGold_reads (inv_of_reached hreached) hvalid w

end Histories

/-! ## A silver table made again -/

/-- One Kraken frame, typed, and read by gold. -/
def krakenRead : State Unit :=
  State.stageGold 3000000 (fun _ => (93, 30)) 3
    ⟨SilverTrades.staged [.krakenTrade], [], fun _ => []⟩

/-- Its silver table made again. -/
def krakenMadeAgain : State Unit :=
  krakenRead.rebuildSilver SilverTrades.frameText SilverTrades.frameColumns
    SilverTrades.krakenListed (fun _ _ => (94, 40)) [.kraken] 1

/-- A run of gold over the new table. -/
def krakenRaised : State Unit := krakenMadeAgain.stageGold 4000000 (fun _ => (96, 45)) 3

theorem krakenRead_reached :
    Reached SilverTrades.frameText SilverTrades.frameColumns krakenRead := by
  have hframed : Step SilverTrades.frameText SilverTrades.frameColumns (State.start : State Unit)
      ⟨SilverTrades.framed [.krakenTrade], [], fun _ => []⟩ :=
    .kept (.tick (.silver (.grow (SilverTrades.oneFrameIn [.krakenTrade])
      (fun _ => List.nil_prefix) (SilverTrades.valid_oneFrameIn _))
      fun _ _ hs => absurd hs List.not_mem_nil))
  have htyped : Step SilverTrades.frameText SilverTrades.frameColumns
      ⟨SilverTrades.framed [.krakenTrade], [], fun _ => []⟩
      ⟨SilverTrades.staged [.krakenTrade], [], fun _ => []⟩ :=
    .kept (.tick (.silver (SilverTrades.staged_step (by decide +kernel))
      fun _ _ hs => absurd hs List.not_mem_nil))
  have hread : Step SilverTrades.frameText SilverTrades.frameColumns
      ⟨SilverTrades.staged [.krakenTrade], [], fun _ => []⟩ krakenRead :=
    .kept (.tick (.run 3000000 (fun _ => (93, 30)) 3
      (DataTable.Valid.of_length_le_one (by decide +kernel))))
  exact ((ReflTransGen.single hframed).tail htyped).tail hread

theorem krakenMadeAgain_valid (v : Exchange) : (krakenMadeAgain.typing.silver v).Valid :=
  DataTable.Valid.of_length_le_one (by cases v <;> decide +kernel)

theorem krakenMadeAgain_unused : Unused krakenMadeAgain.dropped krakenMadeAgain.typing.silver := by
  intro v
  cases v <;> decide +kernel

theorem krakenMadeAgain_reached :
    Reached SilverTrades.frameText SilverTrades.frameColumns krakenMadeAgain :=
  krakenRead_reached.tail
    (.kept (.rebuildSilver _ _ _ _ krakenMadeAgain_valid krakenMadeAgain_unused))

theorem kraken_orphaned : Orphaned krakenMadeAgain .kraken :=
  orphaned_rebuildSilver (inv_of_reached krakenRead_reached) (by decide +kernel)
    List.mem_cons_self krakenMadeAgain_unused

/-- The silver table has the trade again, and the audit cannot read what gold has read. -/
theorem made_again_reported : (krakenMadeAgain.typing.silver .kraken).rows.length = 1 ∧
    filed krakenMadeAgain.typing.silver krakenMadeAgain.gold "Py4JJavaError: 92" =
      [⟨"gold_parity", "lake.gold.trades", false, -1, "check raised Py4JJavaError: 92"⟩] := by
  refine ⟨by decide +kernel, ?_⟩
  rcases (gold_parity_exact krakenMadeAgain_reached "Py4JJavaError: 92").2 with
    ⟨hnone, -⟩ | ⟨-, hfiled⟩
  · exact absurd kraken_orphaned (hnone .kraken)
  · exact hfiled

/-- The run of gold takes nothing, and a rebuild of gold reads the new table. -/
theorem made_again_read : Untouched krakenRead.gold krakenRaised.gold .kraken ∧
    (krakenRaised.rebuildGold 5000000 (fun _ => (95, 50)) TRADES.length).gold.rows.length = 1 ∧
      ¬ Orphaned (krakenRaised.rebuildGold 5000000 (fun _ => (95, 50)) TRADES.length) .kraken := by
  have hrun : Kept SilverTrades.frameText SilverTrades.frameColumns krakenMadeAgain krakenRaised :=
    .tick (.run 4000000 (fun _ => (96, 45)) 3
      (DataTable.Valid.of_length_le_one (by decide +kernel)))
  have hall := orphaned_until_rebuilt krakenRead_reached (by decide +kernel) List.mem_cons_self
    krakenMadeAgain_valid krakenMadeAgain_unused (.single hrun)
  refine ⟨hall.2.1, by decide +kernel, ?_⟩
  exact (hall.2.2.2 5000000 (fun _ => (95, 50))
    (DataTable.Valid.of_length_le_one (by decide +kernel)) .kraken).1

end K2.Lake.RebuildOrder

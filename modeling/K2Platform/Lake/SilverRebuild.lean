import K2Platform.Lake.RecomputeAudits
import K2Platform.Lake.SilverStage

/-!
# Silver trades, rebuilt and audited

Model of `rebuild.py --layer silver` with `silver.py::rebuild`, and of `audit_silver_parity` of
`maintenance.py`.  A rebuild goes through the venues, and through the days of each venue's bronze
table, oldest first; every commit records the bronze snapshot that was there when the venue's turn
began.  It ends at the first day that raises, or is killed between two commits.  The audit counts
the trades in the bronze snapshot that is recorded, and the rows of the table.

* `Lacks.step` — a run of the stage, a commit to bronze and maintenance leave the number of trades
  that are missing.
* `lacks_rebuild` — a rebuild leaves as many missing as there are in the days that it had no commit
  for, if it had one.
* `silver_parity_exact` — in every history of runs and rebuilds, the audit says how many.
-/

set_option autoImplicit false

namespace K2.Lake

def Bronze.VenueTable.name : Bronze.VenueTable → String
  | .binanceTrade => "binance_trade"
  | .binanceDepth20 => "binance_depth20"
  | .krakenTrade => "kraken_trade"
  | .krakenBook => "kraken_book"
  | .krakenInstrument => "kraken_instrument"
  | .coinbaseMarketTrades => "coinbase_market_trades"
  | .coinbaseLevel2 => "coinbase_level2"

def Bronze.VenueTable.table (t : Bronze.VenueTable) : String := "lake.bronze." ++ t.name

namespace SilverTrades

open Bronze (BronzeRow BronzeTable VenueTable)
open Relation

/-! ## The rebuild -/

section Rebuild

variable {J : Type}

/-- `to_date(recv_ts)`, in days since 1970-01-01. -/
def recvDay (row : BronzeRow J) : Int := row.recvTs / 86400000000

/-- `SELECT DISTINCT to_date(recv_ts) d … ORDER BY d`. -/
def bronzeDays (table : BronzeTable J) : List Int := sortOn id (table.rows.map recvDay).dedup

/-- The frames of one day. -/
def framesOn (table : BronzeTable J) (srcSnapshotId : String) (day : Int) :
    Option (List (BronzeRow J)) :=
  (table.readAt srcSnapshotId).map fun rows : List (BronzeRow J) =>
    rows.filter fun row => recvDay row = day

/-- The order in which a rebuild goes through venues and days. -/
def slicesOf (bronze : VenueTable → BronzeTable J) (exchanges : List Exchange) :
    List (Exchange × Int) :=
  (TRADES.filter fun v => v ∈ exchanges).flatMap fun v =>
    (bronzeDays (bronze (source v))).map fun day => (v, day)

variable (spark : SparkText) (columns : TradeColumns J) (bronze : VenueTable → BronzeTable J)
  (answers : Exchange → Registry × Int) (stamps : Int → Exchange → Nat × Int)

/-- The commits of a rebuild, each with the day that it is of.  The lookback of a day is what the
    days before it have left in the table. -/
def rebuildCommits (silver : Recorded.Silver) :
    List (Exchange × Int) → List (Exchange × Int × DataSnapshot SilverTrade)
  | [] => []
  | (v, day) :: slices =>
    match (bronze (source v)).current with
    | none => rebuildCommits silver slices
    | some stop =>
      match framesOn (bronze (source v)) stop.idText day with
      | none => []
      | some frames =>
        match write spark columns v (answers v) (stamps day v) stop.idText (silver v) frames with
        | .raised => []
        | .nothing => rebuildCommits silver slices
        | .commit s =>
          (v, day, s) :: rebuildCommits (Function.update silver v (silver v ++ [s])) slices

end Rebuild

/-- The tables dropped and re-created. -/
def dropTables (silver : Recorded.Silver) (exchanges : List Exchange) : Recorded.Silver :=
  fun v => if v ∈ exchanges then [] else silver v

/-- How many trades the frames carry. -/
def tradesIn {J : Type} (columns : TradeColumns J) (v : Exchange) (frames : List (BronzeRow J)) :
    Nat :=
  (frames.map (explodedCount columns v)).sum

namespace State

variable {J : Type} (spark : SparkText) (columns : TradeColumns J)
  (answers : Exchange → Registry × Int) (stamps : Int → Exchange → Nat × Int)
  (exchanges : List Exchange) (cut : Nat) (st : State J)

/-- The commits made by a rebuild that is killed after `cut` of them. -/
def rebuildMade : List (Exchange × Int × DataSnapshot SilverTrade) :=
  (rebuildCommits spark columns st.bronze answers stamps (dropTables st.silver exchanges)
    (slicesOf st.bronze exchanges)).take cut

/-- `rebuild.py --layer silver`, for these venues. -/
def rebuild : State J :=
  let silver := applyCommits (dropTables st.silver exchanges)
    ((st.rebuildMade spark columns answers stamps exchanges cut).map fun c => (c.1, c.2.2))
  { st with
    silver := silver
    typedWith := fun v =>
      if v ∈ exchanges then
        List.replicate (reachOf (st.bronze (source v)) (silver v)) (answers v)
      else st.typedWith v }

/-- The days that were committed to a table. -/
def committedDays (v : Exchange) : List Int :=
  ((st.rebuildMade spark columns answers stamps exchanges cut).filter fun c => c.1 = v).map
    fun c => c.2.1

/-- The trades of the days without a commit, once there is a commit that records the position. -/
def missed (v : Exchange) : Nat :=
  if st.committedDays spark columns answers stamps exchanges cut v = [] then 0
  else tradesIn columns v ((st.bronze (source v)).rows.filter fun row =>
    !decide (recvDay row ∈ st.committedDays spark columns answers stamps exchanges cut v))

end State

/-! ## The audit -/

/-- `TradeSpec.table`. -/
def tableOf (v : Exchange) : String := "lake.silver.trades_" ++ v.name

/-- `audit_silver_parity`; `none` where the recorded snapshot cannot be read. -/
def auditSilverParity {J : Type} (columns : TradeColumns J) (st : State J) (v : Exchange) :
    Option CheckResult :=
  match (st.silver v).srcSnapshotId with
  | none =>
    some ⟨"silver_parity", tableOf v, true, 0, "silver has not read bronze yet"⟩
  | some src =>
    ((st.bronze (source v)).readAt src).map fun frames : List (BronzeRow J) =>
      let expected := tradesIn columns v frames
      let actual := (st.silver v).rows.length
      { check := "silver_parity"
        scope := tableOf v
        passed := decide (expected = actual)
        observed := (actual : Int) - (expected : Int)
        detail :=
          if expected = actual then
            toString actual ++ " rows for " ++ toString expected ++ " trades in " ++
              (source v).table ++ " @ " ++ src
          else
            toString actual ++ " rows but " ++ (source v).table ++ " @ " ++ src ++ " carries " ++
              toString expected ++ " trades" }

/-! ## Counting trades -/

section Count

variable {spark : SparkText} {J : Type} {columns : TradeColumns J} {v : Exchange}
  {answer : Registry × Int}

theorem tradesIn_append (frames frames' : List (BronzeRow J)) :
    tradesIn columns v (frames ++ frames') =
      tradesIn columns v frames + tradesIn columns v frames' := by
  rw [tradesIn, List.map_append, List.sum_append]
  rfl

theorem tradesIn_perm {frames frames' : List (BronzeRow J)} (h : frames.Perm frames') :
    tradesIn columns v frames = tradesIn columns v frames' :=
  (h.map _).sum_eq

/-- Frames that were typed gave as many rows as they carry trades. -/
theorem length_flatMap_typed {frames : List (BronzeRow J)}
    (h : ∀ row ∈ frames, (typedTrades spark columns v answer row).isSome) :
    (frames.flatMap fun row => (typedTrades spark columns v answer row).getD []).length =
      tradesIn columns v frames := by
  rw [List.length_flatMap, tradesIn]
  refine congrArg List.sum (List.map_congr_left fun row hrow => ?_)
  obtain ⟨trades, htrades⟩ := Option.isSome_iff_exists.1 (h row hrow)
  rw [htrades, Option.getD_some]
  exact length_typedTrades htrades

/-- A frame without trades gives none, and any other gives some or raises. -/
theorem typedTrades_eq_nil_iff {row : BronzeRow J} :
    typedTrades spark columns v answer row = some [] ↔ explodedCount columns v row = 0 := by
  constructor
  · intro h
    rw [← length_typedTrades h, List.length_nil]
  · intro h
    cases hrows : projectedRows spark columns v row with
    | none =>
      -- only a Binance frame raises here, and that one carries a trade
      cases v with
      | binance => exact absurd h Nat.one_ne_zero
      | kraken => cases hrows
      | coinbase => cases hrows
    | some rows =>
      have hnil : rows = [] := by
        rw [← List.length_eq_zero_iff, length_projectedRows hrows, h]
      rw [typedTrades, hrows, hnil]
      rfl

variable (spark answer) in
theorem tradesIn_eq_zero_iff {frames : List (BronzeRow J)} :
    tradesIn columns v frames = 0 ↔
      ∀ row ∈ frames, typedTrades spark columns v answer row = some [] := by
  rw [tradesIn, List.sum_eq_zero_iff_forall_eq_nat, List.forall_mem_map]
  exact forall₂_congr fun row _ => typedTrades_eq_nil_iff.symm

end Count

/-! ## What is missing -/

section Lacks

variable {spark : SparkText} {J : Type} {columns : TradeColumns J} {st st' : State J}
  {v : Exchange} {d : Nat}

/-- The table has all but `d` of the trades up to its position. -/
def Lacks (columns : TradeColumns J) (st : State J) (v : Exchange) (d : Nat) : Prop :=
  (st.silver v).rows.length + d =
    tradesIn columns v (DataTable.rows ((st.bronze (source v)).take (st.reach v)))

theorem length_of_batchOf {answer : Registry × Int} {frames : List (BronzeRow J)}
    {batch : List TypedTrade} (h : batchOf spark columns v answer frames = some batch) :
    batch.length = tradesIn columns v frames := by
  obtain ⟨hmade, rfl⟩ := typed_of_batchOf h
  exact length_flatMap_typed hmade

theorem lacks_run (hsound : Sound st) (h : Lacks columns st v d)
    {answers : Exchange → Registry × Int} {stamps : Exchange → Nat × Int} {cut : Nat}
    (hvalid : ((st.run spark columns answers stamps cut).silver v).Valid) :
    Lacks columns (st.run spark columns answers stamps cut) v d := by
  have hreach : (st.run spark columns answers stamps cut).reach v =
      reachOf (st.bronze (source v)) ((st.run spark columns answers stamps cut).silver v) := rfl
  rcases run_cases hsound v hvalid with hsame | ⟨stop, frames, batch, hreads, hbatch, hstart, hrows⟩
  · rw [Lacks, hreach, hsame]
    exact h
  · obtain ⟨hlt, hframes⟩ := hreads.frames_eq hsound.bronze
    have hlength := congrArg List.length hrows
    rw [List.length_map, List.length_append, List.length_map, length_of_batchOf hbatch] at hlength
    have hbronze : (st.run spark columns answers stamps cut).bronze = st.bronze := rfl
    rw [Lacks, hreach, hbronze, reachOf_of_srcSnapshotId hstart
      (DataTable.place_current (hsound.bronze _) hreads.current), List.take_length, hlength]
    have hsplit : (st.bronze (source v)).rows =
        DataTable.rows ((st.bronze (source v)).take (st.reach v)) ++ frames := by
      rw [hframes, ← DataTable.rows_append]
      exact congrArg DataTable.rows (List.take_append_drop _ _).symm
    rw [hsplit, tradesIn_append, ← h]
    omega

theorem Lacks.step (hsound : Sound st) (h : Lacks columns st v d)
    (hstep : Step spark columns st st') : Lacks columns st' v d := by
  cases hstep with
  | grow bronze hpre _ =>
    obtain ⟨later, hlater⟩ := hpre (source v)
    show (st.silver v).rows.length + d = tradesIn columns v
      (DataTable.rows ((bronze (source v)).take (reachOf (bronze (source v)) (st.silver v))))
    rw [← hlater, reachOf_later (hsound.placed v),
      List.take_append_of_le_length (reachOf_le _ _)]
    exact h
  | maintain w s hrows hs hvalid =>
    show (DataTable.rows (Function.update st.silver w (st.silver w ++ [s]) v)).length + d =
      tradesIn columns v (DataTable.rows ((st.bronze (source v)).take (reachOf (st.bronze (source v))
        (Function.update st.silver w (st.silver w ++ [s]) v))))
    rw [rows_update hrows, reachOf, srcSnapshotId_update hs hvalid v]
    exact h
  | run answers stamps cut hvalid => exact lacks_run hsound h (hvalid v)

/-- A table that has what its position says lacks nothing. -/
theorem lacks_zero_of_holds (h : Holds spark columns st v) : Lacks columns st v 0 := by
  have hreach := h.reach
  have hlength := (Copied.rows h).length_eq
  have hmade : ∀ p ∈ (st.bronze (source v)).zip ((st.typedWith v).map (typedTrades spark columns v)),
      ∀ row ∈ p.1.rows, ∃ l, p.2 row = some l ∧ l.length = explodedCount columns v row := by
    intro p hp row hrow
    obtain ⟨l, hl⟩ := Option.isSome_iff_exists.1 (Copied.made h p hp row hrow)
    obtain ⟨answer, -, hanswer⟩ := List.mem_map.1 (List.of_mem_zip hp).2
    have htyped : typedTrades spark columns v answer row = some l := by
      rw [hanswer, hl]
    exact ⟨l, hl, length_typedTrades htyped⟩
  have hle : ((st.typedWith v).map (typedTrades spark columns v)).length ≤
      (st.bronze (source v)).length := by
    rw [List.length_map, hreach]
    exact reachOf_le _ _
  rw [List.length_map, length_madeOf hle hmade, List.length_map, hreach] at hlength
  exact hlength

end Lacks

/-! ## The commits of a rebuild -/

section Commits

variable {spark : SparkText} {J : Type} {columns : TradeColumns J}
  {bronze : VenueTable → BronzeTable J} {answers : Exchange → Registry × Int}
  {stamps : Int → Exchange → Nat × Int} {slices : List (Exchange × Int)}

/-- A day of a venue is committed once, and in the order of the slices. -/
theorem sublist_rebuildCommits : ∀ (slices : List (Exchange × Int)) (silver : Recorded.Silver),
    ((rebuildCommits spark columns bronze answers stamps silver slices).map
      fun c => (c.1, c.2.1)).Sublist slices
  | [], _ => List.Sublist.slnil
  | (v, day) :: slices, silver => by
    unfold rebuildCommits
    split
    · exact (sublist_rebuildCommits slices silver).cons _
    · split
      · exact List.nil_sublist _
      · split
        · exact List.nil_sublist _
        · exact (sublist_rebuildCommits slices silver).cons _
        · exact (sublist_rebuildCommits slices _).cons_cons _

/-- What a commit of a rebuild is: one day of a venue's frames, typed. -/
structure CommitOf (spark : SparkText) (columns : TradeColumns J)
    (bronze : VenueTable → BronzeTable J) (answers : Exchange → Registry × Int) (v : Exchange)
    (day : Int) (s : DataSnapshot SilverTrade) (stop : DataSnapshot (BronzeRow J))
    (frames : List (BronzeRow J)) (batch : List TypedTrade) : Prop where
  current : (bronze (source v)).current = some stop
  read : framesOn (bronze (source v)) stop.idText day = some frames
  typed : batchOf spark columns v (answers v) frames = some batch
  summary : s.summary = decodeSummary stop.idText
  rows : s.rows.map SilverTrade.toTypedTrade = batch

theorem mem_rebuildCommits {c : Exchange × Int × DataSnapshot SilverTrade} :
    ∀ {slices : List (Exchange × Int)} {silver : Recorded.Silver},
      c ∈ rebuildCommits spark columns bronze answers stamps silver slices →
        ∃ stop frames batch,
          CommitOf spark columns bronze answers c.1 c.2.1 c.2.2 stop frames batch
  | [], _, h => absurd h List.not_mem_nil
  | (v, day) :: slices, silver, h => by
    unfold rebuildCommits at h
    split at h
    · exact mem_rebuildCommits h
    · rename_i stop hstop
      split at h
      · exact absurd h List.not_mem_nil
      · rename_i frames hframes
        split at h
        · exact absurd h List.not_mem_nil
        · exact mem_rebuildCommits h
        · rename_i s hs
          rcases List.mem_cons.1 h with rfl | h
          · obtain ⟨batch, hbatch, -, hsummary, hrows⟩ := write_commit hs
            exact ⟨stop, frames, batch, hstop, hframes, hbatch, hsummary, hrows⟩
          · exact mem_rebuildCommits h

end Commits

/-! ## The tables of a rebuild -/

section Tables

variable {spark : SparkText} {J : Type} {columns : TradeColumns J}
  {answers : Exchange → Registry × Int} {stamps : Int → Exchange → Nat × Int}
  {exchanges : List Exchange} {cut : Nat} {st : State J} {v : Exchange}

theorem nodup_slicesOf (bronze : VenueTable → BronzeTable J) (exchanges : List Exchange) :
    (slicesOf bronze exchanges).Nodup := by
  have hvenues : (TRADES.filter fun v => v ∈ exchanges).Nodup :=
    (show TRADES.Nodup by decide).filter _
  have hdays : ∀ v, (bronzeDays (bronze (source v))).Nodup := fun v =>
    (sortOn_perm _ _).nodup_iff.2 (List.nodup_dedup _)
  refine List.nodup_flatMap.2 ⟨fun v _ => (hdays v).map fun a b h => (Prod.ext_iff.1 h).2, ?_⟩
  refine hvenues.imp fun {v w} hne => ?_
  intro slice hv hw
  obtain ⟨a, -, rfl⟩ := List.mem_map.1 hv
  obtain ⟨b, -, hb⟩ := List.mem_map.1 hw
  exact hne (Prod.ext_iff.1 hb).1.symm

theorem sublist_rebuildMade :
    ((st.rebuildMade spark columns answers stamps exchanges cut).map
      fun c => (c.1, c.2.1)).Sublist (slicesOf st.bronze exchanges) := by
  have htake := List.take_sublist cut (rebuildCommits spark columns st.bronze answers stamps
    (dropTables st.silver exchanges) (slicesOf st.bronze exchanges))
  exact (htake.map _).trans (sublist_rebuildCommits _ _)

theorem nodup_committedDays :
    (st.committedDays spark columns answers stamps exchanges cut v).Nodup := by
  have hof : (((st.rebuildMade spark columns answers stamps exchanges cut).filter
      fun c => c.1 = v).map fun c => (c.1, c.2.1)).Nodup :=
    ((nodup_slicesOf _ _).sublist sublist_rebuildMade).sublist (List.filter_sublist.map _)
  refine List.Nodup.map_on (fun c hc d hd hday => ?_) hof.of_map
  have hc' := of_decide_eq_true (List.mem_filter.1 hc).2
  have hd' := of_decide_eq_true (List.mem_filter.1 hd).2
  exact List.inj_on_of_nodup_map hof hc hd (Prod.ext (hc'.trans hd'.symm) hday)

/-- A rebuild has no commit for another venue. -/
theorem exchange_of_mem_rebuildMade {c : Exchange × Int × DataSnapshot SilverTrade}
    (h : c ∈ st.rebuildMade spark columns answers stamps exchanges cut) : c.1 ∈ exchanges := by
  have hslice : (c.1, c.2.1) ∈ slicesOf st.bronze exchanges :=
    sublist_rebuildMade.subset (List.mem_map_of_mem h)
  obtain ⟨w, hw, hmem⟩ := List.mem_flatMap.1 hslice
  obtain ⟨day, -, hday⟩ := List.mem_map.1 hmem
  have hwc : w = c.1 := (Prod.ext_iff.1 hday).1
  exact hwc ▸ of_decide_eq_true (List.mem_filter.1 hw).2

/-- The table after the rebuild: the commits to it, in their order. -/
theorem silver_rebuild (hv : v ∈ exchanges) :
    (st.rebuild spark columns answers stamps exchanges cut).silver v =
      ((st.rebuildMade spark columns answers stamps exchanges cut).filter
        fun c => c.1 = v).map fun c => c.2.2 := by
  simp only [State.rebuild, applyCommits, dropTables, if_pos hv, List.nil_append, List.filter_map,
    List.map_map]
  rfl

variable (spark columns answers stamps cut st) in
theorem silver_rebuild_of_not_mem (hv : v ∉ exchanges) :
    (st.rebuild spark columns answers stamps exchanges cut).silver v = st.silver v := by
  have hnone : ((st.rebuildMade spark columns answers stamps exchanges cut).filter
      fun c => decide (c.1 = v)) = [] := by
    refine List.filter_eq_nil_iff.2 fun c hc hcv => hv ?_
    exact of_decide_eq_true hcv ▸ exchange_of_mem_rebuildMade hc
  have hfilter : (((st.rebuildMade spark columns answers stamps exchanges cut).map
      fun c => (c.1, c.2.2)).filter fun c => decide (c.1 = v)) = [] := by
    rw [List.filter_map, List.map_eq_nil_iff]
    exact hnone
  simp only [State.rebuild, applyCommits, dropTables, if_neg hv, hfilter, List.map_nil,
    List.append_nil]

theorem typedWith_rebuild (hv : v ∈ exchanges) :
    (st.rebuild spark columns answers stamps exchanges cut).typedWith v =
      List.replicate (reachOf (st.bronze (source v))
        ((st.rebuild spark columns answers stamps exchanges cut).silver v)) (answers v) := by
  simp only [State.rebuild, if_pos hv]

variable (spark columns answers stamps cut st) in
theorem typedWith_rebuild_of_not_mem (hv : v ∉ exchanges) :
    (st.rebuild spark columns answers stamps exchanges cut).typedWith v = st.typedWith v := by
  simp only [State.rebuild, if_neg hv]

theorem mem_rebuildMade {c : Exchange × Int × DataSnapshot SilverTrade}
    (hc : c ∈ (st.rebuildMade spark columns answers stamps exchanges cut).filter
      fun c => c.1 = v) :
    ∃ stop frames batch,
      CommitOf spark columns st.bronze answers v c.2.1 c.2.2 stop frames batch := by
  obtain ⟨hmade, hcv⟩ := List.mem_filter.1 hc
  have hcommit := mem_rebuildCommits (List.mem_of_mem_take hmade)
  rwa [of_decide_eq_true hcv] at hcommit

/-- The position after the rebuild: the bronze snapshot of that time, from the first commit on. -/
theorem srcSnapshotId_rebuild (hv : v ∈ exchanges)
    (hvalid : ((st.rebuild spark columns answers stamps exchanges cut).silver v).Valid) :
    ((st.rebuild spark columns answers stamps exchanges cut).silver v).srcSnapshotId =
      if st.committedDays spark columns answers stamps exchanges cut v = [] then none
      else (st.bronze (source v)).current.map DataSnapshot.idText := by
  rw [silver_rebuild hv] at hvalid ⊢
  rw [State.committedDays]
  rcases List.eq_nil_or_concat ((st.rebuildMade spark columns answers stamps exchanges cut).filter
    fun c => c.1 = v) with hnil | ⟨earlier, c, hconcat⟩
  · rw [hnil]
    exact srcSnapshotId_nil
  · rw [List.concat_eq_append] at hconcat
    have hc : c ∈ (st.rebuildMade spark columns answers stamps exchanges cut).filter
        fun c => c.1 = v := by
      rw [hconcat]
      exact List.mem_concat_self
    obtain ⟨stop, frames, batch, hcommit⟩ := mem_rebuildMade hc
    have hsome : ((earlier ++ [c]).map fun c => c.2.1) ≠ [] := by simp
    rw [hconcat, List.map_append, List.map_singleton] at hvalid
    rw [hconcat, if_neg hsome, List.map_append, List.map_singleton, hcommit.current,
      srcSnapshotId_commit hvalid hcommit.summary]
    rfl

theorem sound_rebuild (h : Sound st)
    (hvalid : ∀ v, ((st.rebuild spark columns answers stamps exchanges cut).silver v).Valid) :
    Sound (st.rebuild spark columns answers stamps exchanges cut) := by
  refine ⟨h.bronze, fun v text htext => ?_⟩
  by_cases hv : v ∈ exchanges
  · rw [srcSnapshotId_rebuild hv (hvalid v)] at htext
    split at htext
    · cases htext
    · obtain ⟨stop, hstop, rfl⟩ := Option.map_eq_some_iff.1 htext
      exact ⟨_, DataTable.place_current (h.bronze _) hstop⟩
  · rw [silver_rebuild_of_not_mem _ _ _ _ _ _ hv] at htext
    exact h.placed v text htext

/-- With no commit the table is as it was created; else it is level with the bronze table. -/
theorem reach_rebuild (h : Sound st) (hv : v ∈ exchanges)
    (hvalid : ((st.rebuild spark columns answers stamps exchanges cut).silver v).Valid) :
    reachOf (st.bronze (source v))
        ((st.rebuild spark columns answers stamps exchanges cut).silver v) =
      if st.committedDays spark columns answers stamps exchanges cut v = [] then 0
      else (st.bronze (source v)).length := by
  have hstart := srcSnapshotId_rebuild hv hvalid
  split
  · rename_i hnone
    rw [if_pos hnone] at hstart
    rw [reachOf, hstart]
    rfl
  · rename_i hbegun
    obtain ⟨day, hday⟩ := List.exists_mem_of_ne_nil _ hbegun
    obtain ⟨c, hc, -⟩ := List.mem_map.1 hday
    obtain ⟨stop, frames, batch, hcommit⟩ := mem_rebuildMade hc
    rw [if_neg hbegun, hcommit.current, Option.map_some] at hstart
    exact reachOf_of_srcSnapshotId hstart (DataTable.place_current (h.bronze _) hcommit.current)

/-- What one commit of the rebuild holds: the frames of its day, typed. -/
theorem typed_committed (h : Sound st) {c : Exchange × Int × DataSnapshot SilverTrade}
    (hc : c ∈ (st.rebuildMade spark columns answers stamps exchanges cut).filter
      fun c => c.1 = v) :
    (∀ row ∈ (st.bronze (source v)).rows.filter (fun row => recvDay row = c.2.1),
        (typedTrades spark columns v (answers v) row).isSome) ∧
      c.2.2.rows.map SilverTrade.toTypedTrade =
        ((st.bronze (source v)).rows.filter fun row => recvDay row = c.2.1).flatMap fun row =>
          (typedTrades spark columns v (answers v) row).getD [] := by
  obtain ⟨stop, frames, batch, hcommit⟩ := mem_rebuildMade hc
  have hread := hcommit.read
  rw [framesOn, DataTable.readAt_eq (DataTable.place_current (h.bronze _) hcommit.current),
    List.take_length, Option.map_some, Option.some.injEq] at hread
  rw [hread, hcommit.rows]
  exact typed_of_batchOf hcommit.typed

variable (spark columns answers stamps cut) in
/-- The rows of the table: those of the days that were committed. -/
theorem rows_rebuild (h : Sound st) (hv : v ∈ exchanges) :
    (((st.rebuild spark columns answers stamps exchanges cut).silver v).rows.map
      SilverTrade.toTypedTrade).Perm
        ((st.committedDays spark columns answers stamps exchanges cut v).flatMap fun day =>
          ((st.bronze (source v)).rows.filter fun row => recvDay row = day).flatMap fun row =>
            (typedTrades spark columns v (answers v) row).getD []) := by
  rw [silver_rebuild hv, State.committedDays, DataTable.rows, List.flatMap_map, List.flatMap_map,
    List.map_flatMap]
  exact List.Perm.flatMap_left _ fun c hc => (typed_committed h hc).2 ▸ List.Perm.refl _

/-- **A rebuild leaves as many trades missing as there are in the days without a commit.** -/
theorem lacks_rebuild (h : Sound st) (hv : v ∈ exchanges)
    (hvalid : ((st.rebuild spark columns answers stamps exchanges cut).silver v).Valid) :
    Lacks columns (st.rebuild spark columns answers stamps exchanges cut) v
      (st.missed spark columns answers stamps exchanges cut v) := by
  have hreach : (st.rebuild spark columns answers stamps exchanges cut).reach v =
      if st.committedDays spark columns answers stamps exchanges cut v = [] then 0
      else (st.bronze (source v)).length := reach_rebuild h hv hvalid
  have hbronze : (st.rebuild spark columns answers stamps exchanges cut).bronze = st.bronze := rfl
  rw [Lacks, hreach, hbronze, State.missed]
  split
  · rename_i hnone
    have hcreated : (st.rebuild spark columns answers stamps exchanges cut).silver v = [] := by
      rw [silver_rebuild hv, List.map_eq_nil_iff]
      exact List.map_eq_nil_iff.1 hnone
    rw [hcreated, List.take_zero]
    rfl
  · have hlength := (rows_rebuild spark columns answers stamps cut h hv).length_eq
    have hdays : ∀ row ∈ (st.bronze (source v)).rows.filter (fun row => recvDay row ∈
        st.committedDays spark columns answers stamps exchanges cut v),
          (typedTrades spark columns v (answers v) row).isSome := by
      intro row hrow
      obtain ⟨hmem, hday⟩ := List.mem_filter.1 hrow
      obtain ⟨c, hc, hcd⟩ := List.mem_map.1 (of_decide_eq_true hday)
      exact (typed_committed h hc).1 row (List.mem_filter.2 ⟨hmem, decide_eq_true hcd.symm⟩)
    rw [List.length_map, (flatMap_slices_perm nodup_committedDays).length_eq,
      length_flatMap_typed hdays] at hlength
    rw [hlength, List.take_length, ← tradesIn_append]
    exact tradesIn_perm (List.filter_append_perm _ _)

/-- The table has what its position says exactly if it lacks nothing. -/
theorem holds_rebuild_iff (h : Sound st) (hv : v ∈ exchanges)
    (hvalid : ((st.rebuild spark columns answers stamps exchanges cut).silver v).Valid) :
    Holds spark columns (st.rebuild spark columns answers stamps exchanges cut) v ↔
      st.missed spark columns answers stamps exchanges cut v = 0 := by
  have hreach := reach_rebuild h hv hvalid
  rw [State.missed]
  split
  · rename_i hnone
    rw [if_pos hnone] at hreach
    have hcreated : (st.rebuild spark columns answers stamps exchanges cut).silver v = [] := by
      rw [silver_rebuild hv, List.map_eq_nil_iff]
      exact List.map_eq_nil_iff.1 hnone
    refine iff_of_true (holds_created hcreated ?_) rfl
    rw [typedWith_rebuild hv, hreach]
    rfl
  · rename_i hbegun
    rw [if_neg hbegun] at hreach
    have hbronze : (st.rebuild spark columns answers stamps exchanges cut).bronze = st.bronze := rfl
    rw [Holds, hbronze, typedWith_rebuild hv, hreach, List.map_replicate,
      copied_slices_iff hreach nodup_committedDays (fun row hrow hday => ?_)
        (rows_rebuild _ _ _ _ _ h hv),
      tradesIn_eq_zero_iff spark (answers v)]
    · constructor
      · intro hleft row hrow
        obtain ⟨hmem, hday⟩ := List.mem_filter.1 hrow
        refine Classical.byContradiction fun hne => ?_
        rw [decide_eq_true (hleft row hmem hne)] at hday
        cases hday
      · intro hnil row hmem hne
        refine Classical.byContradiction fun hday => hne (hnil row (List.mem_filter.2 ⟨hmem, ?_⟩))
        rw [decide_eq_false hday]
        rfl
    · obtain ⟨c, hc, hcd⟩ := List.mem_map.1 hday
      exact (typed_committed h hc).1 row (List.mem_filter.2 ⟨hrow, decide_eq_true hcd.symm⟩)

end Tables

/-! ## Every history -/

section Lived

variable {spark : SparkText} {J : Type} {columns : TradeColumns J} {st : State J}
  {missed : Exchange → Nat}

/-- Steps and rebuilds, one after the other, and what the last rebuild of each table missed. -/
inductive Lived (spark : SparkText) (columns : TradeColumns J) :
    State J → (Exchange → Nat) → Prop
  | start : Lived spark columns State.start fun _ => 0
  | step {st st' : State J} {missed : Exchange → Nat} : Lived spark columns st missed →
      Step spark columns st st' → Lived spark columns st' missed
  | rebuild {st : State J} {missed : Exchange → Nat} (answers : Exchange → Registry × Int)
      (stamps : Int → Exchange → Nat × Int) (exchanges : List Exchange) (cut : Nat) :
      Lived spark columns st missed →
      (∀ v, ((st.rebuild spark columns answers stamps exchanges cut).silver v).Valid) →
      Lived spark columns (st.rebuild spark columns answers stamps exchanges cut) fun v =>
        if v ∈ exchanges then st.missed spark columns answers stamps exchanges cut v else missed v

theorem sound_of_lived (h : Lived spark columns st missed) : Sound st := by
  induction h with
  | start => exact sound_start
  | step _ hstep ih => exact sound_step ih hstep
  | rebuild answers stamps exchanges cut _ hvalid ih => exact sound_rebuild ih hvalid

theorem lacks_of_lived (h : Lived spark columns st missed) (v : Exchange) :
    Lacks columns st v (missed v) ∧ (missed v = 0 → Holds spark columns st v) := by
  induction h with
  | start =>
    have hcreated : Holds spark columns (State.start : State J) v := holds_created rfl rfl
    exact ⟨lacks_zero_of_holds hcreated, fun _ => hcreated⟩
  | step hlived hstep ih =>
    have hsound := sound_of_lived hlived
    exact ⟨ih.1.step hsound hstep, fun hzero => (ih.2 hzero).step hsound hstep⟩
  | @rebuild st missed answers stamps exchanges cut hlived hvalid ih =>
    have hsound := sound_of_lived hlived
    by_cases hv : v ∈ exchanges
    · simp only [if_pos hv]
      exact ⟨lacks_rebuild hsound hv (hvalid v), (holds_rebuild_iff hsound hv (hvalid v)).2⟩
    · simp only [if_neg hv]
      have hsilver := silver_rebuild_of_not_mem spark columns answers stamps cut st hv
      have htyped := typedWith_rebuild_of_not_mem spark columns answers stamps cut st hv
      have hbronze : (st.rebuild spark columns answers stamps exchanges cut).bronze = st.bronze :=
        rfl
      rw [Lacks, State.reach, Holds, hsilver, htyped, hbronze]
      exact ih

/-- **The parity audit of silver is exact.**  In every history of runs, maintenance and rebuilds,
    each killed anywhere, the audit can read the snapshot that it needs, it observes how many
    trades the last rebuild of the table left out, and it passes exactly if the table has each
    trade of the frames up to its position once. -/
theorem silver_parity_exact (h : Lived spark columns st missed) (v : Exchange) :
    ∃ result, auditSilverParity columns st v = some result ∧
      result.observed = -(missed v : Int) ∧
      (result.passed = true ↔ Holds spark columns st v) := by
  obtain ⟨hlacks, hholds⟩ := lacks_of_lived h v
  have hiff : missed v = 0 ↔ Holds spark columns st v := by
    refine ⟨hholds, fun hheld => ?_⟩
    have hzero := lacks_zero_of_holds hheld
    rw [Lacks] at hlacks hzero
    omega
  have hsound := sound_of_lived h
  unfold auditSilverParity
  split
  · rename_i hstart
    have hcreated : missed v = 0 := by
      have hreach : st.reach v = 0 := by rw [State.reach, reachOf, hstart]; rfl
      rw [Lacks, hreach, List.take_zero] at hlacks
      have hnone : tradesIn columns v (DataTable.rows []) = 0 := rfl
      omega
    refine ⟨_, rfl, ?_, iff_of_true rfl (hiff.1 hcreated)⟩
    rw [hcreated]
    rfl
  · rename_i src hsrc
    have hread := DataTable.readAt_eq (place_srcSnapshotId (hsound.placed v) hsrc)
    rw [hread]
    have hcount : (st.silver v).rows.length + missed v = tradesIn columns v
        (DataTable.rows ((st.bronze (source v)).take (st.reach v))) := hlacks
    refine ⟨_, rfl, ?_, ?_⟩
    · show ((st.silver v).rows.length : Int) - (tradesIn columns v
        (DataTable.rows ((st.bronze (source v)).take (st.reach v))) : Int) = -(missed v : Int)
      omega
    · show decide (tradesIn columns v (DataTable.rows ((st.bronze (source v)).take (st.reach v))) =
        (st.silver v).rows.length) = true ↔ Holds spark columns st v
      rw [decide_eq_true_iff, ← hiff]
      omega

end Lived

/-! ## A rebuild that is killed -/

/-- The frame again, a day later. -/
def dayLater : BronzeRow Unit :=
  { frameAt "market.crypto.v3.raw" with recvTs := 86401000000, srcOffset := 6 }

def twoDays (t : VenueTable) : BronzeTable Unit :=
  if t = .krakenTrade then [⟨91, 10, Dict.empty, [frameAt "market.crypto.v3.raw", dayLater]⟩] else []

def archived : State Unit := { (State.start : State Unit) with bronze := twoDays }

def krakenListed : Exchange → Registry × Int := fun _ => (listing .kraken ["BTC/USD"], 3000000)

def dayStamps : Int → Exchange → Nat × Int := fun _ _ => (92, 20)

/-- Killed after the first day. -/
def halfRebuilt : State Unit :=
  archived.rebuild frameText frameColumns krakenListed dayStamps [.kraken] 1

/-- The audit misses the trade of the second day. -/
theorem day_reported : ∃ result, auditSilverParity frameColumns halfRebuilt .kraken = some result ∧
    result.observed = -1 ∧ ¬ Holds frameText frameColumns halfRebuilt .kraken := by
  have hgrown : Lived frameText frameColumns archived fun _ => 0 := by
    refine Lived.step Lived.start (Step.grow twoDays (fun _ => List.nil_prefix) fun t => ?_)
    refine DataTable.Valid.of_length_le_one ?_
    unfold twoDays
    split
    · exact le_rfl
    · exact Nat.zero_le 1
  have hvalid : ∀ v, (halfRebuilt.silver v).Valid := fun v =>
    DataTable.Valid.of_length_le_one (by cases v <;> decide +kernel)
  have hmissed : archived.missed frameText frameColumns krakenListed dayStamps [.kraken] 1 .kraken =
      1 := by decide +kernel
  obtain ⟨result, haudit, hobserved, hpassed⟩ := silver_parity_exact
    (Lived.rebuild krakenListed dayStamps [.kraken] 1 hgrown hvalid) .kraken
  rw [if_pos List.mem_cons_self, hmissed] at hobserved
  refine ⟨result, haudit, hobserved, fun hholds => ?_⟩
  have hnone := (holds_rebuild_iff (sound_of_lived hgrown) List.mem_cons_self (hvalid .kraken)).1
    hholds
  exact absurd (hmissed.symm.trans hnone) Nat.one_ne_zero

end SilverTrades

end K2.Lake

import K2Platform.Lake.BronzeDecode

/-!
# Bronze, rebuilt

Model of `rebuild.py --layer bronze` and of `bronze.py::rebuild`: the venues' tables are dropped,
and `raw.messages` is decoded into them one day after the other, as of a snapshot that is pinned
first.  The commits of every day record the pinned snapshot.  A rebuild may be killed between any
two commits.

* `holds_rebuild_iff` — when a table has what its position says, by the days that were committed.
* `bronze_rebuild_settled_iff` — when the runs that come after refuse the venue, or go on from what
  its tables hold.
-/

set_option autoImplicit false

namespace K2.Lake.Bronze

open Relation

/-! ## The rebuild -/

/-- `to_date(kafka_ts)`, in days since 1970-01-01. -/
def kafkaDay (row : RawRow) : Int := row.kafkaTs / 86400000000

/-- `archive_days`. -/
def archiveDays (raw : DataTable RawRow) (exchanges : List Exchange) : List Int :=
  sortOn id ((raw.rows.filter fun row => exchanges.any fun v =>
    (".raw." ++ v.name).toList.isSuffixOf row.topic.toList).map kafkaDay).dedup

/-- The order in which a rebuild goes through venues and days. -/
def slicesOf (exchanges : List Exchange) (days : List Int) : List (Exchange × Int) :=
  (EXCHANGES.filter fun v => v ∈ exchanges).flatMap fun v => days.map fun day => (v, day)

section Rebuild

variable {J : Type} (readers : Readers J) (raw : DataTable RawRow) (rawSnapshotId : String)
  (registry : Exchange → Registry) (stamps : Int → VenueTable → Nat × Int)

/-- `_source` for one day. -/
def sourceOn (v : Exchange) (day : Int) : Option (List RawRow) :=
  (raw.readAt rawSnapshotId).map fun rows : List RawRow =>
    (rows.filter (isFrameOf v)).filter fun row => kafkaDay row = day

/-- The commits of a rebuild, each with the day that it is of. -/
def rebuildCommits :
    List (Exchange × Int) → List (Int × VenueTable × DataSnapshot (BronzeRow J))
  | [] => []
  | slice :: slices =>
    match (sourceOn raw rawSnapshotId slice.1 slice.2).bind fun source =>
        decode readers rawSnapshotId (stamps slice.2) (registry slice.1) source slice.1 with
    | none => []
    | some commits => (commits.map fun c => (slice.2, c)) ++ rebuildCommits slices

end Rebuild

/-- The tables dropped and re-created. -/
def dropTables {J : Type} (bronze : VenueTable → BronzeTable J) (exchanges : List Exchange)
    (t : VenueTable) : BronzeTable J :=
  if t.exchange ∈ exchanges then [] else bronze t

namespace State

variable {J : Type} (readers : Readers J) (registry : Exchange → Registry)
  (stamps : Int → VenueTable → Nat × Int) (exchanges : List Exchange) (cut : Nat) (st : State J)

/-- The commits made by a rebuild that is killed after `cut` of them. -/
def rebuildMade : List (Int × VenueTable × DataSnapshot (BronzeRow J)) :=
  match st.raw.current with
  | none => []
  | some pinned => (rebuildCommits readers st.raw pinned.idText registry stamps
      (slicesOf exchanges (archiveDays st.raw exchanges))).take cut

/-- `rebuild.py --layer bronze`, for these venues; with no frames there is nothing to do. -/
def rebuild : State J :=
  if archiveDays st.raw exchanges = [] then st
  else
    let bronze := applyCommits (dropTables st.bronze exchanges)
      ((st.rebuildMade readers registry stamps exchanges cut).map Prod.snd)
    { st with
      bronze := bronze
      decodedWith := fun t =>
        if t.exchange ∈ exchanges then
          List.replicate (reachOf st.raw (bronze t)) (registry t.exchange)
        else st.decodedWith t }

/-- The days that were committed to a table. -/
def committedDays (t : VenueTable) : List Int :=
  ((st.rebuildMade readers registry stamps exchanges cut).filter fun c => c.2.1 = t).map Prod.fst

end State

/-- The runs refuse the venue, or its tables hold what their positions say. -/
def Settled {J : Type} (readers : Readers J) (st : State J) (v : Exchange) : Prop :=
  (∀ rawSnapshotId registry stamps,
    venueCommits readers st.raw rawSnapshotId registry stamps st.bronze v = none) ∨
  ∀ t ∈ tablesOf v, Holds readers st t

/-! ## The commits -/

section Commits

variable {J : Type} {readers : Readers J} {raw : DataTable RawRow} {rawSnapshotId : String}
  {registry : Exchange → Registry} {stamps : Int → VenueTable → Nat × Int}
  {slices : List (Exchange × Int)}

/-- What a commit of a rebuild is: one day of a venue, decoded, for one of its tables. -/
structure CommitOf (readers : Readers J) (raw : DataTable RawRow) (rawSnapshotId : String)
    (registry : Exchange → Registry) (stamps : Int → VenueTable → Nat × Int)
    (c : Int × VenueTable × DataSnapshot (BronzeRow J)) (source : List RawRow)
    (frames : List Frame) : Prop where
  read : sourceOn raw rawSnapshotId c.2.1.exchange c.1 = some source
  decoded : decodedRaw readers (registry c.2.1.exchange) source = .frames frames
  commit : c.2.2 = commitOf readers rawSnapshotId (stamps c.1) frames c.2.1

theorem mem_rebuildCommits {c : Int × VenueTable × DataSnapshot (BronzeRow J)} :
    c ∈ rebuildCommits readers raw rawSnapshotId registry stamps slices →
      (c.2.1.exchange, c.1) ∈ slices ∧
        ∃ source frames, CommitOf readers raw rawSnapshotId registry stamps c source frames := by
  induction slices with
  | nil => exact fun h => absurd h List.not_mem_nil
  | cons slice slices ih =>
    intro h
    unfold rebuildCommits at h
    split at h
    · exact absurd h List.not_mem_nil
    · rename_i commits hcommits
      rcases List.mem_append.1 h with hmem | hmem
      · obtain ⟨source, hsource, hdecode⟩ := Option.bind_eq_some_iff.1 hcommits
        obtain ⟨d, hd, rfl⟩ := List.mem_map.1 hmem
        rcases decode_cases hdecode with rfl | ⟨frames, hframes, rfl⟩
        · exact absurd hd List.not_mem_nil
        · obtain ⟨t, ht, rfl⟩ := List.mem_map.1 hd
          have hv : t.exchange = slice.1 := mem_tablesOf.1 ht
          refine ⟨List.mem_cons.2 (Or.inl ?_), source, frames, ?_, ?_, rfl⟩
          · simp only [hv]
          · simpa only [hv] using hsource
          · simpa only [hv] using hframes
      · obtain ⟨hslice, hcommit⟩ := ih hmem
        exact ⟨List.mem_cons_of_mem _ hslice, hcommit⟩

/-- A day is committed to a table once. -/
theorem nodup_rebuildCommits (hslices : slices.Nodup) :
    ((rebuildCommits readers raw rawSnapshotId registry stamps slices).map
      fun c => (c.1, c.2.1)).Nodup := by
  induction slices with
  | nil => exact List.nodup_nil
  | cons slice slices ih =>
    obtain ⟨hnew, hrest⟩ := List.nodup_cons.1 hslices
    unfold rebuildCommits
    split
    · exact List.nodup_nil
    · rename_i commits hcommits
      obtain ⟨source, -, hdecode⟩ := Option.bind_eq_some_iff.1 hcommits
      have hlabels : ((commits.map fun c => (slice.2, c)).map fun c => (c.1, c.2.1)) =
          (commits.map Prod.fst).map fun t => (slice.2, t) := by
        rw [List.map_map, List.map_map]
        rfl
      have htables : (commits.map Prod.fst).Nodup ∧ ∀ t ∈ commits.map Prod.fst,
          t.exchange = slice.1 := by
        rcases decode_cases hdecode with rfl | ⟨frames, -, rfl⟩
        · exact ⟨List.nodup_nil, fun t ht => absurd ht List.not_mem_nil⟩
        · rw [List.map_map]
          have hid : (Prod.fst ∘ fun t => (t, commitOf readers rawSnapshotId (stamps slice.2)
              frames t)) = id := rfl
          rw [hid, List.map_id]
          exact ⟨(show VENUE_TABLES.Nodup by decide).filter _, fun t ht => mem_tablesOf.1 ht⟩
      rw [List.map_append, hlabels]
      refine List.nodup_append.2 ⟨htables.1.map fun a b h => (Prod.ext_iff.1 h).2, ih hrest, ?_⟩
      rintro _ ha _ hb rfl
      obtain ⟨t, ht, rfl⟩ := List.mem_map.1 ha
      obtain ⟨c, hc, hlabel⟩ := List.mem_map.1 hb
      obtain ⟨hday, htable⟩ := Prod.ext_iff.1 hlabel
      have hslice := (mem_rebuildCommits hc).1
      simp only at hday htable
      rw [hday, htable, htables.2 t ht] at hslice
      exact hnew hslice

end Commits

/-! ## The tables -/

section Tables

variable {J : Type} {readers : Readers J} {registry : Exchange → Registry}
  {stamps : Int → VenueTable → Nat × Int} {exchanges : List Exchange} {cut : Nat} {st : State J}
  {pinned : DataSnapshot RawRow} {t : VenueTable}

theorem current_of_archiveDays (hdays : archiveDays st.raw exchanges ≠ []) :
    ∃ pinned, st.raw.current = some pinned := by
  cases hcurrent : st.raw.current with
  | some pinned => exact ⟨pinned, rfl⟩
  | none =>
    rw [List.getLast?_eq_none_iff.1 hcurrent] at hdays
    exact absurd rfl hdays

theorem nodup_slicesOf (exchanges : List Exchange) {days : List Int} (hdays : days.Nodup) :
    (slicesOf exchanges days).Nodup := by
  have hvenues : (EXCHANGES.filter fun v => v ∈ exchanges).Nodup :=
    (show EXCHANGES.Nodup by decide).filter _
  refine List.nodup_flatMap.2 ⟨fun v _ => hdays.map fun a b h => (Prod.ext_iff.1 h).2, ?_⟩
  refine hvenues.imp fun {v w} hne => ?_
  intro slice hv hw
  obtain ⟨a, -, rfl⟩ := List.mem_map.1 hv
  obtain ⟨b, -, hb⟩ := List.mem_map.1 hw
  exact hne (Prod.ext_iff.1 hb).1.symm

theorem exchange_of_mem_slicesOf {days : List Int} {slice : Exchange × Int}
    (h : slice ∈ slicesOf exchanges days) : slice.1 ∈ exchanges := by
  obtain ⟨v, hv, hslice⟩ := List.mem_flatMap.1 h
  obtain ⟨day, -, rfl⟩ := List.mem_map.1 hslice
  exact of_decide_eq_true (List.mem_filter.1 hv).2

theorem nodup_archiveDays (raw : DataTable RawRow) (exchanges : List Exchange) :
    (archiveDays raw exchanges).Nodup :=
  (sortOn_perm _ _).nodup_iff.2 (List.nodup_dedup _)

theorem nodup_rebuildMade :
    ((st.rebuildMade readers registry stamps exchanges cut).map fun c => (c.1, c.2.1)).Nodup := by
  unfold State.rebuildMade
  split
  · exact List.nodup_nil
  · exact (nodup_rebuildCommits (nodup_slicesOf exchanges (nodup_archiveDays st.raw
      exchanges))).sublist ((List.take_sublist cut _).map _)

theorem nodup_committedDays :
    (st.committedDays readers registry stamps exchanges cut t).Nodup := by
  have hof : (((st.rebuildMade readers registry stamps exchanges cut).filter
      fun c => c.2.1 = t).map fun c => (c.1, c.2.1)).Nodup :=
    nodup_rebuildMade.sublist (List.filter_sublist.map _)
  refine List.Nodup.map_on (fun c hc d hd hday => ?_) hof.of_map
  have hc' := of_decide_eq_true (List.mem_filter.1 hc).2
  have hd' := of_decide_eq_true (List.mem_filter.1 hd).2
  exact List.inj_on_of_nodup_map hof hc hd (Prod.ext hday (hc'.trans hd'.symm))

theorem raw_rebuild : (st.rebuild readers registry stamps exchanges cut).raw = st.raw := by
  unfold State.rebuild
  split <;> rfl

theorem decodedWith_rebuild (hdays : archiveDays st.raw exchanges ≠ [])
    (ht : t.exchange ∈ exchanges) :
    (st.rebuild readers registry stamps exchanges cut).decodedWith t =
      List.replicate (reachOf st.raw ((st.rebuild readers registry stamps exchanges cut).bronze t))
        (registry t.exchange) := by
  simp only [State.rebuild, if_neg hdays, if_pos ht]

/-- The table after the rebuild: the commits to it, in their order. -/
theorem bronze_rebuild (hdays : archiveDays st.raw exchanges ≠ []) (ht : t.exchange ∈ exchanges) :
    (st.rebuild readers registry stamps exchanges cut).bronze t =
      ((st.rebuildMade readers registry stamps exchanges cut).filter
        fun c => c.2.1 = t).map fun c => c.2.2 := by
  rw [State.rebuild, if_neg hdays]
  simp only [applyCommits, dropTables, if_pos ht, List.nil_append, List.filter_map, List.map_map]
  rfl

theorem bronze_rebuild_of_not_mem (hdays : archiveDays st.raw exchanges ≠ [])
    (ht : t.exchange ∉ exchanges) :
    (st.rebuild readers registry stamps exchanges cut).bronze t = st.bronze t := by
  have hnone : ((st.rebuildMade readers registry stamps exchanges cut).map Prod.snd).filter
      (fun c => decide (c.1 = t)) = [] := by
    refine List.filter_eq_nil_iff.2 fun d hd htable => ht ?_
    obtain ⟨c, hc, rfl⟩ := List.mem_map.1 hd
    obtain ⟨pinned, hcurrent⟩ := current_of_archiveDays hdays
    rw [State.rebuildMade, hcurrent] at hc
    have hslice := (mem_rebuildCommits (List.mem_of_mem_take hc)).1
    rw [of_decide_eq_true htable] at hslice
    exact exchange_of_mem_slicesOf hslice
  rw [State.rebuild, if_neg hdays]
  simp only [applyCommits, dropTables, if_neg ht, hnone, List.map_nil, List.append_nil]

theorem mem_rebuildMade (hcurrent : st.raw.current = some pinned)
    {c : Int × VenueTable × DataSnapshot (BronzeRow J)}
    (hc : c ∈ (st.rebuildMade readers registry stamps exchanges cut).filter fun c => c.2.1 = t) :
    c.2.1 = t ∧ ∃ source frames,
      CommitOf readers st.raw pinned.idText registry stamps c source frames := by
  obtain ⟨hmade, htable⟩ := List.mem_filter.1 hc
  rw [State.rebuildMade, hcurrent] at hmade
  exact ⟨of_decide_eq_true htable, (mem_rebuildCommits (List.mem_of_mem_take hmade)).2⟩

/-- The position after the rebuild: the pinned snapshot, from the first commit to the table on. -/
theorem srcSnapshotId_rebuild (hcurrent : st.raw.current = some pinned)
    (hdays : archiveDays st.raw exchanges ≠ []) (ht : t.exchange ∈ exchanges)
    (hvalid : ((st.rebuild readers registry stamps exchanges cut).bronze t).Valid) :
    ((st.rebuild readers registry stamps exchanges cut).bronze t).srcSnapshotId =
      if st.committedDays readers registry stamps exchanges cut t = [] then none
      else some pinned.idText := by
  rw [bronze_rebuild hdays ht] at hvalid ⊢
  rw [State.committedDays]
  rcases List.eq_nil_or_concat ((st.rebuildMade readers registry stamps exchanges cut).filter
    fun c => c.2.1 = t) with hnil | ⟨earlier, c, hconcat⟩
  · rw [hnil]
    exact srcSnapshotId_nil
  · rw [List.concat_eq_append] at hconcat
    have hc : c ∈ (st.rebuildMade readers registry stamps exchanges cut).filter
        fun c => c.2.1 = t := by
      rw [hconcat]
      exact List.mem_concat_self
    obtain ⟨-, source, frames, hcommit⟩ := mem_rebuildMade hcurrent hc
    have hsome : ((earlier ++ [c]).map Prod.fst) ≠ [] := by simp
    rw [hconcat, List.map_append, List.map_singleton, hcommit.commit] at hvalid
    rw [hconcat, if_neg hsome, List.map_append, List.map_singleton, hcommit.commit]
    exact srcSnapshotId_commit hvalid rfl

theorem placed_rebuild (hplaced : ∀ t, Placed st.raw (st.bronze t)) (hraw : st.raw.Valid)
    (hcurrent : st.raw.current = some pinned) (hdays : archiveDays st.raw exchanges ≠ [])
    (hvalid : ∀ t, ((st.rebuild readers registry stamps exchanges cut).bronze t).Valid) :
    ∀ t, Placed (st.rebuild readers registry stamps exchanges cut).raw
      ((st.rebuild readers registry stamps exchanges cut).bronze t) := by
  rw [raw_rebuild]
  intro t text htext
  by_cases ht : t.exchange ∈ exchanges
  · rw [srcSnapshotId_rebuild hcurrent hdays ht (hvalid t)] at htext
    split at htext
    · cases htext
    · cases htext
      exact ⟨_, DataTable.place_current hraw.ids hcurrent⟩
  · rw [bronze_rebuild_of_not_mem hdays ht] at htext
    exact hplaced t text htext

/-- What one commit of the rebuild holds: its day, decoded. -/
theorem making_committed (hraw : st.raw.Valid) (hcurrent : st.raw.current = some pinned)
    {c : Int × VenueTable × DataSnapshot (BronzeRow J)}
    (hc : c ∈ (st.rebuildMade readers registry stamps exchanges cut).filter fun c => c.2.1 = t) :
    (∀ row ∈ st.raw.rows.filter (fun row => kafkaDay row = c.1),
        (making readers t (registry t.exchange) row).isSome) ∧
      c.2.2.rows.Perm ((st.raw.rows.filter fun row => kafkaDay row = c.1).flatMap fun row =>
        (making readers t (registry t.exchange) row).getD []) := by
  obtain ⟨htable, source, frames, hcommit⟩ := mem_rebuildMade hcurrent hc
  have hread := hcommit.read
  have hdecoded := hcommit.decoded
  rw [htable] at hread hdecoded
  rw [sourceOn, DataTable.readAt_eq (DataTable.place_current hraw.ids hcurrent),
    List.take_length, Option.map_some, Option.some.injEq] at hread
  have hsource : source = (st.raw.rows.filter fun row => kafkaDay row = c.1).filter
      (isFrameOf t.exchange) := by
    rw [← hread]
    exact List.filter_comm ..
  rw [hsource] at hdecoded
  rw [hcommit.commit, htable]
  exact making_range hdecoded

/-- What the table's position says is there, exactly if no day is left that has a frame for it. -/
theorem holds_rebuild_iff (hraw : st.raw.Valid) (hcurrent : st.raw.current = some pinned)
    (hdays : archiveDays st.raw exchanges ≠ []) (ht : t.exchange ∈ exchanges)
    (hvalid : ((st.rebuild readers registry stamps exchanges cut).bronze t).Valid)
    (hbegun : st.committedDays readers registry stamps exchanges cut t ≠ []) :
    Holds readers (st.rebuild readers registry stamps exchanges cut) t ↔
      ∀ row ∈ st.raw.rows, making readers t (registry t.exchange) row ≠ some [] →
        kafkaDay row ∈ st.committedDays readers registry stamps exchanges cut t := by
  have hreach : reachOf st.raw ((st.rebuild readers registry stamps exchanges cut).bronze t) =
      st.raw.length := by
    refine reachOf_of_srcSnapshotId ?_ (DataTable.place_current hraw.ids hcurrent)
    rw [srcSnapshotId_rebuild hcurrent hdays ht hvalid, if_neg hbegun]
  rw [Holds, raw_rebuild, decodedWith_rebuild hdays ht, hreach, List.map_replicate]
  refine copied_slices_iff hreach nodup_committedDays (fun row hrow hday => ?_) ?_
  · obtain ⟨c, hc, hkey⟩ := List.mem_map.1 hday
    exact (making_committed hraw hcurrent hc).1 row
      (List.mem_filter.2 ⟨hrow, decide_eq_true hkey.symm⟩)
  · rw [List.map_id, bronze_rebuild hdays ht, State.committedDays, DataTable.rows,
      List.flatMap_map, List.flatMap_map]
    exact List.Perm.flatMap_left _ fun c hc => (making_committed hraw hcurrent hc).2

/-- Tables that have all had their first commit are level with the pinned snapshot. -/
theorem venueCommits_rebuild {v : Exchange} (hcurrent : st.raw.current = some pinned)
    (hdays : archiveDays st.raw exchanges ≠ []) (hv : v ∈ exchanges)
    (hvalid : ∀ t, ((st.rebuild readers registry stamps exchanges cut).bronze t).Valid)
    (hbegun : ∀ t ∈ tablesOf v, st.committedDays readers registry stamps exchanges cut t ≠ [])
    (raw : DataTable RawRow) (runStamps : VenueTable → Nat × Int) :
    venueCommits readers raw pinned.idText registry runStamps
      (st.rebuild readers registry stamps exchanges cut).bronze v = some [] := by
  have hne : pinned.idText ≠ "" := Nat.repr_ne_empty
  refine venueCommits_of_level hne fun t ht => ?_
  have hmem : t.exchange ∈ exchanges := mem_tablesOf.1 ht ▸ hv
  rw [srcSnapshotId_rebuild hcurrent hdays hmem (hvalid t), if_neg (hbegun t ht)]

end Tables

/-! ## The runs after it -/

section After

variable {J : Type} (readers : Readers J) (registry : Exchange → Registry)
  (stamps : Int → VenueTable → Nat × Int) (exchanges : List Exchange) (cut : Nat)

/-- A table of the venue has not had its first commit, or no day is left that has a frame for one. -/
def NoDayHidden (st : State J) (v : Exchange) : Prop :=
  (∃ t ∈ tablesOf v, st.committedDays readers registry stamps exchanges cut t = []) ∨
  ∀ t ∈ tablesOf v, ∀ row ∈ st.raw.rows, making readers t (registry v) row ≠ some [] →
    kafkaDay row ∈ st.committedDays readers registry stamps exchanges cut t

instance [DecidableEq J] (st : State J) (v : Exchange) :
    Decidable (NoDayHidden readers registry stamps exchanges cut st v) :=
  inferInstanceAs (Decidable (_ ∨ _))

variable {readers registry stamps exchanges cut} {st st' : State J} {v : Exchange}

theorem valid_raw_of_reached (h : Reached readers st) : st.raw.Valid := by
  induction h with
  | refl => exact ⟨List.nodup_nil, List.Pairwise.nil⟩
  | tail _ hstep ih =>
    cases hstep with
    | grow raw _ hvalid => exact hvalid
    | maintain t s _ _ _ => exact ih
    | run rawSnapshotId registry stamps cut _ => exact ih

/-- Tables without a commit are as they were created; if others have one, the venue is torn. -/
theorem settled_of_not_begun (hplaced : ∀ t, Placed (st.rebuild readers registry stamps exchanges
      cut).raw ((st.rebuild readers registry stamps exchanges cut).bronze t))
    (hdays : archiveDays st.raw exchanges ≠ []) (hv : v ∈ exchanges)
    (hvalid : ∀ t, ((st.rebuild readers registry stamps exchanges cut).bronze t).Valid)
    {t : VenueTable} (ht : t ∈ tablesOf v)
    (hnone : st.committedDays readers registry stamps exchanges cut t = [])
    (hsteps : ReflTransGen (Step readers) (st.rebuild readers registry stamps exchanges cut) st') :
    Settled readers st' v := by
  obtain ⟨pinned, hcurrent⟩ := current_of_archiveDays hdays
  by_cases hall : ∀ u ∈ tablesOf v, st.committedDays readers registry stamps exchanges cut u = []
  · right
    intro u hu
    have hmem : u.exchange ∈ exchanges := mem_tablesOf.1 hu ▸ hv
    have hcreated : (st.rebuild readers registry stamps exchanges cut).bronze u = [] := by
      rw [bronze_rebuild hdays hmem, List.map_eq_nil_iff]
      exact List.map_eq_nil_iff.1 (hall u hu)
    have hanswers : (st.rebuild readers registry stamps exchanges cut).decodedWith u = [] := by
      rw [decodedWith_rebuild hdays hmem, hcreated]
      rfl
    exact (holds_created hcreated hanswers).steps hplaced hsteps
  · left
    obtain ⟨u, hu, hbegun⟩ : ∃ u ∈ tablesOf v,
        st.committedDays readers registry stamps exchanges cut u ≠ [] := by
      simpa using hall
    have hstart : ∀ w ∈ tablesOf v, ((st.rebuild readers registry stamps exchanges
        cut).bronze w).srcSnapshotId = if st.committedDays readers registry stamps exchanges cut w =
          [] then none else some pinned.idText := fun w hw =>
      srcSnapshotId_rebuild hcurrent hdays (mem_tablesOf.1 hw ▸ hv) (hvalid w)
    have htorn : Torn (st.rebuild readers registry stamps exchanges cut).bronze v := by
      refine ⟨u, hu, t, ht, ?_⟩
      rw [hstart t ht, hstart u hu, if_pos hnone, if_neg hbegun]
      exact Option.some_ne_none _
    have hsame := torn_forever hplaced htorn hsteps
    intro rawSnapshotId registry' runStamps
    exact venueCommits_of_torn (placed_steps hplaced hsteps)
      (torn_of_same (fun w hw => (hsame w hw).1) htorn) _ _ _

end After

/-! ## Two days -/

/-- A trade frame of Kraken on each of two days. -/
def twoDays : DataTable RawRow :=
  [⟨71, 10, Dict.empty, [framedRow 5 (emptyFrame "kraken" "trade" 4),
    { framedRow 8 (emptyFrame "kraken" "trade" 6) with kafkaTs := 86400000001 }]⟩]

def twoDaysArchived : State (List (Option String)) :=
  { (State.start : State (List (Option String))) with raw := twoDays }

def dayStamps (day : Int) (_ : VenueTable) : Nat × Int := (72 + day.toNat, 20 + day)

/-- Kraken's three tables, rebuilt, and killed after this many commits. -/
def twoDaysRebuilt (cut : Nat) : State (List (Option String)) :=
  twoDaysArchived.rebuild emptyFrameReaders oneSchema dayStamps [.kraken] cut

theorem twoDaysRebuilt_eval :
    (∀ cut ∈ [3, 6], ∀ t ∈ VENUE_TABLES, ((twoDaysRebuilt cut).bronze t).Valid) ∧
    (¬ NoDayHidden emptyFrameReaders oneSchema dayStamps [.kraken] 3 twoDaysArchived .kraken ∧
      NoDayHidden emptyFrameReaders oneSchema dayStamps [.kraken] 6 twoDaysArchived .kraken) ∧
    ((twoDaysRebuilt 3).bronze .krakenTrade).rows.map BronzeRow.srcOffset = [5] ∧
    ((twoDaysRebuilt 6).bronze .krakenTrade).rows.map BronzeRow.srcOffset = [5, 8] := by
  decide +kernel

end K2.Lake.Bronze

import Mathlib.Algebra.BigOperators.Group.List.Basic
import K2Platform.Lake.BronzeDecode

/-!
# What a decode files

`bronze.decode` counts what it was given, what it wrote and what it left in the archive on purpose,
and files the difference in `audit.checks`, with a row for each schema id that the registry does not
serve.  It files after it has written, and a failure to file is swallowed: a run that is killed in
between, or whose rows do not land, has moved the position and says nothing.

* `venueDeeds`, `stageDeeds` — a run with the rows it files; `commits_stageDeeds` — its commits are
  those of the stage.
* `observed_eq` — what one decode observes is the number of the frames that are nowhere.
* `decode_accounted` — over every history.
-/

set_option autoImplicit false

namespace K2.Lake

namespace Bronze

open K2.Capture (RawMessageRecord)
open Relation

/-! ## The findings -/

/-- `routed_streams`. -/
def routedStreams (v : Exchange) : List String := (tablesOf v).map VenueTable.stream

/-- `~F.col("r.stream").isin(routed_streams(exchange))`, which holds of no NULL. -/
def isUnrouted (v : Exchange) (frame : Frame) : Bool :=
  frame.2.any fun r => r.stream ∉ routedStreams v

def unresolvable (registry : Registry) (source : List RawRow) : List Nat :=
  (schemaIds source).filter fun id => registry id = .unresolvable

/-- `exc` is the text of the exception of each id. -/
def unresolvableRow (runTs : Int) (exc : Nat → String) (v : Exchange) (id : Nat) : CheckRow where
  runTs := runTs
  job := "ingest"
  checkName := "unresolvable_schema_id"
  scope := "bronze." ++ v.name ++ "/schema_id=" ++ toString id
  passed := false
  observed := id
  detail := exc id

def parityRow (runTs : Int) (rawSnapshotId : String) (v : Exchange)
    (nInput nRouted nUnrouted : Nat) : CheckRow where
  runTs := runTs
  job := "ingest"
  checkName := "bronze_parity"
  scope := "bronze." ++ v.name
  passed := false
  observed := nInput - nRouted - nUnrouted
  detail := toString nInput ++ " raw frames in the range, " ++ toString nRouted ++ " written, " ++
    toString nUnrouted ++ " control; src snapshot " ++ rawSnapshotId

/-- What a run does, one after the other: a write, or `write_audit_rows`, which says whether its
    commit to `audit.checks` landed and does not raise where it did not. -/
inductive Deed (J : Type)
  | write (t : VenueTable) (s : DataSnapshot (BronzeRow J))
  | file (rows : List CheckRow) (landed : Bool)

namespace Deed

variable {J : Type}

def commit? : Deed J → Option (VenueTable × DataSnapshot (BronzeRow J))
  | .write t s => some (t, s)
  | .file _ _ => none

/-- The rows that come to `audit.checks`. -/
def rows : Deed J → List CheckRow
  | .write _ _ => []
  | .file rows landed => if landed then rows else []

/-- `if findings: write_audit_rows(...)`. -/
def fileIfAny (landed : Bool) (findings : List CheckRow) : List (Deed J) :=
  if findings = [] then [] else [.file findings landed]

end Deed

section Decode

variable {J : Type} (readers : Readers J) (raw : DataTable RawRow) (rawSnapshotId : String)
  (stamps : VenueTable → Nat × Int) (runTs : Int) (exc : Nat → String) (lands : Exchange → Bool)

def unresolvableRows (registry : Registry) (source : List RawRow) (v : Exchange) : List CheckRow :=
  (unresolvable registry source).map (unresolvableRow runTs exc v)

/-- The accounting: `sum(written.values())` against the rows of the range. -/
def parityRows (source : List RawRow) (frames : List Frame) (v : Exchange) : List CheckRow :=
  let nRouted := ((tablesOf v).map fun t =>
    (commitOf readers rawSnapshotId stamps frames t).rows.length).sum
  let nUnrouted := (frames.filter (isUnrouted v)).length
  if source.length = nRouted + nUnrouted then []
  else [parityRow runTs rawSnapshotId v source.length nRouted nUnrouted]

/-- `decode`, with what it files. -/
def decodeDeeds (registry : Registry) (source : List RawRow) (v : Exchange) :
    Option (List (Deed J)) :=
  let findings := unresolvableRows runTs exc registry source v
  match decodedRaw readers registry source with
  | .raised => none
  | .nothing => some (Deed.fileIfAny (lands v) findings)
  | .frames frames =>
    some (((tablesOf v).map fun t => .write t (commitOf readers rawSnapshotId stamps frames t)) ++
      Deed.fileIfAny (lands v)
        (findings ++ parityRows readers rawSnapshotId stamps runTs source frames v))

variable (registry : Exchange → Registry) (bronze : VenueTable → BronzeTable J)

/-- The turn of one venue. -/
def venueDeeds (v : Exchange) : Option (List (Deed J)) :=
  let starts := (tablesOf v).map fun t => (bronze t).srcSnapshotId
  if ∃ a ∈ starts, ∃ b ∈ starts, strOf a ≠ strOf b then none
  else
    let start := starts.head?.join.filter fun s => s ≠ ""
    if start = some rawSnapshotId then some []
    else
      match sourceOf raw rawSnapshotId start v with
      | none => none
      | some source =>
        decodeDeeds readers rawSnapshotId stamps runTs exc lands (registry v) source v

def stageDeeds : List Exchange → List (Deed J)
  | [] => []
  | v :: venues =>
    match venueDeeds readers raw rawSnapshotId stamps runTs exc lands registry bronze v with
    | none => []
    | some deeds => deeds ++ stageDeeds venues

end Decode

/-! ## Histories -/

/-- The lake with its `audit.checks`. -/
structure Audited (J : Type) where
  lake : State J
  checks : List CheckRow

namespace Audited

variable {J : Type}

def start : Audited J := ⟨State.start, []⟩

/-- A run that is killed after `cut` of its deeds; `lands` says whose findings are written. -/
def run (readers : Readers J) (rawSnapshotId : String) (stamps : VenueTable → Nat × Int)
    (runTs : Int) (exc : Nat → String) (lands : Exchange → Bool)
    (registry : Exchange → Registry) (cut : Nat) (st : Audited J) : Audited J :=
  let done := (stageDeeds readers st.lake.raw rawSnapshotId stamps runTs exc lands registry
    st.lake.bronze EXCHANGES).take cut
  { lake := st.lake.run readers rawSnapshotId registry stamps
      (done.filterMap Deed.commit?).length
    checks := st.checks ++ done.flatMap Deed.rows }

/-- The steps of `Bronze.Step`, with the rows filed; `faults` says whether runs may be killed, and
    writes to `audit.checks` fail. -/
inductive Step (readers : Readers J) (faults : Bool) : Audited J → Audited J → Prop
  | grow {st : Audited J} (raw : DataTable RawRow) : st.lake.raw <+: raw → raw.Valid →
      Step readers faults st { st with lake := { st.lake with raw := raw } }
  | maintain {st : Audited J} (t : VenueTable) (s : DataSnapshot (BronzeRow J)) : s.rows = [] →
      Snapshot.writtenBy JOB_DECODE ⟨s.committedAt, s.summary⟩ = false →
      DataTable.Valid (st.lake.bronze t ++ [s]) →
      Step readers faults st { st with lake := { st.lake with
        bronze := Function.update st.lake.bronze t (st.lake.bronze t ++ [s]) } }
  | run {st : Audited J} (rawSnapshotId : String) (stamps : VenueTable → Nat × Int) (runTs : Int)
      (exc : Nat → String) (lands : Exchange → Bool) (registry : Exchange → Registry) (cut : Nat) :
      (faults = false → (∀ v, lands v = true) ∧ (stageDeeds readers st.lake.raw rawSnapshotId
        stamps runTs exc lands registry st.lake.bronze EXCHANGES).length ≤ cut) →
      (∀ t, DataTable.Valid
        ((st.run readers rawSnapshotId stamps runTs exc lands registry cut).lake.bronze t)) →
      Step readers faults st (st.run readers rawSnapshotId stamps runTs exc lands registry cut)

def Reached (readers : Readers J) (faults : Bool) (st : Audited J) : Prop :=
  ReflTransGen (Step readers faults) start st

end Audited

/-! ## What becomes of a frame -/

section Shares

variable {J : Type} (readers : Readers J)

/-- The frame that is read of a row, where its schema id resolves. -/
def frameOf (registry : Registry) (row : RawRow) : Option Frame :=
  match row.schemaId.map registry with
  | some (.schema schema) => (decodeRow readers schema row).map fun r => (row, r)
  | _ => none

/-- A row of the table is made of it. -/
def isWritten (t : VenueTable) (registry : Registry) (row : RawRow) : Bool :=
  ((frameOf readers registry row).bind (project readers t)).isSome

/-- It is of a stream that no table takes. -/
def isControl (v : Exchange) (registry : Registry) (row : RawRow) : Bool :=
  (frameOf readers registry row).any (isUnrouted v)

/-- Its schema id does not resolve, or it has no payload. -/
def isMissed (registry : Registry) (row : RawRow) : Bool :=
  match row.schemaId.map registry with
  | some (.schema _) => row.payload.isNone
  | some .unresolvable => true
  | _ => false

/-- How many of a venue's framed rows in the snapshots that were read are of a kind, each under the
    registry's answers of its time. -/
def share (v : Exchange) (kind : Registry → RawRow → Bool) (raw : DataTable RawRow)
    (answers : List Registry) : Nat :=
  ((raw.zip answers).map fun p => p.1.rows.countP fun row => isFrameOf v row && kind p.2 row).sum

def isParity (v : Exchange) (check : CheckRow) : Bool :=
  check.checkName = "bronze_parity" ∧ check.scope = "bronze." ++ v.name

/-- What the venue's `bronze_parity` rows observed. -/
def filed (v : Exchange) (checks : List CheckRow) : Int :=
  ((checks.filter (isParity v)).map CheckRow.observed).sum

end Shares

/-! ### One row -/

section Rows

variable {J : Type} {readers : Readers J} {registry : Registry}

theorem frameOf_of_schemaId {row : RawRow} {id : Nat} (hid : row.schemaId = some id) :
    frameOf readers registry row = (registry id).text?.bind fun schema =>
      (decodeRow readers schema row).map fun r => (row, r) := by
  rw [frameOf, hid, Option.map_some]
  cases registry id <;> rfl

theorem join_bronzeRow (t : VenueTable) (row : RawRow) :
    (bronzeRow readers registry t row).join =
      (frameOf readers registry row).bind (project readers t) := by
  rw [bronzeRow, frameOf]
  cases row.schemaId.map registry with
  | none => rfl
  | some fetch =>
    cases fetch with
    | schema schema =>
      show ((decodeRow readers schema row).map fun r => project readers t (row, r)).join =
        ((decodeRow readers schema row).map fun r => (row, r)).bind (project readers t)
      cases decodeRow readers schema row <;> rfl
    | unresolvable => rfl
    | raised => rfl

theorem project_isSome (t : VenueTable) (row : RawRow) (r : RawMessageRecord) :
    (project readers t (row, some r)).isSome = decide (r.stream = t.stream) := by
  show (if r.stream = t.stream then some _ else none).isSome = _
  split
  · rename_i h
    rw [decide_eq_true h]
    rfl
  · rename_i h
    rw [decide_eq_false h]
    rfl

theorem nodup_routedStreams (v : Exchange) : (routedStreams v).Nodup := by
  cases v <;> decide

/-- A stream is one of a list without duplicates, or none of them. -/
theorem sum_toNat_stream {streams : List String} (h : streams.Nodup) (stream : String) :
    (streams.map fun s => (decide (stream = s)).toNat).sum + (decide (stream ∉ streams)).toNat =
      1 := by
  induction streams with
  | nil => rfl
  | cons s streams ih =>
    obtain ⟨hs, hnodup⟩ := List.nodup_cons.1 h
    have hrest := ih hnodup
    by_cases heq : stream = s
    · subst heq
      have hnone : (decide (stream ∉ streams)).toNat = 1 := by simp [hs]
      simp
      omega
    · simp only [List.map_cons, List.sum_cons, List.mem_cons, heq, false_or, decide_false,
        Bool.toNat_false, Nat.zero_add]
      exact hrest

theorem decodeRow_eq_some {schema : String} {row : RawRow} {r : Option RawMessageRecord}
    (h : decodeRow readers schema row = some r) : r.isNone = row.payload.isNone := by
  rw [decodeRow, bodySql] at h
  cases hpayload : row.payload with
  | none =>
    rw [hpayload] at h
    cases h
    rfl
  | some payload =>
    rw [hpayload] at h
    obtain ⟨decoded, -, rfl⟩ := Option.map_eq_some_iff.1 h
    rfl

theorem sum_isWritten_eq_zero {v : Exchange} {row : RawRow}
    (h : ∀ f, frameOf readers registry row = some f → f.2 = none) :
    ((tablesOf v).map fun u => (isWritten readers u registry row).toNat).sum = 0 := by
  refine List.sum_eq_zero fun n hn => ?_
  obtain ⟨u, -, rfl⟩ := List.mem_map.1 hn
  rw [isWritten]
  cases hframe : frameOf readers registry row with
  | none => rfl
  | some f =>
    rw [Option.bind_some, project, h f hframe]
    rfl

/-- **Each frame is in one place**: in one table, or left in the archive on purpose, or missed. -/
theorem one_place {v : Exchange} {row : RawRow} {t : VenueTable} (hframed : row.schemaId.isSome)
    (hmade : (bronzeRow readers registry t row).isSome) :
    ((tablesOf v).map fun u => (isWritten readers u registry row).toNat).sum +
      (isControl readers v registry row).toNat + (isMissed registry row).toNat = 1 := by
  obtain ⟨id, hid⟩ := Option.isSome_iff_exists.1 hframed
  have hframe : frameOf readers registry row = (registry id).text?.bind fun schema =>
    (decodeRow readers schema row).map fun r => (row, r) := frameOf_of_schemaId hid
  rw [bronzeRow_of_schemaId hid] at hmade
  rw [isMissed, hid, Option.map_some]
  cases hfetch : registry id with
  | raised =>
    rw [hfetch] at hmade
    cases hmade
  | unresolvable =>
    rw [hfetch] at hframe
    replace hframe : frameOf readers registry row = none := hframe
    rw [sum_isWritten_eq_zero (by simp [hframe]), isControl, hframe]
    rfl
  | schema schema =>
    rw [hfetch] at hframe hmade
    obtain ⟨r, hr⟩ := Option.isSome_iff_exists.1 ((Option.isSome_map ..).symm.trans hmade)
    rw [Fetch.text?, Option.bind_some, hr, Option.map_some] at hframe
    show _ + row.payload.isNone.toNat = 1
    rw [← decodeRow_eq_some hr]
    cases r with
    | none =>
      rw [sum_isWritten_eq_zero (by simp [hframe]), isControl, hframe]
      rfl
    | some r =>
      have hwritten : ((tablesOf v).map fun u => (isWritten readers u registry row).toNat) =
          (routedStreams v).map fun s => (decide (r.stream = s)).toNat := by
        rw [routedStreams, List.map_map]
        refine List.map_congr_left fun u _ => ?_
        rw [isWritten, hframe, Option.bind_some, project_isSome]
        rfl
      rw [hwritten, isControl, hframe]
      exact sum_toNat_stream (nodup_routedStreams v) r.stream

/-- The same of the rows of a range. -/
theorem countP_places {v : Exchange} {t : VenueTable} (rows : List RawRow)
    (hmade : ∀ row ∈ rows, isFrameOf v row → (bronzeRow readers registry t row).isSome) :
    ((tablesOf v).map fun u =>
        rows.countP fun row => isFrameOf v row && isWritten readers u registry row).sum +
      (rows.countP fun row => isFrameOf v row && isControl readers v registry row) +
      (rows.countP fun row => isFrameOf v row && isMissed registry row) =
        rows.countP (isFrameOf v) := by
  induction rows with
  | nil => simp
  | cons row rows ih =>
    have hrest := ih fun row hrow => hmade row (List.mem_cons_of_mem _ hrow)
    have hcount : ∀ p : RawRow → Bool, (row :: rows).countP p = rows.countP p + (p row).toNat := by
      intro p
      rw [List.countP_cons]
      cases p row <;> rfl
    simp only [hcount, List.sum_map_add]
    cases hframe : isFrameOf v row with
    | false =>
      have hzero : ((tablesOf v).map fun _ => (false : Bool).toNat).sum = 0 := by simp
      simp only [Bool.false_and, hzero]
      simpa using hrest
    | true =>
      have hone := one_place (v := v) (Bool.and_eq_true_iff.1 hframe).2
        (hmade row List.mem_cons_self hframe)
      simp only [Bool.true_and]
      show _ = _ + 1
      omega

end Rows

/-! ### One decode -/

section Ranges

variable {J : Type} {readers : Readers J} {registry : Registry} {source : List RawRow}

theorem frames_part (id : Nat) :
    (((registry id).text?.map (part source id)).getD []).filterMap (fun p =>
        ((decodeRow readers p.1 p.2).map fun r => (p.2, r)).bind some) =
      (source.filter fun row => row.schemaId = some id).filterMap (frameOf readers registry) := by
  have hid : ∀ row ∈ source.filter (fun row => row.schemaId = some id), row.schemaId = some id :=
    fun row hrow => of_decide_eq_true (List.mem_filter.1 hrow).2
  cases htext : (registry id).text? with
  | none =>
    symm
    refine List.filterMap_eq_nil_iff.2 fun row hrow => ?_
    rw [frameOf_of_schemaId (hid row hrow), htext]
    rfl
  | some schema =>
    rw [Option.map_some, Option.getD_some, part, List.filterMap_map]
    refine List.filterMap_congr fun row hrow => ?_
    rw [frameOf_of_schemaId (hid row hrow), htext, Option.bind_some]
    show ((decodeRow readers schema row).map fun r => (row, r)).bind some =
      (decodeRow readers schema row).map fun r => (row, r)
    cases decodeRow readers schema row <;> rfl

/-- The frames of a range, whatever the order of its schema ids. -/
theorem frames_perm {frames : List Frame}
    (h : decodedRaw readers registry source = .frames frames)
    (hframed : ∀ row ∈ source, row.schemaId.isSome) :
    frames.Perm (source.filterMap (frameOf readers registry)) := by
  have hid : ∀ id, (source.filter fun row => row.schemaId = some id) =
      source.filter fun row => row.schemaId.getD 0 = id := by
    intro id
    refine List.filter_congr fun row hrow => ?_
    obtain ⟨i, hi⟩ := Option.isSome_iff_exists.1 (hframed row hrow)
    simp only [hi, Option.getD_some, Option.some.injEq]
  have hslices : ((schemaIds source).flatMap fun id =>
      source.filter fun row => row.schemaId.getD 0 = id).Perm source := by
    refine slices_perm (nodup_schemaIds source) fun row hrow => ?_
    obtain ⟨i, hi⟩ := Option.isSome_iff_exists.1 (hframed row hrow)
    rw [hi, Option.getD_some]
    exact mem_schemaIds.2 ⟨row, hrow, hi⟩
  have hall := filterMap_of_mapM some (decodedRaw_eq_frames h).2
  rw [List.filterMap_some, flatten_filterMap_part, List.filterMap_flatMap] at hall
  simp only [frames_part, hid] at hall
  rw [hall, ← List.filterMap_flatMap]
  exact hslices.filterMap _

theorem length_written {frames : List Frame}
    (h : decodedRaw readers registry source = .frames frames)
    (hframed : ∀ row ∈ source, row.schemaId.isSome) (t : VenueTable) :
    (frames.filterMap (project readers t)).length =
      source.countP (isWritten readers t registry) := by
  rw [(filterMap_project_perm h hframed t).length_eq, List.length_filterMap_eq_countP]
  refine List.countP_congr fun row _ => ?_
  rw [join_bronzeRow, isWritten]

theorem length_unrouted {frames : List Frame}
    (h : decodedRaw readers registry source = .frames frames)
    (hframed : ∀ row ∈ source, row.schemaId.isSome) (v : Exchange) :
    (frames.filter (isUnrouted v)).length = source.countP (isControl readers v registry) := by
  rw [← List.countP_eq_length_filter, (frames_perm h hframed).countP_eq, List.countP_filterMap]
  refine List.countP_congr fun row _ => ?_
  rw [isControl]
  cases frameOf readers registry row <;> rfl

variable {rawSnapshotId : String} {stamps : VenueTable → Nat × Int} {runTs : Int}

variable (rawSnapshotId stamps runTs) in
/-- **What one decode observes**: the frames of its range that are nowhere. -/
theorem observed_eq {frames : List Frame} {rows : List RawRow} {v : Exchange}
    (h : decodedRaw readers registry (rows.filter (isFrameOf v)) = .frames frames) :
    ((parityRows readers rawSnapshotId stamps runTs (rows.filter (isFrameOf v)) frames v).map
      CheckRow.observed).sum =
        (rows.countP fun row => isFrameOf v row && isMissed registry row : Nat) := by
  have hframed : ∀ row ∈ rows.filter (isFrameOf v), row.schemaId.isSome := by
    intro row hrow
    exact (Bool.and_eq_true_iff.1 (List.mem_filter.1 hrow).2).2
  have hin : ∀ p : RawRow → Bool, (rows.filter (isFrameOf v)).countP p =
      rows.countP fun row => isFrameOf v row && p row := by
    intro p
    rw [List.countP_filter]
    exact List.countP_congr fun row _ => by rw [Bool.and_comm]
  obtain ⟨t, -⟩ := List.exists_mem_of_ne_nil _ (tablesOf_ne_nil v)
  have hplaces := countP_places (v := v) (t := t) rows fun row hrow hframe =>
    bronzeRow_isSome h hframed t row (List.mem_filter.2 ⟨hrow, hframe⟩)
  have hrouted : ((tablesOf v).map fun t =>
      (commitOf readers rawSnapshotId stamps frames t).rows.length) =
        (tablesOf v).map fun t => rows.countP fun row =>
          isFrameOf v row && isWritten readers t registry row := by
    refine List.map_congr_left fun t _ => ?_
    exact (length_written h hframed t).trans (hin _)
  have hcontrol := (length_unrouted h hframed v).trans (hin _)
  have hinput : (rows.filter (isFrameOf v)).length = rows.countP (isFrameOf v) :=
    List.countP_eq_length_filter.symm
  rw [parityRows, hrouted, hcontrol, hinput]
  split
  · rw [List.map_nil, List.sum_nil]
    omega
  · rw [List.map_singleton, List.sum_singleton]
    show ((rows.countP (isFrameOf v) : Nat) : Int) - _ - _ = _
    omega

end Ranges

/-! ### One run -/

section Deeds

variable {J : Type} {readers : Readers J} {raw : DataTable RawRow} {rawSnapshotId : String}
  {stamps : VenueTable → Nat × Int} {runTs : Int} {exc : Nat → String} {lands : Exchange → Bool}
  {registry : Exchange → Registry} {bronze : VenueTable → BronzeTable J}

theorem commits_fileIfAny (landed : Bool) (findings : List CheckRow) :
    (Deed.fileIfAny landed findings : List (Deed J)).filterMap Deed.commit? = [] := by
  rw [Deed.fileIfAny]
  split <;> rfl

theorem rows_fileIfAny (landed : Bool) (findings : List CheckRow) :
    (Deed.fileIfAny landed findings : List (Deed J)).flatMap Deed.rows =
      if landed then findings else [] := by
  rw [Deed.fileIfAny]
  split
  · rename_i h
    rw [h, ite_self]
    rfl
  · rw [List.flatMap_singleton, Deed.rows]

/-- The writes of a decode. -/
theorem commits_writes (frames : List Frame) (tables : List VenueTable) :
    (tables.map fun t => Deed.write t (commitOf readers rawSnapshotId stamps frames t)).filterMap
      Deed.commit? = tables.map fun t => (t, commitOf readers rawSnapshotId stamps frames t) := by
  rw [List.filterMap_map]
  exact congrFun List.filterMap_eq_map' tables

theorem rows_writes (frames : List Frame) (tables : List VenueTable) :
    (tables.map fun t => Deed.write t
      (commitOf readers rawSnapshotId stamps frames t)).flatMap Deed.rows = [] := by
  rw [List.flatMap_map]
  exact List.flatMap_eq_nil_iff.2 fun t _ => rfl

theorem commits_decodeDeeds (registry : Registry) (source : List RawRow) (v : Exchange) :
    (decodeDeeds readers rawSnapshotId stamps runTs exc lands registry source v).map
        (List.filterMap Deed.commit?) =
      decode readers rawSnapshotId stamps registry source v := by
  rw [decodeDeeds, decode]
  cases decodedRaw readers registry source with
  | raised => rfl
  | nothing => exact congrArg some (commits_fileIfAny _ _)
  | frames frames =>
    refine congrArg some ?_
    rw [List.filterMap_append, commits_writes, commits_fileIfAny, List.append_nil]

variable (runTs exc lands) in
theorem commits_venueDeeds (v : Exchange) :
    (venueDeeds readers raw rawSnapshotId stamps runTs exc lands registry bronze v).map
        (List.filterMap Deed.commit?) =
      venueCommits readers raw rawSnapshotId registry stamps bronze v := by
  unfold venueDeeds venueCommits
  simp only
  split
  · rfl
  · split
    · rfl
    · cases sourceOf raw rawSnapshotId (((tablesOf v).map fun t =>
        (bronze t).srcSnapshotId).head?.join.filter fun s => s ≠ "") v with
      | none => rfl
      | some source => exact commits_decodeDeeds _ source v

variable (runTs exc lands) in
/-- The commits of a run are those of the stage. -/
theorem commits_stageDeeds (venues : List Exchange) :
    (stageDeeds readers raw rawSnapshotId stamps runTs exc lands registry bronze venues).filterMap
        Deed.commit? =
      stageCommits readers raw rawSnapshotId registry stamps bronze venues := by
  induction venues with
  | nil => rfl
  | cons v venues ih =>
    rw [stageDeeds, stageCommits, ← commits_venueDeeds runTs exc lands v]
    cases venueDeeds readers raw rawSnapshotId stamps runTs exc lands registry bronze v with
    | none => rfl
    | some deeds =>
      rw [Option.map_some]
      show (deeds ++ _).filterMap Deed.commit? = deeds.filterMap Deed.commit? ++ _
      rw [List.filterMap_append, ih]

/-- So are those of a run that was killed. -/
theorem take_commits {deeds : List (Deed J)} (cut : Nat) :
    (deeds.filterMap Deed.commit?).take ((deeds.take cut).filterMap Deed.commit?).length =
      (deeds.take cut).filterMap Deed.commit? :=
  List.prefix_iff_eq_take.1 ((List.take_prefix cut deeds).filterMap _) |>.symm

theorem isParity_unresolvableRow (v w : Exchange) (id : Nat) :
    isParity v (unresolvableRow runTs exc w id) = false := by
  rw [isParity, decide_eq_false]
  rintro ⟨hname, -⟩
  exact absurd hname (show ("unresolvable_schema_id" : String) ≠ "bronze_parity" by decide)

theorem filter_unresolvableRows (v w : Exchange) (registry : Registry) (source : List RawRow) :
    (unresolvableRows runTs exc registry source w).filter (isParity v) = [] := by
  refine List.filter_eq_nil_iff.2 fun check hcheck => ?_
  obtain ⟨id, -, rfl⟩ := List.mem_map.1 hcheck
  rw [isParity_unresolvableRow]
  exact Bool.false_ne_true

theorem isParity_parityRow (v w : Exchange) (nInput nRouted nUnrouted : Nat) :
    isParity v (parityRow runTs rawSnapshotId w nInput nRouted nUnrouted) = decide (w = v) := by
  have hscope : ("bronze." ++ w.name = "bronze." ++ v.name) ↔ w = v := by
    cases v <;> cases w <;> decide
  rw [isParity]
  exact decide_eq_decide.2 ⟨fun h => hscope.1 h.2, fun h => ⟨rfl, hscope.2 h⟩⟩

/-- A venue's parity rows are its own. -/
theorem filter_parityRows (v w : Exchange) (source : List RawRow) (frames : List Frame) :
    (parityRows readers rawSnapshotId stamps runTs source frames w).filter (isParity v) =
      if w = v then parityRows readers rawSnapshotId stamps runTs source frames w else [] := by
  unfold parityRows
  simp only
  split
  · rw [List.filter_nil, ite_self]
  · rw [List.filter_singleton, isParity_parityRow]
    by_cases h : w = v
    · rw [decide_eq_true h, if_pos h]
      rfl
    · rw [decide_eq_false h, if_neg h]
      rfl

/-- The position that a level venue is read from. -/
theorem start_of_level (hplaced : ∀ t, Placed raw (bronze t)) {v : Exchange}
    (hlevel : ∀ t ∈ tablesOf v, ∀ u ∈ tablesOf v,
      (bronze t).srcSnapshotId = (bronze u).srcSnapshotId) {t : VenueTable} (ht : t ∈ tablesOf v) :
    (((tablesOf v).map fun t => (bronze t).srcSnapshotId).head?.join.filter
      fun s => s ≠ "") = (bronze t).srcSnapshotId := by
  obtain ⟨u, rest, hcons⟩ := List.exists_cons_of_ne_nil (tablesOf_ne_nil v)
  have hu : u ∈ tablesOf v := by
    rw [hcons]
    exact List.mem_cons_self
  rw [hcons, List.map_cons, List.head?_cons, Option.join_some, hlevel u hu t ht]
  cases hrecorded : (bronze t).srcSnapshotId with
  | none => rfl
  | some text =>
    obtain ⟨n, hn⟩ := hplaced t text hrecorded
    obtain ⟨id, rfl⟩ := exists_idText_of_place hn
    have hne : writeNat id ≠ "" := Nat.repr_ne_empty
    rw [Option.filter_some, if_pos (decide_eq_true hne)]

/-- **All that a venue's turn can do**: file ids that do not resolve, or decode and file what it
    counted. -/
theorem venueDeeds_cases (hplaced : ∀ t, Placed raw (bronze t)) {v : Exchange}
    {deeds : List (Deed J)}
    (h : venueDeeds readers raw rawSnapshotId stamps runTs exc lands registry bronze v = some deeds) :
    (deeds.filterMap Deed.commit? = [] ∧
        ∀ w, (deeds.flatMap Deed.rows).filter (isParity w) = []) ∨
      ∃ source frames, Decodes readers raw rawSnapshotId registry bronze v source frames ∧
        deeds = ((tablesOf v).map fun t =>
            .write t (commitOf readers rawSnapshotId stamps frames t)) ++
          Deed.fileIfAny (lands v) (unresolvableRows runTs exc (registry v) source v ++
            parityRows readers rawSnapshotId stamps runTs source frames v) := by
  unfold venueDeeds at h
  simp only at h
  split at h
  · cases h
  · rename_i hsame
    have hlevel : ∀ t ∈ tablesOf v, ∀ u ∈ tablesOf v,
        (bronze t).srcSnapshotId = (bronze u).srcSnapshotId := by
      intro t ht u hu
      refine strOf_inj (hplaced t) (hplaced u) (Classical.byContradiction fun hne => hsame ?_)
      exact ⟨_, List.mem_map_of_mem ht, _, List.mem_map_of_mem hu, hne⟩
    split at h
    · cases h
      exact Or.inl ⟨rfl, fun w => rfl⟩
    · rename_i hne
      split at h
      · cases h
      · rename_i source hsource
        unfold decodeDeeds at h
        simp only at h
        split at h
        · cases h
        · cases h
          refine Or.inl ⟨commits_fileIfAny _ _, fun w => ?_⟩
          rw [rows_fileIfAny]
          split
          · exact filter_unresolvableRows w v _ _
          · rfl
        · rename_i frames hframes
          cases h
          refine Or.inr ⟨source, frames, ⟨hlevel, fun t ht => ?_, hframes⟩, rfl⟩
          rw [← start_of_level hplaced hlevel ht]
          exact ⟨hne, hsource⟩

/-- Neither a commit to the table nor a parity row of its venue. -/
def Silent (t : VenueTable) (deeds : List (Deed J)) : Prop :=
  ((deeds.filterMap Deed.commit?).filter fun c => c.1 = t) = [] ∧
    (deeds.flatMap Deed.rows).filter (isParity t.exchange) = []

theorem Silent.of_earlier {t : VenueTable} {deeds pre : List (Deed J)} (h : Silent t deeds)
    (hpre : pre <+: deeds) : Silent t pre := by
  obtain ⟨rest, rfl⟩ := hpre
  obtain ⟨hcommits, hrows⟩ := h
  rw [List.filterMap_append, List.filter_append] at hcommits
  rw [List.flatMap_append, List.filter_append] at hrows
  exact ⟨(List.append_eq_nil_iff.1 hcommits).1, (List.append_eq_nil_iff.1 hrows).1⟩

theorem Silent.append {t : VenueTable} {first later : List (Deed J)} (hfirst : Silent t first)
    (hlater : Silent t later) : Silent t (first ++ later) := by
  constructor
  · rw [List.filterMap_append, List.filter_append, hfirst.1, hlater.1]
    rfl
  · rw [List.flatMap_append, List.filter_append, hfirst.2, hlater.2]
    rfl

theorem silent_of_other (hplaced : ∀ t, Placed raw (bronze t)) {v : Exchange} {t : VenueTable}
    (hv : v ≠ t.exchange) {deeds : List (Deed J)}
    (h : venueDeeds readers raw rawSnapshotId stamps runTs exc lands registry bronze v = some deeds) :
    Silent t deeds := by
  rcases venueDeeds_cases hplaced h with ⟨hcommits, hrows⟩ | ⟨source, frames, -, rfl⟩
  · exact ⟨by rw [hcommits, List.filter_nil], hrows _⟩
  · constructor
    · rw [List.filterMap_append, commits_writes, commits_fileIfAny, List.append_nil]
      refine List.filter_eq_nil_iff.2 fun c hc heq => hv ?_
      obtain ⟨u, hu, rfl⟩ := List.mem_map.1 hc
      have hut : u = t := of_decide_eq_true heq
      rw [← mem_tablesOf.1 hu, hut]
    · rw [List.flatMap_append, rows_writes, rows_fileIfAny, List.nil_append]
      split
      · rw [List.filter_append, filter_unresolvableRows, filter_parityRows, if_neg hv,
          List.append_nil]
      · rfl

/-- No other venue's turn concerns the table. -/
theorem silent_stageDeeds (hplaced : ∀ t, Placed raw (bronze t)) {t : VenueTable}
    {venues : List Exchange} (ht : t.exchange ∉ venues) :
    Silent t (stageDeeds readers raw rawSnapshotId stamps runTs exc lands registry bronze venues) := by
  induction venues with
  | nil => exact ⟨rfl, rfl⟩
  | cons v venues ih =>
    have hv : v ≠ t.exchange := fun h => ht (h ▸ List.mem_cons_self)
    have hvenues : t.exchange ∉ venues := fun h => ht (List.mem_cons_of_mem v h)
    rw [stageDeeds]
    cases hdeeds : venueDeeds readers raw rawSnapshotId stamps runTs exc lands registry bronze v with
    | none => exact ⟨rfl, rfl⟩
    | some deeds =>
      exact (silent_of_other hplaced hv hdeeds).append (ih hvenues)

theorem earlier_append {α : Type} {pre first rest : List α} (h : pre <+: first ++ rest) :
    (∃ later, pre = first ++ later ∧ later <+: rest) ∨ (pre <+: first ∧ ¬ first <+: pre) := by
  by_cases hfirst : first <+: pre
  · obtain ⟨later, rfl⟩ := hfirst
    exact Or.inl ⟨later, rfl, (List.prefix_append_right_inj first).1 h⟩
  · refine Or.inr ⟨?_, hfirst⟩
    exact (List.prefix_or_prefix_of_prefix h (List.prefix_append first rest)).resolve_right hfirst

/-- What the decode of a range files is filed last. -/
theorem rows_of_killed {writes pre : List (Deed J)} {landed : Bool} {findings : List CheckRow}
    (hwrites : writes.flatMap Deed.rows = [])
    (hpre : pre <+: writes ++ Deed.fileIfAny landed findings)
    (hkilled : ¬ writes ++ Deed.fileIfAny landed findings <+: pre) : pre.flatMap Deed.rows = [] := by
  have hbefore : pre <+: writes := by
    rw [Deed.fileIfAny] at hpre hkilled
    split at hpre
    · rwa [List.append_nil] at hpre
    · rename_i hany
      rw [if_neg hany] at hkilled
      rcases List.prefix_concat_iff.1 hpre with rfl | hbefore
      · exact absurd List.prefix_rfl hkilled
      · exact hbefore
  obtain ⟨rest, rfl⟩ := hbefore
  rw [List.flatMap_append] at hwrites
  exact (List.append_eq_nil_iff.1 hwrites).1

/-- The venue's range was decoded, and what it counted was filed, if that landed. -/
structure Finished (readers : Readers J) (raw : DataTable RawRow) (rawSnapshotId : String)
    (stamps : VenueTable → Nat × Int) (runTs : Int) (exc : Nat → String) (lands : Exchange → Bool)
    (registry : Exchange → Registry) (bronze : VenueTable → BronzeTable J) (t : VenueTable)
    (done : List (Deed J)) (source : List RawRow) (frames : List Frame) : Prop where
  decodes : Decodes readers raw rawSnapshotId registry bronze t.exchange source frames
  commits : ((done.filterMap Deed.commit?).filter fun c => c.1 = t) =
    [(t, commitOf readers rawSnapshotId stamps frames t)]
  parity : (done.flatMap Deed.rows).filter (isParity t.exchange) =
    if lands t.exchange then parityRows readers rawSnapshotId stamps runTs source frames t.exchange
    else []
  ids : lands t.exchange = true →
    ∀ check ∈ unresolvableRows runTs exc (registry t.exchange) source t.exchange,
      check ∈ done.flatMap Deed.rows

theorem finished_of_turn {t : VenueTable} {later : List (Deed J)} {source : List RawRow}
    {frames : List Frame}
    (hdecodes : Decodes readers raw rawSnapshotId registry bronze t.exchange source frames)
    (hlater : Silent t later) :
    Finished readers raw rawSnapshotId stamps runTs exc lands registry bronze t
      (((tablesOf t.exchange).map fun u =>
          Deed.write u (commitOf readers rawSnapshotId stamps frames u)) ++
        Deed.fileIfAny (lands t.exchange)
          (unresolvableRows runTs exc (registry t.exchange) source t.exchange ++
            parityRows readers rawSnapshotId stamps runTs source frames t.exchange) ++ later)
      source frames where
  decodes := hdecodes
  commits := by
    rw [List.filterMap_append, List.filterMap_append, commits_writes, commits_fileIfAny,
      List.append_nil, List.filter_append, hlater.1, List.append_nil]
    exact filter_map_commitOf frames t
  parity := by
    rw [List.flatMap_append, List.flatMap_append, rows_writes, rows_fileIfAny, List.nil_append,
      List.filter_append, hlater.2, List.append_nil]
    split
    · rw [List.filter_append, filter_unresolvableRows, filter_parityRows, if_pos rfl,
        List.nil_append]
    · rfl
  ids := by
    intro hlands check hcheck
    rw [List.flatMap_append, List.flatMap_append, rows_fileIfAny, if_pos hlands]
    exact List.mem_append_left _ (List.mem_append_right _ (List.mem_append_left _ hcheck))

theorem Finished.after {t : VenueTable} {first later : List (Deed J)} {source : List RawRow}
    {frames : List Frame}
    (h : Finished readers raw rawSnapshotId stamps runTs exc lands registry bronze t later source
      frames)
    (hfirst : Silent t first) :
    Finished readers raw rawSnapshotId stamps runTs exc lands registry bronze t (first ++ later)
      source frames where
  decodes := h.decodes
  commits := by rw [List.filterMap_append, List.filter_append, hfirst.1, h.commits, List.nil_append]
  parity := by rw [List.flatMap_append, List.filter_append, hfirst.2, h.parity, List.nil_append]
  ids := by
    intro hlands check hcheck
    rw [List.flatMap_append]
    exact List.mem_append_right _ (h.ids hlands check hcheck)

/-- **A run, for one table**: its venue's range was decoded and counted, or no count was filed of it;
    and then, unless the run was killed, nothing was written. -/
theorem deeds_cases (hplaced : ∀ t, Placed raw (bronze t)) (t : VenueTable) :
    ∀ {venues : List Exchange}, venues.Nodup → ∀ {done : List (Deed J)},
      done <+: stageDeeds readers raw rawSnapshotId stamps runTs exc lands registry bronze venues →
      (∃ source frames, Finished readers raw rawSnapshotId stamps runTs exc lands registry bronze t
          done source frames) ∨
        ((done.flatMap Deed.rows).filter (isParity t.exchange) = [] ∧
          (stageDeeds readers raw rawSnapshotId stamps runTs exc lands registry bronze venues <+:
            done → Silent t done))
  | [], _, done, hdone => by
    rw [List.prefix_nil.1 hdone]
    exact Or.inr ⟨rfl, fun _ => ⟨rfl, rfl⟩⟩
  | v :: venues, hnodup, done, hdone => by
    obtain ⟨hv, hvenues⟩ := List.nodup_cons.1 hnodup
    rw [stageDeeds] at hdone ⊢
    cases hdeeds : venueDeeds readers raw rawSnapshotId stamps runTs exc lands registry bronze v with
    | none =>
      rw [hdeeds] at hdone
      rw [List.prefix_nil.1 hdone]
      exact Or.inr ⟨rfl, fun _ => ⟨rfl, rfl⟩⟩
    | some deeds =>
      rw [hdeeds] at hdone
      have hdone : done <+: deeds ++
        stageDeeds readers raw rawSnapshotId stamps runTs exc lands registry bronze venues := hdone
      show _ ∨ (_ ∧ (deeds ++ stageDeeds readers raw rawSnapshotId stamps runTs exc lands registry
        bronze venues <+: done → Silent t done))
      by_cases ht : v = t.exchange
      · -- the turn of the table's venue: no later one concerns the table
        subst ht
        rcases earlier_append hdone with ⟨later, rfl, hlater⟩ | ⟨hearlier, hkilled⟩
        · have hsilent := (silent_stageDeeds hplaced hv).of_earlier hlater
          rcases venueDeeds_cases hplaced hdeeds with
            ⟨hcommits, hrows⟩ | ⟨source, frames, hdecodes, rfl⟩
          · have hquiet : Silent t deeds := ⟨by rw [hcommits, List.filter_nil], hrows _⟩
            exact Or.inr ⟨(hquiet.append hsilent).2, fun _ => hquiet.append hsilent⟩
          · exact Or.inl ⟨source, frames, finished_of_turn hdecodes hsilent⟩
        · refine Or.inr ⟨?_, fun hwhole => absurd ((List.prefix_append _ _).trans hwhole) hkilled⟩
          rcases venueDeeds_cases hplaced hdeeds with ⟨hcommits, hrows⟩ | ⟨source, frames, -, rfl⟩
          · have hquiet : Silent t deeds := ⟨by rw [hcommits, List.filter_nil], hrows _⟩
            exact (hquiet.of_earlier hearlier).2
          · rw [rows_of_killed (rows_writes frames _) hearlier hkilled, List.filter_nil]
      · have hsilent := silent_of_other hplaced ht hdeeds
        rcases earlier_append hdone with ⟨later, rfl, hlater⟩ | ⟨hearlier, hkilled⟩
        · rcases deeds_cases hplaced t hvenues hlater with ⟨source, frames, h⟩ | ⟨hrows, hwhole⟩
          · exact Or.inl ⟨source, frames, h.after hsilent⟩
          · refine Or.inr ⟨?_, fun h => hsilent.append (hwhole ?_)⟩
            · rw [List.flatMap_append, List.filter_append, hsilent.2, hrows]
              rfl
            · exact (List.prefix_append_right_inj deeds).1 h
        · have hquiet := hsilent.of_earlier hearlier
          exact Or.inr ⟨hquiet.2, fun _ => hquiet⟩

end Deeds

/-! ### Every history -/

section Shares

variable {J : Type} {v : Exchange} {kind : Registry → RawRow → Bool} {raw : DataTable RawRow}
  {answers : List Registry}

variable (v kind) in
theorem share_later (h : answers.length ≤ raw.length) (more : DataTable RawRow) :
    share v kind (raw ++ more) answers = share v kind raw answers := by
  rw [share, share, zip_append_of_length_le more h]

variable (v kind) in
/-- One more range, under one registry. -/
theorem share_advance (h : answers.length ≤ raw.length) (k : Nat) (registry : Registry) :
    share v kind raw (answers ++ List.replicate k registry) = share v kind raw answers +
      (DataTable.rows ((raw.drop answers.length).take k)).countP
        fun row => isFrameOf v row && kind registry row := by
  rw [share, share, zip_append_replicate h, List.map_append, List.sum_append, List.map_map,
    DataTable.rows, List.countP_flatMap]
  rfl

theorem filed_append (v : Exchange) (checks rows : List CheckRow) :
    filed v (checks ++ rows) =
      filed v checks + ((rows.filter (isParity v)).map CheckRow.observed).sum := by
  rw [filed, filed, List.filter_append, List.map_append, List.sum_append]

variable {readers : Readers J} {st : State J}

theorem length_making (t : VenueTable) (registry : Registry) (row : RawRow) :
    ((making readers t registry row).getD []).length =
      (isFrameOf t.exchange row && isWritten readers t registry row).toNat := by
  unfold making
  split
  · rename_i hframe
    rw [hframe, Bool.true_and, isWritten, ← join_bronzeRow]
    cases bronzeRow readers registry t row with
    | none => rfl
    | some made => cases made <;> rfl
  · rename_i hframe
    rw [eq_false_of_ne_true hframe]
    rfl

/-- The rows of a table are the frames that were written to it. -/
theorem Holds.length_rows {t : VenueTable} (h : Holds readers st t) :
    (st.bronze t).rows.length =
      share t.exchange (isWritten readers t) st.raw (st.decodedWith t) := by
  rw [h.rows.length_eq, expected, madeOf, List.length_flatMap, share, List.zip_map_right,
    List.map_map]
  refine congrArg List.sum (List.map_congr_left fun p _ => ?_)
  show (p.1.rows.flatMap fun row => (making readers t p.2 row).getD []).length =
    p.1.rows.countP fun row => isFrameOf t.exchange row && isWritten readers t p.2 row
  induction p.1.rows with
  | nil => rfl
  | cons row rows ih =>
    rw [List.flatMap_cons, List.length_append, length_making, ih, List.countP_cons]
    cases isFrameOf t.exchange row && isWritten readers t p.2 row <;> simp [Nat.add_comm]

/-- **Every frame up to the position is in one place.** -/
theorem share_places {t : VenueTable} (h : Holds readers st t) :
    ((tablesOf t.exchange).map fun u =>
        share t.exchange (isWritten readers u) st.raw (st.decodedWith t)).sum +
      share t.exchange (isControl readers t.exchange) st.raw (st.decodedWith t) +
      share t.exchange isMissed st.raw (st.decodedWith t) =
        share t.exchange (fun _ _ => true) st.raw (st.decodedWith t) := by
  have hmade : ∀ p ∈ st.raw.zip (st.decodedWith t), ∀ row ∈ p.1.rows, isFrameOf t.exchange row →
      (bronzeRow readers p.2 t row).isSome := by
    intro p hp row hrow hframe
    have hzip : (p.1, making readers t p.2) ∈
        st.raw.zip ((st.decodedWith t).map (making readers t)) := by
      rw [List.zip_map_right]
      exact List.mem_map_of_mem (f := Prod.map id (making readers t)) hp
    have hrow := Copied.made h _ hzip row hrow
    simpa [making, hframe] using hrow
  simp only [share]
  generalize st.raw.zip (st.decodedWith t) = read at hmade ⊢
  induction read with
  | nil => simp
  | cons p rest ih =>
    obtain ⟨hfirst, hrest⟩ := List.forall_mem_cons.1 hmade
    have hplaces := countP_places _ hfirst
    have htrue : (fun row => isFrameOf t.exchange row && true) = isFrameOf t.exchange :=
      funext fun row => Bool.and_true _
    have hlater := ih hrest
    simp only [List.map_cons, List.sum_cons, List.sum_map_add, htrue] at hlater ⊢
    omega

end Shares

section Histories

variable {J : Type} {readers : Readers J} {faults : Bool} {st st' : Audited J}

/-- The rows filed are forgotten. -/
theorem step_lake (h : Audited.Step readers faults st st') : Step readers st.lake st'.lake := by
  cases h with
  | grow raw hpre hvalid => exact Step.grow raw hpre hvalid
  | maintain t s hrows hs hvalid => exact Step.maintain t s hrows hs hvalid
  | run rawSnapshotId stamps runTs exc lands registry cut hwhole hvalid =>
    exact Step.run rawSnapshotId registry stamps _ hvalid

theorem reached_lake (h : Audited.Reached readers faults st) : Reached readers st.lake := by
  induction h with
  | refl => exact ReflTransGen.refl
  | tail _ hstep ih => exact ih.tail (step_lake hstep)

theorem placed_of_reached {st : State J} (h : Reached readers st) :
    ∀ t, Placed st.raw (st.bronze t) :=
  placed_steps (fun _ => placed_nil _) h

theorem holds_of_reached {st : State J} (h : Reached readers st) (t : VenueTable) :
    Holds readers st t :=
  (holds_created rfl rfl).steps (fun _ => placed_nil _) h

/-- The tables of a venue that stand level were read under the same answers. -/
theorem answers_of_level {st : State J} (h : Reached readers st) {v : Exchange}
    (hlevel : ¬ Torn st.bronze v) :
    ∀ t ∈ tablesOf v, ∀ u ∈ tablesOf v, st.decodedWith t = st.decodedWith u := by
  have hsame : ∀ {bronze : VenueTable → BronzeTable J}, ¬ Torn bronze v → ∀ t ∈ tablesOf v,
      ∀ u ∈ tablesOf v, (bronze t).srcSnapshotId = (bronze u).srcSnapshotId :=
    fun hnot t ht u hu => Classical.byContradiction fun hne => hnot ⟨t, ht, u, hu, hne⟩
  induction h with
  | refl => exact fun _ _ _ _ => rfl
  | @tail mid _ hsteps hstep ih =>
    have hplaced := placed_of_reached hsteps
    have hbefore := fun htorn => hlevel (torn_of_same
      (fun t ht => (torn_step hplaced htorn hstep t ht).1) htorn)
    have hanswers := ih hbefore
    cases hstep with
    | grow raw _ _ => exact hanswers
    | maintain t s _ _ _ => exact hanswers
    | run rawSnapshotId registry stamps cut hvalid =>
      intro t ht u hu
      have hreach : ∀ {a b : BronzeTable J}, a.srcSnapshotId = b.srcSnapshotId →
          reachOf mid.raw a = reachOf mid.raw b := fun h => by rw [reachOf, reachOf, h]
      show mid.decodedWith t ++ List.replicate (reachOf mid.raw ((mid.run readers rawSnapshotId
          registry stamps cut).bronze t) - reachOf mid.raw (mid.bronze t)) (registry t.exchange) =
        mid.decodedWith u ++ List.replicate (reachOf mid.raw ((mid.run readers rawSnapshotId
          registry stamps cut).bronze u) - reachOf mid.raw (mid.bronze u)) (registry u.exchange)
      rw [hanswers t ht u hu, mem_tablesOf.1 ht, mem_tablesOf.1 hu,
        hreach (hsame hlevel t ht u hu), hreach (hsame hbefore t ht u hu)]

/-- What `audit.checks` tells of a venue. -/
structure Tells (faults : Bool) (st : Audited J) (t : VenueTable) : Prop where
  atMost : filed t.exchange st.checks ≤
    share t.exchange isMissed st.lake.raw (st.lake.decodedWith t)
  exact : faults = false → filed t.exchange st.checks =
    share t.exchange isMissed st.lake.raw (st.lake.decodedWith t)
  ids : faults = false → ∀ p ∈ st.lake.raw.zip (st.lake.decodedWith t), ∀ row ∈ p.1.rows,
    isFrameOf t.exchange row → ∀ id, row.schemaId = some id → p.2 id = .unresolvable →
      ∃ check ∈ st.checks, check.checkName = "unresolvable_schema_id" ∧
        check.scope = "bronze." ++ t.exchange.name ++ "/schema_id=" ++ toString id

/-- One more range was read, and some rows were filed of it. -/
theorem Tells.advance {t : VenueTable} (h : Tells faults st t)
    (hlength : (st.lake.decodedWith t).length ≤ st.lake.raw.length) {rows : List CheckRow}
    {k : Nat} {registry : Registry} (hraw : st'.lake.raw = st.lake.raw)
    (hchecks : st'.checks = st.checks ++ rows)
    (hanswers : st'.lake.decodedWith t = st.lake.decodedWith t ++ List.replicate k registry)
    (hmost : ((rows.filter (isParity t.exchange)).map CheckRow.observed).sum ≤
      ((DataTable.rows ((st.lake.raw.drop (st.lake.decodedWith t).length).take k)).countP
        fun row => isFrameOf t.exchange row && isMissed registry row : Nat))
    (hexact : faults = false →
      ((rows.filter (isParity t.exchange)).map CheckRow.observed).sum =
        ((DataTable.rows ((st.lake.raw.drop (st.lake.decodedWith t).length).take k)).countP
          fun row => isFrameOf t.exchange row && isMissed registry row : Nat))
    (hids : faults = false →
      ∀ row ∈ DataTable.rows ((st.lake.raw.drop (st.lake.decodedWith t).length).take k),
        isFrameOf t.exchange row → ∀ id, row.schemaId = some id → registry id = .unresolvable →
          ∃ check ∈ rows, check.checkName = "unresolvable_schema_id" ∧
            check.scope = "bronze." ++ t.exchange.name ++ "/schema_id=" ++ toString id) :
    Tells faults st' t := by
  have hshare := share_advance t.exchange isMissed hlength k registry
  refine ⟨?_, fun hfaults => ?_, fun hfaults p hp row hrow hframe id hid hnot => ?_⟩
  · have hbefore := h.atMost
    rw [hraw, hchecks, hanswers, filed_append, hshare, Nat.cast_add]
    omega
  · rw [hraw, hchecks, hanswers, filed_append, hshare, Nat.cast_add, h.exact hfaults, hexact hfaults]
  · rw [hchecks]
    rw [hraw, hanswers, zip_append_replicate hlength] at hp
    rcases List.mem_append.1 hp with hp | hp
    · obtain ⟨check, hcheck, htold⟩ := h.ids hfaults p hp row hrow hframe id hid hnot
      exact ⟨check, List.mem_append_left _ hcheck, htold⟩
    · obtain ⟨s, hs, rfl⟩ := List.mem_map.1 hp
      have hmem := List.mem_flatMap.2 ⟨s, hs, hrow⟩
      obtain ⟨check, hcheck, htold⟩ := hids hfaults row hmem hframe id hid hnot
      exact ⟨check, List.mem_append_right _ hcheck, htold⟩

section Run

variable {rawSnapshotId : String} {stamps : VenueTable → Nat × Int} {runTs : Int}
  {exc : Nat → String} {lands : Exchange → Bool} {registry : Exchange → Registry} {cut : Nat}
  {t : VenueTable}

variable (st readers rawSnapshotId stamps runTs exc lands registry cut t)

theorem bronze_run :
    (st.run readers rawSnapshotId stamps runTs exc lands registry cut).lake.bronze t =
      st.lake.bronze t ++ ((((stageDeeds readers st.lake.raw rawSnapshotId stamps runTs exc lands
        registry st.lake.bronze EXCHANGES).take cut).filterMap Deed.commit?).filter
          fun c => c.1 = t).map Prod.snd := by
  show applyCommits st.lake.bronze ((stageCommits readers st.lake.raw rawSnapshotId registry stamps
    st.lake.bronze EXCHANGES).take _) t = _
  rw [← commits_stageDeeds runTs exc lands, take_commits, applyCommits]

theorem decodedWith_run :
    (st.run readers rawSnapshotId stamps runTs exc lands registry cut).lake.decodedWith t =
      st.lake.decodedWith t ++ List.replicate (reachOf st.lake.raw
        ((st.run readers rawSnapshotId stamps runTs exc lands registry cut).lake.bronze t) -
          st.lake.reach t) (registry t.exchange) := rfl

variable {st readers rawSnapshotId stamps runTs exc lands registry cut t}

theorem Tells.run (hplaced : ∀ t, Placed st.lake.raw (st.lake.bronze t))
    (hholds : Holds readers st.lake t) (h : Tells faults st t)
    (hwhole : faults = false → (∀ v, lands v = true) ∧ (stageDeeds readers st.lake.raw
      rawSnapshotId stamps runTs exc lands registry st.lake.bronze EXCHANGES).length ≤ cut)
    (hvalid : DataTable.Valid
      ((st.run readers rawSnapshotId stamps runTs exc lands registry cut).lake.bronze t)) :
    Tells faults (st.run readers rawSnapshotId stamps runTs exc lands registry cut) t := by
  have hlength : (st.lake.decodedWith t).length ≤ st.lake.raw.length :=
    hholds.reach.trans_le (reachOf_le _ _)
  have hanswers := decodedWith_run readers st rawSnapshotId stamps runTs exc lands registry cut t
  have hbronze := bronze_run readers st rawSnapshotId stamps runTs exc lands registry cut t
  rcases deeds_cases hplaced t (show EXCHANGES.Nodup by decide) (List.take_prefix cut
    (stageDeeds readers st.lake.raw rawSnapshotId stamps runTs exc lands registry st.lake.bronze
      EXCHANGES)) with
    ⟨source, frames, hdone⟩ | ⟨hrows, hnothing⟩
  · obtain ⟨rows, hread, rfl⟩ :=
      Option.map_eq_some_iff.1 (hdone.decodes.read t (mem_tablesOf.2 rfl)).2
    obtain ⟨n, hn, hlt, rfl⟩ := readFrom_eq hread
    rw [hdone.commits, List.map_singleton] at hbronze
    rw [hbronze] at hvalid hanswers
    rw [reachOf_of_srcSnapshotId (srcSnapshotId_commit hvalid rfl) hn, State.reach] at hanswers
    have hobserved := observed_eq rawSnapshotId stamps runTs hdone.decodes.frames
    have hparity := hdone.parity
    refine h.advance hlength rfl rfl hanswers ?_ (fun hnone => ?_)
      fun hnone row hrow hframe id hid hnot => ?_
    · rw [hholds.reach, hparity]
      split
      · exact hobserved.le
      · exact Int.natCast_nonneg _
    · rw [hholds.reach, hparity, if_pos ((hwhole hnone).1 _)]
      exact hobserved
    · rw [hholds.reach] at hrow
      refine ⟨unresolvableRow runTs exc t.exchange id,
        hdone.ids ((hwhole hnone).1 _) _
          (List.mem_map_of_mem (List.mem_filter.2 ⟨?_, decide_eq_true hnot⟩)), rfl, rfl⟩
      exact mem_schemaIds.2 ⟨row, List.mem_filter.2 ⟨hrow, hframe⟩, hid⟩
  · have hnone : (((((stageDeeds readers st.lake.raw rawSnapshotId stamps runTs exc lands registry
        st.lake.bronze EXCHANGES).take cut).flatMap Deed.rows).filter
          (isParity t.exchange)).map CheckRow.observed).sum = 0 := by
      rw [hrows, List.map_nil, List.sum_nil]
    -- a run that was not killed read nothing
    have hempty : faults = false → reachOf st.lake.raw ((st.run readers rawSnapshotId stamps runTs
        exc lands registry cut).lake.bronze t) - st.lake.reach t = 0 := by
      intro hfaults
      have hall := List.take_of_length_le (hwhole hfaults).2
      have hsilent := hnothing (hall.symm ▸ List.prefix_rfl)
      rw [hbronze, hsilent.1, List.map_nil, List.append_nil, State.reach, Nat.sub_self]
    refine h.advance hlength rfl rfl hanswers ?_ (fun hfaults => ?_) fun hfaults row hrow => ?_
    · rw [hnone]
      exact Int.natCast_nonneg _
    · rw [hnone, hempty hfaults, List.take_zero]
      rfl
    · rw [hempty hfaults, List.take_zero] at hrow
      exact absurd hrow List.not_mem_nil

end Run

theorem Tells.step (hreached : Audited.Reached readers faults st) {t : VenueTable}
    (h : Tells faults st t) (hstep : Audited.Step readers faults st st') : Tells faults st' t := by
  have hlake := reached_lake hreached
  have hlength : (st.lake.decodedWith t).length ≤ st.lake.raw.length :=
    (holds_of_reached hlake t).reach.trans_le (reachOf_le _ _)
  cases hstep with
  | grow raw hpre _ =>
    obtain ⟨later, rfl⟩ := hpre
    have hshare := share_later t.exchange isMissed hlength later
    refine ⟨?_, fun hnone => ?_, fun hnone => ?_⟩
    · show _ ≤ ((share t.exchange isMissed (st.lake.raw ++ later)
        (st.lake.decodedWith t) : Nat) : Int)
      rw [hshare]
      exact h.atMost
    · show _ = ((share t.exchange isMissed (st.lake.raw ++ later)
        (st.lake.decodedWith t) : Nat) : Int)
      rw [hshare]
      exact h.exact hnone
    · show ∀ p ∈ (st.lake.raw ++ later).zip (st.lake.decodedWith t), _
      rw [zip_append_of_length_le later hlength]
      exact h.ids hnone
  | maintain u s _ _ _ => exact ⟨h.atMost, h.exact, h.ids⟩
  | run rawSnapshotId stamps runTs exc lands registry cut hwhole hvalid =>
    exact h.run (placed_of_reached hlake) (holds_of_reached hlake t) hwhole (hvalid t)

/-- **What the decode files is exact.**  In every history, the frames of a venue up to its position
    are in its tables, or are of streams that no table takes, or are missed: nothing is counted
    twice.  What its `bronze_parity` rows observed is never more than the frames missed; and unless
    a run was killed or a write to `audit.checks` failed it is exactly these, and each of their
    schema ids has its row. -/
theorem decode_accounted (h : Audited.Reached readers faults st) (t : VenueTable) :
    (¬ Torn st.lake.bronze t.exchange →
      ((tablesOf t.exchange).map fun u => (st.lake.bronze u).rows.length).sum +
          share t.exchange (isControl readers t.exchange) st.lake.raw (st.lake.decodedWith t) +
          share t.exchange isMissed st.lake.raw (st.lake.decodedWith t) =
        share t.exchange (fun _ _ => true) st.lake.raw (st.lake.decodedWith t)) ∧
      (st.lake.decodedWith t).length = st.lake.reach t ∧ Tells faults st t := by
  have hlake := reached_lake h
  have hholds := holds_of_reached hlake t
  refine ⟨fun hlevel => ?_, hholds.reach, ?_⟩
  · have hrows : ((tablesOf t.exchange).map fun u => (st.lake.bronze u).rows.length) =
        (tablesOf t.exchange).map fun u =>
          share t.exchange (isWritten readers u) st.lake.raw (st.lake.decodedWith t) := by
      refine List.map_congr_left fun u hu => ?_
      rw [(holds_of_reached hlake u).length_rows, mem_tablesOf.1 hu,
        answers_of_level hlake hlevel u hu t (mem_tablesOf.2 rfl)]
    rw [hrows]
    exact share_places hholds
  · induction h with
    | refl => exact ⟨le_rfl, fun _ => rfl, fun _ p hp => absurd hp List.not_mem_nil⟩
    | tail hsteps hstep ih =>
      exact (ih (reached_lake hsteps) (holds_of_reached (reached_lake hsteps) t)).step hsteps hstep

end Histories

/-- A frame that is decoded, and one with a schema id that the registry does not have. -/
def twoFrames : DataTable RawRow :=
  [⟨71, 10, Dict.empty, [framedRow 5 (emptyFrame "kraken" "trade" 4),
    { framedRow 6 (emptyFrame "kraken" "trade" 6) with schemaId := some 4 }]⟩]

/-- A run over them; its findings land, or they do not. -/
def counted (landed : Bool) : Audited (List (Option String)) :=
  Audited.run emptyFrameReaders "71" (fun _ => (72, 20)) 3000 (fun _ => "HTTP Error 404")
    (fun _ => landed) oneSchema 4
    { (Audited.start : Audited (List (Option String))) with
      lake := { (State.start : State (List (Option String))) with raw := twoFrames } }

theorem counted_eval (landed : Bool) :
    (∀ t ∈ VENUE_TABLES, ((counted landed).lake.bronze t).length ≤ 1) ∧
    (stageDeeds emptyFrameReaders twoFrames "71" (fun _ => (72, 20)) 3000
      (fun _ => "HTTP Error 404") (fun _ => landed) oneSchema (fun _ => []) EXCHANGES).length ≤ 4 ∧
    (counted landed).lake.reach .krakenTrade = 1 ∧
    (counted landed).checks.map CheckRow.checkName =
      (if landed then ["unresolvable_schema_id", "bronze_parity"] else []) ∧
    filed .kraken (counted landed).checks = if landed then 1 else 0 := by
  cases landed <;> decide +kernel

theorem counted_reached (landed : Bool) :
    Audited.Reached emptyFrameReaders (!landed) (counted landed) := by
  obtain ⟨htables, hdeeds, -⟩ := counted_eval landed
  refine (ReflTransGen.single (Audited.Step.grow twoFrames List.nil_prefix
    (DataTable.Valid.of_length_le_one le_rfl))).tail
      (Audited.Step.run "71" (fun _ => (72, 20)) 3000 (fun _ => "HTTP Error 404") (fun _ => landed)
        oneSchema 4 (fun hnone => ⟨fun _ => ?_, hdeeds⟩)
        fun t => DataTable.Valid.of_length_le_one (htables t (mem_VENUE_TABLES t)))
  cases landed
  · cases hnone
  · rfl

/-- The missed frame is told; where the write fails, the position has moved and nothing is. -/
theorem missed_frame_told :
    (counted true).checks.map CheckRow.checkName = ["unresolvable_schema_id", "bronze_parity"] ∧
      filed .kraken (counted true).checks = 1 ∧
      ((counted true).lake.decodedWith .krakenTrade).length =
        (counted true).lake.reach .krakenTrade ∧
      Tells false (counted true) .krakenTrade ∧
      (counted false).lake.reach .krakenTrade = 1 ∧ (counted false).checks = [] ∧
      Tells true (counted false) .krakenTrade := by
  obtain ⟨-, -, -, hnames, hfiled⟩ := counted_eval true
  obtain ⟨-, -, hreach, hnone, -⟩ := counted_eval false
  have hcounted := decode_accounted (counted_reached true) .krakenTrade
  have hfailed := decode_accounted (counted_reached false) .krakenTrade
  exact ⟨hnames, hfiled, hcounted.2.1, hcounted.2.2, hreach, List.map_eq_nil_iff.1 hnone,
    hfailed.2.2⟩

end Bronze

end K2.Lake

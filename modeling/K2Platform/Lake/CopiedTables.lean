import Mathlib.Data.List.Flatten
import K2Platform.Lake.IncrementalReads
import K2Platform.Lib.Slices

/-!
# Tables made from another one

A stage reads what has come to its source since the snapshot that the newest of its own commits
records, and commits what it makes of these rows.  A rebuild makes its commits from slices of the
source instead, and has all of them record the snapshot that was there when it began.

* `Copied` — the table has what was made of the source's rows up to the recorded snapshot.
* `Copied.later`, `Copied.same`, `Copied.advance` — it is kept when the source grows, when the table
  is maintained, and by a commit of the stage.
* `copied_slices_iff` — after the commits of some slices it holds if no other row gives anything.
-/

set_option autoImplicit false

namespace K2.Lake

variable {ρ σ β : Type}

/-! ## Positions -/

/-- `previous.get(O.SRC_SNAPSHOT_ID) if previous else None`. -/
def DataTable.srcSnapshotId (table : DataTable σ) : Option String :=
  ((latestSummary table.history JOB_DECODE).bind fun s => s.get? SRC_SNAPSHOT_ID).bind fun p =>
    match p with
    | .text s => some s
    | _ => none

/-- The properties of a commit that was made of the source up to this snapshot. -/
def decodeSummary (srcSnapshotId : String) : Summary :=
  (Dict.empty.insert JOB (.text JOB_DECODE)).insert SRC_SNAPSHOT_ID (.text srcSnapshotId)

/-- The rows that have come since, or all of them. -/
def DataTable.readFrom (source : DataTable ρ) (start : Option String) (stop : String) :
    Option (List ρ) :=
  match start with
  | some start => source.readBetween start stop
  | none => source.readAt stop

/-- How many snapshots of the source are at or below the recorded one. -/
def reachOf (source : DataTable ρ) (table : DataTable σ) : Nat :=
  (table.srcSnapshotId.bind source.place).getD 0

/-- What is recorded is a snapshot of the source. -/
def Placed (source : DataTable ρ) (table : DataTable σ) : Prop :=
  ∀ text, table.srcSnapshotId = some text → ∃ n, source.place text = some n

section Positions

variable {source : DataTable ρ} {table : DataTable σ} {stop : String}

theorem srcSnapshotId_nil : DataTable.srcSnapshotId ([] : DataTable σ) = none := rfl

/-- A commit of the stage moves the position to the snapshot that was read. -/
theorem srcSnapshotId_commit {s : DataSnapshot σ} (h : DataTable.Valid (table ++ [s]))
    (hs : s.summary = decodeSummary stop) :
    DataTable.srcSnapshotId (table ++ [s]) = some stop := by
  have hjob : JOB ≠ SRC_SNAPSHOT_ID := by decide
  have hwritten : Snapshot.writtenBy JOB_DECODE ⟨s.committedAt, decodeSummary stop⟩ = true := by
    rw [Snapshot.writtenBy, decodeSummary, Dict.get?_insert, if_neg hjob, Dict.get?_insert,
      if_pos rfl]
    rfl
  rw [DataTable.srcSnapshotId, DataTable.latestSummary_history_concat h, hs, if_pos hwritten,
    Option.bind_some, decodeSummary, Dict.get?_insert, if_pos rfl, Option.bind_some]

/-- Compaction does not move it. -/
theorem srcSnapshotId_maintain {s : DataSnapshot σ} (h : DataTable.Valid (table ++ [s]))
    (hs : Snapshot.writtenBy JOB_DECODE ⟨s.committedAt, s.summary⟩ = false) :
    DataTable.srcSnapshotId (table ++ [s]) = table.srcSnapshotId := by
  rw [DataTable.srcSnapshotId, DataTable.latestSummary_history_concat h, hs,
    if_neg Bool.false_ne_true, DataTable.srcSnapshotId]

theorem placed_nil (source : DataTable ρ) : Placed source ([] : DataTable σ) := by
  intro text h
  rw [srcSnapshotId_nil] at h
  cases h

theorem Placed.later (h : Placed source table) (more : DataTable ρ) :
    Placed (source ++ more) table := by
  intro text htext
  obtain ⟨n, hn⟩ := h text htext
  exact ⟨n, DataTable.place_append hn more⟩

theorem place_srcSnapshotId {text : String} (hplaced : Placed source table)
    (h : table.srcSnapshotId = some text) : source.place text = some (reachOf source table) := by
  obtain ⟨n, hn⟩ := hplaced text h
  rw [reachOf, h, Option.bind_some, hn, Option.getD_some]

theorem reachOf_le (source : DataTable ρ) (table : DataTable σ) :
    reachOf source table ≤ source.length := by
  rw [reachOf]
  cases hplace : table.srcSnapshotId.bind source.place with
  | none => exact Nat.zero_le _
  | some n =>
    obtain ⟨text, -, hn⟩ := Option.bind_eq_some_iff.1 hplace
    exact (DataTable.place_le hn).2

theorem reachOf_of_srcSnapshotId {n : Nat} (h : table.srcSnapshotId = some stop)
    (hn : source.place stop = some n) : reachOf source table = n := by
  rw [reachOf, h, Option.bind_some, hn, Option.getD_some]

theorem reachOf_later (h : Placed source table) (more : DataTable ρ) :
    reachOf (source ++ more) table = reachOf source table := by
  rw [reachOf, reachOf]
  cases hstart : table.srcSnapshotId with
  | none => rfl
  | some text =>
    obtain ⟨n, hn⟩ := h text hstart
    rw [Option.bind_some, Option.bind_some, hn, DataTable.place_append hn]

/-- What is read: the snapshots after the position, up to the one that is given. -/
theorem readFrom_eq {rows : List ρ} (h : source.readFrom table.srcSnapshotId stop = some rows) :
    ∃ n, source.place stop = some n ∧ reachOf source table < n ∧
      rows = DataTable.rows ((source.drop (reachOf source table)).take
        (n - reachOf source table)) := by
  rw [reachOf]
  cases hstart : table.srcSnapshotId with
  | none =>
    rw [hstart] at h
    obtain ⟨n, hn, rfl⟩ := Option.map_eq_some_iff.1 h
    exact ⟨n, hn, (DataTable.place_le hn).1, rfl⟩
  | some start =>
    rw [hstart] at h
    obtain ⟨m, hm, hrest⟩ := Option.bind_eq_some_iff.1 h
    obtain ⟨n, hn, hlt⟩ := Option.bind_eq_some_iff.1 hrest
    rw [Option.bind_some, hm, Option.getD_some]
    split at hlt
    · rename_i hmn
      cases hlt
      exact ⟨n, hn, hmn, by rw [List.drop_take]⟩
    · cases hlt

end Positions

/-! ## What was made -/

/-- What a run makes of a row; `none` where it raises. -/
abbrev Making (ρ β : Type) := ρ → Option (List β)

/-- What was made of the snapshots that were read, each as its run did. -/
def madeOf (source : DataTable ρ) (makings : List (Making ρ β)) : List β :=
  (source.zip makings).flatMap fun p => p.1.rows.flatMap fun row => (p.2 row).getD []

theorem zip_append_of_length_le {α γ : Type} (c : List α) :
    ∀ {a : List α} {b : List γ}, b.length ≤ a.length → (a ++ c).zip b = a.zip b
  | _, [], _ => by rw [List.zip_nil_right, List.zip_nil_right]
  | [], _ :: _, h => absurd h (Nat.not_succ_le_zero _)
  | x :: a, y :: b, h => by
    rw [List.cons_append, List.zip_cons_cons, List.zip_cons_cons,
      zip_append_of_length_le c (Nat.le_of_succ_le_succ h)]

theorem zip_replicate_right {α γ : Type} (b : γ) :
    ∀ (l : List α) (k : Nat), l.zip (List.replicate k b) = (l.take k).map fun a => (a, b)
  | _, 0 => by rw [List.replicate_zero, List.zip_nil_right, List.take_zero, List.map_nil]
  | [], _ + 1 => rfl
  | a :: l, k + 1 => by
    rw [List.replicate_succ, List.zip_cons_cons, zip_replicate_right b l k, List.take_succ_cons,
      List.map_cons]

/-- One more range, made by one run. -/
theorem zip_append_replicate {α γ : Type} {l : List α} {made : List γ} (h : made.length ≤ l.length)
    (k : Nat) (b : γ) : l.zip (made ++ List.replicate k b) =
      l.zip made ++ ((l.drop made.length).take k).map fun a => (a, b) := by
  have hlength : (l.take made.length).length = made.length := List.length_take_of_le h
  calc l.zip (made ++ List.replicate k b)
      = (l.take made.length ++ l.drop made.length).zip (made ++ List.replicate k b) := by
        rw [List.take_append_drop]
    _ = (l.take made.length).zip made ++ (l.drop made.length).zip (List.replicate k b) :=
        List.zip_append hlength
    _ = l.zip made ++ ((l.drop made.length).take k).map fun a => (a, b) := by
        rw [← zip_append_of_length_le (l.drop made.length) hlength.ge, List.take_append_drop,
          zip_replicate_right]

/-- How many rows were made, if every row gave as many as its size. -/
theorem length_madeOf {size : ρ → Nat} :
    ∀ {source : DataTable ρ} {makings : List (Making ρ β)}, makings.length ≤ source.length →
      (∀ p ∈ source.zip makings, ∀ row ∈ p.1.rows, ∃ l, p.2 row = some l ∧ l.length = size row) →
        (madeOf source makings).length =
          ((DataTable.rows (source.take makings.length)).map size).sum
  | _, [], _, _ => by
    rw [madeOf, List.zip_nil_right]
    rfl
  | [], _ :: _, hle, _ => absurd hle (Nat.not_succ_le_zero _)
  | s :: source, making :: makings, hle, hmade => by
    rw [List.zip_cons_cons, List.forall_mem_cons] at hmade
    have hrest := length_madeOf (Nat.le_of_succ_le_succ hle) hmade.2
    have hfirst : (s.rows.flatMap fun row => (making row).getD []).length =
        (s.rows.map size).sum := by
      rw [List.length_flatMap]
      refine congrArg List.sum (List.map_congr_left fun row hrow => ?_)
      obtain ⟨l, hl, hsize⟩ : ∃ l, making row = some l ∧ l.length = size row := hmade.1 row hrow
      rw [hl, Option.getD_some, hsize]
    rw [madeOf, List.zip_cons_cons, List.flatMap_cons, List.length_append, hfirst,
      List.length_cons, List.take_succ_cons, DataTable.rows, List.flatMap_cons, List.map_append,
      List.sum_append]
    exact congrArg _ hrest

theorem mem_madeOf {source : DataTable ρ} {makings : List (Making ρ β)} {b : β}
    (h : b ∈ madeOf source makings) : ∃ p ∈ source.zip makings, ∃ row ∈ p.1.rows,
      ∃ l, p.2 row = some l ∧ b ∈ l := by
  obtain ⟨p, hp, hb⟩ := List.mem_flatMap.1 h
  obtain ⟨row, hrow, hb⟩ := List.mem_flatMap.1 hb
  cases hmade : p.2 row with
  | none =>
    rw [hmade] at hb
    exact absurd hb List.not_mem_nil
  | some l =>
    rw [hmade] at hb
    exact ⟨p, hp, row, hrow, l, hmade, hb⟩

/-- The row is in a snapshot of the source that was read with this answer. -/
def ReadWith {α : Type} (source : DataTable ρ) (answers : List α) (row : ρ) (answer : α) : Prop :=
  ∃ snapshot : DataSnapshot ρ, row ∈ snapshot.rows ∧ (snapshot, answer) ∈ source.zip answers

theorem ReadWith.mem {α : Type} {source : DataTable ρ} {answers : List α} {row : ρ} {answer : α}
    (h : ReadWith source answers row answer) : row ∈ source.rows := by
  obtain ⟨snapshot, hrow, hread⟩ := h
  exact List.mem_flatMap.2 ⟨snapshot, (List.of_mem_zip hread).1, hrow⟩

/-- Where every snapshot was read, every row was. -/
theorem exists_readWith {α : Type} {source : DataTable ρ} {answers : List α}
    (hall : answers.length = source.length) {row : ρ} (hrow : row ∈ source.rows) :
    ∃ answer, ReadWith source answers row answer := by
  obtain ⟨snapshot, hsnapshot, hrow⟩ := List.mem_flatMap.1 hrow
  obtain ⟨i, hi, rfl⟩ := List.mem_iff_getElem.1 hsnapshot
  have hanswer : i < answers.length := by omega
  refine ⟨answers[i], source[i], hrow, List.mem_iff_getElem.2 ⟨i, ?_, List.getElem_zip⟩⟩
  rw [List.length_zip]
  omega

/-- A row of a copy was made of a row of the source, by the answer with which that was read. -/
theorem readWith_of_mem {α : Type} {source : DataTable ρ} {answers : List α}
    {making : α → Making ρ β} {b : β} (h : b ∈ madeOf source (answers.map making)) :
    ∃ row answer l, ReadWith source answers row answer ∧ making answer row = some l ∧ b ∈ l := by
  obtain ⟨p, hp, row, hrow, l, hl, hb⟩ := mem_madeOf h
  rw [List.zip_map_right] at hp
  obtain ⟨⟨snapshot, answer⟩, hread, rfl⟩ := List.mem_map.1 hp
  exact ⟨row, answer, l, ⟨snapshot, hrow, hread⟩, hl, hb⟩

theorem map_fst_zip_sublist {α γ : Type} :
    ∀ (l : List α) (l' : List γ), ((l.zip l').map Prod.fst).Sublist l
  | [], _ => List.Sublist.slnil
  | _ :: _, [] => List.nil_sublist _
  | a :: l, _ :: l' => (map_fst_zip_sublist l l').cons_cons a

/-- What is made of rows at different places has different keys, if a key tells the place of its
    row, and the keys of one row are different. -/
theorem nodup_madeOf {κ γ : Type} {source : DataTable ρ} {makings : List (Making ρ β)}
    {key : β → κ} (place : κ → γ) {coord : ρ → γ} (hcoord : (source.rows.map coord).Nodup)
    (h : ∀ making ∈ makings, ∀ row ∈ source.rows, ∀ l, making row = some l →
      (l.map key).Nodup ∧ ∀ b ∈ l, place (key b) = coord row) :
    ((madeOf source makings).map key).Nodup := by
  -- the rows, each with the making of its snapshot
  have hpairs : madeOf source makings = ((source.zip makings).flatMap fun p =>
      p.1.rows.map fun row => (p.2, row)).flatMap fun q => (q.1 q.2).getD [] := by
    rw [madeOf, List.flatMap_assoc]
    refine List.flatMap_congr fun p _ => ?_
    rw [List.flatMap_map]
  have hplaces : (((source.zip makings).flatMap fun p =>
      p.1.rows.map fun row => (p.2, row)).map fun q => coord q.2).Nodup := by
    have hrows : ((source.zip makings).flatMap fun p =>
        p.1.rows.map fun row => (p.2, row)).map (fun q => coord q.2) =
          (((source.zip makings).map Prod.fst).flatMap DataSnapshot.rows).map coord := by
      rw [List.map_flatMap, List.flatMap_map, List.map_flatMap]
      refine List.flatMap_congr fun p _ => ?_
      rw [List.map_map]
      rfl
    rw [hrows]
    exact hcoord.sublist (((map_fst_zip_sublist source makings).flatMap _).map coord)
  have hmem : ∀ q ∈ (source.zip makings).flatMap (fun p => p.1.rows.map fun row => (p.2, row)),
      ((((q.1 q.2).getD []).map key).Nodup ∧
        ∀ b ∈ (q.1 q.2).getD [], place (key b) = coord q.2) := by
    intro q hq
    obtain ⟨p, hp, hq⟩ := List.mem_flatMap.1 hq
    obtain ⟨row, hrow, rfl⟩ := List.mem_map.1 hq
    have hp' := List.of_mem_zip hp
    show (((p.2 row).getD []).map key).Nodup ∧ ∀ b ∈ (p.2 row).getD [], place (key b) = coord row
    cases hmade : p.2 row with
    | none => exact ⟨List.nodup_nil, fun b hb => absurd hb List.not_mem_nil⟩
    | some l => exact h p.2 hp'.2 row (List.mem_flatMap.2 ⟨p.1, hp'.1, hrow⟩) l hmade
  rw [hpairs, List.map_flatMap]
  refine List.nodup_flatMap.2 ⟨fun q hq => (hmem q hq).1, ?_⟩
  refine (List.pairwise_map.1 hplaces).imp_of_mem ?_
  intro q q' hq hq' hne k hk hk'
  obtain ⟨b, hb, rfl⟩ := List.mem_map.1 hk
  obtain ⟨b', hb', heq⟩ := List.mem_map.1 hk'
  refine hne ?_
  rw [← (hmem q hq).2 b hb, ← (hmem q' hq').2 b' hb', heq]

/-- The table has what was made of the source up to its position. -/
structure Copied (view : σ → β) (source : DataTable ρ) (makings : List (Making ρ β))
    (table : DataTable σ) : Prop where
  reach : makings.length = reachOf source table
  made : ∀ p ∈ source.zip makings, ∀ row ∈ p.1.rows, (p.2 row).isSome
  rows : (table.rows.map view).Perm (madeOf source makings)

section Copied

variable {view : σ → β} {source : DataTable ρ} {makings : List (Making ρ β)} {table : DataTable σ}

theorem copied_nil (view : σ → β) (source : DataTable ρ) : Copied view source [] [] where
  reach := rfl
  made := by
    intro p hp
    rw [List.zip_nil_right] at hp
    exact absurd hp List.not_mem_nil
  rows := by
    rw [madeOf, List.zip_nil_right]
    exact List.Perm.nil

/-- What was read was made, and all that was made of it is there. -/
theorem Copied.carried {α : Type} {answers : List α} {making : α → Making ρ β}
    (h : Copied view source (answers.map making) table) {row : ρ} {answer : α}
    (hread : ReadWith source answers row answer) :
    ∃ l, making answer row = some l ∧ ∀ b ∈ l, ∃ s ∈ table.rows, view s = b := by
  obtain ⟨snapshot, hrow, hzip⟩ := hread
  have hmaking : (snapshot, making answer) ∈ source.zip (answers.map making) := by
    rw [List.zip_map_right]
    exact List.mem_map.2 ⟨(snapshot, answer), hzip, rfl⟩
  obtain ⟨l, hl⟩ : ∃ l, making answer row = some l :=
    Option.isSome_iff_exists.1 (h.made _ hmaking row hrow)
  refine ⟨l, hl, fun b hb => ?_⟩
  have hmem : b ∈ madeOf source (answers.map making) := by
    refine List.mem_flatMap.2 ⟨_, hmaking, List.mem_flatMap.2 ⟨row, hrow, ?_⟩⟩
    show b ∈ (making answer row).getD []
    rw [hl]
    exact hb
  exact List.mem_map.1 (h.rows.mem_iff.2 hmem)

theorem Copied.later (h : Copied view source makings table) (hplaced : Placed source table)
    (more : DataTable ρ) : Copied view (source ++ more) makings table := by
  have hzip : (source ++ more).zip makings = source.zip makings :=
    zip_append_of_length_le more (h.reach.trans_le (reachOf_le source table))
  refine ⟨h.reach.trans (reachOf_later hplaced more).symm, ?_, ?_⟩
  · rw [hzip]
    exact h.made
  · rw [madeOf, hzip]
    exact h.rows

/-- A table whose position stays, and whose rows do. -/
theorem Copied.same (h : Copied view source makings table) {table' : DataTable σ}
    (hstart : table'.srcSnapshotId = table.srcSnapshotId) (hrows : table'.rows = table.rows) :
    Copied view source makings table' where
  reach := by rw [h.reach, reachOf, reachOf, hstart]
  made := h.made
  rows := hrows ▸ h.rows

/-- A commit that was made of the rows after the position. -/
theorem Copied.advance (h : Copied view source makings table) {table' : DataTable σ} {n : Nat}
    {making : Making ρ β} {batch : List ρ} (hle : reachOf source table ≤ n)
    (hreach : reachOf source table' = n)
    (hbatch : batch = DataTable.rows ((source.drop (reachOf source table)).take
      (n - reachOf source table)))
    (hmade : ∀ row ∈ batch, (making row).isSome)
    (hrows : (table'.rows.map view).Perm
      (table.rows.map view ++ batch.flatMap fun row => (making row).getD [])) :
    Copied view source (makings ++ List.replicate (n - reachOf source table) making) table' := by
  have hzip := zip_append_replicate (h.reach.trans_le (reachOf_le source table))
    (n - reachOf source table) making
  rw [h.reach] at hzip
  refine ⟨?_, ?_, ?_⟩
  · rw [List.length_append, List.length_replicate, h.reach, hreach]
    omega
  · intro p hp row hrow
    rw [hzip] at hp
    rcases List.mem_append.1 hp with hp | hp
    · exact h.made p hp row hrow
    · obtain ⟨s, hs, rfl⟩ := List.mem_map.1 hp
      refine hmade row ?_
      rw [hbatch]
      exact List.mem_flatMap.2 ⟨s, hs, hrow⟩
  · rw [madeOf, hzip, List.flatMap_append, List.flatMap_map]
    refine hrows.trans (h.rows.append ?_)
    rw [hbatch, DataTable.rows, List.flatMap_assoc]

/-- Slices of the whole source, each made once: the table is a copy if they leave out no row that
    gives anything. -/
theorem copied_slices_iff {κ : Type} [DecidableEq κ] {key : ρ → κ} {slices : List κ}
    {making : Making ρ β} (hreach : reachOf source table = source.length) (hslices : slices.Nodup)
    (hmade : ∀ row ∈ source.rows, key row ∈ slices → (making row).isSome)
    (hrows : (table.rows.map view).Perm (slices.flatMap fun s =>
      (source.rows.filter fun row => key row = s).flatMap fun row => (making row).getD [])) :
    Copied view source (List.replicate source.length making) table ↔
      ∀ row ∈ source.rows, making row ≠ some [] → key row ∈ slices := by
  have hzip : source.zip (List.replicate source.length making) =
      source.map fun s => (s, making) := by
    rw [zip_replicate_right, List.take_length]
  have hall : madeOf source (List.replicate source.length making) =
      source.rows.flatMap fun row => (making row).getD [] := by
    rw [madeOf, hzip, List.flatMap_map, DataTable.rows, List.flatMap_assoc]
  have hperm : ((slices.flatMap fun s => (source.rows.filter fun row => key row = s).flatMap
      fun row => (making row).getD []).Perm (source.rows.flatMap fun row => (making row).getD [])) ↔
        ∀ row ∈ source.rows, (making row).getD [] ≠ [] → key row ∈ slices :=
    flatMap_slices_perm_iff hslices
  constructor
  · intro h row hrow hne
    refine hperm.1 (hrows.symm.trans (hall ▸ h.rows)) row hrow fun hnil => hne ?_
    obtain ⟨s, hs, hrow⟩ := List.mem_flatMap.1 hrow
    have hsome : (making row).isSome := h.made (s, making)
      (hzip ▸ List.mem_map_of_mem hs) row hrow
    obtain ⟨l, hl⟩ := Option.isSome_iff_exists.1 hsome
    rw [hl, Option.getD_some] at hnil
    rw [hl, hnil]
  · intro h
    refine ⟨by rw [List.length_replicate, hreach], fun p hp row hrow => ?_, ?_⟩
    · rw [hzip] at hp
      obtain ⟨s, hs, rfl⟩ := List.mem_map.1 hp
      have hmem : row ∈ source.rows := List.mem_flatMap.2 ⟨s, hs, hrow⟩
      by_cases hnil : making row = some []
      · rw [show (s, making).2 row = some [] from hnil]
        rfl
      · exact hmade row hmem (h row hmem hnil)
    · rw [hall]
      refine hrows.trans (hperm.2 fun row hrow hne => h row hrow fun hnil => hne ?_)
      rw [hnil, Option.getD_some]

end Copied

end K2.Lake

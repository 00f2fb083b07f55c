import Mathlib.Data.Prod.Lex
import K2Platform.Lake.Ingest
import K2Platform.Lib.Coverage
import K2Platform.Lib.Scan
import K2Platform.Lib.SortOn

/-!
# The offset-continuity audit

Model of `audit_offset_continuity` and `_net_recorded` of `maintenance.py`, with `offset_gaps`,
`recorded_gaps` and `uncovered_holes` of `offsets.py`.  Partitions are counted first; of those whose
count is not their span, the holes are read, and netted against the ranges that the `offset_gap`
rows of `audit.checks` name in their text.

* `recordedGaps_rows` — the text that `--accept-data-loss` files is read back.
* `passes_iff` — when the audit passes a partition.
* `audit_exact_iff` — when that is what it should say.
-/

set_option autoImplicit false

namespace K2.Lake

open Coverage Scan

/-! ## `offset_gaps` -/

/-- `SELECT topic, partition, count(*), min(offset), max(offset) .. GROUP BY topic, partition`. -/
structure PartitionCount where
  topic : String
  partition : Nat
  n : Nat
  lo : Int
  hi : Int
  deriving DecidableEq, Repr

def offsetsOf (raw : List RawRow) (topic : String) (partition : Nat) : List Int :=
  (raw.filter fun r => r.topic = topic ∧ r.partition = partition).map RawRow.offset

def partitionCount (raw : List RawRow) (topic : String) (partition : Nat) : PartitionCount where
  topic := topic
  partition := partition
  n := (offsetsOf raw topic partition).length
  lo := (offsetsOf raw topic partition).min?.getD 0
  hi := (offsetsOf raw topic partition).max?.getD 0

def storedCounts (raw : List RawRow) : List PartitionCount :=
  (raw.map fun r => (r.topic, r.partition)).dedup.map fun k => partitionCount raw k.1 k.2

structure GapFailure where
  scope : String
  observed : Int
  detail : String
  deriving DecidableEq, Repr

def scopeOf (topic : String) (partition : Nat) : String := topic ++ "/" ++ toString partition

def PartitionCount.expected (c : PartitionCount) : Int := c.hi - c.lo + 1

def PartitionCount.failure (c : PartitionCount) : GapFailure where
  scope := scopeOf c.topic c.partition
  observed := c.expected - c.n
  detail := "offsets " ++ toString c.lo ++ ".." ++ toString c.hi ++ " span " ++
    toString c.expected ++ " records but " ++ toString c.n ++ " rows are present (" ++
    (if c.expected > c.n then "missing" else "duplicated") ++ ")"

def offsetGaps (counts : List PartitionCount) : List GapFailure :=
  (counts.filter fun c => c.expected ≠ c.n).map PartitionCount.failure

/-! ## `recorded_gaps` -/

/-- `_GAP_OFFSETS_RE`, at the start of a text. -/
def gapOffsetsRe (s : List Char) : Option (Nat × Nat) :=
  (("committed ".toList.isPrefixOf? s).bind number).bind fun (committed, rest) =>
    ((", broker LOG-START ".toList.isPrefixOf? rest).bind number).map fun (logStart, _) =>
      (committed, logStart)

/-- `scope.rpartition("/")`, but for the separator. -/
def rpartition (scope : String) : String × String :=
  let backwards := scope.toList.reverse
  match backwards.dropWhile (· ≠ '/') with
  | [] => ("", scope)
  | _ :: head =>
    (String.ofList head.reverse, String.ofList (backwards.takeWhile (· ≠ '/')).reverse)

structure RecordedGap where
  topic : String
  partition : Nat
  range : Range
  deriving DecidableEq, Repr

/-- One row; what it cannot parse is skipped. -/
def recordedGap (scope detail : String) : Option RecordedGap :=
  (search gapOffsetsRe detail.toList).bind fun (committed, logStart) =>
    (readNat (rpartition scope).2).map fun partition =>
      ⟨(rpartition scope).1, partition, (committed, logStart - 1)⟩

def recordedGaps (rows : List (String × String)) : List RecordedGap :=
  rows.filterMap fun row => recordedGap row.1 row.2

/-! ## `uncovered_holes` -/

/-- The ranges recorded for a partition, sorted. -/
def coveredRanges (topic : String) (partition : Nat) (recorded : List RecordedGap) : List Range :=
  sortOn toLex ((recorded.filter fun g => g.topic = topic ∧ g.partition = partition).map
    RecordedGap.range)

def uncoveredHoles (topic : String) (partition : Nat) (holes : List Range)
    (recorded : List RecordedGap) : List Range :=
  holes.filter fun hole =>
    sweep (coveredRanges topic partition recorded) hole.1 ≤ hole.2

/-! ## The audit -/

/-- The columns of `audit.checks` that `_result` fills. -/
structure AuditResult where
  checkName : String
  scope : String
  passed : Bool
  observed : Int
  detail : String
  deriving DecidableEq, Repr

def RAW_TABLE : String := "lake.raw.messages"

def CHECKS_TABLE : String := "lake.audit.checks"

def continuity (scope : String) (passed : Bool) (observed : Int) (detail : String) : AuditResult :=
  ⟨"offset_continuity", scope, passed, observed, detail⟩

/-- `_ranges`. -/
def showRanges (holes : List Range) : String :=
  String.intercalate ", " (holes.map fun r => toString r.1 ++ ".." ++ toString r.2)

/-- The rows of the `lag` query. -/
def holesOf (offsets : List Int) : List Range := gaps (sortOn id offsets)

/-- `_net_recorded`. -/
def netRecorded (raw : List RawRow) (recorded : List RecordedGap) (failure : GapFailure) :
    AuditResult :=
  let topic := (rpartition failure.scope).1
  match if failure.observed ≤ 0 then none else readNat (rpartition failure.scope).2 with
  | none => continuity failure.scope false failure.observed failure.detail
  | some partition =>
    let holes := holesOf (offsetsOf raw topic partition)
    let uncovered := uncoveredHoles topic partition holes recorded
    let accounted := (holes.map size).sum
    if uncovered ≠ [] ∨ accounted ≠ failure.observed then
      continuity failure.scope false failure.observed
        (failure.detail ++ "; " ++ toString uncovered.length ++ " of " ++ toString holes.length ++
          " holes are NOT covered by a recorded offset_gap (" ++
          (if uncovered = [] then "none" else showRanges uncovered) ++ ")")
    else
      continuity failure.scope true failure.observed
        (toString holes.length ++ " recorded gaps netted (" ++ showRanges holes ++ "); " ++
          toString accounted ++ " records missing, all acknowledged by an offset_gap row in " ++
          CHECKS_TABLE ++ " — nothing else is")

/-- The `offset_gap` rows of `audit.checks`. -/
def gapRows (checks : List CheckRow) : List CheckRow :=
  checks.filter fun r => r.checkName = "offset_gap"

def auditOffsetContinuity (raw : List RawRow) (checks : List CheckRow) : List AuditResult :=
  let counts := storedCounts raw
  let failures := offsetGaps counts
  if counts.isEmpty then [continuity RAW_TABLE true 0 "table is empty"]
  else if failures.isEmpty then
    [continuity RAW_TABLE true 0 (toString counts.length ++ " partitions gapless")]
  else
    let recorded := recordedGaps ((gapRows checks).map fun r => (r.scope, r.detail))
    failures.map (netRecorded raw recorded)

/-! ## What `--accept-data-loss` writes is read back -/

/-- A loss as a run finds it: no blank in the topic's name, and a committed offset that retention
    has overtaken. -/
structure Accepted (loss : Loss) : Prop where
  topic : ' ' ∉ loss.topic.toList
  start : 0 ≤ loss.start
  evicted : loss.start < loss.logStart

theorem rpartition_scopeOf (topic : String) (partition : Nat) :
    rpartition (scopeOf topic partition) = (topic, toString partition) := by
  have htext : (scopeOf topic partition).toList.reverse =
      (toString partition).toList.reverse ++ '/' :: topic.toList.reverse := by
    rw [scopeOf, String.toList_append, String.toList_append, List.reverse_append,
      List.reverse_append]
    rfl
  have hdigits : ∀ c ∈ (toString partition).toList.reverse, decide (c ≠ '/') = true := by
    intro c hc
    refine decide_eq_true fun hslash => ?_
    have hc : c ∈ Nat.toDigits 10 partition := Nat.toList_repr ▸ List.mem_reverse.1 hc
    have := isDigit_of_mem_toDigits hc
    rw [hslash] at this
    cases this
  unfold rpartition
  simp only [htext, List.dropWhile_append_of_pos hdigits, List.takeWhile_append_of_pos hdigits]
  rw [List.dropWhile_cons_of_neg (by decide), List.takeWhile_cons_of_neg (by decide)]
  simp only [List.append_nil, List.reverse_reverse, String.ofList_toList]

theorem scopeOf_inj {topic topic' : String} {partition partition' : Nat}
    (h : scopeOf topic partition = scopeOf topic' partition') :
    topic = topic' ∧ partition = partition' := by
  have hsplit := congrArg rpartition h
  rw [rpartition_scopeOf, rpartition_scopeOf, Prod.mk.injEq] at hsplit
  refine ⟨hsplit.1, ?_⟩
  have hread := congrArg readNat hsplit.2
  change readNat (writeNat partition) = readNat (writeNat partition') at hread
  rwa [readNat_writeNat, readNat_writeNat, Option.some.injEq] at hread

/-- A match begins with a word, a blank and a digit. -/
theorem gapOffsetsRe_eq_none {s : List Char}
    (h : ∀ d r, d.isDigit = true → s ≠ "committed".toList ++ ' ' :: d :: r) :
    gapOffsetsRe s = none := by
  have hnone : ("committed ".toList.isPrefixOf? s).bind number = none := by
    cases hr : "committed ".toList.isPrefixOf? s with
    | none => rfl
    | some r =>
      have hs : "committed ".toList ++ r = s := List.isPrefixOf?_eq_some_iff_append_eq.1 hr
      refine number_eq_none fun c hc => ?_
      cases r with
      | nil => cases hc
      | cons d r =>
        cases hc
        exact Bool.eq_false_iff.2 fun hd => h c r hd hs.symm
  rw [gapOffsetsRe, hnone, Option.bind_none]

/-- No match begins within a word, unless the word ends as the text begins. -/
theorem search_skip_word {word rest : List Char} (hword : ' ' ∉ word)
    (h : (∀ c ∈ rest.head?, c.isDigit = false) ∨ ¬ "committed".toList <:+ word) :
    search gapOffsetsRe (word ++ ' ' :: rest) = search gapOffsetsRe rest := by
  have hnone : ∀ u, u <:+ word → gapOffsetsRe (u ++ ' ' :: rest) = none := by
    intro u hu
    refine gapOffsetsRe_eq_none fun d r hd heq => ?_
    obtain ⟨rfl, rfl⟩ := eq_of_append_blank (fun hc => hword (hu.subset hc)) (by decide) heq
    rcases h with hdigit | hsuffix
    · rw [hdigit d rfl] at hd
      cases hd
    · exact hsuffix hu
  rw [search_skip fun u _ hu => hnone u hu, search, ← List.nil_append (' ' :: rest),
    hnone [] (List.nil_suffix), Option.none_or]

theorem search_gapRow (runTs : Int) (applicationId : String) {loss : Loss}
    (hblank : ' ' ∉ loss.topic.toList) (hstart : 0 ≤ loss.start) (hlogStart : 0 ≤ loss.logStart) :
    search gapOffsetsRe (gapRow runTs applicationId loss).detail.toList =
      some (loss.start.toNat, loss.logStart.toNat) := by
  have hshow : ∀ x : Int, 0 ≤ x → (toString x).toList = Nat.toDigits 10 x.toNat := by
    intro x hx
    obtain ⟨n, rfl⟩ := Int.eq_ofNat_of_zero_le hx
    exact Nat.toList_repr
  have hdigits : ' ' ∉ Nat.toDigits 10 loss.partition := fun hc => by
    have := isDigit_of_mem_toDigits hc
    cases this
  obtain ⟨tail, hdetail⟩ : ∃ tail, (gapRow runTs applicationId loss).detail.toList =
      "--accept-data-loss:".toList ++ ' ' :: (loss.topic.toList ++ ' ' ::
        ("partition".toList ++ ' ' :: (Nat.toDigits 10 loss.partition ++ ' ' ::
          ("committed ".toList ++ (Nat.toDigits 10 loss.start.toNat ++
            (", broker LOG-START ".toList ++ (Nat.toDigits 10 loss.logStart.toNat ++
              ',' :: tail))))))) := by
    refine ⟨(" " ++ toString loss.lost ++
      " records evicted by Redpanda retention and permanently gone; resumed at " ++
      toString loss.logStart ++ " by run " ++ applicationId).toList, ?_⟩
    have hpartition : (toString loss.partition).toList = Nat.toDigits 10 loss.partition :=
      Nat.toList_repr
    have hjob : "--accept-data-loss: ".toList = "--accept-data-loss:".toList ++ [' '] := by decide
    have hword : " partition ".toList = ' ' :: ("partition".toList ++ [' ']) := by decide
    have hspace : " ".toList = [' '] := by decide
    have hcomma : ", ".toList = [',', ' '] := by decide
    simp only [gapRow, gapOffsets, String.toList_append, hshow _ hstart, hshow _ hlogStart,
      hpartition, hjob, hword, hspace, hcomma, List.append_assoc, List.cons_append,
      List.nil_append]
  have hmatch : gapOffsetsRe ("committed ".toList ++ (Nat.toDigits 10 loss.start.toNat ++
      (", broker LOG-START ".toList ++ (Nat.toDigits 10 loss.logStart.toNat ++ ',' :: tail)))) =
        some (loss.start.toNat, loss.logStart.toNat) := by
    have hliteral : ∀ p r : List Char, p.isPrefixOf? (p ++ r) = some r :=
      fun _ _ => List.isPrefixOf?_eq_some_iff_append_eq.2 rfl
    have hcommitted := number_append loss.start.toNat (", broker LOG-START ".toList ++
      (Nat.toDigits 10 loss.logStart.toNat ++ ',' :: tail)) fun c hc => by cases hc; rfl
    have hsurvived := number_append loss.logStart.toNat (',' :: tail)
      fun c hc => by cases hc; rfl
    rw [gapOffsetsRe, hliteral, Option.bind_some, hcommitted, Option.bind_some]
    dsimp only
    rw [hliteral, Option.bind_some, hsurvived, Option.map_some]
  rw [hdetail, search_skip_word (by decide) (Or.inr (by decide)),
    search_skip_word hblank (Or.inl fun c hc => by cases hc; rfl),
    search_skip_word (by decide) (Or.inr (by decide)),
    search_skip_word hdigits (Or.inl fun c hc => by cases hc; rfl)]
  exact search_of_eq_some (by simp) hmatch

theorem recordedGap_gapRow (runTs : Int) (applicationId : String) {loss : Loss}
    (hblank : ' ' ∉ loss.topic.toList) (hstart : 0 ≤ loss.start) (hlogStart : 0 ≤ loss.logStart) :
    recordedGap (gapRow runTs applicationId loss).scope (gapRow runTs applicationId loss).detail =
      some ⟨loss.topic, loss.partition, (loss.start, loss.logStart - 1)⟩ := by
  have hscope : rpartition (gapRow runTs applicationId loss).scope =
      (loss.topic, toString loss.partition) := rpartition_scopeOf loss.topic loss.partition
  have hread : readNat (toString loss.partition) = some loss.partition :=
    readNat_writeNat loss.partition
  rw [recordedGap, search_gapRow runTs applicationId hblank hstart hlogStart, Option.bind_some]
  dsimp only
  rw [hscope, hread, Option.map_some, Int.toNat_of_nonneg hstart, Int.toNat_of_nonneg hlogStart]

/-- **What is filed is what is read back.** -/
theorem recordedGaps_rows {commits : List GapCommit} (h : ∀ c ∈ commits, ∀ l ∈ c.losses, Accepted l) :
    recordedGaps ((commits.flatMap GapCommit.rows).map fun r => (r.scope, r.detail)) =
      (commits.flatMap GapCommit.losses).map fun l =>
        ⟨l.topic, l.partition, (l.start, l.logStart - 1)⟩ := by
  induction commits with
  | nil => rfl
  | cons c commits ih =>
    obtain ⟨hc, hcommits⟩ := List.forall_mem_cons.1 h
    have hrows : recordedGaps (c.rows.map fun r => (r.scope, r.detail)) =
        c.losses.map fun l => ⟨l.topic, l.partition, (l.start, l.logStart - 1)⟩ := by
      rw [recordedGaps, GapCommit.rows, List.map_map, List.filterMap_map, ← List.filterMap_eq_map]
      refine List.filterMap_congr fun l hl => ?_
      simp only [Function.comp_apply]
      have hl := hc l hl
      exact recordedGap_gapRow c.runTs c.applicationId hl.topic hl.start
        (hl.start.trans hl.evicted.le)
    rw [List.flatMap_cons, List.flatMap_cons, List.map_append, List.map_append, ← ih hcommits,
      ← hrows, recordedGaps, List.filterMap_append, recordedGaps, recordedGaps]

/-! ## Counting -/

/-- `max - min + 1`. -/
def span (offsets : List Int) : Int := offsets.max?.getD 0 - offsets.min?.getD 0 + 1

theorem span_eq {offsets l : List Int} {a : Int} (hperm : offsets.Perm (a :: l))
    (hsorted : (a :: l).Pairwise (· ≤ ·)) :
    span offsets = (a :: l).getLast (List.cons_ne_nil a l) - a + 1 := by
  have hmin : offsets.min? = some a := by
    refine List.min?_eq_some_iff.2 ⟨hperm.mem_iff.2 List.mem_cons_self, fun b hb => ?_⟩
    rcases List.mem_cons.1 (hperm.mem_iff.1 hb) with rfl | hb
    · exact le_rfl
    · exact (List.pairwise_cons.1 hsorted).1 b hb
  have hmax : offsets.max? = some ((a :: l).getLast (List.cons_ne_nil a l)) := by
    refine List.max?_eq_some_iff.2 ⟨hperm.mem_iff.2 (List.getLast_mem _), fun b hb => ?_⟩
    exact hsorted.rel_getLast (hperm.mem_iff.1 hb)
  rw [span, hmin, hmax, Option.getD_some, Option.getD_some]

/-- **What the holes account for.** -/
theorem sum_holes {offsets : List Int} (hne : offsets ≠ []) :
    ((holesOf offsets).map size).sum + offsets.dedup.length = span offsets := by
  have hperm := sortOn_perm id offsets
  have hsorted : (sortOn id offsets).Pairwise (· ≤ ·) := sortOn_pairwise id offsets
  rw [holesOf]
  cases hl : sortOn id offsets with
  | nil =>
    rw [hl] at hperm
    exact absurd hperm.symm.eq_nil hne
  | cons a l =>
    rw [hl] at hperm hsorted
    rw [span_eq hperm.symm hsorted, ← sum_gaps_add hsorted, hperm.dedup.length_eq]

theorem nodup_iff_length_dedup {offsets : List Int} :
    offsets.Nodup ↔ offsets.dedup.length = offsets.length := by
  rw [← List.dedup_eq_self]
  exact ⟨fun h => congrArg List.length h, (List.dedup_sublist offsets).eq_of_length⟩

theorem covers_holesOf_iff (offsets : List Int) (x : Int) :
    Covers (holesOf offsets) x ↔
      (∃ a ∈ offsets, a < x) ∧ (∃ b ∈ offsets, x < b) ∧ x ∉ offsets := by
  have hmem : ∀ y, y ∈ sortOn id offsets ↔ y ∈ offsets := fun y => (sortOn_perm id offsets).mem_iff
  rw [holesOf, covers_gaps_iff (sortOn_pairwise id offsets)]
  simp only [hmem]

theorem pairwise_coveredRanges (topic : String) (partition : Nat) (recorded : List RecordedGap) :
    (coveredRanges topic partition recorded).Pairwise fun r s => r.1 ≤ s.1 :=
  (sortOn_pairwise toLex _).imp fun h => (Prod.Lex.le_iff.1 h).elim le_of_lt fun h => h.1.le

theorem uncoveredHoles_eq_nil_iff {topic : String} {partition : Nat} {holes : List Range}
    {recorded : List RecordedGap} :
    uncoveredHoles topic partition holes recorded = [] ↔
      ∀ x, Covers holes x → Covers (coveredRanges topic partition recorded) x := by
  have hsorted := pairwise_coveredRanges topic partition recorded
  rw [uncoveredHoles, List.filter_eq_nil_iff]
  simp only [decide_eq_true_eq, sweep_le_iff hsorted, not_exists, not_and, not_not]
  constructor
  · rintro h x ⟨r, hr, hx⟩
    exact h r hr x hx
  · intro h r hr x hx
    exact h x ⟨r, hr, hx⟩

theorem covers_coveredRanges_iff {topic : String} {partition : Nat} {losses : List Loss} {x : Int} :
    Covers (coveredRanges topic partition
        (losses.map fun l => ⟨l.topic, l.partition, (l.start, l.logStart - 1)⟩)) x ↔
      ∃ l ∈ losses, l.topic = topic ∧ l.partition = partition ∧ l.start ≤ x ∧ x < l.logStart := by
  have hmem : ∀ r, r ∈ coveredRanges topic partition
      (losses.map fun l => ⟨l.topic, l.partition, (l.start, l.logStart - 1)⟩) ↔
        ∃ l ∈ losses, (l.topic = topic ∧ l.partition = partition) ∧ (l.start, l.logStart - 1) = r := by
    intro r
    rw [coveredRanges, (sortOn_perm toLex _).mem_iff, List.filter_map, List.map_map, List.mem_map]
    simp only [List.mem_filter, Function.comp_apply, decide_eq_true_eq, and_assoc]
  unfold Covers
  simp only [hmem]
  constructor
  · rintro ⟨r, ⟨l, hl, ⟨ht, hp⟩, rfl⟩, hfirst, hlast⟩
    dsimp only at hfirst hlast
    exact ⟨l, hl, ht, hp, hfirst, by omega⟩
  · rintro ⟨l, hl, ht, hp, hfirst, hlast⟩
    exact ⟨_, ⟨l, hl, ⟨ht, hp⟩, rfl⟩, hfirst, by dsimp only; omega⟩

/-! ## What the audit says of a partition -/

/-- No result for the partition fails. -/
def Passes (results : List AuditResult) (topic : String) (partition : Nat) : Prop :=
  ∀ r ∈ results, r.scope = scopeOf topic partition → r.passed = true

theorem scope_netRecorded (raw : List RawRow) (recorded : List RecordedGap)
    (failure : GapFailure) : (netRecorded raw recorded failure).scope = failure.scope := by
  unfold netRecorded
  simp only
  split
  · rfl
  · split <;> rfl

theorem passed_netRecorded_iff (raw : List RawRow) (recorded : List RecordedGap) (topic : String)
    (partition : Nat) :
    (netRecorded raw recorded (partitionCount raw topic partition).failure).passed = true ↔
      0 < span (offsetsOf raw topic partition) - (offsetsOf raw topic partition).length ∧
        uncoveredHoles topic partition (holesOf (offsetsOf raw topic partition)) recorded = [] ∧
          ((holesOf (offsetsOf raw topic partition)).map size).sum =
            span (offsetsOf raw topic partition) - (offsetsOf raw topic partition).length := by
  have hscope : rpartition (partitionCount raw topic partition).failure.scope =
      (topic, toString partition) := rpartition_scopeOf topic partition
  have hread : readNat (toString partition) = some partition := readNat_writeNat partition
  have hobserved : (partitionCount raw topic partition).failure.observed =
      span (offsetsOf raw topic partition) - (offsetsOf raw topic partition).length := rfl
  unfold netRecorded
  simp only [hscope, hread, hobserved]
  by_cases hpos : 0 < span (offsetsOf raw topic partition) - (offsetsOf raw topic partition).length
  · rw [if_neg (not_le.2 hpos)]
    dsimp only
    split
    · rename_i hfail
      refine iff_of_false (by simp [continuity]) fun ⟨_, huncovered, haccounted⟩ => ?_
      exact hfail.elim (fun h => h huncovered) fun h => h haccounted
    · rename_i hpass
      rw [not_or, not_not, not_not] at hpass
      exact iff_of_true rfl ⟨hpos, hpass⟩
  · rw [if_pos (not_lt.1 hpos)]
    exact iff_of_false (by simp [continuity]) fun h => hpos h.1

theorem mem_storedCounts_iff {raw : List RawRow} {c : PartitionCount} :
    c ∈ storedCounts raw ↔ ∃ topic partition, offsetsOf raw topic partition ≠ [] ∧
      partitionCount raw topic partition = c := by
  have hstored : ∀ topic partition, offsetsOf raw topic partition ≠ [] ↔
      ∃ r ∈ raw, (r.topic, r.partition) = (topic, partition) := by
    intro topic partition
    rw [offsetsOf, Ne, List.map_eq_nil_iff, List.filter_eq_nil_iff]
    simp
  simp only [storedCounts, List.mem_map, List.mem_dedup, hstored]
  constructor
  · rintro ⟨k, ⟨r, hr, rfl⟩, rfl⟩
    exact ⟨r.topic, r.partition, ⟨r, hr, rfl⟩, rfl⟩
  · rintro ⟨topic, partition, ⟨r, hr, hk⟩, rfl⟩
    exact ⟨(topic, partition), ⟨r, hr, hk⟩, rfl⟩

theorem mem_offsetGaps_iff {raw : List RawRow} {f : GapFailure} :
    f ∈ offsetGaps (storedCounts raw) ↔ ∃ topic partition,
      offsetsOf raw topic partition ≠ [] ∧
        span (offsetsOf raw topic partition) ≠ (offsetsOf raw topic partition).length ∧
        (partitionCount raw topic partition).failure = f := by
  simp only [offsetGaps, List.mem_map, List.mem_filter, mem_storedCounts_iff, decide_eq_true_eq]
  constructor
  · rintro ⟨c, ⟨⟨t, p, hne, rfl⟩, hspan⟩, rfl⟩
    exact ⟨t, p, hne, hspan, rfl⟩
  · rintro ⟨t, p, hne, hspan, rfl⟩
    exact ⟨_, ⟨⟨t, p, hne, rfl⟩, hspan⟩, rfl⟩

/-- A result that does not pass is of a partition whose count is off. -/
theorem mem_audit {raw : List RawRow} {checks : List CheckRow} {r : AuditResult}
    (h : r ∈ auditOffsetContinuity raw checks) :
    r.passed = true ∨ ∃ f ∈ offsetGaps (storedCounts raw),
      netRecorded raw (recordedGaps ((gapRows checks).map fun r => (r.scope, r.detail))) f = r := by
  unfold auditOffsetContinuity at h
  simp only at h
  split at h
  · exact Or.inl (List.mem_singleton.1 h ▸ rfl)
  · split at h
    · exact Or.inl (List.mem_singleton.1 h ▸ rfl)
    · exact Or.inr (List.mem_map.1 h)

theorem netRecorded_mem_audit {raw : List RawRow} (checks : List CheckRow) {f : GapFailure}
    (h : f ∈ offsetGaps (storedCounts raw)) :
    netRecorded raw (recordedGaps ((gapRows checks).map fun r => (r.scope, r.detail))) f ∈
      auditOffsetContinuity raw checks := by
  unfold auditOffsetContinuity
  simp only
  split
  · rename_i hnone
    rw [List.isEmpty_iff.1 hnone] at h
    cases h
  · split
    · rename_i hnone
      rw [List.isEmpty_iff.1 hnone] at h
      cases h
    · exact List.mem_map.2 ⟨f, h, rfl⟩

/-- **When a partition passes.** -/
theorem passes_iff (raw : List RawRow) (checks : List CheckRow) (topic : String) (partition : Nat) :
    Passes (auditOffsetContinuity raw checks) topic partition ↔
      offsetsOf raw topic partition = [] ∨
        span (offsetsOf raw topic partition) = (offsetsOf raw topic partition).length ∨
        (netRecorded raw (recordedGaps ((gapRows checks).map fun r => (r.scope, r.detail)))
          (partitionCount raw topic partition).failure).passed = true := by
  constructor
  · intro h
    by_contra hnot
    simp only [not_or] at hnot
    obtain ⟨hne, hspan, hfailed⟩ := hnot
    have hmem := netRecorded_mem_audit checks
      (mem_offsetGaps_iff.2 ⟨topic, partition, hne, hspan, rfl⟩)
    exact hfailed (h _ hmem (scope_netRecorded _ _ _))
  · intro h r hr hscope
    rcases mem_audit hr with hpassed | ⟨f, hf, rfl⟩
    · exact hpassed
    · -- the failure is this partition's, since it has its scope
      obtain ⟨t, p, hne, hspan, rfl⟩ := mem_offsetGaps_iff.1 hf
      rw [scope_netRecorded] at hscope
      obtain ⟨rfl, rfl⟩ := scopeOf_inj hscope
      exact (h.resolve_left hne).resolve_left hspan

/-! ## What it should say -/

/-- No offset is stored twice, and what is missing between two that are stored was accepted as
    lost. -/
structure AccountedFor (offsets : List Int) (losses : List Loss) (topic : String) (partition : Nat) :
    Prop where
  once : offsets.Nodup
  acknowledged : ∀ x, (∃ a ∈ offsets, a < x) → (∃ b ∈ offsets, x < b) → x ∉ offsets →
    ∃ l ∈ losses, l.topic = topic ∧ l.partition = partition ∧ l.start ≤ x ∧ x < l.logStart

/-- **The audit passes the partitions it should**, but for one whose rows are as many as its span
    although an offset is stored twice: as many rows too many as are missing. -/
theorem audit_exact_iff (raw : List RawRow) (checks : List CheckRow) (commits : List GapCommit)
    (hfiled : gapRows checks = commits.flatMap GapCommit.rows)
    (haccepted : ∀ c ∈ commits, ∀ l ∈ c.losses, Accepted l) (topic : String) (partition : Nat) :
    (Passes (auditOffsetContinuity raw checks) topic partition ↔
        AccountedFor (offsetsOf raw topic partition) (commits.flatMap GapCommit.losses) topic partition) ↔
      (span (offsetsOf raw topic partition) = (offsetsOf raw topic partition).length →
        (offsetsOf raw topic partition).Nodup) := by
  rw [passes_iff, passed_netRecorded_iff, hfiled, recordedGaps_rows haccepted]
  generalize offsetsOf raw topic partition = offsets
  generalize commits.flatMap GapCommit.losses = losses
  have hholes : ∀ r ∈ holesOf offsets, r.1 ≤ r.2 := fun r => nonempty_of_mem_gaps
  have hcovered : uncoveredHoles topic partition (holesOf offsets)
      (losses.map fun l => ⟨l.topic, l.partition, (l.start, l.logStart - 1)⟩) = [] ↔
        ∀ x, (∃ a ∈ offsets, a < x) → (∃ b ∈ offsets, x < b) → x ∉ offsets →
          ∃ l ∈ losses, l.topic = topic ∧ l.partition = partition ∧ l.start ≤ x ∧
            x < l.logStart := by
    rw [uncoveredHoles_eq_nil_iff]
    simp only [covers_holesOf_iff, covers_coveredRanges_iff, and_imp]
  rw [hcovered]
  by_cases hne : offsets = []
  · subst hne
    have hspan : span [] = 1 := rfl
    have haccounted : AccountedFor [] losses topic partition := by
      refine ⟨List.nodup_nil, ?_⟩
      rintro x ⟨a, ha, _⟩
      cases ha
    exact iff_of_true (iff_of_true (Or.inl rfl) haccounted) fun _ => List.nodup_nil
  · have hsum := sum_holes hne
    have hsize := length_le_sum_size hholes
    by_cases hnodup : offsets.Nodup
    · have hcount := nodup_iff_length_dedup.1 hnodup
      refine iff_of_true ⟨fun h => ⟨hnodup, ?_⟩, fun h => Or.inr ?_⟩ fun _ => hnodup
      · rcases h with hnil | hspan | ⟨_, hack, _⟩
        · exact absurd hnil hne
        · -- nothing is missing, so there is no hole
          have hnone : holesOf offsets = [] := List.length_eq_zero_iff.1 (by omega)
          intro x hbelow habove hx
          have hhole := (covers_holesOf_iff offsets x).2 ⟨hbelow, habove, hx⟩
          rw [hnone] at hhole
          exact absurd hhole fun ⟨_, h, _⟩ => List.not_mem_nil h
        · exact hack
      · by_cases hspan : span offsets = offsets.length
        · exact Or.inl hspan
        · exact Or.inr ⟨by omega, h.acknowledged, by omega⟩
    · have hcount : offsets.dedup.length < offsets.length :=
        lt_of_le_of_ne (List.dedup_sublist offsets).length_le (mt nodup_iff_length_dedup.2 hnodup)
      have hnot : ¬ AccountedFor offsets losses topic partition := fun h => hnodup h.once
      rw [iff_false_intro hnot, iff_false]
      constructor
      · intro h hspan
        exact absurd (Or.inr (Or.inl hspan)) h
      · rintro h (hnil | hspan | ⟨_, _, haccounted⟩)
        · exact hne hnil
        · exact hnodup (h hspan)
        · omega

theorem gapRows_rows (commits : List GapCommit) :
    gapRows (commits.flatMap GapCommit.rows) = commits.flatMap GapCommit.rows := by
  refine List.filter_eq_self.2 fun r hr => ?_
  obtain ⟨c, _, hc⟩ := List.mem_flatMap.1 hr
  obtain ⟨l, _, rfl⟩ := List.mem_map.1 hc
  rfl

/-- A row of partition 0 of Kraken's topic. -/
def storedAt (offset : Int) : RawRow where
  topic := "market.crypto.v3.raw.kraken"
  partition := 0
  offset := offset
  kafkaTs := 0
  ingestTs := 0
  key := none
  schemaId := none
  payload := none
  headers := Dict.empty

/-- Offsets 1 to 3, accepted as lost. -/
def threeLost : GapCommit := ⟨0, "local-1", [⟨"market.crypto.v3.raw.kraken", 0, 1, 4, 3⟩]⟩

theorem recorded_hole_netted :
    Passes (auditOffsetContinuity [storedAt 0, storedAt 4] ([threeLost].flatMap GapCommit.rows))
        "market.crypto.v3.raw.kraken" 0 ↔
      AccountedFor (offsetsOf [storedAt 0, storedAt 4] "market.crypto.v3.raw.kraken" 0)
        ([threeLost].flatMap GapCommit.losses) "market.crypto.v3.raw.kraken" 0 := by
  refine (audit_exact_iff _ _ [threeLost] (gapRows_rows _) (fun c hc l hl => ?_) _ _).2
    fun _ => by decide
  cases List.mem_singleton.1 hc
  cases List.mem_singleton.1 hl
  exact ⟨by decide, by decide, by decide⟩

/-- Offset 0 is stored twice and offset 1 is missing: three rows, and a span of three. -/
theorem repeat_hides_hole : ¬ ∀ (raw : List RawRow) (checks : List CheckRow)
    (commits : List GapCommit), gapRows checks = commits.flatMap GapCommit.rows →
      (∀ c ∈ commits, ∀ l ∈ c.losses, Accepted l) → ∀ topic partition,
        (Passes (auditOffsetContinuity raw checks) topic partition ↔
          AccountedFor (offsetsOf raw topic partition) (commits.flatMap GapCommit.losses) topic
            partition) := by
  intro h
  have hexact := h [storedAt 0, storedAt 0, storedAt 2] [] [] rfl
    (fun _ hc => absurd hc List.not_mem_nil) "market.crypto.v3.raw.kraken" 0
  have hpasses : Passes (auditOffsetContinuity [storedAt 0, storedAt 0, storedAt 2] [])
      "market.crypto.v3.raw.kraken" 0 := (passes_iff _ _ _ _).2 (Or.inr (Or.inl (by decide)))
  have honce := (hexact.1 hpasses).once
  revert honce
  decide

end K2.Lake

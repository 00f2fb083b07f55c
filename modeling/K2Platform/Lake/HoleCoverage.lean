import K2Platform.Lake.ContinuityAudit

/-!
# Which holes the recorded gaps account for

`uncovered_holes` of `offsets.py` over the holes of any partitions, and `recorded_gaps` over the
rows as `audit.checks` holds them, whose scope and detail may be NULL.

* `uncovered_eq_filter` — the cursor that goes through the sorted gaps stops in
  a hole exactly where an offset of it lies in none of them.
* `hole_coverage_exact` — and the gaps are those that the repair wrote down.
-/

set_option autoImplicit false

namespace K2.Lake

open Coverage

/-- `uncovered_holes`. -/
def uncovered (holes gaps : List RecordedGap) : List RecordedGap :=
  holes.filter fun hole =>
    sweep (coveredRanges hole.topic hole.partition gaps) hole.range.1 ≤ hole.range.2

/-- An offset of the hole lies in no gap of its topic and partition. -/
def Lost (gaps : List RecordedGap) (hole : RecordedGap) : Prop :=
  ∃ x, hole.range.Contains x ∧ ∀ g ∈ gaps,
    g.topic = hole.topic → g.partition = hole.partition → ¬ g.range.Contains x

theorem not_covers_coveredRanges_iff {topic : String} {partition : Nat} {gaps : List RecordedGap}
    {x : Int} :
    ¬ Covers (coveredRanges topic partition gaps) x ↔
      ∀ g ∈ gaps, g.topic = topic → g.partition = partition → ¬ g.range.Contains x := by
  have hmem : ∀ r, r ∈ coveredRanges topic partition gaps ↔
      ∃ g ∈ gaps, (g.topic = topic ∧ g.partition = partition) ∧ g.range = r := by
    intro r
    rw [coveredRanges, (sortOn_perm toLex _).mem_iff, List.mem_map]
    simp only [List.mem_filter, decide_eq_true_eq, and_assoc]
  constructor
  · intro h g hg htopic hpartition hx
    exact h ⟨g.range, (hmem _).2 ⟨g, hg, ⟨htopic, hpartition⟩, rfl⟩, hx⟩
  · rintro h ⟨r, hr, hx⟩
    obtain ⟨g, hg, ⟨htopic, hpartition⟩, rfl⟩ := (hmem r).1 hr
    exact h g hg htopic hpartition hx

/-- Where the cursor stops. -/
theorem sweep_coveredRanges_le_iff {gaps : List RecordedGap} {hole : RecordedGap} :
    sweep (coveredRanges hole.topic hole.partition gaps) hole.range.1 ≤ hole.range.2 ↔
      Lost gaps hole := by
  rw [sweep_le_iff (pairwise_coveredRanges hole.topic hole.partition gaps), Lost]
  refine exists_congr fun x => ?_
  rw [not_covers_coveredRanges_iff]

instance (gaps : List RecordedGap) : DecidablePred (Lost gaps) := fun _ =>
  decidable_of_iff _ sweep_coveredRanges_le_iff

/-- In input order. -/
theorem uncovered_eq_filter (holes gaps : List RecordedGap) :
    uncovered holes gaps = holes.filter fun hole => Lost gaps hole := by
  refine List.filter_congr fun hole _ => ?_
  rw [decide_eq_decide]
  exact sweep_coveredRanges_le_iff

example : uncovered [⟨"t", 0, (100, 300)⟩, ⟨"t", 0, (100, 301)⟩, ⟨"t", 1, (5, 4)⟩]
    [⟨"t", 0, (201, 300)⟩, ⟨"t", 0, (150, 120)⟩, ⟨"t", 0, (100, 200)⟩] =
      [⟨"t", 0, (100, 301)⟩] := by
  decide

/-! ## The rows of the repair -/

/-- `recorded_gaps`. -/
def recordedGapsOf (rows : List (Option String × Option String)) : List RecordedGap :=
  recordedGaps (rows.map fun row => (row.1.getD "", row.2.getD ""))

/-- A topic name that Kafka accepts. -/
structure TopicName where
  name : String
  legal : ∀ c ∈ name.toList, c.isAlphanum = true ∨ c = '.' ∨ c = '_' ∨ c = '-'

theorem TopicName.blank_notMem (t : TopicName) : ' ' ∉ t.name.toList := by
  intro h
  rcases t.legal ' ' h with halpha | hdot | hscore | hdash
  · exact absurd halpha (by decide)
  · exact absurd hdot (by decide)
  · exact absurd hscore (by decide)
  · exact absurd hdash (by decide)

def TopicName.rawKraken : TopicName where
  name := "market.crypto.v3.raw.kraken"
  legal := by
    have hall : "market.crypto.v3.raw.kraken".toList.all
        (fun c => c.isAlphanum || c == '.' || c == '_' || c == '-') = true := by decide +kernel
    intro c hc
    simpa [or_assoc] using List.all_eq_true.1 hall c hc

/-- A loss with the offsets it is about. -/
structure RecordedLoss where
  topic : TopicName
  partition : Nat
  committed : Nat
  logStart : Nat
  lost : Int

def RecordedLoss.loss (l : RecordedLoss) : Loss :=
  ⟨l.topic.name, l.partition, l.committed, l.logStart, l.lost⟩

def RecordedLoss.gap (l : RecordedLoss) : RecordedGap :=
  ⟨l.topic.name, l.partition, (l.committed, l.logStart - 1)⟩

/-- What `_accept_data_loss` writes for each of its losses, as a query reads it. -/
def writtenRows (runTs : Int) (applicationId : String) (losses : List RecordedLoss) :
    List (Option String × Option String) :=
  losses.map fun l =>
    (some (gapRow runTs applicationId l.loss).scope, some (gapRow runTs applicationId l.loss).detail)

theorem recordedGapsOf_writtenRows (runTs : Int) (applicationId : String)
    (losses : List RecordedLoss) :
    recordedGapsOf (writtenRows runTs applicationId losses) = losses.map RecordedLoss.gap := by
  have hread : ∀ l : RecordedLoss, recordedGap (gapRow runTs applicationId l.loss).scope
      (gapRow runTs applicationId l.loss).detail = some l.gap := fun l =>
    recordedGap_gapRow runTs applicationId l.topic.blank_notMem (Int.natCast_nonneg _)
      (Int.natCast_nonneg _)
  rw [recordedGapsOf, writtenRows, List.map_map, recordedGaps, List.filterMap_map,
    ← List.filterMap_eq_map]
  refine List.filterMap_congr fun l _ => ?_
  simp only [Function.comp_apply, Option.getD_some, hread]

/-- **Hole coverage is exact.**  The holes that come back are those with an offset in no gap
    recorded for their topic and partition; and the gaps are read back from the rows, whatever
    topics, partitions and offsets they were written about. -/
theorem hole_coverage_exact :
    (∀ holes gaps : List RecordedGap,
      uncovered holes gaps = holes.filter fun hole => Lost gaps hole) ∧
    ∀ (runTs : Int) (applicationId : String) (losses : List RecordedLoss),
      recordedGapsOf (writtenRows runTs applicationId losses) = losses.map RecordedLoss.gap :=
  ⟨uncovered_eq_filter, recordedGapsOf_writtenRows⟩

/-- A loss of the raw topic of Kraken, as its row is read. -/
example : recordedGapsOf (writtenRows 1000 "app-1" [⟨.rawKraken, 0, 100, 300, 200⟩]) =
    [⟨"market.crypto.v3.raw.kraken", 0, (100, 299)⟩] :=
  recordedGapsOf_writtenRows 1000 "app-1" _

end K2.Lake

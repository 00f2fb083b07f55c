import Mathlib.Algebra.Order.Ring.Int
import Mathlib.Data.List.Infix
import K2Platform.Lib.Dict

/-!
# Snapshots of a lake table

Model of the snapshot history that `docker/lake/catalog.py` reads and of
`docker/lake/offsets.py::latest_summary`.  A table's position lives nowhere but in the
summaries of its snapshots, under `k2.job` and the property of the stage that wrote it.

* `Ordered` — commits are serialised, so `committed_at` strictly increases along a history.
* `latestSnapshot_eq_some_iff` — on an ordered history the newest summary of a job is that of
  the last snapshot the job wrote, however many others follow it.
-/

set_option autoImplicit false

namespace K2.Lake

/-! ## Summaries -/

/-- What a summary property holds.  The two properties written through `json.dumps` are the
    objects that `json.loads` gives back; the keys of a JSON object are strings. -/
inductive Property where
  | text (s : String)
  | offsets (o : Dict String (Dict String Int))
  | counts (c : Dict String Int)
  | instant (us : Int)
  deriving DecidableEq

abbrev Summary := Dict String Property

def JOB : String := "k2.job"

def KAFKA_OFFSETS : String := "k2.kafka-offsets"

def KAFKA_BACKLOG : String := "k2.kafka-backlog"

def MAX_KAFKA_TS : String := "k2.max-kafka-ts"

def SRC_SNAPSHOT_ID : String := "k2.src-snapshot-id"

def JOB_INGEST : String := "ingest"

def JOB_DECODE : String := "decode"

/-- `committed_at` in microseconds. -/
structure Snapshot where
  committedAt : Int
  summary : Summary
  deriving DecidableEq

namespace Snapshot

/-- `s and s.get(JOB) == job`: an empty summary has no `k2.job`. -/
def writtenBy (job : String) (s : Snapshot) : Bool := s.summary.get? JOB == some (.text job)

end Snapshot

/-! ## The newest summary of a job -/

def latestSnapshot (snapshots : List Snapshot) (job : String) : Option Snapshot :=
  (snapshots.filter (Snapshot.writtenBy job)).maxOn? Snapshot.committedAt

def latestSummary (snapshots : List Snapshot) (job : String) : Option Summary :=
  (latestSnapshot snapshots job).map Snapshot.summary

/-- Newest last, at strictly increasing times. -/
def Ordered (snapshots : List Snapshot) : Prop :=
  snapshots.Pairwise fun s t => s.committedAt < t.committedAt

instance (snapshots : List Snapshot) : Decidable (Ordered snapshots) :=
  inferInstanceAs (Decidable (snapshots.Pairwise fun s t => s.committedAt < t.committedAt))

theorem Ordered.concat {snapshots : List Snapshot} {s : Snapshot} (h : Ordered snapshots)
    (hs : ∀ t ∈ snapshots, t.committedAt < s.committedAt) : Ordered (snapshots ++ [s]) := by
  refine List.pairwise_append.2 ⟨h, List.pairwise_singleton _ _, fun a ha b hb => ?_⟩
  rw [List.mem_singleton.1 hb]
  exact hs a ha

theorem latestSnapshot_eq_none_iff {snapshots : List Snapshot} {job : String} :
    latestSnapshot snapshots job = none ↔ ∀ s ∈ snapshots, s.writtenBy job = false := by
  rw [latestSnapshot, ← Option.not_isSome_iff_eq_none, List.isSome_maxOn?_iff, not_not,
    List.filter_eq_nil_iff]
  simp

/-- The snapshot whose summary is newest is the last one the job wrote. -/
theorem latestSnapshot_append_cons {pre post : List Snapshot} {s : Snapshot} {job : String}
    (h : Ordered (pre ++ s :: post)) (hs : s.writtenBy job = true)
    (hpost : ∀ t ∈ post, t.writtenBy job = false) :
    latestSnapshot (pre ++ s :: post) job = some s := by
  have hempty : post.filter (Snapshot.writtenBy job) = [] := by
    simpa [List.filter_eq_nil_iff] using hpost
  rw [latestSnapshot, List.filter_append, List.filter_cons_of_pos hs, hempty]
  have hlt : ∀ t ∈ pre.filter (Snapshot.writtenBy job), t.committedAt < s.committedAt :=
    fun t ht => (List.pairwise_append.1 h).2.2 t (List.mem_of_mem_filter ht) s List.mem_cons_self
  have hmem : s ∈ pre.filter (Snapshot.writtenBy job) ++ [s] :=
    List.mem_append_right _ List.mem_cons_self
  cases hmax : (pre.filter (Snapshot.writtenBy job) ++ [s]).maxOn? Snapshot.committedAt with
  | none =>
    have hsome := List.isSome_maxOn?_of_mem (f := Snapshot.committedAt) hmem
    rw [hmax] at hsome
    cases hsome
  | some t =>
    have hle : s.committedAt ≤ t.committedAt := by
      have hget := List.le_apply_get_maxOn?_of_mem (f := Snapshot.committedAt) hmem
      simpa only [hmax, Option.get_some] using hget
    rcases List.mem_append.1 (List.maxOn?_mem hmax) with ht | ht
    · exact absurd hle (not_le.2 (hlt t ht))
    · rw [List.mem_singleton.1 ht]

/-- A history in which the job wrote something, cut at the last snapshot it wrote. -/
theorem exists_last_written {job : String} :
    ∀ {snapshots : List Snapshot}, (∃ s ∈ snapshots, s.writtenBy job = true) →
      ∃ pre s post, snapshots = pre ++ s :: post ∧ s.writtenBy job = true ∧
        ∀ t ∈ post, t.writtenBy job = false
  | [], h => by
    obtain ⟨s, hs, _⟩ := h
    cases hs
  | x :: xs, h => by
    by_cases hxs : ∃ s ∈ xs, s.writtenBy job = true
    · obtain ⟨pre, s, post, rfl, hs, hpost⟩ := exists_last_written hxs
      exact ⟨x :: pre, s, post, rfl, hs, hpost⟩
    · have hnone : ∀ t ∈ xs, t.writtenBy job = false := by simpa using hxs
      obtain ⟨s, hs, hw⟩ := h
      rcases List.mem_cons.1 hs with rfl | hs
      · exact ⟨[], s, xs, rfl, hw, hnone⟩
      · rw [hnone s hs] at hw
        cases hw

/-- **The newest snapshot of a job.**  It is the last one in the history that carries the job's
    name; the ones after it are other writers'. -/
theorem latestSnapshot_eq_some_iff {snapshots : List Snapshot} {job : String} {s : Snapshot}
    (h : Ordered snapshots) :
    latestSnapshot snapshots job = some s ↔
      ∃ pre post, snapshots = pre ++ s :: post ∧ s.writtenBy job = true ∧
        ∀ t ∈ post, t.writtenBy job = false := by
  constructor
  · intro hl
    have hex : ∃ t ∈ snapshots, t.writtenBy job = true := by
      by_contra hne
      have hnone : latestSnapshot snapshots job = none :=
        latestSnapshot_eq_none_iff.2 (by simpa using hne)
      rw [hl] at hnone
      cases hnone
    obtain ⟨pre, t, post, rfl, ht, hpost⟩ := exists_last_written hex
    rw [latestSnapshot_append_cons h ht hpost] at hl
    cases hl
    exact ⟨pre, post, rfl, ht, hpost⟩
  · rintro ⟨pre, post, rfl, hs, hpost⟩
    exact latestSnapshot_append_cons h hs hpost

theorem latestSummary_concat {snapshots : List Snapshot} {s : Snapshot} {job : String}
    (h : Ordered (snapshots ++ [s])) :
    latestSummary (snapshots ++ [s]) job =
      if s.writtenBy job then some s.summary else latestSummary snapshots job := by
  unfold latestSummary
  by_cases hs : s.writtenBy job = true
  · rw [latestSnapshot_append_cons h hs (by simp), if_pos hs]
    rfl
  · rw [if_neg hs, latestSnapshot, List.filter_append, List.filter_cons_of_neg hs,
      List.filter_nil, List.append_nil]
    rfl

end K2.Lake

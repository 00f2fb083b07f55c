import K2Platform.Lib.Trace
import K2Platform.Lake.Snapshots

/-!
# Snapshot expiry and the position it must keep

Model of `docker/lake/maintenance.py::expire` over the history of one table: stage commits,
the commits of compaction, and expiries, at any distance in time.

* `mem_expireSnapshots_iff` — what an expiry keeps.
* `Table` — a history with a clock; every commit is newer than everything before it.
* `position_kept_iff` — expiries leave the newest summary of a job alone exactly when each of
  them comes before its cutoff has passed the newest commit of the job, or before ten other
  commits have followed it.
-/

set_option autoImplicit false

namespace K2.Lake

/-! ## The procedure call -/

/-- `retain_last => 10`. -/
def RETAIN_LAST : Nat := 10

def SECOND : Int := 1000000

def DAY : Int := 86400 * SECOND

/-- `_ts`: the literal has whole seconds. -/
def wholeSecond (moment : Int) : Int := moment / SECOND * SECOND

/-- What `main` lets through of `--retain-days`. -/
abbrev RetainDays := { d : Nat // 7 ≤ d }

def parseRetainDays (d : Nat) : Except String RetainDays :=
  if h : 7 ≤ d then .ok ⟨d, h⟩
  else .error "--retain-days below 7 breaks the bronze incremental read; see expire()"

/-- The cutoff `expire` passes on. -/
def olderThan (now : Int) (retainDays : RetainDays) : Int :=
  wholeSecond (now - retainDays.1 * DAY)

/-- `expire_snapshots`: drop what is older than the cutoff and not among the last `retainLast`. -/
def expireSnapshots (cutoff : Int) (retainLast : Nat) (snapshots : List Snapshot) :
    List Snapshot :=
  let older := snapshots.length - retainLast
  (snapshots.take older).filter (fun s => cutoff ≤ s.committedAt) ++ snapshots.drop older

theorem filter_suffix {α : Type} {p : α → Bool} :
    ∀ {l : List α}, l.Pairwise (fun a b => p a = true → p b = true) → l.filter p <:+ l
  | [], _ => List.suffix_rfl
  | x :: xs, h => by
    obtain ⟨hx, hxs⟩ := List.pairwise_cons.1 h
    by_cases hp : p x = true
    · have hall : (x :: xs).filter p = x :: xs := by
        refine List.filter_eq_self.2 fun y hy => ?_
        rcases List.mem_cons.1 hy with rfl | hy
        · exact hp
        · exact hx y hy hp
      rw [hall]
    · rw [List.filter_cons_of_neg hp]
      exact (filter_suffix hxs).trans (List.suffix_cons x xs)

/-- On an ordered history an expiry cuts the beginning off. -/
theorem expireSnapshots_suffix {snapshots : List Snapshot} (h : Ordered snapshots) (cutoff : Int)
    (retainLast : Nat) : expireSnapshots cutoff retainLast snapshots <:+ snapshots := by
  let older := snapshots.length - retainLast
  have hmono : (snapshots.take older).Pairwise fun s t =>
      decide (cutoff ≤ s.committedAt) = true → decide (cutoff ≤ t.committedAt) = true := by
    refine (h.sublist (List.take_sublist _ _)).imp fun hst hs => ?_
    exact decide_eq_true ((of_decide_eq_true hs).trans hst.le)
  obtain ⟨dropped, hdropped⟩ := filter_suffix hmono
  refine ⟨dropped, ?_⟩
  rw [expireSnapshots, ← List.append_assoc, hdropped, List.take_append_drop]

theorem mem_expireSnapshots_iff {pre post : List Snapshot} {s : Snapshot} {cutoff : Int}
    {retainLast : Nat} (h : Ordered (pre ++ s :: post)) :
    s ∈ expireSnapshots cutoff retainLast (pre ++ s :: post) ↔
      cutoff ≤ s.committedAt ∨ post.length < retainLast := by
  have hlen : (pre ++ s :: post).length = pre.length + post.length + 1 := by simp; omega
  constructor
  · intro hs
    rcases List.mem_append.1 hs with hs | hs
    · exact Or.inl (of_decide_eq_true (List.mem_filter.1 hs).2)
    · by_contra hne
      obtain ⟨_, hpost⟩ := not_or.1 hne
      have hdrop : (pre ++ s :: post).length - retainLast =
          (pre ++ [s]).length + (post.length - retainLast) := by
        rw [hlen]
        simp
        omega
      have hassoc : pre ++ s :: post = pre ++ [s] ++ post := by simp
      rw [hdrop, hassoc, List.drop_length_add_append] at hs
      have hnewer := (List.pairwise_cons.1 (List.pairwise_append.1 h).2.1).1
      have hlt := hnewer s (List.mem_of_mem_drop hs)
      exact lt_irrefl _ hlt
  · intro hkeep
    have hmem : s ∈ (pre ++ s :: post).take ((pre ++ s :: post).length - retainLast) ∨
        s ∈ (pre ++ s :: post).drop ((pre ++ s :: post).length - retainLast) := by
      rw [← List.mem_append, List.take_append_drop]
      simp
    rcases hkeep with hcut | hpost
    · rcases hmem with ht | hd
      · exact List.mem_append_left _ (List.mem_filter.2 ⟨ht, decide_eq_true hcut⟩)
      · exact List.mem_append_right _ hd
    · refine List.mem_append_right _ ?_
      rw [List.drop_append_of_le_length (by rw [hlen]; omega)]
      simp

/-- An expiry keeps the newest summary of a job exactly when it keeps the snapshot. -/
theorem latestSummary_expireSnapshots_iff {pre post : List Snapshot} {s : Snapshot} {job : String}
    {cutoff : Int} {retainLast : Nat} (h : Ordered (pre ++ s :: post))
    (hs : s.writtenBy job = true) (hpost : ∀ t ∈ post, t.writtenBy job = false) :
    latestSummary (expireSnapshots cutoff retainLast (pre ++ s :: post)) job =
        latestSummary (pre ++ s :: post) job ↔
      cutoff ≤ s.committedAt ∨ post.length < retainLast := by
  rw [← mem_expireSnapshots_iff h]
  have hsuffix := expireSnapshots_suffix h cutoff retainLast
  have hlatest : latestSummary (pre ++ s :: post) job = some s.summary := by
    rw [latestSummary, latestSnapshot_append_cons h hs hpost]
    rfl
  rw [hlatest]
  rcases List.suffix_or_suffix_of_suffix hsuffix (List.suffix_append pre (s :: post)) with he | he
  · rcases List.suffix_cons_iff.1 he with he | he
    · have hlast : latestSnapshot ([] ++ s :: post) job = some s :=
        latestSnapshot_append_cons (h.sublist (List.sublist_append_right _ _)) hs hpost
      rw [List.nil_append] at hlast
      simp [he, latestSummary, hlast]
    · have hnone : latestSummary (expireSnapshots cutoff retainLast (pre ++ s :: post)) job =
          none := by
        rw [latestSummary, latestSnapshot_eq_none_iff.2 fun t ht => hpost t (he.subset ht)]
        rfl
      rw [hnone]
      refine ⟨fun hc => (Option.some_ne_none _ hc.symm).elim, fun hmem => ?_⟩
      rw [hpost s (he.subset hmem)] at hs
      cases hs
  · obtain ⟨kept, hkept⟩ := he
    rw [← hkept] at hsuffix ⊢
    rw [latestSummary, latestSnapshot_append_cons (h.sublist hsuffix.sublist) hs hpost]
    simp

/-! ## The history of one table -/

/-- What a writer commits: a stage its position, under its own name, and compaction a rewrite
    that carries no `k2.job`. -/
inductive Commit where
  | stage (job : String) (position : Summary)
  | compaction (metrics : { m : Summary // m.get? JOB = none })

def Commit.summary : Commit → Summary
  | .stage job position => position.insert JOB (.text job)
  | .compaction metrics => metrics.1

/-- What happens to a table, `wait` microseconds after the previous event. -/
inductive TableEvent where
  | commit (wait : Nat) (c : Commit)
  | expire (wait : Nat) (retainDays : RetainDays)

/-- A table at a moment. -/
structure Table where
  clock : Int
  snapshots : List Snapshot
  ordered : Ordered snapshots
  past : ∀ s ∈ snapshots, s.committedAt ≤ clock

namespace Table

def create (clock : Int) : Table := ⟨clock, [], List.Pairwise.nil, fun _ h => by cases h⟩

def wait (t : Table) (us : Nat) : Table :=
  ⟨t.clock + us, t.snapshots, t.ordered, fun s hs => (t.past s hs).trans (by omega)⟩

/-- Commits are serialised: a new one is at least a microsecond younger than the last. -/
def append (t : Table) (us : Nat) (c : Commit) : Table where
  clock := t.clock + us + 1
  snapshots := t.snapshots ++ [⟨t.clock + us + 1, c.summary⟩]
  ordered := t.ordered.concat fun s hs => by have := t.past s hs; simp only; omega
  past s hs := by
    rcases List.mem_append.1 hs with hs | hs
    · have := t.past s hs
      omega
    · rw [List.mem_singleton.1 hs]

def expire (t : Table) (retainDays : RetainDays) : Table where
  clock := t.clock
  snapshots := expireSnapshots (olderThan t.clock retainDays) RETAIN_LAST t.snapshots
  ordered := t.ordered.sublist (expireSnapshots_suffix t.ordered _ _).sublist
  past s hs := t.past s ((expireSnapshots_suffix t.ordered _ _).subset hs)

def step (t : Table) : TableEvent → Table
  | .commit us c => t.append us c
  | .expire us retainDays => (t.wait us).expire retainDays

/-- The same table had nothing ever been expired: the record of every commit. -/
def record (t : Table) : TableEvent → Table
  | .commit us c => t.append us c
  | .expire us _ => t.wait us

end Table

def tableOf (start : Int) (history : List TableEvent) : Table :=
  history.foldl Table.step (Table.create start)

def recordOf (start : Int) (history : List TableEvent) : Table :=
  history.foldl Table.record (Table.create start)

section History

variable (start : Int) (job : String)

/-- After an expiry `latest_summary` returns what it returned before it. -/
def ExpiryKeeps (past : List TableEvent) : TableEvent → Prop
  | .commit _ _ => True
  | .expire us retainDays =>
    latestSummary (tableOf start (past ++ [.expire us retainDays])).snapshots job =
      latestSummary (tableOf start past).snapshots job

/-- A stage resumes from the newest commit of its job there ever was. -/
def Resumes (past : List TableEvent) : Prop :=
  latestSummary (tableOf start past).snapshots job =
    latestSummary (recordOf start past).snapshots job

/-- The expiry comes before its cutoff has passed the newest commit of the job, or before ten
    commits have followed that one. -/
def ExpiryInTime (past : List TableEvent) : TableEvent → Prop
  | .commit _ _ => True
  | .expire us retainDays => ∀ s, latestSnapshot (recordOf start past).snapshots job = some s →
    olderThan ((recordOf start past).clock + us) retainDays ≤ s.committedAt ∨
      (recordOf start past).snapshots.countP (fun t => s.committedAt < t.committedAt) < RETAIN_LAST

variable {start job}

theorem tableOf_concat (past : List TableEvent) (e : TableEvent) :
    tableOf start (past ++ [e]) = (tableOf start past).step e := by
  simp [tableOf]

theorem recordOf_concat (past : List TableEvent) (e : TableEvent) :
    recordOf start (past ++ [e]) = (recordOf start past).record e := by
  simp [recordOf]

theorem clock_eq (past : List TableEvent) :
    (tableOf start past).clock = (recordOf start past).clock := by
  induction past using List.reverseRecOn with
  | nil => rfl
  | append_singleton past e ih =>
    rw [tableOf_concat, recordOf_concat]
    cases e <;> simp [Table.step, Table.record, Table.append, Table.wait, Table.expire, ih]

/-- The table is an end of the record. -/
theorem snapshots_suffix (past : List TableEvent) :
    (tableOf start past).snapshots <:+ (recordOf start past).snapshots := by
  induction past using List.reverseRecOn with
  | nil => exact List.suffix_rfl
  | append_singleton past e ih =>
    rw [tableOf_concat, recordOf_concat]
    cases e with
    | commit us c =>
      obtain ⟨dropped, hdropped⟩ := ih
      refine ⟨dropped, ?_⟩
      simp only [Table.step, Table.record, Table.append, clock_eq, ← hdropped, List.append_assoc]
    | expire us retainDays =>
      exact (expireSnapshots_suffix (tableOf start past).ordered _ _).trans ih

theorem countP_newer {pre post : List Snapshot} {s : Snapshot} (h : Ordered (pre ++ s :: post)) :
    (pre ++ s :: post).countP (fun t => s.committedAt < t.committedAt) = post.length := by
  obtain ⟨_, hcons, hcross⟩ := List.pairwise_append.1 h
  have hpre : pre.countP (fun t => s.committedAt < t.committedAt) = 0 := by
    refine List.countP_eq_zero.2 fun t ht => ?_
    simpa using (hcross t ht s List.mem_cons_self).le
  have hpost : post.countP (fun t => s.committedAt < t.committedAt) = post.length := by
    refine List.countP_eq_length.2 fun t ht => ?_
    simpa using (List.pairwise_cons.1 hcons).1 t ht
  rw [List.countP_append, List.countP_cons_of_neg (by simp), hpre, hpost, Nat.zero_add]

/-- While a stage still resumes from the newest commit, the next expiry keeps that position
    exactly when it comes in time. -/
theorem expiryKeeps_iff {past : List TableEvent} (h : Resumes start job past) (e : TableEvent) :
    ExpiryKeeps start job past e ↔ ExpiryInTime start job past e := by
  cases e with
  | commit us c => exact Iff.rfl
  | expire us retainDays =>
    have hord := (recordOf start past).ordered
    have hsuffix : (tableOf start past).snapshots <:+ (recordOf start past).snapshots :=
      snapshots_suffix past
    obtain ⟨dropped, hdropped⟩ := hsuffix
    simp only [ExpiryKeeps, ExpiryInTime, tableOf_concat, Table.step, Table.expire, Table.wait,
      clock_eq]
    cases hl : latestSnapshot (tableOf start past).snapshots job with
    | none =>
      have hrecord : latestSnapshot (recordOf start past).snapshots job = none := by
        have hr := h
        simp only [Resumes, latestSummary, hl, Option.map_none] at hr
        exact Option.map_eq_none_iff.1 hr.symm
      have hnone := latestSnapshot_eq_none_iff.1 hl
      have hexpired : latestSnapshot (expireSnapshots
          (olderThan ((recordOf start past).clock + us) retainDays) RETAIN_LAST
          (tableOf start past).snapshots) job = none :=
        latestSnapshot_eq_none_iff.2 fun s hs =>
          hnone s ((expireSnapshots_suffix (tableOf start past).ordered _ _).subset hs)
      rw [hrecord, latestSummary, latestSummary, hl, hexpired]
      exact ⟨fun _ s hs => (Option.some_ne_none s hs.symm).elim, fun _ => rfl⟩
    | some s =>
      obtain ⟨pre, post, hsplit, hs, hpost⟩ :=
        (latestSnapshot_eq_some_iff (tableOf start past).ordered).1 hl
      have htable := (tableOf start past).ordered
      rw [hsplit] at htable hdropped ⊢
      rw [← List.append_assoc] at hdropped
      rw [← hdropped] at hord ⊢
      rw [latestSummary_expireSnapshots_iff htable hs hpost,
        latestSnapshot_append_cons hord hs hpost]
      constructor
      · rintro hin t ht
        cases ht
        rwa [countP_newer hord]
      · intro hin
        have hin' := hin s rfl
        rwa [countP_newer hord] at hin'

theorem Resumes.step {past : List TableEvent} (h : Resumes start job past) {e : TableEvent}
    (he : ExpiryKeeps start job past e) : Resumes start job (past ++ [e]) := by
  cases e with
  | commit us c =>
    have hclock : (tableOf start past).clock = (recordOf start past).clock := clock_eq past
    have htable := ((tableOf start past).append us c).ordered
    have hrecord := ((recordOf start past).append us c).ordered
    simp only [Resumes, tableOf_concat, recordOf_concat, Table.step, Table.record]
    simp only [Table.append, hclock] at htable hrecord ⊢
    rw [latestSummary_concat htable, latestSummary_concat hrecord, h]
  | expire us retainDays =>
    have hstep : latestSummary (tableOf start (past ++ [.expire us retainDays])).snapshots job =
        latestSummary (tableOf start past).snapshots job := he
    rw [Resumes, hstep, recordOf_concat]
    exact h

end History

/-- **Expiry and the position.**  In a history of stage commits, compaction commits and expiries,
    every expiry leaves `latest_summary` as it was, and at every moment a stage resumes from the
    newest commit of its job, if and only if each expiry comes before its cutoff has passed the
    job's newest commit or before ten other commits have followed it. -/
theorem position_kept_iff (start : Int) (job : String) (history : List TableEvent) :
    (Trace.Everywhere (ExpiryKeeps start job) history ∧
        ∀ past, past <+: history → Resumes start job past) ↔
      Trace.Everywhere (ExpiryInTime start job) history := by
  induction history using List.reverseRecOn with
  | nil =>
    refine ⟨fun _ => Trace.everywhere_nil _, fun _ => ⟨Trace.everywhere_nil _, fun past hp => ?_⟩⟩
    rw [List.prefix_nil.1 hp]
    rfl
  | append_singleton history e ih =>
    rw [Trace.everywhere_concat, Trace.everywhere_concat, ← ih]
    constructor
    · rintro ⟨⟨hkeeps, he⟩, hres⟩
      have hres' : ∀ past, past <+: history → Resumes start job past :=
        fun past hp => hres past (hp.trans (List.prefix_append _ _))
      exact ⟨⟨hkeeps, hres'⟩, (expiryKeeps_iff (hres' _ List.prefix_rfl) e).1 he⟩
    · rintro ⟨⟨hkeeps, hres⟩, he⟩
      have hlast := hres _ List.prefix_rfl
      have he' := (expiryKeeps_iff hlast e).2 he
      refine ⟨⟨hkeeps, he'⟩, fun past hp => ?_⟩
      rcases List.prefix_concat_iff.1 hp with rfl | hp
      · exact hlast.step he'
      · exact hres past hp

/-- One ingest commit, ten commits of compaction within the hour, no ingest for eight days, and
    an expiry: the table no longer says where the ingest stopped. -/
theorem position_expires :
    ¬ Trace.Everywhere (ExpiryKeeps 0 JOB_INGEST)
      (.commit 0 (.stage JOB_INGEST (Dict.empty.insert KAFKA_OFFSETS (.offsets Dict.empty))) ::
        List.replicate 10 (.commit 60000000 (.compaction ⟨Dict.empty, rfl⟩)) ++
        [.expire 691200000000 ⟨7, by decide⟩]) := by
  intro h
  have hlast := (Trace.everywhere_concat.1 h).2
  revert hlast
  unfold ExpiryKeeps
  decide +kernel

end K2.Lake

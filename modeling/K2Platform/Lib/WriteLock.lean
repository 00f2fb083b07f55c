import Mathlib.Logic.Function.Basic
import Mathlib.Logic.Relation

/-!
# Processes behind one exclusive lock

Any number of processes share a state.  Each waits for one exclusive lock, acts step by step while
it has it, and loses it when it ends, whether it returns or is killed; a process that does not
wait goes away when the lock is held.  An environment moves the shared state at any time.

* `Alone` — the system in which one job runs at a time.
* `exclusive` — two processes that run are one process.
* `Reached.sequential` — what any interleaving reaches, one job at a time reaches.
* `Reached.invariant` — the rule: an invariant of one job at a time holds in every interleaving.
-/

set_option autoImplicit false

namespace WriteLock

open Relation Function

/-- What the jobs do: `next` is one action of a job that runs, `none` if the job ends with it. -/
structure Jobs (σ ε ρ : Type) where
  env : σ → ε → σ
  starts : ρ → Bool
  blocks : ρ → Bool
  next : ρ → σ → Option ρ × σ

inductive Proc (ρ : Type) where
  | absent
  | waiting (job : ρ)
  | running (job : ρ)

structure Config (ι σ ρ : Type) where
  shared : σ
  owner : Option ι
  procs : ι → Proc ρ

variable {ι σ ε ρ : Type} [DecidableEq ι]

namespace Config

variable (c : Config ι σ ρ)

def set (i : ι) (p : Proc ρ) : Config ι σ ρ := { c with procs := update c.procs i p }

/-- The lock goes with the process that has it. -/
def leave (i : ι) : Config ι σ ρ :=
  { c with
    owner := if c.owner = some i then none else c.owner
    procs := update c.procs i .absent }

@[simp] theorem shared_set (i : ι) (p : Proc ρ) : (c.set i p).shared = c.shared := rfl
@[simp] theorem owner_set (i : ι) (p : Proc ρ) : (c.set i p).owner = c.owner := rfl
@[simp] theorem shared_leave (i : ι) : (c.leave i).shared = c.shared := rfl
@[simp] theorem procs_leave (i : ι) : (c.leave i).procs = (c.set i .absent).procs := rfl

@[simp] theorem procs_set_self (i : ι) (p : Proc ρ) : (c.set i p).procs i = p := by
  simp [set]

theorem procs_set_of_ne {i k : ι} (h : k ≠ i) (p : Proc ρ) : (c.set i p).procs k = c.procs k := by
  simp [set, h]

end Config

variable (jobs : Jobs σ ε ρ)

inductive Step : Config ι σ ρ → Config ι σ ρ → Prop
  | moved (c : Config ι σ ρ) (e : ε) : Step c { c with shared := jobs.env c.shared e }
  | opened (c : Config ι σ ρ) {i : ι} {job : ρ} (habsent : c.procs i = .absent)
      (hstarts : jobs.starts job) : Step c (c.set i (.waiting job))
  | granted (c : Config ι σ ρ) {i : ι} {job : ρ} (hwaits : c.procs i = .waiting job)
      (hfree : c.owner = none) : Step c { c.set i (.running job) with owner := some i }
  | refused (c : Config ι σ ρ) {i : ι} {job : ρ} (hwaits : c.procs i = .waiting job)
      (hheld : c.owner ≠ none) (hblocks : jobs.blocks job = false) : Step c (c.set i .absent)
  | acted (c : Config ι σ ρ) {i : ι} {job job' : ρ} (hruns : c.procs i = .running job)
      (hnext : (jobs.next job c.shared).1 = some job') :
      Step c { c.set i (.running job') with shared := (jobs.next job c.shared).2 }
  | ended (c : Config ι σ ρ) {i : ι} {job : ρ} (hruns : c.procs i = .running job)
      (hnext : (jobs.next job c.shared).1 = none) :
      Step c { c.leave i with shared := (jobs.next job c.shared).2 }
  | killed (c : Config ι σ ρ) (i : ι) : Step c (c.leave i)

/-- Nothing runs and nothing waits. -/
def Config.start (s : σ) : Config ι σ ρ := ⟨s, none, fun _ => .absent⟩

def Reached (s : σ) (c : Config ι σ ρ) : Prop := ReflTransGen (Step jobs) (Config.start s) c

/-! ## Schedules -/

inductive Move (ι ε ρ : Type) where
  | env (e : ε)
  | opens (i : ι) (job : ρ)
  | locks (i : ι)
  | acts (i : ι)
  | kills (i : ι)

/-- What a process does when it is its turn; `none` if it has no turn to take. -/
def Config.move (c : Config ι σ ρ) : Move ι ε ρ → Option (Config ι σ ρ)
  | .env e => some { c with shared := jobs.env c.shared e }
  | .opens i job => match c.procs i with
    | .absent => if jobs.starts job then some (c.set i (.waiting job)) else none
    | _ => none
  | .locks i => match c.procs i with
    | .waiting job =>
      if c.owner.isNone then some { c.set i (.running job) with owner := some i }
      else if jobs.blocks job then none else some (c.set i .absent)
    | _ => none
  | .acts i => match c.procs i with
    | .running job => match (jobs.next job c.shared).1 with
      | some job' =>
        some { c.set i (.running job') with shared := (jobs.next job c.shared).2 }
      | none => some { c.leave i with shared := (jobs.next job c.shared).2 }
    | _ => none
  | .kills i => some (c.leave i)

/-- A move that is made is a step. -/
theorem step_of_move {jobs : Jobs σ ε ρ} {c c' : Config ι σ ρ} {m : Move ι ε ρ}
    (h : c.move jobs m = some c') : Step jobs c c' := by
  cases m with
  | env e =>
    cases h
    exact .moved c e
  | opens i job =>
    simp only [Config.move] at h
    split at h
    · rename_i habsent
      split at h
      · rename_i hstarts
        cases h
        exact .opened c habsent hstarts
      · cases h
    · cases h
  | locks i =>
    simp only [Config.move] at h
    split at h
    · rename_i job hwaits
      split at h
      · rename_i hfree
        cases h
        exact .granted c hwaits (Option.isNone_iff_eq_none.1 hfree)
      · rename_i hheld
        split at h
        · cases h
        · rename_i hblocks
          cases h
          exact .refused c hwaits (fun hnone => hheld (by simp [hnone])) (by simpa using hblocks)
    · cases h
  | acts i =>
    simp only [Config.move] at h
    split at h
    · rename_i job hruns
      split at h
      · rename_i job' hnext
        cases h
        exact .acted c hruns hnext
      · rename_i hnext
        cases h
        exact .ended c hruns hnext
    · cases h
  | kills i =>
    cases h
    exact .killed c i

theorem reached_of_schedule {jobs : Jobs σ ε ρ} {s : σ} {c c' : Config ι σ ρ}
    (h : Reached jobs s c) {moves : List (Move ι ε ρ)}
    (hmoves : moves.foldlM (Config.move jobs) c = some c') : Reached jobs s c' := by
  induction moves generalizing c with
  | nil =>
    cases hmoves
    exact h
  | cons m moves ih =>
    rw [List.foldlM_cons] at hmoves
    obtain ⟨next, hnext, hrest⟩ := Option.bind_eq_some_iff.1 hmoves
    exact ih (h.tail (step_of_move hnext)) hrest

/-! ## One job at a time -/

inductive Alone : σ × Option ρ → σ × Option ρ → Prop
  | moved (s : σ) (current : Option ρ) (e : ε) : Alone (s, current) (jobs.env s e, current)
  | begun (s : σ) {job : ρ} (hstarts : jobs.starts job) : Alone (s, none) (s, some job)
  | acted (s : σ) (job : ρ) : Alone (s, some job) ((jobs.next job s).2, (jobs.next job s).1)
  | killed (s : σ) (job : ρ) : Alone (s, some job) (s, none)

/-- The lock is held by the process that runs, and `current` is its job. -/
structure Held (c : Config ι σ ρ) (current : Option ρ) : Prop where
  owner : ∀ i, c.owner = some i ↔ ∃ job, c.procs i = .running job
  runs : ∀ i job, c.procs i = .running job → current = some job
  free : c.owner = none → current = none
  waits : ∀ i job, c.procs i = .waiting job → jobs.starts job

variable {jobs} {c c' : Config ι σ ρ} {current : Option ρ}

omit [DecidableEq ι] in
theorem held_start (s : σ) : Held jobs (Config.start s : Config ι σ ρ) none where
  owner i := by simp [Config.start]
  runs i job h := by cases h
  free _ := rfl
  waits i job h := by cases h

/-- A process that does not run is replaced by another that does not. -/
theorem Held.set (h : Held jobs c current) {i : ι} {p : Proc ρ}
    (hold : ∀ job, c.procs i ≠ .running job) (hnew : ∀ job, p ≠ .running job)
    (hstarts : ∀ job, p = .waiting job → jobs.starts job) : Held jobs (c.set i p) current where
  owner k := by
    by_cases hk : k = i
    · subst hk
      simp only [Config.owner_set, Config.procs_set_self, h.owner, hold, hnew]
    · rw [Config.owner_set, Config.procs_set_of_ne _ hk, h.owner]
  runs k job hruns := by
    by_cases hk : k = i
    · subst hk
      rw [Config.procs_set_self] at hruns
      exact absurd hruns (hnew job)
    · rw [Config.procs_set_of_ne _ hk] at hruns
      exact h.runs k job hruns
  free := h.free
  waits k job hwaits := by
    by_cases hk : k = i
    · subst hk
      rw [Config.procs_set_self] at hwaits
      exact hstarts job hwaits
    · rw [Config.procs_set_of_ne _ hk] at hwaits
      exact h.waits k job hwaits

omit [DecidableEq ι] in
/-- **Mutual exclusion.** -/
theorem Held.exclusive (h : Held jobs c current) {i k : ι} {job job' : ρ}
    (hi : c.procs i = .running job) (hk : c.procs k = .running job') : i = k :=
  Option.some.inj (((h.owner i).2 ⟨job, hi⟩).symm.trans ((h.owner k).2 ⟨job', hk⟩))

/-- The process that runs acts; its lock and its place stay with it. -/
theorem Held.running (h : Held jobs c current) {i : ι} (hi : ∀ k, c.owner = some k → k = i)
    (job : ρ) : Held jobs { c.set i (.running job) with owner := some i } (some job) where
  owner k := by
    show some i = some k ↔ _
    by_cases hk : k = i
    · subst hk
      simp [Config.set]
    · show _ ↔ ∃ job', (c.set i (.running job)).procs k = .running job'
      rw [Config.procs_set_of_ne _ hk, ← h.owner]
      constructor
      · intro heq
        exact absurd (Option.some.inj heq).symm hk
      · intro hown
        exact absurd (hi k hown) hk
  runs k job' hruns := by
    by_cases hk : k = i
    · subst hk
      rw [Config.procs_set_self] at hruns
      cases hruns
      rfl
    · rw [Config.procs_set_of_ne _ hk] at hruns
      exact absurd (hi k ((h.owner k).2 ⟨job', hruns⟩)) hk
  free hfree := by cases hfree
  waits k job' hwaits := by
    by_cases hk : k = i
    · subst hk
      rw [Config.procs_set_self] at hwaits
      cases hwaits
    · rw [Config.procs_set_of_ne _ hk] at hwaits
      exact h.waits k job' hwaits

/-- Whoever ends leaves the lock free, or with the process that goes on running. -/
theorem Held.ended (h : Held jobs c current) (i : ι) :
    Held jobs (c.leave i) (if c.owner = some i then none else current) where
  owner k := by
    by_cases hk : k = i
    · subst hk
      rw [Config.procs_leave, Config.procs_set_self]
      by_cases howner : c.owner = some k <;> simp [Config.leave, howner]
    · rw [Config.procs_leave, Config.procs_set_of_ne _ hk, ← h.owner]
      by_cases howner : c.owner = some i
      · simp [Config.leave, howner, Ne.symm hk]
      · simp [Config.leave, howner]
  runs k job hruns := by
    have hk : k ≠ i := by
      rintro rfl
      simp at hruns
    rw [Config.procs_leave, Config.procs_set_of_ne _ hk] at hruns
    have howner := (h.owner k).2 ⟨job, hruns⟩
    rw [if_neg (by rw [howner]; simpa using hk)]
    exact h.runs k job hruns
  free hfree := by
    by_cases howner : c.owner = some i
    · simp [howner]
    · rw [if_neg howner]
      simp only [Config.leave, if_neg howner] at hfree
      exact h.free hfree
  waits k job hwaits := by
    have hk : k ≠ i := by
      rintro rfl
      simp at hwaits
    rw [Config.procs_leave, Config.procs_set_of_ne _ hk] at hwaits
    exact h.waits k job hwaits

omit [DecidableEq ι] in
/-- The shared state is nothing the lock looks at. -/
theorem Held.shared (h : Held jobs c current) (s : σ) :
    Held jobs { c with shared := s } current := ⟨h.owner, h.runs, h.free, h.waits⟩

/-- **Simulation.**  A step of any process is a step of the job that has the lock, or none. -/
theorem Held.step (h : Held jobs c current) (hstep : Step jobs c c') :
    ∃ current', Held jobs c' current' ∧
      ReflTransGen (Alone jobs) (c.shared, current) (c'.shared, current') := by
  cases hstep with
  | moved e => exact ⟨current, h.shared _, ReflTransGen.single (.moved _ _ e)⟩
  | opened habsent hstarts =>
    refine ⟨current, h.set (fun job hj => ?_) (fun job hj => ?_) fun job hj => ?_, .refl⟩
    · rw [habsent] at hj
      cases hj
    · cases hj
    · cases hj
      exact hstarts
  | @granted i job hwaits hfree =>
    refine ⟨some job, h.running (fun k hk => ?_) job, ?_⟩
    · rw [hfree] at hk
      cases hk
    · rw [h.free hfree]
      exact ReflTransGen.single (.begun _ (h.waits i job hwaits))
  | refused hwaits hheld hblocks =>
    refine ⟨current, h.set (fun job hj => ?_) (fun job hj => ?_) fun job hj => ?_, .refl⟩
    · rw [hwaits] at hj
      cases hj
    · cases hj
    · cases hj
  | @acted i job job' hruns hnext =>
    have howner := (h.owner i).2 ⟨job, hruns⟩
    have hcurrent := h.runs i job hruns
    refine ⟨some job', ?_, ?_⟩
    · have hheld := (h.running (fun k hk => Option.some.inj (hk.symm.trans howner)) job').shared
        (jobs.next job c.shared).2
      rw [← howner] at hheld
      exact hheld
    · rw [hcurrent, ← hnext]
      exact ReflTransGen.single (.acted _ _)
  | @ended i job hruns hnext =>
    have hheld := (h.ended i).shared (jobs.next job c.shared).2
    rw [if_pos ((h.owner i).2 ⟨job, hruns⟩)] at hheld
    refine ⟨none, hheld, ?_⟩
    rw [h.runs i job hruns, ← hnext]
    exact ReflTransGen.single (.acted _ _)
  | killed i =>
    refine ⟨_, h.ended i, ?_⟩
    split
    · rename_i howner
      obtain ⟨job, hruns⟩ := (h.owner i).1 howner
      rw [h.runs i job hruns]
      exact ReflTransGen.single (.killed _ _)
    · exact .refl

/-- **Serialization.**  What any interleaving reaches, one job at a time reaches. -/
theorem Reached.sequential {s : σ} (h : Reached jobs s c) :
    ∃ current, Held jobs c current ∧
      ReflTransGen (Alone jobs) (s, none) (c.shared, current) := by
  induction h with
  | refl => exact ⟨none, held_start s, .refl⟩
  | tail _ hstep ih =>
    obtain ⟨current, hheld, hsteps⟩ := ih
    obtain ⟨current', hheld', hsteps'⟩ := hheld.step hstep
    exact ⟨current', hheld', hsteps.trans hsteps'⟩

theorem Reached.exclusive {s : σ} (h : Reached jobs s c) {i k : ι} {job job' : ρ}
    (hi : c.procs i = .running job) (hk : c.procs k = .running job') : i = k := by
  obtain ⟨_, hheld, _⟩ := h.sequential
  exact hheld.exclusive hi hk

/-- **The rule.**  An invariant that the environment and one job at a time keep holds in every
    interleaving, of the job that has the lock. -/
theorem Reached.invariant {s : σ} (h : Reached jobs s c) {I : σ → Option ρ → Prop}
    (hstart : I s none) (hmoved : ∀ s current e, I s current → I (jobs.env s e) current)
    (hbegun : ∀ s job, jobs.starts job → I s none → I s (some job))
    (hacted : ∀ s job, I s (some job) → I (jobs.next job s).2 (jobs.next job s).1)
    (hkilled : ∀ s job, I s (some job) → I s none) : ∃ current, I c.shared current := by
  obtain ⟨current, _, hsteps⟩ := h.sequential
  have hall : ∀ p, ReflTransGen (Alone jobs) (s, none) p → I p.1 p.2 := by
    intro p hp
    induction hp with
    | refl => exact hstart
    | tail _ hstep ih =>
      cases hstep with
      | moved s current e => exact hmoved s current e ih
      | begun s hstarts => exact hbegun s _ hstarts ih
      | acted s job => exact hacted s job ih
      | killed s job => exact hkilled s job ih
  exact ⟨current, hall _ hsteps⟩

end WriteLock

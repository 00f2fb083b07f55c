import Mathlib.Data.List.Basic

/-!
# Machines that read one input at a time and emit a list of outputs

A machine is a step function `σ → ι → σ × List ω`; `Mealy.run` folds it over a list of
inputs, concatenating what each step emits.  A machine whose step is itself the run of an
inner machine nests without further definitions.

* `run_append` — a run can be cut anywhere.
* `run_history` — the induction rule: a relation between everything emitted so far and the
  state that every step preserves holds at the end of every run.
* `run_history_guarded` — the same under a condition on the history.
* `run_state`, `run_output` — its two special cases, for states and for outputs alone.
* `run_invariant` — both at once, where a step is known to be taken on an input of the run.
* `flatten_outputs` — a run emits what its steps emit, one after the other.
* `run_simulation` — two machines whose steps preserve a relation, and whose outputs agree
  under two projections, agree on whole runs.
-/

set_option autoImplicit false

namespace Mealy

variable {σ ι ω : Type}

def run (step : σ → ι → σ × List ω) : σ → List ι → σ × List ω
  | s, [] => (s, [])
  | s, i :: is =>
    let r := step s i
    let q := run step r.1 is
    (q.1, r.2 ++ q.2)

variable (step : σ → ι → σ × List ω)

@[simp] theorem run_nil (s : σ) : run step s [] = (s, []) := rfl

theorem run_cons (s : σ) (i : ι) (is : List ι) :
    run step s (i :: is) =
      ((run step (step s i).1 is).1, (step s i).2 ++ (run step (step s i).1 is).2) := rfl

@[simp] theorem run_singleton (s : σ) (i : ι) : run step s [i] = step s i := by
  simp [run]

theorem run_append (s : σ) (is js : List ι) :
    run step s (is ++ js) =
      ((run step (run step s is).1 js).1, (run step s is).2 ++ (run step (run step s is).1 js).2) := by
  induction is generalizing s with
  | nil => rfl
  | cons i is ih => simp only [List.cons_append, run_cons, ih, List.append_assoc]

theorem run_concat (s : σ) (is : List ι) (i : ι) :
    run step s (is ++ [i]) =
      ((step (run step s is).1 i).1, (run step s is).2 ++ (step (run step s is).1 i).2) := by
  rw [run_append, run_singleton]

/-- **The induction rule.**  `J h s` relates everything emitted so far to the present state. -/
theorem run_history {J : List ω → σ → Prop}
    (hstep : ∀ h s i, J h s → J (h ++ (step s i).2) (step s i).1) :
    ∀ (is : List ι) (h : List ω) (s : σ), J h s → J (h ++ (run step s is).2) (run step s is).1
  | [], h, s, hj => by simpa using hj
  | i :: is, h, s, hj => by
    rw [run_cons, ← List.append_assoc]
    exact run_history hstep is _ _ (hstep h s i hj)

/-- The induction rule under a condition `C` that a history satisfies only if all its beginnings
    do, and where a step is known to be taken on an input of the run. -/
theorem run_history_guarded {J : List ω → σ → Prop} {C : List ω → Prop}
    (hC : ∀ h o, C (h ++ o) → C h) :
    ∀ (is : List ι) (h : List ω) (s : σ),
      (∀ h s, ∀ i ∈ is, C (h ++ (step s i).2) → J h s → J (h ++ (step s i).2) (step s i).1) →
      C (h ++ (run step s is).2) → J h s → J (h ++ (run step s is).2) (run step s is).1
  | [], h, s, _, _, hj => by simpa using hj
  | i :: is, h, s, hstep, hc, hj => by
    rw [run_cons, ← List.append_assoc] at hc ⊢
    exact run_history_guarded hC is _ _
      (fun h s j hmem => hstep h s j (List.mem_cons_of_mem _ hmem)) hc
      (hstep h s i List.mem_cons_self (hC _ _ hc) hj)

theorem run_state {I : σ → Prop} (hstep : ∀ s i, I s → I (step s i).1) (is : List ι) (s : σ)
    (hs : I s) : I (run step s is).1 :=
  run_history step (J := fun _ s => I s) (fun _ s i => hstep s i) is [] s hs

theorem run_output {I : σ → Prop} {Q : ω → Prop} (hI : ∀ s i, I s → I (step s i).1)
    (hQ : ∀ s i, I s → ∀ o ∈ (step s i).2, Q o) (is : List ι) (s : σ) (hs : I s) :
    ∀ o ∈ (run step s is).2, Q o := by
  have h := run_history step (J := fun outs s => I s ∧ ∀ o ∈ outs, Q o)
    (fun outs s i hj => ⟨hI s i hj.1, fun o ho => by
      rcases List.mem_append.1 ho with ho | ho
      · exact hj.2 o ho
      · exact hQ s i hj.1 o ho⟩) is [] s ⟨hs, fun _ h => by cases h⟩
  simpa using h.2

theorem run_invariant {I : σ → Prop} {Q : ω → Prop} :
    ∀ (is : List ι), (∀ s, ∀ i ∈ is, I s → I (step s i).1 ∧ ∀ o ∈ (step s i).2, Q o) →
      ∀ s, I s → I (run step s is).1 ∧ ∀ o ∈ (run step s is).2, Q o
  | [], _, s, hs => ⟨hs, fun _ ho => absurd ho List.not_mem_nil⟩
  | i :: is, hstep, s, hs => by
    obtain ⟨hI, hQ⟩ := hstep s i List.mem_cons_self hs
    obtain ⟨hI', hQ'⟩ := run_invariant is
      (fun s j hj => hstep s j (List.mem_cons_of_mem _ hj)) _ hI
    refine ⟨hI', fun o ho => ?_⟩
    rw [run_cons] at ho
    rcases List.mem_append.1 ho with ho | ho
    · exact hQ o ho
    · exact hQ' o ho

/-- What each step emits. -/
def outputs (step : σ → ι → σ × List ω) : σ → List ι → List (List ω)
  | _, [] => []
  | s, i :: is => (step s i).2 :: outputs step (step s i).1 is

theorem flatten_outputs (s : σ) (is : List ι) : (outputs step s is).flatten = (run step s is).2 := by
  induction is generalizing s with
  | nil => rfl
  | cons i is ih => rw [outputs, List.flatten_cons, ih, run_cons]

/-- **Simulation.**  Each input of one machine stands for a list of inputs of another; `R` relates
    their states, and `p` and `q` project their outputs. -/
theorem run_simulation {τ κ ψ ρ : Type} (step' : τ → κ → τ × List ψ) (k : ι → List κ)
    {R : σ → τ → Prop} {p : List ω → List ρ} {q : List ψ → List ρ}
    (hp : ∀ a b, p (a ++ b) = p a ++ p b) (hq : ∀ a b, q (a ++ b) = q a ++ q b)
    (hpq : p [] = q []) :
    ∀ (is : List ι), (∀ s t, ∀ i ∈ is, R s t →
      R (step s i).1 (run step' t (k i)).1 ∧ p (step s i).2 = q (run step' t (k i)).2) →
      ∀ s t, R s t → R (run step s is).1 (run step' t (is.flatMap k)).1 ∧
        p (run step s is).2 = q (run step' t (is.flatMap k)).2
  | [], _, s, t, hR => ⟨hR, hpq⟩
  | i :: is, hstep, s, t, hR => by
    obtain ⟨hR', ho⟩ := hstep s t i List.mem_cons_self hR
    obtain ⟨hR'', ho'⟩ := run_simulation step' k hp hq hpq is
      (fun s t j hj => hstep s t j (List.mem_cons_of_mem _ hj)) _ _ hR'
    rw [List.flatMap_cons, run_cons, run_append]
    exact ⟨hR'', by rw [hp, hq, ho, ho']⟩

end Mealy

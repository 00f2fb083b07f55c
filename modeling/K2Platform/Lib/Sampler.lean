import Mathlib.Data.List.Nodup
import K2Platform.Lib.Forall2
import K2Platform.Lib.Mealy

/-!
# Sampling a state once per period

A sampler folds inputs into a state.  Periods are numbered, and every input falls in one.  Before
an input is folded in, the state as it is becomes the sample of every period that is over and not
sampled yet: a sample is taken lazily, by the input that shows its period to be over.

* `samples_of` — the sample of a period is the state after the inputs up to its end.
* `run_started` — a run takes one sample for every period before that of its last input.
* `agree` — an input does not show in a sample of a period before its own.
-/

set_option autoImplicit false

/-- The period of an input, the state it starts, what it makes of a state, and what a sample that
    it takes of a state shows. -/
structure Sampler (ι σ ω : Type) where
  period : ι → Int
  start : ι → Option σ
  update : ι → σ → σ
  sample : ι → σ → ω

namespace Sampler

variable {ι σ ω : Type}

/-- `due, due + 1, ..` before `p`. -/
def periodsUpTo (due p : Int) : List Int := (List.range (p - due).toNat).map fun n : Nat => due + n

theorem mem_periodsUpTo {due p k : Int} : k ∈ periodsUpTo due p ↔ due ≤ k ∧ k < p := by
  simp only [periodsUpTo, List.mem_map, List.mem_range]
  constructor
  · rintro ⟨n, hn, rfl⟩
    omega
  · rintro ⟨hdue, hp⟩
    exact ⟨(k - due).toNat, by omega, by omega⟩

theorem nodup_periodsUpTo (due p : Int) : (periodsUpTo due p).Nodup := by
  refine List.Nodup.map (fun m n (h : due + (m : Int) = due + (n : Int)) => ?_) List.nodup_range
  omega

theorem periodsUpTo_append {due p q : Int} (hdue : due ≤ p) (hp : p ≤ q) :
    periodsUpTo due q = periodsUpTo due p ++ periodsUpTo p q := by
  obtain ⟨m, rfl⟩ := Int.le.dest hdue
  obtain ⟨n, rfl⟩ := Int.le.dest hp
  have hm : (due + (m : Int) - due).toNat = m := by omega
  have hn : (due + (m : Int) + (n : Int) - (due + (m : Int))).toNat = n := by omega
  have hmn : (due + (m : Int) + (n : Int) - due).toNat = m + n := by omega
  rw [periodsUpTo, periodsUpTo, periodsUpTo, hm, hn, hmn, List.range_add, List.map_append,
    List.map_map]
  refine congrArg _ (List.map_congr_left fun i _ => ?_)
  show due + ((m + i : Nat) : Int) = due + m + i
  omega

/-- The period that is due next, and the state. -/
abbrev State (σ : Type) := Option (Int × σ)

/-- Every period up to `k` is sampled, or never will be. -/
def Past (k : Int) (s : State σ) : Prop := ∀ e ∈ s, k < e.1

section Run

variable (S : Sampler ι σ ω)

def step (s : State σ) (i : ι) : State σ × List (Int × ω) :=
  match s with
  | none => ((S.start i).map fun x => (S.period i, x), [])
  | some (due, x) =>
    (some (max due (S.period i), S.update i x),
      (periodsUpTo due (S.period i)).map fun k => (k, S.sample i x))

/-- The state without the periods. -/
def hold (x : Option σ) (i : ι) : Option σ := x.elim (S.start i) fun x => some (S.update i x)

theorem hold_step (s : State σ) (i : ι) :
    (S.step s i).1.map Prod.snd = S.hold (s.map Prod.snd) i := by
  cases s with
  | none =>
    simp only [step, hold, Option.map_none, Option.elim_none, Option.map_map]
    exact congrFun Option.map_id _
  | some e => rfl

/-! ## What is past -/

/-- A sample is of a period that is due and over. -/
theorem mem_step {s : State σ} {i : ι} {o : Int × ω} (h : o ∈ (S.step s i).2) :
    ∃ due x, s = some (due, x) ∧ due ≤ o.1 ∧ o.1 < S.period i ∧ o.2 = S.sample i x := by
  cases s with
  | none => cases h
  | some e =>
    obtain ⟨k, hk, rfl⟩ := List.mem_map.1 h
    obtain ⟨hdue, hp⟩ := mem_periodsUpTo.1 hk
    exact ⟨e.1, e.2, rfl, hdue, hp, rfl⟩

/-- After an input of a later period, all is past. -/
theorem past_step {k : Int} (s : State σ) {i : ι} (hi : k < S.period i) :
    Past k (S.step s i).1 := by
  intro e he
  cases s with
  | none =>
    obtain ⟨x, _, rfl⟩ := Option.map_eq_some_iff.1 (Option.mem_def.1 he)
    exact hi
  | some e' =>
    cases he
    show k < max e'.1 (S.period i)
    omega

/-- What is past is not sampled by inputs of later periods. -/
theorem Past.run {k : Int} {is : List ι} (his : ∀ i ∈ is, k < S.period i) {s : State σ}
    (h : Past k s) : ∀ o ∈ (Mealy.run S.step s is).2, k < o.1 := by
  induction is generalizing s with
  | nil =>
    intro o ho
    cases ho
  | cons i is ih =>
    intro o ho
    obtain ⟨hi, his⟩ := List.forall_mem_cons.1 his
    rw [Mealy.run_cons] at ho
    rcases List.mem_append.1 ho with ho | ho
    · obtain ⟨due, x, hs, hdue, _⟩ := S.mem_step ho
      have hpast : k < due := h _ hs
      omega
    · exact ih his (S.past_step s hi) o ho

/-! ## The sample of a period -/

theorem filter_samples (due p k : Int) (f : Int → ω) :
    (((periodsUpTo due p).map fun n => (n, f n)).filter fun o => o.1 = k) =
      if due ≤ k ∧ k < p then [(k, f k)] else [] := by
  rw [List.filter_map]
  have hcomp : ((fun o : Int × ω => decide (o.1 = k)) ∘ fun n => (n, f n)) =
      fun n => decide (n = k) := rfl
  rw [hcomp, List.filter_eq]
  split
  · rename_i h
    rw [List.count_eq_one_of_mem (nodup_periodsUpTo due p) (mem_periodsUpTo.2 h)]
    rfl
  · rename_i h
    rw [List.count_eq_zero_of_not_mem fun hk => h (mem_periodsUpTo.1 hk)]
    rfl

/-- **The sample of a period**, if one is taken, is of the state after the inputs that are not of a
    later period. -/
theorem samples_of (k : Int) {is : List ι} (hclock : is.Pairwise fun i j => S.period i ≤ S.period j)
    (s : State σ) :
    ((Mealy.run S.step s is).2.filter fun o => o.1 = k) = [] ∨
      ∃ i ∈ is, ∃ x,
        (is.filter fun i => S.period i ≤ k).foldl S.hold (s.map Prod.snd) = some x ∧
          ((Mealy.run S.step s is).2.filter fun o => o.1 = k) = [(k, S.sample i x)] := by
  induction is generalizing s with
  | nil => exact Or.inl rfl
  | cons i is ih =>
    obtain ⟨hfirst, hclock⟩ := List.pairwise_cons.1 hclock
    rw [Mealy.run_cons, List.filter_append]
    by_cases hi : S.period i ≤ k
    · -- the periods that are over by now are before `k`
      have hnone : ((S.step s i).2.filter fun o => o.1 = k) = [] := by
        refine List.filter_eq_nil_iff.2 fun o ho hk => ?_
        obtain ⟨_, _, _, _, hover, _⟩ := S.mem_step ho
        have hk : o.1 = k := of_decide_eq_true hk
        omega
      rw [hnone, List.nil_append, List.filter_cons, if_pos (decide_eq_true hi), List.foldl_cons,
        ← hold_step]
      rcases ih hclock (S.step s i).1 with h | ⟨j, hj, x, hx, h⟩
      · exact Or.inl h
      · exact Or.inr ⟨j, List.mem_cons_of_mem _ hj, x, hx, h⟩
    · have hlate : ∀ j ∈ is, k < S.period j := by
        intro j hj
        have := hfirst j hj
        omega
      have hrest : ((Mealy.run S.step (S.step s i).1 is).2.filter fun o => o.1 = k) = [] := by
        refine List.filter_eq_nil_iff.2 fun o ho hk => ?_
        have hlater := Past.run S hlate (S.past_step s (by omega)) o ho
        have hk : o.1 = k := of_decide_eq_true hk
        omega
      have hearly : (is.filter fun i => S.period i ≤ k) = [] := by
        refine List.filter_eq_nil_iff.2 fun j hj hk => ?_
        have := hlate j hj
        have hk : S.period j ≤ k := of_decide_eq_true hk
        omega
      rw [hrest, List.append_nil, List.filter_cons, if_neg (by simpa using hi), hearly,
        List.foldl_nil]
      cases s with
      | none => exact Or.inl rfl
      | some e =>
        simp only [step]
        rw [filter_samples]
        split
        · exact Or.inr ⟨i, List.mem_cons_self, e.2, rfl, rfl⟩
        · exact Or.inl rfl

/-! ## All samples -/

/-- The period of the last input, if there is one. -/
def lastPeriod (due : Int) (is : List ι) : Int := is.foldl (fun _ i => S.period i) due

theorem le_lastPeriod {is : List ι} (hclock : is.Pairwise fun i j => S.period i ≤ S.period j)
    {due : Int} (hdue : ∀ i ∈ is, due ≤ S.period i) : due ≤ S.lastPeriod due is := by
  induction is generalizing due with
  | nil => exact Int.le_refl due
  | cons i is ih =>
    obtain ⟨hi, _⟩ := List.forall_mem_cons.1 hdue
    obtain ⟨hfirst, hclock⟩ := List.pairwise_cons.1 hclock
    exact Int.le_trans hi (ih hclock hfirst)

/-- **A run from a state on**, if what a sample shows does not depend on the input that takes it:
    one sample for every period before that of the last input, of the state after the inputs up to
    the end of the period. -/
theorem run_started {g : σ → ω} (hg : ∀ i, S.sample i = g) {is : List ι}
    (hclock : is.Pairwise fun i j => S.period i ≤ S.period j) {due : Int}
    (hdue : ∀ i ∈ is, due ≤ S.period i) (x : σ) :
    Mealy.run S.step (some (due, x)) is =
      (some (S.lastPeriod due is, is.foldl (fun x i => S.update i x) x),
        (periodsUpTo due (S.lastPeriod due is)).map fun k =>
          (k, g ((is.filter fun i => S.period i ≤ k).foldl (fun x i => S.update i x) x))) := by
  induction is generalizing due x with
  | nil =>
    have hnone : periodsUpTo due due = [] := by
      rw [periodsUpTo, Int.sub_self]
      rfl
    rw [Mealy.run_nil, lastPeriod, List.foldl_nil, List.foldl_nil, hnone, List.map_nil]
  | cons i is ih =>
    obtain ⟨hi, _⟩ := List.forall_mem_cons.1 hdue
    obtain ⟨hfirst, hclock⟩ := List.pairwise_cons.1 hclock
    have hlast : S.lastPeriod due (i :: is) = S.lastPeriod (S.period i) is := rfl
    have hle := S.le_lastPeriod hclock hfirst
    rw [Mealy.run_cons, step]
    simp only [Int.max_eq_right hi]
    rw [ih hclock hfirst (S.update i x), hlast, periodsUpTo_append hi hle, List.map_append,
      List.foldl_cons]
    refine Prod.ext rfl (congrArg₂ _ ?_ ?_)
    · -- the periods that this input shows to be over
      refine List.map_congr_left fun k hk => ?_
      obtain ⟨_, hover⟩ := mem_periodsUpTo.1 hk
      have hnone : ((i :: is).filter fun i => S.period i ≤ k) = [] := by
        refine List.filter_eq_nil_iff.2 fun j hj hjk => ?_
        have hjk : S.period j ≤ k := of_decide_eq_true hjk
        rcases List.mem_cons.1 hj with rfl | hj
        · omega
        · have := hfirst j hj
          omega
      rw [hnone, hg]
      rfl
    · -- those of its own period on
      refine List.map_congr_left fun k hk => ?_
      obtain ⟨hown, _⟩ := mem_periodsUpTo.1 hk
      rw [List.filter_cons, if_pos (decide_eq_true hown), List.foldl_cons]

/-! ## Two runs -/

/-- Two inputs of one period that show alike, and are alike but if they are of a period after
    `k`. -/
structure Alike (k : Int) (i j : ι) : Prop where
  period : S.period i = S.period j
  sample : S.sample i = S.sample j
  start : S.period i ≤ k → S.start i = S.start j
  update : S.period i ≤ k → S.update i = S.update j

/-- **No look-ahead**: what an input makes of the state does not show in a sample of a period
    before its own. -/
theorem agree {k : Int} {is js : List ι} (halike : List.Forall₂ (S.Alike k) is js)
    (hclock : is.Pairwise fun i j => S.period i ≤ S.period j) (s : State σ) :
    ((Mealy.run S.step s is).2.filter fun o => o.1 ≤ k) =
      (Mealy.run S.step s js).2.filter fun o => o.1 ≤ k := by
  induction halike generalizing s with
  | nil => rfl
  | @cons i j is js hij halike ih =>
    obtain ⟨hfirst, hclock⟩ := List.pairwise_cons.1 hclock
    have hout : (S.step s i).2 = (S.step s j).2 := by
      cases s with
      | none => rfl
      | some e => simp only [step, hij.period, hij.sample]
    rw [Mealy.run_cons, Mealy.run_cons, List.filter_append, List.filter_append, hout]
    refine congrArg _ ?_
    by_cases hi : S.period i ≤ k
    · have hstate : (S.step s i).1 = (S.step s j).1 := by
        cases s with
        | none => simp only [step, hij.start hi, hij.period]
        | some e => simp only [step, hij.update hi, hij.period]
      rw [hstate]
      exact ih hclock _
    · have hlate : ∀ i' ∈ is, k < S.period i' := by
        intro i' hi'
        have := hfirst i' hi'
        omega
      have hlate' : ∀ j' ∈ js, k < S.period j' := by
        intro j' hj'
        obtain ⟨i', hi', h⟩ := halike.exists_of_mem_right hj'
        rw [← h.period]
        exact hlate i' hi'
      have hnone : ∀ (i : ι) (is : List ι), k < S.period i → (∀ i ∈ is, k < S.period i) →
          ((Mealy.run S.step (S.step s i).1 is).2.filter fun o => o.1 ≤ k) = [] := by
        intro i is hi his
        refine List.filter_eq_nil_iff.2 fun o ho hk => ?_
        have hlater := Past.run S his (S.past_step s hi) o ho
        have hk : o.1 ≤ k := of_decide_eq_true hk
        omega
      have hj : k < S.period j := by
        have := hij.period
        omega
      rw [hnone i is (by omega) hlate, hnone j js hj hlate']

end Run

end Sampler

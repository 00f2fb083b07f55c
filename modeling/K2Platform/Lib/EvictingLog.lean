import Mathlib.Algebra.Order.Ring.Int
import Mathlib.Data.List.Nodup
import Mathlib.Logic.Relation

/-!
# Archiving a log that loses its head

A log holds the offsets `[logStart, logEnd)`; it grows at the end and is evicted at the head.
An archiver copies ranges of it, remembers where it began and how far it has got, and writes
down each range it gave up on because the log had evicted it.

* `Exact` — every offset is archived at most once, and exactly those between the beginning and
  the position that no gap covers.
* `Exact.steps` — whatever is done, in any order, an archive stays exact.
* `position_mono_steps` — the beginning is for ever and the position never falls.
-/

set_option autoImplicit false

namespace EvictingLog

open Relation

structure Archive where
  logStart : Int
  logEnd : Int
  /-- Where the archive begins and how far it has got, once it has begun. -/
  position : Option (Int × Int)
  items : List Int
  gaps : List (Int × Int)

/-- `items` is the range `[lo, hi)` in some order. -/
def Copies (items : List Int) (lo hi : Int) : Prop :=
  items.Nodup ∧ ∀ o, o ∈ items ↔ lo ≤ o ∧ o < hi

def Covered (gaps : List (Int × Int)) (o : Int) : Prop := ∃ g ∈ gaps, g.1 ≤ o ∧ o < g.2

theorem covered_append {gaps gaps' : List (Int × Int)} {o : Int} :
    Covered (gaps ++ gaps') o ↔ Covered gaps o ∨ Covered gaps' o := by
  simp only [Covered, List.mem_append, or_and_right, exists_or]

/-! ## What can happen -/

inductive Step : Archive → Archive → Prop
  | move {a : Archive} {logStart logEnd : Int} (hstart : a.logStart ≤ logStart)
      (hend : a.logEnd ≤ logEnd) : Step a { a with logStart := logStart, logEnd := logEnd }
  | giveUp {a : Archive} {first next upTo : Int} (hpos : a.position = some (first, next))
      (hgone : upTo ≤ a.logStart) : Step a { a with gaps := a.gaps ++ [(next, upTo)] }
  | start {a : Archive} {lo hi : Int} {items : List Int} (hpos : a.position = none)
      (hle : lo ≤ hi) (hend : hi ≤ a.logEnd) (hitems : Copies items lo hi) :
      Step a { a with position := some (lo, hi), items := a.items ++ items }
  | advance {a : Archive} {first next lo hi : Int} {items : List Int}
      (hpos : a.position = some (first, next))
      (hfrom : lo = next ∨ next ≤ lo ∧ (next, lo) ∈ a.gaps) (hle : lo ≤ hi)
      (hend : hi ≤ a.logEnd) (hheld : lo = hi ∨ a.logStart ≤ lo) (hitems : Copies items lo hi) :
      Step a { a with position := some (first, hi), items := a.items ++ items }

theorem steps_giveUp {first next : Int} :
    ∀ (gaps : List (Int × Int)) (a : Archive), a.position = some (first, next) →
      (∀ g ∈ gaps, g.1 = next ∧ g.2 ≤ a.logStart) →
      ReflTransGen Step a { a with gaps := a.gaps ++ gaps }
  | [], a, _, _ => by rw [List.append_nil]
  | g :: gaps, a, hpos, hg => by
    obtain ⟨hnext, hgone⟩ := hg g List.mem_cons_self
    have hrest := steps_giveUp gaps { a with gaps := a.gaps ++ [(next, g.2)] } hpos
      fun g' hg' => hg g' (List.mem_cons_of_mem _ hg')
    have hcons : a.gaps ++ [(next, g.2)] ++ gaps = a.gaps ++ g :: gaps := by
      rw [List.append_assoc, List.singleton_append, ← hnext]
    simp only [hcons] at hrest
    exact ReflTransGen.head (Step.giveUp hpos hgone) hrest

/-! ## What is kept -/

structure Exact (a : Archive) : Prop where
  unbegun : a.position = none → a.items = [] ∧ a.gaps = []
  ordered : ∀ first next, a.position = some (first, next) → first ≤ next ∧ next ≤ a.logEnd
  nodup : a.items.Nodup
  mem_iff : ∀ first next, a.position = some (first, next) →
    ∀ o, o ∈ a.items ↔ first ≤ o ∧ o < next ∧ ¬ Covered a.gaps o
  gone : ∀ g ∈ a.gaps, g.2 ≤ a.logStart

variable {a b : Archive}

theorem not_covered_of_le {gaps : List (Int × Int)} {limit o : Int} (h : ∀ g ∈ gaps, g.2 ≤ limit)
    (ho : limit ≤ o) : ¬ Covered gaps o := by
  rintro ⟨g, hg, _, hlt⟩
  have := h g hg
  omega

theorem Exact.move (h : Exact a) {logStart logEnd : Int} (hstart : a.logStart ≤ logStart)
    (hend : a.logEnd ≤ logEnd) : Exact { a with logStart := logStart, logEnd := logEnd } where
  unbegun := h.unbegun
  ordered _ _ hpos := ⟨(h.ordered _ _ hpos).1, (h.ordered _ _ hpos).2.trans hend⟩
  nodup := h.nodup
  mem_iff := h.mem_iff
  gone g hg := (h.gone g hg).trans hstart

/-- A gap begins at the position, where nothing has been archived yet. -/
theorem Exact.giveUp (h : Exact a) {first next upTo : Int}
    (hpos : a.position = some (first, next)) (hgone : upTo ≤ a.logStart) :
    Exact { a with gaps := a.gaps ++ [(next, upTo)] } where
  unbegun hnone := by
    simp only at hnone
    rw [hpos] at hnone
    cases hnone
  ordered := h.ordered
  nodup := h.nodup
  mem_iff first' next' hpos' o := by
    simp only at hpos'
    obtain ⟨rfl, rfl⟩ := Prod.mk.inj (Option.some.inj (hpos.symm.trans hpos'))
    rw [h.mem_iff _ _ hpos, covered_append]
    constructor
    · rintro ⟨hlo, hhi, hcov⟩
      refine ⟨hlo, hhi, not_or.2 ⟨hcov, ?_⟩⟩
      rintro ⟨g, hg, hle, _⟩
      rw [List.mem_singleton.1 hg] at hle
      exact absurd hle (not_le.2 hhi)
    · exact fun ⟨hlo, hhi, hcov⟩ => ⟨hlo, hhi, fun hc => hcov (Or.inl hc)⟩
  gone g hg := by
    rcases List.mem_append.1 hg with hg | hg
    · exact h.gone g hg
    · rw [List.mem_singleton.1 hg]
      exact hgone

theorem Exact.start (h : Exact a) {lo hi : Int} {items : List Int} (hpos : a.position = none)
    (hle : lo ≤ hi) (hend : hi ≤ a.logEnd) (hitems : Copies items lo hi) :
    Exact { a with position := some (lo, hi), items := a.items ++ items } := by
  obtain ⟨hnil, hgaps⟩ := h.unbegun hpos
  rw [hnil, List.nil_append]
  constructor
  · intro hnone
    cases hnone
  · intro first next hp
    obtain ⟨rfl, rfl⟩ := Prod.mk.inj (Option.some.inj hp)
    exact ⟨hle, hend⟩
  · exact hitems.1
  · intro first next hp o
    obtain ⟨rfl, rfl⟩ := Prod.mk.inj (Option.some.inj hp)
    simp [hitems.2, hgaps, Covered]
  · exact h.gone

/-- What is copied lies at or past the log's start, so no gap reaches it; what lies between the
    old position and the range copied is a gap. -/
theorem Exact.advance (h : Exact a) {first next lo hi : Int} {items : List Int}
    (hpos : a.position = some (first, next))
    (hfrom : lo = next ∨ next ≤ lo ∧ (next, lo) ∈ a.gaps) (hle : lo ≤ hi)
    (hend : hi ≤ a.logEnd) (hheld : lo = hi ∨ a.logStart ≤ lo) (hitems : Copies items lo hi) :
    Exact { a with position := some (first, hi), items := a.items ++ items } := by
  obtain ⟨hfirst, _⟩ := h.ordered _ _ hpos
  have hnext : next ≤ lo := hfrom.elim (fun he => he.ge) fun hg => hg.1
  have hfresh : ∀ o, lo ≤ o → o < hi → ¬ Covered a.gaps o := fun o hlo hhi =>
    not_covered_of_le h.gone ((hheld.resolve_left (by omega)).trans hlo)
  constructor
  · intro hnone
    cases hnone
  · intro first' next' hp
    obtain ⟨rfl, rfl⟩ := Prod.mk.inj (Option.some.inj hp)
    exact ⟨by omega, hend⟩
  · refine List.Nodup.append h.nodup hitems.1 fun o ho ho' => ?_
    have hlt := ((h.mem_iff _ _ hpos o).1 ho).2.1
    have hge := ((hitems.2 o).1 ho').1
    omega
  · intro first' next' hp o
    obtain ⟨rfl, rfl⟩ := Prod.mk.inj (Option.some.inj hp)
    rw [List.mem_append, h.mem_iff _ _ hpos, hitems.2]
    constructor
    · rintro (⟨hlo, hhi, hcov⟩ | ⟨hlo, hhi⟩)
      · exact ⟨hlo, by omega, hcov⟩
      · exact ⟨by omega, hhi, hfresh o hlo hhi⟩
    · rintro ⟨hlo, hhi, hcov⟩
      rcases lt_or_ge o next with hlt | hge
      · exact Or.inl ⟨hlo, hlt, hcov⟩
      · rcases lt_or_ge o lo with hlt | hge'
        · rcases hfrom with he | ⟨_, hgap⟩
          · omega
          · exact absurd ⟨_, hgap, hge, hlt⟩ hcov
        · exact Or.inr ⟨hge', hhi⟩
  · exact h.gone

theorem Exact.step (h : Exact a) (hstep : Step a b) : Exact b := by
  cases hstep with
  | move hstart hend => exact h.move hstart hend
  | giveUp hpos hgone => exact h.giveUp hpos hgone
  | start hpos hle hend hitems => exact h.start hpos hle hend hitems
  | advance hpos hfrom hle hend hheld hitems => exact h.advance hpos hfrom hle hend hheld hitems

/-- **Exactly once.**  Archives stay exact along every run. -/
theorem Exact.steps (h : Exact a) (hsteps : ReflTransGen Step a b) : Exact b := by
  induction hsteps with
  | refl => exact h
  | tail _ hstep ih => exact ih.step hstep

theorem position_mono_step (hstep : Step a b) {first next : Int}
    (hpos : a.position = some (first, next)) :
    ∃ next', b.position = some (first, next') ∧ next ≤ next' := by
  cases hstep with
  | move => exact ⟨next, hpos, le_rfl⟩
  | giveUp => exact ⟨next, hpos, le_rfl⟩
  | start hnone =>
    rw [hpos] at hnone
    cases hnone
  | advance hpos' hfrom hle =>
    obtain ⟨rfl, rfl⟩ := Prod.mk.inj (Option.some.inj (hpos.symm.trans hpos'))
    refine ⟨_, rfl, ?_⟩
    rcases hfrom with he | ⟨hn, _⟩
    · exact he.ge.trans hle
    · exact hn.trans hle

/-- **Monotone positions.** -/
theorem position_mono_steps (hsteps : ReflTransGen Step a b) {first next : Int}
    (hpos : a.position = some (first, next)) :
    ∃ next', b.position = some (first, next') ∧ next ≤ next' := by
  induction hsteps with
  | refl => exact ⟨next, hpos, le_rfl⟩
  | tail _ hstep ih =>
    obtain ⟨mid, hmid, hle⟩ := ih
    obtain ⟨last, hlast, hle'⟩ := position_mono_step hstep hmid
    exact ⟨last, hlast, hle.trans hle'⟩

end EvictingLog

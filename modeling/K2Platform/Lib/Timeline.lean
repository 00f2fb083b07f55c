import Mathlib.Data.List.Basic
import Mathlib.Data.List.Pairwise
import Mathlib.Data.Set.Lattice
import Mathlib.Order.CompletePartialOrder
import Mathlib.Order.Interval.Set.Basic
import Mathlib.Order.Interval.Set.Disjoint

/-!
# Timelines

Half-open intervals `[start, stop)` over a linear order, kept in a list oldest first.

* `Tiles a b l` — the intervals of `l` are nonempty and follow one another from `a` to `b`.
* `covering l t` — how many intervals of `l` an as-of lookup at `t` returns.
* `covering_of_tiles` — a tiling answers every instant of `[a, b)` once and no other.
* `pairwise_disjoint_iff` — intervals are pairwise disjoint exactly when no instant is answered
  twice.
* `tiles_cut`, `tiles_extend` — closing the last interval at an instant, and opening the next.
-/

set_option autoImplicit false

namespace Timeline

variable {τ : Type} [LinearOrder τ]

def Tiles : τ → τ → List (τ × τ) → Prop
  | a, b, [] => a = b
  | a, b, s :: l => s.1 = a ∧ s.1 < s.2 ∧ Tiles s.2 b l

def covers (t : τ) (s : τ × τ) : Bool := s.1 ≤ t && t < s.2

/-- How many of the intervals hold the instant. -/
def covering (l : List (τ × τ)) (t : τ) : Nat := l.countP (covers t)

theorem covers_iff (t : τ) (s : τ × τ) : covers t s = true ↔ t ∈ Set.Ico s.1 s.2 := by
  simp [covers]

@[simp] theorem covering_nil (t : τ) : covering ([] : List (τ × τ)) t = 0 := rfl

theorem covering_cons (s : τ × τ) (l : List (τ × τ)) (t : τ) :
    covering (s :: l) t = covering l t + if t ∈ Set.Ico s.1 s.2 then 1 else 0 := by
  simp only [covering, List.countP_cons, covers_iff]

theorem covering_append (l l' : List (τ × τ)) (t : τ) :
    covering (l ++ l') t = covering l t + covering l' t := List.countP_append

/-! ## Tilings -/

theorem tiles_append : ∀ {a b : τ} (l l' : List (τ × τ)),
    Tiles a b (l ++ l') ↔ ∃ m, Tiles a m l ∧ Tiles m b l'
  | a, b, [], l' => by simp [Tiles]
  | a, b, s :: l, l' => by
    simp only [List.cons_append, Tiles, tiles_append l l']
    constructor
    · rintro ⟨ha, hs, m, hl, hl'⟩
      exact ⟨m, ⟨ha, hs, hl⟩, hl'⟩
    · rintro ⟨m, ⟨ha, hs, hl⟩, hl'⟩
      exact ⟨ha, hs, m, hl, hl'⟩

theorem tiles_singleton {a b : τ} : Tiles a b [(a, b)] ↔ a < b := by simp [Tiles]

theorem tiles_le : ∀ {a b : τ} {l : List (τ × τ)}, Tiles a b l → a ≤ b
  | _, _, [], h => le_of_eq h
  | _, _, _ :: _, ⟨ha, hs, hl⟩ => ha ▸ (le_of_lt hs).trans (tiles_le hl)

theorem tiles_lt : ∀ {a b : τ} {l : List (τ × τ)}, Tiles a b l → l ≠ [] → a < b
  | _, _, [], _, hne => absurd rfl hne
  | _, _, _ :: _, ⟨ha, hs, hl⟩, _ => ha ▸ hs.trans_le (tiles_le hl)

/-- A tiling answers every instant of its range exactly once, and no instant outside it. -/
theorem covering_of_tiles : ∀ {a b : τ} {l : List (τ × τ)}, Tiles a b l → ∀ t,
    covering l t = if t ∈ Set.Ico a b then 1 else 0
  | a, b, [], h, t => by
    have hne : t ∉ Set.Ico a b := by
      rw [show a = b from h, Set.Ico_self]
      exact Set.notMem_empty t
    rw [covering_nil, if_neg hne]
  | a, b, s :: l, ⟨ha, hs, hl⟩, t => by
    subst ha
    have hsb := tiles_le hl
    rw [covering_cons, covering_of_tiles hl]
    by_cases hin : t < s.2
    · have hlater : t ∉ Set.Ico s.2 b := fun h => absurd h.1 (not_le.2 hin)
      have hiff : t ∈ Set.Ico s.1 s.2 ↔ t ∈ Set.Ico s.1 b :=
        ⟨fun h => ⟨h.1, h.2.trans_le hsb⟩, fun h => ⟨h.1, hin⟩⟩
      rw [if_neg hlater, Nat.zero_add, if_congr hiff rfl rfl]
    · have hearlier : t ∉ Set.Ico s.1 s.2 := fun h => hin h.2
      have hiff : t ∈ Set.Ico s.2 b ↔ t ∈ Set.Ico s.1 b :=
        ⟨fun h => ⟨hs.le.trans h.1, h.2⟩, fun h => ⟨not_lt.1 hin, h.2⟩⟩
      rw [if_neg hearlier, Nat.add_zero, if_congr hiff rfl rfl]

theorem covering_le_one {a b : τ} {l : List (τ × τ)} (h : Tiles a b l) (t : τ) :
    covering l t ≤ 1 := by
  rw [covering_of_tiles h]
  split
  · exact le_rfl
  · exact Nat.zero_le 1

/-- Close the last interval at `t`. -/
theorem tiles_cut {a b t : τ} {l : List (τ × τ)} {s : τ × τ} (h : Tiles a b (l ++ [s]))
    (hs : s.1 < t) : Tiles a t (l ++ [(s.1, t)]) := by
  obtain ⟨m, hl, hm, _⟩ := (tiles_append l [s]).1 h
  exact (tiles_append l _).2 ⟨m, hl, hm, hs, rfl⟩

/-- Open the next interval where the last one ends. -/
theorem tiles_extend {a t b : τ} {l : List (τ × τ)} (h : Tiles a t l) (ht : t < b) :
    Tiles a b (l ++ [(t, b)]) := (tiles_append l _).2 ⟨t, h, tiles_singleton.2 ht⟩

/-! ## Disjointness -/

/-- No two of the intervals share an instant. -/
def PairwiseDisjoint (l : List (τ × τ)) : Prop :=
  l.Pairwise fun s s' => Disjoint (Set.Ico s.1 s.2) (Set.Ico s'.1 s'.2)

theorem covering_eq_zero_iff (l : List (τ × τ)) (t : τ) :
    covering l t = 0 ↔ ∀ s ∈ l, t ∉ Set.Ico s.1 s.2 := by
  rw [covering, List.countP_eq_zero]
  simp only [covers_iff]

theorem pairwise_disjoint_iff (l : List (τ × τ)) :
    PairwiseDisjoint l ↔ ∀ t, covering l t ≤ 1 := by
  induction l with
  | nil => exact ⟨fun _ _ => Nat.zero_le 1, fun _ => List.Pairwise.nil⟩
  | cons s l ih =>
    unfold PairwiseDisjoint at ih ⊢
    rw [List.pairwise_cons, ih]
    constructor
    · rintro ⟨hs, hl⟩ t
      rw [covering_cons]
      by_cases ht : t ∈ Set.Ico s.1 s.2
      · have hnone : covering l t = 0 := (covering_eq_zero_iff l t).2 fun s' hs' hin =>
          Set.disjoint_left.1 (hs s' hs') ht hin
        rw [hnone, if_pos ht]
      · rw [if_neg ht]
        exact hl t
    · intro h
      refine ⟨fun s' hs' => Set.disjoint_left.2 fun t ht hin => ?_, fun t => ?_⟩
      · have hpos : covering l t ≠ 0 := fun h0 => (covering_eq_zero_iff l t).1 h0 s' hs' hin
        have hle := h t
        rw [covering_cons, if_pos ht] at hle
        omega
      · exact (Nat.le_add_right _ _).trans ((covering_cons s l t).symm ▸ h t)

theorem pairwiseDisjoint_of_tiles {a b : τ} {l : List (τ × τ)} (h : Tiles a b l) :
    PairwiseDisjoint l := (pairwise_disjoint_iff l).2 (covering_le_one h)

end Timeline

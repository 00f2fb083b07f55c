import K2Platform.Lib.Timeline

/-!
# As-of joins

A table whose rows hold from `start` to `stop`, and a join that takes the row of the greatest
`start` at or before an instant, whatever its `stop` says.

* `joined_iff_of_tiles` — over rows that tile a timeline, the join gives the row that holds at the
  instant, and no other: it agrees with the range join `start ≤ t AND t < stop`.
-/

set_option autoImplicit false

namespace AsOfJoin

open Timeline

variable {ρ τ : Type} [LinearOrder τ]

/-- `ASOF LEFT JOIN … ON t >= start`: a row of the greatest start, or nothing. -/
inductive Joined (start : ρ → τ) (rows : List ρ) (t : τ) : Option ρ → Prop
  | found {r : ρ} (mem : r ∈ rows) (started : start r ≤ t)
      (greatest : ∀ r' ∈ rows, start r' ≤ t → start r' ≤ start r) : Joined start rows t (some r)
  | missed (late : ∀ r ∈ rows, t < start r) : Joined start rows t none

variable {start stop : ρ → τ} {rows : List ρ} {a b t : τ} {r r' : ρ}

theorem start_lt_stop_of_tiles : ∀ {a b : τ} {l : List (τ × τ)}, Tiles a b l →
    ∀ s ∈ l, s.1 < s.2
  | _, _, [], _, s, hs => absurd hs List.not_mem_nil
  | _, _, u :: l, ⟨_, hu, hl⟩, s, hs => by
    rcases List.mem_cons.1 hs with rfl | hs
    · exact hu
    · exact start_lt_stop_of_tiles hl s hs

/-- Two rows of a tiling that hold at one instant are one row. -/
theorem eq_of_covers (htiles : Tiles a b (rows.map fun r => (start r, stop r))) (hr : r ∈ rows)
    (hr' : r' ∈ rows) (h : start r ≤ t ∧ t < stop r) (h' : start r' ≤ t ∧ t < stop r') :
    r = r' := by
  have hle := covering_le_one htiles t
  rw [covering, List.countP_map, List.countP_eq_length_filter] at hle
  have hmem : ∀ u ∈ rows, start u ≤ t ∧ t < stop u →
      u ∈ rows.filter (covers t ∘ fun r => (start r, stop r)) := fun u hu hcovers =>
    List.mem_filter.2 ⟨hu, by simpa [covers] using hcovers⟩
  obtain ⟨i, hi, hri⟩ := List.getElem_of_mem (hmem r hr h)
  obtain ⟨j, hj, hrj⟩ := List.getElem_of_mem (hmem r' hr' h')
  have hij : i = j := by omega
  subst hij
  exact hri.symm.trans hrj

/-- **The as-of spelling is the range spelling.** -/
theorem joined_iff_of_tiles (htiles : Tiles a b (rows.map fun r => (start r, stop r)))
    (hr : r ∈ rows) (hfrom : start r ≤ t) (hto : t < stop r) (found : Option ρ) :
    Joined start rows t found ↔ found = some r := by
  have hlater : ∀ u ∈ rows, start u ≤ t → start r ≤ start u → u = r := by
    intro u hu hut hru
    have hspan := start_lt_stop_of_tiles htiles _ (List.mem_map_of_mem hu)
    exact eq_of_covers htiles hu hr ⟨le_rfl, hspan⟩ ⟨hru, hut.trans_lt hto⟩
  constructor
  · intro h
    cases h with
    | found mem started greatest => rw [hlater _ mem started (greatest r hr hfrom)]
    | missed late => exact absurd hfrom (not_le.2 (late r hr))
  · rintro rfl
    refine .found hr hfrom fun u hu hut => ?_
    rcases le_total (start u) (start r) with h | h
    · exact h
    · rw [hlater u hu hut h]

end AsOfJoin

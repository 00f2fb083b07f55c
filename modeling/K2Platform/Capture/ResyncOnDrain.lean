import K2Platform.Capture.Session

/-!
# What `ResyncOnDrain` returns

Calls of `dropped` and `drained` of `resync.rs` in any order.  A symbol waits in the set until a
tick without drops, and the flag says whether a drop came after the last tick.

* `inv_after` — the set has the drops since the last return, and the flag is that of the last call.
* `returns_each_once` — what is returned, and when nothing is left.
-/

set_option autoImplicit false

namespace K2.Capture.ResyncOnDrain

inductive Call where
  | dropped (symbol : String)
  | drained
  deriving DecidableEq

/-- After these calls, of which the newest is first. -/
def after : List Call → ResyncOnDrain
  | [] => default
  | .dropped symbol :: earlier => (after earlier).dropped symbol
  | .drained :: earlier => (after earlier).drained.1

/-- What `drained` returns after these calls. -/
def returned (calls : List Call) : List String := (after calls).drained.2

/-- The symbols dropped since the last return that was not empty. -/
def droppedSince : List Call → List String
  | [] => []
  | .dropped symbol :: earlier => symbol :: droppedSince earlier
  | .drained :: earlier => if returned earlier = [] then droppedSince earlier else []

def isDrop : Call → Bool
  | .dropped _ => true
  | .drained => false

/-! ## The set and the flag -/

theorem waits_dropped_iff (r : ResyncOnDrain) (symbol s : String) :
    (r.dropped symbol).Waits s ↔ s = symbol ∨ r.Waits s := by
  constructor
  · intro h
    by_cases heq : s = symbol
    · exact Or.inl heq
    · rw [Waits, dropped, SortedMap.mem_keys_iff, SortedMap.contains,
        SortedMap.get?_insert_of_ne _ _ heq] at h
      exact Or.inr (by rwa [Waits, SortedMap.mem_keys_iff, SortedMap.contains])
  · rintro (rfl | h)
    · exact waits_dropped_self r s
    · exact h.dropped symbol

/-- What one tick does: nothing waits, or the tick closes an interval with drops, or everything is
    returned. -/
theorem drained_cases (r : ResyncOnDrain) :
    (∀ s, ¬ r.Waits s) ∧ r.drained = (r, []) ∨
      (∃ s, r.Waits s) ∧ r.droppedSinceTick = true ∧ r.drained = (⟨r.pending, false⟩, []) ∨
      (∃ s, r.Waits s) ∧ r.droppedSinceTick = false ∧
        r.drained = (⟨SortedMap.empty, false⟩, r.pending.keys) := by
  unfold drained
  cases hempty : r.pending.isEmpty with
  | true =>
    refine Or.inl ⟨fun s hs => ?_, if_pos rfl⟩
    rw [Waits, SortedMap.keys, SortedMap.isEmpty_iff.1 hempty] at hs
    cases hs
  | false =>
    have hsome : ∃ s, r.Waits s := by
      have hne : r.pending.keys ≠ [] := by
        intro hnil
        rw [SortedMap.keys, List.map_eq_nil_iff] at hnil
        rw [SortedMap.isEmpty_iff.2 hnil] at hempty
        cases hempty
      exact List.exists_mem_of_ne_nil _ hne
    cases hflag : r.droppedSinceTick with
    | true => exact Or.inr (Or.inl ⟨hsome, rfl, rfl⟩)
    | false =>
      refine Or.inr (Or.inr ⟨hsome, rfl, ?_⟩)
      obtain ⟨pending, flag⟩ := r
      cases hflag
      rfl

/-- The set has the drops since the last return; the flag is up if the last call was a drop. -/
structure Inv (calls : List Call) : Prop where
  waits : ∀ s, (after calls).Waits s ↔ s ∈ droppedSince calls
  flag : (after calls).droppedSinceTick = (calls.head?.map isDrop).getD false

theorem Inv.drained {calls : List Call} (h : Inv calls) : Inv (.drained :: calls) := by
  have hwaits : ∀ s, (after (.drained :: calls)).Waits s ↔ (after calls).drained.1.Waits s :=
    fun _ => Iff.rfl
  rcases drained_cases (after calls) with ⟨hnone, heq⟩ | ⟨_, _, heq⟩ | ⟨⟨s, hs⟩, _, heq⟩
  · have hempty : returned calls = [] := by rw [returned, heq]
    constructor
    · intro s
      rw [hwaits, heq, droppedSince, if_pos hempty]
      exact h.waits s
    · have hdown : (after calls).droppedSinceTick = false := by
        rw [h.flag]
        -- a drop would still be waiting
        cases calls with
        | nil => rfl
        | cons c calls =>
          cases c with
          | dropped symbol => exact absurd (waits_dropped_self _ symbol) (hnone symbol)
          | drained => rfl
      show (after calls).drained.1.droppedSinceTick = false
      rw [heq]
      exact hdown
  · have hempty : returned calls = [] := by rw [returned, heq]
    constructor
    · intro s
      rw [hwaits, heq, droppedSince, if_pos hempty]
      exact h.waits s
    · show (after calls).drained.1.droppedSinceTick = false
      rw [heq]
  · have hsome : returned calls ≠ [] := by
      rw [returned, heq]
      exact List.ne_nil_of_mem hs
    constructor
    · intro s
      rw [hwaits, heq, droppedSince, if_neg hsome]
      exact Iff.rfl
    · show (after calls).drained.1.droppedSinceTick = false
      rw [heq]

theorem inv_after (calls : List Call) : Inv calls := by
  induction calls with
  | nil => exact ⟨fun s => Iff.rfl, rfl⟩
  | cons c calls ih =>
    cases c with
    | dropped symbol =>
      constructor
      · intro s
        rw [after, waits_dropped_iff, droppedSince, List.mem_cons, ih.waits]
      · rfl
    | drained => exact ih.drained

/-! ## What is returned -/

/-- A dropped symbol waits until it is returned. -/
theorem returned_or_waits (s : String) (earlier later : List Call) :
    (∃ l₁ l₂, later = l₁ ++ .drained :: l₂ ∧ s ∈ returned (l₂ ++ .dropped s :: earlier)) ∨
      (after (later ++ .dropped s :: earlier)).Waits s := by
  induction later with
  | nil => exact Or.inr (waits_dropped_self _ s)
  | cons c later ih =>
    rcases ih with ⟨l₁, l₂, rfl, hs⟩ | hwaits
    · exact Or.inl ⟨c :: l₁, l₂, rfl, hs⟩
    · cases c with
      | dropped symbol => exact Or.inr (hwaits.dropped symbol)
      | drained =>
        rcases hwaits.drained with ⟨hs, _⟩ | ⟨hstill, _, _⟩
        · exact Or.inl ⟨[], later, rfl, hs⟩
        · exact Or.inr hstill

/-- The second of two ticks without a drop between them leaves nothing. -/
theorem not_waits_drained_drained (calls : List Call) (s : String) :
    ¬ (after (.drained :: .drained :: calls)).Waits s := by
  have hflag : (after (.drained :: calls)).droppedSinceTick = false :=
    (inv_after (.drained :: calls)).flag
  rcases drained_cases (after (.drained :: calls)) with ⟨hnone, heq⟩ | ⟨_, hup, _⟩ | ⟨_, _, heq⟩
  · rw [after, heq]
    exact hnone s
  · rw [hflag] at hup
    cases hup
  · rw [after, heq]
    intro hs
    cases hs

/-- **Nothing is lost and nothing is repeated.**  What is returned is the drops since the last
    return, each once and in order, and only at a tick that follows a tick; a tick that follows a
    tick leaves no symbol waiting, and a symbol dropped before both has been returned since. -/
theorem returns_each_once :
    (∀ calls, returned calls ≠ [] →
      (returned calls).Pairwise (· < ·) ∧ (∀ s, s ∈ returned calls ↔ s ∈ droppedSince calls) ∧
        calls.head? = some .drained) ∧
    (∀ calls s, ¬ (after (.drained :: .drained :: calls)).Waits s) ∧
    ∀ earlier later s, ∃ l₁ l₂, .drained :: .drained :: later = l₁ ++ .drained :: l₂ ∧
      s ∈ returned (l₂ ++ .dropped s :: earlier) := by
  refine ⟨fun calls hne => ?_, not_waits_drained_drained, fun earlier later s => ?_⟩
  · have hinv := inv_after calls
    rcases drained_cases (after calls) with ⟨_, heq⟩ | ⟨_, _, heq⟩ | ⟨⟨w, hw⟩, hdown, heq⟩
    · exact absurd (by rw [returned, heq]) hne
    · exact absurd (by rw [returned, heq]) hne
    · have hkeys : returned calls = (after calls).pending.keys := by rw [returned, heq]
      refine ⟨?_, fun s => ?_, ?_⟩
      · rw [hkeys, SortedMap.keys, List.pairwise_map]
        exact (after calls).pending.sorted
      · rw [hkeys]
        exact hinv.waits s
      · rw [hinv.flag] at hdown
        cases calls with
        | nil => cases hw
        | cons c calls =>
          cases c with
          | dropped symbol => cases hdown
          | drained => rfl
  · refine (returned_or_waits s earlier (.drained :: .drained :: later)).resolve_right fun hs => ?_
    exact not_waits_drained_drained (later ++ .dropped s :: earlier) s hs

theorem quiet_tick_returns : returned [.drained, .dropped "ETH/USD", .dropped "BTC/USD"] ≠ [] ∧
    (returned [.drained, .dropped "ETH/USD", .dropped "BTC/USD"]).Pairwise (· < ·) := by
  have hne : returned [.drained, .dropped "ETH/USD", .dropped "BTC/USD"] ≠ [] := by decide
  exact ⟨hne, (returns_each_once.1 _ hne).1⟩

end K2.Capture.ResyncOnDrain

import K2Platform.Lib.Mealy

/-!
# A setting that only shows

A machine whose state has a setting that no state after it depends on, but what it emits does: with
a smaller setting it emits a coarser view of the same.  `set n` puts the setting to `n`, and
`view n` is what is seen of an output under it.

* `Shows.then`, `Shows.run` — kept by one step after another.
-/

set_option autoImplicit false

namespace Mealy

variable {σ ι ω : Type} (set : Nat → σ → σ) (view : Nat → ω → ω)

structure Shows (step : σ → σ × List ω) : Prop where
  state : ∀ n s, (step (set n s)).1 = set n (step s).1
  output : ∀ s m n, m ≤ n → (step (set m s)).2 = (step (set n s)).2.map (view m)

variable {set view}

theorem Shows.of_eq {f : σ → σ} {out : σ → List ω} (hf : ∀ n s, f (set n s) = set n (f s))
    (hout : ∀ n s, out (set n s) = out s) (hview : ∀ n s, (out s).map (view n) = out s) :
    Shows set view fun s => (f s, out s) where
  state := hf
  output s m n _ := by
    show out (set m s) = (out (set n s)).map (view m)
    rw [hout, hout, hview]

theorem Shows.then {F G : σ → σ × List ω} (hF : Shows set view F) (hG : Shows set view G) :
    Shows set view fun s => ((G (F s).1).1, (F s).2 ++ (G (F s).1).2) where
  state n s := by
    show (G (F (set n s)).1).1 = set n (G (F s).1).1
    rw [hF.state, hG.state]
  output s m n hmn := by
    show (F (set m s)).2 ++ (G (F (set m s)).1).2 =
      ((F (set n s)).2 ++ (G (F (set n s)).1).2).map (view m)
    rw [List.map_append, hF.state, hF.state, ← hF.output s m n hmn, ← hG.output _ m n hmn]

theorem Shows.after {F : σ → σ × List ω} (hF : Shows set view F) {f : σ → σ}
    (hf : ∀ n s, f (set n s) = set n (f s)) : Shows set view fun s => F (f s) where
  state n s := by
    show (F (f (set n s))).1 = set n (F (f s)).1
    rw [hf, hF.state]
  output s m n hmn := by
    show (F (f (set m s))).2 = (F (f (set n s))).2.map (view m)
    rw [hf, hf, hF.output _ m n hmn]

theorem Shows.run {step : σ → ι → σ × List ω} (h : ∀ i, Shows set view fun s => step s i) :
    ∀ is : List ι, Shows set view fun s => run step s is
  | [] => ⟨fun _ _ => rfl, fun _ _ _ _ => rfl⟩
  | i :: is => by
    have hrest := Shows.run h is
    exact Shows.then (h i) hrest

end Mealy

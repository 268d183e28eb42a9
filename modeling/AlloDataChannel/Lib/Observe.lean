import AlloDataChannel.Lib.Run

/-!
# Refinement

`view s e` : what an observer sees of the event `e` in `s`, as events of a second machine.

* `observe` : all that is seen along a run;
* `Run.refines` : if each step moves the abstraction as what is seen of it does, then so does a whole run;
* `exec_simulates` : the same for a relation to a second machine that can stop.
-/

namespace Lib

section Observe
variable {σ ε τ α : Type*} {step : σ → ε → Option σ} {env : σ → ε → Prop} {view : σ → ε → List α}

/-- What is seen of the events, up to a trap. -/
def observe (step : σ → ε → Option σ) (view : σ → ε → List α) : σ → List ε → List α
  | _, [] => []
  | s, e :: es => view s e ++ (step s e).elim [] fun t => observe step view t es

theorem observe_cons {s t : σ} {e : ε} (hs : step s e = some t) (es : List ε) :
    observe step view s (e :: es) = view s e ++ observe step view t es := by
  rw [observe, hs]
  rfl

/-- A simulation by a function: the concrete run and what is seen of it lead to one abstract state. -/
theorem Run.refines {I : σ → Prop} {abs : σ → τ} {astep : τ → α → τ}
    (hstep : ∀ s e t, I s → env s e → step s e = some t → I t ∧ abs t = (view s e).foldl astep (abs s))
    {s t : σ} {es : List ε} (h : Run step env s es t) (hI : I s) :
    I t ∧ abs t = (observe step view s es).foldl astep (abs s) := by
  induction h with
  | nil s => exact ⟨hI, rfl⟩
  | cons he hs _ ih =>
    obtain ⟨hI', habs⟩ := hstep _ _ _ hI he hs
    obtain ⟨hI'', habs'⟩ := ih hI'
    refine ⟨hI'', ?_⟩
    rw [habs', habs, observe_cons hs, List.foldl_append]

/-- A forward simulation: what is seen of a concrete run is a run of the second machine. -/
theorem exec_simulates {Rel : σ → τ → Prop} {astep : τ → α → Option τ}
    (hstep : ∀ s e t a, Rel s a → step s e = some t → ∃ b, exec astep a (view s e) = some b ∧ Rel t b)
    {s t : σ} {a : τ} {es : List ε} (h : exec step s es = some t) (hrel : Rel s a) :
    ∃ b, exec astep a (observe step view s es) = some b ∧ Rel t b := by
  induction es generalizing s a with
  | nil =>
    cases h
    exact ⟨a, rfl, hrel⟩
  | cons e es ih =>
    obtain ⟨s₁, hs, h⟩ := Option.bind_eq_some_iff.mp h
    obtain ⟨a₁, ha, hrel₁⟩ := hstep _ _ _ _ hrel hs
    obtain ⟨b, hb, hrel'⟩ := ih h hrel₁
    refine ⟨b, ?_, hrel'⟩
    rw [observe_cons hs, exec_append, ha]
    exact hb

end Observe

end Lib

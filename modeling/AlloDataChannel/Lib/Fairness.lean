import AlloDataChannel.Lib.Execution
import Mathlib.Order.WellFounded

/-!
# Fair executions: what an observer sees, and one task at a time

* `Execution.map` : an execution as an observer sees it, with a pause where nothing is seen;
* `Execution.WeaklyFair.map` : what is seen of a fair execution is fair;
* `Execution.holds_from` : what every later event preserves holds for ever;
* `Execution.eventually_of_helpful` : in every state one task helps, and no step of another one sets it back.
-/

namespace Lib
namespace Execution

section Map
variable {σ τ ε α : Type*} {step : σ → ε → Option σ} {astep : τ → α → Option τ} {s₀ : σ} {f : σ → τ}
  {see : σ → ε → Option α}

/-- The execution through `f`: `see s e` is what the observer sees of the event `e` in `s`. -/
def map (x : Execution step s₀) (hsee : ∀ s e t, step s e = some t → moment astep (f s) (see s e) = some (f t)) :
    Execution astep (f s₀) where
  state n := f (x.state n)
  event n := (x.event n).bind (see (x.state n))
  start := congrArg f x.start
  next n := by
    have hnext := x.next n
    cases he : x.event n with
    | none =>
      rw [he] at hnext
      exact congrArg (some ∘ f) (Option.some.inj hnext)
    | some e =>
      rw [he] at hnext
      exact hsee _ _ _ hnext

variable {x : Execution step s₀} {kind : ε → Prop} {akind : α → Prop}

/-- The observer sees the events of the kind, and one is possible whenever the observer thinks so. -/
theorem WeaklyFair.map (hfair : x.WeaklyFair kind)
    (hsee : ∀ s e t, step s e = some t → moment astep (f s) (see s e) = some (f t))
    (hpossible : ∀ s a, akind a → (astep (f s) a).isSome → ∃ e, kind e ∧ (step s e).isSome)
    (hseen : ∀ s e, kind e → ∃ a, akind a ∧ see s e = some a) : (x.map hsee).WeaklyFair akind := by
  intro n hn
  obtain ⟨m, hm, e, hk, he⟩ := hfair n fun m hm => by
    obtain ⟨a, ha, hs⟩ := hn m hm
    exact hpossible _ a ha hs
  obtain ⟨a, ha, hs⟩ := hseen (x.state m) e hk
  refine ⟨m, hm, a, ha, ?_⟩
  show (x.event m).bind _ = some a
  rw [he, Option.bind_some, hs]

end Map

section Rules
variable {σ ε : Type*} {step : σ → ε → Option σ} {s₀ : σ} {x : Execution step s₀}

theorem step_of_event {n : ℕ} {e : ε} (h : x.event n = some e) : step (x.state n) e = some (x.state (n + 1)) := by
  have hnext := x.next n
  rw [h] at hnext
  exact hnext

theorem state_of_pause {n : ℕ} (h : x.event n = none) : x.state (n + 1) = x.state n := by
  have hnext := x.next n
  rw [h] at hnext
  exact (Option.some.inj hnext).symm

theorem holds_from {I : σ → Prop} {n m : ℕ}
    (hevent : ∀ k ≥ n, ∀ e, x.event k = some e → I (x.state k) → I (x.state (k + 1))) (hn : I (x.state n))
    (hm : n ≤ m) : I (x.state m) := by
  induction m, hm using Nat.le_induction with
  | base => exact hn
  | succ m hm ih =>
    cases he : x.event m with
    | none =>
      rw [state_of_pause he]
      exact ih
    | some e => exact hevent m hm e he ih

/-- Under the invariant `I` and until the goal `G` the helpful task can go on, which lowers the rank; any other step
lowers it too, or leaves it and the helpful task as they are. -/
theorem eventually_of_helpful {ι β : Type*} [PartialOrder β] [WellFoundedLT β] {kind : ι → ε → Prop} {I G : σ → Prop}
    {rank : σ → β} {helpful : σ → ι} (hfair : ∀ i, x.WeaklyFair (kind i)) {n : ℕ} (hI : ∀ m ≥ n, I (x.state m))
    (hpossible : ∀ s, I s → ¬ G s → ∃ e, kind (helpful s) e ∧ (step s e).isSome)
    (hlower : ∀ s e t, I s → kind (helpful s) e → step s e = some t → rank t < rank s)
    (hkeep : ∀ s e t, I s → step s e = some t → rank t < rank s ∨ rank t = rank s ∧ helpful t = helpful s) :
    ∃ m ≥ n, G (x.state m) := by
  -- by the rank at the moment from which the goal is sought
  induction hr : rank (x.state n) using WellFoundedLT.induction generalizing n with
  | ind r ih =>
    by_cases hdrop : ∃ m ≥ n, rank (x.state m) < r
    · obtain ⟨m, hm, hlt⟩ := hdrop
      obtain ⟨k, hk, hg⟩ := ih _ hlt (fun k hk => hI k (by omega)) rfl
      exact ⟨k, by omega, hg⟩
    · -- the rank stays, and with it the helpful task, which is bound to go on
      by_contra hnever
      have hlevel : ∀ m, n ≤ m → rank (x.state m) = r ∧ helpful (x.state m) = helpful (x.state n) := by
        intro m hm
        induction m, hm using Nat.le_induction with
        | base => exact ⟨hr, rfl⟩
        | succ m hm ihm =>
          obtain ⟨hrank, hhelp⟩ := ihm
          cases he : x.event m with
          | none =>
            rw [state_of_pause he]
            exact ⟨hrank, hhelp⟩
          | some e =>
            rcases hkeep _ _ _ (hI m hm) (step_of_event he) with hlt | ⟨hsame, hhelp'⟩
            · rw [hrank] at hlt
              exact absurd ⟨m + 1, by omega, hlt⟩ hdrop
            · exact ⟨hsame.trans hrank, hhelp'.trans hhelp⟩
      obtain ⟨m, hm, e, hk, he⟩ := hfair (helpful (x.state n)) n fun m hm => by
        rw [← (hlevel m hm).2]
        exact hpossible _ (hI m hm) fun hg => hnever ⟨m, hm, hg⟩
      rw [← (hlevel m hm).2] at hk
      have hlt := hlower _ _ _ (hI m hm) hk (step_of_event he)
      rw [(hlevel m hm).1] at hlt
      exact hdrop ⟨m + 1, by omega, hlt⟩

end Rules

end Execution
end Lib

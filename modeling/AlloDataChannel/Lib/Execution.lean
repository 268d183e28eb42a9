import AlloDataChannel.Lib.Run
import Mathlib.Algebra.Order.Group.Nat

/-!
# Endless executions of a partial step machine

* `Execution` : a step or a pause at every moment, from a start state on;
* `Execution.exec_events` : its first moments are a run;
* `Execution.WeaklyFair` : events of a kind do not stay possible for ever without one of them taking place;
* `Execution.ofExec` : a run, and pauses for ever after it;
* `Execution.eventually_of_rank` : a rank that the fair events lower and the others do not raise leads to the goal.
-/

namespace Lib

section Execution
variable {σ ε : Type*}

/-- A moment of an execution: an event, or a pause. -/
def moment (step : σ → ε → Option σ) (s : σ) : Option ε → Option σ
  | none => some s
  | some e => step s e

structure Execution (step : σ → ε → Option σ) (s₀ : σ) where
  state : ℕ → σ
  event : ℕ → Option ε
  start : state 0 = s₀
  next : ∀ n, moment step (state n) (event n) = some (state (n + 1))

namespace Execution
variable {step : σ → ε → Option σ} {s₀ : σ} (x : Execution step s₀)

/-- The events of the first moments. -/
def events : ℕ → List ε
  | 0 => []
  | n + 1 => events n ++ (x.event n).toList

theorem exec_events (n : ℕ) : exec step s₀ (x.events n) = some (x.state n) := by
  induction n with
  | zero =>
    rw [x.start]
    rfl
  | succ n ih =>
    show exec step s₀ (x.events n ++ (x.event n).toList) = _
    rw [exec_append, ih, Option.bind_some, ← x.next n]
    cases x.event n with
    | none => rfl
    | some e => exact Option.bind_fun_some _

theorem mem_events {e : ε} {n : ℕ} : e ∈ x.events n ↔ ∃ m < n, x.event m = some e := by
  induction n with
  | zero =>
    refine ⟨fun h => absurd h List.not_mem_nil, fun ⟨m, hm, _⟩ => ?_⟩
    omega
  | succ n ih =>
    show e ∈ x.events n ++ (x.event n).toList ↔ _
    rw [List.mem_append, ih, Option.mem_toList]
    refine ⟨fun h => ?_, fun ⟨m, hm, he⟩ => ?_⟩
    · rcases h with ⟨m, hm, he⟩ | he
      · exact ⟨m, by omega, he⟩
      · exact ⟨n, by omega, he⟩
    · rcases Nat.lt_succ_iff_lt_or_eq.mp hm with hm | rfl
      · exact Or.inl ⟨m, hm, he⟩
      · exact Or.inr he

/-- If from some moment on an event of the kind is always possible, one takes place. -/
def WeaklyFair (kind : ε → Prop) : Prop :=
  ∀ n, (∀ m ≥ n, ∃ e, kind e ∧ (step (x.state m) e).isSome) → ∃ m ≥ n, ∃ e, kind e ∧ x.event m = some e

/-! ### From runs -/

/-- The states of a run, the last one for ever. -/
def runState (step : σ → ε → Option σ) : σ → List ε → ℕ → σ
  | s, [], _ => s
  | s, _ :: _, 0 => s
  | s, e :: es, n + 1 => runState step ((step s e).getD s) es n

theorem runState_zero (s : σ) (es : List ε) : runState step s es 0 = s := by
  cases es with
  | nil => rfl
  | cons e es => rfl

theorem moment_runState {s t : σ} {es : List ε} (h : exec step s es = some t) (n : ℕ) :
    moment step (runState step s es n) es[n]? = some (runState step s es (n + 1)) := by
  induction es generalizing s n with
  | nil => rfl
  | cons e es ih =>
    obtain ⟨u, hu, hrest⟩ := Option.bind_eq_some_iff.mp h
    have hnext : (step s e).getD s = u := by rw [hu, Option.getD_some]
    cases n with
    | zero =>
      show step s e = some (runState step ((step s e).getD s) es 0)
      rw [runState_zero, hnext, hu]
    | succ n =>
      show moment step (runState step ((step s e).getD s) es n) es[n]? =
        some (runState step ((step s e).getD s) es (n + 1))
      rw [hnext]
      exact ih hrest n

theorem runState_of_le {s t : σ} {es : List ε} (h : exec step s es = some t) {n : ℕ} (hn : es.length ≤ n) :
    runState step s es n = t := by
  induction es generalizing s n with
  | nil => exact Option.some.inj h
  | cons e es ih =>
    obtain ⟨u, hu, hrest⟩ := Option.bind_eq_some_iff.mp h
    cases n with
    | zero => exact absurd hn (by simp)
    | succ n =>
      show runState step ((step s e).getD s) es n = t
      rw [hu, Option.getD_some]
      exact ih hrest (Nat.le_of_succ_le_succ hn)

/-- A run, and pauses for ever after it. -/
def ofExec {t : σ} {es : List ε} (h : exec step s₀ es = some t) : Execution step s₀ where
  state := runState step s₀ es
  event n := es[n]?
  start := runState_zero s₀ es
  next := moment_runState h

/-- It is fair if no event of the kind is possible at the end of the run. -/
theorem weaklyFair_ofExec {kind : ε → Prop} {t : σ} {es : List ε} (h : exec step s₀ es = some t)
    (hend : ∀ e, kind e → step t e = none) : (ofExec h).WeaklyFair kind := by
  intro n hpossible
  obtain ⟨e, hk, he⟩ := hpossible (n + es.length) (Nat.le_add_right _ _)
  have hstate : (ofExec h).state (n + es.length) = t := runState_of_le h (Nat.le_add_left _ _)
  rw [hstate, hend e hk] at he
  cases he

variable {x}

/-! ### Ranks -/

/-- A rank that no event raises only falls. -/
theorem rank_le {rank : σ → ℕ} {n : ℕ}
    (hmoment : ∀ m ≥ n, ∀ e, x.event m = some e → rank (x.state (m + 1)) ≤ rank (x.state m)) {m : ℕ} (hm : n ≤ m) :
    rank (x.state m) ≤ rank (x.state n) := by
  induction m, hm using Nat.le_induction with
  | base => exact Nat.le_refl _
  | succ m hm ih =>
    refine Nat.le_trans ?_ ih
    cases he : x.event m with
    | none =>
      have hnext := x.next m
      rw [he] at hnext
      exact Nat.le_of_eq (congrArg rank (Option.some.inj hnext).symm)
    | some e => exact hmoment m hm e he

/-- Under the invariant `I` an event of the kind is possible until the goal `G`, and each lowers the rank. -/
theorem eventually_of_rank {kind : ε → Prop} {I G : σ → Prop} {rank : σ → ℕ} (hfair : x.WeaklyFair kind) {n : ℕ}
    (hI : ∀ m ≥ n, I (x.state m)) (hpossible : ∀ s, I s → ¬ G s → ∃ e, kind e ∧ (step s e).isSome)
    (hlower : ∀ s e t, I s → kind e → step s e = some t → rank t < rank s)
    (hkeep : ∀ s e t, I s → ¬ kind e → step s e = some t → rank t ≤ rank s) : ∃ m ≥ n, G (x.state m) := by
  have hstep : ∀ {m e}, x.event m = some e → step (x.state m) e = some (x.state (m + 1)) := by
    intro m e he
    have hnext := x.next m
    rw [he] at hnext
    exact hnext
  have hmoment : ∀ m ≥ n, ∀ e, x.event m = some e → rank (x.state (m + 1)) ≤ rank (x.state m) := by
    intro m hm e he
    by_cases hk : kind e
    · exact Nat.le_of_lt (hlower _ e _ (hI m hm) hk (hstep he))
    · exact hkeep _ e _ (hI m hm) hk (hstep he)
  -- by the rank at the moment from which the goal is sought
  induction hr : rank (x.state n) using Nat.strongRecOn generalizing n with
  | _ r ih =>
    by_contra hnever
    have hnot : ∀ m ≥ n, ¬ G (x.state m) := fun m hm hg => hnever ⟨m, hm, hg⟩
    obtain ⟨m, hm, e, hk, he⟩ := hfair n fun m hm => hpossible _ (hI m hm) (hnot m hm)
    have hlt : rank (x.state (m + 1)) < r := by
      rw [← hr]
      exact Nat.lt_of_lt_of_le (hlower _ e _ (hI m hm) hk (hstep he)) (rank_le hmoment hm)
    obtain ⟨m', hm', hg⟩ := ih _ hlt (fun k hk => hI k (by omega)) (fun k hk => hmoment k (by omega)) rfl
    exact hnever ⟨m', by omega, hg⟩

end Execution
end Execution

end Lib

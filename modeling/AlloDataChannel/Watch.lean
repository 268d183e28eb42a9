import AlloDataChannel.Timeout

/-!
# `waitFor` on a published property

The publisher of a property calls the sink with the value that the property has as the subscription is made, and then
with each value that is assigned. An object and a call of `waitFor` on one of its properties, step by step:

* `Property` : a published property of a machine;
* `Watch`, `Watch.step` : the object and the call; `Watch.see` : what the call sees of a step;
* `History` : what has reached the sink is what the property has held since the subscription;
* `watch_law` : what the end of the call says about the property, and that the call ends.
-/

namespace AlloDataChannel
open Lib (exec Execution moment)

variable {σ κ α : Type} {move : σ → κ → Option σ}

/-- A published property: its value, and the steps that assign it, which may assign what it has; the others leave it as
it is. -/
structure Property {σ κ : Type} (move : σ → κ → Option σ) (α : Type) where
  get : σ → α
  assigns : σ → κ → Bool
  keeps : ∀ s e t, move s e = some t → assigns s e = false → get t = get s

/-- A property of a part of a machine, whose steps the part sees as its own. -/
def Property.through {τ ι : Type} {move' : τ → ι → Option τ} (P : Property move α) (part : τ → σ) (see : τ → ι → Option κ)
    (hsee : ∀ s e t, move' s e = some t → moment move (part s) (see s e) = some (part t)) : Property move' α where
  get s := P.get (part s)
  assigns s e := (see s e).any (P.assigns (part s))
  keeps s e t h hnot := by
    have hpart := hsee s e t h
    cases hs : see s e with
    | none =>
      rw [hs] at hpart
      exact congrArg P.get (Option.some.inj hpart).symm
    | some a =>
      rw [hs] at hpart hnot
      exact P.keeps _ _ _ hpart hnot

/-- An object, and a call of `waitFor` on one of its properties. The publisher neither completes nor fails. -/
structure Watch (σ α : Type) where
  object : σ
  call : WaitFor α Empty := {}

/-- The steps of the call and of its clock. -/
inductive CallEvent
  | addTimer
  | subscribe
  | addConsumer
  | next
  | cancelAll
  | leave
  | timer
  | consumer
  | fire
  deriving DecidableEq, Repr

/-- The subscription gets the current value. -/
def CallEvent.event (current : α) : CallEvent → WaitEvent α Empty
  | .addTimer => .addTimer
  | .subscribe => .subscribe (some current)
  | .addConsumer => .addConsumer
  | .next => .next
  | .cancelAll => .cancelAll
  | .leave => .leave
  | .timer => .timer
  | .consumer => .consumer
  | .fire => .fire

def CallEvent.task : CallEvent → Option WaitTask
  | .addTimer | .subscribe | .addConsumer | .next | .cancelAll | .leave => some .body
  | .timer => some .timer
  | .consumer => some .consumer
  | .fire => none

inductive WatchEvent (κ : Type)
  | object (e : κ)
  | call (c : CallEvent)
  deriving DecidableEq, Repr

/-- The task of the call that takes the step. -/
def WatchEvent.task : WatchEvent κ → Option WaitTask
  | .object _ => none
  | .call c => c.task

namespace Watch

/-- A step of the object, with what its assignment publishes, or a step of the call. -/
def step (P : Property move α) (predicate : α → Bool) (w : Watch σ α) : WatchEvent κ → Option (Watch σ α)
  | .object e =>
    (move w.object e).map fun object =>
      if P.assigns w.object e then
        { object := object, call := (w.call.step predicate (.publish (P.get object))).getD w.call }
      else { w with object := object }
  | .call c => (w.call.step predicate (c.event (P.get w.object))).map fun call => { w with call := call }

/-- What the call sees of a step. -/
def see (P : Property move α) (w : Watch σ α) : WatchEvent κ → Option (WaitEvent α Empty)
  | .object e =>
    if P.assigns w.object e && w.call.sinkAlive then (move w.object e).map fun object => .publish (P.get object)
    else none
  | .call c => some (c.event (P.get w.object))

end Watch

/-! ## What the call sees -/

section See
variable {P : Property move α} {predicate : α → Bool} {w w' : Watch σ α} {e : WatchEvent κ}

theorem CallEvent.owns_iff {c : CallEvent} {v : α} {task : WaitTask} : task.Owns (c.event v) ↔ c.task = some task := by
  cases c <;> cases task <;> simp [CallEvent.event, CallEvent.task, WaitTask.Owns]

theorem CallEvent.internal_iff {c : CallEvent} {v : α} : WaitFor.Internal (c.event v) ↔ c.task.isSome := by
  cases c <;> simp [CallEvent.event, CallEvent.task, WaitFor.Internal]

/-- A step of a task that the call can take is one of the call's events, whatever value the property has. -/
theorem CallEvent.exists_of_owns {s : WaitFor α Empty} {a : WaitEvent α Empty} {task : WaitTask} (howns : task.Owns a)
    (h : (s.step predicate a).isSome) (v : α) :
    ∃ c : CallEvent, c.task = some task ∧ (s.step predicate (c.event v)).isSome := by
  cases a with
  | addTimer => exact ⟨.addTimer, (owns_iff (v := v)).mp howns, h⟩
  | subscribe current =>
    refine ⟨.subscribe, (owns_iff (v := v)).mp (by cases task <;> exact howns), ?_⟩
    simp only [WaitFor.step] at h
    split at h
    · next hbody => simp [WaitFor.step, event, hbody]
    · cases h
  | addConsumer => exact ⟨.addConsumer, (owns_iff (v := v)).mp howns, h⟩
  | next => exact ⟨.next, (owns_iff (v := v)).mp howns, h⟩
  | cancelAll => exact ⟨.cancelAll, (owns_iff (v := v)).mp howns, h⟩
  | leave => exact ⟨.leave, (owns_iff (v := v)).mp howns, h⟩
  | timer => exact ⟨.timer, (owns_iff (v := v)).mp howns, h⟩
  | consumer => exact ⟨.consumer, (owns_iff (v := v)).mp howns, h⟩
  | publish u => cases task <;> exact howns.elim
  | complete => cases task <;> exact howns.elim
  | fail error => cases task <;> exact howns.elim
  | fire => cases task <;> exact howns.elim

namespace Watch

theorem call_cases {c : CallEvent} (h : w.step P predicate (.call c) = some w') :
    w'.object = w.object ∧ w.call.step predicate (c.event (P.get w.object)) = some w'.call := by
  obtain ⟨call, hcall, rfl⟩ := Option.map_eq_some_iff.mp h
  exact ⟨rfl, hcall⟩

/-- A step of the object: a value is assigned and reaches the sink, or the call does not see the step. -/
theorem object_cases {e : κ} (h : w.step P predicate (.object e) = some w') :
    move w.object e = some w'.object ∧
      (P.assigns w.object e = true ∧ w.call.sinkAlive = true ∧
          w.call.step predicate (.publish (P.get w'.object)) = some w'.call ∨
        (P.assigns w.object e = false ∨ w.call.sinkAlive = false) ∧ w'.call = w.call) := by
  obtain ⟨object, hobject, rfl⟩ := Option.map_eq_some_iff.mp h
  cases ha : P.assigns w.object e with
  | false => exact ⟨hobject, Or.inr ⟨Or.inl rfl, rfl⟩⟩
  | true =>
    refine ⟨hobject, ?_⟩
    cases hs : w.call.sinkAlive with
    | false =>
      refine Or.inr ⟨Or.inr rfl, ?_⟩
      show ((w.call.step predicate (.publish (P.get object))).getD w.call) = w.call
      simp [WaitFor.step, hs]
    | true =>
      refine Or.inl ⟨rfl, rfl, ?_⟩
      show w.call.step predicate (.publish (P.get object)) =
        some ((w.call.step predicate (.publish (P.get object))).getD w.call)
      simp [WaitFor.step, hs]

theorem see_object {e : κ} (h : w.step P predicate (.object e) = some w') :
    see P w (.object e) = some (.publish (P.get w'.object)) ∧
        w.call.step predicate (.publish (P.get w'.object)) = some w'.call ∨
      see P w (.object e) = none ∧ w'.call = w.call := by
  obtain ⟨hobject, ⟨ha, hs, hcall⟩ | ⟨hquiet, hcall⟩⟩ := object_cases h
  · refine Or.inl ⟨?_, hcall⟩
    simp [see, ha, hs, hobject]
  · refine Or.inr ⟨?_, hcall⟩
    rcases hquiet with hq | hq
    · simp [see, hq]
    · simp [see, hq]

/-- The call goes on as what it sees. -/
theorem step_see (w : Watch σ α) (e : WatchEvent κ) (w' : Watch σ α) (h : w.step P predicate e = some w') :
    moment (WaitFor.step predicate) w.call (see P w e) = some w'.call := by
  cases e with
  | call c => exact (call_cases h).2
  | object e =>
    rcases see_object h with ⟨hsee, hcall⟩ | ⟨hsee, hcall⟩
    · rw [hsee]
      exact hcall
    · rw [hsee, hcall]
      rfl

end Watch
end See

/-! ## The history of the sink -/

/-- The call has subscribed. -/
def WaitFor.Subscribed {ε : Type} (s : WaitFor α ε) : Prop := s.body ≠ .start ∧ s.body ≠ .timerAdded

section History
variable {P : Property move α} {predicate : α → Bool} {s₀ : σ} {es : List (WatchEvent κ)} {e : WatchEvent κ}
  {w w' : Watch σ α} {fs : List (WaitEvent α Empty)}

/-- The property has had the value at a moment of the run since the subscription. -/
def Held (P : Property move α) (predicate : α → Bool) (s₀ : σ) (es : List (WatchEvent κ)) (v : α) : Prop :=
  ∃ ds gs u, es = ds ++ gs ∧ exec (Watch.step P predicate) { object := s₀ } ds = some u ∧ u.call.Subscribed ∧
    P.get u.object = v

theorem Held.concat {v : α} (h : Held P predicate s₀ es v) (e : WatchEvent κ) : Held P predicate s₀ (es ++ [e]) v := by
  obtain ⟨ds, gs, u, rfl, hu, hsub, hv⟩ := h
  exact ⟨ds, gs ++ [e], u, List.append_assoc .., hu, hsub, hv⟩

theorem Held.now (h : exec (Watch.step P predicate) { object := s₀ } es = some w) (hsub : w.call.Subscribed) :
    Held P predicate s₀ es (P.get w.object) := ⟨es, [], w, (List.append_nil _).symm, h, hsub, rfl⟩

/-- After the run `es` the call has gone on as `fs`. -/
structure History (P : Property move α) (predicate : α → Bool) (s₀ : σ) (es : List (WatchEvent κ)) (w : Watch σ α)
    (fs : List (WaitEvent α Empty)) : Prop where
  inv : WaitFor.Inv predicate fs w.call
  held : ∀ v ∈ delivered fs, Held P predicate s₀ es v
  /-- A sink that is still called has got the value that the property has. -/
  current : w.call.sinkAlive = true → P.get w.object ∈ delivered fs
  fire : .fire ∈ fs → .call .fire ∈ es
  complete : .complete ∉ fs

theorem history_start : History P predicate s₀ [] { object := s₀ } [] where
  inv := WaitFor.inv_start
  held _ hv := absurd hv List.not_mem_nil
  current h := absurd h Bool.false_ne_true
  fire h := absurd h List.not_mem_nil
  complete := List.not_mem_nil

namespace WaitFor
variable {ε : Type} {s t : WaitFor α ε} {a : WaitEvent α ε}

theorem subscribed_of_delivers {v : α} (h : Stepped predicate s a t) (hv : v ∈ a.delivers) : t.Subscribed := by
  cases h with
  | subscribe current hbody => exact ⟨by simp, by simp⟩
  | publish u halive =>
    obtain ⟨hstart, hadded, -⟩ := sinkAlive_iff.mp halive
    exact ⟨hstart, hadded⟩
  | _ => exact absurd hv List.not_mem_nil

theorem Promising.keep (hp : Promising predicate s) (h : Stepped predicate s a t) (hne : a ≠ .fire) :
    Promising predicate t := by
  obtain ⟨es, hi, ⟨v, hv, hpv⟩, hfire⟩ := hp.history
  refine ⟨es ++ [a], hi.step h, ⟨v, ?_, hpv⟩, fun hmem => ?_⟩
  · rw [delivered_concat]
    exact List.mem_append_left _ hv
  · rcases List.mem_append.mp hmem with hmem | hmem
    · exact hfire hmem
    · exact hne (List.mem_singleton.mp hmem).symm

/-- The sink is called from the subscription on. -/
theorem sinkAlive_of_step (hc : Control s) (h : Stepped predicate s a t) (halive : t.sinkAlive = true) :
    s.sinkAlive = true ∨ ∃ current, a = .subscribe current := by
  obtain ⟨hstart, hadded, hopen⟩ := sinkAlive_iff.mp halive
  by_cases hended : s.stream.ended = none
  · cases h with
    | addTimer hbody => exact absurd rfl hadded
    | subscribe current hbody => exact Or.inr ⟨current, rfl⟩
    | addConsumer hbody => exact Or.inl (sinkAlive_iff.mpr ⟨by simp [hbody], by simp [hbody], hended⟩)
    | next result rest hbody hresults => exact Or.inl (sinkAlive_iff.mpr ⟨by simp [hbody], by simp [hbody], hended⟩)
    | cancelAll result hbody => exact Or.inl (sinkAlive_iff.mpr ⟨by simp [hbody], by simp [hbody], hended⟩)
    | leave result hbody htimer hconsumer =>
      exact Or.inl (sinkAlive_iff.mpr ⟨by simp [hbody], by simp [hbody], hended⟩)
    | _ => exact Or.inl (sinkAlive_iff.mpr ⟨hstart, hadded, hended⟩)
  · rw [hc.ended_keep h hended] at hopen
    exact absurd hopen hended

end WaitFor

/-- What a step delivers is the value that the property has after it. -/
theorem delivers_of_see {a : WaitEvent α Empty} (h : w.step P predicate e = some w') (ha : Watch.see P w e = some a)
    {v : α} (hv : v ∈ a.delivers) : w'.call.Subscribed ∧ P.get w'.object = v := by
  have hmoment := Watch.step_see w e w' h
  rw [ha] at hmoment
  refine ⟨WaitFor.subscribed_of_delivers (WaitFor.stepped_of_step hmoment) hv, ?_⟩
  cases e with
  | object e =>
    rcases Watch.see_object h with ⟨hsee, -⟩ | ⟨hsee, -⟩
    · rw [hsee, Option.some.injEq] at ha
      subst ha
      exact (List.mem_singleton.mp hv).symm
    · rw [hsee] at ha
      cases ha
  | call c =>
    rw [(Watch.call_cases h).1]
    cases ha
    cases c with
    | subscribe => exact (List.mem_singleton.mp hv).symm
    | _ => exact absurd hv List.not_mem_nil

/-- A sink that is called after a step has got the value that the property has then. -/
theorem current_step (hc : WaitFor.Control w.call) (h : w.step P predicate e = some w')
    (halive : w'.call.sinkAlive = true) :
    P.get w'.object ∈ delivered (Watch.see P w e).toList ∨
      w.call.sinkAlive = true ∧ P.get w'.object = P.get w.object := by
  cases e with
  | object e =>
    obtain ⟨hmove, hcases⟩ := Watch.object_cases h
    rcases hcases with ⟨ha, hs, -⟩ | ⟨hquiet, hcall⟩
    · refine Or.inl ?_
      simp [Watch.see, ha, hs, hmove, delivered, WaitEvent.delivers]
    · rw [hcall] at halive
      have ha : P.assigns w.object e = false := hquiet.resolve_right (by simp [halive])
      exact Or.inr ⟨halive, P.keeps _ _ _ hmove ha⟩
  | call c =>
    obtain ⟨hobject, hcall⟩ := Watch.call_cases h
    rw [hobject]
    rcases WaitFor.sinkAlive_of_step hc (WaitFor.stepped_of_step hcall) halive with hs | ⟨current, hcurrent⟩
    · exact Or.inr ⟨hs, rfl⟩
    · refine Or.inl ?_
      cases c with
      | subscribe => exact List.mem_singleton.mpr rfl
      | _ => cases hcurrent

theorem event_of_fire (h : Watch.see P w e = some .fire) : e = .call .fire := by
  cases e with
  | object e =>
    obtain ⟨-, h⟩ := Option.ite_none_right_eq_some.mp h
    obtain ⟨object, -, hobject⟩ := Option.map_eq_some_iff.mp h
    cases hobject
  | call c =>
    cases c with
    | fire => rfl
    | _ => cases h

/-- The publisher of a property does not complete. -/
theorem see_ne_complete : Watch.see P w e ≠ some .complete := by
  intro h
  cases e with
  | object e =>
    obtain ⟨-, h⟩ := Option.ite_none_right_eq_some.mp h
    obtain ⟨object, -, hobject⟩ := Option.map_eq_some_iff.mp h
    cases hobject
  | call c =>
    cases c with
    | _ => cases h

theorem History.step (hh : History P predicate s₀ es w fs)
    (hrun : exec (Watch.step P predicate) { object := s₀ } (es ++ [e]) = some w') (h : w.step P predicate e = some w') :
    ∃ gs, History P predicate s₀ (es ++ [e]) w' gs := by
  have hmoment := Watch.step_see w e w' h
  have hcurrent : w'.call.sinkAlive = true → P.get w'.object ∈ delivered (fs ++ (Watch.see P w e).toList) := by
    intro halive
    rw [delivered, List.flatMap_append]
    rcases current_step hh.inv.control h halive with hnew | ⟨hs, hsame⟩
    · exact List.mem_append_right _ hnew
    · rw [hsame]
      exact List.mem_append_left _ (hh.current hs)
  cases ha : Watch.see P w e with
  | none =>
    rw [ha] at hmoment hcurrent
    have hcall : w.call = w'.call := Option.some.inj hmoment
    simp only [Option.toList_none, List.append_nil] at hcurrent
    refine ⟨fs, ?_, fun v hv => (hh.held v hv).concat e, hcurrent, fun hf => ?_, hh.complete⟩
    · rw [← hcall]
      exact hh.inv
    · exact List.mem_append_left _ (hh.fire hf)
  | some a =>
    rw [ha] at hmoment hcurrent
    refine ⟨fs ++ [a], hh.inv.step (WaitFor.stepped_of_step hmoment), fun v hv => ?_, hcurrent, fun hf => ?_,
      fun hc => ?_⟩
    · rw [delivered_concat] at hv
      rcases List.mem_append.mp hv with hv | hv
      · exact (hh.held v hv).concat e
      · obtain ⟨hsub, rfl⟩ := delivers_of_see h ha hv
        exact .now hrun hsub
    · rcases List.mem_append.mp hf with hf | hf
      · exact List.mem_append_left _ (hh.fire hf)
      · rw [List.mem_singleton] at hf
        subst hf
        exact List.mem_append_right _ (List.mem_singleton.mpr (event_of_fire ha).symm)
    · rcases List.mem_append.mp hc with hc | hc
      · exact hh.complete hc
      · rw [List.mem_singleton] at hc
        subst hc
        exact see_ne_complete ha

theorem history_run (h : exec (Watch.step P predicate) { object := s₀ } es = some w) :
    ∃ fs, History P predicate s₀ es w fs := by
  induction es using List.reverseRecOn generalizing w with
  | nil =>
    cases h
    exact ⟨[], history_start⟩
  | append_singleton es e ih =>
    have hrun := h
    rw [Lib.exec_append] at h
    obtain ⟨u, hu, h⟩ := Option.bind_eq_some_iff.mp h
    rw [Lib.exec_cons] at h
    obtain ⟨t, ht, h⟩ := Option.bind_eq_some_iff.mp h
    cases h
    obtain ⟨fs, hfs⟩ := ih hu
    exact hfs.step hrun ht

/-- A value that is waited for has reached the sink, or a value before it has: a subscription ends only as the call does,
which without a completion and without the timer is for such a value. -/
theorem History.delivered_of_held (hh : History P predicate s₀ es w fs) (hsub : w.call.Subscribed)
    (hp : predicate (P.get w.object) = true) (hfire : .call .fire ∉ es) :
    (∃ v ∈ delivered fs, predicate v = true) ∧ .fire ∉ fs := by
  refine ⟨?_, fun hf => hfire (hh.fire hf)⟩
  by_cases hopen : w.call.stream.ended = none
  · exact ⟨_, hh.current (WaitFor.sinkAlive_iff.mpr ⟨hsub.1, hsub.2, hopen⟩), hp⟩
  · obtain ⟨x, hx⟩ := Option.ne_none_iff_exists'.mp hopen
    match x, hh.inv.ended x hx with
    | .finished, hcomplete => exact absurd hcomplete hh.complete
    | .terminated, hcancelled =>
      obtain ⟨result, hbody⟩ := hh.inv.control.cancelled.mp hcancelled
      have hresult : w.call.body.result = some result := by
        rcases hbody with hbody | hbody
        · rw [hbody]
          rfl
        · rw [hbody]
          rfl
      match result, hh.inv.result result hresult with
      | .returned, hv => exact hv
      | .threw .timedOut, hf => exact absurd (hh.fire hf) hfire
      | .threw .wrongValue, ⟨hended, _⟩ =>
        rw [hx] at hended
        cases hended

end History

/-! ## The law -/

section Law
variable (P : Property move α) (predicate : α → Bool) (s₀ : σ)

/-- What the end of a call says about the property, and that the call ends: if its tasks go on as long as they can, with
a value that is waited for, however short the property has it; if each of them does, with the timer too. -/
structure WatchLaw : Prop where
  returned : ∀ es w, exec (Watch.step P predicate) { object := s₀ } es = some w →
    w.call.body.result = some .returned → ∃ v, Held P predicate s₀ es v ∧ predicate v = true
  results : ∀ es w result, exec (Watch.step P predicate) { object := s₀ } es = some w →
    w.call.body.result = some result → result = .returned ∨ result = .threw .timedOut ∧ .call .fire ∈ es
  returns : ∀ x : Execution (Watch.step P predicate) { object := s₀ }, x.WeaklyFair (fun e => e.task.isSome) →
    (∀ n, x.event n ≠ some (.call .fire)) →
    (∃ n, (x.state n).call.Subscribed ∧ predicate (P.get (x.state n).object) = true) →
    ∃ n, ∀ m ≥ n, WaitFor.Over (x.state m).call .returned
  ends : ∀ x : Execution (Watch.step P predicate) { object := s₀ },
    (∀ task, x.WeaklyFair fun e => e.task = some task) → (∃ n, x.event n = some (.call .fire)) →
    ∃ n result, (∀ m ≥ n, WaitFor.Over (x.state m).call result) ∧ (result = .returned ∨ result = .threw .timedOut)

variable {P predicate s₀}

/-- An execution as the call sees it. -/
def Watch.execution (x : Execution (Watch.step P predicate) { object := s₀ }) :
    Execution (WaitFor.step (ε := Empty) predicate) {} := x.map (f := Watch.call) Watch.step_see

theorem exists_of_internal {s : WaitFor α Empty} {a : WaitEvent α Empty} (h : WaitFor.Internal a)
    (hs : (s.step predicate a).isSome) (v : α) :
    ∃ c : CallEvent, c.task.isSome ∧ (s.step predicate (c.event v)).isSome := by
  obtain ⟨task, howns⟩ : ∃ task : WaitTask, task.Owns a := by
    cases a with
    | timer => exact ⟨.timer, trivial⟩
    | consumer => exact ⟨.consumer, trivial⟩
    | publish u => exact h.elim
    | complete => exact h.elim
    | fail error => exact h.elim
    | fire => exact h.elim
    | _ => exact ⟨.body, trivial⟩
  obtain ⟨c, hc, hcs⟩ := CallEvent.exists_of_owns howns hs v
  exact ⟨c, by simp [hc], hcs⟩

variable {x : Execution (Watch.step P predicate) { object := s₀ }}

theorem fair_internal (hfair : x.WeaklyFair fun e => e.task.isSome) :
    (Watch.execution x).WeaklyFair WaitFor.Internal := by
  refine hfair.map Watch.step_see (fun w a ha hs => ?_) fun w e he => ?_
  · obtain ⟨c, hc, hcs⟩ := exists_of_internal ha hs (P.get w.object)
    exact ⟨.call c, hc, by rwa [Watch.step, Option.isSome_map]⟩
  · cases e with
    | object e => cases he
    | call c => exact ⟨_, CallEvent.internal_iff.mpr he, rfl⟩

theorem fair_task {task : WaitTask} (hfair : x.WeaklyFair fun e => e.task = some task) :
    (Watch.execution x).WeaklyFair task.Owns := by
  refine hfair.map Watch.step_see (fun w a ha hs => ?_) fun w e he => ?_
  · obtain ⟨c, hc, hcs⟩ := CallEvent.exists_of_owns ha hs (P.get w.object)
    exact ⟨.call c, hc, by rwa [Watch.step, Option.isSome_map]⟩
  · cases e with
    | object e => cases he
    | call c => exact ⟨_, CallEvent.owns_iff.mpr he, rfl⟩

/-- A value that the property has after the subscription is waited for. -/
theorem returns_of_held (hfair : x.WeaklyFair fun e => e.task.isSome) (hfire : ∀ n, x.event n ≠ some (.call .fire))
    {n : ℕ} (hsub : (x.state n).call.Subscribed) (hp : predicate (P.get (x.state n).object) = true) :
    ∃ n, ∀ m ≥ n, WaitFor.Over (x.state m).call .returned := by
  have hnofire : ∀ n, (Watch.execution x).event n ≠ some .fire := by
    intro n hn
    obtain ⟨e, he, hsee⟩ := Option.bind_eq_some_iff.mp hn
    rw [event_of_fire hsee] at he
    exact hfire n he
  have hnow : WaitFor.Promising predicate ((Watch.execution x).state n) := by
    obtain ⟨fs, hfs⟩ := history_run (x.exec_events n)
    obtain ⟨hdelivered, hf⟩ := hfs.delivered_of_held hsub hp fun hmem => by
      obtain ⟨k, -, hk⟩ := x.mem_events.mp hmem
      exact hfire k hk
    exact ⟨fs, hfs.inv, hdelivered, hf⟩
  have hpromising : ∀ m ≥ n, WaitFor.Promising predicate ((Watch.execution x).state m) := fun m hm =>
    Execution.holds_from (fun k _ a ha hk => hk.keep (WaitFor.stepped_of_step (Execution.step_of_event ha))
      fun hne => hnofire k (by rw [ha, hne])) hnow hm
  obtain ⟨m, -, hm⟩ := Execution.eventually_of_rank (G := fun s => s.body = .left .returned) (fair_internal hfair)
    hpromising (fun _ hs hnot => hs.exists_step hnot)
    (fun _ _ _ hs hinternal h => hs.rank_lower (WaitFor.stepped_of_step h) hinternal)
    (fun _ _ _ hs hexternal h => hs.rank_keep (WaitFor.stepped_of_step h) hexternal)
  exact ⟨m, WaitFor.over_of_execution hm⟩

theorem results_of_exec {es : List (WatchEvent κ)} {w : Watch σ α} {result : TaskResult Empty}
    (h : exec (Watch.step P predicate) { object := s₀ } es = some w) (hresult : w.call.body.result = some result) :
    result = .returned ∨ result = .threw .timedOut ∧ .call .fire ∈ es := by
  obtain ⟨fs, hfs⟩ := history_run h
  match result, hfs.inv.result result hresult with
  | .returned, _ => exact Or.inl rfl
  | .threw .timedOut, hf => exact Or.inr ⟨rfl, hfs.fire hf⟩
  | .threw .wrongValue, ⟨hended, _⟩ => exact absurd (hfs.inv.ended _ hended) hfs.complete

/-- **Waiting for a published property.** -/
theorem watch_law (P : Property move α) (predicate : α → Bool) (s₀ : σ) : WatchLaw P predicate s₀ where
  returned es w h hresult := by
    obtain ⟨fs, hfs⟩ := history_run h
    obtain ⟨v, hv, hp⟩ := hfs.inv.result _ hresult
    exact ⟨v, hfs.held v hv, hp⟩
  results es w result h hresult := results_of_exec h hresult
  returns x hfair hfire hheld := by
    obtain ⟨n, hsub, hp⟩ := hheld
    exact returns_of_held hfair hfire hsub hp
  ends x hfair hfire := by
    obtain ⟨n, hn⟩ := hfire
    have hseen : (Watch.execution x).event n = some .fire := by
      show (x.event n).bind _ = some WaitEvent.fire
      rw [hn]
      rfl
    obtain ⟨m, result, hm⟩ := WaitFor.eventually_left (fun task => fair_task (hfair task)) ⟨n, hseen⟩
    refine ⟨m, result, WaitFor.over_of_execution hm, ?_⟩
    have hleft : (x.state m).call.body = .left result := hm
    exact (results_of_exec (x.exec_events m) (by rw [hleft]; rfl)).imp_right And.left

end Law

end AlloDataChannel

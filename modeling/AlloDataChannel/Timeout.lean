import AlloDataChannel.Lib.Fairness
import AlloDataChannel.WaitForLaw
import Mathlib.Data.Prod.Lex

/-!
# The timer ends a call of `waitFor`

Once the timer fires, the call is over after finitely many steps, however many values the publisher goes on to deliver,
if its three tasks each go on as long as they can.

* `WaitTask` : the tasks; `WaitTask.Owns` : their steps;
* `Fired` : what holds from the firing on;
* `helpful` : the task that the end of the call waits for; `distance` : how far it is;
* `waitFor_timeout` : the law.
-/

namespace AlloDataChannel
open Lib (exec Execution)

/-- The body of the task group and its two children. -/
inductive WaitTask
  | body
  | timer
  | consumer
  deriving DecidableEq, Repr

/-- The steps of a task. -/
def WaitTask.Owns {α ε : Type} : WaitTask → WaitEvent α ε → Prop
  | .body, .addTimer | .body, .subscribe _ | .body, .addConsumer | .body, .next | .body, .cancelAll | .body, .leave =>
    True
  | .timer, .timer => True
  | .consumer, .consumer => True
  | _, _ => False

namespace WaitFor
variable {α ε : Type} {predicate : α → Bool} {e : WaitEvent α ε} {s t : WaitFor α ε}

/-! ## From the firing on -/

/-- The time of the timer is over, and the timer has left a result or is still to leave one. -/
structure Fired (s : WaitFor α ε) : Prop where
  control : Control s
  slept : s.slept = true
  started : s.timer ≠ .absent
  results : s.timer = .finished → s.results ≠ []

theorem Fired.of_fire (hc : Control s) (h : Stepped predicate s .fire t) : Fired t := by
  have hct := hc.step h
  cases h with
  | fire htimer =>
    refine ⟨hct, rfl, ?_, fun hfinished => ?_⟩
    · show s.timer ≠ .absent
      rw [htimer]
      exact Child.noConfusion
    · have hf : s.timer = .finished := hfinished
      rw [htimer] at hf
      cases hf

theorem Fired.keep (hf : Fired s) (h : Stepped predicate s e t) : Fired t := by
  have hct := hf.control.step h
  obtain ⟨hc, hslept, hstarted, hresults⟩ := hf
  cases h with
  | addTimer hbody => exact absurd (hc.timer.mpr hbody) hstarted
  | timedOut htimer hs => exact ⟨hct, hslept, Child.noConfusion, fun _ => by simp [finishTimer]⟩
  | cancelled htimer hs => exact ⟨hct, hslept, Child.noConfusion, fun _ => by simp [finishTimer]⟩
  | found v stream hconsumer helement hv => exact ⟨hct, hslept, hstarted, fun _ => by simp [finishConsumer]⟩
  | finished stream hconsumer helement => exact ⟨hct, hslept, hstarted, fun _ => by simp [finishConsumer]⟩
  | failed error stream hconsumer helement => exact ⟨hct, hslept, hstarted, fun _ => by simp [finishConsumer]⟩
  | fire htimer => exact ⟨hct, rfl, hstarted, hresults⟩
  | _ => exact ⟨hct, hslept, hstarted, hresults⟩

/-! ## The helpful task -/

/-- The task that the end of the call waits for. -/
def helpful (s : WaitFor α ε) : WaitTask :=
  match s.body, s.timer, s.consumer with
  | .waiting, .running, _ => .timer
  | .leaving _, .running, _ => .timer
  | .leaving _, .finished, .running => .consumer
  | _, _, _ => .body

def childRank : Child → ℕ
  | .finished => 0
  | _ => 1

/-- Whether the stream has still to end. -/
def openRank (stream : AsyncStream α ε) : ℕ :=
  match stream.ended with
  | none => 1
  | some _ => 0

/-- Places that the body has still to pass, children that run, and the end of the stream. -/
def stage (s : WaitFor α ε) : ℕ := bodyRank s.body + timerRank s.timer + childRank s.consumer + openRank s.stream

/-- What the consumer can still read once the stream has ended. -/
def unread (stream : AsyncStream α ε) : ℕ :=
  match stream.ended with
  | none => 0
  | some _ => stream.buffer.length

def distance (s : WaitFor α ε) : ℕ ×ₗ ℕ := toLex (s.stage, unread s.stream)

theorem distance_lt_of_stage (h : t.stage < s.stage) : t.distance < s.distance :=
  Prod.Lex.toLex_lt_toLex.mpr (Or.inl h)

theorem distance_lt_of_unread (hstage : t.stage = s.stage) (hunread : unread t.stream < unread s.stream) :
    t.distance < s.distance :=
  Prod.Lex.toLex_lt_toLex.mpr (Or.inr ⟨hstage, hunread⟩)

/-- Until the call is over the helpful task can go on. -/
theorem Fired.exists_step (hf : Fired s) (hnot : ¬ ∃ result, s.body = .left result) :
    ∃ e, (helpful s).Owns e ∧ (step predicate s e).isSome := by
  obtain ⟨hc, hslept, hstarted, hresults⟩ := hf
  have htimer : s.timer = .running ∨ s.timer = .finished := by
    cases hchild : s.timer with
    | absent => exact absurd hchild hstarted
    | running => exact Or.inl rfl
    | finished => exact Or.inr rfl
  have hwake : s.wake.isSome := by simp [wake, hslept]
  cases hbody : s.body with
  | start => exact absurd (hc.timer.mpr hbody) hstarted
  | timerAdded => exact ⟨.subscribe none, by simp [helpful, hbody, WaitTask.Owns], by simp [step, hbody]⟩
  | subscribed => exact ⟨.addConsumer, by simp [helpful, hbody, WaitTask.Owns], by simp [step, hbody]⟩
  | waiting =>
    rcases htimer with htimer | htimer
    · refine ⟨.timer, by simp [helpful, hbody, htimer, WaitTask.Owns], ?_⟩
      simp only [step, htimer]
      exact hwake
    · obtain ⟨result, rest, hrest⟩ := List.exists_cons_of_ne_nil (hresults htimer)
      exact ⟨.next, by simp [helpful, hbody, htimer, WaitTask.Owns], by simp [step, hbody, hrest]⟩
  | resumed result => exact ⟨.cancelAll, by simp [helpful, hbody, WaitTask.Owns], by simp [step, hbody]⟩
  | leaving result =>
    have hcancelled : s.cancelled = true := hc.cancelled.mpr ⟨result, Or.inl hbody⟩
    rcases htimer with htimer | htimer
    · refine ⟨.timer, by simp [helpful, hbody, htimer, WaitTask.Owns], ?_⟩
      simp only [step, htimer]
      exact hwake
    · cases hchild : s.consumer with
      | absent => simp [hc.consumer, hbody] at hchild
      | running =>
        refine ⟨.consumer, by simp [helpful, hbody, htimer, hchild, WaitTask.Owns], ?_⟩
        simp only [step, hchild]
        exact consume_isSome (element_isSome (Or.inr hcancelled))
      | finished =>
        refine ⟨.leave, by simp [helpful, hbody, htimer, hchild, WaitTask.Owns], ?_⟩
        simp [step, hbody, htimer, hchild]
  | left result => exact absurd ⟨result, hbody⟩ hnot

theorem openRank_of_open {stream : AsyncStream α ε} (h : stream.ended = none) : openRank stream = 1 := by
  simp [openRank, h]

theorem openRank_of_ended {stream : AsyncStream α ε} (h : stream.ended ≠ none) : openRank stream = 0 := by
  obtain ⟨x, hx⟩ := Option.ne_none_iff_exists'.mp h
  simp [openRank, hx]

theorem unread_of_open {stream : AsyncStream α ε} (h : stream.ended = none) : unread stream = 0 := by
  simp [unread, h]

theorem unread_of_ended {stream : AsyncStream α ε} (h : stream.ended ≠ none) :
    unread stream = stream.buffer.length := by
  obtain ⟨x, hx⟩ := Option.ne_none_iff_exists'.mp h
  simp [unread, hx]

theorem distance_body {place : Body ε} (h : bodyRank place < bodyRank s.body) :
    distance { s with body := place } < s.distance := by
  apply distance_lt_of_stage
  show bodyRank place + timerRank s.timer + childRank s.consumer + openRank s.stream < s.stage
  unfold stage
  omega

theorem distance_finishTimer (htimer : s.timer = .running) (result : TaskResult ε) :
    (s.finishTimer result).distance < s.distance := by
  apply distance_lt_of_stage
  show bodyRank s.body + 0 + childRank s.consumer + openRank s.stream < s.stage
  simp only [stage, htimer, timerRank]
  omega

/-- What the consumer reads is the stream, or the stream that it ends. -/
theorem openRank_element {x : StreamElement α ε} {stream : AsyncStream α ε} (h : s.element = some (x, stream)) :
    openRank stream ≤ openRank s.stream := by
  rcases element_ended h with hkeep | ⟨hopen, hended, -⟩
  · simp [openRank, hkeep]
  · simp [openRank, hopen, hended]

theorem distance_finishConsumer {x : StreamElement α ε} {stream : AsyncStream α ε} (hconsumer : s.consumer = .running)
    (helement : s.element = some (x, stream)) (result : TaskResult ε) :
    (s.finishConsumer stream result).distance < s.distance := by
  apply distance_lt_of_stage
  have hopen := openRank_element helement
  show bodyRank s.body + timerRank s.timer + 0 + openRank stream < s.stage
  simp only [stage, hconsumer, childRank]
  omega

/-- Reading a value lowers the distance, unless the stream goes on in a group that is not cancelled. -/
theorem distance_skip {v : α} {stream : AsyncStream α ε} (helement : s.element = some (.value v, stream)) :
    distance { s with stream := stream } < s.distance ∨
      distance { s with stream := stream } = s.distance ∧ s.cancelled = false := by
  by_cases hs : s.stream.ended = none
  · rcases element_ended helement with hkeep | ⟨-, hended, -⟩
    · have hopen : stream.ended = none := hkeep.trans hs
      refine Or.inr ⟨?_, ?_⟩
      · simp [distance, stage, openRank_of_open hs, openRank_of_open hopen, unread_of_open hs, unread_of_open hopen]
      · -- a cancelled task would have ended the stream
        rw [Bool.eq_false_iff]
        intro hcancelled
        rw [element_of_cancelled hcancelled, AsyncStream.finish_of_open hs] at helement
        have hended := AsyncStream.next_ended helement
        rw [hopen] at hended
        cases hended
    · refine Or.inl (distance_lt_of_stage ?_)
      simp [stage, openRank, hended, hs]
  · have hkeep : stream.ended = s.stream.ended := (element_ended helement).resolve_right fun h => hs h.1
    have hended : stream.ended ≠ none := by rwa [hkeep]
    refine Or.inl (distance_lt_of_unread ?_ ?_)
    · simp [stage, openRank_of_ended hs, openRank_of_ended hended]
    · show unread stream < unread s.stream
      rw [unread_of_ended hs, unread_of_ended hended, element_value helement]
      exact Nat.lt_succ_self _

/-- A step brings the end nearer, or it is none of the tasks' or a round of a consumer that nobody waits for. -/
theorem distance_step (hc : Control s) (h : Stepped predicate s e t) : t.distance < s.distance ∨
    (t.distance = s.distance ∧ t.helpful = s.helpful) ∧
      ((∀ task : WaitTask, ¬ task.Owns e) ∨ e = .consumer ∧ s.cancelled = false) := by
  cases h with
  | addTimer hbody =>
    refine Or.inl (distance_lt_of_stage ?_)
    simp [stage, hbody, hc.timer.mpr hbody, bodyRank, timerRank]
  | subscribe current hbody =>
    refine Or.inl (distance_lt_of_stage ?_)
    simp [stage, openRank, hbody, hc.unsubscribed (Or.inr hbody), bodyRank]
  | addConsumer hbody =>
    refine Or.inl (distance_lt_of_stage ?_)
    simp [stage, hbody, hc.consumer.mpr (Or.inr (Or.inr hbody)), bodyRank, childRank]
  | next result rest hbody hresults => exact Or.inl (distance_body (by simp [hbody, bodyRank]))
  | cancelAll result hbody =>
    have hlt : distance { s with body := .leaving result } < s.distance := distance_body (by simp [hbody, bodyRank])
    exact Or.inl hlt
  | leave result hbody htimer hconsumer => exact Or.inl (distance_body (by simp [hbody, bodyRank]))
  | timedOut htimer hslept => exact Or.inl (distance_finishTimer htimer _)
  | cancelled htimer hcancelled => exact Or.inl (distance_finishTimer htimer _)
  | found v stream hconsumer helement hv => exact Or.inl (distance_finishConsumer hconsumer helement _)
  | finished stream hconsumer helement => exact Or.inl (distance_finishConsumer hconsumer helement _)
  | failed error stream hconsumer helement => exact Or.inl (distance_finishConsumer hconsumer helement _)
  | skipped v stream hconsumer helement hv =>
    rcases distance_skip helement with hlt | ⟨hsame, hcancelled⟩
    · exact Or.inl hlt
    · exact Or.inr ⟨⟨hsame, rfl⟩, Or.inr ⟨rfl, hcancelled⟩⟩
  | publish v halive =>
    have hopen := (sinkAlive_iff.mp halive).2.2
    refine Or.inr ⟨⟨?_, rfl⟩, Or.inl fun task => ?_⟩
    · simp [distance, stage, openRank, unread, AsyncStream.yield_of_open hopen, hopen]
    · cases task <;> exact id
  | complete halive =>
    have hopen := (sinkAlive_iff.mp halive).2.2
    refine Or.inl (distance_lt_of_stage ?_)
    simp [stage, openRank, AsyncStream.finish_of_open hopen, hopen]
  | fail error halive =>
    have hopen := (sinkAlive_iff.mp halive).2.2
    refine Or.inl (distance_lt_of_stage ?_)
    simp [stage, openRank, AsyncStream.finish_of_open hopen, hopen]
  | fire htimer =>
    refine Or.inr ⟨⟨rfl, rfl⟩, Or.inl fun task => ?_⟩
    cases task <;> exact id

/-- The consumer is waited for in a cancelled group only. -/
theorem cancelled_of_helpful (hc : Control s) (h : s.helpful.Owns (.consumer : WaitEvent α ε)) :
    s.cancelled = true := by
  unfold helpful at h
  split at h
  · exact h.elim
  · exact h.elim
  · next result hbody _ _ => exact hc.cancelled.mpr ⟨result, Or.inl hbody⟩
  · exact h.elim

/-- A step of the helpful task brings the end nearer. -/
theorem distance_lower (hc : Control s) (howns : s.helpful.Owns e) (h : Stepped predicate s e t) :
    t.distance < s.distance := by
  rcases distance_step hc h with hlt | ⟨-, hnone | ⟨rfl, hcancelled⟩⟩
  · exact hlt
  · exact absurd howns (hnone _)
  · rw [cancelled_of_helpful hc howns] at hcancelled
    cases hcancelled

/-! ## The law -/

/-- The call is over, and none of its tasks is left. -/
structure Over (s : WaitFor α ε) (result : TaskResult ε) : Prop where
  body : s.body = .left result
  timer : s.timer = .finished
  consumer : s.consumer = .finished

theorem over_keep {result : TaskResult ε} (ho : Over s result) (h : Stepped predicate s e t) : Over t result := by
  obtain ⟨hbody, htimer, hconsumer⟩ := ho
  cases h with
  | publish v halive => exact ⟨hbody, htimer, hconsumer⟩
  | complete halive => exact ⟨hbody, htimer, hconsumer⟩
  | fail error halive => exact ⟨hbody, htimer, hconsumer⟩
  | _ => simp_all

/-- A body that has left has waited for its children. -/
theorem over_of_left (hs : ∀ result, s.body = .left result → Over s result) (h : Stepped predicate s e t)
    (result : TaskResult ε) (hleft : t.body = .left result) : Over t result := by
  by_cases hold : s.body = .left result
  · exact over_keep (hs result hold) h
  · cases h with
    | leave _ hbody htimer hconsumer => exact ⟨hleft, htimer, hconsumer⟩
    | addTimer hbody => cases hleft
    | subscribe current hbody => cases hleft
    | addConsumer hbody => cases hleft
    | next _ rest hbody hresults => cases hleft
    | cancelAll _ hbody => cases hleft
    | _ => exact absurd hleft hold

variable {x : Execution (@step α ε predicate) {}}

theorem over_of_execution {n : ℕ} {result : TaskResult ε} (h : (x.state n).body = .left result) :
    ∀ m ≥ n, Over (x.state m) result := by
  have hstart : ∀ result, (x.state 0).body = .left result → Over (x.state 0) result := by
    intro result hleft
    rw [x.start] at hleft
    cases hleft
  have hn : Over (x.state n) result :=
    Execution.holds_from (I := fun s => ∀ result, s.body = .left result → Over s result)
      (fun k _ e he hs => over_of_left hs (stepped_of_step (Execution.step_of_event he))) hstart (Nat.zero_le n) result h
  intro m hm
  exact Execution.holds_from (I := fun s => Over s result)
    (fun k _ e he hs => over_keep hs (stepped_of_step (Execution.step_of_event he))) hn hm

/-- From the firing on the helpful tasks bring the call to its end. -/
theorem eventually_left (hfair : ∀ task : WaitTask, x.WeaklyFair task.Owns) (hfire : ∃ n, x.event n = some .fire) :
    ∃ n result, (x.state n).body = .left result := by
  obtain ⟨n, hn⟩ := hfire
  have hfired : Fired (x.state (n + 1)) :=
    .of_fire (inv_run (x.exec_events n)).control (stepped_of_step (Execution.step_of_event hn))
  have hkeep : ∀ m ≥ n + 1, Fired (x.state m) := fun m hm =>
    Execution.holds_from (fun k _ e he hs => hs.keep (stepped_of_step (Execution.step_of_event he))) hfired hm
  obtain ⟨m, -, hm⟩ := Execution.eventually_of_helpful (G := fun s => ∃ result, s.body = .left result) hfair hkeep
    (fun s hs hnot => hs.exists_step hnot)
    (fun s e t hs howns hstep => distance_lower hs.control howns (stepped_of_step hstep))
    (fun s e t hs hstep => (distance_step hs.control (stepped_of_step hstep)).imp_right And.left)
  exact ⟨m, hm⟩

/-- **Timeout.** A call whose timer fires is over in the end, with none of its tasks left, whatever the publisher does:
it times out, unless a value that satisfies the predicate or a completion of the publisher has come before. -/
theorem waitFor_timeout (hfair : ∀ task : WaitTask, x.WeaklyFair task.Owns) (hfire : ∃ n, x.event n = some .fire) :
    ∃ n result, (∀ m ≥ n, Over (x.state m) result) ∧ (result = .threw .timedOut ∨
      result = .returned ∧ Delivers predicate x ∨
      result = .threw .wrongValue ∧ (∃ m, x.event m = some .complete) ∨
      ∃ error, result = .failed error ∧ ∃ m, x.event m = some (.fail error)) := by
  obtain ⟨n, result, hleft⟩ := eventually_left hfair hfire
  refine ⟨n, result, over_of_execution hleft, ?_⟩
  have hi := inv_run (x.exec_events n)
  have hjust := hi.result result (by rw [hleft]; rfl)
  have hmem : ∀ {e}, e ∈ x.events n → ∃ m, x.event m = some e := by
    intro e he
    obtain ⟨m, -, hm⟩ := x.mem_events.mp he
    exact ⟨m, hm⟩
  match result, hjust with
  | .threw .timedOut, _ => exact Or.inl rfl
  | .returned, ⟨v, hv, hp⟩ =>
    obtain ⟨e, he, hve⟩ := List.mem_flatMap.mp hv
    obtain ⟨m, hm⟩ := hmem he
    exact Or.inr (Or.inl ⟨rfl, m, e, v, hm, hve, hp⟩)
  | .threw .wrongValue, ⟨hended, _⟩ => exact Or.inr (Or.inr (Or.inl ⟨rfl, hmem (hi.ended _ hended)⟩))
  | .failed error, ⟨hended, _⟩ => exact Or.inr (Or.inr (Or.inr ⟨error, rfl, hmem (hi.ended _ hended)⟩))

theorem internal_of_owns {task : WaitTask} (h : task.Owns e) : Internal e := by
  cases e with
  | publish v => cases task <;> exact h.elim
  | complete => cases task <;> exact h.elim
  | fail error => cases task <;> exact h.elim
  | fire => cases task <;> exact h.elim
  | _ => trivial

/-- The timer fires while the consumer has read none of two values that are not waited for. -/
def timeoutRun : List (WaitEvent Nat Unit) :=
  [.addTimer, .subscribe (some 1), .addConsumer, .publish 2, .fire, .timer, .next, .cancelAll, .consumer, .consumer,
    .consumer, .leave]

theorem waitFor_timeout_example : ∃ x : Execution (@step Nat Unit (· == 3)) {}, (∀ m, x.event m = timeoutRun[m]?) ∧
    ∃ n, ∀ m ≥ n, Over (x.state m) (.threw .timedOut) := by
  obtain ⟨s, h, hbody, htimer, hconsumer⟩ : ∃ s : WaitFor Nat Unit, exec (step (· == 3)) {} timeoutRun = some s ∧
      s.body = .left (.threw .timedOut) ∧ s.timer = .finished ∧ s.consumer = .finished := ⟨_, rfl, rfl, rfl, rfl⟩
  have hevent : ∀ m, (Execution.ofExec h).event m = timeoutRun[m]? := fun m => rfl
  have hmem : ∀ {m e}, (Execution.ofExec h).event m = some e → e ∈ timeoutRun := fun he => List.mem_of_getElem? he
  refine ⟨Execution.ofExec h, hevent, ?_⟩
  obtain ⟨n, result, hover, hcases⟩ := waitFor_timeout (x := Execution.ofExec h)
    (fun task => Execution.weaklyFair_ofExec h fun e he => step_of_left hbody htimer hconsumer (internal_of_owns he))
    ⟨4, rfl⟩
  refine ⟨n, ?_⟩
  rcases hcases with rfl | ⟨-, m, e, v, he, hv, hp⟩ | ⟨-, m, he⟩ | ⟨error, -, m, he⟩
  · exact hover
  · have hall : ∀ v ∈ delivered timeoutRun, v ≠ 3 := by decide
    exact absurd (eq_of_beq hp) (hall v (List.mem_flatMap.mpr ⟨e, hmem he, hv⟩))
  · exact absurd (hmem he) (by decide)
  · exact absurd (hmem he) (by cases error; decide)

end WaitFor
end AlloDataChannel

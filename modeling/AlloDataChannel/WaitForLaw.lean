import AlloDataChannel.WaitFor
import Mathlib.Data.List.Induction

/-!
# `waitFor` neither misses nor invents a value

What a call of `waitFor` ends with is justified by the history of the publisher and the clock, in every order of the
steps. A value that satisfies the predicate is waited for, unless the timer fires.

* `delivered` : the values that the sink was called with;
* `Control` : what goes with each place of the body;
* `Justified`, `Inv` : the results of the children and the history behind them;
* `rank` : the steps that are left once such a value is delivered;
* `waitFor_law` : the laws.
-/

namespace AlloDataChannel
open Lib (exec Execution)

section Delivered
variable {α ε : Type}

/-- The values that the sink is called with in a step. -/
def WaitEvent.delivers : WaitEvent α ε → List α
  | .subscribe current => current.toList
  | .publish v => [v]
  | _ => []

/-- The values delivered since the subscription. -/
def delivered (es : List (WaitEvent α ε)) : List α := es.flatMap WaitEvent.delivers

theorem delivered_concat (es : List (WaitEvent α ε)) (e : WaitEvent α ε) :
    delivered (es ++ [e]) = delivered es ++ e.delivers := by
  simp [delivered]

end Delivered

namespace WaitFor
variable {α ε : Type} {predicate : α → Bool} {es : List (WaitEvent α ε)} {e : WaitEvent α ε} {s t : WaitFor α ε}

/-! ## Places of the body -/

/-- What the place of the body says about the children and the stream. -/
structure Control (s : WaitFor α ε) : Prop where
  unsubscribed : s.body = .start ∨ s.body = .timerAdded → s.stream = {}
  timer : s.timer = .absent ↔ s.body = .start
  consumer : s.consumer = .absent ↔ s.body = .start ∨ s.body = .timerAdded ∨ s.body = .subscribed
  waiting : s.body = .waiting → s.consumer = .finished → s.results ≠ []
  cancelled : s.cancelled = true ↔ ∃ result, s.body = .leaving result ∨ s.body = .left result

theorem control_start : Control ({} : WaitFor α ε) := by
  constructor <;> simp

/-- A step that leaves the body and the cancellation alone. -/
theorem Control.frame (hc : Control s) (hbody : t.body = s.body) (hcancelled : t.cancelled = s.cancelled)
    (htimer : t.timer = .absent ↔ s.timer = .absent) (hconsumer : t.consumer = .absent ↔ s.consumer = .absent)
    (hstream : s.body = .start ∨ s.body = .timerAdded → t.stream = s.stream)
    (hresults : t.consumer = .finished → s.consumer = .finished ∧ t.results = s.results ∨ t.results ≠ []) :
    Control t where
  unsubscribed h := by
    rw [hbody] at h
    rw [hstream h]
    exact hc.unsubscribed h
  timer := by
    rw [htimer, hbody]
    exact hc.timer
  consumer := by
    rw [hconsumer, hbody]
    exact hc.consumer
  waiting hwaiting hfinished := by
    rw [hbody] at hwaiting
    rcases hresults hfinished with ⟨hs, hsame⟩ | hne
    · rw [hsame]
      exact hc.waiting hwaiting hs
    · exact hne
  cancelled := by
    rw [hcancelled, hbody]
    exact hc.cancelled

theorem Control.finishTimer (hc : Control s) (htimer : s.timer = .running) (result : TaskResult ε) :
    Control (s.finishTimer result) := by
  refine hc.frame rfl rfl ?_ Iff.rfl (fun _ => rfl) fun _ => Or.inr ?_
  · simp [WaitFor.finishTimer, htimer]
  · simp [WaitFor.finishTimer]

/-- The consumer runs after the subscription only. -/
theorem Control.withConsumer (hc : Control s) (hconsumer : s.consumer = .running) :
    ¬ (s.body = .start ∨ s.body = .timerAdded) := by
  intro h
  have habsent := hc.consumer.mpr (h.imp_right Or.inl)
  simp [hconsumer] at habsent

theorem Control.finishConsumer (hc : Control s) (hconsumer : s.consumer = .running) (stream : AsyncStream α ε)
    (result : TaskResult ε) : Control (s.finishConsumer stream result) := by
  refine hc.frame rfl rfl Iff.rfl ?_ (fun h => absurd h (hc.withConsumer hconsumer)) fun _ => Or.inr ?_
  · simp [WaitFor.finishConsumer, hconsumer]
  · simp [WaitFor.finishConsumer]

theorem Control.withSink (hc : Control s) (halive : s.sinkAlive = true) (stream : AsyncStream α ε) :
    Control { s with stream := stream } := by
  obtain ⟨hstart, hadded, -⟩ := sinkAlive_iff.mp halive
  exact hc.frame rfl rfl Iff.rfl Iff.rfl (fun h => absurd h (not_or.mpr ⟨hstart, hadded⟩)) fun h => Or.inl ⟨h, rfl⟩

theorem Control.step (hc : Control s) (h : Stepped predicate s e t) : Control t := by
  cases h with
  | timedOut htimer hslept => exact hc.finishTimer htimer _
  | cancelled htimer hcancelled => exact hc.finishTimer htimer _
  | found v stream hconsumer helement hv => exact hc.finishConsumer hconsumer stream _
  | finished stream hconsumer helement => exact hc.finishConsumer hconsumer stream _
  | failed error stream hconsumer helement => exact hc.finishConsumer hconsumer stream _
  | skipped v stream hconsumer helement hv =>
    refine hc.frame rfl rfl Iff.rfl Iff.rfl (fun h => absurd h (hc.withConsumer hconsumer)) fun h => ?_
    exact Or.inl ⟨h, rfl⟩
  | publish v halive => exact hc.withSink halive _
  | complete halive => exact hc.withSink halive _
  | fail error halive => exact hc.withSink halive _
  | fire htimer => exact hc.frame rfl rfl Iff.rfl Iff.rfl (fun _ => rfl) fun h => Or.inl ⟨h, rfl⟩
  -- the body goes from one place to the next
  | _ =>
    obtain ⟨hunsubscribed, htimer, hconsumer, hwaiting, hcancelled⟩ := hc
    constructor <;> simp_all

/-! ## The stream in a step -/

/-- Nothing is delivered once the stream has ended. -/
theorem Control.delivers_of_ended (hc : Control s) (h : Stepped predicate s e t) (hended : s.stream.ended ≠ none) :
    e.delivers = [] := by
  cases h with
  | subscribe current hbody =>
    rw [hc.unsubscribed (Or.inr hbody)] at hended
    exact absurd rfl hended
  | publish v halive => exact absurd (sinkAlive_iff.mp halive).2.2 hended
  | _ => rfl

/-- The end of a stream stays as it is. -/
theorem Control.ended_keep (hc : Control s) (h : Stepped predicate s e t) (hended : s.stream.ended ≠ none) :
    t.stream.ended = s.stream.ended := by
  have hread : ∀ x stream, s.element = some (x, stream) → stream.ended = s.stream.ended := by
    intro x stream helement
    exact (element_ended helement).resolve_right fun h => hended h.1
  cases h with
  | subscribe current hbody =>
    rw [hc.unsubscribed (Or.inr hbody)] at hended
    exact absurd rfl hended
  | found v stream hconsumer helement hv => exact hread _ _ helement
  | skipped v stream hconsumer helement hv => exact hread _ _ helement
  | finished stream hconsumer helement => exact hread _ _ helement
  | failed error stream hconsumer helement => exact hread _ _ helement
  | publish v halive => exact absurd (sinkAlive_iff.mp halive).2.2 hended
  | complete halive => exact absurd (sinkAlive_iff.mp halive).2.2 hended
  | fail error halive => exact absurd (sinkAlive_iff.mp halive).2.2 hended
  | _ => rfl

theorem cancelled_keep (h : Stepped predicate s e t) (hcancelled : s.cancelled = true) : t.cancelled = true := by
  cases h with
  | cancelAll result hbody => rfl
  | _ => exact hcancelled

/-! ## Results and the history behind them -/

/-- The history `es` accounts for a result. -/
def Justified (predicate : α → Bool) (es : List (WaitEvent α ε)) (s : WaitFor α ε) : TaskResult ε → Prop
  | .returned => ∃ v ∈ delivered es, predicate v = true
  | .threw .timedOut => .fire ∈ es
  | .threw .wrongValue => s.stream.ended = some .finished ∧ ∀ v ∈ delivered es, predicate v = false
  | .failed error => s.stream.ended = some (.failed error) ∧ ∀ v ∈ delivered es, predicate v = false
  | .cancelled => False

/-- The step that ended the stream. -/
def Recorded (es : List (WaitEvent α ε)) (s : WaitFor α ε) : StreamEnd ε → Prop
  | .finished => .complete ∈ es
  | .failed error => .fail error ∈ es
  | .terminated => s.cancelled = true

theorem Justified.step {result : TaskResult ε} (h : Justified predicate es s result) (hc : Control s)
    (hs : Stepped predicate s e t) : Justified predicate (es ++ [e]) t result := by
  -- no value follows the end of the stream
  have hquiet : ∀ x, s.stream.ended = some x → (∀ v ∈ delivered es, predicate v = false) →
      t.stream.ended = some x ∧ ∀ v ∈ delivered (es ++ [e]), predicate v = false := by
    intro x hended hall
    have hne : s.stream.ended ≠ none := by simp [hended]
    rw [delivered_concat, hc.delivers_of_ended hs hne, List.append_nil, hc.ended_keep hs hne]
    exact ⟨hended, hall⟩
  match result, h with
  | .returned, ⟨v, hv, hp⟩ =>
    refine ⟨v, ?_, hp⟩
    rw [delivered_concat]
    exact List.mem_append_left _ hv
  | .threw .timedOut, hfire => exact List.mem_append_left _ hfire
  | .threw .wrongValue, ⟨hended, hall⟩ => exact hquiet _ hended hall
  | .failed error, ⟨hended, hall⟩ => exact hquiet _ hended hall

theorem Recorded.step {x : StreamEnd ε} (h : Recorded es s x) (hs : Stepped predicate s e t) :
    Recorded (es ++ [e]) t x := by
  match x, h with
  | .finished, hmem => exact List.mem_append_left _ hmem
  | .failed error, hmem => exact List.mem_append_left _ hmem
  | .terminated, hcancelled => exact cancelled_keep hs hcancelled

/-- What holds after the history `es`: the consumer has dropped only values that do not satisfy the predicate, and the
history accounts for all results up to the cancellation, and for the one that the body has taken. -/
structure Inv (predicate : α → Bool) (es : List (WaitEvent α ε)) (s : WaitFor α ε) : Prop where
  control : Control s
  taken : s.consumer ≠ .finished →
    ∃ taken, delivered es = taken ++ s.stream.buffer ∧ ∀ v ∈ taken, predicate v = false
  slept : s.slept = true → .fire ∈ es
  ended : ∀ x, s.stream.ended = some x → Recorded es s x
  results : s.cancelled = false → ∀ result ∈ s.results, Justified predicate es s result
  result : ∀ result, s.body.result = some result → Justified predicate es s result

theorem inv_start : Inv predicate [] ({} : WaitFor α ε) where
  control := control_start
  taken _ := ⟨[], rfl, fun v h => absurd h List.not_mem_nil⟩
  slept h := absurd h Bool.false_ne_true
  ended x h := by cases h
  results _ result h := absurd h List.not_mem_nil
  result result h := by cases h

theorem Inv.taken_step (hi : Inv predicate es s) (h : Stepped predicate s e t) (hrunning : t.consumer ≠ .finished) :
    ∃ taken, delivered (es ++ [e]) = taken ++ t.stream.buffer ∧ ∀ v ∈ taken, predicate v = false := by
  have hadd : s.consumer ≠ .finished → t.stream.buffer = s.stream.buffer ++ e.delivers →
      ∃ taken, delivered (es ++ [e]) = taken ++ t.stream.buffer ∧ ∀ v ∈ taken, predicate v = false := by
    intro hs hbuffer
    obtain ⟨taken, hdelivered, htaken⟩ := hi.taken hs
    refine ⟨taken, ?_, htaken⟩
    rw [delivered_concat, hdelivered, hbuffer, List.append_assoc]
  cases h with
  | subscribe current hbody =>
    have hstream := hi.control.unsubscribed (Or.inr hbody)
    refine hadd hrunning ?_
    rw [hstream]
    rfl
  | addConsumer hbody =>
    have habsent := hi.control.consumer.mpr (Or.inr (Or.inr hbody))
    refine hadd ?_ (List.append_nil _).symm
    rw [habsent]
    exact Child.noConfusion
  | found v stream hconsumer helement hv => exact absurd rfl hrunning
  | finished stream hconsumer helement => exact absurd rfl hrunning
  | failed error stream hconsumer helement => exact absurd rfl hrunning
  | skipped v stream hconsumer helement hv =>
    obtain ⟨taken, hdelivered, htaken⟩ := hi.taken hrunning
    refine ⟨taken ++ [v], ?_, fun u hu => ?_⟩
    · rw [delivered_concat, hdelivered, element_value helement]
      simp [WaitEvent.delivers]
    · rcases List.mem_append.mp hu with hu | hu
      · exact htaken u hu
      · rw [List.mem_singleton.mp hu]
        exact hv
  | publish v halive =>
    refine hadd hrunning ?_
    show (s.stream.yield v).buffer = _
    rw [AsyncStream.yield_of_open (sinkAlive_iff.mp halive).2.2]
    rfl
  | complete halive =>
    refine hadd hrunning ?_
    show (s.stream.finish _).buffer = _
    rw [AsyncStream.finish_buffer]
    exact (List.append_nil _).symm
  | fail error halive =>
    refine hadd hrunning ?_
    show (s.stream.finish _).buffer = _
    rw [AsyncStream.finish_buffer]
    exact (List.append_nil _).symm
  | _ => exact hadd hrunning (List.append_nil _).symm

theorem Inv.ended_step (hi : Inv predicate es s) (h : Stepped predicate s e t) {x : StreamEnd ε}
    (hended : t.stream.ended = some x) : Recorded (es ++ [e]) t x := by
  have hold : s.stream.ended = some x → Recorded (es ++ [e]) t x := fun hx => (hi.ended x hx).step h
  have hread : ∀ y stream, s.element = some (y, stream) → stream.ended = some x → s.cancelled = t.cancelled →
      Recorded (es ++ [e]) t x := by
    intro y stream helement hx hsame
    rcases element_ended helement with hkeep | ⟨-, hterminated, hcancelled⟩
    · rw [hkeep] at hx
      exact hold hx
    · rw [hterminated, Option.some.injEq] at hx
      subst hx
      show t.cancelled = true
      rw [← hsame, hcancelled]
  cases h with
  | subscribe current hbody => cases hended
  | found v stream hconsumer helement hv => exact hread _ _ helement hended rfl
  | skipped v stream hconsumer helement hv => exact hread _ _ helement hended rfl
  | finished stream hconsumer helement => exact hread _ _ helement hended rfl
  | failed error stream hconsumer helement => exact hread _ _ helement hended rfl
  | publish v halive =>
    have hopen := (sinkAlive_iff.mp halive).2.2
    simp [AsyncStream.yield_of_open hopen, hopen] at hended
  | complete halive =>
    simp [AsyncStream.finish_of_open (sinkAlive_iff.mp halive).2.2] at hended
    subst hended
    exact List.mem_append_right _ (List.mem_singleton.mpr rfl)
  | fail error halive =>
    simp [AsyncStream.finish_of_open (sinkAlive_iff.mp halive).2.2] at hended
    subst hended
    exact List.mem_append_right _ (List.mem_singleton.mpr rfl)
  | _ => exact hold hended

/-- An empty buffer: no value delivered satisfies the predicate. -/
theorem Inv.unsatisfied (hi : Inv predicate es s) (hconsumer : s.consumer = .running) (hbuffer : s.stream.buffer = []) :
    ∀ v ∈ delivered es, predicate v = false := by
  obtain ⟨taken, hdelivered, htaken⟩ := hi.taken (by simp [hconsumer])
  rw [hdelivered, hbuffer, List.append_nil]
  exact htaken

/-- Each result is accounted for when its task finishes, unless the group is cancelled. -/
theorem Inv.results_step (hi : Inv predicate es s) (h : Stepped predicate s e t) (hcancelled : s.cancelled = false) :
    ∀ result ∈ t.results, Justified predicate es s result := by
  have hold := hi.results hcancelled
  have hnew : ∀ new, Justified predicate es s new → ∀ result ∈ s.results ++ [new], Justified predicate es s result := by
    intro new hjust result hmem
    rcases List.mem_append.mp hmem with hmem | hmem
    · exact hold result hmem
    · rw [List.mem_singleton.mp hmem]
      exact hjust
  cases h with
  | timedOut htimer hslept => exact hnew _ (hi.slept hslept)
  | cancelled htimer hc =>
    rw [hcancelled] at hc
    cases hc
  | found v stream hconsumer helement hv =>
    refine hnew _ ⟨v, ?_, hv⟩
    obtain ⟨taken, hdelivered, -⟩ := hi.taken (by simp [hconsumer])
    rw [hdelivered, element_value helement]
    exact List.mem_append_right _ List.mem_cons_self
  | finished stream hconsumer helement =>
    rw [element_of_uncancelled hcancelled] at helement
    obtain ⟨-, hbuffer, hended⟩ := AsyncStream.next_finished helement
    refine hnew _ ⟨hended.resolve_right fun hterminated => ?_, hi.unsatisfied hconsumer hbuffer⟩
    have htrue : s.cancelled = true := hi.ended _ hterminated
    rw [hcancelled] at htrue
    cases htrue
  | failed error stream hconsumer helement =>
    rw [element_of_uncancelled hcancelled] at helement
    obtain ⟨-, hbuffer, hended⟩ := AsyncStream.next_failed helement
    exact hnew _ ⟨hended, hi.unsatisfied hconsumer hbuffer⟩
  | _ => exact hold

theorem Inv.result_step (hi : Inv predicate es s) (h : Stepped predicate s e t) {result : TaskResult ε}
    (hresult : t.body.result = some result) : Justified predicate es s result := by
  cases h with
  | addTimer hbody => cases hresult
  | subscribe current hbody => cases hresult
  | addConsumer hbody => cases hresult
  | next first rest hbody hresults =>
    have hcancelled : s.cancelled = false := by
      rw [Bool.eq_false_iff, Ne, hi.control.cancelled]
      simp [hbody]
    cases hresult
    refine hi.results hcancelled result ?_
    rw [hresults]
    exact List.mem_cons_self
  | cancelAll _ hbody =>
    refine hi.result result ?_
    rw [hbody]
    exact hresult
  | leave _ hbody htimer hconsumer =>
    refine hi.result result ?_
    rw [hbody]
    exact hresult
  | _ => exact hi.result result hresult

theorem Inv.step (hi : Inv predicate es s) (h : Stepped predicate s e t) : Inv predicate (es ++ [e]) t where
  control := hi.control.step h
  taken := hi.taken_step h
  slept hslept := by
    cases h with
    | fire htimer => exact List.mem_append_right _ (List.mem_singleton.mpr rfl)
    | _ => exact List.mem_append_left _ (hi.slept hslept)
  ended _ hended := hi.ended_step h hended
  results hcancelled result hmem := by
    have hbefore : s.cancelled = false := by
      rw [Bool.eq_false_iff]
      intro hs
      rw [cancelled_keep h hs] at hcancelled
      cases hcancelled
    exact (hi.results_step h hbefore result hmem).step hi.control h
  result _ hresult := (hi.result_step h hresult).step hi.control h

theorem inv_run (h : exec (step predicate) {} es = some s) : Inv predicate es s := by
  induction es using List.reverseRecOn generalizing s with
  | nil =>
    cases h
    exact inv_start
  | append_singleton es e ih =>
    rw [Lib.exec_append] at h
    obtain ⟨u, hu, h⟩ := Option.bind_eq_some_iff.mp h
    rw [Lib.exec_cons] at h
    obtain ⟨t, ht, h⟩ := Option.bind_eq_some_iff.mp h
    cases h
    exact (ih hu).step (stepped_of_step ht)

/-! ## Progress -/

def bodyRank : Body ε → ℕ
  | .start => 7
  | .timerAdded => 6
  | .subscribed => 4
  | .waiting => 3
  | .resumed _ => 2
  | .leaving _ => 1
  | .left _ => 0

def timerRank : Child → ℕ
  | .finished => 0
  | _ => 1

/-- The rounds of the consumer up to the first buffered value that satisfies the predicate. -/
def consumerRank (predicate : α → Bool) (s : WaitFor α ε) : ℕ :=
  match s.consumer with
  | .finished => 0
  | _ => s.stream.buffer.findIdx predicate + 1

def rank (predicate : α → Bool) (s : WaitFor α ε) : ℕ :=
  bodyRank s.body + timerRank s.timer + consumerRank predicate s

/-- A value that satisfies the predicate was delivered, and the timer has not fired. -/
structure Promising (predicate : α → Bool) (s : WaitFor α ε) : Prop where
  intro ::
  history : ∃ es, Inv predicate es s ∧ (∃ v ∈ delivered es, predicate v = true) ∧ .fire ∉ es

/-- Until the consumer finishes, the value is in the buffer. -/
theorem Promising.mem_buffer (h : Promising predicate s) (hs : s.consumer ≠ .finished) :
    ∃ v ∈ s.stream.buffer, predicate v = true := by
  obtain ⟨es, hi, ⟨v, hv, hp⟩, -⟩ := h.history
  obtain ⟨taken, hdelivered, htaken⟩ := hi.taken hs
  rw [hdelivered] at hv
  rcases List.mem_append.mp hv with hv | hv
  · rw [htaken v hv] at hp
    cases hp
  · exact ⟨v, hv, hp⟩

/-- The only result that the history accounts for. -/
theorem Promising.returned (h : Promising predicate s) {result : TaskResult ε} (hresult : s.body.result = some result) :
    result = .returned := by
  obtain ⟨es, hi, ⟨v, hv, hp⟩, hfire⟩ := h.history
  have hnot : ¬ ∀ v ∈ delivered es, predicate v = false := by
    intro hall
    rw [hall v hv] at hp
    cases hp
  match result, hi.result result hresult with
  | .returned, _ => rfl
  | .threw .timedOut, hmem => exact absurd hmem hfire
  | .threw .wrongValue, hjust => exact absurd hjust.2 hnot
  | .failed error, hjust => exact absurd hjust.2 hnot

theorem consumerRank_of_running (h : s.consumer ≠ .finished) :
    consumerRank predicate s = s.stream.buffer.findIdx predicate + 1 := by
  unfold consumerRank
  split
  · next hfinished => exact absurd hfinished h
  · rfl

theorem consumerRank_subscribe (hc : Control s) (hbody : s.body = .timerAdded) (current : Option α) :
    consumerRank predicate { s with body := .subscribed, stream := { buffer := current.toList } } ≤
      consumerRank predicate s + 1 := by
  have habsent : s.consumer ≠ .finished := by simp [hc.consumer.mpr (Or.inr (Or.inl hbody))]
  have hafter : consumerRank predicate { s with body := .subscribed, stream := { buffer := current.toList } } =
      current.toList.findIdx predicate + 1 := consumerRank_of_running habsent
  rw [hafter, consumerRank_of_running habsent]
  have hlength : current.toList.findIdx predicate ≤ current.toList.length := List.findIdx_le_length
  have hone : current.toList.length ≤ 1 := by cases current <;> simp
  omega

theorem rank_finishTimer (htimer : s.timer = .running) (result : TaskResult ε) :
    rank predicate (s.finishTimer result) < rank predicate s := by
  have hconsumer : consumerRank predicate (s.finishTimer result) = consumerRank predicate s := rfl
  unfold rank
  rw [hconsumer, htimer]
  simp [finishTimer, timerRank]

theorem rank_finishConsumer (hconsumer : s.consumer = .running) (stream : AsyncStream α ε) (result : TaskResult ε) :
    rank predicate (s.finishConsumer stream result) < rank predicate s := by
  have hbefore : consumerRank predicate s = s.stream.buffer.findIdx predicate + 1 :=
    consumerRank_of_running (by simp [hconsumer])
  have hafter : consumerRank predicate (s.finishConsumer stream result) = 0 := rfl
  unfold rank
  rw [hbefore, hafter]
  simp [finishConsumer]

/-- Each step of the body and of the children brings the call nearer to its end. -/
theorem rank_lower (hc : Control s) (h : Stepped predicate s e t) (hinternal : Internal e) :
    rank predicate t < rank predicate s := by
  have hbody : ∀ place, bodyRank place < bodyRank s.body →
      rank predicate { s with body := place } < rank predicate s := by
    intro place hplace
    have hsame : consumerRank predicate { s with body := place } = consumerRank predicate s := rfl
    unfold rank
    rw [hsame]
    show bodyRank place + timerRank s.timer + _ < _
    omega
  cases h with
  | addTimer hstart =>
    have hsame : consumerRank predicate { s with body := .timerAdded, timer := .running } = consumerRank predicate s :=
      rfl
    unfold rank
    rw [hsame, hstart, hc.timer.mpr hstart]
    simp [bodyRank, timerRank]
  | subscribe current hadded =>
    have hstep : consumerRank predicate _ ≤ _ := consumerRank_subscribe hc hadded current
    unfold rank
    rw [hadded]
    simp only [bodyRank]
    omega
  | addConsumer hsubscribed =>
    have habsent : s.consumer ≠ .finished := by simp [hc.consumer.mpr (Or.inr (Or.inr hsubscribed))]
    have hafter : consumerRank predicate { s with body := .waiting, consumer := .running } =
        s.stream.buffer.findIdx predicate + 1 := rfl
    unfold rank
    rw [consumerRank_of_running habsent, hafter, hsubscribed]
    simp [bodyRank]
  | next result rest hwaiting hresults => exact hbody _ (by simp [hwaiting, bodyRank])
  | cancelAll result hresumed =>
    have hsame : rank predicate { s with body := .leaving result, cancelled := true } =
        rank predicate { s with body := .leaving result } := rfl
    rw [hsame]
    exact hbody _ (by simp [hresumed, bodyRank])
  | leave result hleaving htimer hconsumer => exact hbody _ (by simp [hleaving, bodyRank])
  | timedOut htimer hslept => exact rank_finishTimer htimer _
  | cancelled htimer hcancelled => exact rank_finishTimer htimer _
  | found v stream hconsumer helement hv => exact rank_finishConsumer hconsumer stream _
  | finished stream hconsumer helement => exact rank_finishConsumer hconsumer stream _
  | failed error stream hconsumer helement => exact rank_finishConsumer hconsumer stream _
  | skipped v stream hconsumer helement hv =>
    have hrunning : s.consumer ≠ .finished := by simp [hconsumer]
    have hafter : consumerRank predicate { s with stream := stream } = stream.buffer.findIdx predicate + 1 :=
      consumerRank_of_running hrunning
    unfold rank
    rw [hafter, consumerRank_of_running hrunning, element_value helement, List.findIdx_cons, hv]
    simp
  | publish v halive => exact absurd hinternal id
  | complete halive => exact absurd hinternal id
  | fail error halive => exact absurd hinternal id
  | fire htimer => exact absurd hinternal id

theorem Promising.rank_lower (hp : Promising predicate s) (h : Stepped predicate s e t) (hinternal : Internal e) :
    rank predicate t < rank predicate s := by
  obtain ⟨es, hi, -⟩ := hp.history
  exact WaitFor.rank_lower hi.control h hinternal

theorem findIdx_append_of_mem {vs us : List α} (h : ∃ v ∈ vs, predicate v = true) :
    (vs ++ us).findIdx predicate = vs.findIdx predicate := by
  rw [List.findIdx_append, if_pos (List.findIdx_lt_length.mpr h)]

/-- What the publisher and the clock do puts nothing before the value. -/
theorem Promising.rank_keep (hp : Promising predicate s) (h : Stepped predicate s e t) (hexternal : ¬ Internal e) :
    rank predicate t ≤ rank predicate s := by
  have hbuffer : ∀ stream : AsyncStream α ε, (∃ us, stream.buffer = s.stream.buffer ++ us) →
      rank predicate { s with stream := stream } ≤ rank predicate s := by
    intro stream ⟨us, hus⟩
    unfold rank
    refine Nat.add_le_add_left ?_ _
    by_cases hfinished : s.consumer = .finished
    · simp [consumerRank, hfinished]
    · have hafter : consumerRank predicate { s with stream := stream } = stream.buffer.findIdx predicate + 1 :=
        consumerRank_of_running hfinished
      rw [hafter, consumerRank_of_running hfinished, hus, findIdx_append_of_mem (hp.mem_buffer hfinished)]
  cases h with
  | publish v halive =>
    refine hbuffer _ ⟨[v], ?_⟩
    rw [AsyncStream.yield_of_open (sinkAlive_iff.mp halive).2.2]
  | complete halive => exact hbuffer _ ⟨[], by simp⟩
  | fail error halive => exact hbuffer _ ⟨[], by simp⟩
  | fire htimer => exact Nat.le_refl _
  | _ => exact absurd trivial hexternal

/-- Until the call has returned, its body or one of its children can go on. -/
theorem Promising.exists_step (hp : Promising predicate s) (hnot : s.body ≠ .left .returned) :
    ∃ e, Internal e ∧ (step predicate s e).isSome := by
  obtain ⟨es, hi, -⟩ := hp.history
  have hconsumer : s.consumer = .running → s.element.isSome → ∃ e, Internal e ∧ (step predicate s e).isSome := by
    intro hrunning helement
    refine ⟨.consumer, trivial, ?_⟩
    simp only [step, hrunning]
    exact consume_isSome helement
  cases hbody : s.body with
  | start => exact ⟨.addTimer, trivial, by simp [step, hbody]⟩
  | timerAdded => exact ⟨.subscribe none, trivial, by simp [step, hbody]⟩
  | subscribed => exact ⟨.addConsumer, trivial, by simp [step, hbody]⟩
  | waiting =>
    cases hresults : s.results with
    | cons result rest => exact ⟨.next, trivial, by simp [step, hbody, hresults]⟩
    | nil =>
      have hunfinished : s.consumer ≠ .finished := fun h => hi.control.waiting hbody h hresults
      obtain ⟨v, hv, -⟩ := hp.mem_buffer hunfinished
      cases hchild : s.consumer with
      | absent => simp [hi.control.consumer, hbody] at hchild
      | finished => exact absurd hchild hunfinished
      | running => exact hconsumer hchild (element_isSome (Or.inl (List.ne_nil_of_mem hv)))
  | resumed result => exact ⟨.cancelAll, trivial, by simp [step, hbody]⟩
  | leaving result =>
    have hcancelled : s.cancelled = true := hi.control.cancelled.mpr ⟨result, Or.inl hbody⟩
    cases htimer : s.timer with
    | absent => simp [hi.control.timer, hbody] at htimer
    | running =>
      refine ⟨.timer, trivial, ?_⟩
      simp only [step, htimer]
      exact wake_isSome hcancelled
    | finished =>
      cases hchild : s.consumer with
      | absent => simp [hi.control.consumer, hbody] at hchild
      | running => exact hconsumer hchild (element_isSome (Or.inr hcancelled))
      | finished => exact ⟨.leave, trivial, by simp [step, hbody, htimer, hchild]⟩
  | left result =>
    have hreturned : result = .returned := hp.returned (by rw [hbody]; rfl)
    rw [hbody, hreturned] at hnot
    exact absurd rfl hnot

/-! ## The laws -/

/-- A value that satisfies the predicate is delivered at some moment of the execution. -/
def Delivers (predicate : α → Bool) (x : Execution (@step α ε predicate) {}) : Prop :=
  ∃ n e v, x.event n = some e ∧ v ∈ e.delivers ∧ predicate v = true

/-- What `waitFor` ends with from `group.next()` on, after a history `es`; and that it ends, if the timer does not fire
and the tasks of the call do not all stop while one of them can go on. -/
structure WaitForLaw (ε : Type) (predicate : α → Bool) : Prop where
  returned : ∀ (es : List (WaitEvent α ε)) s, exec (step predicate) {} es = some s → s.body.result = some .returned →
    ∃ v ∈ delivered es, predicate v = true
  timedOut : ∀ (es : List (WaitEvent α ε)) s, exec (step predicate) {} es = some s →
    s.body.result = some (.threw .timedOut) → .fire ∈ es
  wrongValue : ∀ (es : List (WaitEvent α ε)) s, exec (step predicate) {} es = some s →
    s.body.result = some (.threw .wrongValue) → .complete ∈ es ∧ ∀ v ∈ delivered es, predicate v = false
  failed : ∀ (es : List (WaitEvent α ε)) s error, exec (step predicate) {} es = some s →
    s.body.result = some (.failed error) → .fail error ∈ es ∧ ∀ v ∈ delivered es, predicate v = false
  cancelled : ∀ (es : List (WaitEvent α ε)) s, exec (step predicate) {} es = some s → s.body.result ≠ some .cancelled
  returns : ∀ x : Execution (@step α ε predicate) {}, x.WeaklyFair Internal → (∀ n, x.event n ≠ some .fire) →
    Delivers predicate x → ∃ n, (x.state n).body = .left .returned

/-- A call whose timer never fires returns once a value that satisfies the predicate is delivered. -/
theorem eventually_returned {x : Execution (@step α ε predicate) {}} (hfair : x.WeaklyFair Internal)
    (hfire : ∀ n, x.event n ≠ some .fire) (hdelivers : Delivers predicate x) :
    ∃ n, (x.state n).body = .left .returned := by
  obtain ⟨n, e, v, he, hv, hp⟩ := hdelivers
  have hpromising : ∀ m ≥ n + 1, Promising predicate (x.state m) := by
    intro m hm
    refine ⟨x.events m, inv_run (x.exec_events m), ⟨v, ?_, hp⟩, fun hmem => ?_⟩
    · exact List.mem_flatMap.mpr ⟨e, x.mem_events.mpr ⟨n, by omega, he⟩, hv⟩
    · obtain ⟨k, -, hk⟩ := x.mem_events.mp hmem
      exact hfire k hk
  obtain ⟨m, -, hm⟩ := Execution.eventually_of_rank (G := fun s => s.body = .left .returned) hfair hpromising
    (fun _ hs hnot => hs.exists_step hnot) (fun _ _ _ hs hinternal h => hs.rank_lower (stepped_of_step h) hinternal)
    (fun _ _ _ hs hexternal h => hs.rank_keep (stepped_of_step h) hexternal)
  exact ⟨m, hm⟩

/-- **Waiting for a value.** -/
theorem waitFor_law (predicate : α → Bool) : WaitForLaw ε predicate where
  returned _ _ h hresult := (inv_run h).result _ hresult
  timedOut _ _ h hresult := (inv_run h).result _ hresult
  wrongValue es s h hresult := by
    obtain ⟨hended, hall⟩ := (inv_run h).result _ hresult
    exact ⟨(inv_run h).ended _ hended, hall⟩
  failed es s error h hresult := by
    obtain ⟨hended, hall⟩ := (inv_run h).result _ hresult
    exact ⟨(inv_run h).ended _ hended, hall⟩
  cancelled _ _ h hresult := (inv_run h).result _ hresult
  returns _ hfair hfire hdelivers := eventually_returned hfair hfire hdelivers

theorem step_of_left {result : TaskResult ε} (hbody : s.body = .left result) (htimer : s.timer = .finished)
    (hconsumer : s.consumer = .finished) (hinternal : Internal e) : step predicate s e = none := by
  cases e with
  | publish v => exact absurd hinternal id
  | complete => exact absurd hinternal id
  | fail error => exact absurd hinternal id
  | fire => exact absurd hinternal id
  | _ => simp [step, hbody, htimer, hconsumer]

/-- The value 3 comes before the consumer runs, with another value and the completion after it. -/
theorem waitFor_example : ∃ x : Execution (@step Nat Unit (· == 3)) {}, x.event 2 = some (.publish 3) ∧
    x.event 4 = some .complete ∧ x.event 5 = some .addConsumer ∧ ∃ n, (x.state n).body = .left .returned := by
  obtain ⟨s, h, hbody, htimer, hconsumer⟩ : ∃ s : WaitFor Nat Unit, exec (step (· == 3)) {} [.addTimer,
      .subscribe (some 1), .publish 3, .publish 4, .complete, .addConsumer, .consumer, .consumer, .next, .cancelAll,
      .timer, .leave] = some s ∧ s.body = .left .returned ∧ s.timer = .finished ∧ s.consumer = .finished :=
    ⟨_, rfl, rfl, rfl, rfl⟩
  refine ⟨Execution.ofExec h, rfl, rfl, rfl, (waitFor_law (· == 3)).returns _ ?_ ?_ ⟨2, .publish 3, 3, rfl, ?_, rfl⟩⟩
  · exact Execution.weaklyFair_ofExec h fun e he => step_of_left hbody htimer hconsumer he
  · intro n hn
    have hmem := List.mem_of_getElem? hn
    exact absurd hmem (by decide)
  · exact List.mem_singleton.mpr rfl

end WaitFor
end AlloDataChannel

import AlloDataChannel.Lib.Execution

/-!
# Waiting for a value of a publisher

`waitFor` races two child tasks: a timer, and a consumer of the stream that a subscription fills. The first child to
finish decides, and the other one is cancelled.

* `AsyncStream` : the unbounded buffer between the subscription and the consumer;
* `WaitFor` : the body of the task group, its children and the stream;
* `WaitFor.step` : the steps of the body, of the children, of the publisher and of the clock;
* `Stepped` : the same steps as a relation.
-/

namespace AlloDataChannel

/-! ## The stream -/

/-- How a stream ends: by a completion of the publisher, or as the task that reads it is cancelled. -/
inductive StreamEnd (ε : Type)
  | finished
  | failed (error : ε)
  | terminated
  deriving DecidableEq, Repr

/-- `AsyncThrowingStream` with unbounded buffering. -/
structure AsyncStream (α ε : Type) where
  buffer : List α := []
  ended : Option (StreamEnd ε) := none
  deriving DecidableEq, Repr

/-- What the iterator of a stream gives. -/
inductive StreamElement (α ε : Type)
  | value (v : α)
  | finished
  | failed (error : ε)
  deriving DecidableEq, Repr

namespace AsyncStream
variable {α ε : Type}

/-- `continuation.yield`, which does nothing once the stream has ended. -/
def yield (s : AsyncStream α ε) (v : α) : AsyncStream α ε :=
  if s.ended.isNone then { s with buffer := s.buffer ++ [v] } else s

/-- `continuation.finish`; the first end counts. -/
def finish (s : AsyncStream α ε) (e : StreamEnd ε) : AsyncStream α ε :=
  if s.ended.isNone then { s with ended := some e } else s

/-- The next element: what is buffered, then the end; `none` suspends the reader. -/
def next (s : AsyncStream α ε) : Option (StreamElement α ε × AsyncStream α ε) :=
  match s.buffer, s.ended with
  | v :: buffer, _ => some (.value v, { s with buffer := buffer })
  | [], some (.failed error) => some (.failed error, s)
  | [], some _ => some (.finished, s)
  | [], none => none

section Laws
variable {s t : AsyncStream α ε} {v : α} {x : StreamEnd ε} {error : ε}

theorem yield_of_open (h : s.ended = none) : s.yield v = { s with buffer := s.buffer ++ [v] } := by
  simp [yield, h]

theorem finish_of_open (h : s.ended = none) : s.finish x = { s with ended := some x } := by
  simp [finish, h]

theorem finish_of_ended (h : s.ended ≠ none) : s.finish x = s := by
  simp [finish, h]

@[simp] theorem finish_buffer : (s.finish x).buffer = s.buffer := by
  unfold finish
  split
  · rfl
  · rfl

theorem next_value (h : s.next = some (.value v, t)) : s.buffer = v :: t.buffer ∧ t.ended = s.ended := by
  unfold next at h
  split at h
  · next hbuffer =>
    cases h
    exact ⟨hbuffer, rfl⟩
  · cases h
  · cases h
  · cases h

theorem next_finished (h : s.next = some (.finished, t)) :
    t = s ∧ s.buffer = [] ∧ (s.ended = some .finished ∨ s.ended = some .terminated) := by
  unfold next at h
  split at h
  · cases h
  · cases h
  · next x hnot hbuffer hended =>
    cases h
    cases x with
    | finished => exact ⟨rfl, hbuffer, Or.inl hended⟩
    | failed error => exact absurd rfl (hnot error)
    | terminated => exact ⟨rfl, hbuffer, Or.inr hended⟩
  · cases h

theorem next_failed (h : s.next = some (.failed error, t)) :
    t = s ∧ s.buffer = [] ∧ s.ended = some (.failed error) := by
  unfold next at h
  split at h
  · cases h
  · next hbuffer hended =>
    cases h
    exact ⟨rfl, hbuffer, hended⟩
  · cases h
  · cases h

theorem next_ended {y : StreamElement α ε} (h : s.next = some (y, t)) : t.ended = s.ended := by
  cases y with
  | value v => exact (next_value h).2
  | finished => rw [(next_finished h).1]
  | failed error => rw [(next_failed h).1]

/-- A reader is suspended exactly when nothing is buffered and the stream goes on. -/
theorem next_eq_none : s.next = none ↔ s.buffer = [] ∧ s.ended = none := by
  obtain ⟨buffer, ended⟩ := s
  cases buffer with
  | cons v buffer => simp [next]
  | nil =>
    match ended with
    | none => simp [next]
    | some .finished => simp [next]
    | some (.failed error) => simp [next]
    | some .terminated => simp [next]

end Laws

end AsyncStream

/-! ## The task group -/

inductive PublisherError
  | timedOut
  | wrongValue
  deriving DecidableEq, Repr

/-- How a task finishes. -/
inductive TaskResult (ε : Type)
  | returned
  | threw (error : PublisherError)
  /-- The failure of the publisher, rethrown. -/
  | failed (error : ε)
  /-- `CancellationError`. -/
  | cancelled
  deriving DecidableEq, Repr

/-- Where the body of the task group is; `waitFor` itself is over at `left`. -/
inductive Body (ε : Type)
  | start
  | timerAdded
  | subscribed
  /-- At `group.next()`. -/
  | waiting
  /-- After `group.next()` with the result of a child. -/
  | resumed (result : TaskResult ε)
  /-- All children are cancelled and waited for. -/
  | leaving (result : TaskResult ε)
  | left (result : TaskResult ε)
  deriving DecidableEq, Repr

/-- The result that `group.next()` has given. -/
def Body.result {ε : Type} : Body ε → Option (TaskResult ε)
  | .resumed result | .leaving result | .left result => some result
  | _ => none

inductive Child
  | absent
  | running
  | finished
  deriving DecidableEq, Repr

/-- A call of `waitFor`: `results` are those of the finished children, first come first, and `slept` says that the time
of the timer is over. -/
structure WaitFor (α ε : Type) where
  body : Body ε := .start
  timer : Child := .absent
  consumer : Child := .absent
  results : List (TaskResult ε) := []
  slept : Bool := false
  cancelled : Bool := false
  stream : AsyncStream α ε := {}
  deriving DecidableEq, Repr

inductive WaitEvent (α ε : Type)
  /-- The first `group.addTask`. -/
  | addTimer
  /-- `asyncStream()`: the sink is called with the current value, if the publisher has one. -/
  | subscribe (current : Option α)
  /-- The second `group.addTask`. -/
  | addConsumer
  | next
  /-- `group.cancelAll()`, which a body that throws does as well. -/
  | cancelAll
  | leave
  /-- The timer task goes on. -/
  | timer
  /-- The consumer task takes one element. -/
  | consumer
  /-- The sink is called by the publisher. -/
  | publish (v : α)
  | complete
  | fail (error : ε)
  /-- The time of the timer is over. -/
  | fire
  deriving DecidableEq, Repr

namespace WaitFor
variable {α ε : Type}

/-- The publisher calls the sink from the subscription until its completion, or until the end of the stream cancels the
subscription. -/
def sinkAlive (s : WaitFor α ε) : Bool :=
  match s.body with
  | .start => false
  | .timerAdded => false
  | _ => s.stream.ended.isNone

def finishTimer (s : WaitFor α ε) (result : TaskResult ε) : WaitFor α ε :=
  { s with timer := .finished, results := s.results ++ [result] }

def finishConsumer (s : WaitFor α ε) (stream : AsyncStream α ε) (result : TaskResult ε) : WaitFor α ε :=
  { s with consumer := .finished, stream := stream, results := s.results ++ [result] }

/-- The consumer takes the next element; in a cancelled task the stream ends first. -/
def element (s : WaitFor α ε) : Option (StreamElement α ε × AsyncStream α ε) :=
  (if s.cancelled then s.stream.finish .terminated else s.stream).next

/-- One round of `for try await value in asyncStream where predicate(value) { return }`, or the throw after it. -/
def consume (predicate : α → Bool) (s : WaitFor α ε) : Option (WaitFor α ε) :=
  match s.element with
  | none => none
  | some (.value v, stream) =>
    if predicate v then some (s.finishConsumer stream .returned) else some { s with stream := stream }
  | some (.finished, stream) => some (s.finishConsumer stream (.threw .wrongValue))
  | some (.failed error, stream) => some (s.finishConsumer stream (.failed error))

/-- The timer task: `Task.sleep` returns, or throws when it is cancelled. -/
def wake (s : WaitFor α ε) : Option (WaitFor α ε) :=
  if s.slept then some (s.finishTimer (.threw .timedOut))
  else if s.cancelled then some (s.finishTimer .cancelled)
  else none

/-- `waitFor(predicate:timeout:)`; `none` is an event that cannot take place. The predicate of
`waitFor(value:timeout:)` is `(· == value)`. -/
def step (predicate : α → Bool) (s : WaitFor α ε) : WaitEvent α ε → Option (WaitFor α ε)
  | .addTimer =>
    match s.body with
    | .start => some { s with body := .timerAdded, timer := .running }
    | _ => none
  | .subscribe current =>
    match s.body with
    | .timerAdded => some { s with body := .subscribed, stream := { buffer := current.toList } }
    | _ => none
  | .addConsumer =>
    match s.body with
    | .subscribed => some { s with body := .waiting, consumer := .running }
    | _ => none
  | .next =>
    match s.body, s.results with
    | .waiting, result :: _ => some { s with body := .resumed result }
    | _, _ => none
  | .cancelAll =>
    match s.body with
    | .resumed result => some { s with body := .leaving result, cancelled := true }
    | _ => none
  | .leave =>
    match s.body, s.timer, s.consumer with
    | .leaving result, .finished, .finished => some { s with body := .left result }
    | _, _, _ => none
  | .timer =>
    match s.timer with
    | .running => s.wake
    | _ => none
  | .consumer =>
    match s.consumer with
    | .running => s.consume predicate
    | _ => none
  | .publish v => if s.sinkAlive then some { s with stream := s.stream.yield v } else none
  | .complete => if s.sinkAlive then some { s with stream := s.stream.finish .finished } else none
  | .fail error => if s.sinkAlive then some { s with stream := s.stream.finish (.failed error) } else none
  | .fire =>
    match s.timer with
    | .running => some { s with slept := true }
    | _ => none

/-- The steps of the body and its children; the others are those of the publisher and the clock. -/
def Internal : WaitEvent α ε → Prop
  | .addTimer | .subscribe _ | .addConsumer | .next | .cancelAll | .leave | .timer | .consumer => True
  | .publish _ | .complete | .fail _ | .fire => False

section Laws
variable {s : WaitFor α ε} {stream : AsyncStream α ε} {x : StreamElement α ε} {v : α} {error : ε}

theorem sinkAlive_iff : s.sinkAlive = true ↔ s.body ≠ .start ∧ s.body ≠ .timerAdded ∧ s.stream.ended = none := by
  unfold sinkAlive
  split
  · next h => simp [h]
  · next h => simp [h]
  · next hstart htimer =>
    rw [Option.isNone_iff_eq_none]
    exact ⟨fun h => ⟨hstart, htimer, h⟩, fun h => h.2.2⟩

theorem element_of_uncancelled (h : s.cancelled = false) : s.element = s.stream.next := by
  simp [element, h]

theorem element_of_cancelled (h : s.cancelled = true) : s.element = (s.stream.finish .terminated).next := by
  simp [element, h]

/-- The consumer ends a stream only in a cancelled task. -/
theorem element_ended (h : s.element = some (x, stream)) : stream.ended = s.stream.ended ∨
    s.stream.ended = none ∧ stream.ended = some .terminated ∧ s.cancelled = true := by
  cases hc : s.cancelled with
  | false =>
    rw [element_of_uncancelled hc] at h
    exact Or.inl (AsyncStream.next_ended h)
  | true =>
    rw [element_of_cancelled hc] at h
    have hended := AsyncStream.next_ended h
    by_cases ho : s.stream.ended = none
    · rw [AsyncStream.finish_of_open ho] at hended
      exact Or.inr ⟨ho, hended, rfl⟩
    · rw [AsyncStream.finish_of_ended ho] at hended
      exact Or.inl hended

theorem element_value (h : s.element = some (.value v, stream)) : s.stream.buffer = v :: stream.buffer := by
  cases hc : s.cancelled with
  | false =>
    rw [element_of_uncancelled hc] at h
    exact (AsyncStream.next_value h).1
  | true =>
    rw [element_of_cancelled hc] at h
    have hbuffer := (AsyncStream.next_value h).1
    rw [AsyncStream.finish_buffer] at hbuffer
    exact hbuffer

theorem element_isSome (h : s.stream.buffer ≠ [] ∨ s.cancelled = true) : s.element.isSome := by
  rw [Option.isSome_iff_ne_none]
  intro hnone
  cases hc : s.cancelled with
  | false =>
    rw [element_of_uncancelled hc, AsyncStream.next_eq_none] at hnone
    rcases h with h | h
    · exact h hnone.1
    · rw [hc] at h
      cases h
  | true =>
    rw [element_of_cancelled hc, AsyncStream.next_eq_none] at hnone
    by_cases ho : s.stream.ended = none
    · simp [AsyncStream.finish_of_open ho] at hnone
    · rw [AsyncStream.finish_of_ended ho] at hnone
      exact ho hnone.2

theorem wake_isSome (h : s.cancelled = true) : s.wake.isSome := by
  unfold wake
  rw [if_pos h]
  split
  · rfl
  · rfl

theorem consume_isSome {predicate : α → Bool} (h : s.element.isSome) : (s.consume predicate).isSome := by
  obtain ⟨⟨x, stream⟩, hx⟩ := Option.isSome_iff_exists.mp h
  unfold consume
  rw [hx]
  cases x with
  | value v =>
    show (if predicate v then _ else _ : Option (WaitFor α ε)).isSome = true
    split
    · rfl
    · rfl
  | finished => rfl
  | failed error => rfl

end Laws

/-! ## The steps as a relation -/

/-- The steps, one constructor for each exit. -/
inductive Stepped (predicate : α → Bool) (s : WaitFor α ε) : WaitEvent α ε → WaitFor α ε → Prop
  | addTimer (hbody : s.body = .start) :
    Stepped predicate s .addTimer { s with body := .timerAdded, timer := .running }
  | subscribe (current : Option α) (hbody : s.body = .timerAdded) :
    Stepped predicate s (.subscribe current) { s with body := .subscribed, stream := { buffer := current.toList } }
  | addConsumer (hbody : s.body = .subscribed) :
    Stepped predicate s .addConsumer { s with body := .waiting, consumer := .running }
  | next (result : TaskResult ε) (rest : List (TaskResult ε)) (hbody : s.body = .waiting)
    (hresults : s.results = result :: rest) : Stepped predicate s .next { s with body := .resumed result }
  | cancelAll (result : TaskResult ε) (hbody : s.body = .resumed result) :
    Stepped predicate s .cancelAll { s with body := .leaving result, cancelled := true }
  | leave (result : TaskResult ε) (hbody : s.body = .leaving result) (htimer : s.timer = .finished)
    (hconsumer : s.consumer = .finished) : Stepped predicate s .leave { s with body := .left result }
  | timedOut (htimer : s.timer = .running) (hslept : s.slept = true) :
    Stepped predicate s .timer (s.finishTimer (.threw .timedOut))
  | cancelled (htimer : s.timer = .running) (hcancelled : s.cancelled = true) :
    Stepped predicate s .timer (s.finishTimer .cancelled)
  | found (v : α) (stream : AsyncStream α ε) (hconsumer : s.consumer = .running)
    (helement : s.element = some (.value v, stream)) (hv : predicate v = true) :
    Stepped predicate s .consumer (s.finishConsumer stream .returned)
  | skipped (v : α) (stream : AsyncStream α ε) (hconsumer : s.consumer = .running)
    (helement : s.element = some (.value v, stream)) (hv : predicate v = false) :
    Stepped predicate s .consumer { s with stream := stream }
  | finished (stream : AsyncStream α ε) (hconsumer : s.consumer = .running)
    (helement : s.element = some (.finished, stream)) :
    Stepped predicate s .consumer (s.finishConsumer stream (.threw .wrongValue))
  | failed (error : ε) (stream : AsyncStream α ε) (hconsumer : s.consumer = .running)
    (helement : s.element = some (.failed error, stream)) :
    Stepped predicate s .consumer (s.finishConsumer stream (.failed error))
  | publish (v : α) (halive : s.sinkAlive = true) :
    Stepped predicate s (.publish v) { s with stream := s.stream.yield v }
  | complete (halive : s.sinkAlive = true) :
    Stepped predicate s .complete { s with stream := s.stream.finish .finished }
  | fail (error : ε) (halive : s.sinkAlive = true) :
    Stepped predicate s (.fail error) { s with stream := s.stream.finish (.failed error) }
  | fire (htimer : s.timer = .running) : Stepped predicate s .fire { s with slept := true }

theorem stepped_consumer {predicate : α → Bool} {s t : WaitFor α ε} (hconsumer : s.consumer = .running)
    (h : s.consume predicate = some t) : Stepped predicate s .consumer t := by
  unfold consume at h
  split at h
  · cases h
  · next v stream helement =>
    split at h
    · next hv =>
      cases h
      exact .found v stream hconsumer helement hv
    · next hv =>
      cases h
      exact .skipped v stream hconsumer helement (Bool.eq_false_iff.mpr hv)
  · next stream helement =>
    cases h
    exact .finished stream hconsumer helement
  · next error stream helement =>
    cases h
    exact .failed error stream hconsumer helement

theorem stepped_timer {predicate : α → Bool} {s t : WaitFor α ε} (htimer : s.timer = .running)
    (h : s.wake = some t) : Stepped predicate s .timer t := by
  unfold wake at h
  split at h
  · next hslept =>
    cases h
    exact .timedOut htimer hslept
  · split at h
    · next hcancelled =>
      cases h
      exact .cancelled htimer hcancelled
    · cases h

theorem stepped_of_step {predicate : α → Bool} {s t : WaitFor α ε} {e : WaitEvent α ε}
    (h : s.step predicate e = some t) : Stepped predicate s e t := by
  cases e with
  | addTimer =>
    simp only [step] at h
    split at h
    · next hbody =>
      cases h
      exact .addTimer hbody
    · cases h
  | subscribe current =>
    simp only [step] at h
    split at h
    · next hbody =>
      cases h
      exact .subscribe current hbody
    · cases h
  | addConsumer =>
    simp only [step] at h
    split at h
    · next hbody =>
      cases h
      exact .addConsumer hbody
    · cases h
  | next =>
    simp only [step] at h
    split at h
    · next result rest hbody hresults =>
      cases h
      exact .next result rest hbody hresults
    · cases h
  | cancelAll =>
    simp only [step] at h
    split at h
    · next result hbody =>
      cases h
      exact .cancelAll result hbody
    · cases h
  | leave =>
    simp only [step] at h
    split at h
    · next result hbody htimer hconsumer =>
      cases h
      exact .leave result hbody htimer hconsumer
    · cases h
  | timer =>
    simp only [step] at h
    split at h
    · next htimer => exact stepped_timer htimer h
    · cases h
  | consumer =>
    simp only [step] at h
    split at h
    · next hconsumer => exact stepped_consumer hconsumer h
    · cases h
  | publish v =>
    obtain ⟨halive, h⟩ := Option.ite_none_right_eq_some.mp h
    cases h
    exact .publish v halive
  | complete =>
    obtain ⟨halive, h⟩ := Option.ite_none_right_eq_some.mp h
    cases h
    exact .complete halive
  | fail error =>
    obtain ⟨halive, h⟩ := Option.ite_none_right_eq_some.mp h
    cases h
    exact .fail error halive
  | fire =>
    simp only [step] at h
    split at h
    · next htimer =>
      cases h
      exact .fire htimer
    · cases h

end WaitFor

end AlloDataChannel

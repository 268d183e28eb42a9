import AlloDataChannel.Sink

/-!
# Keyframe requests

The observer of `onKeyFrameRequested` chains a handler at every assignment. A handler keeps the C callback that it was
made with, and that callback reads the closure that is there when a request comes.

* `PliTrack` : a track with its chain of handlers and what its requests have called;
* `Built` : the chain as the record of all assignments;
* `run_log` : what a run calls, request by request;
* `one_call_iff` : each request is one call of the closure assigned last exactly when no request comes after an
  assignment of nil or a second assignment.
-/

namespace AlloDataChannel
open Lib (Segmentation exec)

/-- A handler of the chain: the C callback that `rtcChainPliHandler` was given. -/
inductive PliHandler
  | null
  /-- The callback that runs `onKeyFrameRequested?()`. -/
  | current
  deriving DecidableEq, Repr

/-- What a request calls: a null pointer, or a closure. -/
inductive PliCall
  | null
  | closure (handler : KeyFrameHandler)
  deriving DecidableEq, Repr

/-- A track with its chain and, for each request so far, the calls that it made. -/
structure PliTrack where
  state : ChannelState := {}
  chain : List PliHandler := []
  log : List (List PliCall) := []
  deriving DecidableEq, Repr

inductive PliEvent
  /-- An assignment to `onKeyFrameRequested`, with the code of `rtcChainPliHandler`. -/
  | assign (handler : Option KeyFrameHandler) (code : Int)
  | request
  deriving DecidableEq, Repr

/-- `onKeyFrameRequested == nil ? nil : { … }`. -/
def PliHandler.ofAssignment : Option KeyFrameHandler → PliHandler
  | none => .null
  | some _ => .current

/-- `onKeyFrameRequested?()` for the C callback, and a null call for a null pointer. -/
def PliHandler.calls (s : ChannelState) : PliHandler → List PliCall
  | .null => [.null]
  | .current => (s.onKeyFrameRequested.map .closure).toList

namespace PliTrack

/-- The observer of `onKeyFrameRequested`, with its `try!`. -/
def setOnKeyFrameRequested (t : PliTrack) (handler : Option KeyFrameHandler) (code : Int) : Option PliTrack :=
  match Error.orValue code with
  | .error _ => none
  | .ok _ =>
    some { t with
      state := { t.state with onKeyFrameRequested := handler }
      chain := t.chain ++ [.ofAssignment handler] }

def step (t : PliTrack) : PliEvent → Option PliTrack
  | .assign handler code => t.setOnKeyFrameRequested handler code
  | .request => some { t with log := t.log ++ [t.chain.flatMap (PliHandler.calls t.state)] }

theorem setOnKeyFrameRequested_eq_some {t t' : PliTrack} {handler : Option KeyFrameHandler} {code : Int}
    (h : t.setOnKeyFrameRequested handler code = some t') : t' = { t with
      state := { t.state with onKeyFrameRequested := handler }
      chain := t.chain ++ [.ofAssignment handler] } := by
  unfold setOnKeyFrameRequested at h
  split at h
  · cases h
  · rw [Option.some.injEq] at h
    exact h.symm

end PliTrack

/-! ## Histories of assignments -/

/-- All values assigned, in order. -/
def assignments : List PliEvent → List (Option KeyFrameHandler)
  | [] => []
  | .assign handler _ :: es => handler :: assignments es
  | .request :: es => assignments es

/-- The closure assigned last. -/
def lastAssigned (hist : List (Option KeyFrameHandler)) : Option KeyFrameHandler := hist.getLast?.join

/-- One call of the closure assigned last, or none if that is nil. -/
def wantedCalls (hist : List (Option KeyFrameHandler)) : List PliCall := ((lastAssigned hist).map .closure).toList

/-- The calls that each request ought to make. -/
def wantedLog (hist : List (Option KeyFrameHandler)) : List PliEvent → List (List PliCall)
  | [] => []
  | .assign handler _ :: es => wantedLog (hist ++ [handler]) es
  | .request :: es => wantedCalls hist :: wantedLog hist es

/-- The calls that a request makes: a null call for each nil assigned, and one of the last closure for each other. -/
def madeCalls (hist : List (Option KeyFrameHandler)) : List PliCall :=
  hist.flatMap fun handler => if handler.isNone then [.null] else wantedCalls hist

def madeLog (hist : List (Option KeyFrameHandler)) : List PliEvent → List (List PliCall)
  | [] => []
  | .assign handler _ :: es => madeLog (hist ++ [handler]) es
  | .request :: es => madeCalls hist :: madeLog hist es

/-- The track has the history `hist` behind it. -/
structure Built (hist : List (Option KeyFrameHandler)) (t : PliTrack) : Prop where
  chain : t.chain = hist.map PliHandler.ofAssignment
  current : t.state.onKeyFrameRequested = lastAssigned hist

theorem built_start : Built [] {} := ⟨rfl, rfl⟩

theorem lastAssigned_concat (hist : List (Option KeyFrameHandler)) (handler : Option KeyFrameHandler) :
    lastAssigned (hist ++ [handler]) = handler := by
  unfold lastAssigned
  rw [List.getLast?_concat]
  rfl

theorem Built.assign {hist : List (Option KeyFrameHandler)} {t t' : PliTrack} {handler : Option KeyFrameHandler}
    {code : Int} (h : Built hist t) (hs : t.setOnKeyFrameRequested handler code = some t') :
    Built (hist ++ [handler]) t' ∧ t'.log = t.log := by
  rw [PliTrack.setOnKeyFrameRequested_eq_some hs]
  refine ⟨⟨?_, (lastAssigned_concat hist handler).symm⟩, rfl⟩
  rw [List.map_append, ← h.chain]
  rfl

/-- What a request calls is a matter of the history. -/
theorem Built.calls {hist : List (Option KeyFrameHandler)} {t : PliTrack} (h : Built hist t) :
    t.chain.flatMap (PliHandler.calls t.state) = madeCalls hist := by
  unfold madeCalls
  rw [h.chain, List.flatMap_map]
  congr 1
  funext handler
  cases handler with
  | none => rfl
  | some x =>
    show (t.state.onKeyFrameRequested.map PliCall.closure).toList = wantedCalls hist
    rw [h.current]
    rfl

/-- A run adds what its history makes each request call. -/
theorem run_log {hist : List (Option KeyFrameHandler)} {t t' : PliTrack} {es : List PliEvent} (h : Built hist t)
    (hr : exec PliTrack.step t es = some t') :
    Built (hist ++ assignments es) t' ∧ t'.log = t.log ++ madeLog hist es := by
  induction es generalizing hist t with
  | nil =>
    rw [Lib.exec_nil, Option.some.injEq] at hr
    subst hr
    refine ⟨?_, (List.append_nil _).symm⟩
    show Built (hist ++ []) t
    rw [List.append_nil]
    exact h
  | cons e es ih =>
    obtain ⟨u, hu, hrest⟩ := Option.bind_eq_some_iff.mp hr
    cases e with
    | assign handler code =>
      obtain ⟨hb, hlog⟩ := h.assign hu
      obtain ⟨hb', hlog'⟩ := ih hb hrest
      rw [List.append_assoc] at hb'
      rw [hlog] at hlog'
      exact ⟨hb', hlog'⟩
    | request =>
      have hu' : u = { t with log := t.log ++ [madeCalls hist] } := by
        rw [← h.calls]
        exact (Option.some.inj hu).symm
      subst hu'
      have hb : Built hist { t with log := t.log ++ [madeCalls hist] } := ⟨h.chain, h.current⟩
      obtain ⟨hb', hlog'⟩ := ih hb hrest
      refine ⟨hb', ?_⟩
      rw [hlog', List.append_assoc]
      rfl

/-! ## When the calls are those wanted -/

/-- No assignment yet, or a single one, of a closure. -/
def Single (hist : List (Option KeyFrameHandler)) : Prop := hist = [] ∨ ∃ handler, hist = [some handler]

theorem null_mem_madeCalls {hist : List (Option KeyFrameHandler)} (h : none ∈ hist) :
    PliCall.null ∈ madeCalls hist :=
  List.mem_flatMap.mpr ⟨none, h, List.mem_singleton.mpr rfl⟩

theorem null_not_mem_wantedCalls (hist : List (Option KeyFrameHandler)) : PliCall.null ∉ wantedCalls hist := by
  unfold wantedCalls
  cases lastAssigned hist with
  | none => exact List.not_mem_nil
  | some handler => exact fun h => absurd (List.mem_singleton.mp h) PliCall.noConfusion

/-- Closures only: each assignment adds one call. -/
theorem length_madeCalls {hist : List (Option KeyFrameHandler)} (h : none ∉ hist) :
    (madeCalls hist).length = hist.length * (wantedCalls hist).length := by
  unfold madeCalls
  rw [List.length_flatMap]
  have hone : ∀ handler ∈ hist, (if handler.isNone then [PliCall.null] else wantedCalls hist).length =
      (wantedCalls hist).length := by
    intro handler hmem
    cases handler with
    | none => exact absurd hmem h
    | some x => rfl
  rw [List.map_congr_left hone, List.map_const', List.sum_replicate_nat]

theorem madeCalls_eq_iff (hist : List (Option KeyFrameHandler)) : madeCalls hist = wantedCalls hist ↔ Single hist := by
  refine ⟨fun h => ?_, fun h => ?_⟩
  · have hnone : none ∉ hist := fun hmem => null_not_mem_wantedCalls hist (h ▸ null_mem_madeCalls hmem)
    have hlength := length_madeCalls hnone
    rw [h] at hlength
    rcases List.eq_nil_or_concat' hist with rfl | ⟨front, last, rfl⟩
    · exact Or.inl rfl
    · cases last with
      | none => exact absurd List.mem_concat_self hnone
      | some handler =>
        -- the last closure is wanted once, and called once for each assignment
        have hwanted : (wantedCalls (front ++ [some handler])).length = 1 := by
          unfold wantedCalls
          rw [lastAssigned_concat]
          rfl
        rw [hwanted, mul_one, List.length_append, List.length_singleton] at hlength
        have hfront : front = [] := List.eq_nil_of_length_eq_zero (by omega)
        exact Or.inr ⟨handler, by rw [hfront, List.nil_append]⟩
  · rcases h with rfl | ⟨handler, rfl⟩
    · rfl
    · rfl

theorem madeLog_eq_iff (hist : List (Option KeyFrameHandler)) (es : List PliEvent) :
    madeLog hist es = wantedLog hist es ↔
      ∀ before after, es = before ++ .request :: after → Single (hist ++ assignments before) := by
  induction es generalizing hist with
  | nil =>
    refine ⟨fun _ before after h => ?_, fun _ => rfl⟩
    exact absurd h.symm (List.append_ne_nil_of_right_ne_nil _ (List.cons_ne_nil _ _))
  | cons e es ih =>
    cases e with
    | assign handler code =>
      refine (ih (hist ++ [handler])).trans ⟨fun h before after he => ?_, fun h before after he => ?_⟩
      · cases before with
        | nil => cases he
        | cons e' before =>
          rw [List.cons_append, List.cons.injEq] at he
          obtain ⟨rfl, he⟩ := he
          have hs := h before after he
          rw [List.append_assoc] at hs
          exact hs
      · rw [List.append_assoc]
        exact h (.assign handler code :: before) after (congrArg _ he)
    | request =>
      show madeCalls hist :: madeLog hist es = wantedCalls hist :: wantedLog hist es ↔ _
      rw [List.cons.injEq, madeCalls_eq_iff, ih]
      refine ⟨fun ⟨hnow, h⟩ before after he => ?_, fun h => ⟨?_, fun before after he => ?_⟩⟩
      · cases before with
        | nil => exact (List.append_nil hist).symm ▸ hnow
        | cons e' before =>
          rw [List.cons_append, List.cons.injEq] at he
          obtain ⟨rfl, he⟩ := he
          exact h before after he
      · exact List.append_nil hist ▸ h [] es rfl
      · exact h (.request :: before) after (congrArg _ he)

theorem null_not_mem_wantedLog (hist : List (Option KeyFrameHandler)) (es : List PliEvent) :
    ∀ calls ∈ wantedLog hist es, PliCall.null ∉ calls := by
  induction es generalizing hist with
  | nil => exact fun calls h => absurd h List.not_mem_nil
  | cons e es ih =>
    cases e with
    | assign handler code => exact ih (hist ++ [handler])
    | request =>
      intro calls h
      rcases List.mem_cons.mp h with rfl | h
      · exact null_not_mem_wantedCalls hist
      · exact ih hist calls h

/-! ## One call for each request -/

/-- Each request has called the closure assigned last before it once, or nothing if that was nil, and none has called a
null pointer. -/
structure OneCall (es : List PliEvent) (t : PliTrack) : Prop where
  calls : t.log = wantedLog [] es
  noNull : ∀ calls ∈ t.log, PliCall.null ∉ calls

/-- **Keyframe requests.** In a run of a new track each request is one call of the current handler exactly when, before
each request, the property was assigned at most once, and then a closure. -/
theorem one_call_iff {es : List PliEvent} {t : PliTrack} (h : exec PliTrack.step {} es = some t) :
    OneCall es t ↔ ∀ before after, es = before ++ .request :: after → Single (assignments before) := by
  obtain ⟨-, hlog⟩ := run_log built_start h
  have hlog' : t.log = madeLog [] es := hlog
  have hiff := madeLog_eq_iff [] es
  refine ⟨fun hone => hiff.mp (hlog' ▸ hone.calls), fun hsingle => ?_⟩
  have hcalls : t.log = wantedLog [] es := hlog'.trans (hiff.mpr hsingle)
  refine ⟨hcalls, ?_⟩
  rw [hcalls]
  exact null_not_mem_wantedLog [] es

/-- A unit is made and stopped on a track: the next request calls a null pointer. -/
theorem stopped_unit_calls_null : ∃ t,
    exec PliTrack.step {} [.assign (some (.forward 0)) 0, .request, .assign none 0, .request] = some t ∧
      ¬ OneCall [.assign (some (.forward 0)) 0, .request, .assign none 0, .request] t ∧
      t.log = [[.closure (.forward 0)], [.null]] := by
  refine ⟨_, rfl, fun h => ?_, rfl⟩
  exact h.noNull [.null] (by decide) (by decide)

theorem one_call_example : ∃ t,
    exec PliTrack.step {} [.assign (some (.forward 0)) 0, .request] = some t ∧
      OneCall [.assign (some (.forward 0)) 0, .request] t := by
  refine ⟨_, rfl, (one_call_iff rfl).mpr fun before after h => ?_⟩
  match before, h with
  | [], h => exact Or.inl rfl
  | [e], h =>
    cases h
    exact Or.inr ⟨_, rfl⟩
  | [_, _], h => cases h
  | _ :: _ :: _ :: _, h => cases h

end AlloDataChannel

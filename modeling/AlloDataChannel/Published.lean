import AlloDataChannel.Callbacks
import AlloDataChannel.PeerState
import AlloDataChannel.Sdp
import AlloDataChannel.Watch

/-!
# The published properties of a peer and of its channels

* `LivePeer`, `LivePeer.step` : a peer with all that its callbacks publish;
* `channelProperty` : a published property of a channel object;
* `Waitable` : the properties that `waitFor` can be called on, those of an `Equatable` and `Sendable` type;
* `published_wait` : the law of `waitFor` for each of them.
-/

namespace AlloDataChannel
open Lib (Scalars Segmentation Execution exec moment)

/-! ## All callbacks of a peer -/

/-- A peer with its published states. -/
structure LivePeer where
  world : World
  states : States := {}

/-- A step of the peer, a callback on its states, or one on its local description and candidates. -/
inductive LiveEvent
  | peer (e : Event)
  | states (cb : StateCallback)
  | signal (e : SignalEvent)
  deriving DecidableEq, Repr

def LivePeer.step (S : Segmentation) (p : LivePeer) : LiveEvent → Option LivePeer
  | .peer e => (AlloDataChannel.step S p.world e).map fun world => { p with world := world }
  | .states cb => (cb.run p.states).map fun states => { p with states := states }
  | .signal e => (e.run S p.world.peer).map fun peer => { p with world := { p.world with peer := peer } }

/-! ## Properties of the channels -/

/-- The callback of the object `ref` that an event is. -/
def Heap.callbackOf (h : Heap) (ref : Nat) : Event → Option ChannelCallback
  | .channelCallback id cb => if h.userPtr id = some ref then some cb else none
  | _ => none

/-- An object runs the callbacks on the ids that lead to it, and is left alone else. -/
theorem HeapStep.moment {h h' : Heap} {e : Event} (hs : HeapStep h e h') (ref : Nat) :
    Lib.moment ChannelCallback.run (h.state ref) (h.callbackOf ref e) = some (h'.state ref) := by
  cases hs with
  | callback id cb r s event pointer run =>
    subst event
    by_cases hr : r = ref
    · subst hr
      simp [Heap.callbackOf, pointer, Lib.moment, run]
    · have hne : ref ≠ r := fun heq => hr heq.symm
      simp [Heap.callbackOf, pointer, hr, Lib.moment, Function.update_of_ne hne]
  | same quiet =>
    have hnone : h.callbackOf ref e = none := by
      cases e with
      | channelCallback id cb => simpa [Event.callbackOn] using quiet id
      | _ => rfl
    rw [hnone]
    rfl
  | alloc c href quiet =>
    have hnone : h.callbackOf ref e = none := by
      cases e with
      | channelCallback id cb => simpa [Event.callbackOn] using quiet id
      | _ => rfl
    rw [hnone]
    rfl

/-- What the callbacks of a channel assign. -/
theorem ChannelCallback.run_cases {cb : ChannelCallback} {s t : ChannelState} (h : cb.run s = some t) :
    (∃ isOpen, (cb = .opened ∨ cb = .closed) ∧ t = { s with isOpen := isOpen }) ∨
      (∃ cerror error, cb = .error cerror ∧ t = { s with lastError := some error }) ∨
      ∃ cdata size data, cb = .message cdata size ∧ t = { s with lastMessage := some data } := by
  cases cb with
  | opened =>
    cases h
    exact Or.inl ⟨true, Or.inl rfl, rfl⟩
  | closed =>
    cases h
    exact Or.inl ⟨false, Or.inr rfl, rfl⟩
  | error cerror =>
    obtain ⟨error, -, rfl⟩ := Option.map_eq_some_iff.mp h
    exact Or.inr (Or.inl ⟨cerror, error, rfl, rfl⟩)
  | message cdata size =>
    obtain ⟨bytes, -, h⟩ := Option.bind_eq_some_iff.mp h
    obtain ⟨data, -, h⟩ := Option.bind_eq_some_iff.mp h
    cases h
    exact Or.inr (Or.inr ⟨cdata, size, data, rfl, rfl⟩)

namespace ChannelState

def isOpenProperty : Property ChannelCallback.run Bool where
  get := isOpen
  assigns
    | _, .opened | _, .closed => true
    | _, _ => false
  keeps s cb t h hnot := by
    rcases ChannelCallback.run_cases h with ⟨_, rfl | rfl, -⟩ | ⟨_, _, -, rfl⟩ | ⟨_, _, _, -, rfl⟩
    · cases hnot
    · cases hnot
    · rfl
    · rfl

def lastErrorProperty : Property ChannelCallback.run (Option Scalars) where
  get := lastError
  assigns
    | _, .error _ => true
    | _, _ => false
  keeps s cb t h hnot := by
    rcases ChannelCallback.run_cases h with ⟨_, -, rfl⟩ | ⟨_, _, rfl, -⟩ | ⟨_, _, _, -, rfl⟩
    · rfl
    · cases hnot
    · rfl

def lastMessageProperty : Property ChannelCallback.run (Option Data) where
  get := lastMessage
  assigns
    | _, .message _ _ => true
    | _, _ => false
  keeps s cb t h hnot := by
    rcases ChannelCallback.run_cases h with ⟨_, -, rfl⟩ | ⟨_, _, -, rfl⟩ | ⟨_, _, _, rfl, -⟩
    · rfl
    · rfl
    · cases hnot

end ChannelState

/-! ## Properties of the peer -/

/-- What the state callbacks assign. -/
theorem StateCallback.run_cases {cb : StateCallback} {s t : States} (h : cb.run s = some t) :
    (∃ raw state, cb = .state raw ∧ t = { s with state := state }) ∨
      (∃ raw iceState, cb = .iceState raw ∧ t = { s with iceState := iceState }) ∨
      (∃ raw gatheringState, cb = .gatheringState raw ∧ t = { s with gatheringState := gatheringState }) ∨
      ∃ raw signalingState, cb = .signalingState raw ∧ t = { s with signalingState := signalingState } := by
  cases cb with
  | state raw =>
    obtain ⟨state, -, rfl⟩ := Option.map_eq_some_iff.mp h
    exact Or.inl ⟨raw, state, rfl, rfl⟩
  | iceState raw =>
    obtain ⟨iceState, -, rfl⟩ := Option.map_eq_some_iff.mp h
    exact Or.inr (Or.inl ⟨raw, iceState, rfl, rfl⟩)
  | gatheringState raw =>
    obtain ⟨gatheringState, -, rfl⟩ := Option.map_eq_some_iff.mp h
    exact Or.inr (Or.inr (Or.inl ⟨raw, gatheringState, rfl, rfl⟩))
  | signalingState raw =>
    obtain ⟨signalingState, -, rfl⟩ := Option.map_eq_some_iff.mp h
    exact Or.inr (Or.inr (Or.inr ⟨raw, signalingState, rfl, rfl⟩))

namespace States

def stateProperty : Property StateCallback.run State where
  get := state
  assigns
    | _, .state _ => true
    | _, _ => false
  keeps s cb t h hnot := by
    rcases StateCallback.run_cases h with ⟨_, _, rfl, -⟩ | ⟨_, _, -, rfl⟩ | ⟨_, _, -, rfl⟩ | ⟨_, _, -, rfl⟩
    · cases hnot
    · rfl
    · rfl
    · rfl

def gatheringStateProperty : Property StateCallback.run GatheringState where
  get := gatheringState
  assigns
    | _, .gatheringState _ => true
    | _, _ => false
  keeps s cb t h hnot := by
    rcases StateCallback.run_cases h with ⟨_, _, -, rfl⟩ | ⟨_, _, -, rfl⟩ | ⟨_, _, rfl, -⟩ | ⟨_, _, -, rfl⟩
    · rfl
    · rfl
    · cases hnot
    · rfl

end States

/-! ## All of them -/

namespace LivePeer
variable {S : Segmentation} {p q : LivePeer} {e : LiveEvent}

/-- The callback of the channel object `ref` that an event is. -/
def channelSees (ref : Nat) (p : LivePeer) : LiveEvent → Option ChannelCallback
  | .peer e => p.world.heap.callbackOf ref e
  | _ => none

def statesSee : LiveEvent → Option StateCallback
  | .states cb => some cb
  | _ => none

theorem channel_step (ref : Nat) (h : p.step S e = some q) :
    moment ChannelCallback.run (p.world.heap.state ref) (p.channelSees ref e) = some (q.world.heap.state ref) := by
  cases e with
  | peer e =>
    obtain ⟨w, hw, rfl⟩ := Option.map_eq_some_iff.mp h
    exact (heapStep_of_step hw).moment ref
  | states cb =>
    obtain ⟨states, -, rfl⟩ := Option.map_eq_some_iff.mp h
    rfl
  | signal e =>
    obtain ⟨peer, -, rfl⟩ := Option.map_eq_some_iff.mp h
    rfl

theorem states_step (h : p.step S e = some q) : moment StateCallback.run p.states (statesSee e) = some q.states := by
  cases e with
  | peer e =>
    obtain ⟨w, -, rfl⟩ := Option.map_eq_some_iff.mp h
    rfl
  | states cb =>
    obtain ⟨states, hstates, rfl⟩ := Option.map_eq_some_iff.mp h
    exact hstates
  | signal e =>
    obtain ⟨peer, -, rfl⟩ := Option.map_eq_some_iff.mp h
    rfl

/-- A property of the channel object `ref`. -/
def ofChannel {α : Type} (S : Segmentation) (ref : Nat) (P : Property ChannelCallback.run α) :
    Property (LivePeer.step S) α :=
  P.through (fun p => p.world.heap.state ref) (channelSees ref) fun _ _ _ h => channel_step ref h

def ofStates {α : Type} (S : Segmentation) (P : Property StateCallback.run α) : Property (LivePeer.step S) α :=
  P.through states (fun _ e => statesSee e) fun _ _ _ h => states_step h

end LivePeer

/-- The published properties that `waitFor` can be called on, by the type of their values. The other published types are
not `Equatable` or not `Sendable`. -/
inductive Waitable : Type → Type
  | state : Waitable State
  | gatheringState : Waitable GatheringState
  | isOpen (ref : Nat) : Waitable Bool
  | lastError (ref : Nat) : Waitable (Option Scalars)
  | lastMessage (ref : Nat) : Waitable (Option Data)

def Waitable.property (S : Segmentation) {α : Type} : Waitable α → Property (LivePeer.step S) α
  | .state => LivePeer.ofStates S States.stateProperty
  | .gatheringState => LivePeer.ofStates S States.gatheringStateProperty
  | .isOpen ref => LivePeer.ofChannel S ref ChannelState.isOpenProperty
  | .lastError ref => LivePeer.ofChannel S ref ChannelState.lastErrorProperty
  | .lastMessage ref => LivePeer.ofChannel S ref ChannelState.lastMessageProperty

/-- **Waiting for a peer.** In every interleaving of a call of `waitFor` on a published property with the callbacks and
the other steps of the peer. -/
theorem published_wait {α : Type} (S : Segmentation) (property : Waitable α) (predicate : α → Bool) (p : LivePeer) :
    WatchLaw (property.property S) predicate p := watch_law (property.property S) predicate p

/-- The peer is connected, and disconnected again, before the consumer has read anything. -/
def connectRun : List (WatchEvent LiveEvent) :=
  [.object (.states (.state 1)), .call .addTimer, .call .subscribe, .object (.states (.state 2)),
    .object (.states (.state 3)), .call .addConsumer, .call .consumer, .call .consumer, .call .next, .call .cancelAll,
    .call .timer, .call .leave]

/-- A call that waits for a new peer to be connected. -/
abbrev connectStep : Watch LivePeer State → WatchEvent LiveEvent → Option (Watch LivePeer State) :=
  Watch.step (Waitable.state.property .scalars) (· == .connected)

theorem published_wait_example : ∃ x : Execution connectStep { object := ⟨.start none, {}⟩ },
    (∀ n, x.event n = connectRun[n]?) ∧ ∃ n, ∀ m ≥ n, WaitFor.Over (x.state m).call .returned := by
  have h : (exec connectStep { object := ⟨.start none, {}⟩ } connectRun).map (fun w => w.call) =
      some { body := .left .returned, timer := .finished, consumer := .finished, results := [.returned, .cancelled],
             cancelled := true, stream := { buffer := [.disconnected] } } := by decide +kernel
  obtain ⟨w, hw, hcall⟩ := Option.map_eq_some_iff.mp h
  refine ⟨Execution.ofExec hw, fun n => rfl, (published_wait .scalars .state (· == .connected) _).returns
    (Execution.ofExec hw) ?_ ?_ ⟨4, ?_, ?_⟩⟩
  · refine Execution.weaklyFair_ofExec hw fun e he => ?_
    cases e with
    | object e => cases he
    | call c =>
      have hstep : w.call.step (· == State.connected) (c.event w.object.states.state) = none :=
        WaitFor.step_of_left (by rw [hcall]) (by rw [hcall]) (by rw [hcall]) (CallEvent.internal_iff.mpr he)
      exact Option.map_eq_none_iff.mpr hstep
  · intro n hn
    exact absurd (List.mem_of_getElem? hn) (by decide)
  · have hbody : (Execution.runState connectStep { object := ⟨.start none, {}⟩ } connectRun 4).call.body =
        .subscribed := by decide +kernel
    constructor
    · exact fun hstart => nomatch hbody.symm.trans hstart
    · exact fun hadded => nomatch hbody.symm.trans hadded
  · have hstate : (Execution.runState connectStep { object := ⟨.start none, {}⟩ } connectRun 4).object.states.state =
        .connected := by decide +kernel
    exact beq_iff_eq.mpr hstate

end AlloDataChannel

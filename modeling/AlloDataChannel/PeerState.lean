import AlloDataChannel.Types

/-!
# The published states of a peer

* `State`, `IceState`, `GatheringState`, `SignalingState` : the enumerations, with the raw values of the C API;
* `StateCallback.run` : the four state callbacks of `setupCallbacks`; `none` is the trap of an unknown raw value.
-/

namespace AlloDataChannel

inductive State
  | new
  | connecting
  | connected
  | disconnected
  | failed
  | closed
  deriving DecidableEq, Repr

def State.rawValue : State → Nat
  | .new => 0
  | .connecting => 1
  | .connected => 2
  | .disconnected => 3
  | .failed => 4
  | .closed => 5

def State.ofRawValue (n : Nat) : Option State :=
  [State.new, .connecting, .connected, .disconnected, .failed, .closed].find? fun s => s.rawValue = n

inductive IceState
  | new
  | checking
  | connected
  | completed
  | failed
  | disconnected
  | closed
  deriving DecidableEq, Repr

def IceState.rawValue : IceState → Nat
  | .new => 0
  | .checking => 1
  | .connected => 2
  | .completed => 3
  | .failed => 4
  | .disconnected => 5
  | .closed => 6

def IceState.ofRawValue (n : Nat) : Option IceState :=
  [IceState.new, .checking, .connected, .completed, .failed, .disconnected, .closed].find? fun s => s.rawValue = n

inductive GatheringState
  | new
  | inProgress
  | complete
  deriving DecidableEq, Repr

def GatheringState.rawValue : GatheringState → Nat
  | .new => 0
  | .inProgress => 1
  | .complete => 2

def GatheringState.ofRawValue (n : Nat) : Option GatheringState :=
  [GatheringState.new, .inProgress, .complete].find? fun s => s.rawValue = n

inductive SignalingState
  | stable
  | haveLocalOffer
  | haveRemoteOffer
  | haveLocalPRAnswer
  | haveRemotePRAnswer
  deriving DecidableEq, Repr

def SignalingState.rawValue : SignalingState → Nat
  | .stable => 0
  | .haveLocalOffer => 1
  | .haveRemoteOffer => 2
  | .haveLocalPRAnswer => 3
  | .haveRemotePRAnswer => 4

def SignalingState.ofRawValue (n : Nat) : Option SignalingState :=
  [SignalingState.stable, .haveLocalOffer, .haveRemoteOffer, .haveLocalPRAnswer, .haveRemotePRAnswer].find? fun s =>
    s.rawValue = n

/-- The four published states of a peer. -/
structure States where
  state : State := .new
  signalingState : SignalingState := .stable
  iceState : IceState := .new
  gatheringState : GatheringState := .new
  deriving DecidableEq, Repr

/-- The state callbacks, with the raw values that the C library passes. -/
inductive StateCallback
  | state (raw : Nat)
  | iceState (raw : Nat)
  | gatheringState (raw : Nat)
  | signalingState (raw : Nat)
  deriving DecidableEq, Repr

def StateCallback.run (s : States) : StateCallback → Option States
  | .state raw => (State.ofRawValue raw).map fun state => { s with state := state }
  | .iceState raw => (IceState.ofRawValue raw).map fun iceState => { s with iceState := iceState }
  | .gatheringState raw =>
    (GatheringState.ofRawValue raw).map fun gatheringState => { s with gatheringState := gatheringState }
  | .signalingState raw =>
    (SignalingState.ofRawValue raw).map fun signalingState => { s with signalingState := signalingState }

end AlloDataChannel

import AlloDataChannel.Callbacks
import AlloDataChannel.Forwarding
import AlloDataChannel.KeyFrames

/-!
# Peers and the units between them

Several peers, and `MediaForwardingUnit` objects that forward tracks of one peer to another one (or the same).

* `System.create` : `MediaForwardingUnit.init` between two peers, up to the replay of the current message;
* `System.deliver` : an assignment to `lastMessage` goes to every unit on the track;
* `System.stop` : `stop()`; `System.pli` : a keyframe request from the remote side of a track;
* `System.step` : a new peer, a step of a peer, a unit created or stopped, a keyframe request.
-/

namespace AlloDataChannel
open Lib (Scalars Segmentation exec)

/-- A `MediaForwardingUnit` object: the client id and the peers that it was made for, whether it is subscribed to its
ingress track, and all that it has handed to `send`. -/
structure UnitObject where
  fromClientId : Scalars
  ingressPeer : Nat
  egressPeer : Nat
  unit : MediaForwardingUnit
  subscribed : Bool := true
  sent : List Data := []

/-- The part of a unit that messages leave as it is. -/
structure Route where
  fromClientId : Scalars
  ingressPeer : Nat
  egressPeer : Nat
  ingressTrack : Track
  egressTrack : Track
  subscribed : Bool
  deriving DecidableEq, Repr

/-- The ingress track object, by its peer and identity. -/
def Route.ingressKey (r : Route) : Nat × Nat := (r.ingressPeer, r.ingressTrack.ref)

def Route.egressKey (r : Route) : Nat × Nat := (r.egressPeer, r.egressTrack.ref)

/-- The C id of the egress track, by its peer. -/
def Route.egressId (r : Route) : Nat × Int := (r.egressPeer, r.egressTrack.id)

def Route.source (r : Route) : Source := ⟨r.fromClientId, r.ingressTrack⟩

namespace UnitObject

def route (x : UnitObject) : Route where
  fromClientId := x.fromClientId
  ingressPeer := x.ingressPeer
  egressPeer := x.egressPeer
  ingressTrack := x.unit.ingressTrack
  egressTrack := x.unit.egressTrack
  subscribed := x.subscribed

/-- The unit alone, for the `isOpen` of its egress track. -/
def forwarder (x : UnitObject) (isOpen : Bool) : Forwarder :=
  { unit := x.unit, isOpen := isOpen, subscribed := x.subscribed, sent := x.sent }

/-- A value of `lastMessage` reaches the unit. -/
def receive (R : RtpLibrary) (x : UnitObject) (isOpen : Bool) (message : Option Data) (ans : SinkAnswers) :
    Option UnitObject :=
  ((x.forwarder isOpen).step R (.arrival message ans)).map fun f => { x with unit := f.unit, sent := f.sent }

end UnitObject

/-- The peers and units made so far. `handlers` tells which unit the closure in `onKeyFrameRequested` of a track object
belongs to, `chains` the media handlers of each id, and `requested` the ids that `rtcRequestKeyframe` was called on. -/
structure System where
  peers : List World := []
  units : List UnitObject := []
  handlers : Nat × Nat → Option Nat := fun _ => none
  chains : Nat × Int → List PliHandler := fun _ => []
  requested : List (Nat × Int) := []

/-- `ans` has the answers to each unit that a message reaches, `first` those to the replay of the current one. -/
inductive SystemEvent
  | newPeer (ipOverride : Option IPOverride)
  | peer (p : Nat) (e : Event) (ans : Nat → SinkAnswers)
  | create (ingressPeer : Nat) (a : Source) (egressPeer : Nat) (ans : InitAnswers) (first : SinkAnswers)
  | stop (u : Nat) (code : Int)
  | pli (q : Nat) (id : Int)

/-- The object whose `lastMessage` an event assigns. -/
def World.published (w : World) : Event → Option Nat
  | .channelCallback id (.message _ _) => w.heap.userPtr id
  | _ => none

/-- An assignment to `onKeyFrameRequested`, apart from the handler that it chains. -/
def World.setClosure (w : World) (ref : Nat) (handler : Option KeyFrameHandler) : World :=
  w.setState ref { w.heap.state ref with onKeyFrameRequested := handler }

namespace System

def setPeer (s : System) (p : Nat) (w : World) : System := { s with peers := s.peers.set p w }

def routes (s : System) : List Route := s.units.map UnitObject.route

/-- The state of a channel object, by its peer and identity. -/
def state (s : System) (k : Nat × Nat) : ChannelState := (s.peers[k.1]?).elim {} fun w => w.heap.state k.2

/-- What a message on the track `k` is for a unit. -/
def hear (R : RtpLibrary) (s : System) (k : Nat × Nat) (message : Option Data) (ans : SinkAnswers) (x : UnitObject) :
    Option UnitObject :=
  if x.route.ingressKey = k then x.receive R (s.state x.route.egressKey).isOpen message ans else some x

/-- `lastMessage` of the track `k` is assigned: the units on it get the message, one after the other. -/
def deliver (R : RtpLibrary) (s : System) (k : Nat × Nat) (message : Option Data) (ans : Nat → SinkAnswers) :
    Nat → List UnitObject → Option (List UnitObject)
  | _, [] => some []
  | u, x :: xs => do
    let x' ← s.hear R k message (ans u) x
    let xs' ← deliver R s k message ans (u + 1) xs
    pure (x' :: xs')

/-- A step of the peer `p`, with what it publishes. -/
def stepPeer (S : Segmentation) (R : RtpLibrary) (s : System) (p : Nat) (e : Event) (ans : Nat → SinkAnswers) :
    Option System :=
  match s.peers[p]? with
  | none => some s
  | some w =>
    match AlloDataChannel.step S w e with
    | none => none
    | some w' =>
      let s' := s.setPeer p w'
      match w.published e with
      | none => some s'
      | some ref =>
        (s'.deliver R (p, ref) (w'.heap.state ref).lastMessage ans 0 s.units).map fun units =>
          { s' with units := units }

/-- The end of `MediaForwardingUnit.init`: the handler and the subscription, which replays the current message. -/
def attach (R : RtpLibrary) (s : System) (x : UnitObject) (first : SinkAnswers) : Option System :=
  (x.receive R (s.state x.route.egressKey).isOpen (s.state x.route.ingressKey).lastMessage first).map fun x' =>
    { s with
      units := s.units ++ [x']
      handlers := Function.update s.handlers x.route.egressKey (some s.units.length)
      chains := Function.update s.chains x.route.egressId (s.chains x.route.egressId ++ [.current]) }

/-- `MediaForwardingUnit.init` for a track object of the peer `p`. A failed one leaves no unit. -/
def create (S : Segmentation) (R : RtpLibrary) (s : System) (p : Nat) (a : Source) (q : Nat) (ans : InitAnswers)
    (first : SinkAnswers) : Option System :=
  match s.peers[p]? with
  | none => some s
  | some w =>
    if w.heap.objects[a.ingressTrack.ref]? = some (.track a.ingressTrack) then
      match (w.heap.state a.ingressTrack.ref).installRtcpReceivingSession ans.ingressSession with
      | (.error _, _) => some s
      | (.ok _, ingress) =>
        let s' := s.setPeer p (w.setState a.ingressTrack.ref ingress)
        match s'.peers[q]? with
        | none => some s'
        | some v =>
          match MediaForwardingUnit.init S ingress v a ans with
          | none => none
          | some (.error _, _, v') => some (s'.setPeer q v')
          | some (.ok u, _, v') =>
            (s'.setPeer q v').attach R
              { fromClientId := a.fromClientId, ingressPeer := p, egressPeer := q, unit := u } first
    else some s

/-- `stop()`: the subscription is cancelled, nil assigned to the handler of the egress track, and the track closed. -/
def stop (s : System) (u : Nat) (code : Int) : Option System :=
  match s.units[u]? with
  | none => some s
  | some x =>
    match s.peers[x.egressPeer]? with
    | none => some s
    | some w =>
      match Error.orValue code with
      | .error _ => none
      | .ok _ =>
        some { s.setPeer x.egressPeer ((w.setClosure x.unit.egressTrack.ref none).close x.unit.egressTrack.ref) with
          units := s.units.set u { x with subscribed := false }
          handlers := Function.update s.handlers x.route.egressKey none
          chains := Function.update s.chains x.route.egressId (s.chains x.route.egressId ++ [.null]) }

/-- The request that the handler of a track makes: none if the ingress track of its unit is closed. -/
def relayed (s : System) (k : Nat × Nat) : List (Nat × Int) :=
  match s.handlers k with
  | none => []
  | some u =>
    match s.routes[u]? with
    | none => []
    | some r => if (s.state r.ingressKey).isOpen then [(r.ingressPeer, r.ingressTrack.id)] else []

/-- One call of a media handler for the track object `k`; a null pointer traps. -/
def call (k : Nat × Nat) (s : System) : PliCall → Option System
  | .null => none
  | .closure _ => some { s with requested := s.requested ++ s.relayed k }

/-- A keyframe request: every handler in the chain of the id is called, with the object of the user pointer. -/
def pli (s : System) (q : Nat) (id : Int) : Option System :=
  match s.peers[q]? with
  | none => some s
  | some w =>
    match w.heap.userPtr id with
    | none => if s.chains (q, id) = [] then some s else none
    | some ref => exec (call (q, ref)) s ((s.chains (q, id)).flatMap (PliHandler.calls (w.heap.state ref)))

def step (S : Segmentation) (R : RtpLibrary) (s : System) : SystemEvent → Option System
  | .newPeer ipOverride => some { s with peers := s.peers ++ [.start ipOverride] }
  | .peer p e ans => s.stepPeer S R p e ans
  | .create p a q ans first => s.create S R p a q ans first
  | .stop u code => s.stop u code
  | .pli q id => s.pli q id

end System

/-! ## Two peers and a unit -/

/-- A track that a remote side announces. -/
def relayTrack : Track :=
  { ref := 0, id := 7, streamId := "cam".toList, trackId := "audio".toList, direction := .recvonly, ssrcs := [3] }

/-- Two peers, and a track of the first one. -/
def relaySetup : List SystemEvent :=
  [.newPeer none, .newPeer none,
    .peer 0 (.trackCallback 7 "a=msid:cam audio".toList { ssrcs := [3], direction := .recvonly })
      fun _ => exampleAnswers]

/-- A unit that forwards the track to the second peer for the client `a`. -/
def relayCreate (draw : Draw) : SystemEvent := .create 0 ⟨"a".toList, relayTrack⟩ 1 (initAnswers draw 9) exampleAnswers

def relayEvents (draw : Draw) : List SystemEvent := relaySetup ++ [relayCreate draw]

/-- The unit that they leave. -/
def relayRoute (subscribed : Bool) : Route where
  fromClientId := "a".toList
  ingressPeer := 0
  egressPeer := 1
  ingressTrack := relayTrack
  egressTrack :=
    { ref := 0, id := 9, streamId := "a.cam".toList, trackId := "audio".toList, direction := .sendonly, ssrcs := [5] }
  subscribed := subscribed

end AlloDataChannel

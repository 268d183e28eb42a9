import AlloDataChannel.Callbacks
import AlloDataChannel.CreateTrack
import AlloDataChannel.KeyFrames
import AlloDataChannel.PeerState
import AlloDataChannel.Rtp
import AlloDataChannel.Sdp

/-!
# The SFU of the examples

`main` makes an ingress peer with one video track, and then receivers without end. Its statements interleave with the
callbacks of all peers.

* `Receiver` : a receiver; it is in the array before it has a track;
* `forward` : the loop of the sink on the ingress track;
* `Stage`, `Sfu.main` : the statements of `main`, with their exits;
* `Sfu.step` : one statement or one callback; `none` is a trap;
* `Sound` : the invariants of one of the peers, with its track.
-/

namespace AlloDataChannel
open Lib (Scalars Segmentation Run exec)

def trackSsrc : UInt32 := 42

/-- The arguments of the two `createTrack` calls. -/
def videoArgs (direction : Direction) : TrackArgs where
  streamId := "videostream".toList
  trackId := "videotrack".toList
  direction := direction
  codec := .H264
  sampleOrBitrate := 30000
  channelCount := 0
  ssrc := some trackSsrc

/-- Where `main` is. The statements from `lock` on are those of the ingress peer first, and then of each receiver. -/
inductive Stage
  | lock (egress : Bool)
  | gather (egress : Bool)
  | answer (egress : Bool)
  | append
  | observe
  | createTrack
  | session
  | handler
  /-- `main` has thrown, and the process is gone. -/
  | ended
  deriving DecidableEq, Repr

/-- What a statement of `main` gets: the code of its C call, the answers about a new track, whether `waitFor` returned
normally, the next line of the input and whether it decodes, and the sections of the description in it. -/
structure MainAnswers where
  code : Int := 0
  track : TrackAnswers := ⟨[], .unknown⟩
  gathered : Bool := true
  line : Option Bool := some true
  secs : List Section := []
  ids : List Int := []

/-- `Receiver`, with the published states of its peer, whether its `$state` is observed, the handlers chained on its
track, and all that was handed to `send`. -/
structure Receiver where
  peer : World := .start none
  states : States := {}
  observed : Bool := false
  track : Option Track := none
  chain : List PliHandler := []
  sent : List Data := []

namespace Receiver

/-- `track.isOpen`, where there is a track. -/
def isOpen (r : Receiver) : Bool := r.track.any fun t => (r.peer.heap.state t.ref).isOpen

/-- `receiver.track = try receiver.peer.createTrack(…)`, and whether `main` goes on. -/
def createTrack (S : Segmentation) (r : Receiver) (ans : MainAnswers) : Option (Bool × Receiver) :=
  match r.peer.createTrack S (videoArgs .sendonly) [] ans.code ans.track with
  | none => none
  | some (.error _, peer) => some (false, { r with peer := peer })
  | some (.ok track, peer) => some (true, { r with peer := peer, track := some track })

def installRtcpReceivingSession (r : Receiver) (ans : MainAnswers) : Option (Bool × Receiver) :=
  r.track.map fun t =>
    let result := (r.peer.heap.state t.ref).installRtcpReceivingSession ans.code
    (result.1.isOk, { r with peer := r.peer.setState t.ref result.2 })

/-- The assignment to `receiver.track.onKeyFrameRequested`. -/
def setOnKeyFrameRequested (ingress : Track) (r : Receiver) (ans : MainAnswers) : Option (Bool × Receiver) :=
  match r.track with
  | none => none
  | some t =>
    ((PliTrack.mk (r.peer.heap.state t.ref) r.chain []).setOnKeyFrameRequested (some (.forward ingress.ref))
      ans.code).map fun p => (true, { r with peer := r.peer.setState t.ref p.state, chain := p.chain })

/-- What a keyframe request on the receiver's track calls. -/
def pliCalls (r : Receiver) : List PliCall :=
  match r.track with
  | none => []
  | some t => r.chain.flatMap (PliHandler.calls (r.peer.heap.state t.ref))

end Receiver

/-- The loop of the sink on `lastMessage` of the ingress track. `none` is the trap of a receiver without a track, or of
a message that does not fit the C `int`. -/
def forward (R : RtpLibrary) (message : Option Data) (codes : Nat → Int) : Nat → List Receiver → Option (List Receiver)
  | _, [] => some []
  | i, r :: rs =>
    match message with
    | none => some (r :: rs)
    | some data =>
      match r.track with
      | none => none
      | some t =>
        if (r.peer.heap.state t.ref).isOpen then
          -- a failed `send` is printed, and the loop goes on
          match Channel.send (RtpHeaderRewriteSSRC R data trackSsrc) (codes i) with
          | none => none
          | some _ =>
            (forward R message codes (i + 1) rs).map
              ({ r with sent := r.sent ++ [RtpHeaderRewriteSSRC R data trackSsrc] } :: ·)
        else some (r :: rs)

section Forward
variable {R : RtpLibrary} {data : Data} {codes : Nat → Int} {i : Nat} {r : Receiver} {rs : List Receiver}

theorem forward_none : forward R none codes i rs = some rs := by
  cases rs <;> rfl

theorem forward_missing (h : r.track = none) : forward R (some data) codes i (r :: rs) = none := by
  rw [forward, h]

theorem forward_closed {t : Track} (ht : r.track = some t) (h : r.isOpen = false) :
    forward R (some data) codes i (r :: rs) = some (r :: rs) := by
  rw [Receiver.isOpen, ht, Option.any_some] at h
  rw [forward, ht]
  dsimp only
  rw [h]
  rfl

theorem forward_open (h : r.isOpen = true) :
    forward R (some data) codes i (r :: rs) =
      (Channel.send (RtpHeaderRewriteSSRC R data trackSsrc) (codes i)).bind fun _ =>
        (forward R (some data) codes (i + 1) rs).map
          ({ r with sent := r.sent ++ [RtpHeaderRewriteSSRC R data trackSsrc] } :: ·) := by
  obtain ⟨peer, states, observed, track, chain, sent⟩ := r
  cases track with
  | none => cases h
  | some t =>
    have hopen : (peer.heap.state t.ref).isOpen = true := h
    rw [forward]
    dsimp only
    rw [if_pos hopen]
    cases Channel.send (RtpHeaderRewriteSSRC R data trackSsrc) (codes i) <;> rfl

end Forward

/-- The local state of `main`; `requests` counts the calls of `rtcRequestKeyframe` on the ingress track. -/
structure Sfu where
  ingress : World
  ingressVideo : Track
  requests : Nat := 0
  receivers : List Receiver := []
  stage : Stage := .lock false

inductive SfuEvent
  | main (ans : MainAnswers)
  /-- A callback of the ingress peer, with the codes of `rtcSendMessage` for the receivers. -/
  | ingress (e : Event) (codes : Nat → Int)
  | ingressDescription (sdp type : Scalars)
  | receiver (i : Nat) (e : Event)
  | receiverDescription (i : Nat) (sdp type : Scalars)
  | receiverState (i : Nat) (cb : StateCallback)
  /-- A keyframe request from the remote side of a receiver. -/
  | pli (i : Nat)

/-- The local description callback of a peer. -/
def World.described (S : Segmentation) (w : World) (sdp type : Scalars) : Option World :=
  (w.peer.localDescriptionCallback S sdp type).map fun peer => { w with peer := peer }

namespace Sfu

/-- `main` up to the subscription, for a new ingress peer: the state after it, or none if it has thrown. -/
def setup (S : Segmentation) (ans : MainAnswers) (session : Int) : Option (Option Sfu) :=
  match (World.start none).createTrack S (videoArgs .recvonly) [] ans.code ans.track with
  | none => none
  | some (.error _, _) => some none
  | some (.ok track, w) =>
    match (w.heap.state track.ref).installRtcpReceivingSession session with
    | (.error _, _) => some none
    | (.ok _, state) => some (some { ingress := w.setState track.ref state, ingressVideo := track })

def ingressOpen (s : Sfu) : Bool := (s.ingress.heap.state s.ingressVideo.ref).isOpen

/-- `guard ingressVideo.isOpen else { return }` and `try? ingressVideo.requestKeyFrame()`. -/
def requestKeyFrame (s : Sfu) : Sfu := if s.ingressOpen then { s with requests := s.requests + 1 } else s

/-- The index of `receiver`, the receiver appended last. -/
def newest (s : Sfu) : Nat := s.receivers.length - 1

/-- A statement about the newest receiver, which may throw. -/
def onReceiver (s : Sfu) (next : Stage) (f : Receiver → Option (Bool × Receiver)) : Option Sfu :=
  match s.receivers[s.newest]? with
  | none => some s
  | some r =>
    (f r).map fun p =>
      { s with
        receivers := s.receivers.set s.newest p.2
        stage := if p.1 then next else .ended }

/-- The peer that the negotiation is about, with a change to it. -/
def onPeer (s : Sfu) (egress : Bool) (next : Stage) (f : World → Option (Bool × World)) : Option Sfu :=
  if egress then s.onReceiver next fun r => (f r.peer).map fun p => (p.1, { r with peer := p.2 })
  else (f s.ingress).map fun p => { s with ingress := p.2, stage := if p.1 then next else .ended }

/-- The next statement of `main`. -/
def main (S : Segmentation) (s : Sfu) (ans : MainAnswers) : Option Sfu :=
  match s.stage with
  | .lock egress => s.onPeer egress (.gather egress) fun w => some ((Error.orValue ans.code).isOk, w)
  | .gather egress =>
    s.onPeer egress (.answer egress) fun w =>
      if ans.gathered then w.peer.localDescription.map fun _ => (true, w) else some (false, w)
  | .answer egress =>
    s.onPeer egress .append fun w =>
      match ans.line with
      | none => none
      | some false => some (false, w)
      | some true => some ((w.setRemote ans.secs ans.ids ans.code).1.isOk, (w.setRemote ans.secs ans.ids ans.code).2)
  | .append => some { s with receivers := s.receivers ++ [{}], stage := .observe }
  | .observe =>
    -- the subscription gets the current state at once
    (s.onReceiver .createTrack fun r => some (true, { r with observed := true })).map fun t =>
      if s.receivers[s.newest]?.any fun r => r.states.state = .connected then t.requestKeyFrame else t
  | .createTrack => s.onReceiver .session (Receiver.createTrack S · ans)
  | .session => s.onReceiver .handler (Receiver.installRtcpReceivingSession · ans)
  | .handler => s.onReceiver (.lock true) (Receiver.setOnKeyFrameRequested s.ingressVideo · ans)
  | .ended => some s

/-- The message that a callback of the ingress peer assigns to `lastMessage` of the ingress track. -/
def assigned (s : Sfu) (w' : World) : Event → Option Data
  | .channelCallback id (.message _ _) =>
    if s.ingress.heap.userPtr id = some s.ingressVideo.ref then (w'.heap.state s.ingressVideo.ref).lastMessage else none
  | _ => none

/-- A change to one receiver, if it is there. -/
def modifyReceiver (s : Sfu) (i : Nat) (f : Receiver → Option Receiver) : Option Sfu :=
  match s.receivers[i]? with
  | none => some s
  | some r => (f r).map fun r' => { s with receivers := s.receivers.set i r' }

/-- A step of the process while it runs. -/
def running (S : Segmentation) (R : RtpLibrary) (s : Sfu) : SfuEvent → Option Sfu
  | .main ans => s.main S ans
  | .ingress e codes => do
    let w ← step S s.ingress e
    let receivers ← forward R (s.assigned w e) codes 0 s.receivers
    pure { s with ingress := w, receivers := receivers }
  | .ingressDescription sdp type => (s.ingress.described S sdp type).map fun w => { s with ingress := w }
  | .receiver i e => s.modifyReceiver i fun r => (step S r.peer e).map fun w => { r with peer := w }
  | .receiverDescription i sdp type =>
    s.modifyReceiver i fun r => (r.peer.described S sdp type).map fun w => { r with peer := w }
  | .receiverState i cb =>
    (s.modifyReceiver i fun r => (cb.run r.states).map fun states => { r with states := states }).map fun t =>
      if (s.receivers[i]?.any fun r => r.observed) && cb = .state State.connected.rawValue then t.requestKeyFrame else t
  | .pli i =>
    match s.receivers[i]? with
    | none => some s
    | some r =>
      r.pliCalls.foldlM (fun t call => match call with
        | .null => none
        | .closure _ => some (requestKeyFrame t)) s

def step (S : Segmentation) (R : RtpLibrary) (s : Sfu) (e : SfuEvent) : Option Sfu :=
  if s.stage = .ended then some s else s.running S R e

end Sfu

/-! ## A peer and its track -/

def Event.IsCallback : Event → Prop
  | .dataChannelCallback .. => True
  | .trackCallback .. => True
  | .channelCallback .. => True
  | _ => False

/-- The invariants of a peer, whose objects there are with the track only, and whose track is registered. -/
structure Sound (kind : Int → ChannelKind) (w : World) (track : Option Track) : Prop where
  inv : Inv kind w
  pointed : w.heap.Pointed
  reachable : Reachable w
  registered : ∀ t, track = some t → .track t ∈ w.peer.channels
  fresh : track = none → w.heap = {}

namespace Sound
variable {S : Segmentation} {kind : Int → ChannelKind} {w w' : World} {track : Option Track} {t : Track}

theorem start (kind : Int → ChannelKind) : Sound kind (.start none) none where
  inv := .start kind none
  pointed := pointed_start none
  reachable c hc := absurd hc (Lib.KeyedSet.not_mem_empty c)
  registered _ ht := nomatch ht
  fresh _ := rfl

/-- Only the registry, the objects, their pointers and the pending calls matter. -/
theorem congr (h : Sound kind w track) (hr : w'.peer.toRegistry = w.peer.toRegistry)
    (ho : w'.heap.objects = w.heap.objects) (hp : w'.heap.userPtr = w.heap.userPtr)
    (hd : w'.pendingData = w.pendingData) (ht : w'.pendingTracks = w.pendingTracks)
    (hf : track = none → w'.heap = w.heap) : Sound kind w' track where
  inv := h.inv.congr hr ho (by rw [hd]; exact h.inv.pendingData) (by rw [ht]; exact h.inv.pendingTracks)
  pointed := by
    intro id ref hptr
    rw [hp] at hptr
    rw [ho]
    exact h.pointed id ref hptr
  reachable := h.reachable.congr hr hp
  registered t htrack := by
    rw [hr]
    exact h.registered t htrack
  fresh hnone := (hf hnone).trans (h.fresh hnone)

theorem setState (h : Sound kind w (some t)) (s : ChannelState) : Sound kind (w.setState t.ref s) (some t) :=
  h.congr rfl rfl rfl rfl rfl (fun hnone => nomatch hnone)

theorem setRemote (h : Sound kind w track) (secs : List Section) (ids : List Int) (code : Int) :
    Sound kind (w.setRemote secs ids code).2 track := by
  unfold World.setRemote
  split
  · exact h
  · exact h.congr rfl rfl rfl rfl rfl fun _ => rfl

theorem described (h : Sound kind w track) {sdp type : Scalars} (hs : w.described S sdp type = some w') :
    Sound kind w' track ∧ w'.heap = w.heap := by
  obtain ⟨peer, hpeer, rfl⟩ := Option.map_eq_some_iff.mp hs
  obtain ⟨type', -, rfl⟩ := Option.map_eq_some_iff.mp hpeer
  exact ⟨h.congr rfl rfl rfl rfl rfl fun _ => rfl, rfl⟩

theorem mem_of_callback {e : Event} (he : e.IsCallback) (hs : step S w e = some w') {c : Channel}
    (hc : c ∈ w.peer.channels) : c ∈ w'.peer.channels := by
  cases step_effect hs with
  | remoteDataChannel dcid ans fresh => exact (Registry.mem_insert_channels fresh).mpr (Or.inl hc)
  | remoteTrack dcid description ans msid fresh parsed => exact (Registry.mem_insert_channels fresh).mpr (Or.inl hc)
  | knownDataChannel dcid ans known => exact hc
  | knownTrack dcid description ans known => exact hc
  | channelCallback id cb ref s => exact hc
  | _ => exact he.elim

/-- A callback leaves the peer sound, and runs on the track if it is one on its id. -/
theorem callback (h : Sound kind w (some t)) {e : Event} (he : e.IsCallback) (henv : UniqueIds kind w e)
    (hs : step S w e = some w') : Sound kind w' (some t) ∧
      exec ChannelCallback.run (w.heap.state t.ref) (e.callbackOn t.id).toList = some (w'.heap.state t.ref) := by
  have hstep := heapStep_of_step hs
  have hmem := h.registered t rfl
  refine ⟨⟨h.inv.step henv hs, hstep.pointed h.pointed, h.reachable.step h.inv hs, fun t' ht' => ?_,
    fun hnone => nomatch hnone⟩, hstep.history h.pointed (h.reachable _ hmem)⟩
  exact mem_of_callback he hs (h.registered t' ht')

/-- The track that `createTrack` returns on a peer without objects is new and closed. -/
theorem createTrack (h : Sound kind w none) {a : TrackArgs} {draws : List Draw} {code : Int} {ans : TrackAnswers}
    {r : Except Thrown Track} (henv : 0 ≤ code → kind code = .track)
    (hs : w.createTrack S a draws code ans = some (r, w')) :
    Sound kind w' r.toOption ∧ ∀ t, r = .ok t → w'.heap.state t.ref = {} := by
  have hheap := h.fresh rfl
  have hnokey : ∀ id, w.peer.tracks.hasKey id = false := by
    intro id
    rw [Lib.KeyedSet.hasKey_eq_false_iff]
    intro t ht
    have hobj := h.inv.registered _ (h.inv.coherent.track_mem.mpr ht)
    rw [hheap] at hobj
    cases hobj
  rcases createTrack_cases hs with ⟨e, -, rfl, rfl⟩ |
    ⟨pt, pat, ssrc, sa, w₁, -, -, hw₁, ⟨-, rfl, rfl⟩ | ⟨hc, f, hf, rfl, rfl⟩⟩
  · exact ⟨h, fun t ht => nomatch ht⟩
  · subst hw₁
    exact ⟨h.congr rfl rfl rfl rfl rfl fun _ => rfl, fun t ht => nomatch ht⟩
  · have h₁ : Sound kind w₁ none := by
      subst hw₁
      exact h.congr rfl rfl rfl rfl rfl fun _ => rfl
    have hfresh : w₁.peer.tracks.hasKey f.id = false := by
      subst hw₁
      exact hnokey f.id
    have hk : kind f.id = .track := by
      subst hf
      exact henv hc
    have hkey := (h₁.inv.coherent.hasKey_tracks hk).symm.trans hfresh
    rw [insertTrack_of_fresh ans hfresh]
    refine ⟨⟨h₁.inv.register hk rfl hkey, ?_, h₁.reachable.register hkey, fun t ht => ?_,
      fun hnone => nomatch hnone⟩, fun t ht => ?_⟩
    · exact (HeapStep.alloc (e := .close 0) (.track _) rfl fun _ => rfl).pointed h₁.pointed
    · rw [← Option.some.inj ht]
      exact (Registry.mem_insert_channels hkey).mpr (Or.inr rfl)
    · show w₁.heap.state _ = {}
      rw [h₁.fresh rfl]

end Sound

end AlloDataChannel

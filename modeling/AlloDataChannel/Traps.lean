import AlloDataChannel.UnitRequests

/-!
# The steps that trap

A `fatalError`, a `try!`, a `!` or a count that does not fit ends the process, with all peers and units in it. Here the
initialisers of objects return.

* `Event.Drawn` : the draws of a step are those of a loop that has ended;
* `Event.Safe` : the steps of a peer that do not trap, `step_isSome_iff`;
* `SystemEvent.Kept` : what the C library keeps of its own accord; `World.Ready` : what follows in a peer;
* `UnitObject.receive_isSome` : then no message traps in a unit;
* `SystemEvent.Safe` : the events of peers and units that do not trap, `System.step_isSome_iff`.
-/

namespace AlloDataChannel
open Lib (Scalars Segmentation exec)

/-! ## One peer -/

/-- A callback without a null pointer, and without the negative size of a text message. -/
def ChannelCallback.Readable : ChannelCallback → Prop
  | .error cerror => cerror ≠ none
  | .message cdata size => cdata ≠ none ∧ 0 ≤ size
  | _ => True

/-- The loop of `next()` ends, in a call of `createTrack` that reaches it. -/
def Peer.Drawn (S : Segmentation) (p : Peer) (a : TrackArgs) (draws : List Draw) : Prop :=
  (p.pat.payloadType S a.key).isOk = true → a.ssrc = none → ∃ d ∈ draws, d.val ∉ p.sa.used

/-- The draws of an event are those up to the end of the loop. -/
def Event.Drawn (S : Segmentation) (w : World) : Event → Prop
  | .createTrack a draws _ => w.peer.Drawn S a draws
  | _ => True

/-- What a step of a peer asks of the app and the remote side: ids without spaces, a description with an msid, and
callbacks on ids of objects. -/
def Event.Safe (S : Segmentation) (w : World) : Event → Prop
  | .createTrack a _ _ => a.valid S = true
  | .trackCallback dcid description _ => w.peer.channels.hasKey dcid = true ∨ HasMsid (sdpLines S description)
  | .channelCallback id cb => w.heap.userPtr id ≠ none ∧ cb.Readable
  | _ => True

section Peer
variable {S : Segmentation} {w : World}

theorem ChannelCallback.run_isSome_iff {s : ChannelState} {cb : ChannelCallback} :
    (cb.run s).isSome ↔ cb.Readable := by
  cases cb with
  | opened => exact ⟨fun _ => trivial, fun _ => rfl⟩
  | closed => exact ⟨fun _ => trivial, fun _ => rfl⟩
  | error cerror =>
    show (cerror.map _).isSome ↔ cerror ≠ none
    rw [Option.isSome_map, Option.isSome_iff_ne_none]
  | message cdata size =>
    show (s.messageCallback cdata size).isSome ↔ cdata ≠ none ∧ 0 ≤ size
    unfold ChannelState.messageCallback ChannelState.dataOfBytes
    cases cdata with
    | none => simp
    | some bytes => by_cases hsize : 0 ≤ size <;> simp [hsize]

theorem SsrcAllocator.next_isSome_iff {sa : SsrcAllocator} {draws : List Draw} :
    (sa.next draws).isSome ↔ ∃ d ∈ draws, d.val ∉ sa.used := by
  refine ⟨fun h => ?_, fun h => ?_⟩
  · induction draws with
    | nil => cases h
    | cons d draws ih =>
      by_cases hd : d.val ∈ sa.used
      · rw [SsrcAllocator.next, if_pos hd] at h
        obtain ⟨d', hmem, hfresh⟩ := ih h
        exact ⟨d', List.mem_cons_of_mem d hmem, hfresh⟩
      · exact ⟨d, List.mem_cons_self, hd⟩
  · obtain ⟨x, b, hnext⟩ := SsrcAllocator.exists_next h
    rw [hnext]
    rfl

theorem SsrcAllocator.actualSsrc_isSome_iff (sa : SsrcAllocator) (ssrc : Option UInt32) (draws : List Draw) :
    (sa.actualSsrc ssrc draws).isSome ↔ (ssrc = none → ∃ d ∈ draws, d.val ∉ sa.used) := by
  cases ssrc with
  | some ssrc => exact ⟨fun _ h => (nomatch h), fun _ => rfl⟩
  | none => exact ⟨fun h _ => SsrcAllocator.next_isSome_iff.mp h, fun h => SsrcAllocator.next_isSome_iff.mpr (h rfl)⟩

theorem Peer.prepareTrack_isSome_iff {p : Peer} {a : TrackArgs} {draws : List Draw} (hd : p.Drawn S a draws) :
    (p.prepareTrack S a draws).isSome ↔ a.valid S = true := by
  unfold Peer.prepareTrack
  by_cases hv : a.valid S = true
  · rw [if_pos hv]
    refine ⟨fun _ => hv, fun _ => ?_⟩
    cases hp : p.pat.payloadType S a.key with
    | error e => rfl
    | ok q =>
      have hok : (p.pat.payloadType S a.key).isOk = true := by rw [hp]; rfl
      obtain ⟨r, hr⟩ := Option.isSome_iff_exists.mp
        ((SsrcAllocator.actualSsrc_isSome_iff p.sa a.ssrc draws).mpr (hd hok))
      dsimp only
      rw [hr]
      rfl
  · rw [if_neg hv]
    exact ⟨fun h => absurd h Bool.false_ne_true, fun h => absurd h hv⟩

theorem createTrackCall_isSome_iff {a : TrackArgs} {draws : List Draw} (hd : w.peer.Drawn S a draws) (code : Int) :
    (w.createTrackCall S a draws code).isSome ↔ a.valid S = true := by
  rw [← Peer.prepareTrack_isSome_iff hd]
  unfold World.createTrackCall
  cases w.peer.prepareTrack S a draws with
  | none => rfl
  | some p =>
    obtain ⟨e | init, peer⟩ := p
    · rfl
    · dsimp only
      cases Error.orValue code <;> rfl

theorem createTrack_isSome_iff {a : TrackArgs} {draws : List Draw} (hd : w.peer.Drawn S a draws) (code : Int)
    (ans : TrackAnswers) : (w.createTrack S a draws code ans).isSome ↔ a.valid S = true := by
  rw [← createTrackCall_isSome_iff hd code]
  unfold World.createTrack
  cases w.createTrackCall S a draws code with
  | none => rfl
  | some p =>
    obtain ⟨e | f, w'⟩ := p
    · rfl
    · rfl

theorem step_isSome_iff {e : Event} (hd : e.Drawn S w) : (step S w e).isSome ↔ e.Safe S w := by
  cases e with
  | createTrack a draws code =>
    show _ ↔ a.valid S = true
    rw [← createTrackCall_isSome_iff hd code, step]
    cases w.createTrackCall S a draws code with
    | none => rfl
    | some p =>
      obtain ⟨e | f, w'⟩ := p
      · rfl
      · rfl
  | trackCallback dcid description ans =>
    show _ ↔ w.peer.channels.hasKey dcid = true ∨ HasMsid (sdpLines S description)
    rw [step, Option.isSome_map]
    exact trackCallback_isSome_iff description ans
  | channelCallback id cb =>
    show _ ↔ w.heap.userPtr id ≠ none ∧ cb.Readable
    rw [step, World.channelCallback]
    cases w.heap.userPtr id with
    | none => exact ⟨fun h => absurd h Bool.false_ne_true, fun h => absurd rfl h.1⟩
    | some ref =>
      dsimp only
      rw [Option.isSome_map, ChannelCallback.run_isSome_iff]
      exact ⟨fun h => ⟨Option.some_ne_none ref, h⟩, And.right⟩
  | insertTrack k ans =>
    refine ⟨fun _ => trivial, fun _ => ?_⟩
    rw [step]
    split <;> rfl
  | insertDataChannel k ans =>
    refine ⟨fun _ => trivial, fun _ => ?_⟩
    rw [step]
    split <;> rfl
  | createDataChannel a code =>
    refine ⟨fun _ => trivial, fun _ => ?_⟩
    rw [step]
    split <;> rfl
  | dataChannelCallback dcid ans => exact ⟨fun _ => trivial, fun _ => rfl⟩
  | close ref => exact ⟨fun _ => trivial, fun _ => rfl⟩
  | setRemote secs ids code => exact ⟨fun _ => trivial, fun _ => rfl⟩

end Peer

/-! ## What the C library keeps of its own accord -/

/-- The size of a message is a C `int`. -/
def Event.Kept : Event → Prop
  | .channelCallback _ (.message _ size) => size ≤ int32Max
  | _ => True

/-- The current message can be handed to `send`. -/
def ChannelState.Sendable (s : ChannelState) : Prop := ∀ data, s.lastMessage = some data → data.length ≤ int32Max

theorem ChannelState.dataOfBytes_length {bytes data : List UInt8} {size : Int}
    (h : ChannelState.dataOfBytes bytes size = some data) : data.length ≤ size := by
  unfold ChannelState.dataOfBytes at h
  split at h
  · next hsize =>
    cases h
    have htake : (bytes.take size.toNat).length ≤ size.toNat := List.length_take_le _ _
    omega
  · cases h

theorem ChannelCallback.run_sendable {s s' : ChannelState} {id : Int} {cb : ChannelCallback} (hs : s.Sendable)
    (hcb : (Event.channelCallback id cb).Kept) (h : cb.run s = some s') : s'.Sendable := by
  cases cb with
  | opened =>
    cases h
    exact hs
  | closed =>
    cases h
    exact hs
  | error cerror =>
    obtain ⟨error, -, rfl⟩ := Option.map_eq_some_iff.mp h
    exact hs
  | message cdata size =>
    obtain ⟨bytes, -, h⟩ := Option.bind_eq_some_iff.mp h
    obtain ⟨data, hdata, h⟩ := Option.bind_eq_some_iff.mp h
    cases h
    intro data' hdata'
    cases hdata'
    have hsize : size ≤ int32Max := hcb
    have hlength := ChannelState.dataOfBytes_length hdata
    omega

/-- The track of the id that `rtcAddTrackEx` returns lists an SSRC: the one in `tracks`, or else the new one. -/
structure Peer.Lists (p : Peer) (code : Int) (ans : TrackAnswers) : Prop where
  existing : ∀ t, p.tracks.find? code = some t → t.ssrcs ≠ []
  new : p.tracks.find? code = none → ans.ssrcs ≠ []

namespace World

theorem createTrack_ssrcs {S : Segmentation} {w w' : World} {a : TrackArgs} {draws : List Draw} {code : Int}
    {ans : TrackAnswers} {track : Track} (hl : w.peer.Lists code ans)
    (h : w.createTrack S a draws code ans = some (.ok track, w')) : track.ssrcs ≠ [] := by
  rcases createTrack_cases h with ⟨e, -, he, -⟩ | ⟨pt, pat, ssrc, sa, w₁, -, -, rfl, ⟨-, he, -⟩ | ⟨-, f, rfl, hr, -⟩⟩
  · cases he
  · cases he
  · cases hr
    unfold insertTrack
    split
    · next existing hfind => exact hl.existing existing hfind
    · next hfind => exact hl.new hfind

/-- Every current message can be sent on. -/
def Ready (w : World) : Prop := ∀ ref, (w.heap.state ref).Sendable

theorem ready_start (o : Option IPOverride) : (World.start o).Ready := fun _ _ hdata => nomatch hdata

namespace Ready
variable {S : Segmentation} {w w' : World}

theorem congr (h : w.Ready) (hh : w'.heap.state = w.heap.state) : w'.Ready := by
  intro ref
  rw [hh]
  exact h ref

theorem setState (h : w.Ready) {ref : Nat} {s : ChannelState} (hs : s.Sendable) : (w.setState ref s).Ready := by
  intro ref'
  show (Function.update w.heap.state ref s ref').Sendable
  by_cases hr : ref' = ref
  · subst hr
    rw [Function.update_self]
    exact hs
  · rw [Function.update_of_ne hr]
    exact h ref'

theorem close (h : w.Ready) (ref : Nat) : (w.close ref).Ready := by
  unfold World.close
  split
  · exact h
  · exact h.congr rfl

theorem step (h : w.Ready) {e : Event} (he : e.Kept) (hs : AlloDataChannel.step S w e = some w') : w'.Ready := by
  by_cases hcb : ∃ id cb, e = .channelCallback id cb
  · obtain ⟨id, cb, rfl⟩ := hcb
    rw [AlloDataChannel.step, World.channelCallback] at hs
    split at hs
    · cases hs
    · next ref _ =>
      obtain ⟨s, hrun, rfl⟩ := Option.map_eq_some_iff.mp hs
      exact h.setState (ChannelCallback.run_sendable (h ref) he hrun)
  · cases step_effect hs with
    | channelCallback id cb ref s => exact absurd ⟨id, cb, rfl⟩ hcb
    | _ => exact h.congr rfl

theorem run (h : w.Ready) {es : List Event} (hes : ∀ e ∈ es, e.Kept)
    (hs : exec (AlloDataChannel.step S) w es = some w') : w'.Ready :=
  Lib.exec_invariant (fun _ _ _ hready he hs => Ready.step hready he hs) hes hs h

theorem createTrack (h : w.Ready) {a : TrackArgs} {draws : List Draw} {code : Int} {ans : TrackAnswers}
    {r : Except Thrown Track} (hcall : w.createTrack S a draws code ans = some (r, w')) : w'.Ready := by
  have hexec := exec_createTrack S w a draws code ans
  rw [hcall] at hexec
  refine h.run (fun e he => ?_) hexec
  rcases List.mem_cons.mp he with rfl | he
  · trivial
  · rw [List.mem_singleton.mp he]
    trivial

theorem install (h : w.Ready) {ref : Nat} {code : Int} {r : Except Error Unit} {s : ChannelState}
    (hinstall : (w.heap.state ref).installRtcpReceivingSession code = (r, s)) : s.Sendable := by
  intro data hdata
  rw [(ChannelState.install_frame hinstall).2.1] at hdata
  exact h ref data hdata

end Ready
end World

/-! ## Units -/

/-- What `MediaForwardingUnit.init` asks of the app and the C library: a name without spaces, and a handler that is
taken where the track and its session are there. -/
structure MediaForwardingUnit.Initializes (S : Segmentation) (w : World) (a : Source) (ans : InitAnswers) : Prop where
  valid : a.egressArgs.valid S = true
  handler : ∀ egress w' s, w.createTrack S a.egressArgs ans.draws ans.code ans.track = some (.ok egress, w') →
    (w'.heap.state egress.ref).installRtcpReceivingSession ans.egressSession = (.ok (), s) → 0 ≤ ans.pliHandler

namespace MediaForwardingUnit
variable {S : Segmentation} {w w' : World} {a : Source} {ans : InitAnswers} {ingress ingress' : ChannelState}

theorem init_isSome_iff (hinstall : ingress.installRtcpReceivingSession ans.ingressSession = (.ok (), ingress'))
    (hd : w.peer.Drawn S a.egressArgs ans.draws) : (init S ingress w a ans).isSome ↔ Initializes S w a ans := by
  have hcall := createTrack_isSome_iff hd ans.code ans.track
  unfold init
  rw [hinstall]
  dsimp only
  cases hw : w.createTrack S a.egressArgs ans.draws ans.code ans.track with
  | none =>
    rw [hw] at hcall
    exact ⟨fun h => (nomatch h), fun h => hcall.mpr h.valid⟩
  | some p =>
    rw [hw] at hcall
    have hvalid := hcall.mp rfl
    obtain ⟨e | egress, w'⟩ := p
    · refine ⟨fun _ => ⟨hvalid, fun egress w' s hok => ?_⟩, fun _ => rfl⟩
      cases hw.symm.trans hok
    · dsimp only
      cases hsession : (w'.heap.state egress.ref).installRtcpReceivingSession ans.egressSession with
      | mk r s =>
        cases r with
        | error e =>
          refine ⟨fun _ => ⟨hvalid, fun egress w' s hok hs => ?_⟩, fun _ => rfl⟩
          cases hw.symm.trans hok
          cases hsession.symm.trans hs
        | ok _ =>
          rcases lt_or_ge ans.pliHandler 0 with hc | hc
          · rw [Error.orValue_of_neg hc]
            refine ⟨fun h => (nomatch h), fun h => ?_⟩
            have hpos := h.handler egress w' s hw hsession
            omega
          · rw [Error.orValue_of_nonneg hc]
            exact ⟨fun _ => ⟨hvalid, fun _ _ _ _ _ => hc⟩, fun _ => rfl⟩

theorem init_ready (hw : w.Ready) {r : Except Thrown MediaForwardingUnit}
    (h : init S ingress w a ans = some (r, ingress', w')) : w'.Ready := by
  unfold init at h
  split at h
  · cases h
    exact hw
  · split at h
    · cases h
    · next hcall =>
      cases h
      exact hw.createTrack hcall
    · next hcall =>
      have hready := hw.createTrack hcall
      split at h
      · next hinstall =>
        cases h
        exact hready.setState (hready.install hinstall)
      · next hinstall =>
        split at h
        · cases h
        · have hsendable := hready.install hinstall
          cases h
          exact hready.setState fun data hdata => hsendable data hdata

theorem init_ssrcs (hl : w.peer.Lists ans.code ans.track) {u : MediaForwardingUnit}
    (h : init S ingress w a ans = some (.ok u, ingress', w')) : u.egressTrack.ssrcs ≠ [] := by
  obtain ⟨-, w₁, s, hcall, -⟩ := init_ok h
  exact World.createTrack_ssrcs hl hcall

end MediaForwardingUnit

/-- A message that can be sent gets through a unit. -/
theorem UnitObject.receive_isSome {R : RtpLibrary} {x : UnitObject} {isOpen : Bool} {message : Option Data}
    {ans : SinkAnswers} (hssrcs : x.unit.egressTrack.ssrcs ≠ [])
    (hm : ∀ data, message = some data → data.length ≤ int32Max) (hl : Forwarder.Bytes ans.lookup) :
    (x.receive R isOpen message ans).isSome := by
  obtain ⟨f, hs⟩ := Forwarder.exists_step (R := R) (f := x.forwarder isOpen) hssrcs (Forwarding.fits_arrival hm hl)
  unfold UnitObject.receive
  rw [hs]
  rfl

/-- What the C library keeps of its own accord in an event of peers and units. -/
def SystemEvent.Kept (s : System) : SystemEvent → Prop
  | .peer _ e ans => e.Kept ∧ ∀ u, Forwarder.Bytes (ans u).lookup
  | .create _ _ q ans first =>
    (∀ v, s.peers[q]? = some v → v.peer.Lists ans.code ans.track) ∧ Forwarder.Bytes first.lookup
  | _ => True

/-- The draws of an event are those up to the end of the loop. -/
def SystemEvent.Drawn (S : Segmentation) (s : System) : SystemEvent → Prop
  | .peer p e _ => ∀ w, s.peers[p]? = some w → e.Drawn S w
  | .create _ a q ans _ => ∀ v, s.peers[q]? = some v → v.peer.Drawn S a.egressArgs ans.draws
  | _ => True

/-- What an event asks of the app and the remote sides. A unit is stopped with a handler that is taken, and no keyframe
request comes for the track of a stopped unit. -/
def SystemEvent.Safe (S : Segmentation) (s : System) : SystemEvent → Prop
  | .newPeer _ => True
  | .peer p e _ => ∀ w, s.peers[p]? = some w → e.Safe S w
  | .create p a q ans _ => ∀ ingress w s₁, System.Session s p a ans ingress w s₁ → ∀ v, s₁.peers[q]? = some v →
    MediaForwardingUnit.Initializes S v a ans
  | .stop u code => u < s.units.length → 0 ≤ code
  | .pli q id => ∀ r ∈ s.routes, r.egressId = (q, id) → r.subscribed = true

namespace System

/-- The messages of every peer can be sent on, and every egress track lists an SSRC. -/
structure Ready (s : System) : Prop where
  peers : ∀ (p : Nat) (w : World), s.peers[p]? = some w → w.Ready
  egress : ∀ r ∈ s.routes, r.egressTrack.ssrcs ≠ []

variable {S : Segmentation} {R : RtpLibrary} {s s' : System}

theorem ready_start : Ready {} where
  peers p _ hw := nomatch (List.getElem?_nil (i := p)).symm.trans hw
  egress _ hr := absurd hr List.not_mem_nil

/-- The session of the ingress track leaves the peers as they are. -/
theorem Session.peer_eq {p q : Nat} {a : Source} {ans : InitAnswers} {ingress : ChannelState} {w v : World}
    {s₁ : System} (hs : Session s p a ans ingress w s₁) (hv : s₁.peers[q]? = some v) :
    ∃ v₀, s.peers[q]? = some v₀ ∧ v.peer = v₀.peer := by
  obtain ⟨hw, -, -, rfl⟩ := hs
  rcases getElem?_set_cases hv with ⟨rfl, rfl⟩ | ⟨-, hv⟩
  · exact ⟨w, hw, rfl⟩
  · exact ⟨v, hv, rfl⟩

namespace Ready

theorem setPeer (h : s.Ready) {p : Nat} {w : World} (hw : w.Ready) : (s.setPeer p w).Ready where
  peers q v hv := by
    rcases getElem?_set_cases hv with ⟨-, rfl⟩ | ⟨-, hv⟩
    · exact hw
    · exact h.peers q v hv
  egress := h.egress

theorem sendable (h : s.Ready) (k : Nat × Nat) : (s.state k).Sendable := by
  unfold System.state
  cases hw : s.peers[k.1]? with
  | none => exact fun data hdata => nomatch hdata
  | some w => exact h.peers k.1 w hw k.2

theorem session (h : s.Ready) {p : Nat} {a : Source} {ans : InitAnswers} {ingress : ChannelState} {w : World}
    {s₁ : System} (hs : Session s p a ans ingress w s₁) : s₁.Ready := by
  obtain ⟨hw, -, hinstall, rfl⟩ := hs
  exact h.setPeer ((h.peers p w hw).setState ((h.peers p w hw).install hinstall))

theorem attach (h : s.Ready) {x : UnitObject} {first : SinkAnswers} (hx : x.unit.egressTrack.ssrcs ≠ [])
    (hs : s.attach R x first = some s') : s'.Ready := by
  obtain ⟨x', hreceive, rfl⟩ := Option.map_eq_some_iff.mp hs
  refine ⟨h.peers, fun r hr => ?_⟩
  obtain ⟨y, hy, rfl⟩ := List.mem_map.mp hr
  rcases List.mem_append.mp hy with hold | hnew
  · exact h.egress y.route (List.mem_map.mpr ⟨y, hold, rfl⟩)
  · rw [List.mem_singleton.mp hnew, UnitObject.receive_route hreceive]
    exact hx

theorem create (h : s.Ready) {p q : Nat} {a : Source} {ans : InitAnswers} {first : SinkAnswers}
    (hl : ∀ v, s.peers[q]? = some v → v.peer.Lists ans.code ans.track) (hs : s.create S R p a q ans first = some s') :
    s'.Ready := by
  cases created hs with
  | refused => exact h
  | noPeer ingress w s₁ session => exact h.session session
  | failed ingress st w v v' s₁ e session peer init =>
    exact (h.session session).setPeer (MediaForwardingUnit.init_ready ((h.session session).peers q v peer) init)
  | made ingress st w v v' s₁ s' unit session peer init attach =>
    have hready := MediaForwardingUnit.init_ready ((h.session session).peers q v peer) init
    obtain ⟨v₀, hv₀, hpeer⟩ := session.peer_eq peer
    have hlists : v.peer.Lists ans.code ans.track := hpeer ▸ hl v₀ hv₀
    exact ((h.session session).setPeer hready).attach (MediaForwardingUnit.init_ssrcs hlists init) attach

theorem stepPeer (h : s.Ready) {p : Nat} {e : Event} {ans : Nat → SinkAnswers} (he : e.Kept)
    (hs : s.stepPeer S R p e ans = some s') : s'.Ready := by
  unfold System.stepPeer at hs
  split at hs
  · cases hs
    exact h
  · next w hw =>
    split at hs
    · cases hs
    · next w' hstep =>
      have h₁ := h.setPeer (p := p) ((h.peers p w hw).step he hstep)
      dsimp only at hs
      split at hs
      · cases hs
        exact h₁
      · obtain ⟨units, hd, rfl⟩ := Option.map_eq_some_iff.mp hs
        have hroutes : units.map UnitObject.route = s.routes := deliver_routes hd
        refine ⟨h₁.peers, ?_⟩
        show ∀ r ∈ units.map UnitObject.route, r.egressTrack.ssrcs ≠ []
        rw [hroutes]
        exact h.egress

theorem stop (h : s.Ready) (hi : s.Inv) {u : Nat} {code : Int} (hs : s.stop u code = some s') : s'.Ready := by
  rcases stop_cases hi hs with ⟨-, rfl⟩ | ⟨x, w, hx, hw, -, rfl⟩
  · exact h
  · have hclosure : (w.setClosure x.unit.egressTrack.ref none).Ready :=
      (h.peers _ w hw).setState fun data hdata => h.peers _ w hw _ data hdata
    refine ⟨(h.setPeer (hclosure.close _)).peers, fun r hr => ?_⟩
    obtain ⟨y, hy, rfl⟩ := List.mem_map.mp hr
    rcases List.mem_or_eq_of_mem_set hy with hold | rfl
    · exact h.egress y.route (List.mem_map.mpr ⟨y, hold, rfl⟩)
    · exact h.egress x.route (List.mem_map.mpr ⟨x, List.mem_of_getElem? hx, rfl⟩)

theorem step (h : s.Ready) (hi : s.Inv) {e : SystemEvent} (he : e.Kept s) (hs : s.step S R e = some s') : s'.Ready := by
  cases e with
  | newPeer ipOverride =>
    cases hs
    refine ⟨fun p w hw => ?_, h.egress⟩
    rcases getElem?_concat_cases hw with hw | ⟨-, rfl⟩
    · exact h.peers p w hw
    · exact World.ready_start ipOverride
  | peer p e ans => exact h.stepPeer he.1 hs
  | create p a q ans first => exact h.create he.1 hs
  | stop u code => exact h.stop hi hs
  | pli q id =>
    obtain ⟨requested, rfl⟩ := pli_frame hs
    exact ⟨h.peers, h.egress⟩

end Ready

/-! ## The events that trap -/

theorem deliver_isSome {k : Nat × Nat} {message : Option Data} {ans : Nat → SinkAnswers} {xs : List UnitObject}
    (n : Nat) (hxs : ∀ x ∈ xs, x.unit.egressTrack.ssrcs ≠ [])
    (hm : ∀ data, message = some data → data.length ≤ int32Max) (hl : ∀ u, Forwarder.Bytes (ans u).lookup) :
    (s.deliver R k message ans n xs).isSome := by
  induction xs generalizing n with
  | nil => rfl
  | cons x xs ih =>
    have hhear : (s.hear R k message (ans n) x).isSome := by
      unfold System.hear
      split
      · exact UnitObject.receive_isSome (hxs x List.mem_cons_self) hm (hl n)
      · rfl
    obtain ⟨x', hx⟩ := Option.isSome_iff_exists.mp hhear
    obtain ⟨xs', hxs'⟩ := Option.isSome_iff_exists.mp (ih (n + 1) fun y hy => hxs y (List.mem_cons_of_mem x hy))
    rw [System.deliver, hx, hxs']
    rfl

theorem stepPeer_isSome_iff (h : s.Ready) {p : Nat} {e : Event} {ans : Nat → SinkAnswers}
    (he : (SystemEvent.peer p e ans).Kept s) (hd : (SystemEvent.peer p e ans).Drawn S s) :
    (s.stepPeer S R p e ans).isSome ↔ (SystemEvent.peer p e ans).Safe S s := by
  show _ ↔ ∀ w, s.peers[p]? = some w → e.Safe S w
  unfold System.stepPeer
  cases hw : s.peers[p]? with
  | none => exact ⟨fun _ w hw' => (nomatch hw'), fun _ => rfl⟩
  | some w =>
    have hstep := AlloDataChannel.step_isSome_iff (hd w hw)
    dsimp only
    cases hs : AlloDataChannel.step S w e with
    | none =>
      rw [hs] at hstep
      exact ⟨fun h => (nomatch h), fun h => hstep.mpr (h w rfl)⟩
    | some w' =>
      rw [hs] at hstep
      refine ⟨fun _ v hv => ?_, fun _ => ?_⟩
      · cases hv
        exact hstep.mp rfl
      · dsimp only
        split
        · rfl
        · next ref _ =>
          rw [Option.isSome_map]
          refine deliver_isSome 0 (fun x hx => ?_) ((h.peers p w hw).step he.1 hs ref) he.2
          exact h.egress x.route (List.mem_map.mpr ⟨x, hx, rfl⟩)

theorem attach_isSome (h : s.Ready) {x : UnitObject} {first : SinkAnswers} (hx : x.unit.egressTrack.ssrcs ≠ [])
    (hl : Forwarder.Bytes first.lookup) : (s.attach R x first).isSome := by
  unfold System.attach
  rw [Option.isSome_map]
  exact UnitObject.receive_isSome hx (h.sendable _) hl

theorem forall_session_iff {p : Nat} {a : Source} {ans : InitAnswers} {ingress : ChannelState} {w : World} {s₁ : System}
    (hs : Session s p a ans ingress w s₁) {P : System → Prop} :
    (∀ ingress w s₁, Session s p a ans ingress w s₁ → P s₁) ↔ P s₁ := by
  refine ⟨fun h => h ingress w s₁ hs, fun h ingress' w' s₁' hs' => ?_⟩
  obtain ⟨hw, -, hinstall, rfl⟩ := hs
  obtain ⟨hw', -, hinstall', rfl⟩ := hs'
  cases hw.symm.trans hw'
  cases hinstall.symm.trans hinstall'
  exact h

theorem create_isSome_iff (h : s.Ready) {p q : Nat} {a : Source} {ans : InitAnswers} {first : SinkAnswers}
    (he : (SystemEvent.create p a q ans first).Kept s) (hd : (SystemEvent.create p a q ans first).Drawn S s) :
    (s.create S R p a q ans first).isSome ↔ (SystemEvent.create p a q ans first).Safe S s := by
  show _ ↔ ∀ ingress w s₁, Session s p a ans ingress w s₁ → ∀ v, s₁.peers[q]? = some v →
    MediaForwardingUnit.Initializes S v a ans
  unfold System.create
  cases hw : s.peers[p]? with
  | none =>
    refine ⟨fun _ ingress w s₁ hsession => ?_, fun _ => rfl⟩
    cases hw.symm.trans hsession.peer
  | some w =>
    dsimp only
    by_cases hobj : w.heap.objects[a.ingressTrack.ref]? = some (.track a.ingressTrack)
    · rw [if_pos hobj]
      cases hinstall : (w.heap.state a.ingressTrack.ref).installRtcpReceivingSession ans.ingressSession with
      | mk r ingress =>
        cases r with
        | error e =>
          refine ⟨fun _ ingress w s₁ hsession => ?_, fun _ => rfl⟩
          cases hw.symm.trans hsession.peer
          cases hinstall.symm.trans hsession.installed
        | ok _ =>
          dsimp only
          have hsession : Session s p a ans ingress w (s.setPeer p (w.setState a.ingressTrack.ref ingress)) :=
            ⟨hw, hobj, hinstall, rfl⟩
          rw [forall_session_iff hsession]
          cases hv : (s.setPeer p (w.setState a.ingressTrack.ref ingress)).peers[q]? with
          | none => exact ⟨fun _ v hv' => (nomatch hv'), fun _ => rfl⟩
          | some v =>
            obtain ⟨v₀, hv₀, hpeer⟩ := hsession.peer_eq hv
            have hdrawn : v.peer.Drawn S a.egressArgs ans.draws := hpeer ▸ hd v₀ hv₀
            have hinit := MediaForwardingUnit.init_isSome_iff
              (ChannelState.install_again hinstall ans.ingressSession) hdrawn
            have hready := (h.session hsession).peers q v hv
            dsimp only
            cases hr : MediaForwardingUnit.init S ingress v a ans with
            | none =>
              rw [hr] at hinit
              exact ⟨fun h => (nomatch h), fun h => hinit.mpr (h v rfl)⟩
            | some result =>
              rw [hr] at hinit
              refine ⟨fun _ v' hv' => ?_, fun _ => ?_⟩
              · cases hv'
                exact hinit.mp rfl
              · obtain ⟨e | unit, st, v'⟩ := result
                · rfl
                · have hlists : v.peer.Lists ans.code ans.track := hpeer ▸ he.1 v₀ hv₀
                  have hafter := (h.session hsession).setPeer (p := q) (MediaForwardingUnit.init_ready hready hr)
                  exact attach_isSome hafter (MediaForwardingUnit.init_ssrcs hlists hr) he.2
    · rw [if_neg hobj]
      refine ⟨fun _ ingress w s₁ hsession => ?_, fun _ => rfl⟩
      cases hw.symm.trans hsession.peer
      exact absurd hsession.object hobj

theorem stop_isSome_iff (hi : s.Inv) {u : Nat} {code : Int} :
    (s.stop u code).isSome ↔ (SystemEvent.stop u code).Safe S s := by
  show _ ↔ (u < s.units.length → 0 ≤ code)
  unfold System.stop
  cases hx : s.units[u]? with
  | none =>
    refine ⟨fun _ hlt => ?_, fun _ => rfl⟩
    rw [List.getElem?_eq_none_iff] at hx
    omega
  | some x =>
    have hlt : u < s.units.length := (List.getElem?_eq_some_iff.mp hx).1
    obtain ⟨w, hw, -⟩ := hi.egress x.route (List.mem_map.mpr ⟨x, List.mem_of_getElem? hx, rfl⟩)
    have hpeer : s.peers[x.egressPeer]? = some w := hw
    dsimp only
    rw [hpeer]
    dsimp only
    rcases lt_or_ge code 0 with hc | hc
    · rw [Error.orValue_of_neg hc]
      refine ⟨fun h => (nomatch h), fun h => ?_⟩
      have hpos := h hlt
      omega
    · rw [Error.orValue_of_nonneg hc]
      exact ⟨fun _ _ => hc, fun _ => rfl⟩

theorem pli_isSome_iff (hi : s.Inv) {q : Nat} {id : Int} :
    (s.pli q id).isSome ↔ (SystemEvent.pli q id).Safe S s := by
  show _ ↔ ∀ r ∈ s.routes, r.egressId = (q, id) → r.subscribed = true
  rw [Option.isSome_iff_ne_none, Ne, (pliLaw hi q id).traps]
  refine ⟨fun h r hr hid => ?_, fun h ⟨r, hr, hid, hstop⟩ => ?_⟩
  · by_contra hsub
    exact h ⟨r, hr, hid, eq_false_of_ne_true hsub⟩
  · rw [h r hr hid] at hstop
    cases hstop

theorem step_isSome_iff (h : s.Ready) (hi : s.Inv) {e : SystemEvent} (he : e.Kept s) (hd : e.Drawn S s) :
    (s.step S R e).isSome ↔ e.Safe S s := by
  cases e with
  | newPeer ipOverride => exact ⟨fun _ => trivial, fun _ => rfl⟩
  | peer p e ans => exact stepPeer_isSome_iff h he hd
  | create p a q ans first => exact create_isSome_iff h he hd
  | stop u code => exact stop_isSome_iff hi
  | pli q id => exact pli_isSome_iff hi

end System

end AlloDataChannel

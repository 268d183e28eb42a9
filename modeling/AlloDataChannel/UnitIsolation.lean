import AlloDataChannel.UnitRequests

/-!
# Units are kept apart

The C library identifies tracks by `mid`, and a unit's `mid` is made of its client id and the stream id of its ingress
track.

* `SystemLaw` : the answers of the library about ids, for all peers;
* `Lawful` : the invariant: every egress track has its id under the unit's `mid`;
* `isolation` : in every lawful run, units whose sources are no aliases do not touch each other's tracks.
-/

namespace AlloDataChannel
open Lib (Scalars Segmentation Run)

/-- The C library can answer the event, in every peer that it is about. -/
def SystemLaw (kind : Nat → Int → ChannelKind) (s : System) : SystemEvent → Prop
  | .peer p e _ => ∀ w : World, s.peers[p]? = some w → RtcLaw (kind p) w e
  | .create _ a q ans _ => ∀ w : World, s.peers[q]? = some w → RtcLaw (kind q) w (MediaForwardingUnit.call a ans).event
  | _ => True

/-! ## One peer -/

/-- The invariants of a peer. -/
structure PeerInv (kind : Int → ChannelKind) (w : World) : Prop where
  rtc : RtcInv w
  registry : Inv kind w
  reachable : Reachable w

/-- An id keeps its `mid`. -/
def World.Keeps (w w' : World) : Prop := ∀ p ∈ w.rtc.live, p ∈ w'.rtc.live

theorem World.keeps_close {w : World} (ref : Nat) : w.Keeps (w.close ref) := by
  intro p hp
  unfold World.close
  split
  · exact hp
  · exact hp

namespace PeerInv
variable {S : Segmentation} {kind : Int → ChannelKind} {w w' : World}

theorem start (o : Option IPOverride) : PeerInv kind (.start o) where
  rtc := .start o
  registry := .start kind o
  reachable c hc := absurd hc (Lib.KeyedSet.not_mem_empty c)

theorem step (h : PeerInv kind w) {e : Event} (henv : RtcLaw kind w e) (hs : AlloDataChannel.step S w e = some w') :
    PeerInv kind w' where
  rtc := h.rtc.step henv hs
  registry := h.registry.step henv.1 hs
  reachable := h.reachable.step h.registry hs

theorem run (h : PeerInv kind w) {es : List Event} (hrun : Run (AlloDataChannel.step S) (RtcLaw kind) w es w') :
    PeerInv kind w' ∧ w.Keeps w' := by
  refine ⟨hrun.invariant (fun _ _ _ hi henv hs => hi.step henv hs) h, fun p hp => ?_⟩
  exact hrun.invariant (I := fun w => p ∈ w.rtc.live) (fun _ _ _ hl _ hs => RtcInv.live_step hs hl) hp

theorem setState (h : PeerInv kind w) (ref : Nat) (st : ChannelState) : PeerInv kind (w.setState ref st) where
  rtc := h.rtc.congr rfl (List.Sublist.refl _) (fun _ hid => hid) h.rtc.tracks h.rtc.pending
  registry := h.registry.congr rfl rfl h.registry.pendingData h.registry.pendingTracks
  reachable := h.reachable.congr rfl rfl

theorem close (h : PeerInv kind w) (ref : Nat) : PeerInv kind (w.close ref) :=
  h.step (S := .scalars) (e := .close ref) ⟨trivial, trivial⟩ rfl

end PeerInv

/-- `init` on the egress peer. A successful one has its id under its `mid`. -/
theorem MediaForwardingUnit.init_lawful {S : Segmentation} {kind : Int → ChannelKind} {ingress ingress' : ChannelState}
    {w w' : World} {a : Source} {ans : InitAnswers} {r : Except Thrown MediaForwardingUnit} (hi : PeerInv kind w)
    (hlaw : RtcLaw kind w (call a ans).event) (h : init S ingress w a ans = some (r, ingress', w')) :
    PeerInv kind w' ∧ w.Keeps w' ∧
      ∀ u, r = .ok u → (withCString a.egressStreamId, u.egressTrack.id) ∈ w'.rtc.live := by
  refine and_assoc.mp ⟨?_, fun u hu => ?_⟩
  · unfold init at h
    split at h
    · cases h
      exact ⟨hi, fun p hp => hp⟩
    · split at h
      · cases h
      · next hcall =>
        cases h
        exact hi.run (run_createTrack hlaw hcall)
      · next egress w₁ hcall =>
        obtain ⟨hi₁, hkeeps⟩ := hi.run (run_createTrack hlaw hcall)
        split at h
        · cases h
          exact ⟨hi₁.setState _ _, hkeeps⟩
        · split at h
          · cases h
          · cases h
            exact ⟨hi₁.setState _ _, hkeeps⟩
  · subst hu
    obtain ⟨hc, hid, pt, ssrc, hrtc⟩ := init_rtc h
    rw [hid, hrtc]
    exact @Rtc.mem_addTrack_live_self _ (a.egressArgs.trackInit pt ssrc) _ hc

/-! ## All peers -/

/-- The egress tracks have their ids under the `mid`s of the units. -/
structure Lawful (kind : Nat → Int → ChannelKind) (peers : List World) (routes : List Route) : Prop where
  lawful : ∀ (p : Nat) (w : World), peers[p]? = some w → PeerInv (kind p) w
  mids : ∀ r ∈ routes, ∃ w : World, peers[r.egressPeer]? = some w ∧
    (withCString r.source.egressStreamId, r.egressTrack.id) ∈ w.rtc.live

namespace Lawful
variable {kind : Nat → Int → ChannelKind} {peers : List World} {routes : List Route}

theorem setPeer (h : Lawful kind peers routes) {p : Nat} {w w' : World} (hw : peers[p]? = some w)
    (hi : PeerInv (kind p) w') (hkeeps : w.Keeps w') : Lawful kind (peers.set p w') routes where
  lawful q v hv := by
    rcases getElem?_set_cases hv with ⟨rfl, rfl⟩ | ⟨-, hv⟩
    · exact hi
    · exact h.lawful q v hv
  mids r hr := by
    obtain ⟨v, hv, hlive⟩ := h.mids r hr
    by_cases hp : p = r.egressPeer
    · subst hp
      rw [hw, Option.some.injEq] at hv
      subst hv
      exact ⟨w', List.getElem?_set_self (List.getElem?_eq_some_iff.mp hw).1, hkeeps _ hlive⟩
    · exact ⟨v, (List.getElem?_set_ne hp).trans hv, hlive⟩

theorem newPeer (h : Lawful kind peers routes) (o : Option IPOverride) : Lawful kind (peers ++ [.start o]) routes where
  lawful p w hw := by
    rcases getElem?_concat_cases hw with hw | ⟨-, rfl⟩
    · exact h.lawful p w hw
    · exact .start o
  mids r hr := by
    obtain ⟨w, hw, hlive⟩ := h.mids r hr
    exact ⟨w, getElem?_append_of_some hw, hlive⟩

end Lawful

namespace System
variable {S : Segmentation} {R : RtpLibrary} {kind : Nat → Int → ChannelKind} {s s' : System}

/-- The library's side of `create`, for a library that keeps its promises. -/
theorem lawful_create (h : Lawful kind s.peers s.routes) {p q : Nat} {a : Source} {ans : InitAnswers}
    {first : SinkAnswers} (hlaw : SystemLaw kind s (.create p a q ans first))
    (hs : s.create S R p a q ans first = some s') : Lawful kind s'.peers s'.routes := by
  have hsession : ∀ {ingress : ChannelState} {w : World} {s₁ : System}, Session s p a ans ingress w s₁ →
      Lawful kind s₁.peers s.routes ∧ s₁.routes = s.routes ∧
        ∀ v : World, s₁.peers[q]? = some v → RtcLaw (kind q) v (MediaForwardingUnit.call a ans).event := by
    rintro ingress w s₁ ⟨hw, -, -, rfl⟩
    refine ⟨h.setPeer hw ((h.lawful p w hw).setState _ _) fun _ hp => hp, rfl, fun v hv => ?_⟩
    rcases getElem?_set_cases hv with ⟨rfl, rfl⟩ | ⟨-, hv⟩
    · exact hlaw w hw
    · exact hlaw v hv
  cases created hs with
  | refused => exact h
  | noPeer ingress w s₁ session =>
    obtain ⟨h₁, hroutes, -⟩ := hsession session
    rw [hroutes]
    exact h₁
  | failed ingress st w v v' s₁ e session peer init =>
    obtain ⟨h₁, hroutes, hlaw₁⟩ := hsession session
    obtain ⟨hi, hkeeps, -⟩ := MediaForwardingUnit.init_lawful (h₁.lawful q v peer) (hlaw₁ v peer) init
    show Lawful kind (s₁.peers.set q v') s₁.routes
    rw [hroutes]
    exact h₁.setPeer peer hi hkeeps
  | made ingress st w v v' s₁ s' unit session peer init attach =>
    obtain ⟨h₁, hroutes, hlaw₁⟩ := hsession session
    obtain ⟨hi, hkeeps, hlive⟩ := MediaForwardingUnit.init_lawful (h₁.lawful q v peer) (hlaw₁ v peer) init
    have h₂ := h₁.setPeer peer hi hkeeps
    obtain ⟨hunit, -⟩ := MediaForwardingUnit.init_ok init
    obtain ⟨x', hx, rfl⟩ := Option.map_eq_some_iff.mp attach
    have hunits : (s₁.units ++ [x']).map UnitObject.route =
        s.routes ++ [⟨a.fromClientId, p, q, a.ingressTrack, unit.egressTrack, true⟩] := by
      rw [List.map_append, List.map_singleton, UnitObject.receive_route hx, ← hroutes, hunit]
      rfl
    show Lawful kind (s₁.peers.set q v') ((s₁.units ++ [x']).map UnitObject.route)
    rw [hunits]
    refine ⟨h₂.lawful, fun r hr => ?_⟩
    rcases List.mem_append.mp hr with hr | hr
    · exact h₂.mids r hr
    · rw [List.mem_singleton.mp hr]
      exact ⟨v', List.getElem?_set_self (List.getElem?_eq_some_iff.mp peer).1, hlive unit rfl⟩

theorem lawful_step (hi : s.Inv) (h : Lawful kind s.peers s.routes) {e : SystemEvent} (hlaw : SystemLaw kind s e)
    (hs : s.step S R e = some s') : Lawful kind s'.peers s'.routes := by
  cases e with
  | newPeer ipOverride =>
    cases hs
    exact h.newPeer ipOverride
  | peer p e ans =>
    change s.stepPeer S R p e ans = some s' at hs
    unfold stepPeer at hs
    split at hs
    · cases hs
      exact h
    · next w hw =>
      split at hs
      · cases hs
      · next w' hstep =>
        have h₁ := h.setPeer hw ((h.lawful p w hw).step (hlaw w hw) hstep) fun _ hp => RtcInv.live_step hstep hp
        dsimp only at hs
        split at hs
        · cases hs
          exact h₁
        · obtain ⟨units, hd, rfl⟩ := Option.map_eq_some_iff.mp hs
          have hroutes : units.map UnitObject.route = s.routes := deliver_routes hd
          show Lawful kind _ (units.map UnitObject.route)
          rw [hroutes]
          exact h₁
  | create p a q ans first => exact lawful_create h hlaw hs
  | stop u code =>
    rcases stop_cases hi hs with ⟨-, rfl⟩ | ⟨x, w, hx, hw, -, rfl⟩
    · exact h
    · have hp : PeerInv (kind x.egressPeer)
          ((w.setClosure x.unit.egressTrack.ref none).close x.unit.egressTrack.ref) :=
        ((h.lawful _ w hw).setState _ _).close _
      have hkeeps : w.Keeps ((w.setClosure x.unit.egressTrack.ref none).close x.unit.egressTrack.ref) := fun p hp =>
        World.keeps_close _ p hp
      have h₁ := h.setPeer hw hp hkeeps
      have hroutes : (s.units.set u { x with subscribed := false }).map UnitObject.route =
          s.routes.set u { x.route with subscribed := false } := List.map_set
      show Lawful kind _ ((s.units.set u { x with subscribed := false }).map UnitObject.route)
      rw [hroutes]
      refine ⟨h₁.lawful, fun r hr => ?_⟩
      rcases List.mem_or_eq_of_mem_set hr with hr | rfl
      · exact h₁.mids r hr
      · exact h₁.mids x.route (List.mem_of_getElem? (route_of_unit hx))
  | pli q id =>
    obtain ⟨requested, rfl⟩ := pli_frame hs
    exact h

end System

/-! ## Isolation -/

/-- The C library cannot tell the tracks of the two units apart: one egress peer, and sources that are aliases. -/
def Route.Shares (r r' : Route) : Prop := r.egressPeer = r'.egressPeer ∧ Alias r.source r'.source

theorem countP_eq_one {α : Type*} {p : α → Bool} {xs : List α} {i : Nat} {x : α} (hx : xs[i]? = some x) (hp : p x = true)
    (h : ∀ j y, j ≠ i → xs[j]? = some y → p y = false) : xs.countP p = 1 := by
  induction xs generalizing i with
  | nil => cases hx
  | cons z zs ih =>
    cases i with
    | zero =>
      rw [List.getElem?_cons_zero, Option.some.injEq] at hx
      subst hx
      rw [List.countP_cons_of_pos hp, Nat.add_eq_right, List.countP_eq_zero]
      intro y hy
      obtain ⟨j, hj⟩ := List.mem_iff_getElem?.mp hy
      rw [h (j + 1) y (Nat.succ_ne_zero j) hj]
      exact Bool.false_ne_true
    | succ i =>
      have hz := h 0 z (Nat.succ_ne_zero i).symm rfl
      rw [List.countP_cons_of_neg (by rw [hz]; exact Bool.false_ne_true)]
      exact ih hx fun j y hj hy => h (j + 1) y (fun he => hj (Nat.succ.inj he)) hy

/-- Units that do not share their names do not touch each other's tracks. -/
structure Isolation (s : System) : Prop where
  /-- Their tracks have different ids. -/
  apart : ∀ r ∈ s.routes, ∀ r' ∈ s.routes, ¬ r.Shares r' → r.egressId ≠ r'.egressId
  /-- Stopping one leaves the track of another one registered. -/
  registered : ∀ (u : Nat) (code : Int) (s' : System) (r r' : Route) (w w' : World), s.stop u code = some s' →
    s.routes[u]? = some r' → r ∈ s.routes → ¬ r.Shares r' → s.peers[r.egressPeer]? = some w →
    s'.peers[r.egressPeer]? = some w' →
    (.track r.egressTrack ∈ w'.peer.channels ↔ .track r.egressTrack ∈ w.peer.channels)
  /-- A keyframe request on the registered track of one that was not stopped is one request on its own ingress track, if
  that is open. -/
  keyframes : ∀ (u : Nat) (r : Route) (w : World), s.routes[u]? = some r → r.subscribed = true →
    (∀ v r', v ≠ u → s.routes[v]? = some r' → ¬ r.Shares r') → s.peers[r.egressPeer]? = some w →
    .track r.egressTrack ∈ w.peer.channels →
    s.pli r.egressPeer r.egressTrack.id = some { s with requested := s.requested ++
      if (s.state r.ingressKey).isOpen then [(r.ingressPeer, r.ingressTrack.id)] else [] }

namespace System
variable {kind : Nat → Int → ChannelKind} {s : System}

theorem Lawful.apart (h : Lawful kind s.peers s.routes) {r r' : Route} (hr : r ∈ s.routes) (hr' : r' ∈ s.routes)
    (hshare : ¬ r.Shares r') : r.egressId ≠ r'.egressId := by
  intro hid
  obtain ⟨hpeer, hid⟩ : r.egressPeer = r'.egressPeer ∧ r.egressTrack.id = r'.egressTrack.id := Prod.mk.inj hid
  obtain ⟨w, hw, hlive⟩ := h.mids r hr
  obtain ⟨w', hw', hlive'⟩ := h.mids r' hr'
  rw [hpeer, hw', Option.some.injEq] at hw
  subst hw
  rw [hid] at hlive
  apply hshare
  refine ⟨hpeer, ?_⟩
  rw [alias_iff]
  exact (h.lawful _ _ hw').rtc.mid_eq hlive hlive'

theorem isolation_of_lawful (hi : s.Inv) (h : Lawful kind s.peers s.routes) : Isolation s where
  apart r hr r' hr' hshare := Lawful.apart h hr hr' hshare
  registered u code s' r r' w w' hs hu hr hshare hw hw' := by
    rcases stop_cases hi hs with ⟨hnone, rfl⟩ | ⟨x, v, hx, hv, -, rfl⟩
    · rw [hw, Option.some.injEq] at hw'
      rw [hw']
    · have hroute := route_of_unit hx
      rw [hu, Option.some.injEq] at hroute
      subst hroute
      rcases getElem?_set_cases hw' with ⟨hpeer, rfl⟩ | ⟨-, hw'⟩
      · rw [← hpeer, hv, Option.some.injEq] at hw
        subst hw
        -- the closed object is the track of the other unit, under another id
        obtain ⟨v', hv', hobj⟩ := hi.egress x.route (List.mem_of_getElem? hu)
        rw [show x.route.egressPeer = x.egressPeer from rfl, hv, Option.some.injEq] at hv'
        subst hv'
        have hobj' : (v.setClosure x.unit.egressTrack.ref none).heap.objects[x.unit.egressTrack.ref]? =
            some (.track x.unit.egressTrack) := hobj
        unfold World.close
        rw [hobj']
        refine Registry.mem_close_channels.trans ⟨And.left, fun hmem => ⟨hmem, fun hid => ?_⟩⟩
        refine Lawful.apart h hr (List.mem_of_getElem? hu) hshare ?_
        exact Prod.ext hpeer.symm hid
      · rw [hw, Option.some.injEq] at hw'
        rw [hw']
  keyframes u r w hr hsub hothers hw hreg := by
    have hmem := List.mem_of_getElem? hr
    have hapart : ∀ v r', v ≠ u → s.routes[v]? = some r' → r'.egressId ≠ r.egressId := fun v r' hv hr' he =>
      Lawful.apart h hmem (List.mem_of_getElem? hr') (hothers v r' hv hr') he.symm
    have hptr : w.heap.userPtr r.egressTrack.id = some r.egressTrack.ref := (h.lawful _ w hw).reachable _ hreg
    have hlaw := pliLaw hi r.egressPeer r.egressTrack.id
    have hcount : s.routes.countP (fun r' => r'.egressId = (r.egressPeer, r.egressTrack.id)) = 1 :=
      countP_eq_one hr (decide_eq_true rfl) fun v r' hv hr' => decide_eq_false (hapart v r' hv hr')
    have hsubs : ∀ r' ∈ s.routes, r'.egressId = (r.egressPeer, r.egressTrack.id) → r'.subscribed = true := by
      intro r' hr' hid
      obtain ⟨v, hv⟩ := List.mem_iff_getElem?.mp hr'
      by_cases huv : v = u
      · subst huv
        rw [hr, Option.some.injEq] at hv
        rw [← hv]
        exact hsub
      · exact absurd hid (hapart v r' huv hv)
    have hlast : ∀ (v : Nat) (r' : Route), u < v → s.routes[v]? = some r' → r'.egressKey ≠ r.egressKey := by
      intro v r' hlt hv hkey
      exact hapart v r' (Nat.ne_of_gt hlt) hv (egressId_of_egressKey hi (List.mem_of_getElem? hv) hmem hkey)
    cases hpli : s.pli r.egressPeer r.egressTrack.id with
    | none =>
      obtain ⟨r', hr', hid, hstop⟩ := hlaw.traps.mp hpli
      rw [hsubs r' hr' hid] at hstop
      cases hstop
    | some s' =>
      rw [hlaw.requests s' hpli, hcount, hlaw.latest u r w hr rfl hw hptr hsubs hlast, List.replicate_one,
        List.flatten_singleton]

end System

/-- **Units are isolated**, in every run that the C library can take part in. -/
theorem isolation {S : Segmentation} {R : RtpLibrary} {kind : Nat → Int → ChannelKind} {es : List SystemEvent}
    {s : System} (h : Run (System.step S R) (SystemLaw kind) {} es s) : Isolation s := by
  have hstart : Lawful kind [] [] := ⟨fun _ _ hw => (nomatch hw), fun r hr => absurd hr List.not_mem_nil⟩
  have hboth := h.invariant (I := fun s => s.Inv ∧ Lawful kind s.peers s.routes)
    (fun _ _ _ hI hlaw hs => ⟨hI.1.step hs, System.lawful_step hI.1 hI.2 hlaw hs⟩) ⟨System.inv_start, hstart⟩
  exact System.isolation_of_lawful hboth.1 hboth.2

/-- A track that the first peer makes itself. -/
def ownCall (draw : Draw) : Event :=
  .createTrack
    { streamId := "cam".toList, trackId := "audio".toList, direction := .recvonly, codec := .OPUS,
      sampleOrBitrate := 48000, channelCount := 1 }
    [draw] 7

/-- Two units that forward one track to one peer, for the clients `a` and `b`. -/
def twoUnits (d₁ d₂ d₃ : Draw) : List SystemEvent :=
  [.newPeer none, .newPeer none, .peer 0 (ownCall d₁) fun _ => exampleAnswers,
    .peer 0 (.insertTrack 0 { ssrcs := [3], direction := .recvonly }) fun _ => exampleAnswers,
    .create 0 ⟨"a".toList, relayTrack⟩ 1 (initAnswers d₂ 9) exampleAnswers,
    .create 0 ⟨"b".toList, relayTrack⟩ 1 (initAnswers d₃ 10) exampleAnswers]

/-- The second one's route; the first one's is that of `relayRoute`. -/
def secondRoute : Route :=
  { relayRoute true with
    fromClientId := "b".toList
    egressTrack := { relayTrack with
      ref := 1
      id := 10
      streamId := "b.cam".toList
      direction := .sendonly
      ssrcs := [6] } }

/-- With the ingress track open: the first unit has its own id, a keyframe request on its track is one on the ingress
track, and its track stays registered when the second unit is stopped. -/
theorem isolation_example : ∃ s s' w', Run (System.step .scalars .packed) (SystemLaw fun _ _ => .track) {}
      (twoUnits ⟨3, by decide⟩ ⟨5, by decide⟩ ⟨6, by decide⟩ ++
        [.peer 0 (.channelCallback 7 .opened) fun _ => exampleAnswers]) s ∧
    s.routes = [relayRoute true, secondRoute] ∧ (relayRoute true).egressId ≠ secondRoute.egressId ∧
    s.pli 1 9 = some { s with requested := s.requested ++ [(0, 7)] } ∧
    s.stop 1 0 = some s' ∧ s'.peers[1]? = some w' ∧ .track (relayRoute true).egressTrack ∈ w'.peer.channels := by
  obtain ⟨s, hrun⟩ : ∃ s, Run (System.step .scalars .packed) (SystemLaw fun _ _ => .track) {}
      (twoUnits ⟨3, by decide⟩ ⟨5, by decide⟩ ⟨6, by decide⟩ ++
        [.peer 0 (.channelCallback 7 .opened) fun _ => exampleAnswers]) s := by
    refine ⟨_, .cons trivial rfl (.cons trivial rfl (.cons ?_ rfl (.cons ?_ rfl (.cons ?_ rfl
      (.cons ?_ rfl (.cons ?_ rfl (.nil _)))))))⟩
    · intro w hw
      cases hw
      exact ⟨fun _ => rfl, fun _ => Or.inr List.not_mem_nil⟩
    · intro w hw
      exact ⟨trivial, trivial⟩
    · intro w hw
      cases hw
      exact ⟨fun _ => rfl, fun _ => Or.inr List.not_mem_nil⟩
    · intro w hw
      cases hw
      exact ⟨fun _ => rfl, fun _ => Or.inr fun h => absurd (show (10 : Int) ∈ [(9 : Int)] from h) (by decide)⟩
    · intro w hw
      exact ⟨trivial, trivial⟩
  have heval : (Lib.exec (System.step .scalars .packed) {} (twoUnits ⟨3, by decide⟩ ⟨5, by decide⟩ ⟨6, by decide⟩ ++
      [.peer 0 (.channelCallback 7 .opened) fun _ => exampleAnswers])).map (fun s => (s.routes,
        (s.state (0, 0)).isOpen, (s.peers[1]?).map fun w => w.peer.lookup 9,
        ((s.stop 1 0).bind fun s' => s'.peers[1]?).isSome)) =
      some ([relayRoute true, secondRoute], true, some (some (.track (relayRoute true).egressTrack)), true) := by
    decide +kernel
  rw [hrun.exec_eq, Option.map_some, Option.some.injEq, Prod.mk.injEq, Prod.mk.injEq, Prod.mk.injEq] at heval
  obtain ⟨hroutes, hopen, hlookup, hstop⟩ := heval
  obtain ⟨w, hw, hlookup⟩ := Option.map_eq_some_iff.mp hlookup
  obtain ⟨w', hw'⟩ := Option.isSome_iff_exists.mp hstop
  obtain ⟨s', hs', hw'⟩ := Option.bind_eq_some_iff.mp hw'
  have hmem : Channel.track (relayRoute true).egressTrack ∈ w.peer.channels := (Registry.lookup_eq_some.mp hlookup).1
  have hshare : ¬ (relayRoute true).Shares secondRoute := by
    rintro ⟨-, halias⟩
    rw [alias_iff] at halias
    exact absurd halias (by decide)
  have hfirst : s.routes[0]? = some (relayRoute true) := by rw [hroutes]; rfl
  have hsecond : s.routes[1]? = some secondRoute := by rw [hroutes]; rfl
  have hisolation := isolation hrun
  have hapart := hisolation.apart _ (List.mem_of_getElem? hfirst) _ (List.mem_of_getElem? hsecond) hshare
  have hpli := hisolation.keyframes 0 (relayRoute true) w hfirst rfl (fun v r' hv hr' => ?_) hw hmem
  · rw [show (relayRoute true).ingressKey = (0, 0) from rfl, hopen, if_pos rfl] at hpli
    refine ⟨s, s', w', hrun, hroutes, hapart, hpli, hs', hw', ?_⟩
    exact (hisolation.registered 1 0 s' _ secondRoute w w' hs' hsecond (List.mem_of_getElem? hfirst) hshare hw hw').mpr
      hmem
  · rw [hroutes] at hr'
    have hlt : v < 2 := (List.getElem?_eq_some_iff.mp hr').1
    obtain rfl : v = 1 := by omega
    cases hr'
    exact hshare

end AlloDataChannel

import AlloDataChannel.UnitsInv

/-!
# The peers under the units

A unit acts on its peers through `createTrack`, `close()` and what it assigns to the states of its two tracks.

* `World.plain` : a peer without the handlers and the sessions of its tracks;
* `step_plain` : no step of a peer reads them;
* `System.acts`, `System.trace` : what the events of peers and units are for one of the peers;
* `System.exec_trace` : a run of them all is, for each of its peers, the run of its own trace;
* `peers_alone` : a peer under any units is, apart from handlers and sessions, a peer alone.
-/

namespace AlloDataChannel
open Lib (Segmentation exec)

/-! ## Without handlers and sessions -/

def ChannelState.plain (s : ChannelState) : ChannelState :=
  { s with onKeyFrameRequested := none, hasInstalledRtcpReceivingSession := false }

def World.plain (w : World) : World :=
  { w with heap := { w.heap with state := fun ref => (w.heap.state ref).plain } }

section Plain
variable {S : Segmentation} {w w' : World}

theorem ChannelCallback.run_plain (s : ChannelState) (cb : ChannelCallback) :
    cb.run s.plain = (cb.run s).map ChannelState.plain := by
  cases cb with
  | opened => rfl
  | closed => rfl
  | error cerror => cases cerror <;> rfl
  | message cdata size =>
    show s.plain.messageCallback cdata size = (s.messageCallback cdata size).map _
    unfold ChannelState.messageCallback
    cases cdata with
    | none => rfl
    | some bytes =>
      rw [Option.bind_eq_bind, Option.bind_some, Option.bind_some]
      cases ChannelState.dataOfBytes bytes size <;> rfl

theorem ChannelState.install_plain {s s' : ChannelState} {code : Int} {r : Except Error Unit}
    (h : s.installRtcpReceivingSession code = (r, s')) : s'.plain = s.plain := by
  unfold installRtcpReceivingSession at h
  split at h
  · cases h
    rfl
  · split at h
    · cases h
      rfl
    · cases h
      rfl

namespace World

theorem plain_setState (w : World) (ref : Nat) (s : ChannelState) :
    (w.setState ref s).plain = w.plain.setState ref s.plain := by
  have hstate : (fun ref' => (Function.update w.heap.state ref s ref').plain) =
      Function.update (fun ref' => (w.heap.state ref').plain) ref s.plain :=
    Function.comp_update ChannelState.plain w.heap.state ref s
  unfold World.plain World.setState
  dsimp only
  rw [hstate]

/-- An assignment to a handler or a session. -/
theorem plain_of_plain {ref : Nat} {s : ChannelState} (h : s.plain = (w.heap.state ref).plain) :
    (w.setState ref s).plain = w.plain := by
  rw [plain_setState, h]
  have hstate : Function.update w.plain.heap.state ref (w.heap.state ref).plain = w.plain.heap.state :=
    Function.update_eq_self ref w.plain.heap.state
  unfold World.setState
  rw [hstate]

theorem plain_close (w : World) (ref : Nat) : (w.close ref).plain = w.plain.close ref := by
  have hobjects : w.plain.heap.objects = w.heap.objects := rfl
  unfold World.close
  rw [hobjects]
  cases w.heap.objects[ref]? <;> rfl

theorem plain_createTrackCall (w : World) (a : TrackArgs) (draws : List Draw) (code : Int) :
    w.plain.createTrackCall S a draws code =
      (w.createTrackCall S a draws code).map fun p => (p.1, p.2.plain) := by
  unfold World.createTrackCall
  have hpeer : w.plain.peer = w.peer := rfl
  rw [hpeer]
  cases w.peer.prepareTrack S a draws with
  | none => rfl
  | some p =>
    obtain ⟨e | init, peer⟩ := p
    · rfl
    · dsimp only
      cases Error.orValue code <;> rfl

theorem plain_insertTrack (w : World) (f : PendingTrack) (ans : TrackAnswers) :
    (w.plain.insertTrack f ans).2 = (w.insertTrack f ans).2.plain := by
  unfold World.insertTrack
  have hpeer : w.plain.peer = w.peer := rfl
  rw [hpeer]
  cases w.peer.tracks.find? f.id <;> rfl

theorem plain_insertDataChannel (w : World) (id : Int) (ans : DataChannelAnswers) :
    (w.plain.insertDataChannel id ans).2 = (w.insertDataChannel id ans).2.plain := by
  unfold World.insertDataChannel
  have hpeer : w.plain.peer = w.peer := rfl
  rw [hpeer]
  cases w.peer.dataChannels.find? id <;> rfl

end World

/-- No step of a peer reads a handler or a session. -/
theorem step_plain (S : Segmentation) (w : World) (e : Event) : step S w.plain e = (step S w e).map World.plain := by
  cases e with
  | createDataChannel a code =>
    rw [step, step, World.createDataChannelCall, World.createDataChannelCall]
    cases Error.orValue code <;> rfl
  | insertDataChannel k ans =>
    have hpending : w.plain.pendingData = w.pendingData := rfl
    rw [step, step, hpending]
    cases w.pendingData[k]? with
    | none => rfl
    | some id =>
      dsimp only
      rw [World.plain_insertDataChannel]
      rfl
  | createTrack a draws code =>
    rw [step, step, World.plain_createTrackCall]
    cases w.createTrackCall S a draws code with
    | none => rfl
    | some p =>
      obtain ⟨e | f, w'⟩ := p
      · rfl
      · rfl
  | insertTrack k ans =>
    have hpending : w.plain.pendingTracks = w.pendingTracks := rfl
    rw [step, step, hpending]
    cases w.pendingTracks[k]? with
    | none => rfl
    | some f =>
      dsimp only
      rw [World.plain_insertTrack]
      rfl
  | dataChannelCallback dcid ans =>
    have hpeer : w.plain.peer = w.peer := rfl
    rw [step, step, World.dataChannelCallback, World.dataChannelCallback, hpeer]
    cases w.peer.channels.hasKey dcid <;> rfl
  | trackCallback dcid description ans =>
    have hpeer : w.plain.peer = w.peer := rfl
    rw [step, step, World.trackCallback, World.trackCallback, hpeer]
    cases w.peer.channels.hasKey dcid with
    | true => rfl
    | false =>
      cases GetMsid S description with
      | none => rfl
      | some r => cases r <;> rfl
  | close ref =>
    rw [step, step, ← World.plain_close]
    rfl
  | channelCallback id cb =>
    have hptr : w.plain.heap.userPtr = w.heap.userPtr := rfl
    rw [step, step, World.channelCallback, World.channelCallback, hptr]
    cases w.heap.userPtr id with
    | none => rfl
    | some ref =>
      have hstate : w.plain.heap.state ref = (w.heap.state ref).plain := rfl
      dsimp only
      rw [hstate, ChannelCallback.run_plain]
      cases hrun : cb.run (w.heap.state ref) with
      | none => rfl
      | some s =>
        rw [Option.map_some, Option.map_some, Option.map_some, Option.map_some]
        exact congrArg some (World.plain_setState w ref s).symm
  | setRemote secs ids code =>
    rw [step, step, World.setRemote, World.setRemote]
    cases Error.orValue code <;> rfl

theorem exec_plain (S : Segmentation) (w : World) (es : List Event) :
    exec (step S) w.plain es = (exec (step S) w es).map World.plain := Lib.exec_map (step_plain S) w es

end Plain

/-! ## The trace of a peer -/

/-- The ip override of the peer that an event makes. -/
def SystemEvent.newOverride : SystemEvent → Option (Option IPOverride)
  | .newPeer ipOverride => some ipOverride
  | _ => none

/-- The ip overrides of the peers that the events make, in order. -/
def newOverrides (es : List SystemEvent) : List (Option IPOverride) := es.filterMap SystemEvent.newOverride

namespace System

/-- The session that starts `MediaForwardingUnit.init` can be installed. -/
def begins (s : System) (p : Nat) (a : Source) (ans : InitAnswers) : Bool :=
  (s.peers[p]?).any fun w => decide (w.heap.objects[a.ingressTrack.ref]? = some (.track a.ingressTrack)) &&
    ((w.heap.state a.ingressTrack.ref).installRtcpReceivingSession ans.ingressSession).1.isOk

/-- What an event is for the peer `k`: its own step, the calls of `createTrack` that make a unit on it, or the `close()`
of one that is stopped. -/
def acts (s : System) (k : Nat) (w : World) : SystemEvent → List Event
  | .newPeer _ => []
  | .peer p e _ => if p = k then [e] else []
  | .create p a q ans _ =>
    if q = k ∧ s.begins p a ans = true then
      [.createTrack a.egressArgs ans.draws ans.code, .insertTrack w.pendingTracks.length ans.track]
    else []
  | .stop u _ =>
    match s.units[u]? with
    | none => []
    | some x => if x.egressPeer = k then [.close x.unit.egressTrack.ref] else []
  | .pli _ _ => []

/-- The steps of the peer `k` in a run; none before it is there. -/
def trace (S : Segmentation) (R : RtpLibrary) (k : Nat) : System → List SystemEvent → List Event
  | _, [] => []
  | s, e :: es =>
    ((s.peers[k]?).elim [] fun w => s.acts k w e) ++ ((s.step S R e).elim [] fun s' => trace S R k s' es)

end System

section Acts
variable {S : Segmentation} {R : RtpLibrary}

/-- A unit that gets past its first session makes the calls of `createTrack` on the egress peer. -/
theorem MediaForwardingUnit.exec_init {w w' : World} {a : Source} {ans : InitAnswers}
    {ingress ingress' st : ChannelState} {r : Except Thrown MediaForwardingUnit}
    (hinstall : ingress.installRtcpReceivingSession ans.ingressSession = (.ok (), ingress'))
    (h : init S ingress w a ans = some (r, st, w')) :
    exec (step S) w.plain [.createTrack a.egressArgs ans.draws ans.code,
      .insertTrack w.pendingTracks.length ans.track] = some w'.plain := by
  have hcalls := exec_createTrack S w a.egressArgs ans.draws ans.code ans.track
  rw [exec_plain, hcalls]
  unfold init at h
  rw [hinstall] at h
  dsimp only at h
  split at h
  · cases h
  · next hcall =>
    cases h
    rw [hcall]
    rfl
  · next egress w₁ hcall =>
    rw [hcall]
    show some w₁.plain = some w'.plain
    split at h
    · next hsession =>
      cases h
      rw [World.plain_of_plain (ChannelState.install_plain hsession)]
    · next s hsession =>
      split at h
      · cases h
      · cases h
        have hplain : s.plain = (w₁.heap.state egress.ref).plain := ChannelState.install_plain hsession
        rw [World.plain_of_plain (s := { s with onKeyFrameRequested := some (.forward a.ingressTrack.ref) }) hplain]

namespace System
variable {s s' : System}

/-- Without the session `init` leaves everything, and with it the egress peer is the only one that is stepped. -/
theorem create_peers {p q : Nat} {a : Source} {ans : InitAnswers} {first : SinkAnswers}
    (hs : s.create S R p a q ans first = some s') :
    s.begins p a ans = false ∧ s' = s ∨ s.begins p a ans = true ∧ ∃ ingress w s₁, Session s p a ans ingress w s₁ ∧
      (s₁.peers[q]? = none ∧ s'.peers = s₁.peers ∨ ∃ v r st v', s₁.peers[q]? = some v ∧
        MediaForwardingUnit.init S ingress v a ans = some (r, st, v') ∧ s'.peers = s₁.peers.set q v') := by
  unfold create at hs
  unfold begins
  cases hw : s.peers[p]? with
  | none =>
    rw [hw] at hs
    cases hs
    exact Or.inl ⟨rfl, rfl⟩
  | some w =>
    rw [hw] at hs
    dsimp only at hs
    rw [Option.any_some]
    by_cases hobj : w.heap.objects[a.ingressTrack.ref]? = some (.track a.ingressTrack)
    · rw [if_pos hobj] at hs
      rw [decide_eq_true hobj, Bool.true_and]
      cases hinstall : (w.heap.state a.ingressTrack.ref).installRtcpReceivingSession ans.ingressSession with
      | mk r ingress =>
        rw [hinstall] at hs
        cases r with
        | error e =>
          cases hs
          exact Or.inl ⟨rfl, rfl⟩
        | ok _ =>
          refine Or.inr ⟨rfl, ingress, w, _, ⟨hw, hobj, hinstall, rfl⟩, ?_⟩
          dsimp only at hs
          split at hs
          · next hv =>
            cases hs
            exact Or.inl ⟨hv, rfl⟩
          · next v hv =>
            split at hs
            · cases hs
            · next hinit =>
              cases hs
              exact Or.inr ⟨v, _, _, _, hv, hinit, rfl⟩
            · next hinit =>
              obtain ⟨x, -, rfl⟩ := Option.map_eq_some_iff.mp hs
              exact Or.inr ⟨v, _, _, _, hv, hinit, rfl⟩
    · rw [if_neg hobj] at hs
      cases hs
      exact Or.inl ⟨by rw [decide_eq_false hobj, Bool.false_and], rfl⟩

/-- The session changes a peer in its flag alone. -/
theorem Session.plain {p : Nat} {a : Source} {ans : InitAnswers} {ingress : ChannelState} {w : World} {s₁ : System}
    (hs : Session s p a ans ingress w s₁) {k : Nat} {v : World} (hv : s.peers[k]? = some v) :
    ∃ v₁, s₁.peers[k]? = some v₁ ∧ v₁.plain = v.plain := by
  obtain ⟨hw, -, hinstall, rfl⟩ := hs
  by_cases hk : p = k
  · subst hk
    cases hw.symm.trans hv
    refine ⟨_, List.getElem?_set_self (List.getElem?_eq_some_iff.mp hw).1, ?_⟩
    exact World.plain_of_plain (ChannelState.install_plain hinstall)
  · exact ⟨v, (List.getElem?_set_ne hk).trans hv, rfl⟩

theorem Session.length {p : Nat} {a : Source} {ans : InitAnswers} {ingress : ChannelState} {w : World} {s₁ : System}
    (hs : Session s p a ans ingress w s₁) : s₁.peers.length = s.peers.length := by
  obtain ⟨-, -, -, rfl⟩ := hs
  exact List.length_set

/-- The peers are as many as before, and each has made the steps of its own. -/
structure Stepped (S : Segmentation) (s : System) (e : SystemEvent) (s' : System) : Prop where
  length : s'.peers.length = s.peers.length
  peers : ∀ (k : Nat) (w : World), s.peers[k]? = some w →
    ∃ w', s'.peers[k]? = some w' ∧ exec (AlloDataChannel.step S) w.plain (s.acts k w e) = some w'.plain

theorem stepped_create {p q : Nat} {a : Source} {ans : InitAnswers} {first : SinkAnswers}
    (hs : s.create S R p a q ans first = some s') : Stepped S s (.create p a q ans first) s' := by
  rcases create_peers hs with ⟨hno, rfl⟩ | ⟨hyes, ingress, w, s₁, hsession, hpeers⟩
  · refine ⟨rfl, fun k w hw => ⟨w, hw, ?_⟩⟩
    rw [acts, hno, if_neg fun h => Bool.false_ne_true h.2]
    rfl
  · rcases hpeers with ⟨hnone, hpeers⟩ | ⟨v, r, st, v', hv, hinit, hpeers⟩
    · refine ⟨by rw [hpeers, hsession.length], fun k w hw => ?_⟩
      obtain ⟨w₁, hw₁, hplain⟩ := hsession.plain hw
      have hq : q ≠ k := by
        rintro rfl
        cases hnone.symm.trans hw₁
      refine ⟨w₁, by rw [hpeers, hw₁], ?_⟩
      rw [acts, if_neg fun h => hq h.1, hplain]
      rfl
    · refine ⟨by rw [hpeers, List.length_set, hsession.length], fun k w hw => ?_⟩
      obtain ⟨w₁, hw₁, hplain⟩ := hsession.plain hw
      rw [acts]
      by_cases hq : q = k
      · subst hq
        cases hv.symm.trans hw₁
        have hpending : v.plain.pendingTracks = w.plain.pendingTracks := congrArg World.pendingTracks hplain
        have hlength : w.pendingTracks.length = v.pendingTracks.length := congrArg List.length hpending.symm
        refine ⟨v', by rw [hpeers, List.getElem?_set_self (List.getElem?_eq_some_iff.mp hw₁).1], ?_⟩
        rw [if_pos ⟨rfl, hyes⟩, ← hplain, hlength]
        exact MediaForwardingUnit.exec_init
          (ChannelState.install_again hsession.installed ans.ingressSession) hinit
      · refine ⟨w₁, by rw [hpeers, List.getElem?_set_ne hq, hw₁], ?_⟩
        rw [if_neg fun h => hq h.1, hplain]
        rfl

theorem stepped_peer {p : Nat} {e : Event} {ans : Nat → SinkAnswers} (hs : s.stepPeer S R p e ans = some s') :
    Stepped S s (.peer p e ans) s' := by
  have hpeers : s.peers[p]? = none ∧ s' = s ∨ ∃ w w', s.peers[p]? = some w ∧ AlloDataChannel.step S w e = some w' ∧
      s'.peers = s.peers.set p w' := by
    unfold System.stepPeer at hs
    split at hs
    · next hnone =>
      cases hs
      exact Or.inl ⟨hnone, rfl⟩
    · next w hw =>
      split at hs
      · cases hs
      · next w' hstep =>
        dsimp only at hs
        split at hs
        · cases hs
          exact Or.inr ⟨w, w', hw, hstep, rfl⟩
        · obtain ⟨units, -, rfl⟩ := Option.map_eq_some_iff.mp hs
          exact Or.inr ⟨w, w', hw, hstep, rfl⟩
  rcases hpeers with ⟨hnone, rfl⟩ | ⟨v, v', hv, hstep, hset⟩
  · refine ⟨rfl, fun k w hw => ⟨w, hw, ?_⟩⟩
    have hp : p ≠ k := by
      rintro rfl
      cases hnone.symm.trans hw
    rw [acts, if_neg hp]
    rfl
  · refine ⟨by rw [hset, List.length_set], fun k w hw => ?_⟩
    rw [acts]
    by_cases hp : p = k
    · subst hp
      cases hv.symm.trans hw
      refine ⟨v', by rw [hset, List.getElem?_set_self (List.getElem?_eq_some_iff.mp hw).1], ?_⟩
      rw [if_pos rfl, exec_plain, Lib.exec_cons, hstep]
      rfl
    · refine ⟨w, by rw [hset, List.getElem?_set_ne hp, hw], ?_⟩
      rw [if_neg hp]
      rfl

theorem stepped_stop (hi : s.Inv) {u : Nat} {code : Int} (hs : s.stop u code = some s') :
    Stepped S s (.stop u code) s' := by
  rcases stop_cases hi hs with ⟨hnone, rfl⟩ | ⟨x, v, hx, hv, -, rfl⟩
  · refine ⟨rfl, fun k w hw => ⟨w, hw, ?_⟩⟩
    rw [acts, hnone]
    rfl
  · refine ⟨List.length_set, fun k w hw => ?_⟩
    rw [acts, hx]
    dsimp only
    by_cases hp : x.egressPeer = k
    · subst hp
      cases hv.symm.trans hw
      refine ⟨_, List.getElem?_set_self (List.getElem?_eq_some_iff.mp hv).1, ?_⟩
      have hclosure : (v.setClosure x.unit.egressTrack.ref none).plain = v.plain := World.plain_of_plain rfl
      rw [if_pos rfl, World.plain_close, hclosure]
      rfl
    · refine ⟨w, (List.getElem?_set_ne hp).trans hw, ?_⟩
      rw [if_neg hp]
      rfl

/-- A new peer, or a step of all peers. -/
theorem step_peers (hi : s.Inv) {e : SystemEvent} (hs : s.step S R e = some s') :
    (∃ o, e = .newPeer o ∧ s' = { s with peers := s.peers ++ [.start o] }) ∨
      e.newOverride = none ∧ Stepped S s e s' := by
  cases e with
  | newPeer o =>
    cases hs
    exact Or.inl ⟨o, rfl, rfl⟩
  | peer p e ans => exact Or.inr ⟨rfl, stepped_peer hs⟩
  | create p a q ans first => exact Or.inr ⟨rfl, stepped_create hs⟩
  | stop u code => exact Or.inr ⟨rfl, stepped_stop hi hs⟩
  | pli q id =>
    obtain ⟨requested, rfl⟩ := pli_frame hs
    exact Or.inr ⟨rfl, rfl, fun k w hw => ⟨w, hw, rfl⟩⟩

theorem exec_trace (hi : s.Inv) {es : List SystemEvent} (h : exec (System.step S R) s es = some s') {k : Nat}
    {w : World} (hw : s.peers[k]? = some w) :
    ∃ w', s'.peers[k]? = some w' ∧ exec (AlloDataChannel.step S) w.plain (s.trace S R k es) = some w'.plain := by
  induction es generalizing s w with
  | nil =>
    cases h
    exact ⟨w, hw, rfl⟩
  | cons e es ih =>
    obtain ⟨s₁, h₁, h⟩ := Option.bind_eq_some_iff.mp h
    rw [trace, hw, h₁, Option.elim_some, Option.elim_some, Lib.exec_append]
    rcases step_peers hi h₁ with ⟨o, rfl, rfl⟩ | ⟨-, hstep⟩
    · exact ih (hi.step h₁) h (getElem?_append_of_some hw)
    · obtain ⟨w₁, hw₁, hacts⟩ := hstep.peers k w hw
      rw [hacts]
      exact ih (hi.step h₁) h hw₁

/-- A peer that is not there yet starts within the run, with the ip override of its event. -/
theorem exec_trace_new (hi : s.Inv) {es : List SystemEvent} (h : exec (System.step S R) s es = some s') {k : Nat}
    {w : World} (hlen : s.peers.length ≤ k) (hw : s'.peers[k]? = some w) :
    ∃ o, (newOverrides es)[k - s.peers.length]? = some o ∧
      exec (AlloDataChannel.step S) (.start o) (s.trace S R k es) = some w.plain := by
  induction es generalizing s with
  | nil =>
    cases h
    cases (List.getElem?_eq_none_iff.mpr hlen).symm.trans hw
  | cons e es ih =>
    obtain ⟨s₁, h₁, h⟩ := Option.bind_eq_some_iff.mp h
    rw [trace, List.getElem?_eq_none_iff.mpr hlen, h₁, Option.elim_none, Option.elim_some, List.nil_append]
    rcases step_peers hi h₁ with ⟨o, rfl, rfl⟩ | ⟨hold, hstep⟩
    · have hcons : newOverrides (.newPeer o :: es) = o :: newOverrides es := rfl
      have hlength : (s.peers ++ [World.start o]).length = s.peers.length + 1 := List.length_append
      rcases Nat.eq_or_lt_of_le hlen with rfl | hlt
      · obtain ⟨w', hw', hexec⟩ := exec_trace (hi.step h₁) h (w := .start o) List.getElem?_concat_length
        cases hw.symm.trans hw'
        refine ⟨o, ?_, hexec⟩
        rw [hcons, Nat.sub_self]
        rfl
      · obtain ⟨o', ho', hexec⟩ := ih (hi.step h₁) h (hlength.trans_le hlt)
        have hindex : k - s.peers.length = k - (s.peers.length + 1) + 1 := by omega
        refine ⟨o', ?_, hexec⟩
        rw [hcons, hindex, List.getElem?_cons_succ, ← ho', hlength]
    · obtain ⟨o, ho, hexec⟩ := ih (hi.step h₁) h (hstep.length.trans_le hlen)
      refine ⟨o, ?_, hexec⟩
      have hcons : newOverrides (e :: es) = newOverrides es := List.filterMap_cons_none hold
      rw [hcons, ← ho, hstep.length]

end System
end Acts

/-- **Peers under units.** After every run of peers and units, each peer is, apart from the handlers and the sessions of
its tracks, what the steps of its own make of a new peer with its ip override. -/
theorem peers_alone {S : Segmentation} {R : RtpLibrary} {es : List SystemEvent} {s : System}
    (h : exec (System.step S R) {} es = some s) {k : Nat} {w : World} (hw : s.peers[k]? = some w) :
    ∃ o, (newOverrides es)[k]? = some o ∧ exec (step S) (.start o) (System.trace S R k {} es) = some w.plain :=
  System.exec_trace_new System.inv_start h (Nat.zero_le k) hw

/-- The egress peer of a unit that is made and stopped: a track that is created and closed. -/
theorem peers_alone_example : ∃ s w,
    exec (System.step .scalars .packed) {} (relayEvents ⟨5, by decide⟩ ++ [.stop 0 0]) = some s ∧
    s.peers[1]? = some w ∧
    exec (step .scalars) (.start none)
      [.createTrack (Source.egressArgs ⟨"a".toList, relayTrack⟩) [⟨5, by decide⟩] 9,
        .insertTrack 0 { ssrcs := [5], direction := .sendonly }, .close 0] = some w.plain := by
  have htrace : System.trace .scalars .packed 1 {} (relayEvents ⟨5, by decide⟩ ++ [.stop 0 0]) =
      [.createTrack (Source.egressArgs ⟨"a".toList, relayTrack⟩) [⟨5, by decide⟩] 9,
        .insertTrack 0 { ssrcs := [5], direction := .sendonly }, .close 0] := by decide +kernel
  have hpeers : (exec (System.step .scalars .packed) {} (relayEvents ⟨5, by decide⟩ ++ [.stop 0 0])).map
      (fun s => (s.peers[1]?).isSome) = some true := by decide +kernel
  obtain ⟨s, hs, hsome⟩ := Option.map_eq_some_iff.mp hpeers
  obtain ⟨w, hw⟩ := Option.isSome_iff_exists.mp hsome
  obtain ⟨o, ho, hexec⟩ := peers_alone hs hw
  cases ho
  rw [htrace] at hexec
  exact ⟨s, w, hs, hw, hexec⟩

end AlloDataChannel

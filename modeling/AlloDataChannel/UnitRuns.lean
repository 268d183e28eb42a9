import AlloDataChannel.Lib.Observe
import AlloDataChannel.UnitsInv

/-!
# A unit in a run of the whole system

What a unit sees of a run are the messages on its ingress track, the opened and closed callbacks of its egress track and
its own `stop()`.

* `System.view` : what a unit sees of an event;
* `System.step_unit` : one step, for one unit;
* `System.exec_unit` : in every run each unit does what it does alone on what it sees;
* `System.relay_law` : what a unit has sent, from its creation on.
-/

namespace AlloDataChannel
open Lib (Segmentation exec observe)

/-- What a callback on the object `k`, in the state `st`, is for a unit. -/
def Route.hears (r : Route) (k : Nat × Nat) (st : ChannelState) (ans : SinkAnswers) : ChannelCallback → List UnitEvent
  | .opened => if r.egressKey = k then [.opened] else []
  | .closed => if r.egressKey = k then [.closed] else []
  | .error _ => []
  | .message cdata size =>
    if r.ingressKey = k then [.arrival ((st.messageCallback cdata size).bind ChannelState.lastMessage) ans] else []

namespace System

/-- What the unit `u` sees of an event. -/
def view (u : Nat) (s : System) : SystemEvent → List UnitEvent
  | .peer p (.channelCallback id cb) ans =>
    match s.routes[u]?, s.peers[p]? with
    | some r, some w =>
      match w.heap.userPtr id with
      | some ref => r.hears (p, ref) (w.heap.state ref) (ans u) cb
      | none => []
    | _, _ => []
  | .stop v code => if v = u then [.stop code] else []
  | _ => []

/-- The unit alone, with the `isOpen` of its egress track. -/
def alone (s : System) (x : UnitObject) : Forwarder := x.forwarder (s.state x.route.egressKey).isOpen

end System

/-! ## What the peers keep -/

/-- The fields that the units read are the same. -/
def World.Quiet (w w' : World) : Prop :=
  ∀ ref, (w'.heap.state ref).isOpen = (w.heap.state ref).isOpen ∧
    (w'.heap.state ref).lastMessage = (w.heap.state ref).lastMessage

namespace World
variable {S : Segmentation} {w w' : World}

theorem Quiet.of_eq (h : w'.heap.state = w.heap.state) : w.Quiet w' := by
  intro ref
  rw [h]
  exact ⟨rfl, rfl⟩

theorem Quiet.trans {w₁ w₂ w₃ : World} (h : w₁.Quiet w₂) (h' : w₂.Quiet w₃) : w₁.Quiet w₃ := fun ref =>
  ⟨(h' ref).1.trans (h ref).1, (h' ref).2.trans (h ref).2⟩

theorem quiet_setState {ref : Nat} {st : ChannelState} (ho : st.isOpen = (w.heap.state ref).isOpen)
    (hm : st.lastMessage = (w.heap.state ref).lastMessage) : w.Quiet (w.setState ref st) := by
  intro ref'
  have hstate : (w.setState ref st).heap.state = Function.update w.heap.state ref st := rfl
  rw [hstate]
  by_cases hr : ref' = ref
  · subst hr
    rw [Function.update_self]
    exact ⟨ho, hm⟩
  · rw [Function.update_of_ne hr]
    exact ⟨rfl, rfl⟩

theorem quiet_close (ref : Nat) : w.Quiet (w.close ref) := by
  apply Quiet.of_eq
  unfold World.close
  split <;> rfl

/-- Only a callback changes the state of an object. -/
theorem state_of_step {e : Event} (hcb : ∀ id cb, e ≠ .channelCallback id cb)
    (hs : AlloDataChannel.step S w e = some w') : w'.heap.state = w.heap.state := by
  generalize hh : w.heap = h at *
  generalize hh' : w'.heap = h' at *
  have hstep := heapStep_of_step hs
  rw [hh, hh'] at hstep
  cases hstep with
  | same quiet => rfl
  | alloc c href quiet => rfl
  | callback id cb ref st event pointer run => exact absurd event (hcb id cb)

theorem state_of_createTrack {a : TrackArgs} {draws : List Draw} {code : Int} {ans : TrackAnswers}
    {r : Except Thrown Track} (h : w.createTrack S a draws code ans = some (r, w')) :
    w'.heap.state = w.heap.state := by
  have hinsert : ∀ (v : World) (f : PendingTrack), (v.insertTrack f ans).2.heap.state = v.heap.state := by
    intro v f
    unfold World.insertTrack
    split <;> rfl
  rcases createTrack_cases h with ⟨e, -, -, rfl⟩ | ⟨pt, pat, ssrc, sa, w₁, -, -, hw₁, ⟨-, -, hw⟩ | ⟨-, f, -, -, hw⟩⟩
  · rfl
  · rw [hw, hw₁]
  · rw [hw, hinsert, hw₁]

end World

/-- `init` leaves what the units read as it is. -/
theorem MediaForwardingUnit.init_quiet {S : Segmentation} {ingress ingress' : ChannelState} {w w' : World} {a : Source}
    {ans : InitAnswers} {r : Except Thrown MediaForwardingUnit} (h : init S ingress w a ans = some (r, ingress', w')) :
    w.Quiet w' := by
  unfold init at h
  split at h
  · cases h
    exact .of_eq rfl
  · split at h
    · cases h
    · next hcall =>
      cases h
      exact .of_eq (World.state_of_createTrack hcall)
    · next egress w₁ hcall =>
      have hquiet : w.Quiet w₁ := .of_eq (World.state_of_createTrack hcall)
      split at h
      · next hinstall =>
        cases h
        obtain ⟨ho, hm, -⟩ := ChannelState.install_frame hinstall
        exact hquiet.trans (World.quiet_setState ho hm)
      · next hinstall =>
        split at h
        · cases h
        · cases h
          obtain ⟨ho, hm, -⟩ := ChannelState.install_frame hinstall
          exact hquiet.trans (World.quiet_setState ho hm)

namespace System
variable {S : Segmentation} {R : RtpLibrary} {s s' : System} {u : Nat} {x : UnitObject}

theorem state_of_peer {p ref : Nat} {w : World} (hw : s.peers[p]? = some w) : s.state (p, ref) = w.heap.state ref := by
  unfold state
  dsimp only
  rw [hw]
  rfl

theorem state_setPeer_of_ne {p : Nat} {w : World} {k : Nat × Nat} (hk : p ≠ k.1) :
    (s.setPeer p w).state k = s.state k := by
  unfold state setPeer
  dsimp only
  rw [List.getElem?_set_ne hk]

theorem state_setPeer {p : Nat} {w w' : World} (hw : s.peers[p]? = some w) (ref : Nat) :
    (s.setPeer p w').state (p, ref) = w'.heap.state ref :=
  state_of_peer (List.getElem?_set_self (List.getElem?_eq_some_iff.mp hw).1)

/-- The units read the same of every object. -/
def Quiet (s s' : System) : Prop :=
  ∀ k : Nat × Nat, k.1 < s.peers.length →
    (s'.state k).isOpen = (s.state k).isOpen ∧ (s'.state k).lastMessage = (s.state k).lastMessage

theorem quiet_setPeer {p : Nat} {w w' : World} (hw : s.peers[p]? = some w) (hq : w.Quiet w') :
    s.Quiet (s.setPeer p w') := by
  rintro ⟨q, ref⟩ -
  by_cases hpq : p = q
  · subst hpq
    rw [state_setPeer hw, state_of_peer hw]
    exact hq ref
  · rw [state_setPeer_of_ne hpq]
    exact ⟨rfl, rfl⟩

theorem Quiet.trans {s₁ s₂ s₃ : System} (h : s₁.Quiet s₂) (h' : s₂.Quiet s₃)
    (hlen : s₁.peers.length ≤ s₂.peers.length) : s₁.Quiet s₃ := fun k hk =>
  ⟨(h' k (Nat.lt_of_lt_of_le hk hlen)).1.trans (h k hk).1, (h' k (Nat.lt_of_lt_of_le hk hlen)).2.trans (h k hk).2⟩

theorem lt_of_egress (h : s.Inv) (hx : s.units[u]? = some x) : x.route.egressKey.1 < s.peers.length := by
  obtain ⟨w, hw, -⟩ := h.egress x.route (List.mem_of_getElem? (route_of_unit hx))
  exact (List.getElem?_eq_some_iff.mp hw).1

/-- A unit that nothing has happened to. -/
theorem alone_of_quiet (h : s.Inv) (hx : s.units[u]? = some x) (hq : s.Quiet s') : s'.alone x = s.alone x := by
  unfold alone
  rw [(hq _ (lt_of_egress h hx)).1]

/-- What a unit does with a message is a step of it alone. -/
theorem receive_alone {x x' : UnitObject} {isOpen : Bool} {message : Option Data} {ans : SinkAnswers}
    (h : x.receive R isOpen message ans = some x') :
    (x.forwarder isOpen).step R (.arrival message ans) = some (x'.forwarder isOpen) := by
  obtain ⟨f, hs, rfl⟩ := Option.map_eq_some_iff.mp h
  have hframe : f.isOpen = isOpen ∧ f.subscribed = x.subscribed := by
    rw [Forwarder.step] at hs
    split at hs
    · obtain ⟨ho, hsub, -⟩ := Forwarder.sink_frame hs
      exact ⟨ho, hsub⟩
    · cases hs
      exact ⟨rfl, rfl⟩
  rw [hs]
  unfold UnitObject.forwarder
  dsimp only
  rw [← hframe.1, ← hframe.2]

theorem deliver_getElem? {k : Nat × Nat} {message : Option Data} {ans : Nat → SinkAnswers} {n : Nat}
    {xs xs' : List UnitObject} (h : s.deliver R k message ans n xs = some xs') (hx : xs[u]? = some x) :
    ∃ x', s.hear R k message (ans (n + u)) x = some x' ∧ xs'[u]? = some x' := by
  induction xs generalizing n u xs' with
  | nil => cases hx
  | cons y ys ih =>
    obtain ⟨y', hy, h⟩ := Option.bind_eq_some_iff.mp h
    obtain ⟨ys', hys, h⟩ := Option.bind_eq_some_iff.mp h
    cases h
    cases u with
    | zero =>
      cases hx
      exact ⟨y', hy, rfl⟩
    | succ u =>
      obtain ⟨x', hs, hx'⟩ := ih hys hx
      refine ⟨x', ?_, hx'⟩
      rw [show n + (u + 1) = n + 1 + u by omega]
      exact hs

/-! ## One step -/

/-- In `s'` the unit `u` is `x'`, with the same route, and its own steps for the events lead there. -/
structure UnitStep (R : RtpLibrary) (s s' : System) (u : Nat) (x : UnitObject) (es : List UnitEvent) : Prop where
  unit : ∃ x', s'.units[u]? = some x' ∧ { x'.route with subscribed := x.subscribed } = x.route ∧
    exec (Forwarder.step R) (s.alone x) es = some (s'.alone x')

theorem UnitStep.of_quiet (h : s.Inv) (hx : s.units[u]? = some x) (hx' : s'.units[u]? = some x) (hq : s.Quiet s') :
    UnitStep R s s' u x [] := by
  refine ⟨x, hx', rfl, ?_⟩
  rw [alone_of_quiet h hx hq]
  rfl

theorem view_of_callback (hx : s.units[u]? = some x) {p : Nat} {w : World} (hw : s.peers[p]? = some w) {id : Int}
    {ref : Nat} (hptr : w.heap.userPtr id = some ref) (cb : ChannelCallback) (ans : Nat → SinkAnswers) :
    s.view u (.peer p (.channelCallback id cb) ans) = x.route.hears (p, ref) (w.heap.state ref) (ans u) cb := by
  simp only [view, route_of_unit hx, hw, hptr]

/-- A callback other than a message. -/
theorem unitStep_flag (hx : s.units[u]? = some x) {p ref : Nat} {w : World} {cb : ChannelCallback}
    {st : ChannelState} (hw : s.peers[p]? = some w) (hrun : cb.run (w.heap.state ref) = some st)
    (hcb : ∀ cdata size, cb ≠ .message cdata size) (ans : SinkAnswers) :
    UnitStep R s (s.setPeer p (w.setState ref st)) u x (x.route.hears (p, ref) (w.heap.state ref) ans cb) := by
  have hstate : ∀ k, k ≠ (p, ref) → (s.setPeer p (w.setState ref st)).state k = s.state k := by
    rintro ⟨q, ref'⟩ hk
    by_cases hpq : p = q
    · subst hpq
      have href : ref' ≠ ref := fun he => hk (he ▸ rfl)
      rw [state_setPeer hw, state_of_peer hw]
      exact Function.update_of_ne href ..
    · exact state_setPeer_of_ne hpq
  have hself : ((s.setPeer p (w.setState ref st)).state (p, ref)).isOpen = cb.openAfter (s.state (p, ref)).isOpen := by
    rw [state_setPeer hw, state_of_peer hw, ← ChannelCallback.run_isOpen hrun]
    exact congrArg ChannelState.isOpen (Function.update_self ..)
  refine ⟨x, hx, rfl, ?_⟩
  unfold alone
  by_cases hk : x.route.egressKey = (p, ref)
  · rw [hk, hself]
    cases cb with
    | opened =>
      rw [Route.hears, if_pos hk]
      rfl
    | closed =>
      rw [Route.hears, if_pos hk]
      rfl
    | error cerror => rfl
    | message cdata size => exact absurd rfl (hcb cdata size)
  · rw [hstate _ hk]
    cases cb with
    | opened =>
      rw [Route.hears, if_neg hk]
      rfl
    | closed =>
      rw [Route.hears, if_neg hk]
      rfl
    | error cerror => rfl
    | message cdata size => exact absurd rfl (hcb cdata size)

/-- A message. -/
theorem unitStep_message (h : s.Inv) (hx : s.units[u]? = some x) {p ref : Nat} {w : World}
    {cdata : Option (List UInt8)} {size : Int} {st : ChannelState} {ans : Nat → SinkAnswers} {units : List UnitObject}
    (hw : s.peers[p]? = some w) (hrun : (w.heap.state ref).messageCallback cdata size = some st)
    (hd : (s.setPeer p (w.setState ref st)).deliver R (p, ref) st.lastMessage ans 0 s.units = some units) :
    UnitStep R s { s.setPeer p (w.setState ref st) with units := units } u x
      (x.route.hears (p, ref) (w.heap.state ref) (ans u) (.message cdata size)) := by
  have hopen : ∀ k : Nat × Nat, k.1 < s.peers.length →
      ((s.setPeer p (w.setState ref st)).state k).isOpen = (s.state k).isOpen := by
    rintro ⟨q, ref'⟩ -
    by_cases hpq : p = q
    · subst hpq
      rw [state_setPeer hw, state_of_peer hw]
      have hstate : (w.setState ref st).heap.state = Function.update w.heap.state ref st := rfl
      rw [hstate]
      by_cases href : ref' = ref
      · subst href
        rw [Function.update_self]
        exact @ChannelCallback.run_isOpen _ _ (.message cdata size) hrun
      · rw [Function.update_of_ne href]
    · rw [state_setPeer_of_ne hpq]
  obtain ⟨x', hhear, hx'⟩ := deliver_getElem? hd hx
  have hlt := lt_of_egress h hx
  rw [Nat.zero_add] at hhear
  unfold hear at hhear
  rw [hopen _ hlt] at hhear
  have hafter : ∀ y : UnitObject, System.state { s.setPeer p (w.setState ref st) with units := units } y.route.egressKey =
      (s.setPeer p (w.setState ref st)).state y.route.egressKey := fun _ => rfl
  rw [Route.hears, hrun]
  split at hhear
  · next hk =>
    have hroute := UnitObject.receive_route hhear
    have hstep := receive_alone hhear
    refine ⟨x', hx', ?_, ?_⟩
    · rw [hroute]
      rfl
    · rw [if_pos hk]
      unfold alone
      rw [hafter, hroute, hopen _ hlt]
      show (Forwarder.step R (x.forwarder _) (.arrival st.lastMessage (ans u))).bind some = _
      rw [hstep]
      rfl
  · next hk =>
    cases hhear
    refine ⟨x, hx', rfl, ?_⟩
    rw [if_neg hk]
    unfold alone
    rw [hafter, hopen _ hlt]
    rfl

theorem unitStep_peer (h : s.Inv) {p : Nat} {e : Event} {ans : Nat → SinkAnswers}
    (hs : s.stepPeer S R p e ans = some s') (hx : s.units[u]? = some x) :
    UnitStep R s s' u x (s.view u (.peer p e ans)) := by
  have hnone : (∀ id cb, e ≠ .channelCallback id cb) ∨ s.peers[p]? = none → s.view u (.peer p e ans) = [] := by
    rintro (hcb | hp)
    · unfold view
      split
      · next hcall =>
        cases hcall
        exact absurd rfl (hcb _ _)
      · next hcall => cases hcall
      · rfl
    · cases e with
      | channelCallback id cb => simp only [view, route_of_unit hx, hp]
      | _ => rfl
  unfold stepPeer at hs
  split at hs
  · next hp =>
    cases hs
    rw [hnone (Or.inr hp)]
    exact .of_quiet h hx hx fun k _ => ⟨rfl, rfl⟩
  · next w hw =>
    split at hs
    · cases hs
    · next w' hstep =>
      dsimp only at hs
      by_cases hcb : ∃ id cb, e = .channelCallback id cb
      · obtain ⟨id, cb, rfl⟩ := hcb
        rw [AlloDataChannel.step, World.channelCallback] at hstep
        split at hstep
        · cases hstep
        · next ref hptr =>
          obtain ⟨st, hrun, rfl⟩ := Option.map_eq_some_iff.mp hstep
          rw [view_of_callback hx hw hptr]
          by_cases hmessage : ∃ cdata size, cb = .message cdata size
          · obtain ⟨cdata, size, rfl⟩ := hmessage
            have hpub : w.published (.channelCallback id (.message cdata size)) = some ref := hptr
            rw [hpub] at hs
            obtain ⟨units, hd, rfl⟩ := Option.map_eq_some_iff.mp hs
            have hself : Function.update w.heap.state ref st ref = st := Function.update_self ..
            dsimp only at hd
            rw [hself] at hd
            exact unitStep_message h hx hw hrun hd
          · have hcb : ∀ cdata size, cb ≠ .message cdata size := fun cdata size he => hmessage ⟨cdata, size, he⟩
            have hpub : w.published (.channelCallback id cb) = none := by
              cases cb with
              | message cdata size => exact absurd rfl (hcb cdata size)
              | _ => rfl
            rw [hpub] at hs
            cases hs
            exact unitStep_flag hx hw hrun hcb (ans u)
      · have hcb' : ∀ id cb, e ≠ .channelCallback id cb := fun id cb he => hcb ⟨id, cb, he⟩
        have hpub : w.published e = none := by
          cases e with
          | channelCallback id cb => exact absurd rfl (hcb' id cb)
          | _ => rfl
        rw [hpub] at hs
        cases hs
        rw [hnone (Or.inl hcb')]
        exact .of_quiet h hx hx (quiet_setPeer hw (.of_eq (World.state_of_step hcb' hstep)))

theorem Session.quiet {p : Nat} {a : Source} {ans : InitAnswers} {ingress : ChannelState} {w : World} {s₁ : System}
    (hs : Session s p a ans ingress w s₁) : s.Quiet s₁ ∧ s.peers.length ≤ s₁.peers.length := by
  obtain ⟨hw, -, hinstall, rfl⟩ := hs
  obtain ⟨ho, hm, -⟩ := ChannelState.install_frame hinstall
  exact ⟨quiet_setPeer hw (World.quiet_setState ho hm), (List.length_set ..).ge⟩

/-- What `create` does to the units that are there. -/
theorem create_quiet {p q : Nat} {a : Source} {ans : InitAnswers} {first : SinkAnswers}
    (hs : s.create S R p a q ans first = some s') : s.Quiet s' ∧ s.units <+: s'.units := by
  cases created hs with
  | refused => exact ⟨fun k _ => ⟨rfl, rfl⟩, List.prefix_refl _⟩
  | noPeer ingress w s₁ session =>
    refine ⟨session.quiet.1, ?_⟩
    rw [session.after]
    exact List.prefix_refl _
  | failed ingress st w v v' s₁ e session peer init =>
    obtain ⟨hq, hlen⟩ := session.quiet
    refine ⟨hq.trans (quiet_setPeer peer (MediaForwardingUnit.init_quiet init)) hlen, ?_⟩
    rw [session.after]
    exact List.prefix_refl _
  | made ingress st w v v' s₁ s' unit session peer init attach =>
    obtain ⟨hq, hlen⟩ := session.quiet
    have hq₂ := hq.trans (quiet_setPeer peer (MediaForwardingUnit.init_quiet init)) hlen
    obtain ⟨x', -, rfl⟩ := Option.map_eq_some_iff.mp attach
    refine ⟨hq₂, ?_⟩
    rw [session.after]
    exact List.prefix_append _ _

theorem unitStep_stop (h : s.Inv) {v : Nat} {code : Int} (hs : s.stop v code = some s') (hx : s.units[u]? = some x) :
    UnitStep R s s' u x (s.view u (.stop v code)) := by
  rcases stop_cases h hs with ⟨hv, rfl⟩ | ⟨y, w, hy, hw, ⟨n, hcode⟩, rfl⟩
  · have hne : v ≠ u := by
      rintro rfl
      rw [hx] at hv
      cases hv
    rw [view, if_neg hne]
    exact .of_quiet h hx hx fun k _ => ⟨rfl, rfl⟩
  · have hclosure : w.Quiet (w.setClosure y.unit.egressTrack.ref none) := World.quiet_setState rfl rfl
    have hq := quiet_setPeer hw (hclosure.trans (World.quiet_close y.unit.egressTrack.ref))
    by_cases hne : v = u
    · subst hne
      rw [hx, Option.some.injEq] at hy
      subst hy
      refine ⟨{ x with subscribed := false }, List.getElem?_set_self (List.getElem?_eq_some_iff.mp hx).1, rfl, ?_⟩
      rw [view, if_pos rfl, Lib.exec_cons, Forwarder.step, Forwarder.stop, hcode]
      have hopen := (hq _ (lt_of_egress h hx)).1
      show some ({ s.alone x with subscribed := false } : Forwarder) = some (Forwarder.mk _ _ _ _)
      unfold alone UnitObject.forwarder
      rw [← hopen]
      rfl
    · rw [view, if_neg hne]
      exact .of_quiet h hx ((List.getElem?_set_ne hne).trans hx) hq

theorem unitStep (h : s.Inv) {e : SystemEvent} (hs : s.step S R e = some s') (hx : s.units[u]? = some x) :
    UnitStep R s s' u x (s.view u e) := by
  cases e with
  | newPeer ipOverride =>
    cases hs
    refine .of_quiet h hx hx fun k hk => ?_
    unfold state
    rw [List.getElem?_append_left hk]
    exact ⟨rfl, rfl⟩
  | peer p e ans => exact unitStep_peer h hs hx
  | create p a q ans first =>
    obtain ⟨hq, more, hmore⟩ := create_quiet hs
    refine .of_quiet h hx ?_ hq
    rw [← hmore]
    exact getElem?_append_of_some hx
  | stop v code => exact unitStep_stop h hs hx
  | pli q id =>
    obtain ⟨requested, rfl⟩ := pli_frame hs
    exact .of_quiet h hx hx fun k _ => ⟨rfl, rfl⟩

/-! ## Whole runs -/

/-- A new unit starts with the current message of its ingress track. -/
theorem create_unit {p q : Nat} {a : Source} {ans : InitAnswers} {first : SinkAnswers}
    (hs : s.create S R p a q ans first = some s') {x' : UnitObject} (hx' : s'.units[s.units.length]? = some x') :
    ∃ egress, x'.route = ⟨a.fromClientId, p, q, a.ingressTrack, egress, true⟩ ∧
      Forwarder.step R
        { unit := { ingressTrack := a.ingressTrack, egressTrack := egress },
          isOpen := (s'.state x'.route.egressKey).isOpen }
        (.arrival (s.state (p, a.ingressTrack.ref)).lastMessage first) = some (s'.alone x') := by
  have hno : s.units[s.units.length]? ≠ some x' := fun hx =>
    absurd (List.getElem?_eq_some_iff.mp hx).1 (Nat.lt_irrefl _)
  cases created hs with
  | refused => exact absurd hx' hno
  | noPeer ingress w s₁ session =>
    rw [session.after] at hx'
    exact absurd hx' hno
  | failed ingress st w v v' s₁ e session peer init =>
    rw [session.after] at hx'
    exact absurd hx' hno
  | made ingress st w v v' s₁ s' unit session peer init attach =>
    obtain ⟨hq, hlen⟩ := session.quiet
    have hq₂ := hq.trans (quiet_setPeer peer (MediaForwardingUnit.init_quiet init)) hlen
    obtain ⟨hunit, -⟩ := MediaForwardingUnit.init_ok init
    obtain ⟨y, hy, rfl⟩ := Option.map_eq_some_iff.mp attach
    have hunits : s₁.units = s.units := by rw [session.after]; rfl
    have hget : (s₁.units ++ [y])[s.units.length]? = some x' := hx'
    rw [hunits, List.getElem?_concat_length, Option.some.injEq] at hget
    subst hget
    have hroute := UnitObject.receive_route hy
    have hstep := receive_alone hy
    refine ⟨unit.egressTrack, ?_, ?_⟩
    · rw [hroute, hunit]
      rfl
    · have hmessage := (hq₂ (p, a.ingressTrack.ref) (List.getElem?_eq_some_iff.mp session.peer).1).2
      rw [← hmessage, hroute]
      unfold alone
      rw [hroute]
      rw [hunit] at hstep ⊢
      exact hstep

/-- The unit `u` in a run: what it sees is a run of it alone. -/
theorem exec_unit (h : s.Inv) {es : List SystemEvent} (hs : exec (System.step S R) s es = some s')
    (hx : s.units[u]? = some x) :
    ∃ x', s'.units[u]? = some x' ∧ { x'.route with subscribed := x.subscribed } = x.route ∧
      exec (Forwarder.step R) (s.alone x) (observe (System.step S R) (view u) s es) = some (s'.alone x') := by
  have hstep : ∀ t e t' f,
      (System.Inv t ∧ ∃ y, t.units[u]? = some y ∧ { y.route with subscribed := x.subscribed } = x.route ∧ t.alone y = f) →
      System.step S R t e = some t' → ∃ f', exec (Forwarder.step R) f (t.view u e) = some f' ∧
        System.Inv t' ∧ ∃ y, t'.units[u]? = some y ∧ { y.route with subscribed := x.subscribed } = x.route ∧
          t'.alone y = f' := by
    rintro t e t' f ⟨ht, y, hy, hroute, rfl⟩ hs
    obtain ⟨y', hy', hroute', hexec⟩ := (unitStep ht hs hy).unit
    refine ⟨_, hexec, ht.step hs, y', hy', ?_, rfl⟩
    rw [← hroute, ← hroute']
  obtain ⟨f, hexec, -, x', hx', hroute, rfl⟩ := Lib.exec_simulates hstep hs ⟨h, x, hx, rfl, rfl⟩
  exact ⟨x', hx', hroute, hexec⟩

end System

/-- A unit has sent the messages that it ought to send, in order, under the identity of its egress track, and counted
those that the C library took. -/
def UnitObject.Relayed (R : RtpLibrary) (x : UnitObject) (isOpen : Bool) (es : List UnitEvent) : Prop :=
  ∃ ssrc pt, (forwarded isOpen es ≠ [] →
      x.unit.egressTrack.ssrcs.head? = some ssrc ∧ negotiated (forwarded isOpen es) = some pt) ∧
    x.sent = (forwarded isOpen es).map (fun a => rewritten R ssrc pt a.data) ∧
    x.unit.forwardedMessageCount = accepted (forwarded isOpen es)

/-- A unit that starts with nothing sent. -/
theorem UnitObject.relayed_of_exec {R : RtpLibrary} {ingress egress : Track} {isOpen isOpen' : Bool}
    {es : List UnitEvent} {x : UnitObject} (hegress : x.unit.egressTrack = egress)
    (h : exec (Forwarder.step R) { unit := { ingressTrack := ingress, egressTrack := egress }, isOpen := isOpen } es =
      some (x.forwarder isOpen')) : x.Relayed R isOpen es := by
  have hforwarded : (Forwarder.remaining
      { unit := { ingressTrack := ingress, egressTrack := egress }, isOpen := isOpen } es).dropWhile
        (fun a => a.payloadType.isNone) = forwarded isOpen es := rfl
  have hcases := Forwarder.run_unset rfl h
  rw [hforwarded] at hcases
  unfold Relayed
  rw [hegress]
  rcases hcases with ⟨hnil, -, hsent, hcount⟩ | ⟨b, bs, ssrc, pt, hcons, hpt, hssrcs, hsends⟩
  · rw [hnil]
    exact ⟨0, 0, fun hne => absurd rfl hne, hsent, hcount⟩
  · rw [hcons]
    exact ⟨ssrc, pt, fun _ => ⟨hssrcs, hpt⟩, hsends.sent, hsends.count.trans (Nat.zero_add _)⟩

/-- **Media across the system.** From its creation on, whatever peers and units do, each unit sends what it ought to send
for the messages on its ingress track and the callbacks on its egress track, and nothing else. -/
theorem system_relay {S : Segmentation} {R : RtpLibrary} {es es' : List SystemEvent} {s s₁ s' : System} {p q : Nat}
    {a : Source} {ans : InitAnswers} {first : SinkAnswers} {x₁ : UnitObject}
    (hrun : exec (System.step S R) {} es = some s)
    (hcreate : s.step S R (.create p a q ans first) = some s₁) (hx₁ : s₁.units[s.units.length]? = some x₁)
    (hrest : exec (System.step S R) s₁ es' = some s') :
    ∃ x, s'.units[s.units.length]? = some x ∧ { x.route with subscribed := true } = x₁.route ∧
      x.Relayed R (s₁.state x₁.route.egressKey).isOpen
        (.arrival (s.state (p, a.ingressTrack.ref)).lastMessage first ::
          observe (System.step S R) (System.view s.units.length) s₁ es') := by
  have hinv : s₁.Inv := (System.inv_start.exec hrun).step hcreate
  obtain ⟨egress, hroute₁, hfirst⟩ := System.create_unit hcreate hx₁
  obtain ⟨x, hx, hroute, hexec⟩ := System.exec_unit hinv hrest hx₁
  have hsub : x₁.subscribed = true := congrArg Route.subscribed hroute₁
  rw [hsub] at hroute
  refine ⟨x, hx, hroute, ?_⟩
  have hegress : x.unit.egressTrack = egress := by
    have he := congrArg Route.egressTrack hroute
    rw [hroute₁] at he
    exact he
  have hall : exec (Forwarder.step R)
      { unit := { ingressTrack := a.ingressTrack, egressTrack := egress },
        isOpen := (s₁.state x₁.route.egressKey).isOpen }
      (.arrival (s.state (p, a.ingressTrack.ref)).lastMessage first ::
        observe (System.step S R) (System.view s.units.length) s₁ es') = some (s'.alone x) := by
    rw [Lib.exec_cons, hfirst]
    exact hexec
  exact UnitObject.relayed_of_exec hegress hall

/-- The egress track opens between two messages. -/
def relayMessages : List SystemEvent :=
  [.peer 0 (.channelCallback 7 (.message (some examplePacket) 12)) fun _ => exampleAnswers,
    .peer 1 (.channelCallback 9 .opened) fun _ => exampleAnswers,
    .peer 0 (.channelCallback 7 (.message (some examplePacket) 12)) fun _ => exampleAnswers]

set_option synthInstance.maxSize 1000 in
/-- The second message is sent under the identity of the egress track. -/
theorem system_relay_example : ∃ s₁ s' x,
    exec (System.step .scalars .packed) {} (relayEvents ⟨5, by decide⟩) = some s₁ ∧
    exec (System.step .scalars .packed) s₁ relayMessages = some s' ∧ s'.units[0]? = some x ∧
    x.sent = [[128, 225, 0, 1, 0, 0, 0, 2, 0, 0, 0, 5]] ∧
    x.Relayed .packed false
      (.arrival none exampleAnswers :: observe (System.step .scalars .packed) (System.view 0) s₁ relayMessages) := by
  have hrun : ((exec (System.step .scalars .packed) {} relaySetup).bind fun s =>
      (s.step .scalars .packed (relayCreate ⟨5, by decide⟩)).bind fun s₁ =>
        (exec (System.step .scalars .packed) s₁ relayMessages).map fun s' =>
          (s.units.length, (s.state (0, 0)).lastMessage, s₁.routes, (s₁.state (1, 0)).isOpen,
            s'.units.map UnitObject.sent)) =
      some (0, none, [relayRoute true], false, [[[128, 225, 0, 1, 0, 0, 0, 2, 0, 0, 0, 5]]]) := by decide +kernel
  obtain ⟨s, hs, hrun⟩ := Option.bind_eq_some_iff.mp hrun
  obtain ⟨s₁, hs₁, hrun⟩ := Option.bind_eq_some_iff.mp hrun
  obtain ⟨s', hs', hrun⟩ := Option.map_eq_some_iff.mp hrun
  obtain ⟨hlen, hmessage, hroutes, hopen, hsent⟩ : s.units.length = 0 ∧ (s.state (0, 0)).lastMessage = none ∧
      s₁.routes = [relayRoute true] ∧ (s₁.state (1, 0)).isOpen = false ∧
      s'.units.map UnitObject.sent = [[[128, 225, 0, 1, 0, 0, 0, 2, 0, 0, 0, 5]]] := by
    simpa only [Prod.mk.injEq] using hrun
  obtain ⟨x₁, hx₁, hroute⟩ : ∃ x₁, s₁.units[0]? = some x₁ ∧ x₁.route = relayRoute true := by
    apply Option.map_eq_some_iff.mp
    rw [← List.getElem?_map]
    exact congrArg (fun rs : List Route => rs[0]?) hroutes
  obtain ⟨x, hx, -, hrelayed⟩ := system_relay hs hs₁ (hlen ▸ hx₁) hs'
  rw [hlen] at hx hrelayed
  have hsent' : (s'.units[0]?).map UnitObject.sent = some [[128, 225, 0, 1, 0, 0, 0, 2, 0, 0, 0, 5]] := by
    rw [← List.getElem?_map, hsent]
    rfl
  rw [hx] at hsent'
  have hkey : x₁.route.egressKey = (1, 0) := by rw [hroute]; rfl
  have hingress : s.state (0, relayTrack.ref) = s.state (0, 0) := rfl
  rw [hkey, hopen, hingress, hmessage] at hrelayed
  refine ⟨s₁, s', x, ?_, hs', hx, Option.some.inj hsent', hrelayed⟩
  rw [relayEvents, Lib.exec_append, hs]
  show (s.step _ _ _).bind some = _
  rw [hs₁]
  rfl

end AlloDataChannel

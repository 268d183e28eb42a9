import AlloDataChannel.Lib.Fanout
import AlloDataChannel.Lib.Observe
import AlloDataChannel.Sfu

/-!
# The steps of the SFU, as its observers see them

The receivers are a fan-out whose gates are their tracks, and the keyframe requests of all of them meet at the ingress
track.

* `Sfu.view`, `Sfu.asks` : what an event is for the receivers' tracks, and for the keyframe requests;
* `Sfu.Inv` : every peer is sound, and each receiver has what the statements before the current one gave it;
* `Sfu.stepped_of_step` : a step keeps the invariant and moves both abstractions by what is seen of it;
* `Sfu.setup_spec`, `Sfu.inv_of_run` : the invariant at the start and along every run.
-/

namespace AlloDataChannel
open Lib (Segmentation Run exec Gate FanEvent observe)

/-! ## What is seen of a step -/

/-- The flag that a callback sets. -/
def ChannelCallback.flag : ChannelCallback → Option Bool
  | .opened => some true
  | .closed => some false
  | _ => none

theorem ChannelCallback.openAfter_eq (isOpen : Bool) (cb : ChannelCallback) :
    cb.openAfter isOpen = cb.flag.getD isOpen := by
  cases cb <;> rfl

def Receiver.gate (r : Receiver) : Gate Data := ⟨r.isOpen, r.sent⟩

/-- Keyframe requests at a track that opens and closes. -/
inductive Ask
  | flag (isOpen : Bool)
  | request
  deriving DecidableEq, Repr

def Ask.step : Bool × Nat → Ask → Bool × Nat
  | (_, n), .flag isOpen => (isOpen, n)
  | (isOpen, n), .request => (isOpen, if isOpen then n + 1 else n)

/-- Stages at which `main` is about a receiver that it has appended. -/
def Stage.newest : Stage → Bool
  | .lock egress => egress
  | .gather egress => egress
  | .answer egress => egress
  | .append => false
  | .ended => false
  | _ => true

/-- The stages before the keyframe handler is there. -/
def unhandled : List Stage := [.observe, .createTrack, .session, .handler]

namespace Sfu

def gates (s : Sfu) : List (Gate Data) := s.receivers.map Receiver.gate

/-- How far the receiver `i` is. -/
def stageOf (s : Sfu) (i : Nat) : Stage :=
  if i + 1 = s.receivers.length ∧ s.stage.newest = true then s.stage else .append

/-- The message that a callback brings to the ingress track. -/
def message (s : Sfu) (e : Event) : Option Data :=
  match e.callbackOn s.ingressVideo.id with
  | some (.message (some bytes) size) => ChannelState.dataOfBytes bytes size
  | _ => none

/-- The flag that a callback sets on the track of the receiver `i`. -/
def trackFlag (s : Sfu) (i : Nat) (e : Event) : Option Bool :=
  ((s.receivers[i]?.bind Receiver.track).bind fun t => e.callbackOn t.id).bind ChannelCallback.flag

/-- What an event is for the receivers' tracks. -/
def view (R : RtpLibrary) (s : Sfu) (e : SfuEvent) : List (FanEvent Data) :=
  if s.stage = .ended then []
  else
    match e with
    | .main _ => if s.stage = .append then [.join] else []
    | .ingress e _ => (s.message e).toList.map fun data => .offer (RtpHeaderRewriteSSRC R data trackSsrc)
    | .receiver i e => (s.trackFlag i e).toList.map (.switch i)
    | _ => []

/-- The receiver `i` is there, and its peer's state is observed. -/
def Observing (s : Sfu) (i : Nat) : Prop := i < s.receivers.length ∧ s.stageOf i ≠ .observe

/-- The receiver `i` is there, and its track has its keyframe handler. -/
def Handling (s : Sfu) (i : Nat) : Prop :=
  i < s.receivers.length ∧ s.stageOf i ∉ unhandled

instance (s : Sfu) (i : Nat) : Decidable (s.Observing i) := inferInstanceAs (Decidable (_ ∧ _))

instance (s : Sfu) (i : Nat) : Decidable (s.Handling i) := inferInstanceAs (Decidable (_ ∧ _))

/-- What an event is for the keyframe requests. -/
def asks (s : Sfu) (e : SfuEvent) : List Ask :=
  if s.stage = .ended then []
  else
    match e with
    | .main _ =>
      if s.stage = .observe ∧ (s.receivers[s.newest]?.any fun r => r.states.state = .connected) = true then [.request]
      else []
    | .ingress e _ => ((e.callbackOn s.ingressVideo.id).bind ChannelCallback.flag).toList.map .flag
    | .receiverState i cb => if s.Observing i ∧ cb = .state State.connected.rawValue then [.request] else []
    | .pli i => if s.Handling i then [.request] else []
    | _ => []

end Sfu

/-! ## The invariant -/

namespace Receiver

/-- The receiver's setup is done up to the keyframe handler. -/
structure Placed (ingress : Track) (r : Receiver) : Prop where
  observed : r.observed = true
  chain : r.chain = [.current]
  handler : ∃ t, r.track = some t ∧ (r.peer.heap.state t.ref).onKeyFrameRequested = some (.forward ingress.ref)

/-- What the statements before the stage have given to the receiver. -/
def At (ingress : Track) (r : Receiver) : Stage → Prop
  | .observe => r.observed = false ∧ r.track = none ∧ r.chain = []
  | .createTrack => r.observed = true ∧ r.track = none ∧ r.chain = []
  | .session => r.observed = true ∧ r.track.isSome ∧ r.chain = []
  | .handler => r.observed = true ∧ r.track.isSome ∧ r.chain = []
  | _ => r.Placed ingress

/-- A step that leaves the setup of the receiver alone. -/
structure Kept (r r' : Receiver) : Prop where
  observed : r'.observed = r.observed
  track : r'.track = r.track
  chain : r'.chain = r.chain
  handler : ∀ t, r.track = some t →
    (r'.peer.heap.state t.ref).onKeyFrameRequested = (r.peer.heap.state t.ref).onKeyFrameRequested

theorem Kept.placed {ingress : Track} {r r' : Receiver} (h : r.Kept r') (hr : r.Placed ingress) :
    r'.Placed ingress where
  observed := h.observed.trans hr.observed
  chain := h.chain.trans hr.chain
  handler := by
    obtain ⟨t, ht, hs⟩ := hr.handler
    exact ⟨t, h.track.trans ht, (h.handler t ht).trans hs⟩

theorem Kept.at {ingress : Track} {r r' : Receiver} (h : r.Kept r') {stage : Stage} (hr : r.At ingress stage) :
    r'.At ingress stage := by
  cases stage with
  | observe => exact ⟨h.observed.trans hr.1, h.track.trans hr.2.1, h.chain.trans hr.2.2⟩
  | createTrack => exact ⟨h.observed.trans hr.1, h.track.trans hr.2.1, h.chain.trans hr.2.2⟩
  | session => exact ⟨h.observed.trans hr.1, h.track ▸ hr.2.1, h.chain.trans hr.2.2⟩
  | handler => exact ⟨h.observed.trans hr.1, h.track ▸ hr.2.1, h.chain.trans hr.2.2⟩
  | _ => exact h.placed hr

theorem At.placed {ingress : Track} {r : Receiver} {stage : Stage} (h : r.At ingress stage) (hs : stage ∉ unhandled) :
    r.Placed ingress := by
  cases stage with
  | observe => exact absurd List.mem_cons_self hs
  | createTrack => exact absurd (by decide) hs
  | session => exact absurd (by decide) hs
  | handler => exact absurd (by decide) hs
  | _ => exact h

theorem At.chain {ingress : Track} {r : Receiver} {stage : Stage} (h : r.At ingress stage) (hs : stage ∈ unhandled) :
    r.chain = [] := by
  cases stage with
  | observe => exact h.2.2
  | createTrack => exact h.2.2
  | session => exact h.2.2
  | handler => exact h.2.2
  | _ => exact absurd hs (by simp [unhandled])

end Receiver

namespace Sfu

structure Inv (kind : Int → ChannelKind) (s : Sfu) : Prop where
  ingress : Sound kind s.ingress (some s.ingressVideo)
  receivers : ∀ r ∈ s.receivers, Sound kind r.peer r.track
  stage : s.stage ≠ .ended → ∀ i (r : Receiver), s.receivers[i]? = some r → r.At s.ingressVideo (s.stageOf i)
  newest : s.stage.newest = true → s.receivers ≠ []

/-- What the C library may answer: the ids are unique, and a receiver's channels call back once it has its track. -/
def Offered (kind : Int → ChannelKind) (s : Sfu) : SfuEvent → Prop
  | .main ans => s.stage = .createTrack → 0 ≤ ans.code → kind ans.code = .track
  | .ingress e _ => e.IsCallback ∧ UniqueIds kind s.ingress e
  | .receiver i e => e.IsCallback ∧ ∀ r, s.receivers[i]? = some r → r.track.isSome ∧ UniqueIds kind r.peer e
  | _ => True

/-- What a step does, for the invariant and for the two views. -/
structure Stepped (kind : Int → ChannelKind) (R : RtpLibrary) (s : Sfu) (e : SfuEvent) (t : Sfu) : Prop where
  inv : t.Inv kind
  gates : t.gates = (s.view R e).foldl Gate.step s.gates
  asks : (t.ingressOpen, t.requests) = (s.asks e).foldl Ask.step (s.ingressOpen, s.requests)

section Steps
variable {S : Segmentation} {R : RtpLibrary} {kind : Int → ChannelKind} {s t : Sfu}

/-! ### One receiver changes -/

theorem Inv.set (h : s.Inv kind) {i : Nat} {r r' : Receiver} (hr : s.receivers[i]? = some r) (hkept : r.Kept r')
    (hsound : Sound kind r'.peer r'.track) : Inv kind { s with receivers := s.receivers.set i r' } where
  ingress := h.ingress
  receivers x hx := by
    rcases List.mem_or_eq_of_mem_set hx with hx | rfl
    · exact h.receivers x hx
    · exact hsound
  stage hne j x hx := by
    have hstage : ({ s with receivers := s.receivers.set i r' } : Sfu).stageOf j = s.stageOf j := by
      unfold stageOf
      rw [List.length_set]
    rw [hstage]
    have hx' : (s.receivers.set i r')[j]? = some x := hx
    by_cases hij : i = j
    · subst hij
      rw [List.getElem?_set_self (List.getElem?_eq_some_iff.mp hr).1, Option.some.injEq] at hx'
      subst hx'
      exact hkept.at (h.stage hne i r hr)
    · rw [List.getElem?_set_ne hij] at hx'
      exact h.stage hne j x hx'
  newest hnew := by
    show s.receivers.set i r' ≠ []
    rw [Ne, List.set_eq_nil_iff]
    exact h.newest hnew

theorem gates_set (s : Sfu) (i : Nat) (r' : Receiver) :
    ({ s with receivers := s.receivers.set i r' } : Sfu).gates = s.gates.set i r'.gate := List.map_set

theorem getElem?_gates {i : Nat} {r : Receiver} (hr : s.receivers[i]? = some r) : s.gates[i]? = some r.gate := by
  unfold gates
  rw [List.getElem?_map, hr]
  rfl

theorem gates_set_same {i : Nat} {r r' : Receiver} (hr : s.receivers[i]? = some r) (hg : r'.gate = r.gate) :
    ({ s with receivers := s.receivers.set i r' } : Sfu).gates = s.gates := by
  rw [gates_set, hg]
  have hget := getElem?_gates hr
  obtain ⟨hlt, heq⟩ := List.getElem?_eq_some_iff.mp hget
  rw [← heq]
  exact List.set_getElem_self hlt

/-! ### Keyframe requests -/

theorem requestKeyFrame_receivers (s : Sfu) : s.requestKeyFrame.receivers = s.receivers := by
  unfold requestKeyFrame
  split <;> rfl

theorem Inv.requestKeyFrame (h : s.Inv kind) : s.requestKeyFrame.Inv kind := by
  unfold Sfu.requestKeyFrame
  split
  · exact ⟨h.ingress, h.receivers, h.stage, h.newest⟩
  · exact h

theorem asks_requestKeyFrame (s : Sfu) : (s.requestKeyFrame.ingressOpen, s.requestKeyFrame.requests) =
    Ask.step (s.ingressOpen, s.requests) .request := by
  unfold requestKeyFrame Ask.step
  cases hopen : s.ingressOpen with
  | true => exact Prod.ext hopen rfl
  | false => exact Prod.ext hopen rfl

theorem gates_requestKeyFrame (s : Sfu) : s.requestKeyFrame.gates = s.gates := by
  unfold gates
  rw [requestKeyFrame_receivers]

/-! ### The events -/

theorem view_of_running (hne : s.stage ≠ .ended) (e : SfuEvent) : s.view R e =
    match e with
    | .main _ => if s.stage = .append then [.join] else []
    | .ingress e _ => (s.message e).toList.map fun data => .offer (RtpHeaderRewriteSSRC R data trackSsrc)
    | .receiver i e => (s.trackFlag i e).toList.map (.switch i)
    | _ => [] := if_neg hne

theorem asks_of_running (hne : s.stage ≠ .ended) (e : SfuEvent) : s.asks e =
    match e with
    | .main _ =>
      if s.stage = .observe ∧ (s.receivers[s.newest]?.any fun r => r.states.state = .connected) = true then [.request]
      else []
    | .ingress e _ => ((e.callbackOn s.ingressVideo.id).bind ChannelCallback.flag).toList.map .flag
    | .receiverState i cb => if s.Observing i ∧ cb = .state State.connected.rawValue then [.request] else []
    | .pli i => if s.Handling i then [.request] else []
    | _ => [] := if_neg hne

/-- A step that no observer sees. -/
theorem Stepped.quiet {e : SfuEvent} (hi : t.Inv kind) (hv : s.view R e = []) (ha : s.asks e = [])
    (hg : t.gates = s.gates) (hopen : t.ingressOpen = s.ingressOpen) (hr : t.requests = s.requests) :
    Stepped kind R s e t where
  inv := hi
  gates := by
    rw [hv, hg]
    rfl
  asks := by
    rw [ha, hopen, hr]
    rfl

theorem modifyReceiver_cases {i : Nat} {f : Receiver → Option Receiver} (h : s.modifyReceiver i f = some t) :
    s.receivers[i]? = none ∧ t = s ∨
      ∃ r r', s.receivers[i]? = some r ∧ f r = some r' ∧ t = { s with receivers := s.receivers.set i r' } := by
  unfold modifyReceiver at h
  split at h
  · next hnone => exact Or.inl ⟨hnone, (Option.some.inj h).symm⟩
  · next r hr =>
    obtain ⟨r', hr', rfl⟩ := Option.map_eq_some_iff.mp h
    exact Or.inr ⟨r, r', hr, hr', rfl⟩

theorem exec_handler {st st' : ChannelState} {cbs : List ChannelCallback}
    (h : exec ChannelCallback.run st cbs = some st') : st'.onKeyFrameRequested = st.onKeyFrameRequested := by
  induction cbs generalizing st with
  | nil =>
    cases h
    rfl
  | cons cb cbs ih =>
    obtain ⟨st₁, hcb, h⟩ := Option.bind_eq_some_iff.mp h
    rw [ih h]
    cases cb with
    | opened =>
      cases hcb
      rfl
    | closed =>
      cases hcb
      rfl
    | error cerror =>
      obtain ⟨error, -, rfl⟩ := Option.map_eq_some_iff.mp hcb
      rfl
    | message cdata size =>
      obtain ⟨bytes, -, hcb⟩ := Option.bind_eq_some_iff.mp hcb
      obtain ⟨data, -, hcb⟩ := Option.bind_eq_some_iff.mp hcb
      cases hcb
      rfl

/-- A callback of a receiver's peer moves the flag of its gate. -/
theorem stepped_receiver {i : Nat} {e : Event} (h : s.Inv kind) (hne : s.stage ≠ .ended)
    (henv : s.Offered kind (.receiver i e)) (hs : s.running S R (.receiver i e) = some t) :
    Stepped kind R s (.receiver i e) t := by
  rcases modifyReceiver_cases hs with ⟨hnone, rfl⟩ | ⟨r, r', hr, hr', rfl⟩
  · refine Stepped.quiet h ?_ (asks_of_running hne _) rfl rfl rfl
    rw [view_of_running hne]
    dsimp only
    unfold trackFlag
    rw [hnone]
    rfl
  · obtain ⟨hcb, hpeer⟩ := henv
    obtain ⟨htrack, hids⟩ := hpeer r hr
    obtain ⟨track, htrack⟩ := Option.isSome_iff_exists.mp htrack
    obtain ⟨w, hw, rfl⟩ := Option.map_eq_some_iff.mp hr'
    have hsound := h.receivers r (List.mem_of_getElem? hr)
    rw [htrack] at hsound
    obtain ⟨hsound', hexec⟩ := hsound.callback hcb hids hw
    have hkept : r.Kept { r with peer := w } := by
      refine ⟨rfl, rfl, rfl, fun t' ht' => ?_⟩
      rw [htrack, Option.some.injEq] at ht'
      subst ht'
      exact exec_handler hexec
    have hopen : ({ r with peer := w } : Receiver).isOpen = (s.trackFlag i e).getD r.isOpen := by
      have hafter := exec_isOpen hexec
      unfold Receiver.isOpen trackFlag
      rw [hr, Option.bind_some, htrack, Option.any_some, Option.any_some, Option.bind_some, hafter]
      cases e.callbackOn track.id with
      | none => rfl
      | some cb => exact cb.openAfter_eq _
    refine ⟨h.set hr hkept (by rw [htrack]; exact hsound'), ?_, ?_⟩
    · have hgate : ({ r with peer := w } : Receiver).gate =
          { r.gate with isOpen := (s.trackFlag i e).getD r.isOpen } := by
        unfold Receiver.gate
        rw [hopen]
      rw [view_of_running hne]
      dsimp only
      cases hflag : s.trackFlag i e with
      | none =>
        rw [hflag] at hgate
        exact gates_set_same hr hgate
      | some flag =>
        rw [hflag] at hgate
        rw [gates_set, hgate]
        show s.gates.set i _ = s.gates.modify i _
        rw [List.modify_eq_set_getElem?, getElem?_gates hr]
        rfl
    · rw [asks_of_running hne]
      rfl

theorem stepped_receiverDescription {i : Nat} {sdp type : Lib.Scalars} (h : s.Inv kind) (hne : s.stage ≠ .ended)
    (hs : s.running S R (.receiverDescription i sdp type) = some t) :
    Stepped kind R s (.receiverDescription i sdp type) t := by
  rcases modifyReceiver_cases hs with ⟨hnone, rfl⟩ | ⟨r, r', hr, hr', rfl⟩
  · exact Stepped.quiet h (view_of_running hne _) (asks_of_running hne _) rfl rfl rfl
  · obtain ⟨w, hw, rfl⟩ := Option.map_eq_some_iff.mp hr'
    obtain ⟨hsound, hheap⟩ := (h.receivers r (List.mem_of_getElem? hr)).described hw
    refine Stepped.quiet (h.set hr ⟨rfl, rfl, rfl, fun t' _ => ?_⟩ hsound) (view_of_running hne _)
      (asks_of_running hne _) (gates_set_same hr ?_) rfl rfl
    · show (w.heap.state t'.ref).onKeyFrameRequested = _
      rw [hheap]
    · unfold Receiver.gate Receiver.isOpen
      dsimp only
      rw [hheap]

theorem observed_iff (h : s.Inv kind) (hne : s.stage ≠ .ended) (i : Nat) :
    (s.receivers[i]?.any fun r => r.observed) = true ↔ s.Observing i := by
  unfold Observing
  cases hr : s.receivers[i]? with
  | none =>
    have hlen := List.getElem?_eq_none_iff.mp hr
    exact ⟨fun hf => Bool.noConfusion hf, fun ⟨hlt, _⟩ => absurd hlt (by omega)⟩
  | some r =>
    have hlt := (List.getElem?_eq_some_iff.mp hr).1
    have hat := h.stage hne i r hr
    rw [Option.any_some]
    refine ⟨fun hobs => ⟨hlt, fun hst => ?_⟩, fun ⟨_, hst⟩ => ?_⟩
    · rw [hst] at hat
      exact Bool.noConfusion (hobs.symm.trans hat.1)
    · revert hat hst
      cases s.stageOf i with
      | observe => exact fun _ hst => absurd rfl hst
      | createTrack => exact fun hat _ => hat.1
      | session => exact fun hat _ => hat.1
      | handler => exact fun hat _ => hat.1
      | _ => exact fun hat _ => hat.observed

theorem stepped_receiverState {i : Nat} {cb : StateCallback} (h : s.Inv kind) (hne : s.stage ≠ .ended)
    (hs : s.running S R (.receiverState i cb) = some t) : Stepped kind R s (.receiverState i cb) t := by
  obtain ⟨u, hu, hs⟩ := Option.map_eq_some_iff.mp hs
  have hi : u.Inv kind ∧ u.gates = s.gates ∧ u.ingressOpen = s.ingressOpen ∧ u.requests = s.requests := by
    rcases modifyReceiver_cases hu with ⟨hnone, rfl⟩ | ⟨r, r', hr, hr', rfl⟩
    · exact ⟨h, rfl, rfl, rfl⟩
    · obtain ⟨states, -, rfl⟩ := Option.map_eq_some_iff.mp hr'
      exact ⟨h.set hr ⟨rfl, rfl, rfl, fun _ _ => rfl⟩ (h.receivers r (List.mem_of_getElem? hr)),
        gates_set_same hr rfl, rfl, rfl⟩
  obtain ⟨hinv, hgates, hopen, hreq⟩ := hi
  have hcond : ((s.receivers[i]?.any fun r => r.observed) && decide (cb = .state State.connected.rawValue)) = true ↔
      s.Observing i ∧ cb = .state State.connected.rawValue := by
    rw [Bool.and_eq_true, observed_iff h hne, decide_eq_true_iff]
  by_cases hc : s.Observing i ∧ cb = .state State.connected.rawValue
  · rw [if_pos (hcond.mpr hc)] at hs
    subst hs
    refine ⟨hinv.requestKeyFrame, ?_, ?_⟩
    · rw [view_of_running hne, gates_requestKeyFrame, hgates]
      rfl
    · rw [asks_requestKeyFrame, asks_of_running hne, hopen, hreq]
      dsimp only
      rw [if_pos hc]
      rfl
  · rw [if_neg fun hf => hc (hcond.mp hf)] at hs
    subst hs
    refine Stepped.quiet hinv (view_of_running hne _) ?_ hgates hopen hreq
    rw [asks_of_running hne]
    dsimp only
    rw [if_neg hc]

/-- What a keyframe request calls: the handler once it is there. -/
theorem pliCalls_eq (h : s.Inv kind) (hne : s.stage ≠ .ended) {i : Nat} {r : Receiver} (hr : s.receivers[i]? = some r) :
    r.pliCalls = if s.Handling i then [.closure (.forward s.ingressVideo.ref)] else [] := by
  have hlt := (List.getElem?_eq_some_iff.mp hr).1
  have hat := h.stage hne i r hr
  unfold Receiver.pliCalls
  by_cases hstage : s.stageOf i ∈ unhandled
  · rw [if_neg fun hc => hc.2 hstage, hat.chain hstage]
    cases r.track <;> rfl
  · have hp := hat.placed hstage
    obtain ⟨t, ht, hstate⟩ := hp.handler
    rw [if_pos ⟨hlt, hstage⟩, ht]
    dsimp only
    rw [hp.chain, List.flatMap_cons, List.flatMap_nil, List.append_nil, PliHandler.calls, hstate]
    rfl

theorem stepped_pli {i : Nat} (h : s.Inv kind) (hne : s.stage ≠ .ended) (hs : s.running S R (.pli i) = some t) :
    Stepped kind R s (.pli i) t := by
  have hasks := asks_of_running hne (.pli i)
  dsimp only at hasks
  unfold running at hs
  dsimp only at hs
  by_cases hc : s.Handling i
  · have hr := List.getElem?_eq_getElem hc.1
    rw [hr] at hs
    dsimp only at hs
    rw [pliCalls_eq h hne hr, if_pos hc] at hs
    cases hs
    refine ⟨h.requestKeyFrame, ?_, ?_⟩
    · rw [view_of_running hne, gates_requestKeyFrame]
      rfl
    · rw [asks_requestKeyFrame, hasks, if_pos hc]
      rfl
  · have hsame : t = s := by
      cases hr : s.receivers[i]? with
      | none =>
        rw [hr] at hs
        exact (Option.some.inj hs).symm
      | some r =>
        rw [hr] at hs
        dsimp only at hs
        rw [pliCalls_eq h hne hr, if_neg hc] at hs
        exact (Option.some.inj hs).symm
    subst hsame
    exact Stepped.quiet h (view_of_running hne _) (hasks.trans (if_neg hc)) rfl rfl rfl

/-- A receiver without what it was sent. -/
def bare (r : Receiver) : Receiver := { r with sent := [] }

/-- The loop of the sink is a round of the fan-out, and changes nothing but what was sent. -/
theorem forward_round {data : Data} {codes : Nat → Int} {i : Nat} {rs rs' : List Receiver}
    (h : forward R (some data) codes i rs = some rs') :
    rs'.map Receiver.gate = Gate.offer (RtpHeaderRewriteSSRC R data trackSsrc) (rs.map Receiver.gate) ∧
      rs'.map bare = rs.map bare := by
  induction rs generalizing i rs' with
  | nil =>
    cases h
    exact ⟨rfl, rfl⟩
  | cons r rs ih =>
    cases htrack : r.track with
    | none =>
      rw [forward_missing htrack] at h
      cases h
    | some track =>
      cases hopen : r.isOpen with
      | false =>
        rw [forward_closed htrack hopen] at h
        cases h
        refine ⟨?_, rfl⟩
        show r.gate :: rs.map Receiver.gate = Gate.offer _ (r.gate :: rs.map Receiver.gate)
        have hclosed : ¬ r.gate.isOpen = true := by
          rw [Receiver.gate, hopen]
          exact Bool.false_ne_true
        rw [Gate.offer, if_neg hclosed]
      | true =>
        rw [forward_open hopen] at h
        obtain ⟨-, -, h⟩ := Option.bind_eq_some_iff.mp h
        obtain ⟨rest, hrest, rfl⟩ := Option.map_eq_some_iff.mp h
        obtain ⟨hgates, hbare⟩ := ih hrest
        refine ⟨?_, congrArg (_ :: ·) hbare⟩
        show _ :: rest.map Receiver.gate = Gate.offer _ (r.gate :: rs.map Receiver.gate)
        rw [Gate.offer, if_pos (show r.gate.isOpen = true from hopen), hgates]
        rfl

/-- The sink gets what the callbacks on the id of the ingress track bring. -/
theorem assigned_eq (h : Sound kind s.ingress (some s.ingressVideo)) {e : Event} {w : World}
    (hw : AlloDataChannel.step S s.ingress e = some w) : s.assigned w e = s.message e := by
  have hptr := h.reachable _ (h.registered _ rfl)
  have hhistory := (heapStep_of_step hw).history h.pointed hptr
  unfold assigned message
  cases e with
  | channelCallback id cb =>
    have hon : Event.callbackOn s.ingressVideo.id (.channelCallback id cb) =
        if id = s.ingressVideo.id then some cb else none := rfl
    by_cases hid : id = s.ingressVideo.id
    · subst hid
      have hself : Event.callbackOn (Channel.track s.ingressVideo).id (.channelCallback s.ingressVideo.id cb) = some cb :=
        if_pos rfl
      rw [hself] at hhistory
      rw [hon, if_pos rfl]
      cases cb with
      | message cdata size =>
        rw [Option.toList_some, Lib.exec_cons] at hhistory
        obtain ⟨st, hst, hnil⟩ := Option.bind_eq_some_iff.mp hhistory
        obtain ⟨bytes, rfl, hst⟩ := Option.bind_eq_some_iff.mp hst
        obtain ⟨data, hdata, hst⟩ := Option.bind_eq_some_iff.mp hst
        have hstate : st = w.heap.state s.ingressVideo.ref := Option.some.inj hnil
        have hassigned := Option.some.inj hst
        dsimp only
        rw [if_pos (show s.ingress.heap.userPtr s.ingressVideo.id = some s.ingressVideo.ref from hptr), hdata,
          ← hstate, ← hassigned]
      | _ => rfl
    · rw [hon, if_neg hid]
      cases cb with
      | message cdata size =>
        have hne : s.ingress.heap.userPtr id ≠ some s.ingressVideo.ref := by
          intro heq
          obtain ⟨c, hc, rfl⟩ := h.pointed _ _ heq
          obtain ⟨c', hc', hid'⟩ := h.pointed _ _ hptr
          have hcc : c = c' := Option.some.inj (hc.symm.trans hc')
          exact hid (by rw [hcc, hid']; rfl)
        exact if_neg hne
      | _ => rfl
  | _ => rfl

/-- A message is offered to the receivers, and any other callback leaves them alone. -/
theorem stepped_ingress {e : Event} {codes : Nat → Int} (h : s.Inv kind) (hne : s.stage ≠ .ended)
    (henv : s.Offered kind (.ingress e codes)) (hs : s.running S R (.ingress e codes) = some t) :
    Stepped kind R s (.ingress e codes) t := by
  obtain ⟨w, hw, hs⟩ := Option.bind_eq_some_iff.mp hs
  obtain ⟨rs, hrs, hs⟩ := Option.bind_eq_some_iff.mp hs
  cases hs
  obtain ⟨hsound, hexec⟩ := h.ingress.callback henv.1 henv.2 hw
  rw [assigned_eq h.ingress hw] at hrs
  have hround : rs.map Receiver.gate = ((s.message e).toList.map fun data =>
      FanEvent.offer (RtpHeaderRewriteSSRC R data trackSsrc)).foldl Gate.step s.gates ∧
      rs.map bare = s.receivers.map bare := by
    cases hm : s.message e with
    | none =>
      rw [hm, forward_none] at hrs
      cases hrs
      exact ⟨rfl, rfl⟩
    | some data =>
      rw [hm] at hrs
      exact forward_round hrs
  obtain ⟨hgates, hbare⟩ := hround
  have hlen : rs.length = s.receivers.length := by
    have := congrArg List.length hbare
    rwa [List.length_map, List.length_map] at this
  have hget : ∀ (i : Nat) (r' : Receiver), rs[i]? = some r' → ∃ r, s.receivers[i]? = some r ∧ bare r' = bare r := by
    intro i r' hr'
    have hmap : (rs.map bare)[i]? = some (bare r') := by rw [List.getElem?_map, hr', Option.map_some]
    rw [hbare, List.getElem?_map, Option.map_eq_some_iff] at hmap
    obtain ⟨r, hr, heq⟩ := hmap
    exact ⟨r, hr, heq.symm⟩
  refine ⟨⟨hsound, fun r' hr' => ?_, fun _ i r' hr' => ?_, fun hnew hnil => ?_⟩, ?_, ?_⟩
  · obtain ⟨i, hi⟩ := List.mem_iff_getElem?.mp hr'
    obtain ⟨r, hr, heq⟩ := hget i r' hi
    have hsr := h.receivers r (List.mem_of_getElem? hr)
    rw [show r'.peer = r.peer from congrArg (·.peer) heq, show r'.track = r.track from congrArg (·.track) heq]
    exact hsr
  · obtain ⟨r, hr, heq⟩ := hget i r' hr'
    have hkept : r.Kept r' := by
      refine ⟨congrArg (·.observed) heq, congrArg (·.track) heq, congrArg (·.chain) heq, fun t' _ => ?_⟩
      rw [show r'.peer = r.peer from congrArg (·.peer) heq]
    have hstage : ({ s with ingress := w, receivers := rs } : Sfu).stageOf i = s.stageOf i := by
      unfold stageOf
      rw [hlen]
    rw [hstage]
    exact hkept.at (h.stage hne i r hr)
  · have hnil' : rs = [] := hnil
    rw [hnil', List.length_nil] at hlen
    exact h.newest hnew (List.eq_nil_of_length_eq_zero hlen.symm)
  · rw [view_of_running hne]
    exact hgates
  · rw [asks_of_running hne]
    have hopen : (w.heap.state s.ingressVideo.ref).isOpen =
        ((e.callbackOn s.ingressVideo.id).bind ChannelCallback.flag).getD s.ingressOpen := by
      rw [exec_isOpen hexec]
      cases e.callbackOn s.ingressVideo.id with
      | none => rfl
      | some cb => exact cb.openAfter_eq _
    show ((w.heap.state s.ingressVideo.ref).isOpen, s.requests) = _
    rw [hopen]
    dsimp only
    cases (e.callbackOn s.ingressVideo.id).bind ChannelCallback.flag <;> rfl

/-! ### The statements of `main` -/

/-- A statement about the newest receiver that leaves its gate as it is, and gives it what the next stage expects. -/
theorem onReceiver_spec {next : Stage} {f : Receiver → Option (Bool × Receiver)} (h : s.Inv kind)
    (hnew : s.stage.newest = true) (hnext : next.newest = true ∨ next = .append) (hs : s.onReceiver next f = some t)
    (hf : ∀ r ok r', Sound kind r.peer r.track → r.At s.ingressVideo s.stage → f r = some (ok, r') →
      Sound kind r'.peer r'.track ∧ r'.gate = r.gate ∧ (ok = true → r'.At s.ingressVideo next)) :
    t.Inv kind ∧ t.gates = s.gates ∧ t.ingressOpen = s.ingressOpen ∧ t.requests = s.requests := by
  have hne : s.stage ≠ .ended := fun he => by
    rw [he] at hnew
    exact Bool.noConfusion hnew
  unfold onReceiver at hs
  cases hr : s.receivers[s.newest]? with
  | none =>
    rw [hr] at hs
    cases hs
    exact ⟨h, rfl, rfl, rfl⟩
  | some r =>
    rw [hr] at hs
    obtain ⟨⟨ok, r'⟩, hr', rfl⟩ := Option.map_eq_some_iff.mp hs
    have hlt : s.newest < s.receivers.length := (List.getElem?_eq_some_iff.mp hr).1
    have hlast : s.newest + 1 = s.receivers.length := by
      unfold newest at hlt ⊢
      omega
    have hstage : s.stageOf s.newest = s.stage := if_pos ⟨hlast, hnew⟩
    have hat := h.stage hne _ r hr
    rw [hstage] at hat
    obtain ⟨hsound, hgate, hafter⟩ := hf r ok r' (h.receivers r (List.mem_of_getElem? hr)) hat hr'
    refine ⟨⟨h.ingress, fun x hx => ?_, fun hgo i x hx => ?_, fun _ hnil => ?_⟩, gates_set_same hr hgate, rfl, rfl⟩
    · rcases List.mem_or_eq_of_mem_set hx with hx | rfl
      · exact h.receivers x hx
      · exact hsound
    · have hx' : (s.receivers.set s.newest r')[i]? = some x := hx
      cases ok with
      | false => exact absurd rfl hgo
      | true =>
        show x.At s.ingressVideo (if i + 1 = (s.receivers.set s.newest r').length ∧ next.newest = true then next
          else .append)
        rw [List.length_set]
        by_cases hi : s.newest = i
        · subst hi
          rw [List.getElem?_set_self hlt, Option.some.injEq] at hx'
          subst hx'
          rcases hnext with hn | rfl
          · rw [if_pos ⟨hlast, hn⟩]
            exact hafter rfl
          · rw [if_neg (fun hc => Bool.noConfusion hc.2)]
            exact hafter rfl
        · rw [List.getElem?_set_ne hi] at hx'
          have hold := h.stage hne i x hx'
          have happend : s.stageOf i = .append := if_neg fun hc => hi (by omega)
          rw [happend] at hold
          rw [if_neg fun hc => hi (by omega)]
          exact hold
    · have hnil' : s.receivers.set s.newest r' = [] := hnil
      rw [List.set_eq_nil_iff] at hnil'
      rw [hnil', List.length_nil] at hlt
      exact absurd hlt (Nat.not_lt_zero _)

/-- A statement of the negotiation, which leaves the objects of the peer as they are. -/
theorem onPeer_spec {egress : Bool} {next : Stage} {f : World → Option (Bool × World)} (h : s.Inv kind)
    (hnew : s.stage.newest = egress) (hat : ∀ r : Receiver, r.At s.ingressVideo s.stage → r.Placed s.ingressVideo)
    (hnext : next.newest = egress ∨ next = .append) (hplaced : ∀ r : Receiver, r.Placed s.ingressVideo →
      r.At s.ingressVideo next) (hs : s.onPeer egress next f = some t)
    (hne : s.stage ≠ .ended)
    (hf : ∀ w track ok w', Sound kind w track → f w = some (ok, w') → Sound kind w' track ∧ w'.heap = w.heap) :
    t.Inv kind ∧ t.gates = s.gates ∧ t.ingressOpen = s.ingressOpen ∧ t.requests = s.requests := by
  cases egress with
  | true =>
    refine onReceiver_spec h hnew hnext hs fun r ok r' hsound hr hr' => ?_
    obtain ⟨⟨ok', w⟩, hw, heq⟩ := Option.map_eq_some_iff.mp hr'
    cases heq
    obtain ⟨hsound', hheap⟩ := hf r.peer r.track _ w hsound hw
    refine ⟨hsound', ?_, fun _ => hplaced _ ?_⟩
    · unfold Receiver.gate Receiver.isOpen
      dsimp only
      rw [hheap]
    · have hkept : r.Kept { r with peer := w } := by
        refine ⟨rfl, rfl, rfl, fun t' _ => ?_⟩
        show (w.heap.state t'.ref).onKeyFrameRequested = _
        rw [hheap]
      exact hkept.placed (hat r hr)
  | false =>
    obtain ⟨⟨ok, w⟩, hw, rfl⟩ := Option.map_eq_some_iff.mp hs
    obtain ⟨hsound, hheap⟩ := hf s.ingress (some s.ingressVideo) ok w h.ingress hw
    refine ⟨⟨hsound, h.receivers, fun hgo i r hr => ?_, fun hgo => ?_⟩, rfl, ?_, rfl⟩
    · cases ok with
      | false => exact absurd rfl hgo
      | true =>
        have hold := h.stage hne i r hr
        have hstage : s.stageOf i = .append := if_neg fun hc => Bool.noConfusion (hnew.symm.trans hc.2)
        rw [hstage] at hold
        have hnext' : next.newest ≠ true := by
          rcases hnext with hn | rfl
          · rw [hn]
            exact Bool.false_ne_true
          · exact Bool.false_ne_true
        have hstage' : ({ s with ingress := w, stage := if true then next else .ended } : Sfu).stageOf i = .append :=
          if_neg fun hc => hnext' hc.2
        rw [hstage']
        exact hold
    · cases ok with
      | false => exact Bool.noConfusion hgo
      | true =>
        rcases hnext with hn | rfl
        · exact Bool.noConfusion (hn.symm.trans hgo)
        · exact Bool.noConfusion hgo
    · show (w.heap.state s.ingressVideo.ref).isOpen = _
      rw [hheap]
      rfl

/-- A statement that no observer sees. -/
theorem stepped_quiet {ans : MainAnswers} (hne : s.stage ≠ .ended) (happend : s.stage ≠ .append)
    (hobserve : s.stage ≠ .observe)
    (h : t.Inv kind ∧ t.gates = s.gates ∧ t.ingressOpen = s.ingressOpen ∧ t.requests = s.requests) :
    Stepped kind R s (.main ans) t := by
  obtain ⟨hinv, hgates, hopen, hreq⟩ := h
  refine Stepped.quiet hinv ?_ ?_ hgates hopen hreq
  · rw [view_of_running hne]
    exact if_neg happend
  · rw [asks_of_running hne]
    exact if_neg fun hc => hobserve hc.1

theorem stepped_append {ans : MainAnswers} (h : s.Inv kind) (hst : s.stage = .append) (hs : s.main S ans = some t) :
    Stepped kind R s (.main ans) t := by
  have hne : s.stage ≠ .ended := by
    rw [hst]
    exact Stage.noConfusion
  unfold main at hs
  rw [hst] at hs
  cases hs
  have hlen : (s.receivers ++ [({} : Receiver)]).length = s.receivers.length + 1 := by
    rw [List.length_append, List.length_singleton]
  refine ⟨⟨h.ingress, fun r hr => ?_, fun _ i r hr => ?_, fun _ hnil => ?_⟩, ?_, ?_⟩
  · rcases List.mem_append.mp hr with hr | hr
    · exact h.receivers r hr
    · rw [List.mem_singleton.mp hr]
      exact .start kind
  · show r.At s.ingressVideo (if i + 1 = (s.receivers ++ [({} : Receiver)]).length ∧ _ then .observe else .append)
    rw [hlen]
    have hr' : (s.receivers ++ [({} : Receiver)])[i]? = some r := hr
    by_cases hi : i < s.receivers.length
    · rw [List.getElem?_append_left hi] at hr'
      have hold := h.stage hne i r hr'
      have happend : s.stageOf i = .append := if_neg fun hc => by
        rw [hst] at hc
        exact Bool.noConfusion hc.2
      rw [happend] at hold
      rw [if_neg fun hc => by omega]
      exact hold
    · have hlt := (List.getElem?_eq_some_iff.mp hr').1
      rw [hlen] at hlt
      have hi' : i = s.receivers.length := by omega
      subst hi'
      rw [List.getElem?_concat_length, Option.some.injEq] at hr'
      subst hr'
      rw [if_pos ⟨rfl, rfl⟩]
      exact ⟨rfl, rfl, rfl⟩
  · exact List.append_ne_nil_of_right_ne_nil _ (List.cons_ne_nil _ _) hnil
  · rw [view_of_running hne]
    dsimp only
    rw [if_pos hst]
    show (s.receivers ++ [({} : Receiver)]).map Receiver.gate = _
    rw [List.map_append]
    rfl
  · rw [asks_of_running hne]
    dsimp only
    rw [if_neg fun hc => by rw [hst] at hc; exact Stage.noConfusion hc.1]
    rfl

theorem stepped_observe {ans : MainAnswers} (h : s.Inv kind) (hst : s.stage = .observe) (hs : s.main S ans = some t) :
    Stepped kind R s (.main ans) t := by
  have hne : s.stage ≠ .ended := by
    rw [hst]
    exact Stage.noConfusion
  unfold main at hs
  rw [hst] at hs
  obtain ⟨u, hu, hs⟩ := Option.map_eq_some_iff.mp hs
  obtain ⟨hinv, hgates, hopen, hreq⟩ : u.Inv kind ∧ u.gates = s.gates ∧ u.ingressOpen = s.ingressOpen ∧
      u.requests = s.requests := by
    refine onReceiver_spec h (by rw [hst]; rfl) (Or.inl rfl) hu fun r ok r' hsound hat hr' => ?_
    cases hr'
    rw [hst] at hat
    exact ⟨hsound, rfl, fun _ => ⟨rfl, hat.2.1, hat.2.2⟩⟩
  have hasks := asks_of_running hne (.main ans)
  dsimp only at hasks
  by_cases hc : (s.receivers[s.newest]?.any fun r => r.states.state = .connected) = true
  · rw [if_pos hc] at hs
    subst hs
    refine ⟨hinv.requestKeyFrame, ?_, ?_⟩
    · rw [view_of_running hne, gates_requestKeyFrame, hgates]
      dsimp only
      rw [if_neg (by rw [hst]; exact Stage.noConfusion)]
      rfl
    · rw [asks_requestKeyFrame, hopen, hreq, hasks, if_pos ⟨hst, hc⟩]
      rfl
  · rw [if_neg hc] at hs
    subst hs
    refine Stepped.quiet hinv ?_ (hasks.trans (if_neg fun hc' => hc hc'.2)) hgates hopen hreq
    rw [view_of_running hne]
    exact if_neg (by rw [hst]; exact Stage.noConfusion)

theorem stepped_createTrack {ans : MainAnswers} (h : s.Inv kind) (henv : s.Offered kind (.main ans))
    (hst : s.stage = .createTrack) (hs : s.main S ans = some t) : Stepped kind R s (.main ans) t := by
  have hne : s.stage ≠ .ended ∧ s.stage ≠ .append ∧ s.stage ≠ .observe := by
    rw [hst]
    exact ⟨Stage.noConfusion, Stage.noConfusion, Stage.noConfusion⟩
  have hcode := henv hst
  unfold main at hs
  rw [hst] at hs
  refine stepped_quiet hne.1 hne.2.1 hne.2.2 (onReceiver_spec h (by rw [hst]; rfl) (Or.inl rfl) hs ?_)
  intro r ok r' hsound hat hr'
  rw [hst] at hat
  obtain ⟨hobs, htrack, hchain⟩ := hat
  rw [htrack] at hsound
  have hgate : r.gate = ⟨false, r.sent⟩ := by
    unfold Receiver.gate Receiver.isOpen
    rw [htrack]
    rfl
  unfold Receiver.createTrack at hr'
  cases hcall : r.peer.createTrack S (videoArgs .sendonly) [] ans.code ans.track with
  | none =>
    rw [hcall] at hr'
    cases hr'
  | some p =>
    obtain ⟨result, w⟩ := p
    obtain ⟨hsound', hstate⟩ := hsound.createTrack hcode hcall
    rw [hcall] at hr'
    cases result with
    | error e =>
      cases hr'
      refine ⟨?_, ?_, fun hok => Bool.noConfusion hok⟩
      · show Sound kind w r.track
        rw [htrack]
        exact hsound'
      · rw [hgate]
        unfold Receiver.gate Receiver.isOpen
        dsimp only
        rw [htrack]
        rfl
    | ok track =>
      cases hr'
      refine ⟨hsound', ?_, fun _ => ⟨hobs, rfl, hchain⟩⟩
      rw [hgate]
      unfold Receiver.gate Receiver.isOpen
      dsimp only
      rw [Option.any_some, hstate track rfl]

theorem stepped_session {ans : MainAnswers} (h : s.Inv kind) (hst : s.stage = .session) (hs : s.main S ans = some t) :
    Stepped kind R s (.main ans) t := by
  have hne : s.stage ≠ .ended ∧ s.stage ≠ .append ∧ s.stage ≠ .observe := by
    rw [hst]
    exact ⟨Stage.noConfusion, Stage.noConfusion, Stage.noConfusion⟩
  unfold main at hs
  rw [hst] at hs
  refine stepped_quiet hne.1 hne.2.1 hne.2.2 (onReceiver_spec h (by rw [hst]; rfl) (Or.inl rfl) hs ?_)
  intro r ok r' hsound hat hr'
  rw [hst] at hat
  obtain ⟨track, htrack, heq⟩ := Option.map_eq_some_iff.mp hr'
  cases heq
  rw [htrack] at hsound
  refine ⟨?_, ?_, fun _ => hat⟩
  · show Sound kind (r.peer.setState track.ref _) r.track
    rw [htrack]
    exact hsound.setState _
  · have hopen : ∀ st : ChannelState, (st.installRtcpReceivingSession ans.code).2.isOpen = st.isOpen := by
      intro st
      unfold ChannelState.installRtcpReceivingSession
      split
      · rfl
      · split <;> rfl
    unfold Receiver.gate Receiver.isOpen
    dsimp only
    rw [htrack, Option.any_some, Option.any_some]
    show Gate.mk (Function.update r.peer.heap.state track.ref _ track.ref).isOpen r.sent = _
    rw [Function.update_self, hopen]

theorem stepped_handler {ans : MainAnswers} (h : s.Inv kind) (hst : s.stage = .handler) (hs : s.main S ans = some t) :
    Stepped kind R s (.main ans) t := by
  have hne : s.stage ≠ .ended ∧ s.stage ≠ .append ∧ s.stage ≠ .observe := by
    rw [hst]
    exact ⟨Stage.noConfusion, Stage.noConfusion, Stage.noConfusion⟩
  unfold main at hs
  rw [hst] at hs
  refine stepped_quiet hne.1 hne.2.1 hne.2.2 (onReceiver_spec h (by rw [hst]; rfl) (Or.inl rfl) hs ?_)
  intro r ok r' hsound hat hr'
  rw [hst] at hat
  obtain ⟨track, htrack⟩ := Option.isSome_iff_exists.mp hat.2.1
  rw [htrack] at hsound
  unfold Receiver.setOnKeyFrameRequested at hr'
  rw [htrack] at hr'
  obtain ⟨p, hp, heq⟩ := Option.map_eq_some_iff.mp hr'
  cases heq
  have hset := PliTrack.setOnKeyFrameRequested_eq_some hp
  subst hset
  refine ⟨hsound.setState _, ?_, fun _ => ⟨hat.1, ?_, track, rfl, ?_⟩⟩
  · unfold Receiver.gate Receiver.isOpen
    dsimp only
    rw [htrack, Option.any_some, Option.any_some]
    show Gate.mk (Function.update r.peer.heap.state track.ref _ track.ref).isOpen r.sent = _
    rw [Function.update_self]
  · show r.chain ++ [PliHandler.ofAssignment _] = _
    rw [hat.2.2]
    rfl
  · show (Function.update r.peer.heap.state track.ref _ track.ref).onKeyFrameRequested = _
    rw [Function.update_self]

theorem stepped_negotiation {ans : MainAnswers} (h : s.Inv kind) (hne : s.stage ≠ .ended) (happend : s.stage ≠ .append)
    (hu : s.stage ∉ unhandled) (hs : s.main S ans = some t) : Stepped kind R s (.main ans) t := by
  have hobserve : s.stage ≠ .observe := by
    intro he
    rw [he] at hu
    exact hu List.mem_cons_self
  refine stepped_quiet hne happend hobserve ?_
  have hat : ∀ r : Receiver, r.At s.ingressVideo s.stage → r.Placed s.ingressVideo := fun r hr => hr.placed hu
  unfold main at hs
  cases hst : s.stage with
  | lock egress =>
    rw [hst] at hs
    dsimp only at hs
    have hnext : ∀ r : Receiver, r.Placed s.ingressVideo → r.At s.ingressVideo (.gather egress) := fun r hr => hr
    have hnew : (Stage.gather egress).newest = egress := rfl
    refine onPeer_spec h (congrArg Stage.newest hst) hat (Or.inl hnew) hnext hs hne fun w track ok w' hw hf => ?_
    cases hf
    exact ⟨hw, rfl⟩
  | gather egress =>
    rw [hst] at hs
    dsimp only at hs
    have hnext : ∀ r : Receiver, r.Placed s.ingressVideo → r.At s.ingressVideo (.answer egress) := fun r hr => hr
    have hnew : (Stage.answer egress).newest = egress := rfl
    refine onPeer_spec h (congrArg Stage.newest hst) hat (Or.inl hnew) hnext hs hne fun w track ok w' hw hf => ?_
    split at hf
    · obtain ⟨d, -, heq⟩ := Option.map_eq_some_iff.mp hf
      cases heq
      exact ⟨hw, rfl⟩
    · cases hf
      exact ⟨hw, rfl⟩
  | answer egress =>
    rw [hst] at hs
    dsimp only at hs
    have hnext : ∀ r : Receiver, r.Placed s.ingressVideo → r.At s.ingressVideo .append := fun r hr => hr
    refine onPeer_spec h (congrArg Stage.newest hst) hat (Or.inr rfl) hnext hs hne fun w track ok w' hw hf => ?_
    split at hf
    · cases hf
    · cases hf
      exact ⟨hw, rfl⟩
    · cases hf
      refine ⟨hw.setRemote _ _ _, ?_⟩
      unfold World.setRemote
      split <;> rfl
  | append => exact absurd hst happend
  | observe => exact absurd hst hobserve
  | ended => exact absurd hst hne
  | _ => exact absurd (by rw [hst]; decide) hu

/-- **One step** keeps the invariant, and moves both abstractions by what is seen of it. -/
theorem stepped_of_step {e : SfuEvent} (h : s.Inv kind) (henv : s.Offered kind e) (hs : s.step S R e = some t) :
    Stepped kind R s e t := by
  unfold step at hs
  by_cases hne : s.stage = .ended
  · rw [if_pos hne] at hs
    cases hs
    exact Stepped.quiet h (if_pos hne) (if_pos hne) rfl rfl rfl
  · rw [if_neg hne] at hs
    cases e with
    | main ans =>
      have hs' : s.main S ans = some t := hs
      by_cases happend : s.stage = .append
      · exact stepped_append h happend hs'
      · by_cases hu : s.stage ∈ unhandled
        · simp only [unhandled, List.mem_cons, List.not_mem_nil, or_false] at hu
          rcases hu with hst | hst | hst | hst
          · exact stepped_observe h hst hs'
          · exact stepped_createTrack h henv hst hs'
          · exact stepped_session h hst hs'
          · exact stepped_handler h hst hs'
        · exact stepped_negotiation h hne happend hu hs'
    | ingress e codes => exact stepped_ingress h hne henv hs
    | ingressDescription sdp type =>
      obtain ⟨w, hw, rfl⟩ := Option.map_eq_some_iff.mp hs
      obtain ⟨hsound, hheap⟩ := h.ingress.described hw
      refine Stepped.quiet ⟨hsound, h.receivers, h.stage, h.newest⟩ (view_of_running hne _) (asks_of_running hne _) rfl
        ?_ rfl
      show (w.heap.state s.ingressVideo.ref).isOpen = _
      rw [hheap]
      rfl
    | receiver i e => exact stepped_receiver h hne henv hs
    | receiverDescription i sdp type => exact stepped_receiverDescription h hne hs
    | receiverState i cb => exact stepped_receiverState h hne hs
    | pli i => exact stepped_pli h hne hs

/-! ## The start -/

theorem setup_spec {ans : MainAnswers} {session : Int} (hk : 0 ≤ ans.code → kind ans.code = .track)
    (h : setup S ans session = some (some s)) :
    s.Inv kind ∧ s.receivers = [] ∧ s.ingressOpen = false ∧ s.requests = 0 := by
  unfold setup at h
  cases hcall : (World.start none).createTrack S (videoArgs .recvonly) [] ans.code ans.track with
  | none =>
    rw [hcall] at h
    cases h
  | some p =>
    obtain ⟨result, w⟩ := p
    obtain ⟨hsound, hstate⟩ := (Sound.start kind).createTrack hk hcall
    rw [hcall] at h
    cases result with
    | error e => cases h
    | ok track =>
      dsimp only at h
      rw [hstate track rfl] at h
      have hopen : (({} : ChannelState).installRtcpReceivingSession session).2.isOpen = false := by
        unfold ChannelState.installRtcpReceivingSession
        rw [if_neg Bool.false_ne_true]
        split <;> rfl
      split at h
      · cases h
      · next st hinstall =>
        cases h
        rw [hinstall] at hopen
        refine ⟨⟨hsound.setState st, fun r hr => absurd hr List.not_mem_nil, fun _ i r hr => ?_, fun hnew => ?_⟩,
          rfl, ?_, rfl⟩
        · exact nomatch hr
        · exact Bool.noConfusion hnew
        · show (Function.update w.heap.state track.ref st track.ref).isOpen = false
          rw [Function.update_self]
          exact hopen

theorem inv_of_run {es : List SfuEvent} (h : Run (step S R) (Offered kind) s es t) (hi : s.Inv kind) : t.Inv kind :=
  h.invariant (fun _ _ _ hi henv hs => (stepped_of_step hi henv hs).inv) hi

end Steps

end Sfu

end AlloDataChannel

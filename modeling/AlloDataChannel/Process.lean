import AlloDataChannel.Initialisers
import AlloDataChannel.Lifetime
import AlloDataChannel.Traps

/-!
# The process

Peers and units, with the calls of their initialisers. An initialiser that fails ends the process; one that returns
leaves its event to the system of peers and units.

* `PeerCall`, `UnitCalls`, `ProcessEvent` : the events, with the answers of the C library call by call;
* `Process.step` : an event of the process; `Process.exec_event` : a run of the process is one of the system;
* `ProcessEvent.Kept` : what the C library keeps of its own accord, and the draws of a loop that has ended;
* `ProcessEvent.Safe` : the events that do not end the process, `Process.step_isSome_iff`;
* `traps_law` : a run ends the process exactly where its first event that is not safe stands.
-/

namespace AlloDataChannel
open Lib (Scalars Segmentation exec)

/-! ## Events with their calls -/

/-- What the initialiser of a data channel reads. What stands for the answers of one that fails is read by nothing. -/
def DataChannelCalls.answers (c : DataChannelCalls) : DataChannelAnswers :=
  (DataChannel.init c).getD { stream := 0, label := [] }

def TrackCalls.answers (c : TrackCalls) : TrackAnswers :=
  (Track.init c).getD { ssrcs := [0], direction := .unknown }

theorem TrackCalls.answers_ssrcs {c : TrackCalls} (h : c.ssrcsSize ≠ 0) : c.answers.ssrcs ≠ [] := by
  unfold TrackCalls.answers
  cases hc : Track.init c with
  | none => exact List.cons_ne_nil _ _
  | some ans => exact Track.init_ssrcs h hc

/-- A step of a peer, with the calls of the initialiser in it. -/
inductive PeerCall
  | createDataChannel (a : DataChannelArgs) (code : Int)
  | insertDataChannel (k : Nat) (c : DataChannelCalls)
  | createTrack (a : TrackArgs) (draws : List Draw) (code : Int)
  | insertTrack (k : Nat) (c : TrackCalls)
  | dataChannelCallback (dcid : Int) (c : DataChannelCalls)
  | trackCallback (dcid : Int) (description : TextCalls) (c : TrackCalls)
  | close (ref : Nat)
  | channelCallback (id : Int) (cb : ChannelCallback)
  | setRemote (secs : List Section) (ids : List Int) (code : Int)
  deriving DecidableEq, Repr

namespace PeerCall

/-- The step, with what the calls yield. -/
def event : PeerCall → Event
  | .createDataChannel a code => .createDataChannel a code
  | .insertDataChannel k c => .insertDataChannel k c.answers
  | .createTrack a draws code => .createTrack a draws code
  | .insertTrack k c => .insertTrack k c.answers
  | .dataChannelCallback dcid c => .dataChannelCallback dcid c.answers
  | .trackCallback dcid description c => .trackCallback dcid ((Track.description description).getD []) c.answers
  | .close ref => .close ref
  | .channelCallback id cb => .channelCallback id cb
  | .setRemote secs ids code => .setRemote secs ids code

/-- A call of the initialiser in the event fails. -/
def fails : PeerCall → Bool
  | .insertDataChannel _ c | .dataChannelCallback _ c => (DataChannel.init c).isNone
  | .insertTrack _ c => (Track.init c).isNone
  | .trackCallback _ description c => (Track.description description).isNone || (Track.init c).isNone
  | _ => false

/-- The event runs an initialiser, which fails. -/
def aborts (w : World) (c : PeerCall) : Bool := (w.builds c.event).isSome && c.fails

end PeerCall

/-- The calls of `MediaForwardingUnit.init`. -/
structure UnitCalls where
  ingressSession : Int
  draws : List Draw
  code : Int
  track : TrackCalls
  egressSession : Int
  pliHandler : Int
  deriving DecidableEq, Repr

def UnitCalls.answers (c : UnitCalls) : InitAnswers where
  ingressSession := c.ingressSession
  draws := c.draws
  code := c.code
  track := c.track.answers
  egressSession := c.egressSession
  pliHandler := c.pliHandler

/-- `createTrack` builds a track: the C call returns an id that is not in `tracks`. -/
def World.buildsTrack (S : Segmentation) (w : World) (a : TrackArgs) (draws : List Draw) (code : Int) : Bool :=
  match w.createTrackCall S a draws code with
  | some (.ok f, w') => !w'.peer.tracks.hasKey f.id
  | _ => false

/-- `MediaForwardingUnit.init` builds its egress track. -/
def System.buildsEgress (S : Segmentation) (s : System) (p : Nat) (a : Source) (q : Nat) (ans : InitAnswers) : Bool :=
  match s.peers[p]? with
  | none => false
  | some w =>
    if w.heap.objects[a.ingressTrack.ref]? = some (.track a.ingressTrack) then
      match (w.heap.state a.ingressTrack.ref).installRtcpReceivingSession ans.ingressSession with
      | (.error _, _) => false
      | (.ok _, ingress) =>
        match (s.setPeer p (w.setState a.ingressTrack.ref ingress)).peers[q]? with
        | none => false
        | some v => v.buildsTrack S a.egressArgs ans.draws ans.code
    else false

inductive ProcessEvent
  | newPeer (portRange : Option (Int × Int)) (ipOverride : Option IPOverride) (c : PeerCalls)
  | peer (p : Nat) (c : PeerCall) (ans : Nat → SinkAnswers)
  | create (ingressPeer : Nat) (a : Source) (egressPeer : Nat) (c : UnitCalls) (first : SinkAnswers)
  | stop (u : Nat) (code : Int)
  | pli (q : Nat) (id : Int)

namespace ProcessEvent

/-- The event of the system, where no initialiser ends the process. -/
def event : ProcessEvent → SystemEvent
  | .newPeer _ ipOverride _ => .newPeer ipOverride
  | .peer p c ans => .peer p c.event ans
  | .create p a q c first => .create p a q c.answers first
  | .stop u code => .stop u code
  | .pli q id => .pli q id

/-- An initialiser ends the process. -/
def aborts (S : Segmentation) (s : System) : ProcessEvent → Bool
  | .newPeer portRange _ c => (Peer.init portRange c).isNone
  | .peer p c _ => (s.peers[p]?).any fun w => c.aborts w
  | .create p a q c _ => s.buildsEgress S p a q c.answers && (Track.init c.track).isNone
  | _ => false

end ProcessEvent

def Process.step (S : Segmentation) (R : RtpLibrary) (s : System) (e : ProcessEvent) : Option System :=
  if e.aborts S s then none else s.step S R e.event

/-! ## What the C library keeps, and what is safe -/

/-- The size of a message is a C `int`. -/
def PeerCall.Kept : PeerCall → Prop
  | .channelCallback _ (.message _ size) => size ≤ int32Max
  | _ => True

/-- The track of the id that `rtcAddTrackEx` returns lists an SSRC: the one in `tracks`, or else the new one. -/
structure UnitCalls.Lists (c : UnitCalls) (p : Peer) : Prop where
  existing : ∀ t, p.tracks.find? c.code = some t → t.ssrcs ≠ []
  new : p.tracks.find? c.code = none → c.track.ssrcsSize ≠ 0

/-- What the C library keeps of its own accord in an event; and the loop of `next()` has ended in it. -/
def ProcessEvent.Kept (S : Segmentation) (s : System) : ProcessEvent → Prop
  | .peer p c ans => c.Kept ∧ (∀ w, s.peers[p]? = some w → c.event.Drawn S w) ∧ ∀ u, Forwarder.Bytes (ans u).lookup
  | .create _ a q c first =>
    (∀ v, s.peers[q]? = some v → c.Lists v.peer ∧ v.peer.Drawn S a.egressArgs c.draws) ∧ Forwarder.Bytes first.lookup
  | _ => True

/-- The events of a run keep all that. -/
def Process.Kept (S : Segmentation) (R : RtpLibrary) : System → List ProcessEvent → Prop
  | _, [] => True
  | s, e :: es => e.Kept S s ∧ ∀ s', Process.step S R s e = some s' → Process.Kept S R s' es

/-- What a step of a peer asks of the app, the remote side and the C library. An initialiser that runs has answers; ids
are without spaces, a new track has a description with an msid, and callbacks are on ids of objects. -/
def PeerCall.Safe (S : Segmentation) (w : World) : PeerCall → Prop
  | .createTrack a _ _ => a.valid S = true
  | .insertDataChannel k c => ∀ id, w.pendingData[k]? = some id → w.peer.dataChannels.hasKey id = false → c.Answered
  | .insertTrack k c => ∀ f, w.pendingTracks[k]? = some f → w.peer.tracks.hasKey f.id = false → c.Answered
  | .dataChannelCallback dcid c => w.peer.channels.hasKey dcid = false → c.Answered
  | .trackCallback dcid description c => w.peer.channels.hasKey dcid = false →
    description.Answered ∧ HasMsid (sdpLines S description.copy.2) ∧ c.Answered
  | .channelCallback id cb => w.heap.userPtr id ≠ none ∧ cb.Readable
  | _ => True

/-- What an event asks. A unit is stopped with a handler that is taken, and no keyframe request comes for the track of
a stopped unit. -/
def ProcessEvent.Safe (S : Segmentation) (s : System) : ProcessEvent → Prop
  | .newPeer portRange _ c => PortRange portRange ∧ c.Answered
  | .peer p c _ => ∀ w, s.peers[p]? = some w → c.Safe S w
  | .create p a q c _ => ∀ ingress w s₁, System.Session s p a c.answers ingress w s₁ → ∀ v, s₁.peers[q]? = some v →
    (v.buildsTrack S a.egressArgs c.draws c.code = true → c.track.Answered) ∧
      MediaForwardingUnit.Initializes S v a c.answers
  | .stop u code => u < s.units.length → 0 ≤ code
  | .pli q id => ∀ r ∈ s.routes, r.egressId = (q, id) → r.subscribed = true

/-! ## Runs of the process -/

section Runs
variable {S : Segmentation} {R : RtpLibrary} {s s' : System}

theorem Process.step_isSome {e : ProcessEvent} :
    (Process.step S R s e).isSome ↔ e.aborts S s = false ∧ (s.step S R e.event).isSome := by
  unfold Process.step
  cases e.aborts S s with
  | true => exact iff_of_false Bool.false_ne_true fun h => Bool.false_ne_true h.1.symm
  | false => exact ⟨fun h => ⟨rfl, h⟩, And.right⟩

theorem Process.step_event {e : ProcessEvent} (h : Process.step S R s e = some s') :
    s.step S R e.event = some s' := by
  unfold Process.step at h
  split at h
  · cases h
  · exact h

/-- A run of the process is a run of the system. -/
theorem Process.exec_event {es : List ProcessEvent} (h : exec (Process.step S R) s es = some s') :
    exec (System.step S R) s (es.map ProcessEvent.event) = some s' := by
  induction es generalizing s with
  | nil => exact h
  | cons e es ih =>
    obtain ⟨s₁, hstep, hrest⟩ := Option.bind_eq_some_iff.mp h
    rw [List.map_cons]
    exact Option.bind_eq_some_iff.mpr ⟨s₁, Process.step_event hstep, ih hrest⟩

theorem Process.Kept.cons {e : ProcessEvent} {es : List ProcessEvent} {s₁ : System} (he : e.Kept S s)
    (hs : Process.step S R s e = some s₁) (hk : Process.Kept S R s₁ es) : Process.Kept S R s (e :: es) := by
  refine ⟨he, fun s' h => ?_⟩
  rw [hs] at h
  cases h
  exact hk

theorem Process.Kept.of_append {es₁ es₂ : List ProcessEvent} (hk : Process.Kept S R s (es₁ ++ es₂)) :
    Process.Kept S R s es₁ := by
  induction es₁ generalizing s with
  | nil => trivial
  | cons e es₁ ih => exact ⟨hk.1, fun s₁ hstep => ih (hk.2 s₁ hstep)⟩

theorem Process.Kept.rest {es₁ es₂ : List ProcessEvent} (hk : Process.Kept S R s (es₁ ++ es₂))
    (h : exec (Process.step S R) s es₁ = some s') : Process.Kept S R s' es₂ := by
  induction es₁ generalizing s with
  | nil =>
    cases h
    exact hk
  | cons e es₁ ih =>
    obtain ⟨s₁, hstep, hrest⟩ := Option.bind_eq_some_iff.mp h
    exact ih (hk.2 s₁ hstep) hrest

end Runs

/-! ## The events that end the process -/

/-- An id that is called for and not registered yet. -/
theorem isSome_filter_imp_iff {α : Type} {x : Option α} {registered : α → Bool} {P : Prop} :
    ((x.filter fun a => !registered a).isSome → P) ↔ ∀ a, x = some a → registered a = false → P := by
  constructor
  · intro h a ha hr
    refine h ?_
    rw [ha, Option.filter_some_pos (by rw [hr]; rfl)]
    rfl
  · intro h hb
    obtain ⟨a, ha⟩ := Option.isSome_iff_exists.mp hb
    obtain ⟨ha, hr⟩ := Option.filter_eq_some_iff.mp ha
    exact h a ha (by simpa using hr)

theorem isSome_ite_imp_iff {α : Type} {registered : Bool} {a : α} {P : Prop} :
    ((if registered then none else some a).isSome → P) ↔ (registered = false → P) := by
  cases registered with
  | true => exact iff_of_true (fun h => absurd h Bool.false_ne_true) fun h => absurd h.symm Bool.false_ne_true
  | false => exact ⟨fun h _ => h rfl, fun h _ => h rfl⟩

namespace PeerCall
variable {S : Segmentation} {w : World}

theorem aborts_eq_false_iff {c : PeerCall} :
    c.aborts w = false ↔ ((w.builds c.event).isSome → c.fails = false) := by
  unfold aborts
  cases (w.builds c.event).isSome with
  | true => exact ⟨fun h _ => h, fun h => h rfl⟩
  | false => exact ⟨fun _ h => absurd h Bool.false_ne_true, fun _ => rfl⟩

/-- A step of a peer is safe exactly when its initialiser does not end the process, and the step with what it reads is
safe. -/
theorem safe_iff {c : PeerCall} : c.aborts w = false ∧ c.event.Safe S w ↔ c.Safe S w := by
  rw [aborts_eq_false_iff]
  cases c with
  | insertDataChannel k c =>
    have hfails : (PeerCall.insertDataChannel k c).fails = false ↔ c.Answered :=
      Option.isNone_eq_false_iff.trans DataChannel.init_isSome_iff
    rw [hfails]
    exact (and_iff_left trivial).trans isSome_filter_imp_iff
  | insertTrack k c =>
    have hfails : (PeerCall.insertTrack k c).fails = false ↔ c.Answered :=
      Option.isNone_eq_false_iff.trans Track.init_isSome_iff
    rw [hfails]
    refine ((and_iff_left trivial).trans isSome_filter_imp_iff).trans ⟨fun h f hf => ?_, fun h id hid => ?_⟩
    · exact h f.id (by rw [hf]; rfl)
    · obtain ⟨f, hf, rfl⟩ := Option.map_eq_some_iff.mp hid
      exact h f hf
  | dataChannelCallback dcid c =>
    have hfails : (PeerCall.dataChannelCallback dcid c).fails = false ↔ c.Answered :=
      Option.isNone_eq_false_iff.trans DataChannel.init_isSome_iff
    rw [hfails]
    exact (and_iff_left trivial).trans isSome_ite_imp_iff
  | trackCallback dcid description c =>
    have hfails : (PeerCall.trackCallback dcid description c).fails = false ↔ description.Answered ∧ c.Answered := by
      unfold fails
      rw [Bool.or_eq_false_iff, Option.isNone_eq_false_iff, Option.isNone_eq_false_iff,
        Track.description_isSome_iff, Track.init_isSome_iff]
    have htext : description.Answered → (Track.description description).getD [] = description.copy.2 := by
      intro ha
      rw [Track.description_eq, if_pos ⟨ha.size, ha.copy⟩, Option.getD_some]
    rw [hfails]
    refine (and_congr isSome_ite_imp_iff Iff.rfl).trans ?_
    constructor
    · rintro ⟨hcalls, hmsid⟩ hfresh
      obtain ⟨hd, hc⟩ := hcalls hfresh
      have hmsid := hmsid.resolve_left (by rw [hfresh]; exact Bool.false_ne_true)
      rw [htext hd] at hmsid
      exact ⟨hd, hmsid, hc⟩
    · intro h
      refine ⟨fun hfresh => ⟨(h hfresh).1, (h hfresh).2.2⟩, ?_⟩
      by_cases hkey : w.peer.channels.hasKey dcid = true
      · exact Or.inl hkey
      · obtain ⟨hd, hmsid, -⟩ := h (eq_false_of_ne_true hkey)
        rw [← htext hd] at hmsid
        exact Or.inr hmsid
  | createTrack a draws code => exact ⟨And.right, fun h => ⟨fun _ => rfl, h⟩⟩
  | channelCallback id cb => exact ⟨And.right, fun h => ⟨fun _ => rfl, h⟩⟩
  | createDataChannel a code => exact iff_of_true ⟨fun _ => rfl, trivial⟩ trivial
  | close ref => exact iff_of_true ⟨fun _ => rfl, trivial⟩ trivial
  | setRemote secs ids code => exact iff_of_true ⟨fun _ => rfl, trivial⟩ trivial

theorem kept_event {c : PeerCall} (h : c.Kept) : c.event.Kept := by
  cases c with
  | channelCallback id cb =>
    cases cb with
    | message cdata size => exact h
    | _ => trivial
  | _ => trivial

end PeerCall

section Safe
variable {S : Segmentation} {R : RtpLibrary} {s s' : System}

theorem System.Session.buildsEgress {p q : Nat} {a : Source} {ans : InitAnswers} {ingress : ChannelState} {w v : World}
    {s₁ : System} (hs : Session s p a ans ingress w s₁) (hv : s₁.peers[q]? = some v) :
    s.buildsEgress S p a q ans = v.buildsTrack S a.egressArgs ans.draws ans.code := by
  obtain ⟨hw, hobj, hinstall, rfl⟩ := hs
  unfold System.buildsEgress
  rw [hw]
  dsimp only
  rw [if_pos hobj, hinstall]
  dsimp only
  rw [hv]

theorem System.exists_session_of_buildsEgress {p q : Nat} {a : Source} {ans : InitAnswers}
    (h : s.buildsEgress S p a q ans = true) : ∃ ingress w s₁ v, Session s p a ans ingress w s₁ ∧
      s₁.peers[q]? = some v := by
  unfold System.buildsEgress at h
  cases hw : s.peers[p]? with
  | none =>
    rw [hw] at h
    exact absurd h Bool.false_ne_true
  | some w =>
    rw [hw] at h
    dsimp only at h
    by_cases hobj : w.heap.objects[a.ingressTrack.ref]? = some (.track a.ingressTrack)
    · rw [if_pos hobj] at h
      cases hinstall : (w.heap.state a.ingressTrack.ref).installRtcpReceivingSession ans.ingressSession with
      | mk r ingress =>
        rw [hinstall] at h
        cases r with
        | error e => exact absurd h Bool.false_ne_true
        | ok u =>
          dsimp only at h
          cases hv : (s.setPeer p (w.setState a.ingressTrack.ref ingress)).peers[q]? with
          | none =>
            rw [hv] at h
            exact absurd h Bool.false_ne_true
          | some v => exact ⟨ingress, w, _, v, ⟨hw, hobj, hinstall, rfl⟩, hv⟩
    · rw [if_neg hobj] at h
      exact absurd h Bool.false_ne_true

/-- An event is safe exactly when no initialiser ends the process, and the event of the system is safe. -/
theorem ProcessEvent.safe_iff {e : ProcessEvent} : e.aborts S s = false ∧ e.event.Safe S s ↔ e.Safe S s := by
  cases e with
  | newPeer portRange ipOverride c =>
    exact (and_iff_left trivial).trans (Option.isNone_eq_false_iff.trans Peer.init_isSome_iff)
  | peer p c ans =>
    show ((s.peers[p]?).any fun w => c.aborts w) = false ∧ (∀ w, s.peers[p]? = some w → c.event.Safe S w) ↔
      ∀ w, s.peers[p]? = some w → c.Safe S w
    cases s.peers[p]? with
    | none => exact iff_of_true ⟨rfl, fun w hw => by cases hw⟩ fun w hw => by cases hw
    | some w =>
      simp only [Option.some.injEq, forall_eq']
      exact PeerCall.safe_iff
  | create p a q c first =>
    have hinit : (Track.init c.track).isNone = false ↔ c.track.Answered :=
      Option.isNone_eq_false_iff.trans Track.init_isSome_iff
    show (s.buildsEgress S p a q c.answers && (Track.init c.track).isNone) = false ∧
      (∀ ingress w s₁, System.Session s p a c.answers ingress w s₁ → ∀ v, s₁.peers[q]? = some v →
        MediaForwardingUnit.Initializes S v a c.answers) ↔ _
    rw [Bool.and_eq_false_imp, hinit]
    constructor
    · rintro ⟨habort, hsafe⟩ ingress w s₁ hs v hv
      refine ⟨fun hb => habort ?_, hsafe ingress w s₁ hs v hv⟩
      rw [hs.buildsEgress hv]
      exact hb
    · intro h
      refine ⟨fun hb => ?_, fun ingress w s₁ hs v hv => (h ingress w s₁ hs v hv).2⟩
      obtain ⟨ingress, w, s₁, v, hs, hv⟩ := System.exists_session_of_buildsEgress hb
      rw [hs.buildsEgress hv] at hb
      exact (h ingress w s₁ hs v hv).1 hb
  | stop u code => exact ⟨And.right, fun h => ⟨rfl, h⟩⟩
  | pli q id => exact ⟨And.right, fun h => ⟨rfl, h⟩⟩

theorem UnitCalls.Lists.peer {c : UnitCalls} {p : Peer} (h : c.Lists p) :
    p.Lists c.answers.code c.answers.track where
  existing := h.existing
  new hnone := TrackCalls.answers_ssrcs (h.new hnone)

theorem ProcessEvent.kept_event {e : ProcessEvent} (h : e.Kept S s) : e.event.Kept s ∧ e.event.Drawn S s := by
  cases e with
  | peer p c ans => exact ⟨⟨PeerCall.kept_event h.1, h.2.2⟩, h.2.1⟩
  | create p a q c first => exact ⟨⟨fun v hv => (h.1 v hv).1.peer, h.2⟩, fun v hv => (h.1 v hv).2⟩
  | newPeer portRange ipOverride c => exact ⟨trivial, trivial⟩
  | stop u code => exact ⟨trivial, trivial⟩
  | pli q id => exact ⟨trivial, trivial⟩

/-- In a state of the system with its invariants, an event ends the process exactly when it is not safe. -/
theorem Process.step_isSome_iff (hi : s.Inv) (h : s.Ready) {e : ProcessEvent} (he : e.Kept S s) :
    (Process.step S R s e).isSome ↔ e.Safe S s := by
  obtain ⟨hkept, hdrawn⟩ := e.kept_event he
  rw [Process.step_isSome, System.step_isSome_iff h hi hkept hdrawn, ProcessEvent.safe_iff]

end Safe

end AlloDataChannel

import AlloDataChannel.CreateTrack

/-!
# Creating a `MediaForwardingUnit`

The unit makes a track on the egress peer whose stream id is `<fromClientId>.<ingress stream id>`, and so is its `mid`.

* `MediaForwardingUnit.init` : the initialiser up to the subscription, with every exit;
* `init_ok` : what a successful one did;
* `Alias` : two sources whose composed names the C library cannot tell apart;
* `forwarded_apart` : two units on one egress peer have different mids and tracks exactly when their sources are no
  aliases.
-/

namespace AlloDataChannel
open Lib (Scalars Segmentation KeyedSet Run)

/-- `installRtcpReceivingSession`, with the code that `rtcChainRtcpReceivingSession` returns. -/
def ChannelState.installRtcpReceivingSession (s : ChannelState) (code : Int) : Except Error Unit × ChannelState :=
  if s.hasInstalledRtcpReceivingSession then (.ok (), s)
  else
    match Error.orValue code with
    | .error e => (.error e, s)
    | .ok _ => (.ok (), { s with hasInstalledRtcpReceivingSession := true })

def World.setState (w : World) (ref : Nat) (s : ChannelState) : World :=
  { w with heap := { w.heap with state := Function.update w.heap.state ref s } }

structure MediaForwardingUnit where
  ingressTrack : Track
  egressTrack : Track
  ssrc : Option UInt32 := none
  pt : Option UInt8 := none
  forwardedMessageCount : Nat := 0
  lastError : Option Thrown := none
  deriving DecidableEq, Repr

/-- A track to forward and the client it comes from. -/
structure Source where
  fromClientId : Scalars
  ingressTrack : Track
  deriving DecidableEq, Repr

/-- `"\(fromClientId).\(ingressTrack.streamId)"`. -/
def Source.egressStreamId (a : Source) : Scalars := a.fromClientId ++ '.' :: a.ingressTrack.streamId

def Source.egressArgs (a : Source) : TrackArgs where
  streamId := a.egressStreamId
  trackId := a.ingressTrack.trackId
  direction := .sendonly
  codec := .OPUS
  sampleOrBitrate := 48000
  channelCount := 1

/-- What the C library answers while a unit is created: the two sessions, the track and the keyframe handler. -/
structure InitAnswers where
  ingressSession : Int
  draws : List Draw
  code : Int
  track : TrackAnswers
  egressSession : Int
  pliHandler : Int
  deriving DecidableEq, Repr

namespace MediaForwardingUnit

def call (a : Source) (ans : InitAnswers) : Call := ⟨a.egressArgs, ans.draws, ans.code, ans.track⟩

/-- `MediaForwardingUnit.init` up to the subscription, with the state of the ingress track and the egress world after
it. The last `none` is the `try!` of the observer of `onKeyFrameRequested`. -/
def init (S : Segmentation) (ingress : ChannelState) (w : World) (a : Source) (ans : InitAnswers) :
    Option (Except Thrown MediaForwardingUnit × ChannelState × World) :=
  match ingress.installRtcpReceivingSession ans.ingressSession with
  | (.error e, ingress') => some (.error (.peer e), ingress', w)
  | (.ok _, ingress') =>
    match w.createTrack S a.egressArgs ans.draws ans.code ans.track with
    | none => none
    | some (.error e, w') => some (.error e, ingress', w')
    | some (.ok egress, w') =>
      match (w'.heap.state egress.ref).installRtcpReceivingSession ans.egressSession with
      | (.error e, s) => some (.error (.peer e), ingress', w'.setState egress.ref s)
      | (.ok _, s) =>
        match Error.orValue ans.pliHandler with
        | .error _ => none
        | .ok _ =>
          let s' := { s with onKeyFrameRequested := some (.forward a.ingressTrack.ref) }
          some (.ok { ingressTrack := a.ingressTrack, egressTrack := egress }, ingress', w'.setState egress.ref s')

/-- A successful `init` made its track on the egress peer, and changed nothing else but the states of the two tracks. -/
theorem init_ok {S : Segmentation} {ingress ingress' : ChannelState} {w w' : World} {a : Source} {ans : InitAnswers}
    {u : MediaForwardingUnit} (h : init S ingress w a ans = some (.ok u, ingress', w')) :
    u = { ingressTrack := a.ingressTrack, egressTrack := u.egressTrack } ∧
      ∃ w₁ s, w.createTrack S a.egressArgs ans.draws ans.code ans.track = some (.ok u.egressTrack, w₁) ∧
        w' = w₁.setState u.egressTrack.ref s := by
  unfold init at h
  split at h
  · cases h
  · split at h
    · cases h
    · cases h
    · next egress w₁ hcall =>
      split at h
      · cases h
      · split at h
        · cases h
        · cases h
          exact ⟨rfl, w₁, _, hcall, rfl⟩

end MediaForwardingUnit

/-! ## Names that overlap -/

/-- `c.s` and `d.t` are one text. -/
def Overlap (c s d t : Scalars) : Prop :=
  c = d ∧ s = t ∨ (∃ m, d = c ++ '.' :: m ∧ s = m ++ '.' :: t) ∨ ∃ m, c = d ++ '.' :: m ∧ t = m ++ '.' :: s

theorem append_dot_eq_iff {c s d t : Scalars} : c ++ '.' :: s = d ++ '.' :: t ↔ Overlap c s d t := by
  unfold Overlap
  rw [List.append_eq_append_iff]
  refine ⟨fun h => ?_, fun h => ?_⟩
  · rcases h with ⟨m, hd, hs⟩ | ⟨m, hc, ht⟩
    · cases m with
      | nil =>
        rw [List.append_nil] at hd
        rw [List.nil_append, List.cons.injEq] at hs
        exact Or.inl ⟨hd.symm, hs.2⟩
      | cons x m =>
        rw [List.cons_append, List.cons.injEq] at hs
        obtain ⟨rfl, hs⟩ := hs
        exact Or.inr (Or.inl ⟨m, hd, hs⟩)
    · cases m with
      | nil =>
        rw [List.append_nil] at hc
        rw [List.nil_append, List.cons.injEq] at ht
        exact Or.inl ⟨hc, ht.2.symm⟩
      | cons x m =>
        rw [List.cons_append, List.cons.injEq] at ht
        obtain ⟨rfl, ht⟩ := ht
        exact Or.inr (Or.inr ⟨m, hc, ht⟩)
  · rcases h with ⟨rfl, rfl⟩ | ⟨m, rfl, rfl⟩ | ⟨m, rfl, rfl⟩
    · exact Or.inl ⟨[], (List.append_nil _).symm, rfl⟩
    · exact Or.inl ⟨'.' :: m, rfl, rfl⟩
    · exact Or.inr ⟨'.' :: m, rfl, rfl⟩

/-- The C library reads no further than the client id. -/
def Source.truncated (a : Source) : Prop := '\x00' ∈ a.fromClientId

instance (a : Source) : Decidable a.truncated := inferInstanceAs (Decidable ('\x00' ∈ a.fromClientId))

/-- The part of the stream id that the C library reads. -/
def Source.seenStreamId (a : Source) : Scalars := withCString a.ingressTrack.streamId

/-- The texts that the C library reads for two sources are one, by an overlap around a dot or cut off at a NUL. -/
def Alias (a b : Source) : Prop :=
  if a.truncated then
    if b.truncated then withCString a.fromClientId = withCString b.fromClientId
    else withCString a.fromClientId = b.fromClientId ++ '.' :: b.seenStreamId
  else if b.truncated then a.fromClientId ++ '.' :: a.seenStreamId = withCString b.fromClientId
  else Overlap a.fromClientId a.seenStreamId b.fromClientId b.seenStreamId

theorem withCString_egressStreamId (a : Source) : withCString a.egressStreamId =
    if a.truncated then withCString a.fromClientId else a.fromClientId ++ '.' :: a.seenStreamId := by
  have hdot : withCString ('.' :: a.ingressTrack.streamId) = '.' :: a.seenStreamId :=
    List.takeWhile_cons_of_pos (by decide)
  unfold Source.egressStreamId
  rw [withCString_append, hdot]
  rfl

theorem alias_iff (a b : Source) : Alias a b ↔ withCString a.egressStreamId = withCString b.egressStreamId := by
  unfold Alias
  rw [withCString_egressStreamId, withCString_egressStreamId]
  split
  · split
    · rfl
    · rfl
  · split
    · rfl
    · exact append_dot_eq_iff.symm

/-! ## Two units on one egress peer -/

section Units
variable {S : Segmentation} {kind : Int → ChannelKind} {w w' : World} {a : Source} {ans : InitAnswers}
  {ingress ingress' : ChannelState} {u : MediaForwardingUnit}

/-- A successful `init` made one call of `rtcAddTrackEx`, and its egress track has the id returned. -/
theorem init_rtc (h : MediaForwardingUnit.init S ingress w a ans = some (.ok u, ingress', w')) :
    0 ≤ ans.code ∧ u.egressTrack.id = ans.code ∧
      ∃ pt ssrc, w'.rtc = w.rtc.addTrack (a.egressArgs.trackInit pt ssrc) ans.code := by
  obtain ⟨-, w₁, s, hcall, rfl⟩ := MediaForwardingUnit.init_ok h
  have hreached := @createTrack_reached S w w₁ (MediaForwardingUnit.call a ans) (.ok u.egressTrack) hcall
  rcases hreached with ⟨e, -, he, -⟩ | ⟨pt, pat, ssrc, -, -, hreach⟩
  · cases he
  · obtain ⟨hc, hid, -⟩ := hreach.result u.egressTrack rfl
    exact ⟨hc, hid, pt, ssrc, hreach.rtc⟩

theorem RtcInv.init (hi : RtcInv w) (hlaw : RtcLaw kind w (MediaForwardingUnit.call a ans).event)
    (h : MediaForwardingUnit.init S ingress w a ans = some (.ok u, ingress', w')) : RtcInv w' := by
  obtain ⟨-, w₁, s, hcall, rfl⟩ := MediaForwardingUnit.init_ok h
  have hi₁ : RtcInv w₁ := hi.createTrack hlaw hcall
  exact hi₁.congr rfl (List.Sublist.refl _) (fun _ hid => hid) hi₁.tracks hi₁.pending

/-- The two units have different stream ids, mids and tracks. -/
structure Apart (a b : Source) (u v : MediaForwardingUnit) (w₀ w₁ w₂ w₃ : World) : Prop where
  streamIds : a.egressStreamId ≠ b.egressStreamId
  mids : ∃ i j, w₁.rtc.added = w₀.rtc.added ++ [i] ∧ w₃.rtc.added = w₂.rtc.added ++ [j] ∧ i.mid ≠ j.mid
  tracks : u.egressTrack.id ≠ v.egressTrack.id

/-- **Forwarded sources.** Two units made on one peer, with any run of the peer between them, are kept apart exactly
when their sources are not aliases. -/
theorem forwarded_apart {o : Option IPOverride} {es es' : List Event} {w₀ w₁ w₂ w₃ : World} {a b : Source}
    {ans₁ ans₂ : InitAnswers} {s₁ s₁' s₂ s₂' : ChannelState} {u v : MediaForwardingUnit}
    (hrun : Run (step S) (RtcLaw kind) (.start o) es w₀)
    (hlaw₁ : RtcLaw kind w₀ (MediaForwardingUnit.call a ans₁).event)
    (h₁ : MediaForwardingUnit.init S s₁ w₀ a ans₁ = some (.ok u, s₁', w₁))
    (hbetween : Run (step S) (RtcLaw kind) w₁ es' w₂)
    (hlaw₂ : RtcLaw kind w₂ (MediaForwardingUnit.call b ans₂).event)
    (h₂ : MediaForwardingUnit.init S s₂ w₂ b ans₂ = some (.ok v, s₂', w₃)) :
    Apart a b u v w₀ w₁ w₂ w₃ ↔ ¬ Alias a b := by
  have hi₁ : RtcInv w₁ := (rtcInv_of_run hrun).init hlaw₁ h₁
  have hi₂ : RtcInv w₂ := hi₁.run hbetween
  obtain ⟨hc₁, hid₁, pt₁, ssrc₁, hrtc₁⟩ := init_rtc h₁
  obtain ⟨hc₂, hid₂, pt₂, ssrc₂, hrtc₂⟩ := init_rtc h₂
  have hret₂ : w₂.rtc.CanReturn (withCString b.egressStreamId) ans₂.code := hlaw₂.2 hc₂
  -- the first track has its id under its mid from then on
  have hlive₁ : (withCString a.egressStreamId, ans₁.code) ∈ w₁.rtc.live := by
    rw [hrtc₁]
    exact @Rtc.mem_addTrack_live_self _ (a.egressArgs.trackInit pt₁ ssrc₁) _ hc₁
  have hlive₂ : (withCString a.egressStreamId, ans₁.code) ∈ w₂.rtc.live :=
    hbetween.invariant (I := fun w => (withCString a.egressStreamId, ans₁.code) ∈ w.rtc.live)
      (fun _ _ _ hl _ hs => RtcInv.live_step hs hl) hlive₁
  have hadd₁ : w₁.rtc.added = w₀.rtc.added ++ [a.egressArgs.trackInit pt₁ ssrc₁] := by rw [hrtc₁]; rfl
  have hadd₂ : w₃.rtc.added = w₂.rtc.added ++ [b.egressArgs.trackInit pt₂ ssrc₂] := by rw [hrtc₂]; rfl
  rw [alias_iff]
  refine ⟨fun h he => ?_, fun hne => ⟨fun he => hne (congrArg withCString he), ⟨_, _, hadd₁, hadd₂, hne⟩, ?_⟩⟩
  · obtain ⟨i, j, hi, hj, hne⟩ := h.mids
    rw [hadd₁, List.append_cancel_left_eq, List.cons.injEq] at hi
    rw [hadd₂, List.append_cancel_left_eq, List.cons.injEq] at hj
    rw [← hi.1, ← hj.1] at hne
    exact hne he
  · rw [hid₁, hid₂]
    exact (hi₂.ne_of_canReturn hlive₂ hret₂ fun he => hne he.symm).symm

end Units

/-! ## Two clients with related names -/

def remoteTrack (streamId : Scalars) : Track :=
  { ref := 0, id := 1, streamId := streamId, trackId := "audio".toList, direction := .recvonly, ssrcs := [] }

def initAnswers (ssrc : Draw) (code : Int) : InitAnswers where
  ingressSession := 0
  draws := [ssrc]
  code := code
  track := { ssrcs := [ssrc.val], direction := .sendonly }
  egressSession := 0
  pliHandler := 0

/-- Client `a` with the stream `b.c`, and client `a.b` with the stream `c`: the second unit forwards into the track of
the first. -/
theorem forwarded_alias : ∃ w₁ w₂ u v s₁ s₂,
    RtcLaw (fun _ => .track) (.start none) (MediaForwardingUnit.call ⟨"a".toList, remoteTrack "b.c".toList⟩
      (initAnswers ⟨5, by decide⟩ 1)).event ∧
    MediaForwardingUnit.init .scalars {} (.start none) ⟨"a".toList, remoteTrack "b.c".toList⟩
      (initAnswers ⟨5, by decide⟩ 1) = some (.ok u, s₁, w₁) ∧
    RtcLaw (fun _ => .track) w₁ (MediaForwardingUnit.call ⟨"a.b".toList, remoteTrack "c".toList⟩
      (initAnswers ⟨6, by decide⟩ 1)).event ∧
    MediaForwardingUnit.init .scalars {} w₁ ⟨"a.b".toList, remoteTrack "c".toList⟩
      (initAnswers ⟨6, by decide⟩ 1) = some (.ok v, s₂, w₂) ∧
    ¬ Apart ⟨"a".toList, remoteTrack "b.c".toList⟩ ⟨"a.b".toList, remoteTrack "c".toList⟩ u v (.start none) w₁ w₁
      w₂ := by
  refine ⟨_, _, _, _, _, _, ⟨fun _ => rfl, fun _ => Or.inr List.not_mem_nil⟩, rfl,
    ⟨fun _ => rfl, fun _ => Or.inl List.mem_cons_self⟩, rfl, fun h => ?_⟩
  exact h.streamIds rfl

theorem forwarded_apart_example : ∃ w₁ w₂ u v s₁ s₂,
    MediaForwardingUnit.init .scalars {} (.start none) ⟨"a".toList, remoteTrack "cam".toList⟩
      (initAnswers ⟨5, by decide⟩ 1) = some (.ok u, s₁, w₁) ∧
    MediaForwardingUnit.init .scalars {} w₁ ⟨"b".toList, remoteTrack "cam".toList⟩
      (initAnswers ⟨6, by decide⟩ 2) = some (.ok v, s₂, w₂) ∧
    Apart ⟨"a".toList, remoteTrack "cam".toList⟩ ⟨"b".toList, remoteTrack "cam".toList⟩ u v (.start none) w₁ w₁ w₂ := by
  refine ⟨_, _, _, _, _, _, rfl, rfl, (@forwarded_apart .scalars (fun _ => .track) none [] [] _ _ _ _
    ⟨"a".toList, remoteTrack "cam".toList⟩ ⟨"b".toList, remoteTrack "cam".toList⟩ (initAnswers ⟨5, by decide⟩ 1)
    (initAnswers ⟨6, by decide⟩ 2) {} _ {} _ _ _ (.nil _) ⟨fun _ => rfl, fun _ => Or.inr List.not_mem_nil⟩ rfl
    (.nil _) ⟨fun _ => rfl, fun _ => Or.inr fun h => ?_⟩ rfl).mpr ?_⟩
  · exact absurd (show (2 : Int) ∈ [(1 : Int)] from h) (by decide)
  · rw [alias_iff]
    decide

end AlloDataChannel

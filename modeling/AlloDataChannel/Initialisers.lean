import AlloDataChannel.SizedReads

/-!
# The initialisers of a peer and its channels

`AlloWebRTCPeer.init`, `Channel.init`, `DataChannel.init` and `Track.init` make their calls of the C library under a
`try!`: `none` is the end of the process. The other modules take over what the calls of a channel yield.

* `ChannelCalls`, `DataChannelCalls`, `TrackCalls`, `PeerCalls` : the answers of the C library, call by call;
* `Channel.init`, `DataChannel.init`, `Track.init`, `Peer.init` : the initialisers on them;
* `….Answered`, `….init_isSome_iff` : an initialiser returns exactly when none of its calls fails.
-/

namespace AlloDataChannel
open Lib (Scalars)

/-! ## The calls -/

/-- The codes of the setters in `Channel.setupCallbacks`. -/
structure ChannelCalls where
  openCallback : Int
  closedCallback : Int
  errorCallback : Int
  messageCallback : Int
  deriving DecidableEq, Repr

/-- The two calls for a text: the size, then the code of the copy with what it wrote. -/
structure TextCalls where
  size : Int
  copy : Int × Scalars
  deriving DecidableEq, Repr

structure DataChannelCalls where
  stream : Int
  label : TextCalls
  channel : ChannelCalls
  deriving DecidableEq, Repr

/-- `direction` is the raw value that `rtcGetTrackDirection` wrote. -/
structure TrackCalls where
  ssrcsSize : Int
  ssrcsCopy : Int × List UInt32
  directionCode : Int
  direction : Nat
  channel : ChannelCalls
  deriving DecidableEq, Repr

/-- The code of `rtcCreatePeerConnection`, and those of the setters in `AlloWebRTCPeer.setupCallbacks`. -/
structure PeerCalls where
  createPeerConnection : Int
  localDescriptionCallback : Int
  localCandidateCallback : Int
  stateChangeCallback : Int
  iceStateChangeCallback : Int
  gatheringStateChangeCallback : Int
  signalingStateChangeCallback : Int
  dataChannelCallback : Int
  trackCallback : Int
  deriving DecidableEq, Repr

/-! ## The initialisers -/

/-- `try Error.orValue(…)` for one call after the other. -/
def Error.orValues : List Int → Except Error Unit
  | [] => .ok ()
  | code :: codes =>
    match Error.orValue code with
    | .error e => .error e
    | .ok _ => orValues codes

def Channel.setupCallbacks (c : ChannelCalls) : Except Error Unit :=
  Error.orValues [c.openCallback, c.closedCallback, c.errorCallback, c.messageCallback]

def Channel.init (c : ChannelCalls) : Option Unit := (Channel.setupCallbacks c).toOption

def DataChannel.init (c : DataChannelCalls) : Option DataChannelAnswers := do
  let streamId ← (Error.orValue c.stream).toOption
  let label ← DataChannel.readLabel c.label.size fun _ => c.label.copy
  Channel.init c.channel
  pure { stream := streamId, label := label }

/-- `try! GetDescription(dcid)`, in the track callback. -/
def Track.description (c : TextCalls) : Option Scalars :=
  (Track.GetDescription c.size fun _ => c.copy).bind Except.toOption

def Track.init (c : TrackCalls) : Option TrackAnswers := do
  let ssrcs ← Track.readSsrcs c.ssrcsSize fun _ => c.ssrcsCopy
  let _ ← (Error.orValue c.directionCode).toOption
  let direction ← Direction.ofRawValue c.direction
  Channel.init c.channel
  pure { ssrcs := ssrcs, direction := direction }

/-- `UInt16(_:)`. -/
def uint16OfInt (x : Int) : Option UInt16 := if 0 ≤ x ∧ x ≤ 65535 then some (UInt16.ofNat x.toNat) else none

/-- `portRangeBegin` and `portRangeEnd` of the configuration. -/
def Peer.ports : Option (Int × Int) → Option (Option (UInt16 × UInt16))
  | none => some none
  | some (lowerBound, upperBound) => do
    let portRangeBegin ← uint16OfInt lowerBound
    let portRangeEnd ← uint16OfInt upperBound
    pure (some (portRangeBegin, portRangeEnd))

def Peer.setupCallbacks (c : PeerCalls) : Except Error Unit :=
  Error.orValues [c.localDescriptionCallback, c.localCandidateCallback, c.stateChangeCallback,
    c.iceStateChangeCallback, c.gatheringStateChangeCallback, c.signalingStateChangeCallback, c.dataChannelCallback,
    c.trackCallback]

/-- `AlloWebRTCPeer.init`, with the id of the new peer connection. -/
def Peer.init (portRange : Option (Int × Int)) (c : PeerCalls) : Option Int := do
  let _ ← Peer.ports portRange
  let peerId ← (Error.orValue c.createPeerConnection).toOption
  let _ ← (Peer.setupCallbacks c).toOption
  pure peerId

/-! ## Initialisers that return -/

/-- Every setter takes its callback. -/
structure ChannelCalls.Answered (c : ChannelCalls) : Prop where
  openCallback : 0 ≤ c.openCallback
  closedCallback : 0 ≤ c.closedCallback
  errorCallback : 0 ≤ c.errorCallback
  messageCallback : 0 ≤ c.messageCallback

structure TextCalls.Answered (c : TextCalls) : Prop where
  size : 0 ≤ c.size
  copy : 0 ≤ c.copy.1

structure DataChannelCalls.Answered (c : DataChannelCalls) : Prop where
  stream : 0 ≤ c.stream
  label : c.label.Answered
  channel : c.channel.Answered

/-- The copy of the SSRCs is called when there are some. -/
structure TrackCalls.Answered (c : TrackCalls) : Prop where
  ssrcsSize : 0 ≤ c.ssrcsSize
  ssrcsCopy : 0 < c.ssrcsSize → 0 ≤ c.ssrcsCopy.1
  directionCode : 0 ≤ c.directionCode
  direction : c.direction ≤ 4
  channel : c.channel.Answered

/-- The ports of the range are ports. -/
def PortRange (portRange : Option (Int × Int)) : Prop :=
  ∀ r, portRange = some r → (0 ≤ r.1 ∧ r.1 ≤ 65535) ∧ 0 ≤ r.2 ∧ r.2 ≤ 65535

structure PeerCalls.Answered (c : PeerCalls) : Prop where
  createPeerConnection : 0 ≤ c.createPeerConnection
  localDescriptionCallback : 0 ≤ c.localDescriptionCallback
  localCandidateCallback : 0 ≤ c.localCandidateCallback
  stateChangeCallback : 0 ≤ c.stateChangeCallback
  iceStateChangeCallback : 0 ≤ c.iceStateChangeCallback
  gatheringStateChangeCallback : 0 ≤ c.gatheringStateChangeCallback
  signalingStateChangeCallback : 0 ≤ c.signalingStateChangeCallback
  dataChannelCallback : 0 ≤ c.dataChannelCallback
  trackCallback : 0 ≤ c.trackCallback

/-- Two calls, where what the first one yields does not decide whether the second one fails. -/
theorem isSome_bind_iff {α β : Type} {x : Option α} {f : α → Option β} {P Q : Prop} (hx : x.isSome ↔ P)
    (hf : ∀ a, (f a).isSome ↔ Q) : (x.bind f).isSome ↔ P ∧ Q := by
  cases x with
  | none => exact iff_of_false Bool.false_ne_true fun h => Bool.false_ne_true (hx.mpr h.1)
  | some a => exact ⟨fun h => ⟨hx.mp rfl, (hf a).mp h⟩, fun h => (hf a).mpr h.2⟩

theorem Error.orValue_isSome_iff {code : Int} : (Error.orValue code).toOption.isSome ↔ 0 ≤ code := by
  rcases lt_or_ge code 0 with hc | hc
  · rw [Error.orValue_of_neg hc]
    exact iff_of_false Bool.false_ne_true (by omega)
  · rw [Error.orValue_of_nonneg hc]
    exact iff_of_true rfl hc

theorem Error.orValues_isSome_iff {codes : List Int} :
    (Error.orValues codes).toOption.isSome ↔ ∀ code ∈ codes, 0 ≤ code := by
  induction codes with
  | nil => exact ⟨fun _ code hc => absurd hc List.not_mem_nil, fun _ => rfl⟩
  | cons code codes ih =>
    rw [List.forall_mem_cons, Error.orValues, ← ih]
    rcases lt_or_ge code 0 with hc | hc
    · rw [Error.orValue_of_neg hc]
      exact ⟨fun h => absurd h Bool.false_ne_true, fun h => absurd h.1 (by omega)⟩
    · rw [Error.orValue_of_nonneg hc]
      exact ⟨fun h => ⟨hc, h⟩, And.right⟩

/-- A text is read under a `try!` exactly when both calls succeed. -/
theorem Track.description_eq (c : TextCalls) :
    Track.description c = if 0 ≤ c.size ∧ 0 ≤ c.copy.1 then some c.copy.2 else none := by
  unfold Track.description Track.GetDescription Track.readText
  rcases lt_or_ge c.size 0 with hs | hs
  · rw [Error.orValue_of_neg hs, if_neg (by omega)]
    rfl
  · rw [Error.orValue_of_nonneg hs]
    dsimp only
    rcases lt_or_ge c.copy.1 0 with hc | hc
    · rw [Error.orValue_of_neg hc, if_neg (by omega)]
      rfl
    · rw [Error.orValue_of_nonneg hc, if_pos ⟨hs, hc⟩]
      rfl

theorem DataChannel.readLabel_eq_description (c : TextCalls) :
    DataChannel.readLabel c.size (fun _ => c.copy) = Track.description c := by
  unfold DataChannel.readLabel Track.description Track.GetDescription Track.readText
  cases Error.orValue c.size with
  | error e => rfl
  | ok len =>
    dsimp only
    cases Error.orValue c.copy.1 <;> rfl

theorem Track.description_isSome_iff {c : TextCalls} : (Track.description c).isSome ↔ c.Answered := by
  rw [Track.description_eq]
  split
  · next h => exact ⟨fun _ => ⟨h.1, h.2⟩, fun _ => rfl⟩
  · next h => exact ⟨fun hf => absurd hf Bool.false_ne_true, fun ha => absurd ⟨ha.size, ha.copy⟩ h⟩

theorem Channel.init_isSome_iff {c : ChannelCalls} : (Channel.init c).isSome ↔ c.Answered := by
  unfold Channel.init Channel.setupCallbacks
  rw [Error.orValues_isSome_iff]
  simp only [List.forall_mem_cons, List.not_mem_nil, false_implies, implies_true, and_true]
  exact ⟨fun ⟨h₁, h₂, h₃, h₄⟩ => ⟨h₁, h₂, h₃, h₄⟩, fun ⟨h₁, h₂, h₃, h₄⟩ => ⟨h₁, h₂, h₃, h₄⟩⟩

theorem DataChannel.init_isSome_iff {c : DataChannelCalls} : (DataChannel.init c).isSome ↔ c.Answered := by
  have hcalls : (DataChannel.init c).isSome ↔ 0 ≤ c.stream ∧ c.label.Answered ∧ c.channel.Answered ∧ True := by
    unfold DataChannel.init
    rw [DataChannel.readLabel_eq_description]
    exact isSome_bind_iff Error.orValue_isSome_iff fun streamId =>
      isSome_bind_iff Track.description_isSome_iff fun label =>
        isSome_bind_iff Channel.init_isSome_iff fun _ => iff_of_true rfl trivial
  rw [hcalls]
  exact ⟨fun ⟨hs, hl, hc, _⟩ => ⟨hs, hl, hc⟩, fun ha => ⟨ha.stream, ha.label, ha.channel, trivial⟩⟩

theorem Track.readSsrcs_isSome_iff {size : Int} {copy : Int × List UInt32} :
    (Track.readSsrcs size fun _ => copy).isSome ↔ 0 ≤ size ∧ (0 < size → 0 ≤ copy.1) := by
  unfold Track.readSsrcs
  rcases lt_or_ge size 0 with hs | hs
  · rw [Error.orValue_of_neg hs]
    exact iff_of_false Bool.false_ne_true fun h => absurd h.1 (by omega)
  · rw [Error.orValue_of_nonneg hs]
    dsimp only
    by_cases hpos : 0 < size
    · rw [if_pos hpos]
      rcases lt_or_ge copy.1 0 with hc | hc
      · rw [Error.orValue_of_neg hc]
        exact iff_of_false Bool.false_ne_true fun h => absurd (h.2 hpos) (by omega)
      · rw [Error.orValue_of_nonneg hc]
        exact iff_of_true rfl ⟨hs, fun _ => hc⟩
    · rw [if_neg hpos]
      exact iff_of_true rfl ⟨hs, fun h => absurd h hpos⟩

/-- The list has the size of the first call, whatever the second one wrote. -/
theorem Track.readSsrcs_ne_nil {size : Int} {copy : Int × List UInt32} {ssrcs : List UInt32} (hs : size ≠ 0)
    (h : (Track.readSsrcs size fun _ => copy) = some ssrcs) : ssrcs ≠ [] := by
  have hanswered := Track.readSsrcs_isSome_iff.mp (Option.isSome_of_eq_some h)
  have hpos : 0 < size := by omega
  unfold Track.readSsrcs at h
  rw [Error.orValue_of_nonneg hanswered.1] at h
  dsimp only at h
  rw [if_pos hpos, Error.orValue_of_nonneg (hanswered.2 hpos), Option.some.injEq] at h
  have hlength := congrArg List.length h
  rw [List.length_take, List.length_append, List.length_replicate] at hlength
  exact List.ne_nil_of_length_pos (by omega)

theorem Direction.ofRawValue_isSome_iff {n : Nat} : (Direction.ofRawValue n).isSome ↔ n ≤ 4 := by
  constructor
  · intro h
    obtain ⟨d, hd⟩ := Option.isSome_iff_exists.mp h
    have hraw : d.rawValue = n := by simpa using List.find?_some hd
    cases d <;> simp only [Direction.rawValue] at hraw <;> omega
  · intro h
    obtain rfl | rfl | rfl | rfl | rfl : n = 0 ∨ n = 1 ∨ n = 2 ∨ n = 3 ∨ n = 4 := by omega
    all_goals rfl

theorem Track.init_isSome_iff {c : TrackCalls} : (Track.init c).isSome ↔ c.Answered := by
  have hcalls : (Track.init c).isSome ↔ (0 ≤ c.ssrcsSize ∧ (0 < c.ssrcsSize → 0 ≤ c.ssrcsCopy.1)) ∧
      0 ≤ c.directionCode ∧ c.direction ≤ 4 ∧ c.channel.Answered ∧ True :=
    isSome_bind_iff Track.readSsrcs_isSome_iff fun ssrcs =>
      isSome_bind_iff Error.orValue_isSome_iff fun _ =>
        isSome_bind_iff Direction.ofRawValue_isSome_iff fun direction =>
          isSome_bind_iff Channel.init_isSome_iff fun _ => iff_of_true rfl trivial
  rw [hcalls]
  exact ⟨fun ⟨⟨hs, hcopy⟩, hcode, hd, hc, _⟩ => ⟨hs, hcopy, hcode, hd, hc⟩,
    fun ha => ⟨⟨ha.ssrcsSize, ha.ssrcsCopy⟩, ha.directionCode, ha.direction, ha.channel, trivial⟩⟩

theorem Track.init_ssrcs {c : TrackCalls} {ans : TrackAnswers} (hs : c.ssrcsSize ≠ 0) (h : Track.init c = some ans) :
    ans.ssrcs ≠ [] := by
  unfold Track.init at h
  obtain ⟨ssrcs, hread, h⟩ := Option.bind_eq_some_iff.mp h
  obtain ⟨code, -, h⟩ := Option.bind_eq_some_iff.mp h
  obtain ⟨direction, -, h⟩ := Option.bind_eq_some_iff.mp h
  obtain ⟨u, -, h⟩ := Option.bind_eq_some_iff.mp h
  cases h
  exact Track.readSsrcs_ne_nil hs hread

theorem uint16OfInt_isSome_iff {x : Int} : (uint16OfInt x).isSome ↔ 0 ≤ x ∧ x ≤ 65535 := by
  unfold uint16OfInt
  split
  · next h => exact iff_of_true rfl h
  · next h => exact iff_of_false Bool.false_ne_true h

theorem Peer.ports_isSome_iff {portRange : Option (Int × Int)} :
    (Peer.ports portRange).isSome ↔ PortRange portRange := by
  cases portRange with
  | none => exact ⟨fun _ r hr => (by cases hr), fun _ => rfl⟩
  | some r =>
    obtain ⟨lowerBound, upperBound⟩ := r
    have hcalls : (Peer.ports (some (lowerBound, upperBound))).isSome ↔
        (0 ≤ lowerBound ∧ lowerBound ≤ 65535) ∧ (0 ≤ upperBound ∧ upperBound ≤ 65535) ∧ True :=
      isSome_bind_iff uint16OfInt_isSome_iff fun portRangeBegin =>
        isSome_bind_iff uint16OfInt_isSome_iff fun portRangeEnd => iff_of_true rfl trivial
    rw [hcalls, and_true]
    refine ⟨fun h r hr => ?_, fun h => h _ rfl⟩
    cases hr
    exact h

theorem Peer.setupCallbacks_isSome_iff {c : PeerCalls} :
    0 ≤ c.createPeerConnection ∧ (Peer.setupCallbacks c).toOption.isSome ↔ c.Answered := by
  unfold Peer.setupCallbacks
  rw [Error.orValues_isSome_iff]
  simp only [List.forall_mem_cons, List.not_mem_nil, false_implies, implies_true, and_true]
  exact ⟨fun ⟨h, h₁, h₂, h₃, h₄, h₅, h₆, h₇, h₈⟩ => ⟨h, h₁, h₂, h₃, h₄, h₅, h₆, h₇, h₈⟩,
    fun ⟨h, h₁, h₂, h₃, h₄, h₅, h₆, h₇, h₈⟩ => ⟨h, h₁, h₂, h₃, h₄, h₅, h₆, h₇, h₈⟩⟩

theorem Peer.init_isSome_iff {portRange : Option (Int × Int)} {c : PeerCalls} :
    (Peer.init portRange c).isSome ↔ PortRange portRange ∧ c.Answered := by
  have hcalls : (Peer.init portRange c).isSome ↔ PortRange portRange ∧ 0 ≤ c.createPeerConnection ∧
      (Peer.setupCallbacks c).toOption.isSome ∧ True :=
    isSome_bind_iff Peer.ports_isSome_iff fun ports =>
      isSome_bind_iff Error.orValue_isSome_iff fun peerId =>
        isSome_bind_iff Iff.rfl fun _ => iff_of_true rfl trivial
  rw [hcalls, and_true, Peer.setupCallbacks_isSome_iff]

end AlloDataChannel

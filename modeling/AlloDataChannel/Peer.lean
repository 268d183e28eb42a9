import AlloDataChannel.Lib.KeyedSet
import AlloDataChannel.Lib.Run
import AlloDataChannel.Alloc
import AlloDataChannel.Channel
import AlloDataChannel.Msid
import Mathlib.Logic.Function.Basic

/-!
# A peer, its channel objects and the C library behind it

`World` is one `AlloWebRTCPeer` (`Peer`), the `Channel` objects built for it (`Heap`), the create calls between the C
call and the insertion (`pendingData`, `pendingTracks`) and what the C library knows of the connection (`Rtc`).

* `Peer.prepareTrack`, `World.createTrackCall`, `World.insertTrack` : the parts of `createTrack`, `World.createTrack`
  the whole call; `World.createDataChannelCall`, `World.insertDataChannel` likewise;
* `World.dataChannelCallback`, `World.trackCallback` : the callbacks of `setupCallbacks`;
* `Registry.close` : `close()` of a data channel or a track;
* `Event`, `step` : one atomic step; `none` is a trap.
-/

namespace AlloDataChannel
open Lib (Scalars Character Segmentation KeyedSet)

/-! ## Objects -/

/-- A `DataChannel` object; `ref` is its identity. -/
structure DataChannel where
  ref : Nat
  id : Int
  streamId : Int
  label : Scalars
  deriving DecidableEq, Repr

/-- A `Track` object; `ref` is its identity. -/
structure Track where
  ref : Nat
  id : Int
  streamId : Scalars
  trackId : Scalars
  direction : Direction
  ssrcs : List UInt32
  deriving DecidableEq, Repr

inductive Channel
  | dataChannel (d : DataChannel)
  | track (t : Track)
  deriving DecidableEq, Repr

def Channel.id : Channel → Int
  | .dataChannel d => d.id
  | .track t => t.id

def Channel.ref : Channel → Nat
  | .dataChannel d => d.ref
  | .track t => t.ref

@[simp] theorem Channel.id_dataChannel (d : DataChannel) : (Channel.dataChannel d).id = d.id := rfl

@[simp] theorem Channel.id_track (t : Track) : (Channel.track t).id = t.id := rfl

/-- What the calls of `DataChannel.init` yield, none of which fails. -/
structure DataChannelAnswers where
  stream : Int
  label : Scalars
  deriving DecidableEq, Repr

/-- What the calls of `Track.init` yield, none of which fails. -/
structure TrackAnswers where
  ssrcs : List UInt32
  direction : Direction
  deriving DecidableEq, Repr

/-- The objects built so far, by identity, their mutable state, and the user pointers of the C ids. -/
structure Heap where
  objects : List Channel := []
  state : Nat → ChannelState := fun _ => {}
  userPtr : Int → Option Nat := fun _ => none

/-- `Channel.init`, when its setters take their callbacks: the object becomes the user pointer of its id. -/
def Heap.alloc (h : Heap) (c : Channel) : Heap :=
  { h with objects := h.objects ++ [c], userPtr := Function.update h.userPtr c.id (some c.ref) }

/-! ## The peer -/

/-- The three published sets of a peer. -/
structure Registry where
  channels : KeyedSet Channel.id := .empty
  dataChannels : KeyedSet DataChannel.id := .empty
  tracks : KeyedSet Track.id := .empty

structure Peer extends Registry where
  localDescription : Option Description := none
  candidates : List ICECandidate := []
  pat : PayloadTypeAllocator := {}
  sa : SsrcAllocator := {}
  ipOverride : Option IPOverride := none

namespace Registry

/-- The insertions of a new object, into `channels` and the set of its kind. -/
def insert (r : Registry) (c : Channel) : Registry :=
  match c with
  | .dataChannel d => { r with channels := r.channels.insert c, dataChannels := r.dataChannels.insert d }
  | .track t => { r with channels := r.channels.insert c, tracks := r.tracks.insert t }

/-- `Channel.close`. -/
def closeChannel (r : Registry) (id : Int) : Registry := { r with channels := r.channels.remove id }

/-- `DataChannel.close` and `Track.close`. -/
def close (r : Registry) : Channel → Registry
  | .dataChannel d => { r.closeChannel d.id with dataChannels := (r.closeChannel d.id).dataChannels.remove d.id }
  | .track t => { r.closeChannel t.id with tracks := (r.closeChannel t.id).tracks.remove t.id }

end Registry

/-! ## `createTrack` up to the C call -/

structure TrackArgs where
  streamId : Scalars
  trackId : Scalars
  direction : Direction
  codec : Codec
  codecProfile : Option Scalars := none
  sampleOrBitrate : Int
  channelCount : Int
  mid : Option Scalars := none
  ssrc : Option UInt32 := none
  deriving DecidableEq, Repr

/-- `rtcTrackInit`, with its strings as the C library reads them. -/
structure TrackInit where
  direction : Direction
  codec : Codec
  payloadType : Int
  ssrc : UInt32
  mid : Scalars
  name : Scalars
  msid : Scalars
  trackId : Scalars
  profile : Option Scalars
  deriving DecidableEq, Repr

/-- The guard of `createTrack`, whose failure is a `fatalError`. -/
def TrackArgs.valid (S : Segmentation) (a : TrackArgs) : Bool :=
  !(S.characters a.streamId).contains [' '] && !(S.characters a.trackId).contains [' '] &&
    (a.mid.all fun mid => !(S.characters mid).contains [' '])

def TrackArgs.key (a : TrackArgs) : PayloadTypeAllocator.Key :=
  { codec := a.codec, profile := a.codecProfile, clock := a.sampleOrBitrate, channels := a.channelCount }

/-- `mid ?? "\(streamId)"`. -/
def TrackArgs.actualMid (a : TrackArgs) : Scalars := a.mid.getD a.streamId

def TrackArgs.trackInit (a : TrackArgs) (pt : Int) (actualSsrc : UInt32) : TrackInit where
  direction := a.direction
  codec := a.codec
  payloadType := pt
  ssrc := actualSsrc
  mid := withCString a.actualMid
  name := withCString ("t" ++ toString actualSsrc).toList
  msid := withCString a.streamId
  trackId := withCString a.trackId
  profile := a.codecProfile.map withCString

/-- `createTrack` from its guard to the `rtcTrackInit`. `none` is the `fatalError` of the guard, or a draw of SSRCs
that does not end. -/
def Peer.prepareTrack (S : Segmentation) (p : Peer) (a : TrackArgs) (draws : List Draw) :
    Option (Except Thrown TrackInit × Peer) :=
  if a.valid S then
    match p.pat.payloadType S a.key with
    | .error e => some (.error e, p)
    | .ok (pt, pat) =>
      match p.sa.actualSsrc a.ssrc draws with
      | none => none
      | some (actualSsrc, sa) => some (.ok (a.trackInit pt actualSsrc), { p with pat := pat, sa := sa })
  else none

/-! ## The C library's side -/

/-- A media section of a remote description. -/
structure Section where
  mid : Scalars
  description : Scalars
  answers : TrackAnswers
  deriving DecidableEq, Repr

/-- `rtcDataChannelInit`. -/
structure DataChannelInit where
  label : Scalars
  unordered : Bool
  unreliable : Bool
  maxPacketLifeTime : Nat
  maxRetransmits : Nat
  protocol : Option Scalars
  negotiated : Bool
  manualStream : Bool
  stream : UInt16
  deriving DecidableEq, Repr

/-- What the library knows of the connection: the calls that create channels, in order, the ids it has returned, the
ids of tracks with the `mid` of each, and the track callbacks still to come. -/
structure Rtc where
  created : List DataChannelInit := []
  added : List TrackInit := []
  issued : List Int := []
  live : List (Scalars × Int) := []
  announced : List (Int × Section) := []

def Rtc.createDataChannel (r : Rtc) (init : DataChannelInit) (code : Int) : Rtc :=
  { r with created := r.created ++ [init], issued := if 0 ≤ code then code :: r.issued else r.issued }

/-- `rtcAddTrackEx`, which returned `code`. -/
def Rtc.addTrack (r : Rtc) (init : TrackInit) (code : Int) : Rtc :=
  { r with
    added := r.added ++ [init]
    issued := if 0 ≤ code then code :: r.issued else r.issued
    live := if 0 ≤ code ∧ (init.mid, code) ∉ r.live then (init.mid, code) :: r.live else r.live }

/-- The sections of a description whose `mid` has no track yet. -/
def newSections (known : List Scalars) : List Section → List Section
  | [] => []
  | sec :: secs =>
    if sec.mid ∈ known then newSections known secs else sec :: newSections (sec.mid :: known) secs

def Rtc.newSections (r : Rtc) (secs : List Section) : List Section :=
  AlloDataChannel.newSections (r.live.map Prod.fst) secs

/-- An applied remote description: its new sections get the ids `ids`, and their track callbacks are to come. -/
def Rtc.setRemote (r : Rtc) (secs : List Section) (ids : List Int) : Rtc :=
  { r with
    issued := ids ++ r.issued
    live := ((r.newSections secs).map Section.mid).zip ids ++ r.live
    announced := r.announced ++ ids.zip (r.newSections secs) }

/-- The ids of a description are announced in the order of its new sections. -/
theorem map_fst_zip_newSections {r : Rtc} {secs : List Section} {ids : List Int}
    (h : ids.length = (r.newSections secs).length) : (ids.zip (r.newSections secs)).map Prod.fst = ids := by
  rw [List.map_fst_zip]
  omega

theorem map_snd_zip_newSections {r : Rtc} {secs : List Section} {ids : List Int}
    (h : ids.length = (r.newSections secs).length) :
    (ids.zip (r.newSections secs)).map Prod.snd = r.newSections secs := by
  rw [List.map_snd_zip]
  omega

/-! ## The world -/

/-- A `createTrack` call between `rtcAddTrackEx` and its lookup in `tracks`. -/
structure PendingTrack where
  id : Int
  streamId : Scalars
  trackId : Scalars
  actualSsrc : UInt32
  deriving DecidableEq, Repr

structure World where
  peer : Peer := {}
  heap : Heap := {}
  pendingData : List Int := []
  pendingTracks : List PendingTrack := []
  rtc : Rtc := {}

structure DataChannelArgs where
  label : Scalars
  reliable : Bool := true
  streamId : Option UInt16 := none
  negotiated : Bool := false
  deriving DecidableEq, Repr

def DataChannelArgs.dataChannelInit (a : DataChannelArgs) : DataChannelInit where
  label := withCString a.label
  unordered := !a.reliable
  unreliable := !a.reliable
  maxPacketLifeTime := 0
  maxRetransmits := 0
  protocol := none
  negotiated := a.negotiated
  manualStream := a.streamId.isSome
  stream := a.streamId.getD 0

namespace World

/-- `DataChannel.init`, on what its calls yield. -/
def newDataChannel (w : World) (id : Int) (ans : DataChannelAnswers) : DataChannel :=
  { ref := w.heap.objects.length, id := id, streamId := ans.stream, label := ans.label }

/-- `Track.init`, on what its calls yield. -/
def newTrack (w : World) (id : Int) (streamId trackId : Scalars) (ans : TrackAnswers) : Track :=
  { ref := w.heap.objects.length, id := id, streamId := streamId, trackId := trackId, direction := ans.direction,
    ssrcs := ans.ssrcs }

/-- A new object and its insertions. -/
def register (w : World) (c : Channel) : World :=
  { w with heap := w.heap.alloc c, peer := { w.peer with toRegistry := w.peer.toRegistry.insert c } }

/-- `createDataChannel` up to the id. -/
def createDataChannelCall (w : World) (a : DataChannelArgs) (code : Int) : Except Error Int × World :=
  (Error.orValue code, { w with rtc := w.rtc.createDataChannel a.dataChannelInit code })

/-- `createDataChannel` from the id on: the lookup in `dataChannels` and the insertion. -/
def insertDataChannel (w : World) (dataChannelId : Int) (ans : DataChannelAnswers) : DataChannel × World :=
  match w.peer.dataChannels.find? dataChannelId with
  | some existing => (existing, w)
  | none =>
    let chan := w.newDataChannel dataChannelId ans
    (chan, w.register (.dataChannel chan))

/-- `createTrack` up to the id. -/
def createTrackCall (S : Segmentation) (w : World) (a : TrackArgs) (draws : List Draw) (code : Int) :
    Option (Except Thrown PendingTrack × World) :=
  match w.peer.prepareTrack S a draws with
  | none => none
  | some (.error e, peer) => some (.error e, { w with peer := peer })
  | some (.ok init, peer) =>
    let w' := { w with peer := peer, rtc := w.rtc.addTrack init code }
    match Error.orValue code with
    | .error e => some (.error (.peer e), w')
    | .ok tid =>
      some (.ok { id := tid, streamId := a.streamId, trackId := a.trackId, actualSsrc := init.ssrc }, w')

/-- `createTrack` from the id on: the lookup in `tracks` and the insertion. -/
def insertTrack (w : World) (f : PendingTrack) (ans : TrackAnswers) : Track × World :=
  match w.peer.tracks.find? f.id with
  | some existing => (existing, w)
  | none =>
    let track := w.newTrack f.id f.streamId f.trackId ans
    (track, w.register (.track track))

/-- `createTrack` in one piece. -/
def createTrack (S : Segmentation) (w : World) (a : TrackArgs) (draws : List Draw) (code : Int)
    (ans : TrackAnswers) : Option (Except Thrown Track × World) :=
  match w.createTrackCall S a draws code with
  | none => none
  | some (.error e, w') => some (.error e, w')
  | some (.ok f, w') => some (.ok (w'.insertTrack f ans).1, (w'.insertTrack f ans).2)

/-- The data-channel callback. -/
def dataChannelCallback (w : World) (dcid : Int) (ans : DataChannelAnswers) : World :=
  if w.peer.channels.hasKey dcid then w else w.register (.dataChannel (w.newDataChannel dcid ans))

/-- The track callback; the `try!` of `GetMsid` traps. -/
def trackCallback (S : Segmentation) (w : World) (dcid : Int) (description : Scalars) (ans : TrackAnswers) :
    Option World :=
  if w.peer.channels.hasKey dcid then some w
  else
    match GetMsid S description with
    | some (.ok msid) =>
      let track := w.newTrack dcid msid.streamId msid.trackId ans
      let w' := w.register (.track track)
      some { w' with peer := { w'.peer with sa := w'.peer.sa.reserveAll track.ssrcs } }
    | _ => none

/-- `close()` of the object `ref`. -/
def close (w : World) (ref : Nat) : World :=
  match w.heap.objects[ref]? with
  | none => w
  | some c => { w with peer := { w.peer with toRegistry := w.peer.toRegistry.close c } }

/-- A callback on the channel `id`, which finds its object by the user pointer. -/
def channelCallback (w : World) (id : Int) (cb : ChannelCallback) : Option World :=
  match w.heap.userPtr id with
  | none => none
  | some this =>
    (cb.run (w.heap.state this)).map fun s =>
      { w with heap := { w.heap with state := Function.update w.heap.state this s } }

/-- `set(remote:type:)`, with the code that `rtcSetRemoteDescription` returns. -/
def setRemote (w : World) (secs : List Section) (ids : List Int) (code : Int) : Except Error Unit × World :=
  match Error.orValue code with
  | .error e => (.error e, w)
  | .ok _ => (.ok (), { w with rtc := w.rtc.setRemote secs ids })

end World

/-! ## Steps -/

/-- An atomic step, with the answers of the C library in it. The two halves of a create call are steps of their own;
the second names the pending call by its position. -/
inductive Event
  | createDataChannel (a : DataChannelArgs) (code : Int)
  | insertDataChannel (k : Nat) (ans : DataChannelAnswers)
  | createTrack (a : TrackArgs) (draws : List Draw) (code : Int)
  | insertTrack (k : Nat) (ans : TrackAnswers)
  | dataChannelCallback (dcid : Int) (ans : DataChannelAnswers)
  | trackCallback (dcid : Int) (description : Scalars) (ans : TrackAnswers)
  | close (ref : Nat)
  | channelCallback (id : Int) (cb : ChannelCallback)
  | setRemote (secs : List Section) (ids : List Int) (code : Int)
  deriving DecidableEq, Repr

def step (S : Segmentation) (w : World) : Event → Option World
  | .createDataChannel a code =>
    match w.createDataChannelCall a code with
    | (.error _, w') => some w'
    | (.ok id, w') => some { w' with pendingData := w'.pendingData ++ [id] }
  | .insertDataChannel k ans =>
    match w.pendingData[k]? with
    | none => some w
    | some id => some { (w.insertDataChannel id ans).2 with pendingData := w.pendingData.eraseIdx k }
  | .createTrack a draws code =>
    match w.createTrackCall S a draws code with
    | none => none
    | some (.error _, w') => some w'
    | some (.ok f, w') => some { w' with pendingTracks := w'.pendingTracks ++ [f] }
  | .insertTrack k ans =>
    match w.pendingTracks[k]? with
    | none => some w
    | some f => some { (w.insertTrack f ans).2 with pendingTracks := w.pendingTracks.eraseIdx k }
  | .dataChannelCallback dcid ans => some (w.dataChannelCallback dcid ans)
  | .trackCallback dcid description ans =>
    -- the announced callback has fired, whatever it does
    (w.trackCallback S dcid description ans).map fun w' =>
      { w' with rtc := { w'.rtc with announced := w'.rtc.announced.filter fun p => p.1 ≠ dcid } }
  | .close ref => some (w.close ref)
  | .channelCallback id cb => w.channelCallback id cb
  | .setRemote secs ids code => some (w.setRemote secs ids code).2

/-- The world of a new peer. -/
def World.start (ipOverride : Option IPOverride) : World := { peer := { ipOverride := ipOverride } }

/-! ## What each operation can do -/

section Cases
variable {S : Segmentation} {w w' : World}

/-- A call of `createTrack` up to the id fails at the payload type, changing nothing, or takes a payload type and an
SSRC and makes the C call. -/
theorem createTrackCall_cases {a : TrackArgs} {draws : List Draw} {code : Int} {r : Except Thrown PendingTrack}
    (h : w.createTrackCall S a draws code = some (r, w')) :
    a.valid S = true ∧
      ((∃ e, w.peer.pat.payloadType S a.key = .error e ∧ r = .error e ∧ w' = w) ∨
        ∃ pt pat ssrc sa, w.peer.pat.payloadType S a.key = .ok (pt, pat) ∧
          w.peer.sa.actualSsrc a.ssrc draws = some (ssrc, sa) ∧
          w' = { w with
            peer := { w.peer with pat := pat, sa := sa }
            rtc := w.rtc.addTrack (a.trackInit pt ssrc) code } ∧
          (code < 0 ∧ r = .error (.peer (Error.fromInt32 code)) ∨
            0 ≤ code ∧ r = .ok { id := code, streamId := a.streamId, trackId := a.trackId, actualSsrc := ssrc })) := by
  unfold World.createTrackCall Peer.prepareTrack at h
  by_cases hv : a.valid S = true
  · refine ⟨hv, ?_⟩
    rw [if_pos hv] at h
    cases hp : w.peer.pat.payloadType S a.key with
    | error e =>
      rw [hp] at h
      simp only [Option.some.injEq, Prod.mk.injEq] at h
      exact Or.inl ⟨e, rfl, h.1.symm, h.2.symm⟩
    | ok p =>
      obtain ⟨pt, pat⟩ := p
      rw [hp] at h
      cases hs : w.peer.sa.actualSsrc a.ssrc draws with
      | none =>
        rw [hs] at h
        cases h
      | some q =>
        obtain ⟨ssrc, sa⟩ := q
        rw [hs] at h
        refine Or.inr ⟨pt, pat, ssrc, sa, rfl, rfl, ?_⟩
        rcases lt_or_ge code 0 with hc | hc
        · simp only [Error.orValue_of_neg hc, Option.some.injEq, Prod.mk.injEq] at h
          exact ⟨h.2.symm, Or.inl ⟨hc, h.1.symm⟩⟩
        · simp only [Error.orValue_of_nonneg hc, Option.some.injEq, Prod.mk.injEq] at h
          exact ⟨h.2.symm, Or.inr ⟨hc, h.1.symm⟩⟩
  · rw [if_neg hv] at h
    cases h

theorem prepareTrack_ok {p : Peer} {a : TrackArgs} {draws : List Draw} {pt : Int} {pat : PayloadTypeAllocator}
    {ssrc : UInt32} {sa : SsrcAllocator} (hv : a.valid S = true) (hp : p.pat.payloadType S a.key = .ok (pt, pat))
    (hs : p.sa.actualSsrc a.ssrc draws = some (ssrc, sa)) :
    p.prepareTrack S a draws = some (.ok (a.trackInit pt ssrc), { p with pat := pat, sa := sa }) := by
  unfold Peer.prepareTrack
  rw [if_pos hv, hp]
  dsimp only
  rw [hs]

/-- A prepared call reaches `rtcAddTrackEx`, whatever that returns. -/
theorem createTrackCall_of_init {a : TrackArgs} {draws : List Draw} {init : TrackInit} {peer : Peer} (code : Int)
    (h : w.peer.prepareTrack S a draws = some (.ok init, peer)) :
    ∃ r, w.createTrackCall S a draws code = some (r, { w with peer := peer, rtc := w.rtc.addTrack init code }) := by
  unfold World.createTrackCall
  rw [h]
  rcases lt_or_ge code 0 with hc | hc
  · refine ⟨.error (.peer (Error.fromInt32 code)), ?_⟩
    dsimp only
    rw [Error.orValue_of_neg hc]
  · refine ⟨.ok { id := code, streamId := a.streamId, trackId := a.trackId, actualSsrc := init.ssrc }, ?_⟩
    dsimp only
    rw [Error.orValue_of_nonneg hc]

theorem insertTrack_of_find? {f : PendingTrack} {t : Track} (ans : TrackAnswers)
    (h : w.peer.tracks.find? f.id = some t) : w.insertTrack f ans = (t, w) := by
  unfold World.insertTrack
  rw [h]

theorem insertTrack_of_fresh {f : PendingTrack} (ans : TrackAnswers) (h : w.peer.tracks.hasKey f.id = false) :
    w.insertTrack f ans = (w.newTrack f.id f.streamId f.trackId ans,
      w.register (.track (w.newTrack f.id f.streamId f.trackId ans))) := by
  unfold World.insertTrack
  rw [KeyedSet.find?_eq_none_iff_hasKey.mpr h]

theorem insertDataChannel_of_find? {id : Int} {d : DataChannel} (ans : DataChannelAnswers)
    (h : w.peer.dataChannels.find? id = some d) : w.insertDataChannel id ans = (d, w) := by
  unfold World.insertDataChannel
  rw [h]

theorem insertDataChannel_of_fresh {id : Int} (ans : DataChannelAnswers)
    (h : w.peer.dataChannels.hasKey id = false) :
    w.insertDataChannel id ans = (w.newDataChannel id ans, w.register (.dataChannel (w.newDataChannel id ans))) := by
  unfold World.insertDataChannel
  rw [KeyedSet.find?_eq_none_iff_hasKey.mpr h]

/-- The track callback skips an id it knows, and otherwise registers a track with the msid of the description and
reserves its SSRCs; without an msid it traps. -/
theorem trackCallback_of_hasKey {dcid : Int} (description : Scalars) (ans : TrackAnswers)
    (h : w.peer.channels.hasKey dcid = true) : w.trackCallback S dcid description ans = some w := if_pos h

theorem trackCallback_of_fresh {dcid : Int} (description : Scalars) (ans : TrackAnswers)
    (h : w.peer.channels.hasKey dcid = false) :
    w.trackCallback S dcid description ans = (msidOfLines (sdpLines S description)).map fun msid =>
      let w' := w.register (.track (w.newTrack dcid msid.streamId msid.trackId ans))
      { w' with peer := { w'.peer with sa := w'.peer.sa.reserveAll ans.ssrcs } } := by
  unfold World.trackCallback
  rw [if_neg (by simp [h]), getMsid_eq]
  cases msidOfLines (sdpLines S description) <;> rfl

/-- The callback returns for a known id, and otherwise when the description has an msid. -/
theorem trackCallback_isSome_iff {dcid : Int} (description : Scalars) (ans : TrackAnswers) :
    (w.trackCallback S dcid description ans).isSome ↔
      w.peer.channels.hasKey dcid = true ∨ HasMsid (sdpLines S description) := by
  cases hkey : w.peer.channels.hasKey dcid with
  | true =>
    rw [trackCallback_of_hasKey description ans hkey]
    exact ⟨fun _ => Or.inl rfl, fun _ => rfl⟩
  | false =>
    rw [trackCallback_of_fresh description ans hkey, Option.isSome_map, msidOfLines_isSome]
    exact ⟨Or.inr, fun h => h.resolve_left Bool.false_ne_true⟩

theorem dataChannelCallback_of_hasKey {dcid : Int} (ans : DataChannelAnswers)
    (h : w.peer.channels.hasKey dcid = true) : w.dataChannelCallback dcid ans = w := if_pos h

theorem dataChannelCallback_of_fresh {dcid : Int} (ans : DataChannelAnswers)
    (h : w.peer.channels.hasKey dcid = false) :
    w.dataChannelCallback dcid ans = w.register (.dataChannel (w.newDataChannel dcid ans)) := if_neg (by simp [h])

theorem createDataChannelCall_of_neg (a : DataChannelArgs) {code : Int} (h : code < 0) :
    w.createDataChannelCall a code =
      (.error (Error.fromInt32 code), { w with rtc := w.rtc.createDataChannel a.dataChannelInit code }) := by
  unfold World.createDataChannelCall
  rw [Error.orValue_of_neg h]

theorem createDataChannelCall_of_nonneg (a : DataChannelArgs) {code : Int} (h : 0 ≤ code) :
    w.createDataChannelCall a code =
      (.ok code, { w with rtc := w.rtc.createDataChannel a.dataChannelInit code }) := by
  unfold World.createDataChannelCall
  rw [Error.orValue_of_nonneg h]

end Cases

/-- The effects of one step, each with the guard that leads to it. -/
inductive Effect (S : Segmentation) (w : World) : Event → World → Prop
  | createDataChannelFailed (a : DataChannelArgs) (code : Int) (failed : code < 0) :
    Effect S w (.createDataChannel a code) { w with rtc := w.rtc.createDataChannel a.dataChannelInit code }
  | createDataChannel (a : DataChannelArgs) (code : Int) (ok : 0 ≤ code) :
    Effect S w (.createDataChannel a code)
      { w with rtc := w.rtc.createDataChannel a.dataChannelInit code, pendingData := w.pendingData ++ [code] }
  | noDataChannel (k : Nat) (ans : DataChannelAnswers) : Effect S w (.insertDataChannel k ans) w
  | existingDataChannel (k : Nat) (ans : DataChannelAnswers) (d : DataChannel)
    (found : w.peer.dataChannels.find? d.id = some d) :
    Effect S w (.insertDataChannel k ans) { w with pendingData := w.pendingData.eraseIdx k }
  | newDataChannel (k : Nat) (ans : DataChannelAnswers) (id : Int) (called : id ∈ w.pendingData)
    (fresh : w.peer.dataChannels.hasKey id = false) :
    Effect S w (.insertDataChannel k ans)
      { w.register (.dataChannel (w.newDataChannel id ans)) with pendingData := w.pendingData.eraseIdx k }
  | noPayloadType (a : TrackArgs) (draws : List Draw) (code : Int) : Effect S w (.createTrack a draws code) w
  | addTrackFailed (a : TrackArgs) (draws : List Draw) (code pt : Int) (pat : PayloadTypeAllocator) (ssrc : UInt32)
    (sa : SsrcAllocator) (payloadType : w.peer.pat.payloadType S a.key = .ok (pt, pat))
    (allocated : w.peer.sa.actualSsrc a.ssrc draws = some (ssrc, sa)) (failed : code < 0) :
    Effect S w (.createTrack a draws code)
      { w with peer := { w.peer with pat := pat, sa := sa }, rtc := w.rtc.addTrack (a.trackInit pt ssrc) code }
  | addTrack (a : TrackArgs) (draws : List Draw) (code pt : Int) (pat : PayloadTypeAllocator) (ssrc : UInt32)
    (sa : SsrcAllocator) (payloadType : w.peer.pat.payloadType S a.key = .ok (pt, pat))
    (allocated : w.peer.sa.actualSsrc a.ssrc draws = some (ssrc, sa)) (ok : 0 ≤ code) :
    Effect S w (.createTrack a draws code)
      { w with
        peer := { w.peer with pat := pat, sa := sa }
        rtc := w.rtc.addTrack (a.trackInit pt ssrc) code
        pendingTracks := w.pendingTracks ++
          [{ id := code, streamId := a.streamId, trackId := a.trackId, actualSsrc := ssrc }] }
  | noTrack (k : Nat) (ans : TrackAnswers) : Effect S w (.insertTrack k ans) w
  | existingTrack (k : Nat) (ans : TrackAnswers) (t : Track) (found : w.peer.tracks.find? t.id = some t) :
    Effect S w (.insertTrack k ans) { w with pendingTracks := w.pendingTracks.eraseIdx k }
  | newTrack (k : Nat) (ans : TrackAnswers) (f : PendingTrack) (called : w.pendingTracks[k]? = some f)
    (fresh : w.peer.tracks.hasKey f.id = false) :
    Effect S w (.insertTrack k ans)
      { w.register (.track (w.newTrack f.id f.streamId f.trackId ans)) with
        pendingTracks := w.pendingTracks.eraseIdx k }
  | knownDataChannel (dcid : Int) (ans : DataChannelAnswers) (known : w.peer.channels.hasKey dcid = true) :
    Effect S w (.dataChannelCallback dcid ans) w
  | remoteDataChannel (dcid : Int) (ans : DataChannelAnswers) (fresh : w.peer.channels.hasKey dcid = false) :
    Effect S w (.dataChannelCallback dcid ans) (w.register (.dataChannel (w.newDataChannel dcid ans)))
  | knownTrack (dcid : Int) (description : Scalars) (ans : TrackAnswers)
    (known : w.peer.channels.hasKey dcid = true) :
    Effect S w (.trackCallback dcid description ans)
      { w with rtc := { w.rtc with announced := w.rtc.announced.filter fun p => p.1 ≠ dcid } }
  | remoteTrack (dcid : Int) (description : Scalars) (ans : TrackAnswers) (msid : Msid)
    (fresh : w.peer.channels.hasKey dcid = false) (parsed : msidOfLines (sdpLines S description) = some msid) :
    Effect S w (.trackCallback dcid description ans)
      { w.register (.track (w.newTrack dcid msid.streamId msid.trackId ans)) with
        peer := { (w.register (.track (w.newTrack dcid msid.streamId msid.trackId ans))).peer with
          sa := w.peer.sa.reserveAll ans.ssrcs }
        rtc := { w.rtc with announced := w.rtc.announced.filter fun p => p.1 ≠ dcid } }
  | noObject (ref : Nat) : Effect S w (.close ref) w
  | close (ref : Nat) (c : Channel) (object : w.heap.objects[ref]? = some c) :
    Effect S w (.close ref) { w with peer := { w.peer with toRegistry := w.peer.toRegistry.close c } }
  | channelCallback (id : Int) (cb : ChannelCallback) (ref : Nat) (s : ChannelState) :
    Effect S w (.channelCallback id cb)
      { w with heap := { w.heap with state := Function.update w.heap.state ref s } }
  | setRemoteFailed (secs : List Section) (ids : List Int) (code : Int) (failed : code < 0) :
    Effect S w (.setRemote secs ids code) w
  | setRemote (secs : List Section) (ids : List Int) (code : Int) (ok : 0 ≤ code) :
    Effect S w (.setRemote secs ids code) { w with rtc := w.rtc.setRemote secs ids }

/-- A step does nothing but these effects. -/
theorem step_effect {S : Segmentation} {w w' : World} {e : Event} (h : step S w e = some w') : Effect S w e w' := by
  cases e with
  | createDataChannel a code =>
    rcases lt_or_ge code 0 with hc | hc
    · rw [step, createDataChannelCall_of_neg a hc, Option.some.injEq] at h
      subst h
      exact .createDataChannelFailed a code hc
    · rw [step, createDataChannelCall_of_nonneg a hc, Option.some.injEq] at h
      subst h
      exact .createDataChannel a code hc
  | insertDataChannel k ans =>
    rw [step] at h
    split at h
    · rw [Option.some.injEq] at h
      subst h
      exact .noDataChannel k ans
    · next id hid =>
      rw [Option.some.injEq] at h
      subst h
      cases hf : w.peer.dataChannels.find? id with
      | some d =>
        obtain ⟨-, rfl⟩ := KeyedSet.find?_eq_some.mp hf
        rw [insertDataChannel_of_find? ans hf]
        exact .existingDataChannel k ans d hf
      | none =>
        have hf' := KeyedSet.find?_eq_none_iff_hasKey.mp hf
        rw [insertDataChannel_of_fresh ans hf']
        exact .newDataChannel k ans id (List.mem_of_getElem? hid) hf'
  | createTrack a draws code =>
    rw [step] at h
    cases hcall : w.createTrackCall S a draws code with
    | none =>
      rw [hcall] at h
      cases h
    | some p =>
      obtain ⟨r, w₁⟩ := p
      rw [hcall] at h
      obtain ⟨-, ⟨e, -, rfl, rfl⟩ | ⟨pt, pat, ssrc, sa, hp, hs, rfl, ⟨hc, rfl⟩ | ⟨hc, rfl⟩⟩⟩ :=
        createTrackCall_cases hcall
      · cases h
        exact .noPayloadType a draws code
      · cases h
        exact .addTrackFailed a draws code pt pat ssrc sa hp hs hc
      · cases h
        exact .addTrack a draws code pt pat ssrc sa hp hs hc
  | insertTrack k ans =>
    rw [step] at h
    split at h
    · rw [Option.some.injEq] at h
      subst h
      exact .noTrack k ans
    · next f hid =>
      rw [Option.some.injEq] at h
      subst h
      cases hf : w.peer.tracks.find? f.id with
      | some t =>
        rw [insertTrack_of_find? ans hf]
        rw [← (KeyedSet.find?_eq_some.mp hf).2] at hf
        exact .existingTrack k ans t hf
      | none =>
        have hf' := KeyedSet.find?_eq_none_iff_hasKey.mp hf
        rw [insertTrack_of_fresh ans hf']
        exact .newTrack k ans f hid hf'
  | dataChannelCallback dcid ans =>
    rw [step, Option.some.injEq] at h
    subst h
    cases hf : w.peer.channels.hasKey dcid with
    | true =>
      rw [dataChannelCallback_of_hasKey ans hf]
      exact .knownDataChannel dcid ans hf
    | false =>
      rw [dataChannelCallback_of_fresh ans hf]
      exact .remoteDataChannel dcid ans hf
  | trackCallback dcid description ans =>
    obtain ⟨w₁, hw, rfl⟩ := Option.map_eq_some_iff.mp h
    cases hf : w.peer.channels.hasKey dcid with
    | true =>
      rw [trackCallback_of_hasKey description ans hf, Option.some.injEq] at hw
      subst hw
      exact .knownTrack dcid description ans hf
    | false =>
      rw [trackCallback_of_fresh description ans hf, Option.map_eq_some_iff] at hw
      obtain ⟨msid, hm, rfl⟩ := hw
      exact .remoteTrack dcid description ans msid hf hm
  | close ref =>
    rw [step, Option.some.injEq, World.close] at h
    subst h
    split
    · exact .noObject ref
    · next c hc => exact .close ref c hc
  | channelCallback id cb =>
    rw [step, World.channelCallback] at h
    split at h
    · cases h
    · next ref _ =>
      obtain ⟨s, -, rfl⟩ := Option.map_eq_some_iff.mp h
      exact .channelCallback id cb ref s
  | setRemote secs ids code =>
    rw [step, Option.some.injEq, World.setRemote] at h
    subst h
    rcases lt_or_ge code 0 with hc | hc
    · rw [Error.orValue_of_neg hc]
      exact .setRemoteFailed secs ids code hc
    · rw [Error.orValue_of_nonneg hc]
      exact .setRemote secs ids code hc

end AlloDataChannel

import AlloDataChannel.Peer

/-!
# The registry of a peer

The three published sets are one partial map from ids to objects (`Registry.lookup`), seen three ways. The ids of the C
library belong to one kind of channel each (`UniqueIds`).

* `Coherent kind r` : `channels` is the union of the other two sets, and each id has the kind of its object;
* `Inv kind w` : the registry is coherent, registered objects are on the heap, pending ids have their kind;
* `Registry.lookup_insert`, `Registry.lookup_close`, `Inv.mapStep` : every step of the peer is a step of the map;
* `Inv.step`, `inv_of_run` : the invariant along every run;
* `registry_invariant` : the registry in every reachable world.
-/

namespace AlloDataChannel
open Lib (Scalars Segmentation KeyedSet Run)

inductive ChannelKind
  | dataChannel
  | track
  deriving DecidableEq, Repr

def Channel.kind : Channel → ChannelKind
  | .dataChannel _ => .dataChannel
  | .track _ => .track

/-! ## The registry as a partial map -/

/-- The object registered for an id. -/
def Registry.lookup (r : Registry) (id : Int) : Option Channel := r.channels.find? id

theorem Registry.lookup_eq_some {r : Registry} {id : Int} {c : Channel} :
    r.lookup id = some c ↔ c ∈ r.channels ∧ c.id = id := KeyedSet.find?_eq_some

theorem Registry.mem_insert_channels {r : Registry} {c c' : Channel} (hf : r.channels.hasKey c.id = false) :
    c' ∈ (r.insert c).channels ↔ c' ∈ r.channels ∨ c' = c := by
  rw [← KeyedSet.mem_insert_of_fresh hf]
  cases c <;> rfl

theorem Registry.mem_close_channels {r : Registry} {c c' : Channel} :
    c' ∈ (r.close c).channels ↔ c' ∈ r.channels ∧ c'.id ≠ c.id := by
  cases c <;> exact KeyedSet.mem_remove

/-- The tracks after an insertion. -/
theorem Registry.mem_insert_tracks {r : Registry} {c : Channel} {t : Track} (h : t ∈ (r.insert c).tracks) :
    t ∈ r.tracks ∨ .track t = c := by
  cases c with
  | dataChannel d => exact Or.inl h
  | track t' =>
    rcases KeyedSet.mem_insert.mp h with h | ⟨rfl, -⟩
    · exact Or.inl h
    · exact Or.inr rfl

theorem Registry.mem_close_tracks {r : Registry} {c : Channel} {t : Track} (h : t ∈ (r.close c).tracks) :
    t ∈ r.tracks := by
  cases c with
  | dataChannel d => exact h
  | track t' => exact (KeyedSet.mem_remove.mp h).1

/-- The three sets agree, and every id is of the kind of its object. -/
structure Coherent (kind : Int → ChannelKind) (r : Registry) : Prop where
  union : ∀ c, c ∈ r.channels ↔ (∃ d ∈ r.dataChannels, c = .dataChannel d) ∨ ∃ t ∈ r.tracks, c = .track t
  kinds : ∀ c ∈ r.channels, kind c.id = c.kind

namespace Coherent
variable {kind : Int → ChannelKind} {r : Registry}

theorem empty (kind : Int → ChannelKind) : Coherent kind {} :=
  ⟨fun c => by simp, fun c hc => absurd hc (KeyedSet.not_mem_empty c)⟩

theorem track_mem (h : Coherent kind r) {t : Track} : .track t ∈ r.channels ↔ t ∈ r.tracks := by
  rw [h.union]
  constructor
  · rintro (⟨d, -, hd⟩ | ⟨t', ht, he⟩)
    · cases hd
    · cases he
      exact ht
  · intro ht
    exact Or.inr ⟨t, ht, rfl⟩

theorem dataChannel_mem (h : Coherent kind r) {d : DataChannel} : .dataChannel d ∈ r.channels ↔ d ∈ r.dataChannels := by
  rw [h.union]
  constructor
  · rintro (⟨d', hd, he⟩ | ⟨t, -, ht⟩)
    · cases he
      exact hd
    · cases ht
  · intro hd
    exact Or.inl ⟨d, hd, rfl⟩

theorem kind_track (h : Coherent kind r) {t : Track} (ht : t ∈ r.tracks) : kind t.id = .track :=
  h.kinds (.track t) (h.track_mem.mpr ht)

theorem kind_dataChannel (h : Coherent kind r) {d : DataChannel} (hd : d ∈ r.dataChannels) :
    kind d.id = .dataChannel := h.kinds (.dataChannel d) (h.dataChannel_mem.mpr hd)

theorem disjoint (h : Coherent kind r) {d : DataChannel} {t : Track} (hd : d ∈ r.dataChannels) (ht : t ∈ r.tracks) :
    d.id ≠ t.id := by
  intro he
  have h1 := h.kind_dataChannel hd
  rw [he, h.kind_track ht] at h1
  cases h1

/-- For a track id, `channels` and `tracks` know the same objects. -/
theorem hasKey_tracks (h : Coherent kind r) {id : Int} (hk : kind id = .track) :
    r.tracks.hasKey id = r.channels.hasKey id := by
  rw [Bool.eq_iff_iff, KeyedSet.hasKey_iff, KeyedSet.hasKey_iff]
  constructor
  · rintro ⟨t, ht, rfl⟩
    exact ⟨.track t, h.track_mem.mpr ht, rfl⟩
  · rintro ⟨c, hc, rfl⟩
    rcases (h.union c).mp hc with ⟨d, hd, rfl⟩ | ⟨t, ht, rfl⟩
    · have hd' := h.kind_dataChannel hd
      rw [Channel.id_dataChannel, hd'] at hk
      cases hk
    · exact ⟨t, ht, rfl⟩

theorem hasKey_dataChannels (h : Coherent kind r) {id : Int} (hk : kind id = .dataChannel) :
    r.dataChannels.hasKey id = r.channels.hasKey id := by
  rw [Bool.eq_iff_iff, KeyedSet.hasKey_iff, KeyedSet.hasKey_iff]
  constructor
  · rintro ⟨d, hd, rfl⟩
    exact ⟨.dataChannel d, h.dataChannel_mem.mpr hd, rfl⟩
  · rintro ⟨c, hc, rfl⟩
    rcases (h.union c).mp hc with ⟨d, hd, rfl⟩ | ⟨t, ht, rfl⟩
    · exact ⟨d, hd, rfl⟩
    · have ht' := h.kind_track ht
      rw [Channel.id_track, ht'] at hk
      cases hk

/-- A new object of the kind of its id. -/
theorem insert (h : Coherent kind r) {c : Channel} (hk : kind c.id = c.kind) (hf : r.channels.hasKey c.id = false) :
    Coherent kind (r.insert c) := by
  refine ⟨fun c' => ?_, fun c' hc' => ?_⟩
  · rw [Registry.mem_insert_channels hf, h.union]
    cases c with
    | dataChannel d =>
      have hfd : r.dataChannels.hasKey d.id = false := (h.hasKey_dataChannels hk).trans hf
      simp only [Registry.insert, KeyedSet.mem_insert_of_fresh hfd]
      constructor
      · rintro ((⟨d', hd', rfl⟩ | ht) | rfl)
        · exact Or.inl ⟨d', Or.inl hd', rfl⟩
        · exact Or.inr ht
        · exact Or.inl ⟨d, Or.inr rfl, rfl⟩
      · rintro (⟨d', hd' | rfl, rfl⟩ | ht)
        · exact Or.inl (Or.inl ⟨d', hd', rfl⟩)
        · exact Or.inr rfl
        · exact Or.inl (Or.inr ht)
    | track t =>
      have hft : r.tracks.hasKey t.id = false := (h.hasKey_tracks hk).trans hf
      simp only [Registry.insert, KeyedSet.mem_insert_of_fresh hft]
      constructor
      · rintro ((hd | ⟨t', ht', rfl⟩) | rfl)
        · exact Or.inl hd
        · exact Or.inr ⟨t', Or.inl ht', rfl⟩
        · exact Or.inr ⟨t, Or.inr rfl, rfl⟩
      · rintro (hd | ⟨t', ht' | rfl, rfl⟩)
        · exact Or.inl (Or.inl hd)
        · exact Or.inl (Or.inr ⟨t', ht', rfl⟩)
        · exact Or.inr rfl
  · rcases (Registry.mem_insert_channels hf).mp hc' with hc' | rfl
    · exact h.kinds c' hc'
    · exact hk

/-- Closing removes the id from `channels` and the set of the object's kind; the other set does not have it. -/
theorem close (h : Coherent kind r) {c : Channel} (hk : kind c.id = c.kind) : Coherent kind (r.close c) := by
  refine ⟨fun c' => ?_, fun c' hc' => h.kinds c' (Registry.mem_close_channels.mp hc').1⟩
  rw [Registry.mem_close_channels, h.union]
  cases c with
  | dataChannel d =>
    have hne : ∀ t ∈ r.tracks, t.id ≠ d.id := by
      intro t ht he
      rw [Channel.id_dataChannel, ← he, h.kind_track ht] at hk
      cases hk
    simp only [Registry.close, Registry.closeChannel, KeyedSet.mem_remove]
    constructor
    · rintro ⟨⟨d', hd', rfl⟩ | ht, hid⟩
      · exact Or.inl ⟨d', ⟨hd', hid⟩, rfl⟩
      · exact Or.inr ht
    · rintro (⟨d', ⟨hd', hid⟩, rfl⟩ | ⟨t, ht, rfl⟩)
      · exact ⟨Or.inl ⟨d', hd', rfl⟩, hid⟩
      · exact ⟨Or.inr ⟨t, ht, rfl⟩, hne t ht⟩
  | track t =>
    have hne : ∀ d ∈ r.dataChannels, d.id ≠ t.id := by
      intro d hd he
      rw [Channel.id_track, ← he, h.kind_dataChannel hd] at hk
      cases hk
    simp only [Registry.close, Registry.closeChannel, KeyedSet.mem_remove]
    constructor
    · rintro ⟨hd | ⟨t', ht', rfl⟩, hid⟩
      · exact Or.inl hd
      · exact Or.inr ⟨t', ⟨ht', hid⟩, rfl⟩
    · rintro (⟨d, hd, rfl⟩ | ⟨t', ⟨ht', hid⟩, rfl⟩)
      · exact ⟨Or.inl ⟨d, hd, rfl⟩, hne d hd⟩
      · exact ⟨Or.inr ⟨t', ht', rfl⟩, hid⟩

end Coherent

/-- Inserting is an update of the map. -/
theorem Registry.lookup_insert {r : Registry} {c : Channel} (hf : r.channels.hasKey c.id = false) :
    (r.insert c).lookup = Function.update r.lookup c.id (some c) := by
  funext id
  apply Option.ext
  intro c'
  rw [Registry.lookup_eq_some, Registry.mem_insert_channels hf]
  rcases eq_or_ne id c.id with rfl | hne
  · rw [Function.update_self, Option.some.injEq]
    constructor
    · rintro ⟨hc' | rfl, hid⟩
      · exact absurd hid (KeyedSet.hasKey_eq_false_iff.mp hf c' hc')
      · rfl
    · rintro rfl
      exact ⟨Or.inr rfl, rfl⟩
  · rw [Function.update_of_ne hne, Registry.lookup_eq_some]
    constructor
    · rintro ⟨hc' | rfl, hid⟩
      · exact ⟨hc', hid⟩
      · exact absurd hid.symm hne
    · rintro ⟨hc', hid⟩
      exact ⟨Or.inl hc', hid⟩

/-- Closing is an update of the map, for every object ever built and not only for registered ones. -/
theorem Registry.lookup_close (r : Registry) (c : Channel) :
    (r.close c).lookup = Function.update r.lookup c.id none := by
  funext id
  apply Option.ext
  intro c'
  rw [Registry.lookup_eq_some, Registry.mem_close_channels]
  rcases eq_or_ne id c.id with rfl | hne
  · rw [Function.update_self]
    constructor
    · rintro ⟨⟨-, h1⟩, h2⟩
      exact absurd h2 h1
    · intro h
      cases h
  · rw [Function.update_of_ne hne, Registry.lookup_eq_some]
    constructor
    · rintro ⟨⟨hc', -⟩, hid⟩
      exact ⟨hc', hid⟩
    · rintro ⟨hc', hid⟩
      exact ⟨⟨hc', fun he => hne (hid.symm.trans he)⟩, hid⟩

/-! ## The invariant of the world -/

/-- The ids of the C library are unique: each one is of one kind, whoever returns or announces it. -/
def UniqueIds (kind : Int → ChannelKind) (_ : World) : Event → Prop
  | .createDataChannel _ code => 0 ≤ code → kind code = .dataChannel
  | .createTrack _ _ code => 0 ≤ code → kind code = .track
  | .dataChannelCallback dcid _ => kind dcid = .dataChannel
  | .trackCallback dcid _ _ => kind dcid = .track
  | _ => True

structure Inv (kind : Int → ChannelKind) (w : World) : Prop where
  coherent : Coherent kind w.peer.toRegistry
  objects : ∀ c ∈ w.heap.objects, kind c.id = c.kind
  registered : ∀ c ∈ w.peer.channels, w.heap.objects[c.ref]? = some c
  pendingData : ∀ id ∈ w.pendingData, kind id = .dataChannel
  pendingTracks : ∀ f ∈ w.pendingTracks, kind f.id = .track

namespace Inv
variable {kind : Int → ChannelKind} {w w' : World}

theorem start (kind : Int → ChannelKind) (o : Option IPOverride) : Inv kind (.start o) where
  coherent := Coherent.empty kind
  objects _ hc := absurd hc List.not_mem_nil
  registered c hc := absurd hc (KeyedSet.not_mem_empty c)
  pendingData _ hid := absurd hid List.not_mem_nil
  pendingTracks _ hf := absurd hf List.not_mem_nil

/-- The invariant reads the registry, the objects and the pending calls only. -/
theorem congr (h : Inv kind w) (hr : w'.peer.toRegistry = w.peer.toRegistry)
    (ho : w'.heap.objects = w.heap.objects) (hd : ∀ id ∈ w'.pendingData, kind id = .dataChannel)
    (ht : ∀ f ∈ w'.pendingTracks, kind f.id = .track) : Inv kind w' where
  coherent := by rw [hr]; exact h.coherent
  objects := by rw [ho]; exact h.objects
  registered := by rw [ho, hr]; exact h.registered
  pendingData := hd
  pendingTracks := ht

theorem register (h : Inv kind w) {c : Channel} (hk : kind c.id = c.kind) (href : c.ref = w.heap.objects.length)
    (hf : w.peer.channels.hasKey c.id = false) : Inv kind (w.register c) where
  coherent := h.coherent.insert hk hf
  objects c' hc' := by
    rcases List.mem_append.mp hc' with hc' | hc'
    · exact h.objects c' hc'
    · rw [List.mem_singleton.mp hc']
      exact hk
  registered c' hc' := by
    show (w.heap.objects ++ [c])[c'.ref]? = some c'
    rcases (Registry.mem_insert_channels hf).mp hc' with hc' | rfl
    · have hold := h.registered c' hc'
      rw [List.getElem?_append_left (List.getElem?_eq_some_iff.mp hold).1, hold]
    · rw [href, List.getElem?_concat_length]
  pendingData := h.pendingData
  pendingTracks := h.pendingTracks

theorem insertTrack (h : Inv kind w) {f : PendingTrack} (hk : kind f.id = .track) (ans : TrackAnswers) :
    Inv kind (w.insertTrack f ans).2 := by
  cases hf : w.peer.tracks.find? f.id with
  | some t =>
    rw [insertTrack_of_find? ans hf]
    exact h
  | none =>
    have hf' := KeyedSet.find?_eq_none_iff_hasKey.mp hf
    rw [insertTrack_of_fresh ans hf']
    exact h.register hk rfl ((h.coherent.hasKey_tracks hk).symm.trans hf')

theorem insertDataChannel (h : Inv kind w) {id : Int} (hk : kind id = .dataChannel) (ans : DataChannelAnswers) :
    Inv kind (w.insertDataChannel id ans).2 := by
  cases hf : w.peer.dataChannels.find? id with
  | some d =>
    rw [insertDataChannel_of_find? ans hf]
    exact h
  | none =>
    have hf' := KeyedSet.find?_eq_none_iff_hasKey.mp hf
    rw [insertDataChannel_of_fresh ans hf']
    exact h.register hk rfl ((h.coherent.hasKey_dataChannels hk).symm.trans hf')

theorem dataChannelCallback (h : Inv kind w) {dcid : Int} (hk : kind dcid = .dataChannel)
    (ans : DataChannelAnswers) : Inv kind (w.dataChannelCallback dcid ans) := by
  cases hf : w.peer.channels.hasKey dcid with
  | true =>
    rw [dataChannelCallback_of_hasKey ans hf]
    exact h
  | false =>
    rw [dataChannelCallback_of_fresh ans hf]
    exact h.register hk rfl hf

theorem trackCallback {S : Segmentation} (h : Inv kind w) {dcid : Int} (hk : kind dcid = .track)
    {description : Scalars} {ans : TrackAnswers} (hw : w.trackCallback S dcid description ans = some w') :
    Inv kind w' := by
  cases hf : w.peer.channels.hasKey dcid with
  | true =>
    rw [trackCallback_of_hasKey description ans hf, Option.some.injEq] at hw
    exact hw ▸ h
  | false =>
    rw [trackCallback_of_fresh description ans hf, Option.map_eq_some_iff] at hw
    obtain ⟨msid, -, rfl⟩ := hw
    have hreg : Inv kind (w.register (.track (w.newTrack dcid msid.streamId msid.trackId ans))) :=
      h.register hk rfl hf
    exact hreg.congr rfl rfl hreg.pendingData hreg.pendingTracks

theorem closeObject (h : Inv kind w) {c : Channel} (hk : kind c.id = c.kind) :
    Inv kind { w with peer := { w.peer with toRegistry := w.peer.toRegistry.close c } } where
  coherent := h.coherent.close hk
  objects := h.objects
  registered c' hc' := h.registered c' (Registry.mem_close_channels.mp hc').1
  pendingData := h.pendingData
  pendingTracks := h.pendingTracks

theorem close (h : Inv kind w) (ref : Nat) : Inv kind (w.close ref) := by
  unfold World.close
  split
  · exact h
  · next c hc => exact h.closeObject (h.objects c (List.mem_of_getElem? hc))

/-- **One step keeps the invariant**, whatever it is. -/
theorem step {S : Segmentation} {e : Event} (h : Inv kind w) (henv : UniqueIds kind w e)
    (hs : AlloDataChannel.step S w e = some w') : Inv kind w' := by
  cases step_effect hs with
  | createDataChannelFailed a code failed => exact h.congr rfl rfl h.pendingData h.pendingTracks
  | createDataChannel a code ok =>
    refine h.congr rfl rfl (fun id hid => ?_) h.pendingTracks
    rcases List.mem_append.mp hid with hid | hid
    · exact h.pendingData id hid
    · rw [List.mem_singleton.mp hid]
      exact henv ok
  | noDataChannel k ans => exact h
  | existingDataChannel k ans d found =>
    exact h.congr rfl rfl (fun id hid => h.pendingData id (List.mem_of_mem_eraseIdx hid)) h.pendingTracks
  | newDataChannel k ans id called fresh =>
    have hk := h.pendingData id called
    have h' := h.register (c := .dataChannel (w.newDataChannel id ans)) hk rfl
      ((h.coherent.hasKey_dataChannels hk).symm.trans fresh)
    exact h'.congr rfl rfl (fun id hid => h.pendingData id (List.mem_of_mem_eraseIdx hid)) h'.pendingTracks
  | noPayloadType a draws code => exact h
  | addTrackFailed a draws code pt pat ssrc sa payloadType allocated failed =>
    exact h.congr rfl rfl h.pendingData h.pendingTracks
  | addTrack a draws code pt pat ssrc sa payloadType allocated ok =>
    refine h.congr rfl rfl h.pendingData fun f hf => ?_
    rcases List.mem_append.mp hf with hf | hf
    · exact h.pendingTracks f hf
    · rw [List.mem_singleton.mp hf]
      exact henv ok
  | noTrack k ans => exact h
  | existingTrack k ans t found =>
    exact h.congr rfl rfl h.pendingData fun f hf => h.pendingTracks f (List.mem_of_mem_eraseIdx hf)
  | newTrack k ans f called fresh =>
    have hk := h.pendingTracks f (List.mem_of_getElem? called)
    have h' := h.register (c := .track (w.newTrack f.id f.streamId f.trackId ans)) hk rfl
      ((h.coherent.hasKey_tracks hk).symm.trans fresh)
    exact h'.congr rfl rfl h'.pendingData fun f hf => h.pendingTracks f (List.mem_of_mem_eraseIdx hf)
  | knownDataChannel dcid ans known => exact h
  | remoteDataChannel dcid ans fresh => exact h.register henv rfl fresh
  | knownTrack dcid description ans known => exact h.congr rfl rfl h.pendingData h.pendingTracks
  | remoteTrack dcid description ans msid fresh parsed =>
    have h' := h.register (c := .track (w.newTrack dcid msid.streamId msid.trackId ans)) henv rfl fresh
    exact h'.congr rfl rfl h'.pendingData h'.pendingTracks
  | noObject ref => exact h
  | close ref c object => exact h.closeObject (h.objects c (List.mem_of_getElem? object))
  | channelCallback id cb ref s => exact h.congr rfl rfl h.pendingData h.pendingTracks
  | setRemoteFailed secs ids code failed => exact h
  | setRemote secs ids code ok => exact h.congr rfl rfl h.pendingData h.pendingTracks

end Inv

/-- The registry as a map of its own: a step leaves it as it is, adds an object under a free id or clears an id. -/
inductive MapStep (m : Int → Option Channel) : (Int → Option Channel) → Prop
  | same : MapStep m m
  | add (c : Channel) (free : m c.id = none) : MapStep m (Function.update m c.id (some c))
  | clear (id : Int) : MapStep m (Function.update m id none)

theorem MapStep.register {r : Registry} {c : Channel} (hf : r.channels.hasKey c.id = false) :
    MapStep r.lookup (r.insert c).lookup := by
  rw [Registry.lookup_insert hf]
  exact .add c (KeyedSet.find?_eq_none_iff_hasKey.mpr hf)

/-- Every step of the peer is a step of the map. -/
theorem Inv.mapStep {S : Segmentation} {kind : Int → ChannelKind} {w w' : World} {e : Event} (h : Inv kind w)
    (hs : AlloDataChannel.step S w e = some w') : MapStep w.peer.lookup w'.peer.lookup := by
  cases step_effect hs with
  | newDataChannel k ans id called fresh =>
    exact MapStep.register (c := .dataChannel (w.newDataChannel id ans))
      ((h.coherent.hasKey_dataChannels (h.pendingData id called)).symm.trans fresh)
  | newTrack k ans f called fresh =>
    have hk := h.pendingTracks f (List.mem_of_getElem? called)
    exact MapStep.register (c := .track (w.newTrack f.id f.streamId f.trackId ans))
      ((h.coherent.hasKey_tracks hk).symm.trans fresh)
  | remoteDataChannel dcid ans fresh =>
    exact MapStep.register (c := .dataChannel (w.newDataChannel dcid ans)) fresh
  | remoteTrack dcid description ans msid fresh parsed =>
    exact MapStep.register (c := .track (w.newTrack dcid msid.streamId msid.trackId ans)) fresh
  | close ref c object =>
    show MapStep w.peer.lookup (w.peer.toRegistry.close c).lookup
    rw [Registry.lookup_close]
    exact .clear c.id
  | _ => exact .same

theorem Inv.run {S : Segmentation} {kind : Int → ChannelKind} {es : List Event} {w w' : World} (h : Inv kind w)
    (hrun : Run (AlloDataChannel.step S) (UniqueIds kind) w es w') : Inv kind w' :=
  hrun.invariant (fun _ _ _ hi henv hs => hi.step henv hs) h

theorem inv_of_run {S : Segmentation} {kind : Int → ChannelKind} {o : Option IPOverride} {es : List Event} {w : World}
    (h : Run (step S) (UniqueIds kind) (.start o) es w) : Inv kind w :=
  (Inv.start kind o).run h

/-! ## The registry in every reachable world -/

/-- `c` is the one object registered for its id, in `channels` and in the set of its kind. -/
structure Registry.Sole (r : Registry) (c : Channel) : Prop where
  channels : ∀ c', c' ∈ r.channels ∧ c'.id = c.id ↔ c' = c
  dataChannels : ∀ d, d ∈ r.dataChannels ∧ d.id = c.id ↔ .dataChannel d = c
  tracks : ∀ t, t ∈ r.tracks ∧ t.id = c.id ↔ .track t = c

theorem Coherent.sole {kind : Int → ChannelKind} {r : Registry} (h : Coherent kind r) {c : Channel}
    (hc : c ∈ r.channels) : r.Sole c := by
  have hone : ∀ c', c' ∈ r.channels ∧ c'.id = c.id ↔ c' = c := by
    intro c'
    constructor
    · rintro ⟨hc', hid⟩
      exact KeyedSet.eq_of_key hc' hc hid
    · rintro rfl
      exact ⟨hc, rfl⟩
  refine ⟨hone, fun d => ?_, fun t => ?_⟩
  · rw [← hone, h.dataChannel_mem, Channel.id_dataChannel]
  · rw [← hone, h.track_mem, Channel.id_track]

/-- An inserted object is registered. -/
theorem Registry.inserted {r : Registry} {c : Channel} (hf : r.channels.hasKey c.id = false) :
    c ∈ (r.insert c).channels := by
  have hl : (r.insert c).lookup c.id = some c := by
    rw [Registry.lookup_insert hf, Function.update_self]
  exact (Registry.lookup_eq_some.mp hl).1

theorem Registry.Sole.hasKey {r : Registry} {c : Channel} (h : r.Sole c) : r.channels.hasKey c.id = true :=
  KeyedSet.hasKey_iff.mpr ⟨c, ((h.channels c).mpr rfl).1, rfl⟩

/-- What holds of the registry of a world `w`, and of every step that registers or closes from there. -/
structure RegistryLaw (S : Segmentation) (kind : Int → ChannelKind) (w : World) : Prop where
  union : ∀ c, c ∈ w.peer.channels ↔
    (∃ d ∈ w.peer.dataChannels, c = .dataChannel d) ∨ ∃ t ∈ w.peer.tracks, c = .track t
  disjoint : ∀ d ∈ w.peer.dataChannels, ∀ t ∈ w.peer.tracks, d.id ≠ t.id
  unique : ∀ c ∈ w.peer.channels, ∀ c' ∈ w.peer.channels, c.id = c'.id → c = c'
  /-- A completed `createTrack` returns the one object registered for its id, the old one if there was one. -/
  createTrack : ∀ f ∈ w.pendingTracks, ∀ ans, (w.insertTrack f ans).1.id = f.id ∧
    (w.insertTrack f ans).2.peer.Sole (.track (w.insertTrack f ans).1) ∧
    (w.peer.channels.hasKey f.id = true → (w.insertTrack f ans).2 = w)
  createDataChannel : ∀ id ∈ w.pendingData, ∀ ans, (w.insertDataChannel id ans).1.id = id ∧
    (w.insertDataChannel id ans).2.peer.Sole (.dataChannel (w.insertDataChannel id ans).1) ∧
    (w.peer.channels.hasKey id = true → (w.insertDataChannel id ans).2 = w)
  /-- The callback returns when the description has an msid. -/
  trackCallback : ∀ dcid description ans, kind dcid = .track →
    (HasMsid (sdpLines S description) → (w.trackCallback S dcid description ans).isSome) ∧
    ∀ w', w.trackCallback S dcid description ans = some w' →
      (∃ t, t.id = dcid ∧ w'.peer.Sole (.track t)) ∧ (w.peer.channels.hasKey dcid = true → w' = w)
  dataChannelCallback : ∀ dcid ans, kind dcid = .dataChannel →
    (∃ d, d.id = dcid ∧ (w.dataChannelCallback dcid ans).peer.Sole (.dataChannel d)) ∧
    (w.peer.channels.hasKey dcid = true → w.dataChannelCallback dcid ans = w)
  /-- The insertion and the callback for one id, in either order: the second changes nothing. -/
  trackOrder : ∀ f ∈ w.pendingTracks, ∀ ans description ans',
    (w.insertTrack f ans).2.trackCallback S f.id description ans' = some (w.insertTrack f ans).2 ∧
    (HasMsid (sdpLines S description) → (w.trackCallback S f.id description ans').isSome) ∧
    ∀ w₁, w.trackCallback S f.id description ans' = some w₁ → (w₁.insertTrack f ans).2 = w₁ ∧
      w₁.peer.Sole (.track (w₁.insertTrack f ans).1)
  dataChannelOrder : ∀ id ∈ w.pendingData, ∀ ans ans',
    (w.insertDataChannel id ans).2.dataChannelCallback id ans' = (w.insertDataChannel id ans).2 ∧
    ((w.dataChannelCallback id ans').insertDataChannel id ans).2 = w.dataChannelCallback id ans' ∧
      (w.dataChannelCallback id ans').peer.Sole
        (.dataChannel ((w.dataChannelCallback id ans').insertDataChannel id ans).1)
  close : ∀ c ∈ w.peer.channels, (∀ c', c' ∈ (w.close c.ref).peer.channels ↔ c' ∈ w.peer.channels ∧ c'.id ≠ c.id) ∧
    (∀ d, d ∈ (w.close c.ref).peer.dataChannels ↔ d ∈ w.peer.dataChannels ∧ d.id ≠ c.id) ∧
    ∀ t, t ∈ (w.close c.ref).peer.tracks ↔ t ∈ w.peer.tracks ∧ t.id ≠ c.id
  /-- A step leaves the map from ids to objects as it is, adds an object under a free id, or clears an id. -/
  step : ∀ e w', AlloDataChannel.step S w e = some w' → MapStep w.peer.lookup w'.peer.lookup

namespace Inv
variable {kind : Int → ChannelKind} {w : World}

theorem insertTrack_sole (h : Inv kind w) {f : PendingTrack} (hk : kind f.id = .track) (ans : TrackAnswers) :
    (w.insertTrack f ans).1.id = f.id ∧ (w.insertTrack f ans).2.peer.Sole (.track (w.insertTrack f ans).1) ∧
      (w.peer.channels.hasKey f.id = true → (w.insertTrack f ans).2 = w) := by
  have h' := h.insertTrack hk ans
  cases hf : w.peer.tracks.find? f.id with
  | some t =>
    obtain ⟨ht, hid⟩ := KeyedSet.find?_eq_some.mp hf
    rw [insertTrack_of_find? ans hf] at h' ⊢
    exact ⟨hid, h.coherent.sole (h.coherent.track_mem.mpr ht), fun _ => rfl⟩
  | none =>
    have hf' := KeyedSet.find?_eq_none_iff_hasKey.mp hf
    have hfc := (h.coherent.hasKey_tracks hk).symm.trans hf'
    rw [insertTrack_of_fresh ans hf'] at h' ⊢
    refine ⟨rfl, h'.coherent.sole (Registry.inserted hfc), fun hkey => ?_⟩
    rw [hfc] at hkey
    cases hkey

theorem insertDataChannel_sole (h : Inv kind w) {id : Int} (hk : kind id = .dataChannel) (ans : DataChannelAnswers) :
    (w.insertDataChannel id ans).1.id = id ∧
      (w.insertDataChannel id ans).2.peer.Sole (.dataChannel (w.insertDataChannel id ans).1) ∧
      (w.peer.channels.hasKey id = true → (w.insertDataChannel id ans).2 = w) := by
  have h' := h.insertDataChannel hk ans
  cases hf : w.peer.dataChannels.find? id with
  | some d =>
    obtain ⟨hd, hid⟩ := KeyedSet.find?_eq_some.mp hf
    rw [insertDataChannel_of_find? ans hf] at h' ⊢
    exact ⟨hid, h.coherent.sole (h.coherent.dataChannel_mem.mpr hd), fun _ => rfl⟩
  | none =>
    have hf' := KeyedSet.find?_eq_none_iff_hasKey.mp hf
    have hfc := (h.coherent.hasKey_dataChannels hk).symm.trans hf'
    rw [insertDataChannel_of_fresh ans hf'] at h' ⊢
    refine ⟨rfl, h'.coherent.sole (Registry.inserted hfc), fun hkey => ?_⟩
    rw [hfc] at hkey
    cases hkey

theorem trackCallback_sole {S : Segmentation} (h : Inv kind w) {dcid : Int} (hk : kind dcid = .track)
    {description : Scalars} {ans : TrackAnswers} {w' : World}
    (hw : w.trackCallback S dcid description ans = some w') :
    (∃ t, t.id = dcid ∧ w'.peer.Sole (.track t)) ∧ (w.peer.channels.hasKey dcid = true → w' = w) := by
  have h' := h.trackCallback hk hw
  cases hf : w.peer.channels.hasKey dcid with
  | true =>
    rw [trackCallback_of_hasKey description ans hf, Option.some.injEq] at hw
    subst hw
    rw [← h.coherent.hasKey_tracks hk] at hf
    obtain ⟨t, ht, hid⟩ := KeyedSet.hasKey_iff.mp hf
    exact ⟨⟨t, hid, h.coherent.sole (h.coherent.track_mem.mpr ht)⟩, fun _ => rfl⟩
  | false =>
    rw [trackCallback_of_fresh description ans hf, Option.map_eq_some_iff] at hw
    obtain ⟨msid, -, rfl⟩ := hw
    refine ⟨⟨w.newTrack dcid msid.streamId msid.trackId ans, rfl, h'.coherent.sole ?_⟩, fun hkey => by cases hkey⟩
    exact Registry.inserted (c := .track (w.newTrack dcid msid.streamId msid.trackId ans)) hf

theorem dataChannelCallback_sole (h : Inv kind w) {dcid : Int} (hk : kind dcid = .dataChannel)
    (ans : DataChannelAnswers) :
    (∃ d, d.id = dcid ∧ (w.dataChannelCallback dcid ans).peer.Sole (.dataChannel d)) ∧
      (w.peer.channels.hasKey dcid = true → w.dataChannelCallback dcid ans = w) := by
  have h' := h.dataChannelCallback hk ans
  cases hf : w.peer.channels.hasKey dcid with
  | true =>
    rw [dataChannelCallback_of_hasKey ans hf]
    rw [← h.coherent.hasKey_dataChannels hk] at hf
    obtain ⟨d, hd, hid⟩ := KeyedSet.hasKey_iff.mp hf
    exact ⟨⟨d, hid, h.coherent.sole (h.coherent.dataChannel_mem.mpr hd)⟩, fun _ => rfl⟩
  | false =>
    rw [dataChannelCallback_of_fresh ans hf] at h' ⊢
    refine ⟨⟨w.newDataChannel dcid ans, rfl, h'.coherent.sole ?_⟩, fun hkey => by cases hkey⟩
    exact Registry.inserted (c := .dataChannel (w.newDataChannel dcid ans)) hf

/-- The insertion and the track callback for one id: whichever comes second changes nothing. -/
theorem insertTrack_order {S : Segmentation} (h : Inv kind w) {f : PendingTrack} (hk : kind f.id = .track)
    (ans : TrackAnswers) (description : Scalars) (ans' : TrackAnswers) :
    (w.insertTrack f ans).2.trackCallback S f.id description ans' = some (w.insertTrack f ans).2 ∧
      (HasMsid (sdpLines S description) → (w.trackCallback S f.id description ans').isSome) ∧
      ∀ w₁, w.trackCallback S f.id description ans' = some w₁ → (w₁.insertTrack f ans).2 = w₁ ∧
        w₁.peer.Sole (.track (w₁.insertTrack f ans).1) := by
  constructor
  · obtain ⟨hid, hsole, -⟩ := h.insertTrack_sole hk ans
    have hkey := hsole.hasKey
    rw [Channel.id_track, hid] at hkey
    exact trackCallback_of_hasKey description ans' hkey
  · refine ⟨fun hm => (trackCallback_isSome_iff _ _).mpr (Or.inr hm), fun w₁ hw₁ => ?_⟩
    obtain ⟨⟨t, hid, hsole⟩, -⟩ := h.trackCallback_sole hk hw₁
    obtain ⟨-, hs, hsame⟩ := (h.trackCallback hk hw₁).insertTrack_sole hk ans
    have hkey := hsole.hasKey
    rw [Channel.id_track, hid] at hkey
    have hw := hsame hkey
    rw [hw] at hs
    exact ⟨hw, hs⟩

theorem insertDataChannel_order (h : Inv kind w) {id : Int} (hk : kind id = .dataChannel)
    (ans ans' : DataChannelAnswers) :
    (w.insertDataChannel id ans).2.dataChannelCallback id ans' = (w.insertDataChannel id ans).2 ∧
      ((w.dataChannelCallback id ans').insertDataChannel id ans).2 = w.dataChannelCallback id ans' ∧
        (w.dataChannelCallback id ans').peer.Sole
          (.dataChannel ((w.dataChannelCallback id ans').insertDataChannel id ans).1) := by
  constructor
  · obtain ⟨hid, hsole, -⟩ := h.insertDataChannel_sole hk ans
    have hkey := hsole.hasKey
    rw [Channel.id_dataChannel, hid] at hkey
    exact dataChannelCallback_of_hasKey ans' hkey
  · obtain ⟨⟨d, hid, hsole⟩, -⟩ := h.dataChannelCallback_sole hk ans'
    obtain ⟨-, hs, hsame⟩ := (h.dataChannelCallback hk ans').insertDataChannel_sole hk ans
    have hkey := hsole.hasKey
    rw [Channel.id_dataChannel, hid] at hkey
    have hw := hsame hkey
    rw [hw] at hs
    exact ⟨hw, hs⟩

theorem close_mem (h : Inv kind w) {c : Channel} (hc : c ∈ w.peer.channels) :
    (∀ c', c' ∈ (w.close c.ref).peer.channels ↔ c' ∈ w.peer.channels ∧ c'.id ≠ c.id) ∧
      (∀ d, d ∈ (w.close c.ref).peer.dataChannels ↔ d ∈ w.peer.dataChannels ∧ d.id ≠ c.id) ∧
      ∀ t, t ∈ (w.close c.ref).peer.tracks ↔ t ∈ w.peer.tracks ∧ t.id ≠ c.id := by
  have h' := h.close c.ref
  have hreg : (w.close c.ref).peer.toRegistry = w.peer.toRegistry.close c := by
    rw [World.close, h.registered c hc]
  have hch : ∀ c', c' ∈ (w.close c.ref).peer.channels ↔ c' ∈ w.peer.channels ∧ c'.id ≠ c.id := by
    intro c'
    have hmem : ∀ r : Registry, c' ∈ r.channels ↔ r.lookup c'.id = some c' := fun r => by
      rw [Registry.lookup_eq_some, and_iff_left rfl]
    rw [hmem, hmem, hreg, Registry.lookup_close, Function.update_apply]
    by_cases hid : c'.id = c.id
    · simp [hid]
    · simp [hid]
  refine ⟨hch, fun d => ?_, fun t => ?_⟩
  · rw [← h'.coherent.dataChannel_mem, hch, h.coherent.dataChannel_mem, Channel.id_dataChannel]
  · rw [← h'.coherent.track_mem, hch, h.coherent.track_mem, Channel.id_track]

end Inv

/-- **The registry in every reachable world.** -/
theorem registry_invariant {S : Segmentation} {kind : Int → ChannelKind} {o : Option IPOverride} {es : List Event}
    {w : World} (h : Run (step S) (UniqueIds kind) (.start o) es w) : RegistryLaw S kind w := by
  have hi := inv_of_run h
  exact {
    union := hi.coherent.union
    disjoint := fun d hd t ht => hi.coherent.disjoint hd ht
    unique := fun c hc c' hc' he => KeyedSet.eq_of_key hc hc' he
    createTrack := fun f hf ans => hi.insertTrack_sole (hi.pendingTracks f hf) ans
    createDataChannel := fun id hid ans => hi.insertDataChannel_sole (hi.pendingData id hid) ans
    trackCallback := fun dcid description ans hk =>
      ⟨fun hm => (trackCallback_isSome_iff _ _).mpr (Or.inr hm), fun w' hw => hi.trackCallback_sole hk hw⟩
    dataChannelCallback := fun dcid ans hk => hi.dataChannelCallback_sole hk ans
    trackOrder := fun f hf ans description ans' => hi.insertTrack_order (hi.pendingTracks f hf) ans description ans'
    dataChannelOrder := fun id hid ans ans' => hi.insertDataChannel_order (hi.pendingData id hid) ans ans'
    close := fun c hc => hi.close_mem hc
    step := fun e w' hs => hi.mapStep hs }

/-- Ids from 10 on are those of tracks. -/
def exampleKind (id : Int) : ChannelKind := if id < 10 then .dataChannel else .track

def microphoneArgs (streamId : String) : TrackArgs where
  streamId := streamId.toList
  trackId := "mic".toList
  direction := .sendrecv
  codec := .OPUS
  sampleOrBitrate := 48000
  channelCount := 2

/-- Two data channels and two tracks: of each kind, one object is inserted before its callback and one after it. The
first data channel is closed, and a third call of each kind is between its two halves at the end. -/
def registryExample (d₁ d₂ d₃ : Draw) : List Event :=
  [.createDataChannel { label := "a".toList } 1, .insertDataChannel 0 { stream := 0, label := "a".toList },
    .dataChannelCallback 1 { stream := 0, label := "a".toList },
    .createTrack (microphoneArgs "one") [d₁] 10, .insertTrack 0 { ssrcs := [5], direction := .sendrecv },
    .trackCallback 10 "a=msid:one mic".toList { ssrcs := [5], direction := .sendrecv },
    .createDataChannel { label := "b".toList } 2, .dataChannelCallback 2 { stream := 2, label := "b".toList },
    .insertDataChannel 0 { stream := 2, label := "b".toList },
    .createTrack (microphoneArgs "two") [d₂] 11,
    .trackCallback 11 "a=msid:two mic".toList { ssrcs := [6], direction := .sendrecv },
    .insertTrack 0 { ssrcs := [6], direction := .sendrecv }, .close 0,
    .createDataChannel { label := "c".toList } 3, .createTrack (microphoneArgs "three") [d₃] 12]

/-- The ids of a world: those of its three sets, and those of its pending calls. -/
def World.ids (w : World) : List (List Int) :=
  [w.peer.channels.elems.map Channel.id, w.peer.dataChannels.elems.map DataChannel.id,
    w.peer.tracks.elems.map Track.id, w.pendingData, w.pendingTracks.map PendingTrack.id]

theorem registry_invariant_example :
    ∃ w, Lib.exec (step .scalars) (.start none)
        (registryExample ⟨5, by decide⟩ ⟨6, by decide⟩ ⟨7, by decide⟩) = some w ∧
      w.ids = [[11, 2, 10], [2], [11, 10], [3], [12]] ∧ RegistryLaw .scalars exampleKind w := by
  refine ⟨_, rfl, rfl, @registry_invariant _ _ none (registryExample ⟨5, by decide⟩ ⟨6, by decide⟩ ⟨7, by decide⟩) _ ?_⟩
  exact .cons (fun _ => rfl) rfl (.cons trivial rfl (.cons rfl rfl (.cons (fun _ => rfl) rfl (.cons trivial rfl
    (.cons rfl rfl (.cons (fun _ => rfl) rfl (.cons rfl rfl (.cons trivial rfl (.cons (fun _ => rfl) rfl
      (.cons rfl rfl (.cons trivial rfl (.cons trivial rfl (.cons (fun _ => rfl) rfl (.cons (fun _ => rfl) rfl
        (.nil _)))))))))))))))

end AlloDataChannel

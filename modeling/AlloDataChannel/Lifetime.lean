import AlloDataChannel.UnitsInv

/-!
# Objects and the ids of the C library

The user pointer of an id is an unretained reference to its object, and `deinit` gives the id to `rtcDelete`.

* `Life` : a peer with what has been freed; `Life.step` : its steps, the end of an object and the end of the peer;
* `Life.Can` : what can happen: only what the sets do not hold is freed, and the library is done with a deleted id;
* `GivenOnce` : the library gives no id twice;
* `lifetime_law` : no callback reaches a freed object, and when an object outlives its id.
-/

namespace AlloDataChannel
open Lib (Scalars Segmentation Run)

/-- A peer, the objects whose `deinit` has run, and the ids that they have deleted. -/
structure Life where
  world : World
  freed : List Nat := []
  deleted : List Int := []
  peerFreed : Bool := false

inductive LifeEvent
  | step (e : Event)
  /-- The last reference to an object is gone. -/
  | free (ref : Nat)
  /-- The last reference to the peer is gone, and with it the sets. -/
  | freePeer
  deriving DecidableEq, Repr

/-- The id for which an event builds an object. -/
def World.builds (w : World) : Event → Option Int
  | .insertDataChannel k _ => (w.pendingData[k]?).filter fun id => !w.peer.dataChannels.hasKey id
  | .insertTrack k _ => ((w.pendingTracks[k]?).map PendingTrack.id).filter fun id => !w.peer.tracks.hasKey id
  | .dataChannelCallback dcid _ => if w.peer.channels.hasKey dcid then none else some dcid
  | .trackCallback dcid _ _ => if w.peer.channels.hasKey dcid then none else some dcid
  | _ => none

/-- The id that the library gives with an event. -/
def Event.given : Event → Option Int
  | .createDataChannel _ code | .createTrack _ _ code => some code
  | .dataChannelCallback dcid _ | .trackCallback dcid _ _ => some dcid
  | .channelCallback id _ => some id
  | _ => none

/-- The events of a channel object, which the peer need not be there for. -/
def Event.onObject : Event → Bool
  | .close _ | .channelCallback _ _ => true
  | _ => false

namespace Life

def start (o : Option IPOverride) : Life := { world := .start o }

/-- The initializer of an object traps if the library does not know the id. Without the peer there are no sets to
change. -/
def step (S : Segmentation) (l : Life) : LifeEvent → Option Life
  | .step e =>
    if (l.world.builds e).any fun id => l.deleted.contains id then none
    else
      (AlloDataChannel.step S l.world e).map fun world =>
        { l with world := if l.peerFreed then { world with peer := l.world.peer } else world }
  | .free ref =>
    match l.world.heap.objects[ref]? with
    | none => some l
    | some c => some { l with freed := ref :: l.freed, deleted := c.id :: l.deleted }
  | .freePeer => some { l with peerFreed := true }

/-- The objects that the sets of the peer hold. -/
def held (l : Life) : List Nat :=
  if l.peerFreed then []
  else l.world.peer.channels.elems.map Channel.ref ++
    (l.world.peer.dataChannels.elems.map DataChannel.ref ++ l.world.peer.tracks.elems.map Track.ref)

/-- What can happen. The sets keep their objects, the calls under way their peer; the library gives no id that has been
deleted, and calls no callback on it. -/
def Can (l : Life) : LifeEvent → Prop
  | .step e => (∀ id, e.given = some id → id ∉ l.deleted) ∧ (l.peerFreed = true → e.onObject = true) ∧
    ∀ ref, e = .close ref → ref ∉ l.freed
  | .free ref => ref ∉ l.freed ∧ ref ∉ l.held
  | .freePeer => l.world.pendingData = [] ∧ l.world.pendingTracks = []

end Life

/-- The ids of the objects and of the calls under way. -/
def World.known (w : World) : List Int :=
  w.heap.objects.map Channel.id ++ (w.pendingData ++ w.pendingTracks.map PendingTrack.id)

/-- The library gives an id once, and then only with the callbacks of its object. -/
def GivenOnce (w : World) : Event → Prop
  | .createDataChannel _ code | .createTrack _ _ code => 0 ≤ code → code ∉ w.known
  | .dataChannelCallback dcid _ | .trackCallback dcid _ _ => dcid ∉ w.known
  | _ => True

/-! ## The objects in a step -/

/-- A step builds the object of its id, or none. -/
inductive Building (w : World) (e : Event) (w' : World) : Prop
  | none (quiet : w.builds e = none) (objects : w'.heap.objects = w.heap.objects)
    (stores : ∀ c, w'.peer.toRegistry.Stores c → w.peer.toRegistry.Stores c)
  | one (c : Channel) (builds : w.builds e = some c.id) (ref : c.ref = w.heap.objects.length)
    (objects : w'.heap.objects = w.heap.objects ++ [c])
    (stores : ∀ c', w'.peer.toRegistry.Stores c' → w.peer.toRegistry.Stores c' ∨ c' = c)

/-- The insertion of a data channel: no call under way, a known id, or a new object. -/
theorem insertDataChannel_cases {S : Segmentation} {w w' : World} {k : Nat} {ans : DataChannelAnswers}
    (h : step S w (.insertDataChannel k ans) = some w') :
    w.pendingData[k]? = none ∧ w' = w ∨ ∃ id, w.pendingData[k]? = some id ∧
      (w.peer.dataChannels.hasKey id = true ∧ w' = { w with pendingData := w.pendingData.eraseIdx k } ∨
        w.peer.dataChannels.hasKey id = false ∧ w' = { w.register (.dataChannel (w.newDataChannel id ans)) with
          pendingData := w.pendingData.eraseIdx k }) := by
  rw [step] at h
  split at h
  · next hk =>
    cases h
    exact Or.inl ⟨hk, rfl⟩
  · next id hk =>
    cases h
    refine Or.inr ⟨id, hk, ?_⟩
    cases hf : w.peer.dataChannels.find? id with
    | some d =>
      rw [insertDataChannel_of_find? ans hf]
      exact Or.inl ⟨Lib.KeyedSet.hasKey_iff.mpr ⟨d, Lib.KeyedSet.find?_eq_some.mp hf⟩, rfl⟩
    | none =>
      have hkey := Lib.KeyedSet.find?_eq_none_iff_hasKey.mp hf
      rw [insertDataChannel_of_fresh ans hkey]
      exact Or.inr ⟨hkey, rfl⟩

theorem insertTrack_cases {S : Segmentation} {w w' : World} {k : Nat} {ans : TrackAnswers}
    (h : step S w (.insertTrack k ans) = some w') :
    w.pendingTracks[k]? = none ∧ w' = w ∨ ∃ f, w.pendingTracks[k]? = some f ∧
      (w.peer.tracks.hasKey f.id = true ∧ w' = { w with pendingTracks := w.pendingTracks.eraseIdx k } ∨
        w.peer.tracks.hasKey f.id = false ∧ w' = { w.register (.track (w.newTrack f.id f.streamId f.trackId ans)) with
          pendingTracks := w.pendingTracks.eraseIdx k }) := by
  rw [step] at h
  split at h
  · next hk =>
    cases h
    exact Or.inl ⟨hk, rfl⟩
  · next f hk =>
    cases h
    refine Or.inr ⟨f, hk, ?_⟩
    cases hf : w.peer.tracks.find? f.id with
    | some t =>
      rw [insertTrack_of_find? ans hf]
      exact Or.inl ⟨Lib.KeyedSet.hasKey_iff.mpr ⟨t, Lib.KeyedSet.find?_eq_some.mp hf⟩, rfl⟩
    | none =>
      have hkey := Lib.KeyedSet.find?_eq_none_iff_hasKey.mp hf
      rw [insertTrack_of_fresh ans hkey]
      exact Or.inr ⟨hkey, rfl⟩

theorem building_of_step {S : Segmentation} {w w' : World} {e : Event} (h : step S w e = some w') :
    Building w e w' := by
  cases e with
  | insertDataChannel k ans =>
    rcases insertDataChannel_cases h with ⟨hk, rfl⟩ | ⟨id, hk, ⟨hkey, rfl⟩ | ⟨hkey, rfl⟩⟩
    · exact .none (by simp [World.builds, hk]) rfl fun _ hc => hc
    · exact .none (by simp [World.builds, hk, hkey]) rfl fun _ hc => hc
    · refine .one (.dataChannel (w.newDataChannel id ans)) ?_ rfl rfl fun c' hc' => hc'.of_insert
      simp [World.builds, hk, hkey, World.newDataChannel]
  | insertTrack k ans =>
    rcases insertTrack_cases h with ⟨hk, rfl⟩ | ⟨f, hk, ⟨hkey, rfl⟩ | ⟨hkey, rfl⟩⟩
    · exact .none (by simp [World.builds, hk]) rfl fun _ hc => hc
    · exact .none (by simp [World.builds, hk, hkey]) rfl fun _ hc => hc
    · refine .one (.track (w.newTrack f.id f.streamId f.trackId ans)) ?_ rfl rfl fun c' hc' => hc'.of_insert
      simp [World.builds, hk, hkey, World.newTrack]
  | dataChannelCallback dcid ans =>
    cases step_effect h with
    | knownDataChannel _ _ known => exact .none (by simp [World.builds, known]) rfl fun _ hc => hc
    | remoteDataChannel _ _ fresh =>
      refine .one (.dataChannel (w.newDataChannel dcid ans)) ?_ rfl rfl fun c' hc' => hc'.of_insert
      simp [World.builds, fresh, World.newDataChannel]
  | trackCallback dcid description ans =>
    cases step_effect h with
    | knownTrack _ _ _ known => exact .none (by simp [World.builds, known]) rfl fun _ hc => hc
    | remoteTrack _ _ _ msid fresh parsed =>
      refine .one (.track (w.newTrack dcid msid.streamId msid.trackId ans)) ?_ rfl rfl fun c' hc' => hc'.of_insert
      simp [World.builds, fresh, World.newTrack]
  | close ref =>
    cases step_effect h with
    | noObject => exact .none rfl rfl fun _ hc => hc
    | close _ c object => exact .none rfl rfl fun _ hc => hc.of_close
  | createDataChannel a code =>
    cases step_effect h with
    | createDataChannelFailed => exact .none rfl rfl fun _ hc => hc
    | createDataChannel => exact .none rfl rfl fun _ hc => hc
  | createTrack a draws code =>
    cases step_effect h with
    | noPayloadType => exact .none rfl rfl fun _ hc => hc
    | addTrackFailed => exact .none rfl rfl fun _ hc => hc
    | addTrack => exact .none rfl rfl fun _ hc => hc
  | channelCallback id cb =>
    cases step_effect h with
    | channelCallback => exact .none rfl rfl fun _ hc => hc
  | setRemote secs ids code =>
    cases step_effect h with
    | setRemoteFailed => exact .none rfl rfl fun _ hc => hc
    | setRemote => exact .none rfl rfl fun _ hc => hc

/-! ## What has been freed -/

/-- The deleted ids are those of the freed objects, and the sets hold none of these. -/
structure Life.Inv (l : Life) : Prop where
  pointed : l.world.heap.Pointed
  freed : ∀ ref ∈ l.freed, ref < l.world.heap.objects.length
  deleted : ∀ id, id ∈ l.deleted ↔ ∃ ref ∈ l.freed, ∃ c, l.world.heap.objects[ref]? = some c ∧ c.id = id
  held : ∀ ref ∈ l.held, ref ∉ l.freed

namespace Life
variable {S : Segmentation} {l l' : Life}

theorem mem_held {ref : Nat} :
    ref ∈ l.held ↔ l.peerFreed = false ∧ ∃ c, l.world.peer.toRegistry.Stores c ∧ c.ref = ref := by
  unfold held
  cases l.peerFreed with
  | true => simp
  | false =>
    rw [if_neg Bool.false_ne_true, List.mem_append, List.mem_append, List.mem_map, List.mem_map, List.mem_map]
    constructor
    · rintro (⟨c, hc, rfl⟩ | ⟨d, hd, rfl⟩ | ⟨t, ht, rfl⟩)
      · exact ⟨rfl, c, Or.inl hc, rfl⟩
      · exact ⟨rfl, .dataChannel d, Or.inr (Or.inl ⟨d, hd, rfl⟩), rfl⟩
      · exact ⟨rfl, .track t, Or.inr (Or.inr ⟨t, ht, rfl⟩), rfl⟩
    · rintro ⟨-, c, hc | ⟨d, hd, rfl⟩ | ⟨t, ht, rfl⟩, rfl⟩
      · exact Or.inl ⟨c, hc, rfl⟩
      · exact Or.inr (Or.inl ⟨d, hd, rfl⟩)
      · exact Or.inr (Or.inr ⟨t, ht, rfl⟩)

theorem inv_start (o : Option IPOverride) : (start o).Inv where
  pointed := pointed_start o
  freed _ h := absurd h List.not_mem_nil
  deleted id := by simp [start]
  held _ _ := List.not_mem_nil

/-- The objects of the part of the world that a step changes. -/
theorem step_cases {e : Event} (h : l.step S (.step e) = some l') :
    (∀ id, l.world.builds e = some id → id ∉ l.deleted) ∧ l'.freed = l.freed ∧ l'.deleted = l.deleted ∧
      l'.peerFreed = l.peerFreed ∧ ∃ w', AlloDataChannel.step S l.world e = some w' ∧ l'.world.heap = w'.heap ∧
        (l.peerFreed = false → l'.world = w') := by
  rw [step] at h
  split at h
  · cases h
  · next hb =>
    obtain ⟨w', hw', rfl⟩ := Option.map_eq_some_iff.mp h
    refine ⟨fun id hid hmem => hb (by simp [hid, hmem]), rfl, rfl, rfl, w', hw', ?_, fun hp => by simp [hp]⟩
    show (if l.peerFreed then { w' with peer := l.world.peer } else w').heap = w'.heap
    split
    · rfl
    · rfl

theorem Inv.step {e : LifeEvent} (hi : l.Inv) (hcan : l.Can e) (h : l.step S e = some l') : l'.Inv := by
  cases e with
  | step e =>
    obtain ⟨-, hfreed, hdeleted, hpeer, w', hw', hheap, hworld⟩ := step_cases h
    have hobjects : ∀ ref ∈ l.freed, w'.heap.objects[ref]? = l.world.heap.objects[ref]? := by
      intro ref href
      cases building_of_step hw' with
      | none quiet objects stores => rw [objects]
      | one c builds r objects stores => rw [objects, List.getElem?_append_left (hi.freed ref href)]
    refine ⟨?_, fun ref href => ?_, fun id => ?_, fun ref hheld => ?_⟩
    · rw [hheap]
      exact (heapStep_of_step hw').pointed hi.pointed
    · rw [hheap]
      rw [hfreed] at href
      exact Nat.lt_of_lt_of_le (hi.freed ref href) (heapStep_of_step hw').grows.1
    · rw [hdeleted, hi.deleted, hfreed, hheap]
      constructor
      · rintro ⟨ref, href, c, hc, hid⟩
        exact ⟨ref, href, c, (hobjects ref href).trans hc, hid⟩
      · rintro ⟨ref, href, c, hc, hid⟩
        exact ⟨ref, href, c, (hobjects ref href).symm.trans hc, hid⟩
    · obtain ⟨halive, c, hc, rfl⟩ := mem_held.mp hheld
      rw [hpeer] at halive
      rw [hworld halive] at hc
      rw [hfreed]
      cases building_of_step hw' with
      | none quiet objects stores => exact hi.held _ (mem_held.mpr ⟨halive, c, stores c hc, rfl⟩)
      | one d builds r objects stores =>
        rcases stores c hc with hc | rfl
        · exact hi.held _ (mem_held.mpr ⟨halive, c, hc, rfl⟩)
        · intro hmem
          have hlt := hi.freed _ hmem
          omega
  | free ref =>
    obtain ⟨-, hnot⟩ := hcan
    rw [Life.step] at h
    split at h
    · cases h
      exact hi
    · next c hc =>
      cases h
      refine ⟨hi.pointed, fun r hr => ?_, fun id => ?_, fun r hheld hr => ?_⟩
      · rcases List.mem_cons.mp hr with rfl | hr
        · exact (List.getElem?_eq_some_iff.mp hc).1
        · exact hi.freed r hr
      · rw [List.mem_cons, hi.deleted]
        constructor
        · rintro (rfl | ⟨r, hr, d, hd, hid⟩)
          · exact ⟨ref, List.mem_cons_self, c, hc, rfl⟩
          · exact ⟨r, List.mem_cons_of_mem _ hr, d, hd, hid⟩
        · rintro ⟨r, hr, d, hd, hid⟩
          rcases List.mem_cons.mp hr with rfl | hr
          · rw [hc, Option.some.injEq] at hd
            subst hd
            exact Or.inl hid.symm
          · exact Or.inr ⟨r, hr, d, hd, hid⟩
      · rcases List.mem_cons.mp hr with rfl | hr
        · exact hnot hheld
        · exact hi.held r hheld hr
  | freePeer =>
    cases h
    exact ⟨hi.pointed, hi.freed, hi.deleted, fun r hheld => absurd (mem_held.mp hheld).1 Bool.noConfusion⟩

theorem inv_of_run {env : Life → LifeEvent → Prop} {o : Option IPOverride} {es : List LifeEvent}
    (henv : ∀ l e, env l e → l.Can e) (h : Run (step S) env (start o) es l) : l.Inv :=
  h.invariant (fun _ _ _ hi he hs => hi.step (henv _ _ he) hs) (inv_start o)

/-- The id of a user pointer that leads to a freed object has been deleted. -/
theorem Inv.deleted_of_freed (hi : l.Inv) {id : Int} {ref : Nat} (hptr : l.world.heap.userPtr id = some ref)
    (hfreed : ref ∈ l.freed) : id ∈ l.deleted := by
  obtain ⟨c, hc, hid⟩ := hi.pointed id ref hptr
  exact (hi.deleted id).mpr ⟨ref, hfreed, c, hc, hid⟩

end Life

/-! ## Ids that are given once -/

section Known
variable {ids pending pending' : List Int} {id : Int}

theorem nodup_pending (h : (ids ++ pending).Nodup) (hid : id ∉ ids ++ pending) (hp : pending'.Perm (id :: pending)) :
    (ids ++ pending').Nodup := by
  have hperm : (ids ++ pending').Perm (id :: (ids ++ pending)) := (hp.append_left ids).trans List.perm_middle
  exact hperm.nodup_iff.mpr (List.nodup_cons.mpr ⟨hid, h⟩)

theorem nodup_built (h : (ids ++ pending).Nodup) (hp : (id :: pending').Perm pending) :
    ((ids ++ [id]) ++ pending').Nodup := by
  rw [List.append_assoc]
  exact (hp.append_left ids).nodup_iff.mpr h

theorem nodup_announced (h : (ids ++ pending).Nodup) (hid : id ∉ ids ++ pending) :
    ((ids ++ [id]) ++ pending).Nodup := by
  rw [List.append_assoc]
  exact nodup_pending h hid (List.Perm.refl _)

end Known

theorem eraseIdx_perm {α : Type} {xs : List α} {k : Nat} {x : α} (h : xs[k]? = some x) :
    (x :: xs.eraseIdx k).Perm xs := by
  obtain ⟨hk, rfl⟩ := List.getElem?_eq_some_iff.mp h
  exact List.getElem_cons_eraseIdx_perm hk

/-- Every id is known for one object or one call under way. -/
theorem known_step {S : Segmentation} {w w' : World} {e : Event} (h : step S w e = some w') (hn : w.known.Nodup)
    (hgiven : GivenOnce w e) : w'.known.Nodup := by
  cases e with
  | insertDataChannel k ans =>
    rcases insertDataChannel_cases h with ⟨-, rfl⟩ | ⟨id, hk, ⟨-, rfl⟩ | ⟨-, rfl⟩⟩
    · exact hn
    · have hsub : (w.pendingData.eraseIdx k).Sublist w.pendingData := List.eraseIdx_sublist _ _
      exact hn.sublist ((hsub.append_right _).append_left _)
    · show ((w.heap.objects ++ [Channel.dataChannel (w.newDataChannel id ans)]).map Channel.id ++
        (w.pendingData.eraseIdx k ++ _)).Nodup
      rw [List.map_append]
      exact nodup_built hn ((eraseIdx_perm hk).append_right _)
  | insertTrack k ans =>
    rcases insertTrack_cases h with ⟨-, rfl⟩ | ⟨f, hk, ⟨-, rfl⟩ | ⟨-, rfl⟩⟩
    · exact hn
    · have hsub := (List.eraseIdx_sublist w.pendingTracks k).map PendingTrack.id
      exact hn.sublist ((hsub.append_left _).append_left _)
    · have hperm := (eraseIdx_perm hk).map PendingTrack.id
      show ((w.heap.objects ++ [Channel.track (w.newTrack f.id f.streamId f.trackId ans)]).map Channel.id ++
        (w.pendingData ++ (w.pendingTracks.eraseIdx k).map PendingTrack.id)).Nodup
      rw [List.map_append]
      exact nodup_built hn (List.perm_middle.symm.trans (hperm.append_left _))
  | dataChannelCallback dcid ans =>
    cases step_effect h with
    | knownDataChannel => exact hn
    | remoteDataChannel =>
      show ((w.heap.objects ++ [Channel.dataChannel (w.newDataChannel dcid ans)]).map Channel.id ++ _).Nodup
      rw [List.map_append]
      exact nodup_announced hn hgiven
  | trackCallback dcid description ans =>
    cases step_effect h with
    | knownTrack => exact hn
    | remoteTrack _ _ _ msid fresh parsed =>
      show ((w.heap.objects ++ [Channel.track (w.newTrack dcid msid.streamId msid.trackId ans)]).map Channel.id ++
        _).Nodup
      rw [List.map_append]
      exact nodup_announced hn hgiven
  | createDataChannel a code =>
    cases step_effect h with
    | createDataChannelFailed => exact hn
    | createDataChannel _ _ ok =>
      refine nodup_pending hn (hgiven ok) ?_
      rw [List.append_assoc]
      exact List.perm_middle
  | createTrack a draws code =>
    cases step_effect h with
    | noPayloadType => exact hn
    | addTrackFailed => exact hn
    | addTrack _ _ _ pt pat ssrc sa payloadType allocated ok =>
      refine nodup_pending hn (hgiven ok) ?_
      rw [List.map_append, ← List.append_assoc]
      exact List.perm_append_singleton code _
  | channelCallback id cb =>
    cases step_effect h with
    | channelCallback => exact hn
  | close ref =>
    cases step_effect h with
    | noObject => exact hn
    | close => exact hn
  | setRemote secs ids code =>
    cases step_effect h with
    | setRemoteFailed => exact hn
    | setRemote => exact hn

/-- An object is built for an id that no other one has. -/
theorem ne_of_builds {w : World} {e : Event} {id : Int} (hn : w.known.Nodup) (hgiven : GivenOnce w e)
    (hb : w.builds e = some id) : id ∉ w.heap.objects.map Channel.id := by
  have hpending : ∀ {i}, i ∈ w.pendingData ++ w.pendingTracks.map PendingTrack.id →
      i ∉ w.heap.objects.map Channel.id := fun hi ho => (List.nodup_append.mp hn).2.2 _ ho _ hi rfl
  cases e with
  | insertDataChannel k ans =>
    obtain ⟨hk, -⟩ := Option.filter_eq_some_iff.mp hb
    exact hpending (List.mem_append_left _ (List.mem_of_getElem? hk))
  | insertTrack k ans =>
    obtain ⟨hk, -⟩ := Option.filter_eq_some_iff.mp hb
    obtain ⟨f, hf, rfl⟩ := Option.map_eq_some_iff.mp hk
    exact hpending (List.mem_append_right _ (List.mem_map_of_mem (List.mem_of_getElem? hf)))
  | dataChannelCallback dcid ans =>
    obtain ⟨-, hb⟩ := Option.ite_none_left_eq_some.mp hb
    cases hb
    exact fun ho => hgiven (List.mem_append_left _ ho)
  | trackCallback dcid description ans =>
    obtain ⟨-, hb⟩ := Option.ite_none_left_eq_some.mp hb
    cases hb
    exact fun ho => hgiven (List.mem_append_left _ ho)
  | _ => cases hb

/-! ## The law -/

namespace Life

/-- The library gives no id twice. -/
def Once (l : Life) (e : LifeEvent) : Prop := l.Can e ∧ ∀ e', e = .step e' → GivenOnce l.world e'

theorem known_of_run {S : Segmentation} {o : Option IPOverride} {es : List LifeEvent} {l : Life}
    (h : Run (step S) Once (start o) es l) : l.world.known.Nodup := by
  refine h.invariant (I := fun l => l.world.known.Nodup) (fun l e l' hn henv hs => ?_) List.nodup_nil
  cases e with
  | step e =>
    rw [step] at hs
    split at hs
    · cases hs
    · obtain ⟨w', hw', rfl⟩ := Option.map_eq_some_iff.mp hs
      have hknown := known_step hw' hn (henv.2 e rfl)
      show (if l.peerFreed then { w' with peer := l.world.peer } else w').known.Nodup
      split
      · exact hknown
      · exact hknown
  | free ref =>
    rw [Life.step] at hs
    split at hs
    · cases hs
      exact hn
    · cases hs
      exact hn
  | freePeer =>
    cases hs
    exact hn

end Life

/-- What holds of the objects of a peer and of their ids in every run. -/
structure LifetimeLaw (S : Segmentation) (o : Option IPOverride) : Prop where
  /-- No callback reaches a freed object. -/
  callbacks : ∀ es l id cb ref, Run (Life.step S) Life.Can (.start o) es l → l.Can (.step (.channelCallback id cb)) →
    l.world.heap.userPtr id = some ref → ref ∉ l.freed
  /-- What the sets hold is not freed. -/
  held : ∀ es l, Run (Life.step S) Life.Can (.start o) es l → ∀ ref ∈ l.held, ref ∉ l.freed
  /-- An id is deleted exactly when an object for it is freed: any one. -/
  deleted : ∀ es l id, Run (Life.step S) Life.Can (.start o) es l →
    (id ∈ l.deleted ↔ ∃ ref ∈ l.freed, ∃ c, l.world.heap.objects[ref]? = some c ∧ c.id = id)
  /-- If the library gives no id twice, the id of an object is deleted when this object is freed. -/
  own : ∀ es l ref c, Run (Life.step S) Life.Once (.start o) es l → l.world.heap.objects[ref]? = some c →
    (c.id ∈ l.deleted ↔ ref ∈ l.freed)
  /-- And no object is built for an id that has been deleted, which would trap. -/
  builds : ∀ es l e id, Run (Life.step S) Life.Once (.start o) es l → l.Once (.step e) →
    l.world.builds e = some id → id ∉ l.deleted

/-- **Lifetimes.** -/
theorem lifetime_law (S : Segmentation) (o : Option IPOverride) : LifetimeLaw S o where
  callbacks es l id cb ref h hcan hptr hfreed :=
    hcan.1 id rfl ((Life.inv_of_run (fun _ _ he => he) h).deleted_of_freed hptr hfreed)
  held es l h := (Life.inv_of_run (fun _ _ he => he) h).held
  deleted es l id h := (Life.inv_of_run (fun _ _ he => he) h).deleted id
  own es l ref c h hc := by
    have hi := Life.inv_of_run (fun _ _ he => he.1) h
    rw [hi.deleted]
    constructor
    · rintro ⟨ref', href, d, hd, hid⟩
      have hnodup : (l.world.heap.objects.map Channel.id).Nodup := (List.nodup_append.mp (Life.known_of_run h)).1
      have hlt : ref' < (l.world.heap.objects.map Channel.id).length := by
        rw [List.length_map]
        exact hi.freed ref' href
      have hsame : (l.world.heap.objects.map Channel.id)[ref']? = (l.world.heap.objects.map Channel.id)[ref]? := by
        rw [List.getElem?_map, List.getElem?_map, hd, hc, Option.map_some, Option.map_some, hid]
      rw [← (List.getElem?_inj hlt hnodup).mp hsame]
      exact href
    · intro href
      exact ⟨ref, href, c, hc, rfl⟩
  builds es l e id h he hb hmem := by
    have hi := Life.inv_of_run (fun _ _ he => he.1) h
    obtain ⟨ref, -, c, hc, rfl⟩ := (hi.deleted id).mp hmem
    exact ne_of_builds (Life.known_of_run h) (he.2 e rfl) hb (List.mem_map_of_mem (List.mem_of_getElem? hc))

/-! ## Two objects for one id -/

def recreated : TrackArgs where
  streamId := "cam".toList
  trackId := "audio".toList
  direction := .sendonly
  codec := .OPUS
  sampleOrBitrate := 48000
  channelCount := 1
  ssrc := some 5

/-- A track is created, closed, and created again under its `mid`, with the id that it had. Then the first object is
freed. -/
def recreateRun : List LifeEvent :=
  [.step (.createTrack recreated [] 7), .step (.insertTrack 0 { ssrcs := [5], direction := .sendonly }),
    .step (.close 0),
    .step (.createTrack recreated [] 7), .step (.insertTrack 0 { ssrcs := [5], direction := .sendonly }), .free 0]

/-- The second object is registered, and its id deleted. -/
theorem lifetime_example : ∃ l, Run (Life.step .scalars) Life.Can (.start none) recreateRun l ∧ l.held = [1, 1] ∧
    (l.world.heap.objects[1]?).map Channel.id = some 7 ∧ 7 ∈ l.deleted := by
  have hcan : ∀ {l : Life} {e : Event}, l.freed = [] → l.deleted = [] → l.peerFreed = false → l.Can (.step e) := by
    intro l e hfreed hdeleted hpeer
    refine ⟨fun id _ => ?_, fun h => absurd h (by simp [hpeer]), fun ref _ => ?_⟩
    · simp [hdeleted]
    · simp [hfreed]
  obtain ⟨l, hrun⟩ : ∃ l, Run (Life.step .scalars) Life.Can (.start none) recreateRun l :=
    ⟨_, .cons (hcan rfl rfl rfl) rfl (.cons (hcan rfl rfl rfl) rfl (.cons (hcan rfl rfl rfl) rfl
      (.cons (hcan rfl rfl rfl) rfl (.cons (hcan rfl rfl rfl) rfl (.cons ⟨by decide, by decide⟩ rfl (.nil _))))))⟩
  have hstate : (Lib.exec (Life.step .scalars) (.start none) recreateRun).map (fun l => (l.held, l.freed,
      (l.world.heap.objects[0]?).map Channel.id, (l.world.heap.objects[1]?).map Channel.id)) =
      some ([1, 1], [0], some 7, some 7) := by decide +kernel
  rw [hrun.exec_eq, Option.map_some, Option.some.injEq, Prod.mk.injEq, Prod.mk.injEq, Prod.mk.injEq] at hstate
  obtain ⟨hheld, hfreed, hfirst, hsecond⟩ := hstate
  obtain ⟨c, hc, hid⟩ := Option.map_eq_some_iff.mp hfirst
  refine ⟨l, hrun, hheld, hsecond, ((lifetime_law .scalars none).deleted _ l 7 hrun).mpr ⟨0, ?_, c, hc, hid⟩⟩
  rw [hfreed]
  exact List.mem_singleton.mpr rfl

end AlloDataChannel

import AlloDataChannel.Lib.Marks
import AlloDataChannel.MediaForwardingUnit
import AlloDataChannel.TrackIds

/-!
# The ids of the tracks that can be forwarded

`createTrack` ends the process when an id has a space. A unit passes it ids that a remote peer has announced.

* `SpaceFree` : what `createTrack` asks of an id;
* `spaceFree_of_msid` : `GetMsid` returns such ids only, from any description;
* `spaceFree_egressStreamId` : the stream id of the egress track is one when the client id is;
* `World.Named`, `named_step` : the ids of all tracks, registered, closed or still being created;
* `forwardable_law` : whatever has been announced, only the client id decides.
-/

namespace AlloDataChannel
open Lib (Scalars Character Segmentation Marks Within IsAscii Run)

/-- No `Character` of an id is a space. -/
def SpaceFree (S : Segmentation) (s : Scalars) : Prop := [' '] ∉ S.characters s

instance (S : Segmentation) (s : Scalars) : Decidable (SpaceFree S s) := inferInstanceAs (Decidable (_ ∉ _))

section Msid
variable {S : Segmentation}

/-- The tokens of a line are space-free texts of their own, too. -/
theorem spaceFree_of_token (P : Marks S) {g t : List Character} (hg : Within S g)
    (ht : t ∈ Segmentation.split [' '] g) : SpaceFree S t.flatten :=
  (hg.split (by decide) ht).notMem P (by decide) ((Segmentation.spaced_split [' '] g).mem ht).2.1

theorem within_of_line {desc : Scalars} {line : List Character} (h : line ∈ sdpLines S desc) : Within S line :=
  (Within.characters S _).split (by decide) h

theorem within_of_unifiedLine {desc : Scalars} {line : List Character}
    (h : unifiedLine (sdpLines S desc) = some line) : Within S (line.drop (ascii "a=msid:").length) := by
  have hline := within_of_line (List.mem_of_find?_eq_some h)
  have hprefix := List.find?_some h
  unfold Segmentation.hasPrefix at hprefix
  obtain ⟨g, rfl⟩ := of_decide_eq_true hprefix
  rw [List.drop_left]
  have hascii : "a=msid:".toList.all (fun c => decide (IsAscii c)) = true := by decide
  exact Within.drop (fun c hc => of_decide_eq_true (List.all_eq_true.mp hascii c hc)) (by decide) hline

theorem mem_of_unifiedOfTokens {tokens : List (List Character)} {msid : Msid}
    (h : unifiedOfTokens tokens = some msid) :
    ∃ stream ∈ tokens, ∃ track ∈ tokens, msid = ⟨stream.flatten, track.flatten⟩ := by
  rcases tokens with _ | ⟨stream, _ | ⟨track, rest⟩⟩
  · cases h
  · cases h
    exact ⟨stream, by simp, stream, by simp, rfl⟩
  · cases h
    exact ⟨stream, by simp, track, by simp, rfl⟩

theorem mem_of_sourceOfTokens {tokens : List (List Character)} {msid : Msid}
    (h : sourceOfTokens tokens = some msid) :
    ∃ stream ∈ tokens, ∃ track ∈ tokens, msid = ⟨stream.flatten, track.flatten⟩ := by
  unfold sourceOfTokens at h
  split at h
  · next m stream track rest hd =>
    cases h
    have hmem : ∀ t ∈ m :: stream :: track :: rest, t ∈ tokens := by
      rw [← hd]
      exact (List.dropWhile_sublist _).subset
    exact ⟨stream, hmem _ (by simp), track, hmem _ (by simp), rfl⟩
  · cases h

/-- **What `GetMsid` returns has no space**, whatever the description. -/
theorem spaceFree_of_msid (P : Marks S) {desc : Scalars} {msid : Msid}
    (h : msidOfLines (sdpLines S desc) = some msid) : SpaceFree S msid.streamId ∧ SpaceFree S msid.trackId := by
  unfold msidOfLines at h
  rcases Option.or_eq_some_iff.mp h with hu | ⟨-, hs⟩
  · obtain ⟨line, hline, htokens⟩ := Option.bind_eq_some_iff.mp hu
    obtain ⟨stream, hstream, track, htrack, rfl⟩ := mem_of_unifiedOfTokens htokens
    have hg := within_of_unifiedLine hline
    exact ⟨spaceFree_of_token P hg hstream, spaceFree_of_token P hg htrack⟩
  · obtain ⟨line, hline, htokens⟩ := Option.bind_eq_some_iff.mp hs
    obtain ⟨stream, hstream, track, htrack, rfl⟩ := mem_of_sourceOfTokens htokens
    have hg := within_of_line (List.mem_of_find?_eq_some hline)
    exact ⟨spaceFree_of_token P hg hstream, spaceFree_of_token P hg htrack⟩

theorem spaceFree_egressStreamId (P : Marks S) (a : Source) :
    SpaceFree S a.egressStreamId ↔ SpaceFree S a.fromClientId ∧ SpaceFree S a.ingressTrack.streamId := by
  unfold SpaceFree Source.egressStreamId
  rw [P.mem_append_cons (by decide) (by decide) (by decide), not_or]

/-- The guard of `createTrack` on the arguments that a unit passes. -/
theorem valid_egressArgs_iff (P : Marks S) (a : Source) :
    a.egressArgs.valid S = true ↔ SpaceFree S a.fromClientId ∧ SpaceFree S a.ingressTrack.streamId ∧
      SpaceFree S a.ingressTrack.trackId := by
  have hguard : a.egressArgs.valid S = true ↔ SpaceFree S a.egressStreamId ∧ SpaceFree S a.ingressTrack.trackId := by
    simp [TrackArgs.valid, Source.egressArgs, SpaceFree]
  rw [hguard, spaceFree_egressStreamId P, and_assoc]

end Msid

/-! ## Runs -/

/-- The ids of all track objects and of all `createTrack` calls under way are space-free. -/
structure World.Named (S : Segmentation) (w : World) : Prop where
  tracks : ∀ t, .track t ∈ w.heap.objects → SpaceFree S t.streamId ∧ SpaceFree S t.trackId
  pending : ∀ f ∈ w.pendingTracks, SpaceFree S f.streamId ∧ SpaceFree S f.trackId

section Runs
variable {S : Segmentation} {w w' : World}

theorem World.Named.of_subset (h : w.Named S) (ho : w'.heap.objects = w.heap.objects)
    (hp : w'.pendingTracks ⊆ w.pendingTracks) : w'.Named S where
  tracks t ht := by
    rw [ho] at ht
    exact h.tracks t ht
  pending f hf := h.pending f (hp hf)

/-- With one more object. -/
theorem World.Named.of_concat (h : w.Named S) {c : Channel} (ho : w'.heap.objects = w.heap.objects ++ [c])
    (hc : ∀ t, c = .track t → SpaceFree S t.streamId ∧ SpaceFree S t.trackId)
    (hp : w'.pendingTracks ⊆ w.pendingTracks) : w'.Named S where
  tracks t ht := by
    rw [ho] at ht
    rcases List.mem_append.mp ht with ht | ht
    · exact h.tracks t ht
    · exact hc t (List.mem_singleton.mp ht).symm
  pending f hf := h.pending f (hp hf)

theorem named_step (P : Marks S) {e : Event} (h : step S w e = some w') (hw : w.Named S) : w'.Named S := by
  cases e with
  | createTrack a draws code =>
    rw [step] at h
    cases hcall : w.createTrackCall S a draws code with
    | none =>
      rw [hcall] at h
      cases h
    | some p =>
      obtain ⟨r, w₁⟩ := p
      rw [hcall] at h
      obtain ⟨hv, ⟨e, -, rfl, rfl⟩ | ⟨pt, pat, ssrc, sa, -, -, rfl, ⟨-, rfl⟩ | ⟨-, rfl⟩⟩⟩ :=
        createTrackCall_cases hcall
      · cases h
        exact hw
      · cases h
        exact hw.of_subset rfl fun _ hf => hf
      · cases h
        -- the call has passed the same guard
        refine ⟨hw.tracks, fun f hf => ?_⟩
        rcases List.mem_append.mp hf with hf | hf
        · exact hw.pending f hf
        · rw [List.mem_singleton.mp hf]
          exact space_notMem_of_valid hv
  | trackCallback dcid description ans =>
    cases step_effect h with
    | knownTrack => exact hw.of_subset rfl fun _ hf => hf
    | remoteTrack _ _ _ msid fresh parsed =>
      refine hw.of_concat rfl (fun t ht => ?_) fun _ hf => hf
      cases ht
      exact spaceFree_of_msid P parsed
  | insertTrack k ans =>
    cases step_effect h with
    | noTrack => exact hw
    | existingTrack => exact hw.of_subset rfl (List.eraseIdx_subset)
    | newTrack _ _ f called =>
      refine hw.of_concat rfl (fun t ht => ?_) (List.eraseIdx_subset)
      cases ht
      exact hw.pending f (List.mem_of_getElem? called)
  | insertDataChannel k ans =>
    cases step_effect h with
    | noDataChannel => exact hw
    | existingDataChannel => exact hw.of_subset rfl fun _ hf => hf
    | newDataChannel => exact hw.of_concat rfl (fun t ht => Channel.noConfusion ht) fun _ hf => hf
  | dataChannelCallback dcid ans =>
    cases step_effect h with
    | knownDataChannel => exact hw
    | remoteDataChannel => exact hw.of_concat rfl (fun t ht => Channel.noConfusion ht) fun _ hf => hf
  | createDataChannel a code =>
    cases step_effect h with
    | createDataChannelFailed => exact hw.of_subset rfl fun _ hf => hf
    | createDataChannel => exact hw.of_subset rfl fun _ hf => hf
  | close ref =>
    cases step_effect h with
    | noObject => exact hw
    | close => exact hw.of_subset rfl fun _ hf => hf
  | channelCallback id cb =>
    cases step_effect h with
    | channelCallback => exact hw.of_subset rfl fun _ hf => hf
  | setRemote secs ids code =>
    cases step_effect h with
    | setRemoteFailed => exact hw
    | setRemote => exact hw.of_subset rfl fun _ hf => hf

end Runs

/-! ## The law -/

/-- What holds of every track object of a peer, whatever was announced to the peer and created on it. -/
structure ForwardableLaw (S : Segmentation) (o : Option IPOverride) : Prop where
  ids : ∀ env es w t, Run (step S) env (.start o) es w → .track t ∈ w.heap.objects →
    SpaceFree S t.streamId ∧ SpaceFree S t.trackId
  /-- A unit passes the guard of `createTrack` on any egress peer exactly when the client id has no space. -/
  guard : ∀ env es w t client, Run (step S) env (.start o) es w → .track t ∈ w.heap.objects →
    ((⟨client, t⟩ : Source).egressArgs.valid S = true ↔ SpaceFree S client)

/-- **Announced tracks can be forwarded.** -/
theorem forwardable_law {S : Segmentation} (P : Marks S) (o : Option IPOverride) : ForwardableLaw S o := by
  have hids : ∀ env es w t, Run (step S) env (.start o) es w → .track t ∈ w.heap.objects →
      SpaceFree S t.streamId ∧ SpaceFree S t.trackId := by
    intro env es w t h ht
    have hstart : (World.start o).Named S :=
      ⟨fun t ht => absurd ht List.not_mem_nil, fun f hf => absurd hf List.not_mem_nil⟩
    have hnamed : w.Named S := h.invariant (fun _ _ _ hi _ hs => named_step P hs hi) hstart
    exact hnamed.tracks t ht
  refine ⟨hids, fun env es w t client h ht => ?_⟩
  obtain ⟨hs, htrack⟩ := hids env es w t h ht
  rw [valid_egressArgs_iff P]
  constructor
  · intro hguard
    exact hguard.1
  · intro hclient
    exact ⟨hclient, hs, htrack⟩

/-- A remote track is announced. -/
def announcedRun : List Event :=
  [.trackCallback 3 "a=mid:0\r\na=msid:cam  video x\r\n".toList { ssrcs := [5], direction := .recvonly }]

def announcedTrack : Track where
  ref := 0
  id := 3
  streamId := "cam".toList
  trackId := "video".toList
  direction := .recvonly
  ssrcs := [5]

/-- Its forwarding passes the guard for `alice` and ends the process for `al ice`. -/
theorem forwardable_example : ∃ w, Run (step .scalars) (fun _ _ => True) (.start none) announcedRun w ∧
    .track announcedTrack ∈ w.heap.objects ∧
    (⟨"alice".toList, announcedTrack⟩ : Source).egressArgs.valid .scalars = true ∧
    (⟨"al ice".toList, announcedTrack⟩ : Source).egressArgs.valid .scalars = false := by
  obtain ⟨w, hrun⟩ : ∃ w, Run (step .scalars) (fun _ _ => True) (.start none) announcedRun w :=
    ⟨_, .cons trivial rfl (.nil _)⟩
  have hobjects : (Lib.exec (step .scalars) (.start none) announcedRun).map (fun w => w.heap.objects) =
      some [.track announcedTrack] := by decide +kernel
  rw [hrun.exec_eq, Option.map_some, Option.some.injEq] at hobjects
  have hmem : .track announcedTrack ∈ w.heap.objects := by
    rw [hobjects]
    exact List.mem_singleton.mpr rfl
  have hguard client := (forwardable_law Marks.scalars none).guard _ _ w announcedTrack client hrun hmem
  exact ⟨w, hrun, hmem, (hguard _).mpr (by decide), Bool.eq_false_iff.mpr fun h => (hguard _).mp h (by decide)⟩

end AlloDataChannel

import AlloDataChannel.Registry

/-!
# What the C library promises about ids

A track id belongs to one `mid`: adding a track under a `mid` in use returns an id of that `mid`, any other answer is an
id never seen before.

* `RtcLaw kind w e` : the library can answer `e` in `w`;
* `RtcInv w` : every id has one `mid`, and every id in use has been issued;
* `RtcInv.step`, `rtcInv_of_run` : the invariant along every run.
-/

namespace AlloDataChannel
open Lib (Scalars Segmentation KeyedSet Run)

/-- The ids that `rtcAddTrackEx` returns for a `mid`: one that the `mid` has, or a new one. -/
def Rtc.CanReturn (r : Rtc) (mid : Scalars) (code : Int) : Prop := (mid, code) ∈ r.live ∨ code ∉ r.issued

/-- The answers of the library about ids: tracks by `mid`, new ids for new sections, one callback for each of them. -/
def RtcAnswers (kind : Int → ChannelKind) (w : World) : Event → Prop
  | .createTrack a _ code => 0 ≤ code → w.rtc.CanReturn (withCString a.actualMid) code
  | .setRemote secs ids code => 0 ≤ code →
    ids.length = (w.rtc.newSections secs).length ∧ ids.Nodup ∧ ∀ id ∈ ids, kind id = .track ∧ id ∉ w.rtc.issued
  | .trackCallback dcid description ans => w.peer.channels.hasKey dcid = false ∧
    ∃ sec, (dcid, sec) ∈ w.rtc.announced ∧ sec.description = description ∧ sec.answers = ans
  | _ => True

def RtcLaw (kind : Int → ChannelKind) (w : World) (e : Event) : Prop := UniqueIds kind w e ∧ RtcAnswers kind w e

/-! ## The invariant -/

structure RtcInv (w : World) : Prop where
  liveIds : (w.rtc.live.map Prod.snd).Nodup
  live : ∀ p ∈ w.rtc.live, p.2 ∈ w.rtc.issued
  announcedIds : (w.rtc.announced.map Prod.fst).Nodup
  announced : ∀ p ∈ w.rtc.announced, p.1 ∈ w.rtc.issued
  tracks : ∀ t ∈ w.peer.tracks, t.id ∈ w.rtc.issued
  pending : ∀ f ∈ w.pendingTracks, f.id ∈ w.rtc.issued

/-- `addTrack` issues the id that it returns and forgets none. -/
theorem Rtc.mem_addTrack_issued {r : Rtc} {init : TrackInit} {code id : Int} :
    id ∈ (r.addTrack init code).issued ↔ id ∈ r.issued ∨ 0 ≤ code ∧ id = code := by
  unfold Rtc.addTrack
  dsimp only
  split
  · next hc => simp [hc, or_comm]
  · next hc => simp [hc]

theorem Rtc.addTrack_live {r : Rtc} {init : TrackInit} {code : Int} :
    (r.addTrack init code).live =
      if 0 ≤ code ∧ (init.mid, code) ∉ r.live then (init.mid, code) :: r.live else r.live := rfl

/-- An id keeps its `mid`. -/
theorem Rtc.mem_addTrack_live {r : Rtc} {init : TrackInit} {code : Int} {p : Scalars × Int} (h : p ∈ r.live) :
    p ∈ (r.addTrack init code).live := by
  rw [Rtc.addTrack_live]
  split
  · exact List.mem_cons_of_mem _ h
  · exact h

/-- A successful call leaves the id under its `mid`. -/
theorem Rtc.mem_addTrack_live_self {r : Rtc} {init : TrackInit} {code : Int} (hc : 0 ≤ code) :
    (init.mid, code) ∈ (r.addTrack init code).live := by
  rw [Rtc.addTrack_live]
  by_cases hl : (init.mid, code) ∈ r.live
  · rw [if_neg fun hn => hn.2 hl]
    exact hl
  · rw [if_pos ⟨hc, hl⟩]
    exact List.mem_cons_self

theorem Rtc.mem_setRemote_issued {r : Rtc} {secs : List Section} {ids : List Int} {id : Int} :
    id ∈ (r.setRemote secs ids).issued ↔ id ∈ ids ∨ id ∈ r.issued := List.mem_append

namespace RtcInv
variable {kind : Int → ChannelKind} {w w' : World}

theorem start (o : Option IPOverride) : RtcInv (.start o) where
  liveIds := List.nodup_nil
  live _ hp := absurd hp List.not_mem_nil
  announcedIds := List.nodup_nil
  announced _ hp := absurd hp List.not_mem_nil
  tracks t ht := absurd ht (KeyedSet.not_mem_empty t)
  pending _ hf := absurd hf List.not_mem_nil

/-- What is left of the invariant when the library's side only grows its `issued`. -/
theorem congr (h : RtcInv w) (hl : w'.rtc.live = w.rtc.live) (ha : w'.rtc.announced.Sublist w.rtc.announced)
    (hi : ∀ id ∈ w.rtc.issued, id ∈ w'.rtc.issued) (ht : ∀ t ∈ w'.peer.tracks, t.id ∈ w'.rtc.issued)
    (hp : ∀ f ∈ w'.pendingTracks, f.id ∈ w'.rtc.issued) : RtcInv w' where
  liveIds := by rw [hl]; exact h.liveIds
  live p hp := hi p.2 (h.live p (hl ▸ hp))
  announcedIds := h.announcedIds.sublist (ha.map Prod.fst)
  announced p hp := hi p.1 (h.announced p (ha.subset hp))
  tracks := ht
  pending := hp

/-- A track call with an answer of the library. -/
theorem addTrack (h : RtcInv w) {init : TrackInit} {code : Int} (hc : 0 ≤ code → w.rtc.CanReturn init.mid code)
    (hr : w'.rtc = w.rtc.addTrack init code) (ht : w'.peer.tracks = w.peer.tracks)
    (hp : ∀ f ∈ w'.pendingTracks, f ∈ w.pendingTracks ∨ 0 ≤ code ∧ f.id = code) : RtcInv w' := by
  have hold : ∀ id ∈ w.rtc.issued, id ∈ w'.rtc.issued := by
    intro id hid
    rw [hr]
    exact Rtc.mem_addTrack_issued.mpr (Or.inl hid)
  have hnew : 0 ≤ code → code ∈ w'.rtc.issued := by
    intro hcode
    rw [hr]
    exact Rtc.mem_addTrack_issued.mpr (Or.inr ⟨hcode, rfl⟩)
  have hpend : ∀ f ∈ w'.pendingTracks, f.id ∈ w'.rtc.issued := by
    intro f hf
    rcases hp f hf with hf | ⟨hcode, hid⟩
    · exact hold f.id (h.pending f hf)
    · exact hid ▸ hnew hcode
  have htracks : ∀ t ∈ w'.peer.tracks, t.id ∈ w'.rtc.issued := by
    intro t htm
    exact hold t.id (h.tracks t (ht ▸ htm))
  have hann : w'.rtc.announced = w.rtc.announced := by rw [hr]; rfl
  by_cases hnone : 0 ≤ code ∧ (init.mid, code) ∉ w.rtc.live
  · have hlive : w'.rtc.live = (init.mid, code) :: w.rtc.live := by
      rw [hr, Rtc.addTrack_live, if_pos hnone]
    have hfresh : code ∉ w.rtc.issued := (hc hnone.1).resolve_left hnone.2
    refine ⟨?_, fun p hpm => ?_, ?_, fun p hpm => ?_, htracks, hpend⟩
    · rw [hlive, List.map_cons, List.nodup_cons]
      refine ⟨fun hm => ?_, h.liveIds⟩
      obtain ⟨p, hpm, he⟩ := List.mem_map.mp hm
      have hcode : p.2 = code := he
      apply hfresh
      rw [← hcode]
      exact h.live p hpm
    · rw [hlive] at hpm
      rcases List.mem_cons.mp hpm with rfl | hpm
      · exact hnew hnone.1
      · exact hold p.2 (h.live p hpm)
    · rw [hann]
      exact h.announcedIds
    · rw [hann] at hpm
      exact hold p.1 (h.announced p hpm)
  · have hlive : w'.rtc.live = w.rtc.live := by rw [hr, Rtc.addTrack_live, if_neg hnone]
    exact h.congr hlive (hann ▸ List.Sublist.refl _) hold htracks hpend

/-- An applied description, with new ids for its new sections. -/
theorem setRemote (h : RtcInv w) {secs : List Section} {ids : List Int}
    (hlen : ids.length = (w.rtc.newSections secs).length) (hnd : ids.Nodup)
    (hnew : ∀ id ∈ ids, id ∉ w.rtc.issued) : RtcInv { w with rtc := w.rtc.setRemote secs ids } := by
  have hold : ∀ id ∈ w.rtc.issued, id ∈ (w.rtc.setRemote secs ids).issued :=
    fun id hid => Rtc.mem_setRemote_issued.mpr (Or.inr hid)
  have hids : ∀ id ∈ ids, id ∈ (w.rtc.setRemote secs ids).issued :=
    fun id hid => Rtc.mem_setRemote_issued.mpr (Or.inl hid)
  have hsnd : (((w.rtc.newSections secs).map Section.mid).zip ids).map Prod.snd = ids := by
    rw [List.map_snd_zip]
    rw [List.length_map]
    omega
  have hfst := map_fst_zip_newSections hlen
  refine ⟨?_, fun p hp => ?_, ?_, fun p hp => ?_, fun t ht => hold t.id (h.tracks t ht),
    fun f hf => hold f.id (h.pending f hf)⟩
  · show ((((w.rtc.newSections secs).map Section.mid).zip ids ++ w.rtc.live).map Prod.snd).Nodup
    rw [List.map_append, hsnd, List.nodup_append]
    refine ⟨hnd, h.liveIds, fun a ha b hb he => hnew a ha ?_⟩
    obtain ⟨p, hp, rfl⟩ := List.mem_map.mp hb
    exact he ▸ h.live p hp
  · rcases List.mem_append.mp hp with hp | hp
    · exact hids p.2 (hsnd ▸ List.mem_map_of_mem hp)
    · exact hold p.2 (h.live p hp)
  · show ((w.rtc.announced ++ ids.zip (w.rtc.newSections secs)).map Prod.fst).Nodup
    rw [List.map_append, hfst, List.nodup_append]
    refine ⟨h.announcedIds, hnd, fun a ha b hb he => hnew b hb ?_⟩
    obtain ⟨p, hp, rfl⟩ := List.mem_map.mp ha
    exact he ▸ h.announced p hp
  · rcases List.mem_append.mp hp with hp | hp
    · exact hold p.1 (h.announced p hp)
    · exact hids p.1 (hfst ▸ List.mem_map_of_mem hp)

theorem step {S : Segmentation} {e : Event} (h : RtcInv w) (henv : RtcLaw kind w e)
    (hs : AlloDataChannel.step S w e = some w') : RtcInv w' := by
  have hkeep : ∀ f k, f ∈ w.pendingTracks.eraseIdx k → f.id ∈ w.rtc.issued :=
    fun f k hf => h.pending f (List.mem_of_mem_eraseIdx hf)
  cases step_effect hs with
  | createDataChannelFailed a code failed =>
    have hi : (w.rtc.createDataChannel a.dataChannelInit code).issued = w.rtc.issued := if_neg (by omega)
    exact h.congr rfl (List.Sublist.refl _) (fun id hid => hi ▸ hid) (fun t ht => hi ▸ h.tracks t ht)
      fun f hf => hi ▸ h.pending f hf
  | createDataChannel a code ok =>
    have hi : (w.rtc.createDataChannel a.dataChannelInit code).issued = code :: w.rtc.issued := if_pos ok
    exact h.congr rfl (List.Sublist.refl _) (fun id hid => hi ▸ List.mem_cons_of_mem code hid)
      (fun t ht => hi ▸ List.mem_cons_of_mem code (h.tracks t ht))
      fun f hf => hi ▸ List.mem_cons_of_mem code (h.pending f hf)
  | noDataChannel k ans => exact h
  | existingDataChannel k ans d found =>
    exact h.congr rfl (List.Sublist.refl _) (fun id hid => hid) h.tracks h.pending
  | newDataChannel k ans id called fresh =>
    exact h.congr rfl (List.Sublist.refl _) (fun id hid => hid) h.tracks h.pending
  | noPayloadType a draws code => exact h
  | addTrackFailed a draws code pt pat ssrc sa payloadType allocated failed =>
    exact h.addTrack (fun hc => henv.2 hc) rfl rfl fun f hf => Or.inl hf
  | addTrack a draws code pt pat ssrc sa payloadType allocated ok =>
    refine h.addTrack (fun hc => henv.2 hc) rfl rfl fun f hf => ?_
    rcases List.mem_append.mp hf with hf | hf
    · exact Or.inl hf
    · exact Or.inr ⟨ok, by rw [List.mem_singleton.mp hf]⟩
  | noTrack k ans => exact h
  | existingTrack k ans t found =>
    exact h.congr rfl (List.Sublist.refl _) (fun id hid => hid) h.tracks fun f hf => hkeep f k hf
  | newTrack k ans f called fresh =>
    refine h.congr rfl (List.Sublist.refl _) (fun id hid => hid) (fun t ht => ?_) fun f hf => hkeep f k hf
    rcases Registry.mem_insert_tracks ht with ht | ht
    · exact h.tracks t ht
    · cases ht
      exact h.pending f (List.mem_of_getElem? called)
  | knownDataChannel dcid ans known => exact h
  | remoteDataChannel dcid ans fresh =>
    exact h.congr rfl (List.Sublist.refl _) (fun id hid => hid) h.tracks h.pending
  | knownTrack dcid description ans known =>
    exact h.congr rfl List.filter_sublist (fun id hid => hid) h.tracks h.pending
  | remoteTrack dcid description ans msid fresh parsed =>
    refine h.congr rfl List.filter_sublist (fun id hid => hid) (fun t ht => ?_) h.pending
    rcases Registry.mem_insert_tracks ht with ht | ht
    · exact h.tracks t ht
    · cases ht
      obtain ⟨-, sec, hsec, -⟩ := henv.2
      exact h.announced (dcid, sec) hsec
  | noObject ref => exact h
  | close ref c object =>
    exact h.congr rfl (List.Sublist.refl _) (fun id hid => hid)
      (fun t ht => h.tracks t (Registry.mem_close_tracks ht)) h.pending
  | channelCallback id cb ref s => exact h.congr rfl (List.Sublist.refl _) (fun id hid => hid) h.tracks h.pending
  | setRemoteFailed secs ids code failed => exact h
  | setRemote secs ids code ok =>
    obtain ⟨hlen, hnd, hnew⟩ := henv.2 ok
    exact h.setRemote hlen hnd fun id hid => (hnew id hid).2

theorem run {S : Segmentation} {es : List Event} (h : RtcInv w)
    (hrun : Run (AlloDataChannel.step S) (RtcLaw kind) w es w') : RtcInv w' :=
  hrun.invariant (fun _ _ _ hi henv hs => hi.step henv hs) h

/-- An id keeps its `mid` along every step. -/
theorem live_step {S : Segmentation} {e : Event} (hs : AlloDataChannel.step S w e = some w') {p : Scalars × Int}
    (h : p ∈ w.rtc.live) : p ∈ w'.rtc.live := by
  cases step_effect hs with
  | addTrackFailed a draws code pt pat ssrc sa payloadType allocated failed => exact Rtc.mem_addTrack_live h
  | addTrack a draws code pt pat ssrc sa payloadType allocated ok => exact Rtc.mem_addTrack_live h
  | setRemote secs ids code ok => exact List.mem_append_right _ h
  | _ => exact h

/-- An id belongs to one `mid`. -/
theorem mid_eq (h : RtcInv w) {m m' : Scalars} {id : Int} (hm : (m, id) ∈ w.rtc.live)
    (hm' : (m', id) ∈ w.rtc.live) : m = m' := by
  have he := List.inj_on_of_nodup_map h.liveIds hm hm' rfl
  exact congrArg Prod.fst he

/-- A call under another `mid` does not return an id that a `mid` has. -/
theorem ne_of_canReturn (h : RtcInv w) {m m' : Scalars} {id code : Int} (hm : (m, id) ∈ w.rtc.live)
    (hc : w.rtc.CanReturn m' code) (hne : m' ≠ m) : code ≠ id := by
  intro he
  rw [he] at hc
  rcases hc with hlive | hfresh
  · apply hne
    exact h.mid_eq hlive hm
  · apply hfresh
    exact h.live _ hm

end RtcInv

section
variable {S : Segmentation} {kind : Int → ChannelKind} {w : World} {o : Option IPOverride} {es : List Event}

theorem rtcInv_of_run (h : Run (step S) (RtcLaw kind) (.start o) es w) : RtcInv w :=
  (RtcInv.start o).run h

theorem inv_of_lawful_run (h : Run (step S) (RtcLaw kind) (.start o) es w) : Inv kind w :=
  inv_of_run (h.mono fun _ _ henv => henv.1)

end

end AlloDataChannel

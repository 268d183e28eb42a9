import AlloDataChannel.RemoteDescription
import AlloDataChannel.RtcLaw

/-!
# Fresh SSRCs

`SsrcAllocator.used` holds every SSRC that the peer has drawn, was asked for or has read from a remote track. Whether a
drawn one can meet an SSRC of the remote side depends on the sections that never reach the track callback.

* `used_subset` : no step takes an SSRC out of `used`;
* `Reserved w` : the SSRCs of the tracks, of the C calls and of the pending calls are in `used`;
* `ssrc_fresh` : the SSRC that a call draws is unlike every earlier one;
* `announced_step` : an announced callback stays to come, or has reserved its SSRCs;
* `remote_ssrc_reserved` : the SSRCs of an applied description are never drawn again exactly when it is `Covered`.
-/

namespace AlloDataChannel
open Lib (Scalars Segmentation KeyedSet Run)

section Step
variable {S : Segmentation} {w w' : World}

theorem used_insert {w : World} {ssrc : UInt32} {sa : SsrcAllocator} {a : Option UInt32} {draws : List Draw}
    (h : w.peer.sa.actualSsrc a draws = some (ssrc, sa)) : w.peer.sa.used ⊆ sa.used ∧ ssrc ∈ sa.used := by
  rw [SsrcAllocator.actualSsrc_used h]
  exact ⟨Finset.subset_insert ssrc _, Finset.mem_insert_self ssrc _⟩

/-- No step takes an SSRC out of `used`. -/
theorem used_subset {e : Event} (hs : step S w e = some w') : w.peer.sa.used ⊆ w'.peer.sa.used := by
  cases step_effect hs with
  | addTrackFailed a draws code pt pat ssrc sa payloadType allocated failed => exact (used_insert allocated).1
  | addTrack a draws code pt pat ssrc sa payloadType allocated ok => exact (used_insert allocated).1
  | remoteTrack dcid description ans msid fresh parsed =>
    intro x hx
    exact SsrcAllocator.mem_reserveAll.mpr (Or.inr hx)
  | _ => exact Finset.Subset.refl _

theorem used_subset_of_run {env : World → Event → Prop} {es : List Event} (h : Run (step S) env w es w') :
    w.peer.sa.used ⊆ w'.peer.sa.used := by
  refine h.rel (I := fun _ => True) (R := fun u v => u.peer.sa.used ⊆ v.peer.sa.used) ?_ ?_ ?_ ?_ trivial
  · intro _ _ _ _ _ _
    trivial
  · intro u
    exact Finset.Subset.refl _
  · intro u v t huv hvt
    exact Finset.Subset.trans huv hvt
  · intro u e v _ _ hs
    exact used_subset hs

/-- The SSRC of a C call that a step makes for a call without an explicit one. -/
theorem drawn_of_step {a : TrackArgs} {draws : List Draw} {code : Int} {init : TrackInit} (ha : a.ssrc = none)
    (hs : step S w (.createTrack a draws code) = some w') (hadd : w'.rtc.added = w.rtc.added ++ [init]) :
    init.ssrc ≠ 0 ∧ init.ssrc ∉ w.peer.sa.used := by
  have hdraw : ∀ pt ssrc sa, w.peer.sa.actualSsrc a.ssrc draws = some (ssrc, sa) →
      w.rtc.added ++ [a.trackInit pt ssrc] = w.rtc.added ++ [init] → init.ssrc ≠ 0 ∧ init.ssrc ∉ w.peer.sa.used := by
    intro pt ssrc sa hssrc he
    rw [List.append_cancel_left_eq, List.cons.injEq] at he
    rw [ha] at hssrc
    obtain ⟨hz, hu, -⟩ := SsrcAllocator.next_eq_some hssrc
    rw [← he.1]
    exact ⟨hz, hu⟩
  cases step_effect hs with
  | noPayloadType => exact absurd (congrArg List.length hadd) (by simp)
  | addTrackFailed a draws code pt pat ssrc sa payloadType allocated failed => exact hdraw pt ssrc sa allocated hadd
  | addTrack a draws code pt pat ssrc sa payloadType allocated ok => exact hdraw pt ssrc sa allocated hadd

end Step

/-! ## Local tracks -/

/-- `rtcGetSsrcsForTrack` on a track that was created with an SSRC lists exactly that one. -/
def CreatedWithSsrc (w : World) : Event → Prop
  | .insertTrack k ans => ∀ f, w.pendingTracks[k]? = some f → ans.ssrcs = [f.actualSsrc]
  | _ => True

structure Reserved (w : World) : Prop where
  tracks : ∀ t ∈ w.peer.tracks, ∀ x ∈ t.ssrcs, x ∈ w.peer.sa.used
  added : ∀ init ∈ w.rtc.added, init.ssrc ∈ w.peer.sa.used
  pending : ∀ f ∈ w.pendingTracks, f.actualSsrc ∈ w.peer.sa.used

namespace Reserved
variable {w w' : World}

theorem start (o : Option IPOverride) : Reserved (.start o) where
  tracks t ht := absurd ht (KeyedSet.not_mem_empty t)
  added _ hi := absurd hi List.not_mem_nil
  pending _ hf := absurd hf List.not_mem_nil

theorem congr (h : Reserved w) (hu : w.peer.sa.used ⊆ w'.peer.sa.used)
    (ht : ∀ t ∈ w'.peer.tracks, t ∈ w.peer.tracks ∨ ∀ x ∈ t.ssrcs, x ∈ w'.peer.sa.used)
    (ha : ∀ init ∈ w'.rtc.added, init ∈ w.rtc.added ∨ init.ssrc ∈ w'.peer.sa.used)
    (hp : ∀ f ∈ w'.pendingTracks, f ∈ w.pendingTracks ∨ f.actualSsrc ∈ w'.peer.sa.used) : Reserved w' where
  tracks t htm x hx := (ht t htm).elim (fun hold => hu (h.tracks t hold x hx)) fun hnew => hnew x hx
  added init hi := (ha init hi).elim (fun hold => hu (h.added init hold)) id
  pending f hf := (hp f hf).elim (fun hold => hu (h.pending f hold)) id

theorem step {S : Segmentation} {e : Event} (h : Reserved w) (henv : CreatedWithSsrc w e)
    (hs : AlloDataChannel.step S w e = some w') : Reserved w' := by
  have hu := used_subset hs
  cases step_effect hs with
  | addTrackFailed a draws code pt pat ssrc sa payloadType allocated failed =>
    refine h.congr hu (fun t ht => Or.inl ht) (fun init hi => ?_) fun f hf => Or.inl hf
    rcases List.mem_append.mp hi with hi | hi
    · exact Or.inl hi
    · rw [List.mem_singleton.mp hi]
      exact Or.inr (used_insert allocated).2
  | addTrack a draws code pt pat ssrc sa payloadType allocated ok =>
    refine h.congr hu (fun t ht => Or.inl ht) (fun init hi => ?_) fun f hf => ?_
    · rcases List.mem_append.mp hi with hi | hi
      · exact Or.inl hi
      · rw [List.mem_singleton.mp hi]
        exact Or.inr (used_insert allocated).2
    · rcases List.mem_append.mp hf with hf | hf
      · exact Or.inl hf
      · rw [List.mem_singleton.mp hf]
        exact Or.inr (used_insert allocated).2
  | existingTrack k ans t found =>
    exact h.congr hu (fun t ht => Or.inl ht) (fun i hi => Or.inl hi) fun f hf => Or.inl (List.mem_of_mem_eraseIdx hf)
  | newTrack k ans f called fresh =>
    refine h.congr hu (fun t ht => ?_) (fun i hi => Or.inl hi) fun f hf => Or.inl (List.mem_of_mem_eraseIdx hf)
    rcases Registry.mem_insert_tracks ht with ht | ht
    · exact Or.inl ht
    · cases ht
      right
      intro x hx
      have hssrcs : ans.ssrcs = [f.actualSsrc] := henv f called
      have hx' : x = f.actualSsrc := List.mem_singleton.mp (hssrcs ▸ hx)
      rw [hx']
      exact h.pending f (List.mem_of_getElem? called)
  | remoteTrack dcid description ans msid fresh parsed =>
    refine h.congr hu (fun t ht => ?_) (fun i hi => Or.inl hi) fun f hf => Or.inl hf
    rcases Registry.mem_insert_tracks ht with ht | ht
    · exact Or.inl ht
    · cases ht
      exact Or.inr fun x hx => SsrcAllocator.mem_reserveAll.mpr (Or.inl hx)
  | close ref c object =>
    exact h.congr hu (fun t ht => Or.inl (Registry.mem_close_tracks ht)) (fun i hi => Or.inl hi) fun f hf => Or.inl hf
  | _ => exact h.congr hu (fun t ht => Or.inl ht) (fun i hi => Or.inl hi) fun f hf => Or.inl hf

end Reserved

theorem reserved_of_run {S : Segmentation} {o : Option IPOverride} {es : List Event} {w : World}
    (h : Run (step S) CreatedWithSsrc (.start o) es w) : Reserved w :=
  h.invariant (fun _ _ _ hi henv hs => hi.step henv hs) (Reserved.start o)

/-- A call without an explicit SSRC that gets a payload type draws the first unused value. -/
theorem createTrackCall_draw {S : Segmentation} {w : World} {a : TrackArgs} {draws : List Draw} (code : Int)
    (hv : a.valid S = true) (ha : a.ssrc = none) (hd : ∃ d ∈ draws, d.val ∉ w.peer.sa.used)
    {pt : Int} {pat : PayloadTypeAllocator} (hp : w.peer.pat.payloadType S a.key = .ok (pt, pat)) :
    ∃ ssrc r w', w.createTrackCall S a draws code = some (r, w') ∧
      w'.rtc.added = w.rtc.added ++ [a.trackInit pt ssrc] ∧ ssrc ≠ 0 ∧ ssrc ∉ w.peer.sa.used := by
  obtain ⟨ssrc, sa, hnext⟩ := SsrcAllocator.exists_next hd
  obtain ⟨hz, hu, -⟩ := SsrcAllocator.next_eq_some hnext
  have hssrc : w.peer.sa.actualSsrc a.ssrc draws = some (ssrc, sa) := by
    rw [ha]
    exact hnext
  have hprep := prepareTrack_ok hv hp hssrc
  obtain ⟨r, hcall⟩ := createTrackCall_of_init code hprep
  exact ⟨ssrc, r, _, hcall, rfl, hz, hu⟩

/-- What holds of the SSRCs in a world `w` that the events `es` lead to. -/
structure SsrcLaw (S : Segmentation) (o : Option IPOverride) (es : List Event) (w : World) : Prop where
  registered : ∀ t ∈ w.peer.tracks, ∀ x ∈ t.ssrcs, x ∈ w.peer.sa.used
  grows : ∀ es' w', Run (step S) CreatedWithSsrc w es' w' → w.peer.sa.used ⊆ w'.peer.sa.used
  /-- The next SSRC drawn is not zero, and unlike that of every C call made so far and of every track that is or was
  registered. -/
  fresh : ∀ a draws code pt pat, a.valid S = true → a.ssrc = none → (∃ d ∈ draws, d.val ∉ w.peer.sa.used) →
    w.peer.pat.payloadType S a.key = .ok (pt, pat) → ∃ ssrc r w', w.createTrackCall S a draws code = some (r, w') ∧
      w'.rtc.added = w.rtc.added ++ [a.trackInit pt ssrc] ∧ ssrc ≠ 0 ∧ (∀ init ∈ w.rtc.added, init.ssrc ≠ ssrc) ∧
      ∀ es₁ es₂ w₁, es = es₁ ++ es₂ → Run (step S) CreatedWithSsrc (.start o) es₁ w₁ →
        ∀ t ∈ w₁.peer.tracks, ssrc ∉ t.ssrcs

/-- **Drawn SSRCs are fresh**, in every reachable world. -/
theorem ssrc_fresh {S : Segmentation} {o : Option IPOverride} {es : List Event} {w : World}
    (h : Run (step S) CreatedWithSsrc (.start o) es w) : SsrcLaw S o es w where
  registered := (reserved_of_run h).tracks
  grows _ _ h' := used_subset_of_run h'
  fresh a draws code pt pat hv ha hd hp := by
    obtain ⟨ssrc, r, w', hcall, hadd, hz, hu⟩ := createTrackCall_draw code hv ha hd hp
    refine ⟨ssrc, r, w', hcall, hadd, hz, fun init hi he => hu ?_, fun es₁ es₂ w₁ hes h₁ t ht hx => hu ?_⟩
    · rw [← he]
      exact (reserved_of_run h).added init hi
    · have hrest : Run (step S) CreatedWithSsrc w₁ es₂ w := (hes ▸ h).rest h₁
      exact used_subset_of_run hrest ((reserved_of_run h₁).tracks t ht ssrc hx)

/-! ## SSRCs of the remote side -/

/-- An announced callback is still to come, or its description had an msid and its SSRCs are reserved. -/
theorem announced_step {S : Segmentation} {kind : Int → ChannelKind} {w w' : World} {e : Event} (hi : RtcInv w)
    (henv : RtcLaw kind w e) (hs : step S w e = some w') {p : Int × Section} (hp : p ∈ w.rtc.announced) :
    p ∈ w'.rtc.announced ∨
      HasMsid (sdpLines S p.2.description) ∧ ∀ x ∈ p.2.answers.ssrcs, x ∈ w'.peer.sa.used := by
  cases step_effect hs with
  | knownTrack dcid description ans known =>
    have hfresh := henv.2.1
    rw [known] at hfresh
    cases hfresh
  | remoteTrack dcid description ans msid fresh parsed =>
    obtain ⟨-, sec, hsec, rfl, rfl⟩ := henv.2
    by_cases hid : p.1 = dcid
    · have heq : p = (dcid, sec) := List.inj_on_of_nodup_map hi.announcedIds hp hsec hid
      rw [heq]
      refine Or.inr ⟨msidOfLines_isSome.mp (Option.isSome_iff_exists.mpr ⟨msid, parsed⟩), fun x hx => ?_⟩
      exact SsrcAllocator.mem_reserveAll.mpr (Or.inl hx)
    · exact Or.inl (List.mem_filter.mpr ⟨hp, by simpa using hid⟩)
  | setRemote secs ids code ok => exact Or.inl (List.mem_append_left _ hp)
  | _ => exact Or.inl hp

theorem announced_of_run {S : Segmentation} {kind : Int → ChannelKind} {w w' : World} {es : List Event}
    (hi : RtcInv w) (h : Run (step S) (RtcLaw kind) w es w') {p : Int × Section} (hp : p ∈ w.rtc.announced) :
    p ∈ w'.rtc.announced ∨
      HasMsid (sdpLines S p.2.description) ∧ ∀ x ∈ p.2.answers.ssrcs, x ∈ w'.peer.sa.used := by
  induction h with
  | nil s => exact Or.inl hp
  | cons henv hs hrest ih =>
    rcases announced_step hi henv hs hp with hp | ⟨hm, hx⟩
    · exact ih (hi.step henv hs) hp
    · exact Or.inr ⟨hm, fun x hmem => used_subset_of_run hrest (hx x hmem)⟩

/-- Once the callbacks of the description have run, no drawn SSRC is one that it announces. -/
def NeverReused (S : Segmentation) (kind : Int → ChannelKind) (w : World) (secs : List Section) (ids : List Int) :
    Prop :=
  ∀ es w', Run (step S) (RtcLaw kind) { w with rtc := w.rtc.setRemote secs ids } es w' →
    (∀ p ∈ w'.rtc.announced, p.1 ∉ ids) →
    ∀ a draws code w'', a.ssrc = none → RtcLaw kind w' (.createTrack a draws code) →
      step S w' (.createTrack a draws code) = some w'' →
      ∀ init, w''.rtc.added = w'.rtc.added ++ [init] → ∀ sec ∈ secs, init.ssrc ∉ sec.answers.ssrcs

/-- Every SSRC of the description is zero, in use already, or announced by a section whose `mid` is new. -/
def Covered (w : World) (secs : List Section) : Prop :=
  ∀ sec ∈ secs, ∀ x ∈ sec.answers.ssrcs,
    x = 0 ∨ x ∈ w.peer.sa.used ∨ ∃ new ∈ w.rtc.newSections secs, x ∈ new.answers.ssrcs

section Remote
variable {S : Segmentation} {kind : Int → ChannelKind} {w w' : World}

/-- The callbacks of announced sections that carry an msid are a run of the library, and reserve their SSRCs only. -/
theorem run_callbacks {announced : List (Int × Section)} (hn : (announced.map Prod.fst).Nodup)
    (hf : ∀ p ∈ announced, w.peer.channels.hasKey p.1 = false) (hk : ∀ p ∈ announced, kind p.1 = .track)
    (ha : ∀ p ∈ announced, p ∈ w.rtc.announced) (hm : ∀ p ∈ announced, HasMsid (sdpLines S p.2.description)) :
    ∃ w', Run (step S) (RtcLaw kind) w (callbacks announced) w' ∧ w'.peer.pat = w.peer.pat ∧
      (∀ p ∈ w'.rtc.announced, p ∈ w.rtc.announced ∧ p.1 ∉ announced.map Prod.fst) ∧
      ∀ x, x ∈ w'.peer.sa.used ↔ x ∈ w.peer.sa.used ∨ ∃ p ∈ announced, x ∈ p.2.answers.ssrcs := by
  induction announced generalizing w with
  | nil => exact ⟨w, .nil w, rfl, fun p hp => ⟨hp, List.not_mem_nil⟩, fun x => by simp⟩
  | cons p ps ih =>
    rw [List.map_cons, List.nodup_cons] at hn
    have hp := hf p List.mem_cons_self
    have hne : ∀ q ∈ ps, q.1 ≠ p.1 := by
      intro q hq he
      exact hn.1 (he ▸ List.mem_map_of_mem hq)
    obtain ⟨w₁, hs⟩ : ∃ w₁, step S w (.trackCallback p.1 p.2.description p.2.answers) = some w₁ :=
      Option.isSome_iff_exists.mp ((step_trackCallback_of_fresh _ _ hp).mpr (hm p List.mem_cons_self))
    have henv : RtcLaw kind w (.trackCallback p.1 p.2.description p.2.answers) :=
      ⟨hk p List.mem_cons_self, hp, p.2, ha p List.mem_cons_self, rfl, rfl⟩
    obtain ⟨hpat₁, hsa, hrtc, -⟩ := trackCallback_frame hp hs
    have hann : ∀ q, q ∈ w₁.rtc.announced ↔ q ∈ w.rtc.announced ∧ q.1 ≠ p.1 := by
      intro q
      rw [hrtc]
      simp
    obtain ⟨w', hrun, hpat, hrest, hused⟩ := ih (w := w₁) hn.2
      (fun q hq => hasKey_trackCallback hp hs (hne q hq) (hf q (List.mem_cons_of_mem p hq)))
      (fun q hq => hk q (List.mem_cons_of_mem p hq))
      (fun q hq => (hann q).mpr ⟨ha q (List.mem_cons_of_mem p hq), hne q hq⟩)
      (fun q hq => hm q (List.mem_cons_of_mem p hq))
    refine ⟨w', .cons henv hs hrun, hpat.trans hpat₁, fun q hq => ?_, fun x => ?_⟩
    · obtain ⟨hq₁, hnot⟩ := hrest q hq
      obtain ⟨hq₀, hne₀⟩ := (hann q).mp hq₁
      refine ⟨hq₀, ?_⟩
      rw [List.map_cons, List.mem_cons, not_or]
      exact ⟨hne₀, hnot⟩
    · rw [hused, hsa, SsrcAllocator.mem_reserveAll, List.exists_mem_cons_iff]
      tauto

/-- A call for a given format. -/
def TrackArgs.ofKey (key : PayloadTypeAllocator.Key) : TrackArgs where
  streamId := []
  trackId := []
  direction := .sendonly
  codec := key.codec
  codecProfile := key.profile
  sampleOrBitrate := key.clock
  channelCount := key.channels

/-- An SSRC that is not zero and not in use can be drawn. -/
theorem exists_draw (hserve : w.peer.pat.Serving) {x : UInt32} (hx : x ≠ 0) (hu : x ∉ w.peer.sa.used) :
    ∃ a draws w' init, a.ssrc = none ∧ RtcLaw kind w (.createTrack a draws (-1)) ∧
      step S w (.createTrack a draws (-1)) = some w' ∧ w'.rtc.added = w.rtc.added ++ [init] ∧ init.ssrc = x := by
  obtain ⟨key, pt, pat, hp⟩ := hserve.exists_key S
  have hv : (TrackArgs.ofKey key).valid S = true := by
    unfold TrackArgs.valid TrackArgs.ofKey
    simp [S.characters_nil]
  have hssrc : w.peer.sa.actualSsrc (TrackArgs.ofKey key).ssrc [⟨x, hx⟩] =
      some (x, { used := insert x w.peer.sa.used }) := SsrcAllocator.next_singleton (d := ⟨x, hx⟩) hu
  have hprep := prepareTrack_ok hv hp hssrc
  refine ⟨TrackArgs.ofKey key, [⟨x, hx⟩], { w with
    peer := { w.peer with pat := pat, sa := { used := insert x w.peer.sa.used } }
    rtc := w.rtc.addTrack ((TrackArgs.ofKey key).trackInit pt x) (-1) }, (TrackArgs.ofKey key).trackInit pt x, rfl, ?_,
    ?_, rfl, rfl⟩
  · exact ⟨fun hc => absurd hc (by omega), fun hc => absurd hc (by omega)⟩
  · rw [step, World.createTrackCall, hprep]
    rfl

/-- A description whose callbacks have run has all it covers in `used`. -/
theorem used_of_covered (hi : RtcInv w) {secs : List Section} {ids : List Int} {es : List Event}
    (hlen : ids.length = (w.rtc.newSections secs).length) (hnd : ids.Nodup) (hnew : ∀ id ∈ ids, id ∉ w.rtc.issued)
    (hrun : Run (step S) (RtcLaw kind) { w with rtc := w.rtc.setRemote secs ids } es w')
    (hdone : ∀ p ∈ w'.rtc.announced, p.1 ∉ ids) :
    (∀ new ∈ w.rtc.newSections secs, HasMsid (sdpLines S new.description)) ∧
      ∀ new ∈ w.rtc.newSections secs, ∀ x ∈ new.answers.ssrcs, x ∈ w'.peer.sa.used := by
  have hboth : ∀ new ∈ w.rtc.newSections secs, HasMsid (sdpLines S new.description) ∧
      ∀ x ∈ new.answers.ssrcs, x ∈ w'.peer.sa.used := by
    intro new hmem
    rw [← map_snd_zip_newSections hlen] at hmem
    obtain ⟨p, hp, rfl⟩ := List.mem_map.mp hmem
    have hid : p.1 ∈ ids := by
      have hfst := List.mem_map_of_mem (f := Prod.fst) hp
      rwa [map_fst_zip_newSections hlen] at hfst
    rcases announced_of_run (hi.setRemote hlen hnd hnew) hrun (List.mem_append_right _ hp) with hann | hres
    · exact absurd hid (hdone p hann)
    · exact hres
  exact ⟨fun new hmem => (hboth new hmem).1, fun new hmem => (hboth new hmem).2⟩

end Remote

theorem serving_of_run {S : Segmentation} {env : World → Event → Prop} {o : Option IPOverride} {es : List Event}
    {w : World} (h : Run (step S) env (.start o) es w) : w.peer.pat.Serving := by
  have hstart : (96 : Int) < 127 := by omega
  refine h.invariant (I := fun w => w.peer.pat.Serving) (fun w e w' hserve _ hs => ?_) (Or.inl hstart)
  cases step_effect hs with
  | addTrackFailed a draws code pt pat ssrc sa payloadType allocated failed => exact hserve.payloadType payloadType
  | addTrack a draws code pt pat ssrc sa payloadType allocated ok => exact hserve.payloadType payloadType
  | _ => exact hserve

/-- Unless a section lacks its msid, the callbacks of an applied description can all run, and reserve nothing more. -/
theorem run_remote {S : Segmentation} {kind : Int → ChannelKind} {w : World} (hi : RtcInv w) (hinv : Inv kind w)
    {secs : List Section} {ids : List Int} {code : Int} (hc : 0 ≤ code)
    (hlaw : RtcLaw kind w (.setRemote secs ids code))
    (hmsid : ∀ new ∈ w.rtc.newSections secs, HasMsid (sdpLines S new.description)) :
    ∃ w', Run (step S) (RtcLaw kind) { w with rtc := w.rtc.setRemote secs ids }
        (callbacks (ids.zip (w.rtc.newSections secs))) w' ∧ w'.peer.pat = w.peer.pat ∧
      (∀ p ∈ w'.rtc.announced, p.1 ∉ ids) ∧
      ∀ x ∈ w'.peer.sa.used, x ∈ w.peer.sa.used ∨ ∃ new ∈ w.rtc.newSections secs, x ∈ new.answers.ssrcs := by
  obtain ⟨hlen, hnd, hids⟩ := hlaw.2 hc
  have hfst := map_fst_zip_newSections hlen
  have hmem : ∀ p ∈ ids.zip (w.rtc.newSections secs), p.1 ∈ ids ∧ p.2 ∈ w.rtc.newSections secs :=
    fun p hp => List.of_mem_zip hp
  have hn : ((ids.zip (w.rtc.newSections secs)).map Prod.fst).Nodup := by
    rw [hfst]
    exact hnd
  have hf : ∀ p ∈ ids.zip (w.rtc.newSections secs), w.peer.channels.hasKey p.1 = false := by
    intro p hp
    obtain ⟨hk, hfresh⟩ := hids p.1 (hmem p hp).1
    rw [← hinv.coherent.hasKey_tracks hk, KeyedSet.hasKey_eq_false_iff]
    intro t ht he
    apply hfresh
    rw [← he]
    exact hi.tracks t ht
  obtain ⟨w', hrun, hpat, hrest, hused⟩ := @run_callbacks S kind { w with rtc := w.rtc.setRemote secs ids } _ hn hf
    (fun p hp => (hids p.1 (hmem p hp).1).1) (fun p hp => List.mem_append_right _ hp)
    (fun p hp => hmsid p.2 (hmem p hp).2)
  refine ⟨w', hrun, hpat, fun p hp => ?_, fun x hx => ?_⟩
  · have hnot := (hrest p hp).2
    rwa [hfst] at hnot
  · rcases (hused x).mp hx with hold | ⟨p, hp, hxp⟩
    · exact Or.inl hold
    · exact Or.inr ⟨p.2, (hmem p hp).2, hxp⟩

/-- **SSRCs of a remote description.** In every reachable world, an applied description's SSRCs are never drawn again
once its callbacks have run, exactly when it is covered, or when a new section without an msid ends the process. -/
theorem remote_ssrc_reserved {S : Segmentation} {kind : Int → ChannelKind} {o : Option IPOverride} {es : List Event}
    {w : World} (h : Run (step S) (RtcLaw kind) (.start o) es w) {secs : List Section} {ids : List Int}
    {code : Int} (hc : 0 ≤ code) (hlaw : RtcLaw kind w (.setRemote secs ids code)) :
    NeverReused S kind w secs ids ↔
      Covered w secs ∨ ∃ new ∈ w.rtc.newSections secs, ¬ HasMsid (sdpLines S new.description) := by
  have hi := rtcInv_of_run h
  refine ⟨fun hnever => ?_, fun hcov => ?_⟩
  · by_contra hnot
    unfold Covered at hnot
    push Not at hnot
    obtain ⟨⟨sec, hsec, x, hx, hz, hu, hno⟩, hmsid⟩ := hnot
    -- the callbacks run through, and leave the SSRC `x` to be drawn
    obtain ⟨w', hrun, hpat, hdone, hused⟩ := run_remote hi (inv_of_lawful_run h) hc hlaw hmsid
    have hu' : x ∉ w'.peer.sa.used := by
      intro hx'
      rcases hused x hx' with hold | ⟨new, hnew, hxn⟩
      · exact hu hold
      · exact hno new hnew hxn
    have hserve : w'.peer.pat.Serving := hpat ▸ serving_of_run h
    obtain ⟨a, draws, w'', init, ha, henv, hs, hadd, rfl⟩ := @exists_draw S kind w' hserve x hz hu'
    exact hnever _ w' hrun hdone a draws (-1) w'' ha henv hs init hadd sec hsec hx
  · intro es' w' hrun hdone a draws code w'' ha henv hs init hadd sec hsec hx
    obtain ⟨hlen, hnd, hids⟩ := hlaw.2 hc
    obtain ⟨hall, hused⟩ := used_of_covered hi hlen hnd (fun id hid => (hids id hid).2) hrun hdone
    obtain ⟨hz, hu⟩ := drawn_of_step ha hs hadd
    rcases hcov with hcov | ⟨new, hmem, hno⟩
    · rcases hcov sec hsec init.ssrc hx with h0 | hin | ⟨new, hmem, hxn⟩
      · exact hz h0
      · apply hu
        exact used_subset_of_run hrun hin
      · apply hu
        exact hused new hmem _ hxn
    · apply hno
      exact hall new hmem

/-! ## A local track that the remote side answers -/

/-- A track of the stream `cam`, added with the SSRC 5. -/
def localTrack (args : TrackArgs) : List Event :=
  [.createTrack args [⟨5, by decide⟩] 1, .insertTrack 0 { ssrcs := [5], direction := .sendrecv }]

def cameraArgs : TrackArgs where
  streamId := "cam".toList
  trackId := "video".toList
  direction := .sendrecv
  codec := .H264
  sampleOrBitrate := 90000
  channelCount := 0

/-- The section with which the remote side answers that track, sending with the SSRC 7. -/
def answerSection : Section :=
  { mid := "cam".toList, description := "a=msid:cam video".toList, answers := { ssrcs := [7], direction := .sendrecv } }

theorem ssrc_fresh_example : ∃ w, Lib.exec (step .scalars) (.start none) (localTrack cameraArgs) = some w ∧
    SsrcLaw .scalars none (localTrack cameraArgs) w := by
  refine ⟨_, rfl, ssrc_fresh (.cons trivial rfl (.cons ?_ rfl (.nil _)))⟩
  intro f hf
  cases hf
  rfl

/-- The answer's SSRC is announced for a known `mid`, and then drawn for the next local track. -/
theorem remote_ssrc_reused : ∃ w,
    Run (step .scalars) (RtcLaw fun _ => .track) (.start none) (localTrack cameraArgs) w ∧
      RtcLaw (fun _ => .track) w (.setRemote [answerSection] [] 0) ∧
      ¬ NeverReused .scalars (fun _ => .track) w [answerSection] [] := by
  refine ⟨_, .cons ⟨fun _ => rfl, fun _ => Or.inr List.not_mem_nil⟩ rfl (.cons ⟨trivial, trivial⟩ rfl (.nil _)),
    ⟨trivial, fun _ => ⟨rfl, List.nodup_nil, fun id hid => absurd hid List.not_mem_nil⟩⟩, fun hnever => ?_⟩
  refine hnever [] _ (.nil _) (fun p _ => List.not_mem_nil) { cameraArgs with streamId := "screen".toList }
    [⟨7, by decide⟩] 2 _ rfl ⟨fun _ => rfl, fun _ => Or.inr (by decide)⟩ rfl _ rfl answerSection
    List.mem_cons_self ?_
  decide

/-- A description with a section for a new `mid` only. -/
theorem remote_ssrc_reserved_example :
    NeverReused .scalars (fun _ => .track) (.start none) [answerSection] [1] := by
  refine (remote_ssrc_reserved (.nil _) (le_refl 0) ⟨trivial, fun _ => ⟨rfl, by decide, ?_⟩⟩).mpr (Or.inl ?_)
  · exact fun id _ => ⟨rfl, List.not_mem_nil⟩
  · intro sec hsec x hx
    exact Or.inr (Or.inr ⟨answerSection, List.mem_cons_self, List.mem_singleton.mp hsec ▸ hx⟩)

end AlloDataChannel

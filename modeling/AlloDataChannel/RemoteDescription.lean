import AlloDataChannel.Registry

/-!
# The track callbacks of a remote description

A remote description is any list of media sections. The C library gives an id to each section whose `mid` is new and
calls the track callback for it.

* `callbacks` : the callbacks of the new sections, one after the other;
* `Handled w w' ids` : each id is registered, or refused with the registry as it was;
* `exec_callbacks` : the callbacks pass without a trap exactly when every section carries an msid;
* `remote_description_handled` : the same for a description applied in any reachable world.
-/

namespace AlloDataChannel
open Lib (Scalars Segmentation KeyedSet Run exec)

/-- The track callbacks of the announced sections. -/
def callbacks (announced : List (Int × Section)) : List Event :=
  announced.map fun p => .trackCallback p.1 p.2.description p.2.answers

/-- Each id has a track, in `channels` and in `tracks`, or has what it had before; no other id is touched. -/
structure Handled (w w' : World) (ids : List Int) : Prop where
  each : ∀ id ∈ ids, (∃ t ∈ w'.peer.tracks, t.id = id ∧ .track t ∈ w'.peer.channels) ∨
    w'.peer.lookup id = w.peer.lookup id
  others : ∀ id ∉ ids, w'.peer.lookup id = w.peer.lookup id

/-- The ids that the C library gives to the new sections of a description: track ids, not in the registry yet. -/
structure FreshIds (kind : Int → ChannelKind) (w : World) (secs : List Section) (ids : List Int) : Prop where
  length_eq : ids.length = (w.rtc.newSections secs).length
  nodup : ids.Nodup
  kind : ∀ id ∈ ids, kind id = .track
  unregistered : ∀ id ∈ ids, w.peer.channels.hasKey id = false

section Callbacks
variable {S : Segmentation} {kind : Int → ChannelKind} {w w' : World}

/-- The callback of an unregistered id traps, or registers a track under it. -/
theorem step_trackCallback_of_fresh {dcid : Int} (description : Scalars) (ans : TrackAnswers)
    (hf : w.peer.channels.hasKey dcid = false) :
    (step S w (.trackCallback dcid description ans)).isSome ↔ HasMsid (sdpLines S description) := by
  rw [step, trackCallback_of_fresh description ans hf, Option.isSome_map, Option.isSome_map]
  exact msidOfLines_isSome

/-- What the callback of an unregistered id leaves behind. -/
theorem trackCallback_frame {dcid : Int} {description : Scalars} {ans : TrackAnswers}
    (hf : w.peer.channels.hasKey dcid = false) (hs : step S w (.trackCallback dcid description ans) = some w') :
    w'.peer.pat = w.peer.pat ∧ w'.peer.sa = w.peer.sa.reserveAll ans.ssrcs ∧
      w'.rtc = { w.rtc with announced := w.rtc.announced.filter fun p => p.1 ≠ dcid } ∧
      ∃ t, t.id = dcid ∧ w'.peer.lookup = Function.update w.peer.lookup dcid (some (.track t)) := by
  cases step_effect hs with
  | knownTrack _ _ _ known =>
    rw [hf] at known
    cases known
  | remoteTrack _ _ _ msid fresh parsed =>
    exact ⟨rfl, rfl, rfl, w.newTrack dcid msid.streamId msid.trackId ans, rfl,
      Registry.lookup_insert (c := .track (w.newTrack dcid msid.streamId msid.trackId ans)) hf⟩

theorem hasKey_iff_lookup {id : Int} : w.peer.channels.hasKey id = false ↔ w.peer.lookup id = none :=
  KeyedSet.find?_eq_none_iff_hasKey.symm

/-- The ids that are still to come stay unregistered. -/
theorem hasKey_trackCallback {dcid id : Int} {description : Scalars} {ans : TrackAnswers}
    (hf : w.peer.channels.hasKey dcid = false) (hs : step S w (.trackCallback dcid description ans) = some w')
    (hne : id ≠ dcid) (hid : w.peer.channels.hasKey id = false) : w'.peer.channels.hasKey id = false := by
  obtain ⟨-, -, -, t, -, hl⟩ := trackCallback_frame hf hs
  rw [hasKey_iff_lookup, hl, Function.update_of_ne hne]
  exact hasKey_iff_lookup.mp hid

/-- **Callbacks in sequence.** They end without a trap exactly when every section carries an msid. -/
theorem exec_callbacks {announced : List (Int × Section)}
    (hf : ∀ p ∈ announced, w.peer.channels.hasKey p.1 = false) (hn : (announced.map Prod.fst).Nodup) :
    (exec (step S) w (callbacks announced)).isSome ↔ ∀ p ∈ announced, HasMsid (sdpLines S p.2.description) := by
  induction announced generalizing w with
  | nil => exact ⟨fun _ p hp => absurd hp List.not_mem_nil, fun _ => rfl⟩
  | cons p ps ih =>
    have hp := hf p List.mem_cons_self
    rw [List.map_cons, List.nodup_cons] at hn
    rw [List.forall_mem_cons, ← step_trackCallback_of_fresh p.2.description p.2.answers hp]
    show ((step S w (.trackCallback p.1 p.2.description p.2.answers)).bind fun t =>
      exec (step S) t (callbacks ps)).isSome ↔ _
    cases hs : step S w (.trackCallback p.1 p.2.description p.2.answers) with
    | none => simp
    | some w₁ =>
      rw [Option.bind_some, ih ?_ hn.2]
      · simp
      · intro q hq
        refine hasKey_trackCallback hp hs (fun he => hn.1 ?_) (hf q (List.mem_cons_of_mem p hq))
        rw [← he]
        exact List.mem_map_of_mem hq

theorem lookup_callbacks {announced : List (Int × Section)}
    (hf : ∀ p ∈ announced, w.peer.channels.hasKey p.1 = false) (hn : (announced.map Prod.fst).Nodup)
    (h : exec (step S) w (callbacks announced) = some w') :
    (∀ id ∈ announced.map Prod.fst, ∃ t, t.id = id ∧ w'.peer.lookup id = some (.track t)) ∧
      ∀ id ∉ announced.map Prod.fst, w'.peer.lookup id = w.peer.lookup id := by
  induction announced generalizing w with
  | nil =>
    cases h
    exact ⟨fun id hid => absurd hid List.not_mem_nil, fun id _ => rfl⟩
  | cons p ps ih =>
    have hp := hf p List.mem_cons_self
    rw [List.map_cons, List.nodup_cons] at hn
    obtain ⟨w₁, hs, h⟩ := Option.bind_eq_some_iff.mp h
    obtain ⟨-, -, -, t, hid, hl⟩ := trackCallback_frame hp hs
    have hf₁ : ∀ q ∈ ps, w₁.peer.channels.hasKey q.1 = false := by
      intro q hq
      refine hasKey_trackCallback hp hs (fun he => hn.1 ?_) (hf q (List.mem_cons_of_mem p hq))
      rw [← he]
      exact List.mem_map_of_mem hq
    obtain ⟨heach, hothers⟩ := ih hf₁ hn.2 h
    refine ⟨fun id hmem => ?_, fun id hmem => ?_⟩
    · rcases List.mem_cons.mp hmem with rfl | hmem
      · refine ⟨t, hid, ?_⟩
        rw [hothers _ hn.1, hl, Function.update_self]
      · exact heach id hmem
    · rw [List.map_cons, List.mem_cons, not_or] at hmem
      rw [hothers id hmem.2, hl, Function.update_of_ne hmem.1]

theorem uniqueIds_callbacks {announced : List (Int × Section)} (hk : ∀ p ∈ announced, kind p.1 = .track) (w : World) :
    ∀ e ∈ callbacks announced, UniqueIds kind w e := by
  intro e he
  obtain ⟨p, hp, rfl⟩ := List.mem_map.mp he
  exact hk p hp

end Callbacks

/-- **A remote description.** In every reachable world, applying a description and running its track callbacks handles
every new id without a trap exactly when each new section carries an msid. -/
theorem remote_description_handled {S : Segmentation} {kind : Int → ChannelKind} {o : Option IPOverride}
    {es : List Event} {w : World} (h : Run (step S) (UniqueIds kind) (.start o) es w) {secs : List Section}
    {ids : List Int} (hids : FreshIds kind w secs ids) :
    (∃ w', exec (step S) w (.setRemote secs ids 0 :: callbacks (ids.zip (w.rtc.newSections secs))) = some w' ∧
      Handled w w' ids) ↔
    ∀ sec ∈ w.rtc.newSections secs, HasMsid (sdpLines S sec.description) := by
  have hfst := map_fst_zip_newSections hids.length_eq
  have hsnd := map_snd_zip_newSections hids.length_eq
  obtain ⟨w₁, hw₁⟩ : ∃ w₁, w₁ = (w.setRemote secs ids 0).2 := ⟨_, rfl⟩
  have hpeer : w₁.peer = w.peer := by rw [hw₁]; rfl
  have hf : ∀ p ∈ ids.zip (w.rtc.newSections secs), w₁.peer.channels.hasKey p.1 = false := by
    intro p hp
    rw [hpeer]
    exact hids.unregistered p.1 (hfst ▸ List.mem_map_of_mem hp)
  have hn : ((ids.zip (w.rtc.newSections secs)).map Prod.fst).Nodup := by
    rw [hfst]
    exact hids.nodup
  have hexec : exec (step S) w (.setRemote secs ids 0 :: callbacks (ids.zip (w.rtc.newSections secs))) =
      exec (step S) w₁ (callbacks (ids.zip (w.rtc.newSections secs))) := by rw [hw₁]; rfl
  have hsome := exec_callbacks (S := S) hf hn
  have hforall : (∀ p ∈ ids.zip (w.rtc.newSections secs), HasMsid (sdpLines S p.2.description)) ↔
      ∀ sec ∈ w.rtc.newSections secs, HasMsid (sdpLines S sec.description) := by
    have hmap := List.forall_mem_map (f := Prod.snd) (l := ids.zip (w.rtc.newSections secs))
      (P := fun sec => HasMsid (sdpLines S sec.description))
    rw [hsnd] at hmap
    exact hmap.symm
  rw [hexec, ← hforall, ← hsome]
  refine ⟨fun hw => ?_, fun hs => ?_⟩
  · obtain ⟨w', hw', -⟩ := hw
    exact Option.isSome_iff_exists.mpr ⟨w', hw'⟩
  · obtain ⟨w', hw'⟩ := Option.isSome_iff_exists.mp hs
    obtain ⟨heach, hothers⟩ := lookup_callbacks hf hn hw'
    rw [hfst] at heach hothers
    have hoffered : ∀ v, ∀ e ∈ .setRemote secs ids 0 :: callbacks (ids.zip (w.rtc.newSections secs)),
        UniqueIds kind v e := by
      intro v e he
      rcases List.mem_cons.mp he with rfl | he
      · trivial
      · exact uniqueIds_callbacks (fun p hp => hids.kind p.1 (hfst ▸ List.mem_map_of_mem hp)) v e he
    have hi : Inv kind w' := (inv_of_run h).run (Run.of_exec hoffered (hexec.trans hw'))
    refine ⟨w', hw', fun id hid => Or.inl ?_, fun id hid => ?_⟩
    · obtain ⟨t, htid, hl⟩ := heach id hid
      have hc := (Registry.lookup_eq_some.mp hl).1
      exact ⟨t, hi.coherent.track_mem.mp hc, htid, hc⟩
    · rw [hothers id hid, hpeer]

/-- A section with its `mid` only, and one whose `a=msid:` is followed by nothing. -/
def bareSection : Section :=
  { mid := "0".toList, description := "a=mid:0\r\na=msid:\r\n".toList,
    answers := { ssrcs := [], direction := .recvonly } }

def msidSection : Section :=
  { bareSection with description := "a=mid:0\r\na=msid:cam video\r\n".toList }

theorem freshIds_singleton (sec : Section) : FreshIds (fun _ => .track) (.start none) [sec] [1] :=
  ⟨rfl, List.nodup_singleton 1, fun _ _ => rfl, fun _ _ => rfl⟩

/-- The first callback ends the process. -/
theorem remote_description_trap :
    ¬ ∃ w', exec (step .scalars) (.start none) (.setRemote [bareSection] [1] 0 :: callbacks [(1, bareSection)]) =
      some w' ∧ Handled (.start none) w' [1] := by
  intro h
  obtain ⟨w', hw', -⟩ := h
  have hmsid : msidOfLines (sdpLines .scalars bareSection.description) = none := by decide
  have hs := (@exec_callbacks .scalars ((World.start none).setRemote [bareSection] [1] 0).2 [(1, bareSection)]
    (fun _ _ => rfl) (List.nodup_singleton 1)).mp (Option.isSome_iff_exists.mpr ⟨w', hw'⟩) _ List.mem_cons_self
  rw [← msidOfLines_isSome, hmsid] at hs
  cases hs

theorem remote_description_handled_example :
    ∃ w', exec (step .scalars) (.start none) (.setRemote [msidSection] [1] 0 :: callbacks [(1, msidSection)]) =
      some w' ∧ Handled (.start none) w' [1] := by
  refine (@remote_description_handled .scalars (fun _ => .track) none [] _ (.nil _) [msidSection] [1]
    (freshIds_singleton msidSection)).mpr ?_
  intro sec hsec
  rw [← msidOfLines_isSome, List.mem_singleton.mp hsec]
  decide

end AlloDataChannel

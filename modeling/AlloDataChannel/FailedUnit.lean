import AlloDataChannel.FailedCreateTrack
import AlloDataChannel.Forwarding

/-!
# A `MediaForwardingUnit` that is not made

The initialiser can throw at the session of the ingress track, at `createTrack` and at the session of the egress track.
It subscribes last.

* `MediaForwardingUnit.create` : the whole initialiser, with its subscription;
* `init_failed` : what a failed initialiser leaves behind;
* `Alike` : two worlds in which the initialiser does the same to the registry;
* `no_orphan_iff` : a failed initialiser leaves no track behind exactly when it had made none.
-/

namespace AlloDataChannel
open Lib (Scalars Segmentation KeyedSet)

/-- `MediaForwardingUnit.init` on the ingress track of `f`, with the subscription at its end and the first message. -/
def MediaForwardingUnit.create (S : Segmentation) (R : RtpLibrary) (f : Forwarding) (ingress : ChannelState) (w : World)
    (fromClientId : Scalars) (ans : InitAnswers) (sink : SinkAnswers) :
    Option (Except Thrown MediaForwardingUnit × Forwarding × ChannelState × World) :=
  match init S ingress w { fromClientId := fromClientId, ingressTrack := f.ingress } ans with
  | none => none
  | some (.error e, ingress', w') => some (.error e, f, ingress', w')
  | some (.ok u, ingress', w') =>
    (f.step R (.attach u.egressTrack (w'.heap.state u.egressTrack.ref).isOpen sink)).map fun f' =>
      (.ok u, f', ingress', w')

/-! ## Worlds alike for a unit -/

section Alike
variable {S : Segmentation} {w w' : World}

/-- A format that has got a payload type gets it again. -/
theorem payloadType_again {p q : PayloadTypeAllocator} {key : PayloadTypeAllocator.Key} {pt : Int}
    (h : p.payloadType S key = .ok (pt, q)) : q.payloadType S key = .ok (pt, q) := by
  rw [PayloadTypeAllocator.payloadType_eq_ok] at h ⊢
  rcases h with ⟨hl, rfl⟩ | ⟨-, -, rfl, rfl⟩
  · exact Or.inl ⟨hl, rfl⟩
  · exact Or.inl ⟨PayloadTypeAllocator.find_cons_of_same (PayloadTypeAllocator.Key.same_refl S key), rfl⟩

/-- The worlds have one registry and one heap, and the format gets a payload type in both or in none. -/
structure Alike (S : Segmentation) (key : PayloadTypeAllocator.Key) (w w' : World) : Prop where
  registry : w'.peer.toRegistry = w.peer.toRegistry
  heap : w'.heap = w.heap
  payloadType : w'.peer.pat = w.peer.pat ∨
    ∃ pt pat pt' pat', w.peer.pat.payloadType S key = .ok (pt, pat) ∧ w'.peer.pat.payloadType S key = .ok (pt', pat')

theorem Alike.refl (key : PayloadTypeAllocator.Key) (w : World) : Alike S key w w := ⟨rfl, rfl, Or.inl rfl⟩

theorem Alike.of_allocators {key : PayloadTypeAllocator.Key} {pt : Int} {pat : PayloadTypeAllocator}
    (sa : SsrcAllocator) (rtc : Rtc) (h : w.peer.pat.payloadType S key = .ok (pt, pat)) :
    Alike S key w { w with peer := { w.peer with pat := pat, sa := sa }, rtc := rtc } :=
  ⟨rfl, rfl, Or.inr ⟨pt, pat, pt, pat, h, payloadType_again h⟩⟩

theorem Alike.not_exhausted {key : PayloadTypeAllocator.Key} (h : Alike S key w w') {pt : Int}
    {pat : PayloadTypeAllocator} {e : Thrown} (hok : w.peer.pat.payloadType S key = .ok (pt, pat))
    (herr : w'.peer.pat.payloadType S key = .error e) : False := by
  rcases h.payloadType with hpat | ⟨pt₁, pat₁, pt₂, pat₂, -, hok'⟩
  · rw [hpat, hok] at herr
    cases herr
  · rw [hok'] at herr
    cases herr

theorem Alike.symm {key : PayloadTypeAllocator.Key} (h : Alike S key w w') : Alike S key w' w := by
  refine ⟨h.registry.symm, h.heap.symm, ?_⟩
  rcases h.payloadType with hpat | ⟨pt, pat, pt', pat', hok, hok'⟩
  · exact Or.inl hpat.symm
  · exact Or.inr ⟨pt', pat', pt, pat, hok', hok⟩

theorem payloadType_error {p : PayloadTypeAllocator} {key : PayloadTypeAllocator.Key} {e : Thrown}
    (h : p.payloadType S key = .error e) : e = .exhausted := by
  unfold PayloadTypeAllocator.payloadType at h
  split at h
  · cases h
  · split at h
    · cases h
    · cases h
      rfl

/-- In worlds that are alike, a call with one answer has one result and does the same to the registry and the heap,
whatever SSRCs are drawn. -/
theorem createTrack_alike {a : TrackArgs} {draws draws' : List Draw} {code : Int} {ans : TrackAnswers}
    {r r' : Except Thrown Track} {v v' : World} (h : Alike S a.key w w')
    (hw : w.createTrack S a draws code ans = some (r, v)) (hw' : w'.createTrack S a draws' code ans = some (r', v')) :
    r' = r ∧ v'.peer.toRegistry = v.peer.toRegistry ∧ v'.heap = v.heap := by
  have htracks : w'.peer.tracks = w.peer.tracks := congrArg Registry.tracks h.registry
  have hnew : w'.newTrack code a.streamId a.trackId ans = w.newTrack code a.streamId a.trackId ans := by
    unfold World.newTrack
    rw [h.heap]
  cases outcome_of_createTrack hw with
  | exhausted e hp =>
    cases outcome_of_createTrack hw' with
    | exhausted e' hp' =>
      rw [payloadType_error hp, payloadType_error hp']
      exact ⟨rfl, h.registry, h.heap⟩
    | failed pt pat ssrc sa hp' => exact (h.symm.not_exhausted hp' hp).elim
    | existing pt pat ssrc sa t hp' => exact (h.symm.not_exhausted hp' hp).elim
    | new pt pat ssrc sa hp' => exact (h.symm.not_exhausted hp' hp).elim
  | failed pt pat ssrc sa hp hs hc =>
    cases outcome_of_createTrack hw' with
    | exhausted e' hp' => exact (h.not_exhausted hp hp').elim
    | failed => exact ⟨rfl, h.registry, h.heap⟩
    | existing _ _ _ _ _ _ _ hc' => omega
    | new _ _ _ _ _ _ hc' => omega
  | existing pt pat ssrc sa t hp hs hc hf =>
    cases outcome_of_createTrack hw' with
    | exhausted e' hp' => exact (h.not_exhausted hp hp').elim
    | failed _ _ _ _ _ _ hc' => omega
    | existing _ _ _ _ t' _ _ _ hf' =>
      rw [htracks, hf] at hf'
      cases hf'
      exact ⟨rfl, h.registry, h.heap⟩
    | new _ _ _ _ _ _ _ hfresh =>
      rw [htracks, ← KeyedSet.find?_eq_none_iff_hasKey, hf] at hfresh
      cases hfresh
  | new pt pat ssrc sa hp hs hc hfresh =>
    cases outcome_of_createTrack hw' with
    | exhausted e' hp' => exact (h.not_exhausted hp hp').elim
    | failed _ _ _ _ _ _ hc' => omega
    | existing _ _ _ _ t' _ _ _ hf' =>
      rw [htracks, KeyedSet.find?_eq_none_iff_hasKey.mpr hfresh] at hf'
      cases hf'
    | new =>
      rw [hnew]
      refine ⟨rfl, ?_, ?_⟩
      · exact congrArg (fun r : Registry => r.insert (.track (w.newTrack code a.streamId a.trackId ans))) h.registry
      · exact congrArg (fun x : Heap => x.alloc (.track (w.newTrack code a.streamId a.trackId ans))) h.heap

end Alike

/-! ## The initialiser -/

section Init
open MediaForwardingUnit
variable {S : Segmentation} {w w' : World} {ingress ingress' : ChannelState} {a : Source} {ans : InitAnswers}

/-- The three places to throw, and what has happened until then. -/
inductive Failed (S : Segmentation) (ingress : ChannelState) (w : World) (a : Source) (ans : InitAnswers)
    (e : Thrown) : World → Prop
  | ingressSession (first : ingress.hasInstalledRtcpReceivingSession = false) (failed : ans.ingressSession < 0) :
    Failed S ingress w a ans e w
  | createTrack (w' : World) (call : w.createTrack S a.egressArgs ans.draws ans.code ans.track = some (.error e, w')) :
    Failed S ingress w a ans e w'
  | egressSession (w' : World) (egress : Track)
    (ingressOk : ¬ (ingress.hasInstalledRtcpReceivingSession = false ∧ ans.ingressSession < 0))
    (call : w.createTrack S a.egressArgs ans.draws ans.code ans.track = some (.ok egress, w')) :
    Failed S ingress w a ans e w'

/-- A session that cannot be installed leaves the state of its track. -/
theorem installRtcpReceivingSession_error {s s' : ChannelState} {code : Int} {e : Error}
    (h : s.installRtcpReceivingSession code = (.error e, s')) :
    s' = s ∧ s.hasInstalledRtcpReceivingSession = false ∧ code < 0 := by
  unfold ChannelState.installRtcpReceivingSession at h
  split at h
  · cases h
  · next hinstalled =>
    rcases lt_or_ge code 0 with hc | hc
    · rw [Error.orValue_of_neg hc] at h
      cases h
      exact ⟨rfl, Bool.not_eq_true _ ▸ hinstalled, hc⟩
    · rw [Error.orValue_of_nonneg hc] at h
      cases h

theorem installRtcpReceivingSession_ok {s s' : ChannelState} {code : Int}
    (h : s.installRtcpReceivingSession code = (.ok (), s')) :
    ¬ (s.hasInstalledRtcpReceivingSession = false ∧ code < 0) := by
  rintro ⟨hinstalled, hc⟩
  unfold ChannelState.installRtcpReceivingSession at h
  rw [hinstalled, if_neg Bool.false_ne_true, Error.orValue_of_neg hc] at h
  cases h

theorem init_failed {e : Thrown} (h : init S ingress w a ans = some (.error e, ingress', w')) :
    Failed S ingress w a ans e w' := by
  unfold MediaForwardingUnit.init at h
  split at h
  · next hinstall =>
    cases h
    obtain ⟨-, hfirst, hc⟩ := installRtcpReceivingSession_error hinstall
    exact .ingressSession hfirst hc
  · next hinstall =>
    split at h
    · cases h
    · next hcall =>
      cases h
      exact .createTrack w' hcall
    · next egress w₁ hcall =>
      split at h
      · next hegress =>
        cases h
        obtain ⟨rfl, -, -⟩ := installRtcpReceivingSession_error hegress
        -- the state of the egress track is written back as it was
        have hsame : w₁.setState egress.ref (w₁.heap.state egress.ref) = w₁ := by
          unfold World.setState
          rw [Function.update_eq_self]
        rw [hsame]
        exact .egressSession w₁ egress (installRtcpReceivingSession_ok hinstall) hcall
      · split at h
        · cases h
        · cases h

/-- In worlds that are alike, initialisers with one set of answers have one result and do the same to the registry. -/
theorem init_alike {draws : List Draw} {r r' : Except Thrown MediaForwardingUnit} {s s' : ChannelState} {v v' : World}
    (h : Alike S a.egressArgs.key w w') (hw : init S ingress w a { ans with draws := draws } = some (r, s, v))
    (hw' : init S ingress w' a ans = some (r', s', v')) :
    r' = r ∧ s' = s ∧ v'.peer.toRegistry = v.peer.toRegistry := by
  unfold MediaForwardingUnit.init at hw hw'
  cases hinstall : ingress.installRtcpReceivingSession ans.ingressSession with
  | mk result state =>
    dsimp only at hw hw'
    rw [hinstall] at hw hw'
    cases result with
    | error e =>
      cases hw
      cases hw'
      exact ⟨rfl, rfl, h.registry⟩
    | ok u =>
      dsimp only at hw hw'
      cases hcall : w.createTrack S a.egressArgs draws ans.code ans.track with
      | none =>
        rw [hcall] at hw
        cases hw
      | some q =>
        obtain ⟨q, w₁⟩ := q
        cases hcall' : w'.createTrack S a.egressArgs ans.draws ans.code ans.track with
        | none =>
          rw [hcall'] at hw'
          cases hw'
        | some q' =>
          obtain ⟨q', w₁'⟩ := q'
          obtain ⟨rfl, hregistry, hheap⟩ := createTrack_alike h hcall hcall'
          rw [hcall] at hw
          rw [hcall'] at hw'
          cases q' with
          | error e =>
            cases hw
            cases hw'
            exact ⟨rfl, rfl, hregistry⟩
          | ok egress =>
            dsimp only at hw hw'
            rw [hheap] at hw'
            cases hegress : (w₁.heap.state egress.ref).installRtcpReceivingSession ans.egressSession with
            | mk result' state' =>
              rw [hegress] at hw hw'
              cases result' with
              | error e =>
                cases hw
                cases hw'
                exact ⟨rfl, rfl, hregistry⟩
              | ok u' =>
                dsimp only at hw hw'
                cases hpli : Error.orValue ans.pliHandler with
                | error e =>
                  rw [hpli] at hw
                  cases hw
                | ok n =>
                  rw [hpli] at hw hw'
                  cases hw
                  cases hw'
                  exact ⟨rfl, rfl, hregistry⟩

/-! ## Orphans -/

/-- The initialiser threw before it had made a track: at the session of the ingress track, or in `createTrack`; or
`rtcAddTrackEx` returned the id of a track that was there before. -/
def MadeNoTrack (S : Segmentation) (ingress : ChannelState) (w : World) (a : Source) (ans : InitAnswers) : Prop :=
  ingress.hasInstalledRtcpReceivingSession = false ∧ ans.ingressSession < 0 ∨
    (∃ e, w.peer.pat.payloadType S a.egressArgs.key = .error e) ∨ ans.code < 0 ∨ w.peer.tracks.hasKey ans.code = true

/-- A failed initialiser has left the egress peer's sets and the subscriptions of the ingress track as they were, and a
retry with the same arguments does to the egress peer's registry what it would do if it were the first attempt there,
with the same answers of the C library and any SSRCs drawn. -/
structure NoOrphan (S : Segmentation) (a : Source) (f : Forwarding) (w : World) (f' : Forwarding)
    (ingress' : ChannelState) (w' : World) : Prop where
  channels : w'.peer.channels = w.peer.channels
  tracks : w'.peer.tracks = w.peer.tracks
  subscriptions : f'.units = f.units
  retry : ∀ ans draws r r' s s' v v', init S ingress' w' a ans = some (r', s', v') →
    init S ingress' w a { ans with draws := draws } = some (r, s, v) →
    r' = r ∧ v'.peer.toRegistry = v.peer.toRegistry

theorem alike_of_failed {e : Thrown} (h : Failed S ingress w a ans e w') (hno : MadeNoTrack S ingress w a ans) :
    Alike S a.egressArgs.key w w' := by
  cases h with
  | ingressSession => exact .refl _ w
  | createTrack _ call =>
    cases outcome_of_createTrack call with
    | exhausted => exact .refl _ w
    | failed pt pat ssrc sa hp => exact .of_allocators sa _ hp
  | egressSession _ egress hingress call =>
    cases outcome_of_createTrack call with
    | existing pt pat ssrc sa _ hp => exact .of_allocators sa _ hp
    | new pt pat ssrc sa hp _ hc hfresh =>
      rcases hno with hfailed | ⟨e, he⟩ | hneg | hkey
      · exact absurd hfailed hingress
      · rw [hp] at he
        cases he
      · omega
      · rw [hfresh] at hkey
        cases hkey

theorem madeNoTrack_of_tracks {e : Thrown} (h : Failed S ingress w a ans e w')
    (htracks : w'.peer.tracks = w.peer.tracks) : MadeNoTrack S ingress w a ans := by
  cases h with
  | ingressSession hfirst hc => exact Or.inl ⟨hfirst, hc⟩
  | createTrack _ call =>
    cases outcome_of_createTrack call with
    | exhausted _ hp => exact Or.inr (Or.inl ⟨_, hp⟩)
    | failed _ _ _ _ _ _ hc => exact Or.inr (Or.inr (Or.inl hc))
  | egressSession _ egress hingress call =>
    cases outcome_of_createTrack call with
    | existing _ _ _ _ _ _ _ _ hf =>
      exact Or.inr (Or.inr (Or.inr (KeyedSet.hasKey_iff.mpr ⟨egress, KeyedSet.find?_eq_some.mp hf⟩)))
    | new _ _ _ _ _ _ _ hfresh =>
      -- the new track is registered
      have hmem : w.newTrack ans.code a.egressArgs.streamId a.egressArgs.trackId ans.track ∈ w.peer.tracks := by
        rw [← htracks]
        exact KeyedSet.mem_insert.mpr (Or.inr ⟨rfl, hfresh⟩)
      have hkey := KeyedSet.hasKey_iff.mpr ⟨_, hmem, rfl⟩
      have hid : (w.newTrack ans.code a.egressArgs.streamId a.egressArgs.trackId ans.track).id = ans.code := rfl
      rw [hid, hfresh] at hkey
      cases hkey

/-- **Failed units.** An initialiser that throws leaves no orphan exactly when it had made no track. -/
theorem no_orphan_iff {R : RtpLibrary} {f f' : Forwarding} {fromClientId : Scalars} {sink : SinkAnswers} {e : Thrown}
    (h : create S R f ingress w fromClientId ans sink = some (.error e, f', ingress', w')) :
    NoOrphan S ⟨fromClientId, f.ingress⟩ f w f' ingress' w' ↔
      MadeNoTrack S ingress w ⟨fromClientId, f.ingress⟩ ans := by
  have hinit : init S ingress w ⟨fromClientId, f.ingress⟩ ans = some (.error e, ingress', w') ∧ f' = f := by
    unfold MediaForwardingUnit.create at h
    split at h
    · cases h
    · next hinit =>
      cases h
      exact ⟨hinit, rfl⟩
    · obtain ⟨f'', -, hf⟩ := Option.map_eq_some_iff.mp h
      cases hf
  obtain ⟨hinit, rfl⟩ := hinit
  have hfailed := init_failed hinit
  refine ⟨fun hno => madeNoTrack_of_tracks hfailed hno.tracks, fun hmade => ?_⟩
  have halike := alike_of_failed hfailed hmade
  refine ⟨congrArg Registry.channels halike.registry, congrArg Registry.tracks halike.registry, rfl, ?_⟩
  intro ans' draws r r' s s' v v' hretry hfirst
  obtain ⟨hr, -, hregistry⟩ := init_alike halike hfirst hretry
  exact ⟨hr, hregistry⟩

end Init

/-! ## A unit that fails -/

def failingAnswers (ssrc : Draw) (code egressSession : Int) : InitAnswers :=
  { initAnswers ssrc code with egressSession := egressSession }

def noSink : SinkAnswers := { lookup := { needed := 0, copied := 0, pts := [] }, code := 0 }

/-- The session of the egress track fails on a new peer: the track stays registered. -/
theorem unit_left_orphan : ∃ e f' s w',
    MediaForwardingUnit.create .scalars .packed { ingress := remoteTrack "cam".toList } {} (.start none) "a".toList
      (failingAnswers ⟨5, by decide⟩ 1 (-1)) noSink = some (.error e, f', s, w') ∧
    ¬ NoOrphan .scalars ⟨"a".toList, remoteTrack "cam".toList⟩ { ingress := remoteTrack "cam".toList } (.start none) f'
      s w' := by
  refine ⟨_, _, _, _, rfl, fun h => ?_⟩
  have htracks := congrArg (fun s => s.elems.length) h.tracks
  exact absurd htracks (by decide)

theorem no_orphan_example : ∃ e f' s w',
    MediaForwardingUnit.create .scalars .packed { ingress := remoteTrack "cam".toList } {} (.start none) "a".toList
      (failingAnswers ⟨5, by decide⟩ (-1) 0) noSink = some (.error e, f', s, w') ∧
    NoOrphan .scalars ⟨"a".toList, remoteTrack "cam".toList⟩ { ingress := remoteTrack "cam".toList } (.start none) f'
      s w' := by
  obtain ⟨e, f', s, w', h⟩ : ∃ e f' s w', MediaForwardingUnit.create .scalars .packed
      { ingress := remoteTrack "cam".toList } {} (.start none) "a".toList (failingAnswers ⟨5, by decide⟩ (-1) 0)
        noSink = some (.error e, f', s, w') := ⟨_, _, _, _, rfl⟩
  exact ⟨e, f', s, w', h, (no_orphan_iff h).mpr (Or.inr (Or.inr (Or.inl (by decide))))⟩

end AlloDataChannel

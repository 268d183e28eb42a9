import AlloDataChannel.RtcLaw

/-!
# Whole calls of `createTrack`

A call in one piece is two steps of the peer, the C call and the insertion. The `mid` of a call that leaves it out is
the stream id, which calls for the tracks of one stream share.

* `exec_createTrack` : the call as its two steps;
* `Calls S kind w cs rs w'` : calls one after the other, with their results;
* `mids_of_calls` : the mids that reach the C library;
* `insertTrack_own`, `tracks_of_calls` : whose track a call returns;
* `createTrack_distinct` : the calls keep their tracks apart exactly when their stream ids differ as C strings and none
  gets the id of a track registered under other ids.
-/

namespace AlloDataChannel
open Lib (Scalars Segmentation KeyedSet Run exec)

section Call
variable {S : Segmentation} {kind : Int → ChannelKind} {w w' : World}

/-- The insertion neither reads nor changes the pending calls. -/
theorem insertTrack_pending (w : World) (ps : List PendingTrack) (f : PendingTrack) (ans : TrackAnswers) :
    ({ w with pendingTracks := ps } : World).insertTrack f ans =
      ((w.insertTrack f ans).1, { (w.insertTrack f ans).2 with pendingTracks := ps }) := by
  cases hf : w.peer.tracks.find? f.id with
  | some t => rw [insertTrack_of_find? ans hf, insertTrack_of_find? (w := { w with pendingTracks := ps }) ans hf]
  | none =>
    have hkey := KeyedSet.find?_eq_none_iff_hasKey.mp hf
    rw [insertTrack_of_fresh ans hkey, insertTrack_of_fresh (w := { w with pendingTracks := ps }) ans hkey]
    rfl

theorem insertTrack_pendingTracks (w : World) (f : PendingTrack) (ans : TrackAnswers) :
    (w.insertTrack f ans).2.pendingTracks = w.pendingTracks := by
  unfold World.insertTrack
  split
  · rfl
  · rfl

/-- A call in one piece is its C call and, right after it, its insertion. -/
theorem exec_createTrack (S : Segmentation) (w : World) (a : TrackArgs) (draws : List Draw) (code : Int)
    (ans : TrackAnswers) :
    exec (step S) w [.createTrack a draws code, .insertTrack w.pendingTracks.length ans] =
      (w.createTrack S a draws code ans).map Prod.snd := by
  have hnone : w.pendingTracks[w.pendingTracks.length]? = none := List.getElem?_eq_none (le_refl _)
  unfold World.createTrack
  simp only [Lib.exec_cons, Lib.exec_nil]
  cases hcall : w.createTrackCall S a draws code with
  | none => simp only [step, hcall, Option.bind_none, Option.map_none]
  | some p =>
    obtain ⟨r, w₁⟩ := p
    have hpend : w₁.pendingTracks = w.pendingTracks := by
      obtain ⟨-, ⟨e, -, -, rfl⟩ | ⟨pt, pat, ssrc, sa, -, -, rfl, -⟩⟩ := createTrackCall_cases hcall
      · rfl
      · rfl
    cases r with
    | error e =>
      simp only [step, hcall, Option.bind_some, Option.map_some, hpend, hnone]
    | ok f =>
      have hlast : (w₁.pendingTracks ++ [f])[w.pendingTracks.length]? = some f := by
        rw [hpend, List.getElem?_concat_length]
      have herase : (w₁.pendingTracks ++ [f]).eraseIdx w.pendingTracks.length = w₁.pendingTracks := by
        rw [← hpend, List.eraseIdx_append_of_length_le (le_refl _), Nat.sub_self]
        exact List.append_nil _
      simp only [step, hcall, Option.bind_some, Option.map_some, hlast, herase, insertTrack_pending]
      rw [← insertTrack_pendingTracks w₁ f ans]

theorem run_createTrack {a : TrackArgs} {draws : List Draw} {code : Int} {ans : TrackAnswers}
    {r : Except Thrown Track} (hlaw : RtcLaw kind w (.createTrack a draws code))
    (h : w.createTrack S a draws code ans = some (r, w')) :
    Run (step S) (RtcLaw kind) w [.createTrack a draws code, .insertTrack w.pendingTracks.length ans] w' := by
  have hexec := exec_createTrack S w a draws code ans
  rw [h] at hexec
  obtain ⟨w₁, hs₁, hexec⟩ := Option.bind_eq_some_iff.mp hexec
  obtain ⟨w₂, hs₂, hexec⟩ := Option.bind_eq_some_iff.mp hexec
  cases hexec
  exact .cons hlaw hs₁ (.cons ⟨trivial, trivial⟩ hs₂ (.nil _))

/-- A whole call keeps the invariant of the library. -/
theorem RtcInv.createTrack {a : TrackArgs} {draws : List Draw} {code : Int} {ans : TrackAnswers}
    {r : Except Thrown Track} (hi : RtcInv w) (hlaw : RtcLaw kind w (.createTrack a draws code))
    (h : w.createTrack S a draws code ans = some (r, w')) : RtcInv w' := hi.run (run_createTrack hlaw h)

/-- The call between its parts: the C call fails, or its id is looked up and inserted. -/
theorem createTrack_cases {a : TrackArgs} {draws : List Draw} {code : Int} {ans : TrackAnswers}
    {r : Except Thrown Track} (h : w.createTrack S a draws code ans = some (r, w')) :
    (∃ e, w.peer.pat.payloadType S a.key = .error e ∧ r = .error e ∧ w' = w) ∨
      ∃ pt pat ssrc sa w₁, w.peer.pat.payloadType S a.key = .ok (pt, pat) ∧
        w.peer.sa.actualSsrc a.ssrc draws = some (ssrc, sa) ∧
        w₁ = { w with
          peer := { w.peer with pat := pat, sa := sa }
          rtc := w.rtc.addTrack (a.trackInit pt ssrc) code } ∧
        (code < 0 ∧ r = .error (.peer (Error.fromInt32 code)) ∧ w' = w₁ ∨
          0 ≤ code ∧ ∃ f : PendingTrack, f = ⟨code, a.streamId, a.trackId, ssrc⟩ ∧
            r = .ok (w₁.insertTrack f ans).1 ∧ w' = (w₁.insertTrack f ans).2) := by
  unfold World.createTrack at h
  cases hcall : w.createTrackCall S a draws code with
  | none =>
    rw [hcall] at h
    cases h
  | some p =>
    obtain ⟨r₁, w₁⟩ := p
    rw [hcall] at h
    obtain ⟨-, ⟨e, hp, rfl, rfl⟩ | ⟨pt, pat, ssrc, sa, hp, hs, hw₁, ⟨hc, rfl⟩ | ⟨hc, rfl⟩⟩⟩ :=
      createTrackCall_cases hcall
    · cases h
      exact Or.inl ⟨e, hp, rfl, rfl⟩
    · cases h
      exact Or.inr ⟨pt, pat, ssrc, sa, _, hp, hs, hw₁, Or.inl ⟨hc, rfl, rfl⟩⟩
    · cases h
      exact Or.inr ⟨pt, pat, ssrc, sa, _, hp, hs, hw₁, Or.inr ⟨hc, _, rfl, rfl, rfl⟩⟩

theorem insertTrack_frame (w : World) (f : PendingTrack) (ans : TrackAnswers) :
    (w.insertTrack f ans).2.rtc = w.rtc ∧ (w.insertTrack f ans).2.peer.pat = w.peer.pat := by
  unfold World.insertTrack
  split
  · exact ⟨rfl, rfl⟩
  · exact ⟨rfl, rfl⟩

/-- The tracks after the insertion: the old ones, and the new one if its id was free. -/
theorem mem_insertTrack {f : PendingTrack} {ans : TrackAnswers} {t : Track} :
    t ∈ (w.insertTrack f ans).2.peer.tracks ↔
      t ∈ w.peer.tracks ∨ t = (w.insertTrack f ans).1 ∧ w.peer.tracks.hasKey f.id = false := by
  cases hf : w.peer.tracks.find? f.id with
  | some t' =>
    have hkey := KeyedSet.hasKey_iff.mpr ⟨t', KeyedSet.find?_eq_some.mp hf⟩
    rw [insertTrack_of_find? ans hf, hkey]
    simp
  | none =>
    have hkey := KeyedSet.find?_eq_none_iff_hasKey.mp hf
    rw [insertTrack_of_fresh ans hkey]
    exact KeyedSet.mem_insert

theorem insertTrack_id {f : PendingTrack} {ans : TrackAnswers} : (w.insertTrack f ans).1.id = f.id := by
  cases hf : w.peer.tracks.find? f.id with
  | some t =>
    rw [insertTrack_of_find? ans hf]
    exact (KeyedSet.find?_eq_some.mp hf).2
  | none =>
    rw [insertTrack_of_fresh ans (KeyedSet.find?_eq_none_iff_hasKey.mp hf)]
    rfl

theorem insertTrack_mem {f : PendingTrack} {ans : TrackAnswers} :
    (w.insertTrack f ans).1 ∈ (w.insertTrack f ans).2.peer.tracks := by
  cases hf : w.peer.tracks.find? f.id with
  | some t =>
    rw [insertTrack_of_find? ans hf]
    exact (KeyedSet.find?_eq_some.mp hf).1
  | none => exact mem_insertTrack.mpr (Or.inr ⟨rfl, KeyedSet.find?_eq_none_iff_hasKey.mp hf⟩)

/-- The insertion returns a track with the call's own ids, unless another one has the id. -/
theorem insertTrack_own {f : PendingTrack} {ans : TrackAnswers} :
    ((w.insertTrack f ans).1.streamId = f.streamId ∧ (w.insertTrack f ans).1.trackId = f.trackId) ↔
      ∀ t ∈ w.peer.tracks, t.id = f.id → t.streamId = f.streamId ∧ t.trackId = f.trackId := by
  cases hf : w.peer.tracks.find? f.id with
  | some t =>
    obtain ⟨ht, hid⟩ := KeyedSet.find?_eq_some.mp hf
    rw [insertTrack_of_find? ans hf]
    refine ⟨fun h t' ht' hid' => ?_, fun h => h t ht hid⟩
    rw [KeyedSet.eq_of_key ht' ht (hid'.trans hid.symm)]
    exact h
  | none =>
    have hkey := KeyedSet.find?_eq_none_iff_hasKey.mp hf
    rw [insertTrack_of_fresh ans hkey]
    refine ⟨fun _ t ht hid => ?_, fun _ => ⟨rfl, rfl⟩⟩
    exact absurd hid (KeyedSet.hasKey_eq_false_iff.mp hkey t ht)

end Call

/-! ## Calls one after the other -/

/-- A call with the draws of its loop and the answers of the C library. -/
structure Call where
  args : TrackArgs
  draws : List Draw
  code : Int
  answers : TrackAnswers
  deriving DecidableEq, Repr

def Call.event (c : Call) : Event := .createTrack c.args c.draws c.code

/-- The `mid` of a call that leaves it out, as the C library reads it. -/
def Call.streamMid (c : Call) : Scalars := withCString c.args.streamId

/-- What a call that reached the C library with `init` leaves behind. -/
structure Reached (w w' : World) (c : Call) (r : Except Thrown Track) (init : TrackInit) : Prop where
  rtc : w'.rtc = w.rtc.addTrack init c.code
  old : ∀ t ∈ w.peer.tracks, t ∈ w'.peer.tracks
  new : ∀ t ∈ w'.peer.tracks, t ∈ w.peer.tracks ∨ 0 ≤ c.code ∧ t.id = c.code
  result : ∀ t, r = .ok t → 0 ≤ c.code ∧ t.id = c.code ∧ t ∈ w'.peer.tracks
  own : (∀ t, r = .ok t → t.streamId = c.args.streamId ∧ t.trackId = c.args.trackId) ↔
    (0 ≤ c.code → ∀ t ∈ w.peer.tracks, t.id = c.code → t.streamId = c.args.streamId ∧ t.trackId = c.args.trackId)

theorem createTrack_reached {S : Segmentation} {w w' : World} {c : Call} {r : Except Thrown Track}
    (h : w.createTrack S c.args c.draws c.code c.answers = some (r, w')) :
    (∃ e, w.peer.pat.payloadType S c.args.key = .error e ∧ r = .error e ∧ w' = w) ∨
      ∃ pt pat ssrc, w.peer.pat.payloadType S c.args.key = .ok (pt, pat) ∧ w'.peer.pat = pat ∧
        Reached w w' c r (c.args.trackInit pt ssrc) := by
  rcases createTrack_cases h with herr | ⟨pt, pat, ssrc, sa, w₁, hp, -, hw₁, hcase⟩
  · exact Or.inl herr
  · refine Or.inr ⟨pt, pat, ssrc, hp, ?_⟩
    have htracks : w₁.peer.tracks = w.peer.tracks := by rw [hw₁]
    have hrtc : w₁.rtc = w.rtc.addTrack (c.args.trackInit pt ssrc) c.code := by rw [hw₁]
    rcases hcase with ⟨hneg, rfl, rfl⟩ | ⟨hpos, f, hf, rfl, rfl⟩
    · refine ⟨by rw [hw₁], hrtc, fun t ht => htracks ▸ ht, fun t ht => Or.inl (htracks ▸ ht), fun t ht => ?_, ?_⟩
      · cases ht
      · refine ⟨fun _ hc => absurd hc (by omega), fun _ t ht => ?_⟩
        cases ht
    · obtain ⟨hrtc', hpat'⟩ := insertTrack_frame w₁ f c.answers
      have hid : f.id = c.code := by rw [hf]
      refine ⟨by rw [hpat', hw₁], hrtc'.trans hrtc, fun t ht => ?_, fun t ht => ?_, fun t ht => ?_, ?_⟩
      · exact mem_insertTrack.mpr (Or.inl (htracks ▸ ht))
      · rcases mem_insertTrack.mp ht with ht | ⟨rfl, -⟩
        · exact Or.inl (htracks ▸ ht)
        · exact Or.inr ⟨hpos, insertTrack_id.trans hid⟩
      · cases ht
        exact ⟨hpos, insertTrack_id.trans hid, insertTrack_mem⟩
      · have hown := @insertTrack_own w₁ f c.answers
        rw [htracks, hf] at hown
        rw [hf]
        refine ⟨fun h _ => hown.mp (h _ rfl), fun h t ht => ?_⟩
        cases ht
        exact hown.mpr (h hpos)

/-- The calls `cs` from `w`, with their results. -/
inductive Calls (S : Segmentation) (kind : Int → ChannelKind) :
    World → List Call → List (Except Thrown Track) → World → Prop
  | nil (w : World) : Calls S kind w [] [] w
  | cons {w w₁ w' : World} {c : Call} {r : Except Thrown Track} {cs : List Call} {rs : List (Except Thrown Track)}
      (law : RtcLaw kind w c.event) (call : w.createTrack S c.args c.draws c.code c.answers = some (r, w₁))
      (rest : Calls S kind w₁ cs rs w') : Calls S kind w (c :: cs) (r :: rs) w'

/-- The calls whose format gets a payload type, and that reach the C library. -/
def reaching (S : Segmentation) : PayloadTypeAllocator → List Call → List Call
  | _, [] => []
  | pat, c :: cs =>
    match pat.payloadType S c.args.key with
    | .error _ => reaching S pat cs
    | .ok (_, pat') => c :: reaching S pat' cs

/-- The id that the C library gives to the call is not that of a track registered under other ids. -/
def OwnId (w : World) (c : Call) : Prop :=
  0 ≤ c.code → ∀ t ∈ w.peer.tracks, t.id = c.code → t.streamId = c.args.streamId ∧ t.trackId = c.args.trackId

/-- The mids of the calls differ, and each call that returns has a track with its own ids. -/
structure Distinct (w w' : World) (cs : List Call) (rs : List (Except Thrown Track)) : Prop where
  mids : ∃ inits, w'.rtc.added = w.rtc.added ++ inits ∧ (inits.map TrackInit.mid).Nodup
  tracks : ∀ c t, (c, .ok t) ∈ cs.zip rs → t.streamId = c.args.streamId ∧ t.trackId = c.args.trackId

section Calls
variable {S : Segmentation} {kind : Int → ChannelKind} {w w' : World} {cs : List Call}
  {rs : List (Except Thrown Track)}

/-- The `mid` that reaches the C library is the stream id. -/
theorem trackInit_mid {c : Call} (hc : c.args.mid = none) (pt : Int) (ssrc : UInt32) :
    (c.args.trackInit pt ssrc).mid = c.streamMid := by
  show withCString c.args.actualMid = withCString c.args.streamId
  unfold TrackArgs.actualMid
  rw [hc]
  rfl

/-- The mids that reach the C library are the stream ids of the calls that do. -/
theorem mids_of_calls (h : Calls S kind w cs rs w') (hmid : ∀ c ∈ cs, c.args.mid = none) :
    ∃ inits, w'.rtc.added = w.rtc.added ++ inits ∧
      inits.map TrackInit.mid = (reaching S w.peer.pat cs).map Call.streamMid := by
  induction h with
  | nil w => exact ⟨[], (List.append_nil _).symm, rfl⟩
  | @cons w w₁ w' c r cs rs law call rest ih =>
    obtain ⟨inits, hadd, hmap⟩ := ih fun c' hc' => hmid c' (List.mem_cons_of_mem c hc')
    rcases createTrack_reached call with ⟨e, hp, -, rfl⟩ | ⟨pt, pat, ssrc, hp, hpat, hreach⟩
    · refine ⟨inits, hadd, ?_⟩
      rw [reaching, hp]
      exact hmap
    · refine ⟨c.args.trackInit pt ssrc :: inits, ?_, ?_⟩
      · rw [hadd, hreach.rtc]
        show w.rtc.added ++ [c.args.trackInit pt ssrc] ++ inits = _
        rw [List.append_assoc]
        rfl
      · rw [reaching, hp]
        dsimp only
        rw [List.map_cons, List.map_cons, trackInit_mid (hmid c List.mem_cons_self), hmap, hpat]

/-- The calls under other mids do not get the id that a `mid` has. -/
theorem code_ne_of_calls (hi : RtcInv w) (h : Calls S kind w cs rs w') (hmid : ∀ c ∈ cs, c.args.mid = none)
    {m : Scalars} {id : Int} (hl : (m, id) ∈ w.rtc.live) :
    ∀ c ∈ reaching S w.peer.pat cs, 0 ≤ c.code → c.streamMid ≠ m → c.code ≠ id := by
  induction h with
  | nil w => exact fun c hc => absurd hc List.not_mem_nil
  | @cons w w₁ w' c r cs rs law call rest ih =>
    have hi₁ : RtcInv w₁ := hi.createTrack law call
    have ih := ih hi₁ fun c' hc' => hmid c' (List.mem_cons_of_mem c hc')
    rcases createTrack_reached call with ⟨e, hp, -, rfl⟩ | ⟨pt, pat, ssrc, hp, hpat, hreach⟩
    · rw [reaching, hp]
      exact ih hl
    · rw [reaching, hp]
      intro c' hc' hcode hne
      rcases List.mem_cons.mp hc' with rfl | hc'
      · have hreturn : w.rtc.CanReturn c'.streamMid c'.code := by
          rw [← trackInit_mid (hmid c' List.mem_cons_self) pt ssrc]
          exact law.2 hcode
        exact hi.ne_of_canReturn hl hreturn hne
      · rw [hpat, hreach.rtc] at ih
        exact ih (Rtc.mem_addTrack_live hl) c' hc' hcode hne

/-- A call leaves the ids of the others as they are, unless one of them gets its id. -/
theorem Reached.ownId_iff {c c' : Call} {r : Except Thrown Track} {init : TrackInit} (h : Reached w w' c r init)
    (hne : 0 ≤ c.code → 0 ≤ c'.code → c'.code ≠ c.code) : OwnId w' c' ↔ OwnId w c' := by
  constructor
  · intro hown hcode t ht
    exact hown hcode t (h.old t ht)
  · intro hown hcode t ht hid
    rcases h.new t ht with ht | ⟨h0, hid'⟩
    · exact hown hcode t ht hid
    · exact absurd (hid.symm.trans hid') (hne h0 hcode)

theorem results_cons {c : Call} {r : Except Thrown Track} :
    (∀ c' t, (c', .ok t) ∈ (c :: cs).zip (r :: rs) →
        t.streamId = c'.args.streamId ∧ t.trackId = c'.args.trackId) ↔
      (∀ t, r = .ok t → t.streamId = c.args.streamId ∧ t.trackId = c.args.trackId) ∧
        ∀ c' t, (c', .ok t) ∈ cs.zip rs → t.streamId = c'.args.streamId ∧ t.trackId = c'.args.trackId := by
  rw [List.zip_cons_cons]
  constructor
  · intro hall
    exact ⟨fun t ht => hall c t (ht ▸ List.mem_cons_self), fun c' t ht => hall c' t (List.mem_cons_of_mem _ ht)⟩
  · intro hboth c' t ht
    rcases List.mem_cons.mp ht with he | ht
    · cases he
      exact hboth.1 t rfl
    · exact hboth.2 c' t ht

/-- Where the mids differ, each call returns its own track exactly when its id was no other track's before the calls. -/
theorem tracks_of_calls (hi : RtcInv w) (h : Calls S kind w cs rs w') (hmid : ∀ c ∈ cs, c.args.mid = none)
    (hnd : ((reaching S w.peer.pat cs).map Call.streamMid).Nodup) :
    (∀ c t, (c, .ok t) ∈ cs.zip rs → t.streamId = c.args.streamId ∧ t.trackId = c.args.trackId) ↔
      ∀ c ∈ reaching S w.peer.pat cs, OwnId w c := by
  induction h with
  | nil w => exact ⟨fun _ c hc => absurd hc List.not_mem_nil, fun _ c t ht => absurd ht List.not_mem_nil⟩
  | @cons w w₁ w' c r cs rs law call rest ih =>
    have hi₁ : RtcInv w₁ := hi.createTrack law call
    have hmids : ∀ c' ∈ cs, c'.args.mid = none := fun c' hc' => hmid c' (List.mem_cons_of_mem c hc')
    have ih := ih hi₁ hmids
    rw [results_cons]
    rcases createTrack_reached call with ⟨e, hp, rfl, rfl⟩ | ⟨pt, pat, ssrc, hp, hpat, hreach⟩
    · rw [reaching, hp] at hnd ⊢
      rw [ih hnd]
      refine ⟨fun h => h.2, fun h => ⟨fun t ht => ?_, h⟩⟩
      cases ht
    · rw [reaching, hp] at hnd ⊢
      dsimp only at hnd ⊢
      rw [List.map_cons, List.nodup_cons] at hnd
      have hcodes : 0 ≤ c.code → ∀ c' ∈ reaching S pat cs, 0 ≤ c'.code → c'.code ≠ c.code := by
        intro h0 c' hc' hcode
        have hl : (c.streamMid, c.code) ∈ w₁.rtc.live := by
          rw [hreach.rtc, ← trackInit_mid (hmid c List.mem_cons_self) pt ssrc]
          exact Rtc.mem_addTrack_live_self h0
        have hne := code_ne_of_calls hi₁ rest hmids hl
        rw [hpat] at hne
        apply hne c' hc' hcode
        intro he
        apply hnd.1
        rw [← he]
        exact List.mem_map_of_mem hc'
      rw [hpat] at ih
      rw [hreach.own, ih hnd.2, List.forall_mem_cons]
      apply and_congr_right
      intro _
      apply forall₂_congr
      intro c' hc'
      exact hreach.ownId_iff fun h0 => hcodes h0 c' hc'

/-- **Tracks stay distinct.** From every reachable world, calls that leave out the `mid` keep their tracks apart exactly
when the stream ids of those that get a payload type differ as C strings and none gets the id of another track. -/
theorem createTrack_distinct {o : Option IPOverride} {es : List Event}
    (hrun : Run (step S) (RtcLaw kind) (.start o) es w) (h : Calls S kind w cs rs w')
    (hmid : ∀ c ∈ cs, c.args.mid = none) :
    Distinct w w' cs rs ↔
      ((reaching S w.peer.pat cs).map Call.streamMid).Nodup ∧ ∀ c ∈ reaching S w.peer.pat cs, OwnId w c := by
  obtain ⟨inits, hadd, hmap⟩ := mids_of_calls h hmid
  have hi := rtcInv_of_run hrun
  refine ⟨fun hd => ?_, fun hcond => ⟨⟨inits, hadd, ?_⟩, ?_⟩⟩
  · obtain ⟨inits', hadd', hnd⟩ := hd.mids
    have he : inits' = inits := List.append_cancel_left (hadd'.symm.trans hadd)
    rw [he, hmap] at hnd
    exact ⟨hnd, (tracks_of_calls hi h hmid hnd).mp hd.tracks⟩
  · rw [hmap]
    exact hcond.1
  · exact (tracks_of_calls hi h hmid hcond.1).mpr hcond.2

end Calls

/-! ## A webcam -/

def webcamCall (streamId trackId : Scalars) (ssrc : UInt32) (code : Int) : Call where
  args := {
    streamId := streamId
    trackId := trackId
    direction := .sendonly
    codec := .OPUS
    sampleOrBitrate := 48000
    channelCount := 1
    ssrc := some ssrc }
  draws := []
  code := code
  answers := { ssrcs := [ssrc], direction := .sendonly }

/-- The audio and the video of one stream: the second call gets the id, and the track, of the first. -/
theorem createTrack_merged : ∃ rs w',
    Calls .scalars (fun _ => .track) (.start none)
      [webcamCall "cam".toList "audio".toList 5 1, webcamCall "cam".toList "video".toList 6 1] rs w' ∧
    ¬ Distinct (.start none) w'
      [webcamCall "cam".toList "audio".toList 5 1, webcamCall "cam".toList "video".toList 6 1] rs := by
  refine ⟨_, _, .cons ⟨fun _ => rfl, fun _ => Or.inr List.not_mem_nil⟩ rfl
    (.cons ⟨fun _ => rfl, fun _ => Or.inl List.mem_cons_self⟩ rfl (.nil _)), fun hd => ?_⟩
  have hown := (hd.tracks _ _ (List.mem_cons_of_mem _ List.mem_cons_self)).2
  exact absurd hown (by decide)

theorem createTrack_distinct_example : ∃ rs w',
    Calls .scalars (fun _ => .track) (.start none)
      [webcamCall "cam".toList "audio".toList 5 1, webcamCall "screen".toList "video".toList 6 2] rs w' ∧
    Distinct (.start none) w'
      [webcamCall "cam".toList "audio".toList 5 1, webcamCall "screen".toList "video".toList 6 2] rs := by
  have hcalls : ∃ rs w', Calls .scalars (fun _ => .track) (.start none)
      [webcamCall "cam".toList "audio".toList 5 1, webcamCall "screen".toList "video".toList 6 2] rs w' :=
    ⟨_, _, .cons ⟨fun _ => rfl, fun _ => Or.inr List.not_mem_nil⟩ rfl
      (.cons ⟨fun _ => rfl, fun _ => Or.inr (by decide)⟩ rfl (.nil _))⟩
  obtain ⟨rs, w', hcalls⟩ := hcalls
  refine ⟨rs, w', hcalls, (createTrack_distinct (.nil _) hcalls (by decide)).mpr ⟨by decide, fun c _ _ t ht => ?_⟩⟩
  exact absurd ht (KeyedSet.not_mem_empty t)

end AlloDataChannel

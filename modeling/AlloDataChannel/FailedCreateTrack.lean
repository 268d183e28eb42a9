import AlloDataChannel.CreateTrack

/-!
# `createTrack` calls that throw

A call that throws has taken a payload type and an SSRC, unless it threw for want of a payload type.

* `outcome_of_createTrack`, `failed_cases` : the outcomes of a call, and those of one that throws;
* `FailedCalls S w cs w'` : calls one after the other that all throw;
* `Quiet` : the call takes nothing that is not taken already;
* `no_trace_iff` : such calls leave no trace exactly when each of them is quiet.
-/

namespace AlloDataChannel
open Lib (Scalars Segmentation KeyedSet)

/-! ## One call -/

/-- All that a call of `createTrack` can do, with its result. -/
inductive Outcome (S : Segmentation) (w : World) (a : TrackArgs) (draws : List Draw) (code : Int) (ans : TrackAnswers) :
    Except Thrown Track → World → Prop
  | exhausted (e : Thrown) (payloadType : w.peer.pat.payloadType S a.key = .error e) :
    Outcome S w a draws code ans (.error e) w
  | failed (pt : Int) (pat : PayloadTypeAllocator) (ssrc : UInt32) (sa : SsrcAllocator)
    (payloadType : w.peer.pat.payloadType S a.key = .ok (pt, pat))
    (allocated : w.peer.sa.actualSsrc a.ssrc draws = some (ssrc, sa)) (failed : code < 0) :
    Outcome S w a draws code ans (.error (.peer (Error.fromInt32 code)))
      { w with peer := { w.peer with pat := pat, sa := sa }, rtc := w.rtc.addTrack (a.trackInit pt ssrc) code }
  | existing (pt : Int) (pat : PayloadTypeAllocator) (ssrc : UInt32) (sa : SsrcAllocator) (t : Track)
    (payloadType : w.peer.pat.payloadType S a.key = .ok (pt, pat))
    (allocated : w.peer.sa.actualSsrc a.ssrc draws = some (ssrc, sa)) (ok : 0 ≤ code)
    (found : w.peer.tracks.find? code = some t) :
    Outcome S w a draws code ans (.ok t)
      { w with peer := { w.peer with pat := pat, sa := sa }, rtc := w.rtc.addTrack (a.trackInit pt ssrc) code }
  | new (pt : Int) (pat : PayloadTypeAllocator) (ssrc : UInt32) (sa : SsrcAllocator)
    (payloadType : w.peer.pat.payloadType S a.key = .ok (pt, pat))
    (allocated : w.peer.sa.actualSsrc a.ssrc draws = some (ssrc, sa)) (ok : 0 ≤ code)
    (fresh : w.peer.tracks.hasKey code = false) :
    Outcome S w a draws code ans (.ok (w.newTrack code a.streamId a.trackId ans))
      (({ w with peer := { w.peer with pat := pat, sa := sa }, rtc := w.rtc.addTrack (a.trackInit pt ssrc) code } :
        World).register (.track (w.newTrack code a.streamId a.trackId ans)))

section Call
variable {S : Segmentation} {w w' : World} {c : Call} {e : Thrown}

theorem outcome_of_createTrack {a : TrackArgs} {draws : List Draw} {code : Int} {ans : TrackAnswers}
    {r : Except Thrown Track} (h : w.createTrack S a draws code ans = some (r, w')) :
    Outcome S w a draws code ans r w' := by
  rcases createTrack_cases h with ⟨e, hp, rfl, rfl⟩ | ⟨pt, pat, ssrc, sa, w₁, hp, hs, hw₁, hcase⟩
  · exact .exhausted e hp
  · rcases hcase with ⟨hc, rfl, rfl⟩ | ⟨hc, f, rfl, rfl, rfl⟩
    · rw [hw₁]
      exact .failed pt pat ssrc sa hp hs hc
    · have htracks : w₁.peer.tracks = w.peer.tracks := by rw [hw₁]
      cases hf : w.peer.tracks.find? code with
      | some t =>
        rw [insertTrack_of_find? ans (by rw [htracks]; exact hf), hw₁]
        exact .existing pt pat ssrc sa t hp hs hc hf
      | none =>
        have hfresh := KeyedSet.find?_eq_none_iff_hasKey.mp hf
        rw [insertTrack_of_fresh ans (by rw [htracks]; exact hfresh), hw₁]
        exact .new pt pat ssrc sa hp hs hc hfresh

/-- A call that throws had no payload type, and changed nothing, or made a C call that failed. -/
theorem failed_cases (h : w.createTrack S c.args c.draws c.code c.answers = some (.error e, w')) :
    (∃ e', w.peer.pat.payloadType S c.args.key = .error e') ∧ w' = w ∨
      ∃ pt pat ssrc sa, w.peer.pat.payloadType S c.args.key = .ok (pt, pat) ∧
        w.peer.sa.actualSsrc c.args.ssrc c.draws = some (ssrc, sa) ∧ c.code < 0 ∧
        w' = { w with
          peer := { w.peer with pat := pat, sa := sa }
          rtc := w.rtc.addTrack (c.args.trackInit pt ssrc) c.code } := by
  cases outcome_of_createTrack h with
  | exhausted _ hp => exact Or.inl ⟨⟨e, hp⟩, rfl⟩
  | failed pt pat ssrc sa hp hs hc => exact Or.inr ⟨pt, pat, ssrc, sa, hp, hs, hc, rfl⟩

/-- A call that throws leaves alone all but the allocators and what the C library knows. -/
structure Frame (w w' : World) : Prop where
  registry : w'.peer.toRegistry = w.peer.toRegistry
  heap : w'.heap = w.heap
  peer : w'.peer = { w.peer with pat := w'.peer.pat, sa := w'.peer.sa }

theorem Frame.refl (w : World) : Frame w w := ⟨rfl, rfl, rfl⟩

theorem Frame.trans {w₁ w₂ w₃ : World} (h : Frame w₁ w₂) (h' : Frame w₂ w₃) : Frame w₁ w₃ := by
  refine ⟨h'.registry.trans h.registry, h'.heap.trans h.heap, ?_⟩
  rw [h'.peer, h.peer]

theorem failed_frame (h : w.createTrack S c.args c.draws c.code c.answers = some (.error e, w')) : Frame w w' := by
  rcases failed_cases h with ⟨-, rfl⟩ | ⟨pt, pat, ssrc, sa, -, -, -, rfl⟩
  · exact .refl w'
  · exact ⟨rfl, rfl, rfl⟩

/-- The call takes no payload type and no SSRC that is not taken already: all payload types are taken and its format is
new, or its format has one and its SSRC is a reserved one of its own choice. -/
def Quiet (S : Segmentation) (w : World) (c : Call) : Prop :=
  (∃ e, w.peer.pat.payloadType S c.args.key = .error e) ∨
    (w.peer.pat.find S c.args.key).isSome ∧ ∃ ssrc, c.args.ssrc = some ssrc ∧ ssrc ∈ w.peer.sa.used

/-- The allocators only grow. -/
structure Grows (w w' : World) : Prop where
  map : w.peer.pat.map.length ≤ w'.peer.pat.map.length
  used : w.peer.sa.used ⊆ w'.peer.sa.used

theorem Grows.refl (w : World) : Grows w w := ⟨Nat.le_refl _, Finset.Subset.refl _⟩

theorem Grows.trans {w₁ w₂ w₃ : World} (h : Grows w₁ w₂) (h' : Grows w₂ w₃) : Grows w₁ w₃ :=
  ⟨Nat.le_trans h.map h'.map, h.used.trans h'.used⟩

theorem failed_grows (h : w.createTrack S c.args c.draws c.code c.answers = some (.error e, w')) : Grows w w' := by
  rcases failed_cases h with ⟨-, rfl⟩ | ⟨pt, pat, ssrc, sa, hp, hs, -, rfl⟩
  · exact .refl w'
  · refine ⟨?_, ?_⟩
    · rcases PayloadTypeAllocator.payloadType_eq_ok.mp hp with ⟨-, rfl⟩ | ⟨-, -, -, rfl⟩
      · exact Nat.le_refl _
      · exact Nat.le_succ _
    · show w.peer.sa.used ⊆ sa.used
      rw [SsrcAllocator.actualSsrc_used hs]
      exact Finset.subset_insert _ _

/-- A quiet call that throws leaves the peer as it was. -/
theorem peer_of_quiet (h : w.createTrack S c.args c.draws c.code c.answers = some (.error e, w'))
    (hq : Quiet S w c) : w'.peer = w.peer := by
  rcases failed_cases h with ⟨-, rfl⟩ | ⟨pt, pat, ssrc, sa, hp, hs, -, rfl⟩
  · rfl
  · rcases hq with ⟨e', he⟩ | ⟨hsome, s, hssrc, hused⟩
    · rw [hp] at he
      cases he
    · have hpat : pat = w.peer.pat := by
        rcases PayloadTypeAllocator.payloadType_eq_ok.mp hp with ⟨-, rfl⟩ | ⟨hnone, -, -, -⟩
        · rfl
        · rw [hnone] at hsome
          cases hsome
      have hsa : sa = w.peer.sa := by
        rw [hssrc] at hs
        cases hs
        show SsrcAllocator.mk (insert ssrc w.peer.sa.used) = w.peer.sa
        rw [Finset.insert_eq_of_mem hused]
      rw [hpat, hsa]

/-- A call that is not quiet takes a new payload type or a new SSRC. -/
theorem quiet_of_kept (h : w.createTrack S c.args c.draws c.code c.answers = some (.error e, w'))
    (hmap : w'.peer.pat.map.length = w.peer.pat.map.length) (hused : w'.peer.sa.used = w.peer.sa.used) :
    Quiet S w c := by
  rcases failed_cases h with ⟨he, rfl⟩ | ⟨pt, pat, ssrc, sa, hp, hs, -, rfl⟩
  · exact Or.inl he
  · refine Or.inr ⟨?_, ?_⟩
    · rcases PayloadTypeAllocator.payloadType_eq_ok.mp hp with ⟨hlookup, -⟩ | ⟨-, -, -, rfl⟩
      · rw [hlookup]
        rfl
      · exact absurd hmap (Nat.succ_ne_self _)
    · have hkept : sa.used = w.peer.sa.used := hused
      have hmem : ssrc ∈ w.peer.sa.used := by
        rw [← hkept, SsrcAllocator.actualSsrc_used hs]
        exact Finset.mem_insert_self _ _
      cases hssrc : c.args.ssrc with
      | some s =>
        rw [hssrc] at hs
        cases hs
        exact ⟨ssrc, rfl, hmem⟩
      | none =>
        rw [hssrc] at hs
        exact absurd hmem (SsrcAllocator.next_eq_some hs).2.1

end Call

/-! ## Calls one after the other -/

/-- The calls `cs` from `w`, all of which throw. -/
inductive FailedCalls (S : Segmentation) : World → List Call → World → Prop
  | nil (w : World) : FailedCalls S w [] w
  | cons {w w₁ w' : World} {c : Call} {cs : List Call} (e : Thrown)
      (call : w.createTrack S c.args c.draws c.code c.answers = some (.error e, w₁))
      (rest : FailedCalls S w₁ cs w') : FailedCalls S w (c :: cs) w'

/-- The peer of `w'` has the allocators and the sets of `w`, and every later call does in `w'` what it would do in `w`:
it has the same payload type, and returns the same track or throws the same error. -/
structure NoTrace (S : Segmentation) (w w' : World) : Prop where
  pat : w'.peer.pat = w.peer.pat
  used : w'.peer.sa.used = w.peer.sa.used
  channels : w'.peer.channels = w.peer.channels
  tracks : w'.peer.tracks = w.peer.tracks
  dataChannels : w'.peer.dataChannels = w.peer.dataChannels
  payloadType : ∀ key, w'.peer.pat.payloadType S key = w.peer.pat.payloadType S key
  result : ∀ a draws code ans,
    (w'.createTrack S a draws code ans).map Prod.fst = (w.createTrack S a draws code ans).map Prod.fst

section Calls
variable {S : Segmentation} {w w' : World} {cs : List Call}

theorem FailedCalls.frame (h : FailedCalls S w cs w') : Frame w w' := by
  induction h with
  | nil w => exact .refl w
  | cons e call _ ih => exact (failed_frame call).trans ih

theorem FailedCalls.grows (h : FailedCalls S w cs w') : Grows w w' := by
  induction h with
  | nil w => exact .refl w
  | cons e call _ ih => exact (failed_grows call).trans ih

/-- What a call returns depends on the peer and the objects. -/
theorem createTrack_result_congr (hpeer : w'.peer = w.peer) (hheap : w'.heap = w.heap) (a : TrackArgs)
    (draws : List Draw) (code : Int) (ans : TrackAnswers) :
    (w'.createTrack S a draws code ans).map Prod.fst = (w.createTrack S a draws code ans).map Prod.fst := by
  unfold World.createTrack World.createTrackCall
  rw [hpeer]
  cases w.peer.prepareTrack S a draws with
  | none => rfl
  | some q =>
    obtain ⟨r, peer⟩ := q
    cases r with
    | error e => rfl
    | ok init =>
      dsimp only
      cases Error.orValue code with
      | error e => rfl
      | ok tid =>
        unfold World.insertTrack
        dsimp only
        cases peer.tracks.find? tid with
        | some t => rfl
        | none =>
          unfold World.newTrack
          simp only [hheap, Option.map_some]

/-- The exact condition, along the run: the allocators of the first state and of the last one pin those between. -/
theorem FailedCalls.quiet_iff (h : FailedCalls S w cs w') :
    (w'.peer.pat.map.length = w.peer.pat.map.length ∧ w'.peer.sa.used = w.peer.sa.used) ↔
      ∀ c ∈ cs, Quiet S w c := by
  induction h with
  | nil w => exact ⟨fun _ c hc => absurd hc List.not_mem_nil, fun _ => ⟨rfl, rfl⟩⟩
  | @cons w w₁ w' c cs e call rest ih =>
    have hgrow := failed_grows call
    have hgrow' := rest.grows
    have hquiet : ∀ d, w₁.peer = w.peer → (Quiet S w₁ d ↔ Quiet S w d) := by
      intro d hpeer
      unfold Quiet
      rw [hpeer]
    constructor
    · rintro ⟨hmap, hused⟩
      have hmap₁ : w₁.peer.pat.map.length = w.peer.pat.map.length := by
        have h₁ := hgrow.map
        have h₂ := hgrow'.map
        omega
      have hused₁ : w₁.peer.sa.used = w.peer.sa.used :=
        Finset.Subset.antisymm (hused ▸ hgrow'.used) hgrow.used
      have hc := quiet_of_kept call hmap₁ hused₁
      have hpeer := peer_of_quiet call hc
      intro d hd
      rcases List.mem_cons.mp hd with rfl | hd
      · exact hc
      · exact (hquiet d hpeer).mp (ih.mp ⟨hmap.trans hmap₁.symm, hused.trans hused₁.symm⟩ d hd)
    · intro hall
      have hpeer := peer_of_quiet call (hall c List.mem_cons_self)
      have hrest := ih.mpr fun d hd => (hquiet d hpeer).mpr (hall d (List.mem_cons_of_mem c hd))
      rw [hpeer] at hrest
      exact hrest

theorem FailedCalls.peer_of_quiet (h : FailedCalls S w cs w') (hq : ∀ c ∈ cs, Quiet S w c) : w'.peer = w.peer := by
  induction h with
  | nil w => rfl
  | @cons w w₁ w' c cs e call rest ih =>
    have hpeer := AlloDataChannel.peer_of_quiet call (hq c List.mem_cons_self)
    rw [← hpeer]
    apply ih
    intro d hd
    have hd' := hq d (List.mem_cons_of_mem c hd)
    unfold Quiet at hd' ⊢
    rw [hpeer]
    exact hd'

/-- **Failed calls.** Calls that throw leave no trace exactly when each of them is quiet in the state before them. -/
theorem no_trace_iff (h : FailedCalls S w cs w') : NoTrace S w w' ↔ ∀ c ∈ cs, Quiet S w c := by
  constructor
  · intro hno
    exact h.quiet_iff.mp ⟨by rw [hno.pat], hno.used⟩
  · intro hq
    have hpeer := h.peer_of_quiet hq
    refine ⟨?_, ?_, ?_, ?_, ?_, fun key => ?_, createTrack_result_congr hpeer h.frame.heap⟩
    · rw [hpeer]
    · rw [hpeer]
    · rw [hpeer]
    · rw [hpeer]
    · rw [hpeer]
    · rw [hpeer]

end Calls

/-! ## A call that fails -/

def failingCall (code : Int) : Call where
  args :=
    { streamId := "cam".toList, trackId := "audio".toList, direction := .sendonly, codec := .OPUS,
      sampleOrBitrate := 48000, channelCount := 2, ssrc := some 5 }
  draws := []
  code := code
  answers := { ssrcs := [5], direction := .sendonly }

/-- On a new peer, `rtcAddTrackEx` returns -1: the format keeps its payload type and the SSRC its reservation. -/
theorem failed_call_leaves_trace : ∃ w', FailedCalls .scalars (.start none) [failingCall (-1)] w' ∧
    ¬ NoTrace .scalars (.start none) w' := by
  refine ⟨_, .cons _ rfl (.nil _), fun h => ?_⟩
  have hmap := congrArg PayloadTypeAllocator.next h.pat
  exact absurd hmap (by decide)

theorem no_trace_example : ∃ t w w', World.createTrack .scalars (.start none) (failingCall 1).args [] 1
      (failingCall 1).answers = some (.ok t, w) ∧
    FailedCalls .scalars w [failingCall (-1), failingCall (-4)] w' ∧ NoTrace .scalars w w' := by
  refine ⟨_, _, _, rfl, .cons _ rfl (.cons _ rfl (.nil _)), ?_⟩
  refine (@no_trace_iff .scalars _ _ [failingCall (-1), failingCall (-4)]
    (.cons _ rfl (.cons _ rfl (.nil _)))).mpr ?_
  intro c hc
  rcases List.mem_cons.mp hc with rfl | hc
  · exact Or.inr ⟨rfl, 5, rfl, by decide⟩
  · rw [List.mem_singleton.mp hc]
    exact Or.inr ⟨rfl, 5, rfl, by decide⟩

end AlloDataChannel

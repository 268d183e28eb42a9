import AlloDataChannel.Lib.Buffers
import AlloDataChannel.Peer

/-!
# Strings handed to C

`withCStrings` nests one `withUnsafeBufferPointer` in the next, so that all strings can be read while its body runs.

* `withCStrings` : the recursion; `withCStrings_eq` : what it does;
* `CTrackInit` : the `rtcTrackInit`, with its pointers;
* `TrackArgs.addTrackEx` : the call of `rtcAddTrackEx` in `createTrack`, with the strings in memory;
* `cstrings_law` : the body sees every string, and `rtcAddTrackEx` reads the `TrackInit` of the model.
-/

namespace AlloDataChannel
open Lib (Scalars Memory Placement Scoped Pinned utf8CString)

section WithCStrings
variable {σ α : Type} (A : Placement)

/-- The nested function of `withCStrings`. `none` is an index out of bounds, or a buffer without a pointer. -/
def withCStrings.recurse (utf8Buffers : List (List UInt8)) (body : List Nat → Scoped σ α) (index : Nat)
    (accumulated : List Nat) : Scoped σ α :=
  if index = utf8Buffers.length then body accumulated
  else
    match _h : utf8Buffers[index]? with
    | none => fun _ _ => none
    | some buffer =>
      A.withUnsafeBufferPointer buffer fun baseAddress =>
        match baseAddress with
        | none => fun _ _ => none
        | some p => recurse utf8Buffers body (index + 1) (accumulated ++ [p])
termination_by utf8Buffers.length - index
decreasing_by
  have hlt := (List.getElem?_eq_some_iff.mp _h).1
  omega

def withCStrings (strings : List Scalars) (body : List Nat → Scoped σ α) : Scoped σ α :=
  withCStrings.recurse A (strings.map utf8CString) body 0 []

theorem recurse_of_getElem? {utf8Buffers : List (List UInt8)} (body : List Nat → Scoped σ α) {index : Nat}
    {buffer : List UInt8} (accumulated : List Nat) (h : utf8Buffers[index]? = some buffer) (hne : buffer ≠ []) (s : σ)
    (m : Memory) :
    withCStrings.recurse A utf8Buffers body index accumulated s m =
      (withCStrings.recurse A utf8Buffers body (index + 1) (accumulated ++ [A.address m]) s
        (m.pin (A.address m) buffer)).map fun r => (r.1, r.2.1, r.2.2.unpin (A.address m)) := by
  have hlt := (List.getElem?_eq_some_iff.mp h).1
  have hstep : withCStrings.recurse A utf8Buffers body index accumulated =
      A.withUnsafeBufferPointer buffer fun baseAddress =>
        match baseAddress with
        | none => fun _ _ => none
        | some p => withCStrings.recurse A utf8Buffers body (index + 1) (accumulated ++ [p]) := by
    rw [withCStrings.recurse, if_neg (by omega)]
    split
    · next hnone =>
      rw [h] at hnone
      cases hnone
    · next buffer' hsome =>
      rw [h, Option.some.injEq] at hsome
      subst hsome
      rfl
  rw [hstep]
  unfold Placement.withUnsafeBufferPointer
  rw [if_neg hne]

/-- The recursion from `index` on pins the buffers that are left. -/
theorem recurse_eq {body : List Nat → Scoped σ α} {s : σ} (rest : List (List UInt8)) (hne : ∀ b ∈ rest, b ≠ [])
    (done : List (List UInt8)) (accumulated : List Nat) (m : Memory) :
    withCStrings.recurse A (done ++ rest) body done.length accumulated s m =
      (body (accumulated ++ (A.pinAll rest m).1) s (A.pinAll rest m).2).map fun r =>
        (r.1, r.2.1, r.2.2.unpinAll (A.pinAll rest m).1) := by
  induction rest generalizing done accumulated m with
  | nil =>
    rw [withCStrings.recurse, if_pos (by simp)]
    show body accumulated s m = (body (accumulated ++ []) s m).map fun r => r
    rw [List.append_nil, Option.map_id']
  | cons b rest ih =>
    have hb := hne b List.mem_cons_self
    have hget : (done ++ b :: rest)[done.length]? = some b := by simp
    have hnext := ih (fun c hc => hne c (List.mem_cons_of_mem b hc)) (done ++ [b]) (accumulated ++ [A.address m])
      (m.pin (A.address m) b)
    rw [List.append_assoc, List.singleton_append, List.length_append, List.length_singleton, List.append_assoc,
      List.singleton_append] at hnext
    rw [recurse_of_getElem? A body accumulated hget hb, hnext, Option.map_map]
    rfl

theorem withCStrings_eq (strings : List Scalars) (body : List Nat → Scoped σ α) (s : σ) (m : Memory) :
    withCStrings A strings body s m =
      (body (A.pinAll (strings.map utf8CString) m).1 s (A.pinAll (strings.map utf8CString) m).2).map fun r =>
        (r.1, r.2.1, r.2.2.unpinAll (A.pinAll (strings.map utf8CString) m).1) := by
  have hne : ∀ b ∈ strings.map utf8CString, b ≠ [] := by
    intro b hb
    obtain ⟨t, -, rfl⟩ := List.mem_map.mp hb
    exact Lib.utf8CString_ne_nil t
  exact recurse_eq A (strings.map utf8CString) hne [] [] m

end WithCStrings

/-- Every pointer leads to its string, as C reads it. -/
theorem readString_of_pinned {strings : List Scalars} {m m' : Memory} {vals : List Nat}
    (h : Pinned (strings.map utf8CString) m vals m') :
    vals.map m'.readString = strings.map fun t => some (withCString t) := by
  have hbytes := h.bytes
  rw [List.map_map] at hbytes
  apply List.ext_getElem?
  intro i
  have hi := congrArg (fun xs => xs[i]?) hbytes
  simp only [List.getElem?_map] at hi ⊢
  cases hv : vals[i]? with
  | none =>
    rw [hv, Option.map_none] at hi
    rw [Option.map_none, Option.map_eq_none_iff.mp hi.symm, Option.map_none]
  | some p =>
    rw [hv, Option.map_some] at hi
    obtain ⟨t, ht, hp⟩ := Option.map_eq_some_iff.mp hi.symm
    rw [ht, Option.map_some, Option.map_some, Lib.readString_of_utf8CString hp.symm]
    rfl

/-! ## `rtcAddTrackEx` -/

/-- `rtcTrackInit`. -/
structure CTrackInit where
  direction : Direction
  codec : Codec
  payloadType : Int
  ssrc : UInt32
  mid : Nat
  name : Nat
  msid : Nat
  trackId : Nat
  profile : Option Nat

/-- What the C library reads. `none` is a pointer that leads nowhere. -/
def CTrackInit.read (init : CTrackInit) (m : Memory) : Option TrackInit := do
  let mid ← m.readString init.mid
  let name ← m.readString init.name
  let msid ← m.readString init.msid
  let trackId ← m.readString init.trackId
  let profile ← match init.profile with
    | none => some none
    | some p => (m.readString p).map some
  pure { direction := init.direction, codec := init.codec, payloadType := init.payloadType, ssrc := init.ssrc,
         mid := mid, name := name, msid := msid, trackId := trackId, profile := profile }

namespace TrackArgs

/-- The strings that `createTrack` hands to `withCStrings`. -/
def cstrings (a : TrackArgs) (actualSsrc : UInt32) : List Scalars :=
  [a.streamId, a.trackId, a.actualMid, a.codecProfile.getD [], ("t" ++ toString actualSsrc).toList]

/-- `initData`, from the pointers `vals`. `none` is an index out of bounds. -/
def initData (a : TrackArgs) (pt : Int) (actualSsrc : UInt32) (vals : List Nat) : Option CTrackInit := do
  let mid ← vals[2]?
  let name ← vals[4]?
  let msid ← vals[0]?
  let trackId ← vals[1]?
  let profile ← if a.codecProfile.isSome then (vals[3]?).map some else some none
  pure { direction := a.direction, codec := a.codec, payloadType := pt, ssrc := actualSsrc,
         mid := mid, name := name, msid := msid, trackId := trackId, profile := profile }

/-- The body of `withCStrings` in `createTrack`, where `rtcAddTrackEx` returns `code`. -/
def addTrackEx (a : TrackArgs) (pt : Int) (actualSsrc : UInt32) (code : Int) (vals : List Nat) : Scoped Rtc Int :=
  fun r m => do
    let initData ← a.initData pt actualSsrc vals
    let init ← initData.read m
    pure (code, r.addTrack init code, m)

end TrackArgs

/-- The library reads the `TrackInit` of the model. -/
theorem addTrackEx_of_pinned (a : TrackArgs) (pt : Int) (actualSsrc : UInt32) (code : Int) (r : Rtc) {m m' : Memory}
    {vals : List Nat} (h : Pinned ((a.cstrings actualSsrc).map utf8CString) m vals m') :
    a.addTrackEx pt actualSsrc code vals r m' = some (code, r.addTrack (a.trackInit pt actualSsrc) code, m') := by
  have hread := readString_of_pinned h
  obtain ⟨p₀, p₁, p₂, p₃, p₄, rfl⟩ : ∃ p₀ p₁ p₂ p₃ p₄, vals = [p₀, p₁, p₂, p₃, p₄] := by
    have hlen := congrArg List.length hread
    rw [List.length_map, List.length_map] at hlen
    match vals, hlen with
    | [p₀, p₁, p₂, p₃, p₄], _ => exact ⟨p₀, p₁, p₂, p₃, p₄, rfl⟩
  simp only [TrackArgs.cstrings, List.map_cons, List.map_nil, List.cons.injEq] at hread
  obtain ⟨h₀, h₁, h₂, h₃, h₄, -⟩ := hread
  unfold TrackArgs.addTrackEx TrackArgs.initData CTrackInit.read TrackArgs.trackInit
  cases hprofile : a.codecProfile with
  | none => simp [h₀, h₁, h₂, h₄]
  | some profile =>
    rw [hprofile, Option.getD_some] at h₃
    simp [h₀, h₁, h₂, h₃, h₄]

/-! ## The law -/

/-- What `withCStrings` does, wherever the buffers stand. -/
structure CStringsLaw (A : Placement) : Prop where
  /-- The body is called once. Every string has its own new pointer, which reads as the string while the body runs, and
  as nothing when the call has returned or thrown. -/
  call : ∀ {σ α : Type} (strings : List Scalars) (body : List Nat → Scoped σ α) (s : σ) (m : Memory),
    (∀ vals s m r, body vals s m = some r → r.2.2 = m) →
    ∃ vals m', Pinned (strings.map utf8CString) m vals m' ∧
      vals.map m'.readString = (strings.map fun t => some (withCString t)) ∧ (∀ p ∈ vals, m.readString p = none) ∧
      withCStrings A strings body s m = (body vals s m').map fun r => (r.1, r.2.1, m)
  /-- `createTrack` hands the C library what the model says. -/
  createTrack : ∀ (a : TrackArgs) (pt : Int) (actualSsrc : UInt32) (code : Int) (r : Rtc) (m : Memory),
    withCStrings A (a.cstrings actualSsrc) (a.addTrackEx pt actualSsrc code) r m =
      some (code, r.addTrack (a.trackInit pt actualSsrc) code, m)

/-- **Strings handed to C.** -/
theorem cstrings_law (A : Placement) : CStringsLaw A where
  call strings body s m hbody := by
    have hpinned := A.pinned_pinAll (strings.map utf8CString) m
    refine ⟨_, _, hpinned, readString_of_pinned hpinned, fun p hp => ?_, ?_⟩
    · exact Memory.readString_of_bytes_none (hpinned.fresh p hp)
    · rw [withCStrings_eq]
      apply Option.map_congr
      intro r hr
      rw [hbody _ _ _ r hr, A.unpinAll_pinAll]
  createTrack a pt actualSsrc code r m := by
    rw [withCStrings_eq, addTrackEx_of_pinned a pt actualSsrc code r (A.pinned_pinAll _ m), Option.map_some,
      A.unpinAll_pinAll]

/-- A stream id with a NUL in it, and a profile. -/
def nulArgs : TrackArgs where
  streamId := "cam\x00era".toList
  trackId := "video".toList
  direction := .sendonly
  codec := .H264
  codecProfile := some "42e01f".toList
  sampleOrBitrate := 90000
  channelCount := 0

theorem cstrings_example : ∃ r, withCStrings .above (nulArgs.cstrings 5) (nulArgs.addTrackEx 96 5 7) {} {} =
      some (7, r, {}) ∧
    r.added.map (fun init => (init.msid, init.mid, init.name, init.profile)) =
      [("cam".toList, "cam".toList, "t5".toList, some "42e01f".toList)] :=
  ⟨_, (cstrings_law .above).createTrack nulArgs 96 5 7 {} {}, by decide⟩

end AlloDataChannel

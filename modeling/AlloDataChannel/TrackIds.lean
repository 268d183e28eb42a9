import AlloDataChannel.Peer
import AlloDataChannel.SourceMsid

/-!
# Ids on their way to the other side

`createTrack` checks its ids for spaces, the C library copies them into the line `a=msid:<streamId> <trackId>` of the
track's media section, and `GetMsid` reads them there.

* `msidAttribute` : that line;
* `Survives` : the ids arrive, and the line is one line, whatever the other lines of the section are;
* `Transportable` : what the ids have to satisfy for that, beyond the guard of `createTrack`;
* `survives_iff_transportable` : the two are the same.
-/

namespace AlloDataChannel
open Lib (Scalars Character Segmentation)
open Lib.Segmentation (Break IsLine joinLines Spaced)

/-- The line that the C library writes for a track. -/
def msidAttribute (msid trackId : Scalars) : Scalars := "a=msid:".toList ++ (msid ++ ' ' :: trackId)

theorem mem_msidAttribute {c : Char} {s t : Scalars} :
    c ∈ msidAttribute s t ↔ c ∈ "a=msid:".toList ∨ c ∈ s ∨ c = ' ' ∨ c ∈ t := by
  unfold msidAttribute
  rw [List.mem_append, List.mem_append, List.mem_cons]

theorem length_msidAttribute (s t : Scalars) :
    (msidAttribute s t).length = 7 + (s.length + (t.length + 1)) := by
  unfold msidAttribute
  rw [List.length_append, List.length_append, List.length_cons]
  rfl

theorem msidAttribute_ne_nil (s t : Scalars) : msidAttribute s t ≠ [] := by
  intro h
  have hlen := length_msidAttribute s t
  rw [h, List.length_nil] at hlen
  omega

theorem getLast?_msidAttribute (s : Scalars) {t : Scalars} (h : t ≠ []) :
    (msidAttribute s t).getLast? = t.getLast? := by
  unfold msidAttribute
  rw [List.getLast?_append_of_ne_nil _ (by simp), List.getLast?_append_of_ne_nil _ (by simp),
    List.getLast?_cons_of_ne_nil h]

/-- Among any other lines, none of which is an `a=msid:` line, the line of the track is one line, and `GetMsid` returns
the ids of `createTrack`. -/
def Survives (S : Segmentation) (a : TrackArgs) (init : TrackInit) : Prop :=
  ∀ (before after : List (Scalars × Break)) (b : Break), BreakFree (before ++ after) →
    msidLines S (before ++ after) = [] →
    (joinLines (before ++ (msidAttribute init.msid init.trackId, b) :: after)).count '\n' =
      (joinLines (before ++ after)).count '\n' + 1 ∧
    GetMsid S (joinLines (before ++ (msidAttribute init.msid init.trackId, b) :: after)) =
      some (.ok ⟨a.streamId, a.trackId⟩)

/-- The ids are not empty, have no NUL and no line feed, the second one does not end in a carriage return, and in the
line their ends are boundaries of characters. -/
structure Transportable (S : Segmentation) (a : TrackArgs) : Prop where
  nonempty : a.streamId ≠ [] ∧ a.trackId ≠ []
  nul : '\x00' ∉ a.streamId ∧ '\x00' ∉ a.trackId
  lf : '\n' ∉ a.streamId ∧ '\n' ∉ a.trackId
  cr : a.trackId.getLast? ≠ some '\r'
  boundaries : ∃ stream track, S.characters (msidAttribute a.streamId a.trackId) =
      ascii "a=msid:" ++ (stream ++ [' '] :: track) ∧
    stream.flatten = a.streamId ∧ track.flatten = a.trackId ∧ [' '] ∉ stream ∧ [' '] ∉ track

/-! ## What the C library reads -/

theorem nul_notMem_withCString (s : Scalars) : '\x00' ∉ withCString s := by
  intro h
  have hp := List.mem_takeWhile_imp h
  simp at hp

theorem nul_notMem_msidAttribute (s t : Scalars) :
    '\x00' ∉ msidAttribute (withCString s) (withCString t) := by
  intro hm
  rcases mem_msidAttribute.mp hm with hm | hm | hm | hm
  · exact absurd hm (by decide)
  · exact nul_notMem_withCString _ hm
  · exact absurd hm (by decide)
  · exact nul_notMem_withCString _ hm

theorem withCString_of_notMem {s : Scalars} (h : '\x00' ∉ s) : withCString s = s := by
  have happend := withCString_append s []
  rw [if_neg h, List.append_nil] at happend
  rw [happend]
  simp [withCString]

theorem prepareTrack_init {S : Segmentation} {p p' : Peer} {a : TrackArgs} {draws : List Draw} {init : TrackInit}
    (h : p.prepareTrack S a draws = some (.ok init, p')) :
    a.valid S = true ∧ init.msid = withCString a.streamId ∧ init.trackId = withCString a.trackId := by
  unfold Peer.prepareTrack at h
  split at h
  · next hv =>
    split at h
    · cases h
    · split at h
      · cases h
      · cases h
        exact ⟨hv, rfl, rfl⟩
  · cases h

/-- The guard: no id has a space among its characters. -/
theorem space_notMem_of_valid {S : Segmentation} {a : TrackArgs} (h : a.valid S = true) :
    [' '] ∉ S.characters a.streamId ∧ [' '] ∉ S.characters a.trackId := by
  unfold TrackArgs.valid at h
  simp only [Bool.and_eq_true, Bool.not_eq_true', List.contains_eq_mem, decide_eq_false_iff_not] at h
  exact ⟨h.1.1, h.1.2⟩

/-! ## Arriving -/

section Arrive
variable {S : Segmentation} {ls : List (Scalars × Break)}

theorem count_joinLines_cons (l : Scalars × Break) (before after : List (Scalars × Break)) (h : '\n' ∉ l.1) :
    (joinLines (before ++ l :: after)).count '\n' = (joinLines (before ++ after)).count '\n' + 1 := by
  have hbreak : (l.2.scalars).count '\n' = 1 := by cases l.2 <;> decide
  have hline : l.1.count '\n' = 0 := List.count_eq_zero.mpr h
  unfold joinLines
  simp only [List.flatMap_append, List.flatMap_cons, List.count_append, hbreak, hline]
  omega

theorem ne_nil_of_flatten {gs : List Character} {s : Scalars} (h : gs.flatten = s) (hs : s ≠ []) : gs ≠ [] := by
  rintro rfl
  exact hs h.symm

/-- Ids with all the properties arrive. -/
theorem Transportable.survives {a : TrackArgs} {init : TrackInit} (h : Transportable S a)
    (hmsid : init.msid = withCString a.streamId) (htrack : init.trackId = withCString a.trackId) :
    Survives S a init := by
  intro before after b hothers hno
  obtain ⟨stream, track, hchars, hs, ht, hsfree, htfree⟩ := h.boundaries
  rw [hmsid, htrack, withCString_of_notMem h.nul.1, withCString_of_notMem h.nul.2]
  have hlf : '\n' ∉ msidAttribute a.streamId a.trackId := by
    intro hm
    rcases mem_msidAttribute.mp hm with hm | hm | hm | hm
    · exact absurd hm (by decide)
    · exact h.lf.1 hm
    · exact absurd hm (by decide)
    · exact h.lf.2 hm
  have hcr : (msidAttribute a.streamId a.trackId).getLast? ≠ some '\r' := by
    rw [getLast?_msidAttribute _ h.nonempty.2]
    exact h.cr
  have hlines : ∀ l ∈ before ++ (msidAttribute a.streamId a.trackId, b) :: after, IsLine l.1 := by
    intro l hl
    rcases List.mem_append.mp hl with hl | hl
    · exact hothers.isLine l (List.mem_append_left _ hl)
    · rcases List.mem_cons.mp hl with rfl | hl
      · exact ⟨hlf, hcr⟩
      · exact hothers.isLine l (List.mem_append_right _ hl)
  -- the line is the only `a=msid:` line
  have hstarts : isMsidLine S (msidAttribute a.streamId a.trackId) = true := by
    unfold isMsidLine Segmentation.hasPrefix
    rw [hchars]
    exact decide_eq_true (List.prefix_append _ _)
  have hvalue : msidValue S (msidAttribute a.streamId a.trackId) = stream ++ [' '] :: track := by
    unfold msidValue
    rw [hchars, List.drop_left]
  have hfirst : (msidLines S (before ++ (msidAttribute a.streamId a.trackId, b) :: after)).head? =
      some (msidAttribute a.streamId a.trackId) := by
    have hbefore : (before.map Prod.fst).filter (isMsidLine S) = [] := by
      unfold msidLines at hno
      rw [List.map_append, List.filter_append, List.append_eq_nil_iff] at hno
      exact hno.1
    unfold msidLines
    rw [List.map_append, List.map_cons, List.filter_append, hbefore, List.filter_cons_of_pos hstarts]
    rfl
  have hspaced : Spaced [' '] (msidValue S (msidAttribute a.streamId a.trackId)) [stream, track] := by
    rw [hvalue]
    have hlast : Spaced [' '] [] [] := .blank 0
    have htrack' : Spaced [' '] ([' '] :: track) [track] := by
      have h₁ := Spaced.token 1 (ne_nil_of_flatten ht h.nonempty.2) htfree (Or.inl rfl) hlast
      rw [List.append_nil] at h₁
      exact h₁
    exact .token 0 (ne_nil_of_flatten hs h.nonempty.1) hsfree (Or.inr rfl) htrack'
  refine ⟨count_joinLines_cons _ before after hlf, ?_⟩
  rw [getMsid_of_spaced hlines hfirst hspaced]
  show some (Except.ok (Msid.mk stream.flatten track.flatten)) = _
  rw [hs, ht]

/-! ## Not arriving -/

/-- A msid that `GetMsid` finds in a single line that starts with the scalars of `a=msid:` is spaced there. -/
theorem spaced_of_getMsid {desc : Scalars} {l : List Character} {msid : Msid} (hl : sdpLines S desc = [l])
    (hstarts : "a=msid:".toList <+: l.flatten) (h : GetMsid S desc = some (.ok msid)) :
    ∃ value stream rest, l = ascii "a=msid:" ++ value ∧ Spaced [' '] value (stream :: rest) ∧
      msid = tokensMsid stream rest := by
  rw [getMsid_eq, hl, Option.some.injEq] at h
  -- the line is no source line
  have hsource : Segmentation.hasPrefix l (ascii "a=ssrc:") = false := by
    unfold Segmentation.hasPrefix
    rw [decide_eq_false_iff_not]
    intro hp
    have hflat := hp.flatten
    rw [flatten_ascii] at hflat
    have heq := List.IsPrefix.eq_of_length (List.prefix_of_prefix_length_le hstarts hflat (by decide)) (by decide)
    exact absurd heq (by decide)
  have hnone : sourceLine [l] = none := by
    unfold sourceLine
    rw [List.find?_cons_of_neg (by simp [hsource]), List.find?_nil]
  unfold msidOfLines at h
  rw [hnone, Option.bind_none, Option.or_none] at h
  by_cases hp : ascii "a=msid:" <+: l
  · obtain ⟨value, rfl⟩ := hp
    have hline : unifiedLine [ascii "a=msid:" ++ value] = some (ascii "a=msid:" ++ value) := by
      unfold unifiedLine
      exact List.find?_cons_of_pos (decide_eq_true (List.prefix_append _ _))
    have hvalue : unifiedTokens (ascii "a=msid:" ++ value) = Segmentation.split [' '] value := by
      unfold unifiedTokens
      rw [List.drop_left]
    rw [hline, Option.bind_some, hvalue] at h
    have hspaced := Segmentation.spaced_split [' '] value
    cases htokens : Segmentation.split [' '] value with
    | nil =>
      rw [htokens] at h
      cases h
    | cons stream rest =>
      rw [htokens] at h hspaced
      rw [unifiedOfTokens_cons] at h
      cases h
      exact ⟨value, stream, rest, rfl, hspaced, rfl⟩
  · have hline : unifiedLine [l] = none := by
      unfold unifiedLine
      rw [List.find?_cons_of_neg, List.find?_nil]
      exact fun hq => hp (of_decide_eq_true hq)
    rw [hline] at h
    cases h

theorem mem_of_mem_flatten_token {value : List Character} {ts : List (List Character)} {t : List Character} {c : Char}
    (h : Spaced [' '] value ts) (ht : t ∈ ts) (hc : c ∈ t.flatten) : c ∈ (ascii "a=msid:" ++ value).flatten := by
  obtain ⟨g, hg, hcg⟩ := List.mem_flatten.mp hc
  exact List.mem_flatten.mpr ⟨g, List.mem_append_right _ (h.subset t ht hg), hcg⟩

theorem crlf_notMem_ascii : ['\r', '\n'] ∉ ascii "a=msid:" := by decide

theorem crlf_notMem_spaces (k : Nat) : ['\r', '\n'] ∉ List.replicate k [' '] := by
  intro h
  have := List.eq_of_mem_replicate h
  simp at this

theorem length_ascii_flatten : ((ascii "a=msid:").flatten).length = 7 := by decide

theorem flatten_ne_nil {gs : List Character} (hne : gs ≠ []) (h : [] ∉ gs) : gs.flatten ≠ [] := by
  intro hf
  obtain ⟨g, gs', rfl⟩ := List.exists_cons_of_ne_nil hne
  rw [List.flatten_cons, List.append_eq_nil_iff] at hf
  exact h (hf.1 ▸ List.mem_cons_self)

/-- A text that is doubled by spaces around it is made of spaces. -/
theorem eq_space_of_doubled {s : Scalars} {i j : Nat}
    (h : List.replicate i ' ' ++ (s ++ List.replicate j ' ') = s ++ ' ' :: s) : ∀ c ∈ s, c = ' ' := by
  have hcount := congrArg (List.countP (· ≠ ' ')) h
  have hspaces : ∀ k, (List.replicate k ' ').countP (· ≠ ' ') = 0 := by
    intro k
    rw [List.countP_eq_zero]
    intro c hc
    rw [List.eq_of_mem_replicate hc]
    decide
  rw [List.countP_append, List.countP_append, List.countP_append, hspaces, hspaces,
    List.countP_cons_of_neg (by decide)] at hcount
  have hzero : s.countP (· ≠ ' ') = 0 := by omega
  intro c hc
  simpa using List.countP_eq_zero.mp hzero c hc

/-- Ids of spaces only do not pass the guard. -/
theorem space_mem_of_all {s : Scalars} (hne : s ≠ []) (h : ∀ c ∈ s, c = ' ') : [' '] ∈ S.characters s := by
  have hprint : ∀ c ∈ s, Lib.Printable c := by
    intro c hc
    rw [h c hc]
    decide
  obtain ⟨c, s', rfl⟩ := List.exists_cons_of_ne_nil hne
  rw [S.characters_of_printable hprint, h c List.mem_cons_self]
  exact List.mem_cons_self

/-- Two tokens that are all of the line but one space. -/
theorem boundaries_of_spaced {stream track r : List Character} {k j : Nat} {line : Scalars}
    (hnil : [] ∉ S.characters line) (hline : line = msidAttribute stream.flatten track.flatten)
    (hchars : S.characters line =
      ascii "a=msid:" ++ (List.replicate k [' '] ++ (stream ++ (List.replicate (j + 1) [' '] ++ (track ++ r))))) :
    S.characters line = ascii "a=msid:" ++ (stream ++ [' '] :: track) := by
  have hlength := congrArg (fun gs => gs.flatten.length) hchars
  have hseven : line.length = 7 + (stream.flatten.length + (track.flatten.length + 1)) := by
    rw [hline, length_msidAttribute]
  simp only [S.flatten_characters, List.flatten_append, List.length_append, length_ascii_flatten,
    List.flatten_replicate_singleton, List.length_replicate] at hlength
  have hk : k = 0 := by omega
  have hj : j = 0 := by omega
  have hr : r.flatten = [] := List.length_eq_zero_iff.mp (by omega)
  have hrnil : r = [] := by
    by_contra hne
    refine flatten_ne_nil hne (fun hm => hnil ?_) hr
    rw [hchars]
    simp [hm]
  rw [hchars, hk, hj, hrnil]
  simp

/-- A section of nothing but the line of the track, as `GetMsid` reads it: `a=msid:`, then a value with the ids as its
first tokens. The line is followed by CRLF, and may have swallowed the line feed. -/
structure LoneLine (S : Segmentation) (a : TrackArgs) (value stream : List Character) (rest : List (List Character)) :
    Prop where
  nul : '\x00' ∉ a.streamId ∧ '\x00' ∉ a.trackId
  lf : '\n' ∉ a.streamId ∧ '\n' ∉ a.trackId
  spaced : Spaced [' '] value (stream :: rest)
  ids : a.streamId = stream.flatten ∧ a.trackId = (rest.headD stream).flatten
  line : (msidAttribute a.streamId a.trackId).getLast? ≠ some '\r' ∧
      ascii "a=msid:" ++ value = S.characters (msidAttribute a.streamId a.trackId) ∨
    ['\r', '\n'] ∈ ascii "a=msid:" ++ value ∧
      (ascii "a=msid:" ++ value).flatten = msidAttribute a.streamId a.trackId ++ ['\n']

theorem Survives.loneLine {a : TrackArgs} {init : TrackInit} (h : Survives S a init)
    (hmsid : init.msid = withCString a.streamId) (htrack : init.trackId = withCString a.trackId) :
    ∃ value stream rest, LoneLine S a value stream rest := by
  obtain ⟨hcount, hget⟩ := h [] [] .crlf (fun l hl => absurd hl List.not_mem_nil) rfl
  rw [hmsid, htrack] at hcount hget
  have hjoin : ∀ line, joinLines ([] ++ (line, Break.crlf) :: []) = line ++ ['\r', '\n'] := by
    intro line
    simp [joinLines, Break.scalars]
  rw [hjoin] at hcount hget
  have hlf : '\n' ∉ msidAttribute (withCString a.streamId) (withCString a.trackId) := by
    rw [List.count_append] at hcount
    have hbreak : ['\r', '\n'].count '\n' = 1 := by decide
    have hnone : (joinLines ([] ++ [])).count '\n' = 0 := rfl
    rw [← List.count_eq_zero]
    omega
  obtain ⟨l, hl, hcase⟩ := Segmentation.split_normalised_crlf (S := S) hlf (msidAttribute_ne_nil _ _)
  have hflat : l.flatten = msidAttribute (withCString a.streamId) (withCString a.trackId) ∨
      l.flatten = msidAttribute (withCString a.streamId) (withCString a.trackId) ++ ['\n'] := by
    rcases hcase with ⟨-, rfl⟩ | ⟨-, hf⟩
    · exact Or.inl (S.flatten_characters _)
    · exact Or.inr hf
  have hstarts : "a=msid:".toList <+: l.flatten := by
    rcases hflat with hf | hf
    · rw [hf]
      exact List.prefix_append _ _
    · rw [hf]
      exact (List.prefix_append _ _).trans (List.prefix_append _ _)
  obtain ⟨value, stream, rest, rfl, hspaced, hids⟩ := spaced_of_getMsid hl hstarts hget
  rw [tokensMsid, Msid.mk.injEq] at hids
  -- the ids are parts of the line, so the C library has read them whole
  have hnul : '\x00' ∉ (ascii "a=msid:" ++ value).flatten := by
    intro hm
    rcases hflat with hf | hf
    · exact nul_notMem_msidAttribute _ _ (hf ▸ hm)
    · rw [hf] at hm
      rcases List.mem_append.mp hm with hm | hm
      · exact nul_notMem_msidAttribute _ _ hm
      · exact absurd hm (by decide)
  have htoken : rest.headD stream ∈ stream :: rest := by
    cases rest with
    | nil => exact List.mem_cons_self
    | cons track rest => exact List.mem_cons_of_mem _ List.mem_cons_self
  have hnuls : '\x00' ∉ a.streamId := by
    rw [hids.1]
    exact fun hm => hnul (mem_of_mem_flatten_token hspaced List.mem_cons_self hm)
  have hnult : '\x00' ∉ a.trackId := by
    rw [hids.2]
    exact fun hm => hnul (mem_of_mem_flatten_token hspaced htoken hm)
  rw [withCString_of_notMem hnuls, withCString_of_notMem hnult] at hlf hcase
  have hlfs : '\n' ∉ a.streamId := fun hm => hlf (mem_msidAttribute.mpr (Or.inr (Or.inl hm)))
  have hlft : '\n' ∉ a.trackId := fun hm => hlf (mem_msidAttribute.mpr (Or.inr (Or.inr (Or.inr hm))))
  exact ⟨value, stream, rest, ⟨hnuls, hnult⟩, ⟨hlfs, hlft⟩, hspaced, hids, hcase⟩

namespace LoneLine
variable {a : TrackArgs} {value stream : List Character} {rest : List (List Character)}

theorem crlf_notMem_stream (h : LoneLine S a value stream rest) : ['\r', '\n'] ∉ stream := by
  intro hm
  apply h.lf.1
  rw [h.ids.1]
  exact List.mem_flatten.mpr ⟨_, hm, by simp⟩

/-- The ids are two tokens. -/
theorem rest_ne_nil (h : LoneLine S a value stream rest) (hv : a.valid S = true) : rest ≠ [] := by
  rintro rfl
  have hcrlf := h.crlf_notMem_stream
  have hsame : a.trackId = a.streamId := h.ids.2.trans h.ids.1.symm
  have hline := h.line
  cases h.spaced with
  | @token k _ v _ ne free next hrest =>
    cases hrest with
    | blank j =>
      rcases hline with ⟨-, hchars⟩ | ⟨hbr, -⟩
      · have hf := congrArg List.flatten hchars
        rw [S.flatten_characters, List.flatten_append, flatten_ascii, hsame] at hf
        have hdouble := List.append_cancel_left hf
        rw [List.flatten_append, List.flatten_append, List.flatten_replicate_singleton,
          List.flatten_replicate_singleton, ← h.ids.1] at hdouble
        have hne : a.streamId ≠ [] := by
          rw [h.ids.1]
          refine flatten_ne_nil ne fun hm => S.nil_notMem (msidAttribute a.streamId a.trackId) ?_
          rw [← hchars]
          simp [hm]
        exact (space_notMem_of_valid hv).1 (space_mem_of_all hne (eq_space_of_doubled hdouble))
      · simp only [List.mem_append] at hbr
        rcases hbr with hm | hm | hm | hm
        · exact crlf_notMem_ascii hm
        · exact crlf_notMem_spaces k hm
        · exact hcrlf hm
        · exact crlf_notMem_spaces j hm

/-- Two tokens and one space are the whole line, without its line feed. -/
theorem transportable (h : LoneLine S a value stream rest) (hv : a.valid S = true) : Transportable S a := by
  obtain ⟨track, rest', rfl⟩ := List.exists_cons_of_ne_nil (h.rest_ne_nil hv)
  have hcrlf := h.crlf_notMem_stream
  have hs := h.ids.1
  have ht : a.trackId = track.flatten := h.ids.2
  have hline := h.line
  cases h.spaced with
  | @token k _ v _ ne free next hrest =>
    cases hrest with
    | @token j _ r _ ne' free' next' hrest' =>
      -- a space stands between the tokens
      have hj : j ≠ 0 := by
        rintro rfl
        rcases next with hnext | hnext
        · simp [ne'] at hnext
        · obtain ⟨g, track', rfl⟩ := List.exists_cons_of_ne_nil ne'
          simp at hnext
          exact free' (hnext ▸ List.mem_cons_self)
      obtain ⟨j, rfl⟩ := Nat.exists_eq_succ_of_ne_zero hj
      rcases hline with ⟨hcr, hchars⟩ | ⟨hbr, hf⟩
      · have hnil := S.nil_notMem (msidAttribute a.streamId a.trackId)
        have hsne : a.streamId ≠ [] := by
          rw [hs]
          refine flatten_ne_nil ne fun hm => hnil ?_
          rw [← hchars]
          simp [hm]
        have htne : a.trackId ≠ [] := by
          rw [ht]
          refine flatten_ne_nil ne' fun hm => hnil ?_
          rw [← hchars]
          simp [hm]
        rw [getLast?_msidAttribute _ htne] at hcr
        exact ⟨⟨hsne, htne⟩, h.nul, h.lf, hcr, stream, track,
          boundaries_of_spaced hnil (by rw [hs, ht]) hchars.symm, hs.symm, ht.symm, free, free'⟩
      · -- the line break would have to stand behind both
        exfalso
        have hcrlf' : ['\r', '\n'] ∉ track := by
          intro hm
          apply h.lf.2
          rw [ht]
          exact List.mem_flatten.mpr ⟨_, hm, by simp⟩
        have hr : ['\r', '\n'] ∈ r := by
          simp only [List.mem_append] at hbr
          rcases hbr with hm | hm | hm | hm | hm | hm
          · exact absurd hm crlf_notMem_ascii
          · exact absurd hm (crlf_notMem_spaces k)
          · exact absurd hm hcrlf
          · exact absurd hm (crlf_notMem_spaces _)
          · exact absurd hm hcrlf'
          · exact hm
        have htwo : 2 ≤ r.flatten.length := by
          obtain ⟨u, v, rfl⟩ := List.append_of_mem hr
          simp only [List.flatten_append, List.flatten_cons, List.length_append, List.length_cons, List.length_nil]
          omega
        have hlength := congrArg List.length hf
        rw [List.length_append, length_msidAttribute, hs, ht] at hlength
        simp only [List.flatten_append, List.length_append, length_ascii_flatten, List.length_cons,
          List.flatten_replicate_singleton, List.length_replicate, List.length_nil] at hlength
        omega

end LoneLine

end Arrive

/-- **Ids that arrive.** For every call of `createTrack` that reaches the C library, both ids arrive in every media
section exactly when they are transportable. -/
theorem survives_iff_transportable {S : Segmentation} {p p' : Peer} {a : TrackArgs} {draws : List Draw}
    {init : TrackInit} (h : p.prepareTrack S a draws = some (.ok init, p')) :
    Survives S a init ↔ Transportable S a := by
  obtain ⟨hv, hmsid, htrack⟩ := prepareTrack_init h
  refine ⟨fun hs => ?_, fun ht => ht.survives hmsid htrack⟩
  obtain ⟨value, stream, rest, hlone⟩ := hs.loneLine hmsid htrack
  exact hlone.transportable hv

def webcam (streamId : Scalars) : TrackArgs where
  streamId := streamId
  trackId := "video".toList
  direction := .sendonly
  codec := .VP8
  sampleOrBitrate := 90000
  channelCount := 0
  ssrc := some 5

/-- A stream id with a line feed in it passes the guard and becomes two lines of the section. -/
theorem ids_injected : ∃ init p', Peer.prepareTrack .scalars {} (webcam "cam\na=inactive".toList) [] =
      some (.ok init, p') ∧ ¬ Survives .scalars (webcam "cam\na=inactive".toList) init := by
  refine ⟨_, _, rfl, fun h => ?_⟩
  have hcount := (h [] [] .crlf (fun l hl => absurd hl List.not_mem_nil) rfl).1
  exact absurd hcount (by decide)

theorem survives_example : ∃ init p', Peer.prepareTrack .scalars {} (webcam "cam".toList) [] = some (.ok init, p') ∧
    Survives .scalars (webcam "cam".toList) init := by
  obtain ⟨init, p', h⟩ : ∃ init p', Peer.prepareTrack .scalars {} (webcam "cam".toList) [] = some (.ok init, p') :=
    ⟨_, _, rfl⟩
  refine ⟨init, p', h, (survives_iff_transportable h).mpr ?_⟩
  exact ⟨⟨by decide, by decide⟩, ⟨by decide, by decide⟩, ⟨by decide, by decide⟩, by decide, ascii "cam", ascii "video",
    by decide, by decide, by decide, by decide, by decide⟩

end AlloDataChannel

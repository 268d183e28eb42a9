import AlloDataChannel.UnifiedMsid

/-!
# Plan B descriptions

Plan B carries the msid in a source attribute, `a=ssrc:<n> msid:<stream> <track>`. The second search of `GetMsid` wants
` msid ` between spaces.

* `planBLine`, `planBLine_not_isSourceLine` : the search never finds such a line;
* `getMsid_of_sourceLine` : without an `a=msid:` line, the first line it does find decides;
* `getMsid_planB_iff` : the msid of a Plan B line is returned exactly when another line spells it with spaces.
-/

namespace AlloDataChannel
open Lib (Scalars Character Segmentation)
open Lib.Segmentation (Break IsLine joinLines Spaced)

/-- The line `a=ssrc:<n> msid:<streamId>`, with ` <trackId>` behind it if there is one. -/
def planBLine (n streamId : Scalars) (trackId : Option Scalars) : Scalars :=
  "a=ssrc:".toList ++ (n ++ (" msid:".toList ++ (streamId ++ (trackId.elim [] fun t => ' ' :: t))))

def WhitespaceFree (s : Scalars) : Prop := ∀ c ∈ s, Lib.isWhitespaceScalar c = false

theorem whitespaceFree_of_all {s : Scalars} (h : s.all (fun c => !Lib.isWhitespaceScalar c) = true) :
    WhitespaceFree s := fun c hc => by simpa using List.all_eq_true.mp h c hc

theorem WhitespaceFree.notMem {s : Scalars} (h : WhitespaceFree s) {c : Char}
    (hc : Lib.isWhitespaceScalar c = true) : c ∉ s := by
  intro hm
  rw [h c hm] at hc
  cases hc

/-- An occurrence starts no earlier than the first element that equals its own first one. -/
theorem infix_of_notMem {α : Type*} {c : α} {q u r : List α} (hc : c ∉ u) (h : c :: q <:+: u ++ r) :
    c :: q <:+: r := by
  induction u with
  | nil => exact h
  | cons x u ih =>
    rw [List.cons_append] at h
    rcases List.infix_cons_iff.mp h with hp | hi
    · obtain ⟨rfl, -⟩ := List.cons_prefix_cons.mp hp
      exact absurd List.mem_cons_self hc
    · exact ih (fun hm => hc (List.mem_cons_of_mem x hm)) hi

theorem flatten_ascii (s : String) : (ascii s).flatten = s.toList := by
  unfold ascii
  rw [← List.flatMap_def, List.flatMap_singleton']

/-- A text with one space, or two around `msid:…`, has no ` msid ` in it. -/
theorem not_infix_planBLine {n streamId : Scalars} {trackId : Option Scalars} (hn : ' ' ∉ n) (hs : ' ' ∉ streamId)
    (ht : ∀ t, trackId = some t → ' ' ∉ t) : ¬ " msid ".toList <:+: planBLine n streamId trackId := by
  intro h
  have hpat : " msid ".toList = ' ' :: "msid ".toList := by decide
  have hmid : " msid:".toList = ' ' :: "msid:".toList := by decide
  rw [hpat] at h
  -- up to the first space
  have h₁ := infix_of_notMem (by decide) h
  have h₂ := infix_of_notMem hn h₁
  rw [hmid, List.cons_append] at h₂
  rcases List.infix_cons_iff.mp h₂ with hp | h₃
  · have hcolon := (List.cons_prefix_cons.mp hp).2
    obtain ⟨r, hr⟩ := hcolon
    simp at hr
  -- up to the second one
  · have h₄ := infix_of_notMem (by decide) h₃
    have h₅ := infix_of_notMem hs h₄
    cases trackId with
    | none => exact absurd (List.infix_nil.mp h₅) (by simp)
    | some t =>
      rcases List.infix_cons_iff.mp h₅ with hp | h₆
      · exact ht t rfl ((List.cons_prefix_cons.mp hp).2.subset (by decide))
      · exact ht t rfl (h₆.subset List.mem_cons_self)

section Source
variable {S : Segmentation} {ls : List (Scalars × Break)}

/-- The lines that the second search finds. -/
def isSourceLine (S : Segmentation) (l : Scalars) : Bool :=
  Segmentation.contains (S.characters l) (ascii " msid ") && Segmentation.hasPrefix (S.characters l) (ascii "a=ssrc:")

def sourceLines (S : Segmentation) (ls : List (Scalars × Break)) : List Scalars :=
  (ls.map Prod.fst).filter (isSourceLine S)

theorem planBLine_not_isSourceLine {n streamId : Scalars} {trackId : Option Scalars} (hn : ' ' ∉ n)
    (hs : ' ' ∉ streamId) (ht : ∀ t, trackId = some t → ' ' ∉ t) :
    isSourceLine S (planBLine n streamId trackId) = false := by
  have hcontains : Segmentation.contains (S.characters (planBLine n streamId trackId)) (ascii " msid ") = false := by
    apply decide_eq_false
    intro h
    have hflat := List.IsInfix.flatten h
    rw [flatten_ascii, S.flatten_characters] at hflat
    exact not_infix_planBLine hn hs ht hflat
  unfold isSourceLine
  rw [hcontains, Bool.false_and]

theorem planBLine_not_isMsidLine {n streamId : Scalars} {trackId : Option Scalars} :
    isMsidLine S (planBLine n streamId trackId) = false := by
  unfold isMsidLine Segmentation.hasPrefix
  rw [decide_eq_false_iff_not]
  intro h
  have hflat := h.flatten
  rw [flatten_ascii, S.flatten_characters] at hflat
  obtain ⟨r, hr⟩ := hflat
  have hseven := List.append_inj_left hr (by decide)
  exact absurd hseven (by decide)

theorem sourceLine_joinLines (h : ∀ l ∈ ls, IsLine l.1) :
    sourceLine (sdpLines S (joinLines ls)) = (sourceLines S ls).head?.map S.characters := by
  unfold sourceLine
  rw [find?_sdpLines h (by decide), sourceLines, List.head?_filter]
  rfl

/-- Without an `a=msid:` line, the first source line decides. -/
theorem getMsid_of_sourceLine (h : ∀ l ∈ ls, IsLine l.1) (hno : msidLines S ls = []) :
    GetMsid S (joinLines ls) = some (match (sourceLines S ls).head?.bind fun l =>
        sourceOfTokens (Segmentation.split [' '] (S.characters l)) with
      | some msid => .ok msid
      | none => .error .failure) := by
  rw [getMsid_eq]
  unfold msidOfLines
  rw [unifiedLine_joinLines h, hno, sourceLine_joinLines h]
  cases (sourceLines S ls).head? with
  | none => rfl
  | some l => rfl

end Source

/-- The msid after the first token `msid`. -/
theorem sourceOfTokens_eq_some {tokens : List (List Character)} {msid : Msid} :
    sourceOfTokens tokens = some msid ↔ ∃ pre stream track rest,
      tokens = pre ++ ascii "msid" :: stream :: track :: rest ∧ ascii "msid" ∉ pre ∧
        msid = ⟨stream.flatten, track.flatten⟩ := by
  constructor
  · intro h
    have hsome : (sourceOfTokens tokens).isSome := by
      rw [h]
      rfl
    obtain ⟨pre, stream, track, rest, rfl, hpre⟩ := sourceOfTokens_isSome.mp hsome
    refine ⟨pre, stream, track, rest, rfl, hpre, ?_⟩
    rw [sourceOfTokens_append hpre, Option.some.injEq] at h
    exact h.symm
  · rintro ⟨pre, stream, track, rest, rfl, hpre, rfl⟩
    exact sourceOfTokens_append hpre stream track rest

/-! ## Plan B -/

/-- `GetMsid` returns the msid of the Plan B line. -/
def ReadsPlanB (S : Segmentation) (ls : List (Scalars × Break)) (streamId : Scalars) (trackId : Option Scalars) :
    Prop :=
  GetMsid S (joinLines ls) = some (.ok ⟨streamId, trackId.getD streamId⟩)

/-- The first `a=ssrc:` line with ` msid ` in it spells the ids with spaces: `msid <streamId> <trackId>`. -/
def SpelledWithSpaces (S : Segmentation) (ls : List (Scalars × Break)) (streamId trackId : Scalars) : Prop :=
  ∃ l pre stream track rest, (sourceLines S ls).head? = some l ∧
    Spaced [' '] (S.characters l) (pre ++ ascii "msid" :: stream :: track :: rest) ∧ ascii "msid" ∉ pre ∧
    stream.flatten = streamId ∧ track.flatten = trackId

/-- No whitespace but spaces. -/
theorem notMem_planBLine {n streamId : Scalars} {trackId : Option Scalars} (hn : WhitespaceFree n)
    (hs : WhitespaceFree streamId) (ht : ∀ t, trackId = some t → WhitespaceFree t) {c : Char}
    (hspace : Lib.isWhitespaceScalar c = true) (hc : c ∉ "a=ssrc: msid: ".toList) :
    c ∉ planBLine n streamId trackId := by
  have hsub : ∀ t : Scalars, t ⊆ "a=ssrc: msid: ".toList → c ∉ t := fun t ht hm => hc (ht hm)
  intro hm
  unfold planBLine at hm
  rcases List.mem_append.mp hm with hm | hm
  · exact hsub _ (by decide) hm
  rcases List.mem_append.mp hm with hm | hm
  · exact hn.notMem hspace hm
  rcases List.mem_append.mp hm with hm | hm
  · exact hsub _ (by decide) hm
  rcases List.mem_append.mp hm with hm | hm
  · exact hs.notMem hspace hm
  cases trackId with
  | none => exact List.not_mem_nil hm
  | some t =>
    rcases List.mem_cons.mp hm with hm | hm
    · exact hsub [' '] (by decide) (List.mem_singleton.mpr hm)
    · exact (ht t rfl).notMem hspace hm

/-- **Plan B.** The msid of a Plan B line is returned exactly when the other lines spell it with spaces. -/
theorem getMsid_planB_iff {S : Segmentation} {before after : List (Scalars × Break)} {n streamId : Scalars}
    {trackId : Option Scalars} (b : Break) (hothers : BreakFree (before ++ after))
    (hno : msidLines S (before ++ after) = []) (hn : WhitespaceFree n) (hs : WhitespaceFree streamId)
    (ht : ∀ t, trackId = some t → WhitespaceFree t) :
    ReadsPlanB S (before ++ (planBLine n streamId trackId, b) :: after) streamId trackId ↔
      SpelledWithSpaces S (before ++ after) streamId (trackId.getD streamId) := by
  have hspace : Lib.isWhitespaceScalar ' ' = true := by decide
  have hlines : BreakFree (before ++ (planBLine n streamId trackId, b) :: after) := by
    intro l hl
    rcases List.mem_append.mp hl with hl | hl
    · exact hothers l (List.mem_append_left _ hl)
    · rcases List.mem_cons.mp hl with rfl | hl
      · exact ⟨notMem_planBLine hn hs ht (by decide) (by decide), notMem_planBLine hn hs ht (by decide) (by decide)⟩
      · exact hothers l (List.mem_append_right _ hl)
  -- neither search sees the line
  have hmsid : msidLines S (before ++ (planBLine n streamId trackId, b) :: after) = [] := by
    rw [← hno]
    unfold msidLines
    simp [planBLine_not_isMsidLine]
  have hsource : sourceLines S (before ++ (planBLine n streamId trackId, b) :: after) =
      sourceLines S (before ++ after) := by
    have hline := planBLine_not_isSourceLine (S := S) (hn.notMem hspace) (hs.notMem hspace)
      fun t h => (ht t h).notMem hspace
    unfold sourceLines
    simp [hline]
  unfold ReadsPlanB SpelledWithSpaces
  rw [getMsid_of_sourceLine hlines.isLine hmsid, hsource, Option.some.injEq]
  cases hhead : (sourceLines S (before ++ after)).head? with
  | none => simp
  | some l =>
    rw [Option.bind_some]
    constructor
    · intro h
      split at h
      · next msid hm =>
        obtain ⟨pre, stream, track, rest, htokens, hpre, rfl⟩ := sourceOfTokens_eq_some.mp hm
        rw [Except.ok.injEq, Msid.mk.injEq] at h
        refine ⟨l, pre, stream, track, rest, rfl, ?_, hpre, h.1, h.2⟩
        rw [← htokens]
        exact Segmentation.spaced_split _ _
      · cases h
    · rintro ⟨l', pre, stream, track, rest, hl', htokens, hpre, hstream, htrack⟩
      cases hl'
      rw [htokens.split, sourceOfTokens_append hpre, hstream, htrack]

/-- A description with nothing but a Plan B line for its msid. -/
theorem planB_not_read :
    joinLines [("a=mid:0".toList, .crlf), (planBLine "5".toList "cam".toList (some "video".toList), .crlf)] =
        "a=mid:0\r\na=ssrc:5 msid:cam video\r\n".toList ∧
      GetMsid .scalars (joinLines
        [("a=mid:0".toList, .crlf), (planBLine "5".toList "cam".toList (some "video".toList), .crlf)]) =
          some (.error .failure) ∧
      ¬ ReadsPlanB .scalars
        [("a=mid:0".toList, .crlf), (planBLine "5".toList "cam".toList (some "video".toList), .crlf)]
        "cam".toList (some "video".toList) := by
  refine ⟨by decide, by decide, ?_⟩
  unfold ReadsPlanB
  decide

theorem getMsid_planB_example : ReadsPlanB .scalars
    ([("a=ssrc:5 msid cam video".toList, .lf)] ++
      (planBLine "5".toList "cam".toList (some "video".toList), .crlf) :: [])
    "cam".toList (some "video".toList) := by
  refine (getMsid_planB_iff .crlf ?_ (by decide) ?_ ?_ ?_).mpr ?_
  · intro l hl
    rw [List.mem_singleton.mp hl]
    exact ⟨by decide, by decide⟩
  · exact whitespaceFree_of_all (by decide)
  · exact whitespaceFree_of_all (by decide)
  · rintro t ⟨⟩
    exact whitespaceFree_of_all (by decide)
  · refine ⟨"a=ssrc:5 msid cam video".toList, [ascii "a=ssrc:5"], ascii "cam", ascii "video", [], by decide, ?_,
      by decide, by decide, by decide⟩
    have h := Segmentation.spaced_split [' '] (Segmentation.scalars.characters "a=ssrc:5 msid cam video".toList)
    have hsplit : Segmentation.split [' '] (Segmentation.scalars.characters "a=ssrc:5 msid cam video".toList) =
        [ascii "a=ssrc:5"] ++ [ascii "msid", ascii "cam", ascii "video"] := by decide
    rw [hsplit] at h
    exact h

end AlloDataChannel

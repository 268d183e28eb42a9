import AlloDataChannel.Lib.Lines
import AlloDataChannel.Msid

/-!
# Unified-plan descriptions

A media description is a list of lines, each ended by LF or CRLF. `GetMsid` reads its first `a=msid:` line.

* `sdpLines_joinLines` : the lines that `GetMsid` sees are the non-empty lines of the text;
* `getMsid_of_unifiedLine` : the first `a=msid:` line decides, if it has a token;
* `getMsid_unified` : what `GetMsid` returns, and what it does not depend on.
-/

namespace AlloDataChannel
open Lib (Scalars Character Segmentation)
open Lib.Segmentation (Break IsLine joinLines Spaced)

section Lines
variable {S : Segmentation} {ls : List (Scalars × Break)}

/-- `hasPrefix("a=msid:")`. -/
def isMsidLine (S : Segmentation) (l : Scalars) : Bool := Segmentation.hasPrefix (S.characters l) (ascii "a=msid:")

/-- The line after `a=msid:`. -/
def msidValue (S : Segmentation) (l : Scalars) : List Character := (S.characters l).drop (ascii "a=msid:").length

/-- The `a=msid:` lines of a description. -/
def msidLines (S : Segmentation) (ls : List (Scalars × Break)) : List Scalars :=
  (ls.map Prod.fst).filter (isMsidLine S)

theorem sdpLines_joinLines (h : ∀ l ∈ ls, IsLine l.1) :
    sdpLines S (joinLines ls) = (ls.map fun l => S.characters l.1).filter (· ≠ []) :=
  Segmentation.split_normalised_joinLines h

/-- A search that finds no empty line finds the same line among all lines. -/
theorem find?_sdpLines (h : ∀ l ∈ ls, IsLine l.1) {p : List Character → Bool} (hp : p [] = false) :
    (sdpLines S (joinLines ls)).find? p = ((ls.map Prod.fst).find? fun l => p (S.characters l)).map S.characters := by
  rw [sdpLines_joinLines h, List.find?_filter]
  have hpred : (fun g : List Character => decide ((decide (g ≠ []) = true) ∧ p g = true)) = p := by
    funext g
    cases g with
    | nil => simp [hp]
    | cons c g => simp
  rw [hpred, List.find?_map, List.find?_map, Option.map_map]
  rfl

theorem unifiedLine_joinLines (h : ∀ l ∈ ls, IsLine l.1) :
    unifiedLine (sdpLines S (joinLines ls)) = (msidLines S ls).head?.map S.characters := by
  unfold unifiedLine
  rw [find?_sdpLines h (by decide), msidLines, List.head?_filter]
  rfl

/-- The first `a=msid:` line decides, if it has a token. -/
theorem getMsid_of_unifiedLine (h : ∀ l ∈ ls, IsLine l.1) {l : Scalars} {msid : Msid}
    (hl : (msidLines S ls).head? = some l)
    (hm : unifiedOfTokens (Segmentation.split [' '] (msidValue S l)) = some msid) :
    GetMsid S (joinLines ls) = some (.ok msid) := by
  have hlines : msidOfLines (sdpLines S (joinLines ls)) = some msid := by
    unfold msidOfLines
    rw [unifiedLine_joinLines h, hl, Option.map_some, Option.bind_some]
    show (unifiedOfTokens (Segmentation.split [' '] (msidValue S l))).or _ = _
    rw [hm, Option.some_or]
  rw [getMsid_eq, hlines]

end Lines

/-! ## The first `a=msid:` line -/

/-- A list of lines without line breaks in them. -/
def BreakFree (ls : List (Scalars × Break)) : Prop := ∀ l ∈ ls, '\r' ∉ l.1 ∧ '\n' ∉ l.1

theorem BreakFree.isLine {ls : List (Scalars × Break)} (h : BreakFree ls) : ∀ l ∈ ls, IsLine l.1 :=
  fun l hl => .of_free (h l hl).1 (h l hl).2

/-- The msid that the tokens of a value stand for: the first one, and the second one or the first again. -/
def tokensMsid (stream : List Character) (rest : List (List Character)) : Msid :=
  ⟨stream.flatten, (rest.headD stream).flatten⟩

theorem unifiedOfTokens_cons (stream : List Character) (rest : List (List Character)) :
    unifiedOfTokens (stream :: rest) = some (tokensMsid stream rest) := by
  cases rest with
  | nil => rfl
  | cons track rest => rfl

/-- What `GetMsid` makes of the lines `ls`, whose first `a=msid:` line is `l`. -/
structure UnifiedLaw (S : Segmentation) (ls : List (Scalars × Break)) (l : Scalars) : Prop where
  /-- The value of `l` has a first token, and it and the second one are returned. -/
  reads : ∃ stream rest, Spaced [' '] (msidValue S l) (stream :: rest) ∧
    GetMsid S (joinLines ls) = some (.ok (tokensMsid stream rest))
  /-- Other line breaks change nothing. -/
  breaks : ∀ ls' : List (Scalars × Break), ls'.map Prod.fst = ls.map Prod.fst →
    GetMsid S (joinLines ls') = GetMsid S (joinLines ls)
  /-- Lines other than `a=msid:` lines, empty ones and `a=ssrc:` lines among them, may be inserted, deleted and moved
  anywhere, and there may be any `a=msid:` lines after the first one. -/
  lines : ∀ ls' : List (Scalars × Break), BreakFree ls' → (msidLines S ls').head? = (msidLines S ls).head? →
    GetMsid S (joinLines ls') = GetMsid S (joinLines ls)
  /-- Of the tokens of the first `a=msid:` line only the first two matter, and the spaces around them do not. -/
  tokens : ∀ (ls' : List (Scalars × Break)) (l' : Scalars), BreakFree ls' → (msidLines S ls').head? = some l' →
    ∀ ts ts', Spaced [' '] (msidValue S l) ts → Spaced [' '] (msidValue S l') ts' → ts'.take 2 = ts.take 2 →
    GetMsid S (joinLines ls') = GetMsid S (joinLines ls)

/-- The first two tokens decide. -/
theorem getMsid_of_spaced {S : Segmentation} {ls : List (Scalars × Break)} {l : Scalars} (h : ∀ l ∈ ls, IsLine l.1)
    (hl : (msidLines S ls).head? = some l) {stream : List Character} {rest : List (List Character)}
    (hs : Spaced [' '] (msidValue S l) (stream :: rest)) :
    GetMsid S (joinLines ls) = some (.ok (tokensMsid stream rest)) := by
  apply getMsid_of_unifiedLine h hl
  rw [hs.split, unifiedOfTokens_cons]

theorem tokensMsid_congr {stream stream' : List Character} {rest rest' : List (List Character)}
    (h : (stream' :: rest').take 2 = (stream :: rest).take 2) : tokensMsid stream' rest' = tokensMsid stream rest := by
  rw [List.take_succ_cons, List.take_succ_cons, List.cons.injEq, List.take_one, List.take_one] at h
  obtain ⟨rfl, hrest⟩ := h
  have hhead : rest'.head? = rest.head? := by
    cases hr : rest.head? <;> cases hr' : rest'.head? <;> simp_all
  unfold tokensMsid
  rw [List.headD_eq_head?_getD, List.headD_eq_head?_getD, hhead]

/-- **Unified plan.** If the first `a=msid:` line has a token, `GetMsid` returns its first token and its second one or
the first again, whatever surrounds it. -/
theorem getMsid_unified {S : Segmentation} {ls : List (Scalars × Break)} {l : Scalars} (hls : BreakFree ls)
    (hl : (msidLines S ls).head? = some l) (htoken : ∃ c ∈ msidValue S l, c ≠ [' ']) : UnifiedLaw S ls l := by
  obtain ⟨ts, hts⟩ := Segmentation.exists_spaced [' '] (msidValue S l)
  have hne : ts ≠ [] := by
    intro hnil
    obtain ⟨c, hc, hspace⟩ := htoken
    rw [hnil] at hts
    exact hspace (Segmentation.split_eq_nil_iff.mp hts.split c hc)
  obtain ⟨stream, rest, rfl⟩ := List.exists_cons_of_ne_nil hne
  have hreads := getMsid_of_spaced hls.isLine hl hts
  have htokens : ∀ (ls' : List (Scalars × Break)) (l' : Scalars), BreakFree ls' → (msidLines S ls').head? = some l' →
      ∀ ts ts', Spaced [' '] (msidValue S l) ts → Spaced [' '] (msidValue S l') ts' → ts'.take 2 = ts.take 2 →
      GetMsid S (joinLines ls') = GetMsid S (joinLines ls) := by
    intro ls' l' hls' hl' ts ts' h h' htake
    have hsame : ts = stream :: rest := h.split.symm.trans hts.split
    rw [hsame] at htake
    cases ts' with
    | nil => simp at htake
    | cons stream' rest' =>
      rw [getMsid_of_spaced hls'.isLine hl' h', hreads, tokensMsid_congr htake]
  have hlines : ∀ ls' : List (Scalars × Break), BreakFree ls' → (msidLines S ls').head? = (msidLines S ls).head? →
      GetMsid S (joinLines ls') = GetMsid S (joinLines ls) :=
    fun ls' hls' hhead => htokens ls' l hls' (hhead.trans hl) _ _ hts hts rfl
  refine ⟨⟨stream, rest, hts, hreads⟩, fun ls' hmap => hlines ls' ?_ ?_, hlines, htokens⟩
  · intro m hm
    have hmem : m.1 ∈ ls.map Prod.fst := hmap ▸ List.mem_map_of_mem hm
    obtain ⟨m', hm', he⟩ := List.mem_map.mp hmem
    rw [← he]
    exact hls m' hm'
  · unfold msidLines
    rw [hmap]

theorem getMsid_unified_example : UnifiedLaw .scalars
    [("a=ssrc:5 msid x y".toList, .lf), ([], .crlf), ("a=msid:  cam  video 3".toList, .crlf),
      ("a=msid:other".toList, .lf)] "a=msid:  cam  video 3".toList := by
  refine getMsid_unified ?_ (by decide) ⟨['c'], by decide, by decide⟩
  intro l hl
  simp only [List.mem_cons, List.not_mem_nil, or_false] at hl
  rcases hl with rfl | rfl | rfl | rfl
  · exact ⟨by decide, by decide⟩
  · exact ⟨by decide, by decide⟩
  · exact ⟨by decide, by decide⟩
  · exact ⟨by decide, by decide⟩

end AlloDataChannel

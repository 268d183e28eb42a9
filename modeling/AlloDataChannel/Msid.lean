import AlloDataChannel.Types

/-!
# `Track.GetMsid`: the stream and track id in a media description

The text is cut into lines, CRLF or LF, and searched for a unified-plan line `a=msid:<stream> <track>` and then for a
source-level line. Index accesses are modelled as such: the outer `none` is an access out of bounds.

* `getMsid_eq` : no access is out of bounds, and the function returns `msidOfLines` of the lines;
* `msidOfLines_isSome` : it finds an msid exactly when `HasMsid` holds of the lines.
-/

namespace AlloDataChannel
open Lib (Scalars Character Segmentation)

/-- The characters of an ASCII literal. -/
def ascii (s : String) : List Character := s.toList.map ([·])

structure Msid where
  streamId : Scalars
  trackId : Scalars
  deriving DecidableEq, Repr

/-- `sdp.split(separator: "\n")` after CRLF has become LF. -/
def sdpLines (S : Segmentation) (desc : Scalars) : List (List Character) :=
  Segmentation.split ['\n'] (S.characters (S.replacingOccurrences ['\r', '\n'] ['\n'] desc))

/-- The first `a=msid:` line. -/
def unifiedLine (lines : List (List Character)) : Option (List Character) :=
  lines.find? fun line => Segmentation.hasPrefix line (ascii "a=msid:")

/-- The tokens after `a=msid:`. -/
def unifiedTokens (line : List Character) : List (List Character) :=
  Segmentation.split [' '] (line.drop (ascii "a=msid:").length)

/-- The first search of `GetMsid`. -/
def unifiedMsid (lines : List (List Character)) : Option (Option Msid) :=
  match unifiedLine lines with
  | none => some none
  | some line =>
    let parts := unifiedTokens line
    if 2 ≤ parts.length then do
      let stream ← parts[0]?
      let track ← parts[1]?
      pure (some ⟨stream.flatten, track.flatten⟩)
    else if parts.length = 1 then do
      let stream ← parts[0]?
      let track ← parts[0]?
      pure (some ⟨stream.flatten, track.flatten⟩)
    else some none

/-- The first `a=ssrc:` line that contains ` msid `. -/
def sourceLine (lines : List (List Character)) : Option (List Character) :=
  lines.find? fun line =>
    Segmentation.contains line (ascii " msid ") && Segmentation.hasPrefix line (ascii "a=ssrc:")

/-- The second search. -/
def sourceMsid (lines : List (List Character)) : Option (Option Msid) :=
  match sourceLine lines with
  | none => some none
  | some line =>
    let tokens := Segmentation.split [' '] line
    match tokens.idxOf? (ascii "msid") with
    | none => some none
    | some msidIdx =>
      if msidIdx + 2 < tokens.length then do
        let maybeStream ← tokens[msidIdx + 1]?
        let maybeTrack ← tokens[msidIdx + 2]?
        pure (some ⟨maybeStream.flatten, maybeTrack.flatten⟩)
      else some none

/-- `Track.GetMsid` on the text that `GetDescription` returns. -/
def GetMsid (S : Segmentation) (desc : Scalars) : Option (Except Error Msid) := do
  let lines := sdpLines S desc
  match ← unifiedMsid lines with
  | some msid => pure (.ok msid)
  | none =>
    match ← sourceMsid lines with
    | some msid => pure (.ok msid)
    | none => pure (.error .failure)

/-! ## Without index accesses -/

/-- The msid in the tokens of a unified-plan line. -/
def unifiedOfTokens : List (List Character) → Option Msid
  | [] => none
  | [stream] => some ⟨stream.flatten, stream.flatten⟩
  | stream :: track :: _ => some ⟨stream.flatten, track.flatten⟩

/-- The msid after the first token `msid`. -/
def sourceOfTokens (tokens : List (List Character)) : Option Msid :=
  match tokens.dropWhile (· != ascii "msid") with
  | _ :: stream :: track :: _ => some ⟨stream.flatten, track.flatten⟩
  | _ => none

def msidOfLines (lines : List (List Character)) : Option Msid :=
  ((unifiedLine lines).bind fun line => unifiedOfTokens (unifiedTokens line)).or
    ((sourceLine lines).bind fun line => sourceOfTokens (Segmentation.split [' '] line))

theorem unifiedMsid_eq (lines : List (List Character)) :
    unifiedMsid lines = some ((unifiedLine lines).bind fun line => unifiedOfTokens (unifiedTokens line)) := by
  unfold unifiedMsid
  cases unifiedLine lines with
  | none => rfl
  | some line =>
    dsimp only [Option.bind_some]
    rcases unifiedTokens line with _ | ⟨stream, _ | ⟨track, rest⟩⟩ <;> simp [unifiedOfTokens]

/-- The index of the first `x` and the list from it on. -/
theorem dropWhile_eq_drop_of_idxOf? {α : Type*} [BEq α] [LawfulBEq α] {x : α} {xs : List α} {i : Nat}
    (h : xs.idxOf? x = some i) : xs.dropWhile (· != x) = xs.drop i := by
  induction xs generalizing i with
  | nil => simp at h
  | cons y ys ih =>
    rw [List.idxOf?_cons] at h
    by_cases hy : y = x
    · rw [if_pos (by simpa using hy), Option.some.injEq] at h
      subst h
      simp [hy]
    · rw [if_neg (by simpa using hy), Option.map_eq_some_iff] at h
      obtain ⟨j, hj, rfl⟩ := h
      rw [List.dropWhile_cons_of_pos (by simpa using hy), ih hj, List.drop_succ_cons]

theorem sourceMsid_eq (lines : List (List Character)) :
    sourceMsid lines = some ((sourceLine lines).bind fun line => sourceOfTokens (Segmentation.split [' '] line)) := by
  unfold sourceMsid
  cases sourceLine lines with
  | none => rfl
  | some line =>
    simp only [Option.bind_some, sourceOfTokens]
    generalize Segmentation.split [' '] line = tokens
    cases hi : tokens.idxOf? (ascii "msid") with
    | none =>
      have hnone : tokens.dropWhile (· != ascii "msid") = [] := by
        rw [List.dropWhile_eq_nil_iff]
        intro t ht
        simpa using fun he : t = ascii "msid" => List.idxOf?_eq_none_iff.mp hi (he ▸ ht)
      rw [hnone]
    | some i =>
      rw [dropWhile_eq_drop_of_idxOf? hi]
      dsimp only
      split
      · next hlt =>
        rw [List.drop_eq_getElem_cons (by omega), List.drop_eq_getElem_cons (by omega),
          List.drop_eq_getElem_cons (by omega), List.getElem?_eq_getElem (by omega),
          List.getElem?_eq_getElem (by omega)]
        rfl
      · next hge =>
        have hlen : (tokens.drop i).length ≤ 2 := by
          rw [List.length_drop]
          omega
        generalize tokens.drop i = after at hlen
        rcases after with _ | ⟨a, _ | ⟨b, _ | ⟨c, rest⟩⟩⟩
        · rfl
        · rfl
        · rfl
        · simp only [List.length_cons] at hlen
          omega

/-- No index access of `GetMsid` is out of bounds. -/
theorem getMsid_eq (S : Segmentation) (desc : Scalars) :
    GetMsid S desc = some (match msidOfLines (sdpLines S desc) with
      | some msid => .ok msid
      | none => .error .failure) := by
  unfold GetMsid
  simp only [unifiedMsid_eq, sourceMsid_eq, Option.bind_eq_bind, Option.bind_some, msidOfLines]
  cases (unifiedLine (sdpLines S desc)).bind fun line => unifiedOfTokens (unifiedTokens line) with
  | some m => rfl
  | none =>
    cases (sourceLine (sdpLines S desc)).bind fun line => sourceOfTokens (Segmentation.split [' '] line) <;> rfl

/-! ## The descriptions that carry an msid -/

/-- The first `a=msid:` line has a token, or the first `a=ssrc:` line with ` msid ` in it has two tokens after the
first token `msid`. -/
def HasMsid (lines : List (List Character)) : Prop :=
  (∃ line, unifiedLine lines = some line ∧ unifiedTokens line ≠ []) ∨
  ∃ line before stream track rest, sourceLine lines = some line ∧
    Segmentation.split [' '] line = before ++ ascii "msid" :: stream :: track :: rest ∧ ascii "msid" ∉ before

theorem sourceOfTokens_append {before : List (List Character)} (h : ascii "msid" ∉ before)
    (stream track : List Character) (rest : List (List Character)) :
    sourceOfTokens (before ++ ascii "msid" :: stream :: track :: rest) = some ⟨stream.flatten, track.flatten⟩ := by
  have hd : (before ++ ascii "msid" :: stream :: track :: rest).dropWhile (· != ascii "msid") =
      ascii "msid" :: stream :: track :: rest := by
    rw [List.dropWhile_append_of_pos fun t ht => by simpa using fun he : t = ascii "msid" => h (he ▸ ht)]
    simp
  unfold sourceOfTokens
  rw [hd]

theorem sourceOfTokens_isSome {tokens : List (List Character)} :
    (sourceOfTokens tokens).isSome ↔ ∃ before stream track rest,
      tokens = before ++ ascii "msid" :: stream :: track :: rest ∧ ascii "msid" ∉ before := by
  constructor
  · intro h
    have htake := @List.takeWhile_append_dropWhile _ (· != ascii "msid") tokens
    unfold sourceOfTokens at h
    split at h
    · next m stream track rest hd =>
      have hm : m = ascii "msid" := by
        have := List.head?_dropWhile_not (· != ascii "msid") tokens
        rw [hd] at this
        simpa using this
      subst hm
      refine ⟨_, stream, track, rest, (hd ▸ htake).symm, fun hmem => ?_⟩
      simpa using List.mem_takeWhile_imp hmem
    · cases h
  · rintro ⟨before, stream, track, rest, rfl, hb⟩
    rw [sourceOfTokens_append hb]
    rfl

theorem msidOfLines_isSome {lines : List (List Character)} : (msidOfLines lines).isSome ↔ HasMsid lines := by
  have hu : ∀ tokens : List (List Character), (unifiedOfTokens tokens).isSome ↔ tokens ≠ [] := by
    rintro (_ | ⟨a, _ | ⟨b, rest⟩⟩) <;> simp [unifiedOfTokens]
  unfold msidOfLines HasMsid
  rw [Option.isSome_or, Bool.or_eq_true]
  apply or_congr
  · cases unifiedLine lines with
    | none => simp
    | some line => simp [hu]
  · cases sourceLine lines with
    | none => simp
    | some line => simp [sourceOfTokens_isSome]

end AlloDataChannel

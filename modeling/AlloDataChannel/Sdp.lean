import AlloDataChannel.Peer

/-!
# Local descriptions and candidates under an IP override

The override replaces one address by another in every text that the peer publishes: whole descriptions in `createOffer`,
`createAnswer` and the description callback, single candidates in the candidate callback.

* `sanitizeSdp`, `Peer.createOffer`, `Peer.createAnswer`, `SignalEvent.run` : the four places;
* `sanitizeSdp_lines` : replacing in a text is replacing in its lines;
* `sanitizeSdp_attribute` : replacing in the line of a candidate is replacing in the candidate;
* `candidates_agree` : every published candidate is its line in every published text.
-/

namespace AlloDataChannel
open Lib (Scalars Character Segmentation exec replaceAll)

def sanitizeSdp (S : Segmentation) (ipOverride : Option IPOverride) (sdp : Scalars) : Scalars :=
  match ipOverride with
  | none => sdp
  | some ipOverride => S.replacingOccurrences ipOverride.fromIP ipOverride.toIP sdp

namespace Peer

/-- The body of `createOffer` and `createAnswer`: `needed` is the answer to the call without a buffer, `copy` the answer
to the one with a buffer of the given size, and the text in that buffer. `none` is an overflow of the `Int32` size. -/
def createDescription (S : Segmentation) (p : Peer) (needed : Int) (copy : Int → Int × Scalars) :
    Option (Except Error Scalars) :=
  match Error.orValue needed with
  | .error e => some (.error e)
  | .ok size =>
    if size + 1024 ≤ int32Max then
      match Error.orValue (copy (size + 1024)).1 with
      | .error e => some (.error e)
      | .ok _ => some (.ok (sanitizeSdp S p.ipOverride (copy (size + 1024)).2))
    else none

def createOffer (S : Segmentation) (p : Peer) (needed : Int) (copy : Int → Int × Scalars) :
    Option (Except Error Scalars) := p.createDescription S needed copy

def createAnswer (S : Segmentation) (p : Peer) (needed : Int) (copy : Int → Int × Scalars) :
    Option (Except Error Scalars) := p.createDescription S needed copy

/-- The local description callback; a type that is none of the API's traps. -/
def localDescriptionCallback (S : Segmentation) (p : Peer) (sdp type : Scalars) : Option Peer :=
  (DescriptionType.ofRawValue type).map fun type =>
    { p with localDescription := some { type := type, sdp := sanitizeSdp S p.ipOverride sdp } }

def localCandidateCallback (S : Segmentation) (p : Peer) (candidate mid : Scalars) : Peer :=
  { p with
    candidates := p.candidates ++ [{ candidate := sanitizeSdp S p.ipOverride candidate, mid := mid }] }

end Peer

/-- The callbacks of the gathering of candidates, with their arguments. -/
inductive SignalEvent
  | localDescription (sdp type : Scalars)
  | localCandidate (candidate mid : Scalars)
  deriving DecidableEq, Repr

def SignalEvent.run (S : Segmentation) (p : Peer) : SignalEvent → Option Peer
  | .localDescription sdp type => p.localDescriptionCallback S sdp type
  | .localCandidate candidate mid => some (p.localCandidateCallback S candidate mid)

/-- The candidates that the C library has announced. -/
def trickled : List SignalEvent → List ICECandidate
  | [] => []
  | .localDescription _ _ :: es => trickled es
  | .localCandidate candidate mid :: es => ⟨candidate, mid⟩ :: trickled es

/-- The text that the C library has described last. -/
def lastDescribed : List SignalEvent → Option Scalars
  | [] => none
  | .localDescription sdp _ :: es => (lastDescribed es).or (some sdp)
  | .localCandidate _ _ :: es => lastDescribed es

/-! ## Replacing in lines -/

/-- The line break of an SDP text. -/
def crlf : Scalars := ['\r', '\n']

def ipCharacters : List Char := "0123456789abcdefABCDEF.:".toList

/-- A text over the characters of IP literals, with a dot or a colon in it. -/
structure IPText (s : Scalars) : Prop where
  chars : ∀ c ∈ s, c ∈ ipCharacters
  separator : '.' ∈ s ∨ ':' ∈ s

theorem printable_of_ip {c : Char} (h : c ∈ ipCharacters) : Lib.Printable c := by
  have hall : ipCharacters.all (fun c => decide (Lib.Printable c)) = true := by decide
  exact of_decide_eq_true (List.all_eq_true.mp hall c h)

namespace IPText
variable {S : Segmentation} {s : Scalars}

theorem ne_nil (h : IPText s) : s ≠ [] := by
  intro hs
  rcases h.separator with hm | hm
  · exact absurd (hs ▸ hm) List.not_mem_nil
  · exact absurd (hs ▸ hm) List.not_mem_nil

theorem characters (S : Segmentation) (h : IPText s) : S.characters s = s.map ([·]) :=
  S.characters_of_printable fun c hc => printable_of_ip (h.chars c hc)

/-- The clusters of such a text are single scalars of IP literals. -/
theorem mem_characters (h : IPText s) {g : Character} (hg : g ∈ S.characters s) : ∃ c ∈ ipCharacters, g = [c] := by
  rw [h.characters S] at hg
  obtain ⟨c, hc, rfl⟩ := List.mem_map.mp hg
  exact ⟨c, h.chars c hc, rfl⟩

theorem characters_ne_nil (S : Segmentation) (h : IPText s) : S.characters s ≠ [] := by
  rw [h.characters S]
  exact fun hm => h.ne_nil (List.map_eq_nil_iff.mp hm)

/-- The letter `a` alone is no such text. -/
theorem characters_ne_letter (S : Segmentation) (h : IPText s) : S.characters s ≠ [['a']] := by
  rw [h.characters S]
  intro hm
  obtain ⟨c, hs, hc⟩ := List.map_eq_singleton_iff.mp hm
  have hca : c = 'a' := List.singleton_inj.mp hc
  rw [hs, hca] at h
  rcases h.separator with hm | hm
  · exact absurd hm (by decide)
  · exact absurd hm (by decide)

end IPText

theorem flatten_intercalate (sep : List Char) (gs : List (List Character)) :
    ([sep].intercalate gs).flatten = sep.intercalate (gs.map List.flatten) := by
  induction gs with
  | nil => rfl
  | cons g gs ih =>
    cases gs with
    | nil => simp
    | cons h gs =>
      rw [List.intercalate_cons_cons, List.map_cons, List.map_cons, List.intercalate_cons_cons, List.flatten_append,
        List.flatten_append, ih, List.map_cons]
      simp

section Sanitize
variable {S : Segmentation} {o : Option IPOverride}

/-- Replacing in a text is replacing in its lines. -/
theorem sanitizeSdp_lines (ho : ∀ x, o = some x → IPText x.fromIP) (ls : List Scalars) :
    sanitizeSdp S o (crlf.intercalate ls) = crlf.intercalate (ls.map (sanitizeSdp S o)) := by
  cases o with
  | none =>
    have hid : sanitizeSdp S none = id := rfl
    rw [hid, List.map_id]
    rfl
  | some x =>
    have hx := ho x rfl
    have hsep : ['\r', '\n'] ∉ S.characters x.fromIP := by
      intro hm
      obtain ⟨c, -, hc⟩ := hx.mem_characters hm
      cases hc
    have hreplace : ∀ s, sanitizeSdp S (some x) s =
        (replaceAll (S.characters x.fromIP) (S.characters x.toIP) (S.characters s)).flatten :=
      fun s => if_neg hx.ne_nil
    rw [hreplace, crlf, S.characters_intercalate_crlf,
      Lib.replaceAll_intercalate _ (hx.characters_ne_nil S) hsep, flatten_intercalate, List.map_map, List.map_map]
    congr 1
    apply List.map_congr_left
    intro s _
    exact (hreplace s).symm

/-- A cluster that joins the `=` before it is no single scalar of an IP literal. -/
theorem notMem_of_joins {x : Scalars} (hx : IPText x) {c : Scalars} {g : Character} {gs : List Character}
    (hc : S.characters c = g :: gs) (hjoin : S.characters ('=' :: c) = ('=' :: g) :: gs) : g ∉ S.characters x := by
  intro hg
  obtain ⟨d, hd, rfl⟩ := hx.mem_characters hg
  have hflat : c = d :: gs.flatten := by
    rw [← S.flatten_characters c, hc]
    rfl
  rw [hflat, S.ascii_ascii '=' d gs.flatten (by decide) (printable_of_ip hd)] at hjoin
  have hhead := (List.cons.inj hjoin).1
  cases hhead

/-- Replacing in the line of a candidate is replacing in the candidate. -/
theorem sanitizeSdp_attribute (ho : ∀ x, o = some x → IPText x.fromIP) (c : Scalars) :
    sanitizeSdp S o ('a' :: '=' :: c) = 'a' :: '=' :: sanitizeSdp S o c := by
  cases o with
  | none => rfl
  | some x =>
    have hx := ho x rfl
    have hne := hx.characters_ne_nil S
    have hreplace : ∀ s, sanitizeSdp S (some x) s =
        (replaceAll (S.characters x.fromIP) (S.characters x.toIP) (S.characters s)).flatten :=
      fun s => if_neg hx.ne_nil
    have hequals : ∀ g, '=' :: g ∉ S.characters x.fromIP := by
      intro g hm
      obtain ⟨d, hd, hg⟩ := hx.mem_characters hm
      have hd' : '=' = d := (List.cons.inj hg).1
      exact absurd (hd' ▸ hd) (by decide)
    have hletter : replaceAll (S.characters x.fromIP) (S.characters x.toIP) [['a']] = [['a']] := by
      apply Lib.replaceAll_miss
      intro hp
      rcases List.prefix_cons_iff.mp hp with hnil | ⟨t, ht, htnil⟩
      · exact hne hnil
      · rw [List.prefix_nil.mp htnil] at ht
        exact hx.characters_ne_letter S ht
    have hcut : ∀ g gs, replaceAll (S.characters x.fromIP) (S.characters x.toIP) (['a'] :: ('=' :: g) :: gs) =
        ['a'] :: ('=' :: g) :: replaceAll (S.characters x.fromIP) (S.characters x.toIP) gs := by
      intro g gs
      have h := Lib.replaceAll_append_cons (S.characters x.toIP) hne (hequals g) [['a']] gs
      rw [hletter] at h
      exact h
    rw [hreplace, hreplace, S.ascii_ascii 'a' '=' c (by decide) (by decide)]
    rcases S.ascii_cons '=' c (by decide) with hown | ⟨g, gs, hc, hjoin⟩
    · rw [hown, hcut]
      rfl
    · have hg := notMem_of_joins hx hc hjoin
      rw [hjoin, hcut, hc, Lib.replaceAll_cons_of_not_mem _ hne hg]
      rfl

end Sanitize

/-! ## Published candidates -/

section Published
variable {S : Segmentation} {p p' : Peer}

/-- What a run of the callbacks publishes. -/
structure Published (S : Segmentation) (p : Peer) (es : List SignalEvent) (p' : Peer) : Prop where
  ipOverride : p'.ipOverride = p.ipOverride
  candidates : p'.candidates = p.candidates ++ (trickled es).map fun c =>
    { candidate := sanitizeSdp S p.ipOverride c.candidate, mid := c.mid }
  localDescription : p'.localDescription.map Description.sdp =
    ((lastDescribed es).map (sanitizeSdp S p.ipOverride)).or (p.localDescription.map Description.sdp)

theorem published_of_run {es : List SignalEvent} (h : exec (SignalEvent.run S) p es = some p') :
    Published S p es p' := by
  induction es generalizing p with
  | nil =>
    cases h
    exact ⟨rfl, (List.append_nil _).symm, rfl⟩
  | cons e es ih =>
    obtain ⟨p₁, hs, h⟩ := Option.bind_eq_some_iff.mp h
    have hi := ih h
    cases e with
    | localDescription sdp type =>
      obtain ⟨t, -, rfl⟩ := Option.map_eq_some_iff.mp hs
      refine ⟨hi.ipOverride, hi.candidates, hi.localDescription.trans ?_⟩
      rw [lastDescribed]
      cases lastDescribed es <;> rfl
    | localCandidate candidate mid =>
      cases hs
      refine ⟨hi.ipOverride, hi.candidates.trans ?_, hi.localDescription⟩
      show p.candidates ++ [_] ++ _ = _
      rw [List.append_assoc]
      rfl

/-- A successful `createOffer` or `createAnswer` returns the sanitized text of the C library. -/
theorem createDescription_ok {needed : Int} {copy : Int → Int × Scalars} {text : Scalars}
    (h : p.createDescription S needed copy = some (.ok text)) :
    text = sanitizeSdp S p.ipOverride (copy (needed + 1024)).2 := by
  unfold Peer.createDescription at h
  rcases lt_or_ge needed 0 with hn | hn
  · rw [Error.orValue_of_neg hn] at h
    cases h
  · rw [Error.orValue_of_nonneg hn] at h
    dsimp only at h
    split at h
    · split at h
      · cases h
      · cases h
        rfl
    · cases h

end Published

/-- Trickled candidates and the candidates in published texts. -/
structure CandidateLaw (S : Segmentation) (o : Option IPOverride) : Prop where
  lines : ∀ ls : List Scalars, (∀ l ∈ ls, '\r' ∉ l ∧ '\n' ∉ l) →
    sanitizeSdp S o (crlf.intercalate ls) = crlf.intercalate (ls.map (sanitizeSdp S o))
  candidateLine : ∀ c, sanitizeSdp S o ("a=".toList ++ c) = "a=".toList ++ sanitizeSdp S o c
  /-- After any run of the callbacks, a candidate that is a line of a text is published as that line of the published
  text: in `candidates`, in `localDescription` if the text was described last, and by `createOffer` and
  `createAnswer`. -/
  published : ∀ p es p', p.ipOverride = o → exec (SignalEvent.run S) p es = some p' →
    ∀ (ls : List Scalars), (∀ l ∈ ls, '\r' ∉ l ∧ '\n' ∉ l) →
    ∀ (i k : Nat) (c : ICECandidate), (trickled es)[i]? = some c → ls[k]? = some ("a=".toList ++ c.candidate) →
    ∃ cand ls', p'.candidates[p.candidates.length + i]? = some cand ∧ cand.mid = c.mid ∧
      ls'.length = ls.length ∧ ls'[k]? = some ("a=".toList ++ cand.candidate) ∧
      (lastDescribed es = some (crlf.intercalate ls) →
        p'.localDescription.map Description.sdp = some (crlf.intercalate ls')) ∧
      ∀ needed copy text, (copy (needed + 1024)).2 = crlf.intercalate ls →
        p'.createOffer S needed copy = some (.ok text) ∨ p'.createAnswer S needed copy = some (.ok text) →
        text = crlf.intercalate ls'

/-- **Trickled and embedded candidates agree**, for every override of an address. -/
theorem candidates_agree {S : Segmentation} {o : Option IPOverride} (ho : ∀ x, o = some x → IPText x.fromIP) :
    CandidateLaw S o where
  lines ls _ := sanitizeSdp_lines ho ls
  candidateLine c := sanitizeSdp_attribute ho c
  published p es p' hp h ls _ i k c hi hk := by
    have hpub := published_of_run h
    refine ⟨⟨sanitizeSdp S o c.candidate, c.mid⟩, ls.map (sanitizeSdp S o), ?_, rfl, List.length_map _, ?_, ?_, ?_⟩
    · rw [hpub.candidates, List.getElem?_append_right (Nat.le_add_right _ _), Nat.add_sub_cancel_left,
        List.getElem?_map, hi, hp]
      rfl
    · rw [List.getElem?_map, hk]
      exact congrArg some (sanitizeSdp_attribute ho c.candidate)
    · intro hl
      rw [hpub.localDescription, hl, hp, Option.map_some, Option.some_or, sanitizeSdp_lines ho]
    · intro needed copy text hcopy hcall
      have htext : text = sanitizeSdp S p'.ipOverride (copy (needed + 1024)).2 := by
        rcases hcall with hcall | hcall
        · exact createDescription_ok hcall
        · exact createDescription_ok hcall
      rw [htext, hpub.ipOverride, hp, hcopy, sanitizeSdp_lines ho]

theorem candidates_agree_example :
    CandidateLaw .scalars (some { fromIP := "10.0.0.1".toList, toIP := "192.0.2.7".toList }) := by
  apply candidates_agree
  intro x hx
  cases hx
  have hall : "10.0.0.1".toList.all (fun c => decide (c ∈ ipCharacters)) = true := by decide
  exact ⟨fun c hc => of_decide_eq_true (List.all_eq_true.mp hall c hc), Or.inl (by decide)⟩

end AlloDataChannel

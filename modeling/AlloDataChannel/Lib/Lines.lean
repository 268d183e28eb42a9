import AlloDataChannel.Lib.Text

/-!
# Lines and tokens of a string

* `joinLines` : a text made of lines, each with its own line break;
* `split_normalised_joinLines` : with CRLF turned into LF, the text splits into its non-empty lines;
* `Spaced sep s ts` : the tokens `ts` stand in `s` with any number of separators between and around them;
* `Spaced.split` : they are what `split` finds.
-/

namespace Lib
namespace Segmentation

/-! ## Splitting -/

section Split
variable {sep : Character} {s t : List Character}

@[simp] theorem split_nil (sep : Character) : split sep [] = [] := by
  unfold split
  simp

theorem split_append_cons (sep : Character) (s t : List Character) :
    split sep (s ++ sep :: t) = split sep s ++ split sep t := by
  unfold split
  rw [List.splitOn_append_cons_self, List.filter_append]

theorem split_cons (sep : Character) (t : List Character) : split sep (sep :: t) = split sep t := by
  have h := split_append_cons sep [] t
  rw [List.nil_append, split_nil, List.nil_append] at h
  exact h

theorem split_of_notMem (h : sep ∉ s) (hne : s ≠ []) : split sep s = [s] := by
  unfold split
  rw [List.splitOn_eq_singleton h]
  simp [hne]

theorem split_replicate_append (sep : Character) (k : Nat) (t : List Character) :
    split sep (List.replicate k sep ++ t) = split sep t := by
  induction k with
  | zero => rfl
  | succ k ih => rw [List.replicate_succ, List.cons_append, split_cons, ih]

/-- The tokens `ts` stand in `s`, with separators between them and possibly around them. -/
inductive Spaced (sep : Character) : List Character → List (List Character) → Prop
  | blank (k : Nat) : Spaced sep (List.replicate k sep) []
  | token (k : Nat) {t s : List Character} {ts : List (List Character)} (ne : t ≠ []) (free : sep ∉ t)
    (next : s = [] ∨ s.head? = some sep) (rest : Spaced sep s ts) :
    Spaced sep (List.replicate k sep ++ (t ++ s)) (t :: ts)

theorem Spaced.split {ts : List (List Character)} (h : Spaced sep s ts) : Segmentation.split sep s = ts := by
  induction h with
  | blank k =>
    have hk := split_replicate_append sep k []
    rw [List.append_nil, split_nil] at hk
    exact hk
  | token k ne free next rest ih =>
    rw [split_replicate_append]
    rcases next with rfl | hhead
    · rw [split_nil] at ih
      rw [List.append_nil, split_of_notMem free ne, ← ih]
    · obtain ⟨s', rfl⟩ := List.head?_eq_some_iff.mp hhead
      rw [split_append_cons, split_of_notMem free ne, ← ih, split_cons]
      rfl

/-- Every text has its tokens. -/
theorem exists_spaced (sep : Character) (s : List Character) : ∃ ts, Spaced sep s ts := by
  induction s with
  | nil => exact ⟨[], .blank 0⟩
  | cons c s ih =>
    obtain ⟨ts, h⟩ := ih
    by_cases hc : c = sep
    · subst hc
      cases h with
      | blank k => exact ⟨[], .blank (k + 1)⟩
      | token k ne free next rest => exact ⟨_, .token (k + 1) ne free next rest⟩
    · have hfree : sep ∉ [c] := fun hm => hc (List.mem_singleton.mp hm).symm
      cases h with
      | blank k =>
        refine ⟨_, .token 0 (t := [c]) (by simp) hfree ?_ (.blank k)⟩
        cases k with
        | zero => exact Or.inl rfl
        | succ k => exact Or.inr rfl
      | @token k t s ts ne free next rest =>
        cases k with
        | zero =>
          -- `c` begins the first token
          refine ⟨_, .token 0 (t := c :: t) (by simp) ?_ next rest⟩
          intro hm
          rcases List.mem_cons.mp hm with rfl | hm
          · exact hc rfl
          · exact free hm
        | succ k => exact ⟨_, .token 0 (t := [c]) (by simp) hfree (Or.inr rfl) (.token (k + 1) ne free next rest)⟩

theorem Spaced.subset {ts : List (List Character)} (h : Spaced sep s ts) : ∀ t ∈ ts, t ⊆ s := by
  induction h with
  | blank k =>
    intro t ht
    exact absurd ht List.not_mem_nil
  | token k ne free next rest ih =>
    intro t ht c hc
    apply List.mem_append_right
    rcases List.mem_cons.mp ht with rfl | ht
    · exact List.mem_append_left _ hc
    · exact List.mem_append_right _ (ih t ht hc)

/-- A token, what is in front of it and what is behind it. -/
theorem Spaced.mem {ts : List (List Character)} (h : Spaced sep s ts) (ht : t ∈ ts) :
    t ≠ [] ∧ sep ∉ t ∧
      ∃ a b, s = a ++ (t ++ b) ∧ (a = [] ∨ ∃ a', a = a' ++ [sep]) ∧ (b = [] ∨ ∃ b', b = sep :: b') := by
  induction h with
  | blank k => exact absurd ht List.not_mem_nil
  | @token k t₀ s ts ne free next rest ih =>
    rcases List.mem_cons.mp ht with rfl | ht
    · refine ⟨ne, free, List.replicate k sep, s, rfl, ?_, next.imp_right List.head?_eq_some_iff.mp⟩
      cases k with
      | zero => exact Or.inl rfl
      | succ k => exact Or.inr ⟨List.replicate k sep, List.replicate_succ'⟩
    · obtain ⟨hne, hfree, a, b, hs, ha, hb⟩ := ih ht
      refine ⟨hne, hfree, List.replicate k sep ++ (t₀ ++ a), b, ?_, Or.inr ?_, hb⟩
      · rw [hs]
        simp only [List.append_assoc]
      · rcases ha with rfl | ⟨a, rfl⟩
        · -- a separator follows the first token, so it is not the next one
          obtain ⟨x, t, rfl⟩ := List.exists_cons_of_ne_nil hne
          rw [List.nil_append, List.cons_append] at hs
          rcases next with rfl | hhead
          · cases hs
          · rw [hs, List.head?_cons, Option.some.injEq] at hhead
            exact absurd (hhead ▸ List.mem_cons_self) hfree
        · exact ⟨List.replicate k sep ++ (t₀ ++ a), by simp only [List.append_assoc]⟩

theorem spaced_split (sep : Character) (s : List Character) : Spaced sep s (split sep s) := by
  obtain ⟨ts, h⟩ := exists_spaced sep s
  rw [h.split]
  exact h

theorem split_eq_nil_iff : split sep s = [] ↔ ∀ c ∈ s, c = sep := by
  constructor
  · intro h
    have hs := spaced_split sep s
    rw [h] at hs
    cases hs with
    | blank k => exact fun c hc => List.eq_of_mem_replicate hc
  · intro h
    have hk := split_replicate_append sep s.length []
    rw [List.append_nil, split_nil, ← List.eq_replicate_of_mem h] at hk
    exact hk

end Split

/-! ## Lines -/

inductive Break
  | lf
  | crlf
  deriving DecidableEq, Repr

def Break.scalars : Break → Scalars
  | .lf => ['\n']
  | .crlf => ['\r', '\n']

/-- Lines, each with its line break. -/
def joinLines (ls : List (Scalars × Break)) : Scalars := ls.flatMap fun l => l.1 ++ l.2.scalars

/-- A text without a line feed whose end joins no line feed. -/
structure IsLine (s : Scalars) : Prop where
  lf : '\n' ∉ s
  cr : s.getLast? ≠ some '\r'

variable {S : Segmentation} {s : Scalars}

theorem IsLine.of_free (hr : '\r' ∉ s) (hn : '\n' ∉ s) : IsLine s :=
  ⟨hn, fun h => hr (List.mem_of_getLast? h)⟩

theorem mem_of_mem_characters {c : Char} {g : Character} (hc : c ∈ g) (hg : g ∈ S.characters s) : c ∈ s := by
  rw [← S.flatten_characters s]
  exact List.mem_flatten.mpr ⟨g, hg, hc⟩

theorem characters_break (hs : IsLine s) (b : Break) (t : Scalars) :
    S.characters (s ++ b.scalars ++ t) = S.characters s ++ b.scalars :: S.characters t := by
  cases b with
  | lf =>
    rw [List.append_assoc]
    exact S.lf s t hs.cr
  | crlf =>
    rw [List.append_assoc]
    exact S.crlf s t

theorem characters_lf (S : Segmentation) : S.characters ['\n'] = [['\n']] := by
  have h := S.lf [] [] (by simp)
  rw [characters_nil] at h
  exact h

theorem characters_crlf (S : Segmentation) : S.characters ['\r', '\n'] = [['\r', '\n']] := by
  have h := S.crlf [] []
  rw [characters_nil] at h
  exact h

/-- CRLF turned into LF. -/
def normalised (S : Segmentation) (s : Scalars) : Scalars := S.replacingOccurrences ['\r', '\n'] ['\n'] s

theorem replaceAll_breaks (hs : '\n' ∉ s) (b : Break) (t : List Character) :
    replaceAll [['\r', '\n']] [['\n']] (S.characters s ++ b.scalars :: t) =
      S.characters s ++ ['\n'] :: replaceAll [['\r', '\n']] [['\n']] t := by
  have hfree : ∀ g ∈ S.characters s, g ∉ [['\r', '\n']] := by
    intro g hg hm
    rw [List.mem_singleton] at hm
    subst hm
    exact hs (mem_of_mem_characters (by simp) hg)
  generalize S.characters s = gs at hfree
  induction gs with
  | nil =>
    cases b with
    | lf => exact replaceAll_cons_of_not_mem _ (by simp) (by simp [Break.scalars]) t
    | crlf => exact replaceAll_append_self [['\n']] (by simp) t
  | cons g gs ih =>
    rw [List.cons_append, replaceAll_cons_of_not_mem _ (by simp) (hfree g List.mem_cons_self),
      ih fun g' hg' => hfree g' (List.mem_cons_of_mem g hg')]
    rfl

theorem normalised_eq (S : Segmentation) (s : Scalars) :
    S.normalised s = (replaceAll [['\r', '\n']] [['\n']] (S.characters s)).flatten := by
  unfold normalised replacingOccurrences
  rw [if_neg (by simp), characters_lf, characters_crlf]

/-- The normalised text has the same lines, with LF for every line break. -/
theorem normalised_joinLines {ls : List (Scalars × Break)} (h : ∀ l ∈ ls, IsLine l.1) :
    S.normalised (joinLines ls) = joinLines (ls.map fun l => (l.1, .lf)) := by
  induction ls with
  | nil =>
    rw [normalised_eq]
    simp [joinLines, replaceAll, replaceFrom]
  | cons l ls ih =>
    have hl := h l List.mem_cons_self
    have hrest := ih fun m hm => h m (List.mem_cons_of_mem l hm)
    rw [normalised_eq] at hrest ⊢
    show (replaceAll _ _ (S.characters (l.1 ++ l.2.scalars ++ joinLines ls))).flatten = _
    rw [characters_break hl, replaceAll_breaks hl.lf, List.flatten_append, List.flatten_cons, hrest,
      S.flatten_characters]
    show _ = (l.1 ++ Break.lf.scalars) ++ joinLines (ls.map fun l => (l.1, Break.lf))
    rw [List.append_assoc]
    rfl

/-- **Lines.** The normalised text splits into its non-empty lines, whatever the line breaks. -/
theorem split_normalised_joinLines {ls : List (Scalars × Break)} (h : ∀ l ∈ ls, IsLine l.1) :
    split ['\n'] (S.characters (S.normalised (joinLines ls))) =
      (ls.map fun l => S.characters l.1).filter (· ≠ []) := by
  rw [normalised_joinLines h]
  induction ls with
  | nil => simp [joinLines]
  | cons l ls ih =>
    have hl := h l List.mem_cons_self
    have hrest := ih fun m hm => h m (List.mem_cons_of_mem l hm)
    have hfree : ['\n'] ∉ S.characters l.1 := fun hm => hl.lf (mem_of_mem_characters List.mem_cons_self hm)
    show split ['\n'] (S.characters (l.1 ++ Break.lf.scalars ++ joinLines (ls.map fun l => (l.1, Break.lf)))) = _
    rw [characters_break hl]
    show split ['\n'] (S.characters l.1 ++ ['\n'] :: _) = _
    rw [split_append_cons, hrest, List.map_cons]
    by_cases hnil : S.characters l.1 = []
    · rw [hnil, split_nil]
      simp
    · rw [split_of_notMem hfree hnil, List.filter_cons_of_pos (by simpa using hnil)]
      rfl

/-- A single line before CRLF; if it ends in a carriage return, that one takes the line feed. -/
theorem split_normalised_crlf (hlf : '\n' ∉ s) (hne : s ≠ []) :
    ∃ l, split ['\n'] (S.characters (S.normalised (s ++ ['\r', '\n']))) = [l] ∧
      (s.getLast? ≠ some '\r' ∧ l = S.characters s ∨ ['\r', '\n'] ∈ l ∧ l.flatten = s ++ ['\n']) := by
  by_cases hcr : s.getLast? = some '\r'
  · obtain ⟨u, rfl⟩ := List.getLast?_eq_some_iff.mp hcr
    have hnormal : S.normalised (u ++ ['\r'] ++ ['\r', '\n']) = u ++ ['\r', '\n'] := by
      have hcut := S.crlf (u ++ ['\r']) []
      have hbreaks := replaceAll_breaks (S := S) hlf .crlf []
      rw [characters_nil] at hcut
      rw [normalised_eq, hcut]
      show (replaceAll [['\r', '\n']] [['\n']] (S.characters (u ++ ['\r']) ++ Break.crlf.scalars :: [])).flatten = _
      rw [hbreaks, List.flatten_append, S.flatten_characters]
      simp [replaceAll, replaceFrom]
    have hcut := S.crlf u []
    rw [characters_nil] at hcut
    have hfree : ['\n'] ∉ S.characters u ++ [['\r', '\n']] := by
      intro hm
      rcases List.mem_append.mp hm with hm | hm
      · exact hlf (List.mem_append_left _ (mem_of_mem_characters List.mem_cons_self hm))
      · simp at hm
    refine ⟨S.characters u ++ [['\r', '\n']], ?_, Or.inr ⟨by simp, ?_⟩⟩
    · rw [hnormal, hcut, split_of_notMem hfree (by simp)]
    · rw [List.flatten_append, S.flatten_characters]
      simp
  · have hline : ∀ l ∈ [(s, Break.crlf)], IsLine l.1 := by
      intro l hl
      rw [List.mem_singleton.mp hl]
      exact ⟨hlf, hcr⟩
    have hsplit := split_normalised_joinLines (S := S) hline
    have hchars : S.characters s ≠ [] := by
      intro hnil
      have hflat := S.flatten_characters s
      rw [hnil] at hflat
      exact hne hflat.symm
    refine ⟨S.characters s, ?_, Or.inl ⟨hcr, rfl⟩⟩
    simpa [joinLines, Break.scalars, hchars] using hsplit

end Segmentation
end Lib

import AlloDataChannel.Lib.Replace

/-!
# Swift strings

A `String` is the list of its Unicode scalars; its elements are its `Character`s, the extended grapheme clusters.
Searching and splitting go by `Character`, concatenation by scalars, and `==` by canonical equivalence.

* `isWhitespace` : `Character.isWhitespace`;
* `Segmentation` : the cut of a string into clusters, with the rules that hold next to a line break and next to
  printable ASCII, and the canonical form that `==` compares; the other rules are left open;
* `characters_intercalate_crlf`, `characters_of_printable` : the clusters of lines and of ASCII text;
* `replacingOccurrences`, `hasPrefix`, `contains`, `split` : the operations by `Character`;
* `Segmentation.scalars` : the cut that joins CR LF and nothing else, and every string its own canonical form, which is
  what they are on ASCII text.
-/

namespace Lib

/-- The Unicode scalars of a string. -/
abbrev Scalars := List Char

/-- A `Character`: the scalars of one cluster. -/
abbrev Character := List Char

/-- A printable ASCII scalar. -/
def Printable (c : Char) : Prop := 0x20 ≤ c.toNat ∧ c.toNat ≤ 0x7e

instance (c : Char) : Decidable (Printable c) := inferInstanceAs (Decidable (_ ∧ _))

/-- What a string takes from Unicode: its cut into extended grapheme clusters, and its canonical form. -/
structure Segmentation where
  characters : Scalars → List Character
  flatten_characters : ∀ s, (characters s).flatten = s
  nil_notMem : ∀ s, [] ∉ characters s
  /-- CR LF is one cluster, and nothing joins it. -/
  crlf : ∀ u v, characters (u ++ '\r' :: '\n' :: v) = characters u ++ ['\r', '\n'] :: characters v
  /-- A line feed without a carriage return before it is a cluster, and nothing joins it. -/
  lf : ∀ u v, u.getLast? ≠ some '\r' → characters (u ++ '\n' :: v) = characters u ++ ['\n'] :: characters v
  /-- What follows a printable ASCII scalar is its own cluster or extends it as a whole. -/
  ascii_cons : ∀ c s, Printable c → characters (c :: s) = [c] :: characters s ∨
    ∃ g gs, characters s = g :: gs ∧ characters (c :: s) = (c :: g) :: gs
  ascii_ascii : ∀ c d s, Printable c → Printable d → characters (c :: d :: s) = [c] :: characters (d :: s)
  /-- The canonical form; two strings are `==` if they have one. -/
  canonical : Scalars → Scalars
  canonical_ascii : ∀ s, (∀ c ∈ s, Printable c) → canonical s = s

/-- The scalars with the property `White_Space`. -/
def isWhitespaceScalar (c : Char) : Bool :=
  (0x9 ≤ c.toNat && c.toNat ≤ 0xd) || (0x2000 ≤ c.toNat && c.toNat ≤ 0x200a) ||
    [0x20, 0x85, 0xa0, 0x1680, 0x2028, 0x2029, 0x202f, 0x205f, 0x3000].contains c.toNat

/-- `Character.isWhitespace`, which looks at the first scalar. -/
def isWhitespace (g : Character) : Bool := g.head?.any isWhitespaceScalar

namespace Segmentation
variable (S : Segmentation)

@[simp] theorem characters_nil : S.characters [] = [] := by
  have h := S.flatten_characters []
  cases hc : S.characters [] with
  | nil => rfl
  | cons g gs =>
    rw [hc, List.flatten_cons, List.append_eq_nil_iff] at h
    exact absurd (by simp [hc, h.1]) (S.nil_notMem [])

theorem characters_singleton {c : Char} (hc : Printable c) : S.characters [c] = [[c]] := by
  rcases S.ascii_cons c [] hc with h | ⟨g, gs, h, -⟩
  · rw [h, characters_nil]
  · rw [characters_nil] at h
    cases h

/-- The clusters of printable ASCII text are its scalars. -/
theorem characters_of_printable : ∀ {s : Scalars}, (∀ c ∈ s, Printable c) → S.characters s = s.map ([·])
  | [], _ => S.characters_nil
  | [c], h => S.characters_singleton (h c (by simp))
  | c :: d :: s, h => by
    have ih : S.characters (d :: s) = (d :: s).map ([·]) :=
      characters_of_printable fun x hx => h x (List.mem_cons_of_mem c hx)
    rw [S.ascii_ascii c d s (h c (by simp)) (h d (by simp)), ih]
    rfl

/-- Lines joined by CRLF are cut at the line breaks. -/
theorem characters_intercalate_crlf : ∀ ls : List Scalars,
    S.characters (['\r', '\n'].intercalate ls) = [['\r', '\n']].intercalate (ls.map S.characters)
  | [] => by simp
  | [l] => by simp
  | l :: m :: ls => by
    have ih := characters_intercalate_crlf (m :: ls)
    rw [List.map_cons] at ih
    rw [List.intercalate_cons_cons, List.append_assoc, List.cons_append, List.cons_append, List.nil_append, S.crlf,
      ih, List.map_cons, List.map_cons, List.intercalate_cons_cons, List.append_assoc, List.singleton_append]

/-! ## Operations -/

/-- `replacingOccurrences(of:with:)`; an empty target is never found. -/
def replacingOccurrences (target replacement s : Scalars) : Scalars :=
  if target = [] then s
  else (replaceAll (S.characters target) (S.characters replacement) (S.characters s)).flatten

/-- `contains(_:)` of a string in a string, both by `Character`. -/
def contains (s pat : List Character) : Bool := decide (pat <:+: s)

/-- `hasPrefix(_:)`. -/
def hasPrefix (s pat : List Character) : Bool := decide (pat <+: s)

/-- `split(separator:)`, which omits empty pieces. -/
def split (sep : Character) (s : List Character) : List (List Character) := (s.splitOn sep).filter (· ≠ [])

end Segmentation

/-! ## The cut of ASCII text -/

/-- Put a scalar in front of clusters; a carriage return joins a line feed. -/
def consCluster (c : Char) (gs : List Character) : List Character :=
  if c = '\r' ∧ gs.head? = some ['\n'] then ['\r', '\n'] :: gs.tail else [c] :: gs

/-- CR LF is one cluster, every other scalar is its own. -/
def scalarCharacters (s : Scalars) : List Character := s.foldr consCluster []

@[simp] theorem scalarCharacters_nil : scalarCharacters [] = [] := rfl

theorem consCluster_of_ne {c : Char} (hc : c ≠ '\r') (gs : List Character) : consCluster c gs = [c] :: gs :=
  if_neg fun h => hc h.1

theorem flatten_consCluster (c : Char) (gs : List Character) : (consCluster c gs).flatten = c :: gs.flatten := by
  unfold consCluster
  split
  · next h =>
    obtain ⟨rfl, h⟩ := h
    cases gs with
    | nil => cases h
    | cons g gs =>
      rw [List.head?_cons, Option.some.injEq] at h
      subst h
      rfl
  · rfl

theorem nil_notMem_consCluster (c : Char) {gs : List Character} (h : [] ∉ gs) : [] ∉ consCluster c gs := by
  unfold consCluster
  split
  · simpa using fun hm => h (List.mem_of_mem_tail hm)
  · simpa using h

theorem consCluster_ne_nil (c : Char) (gs : List Character) : consCluster c gs ≠ [] := by
  unfold consCluster
  split <;> simp

theorem consCluster_append {c : Char} {gs hs : List Character}
    (h : gs ≠ [] ∨ c ≠ '\r' ∨ hs.head? ≠ some ['\n']) : consCluster c (gs ++ hs) = consCluster c gs ++ hs := by
  unfold consCluster
  cases gs with
  | nil =>
    rw [List.nil_append, if_neg, if_neg] <;> simp
    tauto
  | cons g gs => by_cases hc : c = '\r' ∧ g = ['\n'] <;> simp [hc]

/-- Clusters that do not join the last scalar of `u` stay apart from it. -/
theorem foldr_consCluster {hs : List Character} :
    ∀ {u : Scalars}, u.getLast? ≠ some '\r' ∨ hs.head? ≠ some ['\n'] →
      u.foldr consCluster hs = scalarCharacters u ++ hs
  | [], _ => rfl
  | [c], h => by
    rw [scalarCharacters, List.foldr_cons, List.foldr_nil, List.foldr_cons, List.foldr_nil, ← consCluster_append,
      List.nil_append]
    simpa using h
  | c :: d :: u, h => by
    have ih : (d :: u).foldr consCluster hs = scalarCharacters (d :: u) ++ hs :=
      foldr_consCluster (by simpa using h)
    rw [List.foldr_cons, ih]
    exact consCluster_append (Or.inl (consCluster_ne_nil d _))

/-- The cut of ASCII text. -/
def Segmentation.scalars : Segmentation where
  characters := scalarCharacters
  flatten_characters s := by
    induction s with
    | nil => rfl
    | cons c s ih => rw [scalarCharacters, List.foldr_cons, flatten_consCluster, ← scalarCharacters, ih]
  nil_notMem s := by
    induction s with
    | nil => simp
    | cons c s ih => exact nil_notMem_consCluster c ih
  crlf u v := by
    have h : scalarCharacters ('\r' :: '\n' :: v) = ['\r', '\n'] :: scalarCharacters v := by
      simp [scalarCharacters, consCluster]
    rw [scalarCharacters, List.foldr_append, ← scalarCharacters, h, foldr_consCluster (Or.inr (by simp))]
  lf u v hu := by
    have h : scalarCharacters ('\n' :: v) = ['\n'] :: scalarCharacters v := by
      simp [scalarCharacters, consCluster]
    rw [scalarCharacters, List.foldr_append, ← scalarCharacters, h, foldr_consCluster (Or.inl hu)]
  ascii_cons c s hc := Or.inl (consCluster_of_ne (by rintro rfl; exact absurd hc (by decide)) _)
  ascii_ascii c d s hc _ := consCluster_of_ne (by rintro rfl; exact absurd hc (by decide)) _
  canonical := id
  canonical_ascii _ _ := rfl

end Lib

import AlloDataChannel.Lib.Replace

/-!
# Tokens between separators

A list is cut at the elements that satisfy `sep` into tokens, some of which may be empty.

* `pieces`, `joinPieces_pieces` : the cut, and that nothing is lost in it;
* `replaceAll_eq_mapTokens` : replacing a pattern without separators is replacing it in each token;
* `replaceAll_eq_replaceToken_iff` : replacing everywhere is replacing the tokens that equal the pattern exactly when
  the pattern occurs in no other token.
-/

namespace Lib

section Tokens
variable {α : Type*} (sep : α → Bool)

/-- The first token, and the other ones, each behind its separator. -/
def pieces : List α → List α × List (α × List α)
  | [] => ([], [])
  | x :: xs => if sep x then ([], (x, (pieces xs).1) :: (pieces xs).2) else (x :: (pieces xs).1, (pieces xs).2)

def joinPieces (p : List α × List (α × List α)) : List α := p.1 ++ p.2.flatMap fun q => q.1 :: q.2

def tokens (xs : List α) : List (List α) := (pieces sep xs).1 :: (pieces sep xs).2.map Prod.snd

/-- Apply `f` to the tokens and leave the separators as they are. -/
def mapTokens (f : List α → List α) (xs : List α) : List α :=
  joinPieces (f (pieces sep xs).1, (pieces sep xs).2.map fun q => (q.1, f q.2))

theorem joinPieces_pieces (xs : List α) : joinPieces (pieces sep xs) = xs := by
  induction xs with
  | nil => rfl
  | cons x xs ih =>
    rw [pieces]
    split
    · show x :: ((pieces sep xs).1 ++ (pieces sep xs).2.flatMap fun q => q.1 :: q.2) = x :: xs
      exact congrArg (x :: ·) ih
    · show x :: ((pieces sep xs).1 ++ (pieces sep xs).2.flatMap fun q => q.1 :: q.2) = x :: xs
      exact congrArg (x :: ·) ih

theorem sep_of_mem_pieces {xs : List α} : ∀ q ∈ (pieces sep xs).2, sep q.1 = true := by
  induction xs with
  | nil =>
    intro q hq
    exact absurd hq List.not_mem_nil
  | cons x xs ih =>
    rw [pieces]
    split
    · next hx =>
      intro q hq
      rcases List.mem_cons.mp hq with rfl | hq
      · exact hx
      · exact ih q hq
    · exact ih

variable {sep}

theorem mapTokens_congr {f g : List α → List α} {xs : List α} (h : ∀ t ∈ tokens sep xs, f t = g t) :
    mapTokens sep f xs = mapTokens sep g xs := by
  unfold mapTokens
  rw [h _ List.mem_cons_self]
  congr 2
  apply List.map_congr_left
  intro q hq
  rw [h q.2 (List.mem_cons_of_mem _ (List.mem_map_of_mem hq))]

variable [DecidableEq α] {pat rep : List α}

theorem replaceAll_joinPieces (rep : List α) (hne : pat ≠ []) {ps : List (α × List α)}
    (hsep : ∀ q ∈ ps, q.1 ∉ pat) (first : List α) :
    replaceAll pat rep (joinPieces (first, ps)) =
      joinPieces (replaceAll pat rep first, ps.map fun q => (q.1, replaceAll pat rep q.2)) := by
  induction ps generalizing first with
  | nil =>
    show replaceAll pat rep (first ++ []) = replaceAll pat rep first ++ []
    rw [List.append_nil, List.append_nil]
  | cons q ps ih =>
    have hrest := ih (fun r hr => hsep r (List.mem_cons_of_mem q hr)) q.2
    show replaceAll pat rep (first ++ q.1 :: joinPieces (q.2, ps)) = _
    rw [replaceAll_append_cons rep hne (hsep q List.mem_cons_self), hrest]
    rfl

/-- Replacing a pattern without separators is replacing it in each token. -/
theorem replaceAll_eq_mapTokens (rep : List α) (hne : pat ≠ []) (hsep : ∀ x ∈ pat, sep x = false) (xs : List α) :
    replaceAll pat rep xs = mapTokens sep (replaceAll pat rep) xs := by
  have hps : ∀ q ∈ (pieces sep xs).2, q.1 ∉ pat := by
    intro q hq hm
    have htrue := sep_of_mem_pieces sep q hq
    rw [hsep q.1 hm] at htrue
    cases htrue
  have h := replaceAll_joinPieces rep hne hps (pieces sep xs).1
  rw [show joinPieces ((pieces sep xs).1, (pieces sep xs).2) = xs from joinPieces_pieces sep xs] at h
  exact h

/-- A token that equals the pattern is replaced, another one is left. -/
def replaceToken (pat rep t : List α) : List α := if t = pat then rep else t

theorem replaceToken_self (pat rep : List α) : replaceToken pat rep pat = rep := if_pos rfl

theorem replaceToken_of_ne (rep : List α) {t : List α} (h : t ≠ pat) : replaceToken pat rep t = t := if_neg h

end Tokens

/-! ## Lists of lists, compared by their elements -/

section Flatten
variable {β : Type*} {sep : List β → Bool}

theorem flatten_joinPieces_cons (first : List (List β)) (q : List β × List (List β))
    (ps : List (List β × List (List β))) :
    (joinPieces (first, q :: ps)).flatten = first.flatten ++ (q.1 ++ (joinPieces (q.2, ps)).flatten) := by
  unfold joinPieces
  simp

/-- Two images of pieces with equal elements are equal token by token, when all differences of lengths have one sign. -/
theorem flatten_eq_of_joinPieces {f g : List (List β) → List (List β)} {k : List (List β) → Nat} {d : Int}
    (hlen : ∀ t, ((f t).flatten.length : Int) = (g t).flatten.length + k t * d)
    {ps : List (List β × List (List β))} {first : List (List β)}
    (h : (joinPieces (f first, ps.map fun q => (q.1, f q.2))).flatten =
      (joinPieces (g first, ps.map fun q => (q.1, g q.2))).flatten) :
    (f first).flatten = (g first).flatten ∧ ∀ q ∈ ps, (f q.2).flatten = (g q.2).flatten := by
  -- the difference of the lengths of the two images is a multiple of `d`
  have htotal : ∀ (ps : List (List β × List (List β))) (first : List (List β)), ∃ n : Nat,
      ((joinPieces (f first, ps.map fun q => (q.1, f q.2))).flatten.length : Int) =
        (joinPieces (g first, ps.map fun q => (q.1, g q.2))).flatten.length + (k first + n : Nat) * d := by
    intro ps
    induction ps with
    | nil =>
      intro first
      refine ⟨0, ?_⟩
      have hfirst := hlen first
      simpa [joinPieces] using hfirst
    | cons q ps ih =>
      intro first
      obtain ⟨n, hn⟩ := ih q.2
      refine ⟨k q.2 + n, ?_⟩
      have hfirst := hlen first
      rw [List.map_cons, List.map_cons, flatten_joinPieces_cons, flatten_joinPieces_cons, List.length_append,
        List.length_append, List.length_append, List.length_append]
      push_cast at hn hfirst ⊢
      linarith
  induction ps generalizing first with
  | nil =>
    refine ⟨?_, fun q hq => absurd hq List.not_mem_nil⟩
    simpa [joinPieces] using h
  | cons q ps ih =>
    obtain ⟨n, hn⟩ := htotal (q :: ps) first
    have hzero : ((k first + n : Nat) : Int) * d = 0 := by
      have hl := congrArg List.length h
      omega
    have hfirst : (f first).flatten.length = (g first).flatten.length := by
      have hl := hlen first
      rcases mul_eq_zero.mp hzero with hk | hd
      · have hk0 : k first = 0 := by omega
        rw [hk0] at hl
        push_cast at hl
        omega
      · rw [hd] at hl
        omega
    rw [List.map_cons, List.map_cons, flatten_joinPieces_cons, flatten_joinPieces_cons] at h
    obtain ⟨he, hrest⟩ := List.append_inj h hfirst
    obtain ⟨hq, hps⟩ := ih (List.append_cancel_left hrest)
    refine ⟨he, fun r hr => ?_⟩
    rcases List.mem_cons.mp hr with rfl | hr
    · exact hq
    · exact hps r hr

variable [DecidableEq β] {pat rep : List (List β)}

/-- A token that contains the pattern and comes out of the scan as it was: pattern and replacement have equal
elements. -/
theorem flatten_eq_of_replaceAll {t : List (List β)} (hne : pat ≠ []) (hin : pat <:+: t)
    (h : (replaceAll pat rep t).flatten = t.flatten) : pat.flatten = rep.flatten := by
  obtain ⟨u, v, ht, hr⟩ := exists_first_occurrence rep hne hin
  obtain ⟨k, hk⟩ := length_flatten_replaceAll rep hne v
  have hcancel : rep.flatten ++ (replaceAll pat rep v).flatten = pat.flatten ++ v.flatten := by
    rw [hr, ht] at h
    rw [List.flatten_append, List.flatten_append, List.flatten_append, List.flatten_append] at h
    exact List.append_cancel_left h
  have hlen := congrArg List.length hcancel
  rw [List.length_append, List.length_append] at hlen
  -- `k + 1` occurrences leave the length as it is
  have hzero : ((k : Int) + 1) * (rep.flatten.length - pat.flatten.length) = 0 := by
    have hcast : (rep.flatten.length : Int) + (replaceAll pat rep v).flatten.length =
        pat.flatten.length + v.flatten.length := by exact_mod_cast hlen
    linarith
  have hsame : rep.flatten.length = pat.flatten.length := by
    rcases mul_eq_zero.mp hzero with hk | hd
    · omega
    · omega
  exact (List.append_inj hcancel hsame).1.symm

/-- **Replacing everywhere is replacing the tokens that equal the pattern** exactly when the pattern occurs in no other
token. -/
theorem replaceAll_eq_replaceToken_iff (hne : pat ≠ []) (hsep : ∀ x ∈ pat, sep x = false)
    (hinj : pat.flatten = rep.flatten → pat = rep) (xs : List (List β)) :
    (replaceAll pat rep xs).flatten = (mapTokens sep (replaceToken pat rep) xs).flatten ↔
      pat = rep ∨ ∀ t ∈ tokens sep xs, pat <:+: t → t = pat := by
  rw [replaceAll_eq_mapTokens rep hne hsep]
  constructor
  · intro h
    have hcount : ∀ t, ∃ k : Nat, ((replaceAll pat rep t).flatten.length : Int) =
        (replaceToken pat rep t).flatten.length + k * (rep.flatten.length - pat.flatten.length) := by
      intro t
      by_cases ht : t = pat
      · refine ⟨0, ?_⟩
        have hself := replaceAll_append_self rep hne []
        rw [List.append_nil] at hself
        rw [ht, hself, replaceToken_self]
        simp [replaceAll, replaceFrom]
      · rw [replaceToken_of_ne rep ht]
        exact length_flatten_replaceAll rep hne t
    choose k hk using hcount
    obtain ⟨hfirst, hrest⟩ := flatten_eq_of_joinPieces hk h
    by_cases hpr : pat = rep
    · exact Or.inl hpr
    · refine Or.inr fun t ht hin => ?_
      have heq : (replaceAll pat rep t).flatten = (replaceToken pat rep t).flatten := by
        rcases List.mem_cons.mp ht with rfl | ht
        · exact hfirst
        · obtain ⟨q, hq, rfl⟩ := List.mem_map.mp ht
          exact hrest q hq
      by_contra hne'
      rw [replaceToken_of_ne rep hne'] at heq
      exact hpr (hinj (flatten_eq_of_replaceAll hne hin heq))
  · rintro (rfl | h)
    · apply congrArg List.flatten
      apply mapTokens_congr
      intro t _
      rw [replaceAll_self hne]
      unfold replaceToken
      split
      · assumption
      · rfl
    · apply congrArg List.flatten
      apply mapTokens_congr
      intro t ht
      by_cases hin : pat <:+: t
      · rw [h t ht hin, replaceToken_self]
        have hself := replaceAll_append_self rep hne []
        rw [List.append_nil] at hself
        rw [hself]
        exact List.append_nil rep
      · have htp : t ≠ pat := fun he => hin (he ▸ List.infix_rfl)
        rw [replaceAll_of_absent rep hin, replaceToken_of_ne rep htp]

end Flatten

end Lib

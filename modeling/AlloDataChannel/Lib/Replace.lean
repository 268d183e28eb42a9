import Mathlib.Data.List.Infix
import Mathlib.Tactic.Linarith

/-!
# Leftmost non-overlapping replacement

`replaceAll pat rep xs` scans `xs` from the left, puts `rep` for each occurrence of `pat` it meets and goes on after
the occurrence.

* `replaceAll_hit`, `replaceAll_miss` : the two steps of the scan;
* `replaceAll_append_cons` : a separator that does not occur in the pattern cuts the scan in two;
* `replaceAll_intercalate` : the same for any number of separators;
* `replaceAll_of_absent`, `exists_first_occurrence`, `length_flatten_replaceAll` : a list without an occurrence, the
  first occurrence of one that has some, and the length of the result.
-/

namespace Lib

section Replace
variable {α : Type*} [DecidableEq α]

/-- The scan, with `skip` elements still covered by the occurrence found last. -/
def replaceFrom (pat rep : List α) : Nat → List α → List α
  | _, [] => []
  | skip + 1, _ :: xs => replaceFrom pat rep skip xs
  | 0, x :: xs =>
    if pat <+: x :: xs then rep ++ replaceFrom pat rep (pat.length - 1) xs
    else x :: replaceFrom pat rep 0 xs

/-- Put `rep` for every occurrence of `pat`, leftmost first and without overlap. -/
def replaceAll (pat rep xs : List α) : List α := replaceFrom pat rep 0 xs

theorem replaceFrom_eq_drop (pat rep : List α) :
    ∀ (k : Nat) (xs : List α), replaceFrom pat rep k xs = replaceAll pat rep (xs.drop k)
  | 0, _ => rfl
  | _ + 1, [] => rfl
  | k + 1, _ :: xs => replaceFrom_eq_drop pat rep k xs

/-- At an occurrence the scan emits the replacement and goes on after it. -/
theorem replaceAll_hit {pat : List α} (rep : List α) {xs : List α} (hne : pat ≠ []) (h : pat <+: xs) :
    replaceAll pat rep xs = rep ++ replaceAll pat rep (xs.drop pat.length) := by
  obtain ⟨p, ps, rfl⟩ := List.exists_cons_of_ne_nil hne
  cases xs with
  | nil => exact absurd h (by simp)
  | cons x xs =>
    rw [replaceAll, replaceFrom, if_pos h, replaceFrom_eq_drop]
    simp

theorem replaceAll_miss {pat : List α} (rep : List α) {x : α} {xs : List α}
    (h : ¬ pat <+: x :: xs) : replaceAll pat rep (x :: xs) = x :: replaceAll pat rep xs := by
  rw [replaceAll, replaceFrom, if_neg h]
  rfl

/-- An element that the pattern does not have is copied. -/
theorem replaceAll_cons_of_not_mem {pat : List α} (rep : List α) (hne : pat ≠ []) {x : α} (hx : x ∉ pat)
    (xs : List α) : replaceAll pat rep (x :: xs) = x :: replaceAll pat rep xs := by
  apply replaceAll_miss
  intro h
  obtain ⟨p, ps, rfl⟩ := List.exists_cons_of_ne_nil hne
  obtain ⟨rfl, -⟩ := List.cons_prefix_cons.mp h
  exact hx List.mem_cons_self

omit [DecidableEq α] in
/-- A pattern without `sep` that starts in front of a `sep` ends in front of it. -/
theorem prefix_append_cons_iff {pat : List α} {sep : α} (hsep : sep ∉ pat) (xs ys : List α) :
    pat <+: xs ++ sep :: ys ↔ pat <+: xs := by
  constructor
  · intro h
    rcases List.prefix_or_prefix_of_prefix h (List.prefix_append xs (sep :: ys)) with hp | ⟨t, rfl⟩
    · exact hp
    · rw [List.prefix_append_right_inj] at h
      cases t with
      | nil => simp
      | cons a t =>
        obtain ⟨rfl, -⟩ := List.cons_prefix_cons.mp h
        exact absurd (by simp) hsep
  · intro h
    exact h.trans (List.prefix_append _ _)

/-- A separator that does not occur in the pattern cuts the scan in two. -/
theorem replaceAll_append_cons {pat : List α} (rep : List α) {sep : α} (hne : pat ≠ []) (hsep : sep ∉ pat)
    (xs ys : List α) :
    replaceAll pat rep (xs ++ sep :: ys) = replaceAll pat rep xs ++ sep :: replaceAll pat rep ys := by
  -- on the length: an occurrence of the pattern skips several elements of `xs` at once
  induction hn : xs.length using Nat.strong_induction_on generalizing xs with
  | _ n ih =>
    cases xs with
    | nil => exact replaceAll_cons_of_not_mem rep hne hsep ys
    | cons x xs =>
      subst hn
      by_cases h : pat <+: x :: xs
      · have hlen : 0 < pat.length := List.length_pos_iff.mpr hne
        have h' := (prefix_append_cons_iff hsep (x :: xs) ys).mpr h
        rw [replaceAll_hit rep hne h', replaceAll_hit rep hne h, List.drop_append_of_le_length h.length_le,
          ih _ (by rw [List.length_drop]; simp only [List.length_cons]; omega) _ rfl, List.append_assoc]
      · have h' : ¬ pat <+: x :: (xs ++ sep :: ys) := fun hp =>
          h ((prefix_append_cons_iff hsep (x :: xs) ys).mp hp)
        rw [List.cons_append, replaceAll_miss rep h', replaceAll_miss rep h,
          ih xs.length (by simp) xs rfl, List.cons_append]

/-- Replacing in the pieces between separators is replacing in the whole. -/
theorem replaceAll_intercalate {pat : List α} (rep : List α) {sep : α} (hne : pat ≠ []) (hsep : sep ∉ pat) :
    ∀ ls : List (List α), replaceAll pat rep ([sep].intercalate ls) = [sep].intercalate (ls.map (replaceAll pat rep))
  | [] => rfl
  | [l] => by simp
  | l :: m :: ls => by
    have ih := replaceAll_intercalate rep hne hsep (m :: ls)
    rw [List.map_cons] at ih
    rw [List.intercalate_cons_cons, List.append_assoc, List.singleton_append, replaceAll_append_cons rep hne hsep, ih,
      List.map_cons, List.map_cons, List.intercalate_cons_cons, List.append_assoc, List.singleton_append]

/-! ## Occurrences -/

theorem replaceAll_of_absent (rep : List α) {pat : List α} :
    ∀ {xs : List α}, ¬ pat <:+: xs → replaceAll pat rep xs = xs
  | [], _ => rfl
  | x :: xs, h => by
    have hx : ¬ pat <+: x :: xs := fun hp => h hp.isInfix
    have hxs : ¬ pat <:+: xs := fun hi => h (hi.trans (List.suffix_cons x xs).isInfix)
    rw [replaceAll_miss rep hx, replaceAll_of_absent rep hxs]

theorem replaceAll_append_self {pat : List α} (rep : List α) (hne : pat ≠ []) (xs : List α) :
    replaceAll pat rep (pat ++ xs) = rep ++ replaceAll pat rep xs := by
  rw [replaceAll_hit rep hne (List.prefix_append pat xs), List.drop_left]

/-- The scan copies what stands before the first occurrence. -/
theorem exists_first_occurrence {pat : List α} (rep : List α) (hne : pat ≠ []) :
    ∀ {xs : List α}, pat <:+: xs →
      ∃ u v, xs = u ++ (pat ++ v) ∧ replaceAll pat rep xs = u ++ (rep ++ replaceAll pat rep v)
  | [], h => absurd (List.infix_nil.mp h) hne
  | x :: xs, h => by
    by_cases hp : pat <+: x :: xs
    · obtain ⟨v, hv⟩ := hp
      refine ⟨[], v, hv.symm, ?_⟩
      rw [← hv, replaceAll_append_self rep hne]
      rfl
    · obtain ⟨u, v, hxs, hr⟩ := exists_first_occurrence rep hne ((List.infix_cons_iff.mp h).resolve_left hp)
      refine ⟨x :: u, v, ?_, ?_⟩
      · rw [hxs]
        rfl
      · rw [replaceAll_miss rep hp, hr]
        rfl

/-- Replacing the pattern by itself does nothing. -/
theorem replaceAll_self {pat : List α} (hne : pat ≠ []) (xs : List α) : replaceAll pat pat xs = xs := by
  induction hn : xs.length using Nat.strong_induction_on generalizing xs with
  | _ n ih =>
    by_cases h : pat <:+: xs
    · obtain ⟨u, v, hxs, hr⟩ := exists_first_occurrence pat hne h
      have hpos : 0 < pat.length := List.length_pos_iff.mpr hne
      have hlen : v.length < n := by
        rw [← hn, hxs, List.length_append, List.length_append]
        omega
      rw [hr, ih v.length hlen v rfl, hxs]
    · exact replaceAll_of_absent pat h

end Replace

/-- Each replaced occurrence changes the number of elements by the same amount. -/
theorem length_flatten_replaceAll {β : Type*} [DecidableEq β] {pat : List (List β)} (rep : List (List β))
    (hne : pat ≠ []) (xs : List (List β)) :
    ∃ k : Nat, ((replaceAll pat rep xs).flatten.length : Int) =
      xs.flatten.length + k * (rep.flatten.length - pat.flatten.length) := by
  induction hn : xs.length using Nat.strong_induction_on generalizing xs with
  | _ n ih =>
    by_cases h : pat <:+: xs
    · obtain ⟨u, v, hxs, hr⟩ := exists_first_occurrence rep hne h
      have hpos : 0 < pat.length := List.length_pos_iff.mpr hne
      have hlen : v.length < n := by
        rw [← hn, hxs, List.length_append, List.length_append]
        omega
      obtain ⟨k, hk⟩ := ih v.length hlen v rfl
      refine ⟨k + 1, ?_⟩
      rw [hr, hxs]
      simp only [List.flatten_append, List.length_append]
      push_cast
      linarith
    · refine ⟨0, ?_⟩
      rw [replaceAll_of_absent rep h]
      push_cast
      linarith

end Lib

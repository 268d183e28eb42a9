import Mathlib.Data.List.Nodup

/-!
# Numbering keys in the order of their first requests

A numbering has room for `cap` keys; a key gets the next number at its first request, if there is room, and keeps it.

* `Numbering` : the distinct keys in order; the number of a key is its position;
* `Numbering.number_injective`, `Numbering.number_lt`, `Numbering.exists_number` : different keys have different
  numbers, and the numbers are those below the size;
* `Numbering.number_requests` : what a request answers stays the answer.
-/

namespace Lib

/-- Distinct keys in the order of their first requests. -/
structure Numbering (κ : Type*) (cap : Nat) where
  keys : List κ
  nodup : keys.Nodup
  length_le : keys.length ≤ cap

namespace Numbering
variable {κ : Type*} [DecidableEq κ] {cap : Nat}

def empty : Numbering κ cap := ⟨[], List.nodup_nil, Nat.zero_le cap⟩

/-- The number of a key, from 0 on. -/
def number (n : Numbering κ cap) (k : κ) : Option Nat := if k ∈ n.keys then some (n.keys.idxOf k) else none

/-- A request numbers its key, if it is new and there is room. -/
def request (n : Numbering κ cap) (k : κ) : Numbering κ cap :=
  if h : k ∉ n.keys ∧ n.keys.length < cap then
    { keys := n.keys ++ [k]
      nodup := by
        rw [List.nodup_append_comm]
        exact List.nodup_cons.mpr ⟨h.1, n.nodup⟩
      length_le := by
        rw [List.length_append]
        exact h.2 }
  else n

def requests (n : Numbering κ cap) (ks : List κ) : Numbering κ cap := ks.foldl request n

variable {n : Numbering κ cap} {k l : κ} {i : Nat}

theorem number_eq_none : n.number k = none ↔ k ∉ n.keys := by
  unfold number
  split <;> simp_all

theorem number_of_mem (h : k ∈ n.keys) : n.number k = some (n.keys.idxOf k) := if_pos h

theorem mem_of_number (h : n.number k = some i) : k ∈ n.keys := by
  by_contra hk
  rw [number_eq_none.mpr hk] at h
  cases h

theorem number_lt (h : n.number k = some i) : i < n.keys.length := by
  have hk := mem_of_number h
  rw [number_of_mem hk, Option.some.injEq] at h
  rw [← h]
  exact List.idxOf_lt_length_iff.mpr hk

/-- Different keys have different numbers. -/
theorem number_injective (hk : n.number k = some i) (hl : n.number l = some i) : k = l := by
  have hkm := mem_of_number hk
  have hlm := mem_of_number hl
  rw [number_of_mem hkm] at hk
  rw [number_of_mem hlm] at hl
  exact (List.idxOf_inj hkm).mp (Option.some.inj (hk.trans hl.symm))

/-- Every number below the size is the number of a key. -/
theorem exists_number (h : i < n.keys.length) : ∃ k, n.number k = some i := by
  refine ⟨n.keys[i], ?_⟩
  rw [number_of_mem (List.getElem_mem h), n.nodup.idxOf_getElem]

theorem request_of_room (hk : k ∉ n.keys) (hroom : n.keys.length < cap) : (n.request k).keys = n.keys ++ [k] := by
  unfold request
  rw [dif_pos ⟨hk, hroom⟩]

theorem request_of_mem (hk : k ∈ n.keys) : n.request k = n := dif_neg fun h => h.1 hk

theorem request_of_full (hfull : n.keys.length = cap) : n.request k = n := dif_neg fun h => by omega

theorem keys_request (n : Numbering κ cap) (k : κ) : n.keys <+: (n.request k).keys := by
  unfold request
  split
  · exact List.prefix_append _ _
  · exact List.prefix_rfl

theorem keys_requests (n : Numbering κ cap) (ks : List κ) : n.keys <+: (n.requests ks).keys := by
  induction ks generalizing n with
  | nil => exact List.prefix_rfl
  | cons k ks ih => exact (keys_request n k).trans (ih (n.request k))

/-- A key keeps its number. -/
theorem number_of_extended {m : Numbering κ cap} (h : n.keys <+: m.keys) (hk : k ∈ n.keys) :
    m.number k = n.number k := by
  rw [number_of_mem hk, number_of_mem (h.subset hk)]
  obtain ⟨t, ht⟩ := h
  rw [← ht, List.idxOf_append_of_mem hk]

theorem requests_of_full (ks : List κ) (hfull : n.keys.length = cap) : n.requests ks = n := by
  induction ks with
  | nil => rfl
  | cons k ks ih =>
    show (n.request k).requests ks = n
    rw [request_of_full hfull, ih]

/-- A key without a number after its request: there is no room. -/
theorem full_of_number_request (h : (n.request k).number k = none) : n.keys.length = cap ∧ k ∉ n.keys := by
  have hk : k ∉ n.keys := fun hm => number_eq_none.mp h ((keys_request n k).subset hm)
  refine ⟨?_, hk⟩
  by_contra hne
  have hroom : n.keys.length < cap := Nat.lt_of_le_of_ne n.length_le hne
  apply number_eq_none.mp h
  rw [request_of_room hk hroom]
  simp

/-- What a request answers is the answer for good. -/
theorem number_requests (n : Numbering κ cap) (k : κ) (ks : List κ) :
    ((n.request k).requests ks).number k = (n.request k).number k := by
  cases h : (n.request k).number k with
  | some i => rw [number_of_extended (keys_requests _ ks) (mem_of_number h), h]
  | none =>
    have hfull := (full_of_number_request h).1
    rw [request_of_full hfull] at h ⊢
    rw [requests_of_full ks hfull, h]

/-- Only requested keys have numbers. -/
theorem mem_of_mem_requests (ks : List κ) (h : k ∈ (n.requests ks).keys) : k ∈ n.keys ∨ k ∈ ks := by
  induction ks generalizing n with
  | nil => exact Or.inl h
  | cons l ks ih =>
    rcases ih (n := n.request l) h with hm | hm
    · unfold request at hm
      split at hm
      · rcases List.mem_append.mp hm with hm | hm
        · exact Or.inl hm
        · exact Or.inr (List.mem_singleton.mp hm ▸ List.mem_cons_self)
      · exact Or.inl hm
    · exact Or.inr (List.mem_cons_of_mem l hm)

end Numbering
end Lib

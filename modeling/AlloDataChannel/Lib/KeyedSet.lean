import Mathlib.Data.List.Nodup

/-!
# Sets whose members are told apart by a key

`KeyedSet key` : a finite set of values whose equality compares `key`, so that it never holds two members with
one key. `insert` keeps a member that is already there, `remove` takes out whatever member has the key.

* `mem_insert`, `mem_remove`, `find?_eq_some` : each operation by the members it leaves;
* `eq_of_key` : a key determines the member.
-/

namespace Lib

/-- A finite set of values told apart by `key`. -/
structure KeyedSet {α κ : Type*} (key : α → κ) where
  elems : List α
  nodup : (elems.map key).Nodup

namespace KeyedSet
variable {α κ : Type*} {key : α → κ}

instance : Membership α (KeyedSet key) := ⟨fun s x => x ∈ s.elems⟩

theorem mem_def {s : KeyedSet key} {x : α} : x ∈ s ↔ x ∈ s.elems := Iff.rfl

def empty : KeyedSet key := ⟨[], List.nodup_nil⟩

@[simp] theorem not_mem_empty (x : α) : x ∉ (empty : KeyedSet key) := List.not_mem_nil

/-- A key determines the member. -/
theorem eq_of_key {s : KeyedSet key} {x y : α} (hx : x ∈ s) (hy : y ∈ s) (h : key x = key y) : x = y :=
  List.inj_on_of_nodup_map s.nodup hx hy h

variable [DecidableEq κ]

/-- The member with the key `k`. -/
def find? (s : KeyedSet key) (k : κ) : Option α := s.elems.find? fun x => decide (key x = k)

/-- Some member has the key `k`. -/
def hasKey (s : KeyedSet key) (k : κ) : Bool := s.elems.any fun x => decide (key x = k)

theorem find?_eq_some {s : KeyedSet key} {k : κ} {x : α} : s.find? k = some x ↔ x ∈ s ∧ key x = k := by
  constructor
  · intro h
    exact ⟨List.mem_of_find?_eq_some h, by simpa using List.find?_some h⟩
  · rintro ⟨hx, rfl⟩
    cases hf : s.find? (key x) with
    | none => exact absurd (List.find?_eq_none.mp hf x hx) (by simp)
    | some y =>
      have hy : key y = key x := by simpa using List.find?_some hf
      rw [eq_of_key (List.mem_of_find?_eq_some hf) hx hy]

theorem find?_eq_none {s : KeyedSet key} {k : κ} : s.find? k = none ↔ ∀ x ∈ s, key x ≠ k := by
  unfold find?
  rw [List.find?_eq_none]
  simp [mem_def]

theorem hasKey_iff {s : KeyedSet key} {k : κ} : s.hasKey k = true ↔ ∃ x ∈ s, key x = k := by
  simp [hasKey, mem_def]

theorem hasKey_eq_false_iff {s : KeyedSet key} {k : κ} : s.hasKey k = false ↔ ∀ x ∈ s, key x ≠ k := by
  simp [hasKey, mem_def]

theorem find?_eq_none_iff_hasKey {s : KeyedSet key} {k : κ} : s.find? k = none ↔ s.hasKey k = false := by
  rw [find?_eq_none, hasKey_eq_false_iff]

/-- Insert `x`, unless a member with its key is there already. -/
def insert (s : KeyedSet key) (x : α) : KeyedSet key :=
  if h : s.hasKey (key x) = true then s
  else ⟨x :: s.elems, by
    rw [List.map_cons, List.nodup_cons]
    refine ⟨fun hm => ?_, s.nodup⟩
    obtain ⟨y, hy, hk⟩ := List.mem_map.mp hm
    exact h (hasKey_iff.mpr ⟨y, hy, hk⟩)⟩

theorem mem_insert {s : KeyedSet key} {x y : α} :
    y ∈ s.insert x ↔ y ∈ s ∨ y = x ∧ s.hasKey (key x) = false := by
  unfold insert
  split
  · next h => simp [h]
  · next h => simp [mem_def, h, or_comm]

theorem mem_insert_of_fresh {s : KeyedSet key} {x y : α} (h : s.hasKey (key x) = false) :
    y ∈ s.insert x ↔ y ∈ s ∨ y = x := by
  rw [mem_insert]
  simp [h]

/-- Take out the member with the key `k`. -/
def remove (s : KeyedSet key) (k : κ) : KeyedSet key :=
  ⟨s.elems.filter fun x => decide (key x ≠ k), s.nodup.sublist (List.filter_sublist.map key)⟩

@[simp] theorem mem_remove {s : KeyedSet key} {k : κ} {x : α} : x ∈ s.remove k ↔ x ∈ s ∧ key x ≠ k := by
  simp [remove, mem_def]

end KeyedSet

end Lib

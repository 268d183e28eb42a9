import Mathlib.Data.Set.Card
import Mathlib.Order.WellFounded
import Mathlib.Logic.Relation

/-!
# What reference counting leaves behind

`edge x y` : `x` holds a strong reference to `y`. An object is freed when it is no root and no live object holds it.

* `Kept edge roots` : what is reachable from a root or from a cycle;
* `Frees` : one object is freed; `Frees.kept` : it is none of these;
* `kept_of_stuck` : once nothing can be freed, nothing else is live;
* `freed` : freeing ends, and what is left is what was kept, whatever the order;
* `mem_kept_iff` : what is kept, where all references but those to some objects on cycles lead down a rank.
-/

namespace Lib

section Ownership
variable {α : Type*} (edge : α → α → Prop) (roots : Set α)

open Relation (TransGen ReflTransGen)

def OnCycle (x : α) : Prop := TransGen edge x x

/-- What is reachable from a root or from a cycle. -/
def Kept : Set α := {x | ∃ r, (r ∈ roots ∨ OnCycle edge r) ∧ ReflTransGen edge r x}

/-- A live object that is no root and that no live object holds is freed. -/
inductive Frees : Set α → Set α → Prop
  | free {live : Set α} (x : α) (alive : x ∈ live) (noRoot : x ∉ roots) (unheld : ∀ y ∈ live, ¬ edge y x) :
    Frees live (live \ {x})

variable {edge roots}

theorem kept_of_root {x : α} (h : x ∈ roots) : x ∈ Kept edge roots := ⟨x, Or.inl h, .refl⟩

theorem kept_of_onCycle {x : α} (h : OnCycle edge x) : x ∈ Kept edge roots := ⟨x, Or.inr h, .refl⟩

theorem kept_of_edge {x y : α} (h : x ∈ Kept edge roots) (he : edge x y) : y ∈ Kept edge roots := by
  obtain ⟨r, hr, hreach⟩ := h
  exact ⟨r, hr, hreach.tail he⟩

/-- A kept object is a root, or a kept object holds it. -/
theorem held_of_kept {x : α} (h : x ∈ Kept edge roots) : x ∈ roots ∨ ∃ y ∈ Kept edge roots, edge y x := by
  obtain ⟨r, hr, hreach⟩ := h
  cases hreach with
  | refl =>
    rcases hr with hroot | hcycle
    · exact Or.inl hroot
    · obtain ⟨y, hy, he⟩ := TransGen.tail'_iff.mp hcycle
      exact Or.inr ⟨y, ⟨x, Or.inr hcycle, hy⟩, he⟩
  | tail hreach he => exact Or.inr ⟨_, ⟨r, hr, hreach⟩, he⟩

theorem Frees.kept {live live' : Set α} (h : Frees edge roots live live') (hk : Kept edge roots ⊆ live) :
    Kept edge roots ⊆ live' := by
  obtain ⟨x, alive, noRoot, unheld⟩ := h
  intro z hz
  refine ⟨hk hz, ?_⟩
  rintro rfl
  rcases held_of_kept hz with hroot | ⟨y, hy, he⟩
  · exact noRoot hroot
  · exact unheld y (hk hy) he

/-- A finite set in which each object is held by another one has a cycle. -/
theorem exists_onCycle {s : Set α} (hfin : s.Finite) (hne : s.Nonempty) (hheld : ∀ x ∈ s, ∃ y ∈ s, edge y x) :
    ∃ x ∈ s, OnCycle edge x := by
  by_contra hno
  have hfinite : Finite s := hfin
  let above : s → s → Prop := fun x y => TransGen edge x y
  have htrans : IsTrans s above := ⟨fun x y z hxy hyz => TransGen.trans hxy hyz⟩
  have hirrefl : Std.Irrefl above := ⟨fun x hx => hno ⟨x, x.property, hx⟩⟩
  obtain ⟨x, -, hmin⟩ := (Finite.wellFounded_of_trans_of_irrefl above).has_min Set.univ ⟨⟨_, hne.some_mem⟩, trivial⟩
  obtain ⟨y, hy, he⟩ := hheld x x.property
  exact hmin ⟨y, hy⟩ trivial (.single he)

/-- Once nothing can be freed, everything live is kept. -/
theorem kept_of_stuck {live : Set α} (hfin : live.Finite) (hstuck : ∀ live', ¬ Frees edge roots live live') :
    live ⊆ Kept edge roots := by
  by_contra hno
  obtain ⟨z, hz, hzk⟩ := Set.not_subset.mp hno
  have hheld : ∀ x ∈ live \ Kept edge roots, ∃ y ∈ live \ Kept edge roots, edge y x := by
    rintro x ⟨hx, hxk⟩
    by_contra hnone
    refine hstuck _ (.free x hx (fun hroot => hxk (kept_of_root hroot)) fun y hy he => hnone ⟨y, ⟨hy, ?_⟩, he⟩)
    exact fun hyk => hxk (kept_of_edge hyk he)
  obtain ⟨x, hx, hcycle⟩ := exists_onCycle (hfin.subset Set.sdiff_subset) ⟨z, hz, hzk⟩ hheld
  exact hx.2 (kept_of_onCycle hcycle)

theorem Frees.subset {live live' : Set α} (h : Frees edge roots live live') : live' ⊆ live := by
  obtain ⟨x, -, -, -⟩ := h
  exact Set.sdiff_subset

/-- **What is left.** Freeing ends, and whenever it does, what is left is what is reachable from a root or a cycle. -/
theorem freed {live : Set α} (hfin : live.Finite) (hk : Kept edge roots ⊆ live) :
    ReflTransGen (Frees edge roots) live (Kept edge roots) ∧
      ∀ left, ReflTransGen (Frees edge roots) live left → (∀ left', ¬ Frees edge roots left left') →
        left = Kept edge roots := by
  have hall : ∀ left, ReflTransGen (Frees edge roots) live left → Kept edge roots ⊆ left ∧ left.Finite := by
    intro left hleft
    induction hleft with
    | refl => exact ⟨hk, hfin⟩
    | tail _ hfree ih => exact ⟨hfree.kept ih.1, ih.2.subset hfree.subset⟩
  have hstuck : ∀ left, ReflTransGen (Frees edge roots) live left → (∀ left', ¬ Frees edge roots left left') →
      left = Kept edge roots := fun left hleft hno =>
    Set.Subset.antisymm (kept_of_stuck (hall left hleft).2 hno) (hall left hleft).1
  refine ⟨?_, hstuck⟩
  -- by the number of live objects: free one while that is possible
  have hreach : ∀ n, ∀ left : Set α, left.ncard = n → ReflTransGen (Frees edge roots) live left →
      ReflTransGen (Frees edge roots) live (Kept edge roots) := by
    intro n
    induction n using Nat.strongRecOn with
    | _ n ih =>
      intro left hn hleft
      by_cases hno : ∀ left', ¬ Frees edge roots left left'
      · rw [hstuck left hleft hno] at hleft
        exact hleft
      · obtain ⟨left', hfree⟩ := not_forall_not.mp hno
        refine ih left'.ncard ?_ left' rfl (hleft.tail hfree)
        obtain ⟨x, alive, -, -⟩ := hfree
        rw [← hn]
        exact Set.ncard_sdiff_singleton_lt_of_mem alive (hall left hleft).2
  exact hreach _ live rfl .refl

/-- Where a reference that does not lead down a rank leads to one of the objects `held`, every cycle is reachable from
one of these. -/
theorem reachable_of_onCycle {rank : α → ℕ} {held : Set α} (h : ∀ x y, edge x y → rank y < rank x ∨ y ∈ held) {x : α}
    (hx : OnCycle edge x) : ∃ r ∈ held, ReflTransGen edge r x := by
  have hdown : ∀ y, TransGen edge x y → rank y < rank x ∨ ∃ r ∈ held, ReflTransGen edge r y := by
    intro y hy
    induction hy with
    | single he => exact (h _ _ he).imp id fun hr => ⟨_, hr, .refl⟩
    | tail _ he ih =>
      rcases h _ _ he with hlt | hr
      · rcases ih with hlt' | ⟨r, hr, hreach⟩
        · exact Or.inl (Nat.lt_trans hlt hlt')
        · exact Or.inr ⟨r, hr, hreach.tail he⟩
      · exact Or.inr ⟨_, hr, .refl⟩
  exact (hdown x hx).resolve_left (Nat.lt_irrefl _)

/-- If these are on cycles themselves, then what is kept is what is reachable from them and from the roots. -/
theorem mem_kept_iff {rank : α → ℕ} {held : Set α} (h : ∀ x y, edge x y → rank y < rank x ∨ y ∈ held)
    (hheld : ∀ r ∈ held, OnCycle edge r) {x : α} :
    x ∈ Kept edge roots ↔ ∃ r, (r ∈ roots ∨ r ∈ held) ∧ ReflTransGen edge r x := by
  refine ⟨fun ⟨r, hr, hreach⟩ => ?_, fun ⟨r, hr, hreach⟩ => ⟨r, hr.imp id (hheld r), hreach⟩⟩
  rcases hr with hroot | hcycle
  · exact ⟨r, Or.inl hroot, hreach⟩
  · obtain ⟨r', hr', hreach'⟩ := reachable_of_onCycle h hcycle
    exact ⟨r', Or.inr hr', hreach'.trans hreach⟩

end Ownership

end Lib

import Mathlib.Data.List.Basic
import Mathlib.Algebra.Order.Group.Nat

/-!
# A fan-out that stops at the first closed gate

An item is offered to the gates in the order in which they joined. Each open gate takes it and passes it on, and the
first closed one ends the round.

* `Gates`, `Gates.step` : the gates and what each has taken;
* `passed` : the items that come while a gate and all before it are open, read off the events;
* `taken_run` : a gate has taken exactly these, in order;
* `wanted` : the items that come while the gate itself is open;
* `passed_eq_wanted_iff` : every gate gets what it wants exactly when, at each item, the open gates come first.
-/

namespace Lib

/-- A gate: whether it is open, and what it has taken. -/
structure Gate (α : Type*) where
  isOpen : Bool
  taken : List α

inductive FanEvent (α : Type*)
  /-- A new gate, closed and last in the order. -/
  | join
  | switch (i : ℕ) (isOpen : Bool)
  | offer (x : α)

section Fanout
variable {α : Type*}

namespace Gate

/-- One round. -/
def offer (x : α) : List (Gate α) → List (Gate α)
  | [] => []
  | g :: gs => if g.isOpen then { g with taken := g.taken ++ [x] } :: offer x gs else g :: gs

def step (gs : List (Gate α)) : FanEvent α → List (Gate α)
  | .join => gs ++ [⟨false, []⟩]
  | .switch i isOpen => gs.modify i fun g => { g with isOpen := isOpen }
  | .offer x => offer x gs

def run (gs : List (Gate α)) (es : List (FanEvent α)) : List (Gate α) := es.foldl step gs

def flags (gs : List (Gate α)) : List Bool := gs.map Gate.isOpen

/-- What the gate `i` has taken: nothing before it has joined. -/
def takenAt (gs : List (Gate α)) (i : ℕ) : List α := (gs[i]?.map Gate.taken).getD []

end Gate

/-! ## The law, read off the events -/

/-- The flags of the gates after an event. -/
def flagsAfter (fs : List Bool) : FanEvent α → List Bool
  | .join => fs ++ [false]
  | .switch i isOpen => fs.set i isOpen
  | .offer _ => fs

/-- The gate `i` and all before it are open. -/
def AllOpen (fs : List Bool) (i : ℕ) : Prop := ∀ j ≤ i, fs[j]? = some true

instance (fs : List Bool) (i : ℕ) : Decidable (AllOpen fs i) :=
  decidable_of_iff (∀ j < i + 1, fs[j]? = some true) (forall_congr' fun j => by rw [Nat.lt_succ_iff])

/-- The items that come while the gate `i` and all before it are open. -/
def passed (i : ℕ) : List Bool → List (FanEvent α) → List α
  | _, [] => []
  | fs, .offer x :: es => if AllOpen fs i then x :: passed i fs es else passed i fs es
  | fs, e :: es => passed i (flagsAfter fs e) es

/-- The items that come while the gate `i` is open. -/
def wanted (i : ℕ) : List Bool → List (FanEvent α) → List α
  | _, [] => []
  | fs, .offer x :: es => if fs[i]? = some true then x :: wanted i fs es else wanted i fs es
  | fs, e :: es => wanted i (flagsAfter fs e) es

namespace Gate

theorem flags_offer (x : α) (gs : List (Gate α)) : flags (offer x gs) = flags gs := by
  induction gs with
  | nil => rfl
  | cons g gs ih =>
    unfold offer
    split
    · show g.isOpen :: flags (offer x gs) = g.isOpen :: flags gs
      rw [ih]
    · rfl

theorem flags_step (gs : List (Gate α)) (e : FanEvent α) : flags (step gs e) = flagsAfter (flags gs) e := by
  cases e with
  | join =>
    show (gs ++ [(⟨false, []⟩ : Gate α)]).map Gate.isOpen = _
    rw [List.map_append]
    rfl
  | switch i isOpen =>
    apply List.ext_getElem?
    intro j
    show ((gs.modify i _).map Gate.isOpen)[j]? = ((gs.map Gate.isOpen).set i isOpen)[j]?
    rw [List.getElem?_map, List.getElem?_modify, List.getElem?_set, List.length_map, List.getElem?_map]
    by_cases hij : i = j
    · subst hij
      rw [if_pos rfl]
      by_cases hi : i < gs.length
      · rw [if_pos hi, List.getElem?_eq_getElem hi]
        simp
      · rw [if_neg hi, List.getElem?_eq_none (by omega)]
        rfl
    · rw [if_neg hij]
      cases gs[j]? <;> simp [hij]
  | offer x => exact flags_offer x gs

theorem takenAt_cons_zero (g : Gate α) (gs : List (Gate α)) : takenAt (g :: gs) 0 = g.taken := rfl

theorem takenAt_cons_succ (g : Gate α) (gs : List (Gate α)) (i : ℕ) : takenAt (g :: gs) (i + 1) = takenAt gs i := rfl

theorem allOpen_cons_zero {b : Bool} {fs : List Bool} : AllOpen (b :: fs) 0 ↔ b = true := by
  refine ⟨fun h => Option.some.inj (h 0 (Nat.le_refl 0)), fun hb j hj => ?_⟩
  rw [Nat.le_zero.mp hj, hb]
  rfl

theorem allOpen_cons_succ {b : Bool} {fs : List Bool} {i : ℕ} :
    AllOpen (b :: fs) (i + 1) ↔ b = true ∧ AllOpen fs i := by
  refine ⟨fun h => ⟨Option.some.inj (h 0 (Nat.zero_le _)), fun j hj => h (j + 1) (by omega)⟩, fun ⟨hb, h⟩ j hj => ?_⟩
  cases j with
  | zero => rw [hb]; rfl
  | succ j => exact h j (by omega)

/-- A round gives its item to the open gates before the first closed one. -/
theorem takenAt_offer (x : α) (gs : List (Gate α)) (i : ℕ) :
    takenAt (offer x gs) i = takenAt gs i ++ if AllOpen (flags gs) i then [x] else [] := by
  induction gs generalizing i with
  | nil =>
    have hnot : ¬ AllOpen (flags ([] : List (Gate α))) i := fun h => by simpa [flags] using h 0 (Nat.zero_le i)
    rw [if_neg hnot]
    rfl
  | cons g gs ih =>
    unfold offer
    show _ = takenAt (g :: gs) i ++ if AllOpen (g.isOpen :: flags gs) i then [x] else []
    cases hg : g.isOpen with
    | true =>
      rw [if_pos rfl]
      cases i with
      | zero => rw [if_pos (allOpen_cons_zero.mpr rfl), takenAt_cons_zero, takenAt_cons_zero]
      | succ i =>
        rw [takenAt_cons_succ, takenAt_cons_succ, ih i]
        simp only [allOpen_cons_succ, true_and]
    | false =>
      have hnot : ¬ AllOpen (false :: flags gs) i := fun h => by simpa using h 0 (Nat.zero_le i)
      rw [if_neg hnot, List.append_nil]
      rfl

theorem takenAt_switch (gs : List (Gate α)) (i j : ℕ) (isOpen : Bool) :
    takenAt (step gs (.switch j isOpen)) i = takenAt gs i := by
  unfold takenAt step
  rw [List.getElem?_modify]
  cases gs[i]? with
  | none => rfl
  | some g => by_cases hij : j = i <;> simp [hij]

theorem takenAt_join (gs : List (Gate α)) (i : ℕ) : takenAt (step gs .join) i = takenAt gs i := by
  show takenAt (gs ++ [⟨false, []⟩]) i = _
  unfold takenAt
  rcases lt_trichotomy i gs.length with hi | rfl | hi
  · rw [List.getElem?_append_left hi]
  · rw [List.getElem?_concat_length, List.getElem?_eq_none (Nat.le_refl _)]
    rfl
  · rw [List.getElem?_eq_none (by rw [List.length_append, List.length_singleton]; omega),
      List.getElem?_eq_none (by omega)]

/-- **The fan-out law.** In every run a gate takes the items that come while it and all before it are open, in order. -/
theorem takenAt_run (gs : List (Gate α)) (es : List (FanEvent α)) (i : ℕ) :
    takenAt (run gs es) i = takenAt gs i ++ passed i (flags gs) es := by
  induction es generalizing gs with
  | nil => exact (List.append_nil _).symm
  | cons e es ih =>
    show takenAt (run (step gs e) es) i = _
    rw [ih (step gs e), flags_step]
    cases e with
    | join => rw [takenAt_join]; rfl
    | switch j isOpen => rw [takenAt_switch]; rfl
    | offer x =>
      show takenAt (offer x gs) i ++ passed i (flags gs) es =
        takenAt gs i ++ if AllOpen (flags gs) i then x :: passed i (flags gs) es else passed i (flags gs) es
      rw [takenAt_offer, List.append_assoc]
      split <;> rfl

end Gate

/-! ## When no gate misses an item -/

/-- Every gate before an open one is open. -/
def OpenFirst (fs : List Bool) : Prop := ∀ i, fs[i]? = some true → AllOpen fs i

theorem passed_sublist (i : ℕ) (fs : List Bool) (es : List (FanEvent α)) : (passed i fs es).Sublist (wanted i fs es) := by
  induction es generalizing fs with
  | nil => exact List.Sublist.refl []
  | cons e es ih =>
    cases e with
    | join => exact ih _
    | switch j isOpen => exact ih _
    | offer x =>
      show List.Sublist (if AllOpen fs i then _ else _) (if fs[i]? = some true then _ else _)
      by_cases hall : AllOpen fs i
      · rw [if_pos hall, if_pos (hall i (Nat.le_refl i))]
        exact (ih fs).cons_cons x
      · rw [if_neg hall]
        split
        · exact (ih fs).cons x
        · exact ih fs

/-- A property of the flags holds whenever an item is offered. -/
def AtOffers (P : List Bool → Prop) (fs : List Bool) (es : List (FanEvent α)) : Prop :=
  ∀ before x after, es = before ++ .offer x :: after → P (before.foldl flagsAfter fs)

theorem atOffers_cons {P : List Bool → Prop} {fs : List Bool} {e : FanEvent α} {es : List (FanEvent α)} :
    AtOffers P fs (e :: es) ↔ (∀ x, e = .offer x → P fs) ∧ AtOffers P (flagsAfter fs e) es := by
  refine ⟨fun h => ⟨fun x hx => h [] x es (by rw [hx]; rfl), fun before x after hes => ?_⟩,
    fun ⟨hnow, h⟩ before x after hes => ?_⟩
  · exact h (e :: before) x after (by rw [hes]; rfl)
  · cases before with
    | nil =>
      rw [List.nil_append, List.cons.injEq] at hes
      exact hnow x hes.1
    | cons e' before =>
      rw [List.cons_append, List.cons.injEq] at hes
      obtain ⟨rfl, hes⟩ := hes
      exact h before x after hes

/-- **No gate misses an item** that comes while it is open exactly when, at each item, the open gates come first. -/
theorem passed_eq_wanted_iff (fs : List Bool) (es : List (FanEvent α)) :
    (∀ i, passed i fs es = wanted i fs es) ↔ AtOffers OpenFirst fs es := by
  induction es generalizing fs with
  | nil => exact ⟨fun _ before x after h => absurd h (by simp), fun _ i => rfl⟩
  | cons e es ih =>
    rw [atOffers_cons, ← ih]
    cases e with
    | join => exact ⟨fun h => ⟨fun x hx => (nomatch hx), h⟩, fun h => h.2⟩
    | switch j isOpen => exact ⟨fun h => ⟨fun x hx => (nomatch hx), h⟩, fun h => h.2⟩
    | offer x =>
      show (∀ i, (if AllOpen fs i then x :: passed i fs es else passed i fs es) =
        if fs[i]? = some true then x :: wanted i fs es else wanted i fs es) ↔ _
      refine ⟨fun h => ⟨fun _ _ i hi => ?_, fun i => ?_⟩, fun ⟨hfirst, h⟩ i => ?_⟩
      · -- an open gate that is passed over falls behind by an item for good
        by_contra hall
        have hlen := (passed_sublist i fs es).length_le
        have heq := congrArg List.length (h i)
        rw [if_neg hall, if_pos hi, List.length_cons] at heq
        omega
      · have heq := h i
        by_cases hall : AllOpen fs i
        · rw [if_pos hall, if_pos (hall i (Nat.le_refl i))] at heq
          exact List.tail_eq_of_cons_eq heq
        · rw [if_neg hall] at heq
          by_cases hi : fs[i]? = some true
          · have hlen := (passed_sublist i fs es).length_le
            rw [if_pos hi] at heq
            have hlen' := congrArg List.length heq
            rw [List.length_cons] at hlen'
            omega
          · rw [if_neg hi] at heq
            exact heq
      · have hiff : AllOpen fs i ↔ fs[i]? = some true := ⟨fun hall => hall i (Nat.le_refl i), hfirst x rfl i⟩
        have htail : passed i fs es = wanted i fs es := h i
        simp only [hiff, htail]

end Fanout

end Lib

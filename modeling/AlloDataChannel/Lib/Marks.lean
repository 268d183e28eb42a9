import AlloDataChannel.Lib.Lines

/-!
# Marks next to ASCII text

A printable ASCII scalar is a `Character` of its own unless a mark next to it joins it.

* `Marks` : the scalars that join the next one, and those that join the one in front of them; no ASCII scalar does;
* `mem_iff`, `mem_append_cons` : where such a `Character` is in a text, and in two texts with an ASCII scalar between;
* `characters_append` : the cut behind an ASCII text;
* `Within t` : `t` is cut out of a text between ASCII scalars; lines and tokens are;
* `Within.notMem` : such a cut makes no new `Character` of one ASCII scalar when it is a text of its own.
-/

namespace Lib

/-- An ASCII scalar. -/
def IsAscii (c : Char) : Prop := c.toNat ≤ 0x7f

instance (c : Char) : Decidable (IsAscii c) := inferInstanceAs (Decidable (_ ≤ _))

theorem Printable.isAscii {c : Char} (hc : Printable c) : IsAscii c := Nat.le_trans hc.2 (by decide)

/-- No mark joins what is between `u` and `v`. -/
structure Lone (prepends joins : Char → Bool) (u v : Scalars) : Prop where
  left : ∀ c, u.getLast? = some c → prepends c = false
  right : ∀ c, v.head? = some c → joins c = false

/-- The marks: some join the scalar behind them, as a prepended mark does, and some the one in front of them, as a
combining mark does. -/
structure Marks (S : Segmentation) where
  prepends : Char → Bool
  joins : Char → Bool
  ascii : ∀ c, IsAscii c → prepends c = false ∧ joins c = false
  alone : ∀ c, Printable c → ∀ u v,
    (∃ gs hs, S.characters (u ++ c :: v) = gs ++ [c] :: hs ∧ gs.flatten = u) ↔ Lone prepends joins u v

section Lone
variable {prepends joins : Char → Bool} {a u v b : Scalars}

theorem Lone.of_append (h : Lone prepends joins (a ++ u) (v ++ b)) : Lone prepends joins u v where
  left c hc := by
    apply h.left
    rw [List.getLast?_append, hc, Option.some_or]
  right c hc := by
    apply h.right
    rw [List.head?_append, hc, Option.some_or]

theorem Lone.append (h : Lone prepends joins u v) (ha : ∀ c, a.getLast? = some c → prepends c = false)
    (hb : ∀ c, b.head? = some c → joins c = false) : Lone prepends joins (a ++ u) (v ++ b) where
  left c hc := by
    rw [List.getLast?_append, Option.or_eq_some_iff] at hc
    rcases hc with hc | ⟨-, hc⟩
    · exact h.left c hc
    · exact ha c hc
  right c hc := by
    rw [List.head?_append, Option.or_eq_some_iff] at hc
    rcases hc with hc | ⟨-, hc⟩
    · exact h.right c hc
    · exact hb c hc

end Lone

/-- ASCII text has no marks. -/
def Marks.scalars : Marks .scalars where
  prepends _ := false
  joins _ := false
  ascii _ _ := ⟨rfl, rfl⟩
  alone c hc u v := by
    have hr : c ≠ '\r' := by
      rintro rfl
      exact absurd hc (by decide)
    have hn : ([c] : Character) ≠ ['\n'] := by
      rintro h
      rw [List.cons.injEq] at h
      obtain ⟨rfl, -⟩ := h
      exact absurd hc (by decide)
    have hcons : scalarCharacters (c :: v) = [c] :: scalarCharacters v := consCluster_of_ne hr _
    have hcut : scalarCharacters (u ++ c :: v) = scalarCharacters u ++ [c] :: scalarCharacters v := by
      rw [scalarCharacters, List.foldr_append, ← scalarCharacters, hcons]
      exact foldr_consCluster (Or.inr (by simpa using hn))
    refine ⟨fun _ => ⟨fun _ _ => rfl, fun _ _ => rfl⟩, fun _ => ⟨scalarCharacters u, scalarCharacters v, hcut, ?_⟩⟩
    exact Segmentation.scalars.flatten_characters u

namespace Marks
variable {S : Segmentation} {c : Char}

/-- Where `[c]` is cut out of a text. -/
theorem lone_of_cut (P : Marks S) (hc : Printable c) {s : Scalars} {gs hs : List Character}
    (h : S.characters s = gs ++ [c] :: hs) : Lone P.prepends P.joins gs.flatten hs.flatten := by
  have hflat := S.flatten_characters s
  rw [h, List.flatten_append, List.flatten_cons, List.singleton_append] at hflat
  refine (P.alone c hc _ _).mp ⟨gs, hs, ?_, rfl⟩
  rw [hflat, h]

theorem mem_iff (P : Marks S) (hc : Printable c) {s : Scalars} :
    [c] ∈ S.characters s ↔ ∃ u v, s = u ++ c :: v ∧ Lone P.prepends P.joins u v := by
  constructor
  · intro h
    obtain ⟨gs, hs, hcut⟩ := List.append_of_mem h
    have hflat := S.flatten_characters s
    rw [hcut, List.flatten_append, List.flatten_cons, List.singleton_append] at hflat
    exact ⟨gs.flatten, hs.flatten, hflat.symm, P.lone_of_cut hc hcut⟩
  · rintro ⟨u, v, rfl, h⟩
    obtain ⟨gs, hs, hcut, -⟩ := (P.alone c hc u v).mpr h
    rw [hcut]
    exact List.mem_append_right gs List.mem_cons_self

/-- Another ASCII scalar keeps the texts on its two sides apart. -/
theorem mem_append_cons (P : Marks S) (hc : Printable c) {x : Char} (hx : IsAscii x) (hne : x ≠ c) (s t : Scalars) :
    [c] ∈ S.characters (s ++ x :: t) ↔ [c] ∈ S.characters s ∨ [c] ∈ S.characters t := by
  rw [P.mem_iff hc, P.mem_iff hc, P.mem_iff hc]
  constructor
  · rintro ⟨u, v, hsplit, h⟩
    rcases List.append_eq_append_iff.mp hsplit with ⟨m, rfl, hm⟩ | ⟨m, rfl, hm⟩
    · cases m with
      | nil =>
        rw [List.nil_append, List.cons.injEq] at hm
        exact absurd hm.1 hne
      | cons y m =>
        rw [List.cons_append, List.cons.injEq] at hm
        obtain ⟨rfl, rfl⟩ := hm
        exact Or.inr ⟨m, v, rfl, Lone.of_append (a := s ++ [x]) (b := []) (by simpa using h)⟩
    · cases m with
      | nil =>
        rw [List.nil_append, List.cons.injEq] at hm
        exact absurd hm.1.symm hne
      | cons y m =>
        rw [List.cons_append, List.cons.injEq] at hm
        obtain ⟨rfl, rfl⟩ := hm
        exact Or.inl ⟨u, m, rfl, Lone.of_append (a := []) (b := x :: t) (by simpa using h)⟩
  · rintro (⟨u, v, rfl, h⟩ | ⟨u, v, rfl, h⟩)
    · refine ⟨u, v ++ x :: t, by simp, h.append (a := []) (by simp) fun d hd => ?_⟩
      rw [List.head?_cons, Option.some.injEq] at hd
      rw [← hd]
      exact (P.ascii x hx).2
    · refine ⟨(s ++ [x]) ++ u, v, by simp, ?_⟩
      have happend := h.append (a := s ++ [x]) (b := []) (fun d hd => ?_) (by simp)
      · rwa [List.append_nil] at happend
      · rw [List.getLast?_concat, Option.some.injEq] at hd
        rw [← hd]
        exact (P.ascii x hx).1

theorem characters_cons (P : Marks S) (hc : Printable c) {v : Scalars}
    (hv : ∀ d, v.head? = some d → P.joins d = false) : S.characters (c :: v) = [c] :: S.characters v := by
  obtain ⟨gs, hs, hcut, hgs⟩ := (P.alone c hc [] v).mpr ⟨by simp, hv⟩
  rw [List.nil_append] at hcut
  cases gs with
  | cons g gs =>
    rw [List.flatten_cons, List.append_eq_nil_iff] at hgs
    have hnil := S.nil_notMem (c :: v)
    rw [hcut, hgs.1] at hnil
    exact absurd List.mem_cons_self hnil
  | nil =>
    rcases S.ascii_cons c v hc with h | ⟨g, gs, hg, h⟩
    · exact h
    · -- the first cluster would be longer than `[c]`
      rw [hcut, List.nil_append, List.cons.injEq, List.cons.injEq] at h
      have hnil := S.nil_notMem v
      rw [hg, ← h.1.2] at hnil
      exact absurd List.mem_cons_self hnil

/-- The cut behind an ASCII text. -/
theorem characters_append (P : Marks S) {p v : Scalars} (hp : ∀ c ∈ p, Printable c)
    (hv : ∀ d, v.head? = some d → P.joins d = false) :
    S.characters (p ++ v) = p.map ([·]) ++ S.characters v := by
  induction p with
  | nil => rfl
  | cons c p ih =>
    have ih := ih fun d hd => hp d (List.mem_cons_of_mem c hd)
    rw [List.cons_append, P.characters_cons (hp c List.mem_cons_self), ih]
    · rfl
    · intro d hd
      cases p with
      | nil => exact hv d hd
      | cons e p =>
        rw [List.cons_append, List.head?_cons, Option.some.injEq] at hd
        rw [← hd]
        exact (P.ascii e (hp e (by simp)).isAscii).2

/-- A cut out of a text has no `Character` of one ASCII scalar that it would not have as a text of its own. -/
theorem notMem_of_cut (P : Marks S) (hc : Printable c) {s : Scalars} {before t after : List Character}
    (h : S.characters s = before ++ (t ++ after)) (hfree : [c] ∉ S.characters t.flatten) : [c] ∉ t := by
  intro hm
  obtain ⟨gs, hs, rfl⟩ := List.append_of_mem hm
  have hcut : S.characters s = (before ++ gs) ++ [c] :: (hs ++ after) := by
    rw [h]
    simp
  have hlone := P.lone_of_cut hc hcut
  rw [List.flatten_append, List.flatten_append] at hlone
  apply hfree
  rw [List.flatten_append, List.flatten_cons]
  exact (P.mem_iff hc).mpr ⟨_, _, rfl, hlone.of_append⟩

end Marks

/-! ## Cuts -/

/-- The element at a position within `t`, counted by scalars. -/
theorem mem_of_position {before t after gs hs : List Character} {g : Character} {u v : Scalars}
    (hnil : [] ∉ before ++ (t ++ after)) (h : before ++ (t ++ after) = gs ++ g :: hs)
    (hgs : gs.flatten = before.flatten ++ u) (ht : t.flatten = u ++ (g ++ v)) : g ∈ t := by
  have hg : g ≠ [] := by
    rintro rfl
    rw [h] at hnil
    exact hnil (List.mem_append_right gs List.mem_cons_self)
  rcases List.append_eq_append_iff.mp h with ⟨m, rfl, hm⟩ | ⟨m, rfl, hm⟩
  · rw [List.flatten_append, List.append_cancel_left_eq] at hgs
    rcases List.append_eq_append_iff.mp hm with ⟨n, rfl, -⟩ | ⟨n, rfl, hn⟩
    · -- `t` would end before its own element
      rw [List.flatten_append] at hgs
      have hlen := congrArg List.length ht
      rw [← hgs] at hlen
      have hpos := List.length_pos_of_ne_nil hg
      simp only [List.length_append] at hlen
      omega
    · cases n with
      | nil =>
        rw [List.append_nil, hgs] at ht
        have hlen := congrArg List.length ht
        have hpos := List.length_pos_of_ne_nil hg
        simp only [List.length_append] at hlen
        omega
      | cons x n =>
        rw [List.cons_append, List.cons.injEq] at hn
        obtain ⟨rfl, -⟩ := hn
        exact List.mem_append_right m List.mem_cons_self
  · -- what is in front of `t` reaches up to the element
    have hempty : m = [] ∧ u = [] := by
      rw [List.flatten_append] at hgs
      have hlen := congrArg List.length hgs
      simp only [List.length_append] at hlen
      have hm₀ : m.flatten = [] := List.eq_nil_of_length_eq_zero (by omega)
      refine ⟨?_, List.eq_nil_of_length_eq_zero (by omega)⟩
      rw [List.flatten_eq_nil_iff] at hm₀
      cases m with
      | nil => rfl
      | cons x m =>
        rw [hm₀ x List.mem_cons_self] at hnil
        exact absurd (by simp) hnil
    obtain ⟨rfl, rfl⟩ := hempty
    cases t with
    | nil =>
      have hlen := congrArg List.length ht
      have hpos := List.length_pos_of_ne_nil hg
      simp only [List.flatten_nil, List.length_nil, List.length_append] at hlen
      omega
    | cons x t =>
      rw [List.nil_append, List.cons_append, List.cons.injEq] at hm
      rw [hm.1]
      exact List.mem_cons_self

/-- `t` is cut out of a text, between ASCII scalars or its ends. -/
def Within (S : Segmentation) (t : List Character) : Prop :=
  ∃ s before after, S.characters s = before ++ (t ++ after) ∧ (∀ c, before.flatten.getLast? = some c → IsAscii c) ∧
    ∀ c, after.flatten.head? = some c → IsAscii c

namespace Within
variable {S : Segmentation} {g t : List Character}

theorem characters (S : Segmentation) (s : Scalars) : Within S (S.characters s) :=
  ⟨s, [], [], by simp, by simp, by simp⟩

/-- Behind an ASCII text. -/
theorem drop {p : Scalars} (hp : ∀ c ∈ p, IsAscii c) (hne : p ≠ []) (h : Within S (p.map ([·]) ++ g)) :
    Within S g := by
  obtain ⟨s, before, after, hcut, -, hafter⟩ := h
  refine ⟨s, before ++ p.map ([·]), after, ?_, fun c hc => ?_, hafter⟩
  · rw [hcut, List.append_assoc, List.append_assoc]
  · have hflat : (p.map ([·])).flatten = p := by
      rw [← List.flatMap_def, List.flatMap_singleton']
    rw [List.flatten_append, hflat, List.getLast?_append_of_ne_nil _ hne] at hc
    exact hp c (List.mem_of_getLast? hc)

theorem split {x : Char} (hx : IsAscii x) (h : Within S g) (ht : t ∈ Segmentation.split [x] g) : Within S t := by
  obtain ⟨s, before, after, hcut, hbefore, hafter⟩ := h
  obtain ⟨-, -, a, b, rfl, ha, hb⟩ := (Segmentation.spaced_split [x] g).mem ht
  refine ⟨s, before ++ a, b ++ after, ?_, fun c hc => ?_, fun c hc => ?_⟩
  · rw [hcut, List.append_assoc, List.append_assoc, List.append_assoc]
  · rcases ha with rfl | ⟨a, rfl⟩
    · rw [List.append_nil] at hc
      exact hbefore c hc
    · rw [← List.append_assoc, List.flatten_append, List.flatten_singleton, List.getLast?_concat,
        Option.some.injEq] at hc
      rwa [← hc]
  · rcases hb with rfl | ⟨b, rfl⟩
    · exact hafter c hc
    · rw [List.cons_append, List.flatten_cons, List.singleton_append, List.head?_cons, Option.some.injEq] at hc
      rwa [← hc]

/-- **A cut makes no new character** of one ASCII scalar. -/
theorem notMem (P : Marks S) {c : Char} (hc : Printable c) (h : Within S t) (hfree : [c] ∉ t) :
    [c] ∉ S.characters t.flatten := by
  obtain ⟨s, before, after, hcut, hbefore, hafter⟩ := h
  intro hmem
  obtain ⟨u, v, ht, hlone⟩ := (P.mem_iff hc).mp hmem
  -- `c` stands alone in the whole text
  have hwhole := hlone.append (a := before.flatten) (b := after.flatten) (fun d hd => (P.ascii d (hbefore d hd)).1)
    fun d hd => (P.ascii d (hafter d hd)).2
  obtain ⟨gs, hs, hpos, hgs⟩ := (P.alone c hc _ _).mpr hwhole
  have hs' : s = (before.flatten ++ u) ++ c :: (v ++ after.flatten) := by
    rw [← S.flatten_characters s, hcut, List.flatten_append, List.flatten_append, ht]
    simp
  rw [← hs', hcut] at hpos
  have hnil : [] ∉ before ++ (t ++ after) := by
    rw [← hcut]
    exact S.nil_notMem s
  exact hfree (mem_of_position hnil hpos hgs ht)

end Within

end Lib

import AlloDataChannel.Types
import Mathlib.Data.Finset.Insert

/-!
# The two allocators of a peer

`PayloadTypeAllocator.payloadType` hands out 97, 98, … up to 127, one for each format; `SsrcAllocator.next` draws
random SSRCs until one is unused.

* `Key.Same` : `==` of two keys; `PayloadTypeAllocator.find` : the lookup by it;
* `payloadType_eq_ok` : the two ways a call returns, a known key and a new one;
* `next_eq_some` : what a draw that ends the loop is, and what it leaves in `used`;
* `exists_next` : the loop ends when the draws contain an unused value.
-/

namespace AlloDataChannel
open Lib (Scalars Segmentation)

/-! ## Payload types -/

structure PayloadTypeAllocator.Key where
  codec : Codec
  profile : Option Scalars
  clock : Int
  channels : Int
  deriving DecidableEq, Repr

namespace PayloadTypeAllocator.Key

/-- The synthesized `==`, which compares the fields; profiles are compared as strings are. -/
def Same (S : Segmentation) (k k' : Key) : Prop :=
  k.codec = k'.codec ∧ k.profile.map S.canonical = k'.profile.map S.canonical ∧ k.clock = k'.clock ∧
    k.channels = k'.channels

instance (S : Segmentation) (k k' : Key) : Decidable (k.Same S k') := inferInstanceAs (Decidable (_ ∧ _))

/-- The key with the canonical form of its profile, which stands for all keys that are `==` to it. -/
def canonical (S : Segmentation) (k : Key) : Key := { k with profile := k.profile.map S.canonical }

variable {S : Segmentation} {k k' : Key}

theorem same_iff : k.Same S k' ↔ k.canonical S = k'.canonical S := by
  unfold Same canonical
  rw [mk.injEq]

theorem same_refl (S : Segmentation) (k : Key) : k.Same S k := ⟨rfl, rfl, rfl, rfl⟩

end PayloadTypeAllocator.Key

structure PayloadTypeAllocator where
  next : Int := 96
  map : List (PayloadTypeAllocator.Key × Int) := []
  deriving DecidableEq, Repr

namespace PayloadTypeAllocator

/-- `map[key]`. -/
def find (S : Segmentation) (a : PayloadTypeAllocator) (key : Key) : Option Int :=
  (a.map.find? fun e => decide (e.1.Same S key)).map Prod.snd

/-- The payload type of a format, with the allocator after the call. A call that throws changes nothing. -/
def payloadType (S : Segmentation) (a : PayloadTypeAllocator) (key : Key) :
    Except Thrown (Int × PayloadTypeAllocator) :=
  match a.find S key with
  | some pt => .ok (pt, a)
  | none =>
    if a.next < 127 then .ok (a.next + 1, { next := a.next + 1, map := (key, a.next + 1) :: a.map })
    else .error .exhausted

variable {S : Segmentation} {a b : PayloadTypeAllocator} {key : Key} {pt : Int}

theorem find_cons_of_same {next : Int} {e : Key × Int} {es : List (Key × Int)} (h : e.1.Same S key) :
    find S ⟨next, e :: es⟩ key = some e.2 := by
  simp [find, h]

theorem find_cons_of_not_same {next : Int} {e : Key × Int} (h : ¬ e.1.Same S key) :
    find S ⟨next, e :: a.map⟩ key = find S a key := by
  simp [find, h]

theorem payloadType_eq_ok : a.payloadType S key = .ok (pt, b) ↔
      a.find S key = some pt ∧ b = a ∨
      a.find S key = none ∧ a.next < 127 ∧ pt = a.next + 1 ∧
        b = { next := a.next + 1, map := (key, a.next + 1) :: a.map } := by
  unfold payloadType
  cases h : a.find S key with
  | some p => simp [eq_comm]
  | none =>
    by_cases hlt : a.next < 127
    · simp [hlt, eq_comm]
    · simp [hlt]

end PayloadTypeAllocator

/-- Some format gets a payload type: a new one below 127, a known one from there on. -/
def PayloadTypeAllocator.Serving (a : PayloadTypeAllocator) : Prop := a.next < 127 ∨ a.map ≠ []

theorem PayloadTypeAllocator.Serving.payloadType {a b : PayloadTypeAllocator} {key : Key} {pt : Int}
    (h : a.Serving) {S : Segmentation} (hp : a.payloadType S key = .ok (pt, b)) : b.Serving := by
  rcases payloadType_eq_ok.mp hp with ⟨-, rfl⟩ | ⟨-, -, -, rfl⟩
  · exact h
  · exact Or.inr (List.cons_ne_nil _ _)

theorem PayloadTypeAllocator.Serving.exists_key {a : PayloadTypeAllocator} (h : a.Serving) (S : Segmentation) :
    ∃ key pt b, a.payloadType S key = .ok (pt, b) := by
  cases hm : a.map with
  | nil =>
    have hlt : a.next < 127 := h.resolve_right fun hne => hne hm
    refine ⟨⟨.OPUS, none, 48000, 1⟩, _, _, payloadType_eq_ok.mpr (Or.inr ⟨?_, hlt, rfl, rfl⟩)⟩
    unfold find
    rw [hm]
    rfl
  | cons e es =>
    refine ⟨e.1, e.2, a, payloadType_eq_ok.mpr (Or.inl ⟨?_, rfl⟩)⟩
    have hfind : find S ⟨a.next, e :: es⟩ e.1 = some e.2 := find_cons_of_same (Key.same_refl S e.1)
    rw [← hm] at hfind
    exact hfind

/-! ## SSRCs -/

/-- A value of `UInt32.random(in: 1...UInt32.max)`. -/
abbrev Draw := { x : UInt32 // x ≠ 0 }

structure SsrcAllocator where
  used : Finset UInt32 := ∅

namespace SsrcAllocator

def reserve (a : SsrcAllocator) (ssrc : UInt32) : SsrcAllocator := { used := insert ssrc a.used }

/-- The loop of `next()` on the values drawn; `none` while no drawn value is unused. -/
def next (a : SsrcAllocator) : List Draw → Option (UInt32 × SsrcAllocator)
  | [] => none
  | candidate :: draws =>
    if candidate.val ∈ a.used then next a draws
    else some (candidate.val, { used := insert candidate.val a.used })

/-- The SSRC of a new track: the one asked for, which is reserved, or a drawn one. -/
def actualSsrc (a : SsrcAllocator) (ssrc : Option UInt32) (draws : List Draw) : Option (UInt32 × SsrcAllocator) :=
  match ssrc with
  | some ssrc => some (ssrc, a.reserve ssrc)
  | none => a.next draws

/-- `for ssrc in track.ssrcs { sa.reserve(ssrc) }`. -/
def reserveAll (a : SsrcAllocator) (ssrcs : List UInt32) : SsrcAllocator := ssrcs.foldl reserve a

@[simp] theorem mem_reserve {a : SsrcAllocator} {ssrc x : UInt32} :
    x ∈ (a.reserve ssrc).used ↔ x = ssrc ∨ x ∈ a.used := Finset.mem_insert

@[simp] theorem mem_reserveAll {a : SsrcAllocator} {ssrcs : List UInt32} {x : UInt32} :
    x ∈ (a.reserveAll ssrcs).used ↔ x ∈ ssrcs ∨ x ∈ a.used := by
  induction ssrcs generalizing a with
  | nil => simp [reserveAll]
  | cons s ss ih =>
    have h := ih (a := a.reserve s)
    rw [reserveAll, List.foldl_cons, ← reserveAll, h, mem_reserve, List.mem_cons]
    tauto

/-- The value that ends the loop is unused and not zero, and is used from then on. -/
theorem next_eq_some {a b : SsrcAllocator} {draws : List Draw} {x : UInt32} (h : a.next draws = some (x, b)) :
    x ≠ 0 ∧ x ∉ a.used ∧ b.used = insert x a.used := by
  induction draws with
  | nil => cases h
  | cons d ds ih =>
    rw [next] at h
    split at h
    · exact ih h
    · next hd =>
      rw [Option.some.injEq, Prod.mk.injEq] at h
      obtain ⟨rfl, rfl⟩ := h
      exact ⟨d.property, hd, rfl⟩

/-- The loop ends once a drawn value is unused. -/
theorem exists_next {a : SsrcAllocator} {draws : List Draw} (h : ∃ d ∈ draws, d.val ∉ a.used) :
    ∃ x b, a.next draws = some (x, b) := by
  induction draws with
  | nil => simp at h
  | cons d ds ih =>
    rw [next]
    split
    · next hd =>
      obtain ⟨e, he, hu⟩ := h
      rcases List.mem_cons.mp he with rfl | he
      · exact absurd hd hu
      · exact ih ⟨e, he, hu⟩
    · exact ⟨_, _, rfl⟩

theorem actualSsrc_used {a b : SsrcAllocator} {ssrc : Option UInt32} {draws : List Draw} {x : UInt32}
    (h : a.actualSsrc ssrc draws = some (x, b)) : b.used = insert x a.used := by
  cases ssrc with
  | some s =>
    unfold actualSsrc at h
    rw [Option.some.injEq, Prod.mk.injEq] at h
    obtain ⟨rfl, rfl⟩ := h
    rfl
  | none => exact (next_eq_some h).2.2

theorem next_singleton {a : SsrcAllocator} {d : Draw} (h : d.val ∉ a.used) :
    a.next [d] = some (d.val, { used := insert d.val a.used }) := if_neg h

end SsrcAllocator

end AlloDataChannel

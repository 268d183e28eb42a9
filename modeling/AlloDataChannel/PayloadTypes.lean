import AlloDataChannel.Alloc
import AlloDataChannel.Lib.Numbering
import AlloDataChannel.Rtp
import Mathlib.Data.Finset.Card

/-!
# Payload types over whole runs

The allocator numbers the formats in the order of their first calls, from 97 on, and has room for 31 of them.

* `PayloadTypeAllocator.call` : one call, with the allocator that it leaves also when it throws;
* `Numbers` : the allocator is a numbering of at most 31 formats;
* `Numbers.calls` : along a run it stays one, and the last numbering explains every answer;
* `payload_type_law` : what that means for the answers.
-/

namespace AlloDataChannel
open Lib (Numbering Segmentation)

namespace PayloadTypeAllocator

/-- `payloadType(for:)`, with the allocator also after a call that throws. -/
def call (S : Segmentation) (a : PayloadTypeAllocator) (key : Key) : Except Thrown Int × PayloadTypeAllocator :=
  match a.payloadType S key with
  | .ok (pt, b) => (.ok pt, b)
  | .error e => (.error e, a)

/-- Calls one after the other, with their answers. -/
def calls (S : Segmentation) (a : PayloadTypeAllocator) :
    List Key → List (Except Thrown Int) × PayloadTypeAllocator
  | [] => ([], a)
  | key :: keys =>
    ((a.call S key).1 :: ((a.call S key).2.calls S keys).1, ((a.call S key).2.calls S keys).2)

variable {S : Segmentation} {a : PayloadTypeAllocator} {key : Key}

theorem call_of_find {pt : Int} (h : a.find S key = some pt) : a.call S key = (.ok pt, a) := by
  unfold call payloadType
  rw [h]

theorem call_of_new (h : a.find S key = none) (hlt : a.next < 127) : a.call S key =
    (.ok (a.next + 1), { next := a.next + 1, map := (key, a.next + 1) :: a.map }) := by
  unfold call payloadType
  rw [h]
  dsimp only
  rw [if_pos hlt]

theorem call_of_exhausted (h : a.find S key = none) (hlt : ¬ a.next < 127) :
    a.call S key = (.error .exhausted, a) := by
  unfold call payloadType
  rw [h]
  dsimp only
  rw [if_neg hlt]

end PayloadTypeAllocator

/-- The formats that there are payload types for, by their canonical keys. -/
abbrev Formats := Numbering PayloadTypeAllocator.Key 31

/-- The answer to a call for `key`, once the formats are numbered. -/
def answer (S : Segmentation) (n : Formats) (key : PayloadTypeAllocator.Key) : Except Thrown Int :=
  match n.number (key.canonical S) with
  | some i => .ok (97 + i)
  | none => .error .exhausted

/-- The allocator holds the formats of `n`, numbered from 97 on. -/
structure Numbers (S : Segmentation) (n : Formats) (a : PayloadTypeAllocator) : Prop where
  next : a.next = 96 + n.keys.length
  find : ∀ key, a.find S key = (n.number (key.canonical S)).map fun i : Nat => (97 + i : Int)

namespace Numbers
open PayloadTypeAllocator
variable {S : Segmentation} {n : Formats} {a : PayloadTypeAllocator}

theorem start : Numbers S .empty {} := ⟨rfl, fun _ => rfl⟩

/-- One call is one request. -/
theorem call (h : Numbers S n a) (key : Key) : Numbers S (n.request (key.canonical S)) (a.call S key).2 ∧
    (a.call S key).1 = answer S (n.request (key.canonical S)) key := by
  have hfind := h.find key
  have hnext := h.next
  by_cases hk : key.canonical S ∈ n.keys
  · rw [Numbering.number_of_mem hk, Option.map_some] at hfind
    rw [Numbering.request_of_mem hk, call_of_find hfind]
    unfold answer
    rw [Numbering.number_of_mem hk]
    exact ⟨h, rfl⟩
  · rw [Numbering.number_eq_none.mpr hk, Option.map_none] at hfind
    by_cases hroom : n.keys.length < 31
    · have hlt : a.next < 127 := by omega
      have hkeys := Numbering.request_of_room hk hroom
      have hnew : (n.request (key.canonical S)).number (key.canonical S) = some n.keys.length := by
        rw [Numbering.number_of_mem (by rw [hkeys]; simp), hkeys, List.idxOf_append_of_notMem hk]
        simp
      rw [call_of_new hfind hlt]
      refine ⟨⟨?_, fun l => ?_⟩, ?_⟩
      · rw [hkeys, List.length_append, List.length_singleton]
        push_cast
        omega
      · by_cases hl : key.Same S l
        · rw [find_cons_of_same hl, ← Key.same_iff.mp hl, hnew, Option.map_some, hnext]
          congr 1
          omega
        · have hne : l.canonical S ≠ key.canonical S := fun he => hl (Key.same_iff.mpr he.symm)
          rw [find_cons_of_not_same hl]
          have hl' := h.find l
          rw [hl']
          by_cases hm : l.canonical S ∈ n.keys
          · rw [Numbering.number_of_extended (Numbering.keys_request n (key.canonical S)) hm]
          · have hm' : l.canonical S ∉ (n.request (key.canonical S)).keys := by
              rw [hkeys]
              simp [hm, hne]
            rw [Numbering.number_eq_none.mpr hm, Numbering.number_eq_none.mpr hm']
      · unfold answer
        rw [hnew, hnext]
        show Except.ok _ = Except.ok _
        congr 1
        omega
    · have hfull : n.keys.length = 31 := by
        have := n.length_le
        omega
      rw [Numbering.request_of_full hfull, call_of_exhausted hfind (by omega)]
      refine ⟨h, ?_⟩
      unfold answer
      rw [Numbering.number_eq_none.mpr hk]

/-- A run of calls is a run of requests, and the numbering at its end explains every answer. -/
theorem calls (h : Numbers S n a) (keys : List Key) :
    Numbers S (n.requests (keys.map (Key.canonical S))) (a.calls S keys).2 ∧
      (a.calls S keys).1 = keys.map (answer S (n.requests (keys.map (Key.canonical S)))) := by
  induction keys generalizing n a with
  | nil => exact ⟨h, rfl⟩
  | cons key keys ih =>
    obtain ⟨hstep, hanswer⟩ := h.call key
    obtain ⟨hrest, hanswers⟩ := ih hstep
    refine ⟨hrest, ?_⟩
    show (a.call S key).1 :: ((a.call S key).2.calls S keys).1 = _
    rw [hanswer, hanswers, List.map_cons]
    congr 1
    unfold answer
    rw [List.map_cons, show n.requests (key.canonical S :: keys.map (Key.canonical S)) =
      (n.request (key.canonical S)).requests (keys.map (Key.canonical S)) from rfl, Numbering.number_requests]

end Numbers

/-! ## The answers -/

section Law
open PayloadTypeAllocator

/-- The formats that hold a payload type after the calls, by their canonical keys. -/
def holding (S : Segmentation) (keys : List Key) : Finset Key :=
  (((keys.zip (calls S {} keys).1).filter fun q => q.2 matches .ok _).map fun q => q.1.canonical S).toFinset

/-- The calls `keys` on a fresh allocator. -/
structure PayloadTypeLaw (S : Segmentation) (keys : List Key) : Prop where
  /-- Calls for one format have one answer: a payload type at its first call is its payload type for good. -/
  same : ∀ (i j : Nat) (key key' : Key), keys[i]? = some key → keys[j]? = some key' → key.Same S key' →
    (calls S {} keys).1[i]? = (calls S {} keys).1[j]?
  different : ∀ (i j : Nat) (key key' : Key) (pt pt' : Int), keys[i]? = some key → keys[j]? = some key' →
    (calls S {} keys).1[i]? = some (.ok pt) → (calls S {} keys).1[j]? = some (.ok pt') →
    ¬ key.Same S key' → pt ≠ pt'
  range : ∀ pt, .ok pt ∈ (calls S {} keys).1 → 97 ≤ pt ∧ pt ≤ 127
  /-- A payload type is a byte that a rewritten header has in its seven bits. -/
  lossless : ∀ pt, .ok pt ∈ (calls S {} keys).1 → ∃ b : UInt8, (b.toNat : Int) = pt ∧
    ∀ R ssrc message, 12 ≤ message.length → HasIdentity ssrc b message (rewritten R ssrc b message)
  noGap : ∀ pt, .ok pt ∈ (calls S {} keys).1 ↔ 97 ≤ pt ∧ pt ≤ (calls S {} keys).2.next
  exhausted : ∀ key, ((calls S {} keys).2.call S key).1 = .error .exhausted ↔
    key.canonical S ∉ holding S keys ∧ (holding S keys).card = 31
  unchanged : ∀ key e, ((calls S {} keys).2.call S key).1 = .error e →
    e = .exhausted ∧ ((calls S {} keys).2.call S key).2 = (calls S {} keys).2

variable {S : Segmentation}

theorem answer_eq_ok {n : Formats} {key : Key} {pt : Int} (h : answer S n key = .ok pt) :
    ∃ i, n.number (key.canonical S) = some i ∧ pt = 97 + i := by
  unfold answer at h
  cases hn : n.number (key.canonical S) with
  | none =>
    rw [hn] at h
    cases h
  | some i =>
    rw [hn] at h
    cases h
    exact ⟨i, rfl, rfl⟩

theorem answer_of_number {n : Formats} {key : Key} {i : Nat} (h : n.number (key.canonical S) = some i) :
    answer S n key = .ok (97 + (i : Int)) := by
  unfold answer
  rw [h]

theorem answer_eq_exhausted {n : Formats} {key : Key} :
    answer S n key = .error .exhausted ↔ key.canonical S ∉ n.keys := by
  rw [← Numbering.number_eq_none]
  unfold answer
  cases n.number (key.canonical S) <;> simp

/-- The numbering that the calls leave. -/
def formats (S : Segmentation) (keys : List Key) : Formats :=
  (Numbering.empty : Formats).requests (keys.map (Key.canonical S))

/-- A format in the numbering has been asked for. -/
theorem exists_of_mem_formats {keys : List Key} {k : Key} (h : k ∈ (formats S keys).keys) :
    ∃ key ∈ keys, key.canonical S = k :=
  List.mem_map.mp ((Numbering.mem_of_mem_requests _ h).resolve_left List.not_mem_nil)

theorem mem_zip_map {α β : Type*} {f : α → β} {xs : List α} {x : α} {y : β} :
    (x, y) ∈ xs.zip (xs.map f) ↔ x ∈ xs ∧ y = f x := by
  induction xs with
  | nil => simp
  | cons z xs ih =>
    rw [List.map_cons, List.zip_cons_cons, List.mem_cons, ih, Prod.mk.injEq, List.mem_cons]
    constructor
    · rintro (⟨rfl, rfl⟩ | ⟨hx, rfl⟩)
      · exact ⟨Or.inl rfl, rfl⟩
      · exact ⟨Or.inr hx, rfl⟩
    · rintro ⟨rfl | hx, rfl⟩
      · exact Or.inl ⟨rfl, rfl⟩
      · exact Or.inr ⟨hx, rfl⟩

theorem mem_holding {keys : List Key} {k : Key} : k ∈ holding S keys ↔ k ∈ (formats S keys).keys := by
  obtain ⟨-, hanswers⟩ := Numbers.start.calls (S := S) keys
  unfold holding
  rw [List.mem_toFinset, hanswers, List.mem_map]
  constructor
  · rintro ⟨⟨key, r⟩, hm, rfl⟩
    obtain ⟨hm, hok⟩ := List.mem_filter.mp hm
    obtain ⟨-, rfl⟩ := mem_zip_map.mp hm
    by_contra hk
    have hans : answer S (formats S keys) key = .error .exhausted := answer_eq_exhausted.mpr hk
    change (match answer S (formats S keys) key with | .ok _ => true | _ => false) = true at hok
    rw [hans] at hok
    exact absurd hok Bool.false_ne_true
  · intro hk
    obtain ⟨key, hkey, rfl⟩ := exists_of_mem_formats hk
    have hans := answer_of_number (Numbering.number_of_mem hk)
    exact ⟨(key, _), List.mem_filter.mpr ⟨mem_zip_map.mpr ⟨hkey, hans.symm⟩, rfl⟩, rfl⟩

theorem card_holding (S : Segmentation) (keys : List Key) :
    (holding S keys).card = (formats S keys).keys.length := by
  have hset : holding S keys = (formats S keys).keys.toFinset := by
    ext key
    rw [mem_holding, List.mem_toFinset]
  rw [hset, List.toFinset_card_of_nodup (Numbering.nodup _)]

/-- **Payload types.** The law holds for every sequence of calls on a fresh allocator. -/
theorem payload_type_law (S : Segmentation) (keys : List Key) : PayloadTypeLaw S keys := by
  obtain ⟨hnum, hanswers⟩ : Numbers S (formats S keys) (calls S {} keys).2 ∧
    (calls S {} keys).1 = keys.map (answer S (formats S keys)) := Numbers.start.calls keys
  have hget : ∀ (i : Nat) (key : Key), keys[i]? = some key →
      (calls S {} keys).1[i]? = some (answer S (formats S keys) key) := by
    intro i key h
    rw [hanswers, List.getElem?_map, h, Option.map_some]
  have hok : ∀ pt : Int, .ok pt ∈ (calls S {} keys).1 →
      ∃ i : Nat, i < (formats S keys).keys.length ∧ pt = 97 + i := by
    intro pt h
    rw [hanswers] at h
    obtain ⟨key, -, hkey⟩ := List.mem_map.mp h
    obtain ⟨i, hi, rfl⟩ := answer_eq_ok hkey
    exact ⟨i, Numbering.number_lt hi, rfl⟩
  have hrange : ∀ pt : Int, .ok pt ∈ (calls S {} keys).1 → 97 ≤ pt ∧ pt ≤ 127 := by
    intro pt h
    obtain ⟨i, hi, rfl⟩ := hok pt h
    have := (formats S keys).length_le
    omega
  refine ⟨fun i j key key' hi hj hsame => ?_, fun i j key key' pt pt' hi hj hpt hpt' hne heq => ?_, hrange,
    fun pt h => ?_, fun pt => ⟨fun h => ?_, fun h => ?_⟩, fun key => ?_, fun key e h => ?_⟩
  · rw [hget i key hi, hget j key' hj]
    unfold answer
    rw [Key.same_iff.mp hsame]
  · rw [hget i key hi, Option.some.injEq] at hpt
    rw [hget j key' hj, Option.some.injEq] at hpt'
    obtain ⟨k, hk, rfl⟩ := answer_eq_ok hpt
    obtain ⟨k', hk', rfl⟩ := answer_eq_ok hpt'
    have hsame : k = k' := by omega
    subst hsame
    exact hne (Key.same_iff.mpr (Numbering.number_injective hk hk'))
  · obtain ⟨hlow, hhigh⟩ := hrange pt h
    have hnat : (UInt8.ofNat pt.toNat).toNat = pt.toNat := by
      rw [UInt8.toNat_ofNat']
      omega
    refine ⟨UInt8.ofNat pt.toNat, by omega, fun R ssrc message hlen => hasIdentity_iff.mpr ⟨hlen, ?_⟩⟩
    show (UInt8.ofNat pt.toNat).toNat < 128
    omega
  · obtain ⟨i, hi, rfl⟩ := hok pt h
    rw [hnum.next]
    omega
  · have hnext := hnum.next
    have hlt : (pt - 97).toNat < (formats S keys).keys.length := by omega
    obtain ⟨k, hk⟩ := Numbering.exists_number hlt
    obtain ⟨key, hkey, rfl⟩ := exists_of_mem_formats (Numbering.mem_of_number hk)
    rw [hanswers, List.mem_map]
    refine ⟨key, hkey, ?_⟩
    rw [answer_of_number hk]
    congr 1
    omega
  · rw [mem_holding, card_holding, (hnum.call key).2, answer_eq_exhausted]
    constructor
    · intro h
      exact (Numbering.full_of_number_request (Numbering.number_eq_none.mpr h)).symm
    · rintro ⟨hk, hfull⟩
      rw [Numbering.request_of_full hfull]
      exact hk
  · cases hf : (calls S {} keys).2.find S key with
    | some pt =>
      rw [call_of_find hf] at h
      cases h
    | none =>
      by_cases hlt : (calls S {} keys).2.next < 127
      · rw [call_of_new hf hlt] at h
        cases h
      · rw [call_of_exhausted hf hlt] at h ⊢
        cases h
        exact ⟨rfl, rfl⟩

/-- One cut and one canonical form more: an `e` and an acute accent make the letter with the accent. -/
def accented : Segmentation :=
  { Segmentation.scalars with
    canonical := fun s => if s = ['e', Char.ofNat 0x301] then [Char.ofNat 0xe9] else s
    canonical_ascii := by
      intro s hs
      refine if_neg fun he => ?_
      have haccent : Lib.Printable (Char.ofNat 0x301) := hs _ (by rw [he]; simp)
      exact absurd haccent (by decide) }

/-- The two spellings of a profile are one format. -/
example : (calls accented {} [⟨.H264, some [Char.ofNat 0xe9], 90000, 0⟩,
    ⟨.H264, some ['e', Char.ofNat 0x301], 90000, 0⟩]).1 = [.ok 97, .ok 97] := by decide

end Law

end AlloDataChannel

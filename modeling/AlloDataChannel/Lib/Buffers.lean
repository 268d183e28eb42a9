import AlloDataChannel.Lib.Text

/-!
# Buffers with a scope

A buffer can be read through its pointer while the call that was given the pointer runs.

* `Memory` : the buffers that can be read; `pin` and `unpin` one;
* `Placement.withUnsafeBufferPointer` : a call with the pointer of a buffer; it is unpinned whatever the call returns;
* `Pinned` : several buffers that stand at the same time; `pinned_pinAll`, `unpinAll_pinAll`;
* `readString` : what C reads at a pointer; `readString_of_utf8CString` : the text up to its first NUL.
-/

namespace Lib

/-- The buffers that can be read, with their addresses, the last one in front. -/
structure Memory where
  live : List (Nat × List UInt8) := []
  deriving DecidableEq, Repr

namespace Memory

def bytes (m : Memory) (p : Nat) : Option (List UInt8) := (m.live.find? fun b => b.1 = p).map Prod.snd

def pin (m : Memory) (p : Nat) (buf : List UInt8) : Memory := ⟨(p, buf) :: m.live⟩

def unpin (m : Memory) (p : Nat) : Memory := ⟨m.live.eraseP fun b => b.1 = p⟩

/-- The bytes up to the first NUL. `none` is a read where there is no buffer, or beyond the end of one. -/
def readCString (m : Memory) (p : Nat) : Option (List UInt8) :=
  (m.bytes p).bind fun b => if 0 ∈ b then some (b.takeWhile (· ≠ 0)) else none

/-- The same as UTF-8. -/
def readString (m : Memory) (p : Nat) : Option Scalars :=
  (m.readCString p).bind fun b => b.toByteArray.utf8Decode?.map Array.toList

variable {m : Memory} {p q : Nat} {buf : List UInt8}

theorem readString_of_bytes_none (h : m.bytes p = none) : m.readString p = none := by
  unfold readString readCString
  rw [h]
  rfl

@[simp] theorem unpin_pin (m : Memory) (p : Nat) (buf : List UInt8) : (m.pin p buf).unpin p = m := by
  simp [pin, unpin]

@[simp] theorem bytes_pin_self (m : Memory) (p : Nat) (buf : List UInt8) : (m.pin p buf).bytes p = some buf := by
  simp [pin, bytes]

theorem bytes_pin_of_ne (m : Memory) (buf : List UInt8) (h : q ≠ p) : (m.pin p buf).bytes q = m.bytes q := by
  unfold bytes pin
  rw [List.find?_cons_of_neg (by simpa using h.symm)]

theorem bytes_pin_eq_none (h : (m.pin p buf).bytes q = none) : q ≠ p ∧ m.bytes q = none := by
  have hne : q ≠ p := by
    rintro rfl
    rw [bytes_pin_self] at h
    cases h
  rw [bytes_pin_of_ne m buf hne] at h
  exact ⟨hne, h⟩

end Memory

/-! ## Scoped calls -/

/-- What reads memory and works on a state. `none` is a trap. -/
abbrev Scoped (σ α : Type*) := σ → Memory → Option (α × σ × Memory)

/-- Where the next buffer stands. -/
structure Placement where
  address : Memory → Nat
  fresh : ∀ m : Memory, m.bytes (address m) = none

/-- Above all addresses in use. -/
def Placement.above : Placement where
  address m := (m.live.map Prod.fst).foldr max 0 + 1
  fresh m := by
    have hle : ∀ (ps : List Nat), ∀ p ∈ ps, p ≤ ps.foldr max 0 := by
      intro ps
      induction ps with
      | nil =>
        intro p hp
        exact absurd hp List.not_mem_nil
      | cons q ps ih =>
        intro p hp
        rw [List.foldr_cons]
        rcases List.mem_cons.mp hp with rfl | hp
        · exact le_max_left _ _
        · exact le_max_of_le_right (ih p hp)
    unfold Memory.bytes
    rw [Option.map_eq_none_iff, List.find?_eq_none]
    intro b hb he
    have hb' := hle _ _ (List.mem_map_of_mem (f := Prod.fst) hb)
    rw [of_decide_eq_true he] at hb'
    omega

/-- All buffers from the last one on are unpinned. -/
def Memory.unpinAll (m : Memory) (ps : List Nat) : Memory := ps.foldr (fun p m => m.unpin p) m

namespace Placement
variable {σ α : Type*} (A : Placement)

/-- A call with the pointer of a buffer. An empty buffer may have none. -/
def withUnsafeBufferPointer (buf : List UInt8) (body : Option Nat → Scoped σ α) : Scoped σ α := fun s m =>
  (body (if buf = [] then none else some (A.address m)) s (m.pin (A.address m) buf)).map fun r =>
    (r.1, r.2.1, r.2.2.unpin (A.address m))

/-- The buffers pinned one after the other. -/
def pinAll : List (List UInt8) → Memory → List Nat × Memory
  | [], m => ([], m)
  | b :: bs, m => (A.address m :: (pinAll bs (m.pin (A.address m) b)).1, (pinAll bs (m.pin (A.address m) b)).2)

theorem unpinAll_pinAll (bufs : List (List UInt8)) (m : Memory) :
    (A.pinAll bufs m).2.unpinAll (A.pinAll bufs m).1 = m := by
  induction bufs generalizing m with
  | nil => rfl
  | cons b bs ih =>
    show ((A.pinAll bs (m.pin (A.address m) b)).2.unpinAll (A.pinAll bs (m.pin (A.address m) b)).1).unpin _ = m
    rw [ih, Memory.unpin_pin]

end Placement

/-- The buffers stand at the pointers `ps`, which are new and different, and the memory is otherwise as it was. -/
structure Pinned (bufs : List (List UInt8)) (m : Memory) (ps : List Nat) (m' : Memory) : Prop where
  bytes : ps.map m'.bytes = bufs.map some
  nodup : ps.Nodup
  fresh : ∀ p ∈ ps, m.bytes p = none
  others : ∀ p ∉ ps, m'.bytes p = m.bytes p

theorem Placement.pinned_pinAll (A : Placement) (bufs : List (List UInt8)) (m : Memory) :
    Pinned bufs m (A.pinAll bufs m).1 (A.pinAll bufs m).2 := by
  induction bufs generalizing m with
  | nil =>
    refine ⟨rfl, List.nodup_nil, fun p hp => ?_, fun p _ => rfl⟩
    exact absurd hp List.not_mem_nil
  | cons b bs ih =>
    obtain ⟨hbytes, hnodup, hfresh, hothers⟩ := ih (m.pin (A.address m) b)
    have hnew : A.address m ∉ (A.pinAll bs (m.pin (A.address m) b)).1 := fun hm =>
      (Memory.bytes_pin_eq_none (hfresh _ hm)).1 rfl
    refine ⟨?_, List.nodup_cons.mpr ⟨hnew, hnodup⟩, fun p hp => ?_, fun p hp => ?_⟩
    · show (A.pinAll bs (m.pin (A.address m) b)).2.bytes (A.address m) ::
        (A.pinAll bs (m.pin (A.address m) b)).1.map (A.pinAll bs (m.pin (A.address m) b)).2.bytes =
          some b :: bs.map some
      rw [hbytes, hothers _ hnew, Memory.bytes_pin_self]
    · rcases List.mem_cons.mp hp with rfl | hp
      · exact A.fresh m
      · exact (Memory.bytes_pin_eq_none (hfresh p hp)).2
    · obtain ⟨hne, hp⟩ := not_or.mp fun h => hp (List.mem_cons.mpr h)
      rw [← Memory.bytes_pin_of_ne m b hne]
      exact hothers p hp

/-! ## C strings -/

/-- `utf8CString`. -/
def utf8CString (s : Scalars) : List UInt8 := s.flatMap String.utf8EncodeChar ++ [0]

theorem utf8CString_ne_nil (s : Scalars) : utf8CString s ≠ [] := by
  simp [utf8CString]

/-- Only the scalar NUL has a zero byte. -/
theorem zero_notMem_utf8EncodeChar {c : Char} (h : c ≠ '\x00') : 0 ∉ String.utf8EncodeChar c := by
  have hval : c.val.toNat ≠ 0 := by
    intro hzero
    apply h
    apply Char.ext
    exact UInt32.toNat.inj hzero
  have hbyte : ∀ n : Nat, n % 256 ≠ 0 → (0 : UInt8) ≠ UInt8.ofNat n := by
    intro n hn he
    have hnat := congrArg UInt8.toNat he
    rw [UInt8.toNat_ofNat'] at hnat
    exact hn hnat.symm
  unfold String.utf8EncodeChar
  dsimp only
  split_ifs with h₁ h₂ h₃
  · exact List.not_mem_cons_of_ne_of_not_mem (hbyte _ (by omega)) List.not_mem_nil
  · simp only [List.mem_cons, List.not_mem_nil, or_false, not_or]
    exact ⟨hbyte _ (by omega), hbyte _ (by omega)⟩
  · simp only [List.mem_cons, List.not_mem_nil, or_false, not_or]
    exact ⟨hbyte _ (by omega), hbyte _ (by omega), hbyte _ (by omega)⟩
  · simp only [List.mem_cons, List.not_mem_nil, or_false, not_or]
    exact ⟨hbyte _ (by omega), hbyte _ (by omega), hbyte _ (by omega), hbyte _ (by omega)⟩

theorem takeWhile_utf8CString (s : Scalars) :
    (utf8CString s).takeWhile (· ≠ 0) = (s.takeWhile (· ≠ '\x00')).flatMap String.utf8EncodeChar := by
  induction s with
  | nil => rfl
  | cons c s ih =>
    by_cases hc : c = '\x00'
    · subst hc
      rfl
    · rw [List.takeWhile_cons_of_pos (by simpa using hc), List.flatMap_cons, ← ih]
      show (String.utf8EncodeChar c ++ s.flatMap String.utf8EncodeChar ++ [0]).takeWhile _ = _
      rw [List.append_assoc]
      apply List.takeWhile_append_of_pos
      intro b hb
      simpa using fun hzero : b = 0 => zero_notMem_utf8EncodeChar hc (hzero ▸ hb)

/-- C reads a string up to its first NUL. -/
theorem readString_of_utf8CString {m : Memory} {p : Nat} {s : Scalars} (h : m.bytes p = some (utf8CString s)) :
    m.readString p = some (s.takeWhile (· ≠ '\x00')) := by
  have hread : m.readCString p = some ((s.takeWhile (· ≠ '\x00')).flatMap String.utf8EncodeChar) := by
    unfold Memory.readCString
    rw [h, Option.bind_some, if_pos (by simp [utf8CString]), takeWhile_utf8CString]
  unfold Memory.readString
  rw [hread, Option.bind_some]
  show (List.utf8Encode (s.takeWhile (· ≠ '\x00'))).utf8Decode?.map Array.toList = _
  rw [List.utf8Decode?_utf8Encode]
  rfl

end Lib

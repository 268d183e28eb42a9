import AlloDataChannel.Sdp
import AlloDataChannel.Sink

/-!
# Reads that ask for a size and then copy

The value in the C library can change between the two calls: `v₁` at the size call, `v₂` at the copy call.

* `CText`, `copyArray` : the answers of the C library to both calls;
* `Track.readText`, `Track.readSsrcs`, `DataChannel.readLabel` : the readers with a `try!`;
* `SizedRead.Exact` : a read that yields `v₂` or throws;
* `SizedRead.Settled` : what may change between the calls;
* `sizedRead_exact_iff` : a read is exact exactly when it is settled.
-/

namespace AlloDataChannel
open Lib (Scalars Segmentation)

/-! ## The two calls -/

/-- The number of bytes of a text in UTF-8. -/
def utf8Length (s : Scalars) : Nat := (s.map Char.utf8Size).sum

/-- A text of the C library, which has no NUL in it. -/
structure CText where
  text : Scalars
  noNul : '\x00' ∉ text
  deriving DecidableEq, Repr

namespace CText

/-- The call without a buffer: the bytes with the NUL. -/
def size (v : CText) : Int := utf8Length v.text + 1

/-- The call with a buffer of `capacity` bytes: the code, and the text that the buffer holds then. -/
def copy (v : CText) (capacity : Int) : Int × Scalars :=
  if v.size ≤ capacity then (v.size, withCString v.text) else (Error.bufferTooSmall.rawValue, [])

theorem size_nonneg (v : CText) : 0 ≤ v.size := by
  unfold size
  omega

theorem withCString_text (v : CText) : withCString v.text = v.text := by
  refine List.takeWhile_eq_self_iff.mpr fun c hc => ?_
  have hne : c ≠ '\x00' := fun h => v.noNul (h ▸ hc)
  exact decide_eq_true hne

theorem copy_of_le {v : CText} {capacity : Int} (h : v.size ≤ capacity) : v.copy capacity = (v.size, v.text) := by
  unfold copy
  rw [if_pos h, v.withCString_text]

theorem copy_of_lt {v : CText} {capacity : Int} (h : capacity < v.size) :
    v.copy capacity = (Error.bufferTooSmall.rawValue, []) := if_neg (by omega)

end CText

/-- The call with a buffer of `capacity` elements: the code, and the elements that it writes. -/
def copyArray {α : Type} (v : List α) (capacity : Int) : Int × List α :=
  if v.length ≤ capacity then (v.length, v) else (Error.bufferTooSmall.rawValue, [])

theorem copyArray_of_le {α : Type} {v : List α} {n : Nat} (h : v.length ≤ n) : copyArray v n = (↑v.length, v) :=
  if_pos (by omega)

theorem copyArray_of_lt {α : Type} {v : List α} {n : Nat} (h : n < v.length) :
    copyArray v n = (Error.bufferTooSmall.rawValue, []) := if_neg (by omega)

theorem orValue_bufferTooSmall : Error.orValue Error.bufferTooSmall.rawValue = .error .bufferTooSmall := rfl

/-- Elements written over a buffer of zeros are all of the buffer exactly when they fill it. -/
theorem take_append_replicate_eq_iff {α : Type} {v : List α} {n : Nat} {zero : α} :
    (v ++ List.replicate n zero).take n = v ↔ v.length = n := by
  refine ⟨fun h => ?_, fun h => List.take_left' h⟩
  have hlength := congrArg List.length h
  rw [List.length_take, List.length_append, List.length_replicate] at hlength
  omega

/-! ## The readers -/

namespace Track

/-- The body of `GetMid` and `GetDescription`; `none` is the `try!` of the copy. -/
def readText (needed : Int) (copy : Int → Int × Scalars) : Option (Except Error Scalars) :=
  match Error.orValue needed with
  | .error e => some (.error e)
  | .ok len =>
    match Error.orValue (copy len).1 with
    | .error _ => none
    | .ok _ => some (.ok (copy len).2)

def GetMid (needed : Int) (copy : Int → Int × Scalars) : Option (Except Error Scalars) := readText needed copy

def GetDescription (needed : Int) (copy : Int → Int × Scalars) : Option (Except Error Scalars) := readText needed copy

/-- The list of SSRCs in `Track.init`: the buffer starts as zeros, and both calls are under a `try!`. -/
def readSsrcs (needed : Int) (copy : Int → Int × List UInt32) : Option (List UInt32) :=
  match Error.orValue needed with
  | .error _ => none
  | .ok needed =>
    if 0 < needed then
      match Error.orValue (copy needed).1 with
      | .error _ => none
      | .ok _ => some (((copy needed).2 ++ List.replicate needed.toNat 0).take needed.toNat)
    else some (List.replicate needed.toNat 0)

end Track

/-- The label in `DataChannel.init`, with both calls under a `try!`. -/
def DataChannel.readLabel (needed : Int) (copy : Int → Int × Scalars) : Option Scalars :=
  match Error.orValue needed with
  | .error _ => none
  | .ok len =>
    match Error.orValue (copy len).1 with
    | .error _ => none
    | .ok _ => some (copy len).2

/-! ## Exact reads -/

/-- A read with what the C library holds at the size call and at the copy call. -/
inductive SizedRead
  | createOffer (v₁ v₂ : CText)
  | createAnswer (v₁ v₂ : CText)
  | GetMid (v₁ v₂ : CText)
  | GetDescription (v₁ v₂ : CText)
  | label (v₁ v₂ : CText)
  | ssrcs (v₁ v₂ : List UInt32)
  /-- An empty array has an address, so its copy is no second size call. -/
  | payloadTypesForCodec (v₁ v₂ : List Int)
  deriving DecidableEq, Repr

/-- The value is returned, or an error thrown: no other value and no trap. -/
def ValueOrThrow {α : Type} (r : Option (Except Error α)) (v : α) : Prop :=
  r = some (.ok v) ∨ ∃ e, r = some (.error e)

/-- The payload types as the C library counts them. -/
def intsOfBytes (pts : List UInt8) : List Int := pts.map fun pt => (pt.toNat : Int)

namespace SizedRead

/-- The read yields the value at the copy call, sanitized in `createOffer` and `createAnswer`, or throws. -/
def Exact (S : Segmentation) (p : Peer) : SizedRead → Prop
  | .createOffer v₁ v₂ => ValueOrThrow (p.createOffer S v₁.size v₂.copy) (sanitizeSdp S p.ipOverride v₂.text)
  | .createAnswer v₁ v₂ => ValueOrThrow (p.createAnswer S v₁.size v₂.copy) (sanitizeSdp S p.ipOverride v₂.text)
  | .GetMid v₁ v₂ => ValueOrThrow (Track.GetMid v₁.size v₂.copy) v₂.text
  | .GetDescription v₁ v₂ => ValueOrThrow (Track.GetDescription v₁.size v₂.copy) v₂.text
  | .label v₁ v₂ => ValueOrThrow ((DataChannel.readLabel v₁.size v₂.copy).map .ok) v₂.text
  | .ssrcs v₁ v₂ => ValueOrThrow ((Track.readSsrcs v₁.length (copyArray v₂)).map .ok) v₂
  | .payloadTypesForCodec v₁ v₂ =>
    ValueOrThrow ((Track.payloadTypesForCodec
      ⟨v₁.length, (copyArray v₂ v₁.length).1, (copyArray v₂ v₁.length).2⟩).map (Except.map intsOfBytes)) v₂

/-- The changes between the two calls that a reader can take. The texts of offers and answers have a bound that keeps
the `Int32` size from overflowing; payload types are bytes where they are read. -/
def Settled : SizedRead → Prop
  | .createOffer v₁ _ | .createAnswer v₁ _ => utf8Length v₁.text + 1025 ≤ int32Max
  | .GetMid v₁ v₂ | .GetDescription v₁ v₂ | .label v₁ v₂ => utf8Length v₂.text ≤ utf8Length v₁.text
  | .ssrcs v₁ v₂ => v₁.length = v₂.length
  | .payloadTypesForCodec v₁ v₂ =>
    v₁.length < v₂.length ∨ v₁.length = v₂.length ∧ ∀ pt ∈ v₂, 0 ≤ pt ∧ pt ≤ 255

end SizedRead

section Readers
variable {S : Segmentation} {p : Peer} {v₁ v₂ : CText}

theorem valueOrThrow_ok {α : Type} {x v : α} : ValueOrThrow (some (.ok x)) v ↔ x = v := by
  refine ⟨fun h => ?_, fun h => Or.inl (h ▸ rfl)⟩
  rcases h with h | ⟨e, h⟩
  · cases h
    rfl
  · cases h

theorem valueOrThrow_error {α : Type} {e : Error} (v : α) : ValueOrThrow (some (.error e)) v := Or.inr ⟨e, rfl⟩

theorem not_valueOrThrow_none {α : Type} (v : α) : ¬ ValueOrThrow (none : Option (Except Error α)) v := by
  rintro (h | ⟨e, h⟩)
  · cases h
  · cases h

/-- The slack of 1024 bytes or the error takes up any change. -/
theorem createDescription_exact_iff : ValueOrThrow (p.createDescription S v₁.size v₂.copy)
    (sanitizeSdp S p.ipOverride v₂.text) ↔ utf8Length v₁.text + 1025 ≤ int32Max := by
  have hsize : v₁.size + 1024 ≤ int32Max ↔ utf8Length v₁.text + 1025 ≤ int32Max := by
    unfold CText.size
    omega
  rw [← hsize]
  unfold Peer.createDescription
  rw [Error.orValue_of_nonneg v₁.size_nonneg]
  dsimp only
  by_cases hmax : v₁.size + 1024 ≤ int32Max
  · rw [if_pos hmax]
    refine iff_of_true ?_ hmax
    rcases le_or_gt v₂.size (v₁.size + 1024) with hfits | hlong
    · rw [CText.copy_of_le hfits, Error.orValue_of_nonneg v₂.size_nonneg]
      exact valueOrThrow_ok.mpr rfl
    · rw [CText.copy_of_lt hlong, orValue_bufferTooSmall]
      exact valueOrThrow_error _
  · rw [if_neg hmax]
    exact iff_of_false (not_valueOrThrow_none _) hmax

theorem size_le_size_iff : v₂.size ≤ v₁.size ↔ utf8Length v₂.text ≤ utf8Length v₁.text := by
  unfold CText.size
  omega

theorem readText_exact_iff :
    ValueOrThrow (Track.readText v₁.size v₂.copy) v₂.text ↔ utf8Length v₂.text ≤ utf8Length v₁.text := by
  rw [← size_le_size_iff]
  unfold Track.readText
  rw [Error.orValue_of_nonneg v₁.size_nonneg]
  dsimp only
  rcases le_or_gt v₂.size v₁.size with hfits | hlong
  · rw [CText.copy_of_le hfits, Error.orValue_of_nonneg v₂.size_nonneg]
    exact iff_of_true (valueOrThrow_ok.mpr rfl) hfits
  · rw [CText.copy_of_lt hlong, orValue_bufferTooSmall]
    exact iff_of_false (not_valueOrThrow_none _) (by omega)

theorem readLabel_eq : (DataChannel.readLabel v₁.size v₂.copy).map .ok = Track.readText v₁.size v₂.copy := by
  unfold DataChannel.readLabel Track.readText
  rw [Error.orValue_of_nonneg v₁.size_nonneg]
  dsimp only
  cases Error.orValue (v₂.copy v₁.size).1 with
  | error e => rfl
  | ok n => rfl

theorem readSsrcs_exact_iff {v₁ v₂ : List UInt32} :
    ValueOrThrow ((Track.readSsrcs v₁.length (copyArray v₂)).map .ok) v₂ ↔ v₁.length = v₂.length := by
  unfold Track.readSsrcs
  rw [Error.orValue_of_nonneg (Int.natCast_nonneg _)]
  dsimp only
  rcases Nat.eq_zero_or_pos v₁.length with hzero | hpos
  · -- no copy: the list read is empty
    rw [hzero, if_neg (by omega)]
    refine valueOrThrow_ok.trans ⟨fun h => ?_, fun h => ?_⟩
    · rw [← h]
      rfl
    · exact (List.eq_nil_of_length_eq_zero h.symm).symm
  · rw [if_pos (by omega)]
    rcases le_or_gt v₂.length v₁.length with hfits | hlong
    · rw [copyArray_of_le hfits, Error.orValue_of_nonneg (Int.natCast_nonneg _)]
      refine valueOrThrow_ok.trans ?_
      rw [Int.toNat_natCast, take_append_replicate_eq_iff]
      exact eq_comm
    · rw [copyArray_of_lt hlong, orValue_bufferTooSmall]
      exact iff_of_false (not_valueOrThrow_none _) (by omega)

/-! ### Payload types -/

theorem byteOfInt_eq_some_iff {x : Int} {b : UInt8} : byteOfInt x = some b ↔ (b.toNat : Int) = x := by
  have hb : b.toNat < 256 := b.toNat_lt
  unfold byteOfInt
  refine ⟨fun h => ?_, fun h => ?_⟩
  · split at h
    · next hx =>
      rw [Option.some.injEq] at h
      rw [← h, UInt8.toNat_ofNat', Nat.mod_eq_of_lt (by omega)]
      omega
    · cases h
  · rw [if_pos (by omega), ← h, Int.toNat_natCast, UInt8.ofNat_toNat]

theorem mapM_byteOfInt_eq_some_iff {pts : List Int} {bytes : List UInt8} :
    pts.mapM byteOfInt = some bytes ↔ intsOfBytes bytes = pts := by
  induction pts generalizing bytes with
  | nil =>
    rw [List.mapM_nil]
    refine ⟨fun h => ?_, fun h => ?_⟩
    · cases h
      rfl
    · rw [List.map_eq_nil_iff.mp h]
      rfl
  | cons pt pts ih =>
    rw [List.mapM_cons]
    refine ⟨fun h => ?_, fun h => ?_⟩
    · obtain ⟨b, hb, h⟩ := Option.bind_eq_some_iff.mp h
      obtain ⟨bs, hbs, h⟩ := Option.bind_eq_some_iff.mp h
      cases h
      show (b.toNat : Int) :: intsOfBytes bs = pt :: pts
      rw [byteOfInt_eq_some_iff.mp hb, ih.mp hbs]
    · obtain ⟨b, bs, rfl, hb, hbs⟩ := List.map_eq_cons_iff.mp h
      rw [byteOfInt_eq_some_iff.mpr hb, ih.mpr hbs]
      rfl

theorem payloadTypes_exact_iff {v₁ v₂ : List Int} : ValueOrThrow ((Track.payloadTypesForCodec
      ⟨v₁.length, (copyArray v₂ v₁.length).1, (copyArray v₂ v₁.length).2⟩).map (Except.map intsOfBytes)) v₂ ↔
    v₁.length < v₂.length ∨ v₁.length = v₂.length ∧ ∀ pt ∈ v₂, 0 ≤ pt ∧ pt ≤ 255 := by
  unfold Track.payloadTypesForCodec
  rw [Error.orValue_of_nonneg (Int.natCast_nonneg _)]
  dsimp only
  rcases le_or_gt v₂.length v₁.length with hfits | hlong
  · rw [copyArray_of_le hfits, Error.orValue_of_nonneg (Int.natCast_nonneg _), Int.toNat_natCast]
    dsimp only
    refine ⟨fun h => Or.inr ?_, fun h => ?_⟩
    · cases hbytes : ((v₂ ++ List.replicate v₁.length 0).take v₁.length).mapM byteOfInt with
      | none =>
        rw [hbytes] at h
        exact absurd h (not_valueOrThrow_none v₂)
      | some bytes =>
        rw [hbytes] at h
        have hread : intsOfBytes bytes = v₂ := valueOrThrow_ok.mp h
        have hbuffer := mapM_byteOfInt_eq_some_iff.mp hbytes
        rw [hread] at hbuffer
        refine ⟨(take_append_replicate_eq_iff.mp hbuffer.symm).symm, fun pt hpt => ?_⟩
        rw [← hread] at hpt
        obtain ⟨b, -, rfl⟩ := List.mem_map.mp hpt
        have hb : b.toNat < 256 := b.toNat_lt
        omega
    · obtain ⟨hlength, hall⟩ := h.resolve_left (by omega)
      obtain ⟨bytes, hbytes⟩ := Forwarder.exists_mapM_byteOfInt hall
      rw [take_append_replicate_eq_iff.mpr hlength.symm, hbytes]
      exact valueOrThrow_ok.mpr (mapM_byteOfInt_eq_some_iff.mp hbytes)
  · rw [copyArray_of_lt hlong, orValue_bufferTooSmall]
    exact iff_of_true (valueOrThrow_error _) (Or.inl hlong)

end Readers

/-- **Reads in two calls.** A read yields the value at its copy call or throws exactly when the change since its size
call is one that the reader can take. -/
theorem sizedRead_exact_iff (S : Segmentation) (p : Peer) (r : SizedRead) : r.Exact S p ↔ r.Settled := by
  cases r with
  | createOffer v₁ v₂ => exact createDescription_exact_iff
  | createAnswer v₁ v₂ => exact createDescription_exact_iff
  | GetMid v₁ v₂ => exact readText_exact_iff
  | GetDescription v₁ v₂ => exact readText_exact_iff
  | label v₁ v₂ =>
    show ValueOrThrow _ _ ↔ _
    rw [readLabel_eq]
    exact readText_exact_iff
  | ssrcs v₁ v₂ => exact readSsrcs_exact_iff
  | payloadTypesForCodec v₁ v₂ => exact payloadTypes_exact_iff

/-- A description that grows by one byte traps, and a list of SSRCs or payload types that shrinks is filled up with
zeros. -/
theorem changed_reads_not_exact :
    (¬ ∀ r : SizedRead, r.Exact .scalars {}) ∧
      Track.GetDescription (CText.mk "a".toList (by decide)).size (CText.mk "ab".toList (by decide)).copy = none ∧
      Track.readSsrcs 2 (copyArray [5]) = some [5, 0] ∧
      Track.payloadTypesForCodec ⟨2, (copyArray [(111 : Int)] 2).1, (copyArray [(111 : Int)] 2).2⟩ =
        some (.ok [111, 0]) := by
  refine ⟨fun h => ?_, rfl, rfl, rfl⟩
  rcases h (.GetDescription ⟨"a".toList, by decide⟩ ⟨"ab".toList, by decide⟩) with h | ⟨e, h⟩
  · cases h
  · cases h

end AlloDataChannel

import AlloDataChannel.Types
import Mathlib.Data.Nat.Bitwise
import Mathlib.Tactic.IntervalCases

/-!
# Rewriting RTP headers

The C++ helpers lay a packed header over the first twelve bytes of a message; the Swift functions call them only when
there are twelve.

* `RtpHeader`, `RtpHeader.overlay` : the packed layout;
* `RtpLibrary` : the two setters of the C++ library, with what they store;
* `RtpHeaderRewriteSSRC`, `RtpHeaderRewritePayloadType` : the Swift functions;
* `hasIdentity_iff` : a rewritten message has the identity asked for exactly when it has a header and the payload type
  fits seven bits.
-/

namespace AlloDataChannel

/-- The fields of the packed header, each as its bytes in memory. -/
structure RtpHeader where
  first : UInt8
  payloadType : UInt8
  seqNumber : UInt8 × UInt8
  timestamp : UInt8 × UInt8 × UInt8 × UInt8
  ssrc : UInt8 × UInt8 × UInt8 × UInt8
  deriving DecidableEq, Repr

/-- A message that is long enough for a header. -/
abbrev Packet := { message : Data // 12 ≤ message.length }

namespace RtpHeader

def bytes (h : RtpHeader) : Data :=
  [h.first, h.payloadType, h.seqNumber.1, h.seqNumber.2, h.timestamp.1, h.timestamp.2.1, h.timestamp.2.2.1,
    h.timestamp.2.2.2, h.ssrc.1, h.ssrc.2.1, h.ssrc.2.2.1, h.ssrc.2.2.2]

/-- `reinterpret_cast<rtc::RtpHeader *>(message)`. -/
def overlay (m : Packet) : RtpHeader :=
  have := m.property
  { first := m.val[0]
    payloadType := m.val[1]
    seqNumber := (m.val[2], m.val[3])
    timestamp := (m.val[4], m.val[5], m.val[6], m.val[7])
    ssrc := (m.val[8], m.val[9], m.val[10], m.val[11]) }

@[simp] theorem length_bytes (h : RtpHeader) : h.bytes.length = 12 := rfl

/-- A packet is its header and the rest. -/
theorem bytes_overlay (m : Packet) : (overlay m).bytes ++ m.val.drop 12 = m.val := by
  have hlen := m.property
  apply List.ext_getElem?
  intro i
  rw [List.getElem?_append, length_bytes]
  split
  · next hi =>
    rw [List.getElem?_eq_getElem (l := m.val) (by omega)]
    interval_cases i <;> rfl
  · next hi =>
    rw [List.getElem?_drop]
    congr 1
    omega

end RtpHeader

/-- The bytes of a 32-bit number in network order. -/
def networkOrder (x : UInt32) : UInt8 × UInt8 × UInt8 × UInt8 :=
  ((x >>> 24).toUInt8, (x >>> 16).toUInt8, (x >>> 8).toUInt8, x.toUInt8)

/-- The setters of `rtc::RtpHeader`. -/
structure RtpLibrary where
  setSsrc : RtpHeader → UInt32 → RtpHeader
  setPayloadType : RtpHeader → UInt8 → RtpHeader
  setSsrc_eq : ∀ h ssrc, setSsrc h ssrc = { h with ssrc := networkOrder ssrc }
  setPayloadType_eq : ∀ h pt, setPayloadType h pt =
    { h with payloadType := (h.payloadType &&& 0x80) ||| (pt &&& 0x7f) }

def RtpLibrary.packed : RtpLibrary where
  setSsrc h ssrc := { h with ssrc := networkOrder ssrc }
  setPayloadType h pt := { h with payloadType := (h.payloadType &&& 0x80) ||| (pt &&& 0x7f) }
  setSsrc_eq _ _ := rfl
  setPayloadType_eq _ _ := rfl

section Rewrite
variable (R : RtpLibrary)

/-- The C++ helper `RTPHeaderRewriteSSRC`. -/
def RTPHeaderRewriteSSRC (m : Packet) (targetSSRC : UInt32) : Data :=
  (R.setSsrc (RtpHeader.overlay m) targetSSRC).bytes ++ m.val.drop 12

/-- The C++ helper `RTPHeaderRewritePayloadType`. -/
def RTPHeaderRewritePayloadType (m : Packet) (targetPT : UInt8) : Data :=
  (R.setPayloadType (RtpHeader.overlay m) targetPT).bytes ++ m.val.drop 12

def RtpHeaderRewriteSSRC (data : Data) (ssrc : UInt32) : Data :=
  if h : 12 ≤ data.length then RTPHeaderRewriteSSRC R ⟨data, h⟩ ssrc else data

def RtpHeaderRewritePayloadType (data : Data) (payloadType : UInt8) : Data :=
  if h : 12 ≤ data.length then RTPHeaderRewritePayloadType R ⟨data, h⟩ payloadType else data

/-- The two rewrites, one after the other. -/
def rewritten (ssrc : UInt32) (pt : UInt8) (data : Data) : Data :=
  RtpHeaderRewritePayloadType R (RtpHeaderRewriteSSRC R data ssrc) pt

variable {R}

theorem rewriteSSRC_eq (h : RtpHeader) (rest : Data) (ssrc : UInt32) :
    RtpHeaderRewriteSSRC R (h.bytes ++ rest) ssrc = { h with ssrc := networkOrder ssrc }.bytes ++ rest := by
  have hlen : 12 ≤ (h.bytes ++ rest).length := by
    rw [List.length_append, RtpHeader.length_bytes]
    omega
  unfold RtpHeaderRewriteSSRC RTPHeaderRewriteSSRC
  rw [dif_pos hlen, R.setSsrc_eq]
  rfl

theorem rewritePayloadType_eq (h : RtpHeader) (rest : Data) (pt : UInt8) :
    RtpHeaderRewritePayloadType R (h.bytes ++ rest) pt =
      { h with payloadType := (h.payloadType &&& 0x80) ||| (pt &&& 0x7f) }.bytes ++ rest := by
  have hlen : 12 ≤ (h.bytes ++ rest).length := by
    rw [List.length_append, RtpHeader.length_bytes]
    omega
  unfold RtpHeaderRewritePayloadType RTPHeaderRewritePayloadType
  rw [dif_pos hlen, R.setPayloadType_eq]
  rfl

theorem rewritten_eq (h : RtpHeader) (rest : Data) (ssrc : UInt32) (pt : UInt8) :
    rewritten R ssrc pt (h.bytes ++ rest) =
      { h with
        payloadType := (h.payloadType &&& 0x80) ||| (pt &&& 0x7f)
        ssrc := networkOrder ssrc }.bytes ++ rest := by
  unfold rewritten
  rw [rewriteSSRC_eq, rewritePayloadType_eq]

/-- A message that is too short passes as it is. -/
theorem rewritten_of_short {data : Data} (h : data.length < 12) (ssrc : UInt32) (pt : UInt8) :
    rewritten R ssrc pt data = data := by
  have hno : ¬ 12 ≤ data.length := by omega
  unfold rewritten RtpHeaderRewriteSSRC RtpHeaderRewritePayloadType
  rw [dif_neg hno, dif_neg hno]

theorem length_rewritten (data : Data) (ssrc : UInt32) (pt : UInt8) :
    (rewritten R ssrc pt data).length = data.length := by
  by_cases h : 12 ≤ data.length
  · have hdata := RtpHeader.bytes_overlay ⟨data, h⟩
    dsimp only at hdata
    rw [← hdata, rewritten_eq, List.length_append, List.length_append, RtpHeader.length_bytes, RtpHeader.length_bytes]
  · rw [rewritten_of_short (by omega)]

end Rewrite

/-! ## The identity of a packet -/

/-- `buffer` is `message` with the SSRC in bytes 8 to 11 and the payload type in the low seven bits of byte 1, and
nothing else changed. -/
structure HasIdentity (ssrc : UInt32) (pt : UInt8) (message buffer : Data) : Prop where
  header : 12 ≤ buffer.length
  ssrc : (buffer.drop 8).take 4 =
    [(networkOrder ssrc).1, (networkOrder ssrc).2.1, (networkOrder ssrc).2.2.1, (networkOrder ssrc).2.2.2]
  payloadType : ∃ b c, buffer[1]? = some b ∧ message[1]? = some c ∧ b &&& 0x7f = pt ∧ b &&& 0x80 = c &&& 0x80
  others : ∀ i, i ≠ 1 → ¬ (8 ≤ i ∧ i < 12) → buffer[i]? = message[i]?

theorem low_bits {x : UInt8} (h : x < 128) : x &&& 0x7f = x := by
  apply UInt8.toNat_inj.mp
  rw [UInt8.toNat_and]
  have hx : x.toNat < 128 := h
  show x.toNat &&& (2 ^ 7 - 1) = x.toNat
  rw [Nat.and_two_pow_sub_one_eq_mod, Nat.mod_eq_of_lt hx]

theorem low_lt (x : UInt8) : x &&& 0x7f < 128 := by
  show (x &&& 0x7f).toNat < 128
  rw [UInt8.toNat_and]
  have h : x.toNat &&& 127 ≤ 127 := Nat.and_le_right
  show x.toNat &&& 127 < 128
  omega

theorem low_set (c pt : UInt8) : ((c &&& 0x80) ||| (pt &&& 0x7f)) &&& 0x7f = pt &&& 0x7f := by
  apply UInt8.eq_of_toBitVec_eq
  have hz : (0x80#8 &&& 0x7f#8) = 0#8 := by decide
  show (c.toBitVec &&& 0x80#8 ||| pt.toBitVec &&& 0x7f#8) &&& 0x7f#8 = pt.toBitVec &&& 0x7f#8
  rw [BitVec.and_or_distrib_right, BitVec.and_assoc, BitVec.and_assoc, hz, BitVec.and_self, BitVec.and_zero,
    BitVec.zero_or]

theorem high_set (c pt : UInt8) : ((c &&& 0x80) ||| (pt &&& 0x7f)) &&& 0x80 = c &&& 0x80 := by
  apply UInt8.eq_of_toBitVec_eq
  have hz : (0x7f#8 &&& 0x80#8) = 0#8 := by decide
  show (c.toBitVec &&& 0x80#8 ||| pt.toBitVec &&& 0x7f#8) &&& 0x80#8 = c.toBitVec &&& 0x80#8
  rw [BitVec.and_or_distrib_right, BitVec.and_assoc, BitVec.and_assoc, hz, BitVec.and_self, BitVec.and_zero,
    BitVec.or_zero]

/-- A message with a header gets all of the identity that fits. -/
theorem hasIdentity_rewritten {R : RtpLibrary} {ssrc : UInt32} {pt : UInt8} (h : RtpHeader) (rest : Data)
    (hpt : pt < 128) : HasIdentity ssrc pt (h.bytes ++ rest) (rewritten R ssrc pt (h.bytes ++ rest)) := by
  rw [rewritten_eq]
  refine ⟨?_, rfl, ⟨_, _, rfl, rfl, ?_, high_set _ _⟩, fun i h1 h8 => ?_⟩
  · rw [List.length_append, RtpHeader.length_bytes]
    omega
  · exact (low_set _ _).trans (low_bits hpt)
  · rw [List.getElem?_append, List.getElem?_append, RtpHeader.length_bytes, RtpHeader.length_bytes]
    split
    · next hi =>
      have hcases : i = 0 ∨ 2 ≤ i ∧ i < 8 := by omega
      rcases hcases with rfl | ⟨h2, hlt⟩
      · rfl
      · interval_cases i <;> rfl
    · rfl

theorem hasIdentity_iff {R : RtpLibrary} {ssrc : UInt32} {pt : UInt8} {message : Data} :
    HasIdentity ssrc pt message (rewritten R ssrc pt message) ↔ 12 ≤ message.length ∧ pt < 128 := by
  refine ⟨fun h => ⟨?_, ?_⟩, fun h => ?_⟩
  · have hheader := h.header
    rwa [length_rewritten] at hheader
  · obtain ⟨b, c, -, -, hb, -⟩ := h.payloadType
    rw [← hb]
    exact low_lt b
  · have hmessage := RtpHeader.bytes_overlay ⟨message, h.1⟩
    dsimp only at hmessage
    rw [← hmessage]
    exact hasIdentity_rewritten _ _ h.2

end AlloDataChannel

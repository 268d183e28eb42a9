import AlloDataChannel.Lib.Text
import Mathlib.Data.List.TakeWhile

/-!
# Values that cross the wrapper

* `Error`, `Error.orValue` : a negative return code of the C library as a Swift error;
* `Thrown` : what the throwing functions of the wrapper can throw;
* `Codec`, `Direction`, `DescriptionType` : the enumerations, the last two with the raw values of the C API;
* `withCString` : a Swift string as a C function reads it.
-/

namespace AlloDataChannel
open Lib (Scalars)

/-- A buffer of bytes (`Data`). -/
abbrev Data := List UInt8

/-- `AlloWebRTCPeer.Error`. -/
inductive Error
  | invalid
  | failure
  | elementNotAvailable
  | bufferTooSmall
  deriving DecidableEq, Repr

def Error.rawValue : Error → Int
  | .invalid => -1
  | .failure => -2
  | .elementNotAvailable => -3
  | .bufferTooSmall => -4

def Error.ofRawValue (code : Int) : Option Error :=
  [Error.invalid, .failure, .elementNotAvailable, .bufferTooSmall].find? fun e => e.rawValue = code

def Error.fromInt32 (code : Int) : Error := (Error.ofRawValue code).getD .invalid

/-- A return code, thrown as an error when it is negative. -/
def Error.orValue (code : Int) : Except Error Int :=
  if 0 ≤ code then .ok code else .error (Error.fromInt32 code)

theorem Error.fromInt32_rawValue (e : Error) : Error.fromInt32 e.rawValue = e := by cases e <;> rfl

theorem Error.orValue_of_nonneg {code : Int} (h : 0 ≤ code) : Error.orValue code = .ok code := if_pos h

theorem Error.orValue_of_neg {code : Int} (h : code < 0) : Error.orValue code = .error (Error.fromInt32 code) :=
  if_neg (by omega)

/-- Every error that the wrapper's throwing functions throw. -/
inductive Thrown
  | peer (e : Error)
  | exhausted
  deriving DecidableEq, Repr

inductive Codec
  | H264
  | VP8
  | VP9
  | H265
  | AV1
  | OPUS
  | PCMU
  | PCMA
  | AAC
  | G722
  deriving DecidableEq, Repr

inductive Direction
  | unknown
  | sendonly
  | recvonly
  | sendrecv
  | inactive
  deriving DecidableEq, Repr

def Direction.rawValue : Direction → Nat
  | .unknown => 0
  | .sendonly => 1
  | .recvonly => 2
  | .sendrecv => 3
  | .inactive => 4

def Direction.ofRawValue (n : Nat) : Option Direction :=
  [Direction.unknown, .sendonly, .recvonly, .sendrecv, .inactive].find? fun d => d.rawValue = n

inductive DescriptionType
  | unspecified
  | offer
  | answer
  | PRAnswer
  | rollback
  deriving DecidableEq, Repr

def DescriptionType.rawValue : DescriptionType → Scalars
  | .unspecified => "unspec".toList
  | .offer => "offer".toList
  | .answer => "answer".toList
  | .PRAnswer => "pranswer".toList
  | .rollback => "rollback".toList

def DescriptionType.ofRawValue (s : Scalars) : Option DescriptionType :=
  [DescriptionType.unspecified, .offer, .answer, .PRAnswer, .rollback].find? fun t => t.rawValue = s

theorem DescriptionType.ofRawValue_rawValue (t : DescriptionType) : ofRawValue t.rawValue = some t := by
  cases t <;> decide

structure Description where
  type : DescriptionType
  sdp : Scalars
  deriving DecidableEq, Repr

structure ICECandidate where
  candidate : Scalars
  mid : Scalars
  deriving DecidableEq, Repr

/-- `IPOverride`, whose fields are `from` and `to` in the source. -/
structure IPOverride where
  fromIP : Scalars
  toIP : Scalars
  deriving DecidableEq, Repr

/-- A string handed to a C function, which reads it up to the first NUL. -/
def withCString (s : Scalars) : Scalars := s.takeWhile (· ≠ '\x00')

theorem withCString_append (s t : Scalars) :
    withCString (s ++ t) = if '\x00' ∈ s then withCString s else s ++ withCString t := by
  unfold withCString
  rw [List.takeWhile_append]
  by_cases h : '\x00' ∈ s
  · rw [if_pos h, if_neg]
    intro hlen
    have hall := List.takeWhile_eq_self_iff.mp ((List.takeWhile_prefix _).eq_of_length hlen)
    exact absurd (hall _ h) (by decide)
  · rw [if_neg h, if_pos]
    exact congrArg List.length (List.takeWhile_eq_self_iff.mpr fun c hc => by
      simpa using fun hz : c = '\x00' => h (hz ▸ hc))

end AlloDataChannel

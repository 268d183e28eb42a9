import AlloDataChannel.Types

/-!
# Channels: state, callbacks, messages

`ChannelState` is the mutable part of a `Channel` object. The callbacks that `Channel.setupCallbacks` installs are
functions on it; `none` is a trap. `Channel.send` is the call of `rtcSendMessage`.

* `MessageApi` : how the C library passes a received message to the message callback;
* `transmit` : a sequence of remote messages on one channel, with the values assigned to `lastMessage`;
* `message_delivery` : every message arrives as sent exactly when none of them is a text message.
-/

namespace AlloDataChannel
open Lib (Scalars)

/-- The closures that the wrapper and its users put in `onKeyFrameRequested`. -/
inductive KeyFrameHandler
  /-- The handler of a `MediaForwardingUnit` whose ingress track is the object `ingress`. -/
  | forward (ingress : Nat)
  | user (n : Nat)
  deriving DecidableEq, Repr

/-- The mutable state of a `Channel` object; the last two fields are those of a `Track`. -/
structure ChannelState where
  isOpen : Bool := false
  lastError : Option Scalars := none
  lastMessage : Option Data := none
  onKeyFrameRequested : Option KeyFrameHandler := none
  hasInstalledRtcpReceivingSession : Bool := false
  deriving DecidableEq, Repr

namespace ChannelState

def openCallback (s : ChannelState) : ChannelState := { s with isOpen := true }

def closedCallback (s : ChannelState) : ChannelState := { s with isOpen := false }

/-- `String(cString: cerror!)`. -/
def errorCallback (s : ChannelState) (cerror : Option Scalars) : Option ChannelState :=
  cerror.map fun error => { s with lastError := some error }

/-- `Data(bytes:count:)` of the memory at `bytes`; a negative count traps. -/
def dataOfBytes (bytes : List UInt8) (count : Int) : Option Data :=
  if 0 ≤ count then some (bytes.take count.toNat) else none

/-- The message callback: `cdata` is the memory behind the pointer, `none` for a null pointer. -/
def messageCallback (s : ChannelState) (cdata : Option (List UInt8)) (size : Int) : Option ChannelState := do
  let bytes ← cdata
  let data ← dataOfBytes bytes size
  pure { s with lastMessage := some data }

end ChannelState

/-- The four callbacks that a channel installs, with their arguments. -/
inductive ChannelCallback
  | opened
  | closed
  | error (cerror : Option Scalars)
  | message (cdata : Option (List UInt8)) (size : Int)
  deriving DecidableEq, Repr

def ChannelCallback.run (s : ChannelState) : ChannelCallback → Option ChannelState
  | .opened => some s.openCallback
  | .closed => some s.closedCallback
  | .error cerror => s.errorCallback cerror
  | .message cdata size => s.messageCallback cdata size

/-- `Int32.max`. -/
def int32Max : Nat := 2147483647

/-- `Channel.send`: the arguments of `rtcSendMessage`. `Int32(data.count)` traps when the count does not fit; the
address of a `Data` is never null, as Foundation keeps an empty one inline. -/
def Channel.sendArgs (data : Data) : Option (Data × Int) :=
  if data.length ≤ int32Max then some (data, data.length) else none

/-- `Channel.send`, with the code that `rtcSendMessage` returns. -/
def Channel.send (data : Data) (code : Int) : Option (Except Error Unit) :=
  (Channel.sendArgs data).map fun _ => (Error.orValue code).map fun _ => ()

/-! ## Messages on the wire -/

/-- A message as the C library sees it. -/
inductive RtcMessage
  | binary (bytes : List UInt8)
  | text (bytes : List UInt8)
  deriving DecidableEq, Repr

/-- What `rtcSendMessage` sends for a size that is not negative. -/
def RtcMessage.ofSend (ptr : List UInt8) (size : Int) : RtcMessage := .binary (ptr.take size.toNat)

/-- The pointer that comes with a binary message. Nothing is known of it for an empty message. -/
structure MessageApi where
  pointer : List UInt8 → Option (List UInt8)
  pointer_eq : ∀ bytes ≠ [], ∃ m, pointer bytes = some m ∧ m.take bytes.length = bytes

/-- The arguments of the message callback: a binary message comes with its size, a text of `n` bytes as a
NUL-terminated string with the size `-(n + 1)`. -/
def MessageApi.args (api : MessageApi) : RtcMessage → Option (List UInt8) × Int
  | .binary bytes => (api.pointer bytes, bytes.length)
  | .text bytes => (some (bytes ++ [0]), -(bytes.length + 1))

/-- A library that passes a pointer to the bytes, and a null pointer for an empty message. -/
def MessageApi.vector : MessageApi where
  pointer bytes := if bytes = [] then none else some bytes
  pointer_eq bytes h := ⟨bytes, if_neg h, List.take_length⟩

/-- What the remote side does: `send(data:)` of a peer of this library, or a message of another implementation. -/
inductive Remote
  | send (data : Data)
  | binary (bytes : List UInt8)
  | text (bytes : List UInt8)
  deriving DecidableEq, Repr

namespace Remote

def payload : Remote → Data
  | .send data => data
  | .binary bytes => bytes
  | .text bytes => bytes

/-- The message that goes over the wire. -/
def message : Remote → Option RtcMessage
  | .send data => (Channel.sendArgs data).map fun p => RtcMessage.ofSend p.1 p.2
  | .binary bytes => some (.binary bytes)
  | .text bytes => some (.text bytes)

/-- A binary message that does not come with a null pointer and, sent by this library, fits the C `int`. -/
def Decodable (api : MessageApi) : Remote → Prop
  | .send data => data.length ≤ int32Max ∧ (api.pointer data).isSome
  | .binary bytes => (api.pointer bytes).isSome
  | .text _ => False

end Remote

/-- One message of the remote side, through the wire and the message callback. -/
def transmitOne (api : MessageApi) (s : ChannelState) (r : Remote) : Option ChannelState := do
  let m ← r.message
  s.messageCallback (api.args m).1 (api.args m).2

/-- A sequence of messages, with the values that `lastMessage` takes one after the other. -/
def transmit (api : MessageApi) : ChannelState → List Remote → Option (ChannelState × List Data)
  | s, [] => some (s, [])
  | s, r :: rs => do
    let t ← transmitOne api s r
    let (u, out) ← transmit api t rs
    pure (u, t.lastMessage.toList ++ out)

theorem dataOfBytes_nat (bytes : List UInt8) (n : Nat) : ChannelState.dataOfBytes bytes n = some (bytes.take n) := by
  simp [ChannelState.dataOfBytes]

theorem dataOfBytes_neg (bytes : List UInt8) (n : Nat) :
    ChannelState.dataOfBytes bytes (-((n : Int) + 1)) = none := if_neg (by omega)

/-- A binary message that comes with a pointer is decoded to its bytes. -/
theorem messageCallback_binary (api : MessageApi) (s : ChannelState) {bytes : List UInt8}
    (h : (api.pointer bytes).isSome) :
    s.messageCallback (api.args (.binary bytes)).1 (api.args (.binary bytes)).2 =
      some { s with lastMessage := some bytes } := by
  obtain ⟨m, hm⟩ := Option.isSome_iff_exists.mp h
  have htake : m.take bytes.length = bytes := by
    cases bytes with
    | nil => simp
    | cons b bs =>
      obtain ⟨m', hm', ht⟩ := api.pointer_eq (b :: bs) (by simp)
      rw [hm, Option.some.injEq] at hm'
      rw [hm', ht]
  simp only [ChannelState.messageCallback, MessageApi.args, hm, Option.bind_eq_bind, Option.bind_some,
    dataOfBytes_nat, htake, Option.pure_def]

/-- Every text message traps: its size is negative. -/
theorem messageCallback_text (api : MessageApi) (s : ChannelState) (bytes : List UInt8) :
    s.messageCallback (api.args (.text bytes)).1 (api.args (.text bytes)).2 = none := by
  simp only [ChannelState.messageCallback, MessageApi.args, Option.bind_eq_bind, Option.bind_some,
    dataOfBytes_neg, Option.bind_none]

theorem messageCallback_null (api : MessageApi) (s : ChannelState) {bytes : List UInt8}
    (h : api.pointer bytes = none) :
    s.messageCallback (api.args (.binary bytes)).1 (api.args (.binary bytes)).2 = none := by
  simp only [ChannelState.messageCallback, MessageApi.args, h, Option.bind_eq_bind, Option.bind_none]

/-- What `send(data:)` puts on the wire is the data, as a binary message. -/
theorem message_send {data : Data} (h : data.length ≤ int32Max) :
    (Remote.send data).message = some (.binary data) := by
  simp [Remote.message, Channel.sendArgs, h, RtcMessage.ofSend]

theorem transmitOne_decodable (api : MessageApi) (s : ChannelState) {r : Remote} (h : r.Decodable api) :
    transmitOne api s r = some { s with lastMessage := some r.payload } := by
  cases r with
  | send data =>
    unfold transmitOne
    rw [message_send h.1]
    exact messageCallback_binary api s h.2
  | binary bytes => exact messageCallback_binary api s h
  | text bytes => exact h.elim

theorem transmitOne_not_decodable (api : MessageApi) (s : ChannelState) {r : Remote} (h : ¬ r.Decodable api) :
    transmitOne api s r = none := by
  cases r with
  | send data =>
    by_cases hl : data.length ≤ int32Max
    · unfold transmitOne
      rw [message_send hl]
      exact messageCallback_null api s (by simpa [Remote.Decodable, hl] using h)
    · simp [transmitOne, Remote.message, Channel.sendArgs, hl]
  | binary bytes => exact messageCallback_null api s (by simpa [Remote.Decodable] using h)
  | text bytes => exact messageCallback_text api s bytes

/-- **Delivery.** A sequence of messages is handed out unchanged, in order and without a trap, exactly when every
message is a binary one with a pointer. -/
theorem message_delivery (api : MessageApi) (s : ChannelState) (rs : List Remote) :
    (∃ t, transmit api s rs = some (t, rs.map Remote.payload)) ↔ ∀ r ∈ rs, r.Decodable api := by
  induction rs generalizing s with
  | nil => simp [transmit]
  | cons r rs ih =>
    rw [List.forall_mem_cons]
    by_cases hr : r.Decodable api
    · rw [← ih { s with lastMessage := some r.payload }, transmit, transmitOne_decodable api s hr]
      simp only [Option.bind_eq_bind, Option.bind_some, Option.toList_some, List.map_cons, hr, true_and]
      cases transmit api { s with lastMessage := some r.payload } rs with
      | none => simp
      | some p =>
        obtain ⟨t, out⟩ := p
        simp
    · simp [transmit, transmitOne_not_decodable api s hr, hr]

/-- The two-byte text message `hi` ends the receiving process. -/
theorem message_delivery_text :
    ¬ ∃ t, transmit .vector {} [.text [104, 105]] = some (t, [[104, 105]]) := by
  rintro ⟨t, h⟩
  unfold transmit transmitOne Remote.message at h
  exact absurd h (by simp [messageCallback_text])

/-- A run of two sends of this library, with a binary message of another one between them. -/
example : transmit .vector {} [.send [1, 2], .binary [3], .send [4]] =
    some ({ lastMessage := some [4] }, [[1, 2], [3], [4]]) := by decide

end AlloDataChannel

import AlloDataChannel.MediaForwardingUnit
import AlloDataChannel.Rtp

/-!
# The sink of a `MediaForwardingUnit`

A unit rewrites each message of its ingress track and hands it to its egress track, from the first message whose lookup
finds a payload type until `stop()`.

* `Forwarder.sink` : the subscription, with its exits and traps;
* `forwarded` : what a unit ought to send, read off its events;
* `Forwarder.run_has` : a unit with a settled identity sends all that it tries;
* `Forwarder.run_unset` : a unit from its start on;
* `Forwarder.exists_step` : when the sink does not trap.
-/

namespace AlloDataChannel
open Lib (Scalars exec)

/-! ## One unit -/

/-- What `rtcGetTrackPayloadTypesForCodec` answers: the codes of the call without a buffer and of the one with it, and
what the latter writes. -/
structure PayloadTypeAnswers where
  needed : Int
  copied : Int
  pts : List Int
  deriving DecidableEq, Repr

/-- `UInt8($0)`, which traps outside of a byte. -/
def byteOfInt (x : Int) : Option UInt8 := if 0 ≤ x ∧ x ≤ 255 then some (UInt8.ofNat x.toNat) else none

/-- `payloadTypesForCodec`: the buffer starts as zeros. -/
def Track.payloadTypesForCodec (ans : PayloadTypeAnswers) : Option (Except Error (List UInt8)) :=
  match Error.orValue ans.needed with
  | .error e => some (.error e)
  | .ok needed =>
    match Error.orValue ans.copied with
    | .error e => some (.error e)
    | .ok _ => (((ans.pts ++ List.replicate needed.toNat 0).take needed.toNat).mapM byteOfInt).map .ok

/-- What the C library answers to one message: the payload types for `opus`, and the code of `rtcSendMessage`. -/
structure SinkAnswers where
  lookup : PayloadTypeAnswers
  code : Int
  deriving DecidableEq, Repr

/-- A unit with its egress track's `isOpen`, its subscription and all it has handed to `send`. -/
structure Forwarder where
  unit : MediaForwardingUnit
  isOpen : Bool
  subscribed : Bool := true
  sent : List Data := []

/-- The events of one unit. -/
inductive UnitEvent
  | arrival (message : Option Data) (ans : SinkAnswers)
  | opened
  | closed
  | stop (code : Int)

namespace MediaForwardingUnit

/-- The SSRC and the payload type of the sink, looked up unless both are set; `none` is `ssrcs.first!` or a payload type
that is no byte. -/
def resolve (u : MediaForwardingUnit) (lookup : PayloadTypeAnswers) :
    Option (Except Error (UInt32 × UInt8) × MediaForwardingUnit) :=
  match u.ssrc, u.pt with
  | some ssrc, some pt => some (.ok (ssrc, pt), u)
  | _, _ =>
    match u.egressTrack.ssrcs.head? with
    | none => none
    | some ssrc =>
      match Track.payloadTypesForCodec lookup with
      | none => none
      | some (.error e) => some (.error e, { u with ssrc := some ssrc })
      | some (.ok []) => some (.error .failure, { u with ssrc := some ssrc, pt := none })
      | some (.ok (pt :: _)) => some (.ok (ssrc, pt), { u with ssrc := some ssrc, pt := some pt })

end MediaForwardingUnit

namespace Forwarder

/-- The closure that `init` subscribes to `lastMessage`. -/
def sink (R : RtpLibrary) (f : Forwarder) (message : Option Data) (ans : SinkAnswers) : Option Forwarder :=
  match message with
  | none => some f
  | some data =>
    if f.isOpen then
      match f.unit.resolve ans.lookup with
      | none => none
      | some (.error e, unit) => some { f with unit := { unit with lastError := some (.peer e) } }
      | some (.ok (ssrc, pt), unit) =>
        let data := rewritten R ssrc pt data
        match Channel.send data ans.code with
        | none => none
        | some (.error e) =>
          some { f with unit := { unit with lastError := some (.peer e) }, sent := f.sent ++ [data] }
        | some (.ok _) =>
          some { f with
            unit := { unit with forwardedMessageCount := unit.forwardedMessageCount + 1 }
            sent := f.sent ++ [data] }
    else some f

/-- `stop()`; the code is that of `rtcChainPliHandler`, under a `try!`. The track is closed, and its closed callback
comes later. -/
def stop (f : Forwarder) (code : Int) : Option Forwarder :=
  match Error.orValue code with
  | .error _ => none
  | .ok _ => some { f with subscribed := false }

def step (R : RtpLibrary) (f : Forwarder) : UnitEvent → Option Forwarder
  | .arrival message ans => if f.subscribed then f.sink R message ans else some f
  | .opened => some { f with isOpen := true }
  | .closed => some { f with isOpen := false }
  | .stop code => f.stop code

end Forwarder

/-! ## What a unit ought to send -/

/-- A message with the answers to it. -/
structure Arrival where
  data : Data
  ans : SinkAnswers

/-- The non-nil messages that arrive before `stop()` while the egress track is open. -/
def attempts : Bool → List UnitEvent → List Arrival
  | _, [] => []
  | isOpen, .arrival none _ :: es => attempts isOpen es
  | isOpen, .arrival (some data) ans :: es =>
    if isOpen then ⟨data, ans⟩ :: attempts isOpen es else attempts isOpen es
  | _, .opened :: es => attempts true es
  | _, .closed :: es => attempts false es
  | _, .stop _ :: _ => []

/-- The payload type that the lookup of a message finds. -/
def Arrival.payloadType (a : Arrival) : Option UInt8 :=
  match Track.payloadTypesForCodec a.ans.lookup with
  | some (.ok (pt :: _)) => some pt
  | _ => none

/-- The messages from the first one whose lookup finds a payload type on. -/
def forwarded (isOpen : Bool) (es : List UnitEvent) : List Arrival :=
  (attempts isOpen es).dropWhile fun a => a.payloadType.isNone

/-- The number of messages that the C library took. -/
def accepted (as : List Arrival) : Nat := as.countP fun a => decide (0 ≤ a.ans.code)

namespace Forwarder
variable {R : RtpLibrary} {f f' : Forwarder} {ssrc : UInt32} {pt : UInt8}

/-- The messages still to be tried. -/
def remaining (f : Forwarder) (es : List UnitEvent) : List Arrival :=
  if f.subscribed then attempts f.isOpen es else []

/-- The message that an event makes the unit try. -/
def now (f : Forwarder) : UnitEvent → List Arrival
  | .arrival (some data) ans => if f.subscribed && f.isOpen then [⟨data, ans⟩] else []
  | _ => []

/-- The identity is settled. -/
structure Has (f : Forwarder) (ssrc : UInt32) (pt : UInt8) : Prop where
  ssrc : f.unit.ssrc = some ssrc
  pt : f.unit.pt = some pt

/-- From `f` to `f'` the unit has sent the messages `as` under one identity. -/
structure Sends (R : RtpLibrary) (f : Forwarder) (as : List Arrival) (ssrc : UInt32) (pt : UInt8) (f' : Forwarder) :
    Prop where
  has : f'.Has ssrc pt
  sent : f'.sent = f.sent ++ as.map fun a => rewritten R ssrc pt a.data
  count : f'.unit.forwardedMessageCount = f.unit.forwardedMessageCount + accepted as

theorem send_ok {data : Data} {code : Int} {r : Except Error Unit} (h : Channel.send data code = some r) :
    0 ≤ code ∧ r = .ok () ∨ code < 0 ∧ ∃ e, r = .error e := by
  obtain ⟨p, -, rfl⟩ := Option.map_eq_some_iff.mp h
  rcases lt_or_ge code 0 with hc | hc
  · rw [Error.orValue_of_neg hc]
    exact Or.inr ⟨hc, _, rfl⟩
  · rw [Error.orValue_of_nonneg hc]
    exact Or.inl ⟨hc, rfl⟩

/-- A message that gets past the lookup is sent, and counted if the C library takes it. -/
theorem sink_of_resolve {data : Data} {ans : SinkAnswers} {unit : MediaForwardingUnit} (hopen : f.isOpen = true)
    (hr : f.unit.resolve ans.lookup = some (.ok (ssrc, pt), unit))
    (h : f.sink R (some data) ans = some f') :
    f'.isOpen = f.isOpen ∧ f'.subscribed = f.subscribed ∧ f'.unit.egressTrack = unit.egressTrack ∧
      f'.unit.ssrc = unit.ssrc ∧ f'.unit.pt = unit.pt ∧ f'.sent = f.sent ++ [rewritten R ssrc pt data] ∧
      f'.unit.forwardedMessageCount = unit.forwardedMessageCount + accepted [⟨data, ans⟩] := by
  rw [sink, if_pos hopen, hr] at h
  dsimp only at h
  cases hsend : Channel.send (rewritten R ssrc pt data) ans.code with
  | none =>
    rw [hsend] at h
    cases h
  | some r =>
    rw [hsend] at h
    rcases send_ok hsend with ⟨hc, rfl⟩ | ⟨hc, e, rfl⟩
    · cases h
      refine ⟨rfl, rfl, rfl, rfl, rfl, rfl, ?_⟩
      unfold accepted
      rw [List.countP_singleton, if_pos (decide_eq_true hc)]
    · cases h
      refine ⟨rfl, rfl, rfl, rfl, rfl, rfl, ?_⟩
      unfold accepted
      rw [List.countP_singleton, if_neg]
      · rfl
      · intro hpos
        have hcode : 0 ≤ ans.code := of_decide_eq_true hpos
        omega

/-- A message whose lookup fails leaves the payload type unset and is not sent. -/
theorem sink_of_error {data : Data} {ans : SinkAnswers} {unit : MediaForwardingUnit} {e : Error}
    (hopen : f.isOpen = true) (hr : f.unit.resolve ans.lookup = some (.error e, unit))
    (h : f.sink R (some data) ans = some f') :
    f' = { f with unit := { unit with lastError := some (.peer e) } } := by
  rw [sink, if_pos hopen, hr] at h
  cases h
  rfl

theorem resolve_of_has (h : f.Has ssrc pt) (lookup : PayloadTypeAnswers) :
    f.unit.resolve lookup = some (.ok (ssrc, pt), f.unit) := by
  unfold MediaForwardingUnit.resolve
  rw [h.ssrc, h.pt]

/-- The lookup of a unit without a payload type. -/
theorem resolve_of_unset {u unit : MediaForwardingUnit} {a : Arrival} {r : Except Error (UInt32 × UInt8)}
    (hu : u.pt = none) (h : u.resolve a.ans.lookup = some (r, unit)) :
    ∃ ssrc, u.egressTrack.ssrcs.head? = some ssrc ∧
      (a.payloadType = none ∧ (∃ e, r = .error e) ∧ unit = { u with ssrc := some ssrc } ∨
        ∃ pt, a.payloadType = some pt ∧ r = .ok (ssrc, pt) ∧ unit = { u with ssrc := some ssrc, pt := some pt }) := by
  unfold MediaForwardingUnit.resolve at h
  split at h
  · next hpt =>
    rw [hu] at hpt
    cases hpt
  · cases hssrcs : u.egressTrack.ssrcs.head? with
    | none =>
      rw [hssrcs] at h
      cases h
    | some ssrc =>
      rw [hssrcs] at h
      refine ⟨ssrc, rfl, ?_⟩
      unfold Arrival.payloadType
      cases hl : Track.payloadTypesForCodec a.ans.lookup with
      | none =>
        rw [hl] at h
        cases h
      | some answer =>
        rw [hl] at h
        rcases answer with e | ⟨_ | ⟨pt, pts⟩⟩
        · cases h
          exact Or.inl ⟨rfl, ⟨e, rfl⟩, rfl⟩
        · cases h
          refine Or.inl ⟨rfl, ⟨_, rfl⟩, ?_⟩
          rw [← hu]
        · cases h
          exact Or.inr ⟨pt, rfl, rfl, rfl⟩

theorem resolve_egressTrack {u unit : MediaForwardingUnit} {lookup : PayloadTypeAnswers}
    {r : Except Error (UInt32 × UInt8)} (h : u.resolve lookup = some (r, unit)) :
    unit.egressTrack = u.egressTrack := by
  unfold MediaForwardingUnit.resolve at h
  split at h
  · cases h
    rfl
  · split at h
    · cases h
    · split at h
      · cases h
      · cases h
        rfl
      · cases h
        rfl
      · cases h
        rfl

/-- The sink leaves the subscription and the egress track as they are. -/
theorem sink_frame {message : Option Data} {ans : SinkAnswers} (h : f.sink R message ans = some f') :
    f'.isOpen = f.isOpen ∧ f'.subscribed = f.subscribed ∧ f'.unit.egressTrack = f.unit.egressTrack := by
  cases message with
  | none =>
    cases h
    exact ⟨rfl, rfl, rfl⟩
  | some data =>
    by_cases hopen : f.isOpen = true
    · cases hr : f.unit.resolve ans.lookup with
      | none =>
        rw [sink, if_pos hopen, hr] at h
        cases h
      | some p =>
        obtain ⟨r, unit⟩ := p
        have hegress := resolve_egressTrack hr
        cases r with
        | error e =>
          rw [sink_of_error hopen hr h]
          exact ⟨rfl, rfl, hegress⟩
        | ok id =>
          obtain ⟨ho, hs, he, -⟩ := sink_of_resolve hopen hr h
          exact ⟨ho, hs, he.trans hegress⟩
    · rw [sink, if_neg hopen] at h
      cases h
      exact ⟨rfl, rfl, rfl⟩

/-- A step tries a message, or leaves the unit as it is. -/
theorem step_cases {e : UnitEvent} (h : f.step R e = some f') :
    (f.now e = [] ∧ f'.unit = f.unit ∧ f'.sent = f.sent) ∨
      ∃ a : Arrival, f.now e = [a] ∧ f.isOpen = true ∧ f.sink R (some a.data) a.ans = some f' := by
  cases e with
  | arrival message ans =>
    rw [step] at h
    split at h
    · next hsub =>
      cases message with
      | none =>
        cases h
        exact Or.inl ⟨rfl, rfl, rfl⟩
      | some data =>
        by_cases hopen : f.isOpen = true
        · refine Or.inr ⟨⟨data, ans⟩, ?_, hopen, h⟩
          rw [now, hsub, hopen]
          rfl
        · rw [sink, if_neg hopen] at h
          cases h
          refine Or.inl ⟨?_, rfl, rfl⟩
          rw [now, if_neg (by simp [hopen])]
    · next hsub =>
      cases h
      refine Or.inl ⟨?_, rfl, rfl⟩
      cases message with
      | none => rfl
      | some data => rw [now, if_neg (by simp [hsub])]
  | opened =>
    cases h
    exact Or.inl ⟨rfl, rfl, rfl⟩
  | closed =>
    cases h
    exact Or.inl ⟨rfl, rfl, rfl⟩
  | stop code =>
    rw [step, stop] at h
    split at h
    · cases h
    · cases h
      exact Or.inl ⟨rfl, rfl, rfl⟩

theorem step_egressTrack {e : UnitEvent} (h : f.step R e = some f') :
    f'.unit.egressTrack = f.unit.egressTrack := by
  rcases step_cases h with ⟨-, hunit, -⟩ | ⟨a, -, -, hs⟩
  · rw [hunit]
  · exact (sink_frame hs).2.2

theorem remaining_nil (f : Forwarder) : f.remaining [] = [] := by
  unfold remaining
  split
  · rfl
  · rfl

/-- The messages to be tried are the one of the first event and those of the others. -/
theorem remaining_cons {e : UnitEvent} (h : f.step R e = some f') (es : List UnitEvent) :
    f.remaining (e :: es) = f.now e ++ f'.remaining es := by
  unfold remaining
  cases e with
  | arrival message ans =>
    rw [step] at h
    split at h
    · next hsub =>
      obtain ⟨hopen, hsub', -⟩ := sink_frame h
      rw [hopen, hsub', if_pos hsub, if_pos hsub]
      cases message with
      | none => rfl
      | some data =>
        rw [now, attempts, hsub, Bool.true_and]
        split
        · rfl
        · rfl
    · next hsub =>
      cases h
      rw [if_neg hsub, if_neg hsub]
      cases message with
      | none => rfl
      | some data => rw [now, if_neg (by simp [hsub])]; rfl
  | opened =>
    cases h
    rfl
  | closed =>
    cases h
    rfl
  | stop code =>
    rw [step, stop] at h
    split at h
    · cases h
    · cases h
      show (if f.subscribed then [] else []) = _
      split
      · rfl
      · rfl

theorem Sends.refl (h : f.Has ssrc pt) : Sends R f [] ssrc pt f :=
  ⟨h, (List.append_nil _).symm, rfl⟩

theorem Sends.trans {f₁ : Forwarder} {as bs : List Arrival} (h₁ : Sends R f as ssrc pt f₁)
    (h₂ : Sends R f₁ bs ssrc pt f') : Sends R f (as ++ bs) ssrc pt f' := by
  refine ⟨h₂.has, ?_, ?_⟩
  · rw [h₂.sent, h₁.sent, List.map_append, List.append_assoc]
  · rw [h₂.count, h₁.count]
    unfold accepted
    rw [List.countP_append]
    omega

/-- A step under a settled identity. -/
theorem step_has {e : UnitEvent} (hf : f.Has ssrc pt) (h : f.step R e = some f') :
    Sends R f (f.now e) ssrc pt f' := by
  rcases step_cases h with ⟨hnow, hunit, hsent⟩ | ⟨a, hnow, hopen, hs⟩
  · rw [hnow]
    refine ⟨⟨hunit ▸ hf.ssrc, hunit ▸ hf.pt⟩, ?_, ?_⟩
    · rw [hsent]
      exact (List.append_nil _).symm
    · rw [hunit]
      rfl
  · obtain ⟨-, -, -, hssrc, hpt, hsent, hcount⟩ := sink_of_resolve hopen (resolve_of_has hf a.ans.lookup) hs
    rw [hnow]
    exact ⟨⟨hssrc.trans hf.ssrc, hpt.trans hf.pt⟩, hsent, hcount⟩

/-- A run under a settled identity sends every message it tries. -/
theorem run_has {es : List UnitEvent} (hf : f.Has ssrc pt) (h : exec (step R) f es = some f') :
    Sends R f (f.remaining es) ssrc pt f' := by
  induction es generalizing f with
  | nil =>
    cases h
    rw [remaining_nil]
    exact Sends.refl hf
  | cons e es ih =>
    obtain ⟨f₁, hs, h⟩ := Option.bind_eq_some_iff.mp h
    rw [remaining_cons hs]
    have h₁ := step_has hf hs
    exact h₁.trans (ih h₁.has h)

/-- A step before the payload type is known: the message fails its lookup, or settles the identity and is sent. -/
theorem step_unset {e : UnitEvent} (hf : f.unit.pt = none) (h : f.step R e = some f') :
    (f'.unit.pt = none ∧ f'.sent = f.sent ∧
        f'.unit.forwardedMessageCount = f.unit.forwardedMessageCount ∧ ∀ a ∈ f.now e, a.payloadType = none) ∨
      ∃ a ssrc pt, f.now e = [a] ∧ a.payloadType = some pt ∧ f.unit.egressTrack.ssrcs.head? = some ssrc ∧
        Sends R f [a] ssrc pt f' := by
  rcases step_cases h with ⟨hnow, hunit, hsent⟩ | ⟨a, hnow, hopen, hs⟩
  · left
    rw [hunit, hsent, hnow]
    exact ⟨hf, rfl, rfl, fun a ha => absurd ha List.not_mem_nil⟩
  · cases hr : f.unit.resolve a.ans.lookup with
    | none =>
      rw [sink, if_pos hopen, hr] at hs
      cases hs
    | some p =>
      obtain ⟨r, unit⟩ := p
      obtain ⟨ssrc, hssrcs, ⟨hnone, ⟨e, rfl⟩, rfl⟩ | ⟨pt, hpt, rfl, rfl⟩⟩ := resolve_of_unset hf hr
      · left
        rw [sink_of_error hopen hr hs, hnow]
        refine ⟨hf, rfl, rfl, fun b hb => ?_⟩
        rw [List.mem_singleton.mp hb]
        exact hnone
      · obtain ⟨-, -, -, hssrc', hpt', hsent, hcount⟩ := sink_of_resolve hopen hr hs
        exact Or.inr ⟨a, ssrc, pt, hnow, hpt, hssrcs, ⟨hssrc', hpt'⟩, hsent, hcount⟩

/-- **A unit's run**, from before its payload type is known. -/
theorem run_unset {es : List UnitEvent} (hf : f.unit.pt = none) (h : exec (step R) f es = some f') :
    ((f.remaining es).dropWhile (fun a => a.payloadType.isNone) = [] ∧ f'.unit.pt = none ∧ f'.sent = f.sent ∧
        f'.unit.forwardedMessageCount = f.unit.forwardedMessageCount) ∨
      ∃ a as ssrc pt, (f.remaining es).dropWhile (fun a => a.payloadType.isNone) = a :: as ∧
        a.payloadType = some pt ∧ f.unit.egressTrack.ssrcs.head? = some ssrc ∧ Sends R f (a :: as) ssrc pt f' := by
  induction es generalizing f with
  | nil =>
    cases h
    rw [remaining_nil]
    exact Or.inl ⟨rfl, hf, rfl, rfl⟩
  | cons e es ih =>
    obtain ⟨f₁, hs, h⟩ := Option.bind_eq_some_iff.mp h
    rw [remaining_cons hs]
    rcases step_unset hf hs with ⟨hf₁, hsent, hcount, hnow⟩ | ⟨a, ssrc, pt, hnow, hpt, hssrcs, h₁⟩
    · have hdrop : (f.now e ++ f₁.remaining es).dropWhile (fun a => a.payloadType.isNone) =
          (f₁.remaining es).dropWhile fun a => a.payloadType.isNone :=
        List.dropWhile_append_of_pos fun a ha => by rw [hnow a ha]; rfl
      rw [hdrop, ← hsent, ← hcount, ← step_egressTrack hs]
      rcases ih hf₁ h with hnone | ⟨a, as, ssrc, pt, hd, hpt, hssrcs, h₂⟩
      · exact Or.inl hnone
      · refine Or.inr ⟨a, as, ssrc, pt, hd, hpt, hssrcs, h₂.has, ?_, ?_⟩
        · rw [← hsent]
          exact h₂.sent
        · rw [← hcount]
          exact h₂.count
    · right
      refine ⟨a, f₁.remaining es, ssrc, pt, ?_, hpt, hssrcs, h₁.trans (run_has h₁.has h)⟩
      rw [hnow, List.cons_append, List.nil_append, List.dropWhile_cons_of_neg]
      rw [hpt]
      exact Bool.false_ne_true

/-! ## Traps -/

/-- Payload types that fit a byte. -/
def Bytes (lookup : PayloadTypeAnswers) : Prop := ∀ pt ∈ lookup.pts, 0 ≤ pt ∧ pt ≤ 255

theorem exists_mapM_byteOfInt {pts : List Int} (h : ∀ pt ∈ pts, 0 ≤ pt ∧ pt ≤ 255) :
    ∃ bytes, pts.mapM byteOfInt = some bytes := by
  induction pts with
  | nil => exact ⟨[], rfl⟩
  | cons pt pts ih =>
    obtain ⟨bytes, hbytes⟩ := ih fun q hq => h q (List.mem_cons_of_mem pt hq)
    have hpt : byteOfInt pt = some (UInt8.ofNat pt.toNat) := if_pos (h pt List.mem_cons_self)
    rw [List.mapM_cons, hpt, hbytes]
    exact ⟨_, rfl⟩

theorem exists_payloadTypes {lookup : PayloadTypeAnswers} (h : Bytes lookup) :
    ∃ r, Track.payloadTypesForCodec lookup = some r := by
  unfold Track.payloadTypesForCodec
  split
  · exact ⟨_, rfl⟩
  · next needed _ =>
    split
    · exact ⟨_, rfl⟩
    · have hbuffer : ∀ pt ∈ (lookup.pts ++ List.replicate needed.toNat 0).take needed.toNat, 0 ≤ pt ∧ pt ≤ 255 := by
        intro pt hpt
        rcases List.mem_append.mp (List.mem_of_mem_take hpt) with hpt | hpt
        · exact h pt hpt
        · rw [List.eq_of_mem_replicate hpt]
          omega
      obtain ⟨bytes, hbytes⟩ := exists_mapM_byteOfInt hbuffer
      rw [hbytes]
      exact ⟨_, rfl⟩

theorem exists_resolve {u : MediaForwardingUnit} (h : u.egressTrack.ssrcs ≠ []) {lookup : PayloadTypeAnswers}
    (hl : Bytes lookup) : ∃ r unit, u.resolve lookup = some (r, unit) := by
  unfold MediaForwardingUnit.resolve
  split
  · exact ⟨_, _, rfl⟩
  · obtain ⟨ssrc, rest, hcons⟩ := List.exists_cons_of_ne_nil h
    obtain ⟨answer, hanswer⟩ := exists_payloadTypes hl
    rw [hcons, hanswer]
    rcases answer with e | ⟨_ | ⟨pt, pts⟩⟩
    · exact ⟨_, _, rfl⟩
    · exact ⟨_, _, rfl⟩
    · exact ⟨_, _, rfl⟩

theorem exists_send {data : Data} (h : data.length ≤ int32Max) (code : Int) : ∃ r, Channel.send data code = some r := by
  unfold Channel.send Channel.sendArgs
  rw [if_pos h]
  exact ⟨_, rfl⟩

/-- A message that fits the C `int` with payload types that fit a byte, or a `stop()` whose handler can be chained. -/
def Fits : UnitEvent → Prop
  | .arrival (some data) ans => data.length ≤ int32Max ∧ Bytes ans.lookup
  | .stop code => 0 ≤ code
  | _ => True

/-- A unit whose egress track lists an SSRC does not trap. -/
theorem exists_step {e : UnitEvent} (hf : f.unit.egressTrack.ssrcs ≠ []) (he : Fits e) :
    ∃ f', f.step R e = some f' := by
  cases e with
  | arrival message ans =>
    rw [step]
    split
    · cases message with
      | none => exact ⟨f, rfl⟩
      | some data =>
        obtain ⟨r, unit, hr⟩ := exists_resolve hf he.2
        rw [sink, hr]
        split
        · rcases r with e | ⟨ssrc, pt⟩
          · exact ⟨_, rfl⟩
          · have hlen : (rewritten R ssrc pt data).length ≤ int32Max := by
              rw [length_rewritten]
              exact he.1
            obtain ⟨r, hsend⟩ := exists_send hlen ans.code
            dsimp only
            rw [hsend]
            rcases r with e | u
            · exact ⟨_, rfl⟩
            · exact ⟨_, rfl⟩
        · exact ⟨f, rfl⟩
    · exact ⟨f, rfl⟩
  | opened => exact ⟨_, rfl⟩
  | closed => exact ⟨_, rfl⟩
  | stop code =>
    rw [step, stop, Error.orValue_of_nonneg he]
    exact ⟨_, rfl⟩

end Forwarder

end AlloDataChannel

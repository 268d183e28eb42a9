import AlloDataChannel.Sink

/-!
# Forwarding over whole runs

Any number of units listen to one ingress track. Each assignment to `lastMessage` goes to every subscribed unit.

* `Forwarding`, `Forwarding.step` : the ingress track and its units, one event at a time;
* `exec_unit` : a unit in a run of them all is the unit alone on its own events;
* `Forwarding.exists_exec` : the runs without traps;
* `Forwarding.forwarding_law` : runs of any number of units.
-/

namespace AlloDataChannel
open Lib (Scalars exec)

/-! ## One ingress track -/

structure Forwarding where
  ingress : Track
  lastMessage : Option Data := none
  units : List Forwarder := []

/-- The events of the ingress track and its units, with the answers to each unit. `assign` is an assignment to
`lastMessage`, `attach` the subscription that ends the initialiser of a unit. -/
inductive ForwardingEvent
  | assign (message : Option Data) (ans : Nat → SinkAnswers)
  | attach (egress : Track) (isOpen : Bool) (ans : SinkAnswers)
  | opened (i : Nat)
  | closed (i : Nat)
  | stop (i : Nat) (code : Int)

namespace Forwarding

/-- The assignment goes to one unit after the other. -/
def deliver (R : RtpLibrary) (message : Option Data) (ans : Nat → SinkAnswers) : Nat → List Forwarder →
    Option (List Forwarder)
  | _, [] => some []
  | i, f :: fs => do
    let f' ← f.step R (.arrival message (ans i))
    let fs' ← deliver R message ans (i + 1) fs
    pure (f' :: fs')

/-- An event of the unit `i` alone. -/
def onUnit (R : RtpLibrary) (w : Forwarding) (i : Nat) (e : UnitEvent) : Option Forwarding :=
  match w.units[i]? with
  | none => some w
  | some f => (f.step R e).map fun f' => { w with units := w.units.set i f' }

/-- A unit as its initialiser leaves it. -/
def newUnit (w : Forwarding) (egress : Track) (isOpen : Bool) : Forwarder :=
  { unit := { ingressTrack := w.ingress, egressTrack := egress }, isOpen := isOpen }

def step (R : RtpLibrary) (w : Forwarding) : ForwardingEvent → Option Forwarding
  | .assign message ans =>
    (deliver R message ans 0 w.units).map fun units => { w with lastMessage := message, units := units }
  | .attach egress isOpen ans =>
    ((w.newUnit egress isOpen).step R (.arrival w.lastMessage ans)).map fun f => { w with units := w.units ++ [f] }
  | .opened i => w.onUnit R i .opened
  | .closed i => w.onUnit R i .closed
  | .stop i code => w.onUnit R i (.stop code)

end Forwarding

/-- What an event is for the unit `i`. -/
def ForwardingEvent.view (i : Nat) : ForwardingEvent → Option UnitEvent
  | .assign message ans => some (.arrival message (ans i))
  | .attach _ _ _ => none
  | .opened j => if j = i then some .opened else none
  | .closed j => if j = i then some .closed else none
  | .stop j code => if j = i then some (.stop code) else none

/-- The events of the unit `i`. -/
def trace (i : Nat) (es : List ForwardingEvent) : List UnitEvent := es.filterMap (ForwardingEvent.view i)

section Project
variable {R : RtpLibrary} {w w' : Forwarding}

theorem deliver_getElem? {message : Option Data} {ans : Nat → SinkAnswers} {n i : Nat} {fs fs' : List Forwarder}
    {f : Forwarder} (h : Forwarding.deliver R message ans n fs = some fs') (hf : fs[i]? = some f) :
    ∃ f', f.step R (.arrival message (ans (n + i))) = some f' ∧ fs'[i]? = some f' := by
  induction fs generalizing n i fs' with
  | nil => cases hf
  | cons g gs ih =>
    obtain ⟨g', hg, h⟩ := Option.bind_eq_some_iff.mp h
    obtain ⟨gs', hgs, h⟩ := Option.bind_eq_some_iff.mp h
    cases h
    cases i with
    | zero =>
      cases hf
      exact ⟨g', hg, rfl⟩
    | succ i =>
      obtain ⟨f', hs, hf'⟩ := ih hgs hf
      refine ⟨f', ?_, hf'⟩
      rw [show n + (i + 1) = n + 1 + i by omega]
      exact hs

/-- An event of the unit `j`, for the unit `i`. -/
theorem onUnit_getElem? {i j : Nat} {e : UnitEvent} {f : Forwarder} (h : w.onUnit R j e = some w')
    (hf : w.units[i]? = some f) :
    ∃ f', exec (Forwarder.step R) f (if j = i then some e else none).toList = some f' ∧ w'.units[i]? = some f' := by
  unfold Forwarding.onUnit at h
  by_cases hij : j = i
  · subst hij
    rw [hf] at h
    obtain ⟨f', hs, rfl⟩ := Option.map_eq_some_iff.mp h
    have hlt := (List.getElem?_eq_some_iff.mp hf).1
    refine ⟨f', ?_, List.getElem?_set_self hlt⟩
    rw [if_pos rfl, Option.toList_some, Lib.exec_cons, hs]
    rfl
  · rw [if_neg hij]
    refine ⟨f, rfl, ?_⟩
    split at h
    · cases h
      exact hf
    · obtain ⟨g, -, rfl⟩ := Option.map_eq_some_iff.mp h
      rw [← hf]
      exact List.getElem?_set_ne hij

theorem step_unit {i : Nat} {e : ForwardingEvent} {f : Forwarder} (h : w.step R e = some w')
    (hf : w.units[i]? = some f) :
    ∃ f', exec (Forwarder.step R) f (e.view i).toList = some f' ∧ w'.units[i]? = some f' := by
  cases e with
  | assign message ans =>
    obtain ⟨units, hd, rfl⟩ := Option.map_eq_some_iff.mp h
    obtain ⟨f', hs, hf'⟩ := deliver_getElem? hd hf
    rw [Nat.zero_add] at hs
    refine ⟨f', ?_, hf'⟩
    show (f.step R (.arrival message (ans i))).bind some = some f'
    rw [hs]
    rfl
  | attach egress isOpen ans =>
    obtain ⟨g, -, rfl⟩ := Option.map_eq_some_iff.mp h
    refine ⟨f, rfl, ?_⟩
    rw [List.getElem?_append_left (List.getElem?_eq_some_iff.mp hf).1, hf]
  | opened j => exact onUnit_getElem? h hf
  | closed j => exact onUnit_getElem? h hf
  | stop j code => exact onUnit_getElem? h hf

/-- **Units are independent.** In a run of them all, each unit does what it does alone on its own events. -/
theorem exec_unit {i : Nat} {es : List ForwardingEvent} {f : Forwarder}
    (h : exec (Forwarding.step R) w es = some w') (hf : w.units[i]? = some f) :
    ∃ f', exec (Forwarder.step R) f (trace i es) = some f' ∧ w'.units[i]? = some f' := by
  induction es generalizing w f with
  | nil =>
    cases h
    exact ⟨f, rfl, hf⟩
  | cons e es ih =>
    obtain ⟨w₁, hs, h⟩ := Option.bind_eq_some_iff.mp h
    obtain ⟨f₁, hs₁, hf₁⟩ := step_unit hs hf
    obtain ⟨f', hs', hf'⟩ := ih h hf₁
    refine ⟨f', ?_, hf'⟩
    have htrace : trace i (e :: es) = (e.view i).toList ++ trace i es := by
      unfold trace
      rw [List.filterMap_cons]
      cases e.view i <;> rfl
    rw [htrace, Lib.exec_append, hs₁]
    exact hs'

end Project

namespace Forwarding
variable {R : RtpLibrary} {w w' : Forwarding}

/-- The last message fits the C `int`, and every egress track lists an SSRC. -/
structure Ready (w : Forwarding) : Prop where
  lastMessage : ∀ data, w.lastMessage = some data → data.length ≤ int32Max
  units : ∀ f ∈ w.units, f.unit.egressTrack.ssrcs ≠ []

def Fits : ForwardingEvent → Prop
  | .assign message ans =>
    (∀ data, message = some data → data.length ≤ int32Max) ∧ ∀ i, Forwarder.Bytes (ans i).lookup
  | .attach egress _ ans => egress.ssrcs ≠ [] ∧ Forwarder.Bytes ans.lookup
  | .stop _ code => 0 ≤ code
  | _ => True

theorem fits_arrival {message : Option Data} {ans : SinkAnswers}
    (h : ∀ data, message = some data → data.length ≤ int32Max) (hl : Forwarder.Bytes ans.lookup) :
    Forwarder.Fits (.arrival message ans) := by
  cases message with
  | none => trivial
  | some data => exact ⟨h data rfl, hl⟩

theorem exists_deliver {message : Option Data} {ans : Nat → SinkAnswers} {fs : List Forwarder} (n : Nat)
    (hm : ∀ data, message = some data → data.length ≤ int32Max) (hl : ∀ i, Forwarder.Bytes (ans i).lookup)
    (hfs : ∀ f ∈ fs, f.unit.egressTrack.ssrcs ≠ []) :
    ∃ fs', deliver R message ans n fs = some fs' ∧ ∀ f ∈ fs', f.unit.egressTrack.ssrcs ≠ [] := by
  induction fs generalizing n with
  | nil => exact ⟨[], rfl, fun f hf => absurd hf List.not_mem_nil⟩
  | cons f fs ih =>
    have hf := hfs f List.mem_cons_self
    obtain ⟨f', hs⟩ := Forwarder.exists_step (R := R) hf (fits_arrival hm (hl n))
    obtain ⟨fs', hd, hfs'⟩ := ih (n + 1) fun g hg => hfs g (List.mem_cons_of_mem f hg)
    refine ⟨f' :: fs', ?_, fun g hg => ?_⟩
    · rw [deliver, hs, hd]
      rfl
    · rcases List.mem_cons.mp hg with rfl | hg
      · rw [Forwarder.step_egressTrack hs]
        exact hf
      · exact hfs' g hg

theorem exists_onUnit {i : Nat} {e : UnitEvent} (hw : w.Ready) (he : Forwarder.Fits e) :
    ∃ w', w.onUnit R i e = some w' ∧ w'.Ready := by
  unfold onUnit
  cases hf : w.units[i]? with
  | none => exact ⟨w, rfl, hw⟩
  | some f =>
    have hssrcs := hw.units f (List.mem_of_getElem? hf)
    obtain ⟨f', hs⟩ := Forwarder.exists_step (R := R) hssrcs he
    dsimp only
    rw [hs]
    refine ⟨_, rfl, hw.lastMessage, fun g hg => ?_⟩
    rcases List.mem_or_eq_of_mem_set hg with hg | rfl
    · exact hw.units g hg
    · rw [Forwarder.step_egressTrack hs]
      exact hssrcs

theorem exists_step {e : ForwardingEvent} (hw : w.Ready) (he : Fits e) : ∃ w', w.step R e = some w' ∧ w'.Ready := by
  cases e with
  | assign message ans =>
    obtain ⟨fs', hd, hfs'⟩ := exists_deliver (R := R) 0 he.1 he.2 hw.units
    rw [step, hd]
    exact ⟨_, rfl, he.1, hfs'⟩
  | attach egress isOpen ans =>
    obtain ⟨f', hs⟩ := Forwarder.exists_step (R := R) (f := w.newUnit egress isOpen) he.1
      (fits_arrival hw.lastMessage he.2)
    rw [step, hs]
    refine ⟨_, rfl, hw.lastMessage, fun g hg => ?_⟩
    rcases List.mem_append.mp hg with hg | hg
    · exact hw.units g hg
    · rw [List.mem_singleton.mp hg, Forwarder.step_egressTrack hs]
      exact he.1
  | opened i => exact exists_onUnit hw trivial
  | closed i => exact exists_onUnit hw trivial
  | stop i code => exact exists_onUnit hw he

theorem exists_exec {es : List ForwardingEvent} (hw : w.Ready) (hes : ∀ e ∈ es, Fits e) :
    ∃ w', exec (step R) w es = some w' := by
  induction es generalizing w with
  | nil => exact ⟨w, rfl⟩
  | cons e es ih =>
    obtain ⟨w₁, hs, hw₁⟩ := exists_step (R := R) hw (hes e List.mem_cons_self)
    obtain ⟨w', h⟩ := ih hw₁ fun e' he' => hes e' (List.mem_cons_of_mem e he')
    refine ⟨w', ?_⟩
    rw [Lib.exec_cons, hs]
    exact h

/-- The events of a unit from its subscription on: the current message first. -/
def history (w : Forwarding) (ans : SinkAnswers) (es : List ForwardingEvent) : List UnitEvent :=
  .arrival w.lastMessage ans :: trace w.units.length es

theorem exec_attach {egress : Track} {isOpen : Bool} {ans : SinkAnswers} {es : List ForwardingEvent}
    (h : exec (step R) w (.attach egress isOpen ans :: es) = some w') :
    ∃ f, exec (Forwarder.step R) (w.newUnit egress isOpen) (w.history ans es) = some f ∧
      w'.units[w.units.length]? = some f := by
  obtain ⟨w₁, hs, h⟩ := Option.bind_eq_some_iff.mp h
  obtain ⟨f₁, hs₁, rfl⟩ := Option.map_eq_some_iff.mp hs
  obtain ⟨f, hf, hget⟩ := exec_unit h (f := f₁) List.getElem?_concat_length
  refine ⟨f, ?_, hget⟩
  rw [history, Lib.exec_cons, hs₁]
  exact hf

/-- What holds of the units in every run from `w`. -/
structure Law (R : RtpLibrary) (w : Forwarding) : Prop where
  /-- A new unit sends the messages that it ought to send, in order, under one identity. -/
  faithful : ∀ egress isOpen ans es w', exec (step R) w (.attach egress isOpen ans :: es) = some w' →
    ∃ f ssrc pt, w'.units[w.units.length]? = some f ∧
      (forwarded isOpen (w.history ans es) ≠ [] → f.Has ssrc pt) ∧
      f.sent = (forwarded isOpen (w.history ans es)).map (fun a => rewritten R ssrc pt a.data) ∧
      f.unit.forwardedMessageCount = accepted (forwarded isOpen (w.history ans es))
  stable : ∀ (i : Nat) es w' (f : Forwarder) ssrc pt, exec (step R) w es = some w' → w.units[i]? = some f →
    f.Has ssrc pt →
    ∃ f' : Forwarder, w'.units[i]? = some f' ∧ f'.Has ssrc pt
  /-- Two runs that are one for a unit leave it alike, whatever the others do. -/
  independent : ∀ (v v' w' : Forwarding) (i j : Nat) es es' f, w.units[i]? = some f → v.units[j]? = some f →
    trace i es = trace j es' → exec (step R) w es = some w' → exec (step R) v es' = some v' →
    w'.units[i]? = v'.units[j]?
  progress : w.Ready → ∀ es, (∀ e ∈ es, Fits e) → ∃ w', exec (step R) w es = some w'

/-- **Faithful forwarding**, from every state of an ingress track and its units. -/
theorem forwarding_law (R : RtpLibrary) (w : Forwarding) : Law R w where
  faithful egress isOpen ans es w' h := by
    obtain ⟨f, hf, hget⟩ := exec_attach h
    rcases Forwarder.run_unset (f := w.newUnit egress isOpen) rfl hf with ⟨hnil, -, hsent, hcount⟩ |
      ⟨a, as, ssrc, pt, hcons, -, -, hsends⟩
    · have hfwd : forwarded isOpen (w.history ans es) = [] := hnil
      rw [hfwd]
      exact ⟨f, 0, 0, hget, fun hne => absurd rfl hne, hsent, hcount⟩
    · have hfwd : forwarded isOpen (w.history ans es) = a :: as := hcons
      rw [hfwd]
      refine ⟨f, ssrc, pt, hget, fun _ => hsends.has, hsends.sent, ?_⟩
      rw [hsends.count]
      exact Nat.zero_add _
  stable i es w' f ssrc pt h hget hf := by
    obtain ⟨f', hf', hget'⟩ := exec_unit h hget
    exact ⟨f', hget', (Forwarder.run_has hf hf').has⟩
  independent v v' w' i j es es' f hi hj htrace h h' := by
    obtain ⟨f₁, hf₁, hget₁⟩ := exec_unit h hi
    obtain ⟨f₂, hf₂, hget₂⟩ := exec_unit h' hj
    rw [htrace, hf₂] at hf₁
    rw [hget₁, hget₂, hf₁]
  progress hw es hes := exists_exec hw hes

end Forwarding

/-! ## The identity of what is sent -/

/-- The payload type that the first forwarded message settles. -/
def negotiated (as : List Arrival) : Option UInt8 := as.head?.bind Arrival.payloadType

/-- Each buffer is its message under the egress track's SSRC and the negotiated payload type. -/
def Identified (egress : Track) (as : List Arrival) (sent : List Data) : Prop :=
  ∃ ssrc pt, (as ≠ [] → egress.ssrcs.head? = some ssrc ∧ negotiated as = some pt) ∧
    List.Forall₂ (HasIdentity ssrc pt) (as.map Arrival.data) sent

theorem forall₂_rewritten {R : RtpLibrary} {ssrc : UInt32} {pt : UInt8} {as : List Arrival} :
    List.Forall₂ (HasIdentity ssrc pt) (as.map Arrival.data) (as.map fun a => rewritten R ssrc pt a.data) ↔
      ∀ a ∈ as, 12 ≤ a.data.length ∧ pt < 128 := by
  rw [List.forall₂_map_left_iff, List.forall₂_map_right_iff, List.forall₂_same]
  exact forall₂_congr fun a _ => hasIdentity_iff

/-- **RTP identities.** In every run, what a unit sends carries its identity exactly when every message that it forwards
has a header and the negotiated payload type fits seven bits. -/
theorem forwarded_identity {R : RtpLibrary} {w w' : Forwarding} {egress : Track} {isOpen : Bool} {ans : SinkAnswers}
    {es : List ForwardingEvent}
    (h : exec (Forwarding.step R) w (.attach egress isOpen ans :: es) = some w') :
    ∃ f, w'.units[w.units.length]? = some f ∧
      (Identified egress (forwarded isOpen (w.history ans es)) f.sent ↔
        ∀ a ∈ forwarded isOpen (w.history ans es), 12 ≤ a.data.length ∧
          ∀ pt, negotiated (forwarded isOpen (w.history ans es)) = some pt → pt < 128) := by
  obtain ⟨f, hf, hget⟩ := Forwarding.exec_attach h
  refine ⟨f, hget, ?_⟩
  rcases Forwarder.run_unset (f := w.newUnit egress isOpen) rfl hf with ⟨hnil, -, hsent, -⟩ |
    ⟨a, as, ssrc, pt, hcons, hpt, hssrcs, hsends⟩
  · have hfwd : forwarded isOpen (w.history ans es) = [] := hnil
    have hnone : f.sent = [] := hsent
    rw [hfwd, hnone]
    refine ⟨fun _ a ha => absurd ha List.not_mem_nil, fun _ => ⟨0, 0, fun hne => absurd rfl hne, .nil⟩⟩
  · have hfwd : forwarded isOpen (w.history ans es) = a :: as := hcons
    have hsent : f.sent = (a :: as).map fun b => rewritten R ssrc pt b.data := hsends.sent
    have hneg : negotiated (a :: as) = some pt := hpt
    rw [hfwd, hsent, hneg]
    refine ⟨fun hid b hb => ?_, fun hall => ⟨ssrc, pt, fun _ => ⟨hssrcs, hneg⟩, ?_⟩⟩
    · obtain ⟨ssrc', pt', hids, hforall⟩ := hid
      obtain ⟨hssrc', hpt'⟩ := hids (List.cons_ne_nil a as)
      rw [hneg, Option.some.injEq] at hpt'
      have hssrc : ssrc' = ssrc := Option.some.inj (hssrc'.symm.trans hssrcs)
      rw [← hpt', hssrc] at hforall
      obtain ⟨hlen, hlt⟩ := forall₂_rewritten.mp hforall b hb
      refine ⟨hlen, fun pt'' he => ?_⟩
      rw [← Option.some.inj he]
      exact hlt
    · exact forall₂_rewritten.mpr fun b hb => ⟨(hall b hb).1, (hall b hb).2 pt rfl⟩

def exampleEgress : Track :=
  { ref := 1, id := 2, streamId := "a.cam".toList, trackId := "audio".toList, direction := .sendonly, ssrcs := [5] }

def exampleAnswers : SinkAnswers where
  lookup := { needed := 1, copied := 1, pts := [97] }
  code := 0

/-- One unit, opened, and one message. -/
def exampleEvents (data : Data) : List ForwardingEvent :=
  [.opened 0, .assign (some data) fun _ => exampleAnswers]

def exampleStart : Forwarding := { ingress := remoteTrack "cam".toList }

/-- A header alone, with the marker bit set. -/
def examplePacket : Data := [128, 200, 0, 1, 0, 0, 0, 2, 9, 9, 9, 9]

theorem forwarding_law_example : ∃ w' f ssrc pt, exec (Forwarding.step .packed) exampleStart
      (.attach exampleEgress false exampleAnswers :: exampleEvents examplePacket) = some w' ∧
    w'.units[0]? = some f ∧ f.Has ssrc pt ∧ f.sent = [rewritten .packed ssrc pt examplePacket] ∧
    f.unit.forwardedMessageCount = 1 := by
  have hlaw := Forwarding.forwarding_law .packed exampleStart
  obtain ⟨f, ssrc, pt, hget, hhas, hsent, hcount⟩ := hlaw.faithful exampleEgress false exampleAnswers
    (exampleEvents examplePacket) _ rfl
  have hfwd : forwarded false (exampleStart.history exampleAnswers (exampleEvents examplePacket)) =
      [⟨examplePacket, exampleAnswers⟩] := rfl
  rw [hfwd] at hhas hsent hcount
  exact ⟨_, f, ssrc, pt, rfl, hget, hhas (List.cons_ne_nil _ _), hsent, hcount⟩

/-- A message of three bytes is sent and counted as it came. -/
theorem forwarded_short : ∃ w' f,
    exec (Forwarding.step .packed) exampleStart
      (.attach exampleEgress false exampleAnswers :: exampleEvents [1, 2, 3]) = some w' ∧
    w'.units[0]? = some f ∧ f.sent = [[1, 2, 3]] ∧ f.unit.forwardedMessageCount = 1 ∧
    ¬ Identified exampleEgress
      (forwarded false (exampleStart.history exampleAnswers (exampleEvents [1, 2, 3]))) f.sent := by
  refine ⟨_, _, rfl, rfl, rfl, rfl, fun hid => ?_⟩
  obtain ⟨ssrc, pt, -, hforall⟩ := hid
  have hfwd : (forwarded false (exampleStart.history exampleAnswers (exampleEvents [1, 2, 3]))).map Arrival.data =
      [[1, 2, 3]] := rfl
  rw [hfwd] at hforall
  cases hforall with
  | cons hid _ => exact absurd hid.header (by decide)

theorem forwarded_identity_example : ∃ w' f,
    exec (Forwarding.step .packed) exampleStart
      (.attach exampleEgress false exampleAnswers :: exampleEvents examplePacket) = some w' ∧
    w'.units[0]? = some f ∧ f.sent = [[128, 225, 0, 1, 0, 0, 0, 2, 0, 0, 0, 5]] ∧
    Identified exampleEgress (forwarded false (exampleStart.history exampleAnswers (exampleEvents examplePacket)))
      f.sent := by
  refine ⟨_, _, rfl, rfl, rfl, ?_⟩
  obtain ⟨f, hf, hiff⟩ := @forwarded_identity .packed exampleStart _ exampleEgress false exampleAnswers
    (exampleEvents examplePacket) rfl
  cases hf
  apply hiff.mpr
  intro a ha
  have hfwd : forwarded false (exampleStart.history exampleAnswers (exampleEvents examplePacket)) =
      [⟨examplePacket, exampleAnswers⟩] := rfl
  rw [hfwd] at ha ⊢
  rw [List.mem_singleton.mp ha]
  refine ⟨by decide, fun pt hpt => ?_⟩
  cases hpt
  decide

end AlloDataChannel

import AlloDataChannel.SfuSteps

/-!
# What the SFU of the examples does

* `sfu_delivery` : what each receiver is sent, in every run, and when no receiver misses a message;
* `sfu_traps` : in every reachable state, when a message traps;
* `sfu_requests` : the keyframe requests that reach the sender.
-/

namespace AlloDataChannel
open Lib (Segmentation Run exec Gate observe passed wanted)

namespace Sfu

/-- A run of the process from the subscription on. -/
structure Started (S : Segmentation) (R : RtpLibrary) (kind : Int → ChannelKind) (s₀ : Sfu) (es : List SfuEvent)
    (s : Sfu) : Prop where
  setup : ∃ ans session, setup S ans session = some (some s₀) ∧ (0 ≤ ans.code → kind ans.code = .track)
  run : Run (step S R) (Offered kind) s₀ es s

/-- All that was handed to `send` for the receiver `i`. -/
def sentTo (s : Sfu) (i : Nat) : List Data := (s.receivers[i]?.map Receiver.sent).getD []

/-- The rewritten messages of a run, among the openings and closings of the receivers' tracks. -/
def rounds (S : Segmentation) (R : RtpLibrary) (s₀ : Sfu) (es : List SfuEvent) : List (Lib.FanEvent Data) :=
  observe (step S R) (view R) s₀ es

theorem takenAt_gates (s : Sfu) (i : Nat) : Gate.takenAt s.gates i = s.sentTo i := by
  unfold Gate.takenAt gates sentTo
  rw [List.getElem?_map, Option.map_map]
  rfl

section Law
variable {S : Segmentation} {R : RtpLibrary} {kind : Int → ChannelKind} {s₀ s : Sfu} {es : List SfuEvent}

theorem Started.inv (h : Started S R kind s₀ es s) : s.Inv kind := by
  obtain ⟨ans, session, hsetup, hk⟩ := h.setup
  exact inv_of_run h.run (setup_spec hk hsetup).1

/-! ## Delivery -/

/-- What the receivers are sent. -/
structure Delivery (rounds : List (Lib.FanEvent Data)) (s : Sfu) : Prop where
  /-- A receiver is sent the messages that come while its track and those of all receivers before it are open. -/
  sent : ∀ i, s.sentTo i = passed i [] rounds
  /-- No receiver misses a message while its track is open exactly when, at each message, the receivers whose tracks are
  open come first. -/
  complete : (∀ i, s.sentTo i = wanted i [] rounds) ↔ Lib.AtOffers Lib.OpenFirst [] rounds

/-- **Delivery**, in every run of the SFU. -/
theorem sfu_delivery (h : Started S R kind s₀ es s) : Delivery (rounds S R s₀ es) s := by
  obtain ⟨ans, session, hsetup, hk⟩ := h.setup
  obtain ⟨hinv, hnone, -, -⟩ := setup_spec hk hsetup
  have hsteps : ∀ (s : Sfu) (e : SfuEvent) (t : Sfu), s.Inv kind → s.Offered kind e → s.step S R e = some t →
      t.Inv kind ∧ t.gates = (s.view R e).foldl Gate.step s.gates := fun s e t hi henv hs =>
    ⟨(stepped_of_step hi henv hs).inv, (stepped_of_step hi henv hs).gates⟩
  obtain ⟨-, hgates⟩ := h.run.refines hsteps hinv
  have hstart : s₀.gates = [] := by
    unfold gates
    rw [hnone]
    rfl
  have hsent : ∀ i, s.sentTo i = passed i [] (rounds S R s₀ es) := by
    intro i
    have hlaw := Gate.takenAt_run s₀.gates (rounds S R s₀ es) i
    rw [hstart] at hlaw hgates
    rw [← takenAt_gates, hgates]
    exact hlaw
  refine ⟨hsent, ?_⟩
  rw [← Lib.passed_eq_wanted_iff]
  exact forall_congr' fun i => by rw [hsent i]

/-! ## Traps -/

/-- The receivers before the newest one are open, and that one has no track yet. -/
def Unfinished (s : Sfu) : Prop :=
  (s.stage = .observe ∨ s.stage = .createTrack) ∧
    ∀ i (r : Receiver), i + 1 < s.receivers.length → s.receivers[i]? = some r → r.isOpen = true

/-- The message does not fit the C `int`, and the first receiver is open. -/
def TooLong (s : Sfu) (data : Data) : Prop :=
  int32Max < data.length ∧ ∃ r : Receiver, s.receivers[0]? = some r ∧ r.isOpen = true

theorem length_rewriteSSRC (data : Data) (ssrc : UInt32) : (RtpHeaderRewriteSSRC R data ssrc).length = data.length := by
  by_cases h : 12 ≤ data.length
  · have hdata := RtpHeader.bytes_overlay ⟨data, h⟩
    dsimp only at hdata
    rw [← hdata, rewriteSSRC_eq, List.length_append, List.length_append, RtpHeader.length_bytes,
      RtpHeader.length_bytes]
  · unfold RtpHeaderRewriteSSRC
    rw [dif_neg h]

/-- The loop of the sink traps at the first receiver that has no track, or that is open for a message that is too
long. -/
theorem forward_eq_none_iff {data : Data} {codes : Nat → Int} {i : Nat} {rs : List Receiver} :
    forward R (some data) codes i rs = none ↔
      ∃ (k : Nat) (r : Receiver), rs[k]? = some r ∧ (∀ j < k, ∃ r' : Receiver, rs[j]? = some r' ∧ r'.isOpen = true) ∧
        (r.track = none ∨ int32Max < data.length ∧ r.isOpen = true) := by
  induction rs generalizing i with
  | nil => exact ⟨fun h => (nomatch h), fun ⟨k, r, hr, _⟩ => (nomatch hr)⟩
  | cons r rs ih =>
    cases htrack : r.track with
    | none => exact ⟨fun _ => ⟨0, r, rfl, fun j hj => absurd hj (Nat.not_lt_zero j), Or.inl htrack⟩,
        fun _ => forward_missing htrack⟩
    | some track =>
      cases hopen : r.isOpen with
      | false =>
        rw [forward_closed htrack hopen]
        refine ⟨fun h => (nomatch h), fun ⟨k, x, hx, hbefore, hor⟩ => ?_⟩
        cases k with
        | zero =>
          rw [List.getElem?_cons_zero, Option.some.injEq] at hx
          subst hx
          rw [htrack, hopen] at hor
          rcases hor with hno | ⟨-, hno⟩
          · cases hno
          · cases hno
        | succ k =>
          obtain ⟨r', hr', ho⟩ := hbefore 0 (Nat.zero_lt_succ k)
          rw [List.getElem?_cons_zero, Option.some.injEq] at hr'
          rw [← hr', hopen] at ho
          cases ho
      | true =>
        rw [forward_open hopen]
        by_cases hlong : int32Max < data.length
        · have hsend : Channel.send (RtpHeaderRewriteSSRC R data trackSsrc) (codes i) = none := by
            unfold Channel.send Channel.sendArgs
            rw [if_neg (by rw [length_rewriteSSRC]; omega)]
            rfl
          rw [hsend]
          exact ⟨fun _ => ⟨0, r, rfl, fun j hj => absurd hj (Nat.not_lt_zero j), Or.inr ⟨hlong, hopen⟩⟩, fun _ => rfl⟩
        · have hfits : (RtpHeaderRewriteSSRC R data trackSsrc).length ≤ int32Max := by
            rw [length_rewriteSSRC]
            omega
          obtain ⟨result, hsend⟩ := Forwarder.exists_send hfits (codes i)
          rw [hsend, Option.bind_some, Option.map_eq_none_iff, ih]
          refine ⟨fun ⟨k, x, hx, hbefore, hor⟩ => ⟨k + 1, x, hx, fun j hj => ?_, hor⟩,
            fun ⟨k, x, hx, hbefore, hor⟩ => ?_⟩
          · cases j with
            | zero => exact ⟨r, rfl, hopen⟩
            | succ j => exact hbefore j (Nat.lt_of_succ_lt_succ hj)
          · cases k with
            | zero =>
              rw [List.getElem?_cons_zero, Option.some.injEq] at hx
              subst hx
              rw [htrack] at hor
              rcases hor with hno | ⟨hno, -⟩
              · cases hno
              · exact absurd hno hlong
            | succ k => exact ⟨k, x, hx, fun j hj => hbefore (j + 1) (Nat.succ_lt_succ hj), hor⟩

theorem exists_step_of_message (h : Sound kind s.ingress (some s.ingressVideo)) {e : Event} {data : Data}
    (hm : s.message e = some data) : ∃ w, AlloDataChannel.step S s.ingress e = some w := by
  unfold message at hm
  split at hm
  · next bytes size hon =>
    cases e with
    | channelCallback id cb =>
      have hif : (if id = s.ingressVideo.id then some cb else none) =
          some (ChannelCallback.message (some bytes) size) := hon
      by_cases hid : id = s.ingressVideo.id
      · subst hid
        rw [if_pos rfl, Option.some.injEq] at hif
        subst hif
        have hptr : s.ingress.heap.userPtr s.ingressVideo.id = some s.ingressVideo.ref :=
          h.reachable _ (h.registered _ rfl)
        have hrun : ChannelCallback.run (s.ingress.heap.state s.ingressVideo.ref) (.message (some bytes) size) =
            some { s.ingress.heap.state s.ingressVideo.ref with lastMessage := some data } := by
          simp only [ChannelCallback.run, ChannelState.messageCallback, Option.bind_eq_bind, Option.bind_some, hm,
            Option.pure_def]
        rw [AlloDataChannel.step, World.channelCallback, hptr]
        dsimp only
        rw [hrun]
        exact ⟨_, rfl⟩
      · rw [if_neg hid] at hif
        cases hif
    | _ => cases hon
  · cases hm

/-- **Traps.** A message on the ingress track traps exactly when the newest receiver has no track yet and all before it
are open, or the message is too long and the first receiver is open. -/
theorem sfu_traps (h : Started S R kind s₀ es s) (hne : s.stage ≠ .ended) {e : Event} {codes : Nat → Int} {data : Data}
    (hm : s.message e = some data) :
    s.step S R (.ingress e codes) = none ↔ s.Unfinished ∨ s.TooLong data := by
  have hinv := h.inv
  obtain ⟨w, hw⟩ := exists_step_of_message (S := S) hinv.ingress hm
  have hstep : s.step S R (.ingress e codes) = (forward R (some data) codes 0 s.receivers).map fun rs =>
      { s with ingress := w, receivers := rs } := by
    unfold step
    rw [if_neg hne]
    show Option.bind (AlloDataChannel.step S s.ingress e) _ = _
    rw [hw, Option.bind_some, assigned_eq hinv.ingress hw, hm]
    cases forward R (some data) codes 0 s.receivers <;> rfl
  rw [hstep, Option.map_eq_none_iff, forward_eq_none_iff]
  refine ⟨fun ⟨k, r, hr, hbefore, hor⟩ => ?_, fun hor => ?_⟩
  · rcases hor with htrack | ⟨hlong, hopen⟩
    · have hat := hinv.stage hne k r hr
      have hstage : s.stageOf k = .observe ∨ s.stageOf k = .createTrack := by
        revert hat
        cases s.stageOf k with
        | observe => exact fun _ => Or.inl rfl
        | createTrack => exact fun _ => Or.inr rfl
        | session => exact fun hat => absurd hat.2.1 (by rw [htrack]; exact Bool.false_ne_true)
        | handler => exact fun hat => absurd hat.2.1 (by rw [htrack]; exact Bool.false_ne_true)
        | _ =>
          intro hat
          obtain ⟨t, ht, -⟩ := hat.handler
          cases htrack.symm.trans ht
      have hlast : k + 1 = s.receivers.length ∧ s.stage.newest = true := by
        by_contra hno
        have happend : s.stageOf k = .append := if_neg hno
        rw [happend] at hstage
        rcases hstage with hst | hst
        · cases hst
        · cases hst
      have heq : s.stageOf k = s.stage := if_pos hlast
      rw [heq] at hstage
      refine Or.inl ⟨hstage, fun i r' hi hr' => ?_⟩
      obtain ⟨x, hx, ho⟩ := hbefore i (by omega)
      rw [hr', Option.some.injEq] at hx
      rw [hx]
      exact ho
    · refine Or.inr ⟨hlong, ?_⟩
      cases k with
      | zero => exact ⟨r, hr, hopen⟩
      | succ k => exact hbefore 0 (Nat.zero_lt_succ k)
  · rcases hor with ⟨hstage, hopen⟩ | ⟨hlong, r, hr, hopen⟩
    · have hnew : s.stage.newest = true := by
        rcases hstage with hst | hst
        · rw [hst]
          rfl
        · rw [hst]
          rfl
      have hpos := List.length_pos_iff.mpr (hinv.newest hnew)
      have hlt : s.receivers.length - 1 < s.receivers.length := by omega
      refine ⟨s.receivers.length - 1, s.receivers[s.receivers.length - 1], List.getElem?_eq_getElem hlt, fun j hj => ?_,
        Or.inl ?_⟩
      · have hj' : j < s.receivers.length := by omega
        exact ⟨s.receivers[j], List.getElem?_eq_getElem hj', hopen j _ (by omega) (List.getElem?_eq_getElem hj')⟩
      · have hat := hinv.stage hne _ _ (List.getElem?_eq_getElem hlt)
        have heq : s.stageOf (s.receivers.length - 1) = s.stage := if_pos ⟨by omega, hnew⟩
        rw [heq] at hat
        rcases hstage with hst | hst
        · rw [hst] at hat
          exact hat.2.1
        · rw [hst] at hat
          exact hat.2.1
    · exact ⟨0, r, hr, fun j hj => absurd hj (Nat.not_lt_zero j), Or.inr ⟨hlong, hopen⟩⟩

/-! ## Keyframe requests -/

/-- The requests that find the track open. -/
def answered : Bool → List Ask → Nat
  | _, [] => 0
  | _, .flag isOpen :: es => answered isOpen es
  | isOpen, .request :: es => (if isOpen then 1 else 0) + answered isOpen es

theorem foldl_ask (isOpen : Bool) (n : Nat) (es : List Ask) :
    (es.foldl Ask.step (isOpen, n)).2 = n + answered isOpen es := by
  induction es generalizing isOpen n with
  | nil => rfl
  | cons e es ih =>
    rw [List.foldl_cons]
    cases e with
    | flag b => exact ih b n
    | request =>
      rw [Ask.step, ih, answered]
      cases isOpen with
      | true =>
        rw [if_pos rfl, if_pos rfl]
        omega
      | false =>
        rw [if_neg Bool.false_ne_true, if_neg Bool.false_ne_true]
        omega

/-- What reaches the sender of the requests of the receivers. -/
structure Requests (S : Segmentation) (R : RtpLibrary) (s₀ : Sfu) (es : List SfuEvent) (s : Sfu) : Prop where
  /-- Each request of a receiver with its handler, and each connection of an observed one, is one request on the ingress
  track if that is open, and nothing else is. -/
  requests : s.requests = answered false (observe (step S R) asks s₀ es)
  /-- A request of a receiver never calls a null pointer, whatever its stage. -/
  noNull : ∀ i, (s.step S R (.pli i)).isSome

/-- **Keyframe requests**, in every run of the SFU. -/
theorem sfu_requests (h : Started S R kind s₀ es s) : Requests S R s₀ es s := by
  obtain ⟨ans, session, hsetup, hk⟩ := h.setup
  obtain ⟨hinv, -, hclosed, hzero⟩ := setup_spec hk hsetup
  have hsteps : ∀ (s : Sfu) (e : SfuEvent) (t : Sfu), s.Inv kind → s.Offered kind e → s.step S R e = some t →
      t.Inv kind ∧ (t.ingressOpen, t.requests) = (s.asks e).foldl Ask.step (s.ingressOpen, s.requests) :=
    fun s e t hi henv hs => ⟨(stepped_of_step hi henv hs).inv, (stepped_of_step hi henv hs).asks⟩
  obtain ⟨hinv', hasks⟩ := h.run.refines hsteps hinv
  rw [hclosed, hzero] at hasks
  refine ⟨?_, fun i => ?_⟩
  · have hsnd := congrArg Prod.snd hasks
    rw [foldl_ask, Nat.zero_add] at hsnd
    exact hsnd
  · unfold step
    by_cases hne : s.stage = .ended
    · rw [if_pos hne]
      rfl
    · rw [if_neg hne]
      unfold running
      dsimp only
      cases hr : s.receivers[i]? with
      | none => rfl
      | some r =>
        dsimp only
        rw [pliCalls_eq hinv' hne hr]
        split <;> rfl

end Law

/-! ## A run -/

/-- The negotiation with the sender, and the first receiver up to its keyframe handler. -/
def exampleSetup : List SfuEvent :=
  [.main {}, .ingressDescription [] "offer".toList, .main {}, .main {}, .main {}, .main {}, .main { code := 2 },
    .main {}, .main {}]

/-- The negotiation with the first receiver, and a second one up to its handler. -/
def exampleSecond : List SfuEvent :=
  [.main {}, .receiverDescription 0 [] "offer".toList, .main {}, .main {}, .main {}, .main {}, .main { code := 3 },
    .main {}, .main {}]

/-- A header alone, on the track with the id 1. -/
def exampleMessage : Event := .channelCallback 1 (.message (some [128, 96, 0, 1, 0, 0, 0, 2, 9, 9, 9, 9]) 12)

/-- The header with the SSRC of the ingress track. -/
def exampleSent : Data := [128, 96, 0, 1, 0, 0, 0, 2, 0, 0, 0, 42]

/-- All tracks open, and a message comes. The first receiver closes, a second message comes, and both receivers ask for
a keyframe. -/
def exampleRun : List SfuEvent :=
  exampleSetup ++ exampleSecond ++ [.ingress (.channelCallback 1 .opened) fun _ => 0,
    .receiver 0 (.channelCallback 2 .opened), .receiver 1 (.channelCallback 3 .opened),
    .ingress exampleMessage fun _ => 0, .receiver 0 (.channelCallback 2 .closed), .ingress exampleMessage fun _ => 0,
    .pli 0, .pli 1]

theorem started_example : ∃ s₀ s, exec (step .scalars .packed) s₀ exampleRun = some s ∧
    Started .scalars .packed (fun _ => .track) s₀ exampleRun s ∧
    (s.sentTo 0 = [exampleSent] ∧ s.sentTo 1 = [exampleSent]) ∧ s.requests = 2 := by
  obtain ⟨s₀, hsetup⟩ : ∃ s₀, setup .scalars { code := 1 } 0 = some (some s₀) := ⟨_, rfl⟩
  cases hsetup
  refine ⟨_, _, rfl, ⟨⟨{ code := 1 }, 0, rfl, fun _ => rfl⟩, ?_⟩, ⟨rfl, rfl⟩, rfl⟩
  refine .cons (fun _ _ => rfl) rfl (.cons trivial rfl (.cons (fun _ _ => rfl) rfl (.cons (fun _ _ => rfl) rfl ?_)))
  refine .cons (fun _ _ => rfl) rfl (.cons (fun _ _ => rfl) rfl (.cons (fun _ _ => rfl) rfl ?_))
  refine .cons (fun _ _ => rfl) rfl (.cons (fun _ _ => rfl) rfl (.cons (fun _ _ => rfl) rfl ?_))
  refine .cons trivial rfl (.cons (fun _ _ => rfl) rfl (.cons (fun _ _ => rfl) rfl (.cons (fun _ _ => rfl) rfl ?_)))
  refine .cons (fun _ _ => rfl) rfl (.cons (fun _ _ => rfl) rfl (.cons (fun _ _ => rfl) rfl ?_))
  refine .cons (fun _ _ => rfl) rfl (.cons ⟨trivial, trivial⟩ rfl (.cons ⟨trivial, fun r hr => ?_⟩ rfl ?_))
  · cases hr
    exact ⟨rfl, trivial⟩
  refine .cons ⟨trivial, fun r hr => ?_⟩ rfl (.cons ⟨trivial, trivial⟩ rfl (.cons ⟨trivial, fun r hr => ?_⟩ rfl ?_))
  · cases hr
    exact ⟨rfl, trivial⟩
  · cases hr
    exact ⟨rfl, trivial⟩
  exact .cons ⟨trivial, trivial⟩ rfl (.cons trivial rfl (.cons trivial rfl (.nil _)))

theorem sfu_delivery_example : ∃ s₀ s, (s.sentTo 0 = [exampleSent] ∧ s.sentTo 1 = [exampleSent]) ∧
    Delivery (rounds .scalars .packed s₀ exampleRun) s := by
  obtain ⟨s₀, s, -, hstarted, hsent, -⟩ := started_example
  exact ⟨s₀, s, hsent, sfu_delivery hstarted⟩

theorem sfu_requests_example : ∃ s₀ s, s.requests = 2 ∧ Requests .scalars .packed s₀ exampleRun s := by
  obtain ⟨s₀, s, -, hstarted, -, hrequests⟩ := started_example
  exact ⟨s₀, s, hrequests, sfu_requests hstarted⟩

/-- The first receiver is appended, and has no track yet. -/
theorem started_unfinished : ∃ s₀ s, exec (step .scalars .packed) s₀ (exampleSetup.take 5) = some s ∧
    Started .scalars .packed (fun _ => .track) s₀ (exampleSetup.take 5) s ∧ s.stage = .observe ∧
    s.message exampleMessage = some [128, 96, 0, 1, 0, 0, 0, 2, 9, 9, 9, 9] ∧ s.Unfinished := by
  obtain ⟨s₀, hsetup⟩ : ∃ s₀, setup .scalars { code := 1 } 0 = some (some s₀) := ⟨_, rfl⟩
  cases hsetup
  refine ⟨_, _, rfl, ⟨⟨{ code := 1 }, 0, rfl, fun _ => rfl⟩, ?_⟩, rfl, rfl, Or.inl rfl, fun i r hi => ?_⟩
  · exact .cons (fun _ _ => rfl) rfl (.cons trivial rfl (.cons (fun _ _ => rfl) rfl (.cons (fun _ _ => rfl) rfl
      (.cons (fun _ _ => rfl) rfl (.nil _)))))
  · exact absurd (show i + 1 < 1 from hi) (by omega)

theorem sfu_traps_example : ∃ s : Sfu, s.stage = .observe ∧
    s.step .scalars .packed (.ingress exampleMessage fun _ => 0) = none := by
  obtain ⟨s₀, s, -, hstarted, hstage, hmessage, hunfinished⟩ := started_unfinished
  refine ⟨s, hstage, (sfu_traps hstarted ?_ hmessage).mpr (Or.inl hunfinished)⟩
  rw [hstage]
  exact Stage.noConfusion

end Sfu

end AlloDataChannel

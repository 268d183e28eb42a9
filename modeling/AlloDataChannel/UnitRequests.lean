import AlloDataChannel.UnitsInv

/-!
# Keyframe requests on the tracks of units

A keyframe request on an egress track calls each handler in the chain of its id.

* `System.answered` : the request that one call makes on an ingress track;
* `pli_law` : after every run, a request traps exactly when a unit on the id was stopped; otherwise it makes one request
  for each unit on the id, all on the ingress track of the last one.
-/

namespace AlloDataChannel
open Lib (Segmentation exec)

/-- The request that a handler in the chain of an id makes. -/
def System.answered (s : System) (q : Nat) (id : Int) : List (Nat × Int) :=
  match (s.peers[q]?).bind fun w => w.heap.userPtr id with
  | none => []
  | some ref => s.relayed (q, ref)

/-! ## Chains and calls -/

theorem null_mem_calls {st : ChannelState} {chain : List PliHandler} :
    PliCall.null ∈ chain.flatMap (PliHandler.calls st) ↔ PliHandler.null ∈ chain := by
  rw [List.mem_flatMap]
  refine ⟨fun ⟨h, hmem, hcall⟩ => ?_, fun h => ⟨_, h, List.mem_singleton_self _⟩⟩
  cases h with
  | null => exact hmem
  | current =>
    unfold PliHandler.calls at hcall
    obtain ⟨handler, -, hnull⟩ := Option.map_eq_some_iff.mp (Option.mem_toList.mp hcall)
    cases hnull

/-- Without a null pointer, each handler calls the closure if there is one. -/
theorem length_calls {st : ChannelState} {chain : List PliHandler} (h : PliHandler.null ∉ chain) :
    (chain.flatMap (PliHandler.calls st)).length =
      if st.onKeyFrameRequested.isSome then chain.count .current else 0 := by
  induction chain with
  | nil => rw [List.flatMap_nil, List.count_nil, ite_self, List.length_nil]
  | cons c chain ih =>
    rw [List.mem_cons, not_or] at h
    cases c with
    | null => exact absurd rfl h.1
    | current =>
      rw [List.flatMap_cons, List.length_append, ih h.2, List.count_cons_self]
      unfold PliHandler.calls
      cases st.onKeyFrameRequested with
      | none => rfl
      | some handler => exact Nat.add_comm 1 _

namespace System
variable {s : System}

theorem exec_call_of_null {k : Nat × Nat} {cs : List PliCall} (h : PliCall.null ∈ cs) : exec (call k) s cs = none := by
  induction cs generalizing s with
  | nil => exact absurd h List.not_mem_nil
  | cons c cs ih =>
    cases c with
    | null => rfl
    | closure handler =>
      rw [Lib.exec_cons, call, Option.bind_some]
      exact ih ((List.mem_cons.mp h).resolve_left (nomatch ·))

theorem exec_call {k : Nat × Nat} {cs : List PliCall} (h : PliCall.null ∉ cs) :
    exec (call k) s cs =
      some { s with requested := s.requested ++ (List.replicate cs.length (s.relayed k)).flatten } := by
  induction cs generalizing s with
  | nil =>
    rw [List.length_nil, List.replicate_zero, List.flatten_nil, List.append_nil]
    rfl
  | cons c cs ih =>
    rw [List.mem_cons, not_or] at h
    cases c with
    | null => exact absurd rfl h.1
    | closure handler =>
      have hsame : relayed { s with requested := s.requested ++ s.relayed k } k = s.relayed k := rfl
      rw [Lib.exec_cons, call, Option.bind_some, ih h.2, hsame, List.length_cons, List.replicate_succ,
        List.flatten_cons, List.append_assoc]

end System

/-! ## The law -/

/-- What a keyframe request for the id `id` of the peer `q` does. -/
structure PliLaw (s : System) (q : Nat) (id : Int) : Prop where
  /-- It calls a null pointer exactly when a unit on the id was stopped. -/
  traps : s.pli q id = none ↔ ∃ r ∈ s.routes, r.egressId = (q, id) ∧ r.subscribed = false
  /-- Otherwise it makes one request for each unit on the id. -/
  requests : ∀ s', s.pli q id = some s' → s' = { s with requested := s.requested ++
    (List.replicate (s.routes.countP fun r => r.egressId = (q, id)) (s.answered q id)).flatten }
  /-- These are on the ingress track of the last unit on the track object, if it is open. -/
  latest : ∀ (u : Nat) (r : Route) (w : World), s.routes[u]? = some r → r.egressId = (q, id) → s.peers[q]? = some w →
    w.heap.userPtr id = some r.egressTrack.ref →
    (∀ r' ∈ s.routes, r'.egressId = (q, id) → r'.subscribed = true) →
    (∀ (v : Nat) (r' : Route), u < v → s.routes[v]? = some r' → r'.egressKey ≠ r.egressKey) →
    s.answered q id = if (s.state r.ingressKey).isOpen then [(r.ingressPeer, r.ingressTrack.id)] else []

namespace System
variable {s : System} {q : Nat} {id : Int}

/-- Only the id of an egress track has a chain, and it has a user pointer. -/
theorem chain_eq_nil (h : s.Inv)
    (hnone : ∀ w : World, s.peers[q]? = some w → w.heap.userPtr id = none) : s.chains (q, id) = [] := by
  have hno : ∀ r ∈ s.routes, r.egressId ≠ (q, id) := by
    intro r hr hid
    obtain ⟨w, hw, hobj⟩ := h.egress r hr
    rw [show r.egressPeer = q from congrArg Prod.fst hid] at hw
    obtain ⟨ref, hptr⟩ := (h.stored q w hw).pointers _ (List.mem_of_getElem? hobj)
    rw [Channel.id_track, show r.egressTrack.id = id from congrArg Prod.snd hid, hnone w hw] at hptr
    cases hptr
  rw [List.eq_nil_iff_forall_not_mem]
  intro c hc
  cases c with
  | null =>
    obtain ⟨r, hr, hid, -⟩ := (h.nulls (q, id)).mp hc
    exact hno r hr hid
  | current =>
    have hpos := List.count_pos_iff.mpr hc
    rw [h.currents (q, id)] at hpos
    obtain ⟨r, hr, hid⟩ := List.countP_pos_iff.mp hpos
    exact hno r hr (of_decide_eq_true hid)

theorem isSome_of_handler (h : s.Inv) {ref : Nat} {w : World} (hw : s.peers[q]? = some w)
    (hne : s.relayed (q, ref) ≠ []) : (w.heap.state ref).onKeyFrameRequested.isSome := by
  rw [h.closures q w ref hw]
  cases hk : s.handlers (q, ref) with
  | none =>
    unfold relayed at hne
    rw [hk] at hne
    exact absurd rfl hne
  | some u =>
    obtain ⟨r, hr, -⟩ := h.owned _ u hk
    show (closureOf s.routes u).isSome
    unfold closureOf
    rw [hr]
    rfl

theorem pli_of_nil (hnil : s.chains (q, id) = []) : s.pli q id = some s := by
  unfold pli
  split
  · rfl
  · split
    · rw [if_pos hnil]
    · rw [hnil]
      rfl

/-- Two tracks with one key are one object. -/
theorem egressId_of_egressKey (h : s.Inv) {r r' : Route} (hr : r ∈ s.routes) (hr' : r' ∈ s.routes)
    (hkey : r.egressKey = r'.egressKey) : r.egressId = r'.egressId := by
  obtain ⟨w, hw, hobj⟩ := h.egress r hr
  obtain ⟨w', hw', hobj'⟩ := h.egress r' hr'
  obtain ⟨hpeer, href⟩ : r.egressPeer = r'.egressPeer ∧ r.egressTrack.ref = r'.egressTrack.ref := Prod.mk.inj hkey
  rw [hpeer, hw', Option.some.injEq] at hw
  subst hw
  rw [href, hobj', Option.some.injEq, Channel.track.injEq] at hobj
  unfold Route.egressId
  rw [hpeer, hobj]

/-- What a request does, by the chain of the id. -/
theorem pli_cases (h : s.Inv) (q : Nat) (id : Int) :
    PliHandler.null ∈ s.chains (q, id) ∧ s.pli q id = none ∨
      PliHandler.null ∉ s.chains (q, id) ∧ s.pli q id = some { s with requested := s.requested ++
        (List.replicate ((s.chains (q, id)).count .current) (s.answered q id)).flatten } := by
  have hempty : s.answered q id = [] → s.chains (q, id) = [] →
      PliHandler.null ∉ s.chains (q, id) ∧ s.pli q id = some { s with requested := s.requested ++
        (List.replicate ((s.chains (q, id)).count .current) (s.answered q id)).flatten } := by
    intro hans hnil
    rw [pli_of_nil hnil, hnil, hans, List.flatten_replicate_nil, List.append_nil]
    exact ⟨List.not_mem_nil, rfl⟩
  cases hw : s.peers[q]? with
  | none =>
    have hans : s.answered q id = [] := by
      unfold answered
      rw [hw]
      rfl
    exact Or.inr (hempty hans (chain_eq_nil h fun w hw' => nomatch hw.symm.trans hw'))
  | some w =>
    cases hptr : w.heap.userPtr id with
    | none =>
      have hans : s.answered q id = [] := by
        unfold answered
        rw [hw, Option.bind_some, hptr]
      refine Or.inr (hempty hans (chain_eq_nil h fun w' hw' => ?_))
      rw [← Option.some.inj (hw.symm.trans hw')]
      exact hptr
    | some ref =>
      have hans : s.answered q id = s.relayed (q, ref) := by
        unfold answered
        rw [hw, Option.bind_some, hptr]
      have hpli : s.pli q id =
          exec (call (q, ref)) s ((s.chains (q, id)).flatMap (PliHandler.calls (w.heap.state ref))) := by
        unfold pli
        rw [hw]
        dsimp only
        rw [hptr]
      rw [hpli, hans]
      by_cases hnull : PliHandler.null ∈ s.chains (q, id)
      · exact Or.inl ⟨hnull, exec_call_of_null (null_mem_calls.mpr hnull)⟩
      · refine Or.inr ⟨hnull, ?_⟩
        rw [exec_call fun hc => hnull (null_mem_calls.mp hc), length_calls hnull]
        by_cases hnil : s.relayed (q, ref) = []
        · rw [hnil, List.flatten_replicate_nil, List.flatten_replicate_nil]
        · rw [if_pos (isSome_of_handler h hw hnil)]

theorem pliLaw (h : s.Inv) (q : Nat) (id : Int) : PliLaw s q id where
  traps := by
    rw [← h.nulls (q, id)]
    rcases pli_cases h q id with ⟨hnull, hpli⟩ | ⟨hnull, hpli⟩
    · exact ⟨fun _ => hnull, fun _ => hpli⟩
    · rw [hpli]
      exact ⟨fun hn => (nomatch hn), fun hn => absurd hn hnull⟩
  requests s' hs' := by
    rcases pli_cases h q id with ⟨-, hpli⟩ | ⟨-, hpli⟩
    · rw [hpli] at hs'
      cases hs'
    · rw [hpli, h.currents (q, id)] at hs'
      exact (Option.some.inj hs').symm
  latest u r w hr hid hw hptr hsubs hlater := by
    obtain ⟨rfl, rfl⟩ : r.egressPeer = q ∧ r.egressTrack.id = id := Prod.mk.inj hid
    have hhandler : s.handlers (r.egressPeer, r.egressTrack.ref) = some u := by
      refine h.latest u r hr (fun r' hr' hkey => hsubs r' hr' ?_) hlater
      exact egressId_of_egressKey h hr' (List.mem_of_getElem? hr) hkey
    unfold answered
    rw [hw, Option.bind_some, hptr]
    dsimp only
    unfold relayed
    rw [hhandler]
    dsimp only
    rw [hr]

end System

/-- **Keyframe requests.** After every run of peers and units, for every id of every peer. -/
theorem pli_law {S : Segmentation} {R : RtpLibrary} {es : List SystemEvent} {s : System}
    (h : exec (System.step S R) {} es = some s) (q : Nat) (id : Int) : PliLaw s q id :=
  System.pliLaw (System.inv_start.exec h) q id

/-- After `stop()` a request calls a null pointer. -/
theorem pli_law_example : ∃ s t, exec (System.step .scalars .packed) {} (relayEvents ⟨5, by decide⟩) = some s ∧
    exec (System.step .scalars .packed) {} (relayEvents ⟨5, by decide⟩ ++ [.stop 0 0]) = some t ∧
    s.pli 1 9 ≠ none ∧ t.pli 1 9 = none := by
  have hs : (exec (System.step .scalars .packed) {} (relayEvents ⟨5, by decide⟩)).map System.routes =
      some [relayRoute true] := by decide +kernel
  have ht : (exec (System.step .scalars .packed) {} (relayEvents ⟨5, by decide⟩ ++ [.stop 0 0])).map System.routes =
      some [relayRoute false] := by decide +kernel
  obtain ⟨s, hs, hroutes⟩ := Option.map_eq_some_iff.mp hs
  obtain ⟨t, ht, hstopped⟩ := Option.map_eq_some_iff.mp ht
  refine ⟨s, t, hs, ht, ?_, ?_⟩
  · rw [Ne, (pli_law hs 1 9).traps, hroutes]
    rintro ⟨r, hr, -, hstop⟩
    rw [List.mem_singleton.mp hr] at hstop
    cases hstop
  · rw [(pli_law ht 1 9).traps, hstopped]
    exact ⟨_, List.mem_singleton_self _, rfl, rfl⟩

end AlloDataChannel

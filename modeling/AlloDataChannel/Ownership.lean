import AlloDataChannel.Lib.Ownership
import AlloDataChannel.UnitsInv
import Mathlib.Data.Set.Finite.Lattice

/-!
# What keeps a unit alive

Peers, channel objects and units are freed by reference counting. A unit and its ingress track hold each other from the
subscription until `stop()`.

* `System.Holds` : the strong references;
* `System.Retained` : what is reachable from some roots or from a unit that was not stopped;
* `System.Pinned` : what a unit that was not stopped keeps, without any roots;
* `retention` : after every run, what is left once the app has let go of all but the roots is `Retained`; without roots
  it is `Pinned`, and nothing exactly when every unit was stopped.
-/

namespace AlloDataChannel
open Lib (Segmentation exec Frees OnCycle Kept)
open Relation (ReflTransGen TransGen)

inductive Object
  | peer (p : Nat)
  | channel (p ref : Nat)
  | unit (u : Nat)
  deriving DecidableEq, Repr

namespace System

/-- The strong references. A channel refers to its peer weakly, and the C library to all objects by unretained
pointers; a sink that was cancelled has let go of its closure. -/
inductive Holds (s : System) : Object → Object → Prop
  | registered (p : Nat) (w : World) (c : Channel) (peer : s.peers[p]? = some w)
    (stored : w.peer.toRegistry.Stores c) : Holds s (.peer p) (.channel p c.ref)
  /-- The closure in `onKeyFrameRequested` has captured `self`. -/
  | handler (p ref u : Nat) (handler : s.handlers (p, ref) = some u) : Holds s (.channel p ref) (.unit u)
  /-- The publisher of `lastMessage` holds the sink, whose closure has captured `self`. -/
  | subscription (u : Nat) (r : Route) (unit : s.routes[u]? = some r) (subscribed : r.subscribed = true) :
    Holds s (.channel r.ingressPeer r.ingressTrack.ref) (.unit u)
  /-- `cancellables` holds the same sink. -/
  | cancellables (u : Nat) (r : Route) (unit : s.routes[u]? = some r) (subscribed : r.subscribed = true) :
    Holds s (.unit u) (.unit u)
  | ingressTrack (u : Nat) (r : Route) (unit : s.routes[u]? = some r) :
    Holds s (.unit u) (.channel r.ingressPeer r.ingressTrack.ref)
  | egressTrack (u : Nat) (r : Route) (unit : s.routes[u]? = some r) :
    Holds s (.unit u) (.channel r.egressPeer r.egressTrack.ref)
  | egressPeer (u : Nat) (r : Route) (unit : s.routes[u]? = some r) : Holds s (.unit u) (.peer r.egressPeer)

/-- The objects made so far. -/
def objects (s : System) : Set Object
  | .peer p => p < s.peers.length
  | .channel p ref => ∃ w, s.peers[p]? = some w ∧ ref < w.heap.objects.length
  | .unit u => u < s.routes.length

/-- The units that were not stopped. -/
def unstopped (s : System) : Set Object := {o | ∃ u r, o = .unit u ∧ s.routes[u]? = some r ∧ r.subscribed = true}

/-- What is reachable from the roots or from a unit that was not stopped. -/
def Retained (s : System) (roots : Set Object) : Set Object :=
  {o | ∃ r, (r ∈ roots ∨ r ∈ s.unstopped) ∧ ReflTransGen s.Holds r o}

/-- A unit that was not stopped keeps itself, its tracks, its egress peer and all channels registered there. -/
def Pinned (s : System) : Set Object
  | .unit u => ∃ r, s.routes[u]? = some r ∧ r.subscribed = true
  | .peer p => ∃ r ∈ s.routes, r.subscribed = true ∧ r.egressPeer = p
  | .channel p ref => ∃ r ∈ s.routes, r.subscribed = true ∧ (r.ingressKey = (p, ref) ∨ r.egressKey = (p, ref) ∨
      r.egressPeer = p ∧ ∃ (w : World) (c : Channel), s.peers[p]? = some w ∧ w.peer.toRegistry.Stores c ∧ c.ref = ref)

/-- Units hold peers, and peers hold channels. -/
def rank : Object → Nat
  | .unit _ => 2
  | .peer _ => 1
  | .channel _ _ => 0

theorem rank_le_unit (u : Nat) (o : Object) : rank o ≤ rank (.unit u) := by
  cases o with
  | peer p => exact Nat.le_succ 1
  | channel p ref => exact Nat.zero_le 2
  | unit u => exact Nat.le_refl 2

variable {s : System} {roots : Set Object}

theorem mem_objects_of_hasTrack {p : Nat} {t : Track} (h : HasTrack s.peers p t) : .channel p t.ref ∈ s.objects := by
  obtain ⟨w, hw, ht⟩ := h
  exact ⟨w, hw, (List.getElem?_eq_some_iff.mp ht).1⟩

/-- A reference leads to an object. -/
theorem Holds.mem_objects (h : s.Inv) {x y : Object} (he : s.Holds x y) : y ∈ s.objects := by
  cases he with
  | registered p w c peer stored =>
    exact ⟨w, peer, (List.getElem?_eq_some_iff.mp ((h.stored p w peer).registered c stored)).1⟩
  | handler p ref u handler =>
    obtain ⟨r, hr, -⟩ := h.owned _ u handler
    exact (List.getElem?_eq_some_iff.mp hr).1
  | subscription u r unit subscribed => exact (List.getElem?_eq_some_iff.mp unit).1
  | cancellables u r unit subscribed => exact (List.getElem?_eq_some_iff.mp unit).1
  | ingressTrack u r unit => exact mem_objects_of_hasTrack (h.ingress r (List.mem_of_getElem? unit))
  | egressTrack u r unit => exact mem_objects_of_hasTrack (h.egress r (List.mem_of_getElem? unit))
  | egressPeer u r unit =>
    obtain ⟨w, hw, -⟩ := h.egress r (List.mem_of_getElem? unit)
    exact (List.getElem?_eq_some_iff.mp hw).1

/-- A reference leads down the rank, or to a unit that was not stopped. -/
theorem Holds.rank_lt (h : s.Inv) {x y : Object} (he : s.Holds x y) : rank y < rank x ∨ y ∈ s.unstopped := by
  cases he with
  | registered p w c peer stored => exact Or.inl Nat.zero_lt_one
  | handler p ref u handler =>
    obtain ⟨r, hr, hsub, -⟩ := h.owned _ u handler
    exact Or.inr ⟨u, r, rfl, hr, hsub⟩
  | subscription u r unit subscribed => exact Or.inr ⟨u, r, rfl, unit, subscribed⟩
  | cancellables u r unit subscribed => exact Or.inr ⟨u, r, rfl, unit, subscribed⟩
  | ingressTrack u r unit => exact Or.inl Nat.zero_lt_two
  | egressTrack u r unit => exact Or.inl Nat.zero_lt_two
  | egressPeer u r unit => exact Or.inl Nat.one_lt_two

/-- A unit that was not stopped holds its ingress track, and is held by it. -/
theorem onCycle_of_unstopped {o : Object} (ho : o ∈ s.unstopped) : OnCycle s.Holds o := by
  obtain ⟨u, r, rfl, hr, hsub⟩ := ho
  exact TransGen.tail (.single (.ingressTrack u r hr)) (.subscription u r hr hsub)

theorem kept_eq_retained (h : s.Inv) (roots : Set Object) : Kept s.Holds roots = s.Retained roots := by
  ext o
  exact Lib.mem_kept_iff (fun x y he => he.rank_lt h) fun r hr => onCycle_of_unstopped hr

theorem finite_objects (s : System) : s.objects.Finite := by
  have hpeers : (Object.peer '' {p | p < s.peers.length}).Finite := (Set.finite_lt_nat _).image _
  have hunits : (Object.unit '' {u | u < s.routes.length}).Finite := (Set.finite_lt_nat _).image _
  have hchannels : (⋃ p ∈ {p | p < s.peers.length}, Object.channel p ''
      {ref | ref < (s.peers[p]?).elim 0 fun w => w.heap.objects.length}).Finite :=
    (Set.finite_lt_nat _).biUnion fun p _ => (Set.finite_lt_nat _).image _
  refine ((hpeers.union hunits).union hchannels).subset fun o ho => ?_
  cases o with
  | peer p => exact Or.inl (Or.inl ⟨p, ho, rfl⟩)
  | unit u => exact Or.inl (Or.inr ⟨u, ho, rfl⟩)
  | channel p ref =>
    obtain ⟨w, hw, hlt⟩ := ho
    refine Or.inr (Set.mem_biUnion (show p < s.peers.length from (List.getElem?_eq_some_iff.mp hw).1) ⟨ref, ?_, rfl⟩)
    show ref < (s.peers[p]?).elim 0 fun w => w.heap.objects.length
    rw [hw]
    exact hlt

theorem retained_subset (h : s.Inv) (hroots : roots ⊆ s.objects) : s.Retained roots ⊆ s.objects := by
  rintro o ⟨r, hr, hreach⟩
  cases hreach with
  | refl =>
    rcases hr with hr | ⟨u, r, rfl, hget, -⟩
    · exact hroots hr
    · exact (List.getElem?_eq_some_iff.mp hget).1
  | tail _ he => exact he.mem_objects h

/-! ## Without roots -/

theorem pinned_of_holds (h : s.Inv) {x y : Object} (hx : x ∈ s.Pinned) (he : s.Holds x y) : y ∈ s.Pinned := by
  cases he with
  | registered p w c peer stored =>
    obtain ⟨r, hr, hsub, hpeer⟩ := hx
    exact ⟨r, hr, hsub, Or.inr (Or.inr ⟨hpeer, w, c, peer, stored, rfl⟩)⟩
  | handler p ref u handler =>
    obtain ⟨r, hr, hsub, -⟩ := h.owned _ u handler
    exact ⟨r, hr, hsub⟩
  | subscription u r unit subscribed => exact ⟨r, unit, subscribed⟩
  | cancellables u r unit subscribed => exact hx
  | ingressTrack u r unit =>
    obtain ⟨r', hr', hsub⟩ := hx
    rw [unit, Option.some.injEq] at hr'
    subst hr'
    exact ⟨r, List.mem_of_getElem? unit, hsub, Or.inl rfl⟩
  | egressTrack u r unit =>
    obtain ⟨r', hr', hsub⟩ := hx
    rw [unit, Option.some.injEq] at hr'
    subst hr'
    exact ⟨r, List.mem_of_getElem? unit, hsub, Or.inr (Or.inl rfl)⟩
  | egressPeer u r unit =>
    obtain ⟨r', hr', hsub⟩ := hx
    rw [unit, Option.some.injEq] at hr'
    subst hr'
    exact ⟨r, List.mem_of_getElem? unit, hsub, rfl⟩

theorem retained_of_unit {u : Nat} {r : Route} (hr : s.routes[u]? = some r) (hsub : r.subscribed = true) {o : Object}
    (hreach : ReflTransGen s.Holds (.unit u) o) : o ∈ s.Retained roots :=
  ⟨.unit u, Or.inr ⟨u, r, rfl, hr, hsub⟩, hreach⟩

theorem pinned_subset_retained : s.Pinned ⊆ s.Retained roots := by
  intro o ho
  cases o with
  | unit u =>
    obtain ⟨r, hr, hsub⟩ := ho
    exact retained_of_unit hr hsub .refl
  | peer p =>
    obtain ⟨r, hr, hsub, rfl⟩ := ho
    obtain ⟨u, hu⟩ := List.mem_iff_getElem?.mp hr
    exact retained_of_unit hu hsub (.single (.egressPeer u r hu))
  | channel p ref =>
    obtain ⟨r, hr, hsub, hcase⟩ := ho
    obtain ⟨u, hu⟩ := List.mem_iff_getElem?.mp hr
    refine retained_of_unit hu hsub ?_
    rcases hcase with hkey | hkey | ⟨rfl, w, c, hw, hc, rfl⟩
    · cases hkey
      exact .single (.ingressTrack u r hu)
    · cases hkey
      exact .single (.egressTrack u r hu)
    · exact ReflTransGen.tail (.single (.egressPeer u r hu)) (.registered _ w c hw hc)

theorem retained_empty (h : s.Inv) : s.Retained ∅ = s.Pinned := by
  refine Set.Subset.antisymm ?_ pinned_subset_retained
  rintro o ⟨r, hr, hreach⟩
  have hpinned : r ∈ s.Pinned := by
    obtain ⟨u, route, rfl, hget, hsub⟩ := hr.resolve_left (Set.notMem_empty r)
    exact ⟨route, hget, hsub⟩
  induction hreach with
  | refl => exact hpinned
  | tail _ he ih => exact pinned_of_holds h ih he

theorem pinned_eq_empty_iff : s.Pinned = ∅ ↔ ∀ r ∈ s.routes, r.subscribed = false := by
  rw [Set.eq_empty_iff_forall_notMem]
  refine ⟨fun hnone r hr => ?_, fun hall o ho => ?_⟩
  · obtain ⟨u, hu⟩ := List.mem_iff_getElem?.mp hr
    rw [← Bool.not_eq_true]
    exact fun hsub => hnone (.unit u) ⟨r, hu, hsub⟩
  · have hstop : ∀ r ∈ s.routes, ¬ r.subscribed = true := by
      intro r hr hsub
      rw [hall r hr] at hsub
      cases hsub
    cases o with
    | unit u =>
      obtain ⟨r, hr, hsub⟩ := ho
      exact hstop r (List.mem_of_getElem? hr) hsub
    | peer p =>
      obtain ⟨r, hr, hsub, -⟩ := ho
      exact hstop r hr hsub
    | channel p ref =>
      obtain ⟨r, hr, hsub, -⟩ := ho
      exact hstop r hr hsub

end System

/-- What reference counting leaves, with the roots that the app still holds. -/
structure Retention (s : System) (roots : Set Object) : Prop where
  ends : ReflTransGen (Frees s.Holds roots) s.objects (s.Retained roots)
  only : ∀ left, ReflTransGen (Frees s.Holds roots) s.objects left → (∀ left', ¬ Frees s.Holds roots left left') →
    left = s.Retained roots
  /-- A stopped unit that the app does not hold is freed. -/
  stopped : ∀ u r, s.routes[u]? = some r → r.subscribed = false → .unit u ∉ roots → .unit u ∉ s.Retained roots

/-- **Reference cycles.** After every run, whatever the order in which objects are freed, what is left is what the roots
and the units that were not stopped reach; without roots, nothing exactly when every unit was stopped. -/
theorem retention {S : Segmentation} {R : RtpLibrary} {es : List SystemEvent} {s : System}
    (h : exec (System.step S R) {} es = some s) :
    (∀ roots ⊆ s.objects, Retention s roots) ∧ s.Retained ∅ = s.Pinned ∧
      (s.Pinned = ∅ ↔ ∀ r ∈ s.routes, r.subscribed = false) := by
  have hinv : s.Inv := System.inv_start.exec h
  refine ⟨fun roots hroots => ?_, System.retained_empty hinv, System.pinned_eq_empty_iff⟩
  have hkept := System.kept_eq_retained hinv roots
  have hfreed := Lib.freed s.finite_objects (hkept ▸ System.retained_subset hinv hroots)
  rw [hkept] at hfreed
  refine ⟨hfreed.1, hfreed.2, fun u r hr hstop hroot hmem => ?_⟩
  obtain ⟨o, ho, hreach⟩ := hmem
  have hnot : .unit u ∉ s.unstopped := by
    rintro ⟨v, r', hv, hr', hsub⟩
    cases hv
    rw [hr, Option.some.injEq] at hr'
    subst hr'
    rw [hstop] at hsub
    cases hsub
  cases hreach with
  | refl => exact ho.elim hroot hnot
  | tail _ he =>
    exact (he.rank_lt hinv).elim (Nat.not_lt.mpr (System.rank_le_unit u _)) hnot

/-- The egress peer of a unit that is not stopped is never freed; after `stop()` nothing is left. -/
theorem retention_example : ∃ s t,
    exec (System.step .scalars .packed) {} (relayEvents ⟨5, by decide⟩) = some s ∧
    exec (System.step .scalars .packed) {} (relayEvents ⟨5, by decide⟩ ++ [.stop 0 0]) = some t ∧
    .peer 1 ∈ s.Retained ∅ ∧ t.Retained ∅ = ∅ := by
  have hs : (exec (System.step .scalars .packed) {} (relayEvents ⟨5, by decide⟩)).map System.routes =
      some [relayRoute true] := by decide +kernel
  have ht : (exec (System.step .scalars .packed) {} (relayEvents ⟨5, by decide⟩ ++ [.stop 0 0])).map System.routes =
      some [relayRoute false] := by decide +kernel
  obtain ⟨s, hs, hroutes⟩ := Option.map_eq_some_iff.mp hs
  obtain ⟨t, ht, hstopped⟩ := Option.map_eq_some_iff.mp ht
  refine ⟨s, t, hs, ht, ?_, ?_⟩
  · rw [(retention hs).2.1]
    refine ⟨relayRoute true, ?_, rfl, rfl⟩
    rw [hroutes]
    exact List.mem_singleton_self _
  · obtain ⟨-, hpinned, hempty⟩ := retention ht
    rw [hpinned, hempty]
    intro r hr
    rw [hstopped] at hr
    rw [List.mem_singleton.mp hr]
    rfl

end AlloDataChannel

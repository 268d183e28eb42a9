import AlloDataChannel.Registry

/-!
# Callbacks find their objects

A C callback knows the id only and gets its object from the user pointer of the id, which each new object for that id
takes over.

* `HeapStep` : what a step does to the objects;
* `Pointed` : a user pointer leads to an object that was built for its id;
* `HeapRun.history` : while a pointer stays, its object's state is what the callbacks on the id make of it;
* `callback_law` : in every run, the callbacks on the id of a registered object reach this object, all and in order, and
  no others do.
-/

namespace AlloDataChannel
open Lib (Segmentation Run exec)

/-- The callback on the channel `id` that an event is. -/
def Event.callbackOn (id : Int) : Event → Option ChannelCallback
  | .channelCallback id' cb => if id' = id then some cb else none
  | _ => none

/-- The callbacks on the channel `id`, in order. -/
def callbacksOn (id : Int) (es : List Event) : List ChannelCallback := es.filterMap (Event.callbackOn id)

theorem callbacksOn_cons (id : Int) (e : Event) (es : List Event) :
    callbacksOn id (e :: es) = (e.callbackOn id).toList ++ callbacksOn id es := by
  unfold callbacksOn
  rw [List.filterMap_cons]
  cases e.callbackOn id <;> rfl

/-! ## Steps of the objects -/

/-- A step leaves the objects as they are, builds one, or runs a callback on the one that its id points to. -/
inductive HeapStep (h : Heap) (e : Event) : Heap → Prop
  | same (quiet : ∀ id, e.callbackOn id = none) : HeapStep h e h
  | alloc (c : Channel) (ref : c.ref = h.objects.length) (quiet : ∀ id, e.callbackOn id = none) :
    HeapStep h e (h.alloc c)
  | callback (id : Int) (cb : ChannelCallback) (ref : Nat) (s : ChannelState) (event : e = .channelCallback id cb)
    (pointer : h.userPtr id = some ref) (run : cb.run (h.state ref) = some s) :
    HeapStep h e { h with state := Function.update h.state ref s }

theorem heapStep_of_step {S : Segmentation} {w w' : World} {e : Event} (h : step S w e = some w') :
    HeapStep w.heap e w'.heap := by
  by_cases hcb : ∃ id cb, e = .channelCallback id cb
  · obtain ⟨id, cb, rfl⟩ := hcb
    rw [step, World.channelCallback] at h
    split at h
    · cases h
    · next ref hptr =>
      obtain ⟨s, hs, rfl⟩ := Option.map_eq_some_iff.mp h
      exact .callback id cb ref s rfl hptr hs
  · have hquiet : ∀ id, e.callbackOn id = none := by
      intro id
      cases e with
      | channelCallback id cb => exact absurd ⟨id, cb, rfl⟩ hcb
      | _ => rfl
    cases step_effect h with
    | newDataChannel k ans id called fresh => exact .alloc (.dataChannel (w.newDataChannel id ans)) rfl hquiet
    | newTrack k ans f called fresh =>
      exact .alloc (.track (w.newTrack f.id f.streamId f.trackId ans)) rfl hquiet
    | remoteDataChannel dcid ans fresh => exact .alloc (.dataChannel (w.newDataChannel dcid ans)) rfl hquiet
    | remoteTrack dcid description ans msid fresh parsed =>
      exact .alloc (.track (w.newTrack dcid msid.streamId msid.trackId ans)) rfl hquiet
    | channelCallback id cb ref s => exact absurd ⟨id, cb, rfl⟩ hcb
    | _ => exact .same hquiet

/-- A user pointer leads to an object that was built for its id. -/
def Heap.Pointed (h : Heap) : Prop :=
  ∀ id ref, h.userPtr id = some ref → ∃ c, h.objects[ref]? = some c ∧ c.id = id

namespace HeapStep
variable {h h' : Heap} {e : Event}

theorem pointed (hs : HeapStep h e h') (hp : h.Pointed) : h'.Pointed := by
  cases hs with
  | same quiet => exact hp
  | alloc c href quiet =>
    intro id ref hptr
    show ∃ c', (h.objects ++ [c])[ref]? = some c' ∧ c'.id = id
    have hupdate : Function.update h.userPtr c.id (some c.ref) id = some ref := hptr
    rcases eq_or_ne id c.id with rfl | hne
    · rw [Function.update_self, Option.some.injEq, href] at hupdate
      rw [← hupdate]
      exact ⟨c, List.getElem?_concat_length, rfl⟩
    · rw [Function.update_of_ne hne] at hupdate
      obtain ⟨c', hc', hid⟩ := hp id ref hupdate
      exact ⟨c', by rw [List.getElem?_append_left (List.getElem?_eq_some_iff.mp hc').1, hc'], hid⟩
  | callback id cb ref s event pointer run => exact hp

/-- Objects are only added, and a pointer moves to new ones only. -/
theorem grows (hs : HeapStep h e h') : h.objects.length ≤ h'.objects.length ∧
    ∀ id ref, h.userPtr id = some ref →
      ∃ ref', h'.userPtr id = some ref' ∧ (ref' = ref ∨ h.objects.length ≤ ref') := by
  cases hs with
  | same quiet => exact ⟨Nat.le_refl _, fun id ref hptr => ⟨ref, hptr, Or.inl rfl⟩⟩
  | alloc c href quiet =>
    refine ⟨?_, fun id ref hptr => ?_⟩
    · show h.objects.length ≤ (h.objects ++ [c]).length
      rw [List.length_append]
      omega
    · rcases eq_or_ne id c.id with rfl | hne
      · exact ⟨c.ref, Function.update_self .., Or.inr (by omega)⟩
      · exact ⟨ref, (Function.update_of_ne hne ..).trans hptr, Or.inl rfl⟩
  | callback id cb ref s event pointer run => exact ⟨Nat.le_refl _, fun id ref hptr => ⟨ref, hptr, Or.inl rfl⟩⟩

/-- The object that a pointer leads to runs the callback on its id, if the step is one, and is left alone else. -/
theorem history (hs : HeapStep h e h') (hp : h.Pointed) {id : Int} {ref : Nat} (hptr : h.userPtr id = some ref) :
    exec ChannelCallback.run (h.state ref) (e.callbackOn id).toList = some (h'.state ref) := by
  cases hs with
  | same quiet =>
    rw [quiet id]
    rfl
  | alloc c href quiet =>
    rw [quiet id]
    rfl
  | callback id' cb ref' s event pointer run =>
    subst event
    show exec ChannelCallback.run (h.state ref) (if id' = id then some cb else none).toList =
      some (Function.update h.state ref' s ref)
    by_cases hid : id' = id
    · subst hid
      have href : ref' = ref := Option.some.inj (pointer.symm.trans hptr)
      subst href
      rw [if_pos rfl, Function.update_self, Option.toList_some, Lib.exec_cons, run]
      rfl
    · -- two ids never lead to one object
      have hne : ref ≠ ref' := by
        rintro rfl
        obtain ⟨c, hc, rfl⟩ := hp id ref hptr
        obtain ⟨c', hc', rfl⟩ := hp id' ref pointer
        rw [hc, Option.some.injEq] at hc'
        exact hid (by rw [hc'])
      rw [if_neg hid, Function.update_of_ne hne]
      rfl

/-- An object that its id does not lead to stays as it is. -/
theorem stale (hs : HeapStep h e h') (hp : h.Pointed) {c : Channel} (hc : h.objects[c.ref]? = some c)
    (hptr : h.userPtr c.id ≠ some c.ref) :
    h'.state c.ref = h.state c.ref ∧ h'.objects[c.ref]? = some c ∧ h'.userPtr c.id ≠ some c.ref := by
  cases hs with
  | same quiet => exact ⟨rfl, hc, hptr⟩
  | alloc d href quiet =>
    have hlt := (List.getElem?_eq_some_iff.mp hc).1
    refine ⟨rfl, (List.getElem?_append_left hlt).trans hc, ?_⟩
    show Function.update h.userPtr d.id (some d.ref) c.id ≠ some c.ref
    rcases eq_or_ne c.id d.id with hid | hne
    · rw [hid, Function.update_self, href]
      intro heq
      have := Option.some.inj heq
      omega
    · rw [Function.update_of_ne hne]
      exact hptr
  | callback id cb ref s event pointer run =>
    refine ⟨?_, hc, hptr⟩
    have hne : c.ref ≠ ref := by
      rintro rfl
      obtain ⟨c', hc', rfl⟩ := hp id c.ref pointer
      rw [hc, Option.some.injEq] at hc'
      subst hc'
      exact hptr pointer
    exact Function.update_of_ne hne s h.state

end HeapStep

/-! ## Runs -/

section Run
variable {S : Segmentation} {kind : Int → ChannelKind} {env : World → Event → Prop} {w w' : World} {es : List Event}

theorem pointed_start (o : Option IPOverride) : (World.start o).heap.Pointed := fun _ _ h => nomatch h

theorem pointed_of_run (h : Run (step S) env w es w') (hp : w.heap.Pointed) : w'.heap.Pointed :=
  h.invariant (fun _ _ _ hi _ hs => (heapStep_of_step hs).pointed hi) hp

/-- A pointer that has moved leads to an object that was not there before. -/
theorem pointer_of_run (h : Run (step S) env w es w') : w.heap.objects.length ≤ w'.heap.objects.length ∧
    ∀ id ref, w.heap.userPtr id = some ref →
      ∃ ref', w'.heap.userPtr id = some ref' ∧ (ref' = ref ∨ w.heap.objects.length ≤ ref') := by
  induction h with
  | nil w => exact ⟨Nat.le_refl _, fun id ref hptr => ⟨ref, hptr, Or.inl rfl⟩⟩
  | cons _ hs _ ih =>
    obtain ⟨hlen, hgrow⟩ := (heapStep_of_step hs).grows
    refine ⟨Nat.le_trans hlen ih.1, fun id ref hptr => ?_⟩
    obtain ⟨ref₁, hptr₁, hor⟩ := hgrow id ref hptr
    obtain ⟨ref₂, hptr₂, hor₂⟩ := ih.2 id ref₁ hptr₁
    refine ⟨ref₂, hptr₂, ?_⟩
    rcases hor₂ with rfl | hle
    · exact hor
    · exact Or.inr (Nat.le_trans hlen hle)

/-- An object to which its id leads at both ends of a run has run the callbacks on the id, in order. -/
theorem history_of_run (h : Run (step S) env w es w') (hp : w.heap.Pointed) {id : Int} {ref : Nat}
    (hptr : w.heap.userPtr id = some ref) (hptr' : w'.heap.userPtr id = some ref) :
    exec ChannelCallback.run (w.heap.state ref) (callbacksOn id es) = some (w'.heap.state ref) := by
  induction h with
  | nil w => rfl
  | cons _ hs hrest ih =>
    have hstep := heapStep_of_step hs
    have hp₁ := hstep.pointed hp
    obtain ⟨ref₁, hptr₁, hor⟩ := hstep.grows.2 id ref hptr
    have href : ref₁ = ref := by
      -- a pointer that leaves an object never comes back to it
      obtain ⟨c, hc, -⟩ := hp id ref hptr
      have hlt := (List.getElem?_eq_some_iff.mp hc).1
      obtain ⟨ref₂, hptr₂, hor₂⟩ := (pointer_of_run hrest).2 id ref₁ hptr₁
      have heq : ref₂ = ref := Option.some.inj (hptr₂.symm.trans hptr')
      have hlen := hstep.grows.1
      omega
    subst href
    rw [callbacksOn_cons, Lib.exec_append, hstep.history hp hptr]
    exact ih hp₁ hptr₁ hptr'

/-- An object that its id has left stays as it is. -/
theorem stale_of_run (h : Run (step S) env w es w') (hp : w.heap.Pointed) {c : Channel}
    (hc : w.heap.objects[c.ref]? = some c) (hptr : w.heap.userPtr c.id ≠ some c.ref) :
    w'.heap.state c.ref = w.heap.state c.ref := by
  induction h with
  | nil w => rfl
  | cons _ hs _ ih =>
    have hstep := heapStep_of_step hs
    obtain ⟨hstate, hc', hptr'⟩ := hstep.stale hp hc hptr
    rw [ih (hstep.pointed hp) hc' hptr', hstate]

/-! ## Registered objects -/

/-- Every registered object is the one that its id leads to. -/
def Reachable (w : World) : Prop := ∀ c ∈ w.peer.channels, w.heap.userPtr c.id = some c.ref

theorem Reachable.congr {w₁ : World} (h : Reachable w) (hr : w₁.peer.toRegistry = w.peer.toRegistry)
    (hp : w₁.heap.userPtr = w.heap.userPtr) : Reachable w₁ := by
  intro c hc
  rw [hp]
  rw [hr] at hc
  exact h c hc

theorem Reachable.register (h : Reachable w) {c : Channel} (hf : w.peer.channels.hasKey c.id = false) :
    Reachable (w.register c) := by
  intro c' hc'
  show Function.update w.heap.userPtr c.id (some c.ref) c'.id = some c'.ref
  rcases (Registry.mem_insert_channels hf).mp hc' with hc' | rfl
  · have hne : c'.id ≠ c.id := Lib.KeyedSet.hasKey_eq_false_iff.mp hf c' hc'
    rw [Function.update_of_ne hne]
    exact h c' hc'
  · exact Function.update_self ..

theorem Reachable.step {e : Event} (h : Reachable w) (hi : Inv kind w) (hs : AlloDataChannel.step S w e = some w') :
    Reachable w' := by
  cases step_effect hs with
  | newDataChannel k ans id called fresh =>
    have hkey := (hi.coherent.hasKey_dataChannels (hi.pendingData id called)).symm.trans fresh
    exact (h.register (c := .dataChannel (w.newDataChannel id ans)) hkey).congr rfl rfl
  | newTrack k ans f called fresh =>
    have hkey := (hi.coherent.hasKey_tracks (hi.pendingTracks f (List.mem_of_getElem? called))).symm.trans fresh
    exact (h.register (c := .track (w.newTrack f.id f.streamId f.trackId ans)) hkey).congr rfl rfl
  | remoteDataChannel dcid ans fresh => exact h.register (c := .dataChannel (w.newDataChannel dcid ans)) fresh
  | remoteTrack dcid description ans msid fresh parsed =>
    exact (h.register (c := .track (w.newTrack dcid msid.streamId msid.trackId ans)) fresh).congr rfl rfl
  | close ref c object =>
    intro c' hc'
    exact h c' (Registry.mem_close_channels.mp hc').1
  | _ => exact h.congr rfl rfl

theorem reachable_of_run (h : Run (AlloDataChannel.step S) (UniqueIds kind) w es w') (hi : Inv kind w)
    (hr : Reachable w) : Reachable w' :=
  (h.invariant (I := fun w => Inv kind w ∧ Reachable w)
    (fun _ _ _ hI henv hs => ⟨hI.1.step henv hs, hI.2.step hI.1 hs⟩) ⟨hi, hr⟩).2

end Run

/-! ## The law -/

/-- The `isOpen` that a callback leaves behind. -/
def ChannelCallback.openAfter (isOpen : Bool) : ChannelCallback → Bool
  | .opened => true
  | .closed => false
  | _ => isOpen

theorem ChannelCallback.run_isOpen {s s' : ChannelState} {cb : ChannelCallback} (h : cb.run s = some s') :
    s'.isOpen = cb.openAfter s.isOpen := by
  cases cb with
  | opened =>
    cases h
    rfl
  | closed =>
    cases h
    rfl
  | error cerror =>
    obtain ⟨error, -, rfl⟩ := Option.map_eq_some_iff.mp h
    rfl
  | message cdata size =>
    obtain ⟨bytes, -, h⟩ := Option.bind_eq_some_iff.mp h
    obtain ⟨data, -, h⟩ := Option.bind_eq_some_iff.mp h
    cases h
    rfl

theorem exec_isOpen {s s' : ChannelState} {cbs : List ChannelCallback} (h : exec ChannelCallback.run s cbs = some s') :
    s'.isOpen = cbs.foldl ChannelCallback.openAfter s.isOpen := by
  induction cbs generalizing s with
  | nil =>
    cases h
    rfl
  | cons cb cbs ih =>
    obtain ⟨s₁, hs, h⟩ := Option.bind_eq_some_iff.mp h
    rw [ih h, ChannelCallback.run_isOpen hs]
    rfl

/-- What holds of the callbacks in every run from `w`. -/
structure CallbackLaw (S : Segmentation) (kind : Int → ChannelKind) (w : World) : Prop where
  /-- A callback on the id of a registered object finds this object. -/
  finds : ∀ c ∈ w.peer.channels, w.heap.userPtr c.id = some c.ref
  /-- The state of an object that stays registered is what the callbacks on its id make of it, in order. -/
  history : ∀ es w' c, Run (step S) (UniqueIds kind) w es w' → c ∈ w.peer.channels → c ∈ w'.peer.channels →
    exec ChannelCallback.run (w.heap.state c.ref) (callbacksOn c.id es) = some (w'.heap.state c.ref)
  /-- It is open if the last of them to open or close it has opened it. -/
  isOpen : ∀ es w' c, Run (step S) (UniqueIds kind) w es w' → c ∈ w.peer.channels → c ∈ w'.peer.channels →
    (w'.heap.state c.ref).isOpen =
      (callbacksOn c.id es).foldl ChannelCallback.openAfter (w.heap.state c.ref).isOpen
  /-- An object whose id has passed to another one never changes again. -/
  replaced : ∀ es w' (c : Channel), Run (step S) (UniqueIds kind) w es w' → w.heap.objects[c.ref]? = some c →
    w.heap.userPtr c.id ≠ some c.ref → w'.heap.state c.ref = w.heap.state c.ref

/-- **Callbacks find their objects**, in every reachable world. -/
theorem callback_law {S : Segmentation} {kind : Int → ChannelKind} {o : Option IPOverride} {es : List Event} {w : World}
    (h : Run (step S) (UniqueIds kind) (.start o) es w) : CallbackLaw S kind w := by
  have hpointed := pointed_of_run h (pointed_start o)
  have hinv := inv_of_run h
  have hreach : Reachable w :=
    reachable_of_run h (.start kind o) fun c hc => absurd hc (Lib.KeyedSet.not_mem_empty c)
  have hhistory : ∀ es w' c, Run (step S) (UniqueIds kind) w es w' → c ∈ w.peer.channels → c ∈ w'.peer.channels →
      exec ChannelCallback.run (w.heap.state c.ref) (callbacksOn c.id es) = some (w'.heap.state c.ref) :=
    fun es w' c hrun hc hc' => history_of_run hrun hpointed (hreach c hc) (reachable_of_run hrun hinv hreach c hc')
  exact {
    finds := hreach
    history := hhistory
    isOpen := fun es w' c hrun hc hc' => exec_isOpen (hhistory es w' c hrun hc hc')
    replaced := fun es w' c hrun hc hptr => stale_of_run hrun hpointed hc hptr }

/-- A data channel that is closed while another one takes over its id. -/
def callbackExample : List Event :=
  [.dataChannelCallback 1 { stream := 0, label := [] }, .channelCallback 1 .opened, .close 0,
    .dataChannelCallback 1 { stream := 0, label := [] }]

theorem callback_law_example : ∃ w,
    Lib.exec (step .scalars) (.start none) callbackExample = some w ∧ w.heap.userPtr 1 = some 1 ∧
      (w.heap.state 0).isOpen = true ∧ (w.heap.state 1).isOpen = false ∧
      CallbackLaw .scalars (fun _ => .dataChannel) w := by
  refine ⟨_, rfl, rfl, rfl, rfl, @callback_law _ _ none callbackExample _ ?_⟩
  exact .cons rfl rfl (.cons trivial rfl (.cons trivial rfl (.cons rfl rfl (.nil _))))

end AlloDataChannel

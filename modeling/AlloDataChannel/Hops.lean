import AlloDataChannel.Forwardable

/-!
# Names that pass from peer to peer

A unit announces its track to the next peer under `<client>.<stream id>`. That peer parses the line, and may forward the
track again under another client.

* `Clean`, `Portable` : what the ids of a line have to satisfy, stated of the ids alone;
* `transportable_iff` : this is what `Transportable` asks of the line;
* `portable_of_msid` : what `GetMsid` reads is portable, but for an end of the stream id that joins the space behind it;
* `portable_egress_iff` : a portable track stays portable exactly under clean clients;
* `Hops` : any number of forwardings; `hops_law` : the names that arrive.
-/

namespace AlloDataChannel
open Lib (Scalars Character Segmentation Marks Within Lone Printable)
open Lib.Segmentation (Break joinLines)

section Portable
variable {S : Segmentation}

/-- A text that fits into an `a=msid:` line. -/
structure Clean (P : Marks S) (s : Scalars) : Prop where
  nul : '\x00' ∉ s
  lf : '\n' ∉ s
  space : SpaceFree S s
  joins : ∀ c, s.head? = some c → P.joins c = false

/-- Ids that arrive: a space follows the first one, a line break the second one. -/
structure Portable (P : Marks S) (m : Msid) : Prop where
  nonempty : m.streamId ≠ [] ∧ m.trackId ≠ []
  stream : Clean P m.streamId
  track : Clean P m.trackId
  prepends : ∀ c, m.streamId.getLast? = some c → P.prepends c = false
  cr : m.trackId.getLast? ≠ some '\r'

theorem characters_msidAttribute (P : Marks S) {s t : Scalars} (hs : s ≠ [])
    (hjoins : ∀ c, s.head? = some c → P.joins c = false) :
    S.characters (msidAttribute s t) = ascii "a=msid:" ++ S.characters (s ++ ' ' :: t) := by
  have hprint : "a=msid:".toList.all (fun c => decide (Printable c)) = true := by decide
  refine P.characters_append (fun c hc => of_decide_eq_true (List.all_eq_true.mp hprint c hc)) fun d hd => ?_
  rw [List.head?_append_of_ne_nil _ hs] at hd
  exact hjoins d hd

/-- The ids of an accepted call, and their line. -/
theorem transportable_iff (P : Marks S) {a : TrackArgs} (hv : a.valid S = true) :
    Transportable S a ↔ Portable P ⟨a.streamId, a.trackId⟩ := by
  obtain ⟨hspace, hspace'⟩ := space_notMem_of_valid hv
  constructor
  · intro h
    obtain ⟨stream, track, hchars, hs, ht, -, -⟩ := h.boundaries
    have hlone : Lone P.prepends P.joins a.streamId a.trackId := by
      have hcut : S.characters (msidAttribute a.streamId a.trackId) =
          (ascii "a=msid:" ++ stream) ++ [' '] :: track := by
        rw [hchars, List.append_assoc]
      have hlone := P.lone_of_cut (by decide) hcut
      rw [List.flatten_append, hs, ht] at hlone
      exact Lone.of_append (b := []) (by rwa [List.append_nil])
    have hcolon : ∀ c, a.streamId.head? = some c → P.joins c = false := by
      intro c hc
      have hcut : S.characters (msidAttribute a.streamId a.trackId) =
          ascii "a=msid" ++ [':'] :: (stream ++ [' '] :: track) := hchars
      apply (P.lone_of_cut (by decide) hcut).right
      rw [List.flatten_append, hs, List.head?_append_of_ne_nil _ h.nonempty.1]
      exact hc
    exact ⟨h.nonempty, ⟨h.nul.1, h.lf.1, hspace, hcolon⟩, ⟨h.nul.2, h.lf.2, hspace', hlone.right⟩, hlone.left, h.cr⟩
  · intro h
    obtain ⟨gs, hs, hcut, hgs⟩ := (P.alone ' ' (by decide) a.streamId a.trackId).mpr ⟨h.prepends, h.track.joins⟩
    have hhs : hs.flatten = a.trackId := by
      have hflat := S.flatten_characters (a.streamId ++ ' ' :: a.trackId)
      rw [hcut, List.flatten_append, List.flatten_cons, hgs] at hflat
      have hcancel : (a.streamId ++ [' ']) ++ hs.flatten = (a.streamId ++ [' ']) ++ a.trackId := by simpa using hflat
      exact List.append_cancel_left hcancel
    refine ⟨h.nonempty, ⟨h.stream.nul, h.track.nul⟩, ⟨h.stream.lf, h.track.lf⟩, h.cr, gs, hs, ?_, hgs, hhs, ?_, ?_⟩
    · rw [characters_msidAttribute P h.nonempty.1 h.stream.joins, hcut]
    · have hcut' : S.characters (a.streamId ++ ' ' :: a.trackId) = [] ++ (gs ++ [' '] :: hs) := hcut
      apply P.notMem_of_cut (by decide) hcut'
      rw [hgs]
      exact hspace
    · have hcut' : S.characters (a.streamId ++ ' ' :: a.trackId) = (gs ++ [[' ']]) ++ (hs ++ []) := by
        rw [hcut]
        simp
      apply P.notMem_of_cut (by decide) hcut'
      rw [hhs]
      exact hspace'

/-! ## What is read -/

/-- A token of a line, with something printable or nothing in front of the text `g` that is split. -/
theorem clean_of_token (P : Marks S) {s : Scalars} {pre g t : List Character} (hnul : '\x00' ∉ s) (hr : '\r' ∉ s)
    (hn : '\n' ∉ s) (hhead : ∀ c, s.head? = some c → P.joins c = false) (hcut : S.characters s = pre ++ g)
    (hpre : pre = [] ∨ ∃ u x, Printable x ∧ pre = u ++ [[x]]) (hg : Within S g)
    (ht : t ∈ Segmentation.split [' '] g) :
    t.flatten ≠ [] ∧ Clean P t.flatten ∧ t.flatten.getLast? ≠ some '\r' := by
  have hspace := spaceFree_of_token P hg ht
  obtain ⟨hne, -, a, b, rfl, ha, -⟩ := (Segmentation.spaced_split [' '] g).mem ht
  have hnil : [] ∉ t := by
    intro hm
    apply S.nil_notMem s
    rw [hcut]
    simp [hm]
  have hflat : t.flatten ≠ [] := flatten_ne_nil hne hnil
  have hsub : ∀ c ∈ t.flatten, c ∈ s := by
    intro c hc
    rw [← S.flatten_characters s, hcut]
    simp [hc]
  refine ⟨hflat, ⟨fun h => hnul (hsub _ h), fun h => hn (hsub _ h), hspace, fun c hc => ?_⟩, fun h => ?_⟩
  · -- the token follows a printable scalar, or begins the line
    have hbefore : pre ++ a = [] ∨ ∃ u x, Printable x ∧ pre ++ a = u ++ [[x]] := by
      rcases ha with rfl | ⟨a, rfl⟩
      · rw [List.append_nil]
        exact hpre
      · exact Or.inr ⟨pre ++ a, ' ', by decide, (List.append_assoc pre a [[' ']]).symm⟩
    rw [← List.append_assoc] at hcut
    rcases hbefore with hempty | ⟨u, x, hx, hlast⟩
    · rw [hempty, List.nil_append] at hcut
      apply hhead
      rw [← S.flatten_characters s, hcut, List.flatten_append, List.head?_append_of_ne_nil _ hflat]
      exact hc
    · rw [hlast, List.append_assoc, List.singleton_append] at hcut
      apply (P.lone_of_cut hx hcut).right
      rw [List.flatten_append, List.head?_append_of_ne_nil _ hflat]
      exact hc
  · exact hr (hsub _ (List.mem_of_getLast? h))

/-- **What `GetMsid` reads**, from a text without NUL whose carriage returns are those of its line breaks. -/
theorem clean_of_msid (P : Marks S) {ls : List (Scalars × Break)} {m : Msid} (hls : BreakFree ls)
    (hnul : ∀ l ∈ ls, '\x00' ∉ l.1) (h : msidOfLines (sdpLines S (joinLines ls)) = some m) :
    (m.streamId ≠ [] ∧ Clean P m.streamId ∧ m.streamId.getLast? ≠ some '\r') ∧
      m.trackId ≠ [] ∧ Clean P m.trackId ∧ m.trackId.getLast? ≠ some '\r' := by
  have hline : ∀ line ∈ sdpLines S (joinLines ls), ∃ l ∈ ls, line = S.characters l.1 := by
    intro line hm
    rw [sdpLines_joinLines hls.isLine, List.mem_filter, List.mem_map] at hm
    obtain ⟨⟨l, hl, rfl⟩, -⟩ := hm
    exact ⟨l, hl, rfl⟩
  have hhead : ∀ {s : Scalars} {rest : List Character}, S.characters s = ['a'] :: rest →
      ∀ c, s.head? = some c → P.joins c = false := by
    intro s rest hcut c hc
    rw [← S.flatten_characters s, hcut, List.flatten_cons, List.singleton_append, List.head?_cons,
      Option.some.injEq] at hc
    rw [← hc]
    exact (P.ascii 'a' (by decide)).2
  unfold msidOfLines at h
  rcases Option.or_eq_some_iff.mp h with hu | ⟨-, hs⟩
  · obtain ⟨line, hfound, htokens⟩ := Option.bind_eq_some_iff.mp hu
    obtain ⟨stream, hstream, track, htrack, rfl⟩ := mem_of_unifiedOfTokens htokens
    have hg := within_of_unifiedLine hfound
    have hprefix := List.find?_some hfound
    obtain ⟨l, hl, rfl⟩ := hline line (List.mem_of_find?_eq_some hfound)
    unfold Segmentation.hasPrefix at hprefix
    obtain ⟨g, hcut⟩ := of_decide_eq_true hprefix
    unfold unifiedTokens at hstream htrack
    rw [← hcut, List.drop_left] at hstream htrack hg
    have hpre : ascii "a=msid:" = [] ∨ ∃ u x, Printable x ∧ ascii "a=msid:" = u ++ [[x]] :=
      Or.inr ⟨ascii "a=msid", ':', by decide, rfl⟩
    have hclean : ∀ t ∈ Segmentation.split [' '] g,
        t.flatten ≠ [] ∧ Clean P t.flatten ∧ t.flatten.getLast? ≠ some '\r' := fun t ht =>
      clean_of_token P (hnul l hl) (hls l hl).1 (hls l hl).2 (hhead hcut.symm) hcut.symm hpre hg ht
    exact ⟨hclean stream hstream, hclean track htrack⟩
  · obtain ⟨line, hfound, htokens⟩ := Option.bind_eq_some_iff.mp hs
    obtain ⟨stream, hstream, track, htrack, rfl⟩ := mem_of_sourceOfTokens htokens
    have hprefix := List.find?_some hfound
    obtain ⟨l, hl, rfl⟩ := hline line (List.mem_of_find?_eq_some hfound)
    rw [Bool.and_eq_true] at hprefix
    obtain ⟨g, hcut⟩ := of_decide_eq_true hprefix.2
    have hclean : ∀ t ∈ Segmentation.split [' '] (S.characters l.1),
        t.flatten ≠ [] ∧ Clean P t.flatten ∧ t.flatten.getLast? ≠ some '\r' := fun t ht =>
      clean_of_token P (hnul l hl) (hls l hl).1 (hls l hl).2 (hhead hcut.symm)
        (List.nil_append (S.characters l.1)).symm (Or.inl rfl) (.characters S l.1) ht
    exact ⟨hclean stream hstream, hclean track htrack⟩

/-- It is portable when the stream id does not join the space that will be put behind it. -/
theorem portable_of_msid (P : Marks S) {ls : List (Scalars × Break)} {m : Msid} (hls : BreakFree ls)
    (hnul : ∀ l ∈ ls, '\x00' ∉ l.1) (h : GetMsid S (joinLines ls) = some (.ok m)) :
    Portable P m ↔ ∀ c, m.streamId.getLast? = some c → P.prepends c = false := by
  have hm : msidOfLines (sdpLines S (joinLines ls)) = some m := by
    rw [getMsid_eq, Option.some.injEq] at h
    split at h
    · next m' hm =>
      cases h
      exact hm
    · cases h
  obtain ⟨⟨hs, hstream, -⟩, ht, htrack, hcr⟩ := clean_of_msid P hls hnul hm
  exact ⟨fun hp => hp.prepends, fun hp => ⟨⟨hs, ht⟩, hstream, htrack, hp, hcr⟩⟩

/-! ## Forwarding -/

/-- The ids of a track. -/
def Track.msid (t : Track) : Msid := ⟨t.streamId, t.trackId⟩

/-- A portable track is portable under a client name exactly when that one is clean. -/
theorem portable_egress_iff (P : Marks S) {a : Source} (h : Portable P a.ingressTrack.msid) :
    Portable P ⟨a.egressStreamId, a.ingressTrack.trackId⟩ ↔ Clean P a.fromClientId := by
  have hmem : ∀ {c : Char}, c ≠ '.' → c ∉ a.ingressTrack.streamId →
      (c ∉ a.egressStreamId ↔ c ∉ a.fromClientId) := by
    intro c hdot hc
    unfold Source.egressStreamId
    rw [List.mem_append, List.mem_cons]
    tauto
  constructor
  · intro hp
    refine ⟨(hmem (by decide) h.stream.nul).mp hp.stream.nul, (hmem (by decide) h.stream.lf).mp hp.stream.lf,
      ((spaceFree_egressStreamId P a).mp hp.stream.space).1, fun c hc => ?_⟩
    apply hp.stream.joins
    unfold Source.egressStreamId
    rw [List.head?_append, hc, Option.some_or]
  · intro hc
    refine ⟨⟨?_, h.nonempty.2⟩, ⟨(hmem (by decide) h.stream.nul).mpr hc.nul, (hmem (by decide) h.stream.lf).mpr hc.lf,
      (spaceFree_egressStreamId P a).mpr ⟨hc.space, h.stream.space⟩, fun d hd => ?_⟩, h.track, fun d hd => ?_, h.cr⟩
    · unfold Source.egressStreamId
      simp
    · unfold Source.egressStreamId at hd
      rw [List.head?_append, List.head?_cons, Option.or_eq_some_iff] at hd
      rcases hd with hd | ⟨-, hd⟩
      · exact hc.joins d hd
      · rw [Option.some.injEq] at hd
        rw [← hd]
        exact (P.ascii '.' (by decide)).2
    · have hs : a.ingressTrack.streamId ≠ [] := h.nonempty.1
      apply h.prepends
      unfold Source.egressStreamId at hd
      rwa [List.getLast?_append_of_ne_nil _ (by simp), List.getLast?_cons_of_ne_nil hs] at hd

/-- The names of a forwarded track arrive. -/
theorem survives_egress_iff (P : Marks S) {p p' : Peer} {a : Source} {draws : List Draw} {init : TrackInit}
    (h : Portable P a.ingressTrack.msid) (hcall : p.prepareTrack S a.egressArgs draws = some (.ok init, p')) :
    Survives S a.egressArgs init ↔ Clean P a.fromClientId := by
  rw [survives_iff_transportable hcall, transportable_iff P (prepareTrack_init hcall).1]
  exact portable_egress_iff P h

end Portable

/-! ## Hops -/

/-- A unit forwards `t` for a client, and the next peer reads the names of `t'` in the section of the egress track. -/
def Hop (S : Segmentation) (client : Scalars) (t t' : Track) : Prop :=
  ∃ (p p' : Peer) (draws : List Draw) (init : TrackInit) (before after : List (Scalars × Break)) (b : Break),
    p.prepareTrack S (⟨client, t⟩ : Source).egressArgs draws = some (.ok init, p') ∧ BreakFree (before ++ after) ∧
    msidLines S (before ++ after) = [] ∧
    GetMsid S (joinLines (before ++ (msidAttribute init.msid init.trackId, b) :: after)) = some (.ok t'.msid)

/-- One hop for each client, the first one first. -/
inductive Hops (S : Segmentation) : List Scalars → Track → Track → Prop
  | nil (t : Track) : Hops S [] t t
  | cons {client : Scalars} {clients : List Scalars} {t t' t'' : Track} (hop : Hop S client t t')
    (rest : Hops S clients t' t'') : Hops S (client :: clients) t t''

/-- The stream id behind the names of all clients, the last one in front. -/
def composed (clients : List Scalars) (streamId : Scalars) : Scalars :=
  clients.foldl (fun s client => client ++ '.' :: s) streamId

section Hops
variable {S : Segmentation}

theorem Hop.arrives (P : Marks S) {client : Scalars} {t t' : Track} (ht : Portable P t.msid) (hc : Clean P client)
    (h : Hop S client t t') : t'.msid = ⟨client ++ '.' :: t.streamId, t.trackId⟩ ∧ Portable P t'.msid := by
  obtain ⟨p, p', draws, init, before, after, b, hcall, hfree, hno, hread⟩ := h
  have hsurvives := (survives_egress_iff P (a := ⟨client, t⟩) ht hcall).mpr hc
  have hids := (hsurvives before after b hfree hno).2
  rw [hread, Option.some.injEq, Except.ok.injEq] at hids
  have hnames : t'.msid = ⟨client ++ '.' :: t.streamId, t.trackId⟩ := hids
  refine ⟨hnames, ?_⟩
  rw [hnames]
  exact (portable_egress_iff P (a := ⟨client, t⟩) ht).mpr hc

/-- A new peer can always take the track, and its description be no more than the line of that track. -/
theorem exists_hop (P : Marks S) {client : Scalars} {t : Track} (ht : Portable P t.msid) (hc : Clean P client) :
    ∃ t', Hop S client t t' := by
  have hv : (⟨client, t⟩ : Source).egressArgs.valid S = true :=
    (valid_egressArgs_iff P ⟨client, t⟩).mpr ⟨hc.space, ht.stream.space, ht.track.space⟩
  obtain ⟨init, p', hcall⟩ : ∃ init p',
      Peer.prepareTrack S {} (⟨client, t⟩ : Source).egressArgs [⟨1, by decide⟩] = some (.ok init, p') := by
    unfold Peer.prepareTrack
    rw [if_pos hv]
    exact ⟨_, _, rfl⟩
  have hsurvives := (survives_egress_iff P (a := ⟨client, t⟩) ht hcall).mpr hc
  have hfree : BreakFree ([] ++ []) := fun l hl => absurd hl List.not_mem_nil
  refine ⟨{ t with streamId := client ++ '.' :: t.streamId }, {}, p', _, init, [], [], .crlf, hcall, hfree, rfl, ?_⟩
  exact (hsurvives [] [] .crlf hfree rfl).2

/-- What holds of names between peers, for every cut of strings. -/
structure HopsLaw (P : Marks S) : Prop where
  /-- What is read from a description is portable, but for an end of the stream id that joins a space. -/
  read : ∀ ls m, BreakFree ls → (∀ l ∈ ls, '\x00' ∉ l.1) → GetMsid S (joinLines ls) = some (.ok m) →
    (Portable P m ↔ ∀ c, m.streamId.getLast? = some c → P.prepends c = false)
  /-- The names of a portable track arrive exactly under clean client names. -/
  hop : ∀ (p p' : Peer) (a : Source) draws init, Portable P a.ingressTrack.msid →
    p.prepareTrack S a.egressArgs draws = some (.ok init, p') → (Survives S a.egressArgs init ↔ Clean P a.fromClientId)
  /-- After any number of hops they are the composed ones. -/
  hops : ∀ clients t t', Portable P t.msid → (∀ c ∈ clients, Clean P c) → Hops S clients t t' →
    t'.msid = ⟨composed clients t.streamId, t.trackId⟩ ∧ Portable P t'.msid
  /-- And there are no hops that cannot be made. -/
  goesOn : ∀ clients t, Portable P t.msid → (∀ c ∈ clients, Clean P c) → ∃ t', Hops S clients t t'

/-- **Names between peers.** -/
theorem hops_law (P : Marks S) : HopsLaw P where
  read ls m hls hnul h := portable_of_msid P hls hnul h
  hop p p' a draws init h hcall := survives_egress_iff P h hcall
  hops clients t t' ht hclean h := by
    induction h with
    | nil t => exact ⟨rfl, ht⟩
    | @cons client clients t t₁ t₂ hop rest ih =>
      obtain ⟨hnames, hportable⟩ := hop.arrives P ht (hclean client List.mem_cons_self)
      obtain ⟨hfinal, hend⟩ := ih hportable fun c hc => hclean c (List.mem_cons_of_mem client hc)
      refine ⟨?_, hend⟩
      unfold Track.msid at hnames
      rw [Msid.mk.injEq] at hnames
      rw [hfinal, hnames.1, hnames.2]
      rfl
  goesOn clients := by
    induction clients with
    | nil => exact fun t _ _ => ⟨t, .nil t⟩
    | cons client clients ih =>
      intro t ht hclean
      obtain ⟨t₁, hop⟩ := exists_hop P ht (hclean client List.mem_cons_self)
      have hportable := (hop.arrives P ht (hclean client List.mem_cons_self)).2
      obtain ⟨t₂, rest⟩ := ih t₁ hportable fun c hc => hclean c (List.mem_cons_of_mem client hc)
      exact ⟨t₂, .cons hop rest⟩

/-- The track of the description in `announcedRun`, forwarded twice. -/
theorem hops_example : ∃ t, Hops .scalars ["alice".toList, "sfu".toList] announcedTrack t ∧
    t.msid = ⟨"sfu.alice.cam".toList, "video".toList⟩ := by
  have hread : GetMsid .scalars (joinLines [("a=mid:0".toList, .crlf), ("a=msid:cam  video x".toList, .crlf)]) =
      some (.ok announcedTrack.msid) := by decide +kernel
  have hportable : Portable Marks.scalars announcedTrack.msid :=
    ((hops_law Marks.scalars).read _ _ (by unfold BreakFree; decide) (by decide) hread).mpr fun _ _ => rfl
  have hclean : ∀ c ∈ ["alice".toList, "sfu".toList], Clean Marks.scalars c := by
    intro c hc
    rcases List.mem_cons.mp hc with rfl | hc
    · exact ⟨by decide, by decide, by decide, fun _ _ => rfl⟩
    · rw [List.mem_singleton.mp hc]
      exact ⟨by decide, by decide, by decide, fun _ _ => rfl⟩
  obtain ⟨t, ht⟩ := (hops_law Marks.scalars).goesOn _ announcedTrack hportable hclean
  exact ⟨t, ht, ((hops_law Marks.scalars).hops _ _ t hportable hclean ht).1⟩

end Hops

end AlloDataChannel

import AlloDataChannel.Lib.Tokens
import AlloDataChannel.Sdp

/-!
# Whole addresses

An IP override is about the tokens of a text, the runs between whitespace. `sanitizeSdp` scans for the address as a
substring.

* `textTokens` : the tokens of a text;
* `overrideAddresses` : the text with the other address for each token that is the address;
* `whole_addresses_iff` : a text is published that way exactly when the address occurs in no other token.
-/

namespace AlloDataChannel
open Lib (Scalars Character Segmentation isWhitespace)

def textTokens (S : Segmentation) (text : Scalars) : List (List Character) :=
  Lib.tokens isWhitespace (S.characters text)

/-- The text with `to` for each token that equals `from`; the other tokens and the whitespace stay. -/
def overrideAddresses (S : Segmentation) (o : IPOverride) (text : Scalars) : Scalars :=
  (Lib.mapTokens isWhitespace (Lib.replaceToken (S.characters o.fromIP) (S.characters o.toIP))
    (S.characters text)).flatten

/-- A token of the text other than the address contains it, at its start, at its end or inside. -/
def Embedded (S : Segmentation) (o : IPOverride) (text : Scalars) : Prop :=
  ∃ t ∈ textTokens S text, S.characters o.fromIP <:+: t ∧ t ≠ S.characters o.fromIP

theorem isWhitespace_of_ip {c : Char} (h : c ∈ ipCharacters) : isWhitespace [c] = false := by
  have hall : ipCharacters.all (fun c => !isWhitespace [c]) = true := by decide
  simpa using List.all_eq_true.mp hall c h

theorem isWhitespace_of_mem {S : Segmentation} {s : Scalars} (h : IPText s) {g : Character}
    (hg : g ∈ S.characters s) : isWhitespace g = false := by
  obtain ⟨c, hc, rfl⟩ := h.mem_characters hg
  exact isWhitespace_of_ip hc

theorem characters_injective {S : Segmentation} {s t : Scalars} (h : S.characters s = S.characters t) : s = t := by
  rw [← S.flatten_characters s, h, S.flatten_characters]

/-- The scan agrees with the tokens exactly when no other token embeds the address. -/
theorem sanitizeSdp_eq_iff {S : Segmentation} {o : IPOverride} (hfrom : IPText o.fromIP) (text : Scalars) :
    sanitizeSdp S (some o) text = overrideAddresses S o text ↔ o.fromIP = o.toIP ∨ ¬ Embedded S o text := by
  have hscan : sanitizeSdp S (some o) text =
      (Lib.replaceAll (S.characters o.fromIP) (S.characters o.toIP) (S.characters text)).flatten := if_neg hfrom.ne_nil
  have hinj : (S.characters o.fromIP).flatten = (S.characters o.toIP).flatten →
      S.characters o.fromIP = S.characters o.toIP := by
    intro h
    rw [S.flatten_characters, S.flatten_characters] at h
    rw [h]
  have hiff := Lib.replaceAll_eq_replaceToken_iff (hfrom.characters_ne_nil S)
    (fun g hg => isWhitespace_of_mem hfrom hg) hinj (S.characters text)
  rw [hscan]
  refine hiff.trans (or_congr ⟨fun h => characters_injective h, fun h => congrArg S.characters h⟩ ?_)
  unfold Embedded textTokens
  simp only [not_exists, not_and, not_not]

/-- The four places where the peer publishes a text change whole addresses only. -/
structure WholeAddresses (S : Segmentation) (p : Peer) (o : IPOverride) (text : Scalars) : Prop where
  sanitizeSdp : sanitizeSdp S p.ipOverride text = overrideAddresses S o text
  localDescription : ∀ type p', p.localDescriptionCallback S text type = some p' →
    p'.localDescription.map Description.sdp = some (overrideAddresses S o text)
  candidates : ∀ mid, (p.localCandidateCallback S text mid).candidates =
    p.candidates ++ [{ candidate := overrideAddresses S o text, mid := mid }]
  createOffer : ∀ needed copy published, (copy (needed + 1024)).2 = text →
    p.createOffer S needed copy = some (.ok published) → published = overrideAddresses S o text
  createAnswer : ∀ needed copy published, (copy (needed + 1024)).2 = text →
    p.createAnswer S needed copy = some (.ok published) → published = overrideAddresses S o text

/-- **Whole addresses.** Every text is published with whole addresses replaced exactly when the override changes nothing
or no token embeds the address. -/
theorem whole_addresses_iff {S : Segmentation} {p : Peer} {o : IPOverride} (hp : p.ipOverride = some o)
    (hfrom : IPText o.fromIP) (text : Scalars) :
    WholeAddresses S p o text ↔ o.fromIP = o.toIP ∨ ¬ Embedded S o text := by
  rw [← sanitizeSdp_eq_iff hfrom]
  constructor
  · intro h
    rw [← hp]
    exact h.sanitizeSdp
  · intro h
    rw [← hp] at h
    refine ⟨h, fun type p' hcall => ?_, fun mid => ?_, fun needed copy published hcopy hcall => ?_,
      fun needed copy published hcopy hcall => ?_⟩
    · obtain ⟨t, -, rfl⟩ := Option.map_eq_some_iff.mp hcall
      exact congrArg some h
    · unfold Peer.localCandidateCallback
      rw [h]
    · rw [createDescription_ok hcall, hcopy, h]
    · rw [createDescription_ok hcall, hcopy, h]

def overriding : IPOverride := { fromIP := "10.0.0.1".toList, toIP := "192.0.2.7".toList }

theorem ipText_overriding : IPText overriding.fromIP := by
  have hall : overriding.fromIP.all (fun c => decide (c ∈ ipCharacters)) = true := by decide
  exact ⟨fun c hc => of_decide_eq_true (List.all_eq_true.mp hall c hc), Or.inl (by decide)⟩

/-- Another host of the subnet: `10.0.0.12` becomes `192.0.2.72`. -/
theorem address_embedded :
    ¬ WholeAddresses .scalars { ipOverride := some overriding } overriding "c=IN IP4 10.0.0.12".toList := by
  intro h
  exact absurd h.sanitizeSdp (by decide)

theorem whole_addresses_example :
    WholeAddresses .scalars { ipOverride := some overriding } overriding "c=IN IP4 10.0.0.1".toList := by
  refine (whole_addresses_iff rfl ipText_overriding _).mpr (Or.inr ?_)
  rintro ⟨t, ht, hin, hne⟩
  have htokens : textTokens .scalars "c=IN IP4 10.0.0.1".toList =
      [ascii "c=IN", ascii "IP4", ascii "10.0.0.1"] := by decide
  rw [htokens] at ht
  have hfrom : Segmentation.scalars.characters overriding.fromIP = ascii "10.0.0.1" := by decide
  rw [hfrom] at hin hne
  have hlen := hin.length_le
  rcases List.mem_cons.mp ht with rfl | ht
  · exact absurd hlen (by decide)
  · rcases List.mem_cons.mp ht with rfl | ht
    · exact absurd hlen (by decide)
    · exact hne (List.mem_singleton.mp ht)

end AlloDataChannel

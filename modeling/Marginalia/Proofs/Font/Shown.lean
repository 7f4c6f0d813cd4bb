import Marginalia.Document.Resources
import Marginalia.Font.Chain
import Marginalia.Proofs.Object.Dict
import Marginalia.Proofs.Text.Encoding

/-!
Text shown in a font that this library writes with is read back: the dictionary of the font tells how
its strings are encoded.
-/

namespace Marginalia

namespace FontSource

/-- How the strings shown in the font are read back. -/
def textEncoding : FontSource → Document.TextEncoding
  | standard .. => .winAnsi
  | cjk _ _ _ _ encoding =>
    if ["Identity", "UCS2", "UTF16"].any fun part =>
      containsRow (Syntax.ascii part) (Utf8.encode encoding.toList) then .twoByte
    else .unknown

/-- Fonts whose strings are read as they are shown. -/
def IsReadable : FontSource → Prop
  | standard .. => True
  | f@(cjk ..) => f.textEncoding = .twoByte

variable {α : Type}

theorem fontEncoding_simpleFont (d : Document α) (baseFont : Object α) :
    d.fontEncoding (simpleFont baseFont) = .winAnsi := by
  have he : (simpleFont baseFont).get? "Encoding" = some (.nameOf "WinAnsiEncoding") := by
    simp +decide [simpleFont, Dict.get?_ofList_cons, Dict.get?_ofList_nil]
  have hs : (simpleFont baseFont).hasName "Subtype" "Type0" = false := by
    simp +decide [simpleFont, Dict.hasName, Dict.name?, Dict.get?_ofList_cons, Dict.get?_ofList_nil,
      Object.nameOf]
  simp only [Document.fontEncoding, he, Option.bind_some, Document.deref, Object.nameOf, Object.name?,
    hs]
  rfl

/-- The dictionary of a font tells the encoding of its strings, whatever document it is in. -/
theorem fontEncoding_dictionary (f : FontSource) (d d' : Document α) (bold : Bool) :
    d'.fontEncoding (f.dictionary d bold).2 = f.textEncoding := by
  cases f with
  | standard family baseFont boldBaseFont => exact fontEncoding_simpleFont d' _
  | cjk family baseFont ordering supplement encoding =>
    have he : ((cjk family baseFont ordering supplement encoding).dictionary d bold).2.get?
        "Encoding" = some (nameOfText encoding) := by
      simp +decide [dictionary, Dict.get?_ofList_cons, Dict.get?_ofList_nil]
    have hs : ((cjk family baseFont ordering supplement encoding).dictionary d bold).2.hasName
        "Subtype" "Type0" = true := by
      simp +decide [dictionary, Dict.hasName, Dict.name?, Dict.get?_ofList_cons,
        Dict.get?_ofList_nil, Object.nameOf]
    simp only [Document.fontEncoding, he, Option.bind_some, Document.deref, nameOfText, Object.name?,
      hs, Bool.not_true, Bool.and_false, Bool.false_eq_true, if_false, textEncoding]

/-- What a font shows is read back, if it supports it and, in two-byte codes, if there is something to
be read in it. -/
theorem decodeShown_encode {f : FontSource} (hf : f.IsReadable) {text : String}
    (hs : f.supports text = true) (hm : Document.isMeaningful text.toList = true) :
    Document.decodeShown f.textEncoding (f.encode text) = text := by
  cases f with
  | standard family baseFont boldBaseFont =>
    simp only [textEncoding, Document.decodeShown, winAnsi_decode_encode hs, String.ofList_toList]
  | cjk family baseFont ordering supplement encoding =>
    have ht : (cjk family baseFont ordering supplement encoding).textEncoding = .twoByte := hf
    have hlen : ∀ cs : List Char, (∀ c ∈ cs, c.toNat ≤ 0xFFFF) →
        (Utf16.encode cs).length = 2 * cs.length := by
      intro cs hcs
      induction cs with
      | nil => rfl
      | cons c cs ih =>
        have hc : c.toNat < 0x10000 := by
          have := hcs c (by simp)
          omega
        have hsplit : Utf16.encode (c :: cs) =
            (Utf16.charUnits c).flatMap Utf16.unitBytes ++ Utf16.encode cs := rfl
        rw [hsplit, List.length_append, ih fun c' hc' => hcs c' (by simp [hc'])]
        simp [Utf16.charUnits, hc, Utf16.unitBytes]
        omega
    have hcs : ∀ c ∈ text.toList, c.toNat ≤ 0xFFFF := by
      simpa [supports, supportsChar] using hs
    have hne : text.toList ≠ [] := by
      intro he
      simp [he, Document.isMeaningful] at hm
    have hpos : 2 ≤ 2 * text.toList.length := by
      have := List.length_pos_iff.mpr hne
      omega
    have hmod : 2 * text.toList.length % 2 = 0 := by omega
    simp only [ht, Document.decodeShown, encode_cjk hs, Utf16.decode_encode, hm, hlen _ hcs, hpos,
      hmod, decide_true, Bool.and_self, if_true, String.ofList_toList]

end FontSource

namespace FontChain

/-- A resolved font is a candidate of the chain. -/
theorem mem_of_resolve {chain : FontChain} {family text : String} {f : FontSource}
    (h : chain.resolve family text = .ok f) : f ∈ chain.candidates := by
  have hfind : ∀ {name : String} {g : FontSource}, chain.find? name = some g →
      g ∈ chain.candidates := fun hg => List.mem_of_find?_eq_some hg
  have hfor : ∀ {name : String} {g : FontSource}, chain.findFor? name text = some g →
      g ∈ chain.candidates := by
    intro name g hg
    exact hfind (Option.filter_eq_some_iff.mp hg).1
  unfold resolve at h
  split at h
  · rename_i g hg
    cases h
    exact hfor hg
  · split at h
    · rename_i g hg
      cases h
      exact hfor hg
    · split at h
      · rename_i g hg
        cases h
        exact hfind hg
      · cases h

/-- No font can be had if the universal fallback is not configured, and only then. -/
theorem resolve_error {chain : FontChain} {family text : String} {e : DocumentError}
    (h : chain.resolve family text = .error e) :
    (∃ detail, e = .fontUnavailable detail) ∧ chain.find? chain.universalFallback = none := by
  unfold resolve at h
  split at h
  · cases h
  · split at h
    · cases h
    · split at h
      · cases h
      · rename_i hnone
        cases h
        exact ⟨⟨_, rfl⟩, hnone⟩

theorem default_universal : default.find? default.universalFallback ≠ none := by decide

/-- The default chain has a font for every text. -/
theorem default_resolve (family text : String) : ∃ f, default.resolve family text = .ok f := by
  cases h : default.resolve family text with
  | error e => exact absurd (resolve_error h).2 default_universal
  | ok f => exact ⟨f, rfl⟩

/-- All fonts of the default chain can be read back. -/
theorem default_readable : ∀ f ∈ default.candidates, f.IsReadable := by
  have hcjk : (FontSource.cjk Mark.defaultFontFamily "HYGoThic-Medium" "Korea1" 2
      "UniKS-UCS2-H").textEncoding = .twoByte := by decide
  simp only [default, List.mem_cons, List.not_mem_nil, or_false, forall_eq_or_imp, forall_eq]
  exact ⟨trivial, trivial, trivial, trivial, trivial, trivial, hcjk⟩

end FontChain

end Marginalia

import Marginalia.Proofs.Font.Shown

/-!
What is read of a text that its font does not wholly have. A question mark is shown for every character that the font
lacks, and read back as one. Only two-byte codes that make no sense are not read as codes.
-/

namespace Marginalia

namespace Utf8

/-- Bytes that are no part of a sequence are read one by one. -/
theorem read_single {bs : Bytes} (h : ∀ b ∈ bs, ∀ p, lead b ≠ .opens p) : (read none bs).length = bs.length := by
  induction bs with
  | nil => rfl
  | cons b bs ih =>
    have hrest := ih fun b' hb' => h b' (by simp [hb'])
    rw [read]
    cases hlead : lead b with
    | ascii c => simp [hrest]
    | opens p => exact absurd hlead (h b (by simp) p)
    | invalid => simp [hrest]

theorem length_of_decode? {bs : Bytes} {cs : List Char} (h : decode? bs = some cs) :
    cs.length = (read none bs).length := by
  rw [decode?] at h
  generalize read none bs = marks at h
  induction marks generalizing cs with
  | nil =>
    cases h
    rfl
  | cons mark marks ih =>
    rw [List.mapM_cons] at h
    obtain ⟨c, -, h⟩ := Option.bind_eq_some_iff.mp h
    obtain ⟨cs', hcs', h⟩ := Option.bind_eq_some_iff.mp h
    cases h
    rw [List.length_cons, List.length_cons, ih hcs']

end Utf8

namespace Utf16

/-- What code units give that make no sense. -/
theorem encode_replacements {cs : List Char} (h : ∀ c ∈ cs, c = '\uFFFD' ∨ c = '\u0000') :
    (encode cs).length = 2 * cs.length ∧ ∀ b ∈ encode cs, b = 0x00 ∨ b = 0xFF ∨ b = 0xFD := by
  induction cs with
  | nil => exact ⟨rfl, by simp [encode]⟩
  | cons c cs ih =>
    obtain ⟨hlen, hbytes⟩ := ih fun c' hc' => h c' (by simp [hc'])
    have hsplit : encode (c :: cs) = encode [c] ++ encode cs := by simp [encode]
    have hone : (encode [c]).length = 2 ∧ ∀ b ∈ encode [c], b = 0x00 ∨ b = 0xFF ∨ b = 0xFD := by
      rcases h c (by simp) with rfl | rfl <;> decide
    rw [hsplit]
    refine ⟨by rw [List.length_append, hlen, hone.1, List.length_cons]; omega, fun b hb => ?_⟩
    exact (List.mem_append.mp hb).elim (hone.2 b) (hbytes b)

end Utf16

namespace TextString

/-- Substitutes and NULs in two-byte codes are twice as many characters if they are read like any string. -/
theorem length_decode_replacements {cs : List Char} (h : ∀ c ∈ cs, c = '\uFFFD' ∨ c = '\u0000') :
    (decode (Utf16.encode cs)).toList.length = 2 * cs.length := by
  obtain ⟨hlen, hbytes⟩ := Utf16.encode_replacements h
  rw [← hlen]
  generalize Utf16.encode cs = bs at hbytes
  have hsingle : ∀ b ∈ bs, ∀ p, Utf8.lead b ≠ .opens p := by
    intro b hb p
    rcases hbytes b hb with rfl | rfl | rfl <;> exact fun h => nomatch h
  unfold decode
  split
  · exact absurd (hbytes 0xFE (by simp)) (by decide)
  · split
    · rename_i cs' hcs'
      rw [String.toList_ofList, Utf8.length_of_decode? hcs', Utf8.read_single hsingle]
    · rw [String.toList_ofList, Latin1.decode, List.length_map]

end TextString

namespace Document

theorem isMeaningful_eq_false {cs : List Char} :
    isMeaningful cs = false ↔ ∀ c ∈ cs, c = '\uFFFD' ∨ c = '\u0000' := by
  have hnul : ∀ c : Char, c.toNat = 0 ↔ c = '\u0000' := fun c =>
    ⟨fun h => by rw [← Char.ofNat_toNat c, h], fun h => by rw [h]; rfl⟩
  simp only [isMeaningful, List.any_eq_false, Bool.and_eq_true, bne_iff_ne, ne_eq, not_and, Decidable.not_not, hnul]
  exact forall₂_congr fun c _ => ⟨fun h => or_iff_not_imp_left.mpr h, fun h hne => h.resolve_left hne⟩

end Document

namespace FontSource

/-- Fonts whose strings are in two-byte codes. -/
def isCjk : FontSource → Bool
  | standard .. => false
  | cjk .. => true

/-- A text with a question mark for each character that the font does not have. -/
def substituted (f : FontSource) (text : String) : String :=
  String.ofList (text.toList.map fun c => if f.supportsChar c then c else '?')

theorem supportsChar_question (f : FontSource) : f.supportsChar '?' = true := by
  cases f <;> rfl

theorem encodeChar_substituted (f : FontSource) (c : Char) :
    f.encodeChar (if f.supportsChar c then c else '?') = f.encodeChar c := by
  cases hc : f.supportsChar c with
  | true => rfl
  | false =>
    rw [if_neg (by simp)]
    cases f with
    | standard family baseFont boldBaseFont =>
      have hnone : WinAnsi.byte? c = none := by simpa [supportsChar] using hc
      rw [encodeChar, encodeChar, hnone]
      rfl
    | cjk family baseFont ordering supplement encoding =>
      have hout : ¬ c.toNat ≤ 0xFFFF := by simpa [supportsChar] using hc
      rw [encodeChar, encodeChar, if_neg hout]
      rfl

/-- The bytes that show a text are those that show it with question marks. -/
theorem encode_substituted (f : FontSource) (text : String) : f.encode (f.substituted text) = f.encode text := by
  simp only [encode, substituted, String.toList_ofList, List.flatMap_map, encodeChar_substituted]

theorem supports_substituted (f : FontSource) (text : String) : f.supports (f.substituted text) = true := by
  simp only [supports, substituted, String.toList_ofList, List.all_map, List.all_eq_true, Function.comp_apply]
  intro c _
  split
  · assumption
  · exact f.supportsChar_question

theorem substituted_of_supports {f : FontSource} {text : String} (h : f.supports text = true) :
    f.substituted text = text := by
  have hall : ∀ c ∈ text.toList, (if f.supportsChar c then c else '?') = c := fun c hc =>
    if_pos (List.all_eq_true.mp h c hc)
  rw [substituted, List.map_congr_left hall, List.map_id', String.ofList_toList]

/-- What a font shows is read with its question marks, unless it is two-byte codes that stand for nothing but
substitutes and NULs. -/
theorem decodeShown_encode_iff {f : FontSource} (hf : f.IsReadable) (text : String) :
    Document.decodeShown f.textEncoding (f.encode text) = f.substituted text ↔
      ¬ (f.isCjk = true ∧ text ≠ "" ∧ ∀ c ∈ (f.substituted text).toList, c = '\uFFFD' ∨ c = '\u0000') := by
  rw [← encode_substituted]
  have hlen : (f.substituted text).toList.length = text.toList.length := by simp [substituted]
  have hs := f.supports_substituted text
  generalize f.substituted text = shown at hlen hs
  rw [← Document.isMeaningful_eq_false]
  cases f with
  | standard family baseFont boldBaseFont =>
    simp [isCjk, textEncoding, Document.decodeShown, winAnsi_decode_encode hs]
  | cjk family baseFont ordering supplement encoding =>
    cases hm : Document.isMeaningful shown.toList with
    | true => simp [decodeShown_encode hf hs hm]
    | false =>
      have ht : (cjk family baseFont ordering supplement encoding).textEncoding = .twoByte := hf
      have hread : Document.decodeShown .twoByte (Utf16.encode shown.toList) =
          TextString.decode (Utf16.encode shown.toList) := by
        simp [Document.decodeShown, Utf16.decode_encode, hm]
      have hdouble := TextString.length_decode_replacements (Document.isMeaningful_eq_false.mp hm)
      rw [ht, encode_cjk hs, hread]
      constructor
      · rintro heq ⟨-, hne, -⟩
        rw [heq, hlen] at hdouble
        exact hne (String.toList_eq_nil_iff.mp (List.eq_nil_of_length_eq_zero (by omega)))
      · intro h
        obtain rfl : text = "" := by simpa [isCjk] using h
        obtain rfl : shown = "" := String.toList_eq_nil_iff.mp (List.eq_nil_of_length_eq_zero (by simpa using hlen))
        rfl

end FontSource

namespace Document

variable {α : Type}

/-- A text shown in a font of the default chain is read with a question mark for each character that the font does
not have, so as it is if the font has them all. -/
theorem shownText_encode {f : FontSource} (hf : f ∈ FontChain.default.candidates) {d d' : Document α} {bold : Bool}
    {scope : Scope} {key : Bytes} (hfont : d'.font? scope key = some (f.dictionary d bold).2) (text : String) :
    (d'.shownText scope key (f.encode text) = f.substituted text ↔
      ¬ (f.isCjk = true ∧ text ≠ "" ∧ ∀ c ∈ (f.substituted text).toList, c = '\uFFFD' ∨ c = '\u0000')) ∧
    (f.supports text = true → f.substituted text = text) := by
  refine ⟨?_, FontSource.substituted_of_supports⟩
  simp only [shownText, hfont, FontSource.fontEncoding_dictionary]
  exact FontSource.decodeShown_encode_iff (FontChain.default_readable f hf) text

/-- The font of the default chain that has two-byte codes. -/
def koreanFont : FontSource := .cjk Mark.defaultFontFamily "HYGoThic-Medium" "Korea1" 2 "UniKS-UCS2-H"

/-- A page with the font among its resources. -/
def koreanPage : Document Unit :=
  let (d, font) := koreanFont.dictionary .empty true
  let (d, id) := d.add (.dict font)
  (d.add (.ofEntries [("Type", .nameOf "Page"),
    ("Resources", .ofEntries [("Font", .ofEntries [("F1", .ref id)])])])).1

/-- A character outside the plane that two-byte codes reach is read as a question mark. -/
theorem shownText_encode_korean : koreanFont ∈ FontChain.default.candidates ∧
    koreanPage.font? (.page ⟨3, 0⟩) (Syntax.ascii "F1") =
      some (koreanFont.dictionary (.empty : Document Unit) true).2 ∧
    koreanPage.shownText (.page ⟨3, 0⟩) (Syntax.ascii "F1") (koreanFont.encode "가😀") = "가?" := by
  have hf : koreanFont ∈ FontChain.default.candidates := by decide
  have hfont : koreanPage.font? (.page ⟨3, 0⟩) (Syntax.ascii "F1") = some (koreanFont.dictionary .empty true).2 := rfl
  have hshown : koreanFont.substituted "가😀" = "가?" := by decide
  refine ⟨hf, hfont, ?_⟩
  rw [← hshown]
  exact (shownText_encode hf hfont _).1.mpr fun h => absurd (h.2.2 '?' (by decide)) (by decide)

end Document

end Marginalia

import Marginalia.Proofs.Number.Exact
import Marginalia.Mark.DefaultStyle
import Marginalia.Proofs.Mark.Appearance

/-!
What is read from a default style that was written: the family up to the first quote or semicolon in it, and whether
the text was bold or the family holds a bold weight. A family that was read from some style is read again as it is.
-/

namespace Marginalia

namespace DefaultStyle

/-- A name that can be read as the family of a style: it has no quotes and no semicolons, and no white space
around it. -/
structure IsFamily (cs : List Char) : Prop where
  ne_nil : cs ≠ []
  chars : ∀ c ∈ cs, isFamilyChar c = true
  trimmed : Unicode.trimChars cs = cs

/-- A family behind the colon is a row of family characters that stands there, if it is no white space. -/
theorem familyValue?_eq_some {cs family : List Char} (h : familyValue? cs = some family) :
    family = [' '] ∨ (∀ c ∈ family, isFamilyChar c = true) ∧ family <:+: cs := by
  have hwhite : cs.dropWhile Unicode.isWhite <:+ cs := List.dropWhile_suffix _
  have hin : ∀ {unquoted row rest}, unquoted <:+ cs → someRow? isFamilyChar unquoted = some (row, rest) →
      (∀ c ∈ row, isFamilyChar c = true) ∧ row <:+: cs := fun hsuffix hrow =>
    ⟨(someRow?_eq_some hrow).1, (someRow?_eq_some hrow).2.isInfix.trans hsuffix.isInfix⟩
  simp only [familyValue?] at h
  split at h
  · rename_i row rest hrow
    obtain rfl := Option.some.inj h
    refine .inr (hin ?_ hrow)
    split
    · rename_i c unquoted hquote
      split
      · exact (List.suffix_cons c unquoted).trans (hquote ▸ hwhite)
      · exact hwhite
    · exact hwhite
  · split at h
    · exact .inl (Option.some.inj h).symm
    · cases h

/-- The family that is read from a style stands there. -/
theorem family?_eq_some {cs : List Char} {family : String} (h : family? cs = some family) :
    IsFamily family.toList ∧ family.toList <:+: cs := by
  unfold family? at h
  simp only at h
  split at h
  · rename_i found hfound
    split at h
    · cases h
    · rename_i hsome
      obtain rfl := Option.some.inj h
      rw [String.toList_ofList]
      have hne : Unicode.trimChars found ≠ [] := by simpa using hsome
      obtain ⟨ds, hds, hread⟩ := firstMatch?_eq_some hfound
      obtain ⟨value, hexpect, hvalue⟩ := Option.bind_eq_some_iff.mp hread
      have hin : value <:+: cs := by
        rw [expectChars?_eq_some] at hexpect
        rw [hexpect] at hds
        exact ((List.suffix_append _ _).trans hds).isInfix
      rcases familyValue?_eq_some hvalue with rfl | ⟨hchars, hfamily⟩
      · exact absurd rfl hne
      · exact ⟨⟨hne, fun c hc => hchars c ((Unicode.trimChars_infix found).subset hc),
          Unicode.trimChars_trimChars found⟩, (Unicode.trimChars_infix found).trans (hfamily.trans hin)⟩
  · cases h

/-- The property of a style that tells its weight. -/
def weightProperty : List Char := "font-weight:".toList

theorem isBoldWeight_iff {cs : List Char} : isBoldWeight cs = true ↔
    (∃ rest, cs = 'b' :: 'o' :: 'l' :: 'd' :: rest) ∨
      ∃ d rest, cs = d :: '0' :: '0' :: rest ∧ '6' ≤ d ∧ d ≤ '9' := by
  constructor
  · intro h
    unfold isBoldWeight at h
    split at h
    · exact .inl ⟨_, rfl⟩
    · exact .inr ⟨_, _, rfl, by simpa using h⟩
    · cases h
  · rintro (⟨rest, rfl⟩ | ⟨d, rest, rfl, hlow, hhigh⟩)
    · rfl
    · unfold isBoldWeight
      split
      · rfl
      · simp_all
      · rename_i hother
        exact absurd rfl (hother d rest)

/-- A style is bold if a bold weight stands anywhere in it. -/
theorem hasBoldWeight_iff {cs : List Char} : hasBoldWeight cs = true ↔
    ∃ rest, weightProperty ++ rest <:+ cs ∧ isBoldWeight (rest.dropWhile Unicode.isWhite) = true := by
  unfold hasBoldWeight weightProperty
  rw [isSome_firstMatch?]
  constructor
  · rintro ⟨ds, hds, hweight⟩
    obtain ⟨v, hv⟩ := Option.isSome_iff_exists.mp hweight
    obtain ⟨rest, hexpect, hbold⟩ := Option.bind_eq_some_iff.mp hv
    rw [expectChars?_eq_some] at hexpect
    rw [hexpect] at hds
    refine ⟨rest, hds, ?_⟩
    by_contra hnot
    rw [if_neg hnot] at hbold
    cases hbold
  · rintro ⟨rest, hds, hbold⟩
    refine ⟨_, hds, ?_⟩
    simp only [expectChars?_append, Option.bind_eq_bind, Option.bind_some, hbold, if_true, Option.isSome_some]

theorem isBoldWeight_append {cs : List Char} (h : isBoldWeight cs = true) (rest : List Char) :
    isBoldWeight (cs ++ rest) = true := by
  rcases isBoldWeight_iff.mp h with ⟨more, rfl⟩ | ⟨d, more, rfl, hd⟩
  · exact isBoldWeight_iff.mpr (.inl ⟨more ++ rest, rfl⟩)
  · exact isBoldWeight_iff.mpr (.inr ⟨d, more ++ rest, rfl, hd⟩)

/-- A style that has a bold one in it is bold. -/
theorem hasBoldWeight_infix {cs ds : List Char} (h : hasBoldWeight cs = true) (hin : cs <:+: ds) :
    hasBoldWeight ds = true := by
  obtain ⟨rest, hrest, hbold⟩ := hasBoldWeight_iff.mp h
  obtain ⟨front, back, rfl⟩ := hin
  refine hasBoldWeight_iff.mpr ⟨rest ++ back, ?_, ?_⟩
  · obtain ⟨more, rfl⟩ := hrest
    exact ⟨front ++ more, by simp⟩
  · have hsome : (rest.dropWhile Unicode.isWhite).isEmpty = false := by
      cases hr : rest.dropWhile Unicode.isWhite with
      | nil =>
        rw [hr] at hbold
        cases hbold
      | cons c cs => rfl
    rw [List.dropWhile_append, hsome, if_neg (by decide)]
    exact isBoldWeight_append hbold back

theorem not_familyChar {c : Char} (h : isFamilyChar c = false) : c = '\'' ∨ c = '"' ∨ c = ';' := by
  simp only [isFamilyChar, isQuote, Bool.and_eq_false_iff, Bool.not_eq_false', Bool.or_eq_true, beq_iff_eq,
    bne_eq_false_iff_eq] at h
  rcases h with (h | h) | h
  · exact .inl h
  · exact .inr (.inl h)
  · exact .inr (.inr h)

/-- A word that a text begins with stands in front of every character that is not in the word. -/
theorem word_before {c : Char} {cs ds word rest : List Char} (hc : c ∉ word)
    (h : cs ++ c :: ds = word ++ rest) : ∃ more, cs = word ++ more ∧ rest = more ++ c :: ds := by
  rcases List.append_eq_append_iff.mp h with ⟨excess, hword, hexcess⟩ | ⟨more, hcs, hrest⟩
  · cases excess with
    | nil => exact ⟨[], by simpa using hword.symm, by simpa using hexcess.symm⟩
    | cons e excess =>
      obtain ⟨rfl, -⟩ := List.cons.inj hexcess
      exact absurd (hword ▸ List.mem_append_right _ (by simp)) hc
  · exact ⟨more, hcs, hrest⟩

/-- A bold weight does not reach behind a character that a family name cannot have. -/
theorem isBoldWeight_before {c : Char} (hc : isFamilyChar c = false) {cs ds : List Char}
    (h : isBoldWeight (cs ++ c :: ds) = true) : isBoldWeight cs = true := by
  rcases isBoldWeight_iff.mp h with ⟨rest, hbold⟩ | ⟨d, rest, hbold, hd⟩
  · have hword : c ∉ ['b', 'o', 'l', 'd'] := by
      rcases not_familyChar hc with rfl | rfl | rfl <;> decide
    obtain ⟨more, rfl, -⟩ := word_before hword hbold
    exact isBoldWeight_iff.mpr (.inl ⟨more, rfl⟩)
  · have hword : c ∉ [d, '0', '0'] := by
      have hne : c ≠ d := by
        rintro rfl
        rcases not_familyChar hc with rfl | rfl | rfl <;> exact absurd hd (by decide)
      rcases not_familyChar hc with rfl | rfl | rfl <;> simp [hne]
    obtain ⟨more, rfl, -⟩ := word_before hword hbold
    exact isBoldWeight_iff.mpr (.inr ⟨d, more, rfl, hd⟩)

/-- A bold weight is on one side of a character that a family name cannot have. -/
theorem hasBoldWeight_split {c : Char} (hc : isFamilyChar c = false) (cs ds : List Char) :
    hasBoldWeight (cs ++ c :: ds) = (hasBoldWeight cs || hasBoldWeight ds) := by
  rw [Bool.eq_iff_iff, Bool.or_eq_true]
  constructor
  · intro h
    have hword : c ∉ weightProperty := by
      rcases not_familyChar hc with rfl | rfl | rfl <;> decide
    obtain ⟨rest, ⟨front, hfront⟩, hbold⟩ := hasBoldWeight_iff.mp h
    rcases List.append_eq_append_iff.mp hfront with ⟨own, rfl, hown⟩ | ⟨other, rfl, hother⟩
    · obtain ⟨more, rfl, rfl⟩ := word_before hword hown.symm
      refine .inl (hasBoldWeight_iff.mpr ⟨more, List.suffix_append _ _, ?_⟩)
      have hwhite : Unicode.isWhite c = false := by
        rcases not_familyChar hc with rfl | rfl | rfl <;> rfl
      rw [List.dropWhile_append, List.dropWhile_cons_of_neg (by simpa using hwhite)] at hbold
      split at hbold
      · have hnil : isBoldWeight [] = true := isBoldWeight_before hc hbold
        cases hnil
      · exact isBoldWeight_before hc hbold
    · cases other with
      | nil =>
        obtain ⟨more, hnil, -⟩ : ∃ more, [] = weightProperty ++ more ∧ rest = more ++ c :: ds :=
          word_before hword hother
        cases hnil
      | cons e other =>
        obtain ⟨rfl, rfl⟩ := List.cons.inj hother
        exact .inr (hasBoldWeight_iff.mpr ⟨rest, List.suffix_append _ _, hbold⟩)
  · rintro (h | h)
    · exact hasBoldWeight_infix h (List.prefix_append _ _).isInfix
    · exact hasBoldWeight_infix h ((List.suffix_cons c ds).trans (List.suffix_append _ _)).isInfix

theorem hasBoldWeight_of_not_mem {cs : List Char} (h : 'w' ∉ cs) : hasBoldWeight cs = false := by
  by_contra hbold
  obtain ⟨rest, hrest, -⟩ := hasBoldWeight_iff.mp (Bool.not_eq_false _ ▸ hbold)
  exact h (hrest.subset (List.mem_append_left _ (by decide)))

/-- What is read of a family that is put between quotes: it ends where a character is that a family cannot have. -/
def readFamily? (family : String) : Option String :=
  let name := Unicode.trimChars (family.toList.takeWhile isFamilyChar)
  if name.isEmpty then none else some (String.ofList name)

theorem isFamilyChar_of_isWhite {c : Char} (h : Unicode.isWhite c = true) : isFamilyChar c = true := by
  by_contra hc
  rcases not_familyChar (Bool.not_eq_true _ ▸ hc) with rfl | rfl | rfl <;> cases h

theorem readFamily?_of_chars {family : String} (hblank : Unicode.isBlank family = false)
    (h : ∀ c ∈ family.toList, isFamilyChar c = true) : readFamily? family = some (Unicode.trim family) := by
  have hsome : (Unicode.trimChars family.toList).isEmpty = false := by
    rw [Unicode.isBlank, List.all_eq_false] at hblank
    obtain ⟨c, hc, hdark⟩ := hblank
    have hkept : c ∈ Unicode.trimChars family.toList := (Unicode.isWhite_or_mem_trimChars hc).resolve_left hdark
    exact List.isEmpty_eq_false_iff.mpr (List.ne_nil_of_mem hkept)
  simp only [readFamily?, List.takeWhile_eq_self_iff.mpr h, hsome, Bool.false_eq_true, if_false, Unicode.trim]

/-- A family is read as it is if every character of it is one that a family can have. -/
theorem readFamily?_eq_trim {family : String} (hblank : Unicode.isBlank family = false) :
    readFamily? family = some (Unicode.trim family) ↔ ∀ c ∈ family.toList, isFamilyChar c = true := by
  constructor
  · intro h c hc
    rcases Unicode.isWhite_or_mem_trimChars hc with hwhite | hkept
    · exact isFamilyChar_of_isWhite hwhite
    · unfold readFamily? at h
      simp only at h
      split at h
      · cases h
      · -- Both sides have been trimmed, but the one that is read from the beginning of the family alone.
        have hread : Unicode.trimChars (family.toList.takeWhile isFamilyChar) = Unicode.trimChars family.toList :=
          String.ofList_injective (Option.some.inj h)
        rw [← hread] at hkept
        exact List.mem_takeWhile_imp ((Unicode.trimChars_infix _).subset hkept)
  · exact readFamily?_of_chars hblank

variable {α : Type} [Scalar α]

theorem toList_render (family : String) (size : α) (bold : Bool) (c : Color) :
    (render family size bold c).toList =
      "font-family: ".toList ++ '\'' :: (family.toList ++ '\'' :: ([] ++ ';' ::
        ((" font-size: ".toList ++ (DefaultAppearance.numberText size).toList ++ "pt".toList) ++ ';' ::
          ((" font-weight: ".toList ++ (if bold then "bold" else "normal").toList) ++ ';' ::
            (" color: ".toList ++ c.text.toList))))) := by
  unfold render
  generalize DefaultAppearance.numberText size = number
  generalize c.text = colour
  generalize (if bold then "bold" else "normal") = weight
  simp

/-- The family of a style is read up to the first character that a family cannot have. -/
theorem family?_render (family : String) (size : α) (bold : Bool) (c : Color) :
    family? (render family size bold c).toList = readFamily? family := by
  have hvalue : ∀ rest, ∃ found, familyValue? (' ' :: '\'' :: (family.toList ++ '\'' :: rest)) = some found ∧
      Unicode.trimChars found = Unicode.trimChars (family.toList.takeWhile isFamilyChar) := by
    intro rest
    have hdrop : (' ' :: '\'' :: (family.toList ++ '\'' :: rest)).dropWhile Unicode.isWhite =
        '\'' :: (family.toList ++ '\'' :: rest) := rfl
    have hquote : isQuote '\'' = true := rfl
    have hrow : (family.toList ++ '\'' :: rest).takeWhile isFamilyChar = family.toList.takeWhile isFamilyChar :=
      takeWhile_append_cons rfl _ _
    cases hread : family.toList.takeWhile isFamilyChar with
    | nil =>
      refine ⟨[' '], ?_, rfl⟩
      simp only [familyValue?, hdrop, hquote, if_true, someRow?, hrow, hread, List.isEmpty_nil, List.length_cons,
        Nat.lt_succ_self]
    | cons d ds =>
      refine ⟨d :: ds, ?_, rfl⟩
      simp only [familyValue?, hdrop, hquote, if_true, someRow?, hrow, hread, List.isEmpty_cons, Bool.false_eq_true,
        if_false]
  obtain ⟨found, hfound, htrim⟩ := hvalue (([] ++ ';' ::
    ((" font-size: ".toList ++ (DefaultAppearance.numberText size).toList ++ "pt".toList) ++ ';' ::
      ((" font-weight: ".toList ++ (if bold then "bold" else "normal").toList) ++ ';' ::
        (" color: ".toList ++ c.text.toList)))))
  have hfirst : firstMatch? (fun cs => do familyValue? (← expectChars? "font-family:".toList cs))
      (render family size bold c).toList = some found := by
    have hproperty : "font-family: ".toList = "font-family:".toList ++ [' '] := by decide
    apply firstMatch?_here
    rw [toList_render, hproperty, List.append_assoc, expectChars?_append]
    exact hfound
  simp only [family?, hfirst, htrim, readFamily?]

theorem not_mem_fixed (x : α) : 'w' ∉ (Scalar.fixed 3 x).toList := by
  unfold Scalar.fixed
  split
  · decide
  · decide
  · decide
  · rename_i negative q _
    intro hmem
    obtain ⟨whole, fraction, htext, hwhole, hfraction, -⟩ :=
      @Decimal.positional_point (Decimal.ofRat 3 negative q) (show (-(3 : Nat) : Int) < 0 by decide)
    have hsign : ∀ sign, 'w' ∉ signChars sign := by decide
    rw [htext, List.append_assoc, List.mem_append, List.mem_append, List.mem_cons] at hmem
    rcases hmem with hsigned | hdigit | hpoint | hdigit
    · exact hsign _ hsigned
    · cases hwhole _ hdigit
    · cases hpoint
    · cases hfraction _ hdigit

theorem not_mem_numberText (x : α) : 'w' ∉ (DefaultAppearance.numberText x).toList := by
  unfold DefaultAppearance.numberText
  simp only
  split
  · decide
  · intro hmem
    rw [String.toList_ofList, List.mem_reverse] at hmem
    have hkept := (List.dropWhile_suffix _).subset ((List.dropWhile_suffix _).subset hmem)
    exact not_mem_fixed x (List.mem_reverse.mp hkept)

theorem not_mem_text (c : Color) : 'w' ∉ c.text.toList := by
  have hdigit : ∀ n < 16, Color.hexDigit n ≠ 'w' := by decide
  have hpair : ∀ b : UInt8, 'w' ∉ Color.hexPair b := by
    intro b hmem
    have hb := b.toNat_lt
    simp only [Color.hexPair, List.mem_cons, List.not_mem_nil, or_false] at hmem
    rcases hmem with hw | hw
    · exact hdigit _ (by omega) hw.symm
    · exact hdigit _ (by omega) hw.symm
  simp only [Color.text, String.toList_ofList, List.cons_append, List.mem_cons, List.mem_append, hpair, or_false]
  decide

/-- A style is bold if it is written so, or if its family holds a bold weight. -/
theorem hasBoldWeight_render (family : String) (size : α) (bold : Bool) (c : Color) :
    hasBoldWeight (render family size bold c).toList = (hasBoldWeight family.toList || bold) := by
  have hproperty : hasBoldWeight "font-family: ".toList = false := hasBoldWeight_of_not_mem (by decide)
  have hpoints : hasBoldWeight (" font-size: ".toList ++ (DefaultAppearance.numberText size).toList ++
      "pt".toList) = false := by
    apply hasBoldWeight_of_not_mem
    simp only [List.mem_append, not_mem_numberText, or_false]
    decide
  have hcolor : hasBoldWeight (" color: ".toList ++ c.text.toList) = false := by
    apply hasBoldWeight_of_not_mem
    simp only [List.mem_append, not_mem_text, or_false]
    decide
  have hweight : hasBoldWeight (" font-weight: ".toList ++ (if bold then "bold" else "normal").toList) = bold := by
    cases bold <;> decide
  have hnone : hasBoldWeight [] = false := rfl
  rw [toList_render, hasBoldWeight_split rfl, hasBoldWeight_split rfl, hasBoldWeight_split rfl,
    hasBoldWeight_split rfl, hasBoldWeight_split rfl, hproperty, hpoints, hcolor, hweight, hnone]
  simp only [Bool.false_or, Bool.or_false]

/-- What is read from a style that was written, whatever its family is. -/
theorem parse_render (family : String) (size : α) (bold : Bool) (c : Color) :
    parse (render family size bold c) = ⟨readFamily? family, hasBoldWeight family.toList || bold⟩ := by
  rw [parse, family?_render, hasBoldWeight_render]

/-- A style is read with the family and the weight that it was written with. -/
theorem IsFamily.parse_render {family : String} (hf : IsFamily family.toList) {bold : Bool}
    (h : hasBoldWeight family.toList = true → bold = true) (size : α) (c : Color) :
    parse (render family size bold c) = ⟨some family, bold⟩ := by
  have hsome : family.toList.isEmpty = false := List.isEmpty_eq_false_iff.mpr hf.ne_nil
  have hread : readFamily? family = some family := by
    simp only [readFamily?, List.takeWhile_eq_self_iff.mpr hf.chars, hf.trimmed, hsome, Bool.false_eq_true, if_false,
      String.ofList_toList]
  rw [DefaultStyle.parse_render, hread, Bool.or_eq_right_iff_imp.mpr h]

end DefaultStyle

end Marginalia

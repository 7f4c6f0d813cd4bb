import Mathlib.Data.List.Basic
import Marginalia.Text.Lower

/-!
Lower case of a text that stands in another. Only the form of a capital sigma depends on the characters around it, so
a text is lowered within another as it is alone wherever its sigmas have the same forms. Texts for which that is
everywhere are the ones whose lower case is in that of every text that they are in.
-/

namespace Marginalia

theorem containsRow_iff {β : Type} [BEq β] [LawfulBEq β] {part cs : List β} :
    containsRow part cs = true ↔ part <:+: cs := by
  induction cs with
  | nil => rw [containsRow, List.isEmpty_iff, List.infix_nil]
  | cons c cs ih => rw [containsRow, Bool.or_eq_true, List.isPrefixOf_iff_prefix, ih, List.infix_cons_iff]

namespace Unicode

def capitalSigma : Char := '\u03A3'

/-- The small forms of sigma: the one at the end of a word, and the one elsewhere. -/
def smallSigma (final : Bool) : Char := if final then '\u03C2' else '\u03C3'

theorem smallSigma_inj {e f : Bool} : smallSigma e = smallSigma f ↔ e = f := by
  cases e <;> cases f <;> decide

/-- Whether a capital sigma ends a word, from the characters before it, latest first, and those behind it. -/
def endsWord (before after : List Char) : Bool := casedAhead before && !casedAhead after

/-- Lower case of a character between others. -/
def lowerAt (before : List Char) (c : Char) (after : List Char) : List Char :=
  if c = capitalSigma then [smallSigma (endsWord before after)]
  else if c = '\u0130' then ['i', '\u0307']
  else [lowerChar c]

/-- Lower case of a text between others. -/
def lowerWithin (before : List Char) : List Char → List Char → List Char
  | [], _ => []
  | c :: cs, after => lowerAt before c (cs ++ after) ++ lowerWithin (c :: before) cs after

/-- For each capital sigma of a text between others, whether it ends a word. -/
def sigmaForms (before : List Char) : List Char → List Char → List Bool
  | [], _ => []
  | c :: cs, after =>
    if c = capitalSigma then endsWord before (cs ++ after) :: sigmaForms (c :: before) cs after
    else sigmaForms (c :: before) cs after

theorem lowerFrom_cons (before : List Char) (c : Char) (cs : List Char) :
    lowerFrom before (c :: cs) = lowerAt before c cs ++ lowerFrom (c :: before) cs := by
  simp only [lowerFrom, lowerAt, beq_iff_eq]
  rfl

theorem lowerFrom_append (before cs after : List Char) :
    lowerFrom before (cs ++ after) = lowerWithin before cs after ++ lowerFrom (cs.reverse ++ before) after := by
  induction cs generalizing before with
  | nil => rfl
  | cons c cs ih =>
    rw [List.cons_append, lowerFrom_cons, ih, lowerWithin, List.append_assoc, List.reverse_cons, List.append_assoc,
      List.singleton_append]

theorem lowerFrom_eq (before cs : List Char) : lowerFrom before cs = lowerWithin before cs [] := by
  have h := lowerFrom_append before cs []
  rwa [List.append_nil, lowerFrom, List.append_nil] at h

theorem lowerChars_ne_nil {cs : List Char} (h : cs ≠ []) : lowerChars cs ≠ [] := by
  obtain ⟨c, cs, rfl⟩ := List.exists_cons_of_ne_nil h
  have hfirst : lowerAt [] c cs ≠ [] := by
    unfold lowerAt
    split
    · exact List.cons_ne_nil _ _
    · split <;> exact List.cons_ne_nil _ _
  rw [lowerChars, lowerFrom_cons]
  exact List.append_ne_nil_of_left_ne_nil hfirst _

section Contexts

variable {cs before before' after after' : List Char}

/-- A text is lowered alike between characters that give its sigmas the same forms. -/
theorem lowerWithin_congr (h : sigmaForms before cs after = sigmaForms before' cs after') :
    lowerWithin before cs after = lowerWithin before' cs after' := by
  induction cs generalizing before before' with
  | nil => rfl
  | cons c cs ih =>
    rw [sigmaForms, sigmaForms] at h
    rw [lowerWithin, lowerWithin, lowerAt, lowerAt]
    split at h
    · rename_i hc
      obtain ⟨hform, hrest⟩ := List.cons.inj h
      rw [if_pos hc, if_pos hc, hform, ih hrest]
    · rename_i hc
      rw [if_neg hc, if_neg hc, ih h]

/-- A text that is in another where its sigmas have the forms that they have alone is so in lower case too. -/
theorem lowerChars_infix {front part back : List Char}
    (h : sigmaForms front.reverse part back = sigmaForms [] part []) :
    lowerChars part <:+: lowerChars (front ++ part ++ back) := by
  refine ⟨lowerWithin [] front (part ++ back), lowerFrom (part.reverse ++ front.reverse) back, ?_⟩
  rw [lowerChars, lowerFrom_eq, ← lowerWithin_congr h, lowerChars, List.append_assoc front, lowerFrom_append,
    lowerFrom_append, List.append_nil, List.append_assoc]

/-- How often a small form of sigma is in the lower case of a text depends on the forms of its capital ones. -/
theorem count_lowerWithin (form : Bool) (before before' cs after after' : List Char) :
    (lowerWithin before cs after).count (smallSigma form) + (sigmaForms before' cs after').count form =
      (lowerWithin before' cs after').count (smallSigma form) + (sigmaForms before cs after).count form := by
  induction cs generalizing before before' with
  | nil => rfl
  | cons c cs ih =>
    have hrest := ih (c :: before) (c :: before')
    rw [lowerWithin, lowerWithin, lowerAt, lowerAt, sigmaForms, sigmaForms, List.count_append, List.count_append]
    split
    · simp only [List.count_cons, List.count_nil, beq_iff_eq, smallSigma_inj]
      omega
    · omega

end Contexts

section Ahead

variable {cs ds before after : List Char}

/-- Either all characters are passed over, or what comes behind them does not count. -/
theorem casedAhead_passing (cs : List Char) :
    (casedAhead cs = false ∧ ∀ ds, casedAhead (cs ++ ds) = casedAhead ds) ∨
      ∀ ds, casedAhead (cs ++ ds) = casedAhead cs := by
  induction cs with
  | nil => exact .inl ⟨rfl, fun _ => rfl⟩
  | cons c cs ih =>
    simp only [List.cons_append, casedAhead]
    split
    · exact ih
    · exact .inr fun _ => rfl

theorem casedAhead_append (h : casedAhead cs = true) : casedAhead (cs ++ ds) = true := by
  rcases casedAhead_passing cs with ⟨hnone, -⟩ | hstop
  · rw [hnone] at h
    cases h
  · rw [hstop, h]

/-- What comes further behind a sigma can only go on with the word. -/
theorem endsWord_of_append (h : endsWord cs (ds ++ after) = true) : endsWord cs ds = true := by
  rw [endsWord, Bool.and_eq_true, Bool.not_eq_true'] at h ⊢
  refine ⟨h.1, Bool.eq_false_iff.mpr fun hds => ?_⟩
  rw [casedAhead_append hds] at h
  cases h.2

/-- What comes further in front of a sigma can only make it part of a word. -/
theorem endsWord_append (h : endsWord cs ds = true) : endsWord (cs ++ before) ds = true := by
  rw [endsWord, Bool.and_eq_true] at h ⊢
  exact ⟨casedAhead_append h.1, h.2⟩

end Ahead

/-- A letter, to stand in front of a text or behind it. -/
def aLetter : List Char := ['a']

theorem casedAhead_aLetter : casedAhead aLetter = true := by decide +kernel

/-- Two tests decide whether what is around can change the form of a sigma: a letter in front and one behind. -/
theorem endsWord_steady {before after : List Char} (hback : endsWord before (after ++ aLetter) = endsWord before after)
    (hfront : endsWord (before ++ aLetter) after = endsWord before after) (before' after' : List Char) :
    endsWord (before ++ before') (after ++ after') = endsWord before after := by
  unfold endsWord at *
  rcases casedAhead_passing before with ⟨hnone, hpass⟩ | hstop
  · -- nothing in front decides, so a letter must follow
    rw [hpass, casedAhead_aLetter, hnone, Bool.true_and, Bool.false_and, Bool.not_eq_false'] at hfront
    rw [casedAhead_append hfront, hnone, Bool.not_true, Bool.and_false, Bool.false_and]
  · rw [hstop]
    cases hcased : casedAhead before with
    | false => rfl
    | true =>
      rcases casedAhead_passing after with ⟨hnone, hpass⟩ | hstop'
      · rw [hpass, casedAhead_aLetter, hcased, hnone] at hback
        cases hback
      · rw [hstop']

/-- That the sigmas of a text have the same forms whatever stands around it. -/
def IsSteady (part : List Char) : Prop :=
  ∀ before after, sigmaForms before part after = sigmaForms [] part []

theorem sigmaForms_steady {before cs : List Char} (hback : sigmaForms before cs aLetter = sigmaForms before cs [])
    (hfront : sigmaForms (before ++ aLetter) cs [] = sigmaForms before cs []) (before' after : List Char) :
    sigmaForms (before ++ before') cs after = sigmaForms before cs [] := by
  induction cs generalizing before with
  | nil => rfl
  | cons c cs ih =>
    simp only [sigmaForms, List.append_nil] at hback hfront ⊢
    split at hback
    · rename_i hc
      rw [if_pos hc, if_pos hc] at hfront
      obtain ⟨hback, hbacks⟩ := List.cons.inj hback
      obtain ⟨hfront, hfronts⟩ := List.cons.inj hfront
      rw [if_pos hc, if_pos hc, endsWord_steady hback hfront]
      exact congrArg _ (ih hbacks hfronts)
    · rename_i hc
      rw [if_neg hc, if_neg hc] at hfront
      rw [if_neg hc, if_neg hc]
      exact ih hback hfront

theorem isSteady_iff {part : List Char} : IsSteady part ↔
    sigmaForms [] part aLetter = sigmaForms [] part [] ∧ sigmaForms aLetter part [] = sigmaForms [] part [] :=
  ⟨fun h => ⟨h _ _, h _ _⟩, fun ⟨hback, hfront⟩ => sigmaForms_steady hback hfront⟩

instance (part : List Char) : Decidable (IsSteady part) := decidable_of_iff' _ isSteady_iff

/-- A text without capital sigma is steady. -/
theorem isSteady_of_not_mem {part : List Char} (h : capitalSigma ∉ part) : IsSteady part := by
  have hnone : ∀ before after, sigmaForms before part after = [] := by
    induction part with
    | nil => exact fun _ _ => rfl
    | cons c part ih =>
      rw [List.mem_cons, not_or] at h
      intro before after
      rw [sigmaForms, if_neg (Ne.symm h.1), ih h.2]
  intro before after
  rw [hnone, hnone]

/-- Of two lists of forms one of which has a form wherever the other has it, it has it more often, or they are one. -/
theorem count_lt_of_forall₂ {form : Bool} {l l' : List Bool} (h : List.Forall₂ (fun x y => x = form → y = form) l l')
    (hne : l ≠ l') : l.count form < l'.count form := by
  induction h with
  | nil => exact absurd rfl hne
  | @cons x y l l' hxy _ ih =>
    simp only [List.count_cons, beq_iff_eq]
    by_cases htail : l = l'
    · subst htail
      have hheads : x ≠ y := fun hheads => hne (hheads ▸ rfl)
      have hx : x ≠ form := fun hx => hheads (hx.trans (hxy hx).symm)
      have hy : y = form := by
        rw [Bool.eq_not.mpr hheads] at hx
        exact Bool.not_not_eq.mp hx
      rw [if_neg hx, if_pos hy]
      omega
    · have hless := ih htail
      split
      · rename_i hx
        rw [if_pos (hxy hx)]
        omega
      · omega

/-- What is around a text can take a form away from its sigmas, one by one. -/
theorem forall₂_sigmaForms (form : Bool) (before' after' : List Char)
    (h : ∀ before after, endsWord (before ++ before') (after ++ after') = form → endsWord before after = form)
    (before cs : List Char) : List.Forall₂ (fun x y => x = form → y = form) (sigmaForms (before ++ before') cs after')
      (sigmaForms before cs []) := by
  induction cs generalizing before with
  | nil => exact .nil
  | cons c cs ih =>
    rw [sigmaForms, sigmaForms]
    split
    · rw [List.append_nil]
      exact .cons (h before cs) (ih (c :: before))
    · exact ih (c :: before)

/-- If sigmas lose a form to what is around them, and none with that form is around, then the lower case of the text
alone has more of them than that of all together. -/
theorem sigmaForms_eq_of_infix {form : Bool} (front part back : List Char)
    (hforms : List.Forall₂ (fun x y => x = form → y = form) (sigmaForms front.reverse part back)
      (sigmaForms [] part []))
    (hfront : smallSigma form ∉ lowerWithin [] front (part ++ back))
    (hback : smallSigma form ∉ lowerFrom (part.reverse ++ front.reverse) back)
    (h : lowerChars part <:+: lowerChars (front ++ part ++ back)) :
    sigmaForms front.reverse part back = sigmaForms [] part [] := by
  by_contra hne
  have hless := count_lt_of_forall₂ hforms hne
  have hcounts := count_lowerWithin form front.reverse [] part back []
  have hle := h.sublist.count_le (smallSigma form)
  rw [lowerChars, lowerFrom_eq, lowerChars, List.append_assoc, lowerFrom_append, lowerFrom_append, List.append_nil,
    List.count_append, List.count_append, List.count_eq_zero_of_not_mem hfront,
    List.count_eq_zero_of_not_mem hback] at hle
  omega

/-- The texts whose lower case is in the lower case of every text that they are in. -/
theorem lowerChars_infix_iff {part : List Char} :
    (∀ text, part <:+: text → lowerChars part <:+: lowerChars text) ↔ IsSteady part := by
  constructor
  · intro h
    have hletter (form : Bool) : smallSigma form ∉ aLetter := by cases form <;> decide
    have hbehind (before after : List Char) (hends : endsWord (before ++ []) (after ++ aLetter) = true) :
        endsWord before after = true := by
      rw [List.append_nil] at hends
      exact endsWord_of_append hends
    have hahead (before after : List Char) (hends : endsWord (before ++ aLetter) (after ++ []) = false) :
        endsWord before after = false := by
      rw [List.append_nil] at hends
      exact Bool.eq_false_iff.mpr fun halone => Bool.eq_false_iff.mp hends (endsWord_append halone)
    refine isSteady_iff.mpr ⟨?_, ?_⟩
    · -- a letter behind the text takes the form at the end of a word away
      have hforms := forall₂_sigmaForms true [] aLetter hbehind [] part
      exact sigmaForms_eq_of_infix [] part aLetter hforms List.not_mem_nil (hletter true) (h _ ⟨[], aLetter, rfl⟩)
    · -- a letter in front of the text takes the other form away
      have hforms := forall₂_sigmaForms false aLetter [] hahead [] part
      exact sigmaForms_eq_of_infix aLetter part [] hforms (hletter false) List.not_mem_nil (h _ ⟨aLetter, [], rfl⟩)
  · rintro h text ⟨front, back, rfl⟩
    exact lowerChars_infix (h front.reverse back)

end Unicode

end Marginalia

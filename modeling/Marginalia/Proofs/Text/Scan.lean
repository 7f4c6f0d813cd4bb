import Mathlib.Data.List.DropRight
import Marginalia.Text.Scan

/-!
What is found when a pattern is looked for in a text, and texts without white space around them.
-/

namespace Marginalia

theorem firstMatch?_here {β : Type} {f : List Char → Option β} {cs : List Char} {v : β} (h : f cs = some v) :
    firstMatch? f cs = some v := by
  cases cs with
  | nil => exact h
  | cons c cs => simp only [firstMatch?, h]

/-- A beginning in which nothing matches is passed over. -/
theorem firstMatch?_skip {β : Type} {f : List Char → Option β} {front rest : List Char}
    (h : ∀ c cs, c :: cs <:+ front → f (c :: cs ++ rest) = none) :
    firstMatch? f (front ++ rest) = firstMatch? f rest := by
  induction front with
  | nil => rfl
  | cons c front ih =>
    have hhere : f (c :: (front ++ rest)) = none := h c front (List.suffix_refl _)
    rw [List.cons_append, firstMatch?, hhere]
    exact ih fun d ds hds => h d ds (hds.trans (List.suffix_cons c front))

/-- What is found stands somewhere in the text. -/
theorem firstMatch?_eq_some {β : Type} {f : List Char → Option β} {cs : List Char} {v : β}
    (h : firstMatch? f cs = some v) : ∃ ds, ds <:+ cs ∧ f ds = some v := by
  induction cs with
  | nil => exact ⟨[], List.suffix_refl _, h⟩
  | cons c cs ih =>
    cases hhere : f (c :: cs) with
    | some w =>
      rw [firstMatch?_here hhere] at h
      exact ⟨c :: cs, List.suffix_refl _, hhere.trans h⟩
    | none =>
      simp only [firstMatch?, hhere] at h
      obtain ⟨ds, hds, hf⟩ := ih h
      exact ⟨ds, hds.trans (List.suffix_cons c cs), hf⟩

theorem isSome_firstMatch? {β : Type} {f : List Char → Option β} {cs : List Char} :
    (firstMatch? f cs).isSome = true ↔ ∃ ds, ds <:+ cs ∧ (f ds).isSome = true := by
  constructor
  · intro h
    obtain ⟨v, hv⟩ := Option.isSome_iff_exists.mp h
    obtain ⟨ds, hds, hf⟩ := firstMatch?_eq_some hv
    exact ⟨ds, hds, by rw [hf]; rfl⟩
  · rintro ⟨ds, ⟨front, rfl⟩, hf⟩
    obtain ⟨v, hv⟩ := Option.isSome_iff_exists.mp hf
    induction front with
    | nil => rw [List.nil_append, firstMatch?_here hv]; rfl
    | cons c front ih =>
      cases hhere : f (c :: front ++ ds) with
      | some w => rw [firstMatch?_here hhere]; rfl
      | none =>
        rw [List.cons_append] at hhere ⊢
        simp only [firstMatch?, hhere]
        exact ih

theorem someRow?_eq_some {p : Char → Bool} {cs row rest : List Char} (h : someRow? p cs = some (row, rest)) :
    (∀ c ∈ row, p c = true) ∧ row <+: cs := by
  simp only [someRow?] at h
  split at h
  · cases h
  · obtain ⟨rfl, -⟩ := Prod.mk.inj (Option.some.inj h)
    exact ⟨fun c hc => List.mem_takeWhile_imp hc, List.takeWhile_prefix p⟩

theorem someRow?_append {p : Char → Bool} {row rest : List Char} (hne : row ≠ []) (hrow : ∀ c ∈ row, p c = true)
    (hrest : ∀ c ∈ rest.head?, p c = false) : someRow? p (row ++ rest) = some (row, rest) := by
  have hstop : rest.takeWhile p = [] ∧ rest.dropWhile p = rest := by
    cases rest with
    | nil => exact ⟨rfl, rfl⟩
    | cons c rest =>
      have hc := hrest c rfl
      simp [hc]
  have htake : (row ++ rest).takeWhile p = row := by
    rw [List.takeWhile_append_of_pos hrow, hstop.1, List.append_nil]
  have hdrop : (row ++ rest).dropWhile p = rest := by
    rw [List.dropWhile_append_of_pos hrow, hstop.2]
  have hsome : row.isEmpty = false := by simpa using hne
  simp only [someRow?, htake, hdrop, hsome, Bool.false_eq_true, if_false]

/-- A row goes no further than to a character that is not of the class. -/
theorem takeWhile_append_cons {p : Char → Bool} {c : Char} (hc : p c = false) (cs ds : List Char) :
    (cs ++ c :: ds).takeWhile p = cs.takeWhile p := by
  induction cs with
  | nil => rw [List.nil_append, List.takeWhile_cons, hc, List.takeWhile_nil, if_neg Bool.false_ne_true]
  | cons d cs ih => rw [List.cons_append, List.takeWhile_cons, List.takeWhile_cons, ih]

theorem someBlank?_space {rest : List Char} (h : ∀ c ∈ rest.head?, Unicode.isWhite c = false) :
    someBlank? (' ' :: rest) = some rest := by
  have hspace : Unicode.isWhite ' ' = true := rfl
  have hdrop : (' ' :: rest).dropWhile Unicode.isWhite = rest := by
    rw [List.dropWhile_cons_of_pos hspace]
    cases rest with
    | nil => rfl
    | cons c rest => exact List.dropWhile_cons_of_neg (by simpa using h c rfl)
  simp only [someBlank?, hdrop, List.length_cons, Nat.lt_succ_self, if_true]

theorem expectChars?_append (word rest : List Char) : expectChars? word (word ++ rest) = some rest := by
  simp [expectChars?]

theorem expectChars?_eq_some {word cs rest : List Char} :
    expectChars? word cs = some rest ↔ cs = word ++ rest := by
  constructor
  · intro h
    unfold expectChars? at h
    split at h
    · rename_i hword
      obtain ⟨front, rfl⟩ := List.isPrefixOf_iff_prefix.mp hword
      rw [List.drop_left] at h
      rw [Option.some.inj h]
    · cases h
  · rintro rfl
    exact expectChars?_append word rest

namespace Unicode

theorem trimChars_infix (cs : List Char) : trimChars cs <:+: cs :=
  (List.rdropWhile_prefix isWhite _).isInfix.trans (List.dropWhile_suffix _).isInfix

/-- Only white space is trimmed. -/
theorem isWhite_or_mem_trimChars {c : Char} {cs : List Char} (h : c ∈ cs) : isWhite c = true ∨ c ∈ trimChars cs := by
  rw [← List.takeWhile_append_dropWhile (p := isWhite) (l := cs)] at h
  rcases List.mem_append.mp h with hfront | hrest
  · exact .inl (List.mem_takeWhile_imp hfront)
  · rw [← List.rdropWhile_append_rtakeWhile (p := isWhite) (l := cs.dropWhile isWhite)] at hrest
    rcases List.mem_append.mp hrest with hkept | hback
    · exact .inr hkept
    · exact .inl (List.mem_rtakeWhile_imp hback)

theorem trimChars_trimChars (cs : List Char) : trimChars (trimChars cs) = trimChars cs := by
  have hfront : (trimChars cs).dropWhile isWhite = trimChars cs := by
    obtain ⟨rest, hrest⟩ := List.rdropWhile_prefix isWhite (cs.dropWhile isWhite)
    have hnone := List.head?_dropWhile_not isWhite cs
    cases ht : trimChars cs with
    | nil => rfl
    | cons c ds =>
      have hc : (cs.dropWhile isWhite).head? = some c := by
        rw [← hrest]
        exact congrArg List.head? (congrArg (· ++ rest) ht)
      rw [hc] at hnone
      simp only [List.dropWhile_cons, hnone, Bool.false_eq_true, if_false]
  have hback : (trimChars cs).rdropWhile isWhite = trimChars cs := List.rdropWhile_idempotent _ _
  calc trimChars (trimChars cs) = ((trimChars cs).dropWhile isWhite).rdropWhile isWhite := rfl
    _ = trimChars cs := by rw [hfront, hback]

end Unicode

end Marginalia

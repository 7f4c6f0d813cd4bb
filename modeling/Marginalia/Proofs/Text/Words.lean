import Mathlib.Data.List.Basic
import Marginalia.Text.Blank

/-!
The words of a text. Joined they are the text without its white space, and words with single spaces between them
are read as these words.
-/

namespace Marginalia

namespace Unicode

/-- A row of characters that is one word. -/
structure IsSolid (w : List Char) : Prop where
  ne_nil : w ≠ []
  letters : ∀ c ∈ w, isWhite c = false

/-- A text without its white space. -/
def letters (cs : List Char) : List Char := cs.filter fun c => !isWhite c

@[simp]
theorem letters_append (cs ds : List Char) : letters (cs ++ ds) = letters cs ++ letters ds :=
  List.filter_append ..

theorem letters_cons_white {c : Char} (hc : isWhite c = true) (cs : List Char) : letters (c :: cs) = letters cs := by
  simp [letters, hc]

theorem letters_eq_nil {cs : List Char} : letters cs = [] ↔ ∀ c ∈ cs, isWhite c = true := by
  simp [letters]

theorem mem_letters {c : Char} {cs : List Char} : c ∈ letters cs ↔ c ∈ cs ∧ isWhite c = false := by
  simp [letters]

/-- White space ends a word. -/
theorem wordsFrom_append_white {c : Char} (hc : isWhite c = true) (word cs ds : List Char) :
    wordsFrom word (cs ++ c :: ds) = wordsFrom word cs ++ words ds := by
  induction cs generalizing word with
  | nil => cases word <;> simp [wordsFrom, hc, words]
  | cons d cs ih =>
    simp only [List.cons_append, wordsFrom]
    split
    · split
      · exact ih []
      · rw [ih [], List.cons_append]
    · exact ih (d :: word)

theorem words_append_white {c : Char} (hc : isWhite c = true) (cs ds : List Char) :
    words (cs ++ c :: ds) = words cs ++ words ds :=
  wordsFrom_append_white hc [] cs ds

/-- A row of characters without white space goes on with the word under way. -/
theorem wordsFrom_letters {w : List Char} (hw : ∀ c ∈ w, isWhite c = false) (word : List Char)
    (hne : word ≠ [] ∨ w ≠ []) : wordsFrom word w = [word.reverse ++ w] := by
  induction w generalizing word with
  | nil =>
    have hword : word ≠ [] := hne.resolve_right (by simp)
    simp [wordsFrom, hword]
  | cons c w ih =>
    have hc : isWhite c = false := hw c (by simp)
    simp only [wordsFrom, hc, Bool.false_eq_true, if_false]
    rw [ih (fun d hd => hw d (by simp [hd])) (c :: word) (.inl (by simp))]
    simp

theorem IsSolid.words_eq {w : List Char} (h : IsSolid w) : words w = [w] :=
  wordsFrom_letters h.letters [] (.inr h.ne_nil)

theorem isSolid_of_mem_wordsFrom {word cs w : List Char} (hword : ∀ c ∈ word, isWhite c = false)
    (h : w ∈ wordsFrom word cs) : IsSolid w := by
  have hfront : ∀ {front : List Char}, (∀ c ∈ front, isWhite c = false) → front ≠ [] → IsSolid front.reverse :=
    fun hf hne => ⟨by simpa using hne, fun c hc => hf c (List.mem_reverse.mp hc)⟩
  induction cs generalizing word with
  | nil =>
    simp only [wordsFrom] at h
    split at h
    · cases h
    · rename_i hne
      rw [List.mem_singleton.mp h]
      exact hfront hword (by simpa using hne)
  | cons c cs ih =>
    have hnone : ∀ d ∈ ([] : List Char), isWhite d = false := by simp
    simp only [wordsFrom] at h
    split at h
    · split at h
      · exact ih hnone h
      · rename_i hne
        rcases List.mem_cons.mp h with rfl | h
        · exact hfront hword (by simpa using hne)
        · exact ih hnone h
    · rename_i hc
      refine ih (fun d hd => ?_) h
      rcases List.mem_cons.mp hd with rfl | hd
      · simpa using hc
      · exact hword d hd

theorem isSolid_of_mem_words {cs w : List Char} (h : w ∈ words cs) : IsSolid w :=
  isSolid_of_mem_wordsFrom (by simp) h

theorem flatten_wordsFrom {word : List Char} (cs : List Char) :
    (wordsFrom word cs).flatten = word.reverse ++ letters cs := by
  induction cs generalizing word with
  | nil => cases word <;> simp [wordsFrom, letters]
  | cons c cs ih =>
    simp only [wordsFrom]
    cases hc : isWhite c with
    | true => cases word <;> simp [letters_cons_white hc, ih]
    | false => simp [ih, letters, hc]

/-- Nothing but white space is lost between the words of a text. -/
theorem flatten_words (cs : List Char) : (words cs).flatten = letters cs :=
  flatten_wordsFrom cs

theorem words_eq_nil {cs : List Char} : words cs = [] ↔ ∀ c ∈ cs, isWhite c = true := by
  rw [← letters_eq_nil, ← flatten_words]
  constructor
  · intro h
    rw [h, List.flatten_nil]
  · intro h
    cases hws : words cs with
    | nil => rfl
    | cons w ws =>
      have hmem : w ∈ words cs := by simp [hws]
      have hw := isSolid_of_mem_words hmem
      rw [hws, List.flatten_cons, List.append_eq_nil_iff] at h
      exact absurd h.1 hw.ne_nil

/-- Words with single spaces between them. -/
def unwords (ws : List (List Char)) : List Char := [' '].intercalate ws

@[simp]
theorem unwords_nil : unwords [] = [] := rfl

@[simp]
theorem unwords_singleton (w : List Char) : unwords [w] = w := List.intercalate_singleton

theorem unwords_cons {w : List Char} {ws : List (List Char)} (hws : ws ≠ []) :
    unwords (w :: ws) = w ++ ' ' :: unwords ws := by
  obtain ⟨v, vs, rfl⟩ := List.exists_cons_of_ne_nil hws
  simp [unwords, List.intercalate_cons_cons]

theorem unwords_append_singleton {ws : List (List Char)} (hws : ws ≠ []) (w : List Char) :
    unwords (ws ++ [w]) = unwords ws ++ ' ' :: w := by
  induction ws with
  | nil => exact absurd rfl hws
  | cons v ws ih =>
    by_cases hrest : ws = []
    · subst hrest
      rw [List.cons_append, List.nil_append, unwords_cons (by simp), unwords_singleton, unwords_singleton]
    · rw [List.cons_append, unwords_cons (by simp), ih hrest, unwords_cons hrest, List.append_assoc,
        List.cons_append]

theorem unwords_ne_nil {ws : List (List Char)} (hne : ws ≠ []) (hws : ∀ w ∈ ws, IsSolid w) : unwords ws ≠ [] := by
  obtain ⟨w, ws, rfl⟩ := List.exists_cons_of_ne_nil hne
  have hw : w ≠ [] := (hws w (by simp)).ne_nil
  by_cases hrest : ws = []
  · rwa [hrest, unwords_singleton]
  · rw [unwords_cons hrest]
    simp

/-- Words are read from a text that has them with single spaces between them. -/
theorem words_unwords {ws : List (List Char)} (hws : ∀ w ∈ ws, IsSolid w) : words (unwords ws) = ws := by
  induction ws with
  | nil => rfl
  | cons w ws ih =>
    have hw : IsSolid w := hws w (by simp)
    have hothers := ih fun v hv => hws v (by simp [hv])
    by_cases hrest : ws = []
    · rw [hrest, unwords_singleton, hw.words_eq]
    · rw [unwords_cons hrest, words_append_white rfl, hw.words_eq, hothers, List.singleton_append]

theorem letters_unwords {ws : List (List Char)} (hws : ∀ w ∈ ws, IsSolid w) : letters (unwords ws) = ws.flatten := by
  rw [← flatten_words, words_unwords hws]

/-- That the white space of a text is single spaces between other characters. -/
def IsSpaced (cs : List Char) : Prop :=
  ∀ front c back, cs = front ++ c :: back → isWhite c = true →
    c = ' ' ∧ (∃ a, front.getLast? = some a ∧ isWhite a = false) ∧ ∃ b, back.head? = some b ∧ isWhite b = false

theorem IsSolid.getLast? {w : List Char} (h : IsSolid w) : ∃ a, w.getLast? = some a ∧ isWhite a = false :=
  ⟨w.getLast h.ne_nil, List.getLast?_eq_some_getLast h.ne_nil, h.letters _ (List.getLast_mem h.ne_nil)⟩

theorem head?_unwords {ws : List (List Char)} (hne : ws ≠ []) (hws : ∀ w ∈ ws, IsSolid w) :
    ∃ b, (unwords ws).head? = some b ∧ isWhite b = false := by
  obtain ⟨w, ws, rfl⟩ := List.exists_cons_of_ne_nil hne
  have hw : IsSolid w := hws w (by simp)
  obtain ⟨c, cs, rfl⟩ := List.exists_cons_of_ne_nil hw.ne_nil
  refine ⟨c, ?_, hw.letters c (by simp)⟩
  by_cases hrest : ws = []
  · rw [hrest, unwords_singleton, List.head?_cons]
  · rw [unwords_cons hrest, List.cons_append, List.head?_cons]

theorem isSpaced_unwords {ws : List (List Char)} (hws : ∀ w ∈ ws, IsSolid w) : IsSpaced (unwords ws) := by
  induction ws with
  | nil =>
    intro front c back h
    simp at h
  | cons w ws ih =>
    have hw : IsSolid w := hws w (by simp)
    have hrest : ∀ v ∈ ws, IsSolid v := fun v hv => hws v (by simp [hv])
    intro front c back h hc
    have hout : c ∉ w := fun hmem => by
      rw [hw.letters c hmem] at hc
      cases hc
    by_cases hne : ws = []
    · rw [hne, unwords_singleton] at h
      exact absurd (h ▸ by simp) hout
    · rw [unwords_cons hne] at h
      -- The white space is the one behind the first word, or it stands behind that.
      rcases List.append_eq_append_iff.mp h with ⟨mid, rfl, hmid⟩ | ⟨mid, rfl, hmid⟩
      · cases mid with
        | nil =>
          obtain ⟨rfl, rfl⟩ := List.cons.inj hmid
          rw [List.append_nil]
          exact ⟨rfl, hw.getLast?, head?_unwords hne hrest⟩
        | cons a mid =>
          obtain ⟨rfl, htail⟩ := List.cons.inj hmid
          obtain ⟨hspace, ⟨a, hlast, ha⟩, hhead⟩ := ih hrest mid c back htail hc
          refine ⟨hspace, ⟨a, ?_, ha⟩, hhead⟩
          rw [List.getLast?_append, List.getLast?_cons, hlast]
          rfl
      · cases mid with
        | nil =>
          obtain ⟨rfl, rfl⟩ := List.cons.inj hmid
          rw [List.append_nil] at hw
          exact ⟨rfl, hw.getLast?, head?_unwords hne hrest⟩
        | cons a mid =>
          obtain ⟨rfl, -⟩ := List.cons.inj hmid
          exact absurd (by simp) hout

end Unicode

end Marginalia

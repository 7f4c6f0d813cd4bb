import Mathlib.Data.List.Chain
import Mathlib.Data.List.Forall2
import Marginalia.Proofs.Text.Words
import Marginalia.Text.Wrapping

/-!
Lines that a text is broken into. They are bounded, nothing but white space is lost between them, only words longer
than a line are cut, and no line ends while the next word still has room on it. What the wrap is seen to do is lay
words out in rows; the lines are the rows with single spaces between their words.
-/

namespace Marginalia

namespace Wrapping

open Unicode

theorem paragraphs_eq (text : List Char) : paragraphs text = text.splitOn '\n' := by
  rw [List.splitOn_eq_splitOnP]
  induction text with
  | nil => rfl
  | cons c cs ih =>
    obtain ⟨p, ps, hsplit⟩ := List.exists_cons_of_ne_nil (List.splitOnP_ne_nil (· == '\n') cs)
    rw [paragraphs, List.splitOnP_cons_eq_if_modifyHead, ih, hsplit]
    rfl

section Pieces

variable {width : Nat}

theorem piecesFrom_spec (hwidth : 0 < width) {piece : List Char} (hne : piece ≠ []) (hlen : piece.length ≤ width)
    (cs : List Char) : ∃ full last, piecesFrom width piece cs = full ++ [last] ∧ (∀ p ∈ full, p.length = width) ∧
      last ≠ [] ∧ last.length ≤ width ∧ full.flatten ++ last = piece.reverse ++ cs := by
  induction cs generalizing piece with
  | nil => exact ⟨[], piece.reverse, rfl, by simp, by simpa using hne, by simpa using hlen, by simp⟩
  | cons c cs ih =>
    rw [piecesFrom]
    split
    · rename_i hroom
      obtain ⟨full, last, hp, hfull, hlast, hlastLen, hjoin⟩ := ih (List.cons_ne_nil c piece) hroom
      exact ⟨full, last, hp, hfull, hlast, hlastLen, by rw [hjoin]; simp⟩
    · rename_i hroom
      obtain ⟨full, last, hp, hfull, hlast, hlastLen, hjoin⟩ := ih (List.cons_ne_nil c []) hwidth
      refine ⟨piece.reverse :: full, last, by rw [hp, List.cons_append], ?_, hlast, hlastLen, ?_⟩
      · intro p hmem
        rcases List.mem_cons.mp hmem with rfl | hmem
        · rw [List.length_reverse]
          omega
        · exact hfull p hmem
      · rw [List.flatten_cons, List.append_assoc, hjoin]
        rfl

/-- A word is cut into pieces as long as a line, and a last one. -/
theorem pieces_spec (hwidth : 0 < width) {word : List Char} (hne : word ≠ []) :
    ∃ full last, pieces width word = full ++ [last] ∧ (∀ p ∈ full, p.length = width) ∧ last ≠ [] ∧
      last.length ≤ width ∧ full.flatten ++ last = word := by
  obtain ⟨c, cs, rfl⟩ := List.exists_cons_of_ne_nil hne
  have hstart : pieces width (c :: cs) = piecesFrom width [c] cs := by
    rw [pieces, piecesFrom, if_pos (by simpa using hwidth)]
  rw [hstart]
  exact piecesFrom_spec hwidth (List.cons_ne_nil c []) hwidth cs

/-- That a word is written as some pieces: as one, unless it is longer than a line. -/
def IsCut (width : Nat) (word : List Char) (ps : List (List Char)) : Prop :=
  ps.flatten = word ∧ (width < word.length ∨ ps = [word])

theorem isCut_pieces (hwidth : 0 < width) {word : List Char} (hne : word ≠ []) :
    IsCut width word (pieces width word) := by
  obtain ⟨full, last, hp, hfull, hlast, -, rfl⟩ := pieces_spec hwidth hne
  rw [hp]
  refine ⟨by simp, ?_⟩
  cases full with
  | nil => exact .inr rfl
  | cons p full =>
    left
    have hpiece := hfull p (by simp)
    have hrest := List.length_pos_iff.mpr hlast
    simp only [List.flatten_cons, List.length_append]
    omega

theorem isSolid_of_mem_pieces (hwidth : 0 < width) {word : List Char} (hw : IsSolid word) :
    ∀ p ∈ pieces width word, IsSolid p := by
  obtain ⟨full, last, hp, hfull, hlast, -, hjoin⟩ := pieces_spec hwidth hw.ne_nil
  intro p hmem
  rw [hp] at hmem
  refine ⟨?_, fun c hc => hw.letters c ?_⟩
  · rcases List.mem_append.mp hmem with hmem | hmem
    · exact List.ne_nil_of_length_pos (hfull p hmem ▸ hwidth)
    · rwa [List.mem_singleton.mp hmem]
  · rw [← hjoin, ← List.flatten_concat]
    exact List.mem_flatten.mpr ⟨p, by simpa using hmem, hc⟩

end Pieces

/-- Rows of words that fit on lines, none of which has room for the first word of the next. -/
structure Filled (width : Nat) (rows : List (List (List Char))) : Prop where
  ne_nil : ∀ row ∈ rows, row ≠ []
  words : ∀ row ∈ rows, ∀ w ∈ row, IsSolid w
  bounded : ∀ row ∈ rows, (unwords row).length ≤ width
  greedy : rows.IsChain fun row next => width < (unwords row).length + 1 + (next.headD []).length

namespace Filled

variable {width : Nat} {rows : List (List (List Char))} {word : List Char}

theorem nil : Filled width [] := ⟨by simp, by simp, by simp, .nil⟩

/-- A word that has no room on the last row starts another. -/
theorem push (h : Filled width rows) (hw : IsSolid word) (hlen : word.length ≤ width)
    (hfull : ∀ row ∈ rows.getLast?, width < (unwords row).length + 1 + word.length) :
    Filled width (rows ++ [[word]]) where
  ne_nil := by
    simpa [or_imp, forall_and] using h.ne_nil
  words := by
    intro row hrow w hmem
    rcases List.mem_append.mp hrow with hrow | hrow
    · exact h.words row hrow w hmem
    · rw [List.mem_singleton.mp hrow] at hmem
      rwa [List.mem_singleton.mp hmem]
  bounded := by
    intro row hrow
    rcases List.mem_append.mp hrow with hrow | hrow
    · exact h.bounded row hrow
    · rwa [List.mem_singleton.mp hrow, unwords_singleton]
  greedy := h.greedy.append (.singleton _) fun row hrow next hnext => by
    cases hnext
    exact hfull row hrow

/-- Words as long as a line are rows of their own. -/
theorem pushAll (h : Filled width rows) {full : List (List Char)} (hfull : ∀ p ∈ full, IsSolid p ∧ p.length = width) :
    Filled width (rows ++ full.map fun p => [p]) := by
  induction full generalizing rows with
  | nil => simpa using h
  | cons p full ih =>
    obtain ⟨hw, hlen⟩ := hfull p (by simp)
    have hpushed : Filled width (rows ++ [[p]]) := h.push hw (Nat.le_of_eq hlen) fun row _ => by omega
    have hall := ih hpushed fun q hq => hfull q (by simp [hq])
    rwa [List.append_assoc] at hall

/-- A word that has room on the last row goes there. -/
theorem extend {row : List (List Char)} (h : Filled width (rows ++ [row])) (hw : IsSolid word)
    (hroom : (unwords row).length + 1 + word.length ≤ width) : Filled width (rows ++ [row ++ [word]]) where
  ne_nil := by
    intro r hr
    rcases List.mem_append.mp hr with hr | hr
    · exact h.ne_nil r (by simp [hr])
    · rw [List.mem_singleton.mp hr]
      simp
  words := by
    intro r hr w hmem
    rcases List.mem_append.mp hr with hr | hr
    · exact h.words r (by simp [hr]) w hmem
    · rw [List.mem_singleton.mp hr] at hmem
      rcases List.mem_append.mp hmem with hmem | hmem
      · exact h.words row (by simp) w hmem
      · rwa [List.mem_singleton.mp hmem]
  bounded := by
    intro r hr
    rcases List.mem_append.mp hr with hr | hr
    · exact h.bounded r (by simp [hr])
    · rw [List.mem_singleton.mp hr, unwords_append_singleton (h.ne_nil row (by simp))]
      simp only [List.length_append, List.length_cons]
      omega
  greedy := by
    obtain ⟨v, vs, rfl⟩ := List.exists_cons_of_ne_nil (h.ne_nil row (by simp))
    obtain ⟨hrows, -, hlast⟩ := List.isChain_append.mp h.greedy
    refine hrows.append (.singleton _) fun r hr next hnext => ?_
    cases hnext
    exact hlast r hr (v :: vs) rfl

end Filled

/-- That lines are under way with some rows of words on them. -/
structure Laid (width : Nat) (rows : List (List (List Char))) (ls : Lines) : Prop where
  filled : Filled width rows
  done : ls.done = rows.dropLast.map unwords
  line : ls.line = unwords (rows.getLastD [])

namespace Laid

variable {width : Nat} {rows : List (List (List Char))} {ls : Lines} {word : List Char}

theorem nil : Laid width [] ⟨[], []⟩ := ⟨.nil, rfl, rfl⟩

/-- The rows but for the last one, and that one. -/
theorem split (h : Laid width rows ls) (hne : rows ≠ []) :
    ∃ before row, rows = before ++ [row] ∧ ls.done = before.map unwords ∧ ls.line = unwords row := by
  have hrows := List.dropLast_append_getLast hne
  refine ⟨rows.dropLast, rows.getLast hne, hrows.symm, h.done, ?_⟩
  rw [h.line, List.getLastD_eq_getLast?, List.getLast?_eq_some_getLast hne, Option.getD_some]

/-- The line under way is empty only before the first word. -/
theorem line_eq_nil (h : Laid width rows ls) : ls.line = [] ↔ rows = [] := by
  constructor
  · intro hline
    by_contra hne
    obtain ⟨before, row, rfl, -, hrow⟩ := h.split hne
    rw [hrow] at hline
    exact unwords_ne_nil (h.filled.ne_nil row (by simp)) (h.filled.words row (by simp)) hline
  · rintro rfl
    exact h.line

theorem finished (h : Laid width rows ls) : ls.finished = rows.map unwords := by
  by_cases hne : rows = []
  · rw [Lines.finished, h.line_eq_nil.mpr hne, h.done, hne]
    rfl
  · obtain ⟨before, row, rfl, hdone, hline⟩ := h.split hne
    have hsome : ¬ ls.line.isEmpty = true := by
      simpa using fun he => hne (h.line_eq_nil.mp he)
    rw [Lines.finished, if_neg hsome, hdone, hline, List.map_append, List.map_cons, List.map_nil]

/-- Behind finished lines a word starts a line of its own. -/
theorem start (h : Filled width (rows ++ [[word]])) : Laid width (rows ++ [[word]]) ⟨rows.map unwords, word⟩ := by
  refine ⟨h, by rw [List.dropLast_concat], ?_⟩
  rw [List.getLastD_concat, unwords_singleton]

/-- A word of one piece has room on the last row or starts another. -/
theorem add_short (h : Laid width rows ls) (hw : IsSolid word) (hlen : word.length ≤ width)
    (hp : pieces width word = [word]) :
    ∃ rows', Laid width rows' (ls.add width word) ∧ rows'.flatten = rows.flatten ++ [word] := by
  unfold Lines.add
  simp only [hp]
  split
  · rename_i hline
    have hrows : rows = [] := h.line_eq_nil.mp (by simpa using hline)
    subst hrows
    refine ⟨[[word]], ?_, rfl⟩
    rw [h.done]
    exact start (Filled.nil.push hw hlen (by simp))
  · rename_i hline
    have hne : rows ≠ [] := fun he => hline (by simpa using h.line_eq_nil.mpr he)
    obtain ⟨before, row, rfl, hdone, hrow⟩ := h.split hne
    split
    · rename_i hroom
      refine ⟨before ++ [row ++ [word]], ⟨h.filled.extend hw (hrow ▸ hroom), ?_, ?_⟩, by simp⟩
      · rw [List.dropLast_concat]
        exact hdone
      · rw [List.getLastD_concat, unwords_append_singleton (h.filled.ne_nil row (by simp)), ← hrow]
    · rename_i hroom
      rw [h.finished]
      refine ⟨before ++ [row] ++ [[word]], start (h.filled.push hw hlen fun r hr => ?_), by simp⟩
      rw [List.getLast?_concat] at hr
      cases hr
      rw [← hrow]
      omega

/-- A word of several pieces starts a line, and so does each of its pieces. -/
theorem add_long (h : Laid width rows ls) {full : List (List Char)} {last : List Char}
    (hp : pieces width word = full ++ [last]) (hne : full ≠ []) (hfull : ∀ p ∈ full, IsSolid p ∧ p.length = width)
    (hlast : IsSolid last) (hlen : last.length ≤ width) :
    ∃ rows', Laid width rows' (ls.add width word) ∧ rows'.flatten = rows.flatten ++ (full ++ [last]) := by
  have hadd : ls.add width word = ⟨ls.finished ++ full, last⟩ := by
    obtain ⟨p, ps, rfl⟩ := List.exists_cons_of_ne_nil hne
    have hmany : ps ++ [last] ≠ [] := by simp
    unfold Lines.add
    rw [hp, List.cons_append]
    split
    · rename_i heq
      exact absurd (List.cons.inj heq).2 hmany
    · rw [← List.cons_append, List.dropLast_concat, List.getLastD_concat]
  have hpushed := h.filled.pushAll hfull
  have hjoin : (full.map fun p => [p]).flatten = full := by
    simp [← List.flatMap_def]
  have htexts : (full.map fun p => [p]).map unwords = full := by
    rw [List.map_map]
    exact (List.map_congr_left fun p _ => unwords_singleton p).trans (List.map_id _)
  refine ⟨rows ++ full.map (fun p => [p]) ++ [[last]], ?_, ?_⟩
  · have hstart := start (hpushed.push hlast hlen fun r hr => ?_)
    · rw [List.map_append, htexts] at hstart
      rwa [hadd, h.finished]
    · -- The row in front is a piece that takes up a whole line.
      have hback : (full.map fun p => [p]) ≠ [] := by simpa using hne
      rw [List.getLast?_append_of_ne_nil _ hback, List.getLast?_map] at hr
      obtain ⟨p, hmem, rfl⟩ := Option.map_eq_some_iff.mp hr
      have := (hfull p (List.mem_of_getLast? hmem)).2
      rw [unwords_singleton]
      omega
  · rw [List.flatten_append, List.flatten_append, hjoin]
    simp

/-- A word is added behind the words before it, in its pieces. -/
theorem add (h : Laid width rows ls) (hwidth : 0 < width) (hw : IsSolid word) :
    ∃ rows', Laid width rows' (ls.add width word) ∧ rows'.flatten = rows.flatten ++ pieces width word := by
  obtain ⟨full, last, hp, hfull, -, hlen, hjoin⟩ := pieces_spec hwidth hw.ne_nil
  have hwords := isSolid_of_mem_pieces hwidth hw
  rw [hp] at hwords ⊢
  by_cases hne : full = []
  · subst hne
    obtain rfl : last = word := hjoin
    exact h.add_short hw hlen hp
  · exact h.add_long hp hne (fun p hmem => ⟨hwords p (by simp [hmem]), hfull p hmem⟩) (hwords last (by simp)) hlen

/-- Words are added one behind the other. -/
theorem foldl (hwidth : 0 < width) {ws : List (List Char)} (h : Laid width rows ls) (hws : ∀ w ∈ ws, IsSolid w) :
    ∃ rows', Laid width rows' (ws.foldl (Lines.add width) ls) ∧
      rows'.flatten = rows.flatten ++ ws.flatMap (pieces width) := by
  induction ws generalizing rows ls with
  | nil => exact ⟨rows, h, by simp⟩
  | cons w ws ih =>
    obtain ⟨rows₁, hlaid, hrows₁⟩ := h.add hwidth (hws w (by simp))
    obtain ⟨rows₂, hlaid₂, hrows₂⟩ := ih hlaid fun v hv => hws v (by simp [hv])
    exact ⟨rows₂, hlaid₂, by rw [hrows₂, hrows₁, List.flatMap_cons, List.append_assoc]⟩

end Laid

variable {width : Nat}

/-- A paragraph without words is one empty line; the lines of any other are rows that have its words on them. -/
theorem paragraph_rows (hwidth : 0 < width) (cs : List Char) :
    (words cs = [] ∧ paragraph width cs = [[]]) ∨
      ∃ rows, words cs ≠ [] ∧ rows ≠ [] ∧ Filled width rows ∧ paragraph width cs = rows.map unwords ∧
        rows.flatten = (words cs).flatMap (pieces width) := by
  have hwords : ∀ w ∈ words cs, IsSolid w := fun w hw => isSolid_of_mem_words hw
  obtain ⟨rows, hlaid, hrows⟩ := Laid.nil.foldl hwidth hwords
  rw [List.flatten_nil, List.nil_append] at hrows
  by_cases hnone : words cs = []
  · exact .inl ⟨hnone, by rw [paragraph, hnone]; rfl⟩
  · right
    have hne : rows ≠ [] := by
      rintro rfl
      obtain ⟨w, ws, hws⟩ := List.exists_cons_of_ne_nil hnone
      have hw := hwords w (by simp [hws])
      obtain ⟨full, last, hp, -⟩ := pieces_spec hwidth hw.ne_nil
      rw [hws, List.flatMap_cons, hp] at hrows
      simp at hrows
    obtain ⟨before, row, rfl, hdone, hline⟩ := hlaid.split hne
    exact ⟨_, hnone, hne, hlaid.filled, by rw [paragraph, Lines.all, hdone, hline]; simp, hrows⟩

/-- Nothing but white space is lost between the lines of a paragraph. -/
theorem letters_paragraph (hwidth : 0 < width) (cs : List Char) :
    letters (paragraph width cs).flatten = letters cs := by
  rcases paragraph_rows hwidth cs with ⟨hnone, hblock⟩ | ⟨rows, -, -, hfilled, hblock, hrows⟩
  · rw [hblock, ← flatten_words cs, hnone]
    rfl
  · have hlines : letters (rows.map unwords).flatten = rows.flatten.flatten := by
      have hwords := hfilled.words
      clear hblock hrows hfilled
      induction rows with
      | nil => rfl
      | cons row rows ih =>
        rw [List.map_cons, List.flatten_cons, letters_append, letters_unwords (hwords row (by simp)),
          ih fun r hr => hwords r (by simp [hr]), List.flatten_cons, List.flatten_append]
    have hpieces : ((words cs).flatMap (pieces width)).flatten = (words cs).flatten := by
      rw [List.flatMap_def, List.flatten_flatten, List.map_map]
      refine congrArg List.flatten ((List.map_congr_left fun w hw => ?_).trans (List.map_id _))
      exact (isCut_pieces hwidth (isSolid_of_mem_words hw).ne_nil).1
    rw [hblock, hlines, hrows, hpieces, flatten_words]

/-- Nothing but white space is lost between the lines of a text. -/
theorem letters_lines (hwidth : 0 < width) (text : List Char) : letters (lines width text).flatten = letters text := by
  have hjoin : ∀ ps : List (List Char),
      letters (ps.flatMap (paragraph width)).flatten = letters (['\n'].intercalate ps) := by
    intro ps
    induction ps with
    | nil => rfl
    | cons p ps ih =>
      rw [List.flatMap_cons, List.flatten_append, letters_append, letters_paragraph hwidth, ih]
      cases ps with
      | nil => simp [letters]
      | cons q ps => simp [List.intercalate_cons_cons, letters_cons_white (c := '\n') rfl]
  rw [lines, hjoin, paragraphs_eq, List.intercalate_splitOn]

/-- That a paragraph is broken into some lines: they are as long as allowed at most, have the characters of the
paragraph that are no white space, single spaces between words, and words in one piece unless these are longer than
a line; and the first word of a line had no room on the line before. -/
structure Wraps (width : Nat) (cs : List Char) (block : List (List Char)) : Prop where
  ne_nil : block ≠ []
  bounded : ∀ line ∈ block, line.length ≤ width
  lossless : letters block.flatten = letters cs
  blank : block = [[]] ↔ ∀ c ∈ cs, isWhite c = true
  spaced : block ≠ [[]] → ∀ line ∈ block, line ≠ [] ∧ IsSpaced line
  whole : ∃ parts, List.Forall₂ (IsCut width) (words cs) parts ∧ block.flatMap words = parts.flatten
  greedy : block.IsChain fun line next => width < line.length + 1 + ((words next).headD []).length

/-- A paragraph is wrapped. -/
theorem paragraph_wraps (hwidth : 0 < width) (cs : List Char) : Wraps width cs (paragraph width cs) := by
  have hlossless := letters_paragraph hwidth cs
  have hcuts : List.Forall₂ (IsCut width) (words cs) ((words cs).map (pieces width)) :=
    List.forall₂_map_right_iff.mpr (List.forall₂_same.mpr fun w hw =>
      isCut_pieces hwidth (isSolid_of_mem_words hw).ne_nil)
  rcases paragraph_rows hwidth cs with ⟨hnone, hblock⟩ | ⟨rows, hsome, hne, hfilled, hblock, hrows⟩
  · rw [hblock] at hlossless ⊢
    exact {
      ne_nil := by simp
      bounded := by simp
      lossless := hlossless
      blank := ⟨fun _ => words_eq_nil.mp hnone, fun _ => rfl⟩
      spaced := fun h => absurd rfl h
      whole := ⟨_, hcuts, by rw [hnone]; rfl⟩
      greedy := .singleton _ }
  · have hlines : ∀ line ∈ rows.map unwords, line ≠ [] ∧ IsSpaced line := by
      intro line hline
      obtain ⟨row, hrow, rfl⟩ := List.mem_map.mp hline
      exact ⟨unwords_ne_nil (hfilled.ne_nil row hrow) (hfilled.words row hrow),
        isSpaced_unwords (hfilled.words row hrow)⟩
    have hread : ∀ row ∈ rows, words (unwords row) = row := fun row hrow => words_unwords (hfilled.words row hrow)
    have hempty : rows.map unwords ≠ [[]] := fun he => (hlines [] (by rw [he]; simp)).1 rfl
    rw [hblock] at hlossless ⊢
    exact {
      ne_nil := by simpa using hne
      bounded := by simpa using hfilled.bounded
      lossless := hlossless
      blank := ⟨fun he => absurd he hempty, fun hw => absurd (words_eq_nil.mpr hw) hsome⟩
      spaced := fun _ => hlines
      whole := by
        refine ⟨_, hcuts, ?_⟩
        rw [← List.flatMap_def, ← hrows, List.flatMap_map, List.flatMap_def]
        exact congrArg List.flatten ((List.map_congr_left hread).trans (List.map_id _))
      greedy := by
        rw [List.isChain_map]
        refine List.IsChain.imp_of_mem_imp (fun row next _ hnext hroom => ?_) hfilled.greedy
        rwa [hread next hnext] }

theorem length_of_mem_lines (hwidth : 0 < width) {text line : List Char} (h : line ∈ lines width text) :
    line.length ≤ width := by
  obtain ⟨cs, -, hline⟩ := List.mem_flatMap.mp h
  exact (paragraph_wraps hwidth cs).bounded line hline

/-- The lines of a text are those of its paragraphs, each of which is wrapped. -/
theorem lines_wrap (hwidth : 0 < width) (text : List Char) :
    ∃ blocks, List.Forall₂ (Wraps width) (text.splitOn '\n') blocks ∧ lines width text = blocks.flatten := by
  refine ⟨(text.splitOn '\n').map (paragraph width), ?_, ?_⟩
  · exact List.forall₂_map_right_iff.mpr (List.forall₂_same.mpr fun cs _ => paragraph_wraps hwidth cs)
  · rw [lines, paragraphs_eq, List.flatMap_def]

/-- A word that is cut, with a word behind its last piece, and a paragraph of blanks. -/
theorem lines_wrap_cut : 0 < 3 ∧ (∃ blocks,
    List.Forall₂ (Wraps 3) ("x  abcdefg h\n \nij k".toList.splitOn '\n') blocks ∧
      lines 3 "x  abcdefg h\n \nij k".toList = blocks.flatten) ∧
    lines 3 "x  abcdefg h\n \nij k".toList = ["x", "abc", "def", "g h", "", "ij", "k"].map String.toList :=
  ⟨by decide, lines_wrap (by decide) _, by decide⟩

end Wrapping

end Marginalia

import Marginalia.Proofs.Mark.Objects
import Marginalia.Proofs.Mark.OwnText
import Marginalia.Proofs.Number.Plain

/-!
A document is read with the annotations that it was saved with.
-/

namespace Marginalia

namespace FontChain

/-- The candidates of the default chain have families of their own. -/
theorem default_families : ∀ f ∈ default.candidates, ∀ g ∈ default.candidates,
    f.family = g.family → f = g := by decide

/-- White space is among what the font for CJK text shows. -/
theorem supports_blank {text : String} (h : Unicode.isBlank text = true) {family baseFont ordering
    encoding : String} {supplement : Int} :
    (FontSource.cjk family baseFont ordering supplement encoding).supports text = true := by
  simp only [Unicode.isBlank, List.all_eq_true] at h
  simp only [FontSource.supports, List.all_eq_true, FontSource.supportsChar, decide_eq_true_eq]
  intro c hc
  have hw := h c hc
  simp only [Unicode.isWhite, Unicode.inRanges, Unicode.whiteSpace, List.any_cons, List.any_nil,
    Bool.or_false, Bool.or_eq_true, Bool.and_eq_true, decide_eq_true_eq] at hw
  omega

/-- The default chain finds a font that shows a blank text. -/
theorem resolve_blank {family text : String} (h : Unicode.isBlank text = true) {f : FontSource}
    (hf : default.resolve family text = .ok f) : f.supports text = true := by
  have hfallback : default.findFor? default.cjkFallback text =
      some (.cjk Mark.defaultFontFamily "HYGoThic-Medium" "Korea1" 2 "UniKS-UCS2-H") := by
    have hfind : default.find? default.cjkFallback =
        some (.cjk Mark.defaultFontFamily "HYGoThic-Medium" "Korea1" 2 "UniKS-UCS2-H") := by decide
    rw [findFor?, hfind, Option.filter_some, if_pos (supports_blank h)]
  unfold resolve at hf
  rw [hfallback] at hf
  split at hf
  · rename_i g hg
    cases hf
    exact (Option.filter_eq_some_iff.mp hg).2
  · cases hf
    exact supports_blank h

end FontChain

theorem Document.isMeaningful_of_blank {text : String} (h : Unicode.isBlank text = true)
    (hne : text ≠ "") : Document.isMeaningful text.toList = true := by
  cases hcs : text.toList with
  | nil => exact absurd (String.toList_eq_nil_iff.mp hcs) hne
  | cons c cs =>
    have hw : Unicode.isWhite c = true := by
      simp only [Unicode.isBlank, hcs, List.all_cons, Bool.and_eq_true] at h
      exact h.1
    have hsubstitute : c ≠ '\uFFFD' := by
      rintro rfl
      exact absurd hw (by decide)
    have hnul : c.toNat ≠ 0 := by
      intro h0
      simp [Unicode.isWhite, Unicode.inRanges, Unicode.whiteSpace, h0] at hw
    simp [Document.isMeaningful, hsubstitute, hnul]

variable {N : Numerals}

/-- Whether recognised text can be seen at all: it is not blank, and its box has a height. -/
def Mark.isUsable (m : Mark (Exact N)) : Bool :=
  !Unicode.isBlank m.content && decide (m.box.height ≠ 0)

namespace Document

open MarkWriter

/-- The numbers of the pages that have a frame. -/
def framedNumbers (d : Document (Exact N)) : List Nat :=
  d.numberedPages.filterMap fun (number, id) =>
    match d.frame id with
    | .ok _ => some number
    | .error _ => none

theorem framedNumbers_sorted (d : Document (Exact N)) : d.framedNumbers.Pairwise (· < ·) := by
  have hnumbers : (d.numberedPages.map Prod.fst).Pairwise (· < ·) := by
    unfold numberedPages
    rw [List.map_fst_zip (by simp)]
    exact List.pairwise_lt_range.map _ fun i j hij => Nat.succ_lt_succ hij
  refine List.Pairwise.sublist ?_ hnumbers
  unfold framedNumbers
  generalize d.numberedPages = numbered
  induction numbered with
  | nil => exact List.Sublist.refl _
  | cons e numbered ih =>
    obtain ⟨number, id⟩ := e
    cases hf : d.frame id with
    | error e =>
      simp only [List.filterMap_cons, hf, List.map_cons]
      exact ih.cons _
    | ok frame =>
      simp only [List.filterMap_cons, hf, List.map_cons]
      exact ih.cons_cons _

theorem mem_framedNumbers {d : Document (Exact N)} {number : Nat} :
    number ∈ d.framedNumbers ↔ ∃ id frame, d.page number = .ok id ∧ d.frame id = .ok frame := by
  unfold framedNumbers
  rw [List.mem_filterMap]
  constructor
  · rintro ⟨⟨number', id⟩, hmem, hsome⟩
    cases hf : d.frame id with
    | error e => simp [hf] at hsome
    | ok frame =>
      simp only [hf, Option.some.injEq] at hsome
      exact ⟨id, frame, mem_numberedPages.mp (hsome ▸ hmem), hf⟩
  · rintro ⟨id, frame, hpage, hframe⟩
    exact ⟨(number, id), mem_numberedPages.mpr hpage, by simp only [hframe]⟩

/-- The annotations that are found on a page after some were saved: those that have objects, and then the
recognised text that can be seen. -/
def keptOn (ms : List (Mark (Exact N))) (number : Nat) : List (Mark (Exact N)) :=
  let here := ms.filter fun m => m.page = number
  here.filter (fun m => m.kind != .ocrText) ++
    here.filter fun m => m.kind == .ocrText && m.isUsable

/-- The annotations that are found after some were saved, page by page. -/
def kept (d : Document (Exact N)) (ms : List (Mark (Exact N))) : List (Mark (Exact N)) :=
  d.framedNumbers.flatMap (keptOn ms)

end Document

namespace MarkWriter

open Document

theorem effectiveScale_default : (SaveOptions.default : SaveOptions (Exact N)).effectiveScale = 1 := by
  unfold SaveOptions.effectiveScale
  split
  · exact Exact.one_eq
  · exact Exact.one_eq

/-- What is drawn of a usable text is its run. -/
theorem shownRun_usable {m : Mark (Exact N)} (hm : m.isUsable = true) (hw : m.box.width ≠ 0) :
    isLeftOut m (m.box.unscaled (SaveOptions.default : SaveOptions (Exact N)).effectiveScale) = false ∧
      shownRun m (m.box.unscaled (SaveOptions.default : SaveOptions (Exact N)).effectiveScale) =
        ⟨m.content, m.box.normalized⟩ := by
  simp only [Mark.isUsable, Bool.and_eq_true, Bool.not_eq_true', decide_eq_true_eq] at hm
  obtain ⟨hdark, hh⟩ := hm
  have hne : m.content ≠ "" := by
    intro he
    rw [he] at hdark
    exact absurd hdark (by decide)
  have hwidth : 0 < m.box.normalized.width := by
    rw [ViewerBox.width_normalized]
    exact abs_pos.mpr hw
  have hheight : 0 < m.box.normalized.height := by
    rw [ViewerBox.height_normalized]
    exact abs_pos.mpr hh
  rw [effectiveScale_default, ViewerBox.unscaled_one]
  refine ⟨?_, shownRun_eq hwidth hheight hne⟩
  have hpoints : ¬ m.box.normalized.height * (3 / 4) ≤ 0 := by linarith
  simp [isLeftOut, hne, hpoints]

/-- Recognised text that is drawn and cannot be seen is blank. -/
theorem blank_of_drawn {m : Mark (Exact N)} (hm : m.isUsable = false)
    (hout : isLeftOut m (m.box.unscaled (SaveOptions.default : SaveOptions (Exact N)).effectiveScale) =
      false) : Unicode.isBlank m.content = true ∧ m.content ≠ "" := by
  rw [effectiveScale_default, ViewerBox.unscaled_one] at hout
  simp only [isLeftOut, Bool.or_eq_false_iff, decide_eq_false_iff_not, not_le, Exact.toPoints_eq,
    Exact.zero_eq] at hout
  obtain ⟨hne, hpoints⟩ := hout
  have hh : m.box.height ≠ 0 := by
    intro h0
    rw [ViewerBox.height_normalized, h0, abs_zero, zero_mul] at hpoints
    exact lt_irrefl _ hpoints
  simp only [Mark.isUsable, hh, ne_eq, not_false_eq_true, decide_true, Bool.and_true, Bool.not_eq_false']
    at hm
  exact ⟨hm, by simpa using hne⟩

/-- The runs of recognised text are read as the texts that can be seen. -/
theorem ocrMarks_drawn {number : Nat} {ms : List (Mark (Exact N))}
    (hms : ∀ m ∈ ms, m.kind = .ocrText ∧ m.page = number ∧ (m.isUsable = true → m.box.width ≠ 0)) :
    List.Forall₂ Mark.ReadAs (ms.filter Mark.isUsable)
      (ocrMarks ((drawnTexts .default ms).map fun e => shownRun e.1 e.2) number) := by
  induction ms with
  | nil => exact .nil
  | cons m ms ih =>
    have hrest := ih fun m' hm' => hms m' (by simp [hm'])
    obtain ⟨hkind, hpage, hwidth⟩ := hms m (by simp)
    rw [drawnTexts_cons, List.filter_cons]
    cases hu : m.isUsable with
    | true =>
      obtain ⟨hin, hrun⟩ := shownRun_usable hu (hwidth hu)
      have hdark : Unicode.isBlank m.content = false := by
        simp only [Mark.isUsable, Bool.and_eq_true, Bool.not_eq_true'] at hu
        exact hu.1
      rw [if_pos rfl, if_neg (by simp [hin]), List.map_cons, hrun]
      simp only [ocrMarks, List.filter_cons, hdark, Bool.not_false, if_true, List.map_cons]
      refine .cons ⟨hkind.symm, hpage.symm, rfl, m.box.normalized_normalized, fun hk => absurd hkind hk,
        fun hk => ?_⟩ hrest
      rw [hkind] at hk
      cases hk
    | false =>
      rw [if_neg (by simp)]
      split
      · exact hrest
      · rename_i hout
        obtain ⟨hblank, -⟩ := blank_of_drawn hu (by simpa using hout)
        have hcontent : (shownRun m (m.box.unscaled
            (SaveOptions.default : SaveOptions (Exact N)).effectiveScale)).text = m.content := rfl
        rw [List.map_cons]
        simp only [ocrMarks, List.filter_cons, hcontent, hblank, Bool.not_true, Bool.false_eq_true, if_false]
        exact hrest

end MarkWriter

namespace Document

open MarkWriter

variable {d d' : Document (Exact N)} {ms : List (Mark (Exact N))}

/-- What recognised text has to be like to be read again: it is not usable, or its box has a width and the
font that is found for it can show it so that it is read back. -/
def Readable (ms : List (Mark (Exact N))) : Prop :=
  ∀ m ∈ ms, m.kind = .ocrText → m.isUsable = true → m.box.width ≠ 0 ∧ Legible .default m

/-- All recognised text that is drawn can be read back. -/
theorem Readable.drawn (hms : Readable ms) {m : Mark (Exact N)} (hm : m ∈ ms) (hk : m.kind = .ocrText) :
    isLeftOut m (m.box.unscaled (SaveOptions.default : SaveOptions (Exact N)).effectiveScale) = true ∨
      Legible .default m := by
  cases hout : isLeftOut m
      (m.box.unscaled (SaveOptions.default : SaveOptions (Exact N)).effectiveScale) with
  | true => exact .inl rfl
  | false =>
    right
    cases hu : m.isUsable with
    | true => exact (hms m hm hk hu).2
    | false =>
      obtain ⟨hblank, hne⟩ := blank_of_drawn hu hout
      exact fun font hfont => ⟨FontChain.resolve_blank hblank hfont, isMeaningful_of_blank hblank hne⟩

/-- A page on which annotations were saved has them. -/
theorem Saved.pageMarks (hsaved : Saved .default d ms d') (h : d.Sound) (hms : Readable ms)
    {t : Target (Exact N)} (ht : t ∈ targets d) :
    List.Forall₂ Mark.ReadAs (keptOn ms t.number) (d'.pageMarks t.number t.id t.frame) := by
  have hp : t.id ∈ d.pages := (targets_sublist d).subset (List.mem_map_of_mem ht)
  obtain ⟨home, es, hl⟩ := h.tree.pages_homes.2 t.id hp
  obtain ⟨es', hs', ⟨ids, hobjects, hannots⟩, hlayer⟩ := hsaved.written t ht home es hl
  have hdict : d'.getDict? t.id = some es' :=
    getDict?_eq_some.mpr ⟨home, h.locate hsaved.edit hp hl hs'⟩
  have hown := own_untagged h hsaved.edit hp hl
  simp only [Document.pageMarks, hdict, keptOn]
  refine List.rel_append (objects_written effectiveScale_default hobjects hannots fun m hm => ?_) ?_
  · obtain ⟨hm, hkind⟩ := List.mem_filter.mp hm
    exact ⟨by simpa using hkind, by simpa using (List.mem_filter.mp hm).2⟩
  · have hsplit : (ms.filter fun m => m.page = t.number).filter (fun m => m.kind == .ocrText && m.isUsable) =
        (layerMarks (ms.filter fun m => m.page = t.number)).filter Mark.isUsable := by
      simp only [layerMarks, List.filter_filter, Bool.and_comm, Bool.and_left_comm, Bool.and_assoc]
    have hlayerMarks : ∀ m ∈ layerMarks (ms.filter fun m => m.page = t.number),
        m ∈ ms ∧ m.kind = .ocrText ∧ m.page = t.number := by
      intro m hm
      obtain ⟨hm, hkind⟩ := List.mem_filter.mp hm
      obtain ⟨hm, hpage⟩ := List.mem_filter.mp hm
      exact ⟨hm, by simpa using hkind, by simpa using hpage⟩
    rw [hsplit]
    rcases hlayer with ⟨hnone, hcontents, -⟩ | ⟨-, d₁, parts, -, hparts⟩
    · have hprograms := layerPrograms_cleared hsaved h hp hl hcontents
      simp only [MarkReader.layer, hprograms, hnone, List.foldl_nil, List.filter_nil]
      exact .nil
    · have hprograms := hparts.layerPrograms hown
      rw [decodeOperations_print (whole_printable hparts.plan)] at hprograms
      have hrun := runAll_whole (r := d'.resolver) defaultFormNesting (.page t.id)
        FontChain.default_readable FontChain.default_families hparts.plan
        (fun i f bytes hf => hparts.shownText hdict hf bytes)
        (fun m hm => hms.drawn (hlayerMarks m hm).1 (hlayerMarks m hm).2.1) .initial
      have hruns : (Machine.runAll d'.resolver t.frame defaultFormNesting (.page t.id)
          (parts.whole.map Instruction.readBack) .initial).runs =
          (drawnTexts .default (layerMarks (ms.filter fun m => m.page = t.number))).map
            fun e => shownRun e.1 e.2 := by
        have hctm : (Machine.initial : Machine (Exact N)).restore.stack.current.ctm = .identity := rfl
        simp only [Machine.runs, hrun, hctm, drawnRun_identity]
        simp [Machine.initial]
      simp only [MarkReader.layer, hprograms, List.foldl_cons, List.foldl_nil, hruns]
      exact ocrMarks_drawn fun m hm => ⟨(hlayerMarks m hm).2.1, (hlayerMarks m hm).2.2,
        fun hu => (hms m (hlayerMarks m hm).1 (hlayerMarks m hm).2.1 hu).1⟩

theorem framedNumbers_eq (d : Document (Exact N)) :
    d.framedNumbers = (targets d).map Target.number := by
  unfold framedNumbers targets
  rw [List.map_filterMap]
  refine List.filterMap_congr fun e _ => ?_
  obtain ⟨number, id⟩ := e
  cases hf : d.frame id with
  | error e => simp only [hf, Option.map_none]
  | ok frame => simp only [hf, Option.map_some]

theorem forall₂_flatMap {β γ δ : Type} {P : γ → δ → Prop} {xs : List β} {f : β → List γ} {g : β → List δ}
    (h : ∀ x ∈ xs, List.Forall₂ P (f x) (g x)) : List.Forall₂ P (xs.flatMap f) (xs.flatMap g) := by
  induction xs with
  | nil => exact .nil
  | cons x xs ih => exact List.rel_append (h x (by simp)) (ih fun y hy => h y (by simp [hy]))

/-- The annotations of a document in which annotations were saved. -/
theorem Saved.marks (hsaved : Saved .default d ms d') (h : d.Sound) (hms : Readable ms) :
    List.Forall₂ Mark.ReadAs (d.kept ms) d'.marks := by
  obtain ⟨-, hpages, hin⟩ := h.tree.transfer (h.keeps hsaved.edit) h.region d.saveKeys_publicTree
  have hmarks := marks_on_targets hpages fun p hp =>
    (h.keeps hsaved.edit).frame h.region d.saveKeys_publicTree (hin p hp)
  rw [hmarks, kept, framedNumbers_eq, List.flatMap_map]
  exact forall₂_flatMap fun t ht => hsaved.pageMarks h hms ht

/-- What is read from a saved document is what is read from the document that its file is loaded as. -/
theorem Saved.marks_reload {α : Type} [Scalar α] {o : SaveOptions α} {d d' r : Document α}
    {ms : List (Mark α)} (hsaved : Saved o d ms d') (h : d.Sound) (hr : d'.prune.Reloads r) :
    r.marks = d'.marks := by
  obtain ⟨htree, -, -⟩ := h.tree.transfer (h.keeps hsaved.edit) h.region d.saveKeys_publicTree
  exact Agree.marks hr.agree d'.reachable_region htree

/-- A document in which annotations were saved is read with exactly these annotations: page by page, those
that have objects of their own in their order, and behind them the recognised text that can be seen. -/
theorem marks_save (h : d.Sound) (hms : Readable ms) {w r : Document (Exact N)}
    (hs : d.save .default ms = .ok w) (hr : w.Reloads r) :
    List.Forall₂ Mark.ReadAs (d.kept ms) r.marks := by
  obtain ⟨d', rfl, hsaved⟩ := save_spec h hs
  rw [hsaved.marks_reload h hr]
  exact hsaved.marks h hms

/-- Two pages side by side, the second with such contents. -/
def twoPages (contents : ObjectId) : Document (Exact .plain) :=
  let box : Object (Exact .plain) := .array [.int 0, .int 0, .int 300, .int 300]
  { objects := [
      (⟨1, 0⟩, .ofEntries [("Type", .nameOf "Catalog"), ("Pages", .ref ⟨2, 0⟩)]),
      (⟨2, 0⟩, .ofEntries [("Type", .nameOf "Pages"), ("MediaBox", box),
        ("Kids", .array [.ref ⟨3, 0⟩, .ref ⟨4, 0⟩])]),
      (⟨3, 0⟩, .ofEntries [("Type", .nameOf "Page"), ("Parent", .ref ⟨2, 0⟩)]),
      (⟨4, 0⟩, .ofEntries [("Type", .nameOf "Page"), ("Parent", .ref ⟨2, 0⟩), ("Contents", .ref contents)]),
      (⟨5, 0⟩, .streamOf [] (Syntax.ascii "0 0 10 10 re f"))]
    trailer := Dict.ofList [("Root", .ref ⟨1, 0⟩)]
    maxNumber := 5
    streamed := false }

theorem twoPages_tree (contents : ObjectId) : (twoPages contents).TreeSound := by
  have hfirst : (twoPages contents).stored? ⟨3, 0⟩ = some (.ofEntries [("Type", .nameOf "Page"),
      ("Parent", .ref ⟨2, 0⟩)]) := rfl
  have hsecond : (twoPages contents).stored? ⟨4, 0⟩ = some (.ofEntries [("Type", .nameOf "Page"),
      ("Parent", .ref ⟨2, 0⟩), ("Contents", .ref contents)]) := rfl
  have hpage : ∀ {id : ObjectId} {entries : Dict (Exact .plain)},
      (twoPages contents).stored? id = some (.dict entries) →
      entries.get? "Type" = some (.nameOf "Page") → (twoPages contents).kid (.ref id) = .page id := by
    intro id entries hs htype
    have hname : entries.typeName? = some (Syntax.ascii "Page") := by
      simp only [Dict.typeName?, Dict.name?, htype, Option.bind_some, Object.nameOf]
    simp only [kid, getDict?_of_stored? hs, Option.bind_some, hname, beq_self_eq_true, if_true]
  have hkid₁ := hpage hfirst (by simp +decide only [Dict.get?_ofList_cons, Dict.get?_ofList_nil, if_true,
    if_false, Option.none_or, Option.or_none])
  have hkid₂ := hpage hsecond (by simp +decide only [Dict.get?_ofList_cons, Dict.get?_ofList_nil, if_true,
    if_false, Option.none_or, Option.or_none])
  refine ⟨fun root hroot => ⟨[⟨3, 0⟩, ⟨4, 0⟩], [⟨3, 0⟩, ⟨4, 0⟩], ?_, ?_⟩⟩
  · obtain rfl : (⟨2, 0⟩ : ObjectId) = root := Option.some.inj hroot
    exact @Walk.page _ _ (.ref ⟨3, 0⟩) [.ref ⟨4, 0⟩] [] _ _ _ hkid₁
      (@Walk.page _ _ (.ref ⟨4, 0⟩) [] [] _ _ _ hkid₂ .done)
  · have hhome₁ : (twoPages contents).home? ⟨3, 0⟩ = some ⟨3, 0⟩ :=
      home?_eq_some.mpr ⟨_, locate_of_stored? hfirst rfl⟩
    have hhome₂ : (twoPages contents).home? ⟨4, 0⟩ = some ⟨4, 0⟩ :=
      home?_eq_some.mpr ⟨_, locate_of_stored? hsecond rfl⟩
    simp only [List.map_cons, List.map_nil, hhome₁, hhome₂]
    decide

/-- A place for a line of text. -/
def lineBox : ViewerBox (Exact .plain) := ⟨40, 80, 96, 16⟩

/-- A place for a note. -/
def noteBox : ViewerBox (Exact .plain) := ⟨0, 0, 40, 40⟩

/-- Texts of all kinds: two on the first page, one on the second. -/
def severalMarks : List (Mark (Exact .plain)) := [
  { Mark.new .ocrText 1 lineBox "A" with fontFamily := "Helvetica" },
  { Mark.new .highlight 1 ⟨40, 80, -96, 16⟩ "" with color := ⟨1, 2, 3⟩ },
  Mark.new .freeText 2 noteBox "B"]

theorem severalMarks_readable : Readable severalMarks := by
  intro m hm hk _
  simp only [severalMarks, List.mem_cons, List.not_mem_nil, or_false] at hm
  rcases hm with rfl | rfl | rfl
  · refine ⟨by decide +kernel, fun font hfont => ?_⟩
    have hresolve : FontChain.default.resolve "Helvetica" "A" =
        .ok (.standard "Helvetica" "Helvetica" "Helvetica-Bold") := by decide
    rw [show (_ : Mark (Exact .plain)).fontFamily = "Helvetica" from rfl] at hfont
    cases hresolve.symm.trans hfont
    decide
  · cases hk
  · cases hk

theorem twoPages_sound : (twoPages ⟨5, 0⟩).Sound := by
  refine ⟨twoPages_tree _, ?_⟩
  show ∀ id ∈ (twoPages ⟨5, 0⟩).reachable, id.number ≤ 5
  decide +kernel

theorem marks_save_twoPages : (twoPages ⟨5, 0⟩).Sound ∧ Readable severalMarks ∧
    ∃ w, (twoPages ⟨5, 0⟩).save .default severalMarks = .ok w ∧ w.Reloads w ∧
      List.Forall₂ Mark.ReadAs ((twoPages ⟨5, 0⟩).kept severalMarks) w.marks := by
  have hok : ((twoPages ⟨5, 0⟩).save .default severalMarks).toOption.isSome = true := by decide +kernel
  cases hs : (twoPages ⟨5, 0⟩).save .default severalMarks with
  | error e =>
    rw [hs] at hok
    cases hok
  | ok w =>
    have hself : w.Reloads w := ⟨rfl, fun _ _ => rfl⟩
    exact ⟨twoPages_sound, severalMarks_readable, w, rfl, hself,
      marks_save twoPages_sound severalMarks_readable hs hself⟩

/-- Where a page refers to a number that nothing has, and an object of the recognised text of another page is
added under that number, the text is read on both pages. -/
theorem marks_save_dangling : (twoPages ⟨9, 0⟩).TreeSound ∧ Readable severalMarks ∧
    ∃ w, (twoPages ⟨9, 0⟩).save .default severalMarks = .ok w ∧ w.Reloads w ∧
      ¬ List.Forall₂ Mark.ReadAs ((twoPages ⟨9, 0⟩).kept severalMarks) w.marks := by
  have hread : (((twoPages ⟨9, 0⟩).save .default severalMarks).toOption.map fun w =>
      w.marks.length) = some 4 := by decide +kernel
  have hkept : ((twoPages ⟨9, 0⟩).kept severalMarks).length = 3 := by decide +kernel
  cases hs : (twoPages ⟨9, 0⟩).save .default severalMarks with
  | error e =>
    rw [hs] at hread
    cases hread
  | ok w =>
    refine ⟨twoPages_tree _, severalMarks_readable, w, rfl, ⟨rfl, fun _ _ => rfl⟩, fun hsame => ?_⟩
    rw [hs] at hread
    have hfour : w.marks.length = 4 := Option.some.inj hread
    have hlength := hsame.length_eq
    rw [hkept, hfour] at hlength
    cases hlength

end Document

end Marginalia

import Marginalia.Proofs.Number.Exact
import Marginalia.Proofs.Content.Joining
import Marginalia.Proofs.Graphics.Guarding
import Marginalia.Proofs.Mark.OwnText
import Marginalia.Proofs.Mark.RoundTrip

/-!
Recognised text does not depend on the content that it is added to, nor does that content on it, as long as
the content takes back the states that it saves and no others.
-/

namespace Marginalia

variable {N : Numerals}

namespace Mark

/-- That recognised text can be seen and read: it is not blank, its box has a width and a height, and the font
that is found for it can show it so that it is read back. -/
structure IsShown (m : Mark (Exact N)) : Prop where
  usable : m.isUsable = true
  width : m.box.width ≠ 0
  legible : MarkWriter.Legible .default m

/-- The run that recognised text is to be found as. -/
def run (m : Mark (Exact N)) : TextRun (Exact N) := ⟨m.content, m.box.normalized⟩

end Mark

namespace MarkWriter

open Document

/-- The recognised text on the page of a number. -/
def recognisedOn (ms : List (Mark (Exact N))) (number : Nat) : List (Mark (Exact N)) :=
  layerMarks (ms.filter fun m => m.page = number)

theorem mem_recognisedOn {ms : List (Mark (Exact N))} {number : Nat} {m : Mark (Exact N)} :
    m ∈ recognisedOn ms number ↔ m ∈ ms ∧ m.page = number ∧ m.kind = .ocrText := by
  simp [recognisedOn, layerMarks, and_comm]

/-- Text that can be seen is drawn in its box. -/
theorem drawnTexts_shown {ms : List (Mark (Exact N))} (hms : ∀ m ∈ ms, m.IsShown)
    (frame : PageFrame (Exact N)) :
    ((drawnTexts .default ms).map fun e => drawnRun .identity frame e.1 e.2) = ms.map Mark.run := by
  induction ms with
  | nil => rfl
  | cons m ms ih =>
    obtain ⟨hin, hrun⟩ := shownRun_usable (hms m (by simp)).usable (hms m (by simp)).width
    rw [drawnTexts_cons, if_neg (by simp [hin]), List.map_cons, List.map_cons,
      ih fun m' hm' => hms m' (by simp [hm']), drawnRun_identity, hrun, Mark.run]

/-- A program that is read to its end and takes back the states that it saves, and the recognised text
behind it, draw what they draw by themselves. -/
theorem runs_guarded (r : Resolver (Exact N)) {frame : PageFrame (Exact N)} (scope : Scope) (nesting : Nat)
    {own : Bytes} {ops : List (Operation (Exact N))} (hc : Grammar.Complete own ops)
    (hn : Operation.areNested 0 ops = true) {ms : List (Mark (Exact N))} {parts : LayerParts (Exact N)}
    (hplan : plan .default frame [] ms = .ok (parts.fonts, parts.program))
    (htext : ∀ i f bytes, parts.fonts[i]? = some f →
      r.text scope (Syntax.ascii (fontName i)) bytes = decodeShown f.textEncoding bytes)
    (hms : ∀ m ∈ ms, m.IsShown) :
    (Machine.runAll r frame nesting scope (decodeOperations
        (Syntax.ascii "q\n" ++ own ++ 0x0A :: printProgram parts.whole)) .initial).runs =
      (Machine.runAll r frame nesting scope ops .initial).runs ++ ms.map Mark.run := by
  obtain ⟨rest, hrest⟩ : ∃ rest, printProgram parts.whole = 0x51 :: rest := by
    have hascii : Syntax.ascii "Q" = [0x51] := by rfl
    obtain ⟨tail, htail, -, -⟩ := Grammar.printProgram_cons (⟨"Q", []⟩ : Instruction (Exact N))
      (parts.whole.tail)
    rw [Instruction.print, List.flatMap_nil, List.nil_append, hascii] at htail
    exact ⟨tail, htail⟩
  obtain ⟨hdrawn, hstate⟩ := Machine.runAll_guarded r frame nesting scope hn
  have hlayer := runAll_whole (r := r) nesting scope FontChain.default_readable FontChain.default_families
    hplan htext (fun m hm => .inr (hms m hm).legible)
    (Machine.runAll r frame nesting scope (⟨"q", []⟩ :: ops) .initial)
  have hctm : (GraphicsState.initial : GraphicsState (Exact N)).ctm = .identity := rfl
  rw [hstate, hctm, drawnTexts_shown hms, hdrawn] at hlayer
  rw [hc.decodeOperations_guarded (whole_printable hplan) hrest, ← List.cons_append, Machine.runAll_append,
    Machine.runs, hlayer, List.reverse_append, List.reverse_reverse, Machine.runs]

end MarkWriter

namespace Document

open MarkWriter

variable {d : Document (Exact N)}

/-- What the content of a page has to be like for text behind it to be independent of it. Its program is read
to its end, takes back the states that it saves and no others, and selects no fonts that recognised text
has names for; and saving sets nothing that it reads. -/
structure Closed (d : Document (Exact N)) (p : ObjectId) (es : Dict (Exact N))
    (ops : List (Operation (Exact N))) : Prop where
  near : d.ContentsNear es
  complete : Grammar.Complete (ownContent d es) ops
  nested : Operation.areNested 0 ops = true
  fonts : SelectsOnly IsOwnName d p ops
  apart : d.Apart p

/-- Where recognised text is saved on a page whose content is closed, the page draws what it draws without
annotations, every run of it unchanged, and behind it the recognised text, one run for each in their order. -/
theorem textRuns_save (h : d.Sound) {ms : List (Mark (Exact N))} {w r s t : Document (Exact N)}
    (hs : d.save .default ms = .ok w) (hr : w.Reloads r) (hstrip : d.save .default [] = .ok s)
    (ht : s.Reloads t) {number : Nat} {p : ObjectId} {es : Dict (Exact N)} {ops : List (Operation (Exact N))}
    (hp : d.page number = .ok p) (hd : d.getDict? p = some es) (hclosed : d.Closed p es ops)
    (hms : ∀ m ∈ ms, m.page = number → m.kind = .ocrText → m.IsShown) (nesting : Nat) :
    r.textRuns number nesting =
      (t.textRuns number nesting).map (· ++ (recognisedOn ms number).map Mark.run) := by
  obtain ⟨home, hl⟩ := getDict?_eq_some.mp hd
  obtain ⟨i, -, hi⟩ := page_eq_ok.mp hp
  have hmem : p ∈ d.pages := List.mem_of_getElem? hi
  have hparent : ∀ es' : Dict (Exact N), (∀ key, ¬ d.SaveKeys home key → es'.find? key = es.find? key) →
      es'.get? "Parent" = es.get? "Parent" := fun es' hkept =>
    hkept _ (d.saveKeys_publicTree.parent home)
  obtain ⟨s', rfl, hstripped⟩ := save_spec h hstrip
  obtain ⟨w', rfl, hsaved⟩ := save_spec h hs
  have hplain : t.textRuns number nesting = (d.frame p).map fun frame =>
      (Machine.runAll d.resolver frame nesting (.page p) ops .initial).runs := by
    rw [hstripped.textRuns_reload h ht]
    obtain ⟨es', hl', hkept, hpage⟩ := hstripped.page h hmem hl
    cases hpage with
    | plain _ hc hres =>
      rw [hstripped.textRuns_plain h hp hclosed.apart hl hl' hclosed.near (hparent es' hkept) hc hres,
        hclosed.complete.decodeOperations]
    | layered _ _ hsome => exact absurd rfl hsome
  rw [hsaved.textRuns_reload h hr, hplain]
  obtain ⟨es', hl', hkept, hpage⟩ := hsaved.page h hmem hl
  cases hpage with
  | plain hnone hc hres =>
    rw [hsaved.textRuns_plain h hp hclosed.apart hl hl' hclosed.near (hparent es' hkept) hc hres,
      hclosed.complete.decodeOperations]
    cases hf : d.frame p with
    | error e => rfl
    | ok frame =>
      have hempty : recognisedOn ms number = [] := by
        refine hnone ⟨number, p, frame, d.pageResources p⟩ ?_ rfl
        refine List.mem_filterMap.mpr ⟨(number, p), mem_numberedPages.mpr hp, ?_⟩
        simp only [hf]
      simp only [Except.map, hempty, List.map_nil, List.append_nil]
  | @layered target d₁ parts htarget hid _ hedit hparts =>
    obtain ⟨hnumbered, hframe, hres⟩ := mem_targets htarget
    subst hid
    have hnumber : target.number = number := h.tree.number_eq (mem_numberedPages.mp hnumbered) hp
    rw [hnumber, hres] at hparts
    have hfinds := finds_layered hsaved h hmem hclosed.apart hl' hedit hparts
    have hd' : w'.getDict? target.id = some es' := getDict?_eq_some.mpr ⟨home, hl'⟩
    have hruns := runs_guarded w'.resolver (.page target.id) nesting hclosed.complete
      hclosed.nested hparts.plan (fun i f bytes hf => hparts.shownText hd' hf bytes)
      fun m hm => hms m (mem_recognisedOn.mp hm).1 (mem_recognisedOn.mp hm).2.1 (mem_recognisedOn.mp hm).2.2
    rw [textRuns_keeps (h.keeps hsaved.edit) h.region d.saveKeys_publicTree h.tree, hp]
    simp only [Except.bind, hframe, Except.map, pageContent_layered hsaved h hmem hl hl' hparts, hruns,
      hfinds.runAll hclosed.fonts isOwnName_nil]
    rfl

/-- A page with a program of its own. -/
def drawnPage (program : List (Instruction (Exact .plain))) : Document (Exact .plain) :=
  { objects := [
      (⟨1, 0⟩, .ofEntries [("Type", .nameOf "Catalog"), ("Pages", .ref ⟨2, 0⟩)]),
      (⟨2, 0⟩, .ofEntries [("Type", .nameOf "Pages"), ("Kids", .array [.ref ⟨3, 0⟩]),
        ("MediaBox", .array [.int 0, .int 0, .int 300, .int 300])]),
      (⟨3, 0⟩, .ofEntries [("Type", .nameOf "Page"), ("Parent", .ref ⟨2, 0⟩), ("Contents", .ref ⟨4, 0⟩)]),
      (⟨4, 0⟩, .streamOf [] (printProgram program))]
    trailer := Dict.ofList [("Root", .ref ⟨1, 0⟩)]
    maxNumber := 4
    streamed := false }

/-- A text that is shown twice as large, the state saved before and taken back behind. -/
def enlargedText : List (Instruction (Exact .plain)) := [
  ⟨"q", []⟩, ⟨"cm", [.int 2, .int 0, .int 0, .int 2, .int 0, .int 0]⟩, ⟨"BT", []⟩,
  ⟨"Tf", [.nameOf "F1", .int 12]⟩, ⟨"Tj", [.string (Syntax.ascii "A") true]⟩, ⟨"ET", []⟩, ⟨"Q", []⟩]

/-- A recognised text on the first page. -/
def oneText : Mark (Exact .plain) :=
  { Mark.new .ocrText 1 lineBox "B" with fontFamily := "Helvetica" }

theorem oneText_shown : oneText.IsShown := by
  refine ⟨by decide +kernel, by decide +kernel, fun font hfont => ?_⟩
  have hresolve : FontChain.default.resolve "Helvetica" "B" =
      .ok (.standard "Helvetica" "Helvetica" "Helvetica-Bold") := by decide
  rw [show oneText.fontFamily = "Helvetica" from rfl] at hfont
  cases hresolve.symm.trans hfont
  decide

theorem enlargedText_printable : ∀ i ∈ enlargedText, i.IsPrintable := by
  have hint : ∀ n : Int, inWordRange n = true → (Object.int n : Object (Exact .plain)).IsPrintable :=
    fun _ hn => hn
  intro i hi
  simp only [enlargedText, List.mem_cons, List.not_mem_nil, or_false] at hi
  rcases hi with rfl | rfl | rfl | rfl | rfl | rfl | rfl
  all_goals refine ⟨fun v hv => ?_, by decide⟩
  all_goals simp only [List.mem_cons, List.not_mem_nil, or_false] at hv
  · rcases hv with rfl | rfl | rfl | rfl | rfl | rfl <;> exact hint _ (by decide)
  · rcases hv with rfl | rfl
    · show ∀ c ∈ Syntax.ascii "F1", ObjectPrinter.isNameByte c = true
      decide
    · exact hint _ (by decide)
  · subst hv
    rfl

section Witness

variable {program : List (Instruction (Exact .plain))}

theorem drawnPage_tree : (drawnPage program).TreeSound := by
  have hpage : (drawnPage program).stored? ⟨3, 0⟩ = some (.ofEntries [("Type", .nameOf "Page"),
      ("Parent", .ref ⟨2, 0⟩), ("Contents", .ref ⟨4, 0⟩)]) := rfl
  have hkid : (drawnPage program).kid (.ref ⟨3, 0⟩) = .page ⟨3, 0⟩ := by
    simp only [kid, getDict?_of_stored? hpage, Option.bind_some]
    rfl
  refine ⟨fun root hroot => ⟨[⟨3, 0⟩], [⟨3, 0⟩], ?_, ?_⟩⟩
  · obtain rfl : (⟨2, 0⟩ : ObjectId) = root := Option.some.inj hroot
    exact @Walk.page _ _ (.ref ⟨3, 0⟩) [] [] _ _ _ hkid .done
  · simp

theorem drawnPage_sound : (drawnPage enlargedText).Sound := by
  refine ⟨drawnPage_tree, ?_⟩
  show ∀ id ∈ (drawnPage enlargedText).reachable, id.number ≤ 4
  decide +kernel

/-- The entries of the page. -/
def drawnEntries : Dict (Exact .plain) :=
  Dict.ofList [("Type", .nameOf "Page"), ("Parent", .ref ⟨2, 0⟩), ("Contents", .ref ⟨4, 0⟩)]

theorem drawnPage_closed :
    (drawnPage enlargedText).Closed ⟨3, 0⟩ drawnEntries (enlargedText.map Instruction.readBack) := by
  have hpages : (drawnPage enlargedText).pages = [⟨3, 0⟩] := by decide +kernel
  have hres : (drawnPage enlargedText).resources? (.page ⟨3, 0⟩) = none := by decide +kernel
  have hcontent : ownContent (drawnPage enlargedText) drawnEntries = printProgram enlargedText := by
    decide +kernel
  refine ⟨?_, ?_, by decide +kernel, ⟨?_, ?_⟩, .of_bare hres ?_⟩
  · intro id home v hc hl
    cases hc
    cases hl
    rfl
  · rw [hcontent]
    exact Grammar.complete_print enlargedText_printable
  · intro op hop key size hkey
    have hselected : key = Syntax.ascii "F1" := by
      simp only [enlargedText, List.map_cons, List.map_nil, List.mem_cons, List.not_mem_nil, or_false] at hop
      rcases hop with rfl | rfl | rfl | rfl | rfl | rfl | rfl <;> cases hkey
      rfl
    intro i hi
    rw [hselected, fontName, Syntax.ascii_append] at hi
    cases hi
  · intro scope name f hv hf
    rw [hv.of_bare hres] at hf
    simp [form?, resource?, hres] at hf
  · intro es hd home habove hpage
    obtain rfl : drawnEntries = es := Option.some.inj hd
    obtain ⟨p, hp, hhome⟩ := hpage
    rw [hpages, List.mem_singleton] at hp
    subst hp
    obtain rfl : (⟨3, 0⟩ : ObjectId) = home := Option.some.inj hhome
    cases habove with
    | parent link found =>
      cases link
      cases found
    | further link found above =>
      cases link
      cases found
      cases above with
      | parent link found => cases link
      | further link found above => cases link

theorem textRuns_save_drawnPage : (drawnPage enlargedText).Sound ∧
    (drawnPage enlargedText).page 1 = .ok ⟨3, 0⟩ ∧
    (drawnPage enlargedText).getDict? ⟨3, 0⟩ = some drawnEntries ∧
    (drawnPage enlargedText).Closed ⟨3, 0⟩ drawnEntries (enlargedText.map Instruction.readBack) ∧
    oneText.IsShown ∧ ∃ w s, (drawnPage enlargedText).save .default [oneText] = .ok w ∧ w.Reloads w ∧
      (drawnPage enlargedText).save .default [] = .ok s ∧ s.Reloads s ∧
      w.textRuns 1 defaultFormNesting = (s.textRuns 1 defaultFormNesting).map
        (· ++ (recognisedOn [oneText] 1).map Mark.run) := by
  have hpage : (drawnPage enlargedText).page 1 = .ok ⟨3, 0⟩ := by rfl
  have hentries : (drawnPage enlargedText).getDict? ⟨3, 0⟩ = some drawnEntries := rfl
  refine ⟨drawnPage_sound, hpage, hentries, drawnPage_closed, oneText_shown, ?_⟩
  have hok : ((drawnPage enlargedText).save .default [oneText]).toOption.isSome = true := by decide +kernel
  have hok' : ((drawnPage enlargedText).save .default []).toOption.isSome = true := by decide +kernel
  cases hs : (drawnPage enlargedText).save .default [oneText] with
  | error e =>
    rw [hs] at hok
    cases hok
  | ok w =>
    cases hs' : (drawnPage enlargedText).save .default [] with
    | error e =>
      rw [hs'] at hok'
      cases hok'
    | ok s =>
      have hself : ∀ d : Document (Exact .plain), d.Reloads d := fun d => ⟨rfl, fun _ _ => rfl⟩
      refine ⟨w, s, rfl, hself w, rfl, hself s, ?_⟩
      refine textRuns_save drawnPage_sound hs (hself w) hs' (hself s) hpage hentries drawnPage_closed
        (fun m hm _ _ => ?_) _
      rw [List.mem_singleton.mp hm]
      exact oneText_shown

/-- A text that is shown after a state was taken back that the page did not save. -/
def unmatchedText : List (Instruction (Exact .plain)) :=
  ⟨"cm", [.int 2, .int 0, .int 0, .int 2, .int 0, .int 0]⟩ :: ⟨"Q", []⟩ :: enlargedText.drop 2

/-- Where a page takes back a state that it did not save, it takes back the one that was saved for recognised
text, and draws something else than it did. -/
theorem textRuns_save_unmatched : ∃ w s, (drawnPage unmatchedText).save .default [oneText] = .ok w ∧
    (drawnPage unmatchedText).save .default [] = .ok s ∧
      w.textRuns 1 defaultFormNesting ≠ (s.textRuns 1 defaultFormNesting).map
        (· ++ (recognisedOn [oneText] 1).map Mark.run) := by
  have hdrawn : ((drawnPage unmatchedText).save .default [oneText]).toOption.map (fun w =>
      (w.pageText 1 defaultFormNesting).map fun run => run.box.height) = some [16, 16] := by
    decide +kernel
  have hplain : ((drawnPage unmatchedText).save .default []).toOption.map (fun s =>
      (s.pageText 1 defaultFormNesting).map fun run => run.box.height) = some [32] := by
    decide +kernel
  cases hs : (drawnPage unmatchedText).save .default [oneText] with
  | error e =>
    rw [hs] at hdrawn
    cases hdrawn
  | ok w =>
    cases hs' : (drawnPage unmatchedText).save .default [] with
    | error e =>
      rw [hs'] at hplain
      cases hplain
    | ok s =>
      refine ⟨w, s, rfl, rfl, fun hsame => ?_⟩
      rw [hs] at hdrawn
      rw [hs'] at hplain
      have hheights : (w.pageText 1 defaultFormNesting).map (fun run => run.box.height) = [16, 16] :=
        Option.some.inj hdrawn
      have hheight : (s.pageText 1 defaultFormNesting).map (fun run => run.box.height) = [32] :=
        Option.some.inj hplain
      unfold pageText at hheights hheight
      rw [hsame] at hheights
      cases ht : s.textRuns 1 defaultFormNesting with
      | error e =>
        rw [ht] at hheight
        cases hheight
      | ok runs =>
        simp only [ht, Except.map, List.map_append] at hheights hheight
        rw [hheight] at hheights
        exact absurd (List.cons.inj hheights).1 (by decide +kernel)

end Witness

end Document

end Marginalia

import Marginalia.Document.Text
import Marginalia.Proofs.Graphics.FontHistory
import Marginalia.Proofs.Number.Plain

/-!
The fonts that the texts of a document are read in. What is kept of a selected font is its key, which is looked
up anew where a text is shown. A form with resources of its own may have another font of that key, or none, so
that a text in it is read in the font that was selected only if the two have the same encoding.
-/

namespace Marginalia

namespace PageProgram

variable {α : Type} [Scalar α]

/-- The texts of a page in drawing order, with the selections of fonts that govern them. -/
def readings (p : PageProgram α) (r : Resolver α) (nesting : Nat) : List (Reading α) :=
  match p.frame, p.content with
  | .ok frame, .ok content =>
    (FontEvent.readings (Recorded.initial.runAll r frame nesting p.scope (r.operations content)).history).reverse
  | _, _ => []

/-- The runs of a page are those of its texts, and they are read by the key in force. -/
theorem runs_readings (p : PageProgram α) (r : Resolver α) (nesting : Nat) {runs : List (TextRun α)}
    (h : p.runs r nesting = .ok runs) :
    runs = (p.readings r nesting).map Reading.run ∧
      ∀ x ∈ p.readings r nesting,
        x.run.text = String.join (x.pieces.map (r.text x.scope (FontEvent.keyOf x.selection))) := by
  obtain ⟨frame, content, scope⟩ := p
  cases frame with
  | error e => cases h
  | ok frame =>
    cases content with
    | error e =>
      obtain rfl := Except.ok.inj h
      exact ⟨rfl, List.forall_mem_nil _⟩
    | ok content =>
      obtain rfl := Except.ok.inj h
      have htold := Recorded.told_runAll r frame nesting scope (r.operations content)
      have hmachine := Recorded.machine_runAll r frame nesting scope (r.operations content) .initial
      have hinitial : (Recorded.initial : Recorded α).machine = .initial := rfl
      rw [hinitial] at hmachine
      refine ⟨?_, fun x hx => htold.read x (List.mem_reverse.mp hx)⟩
      unfold readings Machine.runs
      rw [← hmachine, htold.drawn, List.map_reverse]

end PageProgram

namespace Document

open FontEvent

variable {α : Type}

/-- The encoding of the font that a key has in a scope. -/
def encodingOf (d : Document α) (scope : Scope) (key : Bytes) : TextEncoding :=
  match d.font? scope key with
  | some font => d.fontEncoding font
  | none => .unknown

/-- Of a font, only the encoding matters to how a string is read. -/
theorem shownText_eq (d : Document α) (scope : Scope) (key : Bytes) :
    d.shownText scope key = decodeShown (d.encodingOf scope key) := by
  funext bytes
  unfold shownText encodingOf
  cases d.font? scope key <;> rfl

variable [Scalar α]

/-- The texts of the page of a number, with the selections of fonts that govern them. -/
def readings (d : Document α) (number nesting : Nat) : List (Reading α) :=
  match d.page number with
  | .ok page => (d.pageProgram page).readings d.resolver nesting
  | .error _ => []

/-- Each text is read in the font that the key of the governing selection has where the text is shown. That is
how it is read in the font that was selected, if both have the same encoding. -/
theorem textRuns_selected (d : Document α) (number nesting : Nat) {runs : List (TextRun α)}
    (h : d.textRuns number nesting = .ok runs) :
    runs = (d.readings number nesting).map Reading.run ∧
      ∀ x ∈ d.readings number nesting,
        x.run.text = String.join (x.pieces.map (d.shownText x.scope (keyOf x.selection))) ∧
          ∀ selectedIn key, x.selection = some (selectedIn, key) →
            d.encodingOf x.scope key = d.encodingOf selectedIn key →
              x.run.text = String.join (x.pieces.map (d.shownText selectedIn key)) := by
  unfold textRuns at h
  unfold readings
  cases hpage : d.page number with
  | error e =>
    rw [hpage] at h
    cases h
  | ok page =>
    rw [hpage] at h
    obtain ⟨hruns, hread⟩ := (d.pageProgram page).runs_readings d.resolver nesting h
    refine ⟨hruns, ?_⟩
    intro x hx
    have htext : x.run.text = String.join (x.pieces.map (d.shownText x.scope (keyOf x.selection))) := hread x hx
    refine ⟨htext, ?_⟩
    intro selectedIn key hselection hencoding
    rw [htext, hselection, keyOf, shownText_eq, shownText_eq, hencoding]

/-- A page that selects a font and invokes a form, which has these resources and shows a text without
selecting a font itself. -/
def invokingPage (resources : Dict (Exact .plain)) : Document (Exact .plain) :=
  { objects := [
      (⟨1, 0⟩, .ofEntries [("Type", .nameOf "Catalog"), ("Pages", .ref ⟨2, 0⟩)]),
      (⟨2, 0⟩, .ofEntries [("Type", .nameOf "Pages"), ("Kids", .array [.ref ⟨3, 0⟩]),
        ("MediaBox", .array [.int 0, .int 0, .int 300, .int 300])]),
      (⟨3, 0⟩, .ofEntries [("Type", .nameOf "Page"), ("Parent", .ref ⟨2, 0⟩), ("Contents", .ref ⟨4, 0⟩),
        ("Resources", .ofEntries [("Font", .ofEntries [("F1", .ref ⟨6, 0⟩)]),
          ("XObject", .ofEntries [("X", .ref ⟨5, 0⟩)])])]),
      (⟨4, 0⟩, .streamOf [] (Syntax.ascii "/F1 12 Tf /X Do")),
      (⟨5, 0⟩, .streamOf (Dict.ofList [("Subtype", .nameOf "Form"), ("Resources", .dict resources)])
        (Syntax.ascii "<80> Tj")),
      (⟨6, 0⟩, .ofEntries [("Type", .nameOf "Font"), ("Encoding", .nameOf "WinAnsiEncoding")])]
    trailer := Dict.ofList [("Root", .ref ⟨1, 0⟩)]
    maxNumber := 6
    streamed := false }

/-- The form has the font of the page among its own, and its text is read in it. -/
theorem textRuns_selected_shared :
    let d := invokingPage (Dict.ofList [("Font", .ofEntries [("F1", .ref ⟨6, 0⟩)])])
    ∃ runs, d.textRuns 1 32 = .ok runs ∧ ∃ x ∈ d.readings 1 32, x.scope = .form ⟨5, 0⟩ ∧
      x.selection = some (.page ⟨3, 0⟩, Syntax.ascii "F1") ∧
      x.run.text = String.join (x.pieces.map (d.shownText (.page ⟨3, 0⟩) (Syntax.ascii "F1"))) := by
  intro d
  have hreadings : (d.readings 1 32).map (fun x => (x.scope, x.selection)) =
      [(.form ⟨5, 0⟩, some (.page ⟨3, 0⟩, Syntax.ascii "F1"))] := by decide +kernel
  obtain ⟨x, hx, heq⟩ := List.mem_map.mp (hreadings ▸ List.mem_singleton_self _)
  obtain ⟨hscope, hselection⟩ := Prod.mk.inj heq
  cases hruns : d.textRuns 1 32 with
  | error e =>
    have hok : (d.textRuns 1 32).isOk = true := by decide +kernel
    rw [hruns] at hok
    cases hok
  | ok runs =>
    refine ⟨runs, rfl, x, hx, hscope, hselection, ?_⟩
    obtain ⟨-, hread⟩ := textRuns_selected d 1 32 hruns
    refine (hread x hx).2 _ _ hselection ?_
    rw [hscope]
    decide +kernel

/-- The form has resources without fonts, and its text is not read in the font that the page selected. -/
theorem textRuns_selected_unshared :
    let d := invokingPage []
    (d.textRuns 1 32).isOk = true ∧ ∃ x ∈ d.readings 1 32, x.scope = .form ⟨5, 0⟩ ∧
      x.selection = some (.page ⟨3, 0⟩, Syntax.ascii "F1") ∧
      x.run.text ≠ String.join (x.pieces.map (d.shownText (.page ⟨3, 0⟩) (Syntax.ascii "F1"))) := by
  intro d
  have hreadings : (d.readings 1 32).map (fun x => (x.scope, x.selection, x.pieces, x.run.text)) =
      [(.form ⟨5, 0⟩, some (.page ⟨3, 0⟩, Syntax.ascii "F1"), [[0x80]], "\x80")] := by decide +kernel
  obtain ⟨x, hx, heq⟩ := List.mem_map.mp (hreadings ▸ List.mem_singleton_self _)
  simp only [Prod.mk.injEq] at heq
  obtain ⟨hscope, hselection, hpieces, htext⟩ := heq
  refine ⟨by decide +kernel, x, hx, hscope, hselection, ?_⟩
  rw [hpieces, htext]
  decide +kernel

end Document

end Marginalia

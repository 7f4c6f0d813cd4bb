import Marginalia.Proofs.Mark.Replay
import Marginalia.Proofs.Mark.Writing

/-!
Recognised text that was added to a page, as it is read: its stream is the one with the tag, and the
names in its program stand for the fonts that were added.
-/

namespace Marginalia

namespace MarkWriter

open Document

section Printing

variable {N : Numerals} {m : Mark (Exact N)} {box : ViewerBox (Exact N)} {frame : PageFrame (Exact N)}

theorem isWord_of_layer : ∀ w ∈ ["Q", "q", "gs", "rg", "BT", "ET", "Tf", "Tz", "Tm", "Tj"], IsWord w := by
  decide

theorem isNameByte_fontName (i : Nat) :
    ∀ c ∈ Syntax.ascii (fontName i), ObjectPrinter.isNameByte c = true := by
  intro c hc
  rw [fontName, Syntax.ascii_append, List.mem_append] at hc
  rcases hc with hc | hc
  · revert c
    decide
  · rw [Syntax.ascii, Nat.toString_eq_repr, Nat.toList_repr] at hc
    obtain ⟨ch, hch, rfl⟩ := List.mem_map.mp hc
    have hdigit := Nat.isDigit_of_mem_toDigits (by decide) (by decide) hch
    have hall : ∀ n : Fin 10, ObjectPrinter.isNameByte (UInt8.ofNat (48 + n.val)) = true := by decide
    obtain ⟨hlow, hhigh⟩ := Syntax.toNat_of_isDigit hdigit
    have hn := hall ⟨ch.toNat - 48, by omega⟩
    rwa [show 48 + (ch.toNat - 48) = ch.toNat by omega] at hn

theorem shown_printable (font : FontSource) (i : Nat) :
    ∀ instruction ∈ shown font (fontName i) frame m box, instruction.IsPrintable := by
  have hone : (Object.int 1 : Object (Exact N)).IsPrintable := by
    show inWordRange 1 = true
    decide
  have hzero : (Object.int 0 : Object (Exact N)).IsPrintable := by
    show inWordRange 0 = true
    decide
  intro instruction hi
  simp only [shown, List.mem_cons, List.not_mem_nil, or_false] at hi
  rcases hi with rfl | rfl | rfl | rfl
  · refine ⟨?_, isWord_of_layer "Tf" (by decide)⟩
    intro v hv
    simp only [List.mem_cons, List.not_mem_nil, or_false] at hv
    rcases hv with rfl | rfl
    · exact isNameByte_fontName i
    · exact Exact.printable_real _
  · refine ⟨?_, isWord_of_layer "Tz" (by decide)⟩
    intro v hv
    rw [List.mem_singleton.mp hv]
    exact Exact.printable_real _
  · refine ⟨?_, isWord_of_layer "Tm" (by decide)⟩
    intro v hv
    simp only [List.mem_cons, List.not_mem_nil, or_false] at hv
    rcases hv with rfl | rfl | rfl | rfl | rfl | rfl
    · exact hone
    · exact hzero
    · exact hzero
    · exact hone
    · exact Exact.printable_real _
    · exact Exact.printable_real _
  · refine ⟨?_, isWord_of_layer "Tj" (by decide)⟩
    intro v hv
    rw [List.mem_singleton.mp hv]
    rfl

theorem plan_printable {o : SaveOptions (Exact N)} {ms : List (Mark (Exact N))}
    {fonts fonts' : List FontSource} {program : List (Instruction (Exact N))}
    (h : plan o frame fonts ms = .ok (fonts', program)) :
    ∀ instruction ∈ program, instruction.IsPrintable := by
  induction ms generalizing fonts program with
  | nil =>
    cases h
    simp
  | cons m ms ih =>
    rcases plan_cons h with ⟨-, hrest⟩ | ⟨-, font, rest, -, hrest, rfl⟩
    · exact ih hrest
    · intro instruction hi
      rcases List.mem_append.mp hi with hi | hi
      · exact shown_printable font _ instruction hi
      · exact ih hrest instruction hi

/-- The whole program of recognised text can be read where it was written. -/
theorem whole_printable {o : SaveOptions (Exact N)} {ms : List (Mark (Exact N))}
    {parts : LayerParts (Exact N)} (h : plan o frame [] ms = .ok (parts.fonts, parts.program)) :
    ∀ instruction ∈ parts.whole, instruction.IsPrintable := by
  have hnone : ∀ w ∈ ["Q", "q", "BT", "ET"], (⟨w, []⟩ : Instruction (Exact N)).IsPrintable :=
    fun w hw => ⟨by simp, isWord_of_layer w (by revert w; decide)⟩
  have hstate : (⟨"gs", [.nameOf layerStateName]⟩ : Instruction (Exact N)).IsPrintable := by
    refine ⟨?_, isWord_of_layer "gs" (by decide)⟩
    intro v hv
    rw [List.mem_singleton.mp hv]
    show ∀ c ∈ Syntax.ascii layerStateName, ObjectPrinter.isNameByte c = true
    decide
  have hcolor : (⟨"rg", [.int 0, .int 0, .int 0]⟩ : Instruction (Exact N)).IsPrintable := by
    refine ⟨?_, isWord_of_layer "rg" (by decide)⟩
    intro v hv
    have hv : v = .int 0 := by simpa using hv
    rw [hv]
    show inWordRange 0 = true
    decide
  intro instruction hi
  simp only [LayerParts.whole, layerOpening, List.mem_append, List.mem_cons, List.not_mem_nil,
    or_false] at hi
  rcases hi with ((rfl | rfl | rfl | rfl | rfl) | hi) | rfl | rfl
  · exact hnone _ (by decide)
  · exact hnone _ (by decide)
  · exact hstate
  · exact hcolor
  · exact hnone _ (by decide)
  · exact plan_printable h instruction hi
  · exact hnone _ (by decide)
  · exact hnone _ (by decide)

end Printing

section Reading

variable {α : Type}

/-- The entries of a stream of content with a tag. -/
def taggedEntries (tag : String) (data : Bytes) : Dict α :=
  (Dict.ofList [(Layer.tagKey, .nameOf tag)]).set "Length" (.int data.length)

theorem taggedStream_eq (tag : String) (data : Bytes) :
    taggedStream (α := α) tag data = .stream (taggedEntries tag data) data := rfl

theorem name?_taggedEntries (tag : String) (data : Bytes) :
    (taggedEntries (α := α) tag data).name? Layer.tagKey = some (Syntax.ascii tag) := by
  have hget : (taggedEntries (α := α) tag data).get? Layer.tagKey = some (.nameOf tag) := by
    rw [taggedEntries, Dict.get?_set_of_ne _ _ (by decide), Dict.get?_ofList_cons, Dict.get?_ofList_nil,
      if_pos rfl, Option.none_or]
  rw [Dict.name?, hget]
  rfl

theorem has_filter_taggedEntries (tag : String) (data : Bytes) :
    (taggedEntries (α := α) tag data).has "Filter" = false := by
  have hget : (taggedEntries (α := α) tag data).get? "Filter" = none := by
    have hkey : Syntax.ascii Layer.tagKey ≠ Syntax.ascii "Filter" := by decide
    rw [taggedEntries, Dict.get?_set_of_ne _ _ (by decide), Dict.get?_ofList_cons, Dict.get?_ofList_nil,
      if_neg hkey, Option.none_or]
  rw [Dict.has, hget]
  rfl

theorem tag?_of_stored {d : Document α} {id : ObjectId} {tag : String} {data : Bytes}
    (h : d.stored? id = some (taggedStream tag data)) : Layer.tag? d id = some (Syntax.ascii tag) := by
  rw [taggedStream_eq] at h
  simp only [Layer.tag?, getStream?_of_stored? h, Option.bind_eq_bind, Option.bind_some,
    name?_taggedEntries]

/-- A page with resources in its dictionary has these. -/
theorem resources?_direct {d : Document α} {p : ObjectId} {es resources : Dict α} (hd : d.getDict? p = some es)
    (hr : es.get? "Resources" = some (.dict resources)) : d.resources? (.page p) = some resources := by
  have hin : d.inherited? es "Resources" = some (.dict resources) := by
    simp only [inherited?, maxAncestors, inheritedWithin?, hr, deref]
  simp only [resources?, hd, hin, Option.bind_eq_bind, Option.bind_some, Object.dict?]

variable [Scalar α]

namespace HasLayer

variable {low : Nat} {o : SaveOptions α} {frame : PageFrame α} {resources : Dict α} {base : String → Dict α}
  {own : List ObjectId} {ms : List (Mark α)} {d : Document α} {es : Dict α} {parts : LayerParts α}

theorem streams (h : HasLayer low o frame resources base own ms d es parts) :
    Layer.streams d es = parts.guard :: own ++ [parts.text] := by
  simp only [Layer.streams, h.contents, refs, filterMap_refs]

theorem tag_text (h : HasLayer low o frame resources base own ms d es parts) :
    Layer.tag? d parts.text = some (Syntax.ascii Layer.textTag) :=
  tag?_of_stored h.text

theorem tag_guard (h : HasLayer low o frame resources base own ms d es parts) :
    Layer.tag? d parts.guard = some (Syntax.ascii Layer.guardTag) :=
  tag?_of_stored h.guard

/-- One stream on the page has the tag of recognised text. -/
theorem layerPrograms (h : HasLayer low o frame resources base own ms d es parts)
    (hown : ∀ id ∈ own, Layer.tag? d id = none) :
    MarkReader.layerPrograms d es =
      [decodeOperations (α := α) (0x0A :: printProgram parts.whole)] := by
  have hkept : own.filter (fun id => Layer.tag? d id == some (Syntax.ascii Layer.textTag)) = [] := by
    rw [List.filter_eq_nil_iff]
    intro id hid
    simp [hown id hid]
  have hguard : (some (Syntax.ascii Layer.guardTag) == some (Syntax.ascii Layer.textTag)) = false := by
    decide
  have htext := h.text
  rw [taggedStream_eq] at htext
  have hplain : StreamData.plain? (taggedEntries (α := α) Layer.textTag (0x0A :: printProgram parts.whole))
      (0x0A :: printProgram parts.whole) = some (0x0A :: printProgram parts.whole) := by
    simp only [StreamData.plain?, StreamData.plain, has_filter_taggedEntries, Bool.false_eq_true, if_false]
    rfl
  simp only [MarkReader.layerPrograms, h.streams, List.cons_append, List.filter_cons, h.tag_guard, hguard,
    Bool.false_eq_true, if_false, List.filter_append, hkept, List.nil_append, h.tag_text, beq_self_eq_true,
    if_true, List.filter_nil, List.filterMap_cons, List.filterMap_nil, getStream?_of_stored? htext,
    Option.bind_eq_bind, Option.bind_some, hplain, Option.pure_def]

theorem resources_page (h : HasLayer low o frame resources base own ms d es parts) {p : ObjectId}
    (hd : d.getDict? p = some es) : d.resources? (.page p) = some parts.resources :=
  resources?_direct hd h.named

theorem resource_font (h : HasLayer low o frame resources base own ms d es parts) {p : ObjectId}
    (hd : d.getDict? p = some es) (key : Bytes) :
    d.resource? (.page p) "Font" key = parts.fontEntries.find? key := by
  simp only [resource?_eq, h.resources_page hd, entryIn?, h.fonts, Option.bind_some, deref,
    Object.dict?]

/-- The fonts of recognised text show what was encoded for them. -/
theorem shownText (h : HasLayer low o frame resources base own ms d es parts) {p : ObjectId}
    (hd : d.getDict? p = some es) {i : Nat} {f : FontSource} (hf : parts.fonts[i]? = some f)
    (bytes : Bytes) :
    d.shownText (.page p) (Syntax.ascii (fontName i)) bytes = decodeShown f.textEncoding bytes := by
  obtain ⟨id, d', hget, -, hs⟩ := h.fontsIn.stored i f hf
  have hfind : parts.fontEntries.find? (Syntax.ascii (fontName i)) = some (.ref id) := hget
  have hfont : d.font? (.page p) (Syntax.ascii (fontName i)) = some (f.dictionary d' false).2 := by
    simp only [font?, h.resource_font hd, hfind, Option.bind_eq_bind, Option.bind_some, deref,
      get?_of_stored? hs rfl, Option.getD_some, Object.dict?]
  simp only [Document.shownText, hfont, FontSource.fontEncoding_dictionary]

end HasLayer

end Reading

section Running

variable {N : Numerals} {o : SaveOptions (Exact N)} {frame : PageFrame (Exact N)}

/-- The operations in front of all text go back to a saved state and draw nothing. -/
theorem runAll_opening {r : Resolver (Exact N)} (nesting : Nat) (scope : Scope) (s : Machine (Exact N)) :
    (Machine.runAll r frame nesting scope (layerOpening.map Instruction.readBack) s).stack.current.ctm =
        s.restore.stack.current.ctm ∧
      (Machine.runAll r frame nesting scope (layerOpening.map Instruction.readBack) s).drawn = s.drawn := by
  have hread : (layerOpening (α := Exact N)).map Instruction.readBack =
      [⟨"Q", []⟩, ⟨"q", []⟩, ⟨"gs", [.name (Syntax.ascii layerStateName)]⟩,
        ⟨"rg", [.int 0, .int 0, .int 0]⟩, ⟨"BT", []⟩] := rfl
  rw [hread]
  simp only [Machine.runAll, List.foldl_cons, List.foldl_nil, Machine.run, Machine.step,
    Command.ofOperation?, Machine.perform]
  exact ⟨rfl, s.drawn_restore⟩

/-- What follows all text draws nothing. -/
theorem runAll_closing {r : Resolver (Exact N)} (nesting : Nat) (scope : Scope) (s : Machine (Exact N)) :
    (Machine.runAll r frame nesting scope
      ([⟨"ET", []⟩, ⟨"Q", []⟩].map Instruction.readBack) s).drawn = s.drawn := by
  simp only [List.map_cons, List.map_nil, Instruction.readBack, Machine.runAll, List.foldl_cons,
    List.foldl_nil, Machine.run, Machine.step, Command.ofOperation?, Machine.perform]
  exact s.drawn_restore

/-- Recognised text draws its texts with the map that going back to the saved state brings back. -/
theorem runAll_whole {r : Resolver (Exact N)} (nesting : Nat) (scope : Scope)
    (hread : ∀ f ∈ o.fonts.candidates, f.IsReadable)
    (hfamily : ∀ f ∈ o.fonts.candidates, ∀ g ∈ o.fonts.candidates, f.family = g.family → f = g)
    {ms : List (Mark (Exact N))} {parts : LayerParts (Exact N)}
    (hplan : plan o frame [] ms = .ok (parts.fonts, parts.program))
    (htext : ∀ i f bytes, parts.fonts[i]? = some f →
      r.text scope (Syntax.ascii (fontName i)) bytes = decodeShown f.textEncoding bytes)
    (hms : ∀ m ∈ ms, isLeftOut m (m.box.unscaled o.effectiveScale) = true ∨ Legible o.fonts m)
    (s : Machine (Exact N)) :
    (Machine.runAll r frame nesting scope (parts.whole.map Instruction.readBack) s).drawn =
      ((drawnTexts o ms).map fun e =>
        drawnRun s.restore.stack.current.ctm frame e.1 e.2).reverse ++ s.drawn := by
  obtain ⟨hopened, hnothing⟩ := runAll_opening (r := r) nesting scope s
  have hdraws := plan_runAll nesting hread hfamily (fun f hf => absurd hf List.not_mem_nil) hplan htext hms
    (Machine.runAll r frame nesting scope (layerOpening.map Instruction.readBack) s)
  rw [hopened] at hdraws
  rw [LayerParts.whole, List.map_append, List.map_append, Machine.runAll_append, Machine.runAll_append,
    runAll_closing, hdraws.drawn, hnothing]

end Running

end MarkWriter

end Marginalia

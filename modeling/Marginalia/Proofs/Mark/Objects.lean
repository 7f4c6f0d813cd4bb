import Marginalia.Proofs.Geometry.Crossing
import Marginalia.Proofs.Mark.Direct
import Marginalia.Proofs.Mark.Parts
import Marginalia.Proofs.Text.Encoding

/-!
Annotation objects that were written are read with what was written in them.
-/

namespace Marginalia

variable {N : Numerals}

/-- That an annotation was read as another one was saved. The colour counts for highlights, and the
identifier for what has an object of its own. -/
structure Mark.ReadAs (m m' : Mark (Exact N)) : Prop where
  kind : m'.kind = m.kind
  page : m'.page = m.page
  content : m'.content = m.content
  box : m'.box = m.box.normalized
  id : m.kind ≠ .ocrText → m'.id = m.id
  color : m.kind = .highlight → m'.color = m.color

namespace MarkReader

open Document

variable {d : Document (Exact N)} {entries : Dict (Exact N)}

theorem numbers?_reals {key : String} {xs : List (Exact N)}
    (h : entries.get? key = some (.array (xs.map MarkWriter.real))) : numbers? d entries key = some xs := by
  have hmap : ∀ ys : List (Exact N), d.numbers? (ys.map MarkWriter.real) = some ys := by
    intro ys
    unfold Document.numbers?
    induction ys with
    | nil => rfl
    | cons y ys ih =>
      have hy : (d.deref (MarkWriter.real y)).number? = some y := by
        simp only [MarkWriter.real, deref, Object.number?, Exact.narrow_eq]
      rw [List.map_cons, List.mapM_cons, hy, ih]
      rfl
  have harray : (d.deref (.array (xs.map MarkWriter.real))).array? = some (xs.map MarkWriter.real) := rfl
  simp only [numbers?, h, Option.bind_eq_bind, Option.bind_some, harray, hmap]

theorem rect?_written {frame : PageFrame (Exact N)} {box : ViewerBox (Exact N)}
    (h : entries.get? "Rect" = some (MarkWriter.rectObject (frame.rectToPage box))) :
    rect? d entries = some (frame.rectToPage box) := by
  obtain ⟨hx, hy⟩ := frame.rectToPage_ordered box
  generalize frame.rectToPage box = r at h hx hy
  have hnumbers : numbers? d entries "Rect" = some [r.left, r.bottom, r.right, r.top] :=
    numbers?_reals h
  simp only [rect?, hnumbers, Option.bind_eq_bind, Option.bind_some, PageRect.ofCorners_of_le hx hy]

theorem color?_written {c : Color} (h : entries.get? "C" = some (.array (MarkWriter.colorObjects c))) :
    color? d entries = some c := by
  have hnumbers : numbers? d entries "C" = some (c.units (α := Exact N)) := numbers?_reals h
  simp only [color?, hnumbers, Option.bind_eq_bind, Option.bind_some, Color.units, Color.ofUnits,
    Color.byteOfUnit_unitOfByte]

theorem text_written {key text : String} (h : entries.get? key = some (MarkWriter.textObject text)) :
    MarkReader.text d entries key = text := by
  have htext : text? d entries key = some text := by
    simp only [text?, h, Option.map_some, MarkWriter.textObject, deref, TextString.decode_encode]
  rw [MarkReader.text, htext]
  rfl

theorem id_written {i : MarkId} (h : entries.get? "NM" = some (MarkWriter.literal i.text)) :
    MarkReader.id d entries = i := by
  have hencode : Utf8.encode i.text.toList = TextString.encode i.text := by
    have hascii : TextString.isAscii i.text.toList = true := by
      simpa [TextString.isAscii] using i.text_ascii
    rw [TextString.encode, if_pos hascii]
  have htext : text? d entries "NM" = some i.text := by
    simp only [text?, h, Option.map_some, MarkWriter.literal, deref, hencode, TextString.decode_encode]
  rw [MarkReader.id, htext, Option.bind_some]
  exact i.parse?_text

/-- An annotation is read from the entries that all annotation objects have. -/
theorem mark?_written {frame : PageFrame (Exact N)} (page : Nat) (kind : MarkKind) {subtype : Bytes}
    {content : String} {box : ViewerBox (Exact N)} {i : MarkId}
    (hsubtype : entries.name? "Subtype" = some subtype) (hkind : MarkKind.ofSubtype? subtype = some kind)
    (hrect : entries.get? "Rect" = some (MarkWriter.rectObject (frame.rectToPage box)))
    (hcontent : entries.get? "Contents" = some (MarkWriter.textObject content))
    (hid : entries.get? "NM" = some (MarkWriter.literal i.text)) :
    ∃ m, mark? d frame page entries = some m ∧ m.kind = kind ∧ m.page = page ∧ m.content = content ∧
      m.box = box.normalized ∧ m.id = i ∧
      (kind = .highlight → m.color = (color? d entries).getD MarkKind.highlight.defaultColor) := by
  have hbox : (frame.rectToViewer (frame.rectToPage box)).normalized = box.normalized := by
    rw [frame.rectToViewer_rectToPage, ViewerBox.normalized_normalized]
  simp only [mark?, hsubtype, hkind, rect?_written hrect, text_written hcontent, id_written hid,
    Option.bind_eq_bind, Option.bind_some]
  cases kind with
  | highlight => exact ⟨_, rfl, rfl, rfl, rfl, hbox, rfl, fun _ => rfl⟩
  | freeText => exact ⟨_, rfl, rfl, rfl, rfl, hbox, rfl, fun hk => by cases hk⟩
  | underline => exact ⟨_, rfl, rfl, rfl, rfl, hbox, rfl, fun hk => by cases hk⟩
  | ocrText => exact ⟨_, rfl, rfl, rfl, rfl, hbox, rfl, fun hk => by cases hk⟩

end MarkReader

namespace MarkWriter

open Document

variable {d : Document (Exact N)} {o : SaveOptions (Exact N)} {page appearance : ObjectId}
  {frame : PageFrame (Exact N)} {m : Mark (Exact N)} {box : ViewerBox (Exact N)}

variable (page appearance frame m box) in
theorem get?_freeTextEntries :
    (freeTextEntries page frame m box appearance).get? "Subtype" = some (.nameOf "FreeText") ∧
      (freeTextEntries page frame m box appearance).get? "Rect" =
        some (rectObject (frame.rectToPage box)) ∧
      (freeTextEntries page frame m box appearance).get? "Contents" = some (textObject m.content) ∧
      (freeTextEntries page frame m box appearance).get? "NM" = some (literal m.id.text) := by
  refine ⟨?_, ?_, ?_, ?_⟩ <;>
    simp +decide only [freeTextEntries, Dict.get?_ofList_cons, Dict.get?_ofList_nil, if_true, if_false,
      Option.none_or, Option.or_none]

variable (page frame m box) in
theorem get?_markupEntries :
    (markupEntries page frame m box).get? "Subtype" = some (.nameOf (looks m).1) ∧
      (markupEntries page frame m box).get? "Rect" = some (rectObject (frame.rectToPage box)) ∧
      (markupEntries page frame m box).get? "C" = some (.array (colorObjects (looks m).2)) ∧
      (markupEntries page frame m box).get? "Contents" = some (textObject m.content) ∧
      (markupEntries page frame m box).get? "NM" = some (literal m.id.text) := by
  refine ⟨?_, ?_, ?_, ?_, ?_⟩ <;>
    simp +decide only [markupEntries, Dict.get?_ofList_cons, Dict.get?_ofList_nil, if_true,
      if_false, Option.none_or, Option.or_none]

variable (page appearance frame) in
/-- The object of an annotation is read as the annotation. -/
theorem mark?_objectEntries (hscale : o.effectiveScale = 1) (hk : m.kind ≠ .ocrText) :
    ∃ m', MarkReader.mark? d frame m.page (objectEntries o page frame m appearance) = some m' ∧
      m.ReadAs m' := by
  have hbox : (m.box.unscaled o.effectiveScale).normalized = m.box.normalized := by
    rw [hscale, ViewerBox.unscaled_one, ViewerBox.normalized_normalized]
  have hname : ∀ {entries : Dict (Exact N)} {s : String}, entries.get? "Subtype" = some (.nameOf s) →
      entries.name? "Subtype" = some (Syntax.ascii s) := by
    intro entries s hs
    rw [Dict.name?, hs]
    rfl
  unfold objectEntries
  cases hkind : m.kind with
  | ocrText => exact absurd hkind hk
  | freeText =>
    obtain ⟨hsubtype, hrect, hcontent, hid⟩ := get?_freeTextEntries page appearance frame m
      (m.box.unscaled o.effectiveScale)
    obtain ⟨m', hread, hkind', hpage, hcontent', hbox', hid', -⟩ := MarkReader.mark?_written (d := d)
      m.page .freeText (hname hsubtype) (by decide) hrect hcontent hid
    exact ⟨m', hread, hkind'.trans hkind.symm, hpage, hcontent', hbox'.trans hbox, fun _ => hid',
      fun hc => by simp [hkind] at hc⟩
  | underline =>
    obtain ⟨hsubtype, hrect, hcolor, hcontent, hid⟩ := get?_markupEntries page frame m
      (m.box.unscaled o.effectiveScale)
    simp only [looks, hkind] at hsubtype
    obtain ⟨m', hread, hkind', hpage, hcontent', hbox', hid', -⟩ := MarkReader.mark?_written (d := d)
      m.page .underline (hname hsubtype) (by decide) hrect hcontent hid
    exact ⟨m', hread, hkind'.trans hkind.symm, hpage, hcontent', hbox'.trans hbox, fun _ => hid',
      fun hc => by simp [hkind] at hc⟩
  | highlight =>
    obtain ⟨hsubtype, hrect, hcolor, hcontent, hid⟩ := get?_markupEntries page frame m
      (m.box.unscaled o.effectiveScale)
    simp only [looks, hkind] at hsubtype hcolor
    obtain ⟨m', hread, hkind', hpage, hcontent', hbox', hid', hcolor'⟩ := MarkReader.mark?_written
      (d := d) m.page .highlight (hname hsubtype) (by decide) hrect hcontent hid
    refine ⟨m', hread, hkind'.trans hkind.symm, hpage, hcontent', hbox'.trans hbox, fun _ => hid',
      fun _ => ?_⟩
    rw [hcolor' rfl, MarkReader.color?_written hcolor]
    rfl

/-- The objects of annotations are read in their order. -/
theorem objects_written (hscale : o.effectiveScale = 1) {low number : Nat} {ms : List (Mark (Exact N))}
    {ids : List ObjectId} {es : Dict (Exact N)}
    (hobjects : List.Forall₂ (ObjectIn low o page frame d) ms ids)
    (hannots : es.get? "Annots" = if ids.isEmpty then none else some (refs ids))
    (hms : ∀ m ∈ ms, m.kind ≠ .ocrText ∧ m.page = number) :
    List.Forall₂ Mark.ReadAs ms (MarkReader.objects d frame number es) := by
  rw [objects_saved _ hobjects hannots]
  clear hobjects hannots
  induction ms with
  | nil => exact .nil
  | cons m ms ih =>
    obtain ⟨hkind, hpage⟩ := hms m (by simp)
    obtain ⟨m', hread, has⟩ := mark?_objectEntries (d := .empty) (o := o) page page frame hscale hkind
    rw [hpage] at hread
    simp only [List.filterMap_cons, hread]
    exact .cons has (ih fun m hm => hms m (by simp [hm]))

end MarkWriter

end Marginalia

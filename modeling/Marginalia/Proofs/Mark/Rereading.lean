import Marginalia.Proofs.Mark.Additions
import Marginalia.Proofs.Mark.Framing
import Marginalia.Proofs.Mark.Style

/-!
Annotations that were read from a document, saved in it and read again. Whatever their objects were like, what is
read from them first is read from then on.
-/

namespace Marginalia

variable {N : Numerals}

namespace Resolution

theorem fontPixels_le (points : Exact N) : (fontPixels points : Int) ≤ maxFontPixels := by
  have hround : ∀ x : Extended, x.roundWithin 0 maxFontPixels ≤ maxFontPixels := by
    intro x
    have hmax : (0 : Int) ≤ maxFontPixels := by decide
    cases x with
    | nan => exact hmax
    | infinite negative => cases negative <;> simp [Extended.roundWithin, hmax]
    | finite negative q => exact max_le hmax (min_le_left _ _)
  unfold fontPixels
  have h := hround (Scalar.exact (toPixels points))
  have hmax : (0 : Int) ≤ maxFontPixels := by decide
  omega

/-- A font size that can be stored comes back from points as it was. -/
theorem fontPixels_fontPoints {n : Nat} (h : (n : Int) ≤ maxFontPixels) :
    fontPixels (fontPoints n : Exact N) = n := by
  have hpixels : toPixels (fontPoints n : Exact N) = (n : Exact N) := by
    rw [fontPoints, Exact.toPixels_eq, Exact.toPoints_eq, mul_assoc]
    norm_num
  rw [fontPixels, hpixels]
  have hround := @Extended.roundWithin_of_near (decide ((n : ℚ) < 0)) (n : ℚ) n maxFontPixels (by simp) h
  show (Extended.roundWithin 0 maxFontPixels (.finite (decide ((n : ℚ) < 0)) (n : ℚ))).toNat = n
  rw [hround, Int.toNat_natCast]

end Resolution

/-- An annotation as it is read from an object: what its kind does not have is as it is by default, and the rest is
such that it can be written. -/
structure Mark.Settled (m : Mark (Exact N)) : Prop where
  kind : m.kind ≠ .ocrText
  box : m.box.normalized = m.box
  family : m.kind = .freeText → DefaultStyle.IsFamily m.fontFamily.toList
  weight : m.kind = .freeText → DefaultStyle.hasBoldWeight m.fontFamily.toList = true → m.bold = true
  size : m.kind = .freeText → (m.fontSize : Int) ≤ Resolution.maxFontPixels
  plain : m.kind ≠ .freeText → m.fontFamily = Mark.defaultFontFamily ∧ m.fontSize = Mark.defaultFontSize ∧
    m.bold = false
  color : m.kind = .underline → m.color = .red_

namespace Mark.Settled

variable {m : Mark (Exact N)} (hbox : m.box.normalized = m.box)
include hbox

/-- A highlight and an underline have no text of their own. -/
theorem of_markup (hkind : m.kind = .highlight ∨ m.kind = .underline ∧ m.color = .red_)
    (hplain : m.fontFamily = Mark.defaultFontFamily ∧ m.fontSize = Mark.defaultFontSize ∧ m.bold = false) :
    m.Settled := by
  have hne : m.kind ≠ .ocrText ∧ m.kind ≠ .freeText := by
    rcases hkind with h | ⟨h, -⟩ <;> rw [h] <;> decide
  refine ⟨hne.1, hbox, fun h => absurd h hne.2, fun h => absurd h hne.2, fun h => absurd h hne.2, fun _ => hplain,
    fun hk => ?_⟩
  rcases hkind with h | ⟨-, h⟩
  · rw [h] at hk
    cases hk
  · exact h

theorem of_freeText (hkind : m.kind = .freeText) (hfamily : DefaultStyle.IsFamily m.fontFamily.toList)
    (hweight : DefaultStyle.hasBoldWeight m.fontFamily.toList = true → m.bold = true)
    (hsize : (m.fontSize : Int) ≤ Resolution.maxFontPixels) : m.Settled := by
  have hne : m.kind ≠ .ocrText ∧ m.kind ≠ .underline := by
    rw [hkind]
    decide
  exact ⟨hne.1, hbox, fun _ => hfamily, fun _ => hweight, fun _ => hsize, fun h => absurd hkind h,
    fun h => absurd h hne.2⟩

end Mark.Settled

namespace MarkReader

open Document

variable {d : Document (Exact N)} {entries : Dict (Exact N)}

/-- The family of a free text can be written in a style, and tells no weight that the style does not have. -/
theorem family_settled (text : String) :
    DefaultStyle.IsFamily ((DefaultStyle.parse text).fontFamily.getD Mark.defaultFontFamily).toList ∧
      (DefaultStyle.hasBoldWeight ((DefaultStyle.parse text).fontFamily.getD Mark.defaultFontFamily).toList = true →
        (DefaultStyle.parse text).bold = true) := by
  cases hf : DefaultStyle.family? text.toList with
  | none =>
    simp only [DefaultStyle.parse, hf, Option.getD_none]
    exact ⟨⟨by decide, by decide, by decide⟩, fun h => absurd h (by decide)⟩
  | some family =>
    obtain ⟨hfamily, hin⟩ := DefaultStyle.family?_eq_some hf
    simp only [DefaultStyle.parse, hf, Option.getD_some]
    exact ⟨hfamily, fun h => DefaultStyle.hasBoldWeight_infix h hin⟩

/-- No subtype is that of recognised text. -/
theorem ofSubtype?_ne_ocrText (subtype : Bytes) : MarkKind.ofSubtype? subtype ≠ some .ocrText := by
  unfold MarkKind.ofSubtype?
  split
  · nofun
  · split
    · nofun
    · split <;> nofun

/-- What is read from an object is settled. -/
theorem settled_of_mark? {frame : PageFrame (Exact N)} {page : Nat} {m : Mark (Exact N)}
    (h : mark? d frame page entries = some m) : m.Settled ∧ m.page = page := by
  simp only [mark?, Option.bind_eq_bind, Option.bind_eq_some_iff] at h
  obtain ⟨subtype, -, kind, hkind, rect, -, hm⟩ := h
  have hbox : (frame.rectToViewer rect).normalized.normalized = (frame.rectToViewer rect).normalized :=
    ViewerBox.normalized_normalized _
  cases kind with
  | ocrText => exact absurd hkind (ofSubtype?_ne_ocrText subtype)
  | highlight =>
    cases hm
    exact ⟨.of_markup hbox (.inl rfl) ⟨rfl, rfl, rfl⟩, rfl⟩
  | underline =>
    cases hm
    exact ⟨.of_markup hbox (.inr ⟨rfl, rfl⟩) ⟨rfl, rfl, rfl⟩, rfl⟩
  | freeText =>
    cases hm
    obtain ⟨hfamily, hweight⟩ := family_settled (text d entries "DS")
    have hsize : ∀ size : Option (Exact N),
        (((size.map Resolution.fontPixels).getD Mark.defaultFontSize : Nat) : Int) ≤ Resolution.maxFontPixels := by
      intro size
      cases size with
      | none =>
        show ((Mark.defaultFontSize : Nat) : Int) ≤ Resolution.maxFontPixels
        decide
      | some points => exact Resolution.fontPixels_le points
    exact ⟨.of_freeText hbox rfl hfamily hweight (hsize _), rfl⟩

theorem text_literal {key text : String} (h : entries.get? key = some (MarkWriter.literal text)) :
    MarkReader.text d entries key = text := by
  have htext : text? d entries key = some text := by
    simp only [text?, h, Option.map_some, MarkWriter.literal, deref, TextString.decode_utf8]
  rw [MarkReader.text, htext]
  rfl

/-- What is read from entries that were written: what the kind has by default, and what the entries tell of it. -/
theorem mark?_entries {frame : PageFrame (Exact N)} {page : Nat} {kind : MarkKind} {subtype content : String}
    {box : ViewerBox (Exact N)} {i : MarkId} (hbox : box.normalized = box)
    (hsubtype : entries.get? "Subtype" = some (.nameOf subtype))
    (hkind : MarkKind.ofSubtype? (Syntax.ascii subtype) = some kind)
    (hrect : entries.get? "Rect" = some (MarkWriter.rectObject (frame.rectToPage box)))
    (hcontent : entries.get? "Contents" = some (MarkWriter.textObject content))
    (hid : entries.get? "NM" = some (MarkWriter.literal i.text)) :
    let plain : Mark (Exact N) := ⟨i, kind, content, box, page, kind.defaultColor, Mark.defaultFontFamily,
      Mark.defaultFontSize, false⟩
    mark? d frame page entries = match kind with
      | .highlight => some { plain with color := (color? d entries).getD plain.color }
      | .freeText => some (withStyle d entries plain)
      | .underline | .ocrText => some plain := by
  have hviewer : (frame.rectToViewer (frame.rectToPage box)).normalized = box := by
    rw [frame.rectToViewer_rectToPage, ViewerBox.normalized_normalized, hbox]
  have hname : entries.name? "Subtype" = some (Syntax.ascii subtype) := by
    rw [Dict.name?, hsubtype]
    rfl
  simp only [mark?, hname, hkind, rect?_written hrect, text_written hcontent, id_written hid, Option.bind_eq_bind,
    Option.bind_some, Mark.new, hviewer]
  cases kind <;> rfl

end MarkReader

namespace MarkWriter

open Document

variable {d : Document (Exact N)} {page appearance : ObjectId} {frame : PageFrame (Exact N)} {m : Mark (Exact N)}

theorem style_freeTextEntries {α : Type} [Scalar α] (page : ObjectId) (frame : PageFrame α) (m : Mark α)
    (box : ViewerBox α) (appearance : ObjectId) :
    (freeTextEntries page frame m box appearance).get? "DA" =
        some (literal (DefaultAppearance.render (Resolution.fontPoints m.fontSize : α) m.color)) ∧
      (freeTextEntries page frame m box appearance).get? "DS" = some (literal (DefaultStyle.render m.fontFamily
        (Resolution.fontPoints m.fontSize : α) m.bold m.color)) := by
  refine ⟨?_, ?_⟩ <;>
    simp +decide only [freeTextEntries, Dict.get?_ofList_cons, Dict.get?_ofList_nil, if_true, if_false,
      Option.none_or, Option.or_none]

theorem ofSubtype?_written : MarkKind.ofSubtype? (Syntax.ascii "FreeText") = some .freeText ∧
    MarkKind.ofSubtype? (Syntax.ascii "Underline") = some .underline ∧
    MarkKind.ofSubtype? (Syntax.ascii "Highlight") = some .highlight := by decide

/-- A settled annotation is read from its object as it is. -/
theorem mark?_settled (hm : m.Settled) : MarkReader.mark? d frame m.page
    (objectEntries .default page frame m appearance) = some m := by
  obtain ⟨id, kind, content, box, number, color, family, size, bold⟩ := m
  obtain ⟨hkind, hbox, hfamily, hweight, hsize, hplain, hcolor⟩ := hm
  simp only at hkind hbox hfamily hweight hsize hplain hcolor
  have hunscaled : box.unscaled (SaveOptions.default : SaveOptions (Exact N)).effectiveScale = box := by
    rw [effectiveScale_default, ViewerBox.unscaled_one, hbox]
  unfold objectEntries
  simp only [hunscaled]
  cases kind with
  | ocrText => exact absurd rfl hkind
  | freeText =>
    obtain ⟨hsubtype, hrect, hcontent, hid⟩ := get?_freeTextEntries page appearance frame
      ⟨id, .freeText, content, box, number, color, family, size, bold⟩ box
    obtain ⟨hda, hds⟩ := style_freeTextEntries page frame
      ⟨id, .freeText, content, box, number, color, family, size, bold⟩ box appearance
    have hstyle := (hfamily rfl).parse_render (hweight rfl) (Resolution.fontPoints size : Exact N) color
    refine (MarkReader.mark?_entries hbox hsubtype ofSubtype?_written.1 hrect hcontent hid).trans ?_
    simp only [MarkReader.withStyle, MarkReader.text_literal hda, MarkReader.text_literal hds, hstyle,
      DefaultAppearance.parse_render, Option.map_some, Option.getD_some, Resolution.fontPixels_fontPoints (hsize rfl)]
  | underline =>
    obtain ⟨hsubtype, hrect, -, hcontent, hid⟩ := get?_markupEntries page frame
      ⟨id, .underline, content, box, number, color, family, size, bold⟩ box
    obtain ⟨rfl, rfl, rfl⟩ := hplain (by decide)
    obtain rfl := hcolor rfl
    exact MarkReader.mark?_entries hbox hsubtype ofSubtype?_written.2.1 hrect hcontent hid
  | highlight =>
    obtain ⟨hsubtype, hrect, hc, hcontent, hid⟩ := get?_markupEntries page frame
      ⟨id, .highlight, content, box, number, color, family, size, bold⟩ box
    obtain ⟨rfl, rfl, rfl⟩ := hplain (by decide)
    refine (MarkReader.mark?_entries hbox hsubtype ofSubtype?_written.2.2 hrect hcontent hid).trans ?_
    rw [MarkReader.color?_written hc]
    rfl

end MarkWriter

/-- The same annotation under the identifier that was drawn for it, if it had none. -/
def Mark.Identified (m m' : Mark (Exact N)) : Prop :=
  ∃ id, m' = { m with id } ∧ (m.id ≠ .pending → id = m.id)

theorem Mark.Identified.refl (m : Mark (Exact N)) : m.Identified m := ⟨m.id, rfl, fun _ => rfl⟩

theorem Mark.Settled.withId {m : Mark (Exact N)} (hm : m.Settled) (id : MarkId) : { m with id }.Settled :=
  ⟨hm.kind, hm.box, hm.family, hm.weight, hm.size, hm.plain, hm.color⟩

namespace Document

open MarkWriter

variable {d d' : Document (Exact N)} {ms : List (Mark (Exact N))}

/-- That no stream in the content of a page is one of recognised text. -/
def Unlayered (d : Document (Exact N)) : Prop := ∀ p ∈ d.pages, ∀ es, d.getDict? p = some es →
  ∀ id ∈ Layer.streams d es, Layer.tag? d id ≠ some (Syntax.ascii Layer.textTag)

/-- A page without streams of recognised text has no recognised text. -/
theorem layer_eq_nil {es : Dict (Exact N)}
    (h : ∀ id ∈ Layer.streams d es, Layer.tag? d id ≠ some (Syntax.ascii Layer.textTag)) (frame : PageFrame (Exact N))
    (p : ObjectId) (number : Nat) : MarkReader.layer d frame p number es = [] := by
  have hnone : (Layer.streams d es).filter
      (fun id => Layer.tag? d id == some (Syntax.ascii Layer.textTag)) = [] := by
    simpa [List.filter_eq_nil_iff] using h
  simp only [MarkReader.layer, MarkReader.layerPrograms, hnone, List.filterMap_nil, List.foldl_nil]
  rfl

/-- What is read from a page without recognised text is settled. -/
theorem pageMarks_settled (hlayers : d.Unlayered) {number : Nat} {p : ObjectId} (hp : p ∈ d.pages)
    {frame : PageFrame (Exact N)} : ∀ m ∈ d.pageMarks number p frame, m.Settled ∧ m.page = number := by
  intro m hm
  unfold pageMarks at hm
  split at hm
  · rename_i es hes
    rw [layer_eq_nil (hlayers p hp es hes), List.append_nil] at hm
    unfold MarkReader.objects at hm
    split at hm
    · obtain ⟨v, -, hv⟩ := List.mem_filterMap.mp hm
      obtain ⟨entries, -, hentries⟩ := Option.bind_eq_some_iff.mp hv
      exact MarkReader.settled_of_mark? hentries
    · cases hm
  · cases hm

/-- What holds of annotations whatever their identifiers holds of them under other identifiers. -/
theorem forall_identified {P : Mark (Exact N) → Prop} (hP : ∀ m id, P m → P { m with id }) {ls : List (Mark (Exact N))}
    (hls : ∀ m ∈ ls, P m) (h : List.Forall₂ Mark.Identified ls ms) : ∀ m ∈ ms, P m := by
  induction h with
  | nil => nofun
  | cons hm _ ih =>
    obtain ⟨id, rfl, -⟩ := hm
    simp only [List.mem_cons, forall_eq_or_imp] at hls ⊢
    exact ⟨hP _ id hls.1, ih hls.2⟩

/-- Annotations that stand page by page are those of the first page, those of the second and so on. -/
theorem flatMap_filter_page {ts : List (Target (Exact N))} (hn : (ts.map Target.number).Nodup)
    {f : Target (Exact N) → List (Mark (Exact N))} (hf : ∀ t ∈ ts, ∀ m ∈ f t, m.page = t.number)
    (hms : List.Forall₂ Mark.Identified (ts.flatMap f) ms) :
    (ts.flatMap fun t => ms.filter fun m => m.page = t.number) = ms := by
  induction ts generalizing ms with
  | nil =>
    cases hms
    rfl
  | cons t ts ih =>
    rw [List.map_cons, List.nodup_cons] at hn
    obtain ⟨first, rest, rfl, hfirst, hrest⟩ : ∃ first rest, ms = first ++ rest ∧
        List.Forall₂ Mark.Identified (f t) first ∧ List.Forall₂ Mark.Identified (ts.flatMap f) rest := by
      rw [List.flatMap_cons] at hms
      refine ⟨ms.take (f t).length, ms.drop (f t).length, (List.take_append_drop _ _).symm, ?_, ?_⟩
      · exact (List.forall₂_take_append _ _ _ hms.flip).flip
      · exact (List.forall₂_drop_append _ _ _ hms.flip).flip
    have hhere : ∀ m ∈ first, m.page = t.number := forall_identified (fun _ _ h => h) (hf t (by simp)) hfirst
    have hthere : ∀ u ∈ ts, u.number ≠ t.number := fun u hu heq => hn.1 (heq ▸ List.mem_map_of_mem hu)
    have hlater : ∀ m ∈ rest, m.page ≠ t.number := by
      refine forall_identified (fun _ _ h => h) (fun m hm => ?_) hrest
      obtain ⟨u, hu, hmu⟩ := List.mem_flatMap.mp hm
      rw [hf u (by simp [hu]) m hmu]
      exact hthere u hu
    have hkeep : first.filter (fun m => m.page = t.number) = first :=
      List.filter_eq_self.mpr fun m hm => decide_eq_true (hhere m hm)
    have hdrop : rest.filter (fun m => m.page = t.number) = [] :=
      List.filter_eq_nil_iff.mpr fun m hm => by simpa using hlater m hm
    have hothers : ∀ u ∈ ts, (first ++ rest).filter (fun m => m.page = u.number) =
        rest.filter fun m => m.page = u.number := by
      intro u hu
      have hnone : first.filter (fun m => m.page = u.number) = [] :=
        List.filter_eq_nil_iff.mpr fun m hm => by simpa [hhere m hm] using (hthere u hu).symm
      rw [List.filter_append, hnone, List.nil_append]
    rw [List.flatMap_cons, List.filter_append, hkeep, hdrop, List.append_nil, List.flatMap_congr hothers]
    rw [ih hn.2 (fun u hu => hf u (by simp [hu])) hrest]

/-- The streams of content of a page that was cleared have no tag. -/
theorem cleared_untagged {keys : List String} (h : Extends keys d d') {es es' : Dict (Exact N)}
    (hc : es'.get? "Contents" = (clearedEntries d es).get? "Contents") :
    ∀ id ∈ Layer.streams d' es', Layer.tag? d' id = none := by
  intro id hid
  rw [streams_of_cleared (fun hsame => Layer.streams_extends h hsame) hc] at hid
  rw [Layer.tag?_extends h]
  exact Option.isNone_iff_eq_none.mp (List.mem_filter.mp hid).2

/-- Settled annotations that were saved on a page are read from it as they are. -/
theorem Annotated.pageMarks {t : Target (Exact N)} {home : ObjectId} {es es' : Dict (Exact N)} {keys : List String}
    (he : Extends keys d d') (hl : d'.locate t.id = .ok (home, .dict es')) (h : Annotated .default d t es ms d' es')
    (hms : ∀ m ∈ ms, m.Settled ∧ m.page = t.number) : d'.pageMarks t.number t.id t.frame = ms := by
  obtain ⟨⟨ids, hobjects, hannots⟩, hcontents⟩ := h
  have hall : objectMarks ms = ms := List.filter_eq_self.mpr fun m hm => by simpa using (hms m hm).1.kind
  have huntagged : ∀ id ∈ Layer.streams d' es', Layer.tag? d' id ≠ some (Syntax.ascii Layer.textTag) := by
    intro id hid
    rw [cleared_untagged he hcontents id hid]
    nofun
  have hread : ms.filterMap (fun m => MarkReader.mark? .empty t.frame t.number
      (objectEntries .default t.id t.frame m t.id)) = ms := by
    rw [List.filterMap_congr (g := some) fun m hm => ?_, List.filterMap_some]
    rw [← (hms m hm).2]
    exact mark?_settled (hms m hm).1
  simp only [Document.pageMarks, getDict?_eq_some.mpr ⟨home, hl⟩, layer_eq_nil huntagged, List.append_nil]
  rw [objects_alike t.number hobjects hannots, hall, hread]

/-- Annotations that were read from a document without recognised text, saved in it and read again are the same. -/
theorem marks_resave (ht : d.TreeSound) (hn : d.Numbered) (hlayers : d.Unlayered) {w r : Document (Exact N)}
    (hms : List.Forall₂ Mark.Identified d.marks ms) (hs : d.save .default ms = .ok w) (hr : w.Reloads r) :
    r.marks = ms := by
  have hmarks := marks_on_targets (d := d) rfl fun _ _ => rfl
  have hpage : ∀ t ∈ targets d, ∀ m ∈ d.pageMarks t.number t.id t.frame, m.Settled ∧ m.page = t.number :=
    fun t ht => pageMarks_settled hlayers (id_mem_pages ht)
  rw [hmarks] at hms
  have hsettled : ∀ m ∈ ms, m.Settled := by
    refine forall_identified (fun m id hm => hm.withId id) (fun m hm => ?_) hms
    obtain ⟨t, ht, hmt⟩ := List.mem_flatMap.mp hm
    exact (hpage t ht m hmt).1
  have hnone : layerMarks ms = [] :=
    List.filter_eq_nil_iff.mpr fun m hm => by simpa using (hsettled m hm).kind
  obtain ⟨d', rfl, hext, hall⟩ := save_extends ht hn hnone hs
  obtain ⟨htree, hpages⟩ := hext.tree unread_savedKeys ht
  have hframe : ∀ p ∈ d.pages, d'.frame p = d.frame p := by
    intro p hp
    obtain ⟨home, es, hl⟩ := ht.pages_homes.2 p hp
    exact hext.frame unread_savedKeys hl
  have hnumbers : ((targets d).map Target.number).Nodup := by
    rw [← framedNumbers_eq]
    exact (framedNumbers_sorted d).imp ne_of_lt
  rw [hr.agree.marks d'.reachable_region htree, marks_on_targets hpages hframe]
  refine Eq.trans (List.flatMap_congr fun t htarget => ?_)
    (flatMap_filter_page hnumbers (fun t ht m hm => (hpage t ht m hm).2) hms)
  obtain ⟨home, es, hl⟩ := ht.pages_homes.2 t.id (id_mem_pages htarget)
  obtain ⟨es', hs', hannotated⟩ := hall t htarget home es hl
  have hl' : d'.locate t.id = .ok (home, .dict es') :=
    locate_of_home? (hext.home? (home?_eq_some.mpr ⟨_, hl⟩)) hs'
  refine hannotated.pageMarks hext hl' fun m hm => ?_
  obtain ⟨hmem, hnumber⟩ := List.mem_filter.mp hm
  exact ⟨hsettled m hmem, of_decide_eq_true hnumber⟩

/-- A page with a text box and a highlight that others wrote, and a page without annotations. -/
def foreignNotes : Document (Exact .plain) :=
  let parent : String × Object (Exact .plain) := ("Parent", .ref ⟨2, 0⟩)
  pagesWith [parent, ("Annots", .array [.ref ⟨6, 0⟩, .ref ⟨7, 0⟩])] [parent, ("Contents", .ref ⟨5, 0⟩)] "" [
    (⟨6, 0⟩, .ofEntries [("Subtype", .nameOf "FreeText"),
      ("Rect", .array [.int 90, .int 80, .int 30, .int 20]), ("Contents", .string [0xFE, 0xFF, 0x20, 0xAC] false),
      ("DA", .string (Syntax.ascii "1 0 rg") false),
      ("DS", .string (Syntax.ascii "font-family: Courier ;font-weight:600") false)]),
    (⟨7, 0⟩, .ofEntries [("Subtype", .nameOf "Highlight"), ("C", .array [.int 1]),
      ("Rect", .array [.int 30, .int 20, .int 90, .int 80])])]

theorem numbered_of_objects (h : ∀ e ∈ d.objects, e.1.number ≤ d.maxNumber) : d.Numbered := by
  intro id v hs
  obtain ⟨e, he, rfl⟩ := Option.map_eq_some_iff.mp hs
  have hid : e.1 = id := by simpa using List.find?_some he
  exact hid ▸ h e (List.mem_of_find?_eq_some he)

/-- A document without tags in its streams has no streams of recognised text. -/
theorem unlayered_of_tags (h : ∀ p ∈ d.pages, ∀ id ∈ Layer.streams d ((d.getDict? p).getD []),
    Layer.tag? d id ≠ some (Syntax.ascii Layer.textTag)) : d.Unlayered := by
  intro p hp es hes id hid
  refine h p hp id ?_
  rwa [hes]

theorem foreignNotes_tree : foreignNotes.TreeSound := pagesWith_tree (by rfl) (by rfl)

theorem marks_resave_foreign : foreignNotes.TreeSound ∧ foreignNotes.Numbered ∧ foreignNotes.Unlayered ∧
    foreignNotes.marks.length = 2 ∧ List.Forall₂ Mark.Identified foreignNotes.marks foreignNotes.marks ∧
    ∃ w, foreignNotes.save .default foreignNotes.marks = .ok w ∧ w.Reloads w ∧ w.marks = foreignNotes.marks := by
  have hnumbered : foreignNotes.Numbered := numbered_of_objects (by decide +kernel)
  have hlayers : foreignNotes.Unlayered := unlayered_of_tags (by decide +kernel)
  have hlength : foreignNotes.marks.length = 2 := by decide +kernel
  have hsame : List.Forall₂ Mark.Identified foreignNotes.marks foreignNotes.marks :=
    List.forall₂_same.mpr fun m _ => .refl m
  have hok : (foreignNotes.save .default foreignNotes.marks).toOption.isSome = true := by decide +kernel
  cases hs : foreignNotes.save .default foreignNotes.marks with
  | error e =>
    rw [hs] at hok
    cases hok
  | ok w =>
    have hself : w.Reloads w := ⟨rfl, fun _ _ => rfl⟩
    exact ⟨foreignNotes_tree, hnumbered, hlayers, hlength, hsame, w, rfl, hself,
      marks_resave foreignNotes_tree hnumbered hlayers hsame hs hself⟩

/-- Two pages with a highlight each, the second of which is under a number above the highest one in use. -/
def misnumbered : Document (Exact .plain) :=
  let highlight : Object (Exact .plain) := .ofEntries [("Subtype", .nameOf "Highlight"),
    ("Rect", .array [.int 30, .int 20, .int 90, .int 80])]
  let page : Object (Exact .plain) := .ofEntries [("Type", .nameOf "Page"), ("Parent", .ref ⟨2, 0⟩),
    ("Annots", .array [.ref ⟨4, 0⟩])]
  { objects := [
      (⟨1, 0⟩, .ofEntries [("Type", .nameOf "Catalog"), ("Pages", .ref ⟨2, 0⟩)]),
      (⟨2, 0⟩, .ofEntries [("Type", .nameOf "Pages"), ("Kids", .array [.ref ⟨3, 0⟩, .ref ⟨7, 0⟩]),
        ("MediaBox", .array [.int 0, .int 0, .int 300, .int 300])]),
      (⟨3, 0⟩, page), (⟨4, 0⟩, highlight), (⟨7, 0⟩, page)]
    trailer := Dict.ofList [("Root", .ref ⟨1, 0⟩)]
    maxNumber := 5
    streamed := false }

theorem misnumbered_tree : misnumbered.TreeSound := by
  refine ⟨fun root hroot => ⟨[⟨3, 0⟩, ⟨7, 0⟩], [⟨3, 0⟩, ⟨7, 0⟩], ?_, ?_⟩⟩
  · obtain rfl : (⟨2, 0⟩ : ObjectId) = root := Option.some.inj hroot
    exact @Walk.page _ _ (.ref ⟨3, 0⟩) [.ref ⟨7, 0⟩] [] _ _ _ rfl (@Walk.page _ _ (.ref ⟨7, 0⟩) [] [] _ _ _ rfl .done)
  · decide +kernel

/-- A page under a number above the highest one in use is lost to an annotation that is added under its number. -/
theorem marks_resave_misnumbered : misnumbered.TreeSound ∧ misnumbered.Unlayered ∧
    List.Forall₂ Mark.Identified misnumbered.marks misnumbered.marks ∧
    ∃ w, misnumbered.save .default misnumbered.marks = .ok w ∧ w.Reloads w ∧ w.marks ≠ misnumbered.marks := by
  have hlayers : misnumbered.Unlayered := unlayered_of_tags (by decide +kernel)
  have hlength : misnumbered.marks.length = 2 := by decide +kernel
  have hread : ((misnumbered.save .default misnumbered.marks).toOption.map fun w => w.marks.length) = some 1 := by
    decide +kernel
  cases hs : misnumbered.save .default misnumbered.marks with
  | error e =>
    rw [hs] at hread
    cases hread
  | ok w =>
    rw [hs] at hread
    refine ⟨misnumbered_tree, hlayers, List.forall₂_same.mpr fun m _ => .refl m, w, rfl, ⟨rfl, fun _ _ => rfl⟩, ?_⟩
    intro hsame
    have hone : w.marks.length = 1 := Option.some.inj hread
    rw [hsame, hlength] at hone
    cases hone

end Document

end Marginalia

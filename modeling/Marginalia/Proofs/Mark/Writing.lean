import Mathlib.Data.List.Forall2
import Marginalia.Proofs.Mark.Clearing
import Marginalia.Proofs.Mark.Drawing

/-!
What a document has after annotations were saved in it, page by page.
-/

namespace Marginalia

namespace MarkWriter

open Document

variable {α : Type} [Scalar α]

/-- The annotations that have objects of their own. -/
def objectMarks (ms : List (Mark α)) : List (Mark α) := ms.filter fun m => m.kind != .ocrText

/-- The annotations that are drawn in the content of their page. -/
def layerMarks (ms : List (Mark α)) : List (Mark α) := ms.filter fun m => m.kind == .ocrText

def freeTextEntries (page : ObjectId) (frame : PageFrame α) (m : Mark α) (box : ViewerBox α)
    (appearance : ObjectId) : Dict α :=
  let size : α := Resolution.fontPoints m.fontSize
  Dict.ofList [
    ("Type", .nameOf "Annot"),
    ("Subtype", .nameOf "FreeText"),
    ("Rect", rectObject (frame.rectToPage box)),
    ("Contents", textObject m.content),
    ("DA", literal (DefaultAppearance.render size m.color)),
    ("DS", literal (DefaultStyle.render m.fontFamily size m.bold m.color)),
    ("NM", literal m.id.text),
    ("F", .int 4),
    ("P", .ref page),
    ("Border", .array [.int 0, .int 0, .int 0]),
    ("AP", .ofEntries [("N", .ref appearance)])]

/-- The subtype and the colour that a highlight or an underline is written with. -/
def looks (m : Mark α) : String × Color :=
  match m.kind with
  | .underline => ("Underline", Color.red_)
  | _ => ("Highlight", m.color)

def markupEntries (page : ObjectId) (frame : PageFrame α) (m : Mark α) (box : ViewerBox α) : Dict α :=
  let rect := frame.rectToPage box
  Dict.ofList [
    ("Type", .nameOf "Annot"),
    ("Subtype", .nameOf (looks m).1),
    ("Rect", rectObject rect),
    ("QuadPoints", .array (rect.quadPoints.map real)),
    ("C", .array (colorObjects (looks m).2)),
    ("Contents", textObject m.content),
    ("NM", literal m.id.text),
    ("F", .int 4),
    ("P", .ref page)]

/-- The dictionary of an annotation; the one of a free text refers to what it is drawn with. -/
def objectEntries (o : SaveOptions α) (page : ObjectId) (frame : PageFrame α) (m : Mark α)
    (appearance : ObjectId) : Dict α :=
  match m.kind with
  | .freeText => freeTextEntries page frame m (m.box.unscaled o.effectiveScale) appearance
  | _ => markupEntries page frame m (m.box.unscaled o.effectiveScale)

theorem addMarkup_eq (d : Document α) (page : ObjectId) (frame : PageFrame α) (m : Mark α)
    (box : ViewerBox α) :
    addMarkup d page frame m box = d.add (.dict (markupEntries page frame m box)) := by
  unfold addMarkup markupEntries looks
  cases m.kind <;> rfl

theorem addAppearance_grows (d : Document α) (font : FontSource) (m : Mark α) (rect : PageRect α)
    (size : α) : Grows d (addAppearance d font m rect size).1 :=
  ((font.dictionary_grows d m.bold).trans (.add _ _ _)).trans (.add _ _ _)

/-- A free text is added with the form that it is drawn with. -/
theorem addFreeText_eq {d d' : Document α} {fonts : FontChain} {page : ObjectId}
    {frame : PageFrame α} {m : Mark α} {box : ViewerBox α} {id : ObjectId}
    (h : addFreeText d fonts page frame m box = .ok (d', id)) :
    ∃ font drawn, drawn = addAppearance d font m (frame.rectToPage box) (Resolution.fontPoints m.fontSize) ∧
      (d', id) = drawn.1.add (.dict (freeTextEntries page frame m box drawn.2)) := by
  simp only [addFreeText, bind, Except.bind] at h
  cases hf : fonts.resolve m.fontFamily m.content with
  | error e =>
    rw [hf] at h
    cases h
  | ok font =>
    rw [hf] at h
    exact ⟨font, _, rfl, (Except.ok.inj h).symm⟩

/-- Adds the object of one annotation. -/
def addObject (o : SaveOptions α) (page : ObjectId) (frame : PageFrame α) (d : Document α)
    (m : Mark α) : Except DocumentError (Document α × ObjectId) :=
  match m.kind with
  | .freeText => addFreeText d o.fonts page frame m (m.box.unscaled o.effectiveScale)
  | _ => .ok (addMarkup d page frame m (m.box.unscaled o.effectiveScale))

theorem addObjects_cons (o : SaveOptions α) (page : ObjectId) (frame : PageFrame α) (d : Document α)
    (m : Mark α) (ms : List (Mark α)) :
    addObjects o page frame d (m :: ms) = (addObject o page frame d m).bind fun found =>
      (addObjects o page frame found.1 ms).bind fun rest => .ok (rest.1, found.2 :: rest.2) := by
  rw [addObjects, addObject]
  cases m.kind <;> rfl

/-- That the dictionary of an annotation was added under a number. -/
def ObjectIn (low : Nat) (o : SaveOptions α) (page : ObjectId) (frame : PageFrame α) (d : Document α)
    (m : Mark α) (id : ObjectId) : Prop :=
  Fresh low d id ∧
    ∃ appearance, d.stored? id = some (.dict (objectEntries o page frame m appearance))

theorem ObjectIn.edit {low : Nat} {o : SaveOptions α} {page : ObjectId} {frame : PageFrame α}
    {d d' : Document α} {m : Mark α} {id : ObjectId} {K : ObjectId → Bytes → Prop}
    (h : ObjectIn low o page frame d m id) (he : Edit K d d') (hk : PrivateUpTo low K) :
    ObjectIn low o page frame d' m id := by
  obtain ⟨hfresh, appearance, hs⟩ := h
  exact ⟨hfresh.edit he, appearance, (hfresh.stored he hk).trans hs⟩

theorem addObject_spec {low : Nat} {o : SaveOptions α} {page : ObjectId} {frame : PageFrame α}
    {m : Mark α} {d d' : Document α} {id : ObjectId}
    (h : addObject o page frame d m = .ok (d', id)) (hlow : low ≤ d.maxNumber) :
    Grows d d' ∧ ObjectIn low o page frame d' m id := by
  have hadded : ∃ d₁ appearance, Grows d d₁ ∧
      (d', id) = d₁.add (.dict (objectEntries o page frame m appearance)) := by
    unfold addObject at h
    unfold objectEntries
    cases hkind : m.kind with
    | freeText =>
      rw [hkind] at h
      obtain ⟨font, drawn, rfl, hadd⟩ := addFreeText_eq h
      exact ⟨_, _, addAppearance_grows d font m _ _, hadd⟩
    | highlight | underline | ocrText =>
      rw [hkind] at h
      refine ⟨d, default, .refl _ d, ?_⟩
      rw [← addMarkup_eq]
      exact (Except.ok.inj h).symm
  obtain ⟨d₁, appearance, hedit, hadd⟩ := hadded
  have hlow₁ : low ≤ d₁.maxNumber := Nat.le_trans hlow hedit.maxNumber
  obtain ⟨rfl, rfl⟩ := Prod.mk.inj hadd
  exact ⟨hedit.trans (.add _ _ _), .add hlow₁ _, appearance, stored?_add_self _ _⟩

/-- Annotation objects are added in the order of the annotations. -/
theorem addObjects_spec {low : Nat} {o : SaveOptions α} {page : ObjectId} {frame : PageFrame α}
    {ms : List (Mark α)} {d d' : Document α} {ids : List ObjectId}
    (h : addObjects o page frame d ms = .ok (d', ids)) (hlow : low ≤ d.maxNumber) :
    Grows d d' ∧ List.Forall₂ (ObjectIn low o page frame d') ms ids := by
  induction ms generalizing d d' ids with
  | nil =>
    cases h
    exact ⟨.refl _ d, .nil⟩
  | cons m ms ih =>
    rw [addObjects_cons] at h
    cases hm : addObject o page frame d m with
    | error e =>
      rw [hm] at h
      cases h
    | ok found =>
      obtain ⟨d₁, id⟩ := found
      cases hrest : addObjects o page frame d₁ ms with
      | error e =>
        simp only [hm, hrest, Except.bind] at h
        cases h
      | ok rest =>
        simp only [hm, hrest, Except.bind] at h
        cases h
        obtain ⟨hedit, hobject⟩ := addObject_spec hm hlow
        obtain ⟨hedit', hobjects⟩ := ih hrest (Nat.le_trans hlow hedit.maxNumber)
        exact ⟨hedit.trans hedit', .cons (hobject.edit hedit' fun _ _ hf => hf.elim) hobjects⟩

/-- What recognised text on a page is made of. -/
structure LayerParts (α : Type) where
  fonts : List FontSource
  program : List (Instruction α)
  guard : ObjectId
  text : ObjectId
  resources : Dict α
  fontEntries : Dict α

/-- The whole program of recognised text. -/
def LayerParts.whole (parts : LayerParts α) : List (Instruction α) :=
  layerOpening ++ parts.program ++ [⟨"ET", []⟩, ⟨"Q", []⟩]

/-- The graphics state that recognised text is drawn in. -/
def layerState : Object α := .ofEntries [("Type", .nameOf "ExtGState"), ("ca", real layerOpacity)]

/-- The entries of a page whose own content has recognised text around it. The resources are a copy of `resources`,
and the categories that are added to are copies of those of `base`. -/
structure HasLayer (low : Nat) (o : SaveOptions α) (frame : PageFrame α) (resources : Dict α)
    (base : String → Dict α) (own : List ObjectId) (ms : List (Mark α)) (d : Document α) (es : Dict α)
    (parts : LayerParts α) : Prop where
  plan : plan o frame [] ms = .ok (parts.fonts, parts.program)
  contents : es.get? "Contents" = some (refs (parts.guard :: own ++ [parts.text]))
  guardFresh : Fresh low d parts.guard
  guard : d.stored? parts.guard = some (taggedStream Layer.guardTag (Syntax.ascii "q\n"))
  textFresh : Fresh low d parts.text
  text : d.stored? parts.text =
    some (taggedStream Layer.textTag (0x0A :: printProgram parts.whole))
  named : es.get? "Resources" = some (.dict parts.resources)
  fonts : parts.resources.get? "Font" = some (.dict parts.fontEntries)
  fontsIn : FontsIn low d (base "Font") parts.fontEntries parts.fonts
  states : parts.resources.get? "ExtGState" = some (.dict ((base "ExtGState").set layerStateName layerState))
  other : ∀ key, key ∉ ["Font", "ExtGState"].map Syntax.ascii →
    parts.resources.find? key = resources.find? key

/-- That two dictionaries have the same entries that saving sets. -/
def SameEntries (es fs : Dict α) : Prop := ∀ key ∈ pageKeys, fs.get? key = es.get? key

theorem HasLayer.edit {low : Nat} {o : SaveOptions α} {frame : PageFrame α} {resources : Dict α}
    {base : String → Dict α} {own : List ObjectId} {ms : List (Mark α)} {d d' : Document α} {es es' : Dict α}
    {parts : LayerParts α} {K : ObjectId → Bytes → Prop}
    (h : HasLayer low o frame resources base own ms d es parts) (he : Edit K d d')
    (hk : PrivateUpTo low K) (hes : SameEntries es es') :
    HasLayer low o frame resources base own ms d' es' parts where
  plan := h.plan
  contents := (hes _ (by decide)).trans h.contents
  guardFresh := h.guardFresh.edit he
  guard := (h.guardFresh.stored he hk).trans h.guard
  textFresh := h.textFresh.edit he
  text := (h.textFresh.stored he hk).trans h.text
  named := (hes _ (by decide)).trans h.named
  fonts := h.fonts
  fontsIn := h.fontsIn.edit he hk
  states := h.states
  other := h.other

/-- Recognised text is added to a page whose entries are `es`. -/
theorem addLayer_spec {low : Nat} {o : SaveOptions α} {page home : ObjectId} {frame : PageFrame α}
    {resources : Dict α} {ms : List (Mark α)} {d d' : Document α} {es : Dict α}
    (h : addLayer o d page frame resources ms = .ok d') (hlow : low ≤ d.maxNumber)
    {K : ObjectId → Bytes → Prop} (hk : PrivateUpTo low K)
    (hset : ∀ key ∈ pageKeys, K home (Syntax.ascii key))
    (hl : ∀ d₁, Grows d d₁ → d₁.locate page = .ok (home, .dict es))
    {own : List ObjectId} (hown : ∀ d₁, Grows d d₁ → Layer.streams d₁ es = own) :
    ∃ es' : Dict α, ∃ parts, Edit K d d' ∧ d'.stored? home = some (.dict es') ∧
      HasLayer low o frame resources (category d resources) own ms d' es' parts ∧
      es'.get? "Annots" = es.get? "Annots" := by
  simp only [addLayer, bind, Except.bind] at h
  split at h
  · cases h
  rename_i s hs
  have hnamed : Named low (category d resources "Font")
      ⟨d, category d resources "Font", [], layerOpening⟩ [] :=
    ⟨rfl, hlow, by simp, fun _ _ => rfl⟩
  obtain ⟨fonts, program, hplan, hprogram, hnamed', hedit⟩ := hnamed.showAll hs
  simp only at hprogram hedit
  let guarded := s.document.add (taggedStream Layer.guardTag (Syntax.ascii "q\n"))
  let written := guarded.1.add (taggedStream Layer.textTag
    (0x0A :: printProgram (s.program ++ [⟨"ET", []⟩, ⟨"Q", []⟩])))
  let states := (category d resources "ExtGState").set layerStateName layerState
  let resources' := (resources.set "Font" (.dict s.fonts)).set "ExtGState" (.dict states)
  let es' := (es.set "Contents" (refs (guarded.2 :: own ++ [written.2]))).set "Resources"
    (.dict resources')
  have hguarded : Grows s.document guarded.1 := .add _ _ _
  have hwritten : Grows guarded.1 written.1 := .add _ _ _
  have hall : Grows d written.1 := hedit.trans (hguarded.trans hwritten)
  have hd' : d' = written.1.put home (.dict es') := by
    have hstreams : Layer.streams written.1 es = own := hown _ hall
    rw [entriesOn_eq (hl _ hall)] at h
    simp only at h
    rw [updatePage_eq (hl _ hall)] at h
    simp only [← Except.ok.inj h, es', ← hstreams]
    rfl
  have hput : Edit K written.1 d' := by
    rw [hd']
    refine .put (stored?_of_locate (hl _ hall)) ⟨_, hset "Contents" (by decide)⟩ fun key hkey => ?_
    have hcontents : Syntax.ascii "Contents" ≠ key := fun he =>
      hkey (he ▸ hset "Contents" (by decide))
    have hresources : Syntax.ascii "Resources" ≠ key := fun he =>
      hkey (he ▸ hset "Resources" (by decide))
    simp only [es', Dict.set, Dict.find?_setBytes, hcontents, hresources, if_false]
  have hguardFresh : Fresh low guarded.1 guarded.2 := .add hnamed'.low_le _
  have htextFresh : Fresh low written.1 written.2 :=
    .add (Nat.le_trans hnamed'.low_le hguarded.maxNumber) _
  refine ⟨es', ⟨fonts, program, guarded.2, written.2, resources', s.fonts⟩, (hall.edit K).trans hput, ?_, ?_, ?_⟩
  · rw [hd', stored?_put_self]
  · exact
      { plan := hplan
        contents := by rw [Dict.get?_set_of_ne _ _ (by decide), Dict.get?_set_self]
        guardFresh := (hguardFresh.edit hwritten).edit hput
        guard := by
          rw [hguardFresh.stored ((hwritten.edit K).trans hput) hk]
          exact stored?_add_self _ _
        textFresh := htextFresh.edit hput
        text := by
          rw [htextFresh.stored hput hk, LayerParts.whole, ← hprogram]
          exact stored?_add_self _ _
        named := Dict.get?_set_self _ _ _
        fonts := by rw [Dict.get?_set_of_ne _ _ (by decide), Dict.get?_set_self]
        fontsIn := hnamed'.fontsIn.edit ((hguarded.edit K).trans ((hwritten.edit K).trans hput)) hk
        states := Dict.get?_set_self _ _ _
        other := fun key hkey => by
          have hfont : Syntax.ascii "Font" ≠ key := fun he => hkey (by simp [← he])
          have hstate : Syntax.ascii "ExtGState" ≠ key := fun he => hkey (by simp [← he])
          simp only [resources', Dict.set, Dict.find?_setBytes, hfont, hstate, if_false] }
  · rw [Dict.get?_set_of_ne _ _ (by decide), Dict.get?_set_of_ne _ _ (by decide)]

/-- The entries `es'` of a page after annotations were saved on it, the entries before being `es` in the
document `d₀`. -/
structure PageWritten (o : SaveOptions α) (d₀ : Document α) (t : Target α) (es : Dict α)
    (ms : List (Mark α)) (d : Document α) (es' : Dict α) : Prop where
  objects : ∃ ids, List.Forall₂ (ObjectIn d₀.maxNumber o t.id t.frame d) (objectMarks ms) ids ∧
    es'.get? "Annots" = if ids.isEmpty then none else some (refs ids)
  layer : (layerMarks ms = [] ∧ es'.get? "Contents" = (clearedEntries d₀ es).get? "Contents" ∧
      es'.get? "Resources" = es.get? "Resources") ∨
    layerMarks ms ≠ [] ∧ ∃ d₁ parts, Edit d₀.PageEntries d₀ d₁ ∧
      HasLayer d₀.maxNumber o t.frame t.resources (category d₁ t.resources) (ownStreams d₀ es)
        (layerMarks ms) d es' parts

theorem PageWritten.edit {o : SaveOptions α} {d₀ d d' : Document α} {t : Target α} {es fs fs' : Dict α}
    {ms : List (Mark α)} {K : ObjectId → Bytes → Prop} (h : PageWritten o d₀ t es ms d fs)
    (he : Edit K d d') (hk : PrivateUpTo d₀.maxNumber K) (hes : SameEntries fs fs') :
    PageWritten o d₀ t es ms d' fs' := by
  obtain ⟨⟨ids, hobjects, hannots⟩, hlayer⟩ := h
  refine ⟨⟨ids, hobjects.imp fun _ _ ho => ho.edit he hk, (hes _ (by decide)).trans hannots⟩, ?_⟩
  rcases hlayer with ⟨hnone, hc, hr⟩ | ⟨hsome, d₁, parts, he₁, hl⟩
  · exact .inl ⟨hnone, (hes _ (by decide)).trans hc, (hes _ (by decide)).trans hr⟩
  · exact .inr ⟨hsome, d₁, parts, he₁, hl.edit he hk hes⟩

/-- The entries of a page with these annotations, of which it had none. -/
def withAnnots (ids : List ObjectId) (es : Dict α) : Dict α :=
  if ids.isEmpty then es else es.set "Annots" (refs ids)

omit [Scalar α] in
theorem find?_withAnnots (ids : List ObjectId) (es : Dict α) {key : Bytes} (h : Syntax.ascii "Annots" ≠ key) :
    (withAnnots ids es).find? key = es.find? key := by
  unfold withAnnots
  split
  · rfl
  · rw [Dict.set, Dict.find?_setBytes, if_neg h]

omit [Scalar α] in
theorem get?_annots_withAnnots (ids : List ObjectId) {es : Dict α} (h : es.get? "Annots" = none) :
    (withAnnots ids es).get? "Annots" = if ids.isEmpty then none else some (refs ids) := by
  unfold withAnnots
  split
  · exact h
  · exact Dict.get?_set_self es _ _

omit [Scalar α] in
/-- The annotations of a page are set in the dictionary of it. -/
theorem setAnnots_eq {d : Document α} {page home : ObjectId} {es : Dict α}
    (hl : d.locate page = .ok (home, .dict es)) (ids : List ObjectId) :
    setAnnots d page ids = .ok (if ids.isEmpty then d else d.put home (.dict (withAnnots ids es))) := by
  unfold setAnnots
  by_cases hids : ids.isEmpty = true
  · rw [if_pos hids, if_pos hids]
  · rw [if_neg hids, if_neg hids, updatePage_eq hl, withAnnots, if_neg hids]

omit [Scalar α] in
theorem stored?_withAnnots {d : Document α} {home : ObjectId} {es : Dict α}
    (hs : d.stored? home = some (.dict es)) (ids : List ObjectId) :
    (if ids.isEmpty then d else d.put home (.dict (withAnnots ids es))).stored? home =
      some (.dict (withAnnots ids es)) := by
  by_cases hids : ids.isEmpty = true
  · rw [if_pos hids, hs, withAnnots, if_pos hids]
  · rw [if_neg hids, stored?_put_self]

omit [Scalar α] in
/-- That a page was cleared in a document that differs from a sound one only in its pages. -/
structure Ready (d₀ d : Document α) (p home : ObjectId) (es : Dict α) : Prop where
  sound : d₀.Sound
  page : p ∈ d₀.pages
  found : d₀.locate p = .ok (home, .dict es)
  edit : Edit d₀.PageEntries d₀ d
  stored : d.stored? home = some (.dict (clearedEntries d₀ es))

omit [Scalar α] in
/-- Setting the annotations of a page that was cleared: its dictionary is found where it was, and names the streams
of the page's own content. -/
theorem Ready.annotate {d₀ d d₁ : Document α} {p home : ObjectId} {es : Dict α} (h : Ready d₀ d p home es)
    (hg : Grows d d₁) (ids : List ObjectId) : ∃ d₂, d₂ = (if ids.isEmpty then d₁ else
        d₁.put home (.dict (withAnnots ids (clearedEntries d₀ es)))) ∧
      setAnnots d₁ p ids = .ok d₂ ∧
      Edit (EntriesOf d₀ [p]) d₁ d₂ ∧ Edit d₀.PageEntries d₀ d₂ ∧
      ∀ d₃, Grows d₂ d₃ → d₃.locate p = .ok (home, .dict (withAnnots ids (clearedEntries d₀ es))) ∧
        Layer.streams d₃ (withAnnots ids (clearedEntries d₀ es)) = ownStreams d₀ es := by
  have huse := h.edit.inUse (h.sound.home_inUse h.page h.found)
  have hs₁ : d₁.stored? home = some (.dict (clearedEntries d₀ es)) := (hg.stored huse).trans h.stored
  have he₁ : Edit d₀.PageEntries d₀ d₁ := h.edit.trans (hg.edit _)
  let d₂ := if ids.isEmpty then d₁ else d₁.put home (.dict (withAnnots ids (clearedEntries d₀ es)))
  have hset : EntriesOf d₀ [p] home (Syntax.ascii "Annots") :=
    ⟨⟨p, by simp, home?_eq_some.mpr ⟨_, h.found⟩⟩, by decide⟩
  have hedit : Edit (EntriesOf d₀ [p]) d₁ d₂ := by
    by_cases hids : ids.isEmpty = true
    · simp only [d₂, if_pos hids]
      exact .refl _ d₁
    · simp only [d₂, if_neg hids]
      exact .put hs₁ ⟨_, hset⟩ fun key hkey => find?_withAnnots ids _ fun heq => hkey (heq ▸ hset)
  have he₂ : Edit d₀.PageEntries d₀ d₂ := he₁.trans (hedit.mono (entriesOf_page (by simpa using h.page)))
  have hs₂ : d₂.stored? home = some (.dict (withAnnots ids (clearedEntries d₀ es))) := stored?_withAnnots hs₁ ids
  refine ⟨d₂, rfl, setAnnots_eq (h.sound.locate he₁ h.page h.found hs₁) ids, hedit, he₂, fun d₃ hg₃ => ⟨?_, ?_⟩⟩
  · exact h.sound.locate (he₂.trans (hg₃.edit _)) h.page h.found
      ((hg₃.stored (hedit.inUse (hg.inUse huse))).trans hs₂)
  · exact streams_cleared (h.sound.keeps (he₂.trans (hg₃.edit _))) h.sound.region
      (h.sound.entriesWithin h.page h.found) (find?_withAnnots ids _ (by decide))

/-- Saving the annotations of one page, which was cleared and is otherwise as it was. -/
theorem addPage_spec {o : SaveOptions α} {d₀ d d' : Document α} {t : Target α} {ms : List (Mark α)}
    {home : ObjectId} {es : Dict α} (h : Ready d₀ d t.id home es) (hadd : addPage o d t ms = .ok d') :
    ∃ es' : Dict α, Edit (EntriesOf d₀ [t.id]) d d' ∧ d'.stored? home = some (.dict es') ∧
      PageWritten o d₀ t es ms d' es' := by
  have hset : ∀ key ∈ pageKeys, EntriesOf d₀ [t.id] home (Syntax.ascii key) := fun key hkey =>
    ⟨⟨t.id, by simp, home?_eq_some.mpr ⟨_, h.found⟩⟩, List.mem_map_of_mem hkey⟩
  have hk : PrivateUpTo d₀.maxNumber (EntriesOf d₀ [t.id]) := fun id key hkey =>
    pageEntries_upTo h.sound id key (entriesOf_page (by simpa using h.page) id key hkey)
  simp only [addPage, bind, Except.bind] at hadd
  split at hadd
  · cases hadd
  rename_i found hfound
  obtain ⟨d₁, ids⟩ := found
  obtain ⟨hgrows, hobjects⟩ := addObjects_spec hfound h.edit.maxNumber
  obtain ⟨d₂, -, hd₂, hedit, he₂, hfinds⟩ := h.annotate hgrows ids
  have hedit₂ : Edit (EntriesOf d₀ [t.id]) d d₂ := (hgrows.edit _).trans hedit
  have hobjects₂ : List.Forall₂ (ObjectIn d₀.maxNumber o t.id t.frame d₂) (objectMarks ms) ids :=
    hobjects.imp fun _ _ ho => ho.edit hedit hk
  have hannots : (withAnnots ids (clearedEntries d₀ es)).get? "Annots" =
      if ids.isEmpty then none else some (refs ids) :=
    get?_annots_withAnnots ids (get?_annots_clearedEntries d₀ es)
  have hother : ∀ key, Syntax.ascii "Annots" ≠ Syntax.ascii key →
      (withAnnots ids (clearedEntries d₀ es)).get? key = (clearedEntries d₀ es).get? key := fun key hkey =>
    find?_withAnnots ids _ hkey
  simp only [hd₂] at hadd
  by_cases hlayer : layerMarks ms = []
  · have hnone : (ms.filter fun m => m.kind == .ocrText).isEmpty = true := by
      rw [← layerMarks, hlayer]
      rfl
    rw [if_pos hnone] at hadd
    cases hadd
    refine ⟨_, hedit₂, stored?_of_locate (hfinds _ (.refl _ _)).1, ⟨ids, hobjects₂, hannots⟩, .inl ⟨hlayer, ?_, ?_⟩⟩
    · exact hother _ (by decide)
    · rw [hother _ (by decide), get?_resources_clearedEntries]
  · have hsome : ¬ (ms.filter fun m => m.kind == .ocrText).isEmpty = true := by
      rw [← layerMarks, List.isEmpty_iff]
      exact hlayer
    rw [if_neg hsome] at hadd
    obtain ⟨es', parts, hedit', hs', hparts, hannots'⟩ := addLayer_spec hadd he₂.maxNumber hk hset
      (fun d₃ hg => (hfinds d₃ hg).1) fun d₃ hg => (hfinds d₃ hg).2
    refine ⟨es', hedit₂.trans hedit', hs', ⟨ids, ?_, hannots'.trans hannots⟩, .inr ⟨hlayer, d₂, parts, he₂, hparts⟩⟩
    exact hobjects₂.imp fun _ _ ho => ho.edit hedit' hk

end MarkWriter

end Marginalia

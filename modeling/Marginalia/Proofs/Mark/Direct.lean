import Marginalia.Mark.Reader
import Marginalia.Proofs.Mark.Writing

/-!
Annotation objects that were written hold all that is read from them: what they are read as depends on neither
the document around them nor the numbers that objects were given.
-/

namespace Marginalia

namespace MarkReader

variable {α : Type} {es fs : Dict α}

/-- The keys that annotations are read through. -/
def readKeys : List Bytes := ["Subtype", "Rect", "C", "Contents", "NM", "DA", "DS"].map Syntax.ascii

/-- That what is read from an annotation is the same in two dictionaries, and in both directly, not behind
references. -/
structure ReadAlike (es fs : Dict α) : Prop where
  same : ∀ key, Syntax.ascii key ∈ readKeys → fs.get? key = es.get? key
  direct : ∀ key, Syntax.ascii key ∈ readKeys → ∀ v, es.get? key = some v → v.references = []

/-- Rows of entries that dictionaries which read alike are made of. -/
inductive AlikeEntries : List (String × Object α) → List (String × Object α) → Prop where
  | nil : AlikeEntries [] []
  | read {key : String} {v : Object α} {entries entries' : List (String × Object α)}
      (direct : v.references = []) (rest : AlikeEntries entries entries') :
      AlikeEntries ((key, v) :: entries) ((key, v) :: entries')
  | unread {key : String} {v w : Object α} {entries entries' : List (String × Object α)}
      (key_not_read : Syntax.ascii key ∉ readKeys) (rest : AlikeEntries entries entries') :
      AlikeEntries ((key, v) :: entries) ((key, w) :: entries')

theorem AlikeEntries.readAlike {entries entries' : List (String × Object α)}
    (h : AlikeEntries entries entries') : ReadAlike (Dict.ofList entries) (Dict.ofList entries') := by
  induction h with
  | nil => exact ⟨fun _ _ => rfl, fun _ _ _ hv => by cases hv⟩
  | read direct _ ih =>
    refine ⟨fun key hk => ?_, fun key hk v hv => ?_⟩
    · rw [Dict.get?_ofList_cons, Dict.get?_ofList_cons, ih.same key hk]
    · rw [Dict.get?_ofList_cons] at hv
      rcases Option.or_eq_some_iff.mp hv with hrest | ⟨-, hfirst⟩
      · exact ih.direct key hk v hrest
      · split at hfirst
        · rw [← Option.some.inj hfirst, direct]
        · cases hfirst
  | unread key_not_read _ ih =>
    refine ⟨fun key hk => ?_, fun key hk v hv => ?_⟩
    · have hne : Syntax.ascii _ ≠ Syntax.ascii key := fun heq => key_not_read (heq ▸ hk)
      rw [Dict.get?_ofList_cons, Dict.get?_ofList_cons, ih.same key hk, if_neg hne, if_neg hne]
    · have hne : Syntax.ascii _ ≠ Syntax.ascii key := fun heq => key_not_read (heq ▸ hk)
      rw [Dict.get?_ofList_cons, if_neg hne, Option.or_none] at hv
      exact ih.direct key hk v hv

theorem deref_direct {v : Object α} (h : v.references = []) (d : Document α) : d.deref v = v := by
  cases v with
  | ref id => simp [Object.references] at h
  | _ => rfl

theorem text?_alike (h : ReadAlike es fs) (d d' : Document α) {key : String}
    (hk : Syntax.ascii key ∈ readKeys) : text? d' fs key = text? d es key := by
  unfold text?
  rw [h.same key hk]
  cases hv : es.get? key with
  | none => rfl
  | some v => simp only [Option.map_some, deref_direct (h.direct key hk v hv)]

variable [Scalar α]

theorem numbers?_direct {items : List (Object α)} (h : ∀ v ∈ items, v.references = []) (d d' : Document α) :
    d'.numbers? items = d.numbers? items := by
  unfold Document.numbers?
  induction items with
  | nil => rfl
  | cons v vs ih =>
    have hv := h v (by simp)
    rw [List.mapM_cons, List.mapM_cons, deref_direct hv, deref_direct hv, ih fun w hw => h w (by simp [hw])]

theorem numbers?_alike (h : ReadAlike es fs) (d d' : Document α) {key : String}
    (hk : Syntax.ascii key ∈ readKeys) : numbers? d' fs key = numbers? d es key := by
  unfold numbers?
  rw [h.same key hk]
  cases hv : es.get? key with
  | none => simp only [Option.bind_eq_bind, Option.bind_none]
  | some v =>
    have hdirect := h.direct key hk v hv
    simp only [Option.bind_eq_bind, Option.bind_some, deref_direct hdirect]
    cases v with
    | array items =>
      have hitems : ∀ w ∈ items, w.references = [] := by
        simpa only [Object.references, Object.itemReferences_eq, List.flatMap_eq_nil_iff] using hdirect
      simp only [Object.array?, Option.bind_some, numbers?_direct hitems d d']
    | _ => simp only [Object.array?, Option.bind_none]

/-- What an annotation is read as does not depend on the document. -/
theorem mark?_alike (h : ReadAlike es fs) (d d' : Document α) (frame : PageFrame α) (page : Nat) :
    mark? d' frame page fs = mark? d frame page es := by
  have hname : fs.name? "Subtype" = es.name? "Subtype" := by
    simp only [Dict.name?, h.same "Subtype" (by decide)]
  have htext : ∀ key, Syntax.ascii key ∈ readKeys → text? d' fs key = text? d es key := fun key hk =>
    text?_alike h d d' hk
  have hnumbers : ∀ key, Syntax.ascii key ∈ readKeys → numbers? d' fs key = numbers? d es key :=
    fun key hk => numbers?_alike h d d' hk
  simp only [mark?, rect?, color?, id, withStyle, text, hname, htext "Contents" (by decide),
    htext "NM" (by decide), htext "DA" (by decide), htext "DS" (by decide), hnumbers "Rect" (by decide),
    hnumbers "C" (by decide)]

end MarkReader

namespace MarkWriter

open Document MarkReader

variable {α : Type} [Scalar α]

theorem references_array_real (xs : List α) : (Object.array (xs.map real)).references = [] := by
  simp [Object.references, Object.itemReferences_eq, real]

theorem references_rectObject (r : PageRect α) : (rectObject r).references = [] :=
  references_array_real [r.left, r.bottom, r.right, r.top]

omit [Scalar α] in
theorem references_nameOf (name : String) : (Object.nameOf name : Object α).references = [] := by
  simp only [Object.nameOf, Object.references]

omit [Scalar α] in
theorem references_textObject (text : String) : (textObject text : Object α).references = [] := by
  simp only [textObject, Object.references]

omit [Scalar α] in
theorem references_literal (text : String) : (literal text : Object α).references = [] := by
  simp only [literal, Object.references]

/-- The dictionaries that a free text is written as differ only in what it is drawn with. -/
theorem readAlike_freeTextEntries (page : ObjectId) (frame : PageFrame α) (m : Mark α) (box : ViewerBox α)
    (appearance appearance' : ObjectId) : ReadAlike (freeTextEntries page frame m box appearance)
      (freeTextEntries page frame m box appearance') := by
  unfold freeTextEntries
  apply AlikeEntries.readAlike
  refine .unread (by decide) (.read (references_nameOf _) (.read (references_rectObject _) ?_))
  refine .read (references_textObject _) (.read (references_literal _) (.read (references_literal _) ?_))
  refine .read (references_literal _) (.unread (by decide) (.unread (by decide) ?_))
  exact .unread (by decide) (.unread (by decide) .nil)

theorem readAlike_markupEntries (page : ObjectId) (frame : PageFrame α) (m : Mark α) (box : ViewerBox α) :
    ReadAlike (markupEntries page frame m box) (markupEntries page frame m box) := by
  unfold markupEntries
  apply AlikeEntries.readAlike
  refine .unread (by decide) (.read (references_nameOf _) (.read (references_rectObject _) ?_))
  refine .unread (by decide) (.read (references_array_real _) (.read (references_textObject _) ?_))
  exact .read (references_literal _) (.unread (by decide) (.unread (by decide) .nil))

theorem readAlike_objectEntries (o : SaveOptions α) (page : ObjectId) (frame : PageFrame α) (m : Mark α)
    (appearance appearance' : ObjectId) :
    ReadAlike (objectEntries o page frame m appearance) (objectEntries o page frame m appearance') := by
  unfold objectEntries
  cases m.kind with
  | freeText => exact readAlike_freeTextEntries page frame m _ appearance appearance'
  | highlight | underline | ocrText => exact readAlike_markupEntries page frame m _

/-- That what is stored under a number reads like the object of an annotation. -/
def ReadsLike (o : SaveOptions α) (page : ObjectId) (frame : PageFrame α) (d : Document α) (m : Mark α)
    (id : ObjectId) : Prop :=
  ∃ fs : Dict α, d.stored? id = some (.dict fs) ∧ ReadAlike (objectEntries o page frame m page) fs

/-- Annotation objects that read like those of some annotations are read as the dictionaries of these are read in
an empty document. -/
theorem objects_alike (number : Nat) {o : SaveOptions α} {page : ObjectId} {frame : PageFrame α} {d : Document α}
    {ms : List (Mark α)} {ids : List ObjectId} {es : Dict α}
    (hobjects : List.Forall₂ (ReadsLike o page frame d) ms ids)
    (hannots : es.get? "Annots" = if ids.isEmpty then none else some (refs ids)) :
    MarkReader.objects d frame number es =
      ms.filterMap fun m => mark? .empty frame number (objectEntries o page frame m page) := by
  have hitems : MarkReader.objects d frame number es =
      (ids.map Object.ref).filterMap fun v => (d.deref v).dict?.bind (MarkReader.mark? d frame number) := by
    unfold MarkReader.objects
    rw [hannots]
    cases ids with
    | nil => rfl
    | cons id ids => rfl
  rw [hitems]
  clear hitems hannots
  induction hobjects with
  | nil => rfl
  | @cons m id ms ids hobject _ ih =>
    obtain ⟨fs, hs, halike⟩ := hobject
    have hderef : (d.deref (.ref id)).dict? = some fs := by
      simp only [deref, get?_of_stored? hs rfl, Option.getD_some, Object.dict?]
    have hread : mark? d frame number fs = mark? .empty frame number (objectEntries o page frame m page) :=
      mark?_alike halike _ _ frame number
    simp only [List.map_cons, List.filterMap_cons, hderef, Option.bind_some, hread, ih]

/-- The annotation objects of a page that annotations were saved on are read as their dictionaries are read in
an empty document. -/
theorem objects_saved (number : Nat) {low : Nat} {o : SaveOptions α} {page : ObjectId} {frame : PageFrame α}
    {d : Document α} {ms : List (Mark α)} {ids : List ObjectId} {es : Dict α}
    (hobjects : List.Forall₂ (ObjectIn low o page frame d) ms ids)
    (hannots : es.get? "Annots" = if ids.isEmpty then none else some (refs ids)) :
    MarkReader.objects d frame number es =
      ms.filterMap fun m => mark? .empty frame number (objectEntries o page frame m page) := by
  refine objects_alike number (hobjects.imp fun m id hobject => ?_) hannots
  obtain ⟨-, appearance, hs⟩ := hobject
  exact ⟨_, hs, readAlike_objectEntries o page frame m page appearance⟩

end MarkWriter

end Marginalia

import Marginalia.Proofs.Document.Extension
import Marginalia.Proofs.Mark.Direct
import Marginalia.Proofs.Mark.Saving

/-!
Saving annotations without recognised text in a document whose references may lead nowhere. A new object can come
to stand behind such a reference; none tells anything of the pages, so they keep what they had.
-/

namespace Marginalia

namespace Dict

variable {α : Type}

/-- Entries are silent that have none of the keys of the page tree. -/
theorem silent_ofList (names : List String) {entries : List (String × Object α)} (hnames : entries.map Prod.fst = names)
    (h : ∀ name ∈ names, ∀ key ∈ pathKeys, Syntax.ascii name ≠ Syntax.ascii key) : (ofList entries).Silent := by
  subst hnames
  induction entries with
  | nil => exact fun _ _ => rfl
  | cons e entries ih =>
    intro key hkey
    rw [get?_ofList_cons, ih (fun name hname => h name (by simp [hname])) key hkey,
      if_neg (h e.1 (by simp) key hkey), Option.none_or]

end Dict

theorem Object.silent_streamOf {α : Type} {entries : Dict α} (h : entries.Silent) (data : Bytes) :
    (Object.streamOf entries data).Silent := by
  have hlength : ∀ key ∈ pathKeys, Syntax.ascii "Length" ≠ Syntax.ascii key := by decide
  intro key hkey
  rw [Dict.get?_set_of_ne _ _ (hlength key hkey), h key hkey]

namespace FontSource

open Document

variable {α : Type}

theorem silent_simpleFont (baseFont : Object α) : (simpleFont baseFont).Silent :=
  Dict.silent_ofList ["Type", "Subtype", "BaseFont", "Encoding"] rfl (by decide)

/-- Writing in a font adds silent objects at most, and its dictionary is silent. -/
theorem dictionary_adds (f : FontSource) {d : Document α} (hd : d.Numbered) (bold : Bool) :
    Adds d (f.dictionary d bold).1 ∧ (f.dictionary d bold).2.Silent := by
  cases f with
  | standard family baseFont boldBaseFont => exact ⟨.refl hd, silent_simpleFont _⟩
  | cjk family baseFont ordering supplement encoding =>
    refine ⟨.add hd ?_, ?_⟩
    · exact Dict.silent_ofList ["Type", "FontName", "Flags", "FontBBox", "ItalicAngle", "Ascent", "Descent",
        "CapHeight", "StemV"] rfl (by decide)
    · exact Dict.silent_ofList ["Type", "Subtype", "BaseFont", "Encoding", "DescendantFonts"] rfl (by decide)

end FontSource

namespace MarkWriter

open Document

section Objects

variable {α : Type} [Scalar α] {d d' : Document α}

theorem addAppearance_adds (hd : d.Numbered) (font : FontSource) (m : Mark α) (rect : PageRect α) (size : α) :
    Adds d (addAppearance d font m rect size).1 := by
  obtain ⟨hfont, hsilent⟩ := font.dictionary_adds hd m.bold
  have hadded := hfont.trans (.add (v := .dict _) hfont.numbered hsilent)
  refine hadded.trans (.add hadded.numbered (Object.silent_streamOf ?_ _))
  exact Dict.silent_ofList ["Type", "Subtype", "BBox", "Resources"] rfl (by decide)

theorem silent_objectEntries (o : SaveOptions α) (page : ObjectId) (frame : PageFrame α) (m : Mark α)
    (appearance : ObjectId) : (objectEntries o page frame m appearance).Silent := by
  unfold objectEntries
  cases m.kind with
  | freeText =>
    exact Dict.silent_ofList ["Type", "Subtype", "Rect", "Contents", "DA", "DS", "NM", "F", "P", "Border", "AP"] rfl
      (by decide)
  | highlight | underline | ocrText =>
    exact Dict.silent_ofList ["Type", "Subtype", "Rect", "QuadPoints", "C", "Contents", "NM", "F", "P"] rfl
      (by decide)

/-- An annotation is added with what it is drawn with, and nothing else. -/
theorem addObject_adds {o : SaveOptions α} {page : ObjectId} {frame : PageFrame α} {m : Mark α} {id : ObjectId}
    (hd : d.Numbered) (h : addObject o page frame d m = .ok (d', id)) : Adds d d' := by
  have hsilent := silent_objectEntries o page frame m
  unfold addObject at h
  unfold objectEntries at hsilent
  cases hkind : m.kind with
  | freeText =>
    rw [hkind] at h hsilent
    obtain ⟨font, drawn, rfl, hadd⟩ := addFreeText_eq h
    have hdrawn := addAppearance_adds hd font m (frame.rectToPage (m.box.unscaled o.effectiveScale))
      (Resolution.fontPoints m.fontSize)
    obtain ⟨rfl, rfl⟩ := Prod.mk.inj hadd
    exact hdrawn.trans (.add (v := .dict _) hdrawn.numbered (hsilent _))
  | highlight | underline | ocrText =>
    rw [hkind] at h hsilent
    rw [addMarkup_eq] at h
    obtain ⟨rfl, rfl⟩ := Prod.mk.inj (Except.ok.inj h)
    exact .add (v := .dict _) hd (hsilent page)

theorem addObjects_adds {o : SaveOptions α} {page : ObjectId} {frame : PageFrame α} {ms : List (Mark α)}
    {ids : List ObjectId} (hd : d.Numbered) (h : addObjects o page frame d ms = .ok (d', ids)) : Adds d d' := by
  induction ms generalizing d ids with
  | nil =>
    cases h
    exact .refl hd
  | cons m ms ih =>
    rw [addObjects_cons] at h
    cases hm : addObject o page frame d m with
    | error e =>
      rw [hm] at h
      cases h
    | ok found =>
      have hfirst := addObject_adds hd hm
      cases hrest : addObjects o page frame found.1 ms with
      | error e =>
        simp only [hm, hrest, Except.bind] at h
        cases h
      | ok rest =>
        simp only [hm, hrest, Except.bind] at h
        cases h
        exact hfirst.trans (ih hfirst.numbered hrest)

end Objects

section Pages

variable {α : Type} {d₀ d d' : Document α}

theorem layerMarks_filter {ms : List (Mark α)} (h : layerMarks ms = []) (P : Mark α → Bool) :
    layerMarks (ms.filter P) = [] := by
  rw [layerMarks, List.filter_comm, ← layerMarks, h, List.filter_nil]

/-- A document under way of being saved: the entries of its pages that saving sets may differ, and silent objects
were added. -/
structure UnderWay (d₀ d : Document α) : Prop where
  edit : Edit d₀.PageEntries d₀ d
  extends_ : Extends pageKeys d₀ d
  numbered : d.Numbered

theorem unread_pageKeys : Unread pageKeys := by
  unfold Unread
  decide

/-- What saving sets is in dictionaries whose numbers are in use. -/
theorem pageEntries_inUse (hd : d₀.Numbered) : PrivateUpTo d₀.maxNumber d₀.PageEntries := by
  rintro id key ⟨⟨p, hp, hhome⟩, -⟩
  obtain ⟨v, hl⟩ := home?_eq_some.mp hhome
  exact hd id v (stored?_of_locate hl)

namespace UnderWay

variable {p home : ObjectId}

theorem refl (hd : d₀.Numbered) : UnderWay d₀ d₀ := ⟨.refl _ d₀, .refl pageKeys d₀, hd⟩

theorem adds (h : UnderWay d₀ d) (ha : Adds d d') : UnderWay d₀ d' where
  edit := h.edit.trans (ha.grows.edit _)
  extends_ := h.extends_.trans unread_pageKeys (ha.extends_.mono (by simp))
  numbered := ha.numbered

theorem put (h : UnderWay d₀ d) (hp : p ∈ d₀.pages) (hhome : d₀.home? p = some home) {es fs : Dict α}
    (hs : d.stored? home = some (.dict es)) (hef : ∀ key ∉ pageKeys.map Syntax.ascii, fs.find? key = es.find? key) :
    UnderWay d₀ (d.put home (.dict fs)) where
  edit := by
    refine h.edit.trans (.put hs ⟨Syntax.ascii "Annots", ⟨p, hp, hhome⟩, by decide⟩ fun key hkey => hef key ?_)
    exact fun hmem => hkey ⟨⟨p, hp, hhome⟩, hmem⟩
  extends_ := h.extends_.trans unread_pageKeys (.put hs (by decide) hef)
  numbered := h.numbered.put hs _

/-- A page is found where it was, with what is stored there now. -/
theorem locate (h : UnderWay d₀ d) {v w : Object α} (hl : d₀.locate p = .ok (home, v))
    (hs : d.stored? home = some w) : d.locate p = .ok (home, w) :=
  locate_of_home? (h.extends_.home? (home?_eq_some.mpr ⟨v, hl⟩)) hs

/-- A page that is as it was is cleared. -/
theorem clears (d₀ : Document α) : Clears d₀ (UnderWay d₀) := by
  intro d h p hp home es hl hs
  have hcleared : clearedEntries d es = clearedEntries d₀ es :=
    clearedEntries_congr (Layer.streams_extends h.extends_ rfl) fun id _ => Layer.tag?_extends h.extends_ id
  refine ⟨?_, h.put hp (home?_eq_some.mpr ⟨_, hl⟩) hs fun key hkey => find?_clearedEntries d₀ es hkey⟩
  exact clearPage_eq_ok.mpr ⟨home, es, h.locate hl hs, by rw [hcleared]⟩

/-- Setting the annotations of a page that has none. -/
theorem setAnnots (h : UnderWay d₀ d) (hp : p ∈ d₀.pages) (hhome : d₀.home? p = some home) {es : Dict α}
    (hs : d.stored? home = some (.dict es)) (ids : List ObjectId) :
    UnderWay d₀ (if ids.isEmpty then d else d.put home (.dict (withAnnots ids es))) ∧
      Edit (EntriesOf d₀ [p]) d (if ids.isEmpty then d else d.put home (.dict (withAnnots ids es))) := by
  by_cases hids : ids.isEmpty = true
  · rw [if_pos hids]
    exact ⟨h, .refl _ d⟩
  · rw [if_neg hids]
    have hannots : ∀ key ∉ pageKeys.map Syntax.ascii, (withAnnots ids es).find? key = es.find? key :=
      fun key hkey => find?_withAnnots ids es fun heq => hkey (by simp [pageKeys, ← heq])
    refine ⟨h.put hp hhome hs hannots, .put hs ⟨Syntax.ascii "Annots", ⟨p, by simp, hhome⟩, by decide⟩ ?_⟩
    exact fun key hkey => hannots key fun hmem => hkey ⟨⟨p, by simp, hhome⟩, hmem⟩

/-- Annotations without recognised text are saved on a page that was cleared. -/
theorem saves [Scalar α] {o : SaveOptions α} {ms : List (Mark α)} (hms : layerMarks ms = []) (hd : d₀.Numbered)
    {t : Target α} (ht : t.id ∈ d₀.pages) : Saves o ms d₀ (UnderWay d₀) t := by
  intro d d' h hadd home es hl hs
  have hhome : d₀.home? t.id = some home := home?_eq_some.mpr ⟨_, hl⟩
  have hlayer := layerMarks_filter hms fun m => m.page = t.number
  have hnone : ((ms.filter fun m => m.page = t.number).filter fun m => m.kind == .ocrText).isEmpty = true := by
    rw [← layerMarks, hlayer, List.isEmpty_nil]
  simp only [addPage, bind, Except.bind] at hadd
  split at hadd
  · cases hadd
  rename_i found hfound
  obtain ⟨d₁, ids⟩ := found
  obtain ⟨hgrows, hobjects⟩ := addObjects_spec hfound h.edit.maxNumber
  have h₁ : UnderWay d₀ d₁ := h.adds (addObjects_adds h.numbered hfound)
  have hs₁ : d₁.stored? home = some (.dict (clearedEntries d₀ es)) :=
    (hgrows.stored (h.numbered home _ hs)).trans hs
  simp only [setAnnots_eq (h₁.locate hl hs₁), if_pos hnone] at hadd
  obtain ⟨h₂, hedit⟩ := h₁.setAnnots ht hhome hs₁ ids
  obtain rfl := Except.ok.inj hadd
  have hupTo : PrivateUpTo d₀.maxNumber (EntriesOf d₀ [t.id]) := fun id key hkey =>
    pageEntries_inUse hd id key (entriesOf_page (by simpa using ht) id key hkey)
  have hother : ∀ key, Syntax.ascii "Annots" ≠ Syntax.ascii key →
      (withAnnots ids (clearedEntries d₀ es)).get? key = (clearedEntries d₀ es).get? key :=
    fun key hkey => find?_withAnnots ids _ hkey
  refine ⟨h₂, _, (hgrows.edit _).trans hedit, stored?_withAnnots hs₁ ids, ⟨ids, ?_, ?_⟩, .inl ⟨hlayer, ?_, ?_⟩⟩
  · exact hobjects.imp fun _ _ hobject => hobject.edit hedit hupTo
  · exact get?_annots_withAnnots ids (get?_annots_clearedEntries d₀ es)
  · exact hother _ (by decide)
  · rw [hother _ (by decide), get?_resources_clearedEntries]

end UnderWay

end Pages

end MarkWriter

namespace InteractiveForm

open Document MarkWriter

variable {α : Type} {d d' : Document α}

/-- Preparing a form changes entries of the catalog or of a form dictionary, whatever that was before. -/
theorem ensure_extends (hd : d.Numbered) (h : ensure d = .ok d') : Extends formKeys d d' := by
  obtain ⟨root, -, id, home, es, f, hl, rfl, hid⟩ := ensure_cases h
  have hadds : Adds d (withHelveticaFont d).1 := .add (v := .dict _) hd (FontSource.silent_simpleFont _)
  have hset : ∀ key ∉ formKeys.map Syntax.ascii, (f es).find? key = es.find? key := by
    intro key hkey
    rcases hid with ⟨-, rfl⟩ | ⟨-, rfl, -⟩
    · refine find?_prepared _ _ ?_ ?_
      · exact fun he => hkey (by simp [formKeys, ← he])
      · exact fun he => hkey (by simp [formKeys, ← he])
    · exact find?_preparedIn _ _ hkey
  have hunread : Unread formKeys := by
    unfold Unread
    decide
  exact (hadds.extends_.mono (by simp)).trans hunread (.put (stored?_of_locate hl) (by decide) hset)

end InteractiveForm

namespace Document

open MarkWriter

variable {α : Type} [Scalar α]

/-- The keys that saving sets in objects that were there. -/
def savedKeys : List String := pageKeys ++ formKeys

theorem unread_savedKeys : Unread savedKeys := by
  unfold Unread
  decide

/-- The entries of a page that annotations without recognised text were saved on. -/
structure Annotated (o : SaveOptions α) (d₀ : Document α) (t : Target α) (es : Dict α) (ms : List (Mark α))
    (d : Document α) (es' : Dict α) : Prop where
  objects : ∃ ids, List.Forall₂ (ReadsLike o t.id t.frame d) (objectMarks ms) ids ∧
    es'.get? "Annots" = if ids.isEmpty then none else some (refs ids)
  contents : es'.get? "Contents" = (clearedEntries d₀ es).get? "Contents"

/-- What annotations are read through is not in the keys of the form. -/
theorem Annotated.of_written {o : SaveOptions α} {d₀ d d' : Document α} {t : Target α} {es es₁ es' : Dict α}
    {ms : List (Mark α)} (h : PageWritten o d₀ t es ms d es₁) (hms : layerMarks ms = []) (he : Extends formKeys d d')
    (hes : ∀ key ∉ formKeys.map Syntax.ascii, es'.find? key = es₁.find? key) : Annotated o d₀ t es ms d' es' := by
  have hread : ∀ key ∈ MarkReader.readKeys, key ∉ formKeys.map Syntax.ascii := by decide
  obtain ⟨⟨ids, hobjects, hannots⟩, hlayer⟩ := h
  refine ⟨⟨ids, hobjects.imp fun m id hobject => ?_, (hes _ (by decide)).trans hannots⟩, ?_⟩
  · obtain ⟨-, appearance, hs⟩ := hobject
    obtain ⟨fs, hs', hfs⟩ := he.stored_dict hs
    have halike := readAlike_objectEntries o t.id t.frame m t.id appearance
    exact ⟨fs, hs', fun key hkey => (hfs _ (hread _ hkey)).trans (halike.same key hkey), halike.direct⟩
  · rcases hlayer with ⟨-, hc, -⟩ | ⟨hne, -⟩
    · exact (hes _ (by decide)).trans hc
    · exact absurd hms hne

/-- Saving annotations without recognised text keeps what a document had, and adds their objects. -/
theorem save_extends {o : SaveOptions α} {d w : Document α} {ms : List (Mark α)} (h : d.TreeSound) (hd : d.Numbered)
    (hms : layerMarks ms = []) (hs : d.save o ms = .ok w) : ∃ d', w = d'.prune ∧ Extends savedKeys d d' ∧
      ∀ t ∈ targets d, ∀ home, ∀ es : Dict α, d.locate t.id = .ok (home, .dict es) →
        ∃ es' : Dict α, d'.stored? home = some (.dict es') ∧
          Annotated o d t es (ms.filter fun m => m.page = t.number) d' es' := by
  obtain ⟨c, hc, hcleared, hpages⟩ := (UnderWay.clears d).pages h (.refl hd)
  obtain ⟨cleared, written, d', hclear, hwritten, hform, rfl⟩ := save_eq_ok.mp hs
  obtain rfl : c = cleared := Except.ok.inj (hc.symm.trans hclear)
  obtain ⟨hunder, -, hall⟩ := addPages_spec h (pageEntries_inUse hd) (fun _ he => he.edit.maxNumber)
    (fun t ht => id_mem_pages ht) (fun t ht => UnderWay.saves hms hd (id_mem_pages ht)) (targets_homes h)
    hwritten hcleared fun t ht home es hl => hpages t.id (id_mem_pages ht) home es hl
  have hform : Extends formKeys written d' := by
    split at hform
    · exact InteractiveForm.ensure_extends hunder.numbered hform
    · obtain rfl := Except.ok.inj hform
      exact .refl _ _
  have hpage : Extends savedKeys d written := hunder.extends_.mono (List.subset_append_left _ _)
  refine ⟨d', rfl, hpage.trans unread_savedKeys (hform.mono (List.subset_append_right _ _)), ?_⟩
  intro t ht home es hl
  obtain ⟨es₁, hs₁, hw⟩ := hall t ht home es hl
  obtain ⟨es', hs', hes⟩ := hform.stored_dict hs₁
  exact ⟨es', hs', .of_written hw (layerMarks_filter hms fun m => m.page = t.number) hform hes⟩

end Document

end Marginalia

import Marginalia.Proofs.Number.Exact
import Marginalia.Proofs.Font.Shown
import Marginalia.Proofs.Mark.FormResources
import Marginalia.Proofs.Mark.Rereading

/-!
What saving annotations can fail for. The dictionaries that are written on are there all the way, so nothing is left
but a text that no font can be had for.
-/

namespace Marginalia

namespace MarkWriter

open Document

section Completes

variable {α β γ : Type} [Scalar α] {o : SaveOptions α} {ms : List (Mark α)}

/-- That a font is asked for an annotation: it is a free text, or a recognised text that is not left out. -/
def NeedsFont (o : SaveOptions α) (m : Mark α) : Prop :=
  m.kind = .freeText ∨ m.kind = .ocrText ∧ isLeftOut m (m.box.unscaled o.effectiveScale) = false

/-- That a computation gives a result, or fails as there is no font for one of some annotations. -/
def Completes (o : SaveOptions α) (ms : List (Mark α)) (x : Except DocumentError β) : Prop :=
  (∃ v, x = .ok v) ∨ ∃ m ∈ ms, NeedsFont o m ∧ ∃ detail,
    o.fonts.resolve m.fontFamily m.content = .error (.fontUnavailable detail) ∧ x = .error (.fontUnavailable detail)

theorem Completes.ok (v : β) : Completes o ms (.ok v : Except DocumentError β) := .inl ⟨v, rfl⟩

theorem Completes.bind {x : Except DocumentError β} {f : β → Except DocumentError γ} (hx : Completes o ms x)
    (hf : ∀ v, x = .ok v → Completes o ms (f v)) : Completes o ms (x.bind f) := by
  rcases hx with ⟨v, rfl⟩ | ⟨m, hm, hneeds, detail, hresolve, rfl⟩
  · exact hf v rfl
  · exact .inr ⟨m, hm, hneeds, detail, hresolve, rfl⟩

/-- A font is had for an annotation that needs one, or there is none. -/
theorem completes_resolve {m : Mark α} (hm : m ∈ ms) (hneeds : NeedsFont o m) :
    Completes o ms (o.fonts.resolve m.fontFamily m.content) := by
  cases hresolve : o.fonts.resolve m.fontFamily m.content with
  | ok font => exact .ok font
  | error e =>
    obtain ⟨⟨detail, rfl⟩, -⟩ := FontChain.resolve_error hresolve
    exact .inr ⟨m, hm, hneeds, detail, hresolve, rfl⟩

/-- A recognised text that a font is asked for is not empty, and its box has a height. -/
theorem NeedsFont.height {N : Numerals} {o : SaveOptions (Exact N)} {m : Mark (Exact N)} (h : NeedsFont o m)
    (hkind : m.kind = .ocrText) : m.content.isEmpty = false ∧ m.box.height ≠ 0 := by
  obtain hfree | ⟨-, hshown⟩ := h
  · rw [hkind] at hfree
    cases hfree
  · simp only [isLeftOut, Bool.or_eq_false_iff, decide_eq_false_iff_not, Exact.toPoints_eq, Exact.zero_eq] at hshown
    refine ⟨hshown.1, fun hzero => hshown.2 ?_⟩
    simp [ViewerBox.unscaled, ViewerBox.height_normalized, hzero]

end Completes

section Writing

variable {α : Type} [Scalar α] {o : SaveOptions α} {ms : List (Mark α)} {d₀ d : Document α}

theorem completes_addObject {m : Mark α} (hm : m ∈ ms) (page : ObjectId) (frame : PageFrame α) (d : Document α) :
    Completes o ms (addObject o page frame d m) := by
  unfold addObject
  split
  · rename_i hkind
    exact (completes_resolve hm (.inl hkind)).bind fun font _ => .ok _
  · exact .ok _

/-- Annotation objects are added, but for a free text without a font. -/
theorem completes_addObjects (page : ObjectId) (frame : PageFrame α) {own : List (Mark α)} (hown : own ⊆ ms)
    (d : Document α) : Completes o ms (addObjects o page frame d own) := by
  induction own generalizing d with
  | nil => exact .ok _
  | cons m own ih =>
    rw [addObjects_cons]
    refine (completes_addObject (hown (by simp)) page frame d).bind fun found _ => ?_
    exact (ih (fun m hm => hown (by simp [hm])) found.1).bind fun rest _ => .ok _

/-- Recognised texts are drawn, but for one without a font. -/
theorem completes_showAll (frame : PageFrame α) {own : List (Mark α)} (hown : ∀ m ∈ own, m ∈ ms ∧ m.kind = .ocrText)
    (s : Drawing α) : Completes o ms (s.showAll o frame own) := by
  induction own generalizing s with
  | nil => exact .ok _
  | cons m own ih =>
    obtain ⟨hm, hkind⟩ := hown m (by simp)
    refine Completes.bind ?_ fun s' _ => ih (fun m hm => hown m (by simp [hm])) s'
    unfold Drawing.show_
    cases hout : isLeftOut m (m.box.unscaled o.effectiveScale) with
    | true =>
      simp only [isLeftOut] at hout
      simp only [hout, if_true]
      exact .ok s
    | false =>
      have hresolve := completes_resolve hm (.inr ⟨hkind, hout⟩)
      simp only [isLeftOut] at hout
      simp only [hout, Bool.false_eq_true, if_false]
      exact hresolve.bind fun font _ => .ok _

variable (ht : d₀.TreeSound) (ha : d₀.Allotted)

include ht ha

omit [Scalar α] in
/-- The dictionary of a page is there for as long as its entries alone are set. -/
theorem page_found (he : Edit d₀.PageEntries d₀ d) {p : ObjectId} (hp : p ∈ d₀.pages) :
    ∃ home, ∃ es : Dict α, d.locate p = .ok (home, .dict es) := by
  obtain ⟨home, es, hl⟩ := ht.pages_homes.2 p hp
  obtain ⟨fs, hl', -⟩ := he.locate_dict ha (ht.reachable_of_pages hp) hl
  exact ⟨home, fs, hl'⟩

omit [Scalar α] in
/-- Pages are cleared. -/
theorem clearPages_ok {ps : List ObjectId} (hps : ∀ p ∈ ps, p ∈ d₀.pages) (he : Edit d₀.PageEntries d₀ d) :
    ∃ c, ps.foldlM clearPage d = .ok c := by
  induction ps generalizing d with
  | nil => exact ⟨d, rfl⟩
  | cons p ps ih =>
    obtain ⟨home, es, hl⟩ := page_found ht ha he (hps p (by simp))
    have hp : clearPage d p = .ok (d.put home (.dict (clearedEntries d es))) := clearPage_eq_ok.mpr ⟨home, es, hl, rfl⟩
    rw [List.foldlM_cons, hp]
    exact ih (fun q hq => hps q (by simp [hq])) (clearPage_edit ht ha he (hps p (by simp)) hp)

omit [Scalar α] in
theorem setAnnots_ok (he : Edit d₀.PageEntries d₀ d) {p : ObjectId} (hp : p ∈ d₀.pages) (ids : List ObjectId) :
    ∃ d', setAnnots d p ids = .ok d' ∧ Edit d₀.PageEntries d₀ d' := by
  obtain ⟨home, es, hl⟩ := page_found ht ha he hp
  have hset := setAnnots_eq hl ids
  exact ⟨_, hset, setAnnots_edit ht ha he hp hset⟩

/-- Recognised text is added to a page, but for one without a font. -/
theorem completes_addLayer (he : Edit d₀.PageEntries d₀ d) {p : ObjectId} (hp : p ∈ d₀.pages) (frame : PageFrame α)
    (resources : Dict α) {own : List (Mark α)} (hown : ∀ m ∈ own, m ∈ ms ∧ m.kind = .ocrText) :
    Completes o ms (addLayer o d p frame resources own) := by
  refine (completes_showAll frame hown _).bind fun s hs => ?_
  have hnamed : Named d.maxNumber (category d resources "Font")
      ⟨d, category d resources "Font", [], layerOpening⟩ [] :=
    ⟨rfl, Nat.le_refl _, by simp, fun _ _ => rfl⟩
  obtain ⟨-, -, -, -, -, hdrawn⟩ := hnamed.showAll hs
  have hadded : ∀ d₁ : Document α, Edit d₀.PageEntries d₀ d₁ → ∀ v, Edit d₀.PageEntries d₀ (d₁.add v).1 :=
    fun d₁ h v => h.trans (.add _ d₁ v)
  obtain ⟨home, es, hl⟩ := page_found ht ha (hadded _ (hadded _ (he.trans (hdrawn.edit _))
    (taggedStream Layer.guardTag (Syntax.ascii "q\n")))
    (taggedStream Layer.textTag (0x0A :: printProgram (s.program ++ [⟨"ET", []⟩, ⟨"Q", []⟩])))) hp
  simp only [bind, Except.bind]
  rw [entriesOn_eq hl]
  simp only
  rw [updatePage_eq hl]
  exact .ok _

/-- The annotations of a page are saved, but for a text without a font. -/
theorem completes_addPage (he : Edit d₀.PageEntries d₀ d) {t : Target α} (hp : t.id ∈ d₀.pages)
    {own : List (Mark α)} (hown : own ⊆ ms) : Completes o ms (addPage o d t own) := by
  refine (completes_addObjects t.id t.frame (fun m hm => hown (List.mem_of_mem_filter hm)) d).bind fun found hfound => ?_
  obtain ⟨d₁, ids⟩ := found
  have he₁ : Edit d₀.PageEntries d₀ d₁ := he.trans ((addObjects_spec hfound (Nat.le_refl _)).1.edit _)
  obtain ⟨d₂, hset, he₂⟩ := setAnnots_ok ht ha he₁ hp ids
  simp only [bind, Except.bind, hset]
  split
  · exact .ok _
  · refine completes_addLayer ht ha he₂ hp _ _ fun m hm => ?_
    obtain ⟨hmem, hkind⟩ := List.mem_filter.mp hm
    exact ⟨hown hmem, by simpa using hkind⟩

/-- Annotations are saved page by page, but for a text without a font on one of the pages. -/
theorem completes_addPages (he : Edit d₀.PageEntries d₀ d) {ts : List (Target α)} (hts : ∀ t ∈ ts, t.id ∈ d₀.pages) :
    Completes o (ms.filter fun m => (ts.map Target.number).contains m.page) (addPages o ms d ts) := by
  suffices h : ∀ us, us ⊆ ts → ∀ d, Edit d₀.PageEntries d₀ d →
      Completes o (ms.filter fun m => (ts.map Target.number).contains m.page) (addPages o ms d us) from
    h ts (List.Subset.refl ts) d he
  intro us hus
  induction us with
  | nil => exact fun d _ => .ok d
  | cons t us ih =>
    intro d he
    have ht' : t ∈ ts := hus (by simp)
    have hown : (ms.filter fun m => m.page = t.number) ⊆ ms.filter fun m => (ts.map Target.number).contains m.page := by
      intro m hm
      obtain ⟨hmem, hpage⟩ := List.mem_filter.mp hm
      refine List.mem_filter.mpr ⟨hmem, ?_⟩
      rw [of_decide_eq_true hpage]
      exact List.contains_iff_mem.mpr (List.mem_map_of_mem ht')
    refine (completes_addPage ht ha he (hts t ht') hown).bind fun d' hadd => ?_
    exact ih (fun u hu => hus (by simp [hu])) d' (addPage_edit ht ha he (hts t ht') hadd)

end Writing

end MarkWriter

namespace InteractiveForm

open Document

variable {α : Type} {d₀ d : Document α}

/-- That a form dictionary is there if the catalog refers to one. -/
def Found (d : Document α) : Prop := ∀ form, acroForm? d = some (.ref form) → ∃ entries, d.getDict? form = some entries

/-- The form of a document with a catalog is seen to. -/
theorem ensure_ok (ha : d₀.Allotted) (he : Edit d₀.PageEntries d₀ d) (hfound : Found d₀) {root : ObjectId}
    {catalog : Dict α} (hroot : d₀.trailer.get? "Root" = some (.ref root)) (hcatalog : d₀.getDict? root = some catalog) :
    ∃ d', ensure d = .ok d' := by
  have hadded : Edit d₀.PageEntries d₀ (withHelveticaFont d).1 := he.trans (.add _ _ _)
  have hregion := d₀.reachable_region
  have hin : root ∈ d₀.reachable := hregion.root root hroot
  obtain ⟨home, hl₀⟩ := getDict?_eq_some.mp hcatalog
  obtain ⟨catalog', hl, hef⟩ := hadded.locate_dict ha hin hl₀
  have hroot' : d.trailer.get? "Root" = some (.ref root) := by rwa [he.trailer]
  have hentry : ((withHelveticaFont d).1.getDict? root).bind (·.get? "AcroForm") = catalog.get? "AcroForm" := by
    rw [getDict?_eq_some.mpr ⟨home, hl⟩]
    exact hef _ fun hk => absurd hk.2 (by decide)
  cases href : (catalog.get? "AcroForm").bind Object.ref? with
  | none => exact ⟨_, ensure_of_root hroot' (.inr ⟨rfl, rfl, by rw [hentry, href]⟩) hl⟩
  | some form =>
    obtain ⟨v, hv, hvr⟩ := Option.bind_eq_some_iff.mp href
    cases v <;> cases hvr
    obtain ⟨entries, hentries⟩ := hfound form (acroForm?_eq_some.mpr ⟨root, home, catalog, hroot, hl₀, hv⟩)
    obtain ⟨formHome, hlform⟩ := getDict?_eq_some.mp hentries
    have hreach : form ∈ d₀.reachable := hregion.entry hin hcatalog hv form (by simp [Object.references])
    obtain ⟨entries', hlform', -⟩ := hadded.locate_dict ha hreach hlform
    exact ⟨_, ensure_of_root hroot' (.inl ⟨hentry.trans hv, rfl⟩) hlform'⟩

end InteractiveForm

namespace Document

open MarkWriter

variable {α : Type} {d : Document α}

/-- A document with a page has a catalog. -/
theorem catalog_of_pages {p : ObjectId} (hp : p ∈ d.pages) :
    ∃ root catalog, d.trailer.get? "Root" = some (.ref root) ∧ d.getDict? root = some catalog := by
  cases hroot : d.pageTreeRoot? with
  | none => simp [pages, hroot] at hp
  | some node =>
    simp only [pageTreeRoot?, Option.bind_eq_bind, Option.bind_eq_some_iff] at hroot
    obtain ⟨v, hv, root, hvr, catalog, hcatalog, -⟩ := hroot
    cases v <;> cases hvr
    exact ⟨root, catalog, hv, hcatalog⟩

variable [Scalar α]

/-- Saving annotations gives a document unless no font can be had for one of them that needs a font and is on a page;
with the default fonts it always gives one. -/
theorem save_completes (ht : d.TreeSound) (ha : d.Allotted) (hform : InteractiveForm.Found d) (o : SaveOptions α)
    (ms : List (Mark α)) :
    ((∃ w, d.save o ms = .ok w) ∨ ∃ m ∈ ms, (∃ p, d.page m.page = .ok p) ∧ NeedsFont o m ∧ ∃ detail,
      o.fonts.resolve m.fontFamily m.content = .error (.fontUnavailable detail) ∧
      d.save o ms = .error (.fontUnavailable detail)) ∧
    (o.fonts = .default → ∃ w, d.save o ms = .ok w) := by
  have hcompletes : Completes o (ms.filter fun m => ((targets d).map Target.number).contains m.page) (d.save o ms) := by
    rw [save_eq]
    obtain ⟨c, hc⟩ := clearPages_ok ht ha (fun _ hp => hp) (.refl _ d)
    rw [hc, Except.bind]
    have he : Edit d.PageEntries d c := clearPages_edit ht ha (fun _ hp => hp) (.refl _ d) hc
    refine (completes_addPages ht ha he fun _ hmem => id_mem_pages hmem).bind fun written hwritten => ?_
    refine Completes.bind ?_ fun d' _ => .ok _
    split
    · rename_i hobjects
      obtain ⟨m, -, hm⟩ := List.any_eq_true.mp hobjects
      simp only [Bool.and_eq_true, List.contains_iff_mem] at hm
      obtain ⟨t, hmem, -⟩ := List.mem_map.mp hm.2
      obtain ⟨root, catalog, hroot, hcatalog⟩ := catalog_of_pages (id_mem_pages hmem)
      exact .inl (InteractiveForm.ensure_ok ha (pages_edit ht ha hc hwritten) hform hroot hcatalog)
    · exact .ok written
  have hpage : ∀ m ∈ ms.filter fun m => ((targets d).map Target.number).contains m.page,
      m ∈ ms ∧ ∃ p, d.page m.page = .ok p := by
    intro m hm
    obtain ⟨hmem, hnumber⟩ := List.mem_filter.mp hm
    obtain ⟨t, htarget, hnumber⟩ := List.mem_map.mp (List.contains_iff_mem.mp hnumber)
    exact ⟨hmem, t.id, hnumber ▸ mem_numberedPages.mp (mem_targets htarget).1⟩
  rcases hcompletes with hok | ⟨m, hm, hneeds, detail, hresolve, hs⟩
  · exact ⟨.inl hok, fun _ => hok⟩
  · refine ⟨.inr ⟨m, (hpage m hm).1, (hpage m hm).2, hneeds, detail, hresolve, hs⟩, fun hdefault => ?_⟩
    rw [hdefault] at hresolve
    exact absurd (FontChain.resolve_error hresolve).2 FontChain.default_universal

/-- A recognised text and a note in fonts that are not there. -/
def unusualTexts : List (Mark (Exact .plain)) :=
  [{ Mark.new .ocrText 1 lineBox "page" with fontFamily := "Garamond" },
    { Mark.new .freeText 1 { lineBox with y := 120 } "note" with fontFamily := "Garamond" }]

/-- With the default fonts another one is taken. -/
theorem save_completes_unusual : directDefaults.TreeSound ∧ directDefaults.Allotted ∧
    InteractiveForm.Found directDefaults ∧ ∃ w, directDefaults.save .default unusualTexts = .ok w := by
  have hallotted : ∀ id ∈ directDefaults.reachable, id.number ≤ 6 := by decide +kernel
  have htree : directDefaults.TreeSound := formPage_tree _ _
  have hall : directDefaults.Allotted := fun id hid _ _ => hallotted id hid
  have hfound : InteractiveForm.Found directDefaults := by
    intro form hform
    cases hform
    exact ⟨_, rfl⟩
  exact ⟨htree, hall, hfound, (save_completes htree hall hfound .default unusualTexts).2 rfl⟩

/-- A note on the first page and a highlight on the second one. -/
def pageNotes : List (Mark (Exact .plain)) :=
  [{ Mark.new .freeText 1 lineBox "note" with fontFamily := "Helvetica" },
    Mark.new .highlight 2 lineBox ""]

/-- A page, and a catalog that refers to a form dictionary which is not there. -/
def formless : Document (Exact .plain) :=
  { directDefaults with objects := directDefaults.objects.filter fun e => e.1 != ⟨4, 0⟩ }

theorem formless_tree : formless.TreeSound := by
  refine ⟨fun root hroot => ⟨[⟨3, 0⟩], [⟨3, 0⟩], ?_, ?_⟩⟩
  · obtain rfl : (⟨2, 0⟩ : ObjectId) = root := Option.some.inj hroot
    exact @Walk.page _ _ (.ref ⟨3, 0⟩) [] [] _ _ _ rfl .done
  · decide +kernel

/-- Saving fails as well where a page under a number above the highest one in use is lost to what a note is drawn
with, and where the catalog refers to a form dictionary that is not there. -/
theorem save_completes_astray :
    (misnumbered.TreeSound ∧ InteractiveForm.Found misnumbered ∧
      misnumbered.save .default pageNotes = .error (.save ("cannot update page (7, 0): " ++
        "object has wrong type; expected type Dictionary but found type Stream"))) ∧
    formless.TreeSound ∧ formless.Allotted ∧
      formless.save .default oneHighlight = .error (.save "cannot update AcroForm: object ID 4 0 not found") := by
  have hfailed : ∀ {d : Document (Exact .plain)} {ms : List (Mark (Exact .plain))} {e : DocumentError},
      ((d.save .default ms).map fun _ => ()) = .error e → d.save .default ms = .error e := by
    intro d ms e h
    cases hs : d.save .default ms with
    | error e' =>
      rw [hs] at h
      cases h
      rfl
    | ok w =>
      rw [hs] at h
      cases h
  have hallotted : ∀ id ∈ formless.reachable, id.number ≤ 6 := by decide +kernel
  refine ⟨⟨misnumbered_tree, fun form hform => ?_, hfailed (by decide +kernel)⟩, formless_tree,
    fun id hid _ _ => hallotted id hid, hfailed (by decide +kernel)⟩
  cases hform

end Document

end Marginalia

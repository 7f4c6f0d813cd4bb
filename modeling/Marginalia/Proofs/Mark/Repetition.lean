import Marginalia.Proofs.Mark.FormResources
import Marginalia.Proofs.Mark.History
import Marginalia.Proofs.Mark.Lockstep

/-!
Saving the same annotations once more. What the catalog leads to afterwards is what it led to before, but for the
numbers of the objects that saving adds, so nothing piles up.
-/

namespace Marginalia

namespace InteractiveForm

open Document Object

variable {α : Type} {ρ : ObjectId → ObjectId → Prop} {helvetica helvetica' : ObjectId}

section Prepared

/-- The dictionary that an entry is, or an empty one, refers to nothing but the entry. -/
theorem entriesWithin_of_entry {P : ObjectId → Prop} {es fs : Dict α} {key : String}
    (hin : ∀ v, es.get? key = some v → ∀ id ∈ v.references, P id)
    (hdict : ∀ gs, es.get? key = some (.dict gs) → fs = gs)
    (hnone : (∀ gs, es.get? key ≠ some (.dict gs)) → fs = []) : EntriesWithin P fs := by
  by_cases hd : ∃ gs, es.get? key = some (.dict gs)
  · obtain ⟨gs, hgs⟩ := hd
    obtain rfl := hdict gs hgs
    exact entriesWithin_of_dict (hin _ hgs) rfl
  · rw [hnone fun gs hgs => hd ⟨gs, hgs⟩]
    intro key v hv
    cases hv

/-- Helvetica takes the place of the one that was among the default resources. -/
theorem withFont_again (hρ : ρ helvetica helvetica') {resources : Dict α}
    (hin : EntriesWithin (fun id => ρ id id) resources) (key : Bytes) :
    MatchesAt ρ (withFont helvetica resources) (withFont helvetica' (withFont helvetica resources)) key := by
  by_cases hkey : Syntax.ascii "Font" = key
  · subst hkey
    obtain ⟨fonts, hfonts, hdict, hnone⟩ := font_withFont helvetica resources
    obtain ⟨fonts', hfonts', hagain, -⟩ := font_withFont helvetica' (withFont helvetica resources)
    obtain rfl := hagain _ hfonts
    have hself : EntriesWithin (fun id => ρ id id) fonts := entriesWithin_of_entry (hin _) hdict hnone
    unfold Dict.get? at hfonts hfonts'
    rw [MatchesAt, hfonts, hfonts']
    refine .some (.of_entries fun name => .set "Helv" (.ref hρ) fun hne => .of_eq ?_ (hself name))
    rw [withHelvetica, Dict.set, Dict.find?_setBytes, if_neg hne]
  · exact .of_eq (by rw [find?_withFont _ _ hkey, find?_withFont _ _ hkey])
      (by rw [find?_withFont _ _ hkey]; exact hin key)

/-- A form that has under a key what a prepared form has there matches it when it is prepared too. -/
theorem prepared_again (hρ : ρ helvetica helvetica') {form form' : Dict α} {key : Bytes}
    (hkey : form'.find? key = (prepared helvetica form).find? key)
    (hself : ∀ v, form.find? key = some v → ∀ id ∈ v.references, ρ id id) :
    MatchesAt ρ (prepared helvetica form) (prepared helvetica' form') key := by
  by_cases hneed : Syntax.ascii "NeedAppearances" = key
  · subst hneed
    have hset := needAppearances_prepared helvetica form
    have hset' := needAppearances_prepared helvetica' form'
    unfold Dict.get? at hset hset'
    rw [MatchesAt, hset, hset']
    exact .some (.plain trivial)
  · by_cases hdr : Syntax.ascii "DR" = key
    · subst hdr
      obtain ⟨resources, hresources, hdict, hnone⟩ := dr_prepared helvetica form
      obtain ⟨resources', hresources', hagain, -⟩ := dr_prepared helvetica' form'
      obtain rfl := hagain _ (hkey.trans hresources)
      have hin : EntriesWithin (fun id => ρ id id) resources := entriesWithin_of_entry hself hdict hnone
      unfold Dict.get? at hresources hresources'
      rw [MatchesAt, hresources, hresources']
      exact .some (.of_entries (withFont_again hρ hin))
    · rw [find?_prepared _ _ hneed hdr] at hkey
      exact .of_eq (by rw [find?_prepared _ _ hneed hdr, find?_prepared _ _ hneed hdr, hkey])
        (by rw [find?_prepared _ _ hneed hdr]; exact hself)

/-- A catalog with a prepared form has the form that was in it, prepared. -/
theorem acroForm_preparedIn (helvetica : ObjectId) (catalog : Dict α) :
    ∃ form, (preparedIn helvetica catalog).get? "AcroForm" = some (.dict (prepared helvetica form)) ∧
      (∀ fs, catalog.get? "AcroForm" = some (.dict fs) → form = fs) ∧
      ((∀ fs, catalog.get? "AcroForm" ≠ some (.dict fs)) → form = []) := by
  refine ⟨_, Dict.get?_set_self _ _ _, fun fs hfs => by simp only [hfs], fun hnone => ?_⟩
  split
  · exact absurd ‹_› (hnone _)
  · rfl

/-- A catalog that has under a key what one with a prepared form has there matches it when its form is prepared
too. -/
theorem preparedIn_again (hρ : ρ helvetica helvetica') {catalog catalog' : Dict α} {key : Bytes}
    (hkey : catalog'.find? key = (preparedIn helvetica catalog).find? key)
    (hself : ∀ v, catalog.find? key = some v → ∀ id ∈ v.references, ρ id id) :
    MatchesAt ρ (preparedIn helvetica catalog) (preparedIn helvetica' catalog') key := by
  have hother : ∀ (helvetica : ObjectId) (catalog : Dict α), Syntax.ascii "AcroForm" ≠ key →
      (preparedIn helvetica catalog).find? key = catalog.find? key := fun helvetica catalog hne => by
    rw [preparedIn, Dict.set, Dict.find?_setBytes, if_neg hne]
  by_cases hform : Syntax.ascii "AcroForm" = key
  · subst hform
    obtain ⟨form, hform, hdict, hnone⟩ := acroForm_preparedIn helvetica catalog
    obtain ⟨form', hform', hagain, -⟩ := acroForm_preparedIn helvetica' catalog'
    obtain rfl := hagain _ (hkey.trans hform)
    have hin : EntriesWithin (fun id => ρ id id) form := entriesWithin_of_entry hself hdict hnone
    unfold Dict.get? at hform hform'
    rw [MatchesAt, hform, hform']
    exact .some (.of_entries fun name => prepared_again hρ rfl (hin name))
  · rw [hother _ _ hform] at hkey
    exact .of_eq (by rw [hother _ _ hform, hother _ _ hform, hkey]) (by rw [hother _ _ hform]; exact hself)

end Prepared

variable {d x x' y r : Document α}

theorem acroForm?_of_root {root : ObjectId} (hroot : d.trailer.get? "Root" = some (.ref root)) :
    acroForm? d = (d.getDict? root).bind (·.get? "AcroForm") := by
  simp only [acroForm?, hroot, Option.bind_eq_bind, Option.bind_some, Object.ref?]

/-- That Helvetica is added to two dictionaries in the same way. -/
def SetAlike (helvetica helvetica' : ObjectId) (f f' : Dict α → Dict α) : Prop :=
  (f = prepared helvetica ∧ f' = prepared helvetica') ∨ (f = preparedIn helvetica ∧ f' = preparedIn helvetica')

/-- The form that was prepared in a document is prepared once more in the same dictionary. -/
theorem Prepares.again {root id home : ObjectId} {es : Dict α} {f : Dict α → Dict α} (h : d.Sound) (hr : r.Sound)
    (hx : Edit d.PageEntries d x) (hy : Edit r.PageEntries r y) (hroot : x.trailer.get? "Root" = some (.ref root))
    (hid : Prepares x root id f) (hl : (withHelveticaFont x).1.locate id = .ok (home, .dict es))
    (hx' : x' = (withHelveticaFont x).1.put home (.dict (f es))) (hagree : Agree (· ∈ x'.reachable) x' r) :
    d.InUse home ∧ r.InUse home ∧ ∃ es' : Dict α, ∃ f',
      (withHelveticaFont y).1.locate id = .ok (home, .dict es') ∧ Prepares y root id f' ∧
      SetAlike (withHelveticaFont x).2 (withHelveticaFont y).2 f f' := by
  have hadded : Grows x (withHelveticaFont x).1 := .add _ _ _
  have hadded' : Grows y (withHelveticaFont y).1 := .add _ _ _
  have hx₁ := hx.trans (hadded.edit _)
  have hy₁ := hy.trans (hadded'.edit _)
  have hallotted : r.Allotted := fun id hid _ _ => hr.inUse id hid
  have hregion := x'.reachable_region
  have hroot₀ : d.trailer.get? "Root" = some (.ref root) := hx.trailer ▸ hroot
  have hroot₁ : (withHelveticaFont x).1.trailer.get? "Root" = some (.ref root) := hroot
  have hrootx : x'.trailer.get? "Root" = some (.ref root) := hx' ▸ hroot
  have hrootr : r.trailer.get? "Root" = some (.ref root) := hagree.root.trans hrootx
  have hrooty : (withHelveticaFont y).1.trailer.get? "Root" = some (.ref root) := hy₁.trailer ▸ hrootr
  have hlx' : x'.locate id = .ok (home, .dict (f es)) := by
    have hput := locate_put (f es) (stored?_of_locate hl) hl
    rwa [if_pos rfl, ← hx'] at hput
  -- Where the form is prepared is among what each of the documents leads to.
  have hfound : id ∈ d.reachable → id ∈ r.reachable → id ∈ x'.reachable → d.InUse home ∧ r.InUse home ∧
      ∃ es' : Dict α, (withHelveticaFont y).1.locate id = .ok (home, .dict es') := by
    intro hd hr' hx''
    obtain ⟨es₀, hl₀, -⟩ := (h.keeps hx₁).locate_dict h.region hd hl
    have hlr : r.locate id = .ok (home, .dict (f es)) :=
      locate_of_home? ((Keeps.home? hagree hregion hx'').trans (home?_eq_some.mpr ⟨_, hlx'⟩))
        ((hagree.stored? (hregion.home hx'' hlx')).trans (stored?_of_locate hlx'))
    obtain ⟨es', hly, -⟩ := hy₁.locate_dict hallotted hr' hlr
    exact ⟨h.inUse _ (h.region.home hd hl₀), hr.inUse _ (hr.region.home hr' hlr), es', hly⟩
  rcases hid with ⟨href, rfl⟩ | ⟨rfl, rfl, -⟩
  · have hentryx : acroForm? x' = some (.ref id) := by
      rw [hx']
      exact acroForm?_put_referred ((acroForm?_of_root hroot₁).trans href) hl (find?_prepared _ _ (by decide) (by decide))
    have hentryr : acroForm? r = some (.ref id) := (acroForm?_agree hagree hregion).trans hentryx
    have hentryd : acroForm? d = some (.ref id) := by
      rw [acroForm?_of_root hroot₀, ← (h.keeps hx₁).entry h.region (h.region.root root hroot₀) fun _ hk =>
        absurd hk.2 (by decide)]
      exact href
    have hmem : id ∈ (Object.ref id : Object α).references := by simp [Object.references]
    obtain ⟨huse, huse', es', hly⟩ := hfound (acroForm?_within h.region hentryd id hmem)
      (acroForm?_within hr.region hentryr id hmem) (acroForm?_within hregion hentryx id hmem)
    refine ⟨huse, huse', es', _, hly, .inl ⟨?_, rfl⟩, .inl ⟨rfl, rfl⟩⟩
    exact (acroForm?_of_root hrooty).symm.trans (acroForm?_edit hy₁ hallotted hentryr)
  · obtain ⟨form, hform, -⟩ := acroForm_preparedIn (withHelveticaFont x).2 es
    have hentryx : acroForm? x' = some (.dict (prepared (withHelveticaFont x).2 form)) := by
      rw [hx']
      exact acroForm?_put_catalog hroot hl hform
    have hentryr := (acroForm?_agree hagree hregion).trans hentryx
    obtain ⟨huse, huse', es', hly⟩ := hfound (h.region.root _ hroot₀) (hr.region.root _ hrootr)
      (hregion.root _ hrootx)
    refine ⟨huse, huse', es', _, hly, .inr ⟨rfl, rfl, ?_⟩, .inr ⟨rfl, rfl⟩⟩
    rw [← acroForm?_of_root hrooty, acroForm?_edit hy₁ hallotted hentryr]
    rfl

/-- That the forms of two documents under way were seen to alike. Entries of pages match as they did, and so do
entries that the second document had as the first one has them now. -/
structure FormedAlike (d r x y x' y' : Document α) : Prop where
  lockstep : Lockstep (· ∈ d.reachable) d.maxNumber r.maxNumber x' y'
  maxNumber : x.maxNumber ≤ x'.maxNumber
  entries : ∀ id, ∀ fs fs' : Dict α, d.InUse id → r.InUse id → x.stored? id = some (.dict fs) →
    y.stored? id = some (.dict fs') → ∃ gs gs' : Dict α, x'.stored? id = some (.dict gs) ∧
      y'.stored? id = some (.dict gs') ∧ ∀ key,
        (key ∈ pageKeys.map Syntax.ascii →
          MatchesAt (Paired (· ∈ d.reachable) d.maxNumber r.maxNumber x'.maxNumber) fs fs' key →
          MatchesAt (Paired (· ∈ d.reachable) d.maxNumber r.maxNumber x'.maxNumber) gs gs' key) ∧
        (fs'.find? key = gs.find? key → (∀ v, fs.find? key = some v → ∀ i ∈ v.references, i ∈ d.reachable) →
          MatchesAt (Paired (· ∈ d.reachable) d.maxNumber r.maxNumber x'.maxNumber) gs gs' key)

theorem FormedAlike.refl (h : Lockstep (· ∈ d.reachable) d.maxNumber r.maxNumber x y) : FormedAlike d r x y x y where
  lockstep := h
  maxNumber := Nat.le_refl _
  entries _ fs fs' _ _ hfs hfs' := ⟨fs, fs', hfs, hfs', fun _ =>
    ⟨fun _ hm => hm, fun he hin => .of_eq he fun v hv i hi => .inl ⟨hin v hv i hi, rfl⟩⟩⟩

/-- The form of a document is seen to once more, after its pages were written on once more. -/
theorem ensure_again (h : d.Sound) (hr : r.Sound)
    (hlockstep : Lockstep (· ∈ d.reachable) d.maxNumber r.maxNumber x y) (hx : Edit d.PageEntries d x)
    (hy : Edit r.PageEntries r y) (hagree : Agree (· ∈ x'.reachable) x' r) (hx' : ensure x = .ok x') :
    ∃ y', ensure y = .ok y' ∧ FormedAlike d r x y x' y' := by
  obtain ⟨root, hroot, id, home, es, f, hl, rfl, hid⟩ := ensure_cases hx'
  have hrooty : y.trailer.get? "Root" = some (.ref root) := by rw [hy.trailer, hagree.root]; exact hroot
  obtain ⟨huse, huse', es', f', hly, hidy, hset⟩ := hid.again h hr hx hy hroot hl rfl hagree
  have hadded : Grows x (withHelveticaFont x).1 := .add _ _ _
  have hadded' : Grows y (withHelveticaFont y).1 := .add _ _ _
  have hfont : Matches (α := α) (Paired (· ∈ d.reachable) d.maxNumber r.maxNumber x.maxNumber)
      (.dict (FontSource.simpleFont (.nameOf "Helvetica"))) (.dict (FontSource.simpleFont (.nameOf "Helvetica"))) :=
    .ofEntries (entries_direct (by simp [references, nameOf]))
  have hturn : Paired (· ∈ d.reachable) d.maxNumber r.maxNumber (x.maxNumber + 1) (withHelveticaFont x).2
      (withHelveticaFont y).2 := .inr hlockstep.inTurn
  have hself : ∀ (fs : Dict α) key, (∀ v, fs.find? key = some v → ∀ i ∈ v.references, i ∈ d.reachable) →
      ∀ v, fs.find? key = some v → ∀ i ∈ v.references,
        Paired (· ∈ d.reachable) d.maxNumber r.maxNumber (x.maxNumber + 1) i i :=
    fun _ _ hin v hv i hi => .inl ⟨hin v hv i hi, rfl⟩
  refine ⟨_, ensure_of_root hrooty hidy hly, (hlockstep.add hfont).put huse huse' _ _, Nat.le_succ _,
    fun id₀ fs fs' hd₀ hr₀ hfs hfs' => ?_⟩
  rw [← hadded.stored (hx.inUse hd₀)] at hfs
  rw [← hadded'.stored (hy.inUse hr₀)] at hfs'
  by_cases hid₀ : home = id₀
  · subst hid₀
    obtain rfl : es = fs := by simpa using (stored?_of_locate hl).symm.trans hfs
    obtain rfl : es' = fs' := by simpa using (stored?_of_locate hly).symm.trans hfs'
    refine ⟨_, _, stored?_put_self _ _ _, stored?_put_self _ _ _, fun key => ?_⟩
    have hdisjoint : ∀ name ∈ formKeys, Syntax.ascii name ∉ pageKeys.map Syntax.ascii := by decide
    have hne : key ∈ pageKeys.map Syntax.ascii → ∀ name ∈ formKeys, Syntax.ascii name ≠ key :=
      fun hkey name hname he => hdisjoint name hname (he ▸ hkey)
    rcases hset with ⟨rfl, rfl⟩ | ⟨rfl, rfl⟩
    · refine ⟨fun hkey hm => ?_, fun he hin => prepared_again hturn he (hself es key hin)⟩
      have hneed := hne hkey "NeedAppearances" (by decide)
      have hdr := hne hkey "DR" (by decide)
      rwa [MatchesAt, find?_prepared _ _ hneed hdr, find?_prepared _ _ hneed hdr]
    · refine ⟨fun hkey hm => ?_, fun he hin => preparedIn_again hturn he (hself es key hin)⟩
      have hform : key ∉ formKeys.map Syntax.ascii := fun hmem => by
        obtain ⟨name, hname, he⟩ := List.mem_map.mp hmem
        exact hne hkey name hname he
      rwa [MatchesAt, find?_preparedIn _ _ hform, find?_preparedIn _ _ hform]
  · refine ⟨fs, fs', (stored?_put_of_ne _ _ hid₀).trans hfs, (stored?_put_of_ne _ _ hid₀).trans hfs', fun key => ?_⟩
    exact ⟨fun _ hm => hm, fun he hin => .of_eq he (hself fs key hin)⟩

end InteractiveForm

namespace Document

open MarkWriter Object

variable {α : Type} {d d' r : Document α}

/-- That no page is stored as the fonts or as the graphics states of a page. -/
def CopiesApart (d : Document α) (p : ObjectId) : Prop :=
  ∀ resources, d.resources? (.page p) = some resources → ∀ category ∈ ["Font", "ExtGState"],
    CategoryApart d.PageEntries d resources category

theorem EntriesWithin.matchesAt {R : ObjectId → Prop} {es fs : Dict α} (h : EntriesWithin R es) {key : Bytes}
    (he : fs.find? key = es.find? key) : MatchesAt (Same R) es fs key :=
  .of_eq he fun v hv id hid => ⟨h key v hv id hid, rfl⟩

/-- The entries of a page that was cleared refer to nothing new. -/
theorem Sound.entriesWithin_cleared (h : d.Sound) {p home : ObjectId} {es : Dict α} (hp : p ∈ d.pages)
    (hl : d.locate p = .ok (home, .dict es)) : EntriesWithin (· ∈ d.reachable) (clearedEntries d es) := by
  have hin := h.entriesWithin hp hl
  have herase : ∀ key v, (es.erase "Annots").find? key = some v → es.find? key = some v := by
    intro key v hv
    rw [Dict.find?_erase] at hv
    split at hv
    · cases hv
    · exact hv
  intro key v hv
  unfold clearedEntries at hv
  split at hv
  · exact hin key v (herase key v hv)
  · rw [Dict.set, Dict.find?_setBytes] at hv
    split at hv
    · cases hv
      intro id hid
      simp only [refs, references, itemReferences_eq, List.mem_flatMap, List.mem_map] at hid
      obtain ⟨_, ⟨own, hown, rfl⟩, hid⟩ := hid
      obtain rfl : id = own := by simpa [references] using hid
      exact Layer.mem_streams h.region hin (List.mem_of_mem_filter hown)
    · exact hin key v (herase key v hv)

theorem category_direct (x : Document α) {resources entries : Dict α} {key : String}
    (h : resources.get? key = some (.dict entries)) : category x resources key = entries := by
  simp only [category, h, Option.map_some, deref, Option.bind_some, dict?, Option.getD_some]

/-- In a document whose pages are being changed a copied category of the resources of a page has the entries it had. -/
theorem find?_category_copy (h : d.Sound) {x : Document α} (hx : Edit d.PageEntries d x) {p : ObjectId}
    (hp : p ∈ d.pages) (ha : d.CopiesApart p) {key : String} (hkey : key ∈ ["Font", "ExtGState"])
    (name : Bytes) : (category x (d.pageResources p) key).find? name = d.resource? (.page p) key name :=
  (find?_category x _ _ _).trans (entryIn?_copy (h.keeps hx) h.region (h.reachable_of_pages hp) rfl
    (fun resources hres => ha resources hres key hkey) name)

/-- The scope of a page that is met in the tree is reachable. -/
theorem Sound.scope_reachable (h : d.Sound) {p : ObjectId} (hp : p ∈ d.pages) (id : ObjectId)
    (hid : Scope.page p = .page id ∨ Scope.page p = .form id) : id ∈ d.reachable := by
  rcases hid with hid | hid <;> cases hid
  exact h.reachable_of_pages hp

/-- The resources of a page lead to nothing new. -/
theorem Sound.entriesWithin_resources (h : d.Sound) {p : ObjectId} (hp : p ∈ d.pages) :
    EntriesWithin (· ∈ d.reachable) (d.pageResources p) := by
  rw [pageResources]
  cases hres : d.resources? (.page p) with
  | none =>
    intro key v hv
    cases hv
  | some resources => exact h.region.resources (h.scope_reachable hp) hres

/-- Where the pages of a document are being changed in two ways, a copied category of the resources of a page
has the same entries in both. -/
theorem Sound.category_matches (h : d.Sound) {x y : Document α} (hx : Edit d.PageEntries d x)
    (hy : Edit d.PageEntries d y) {p : ObjectId} (hp : p ∈ d.pages) (ha : d.CopiesApart p) {name : String}
    (hname : name ∈ ["Font", "ExtGState"]) {fs : Dict α} {key : Bytes}
    (hfs : fs.find? key = (category y (d.pageResources p) name).find? key) :
    MatchesAt (Same (· ∈ d.reachable)) (category x (d.pageResources p) name) fs key := by
  have hcopied := find?_category_copy h hx hp ha hname key
  rw [find?_category_copy h hy hp ha hname] at hfs
  exact .of_eq (hfs.trans hcopied.symm) fun v hv id hid =>
    ⟨h.region.resource (h.scope_reachable hp) name key v (hcopied.symm.trans hv) id hid, rfl⟩

variable [Scalar α] {o : SaveOptions α} {ms : List (Mark α)}

/-- A page without recognised text that was cleared and saved is cleared again to the same entries. -/
theorem Saved.cleared_again (hsaved : Saved o d ms d') (h : d.Sound) (hr : d'.prune.Reloads r) {p home : ObjectId}
    {es es' : Dict α} (hp : p ∈ d.pages) (hl : d.locate p = .ok (home, .dict es)) (hd' : d'.getDict? p = some es')
    (hown : ownStreams r es' = ownStreams d es) (hc : es'.get? "Contents" = (clearedEntries d es).get? "Contents")
    (hres : es'.get? "Resources" = es.get? "Resources") : ∀ key ∈ pageKeys,
      MatchesAt (Same (· ∈ d.reachable)) (clearedEntries d es) (clearedEntries r es') (Syntax.ascii key) := by
  have hin := h.entriesWithin_cleared hp hl
  have hmem := ((hsaved.pages_reload h hr).2 p hp).1
  have hstreams : Layer.streams r es' = ownStreams d es :=
    (Layer.streams_keeps hr.agree d'.reachable_region (d'.reachable_region.entriesWithin hmem hd') rfl).trans
      (streams_cleared (h.keeps hsaved.edit) h.region (h.entriesWithin hp hl) hc)
  have hcleared : clearedEntries r es' = es'.erase "Annots" := by rw [clearedEntries, if_pos (by rw [hown, hstreams])]
  intro key hkey
  simp only [pageKeys, List.mem_cons, List.not_mem_nil, or_false] at hkey
  rcases hkey with rfl | rfl | rfl
  · have hnone := get?_annots_clearedEntries d es
    have hnone' := get?_annots_clearedEntries r es'
    unfold Dict.get? at hnone hnone'
    rw [MatchesAt, hnone, hnone']
    exact .none
  · rw [hcleared]
    exact hin.matchesAt ((Dict.get?_erase_of_ne es' (by decide)).trans hc)
  · rw [hcleared]
    exact hin.matchesAt ((Dict.get?_erase_of_ne es' (by decide)).trans
      (hres.trans (get?_resources_clearedEntries d es).symm))

/-- The page that annotations are saved on once more. -/
def retarget (r : Document α) (t : Target α) : Target α := { t with resources := r.pageResources t.id }

/-- Annotations are saved once more on the same pages. -/
theorem Saved.targets_reload (hsaved : Saved o d ms d') (h : d.Sound) (hr : d'.prune.Reloads r) :
    targets r = (targets d).map (retarget r) := by
  obtain ⟨hpages, hframes⟩ := hsaved.pages_reload h hr
  have hnumbered : r.numberedPages = d.numberedPages := by simp only [numberedPages, hpages]
  unfold targets
  rw [hnumbered, List.map_filterMap]
  refine List.filterMap_congr fun e he => ?_
  obtain ⟨number, id⟩ := e
  simp only [(hframes id (List.of_mem_zip he).2).2.2]
  cases d.frame id <;> rfl

/-- The resources that recognised text is written with are those of the page, but for the fonts and for the
graphics state of that text. -/
theorem Sound.sameResources (h : d.Sound) {d₁ x : Document α} (hd₁ : Edit d.PageEntries d d₁)
    (hx : Edit d.PageEntries d x) (y : Document α) {p : ObjectId} (hp : p ∈ d.pages) (ha : d.CopiesApart p)
    {low : Nat} {frame : PageFrame α} {own : List ObjectId} {es : Dict α} {parts : LayerParts α}
    (hparts : HasLayer low o frame (d.pageResources p) (category d₁ (d.pageResources p)) own ms d' es parts) :
    SameResources (· ∈ d.reachable) parts.fonts.length x y (d.pageResources p) parts.resources where
  fonts key hkey := by
    rw [category_direct y hparts.fonts]
    exact h.category_matches hx hd₁ hp ha (by simp) (hparts.fontsIn.other key hkey)
  states key hkey := by
    rw [category_direct y hparts.states]
    refine h.category_matches hx hd₁ hp ha (by simp) ?_
    rw [Dict.set, Dict.find?_setBytes, if_neg hkey]
  other key hfont hstate := by
    refine (h.entriesWithin_resources hp).matchesAt (hparts.other key ?_)
    simp only [List.map_cons, List.map_nil, List.mem_cons, List.not_mem_nil, or_false, not_or]
    exact ⟨Ne.symm hfont, Ne.symm hstate⟩

/-- On a page that annotations were saved on the same annotations are saved alike. -/
theorem Saved.savedAlike (hsaved : Saved o d ms d') (h : d.Sound) (hr : d'.prune.Reloads r) {t : Target α}
    (ht : t ∈ targets d) (hcopies : ∀ number p, d.page number = .ok p → d.Receives ms number p → d.CopiesApart p)
    {home : ObjectId} {es : Dict α}
    (hl : d.locate t.id = .ok (home, .dict es)) : ∃ es' : Dict α, d'.locate t.id = .ok (home, .dict es') ∧
      SavedAlike (· ∈ d.reachable) o (ms.filter fun m => m.page = t.number) d r t (retarget r t) es es' := by
  have hp := id_mem_pages ht
  have hmem := ((hsaved.pages_reload h hr).2 t.id hp).1
  obtain ⟨es', hs', -, hlayer⟩ := hsaved.written t ht home es hl
  have hl' := h.locate hsaved.edit hp hl hs'
  have hd' : d'.getDict? t.id = some es' := getDict?_eq_some.mpr ⟨home, hl'⟩
  have hrd : r.getDict? t.id = some es' := (Agree.getDict? hr.agree d'.reachable_region hmem).trans hd'
  have hown := (hsaved.sameContent_reload h hr hp hl hl').streams
  refine ⟨es', hl', rfl, rfl, h.reachable_of_pages hp, hown, fun id hid =>
    Layer.mem_streams h.region (h.entriesWithin hp hl) (List.mem_of_mem_filter hid), fun hnone key hkey => ?_,
    fun hsome fonts program hplan x y hx _ => ?_⟩
  · rcases hlayer with ⟨-, hc, hres⟩ | ⟨hne, -⟩
    · have hcleared := hsaved.cleared_again h hr hp hl hd' hown hc hres
      rcases hkey with rfl | rfl
      · exact hcleared _ (by decide)
      · exact hcleared _ (by decide)
    · exact absurd hnone hne
  · rcases hlayer with ⟨hnone, -⟩ | ⟨-, d₁, parts, hedit, hparts⟩
    · exact absurd hnone hsome
    · have hfonts : parts.fonts = fonts := by
        have hplan' := hparts.plan
        rw [hplan] at hplan'
        exact (congrArg Prod.fst (Except.ok.inj hplan')).symm
      have hcopy : (retarget r t).resources = parts.resources := by
        rw [retarget, pageResources, resources?_direct hrd hparts.named]
        rfl
      obtain ⟨hnumber, hframe, hresources⟩ := mem_targets ht
      have ha : d.CopiesApart t.id := by
        obtain ⟨m, hm⟩ := List.exists_mem_of_ne_nil _ hsome
        obtain ⟨hm, hkind⟩ := List.mem_filter.mp hm
        obtain ⟨hm, hpage⟩ := List.mem_filter.mp hm
        exact hcopies t.number t.id (mem_numberedPages.mp hnumber)
          ⟨⟨t.frame, hframe⟩, m, hm, eq_of_beq hkind, of_decide_eq_true hpage⟩
      rw [hresources] at hparts ⊢
      rw [hcopy, ← hfonts]
      exact h.sameResources hedit hx y hp ha hparts

omit [Scalar α] in
theorem TreeSound.home?_ne (h : d.TreeSound) {p q home : ObjectId} {v : Object α} (hp : p ∈ d.pages) (hq : q ∈ d.pages)
    (hl : d.locate p = .ok (home, v)) (hne : q ≠ p) : d.home? q ≠ some home := fun he =>
  hne (List.inj_on_of_nodup_map h.pages_homes.1 hq hp (he.trans (home?_eq_some.mpr ⟨v, hl⟩).symm))

omit [Scalar α] in
theorem maxNumber_clearPages {d c : Document α} {ps : List ObjectId} (h : ps.foldlM clearPage d = .ok c) :
    c.maxNumber = d.maxNumber := by
  refine clearPages_inv (P := fun x => x.maxNumber = d.maxNumber) (fun p _ x x' hx hp => ?_) rfl h
  obtain ⟨home, es, -, rfl⟩ := clearPage_eq_ok.mp hp
  exact (maxNumber_put _ _ _).trans hx

/-- That two documents under way are ones whose pages were written on alike. -/
structure WrittenAlike (d r x y : Document α) : Prop where
  lockstep : Lockstep (· ∈ d.reachable) d.maxNumber r.maxNumber x y
  edit : Edit d.PageEntries d x
  edit' : Edit r.PageEntries r y
  pages : ∀ p ∈ d.pages, ∀ home, d.home? p = some home → ∃ gs gs' : Dict α, x.stored? home = some (.dict gs) ∧
    y.stored? home = some (.dict gs') ∧ ∀ key ∈ pageKeys,
      MatchesAt (Paired (· ∈ d.reachable) d.maxNumber r.maxNumber x.maxNumber) gs gs' (Syntax.ascii key)

/-- The pages of a document are written on once more. -/
theorem Saved.writtenAlike (hsaved : Saved o d ms d') (h : d.Sound)
    (hcopies : ∀ number p, d.page number = .ok p → d.Receives ms number p → d.CopiesApart p)
    (hr : d'.prune.Reloads r) (hrs : r.Sound) {c x : Document α} (hc : d.pages.foldlM clearPage d = .ok c)
    (hx : addPages o ms c (targets d) = .ok x) :
    ∃ c' y, r.pages.foldlM clearPage r = .ok c' ∧ addPages o ms c' (targets r) = .ok y ∧ WrittenAlike d r x y := by
  obtain ⟨z, hz, hclear, hcleared⟩ := cleared_pages h
  obtain rfl : z = c := Except.ok.inj (hz.symm.trans hc)
  obtain ⟨c', hc', hclear', hcleared'⟩ := cleared_pages hrs
  have hpages : r.pages = d.pages := (hsaved.pages_reload h hr).1
  have hloaded : ∀ p ∈ d.pages, ∀ home, ∀ es' : Dict α, d'.locate p = .ok (home, .dict es') →
      r.locate p = .ok (home, .dict es') := fun p hp home es' hl' => by
    have hmem := ((hsaved.pages_reload h hr).2 p hp).1
    exact locate_of_home? ((Keeps.home? hr.agree d'.reachable_region hmem).trans (home?_eq_some.mpr ⟨_, hl'⟩))
      ((Agree.stored? hr.agree (d'.reachable_region.home hmem hl')).trans (stored?_of_locate hl'))
  have hready : ∀ t ∈ targets d, ReadyAlike (· ∈ d.reachable) d.maxNumber r.maxNumber o ms d r
      z c' t (retarget r t) := by
    intro t ht
    have hp := id_mem_pages ht
    obtain ⟨home, es, hl⟩ := h.tree.pages_homes.2 t.id hp
    obtain ⟨es', hl', halike⟩ := hsaved.savedAlike h hr ht hcopies hl
    have hlr := hloaded t.id hp home es' hl'
    have hp' : t.id ∈ r.pages := hpages ▸ hp
    exact ⟨home, es, es', ⟨h, hp, hl, hclear, hcleared t.id hp home es hl⟩,
      ⟨hrs, hp', hlr, hclear', hcleared' t.id hp' home es' hlr⟩, halike, h.home_inUse hp hl, hrs.home_inUse hp' hlr⟩
  obtain ⟨y, hy, hlockstep, hedit, hedit', hwritten⟩ := addPages_lockstep
    (fun t => (rfl : (retarget r t).number = t.number))
    (targets_homes h.tree) (.start (maxNumber_clearPages hc) (maxNumber_clearPages hc')) hready hx
  have hids : ∀ p ∈ (targets d).map Target.id, p ∈ d.pages := fun p hp => (targets_sublist d).subset hp
  refine ⟨c', y, hc', hsaved.targets_reload h hr ▸ hy, hlockstep, hclear.trans (hedit.mono (entriesOf_page hids)),
    hclear'.trans (hedit'.mono (entriesOf_page fun p hp => hpages ▸ hids p hp)), fun p hp home hhome => ?_⟩
  by_cases ht : p ∈ (targets d).map Target.id
  · obtain ⟨t, htarget, rfl⟩ := List.mem_map.mp ht
    exact hwritten t htarget home hhome
  -- A page without a frame is cleared alone.
  · obtain ⟨home', es, hl⟩ := h.tree.pages_homes.2 p hp
    obtain rfl : home' = home := Option.some.inj ((home?_eq_some.mpr ⟨_, hl⟩).symm.trans hhome)
    obtain ⟨es', hs', hsame⟩ := hsaved.cleared p hp ht home' es hl
    have hl' := h.locate hsaved.edit hp hl hs'
    have hlr := hloaded p hp home' es' hl'
    have hp' : p ∈ r.pages := hpages ▸ hp
    have hcs : z.stored? home' = _ := hcleared p hp home' es hl
    have hcs' : c'.stored? home' = _ := hcleared' p hp' home' es' hlr
    have hne : ∀ q ∈ (targets d).map Target.id, q ≠ p := fun q hq he => ht (he ▸ hq)
    refine ⟨_, _, (stored?_elsewhere hedit (hclear.inUse (h.home_inUse hp hl)) fun q hq =>
        h.tree.home?_ne hp (hids q hq) hl (hne q hq)).trans hcs,
      (stored?_elsewhere hedit' (hclear'.inUse (hrs.home_inUse hp' hlr)) fun q hq =>
        hrs.tree.home?_ne hp' (hpages ▸ hids q hq) hlr (hne q hq)).trans hcs', fun key hkey => ?_⟩
    have hd' : d'.getDict? p = some es' := getDict?_eq_some.mpr ⟨home', hl'⟩
    have hown := (hsaved.sameContent_reload h hr hp hl hl').streams
    exact (hsaved.cleared_again h hr hp hl hd' hown (hsame _ (by decide))
      ((hsame _ (by decide)).trans (get?_resources_clearedEntries d es)) key hkey).mono fun _ _ => Same.paired

omit [Scalar α] in
/-- The form of a document is seen to once more if it was the first time. -/
theorem formed_again (h : d.Sound) (hrs : r.Sound) {x y : Document α} (hwritten : WrittenAlike d r x y)
    (hagree : Agree (· ∈ d'.reachable) d' r) {b : Bool}
    (hform : (if b then InteractiveForm.ensure x else .ok x) = .ok d') :
    ∃ e', (if b then InteractiveForm.ensure y else .ok y) = .ok e' ∧ InteractiveForm.FormedAlike d r x y d' e' := by
  cases b with
  | true => exact InteractiveForm.ensure_again h hrs hwritten.lockstep hwritten.edit hwritten.edit' hagree hform
  | false =>
    cases hform
    exact ⟨y, rfl, .refl hwritten.lockstep⟩

/-- Where the dictionary of a page is stored after annotations were saved one was stored before. -/
theorem Saved.isPageHome_reload (hsaved : Saved o d ms d') (h : d.Sound) (hr : d'.prune.Reloads r) {home : ObjectId}
    (hhome : r.IsPageHome home) : d.IsPageHome home := by
  obtain ⟨htree, -⟩ := h.tree.transfer (h.keeps hsaved.edit) h.region d.saveKeys_publicTree
  exact isPageHome_of_keeps (h.keeps hsaved.edit) h.region d.saveKeys_publicTree h.tree
    (isPageHome_of_keeps hr.agree d'.reachable_region Agree.publicTree htree hhome)

/-- What a document led to before annotations were saved in it is after the second time as it was after the first
one. -/
theorem Saved.kept_again {os : SaveOptions α} {e' x y : Document α} (hsaved : Saved o d ms d')
    (hagain : Saved os r ms e') (h : d.Sound) (hr : d'.prune.Reloads r)
    (hwritten : WrittenAlike d r x y) (hformed : InteractiveForm.FormedAlike d r x y d' e') {a : ObjectId}
    (ha : a ∈ d.reachable) (ha' : a ∈ d'.reachable) (har : r.InUse a) :
    Option.Rel (Matches (Paired (· ∈ d.reachable) d.maxNumber r.maxNumber d'.maxNumber)) (d'.stored? a)
      (e'.stored? a) := by
  have hloaded : r.stored? a = d'.stored? a := Agree.stored? hr.agree ha'
  have had := h.inUse a ha
  rcases (h.keeps hsaved.edit).stored a ha with ⟨-, hnone⟩ | ⟨v, w, hv, hw, hvw⟩
  · rcases hagain.edit.keeps.stored a har with ⟨-, hnone'⟩ | ⟨v, -, hv, -⟩
    · rw [hnone, hnone']
      exact .none
    · rw [hloaded, hnone] at hv
      cases hv
  · obtain ⟨w', hw', hww⟩ := hagain.edit.stored_alike har (hloaded.trans hw)
    rcases hww.dict? with ⟨hplain, -⟩ | ⟨gs, gs', rfl, rfl, -⟩
    -- What is no dictionary is what it was before.
    · obtain rfl : w = v := by
        cases hvw with
        | same => rfl
        | dict => cases hplain
      obtain rfl : w' = w := by
        cases hww with
        | same => rfl
        | dict => cases hplain
      rw [hw, hw']
      exact .some (.self fun id hid => .inl ⟨h.region.closed a w' ha hv id hid.mem_references, rfl⟩)
    · have hkept : ∃ es : Dict α, d.stored? a = some (.dict es) := by
        cases hvw with
        | same => exact ⟨gs, hv⟩
        | dict => exact ⟨_, hv⟩
      obtain ⟨es, hes⟩ := hkept
      obtain ⟨fs, hfs, hef⟩ := hwritten.edit.dict had hes
      obtain ⟨fs', hfs', hgf⟩ := hwritten.edit'.dict har (hloaded.trans hw)
      obtain ⟨_, _, hgs, hgs', hentries⟩ := hformed.entries a fs fs' had har hfs hfs'
      obtain rfl := Object.dict.inj (Option.some.inj (hgs.symm.trans hw))
      obtain rfl := Object.dict.inj (Option.some.inj (hgs'.symm.trans hw'))
      rw [hw, hw']
      refine .some (.of_entries fun key => ?_)
      by_cases hkey : d.PageEntries a key
      · obtain ⟨⟨p, hp, hhome⟩, hpage⟩ := hkey
        refine (hentries key).1 hpage ?_
        obtain ⟨name, hname, rfl⟩ := List.mem_map.mp hpage
        obtain ⟨_, _, hps, hps', hmatches⟩ := hwritten.pages p hp a hhome
        obtain rfl := Object.dict.inj (Option.some.inj (hps.symm.trans hfs))
        obtain rfl := Object.dict.inj (Option.some.inj (hps'.symm.trans hfs'))
        exact (hmatches name hname).mono fun _ _ hρ => hρ.mono hformed.maxNumber
      · have hkey' : ¬ r.PageEntries a key := fun hk => hkey ⟨hsaved.isPageHome_reload h hr hk.1, hk.2⟩
        refine (hentries key).2 (hgf key hkey') fun v hv i hi => ?_
        rw [hef key hkey] at hv
        exact entriesWithin_of_dict (h.region.closed a _ ha hes) rfl key v hv i hi

omit [Scalar α] in
/-- The number that an object has when annotations are saved in `r` once more that were saved in `d`: numbers of `d`
stay, and those that were added after them are added after the numbers of `r`. -/
def renumber (d r : Document α) (id : ObjectId) : ObjectId :=
  if id.number ≤ d.maxNumber then id else ⟨id.number - d.maxNumber + r.maxNumber, id.generation⟩

omit [Scalar α] in
theorem renumber_of_paired (h : d.Sound) {top : Nat} {a b : ObjectId}
    (hab : Paired (· ∈ d.reachable) d.maxNumber r.maxNumber top a b) : renumber d r a = b := by
  unfold renumber
  rcases hab with ⟨ha, rfl⟩ | ⟨j, hj, -, rfl, rfl⟩
  · exact if_pos (h.inUse b ha)
  · rw [if_neg (show ¬ d.maxNumber + j ≤ d.maxNumber by omega)]
    exact congrArg (ObjectId.mk · 0) (by dsimp only; omega)

omit [Scalar α] in
/-- Numbers that are in use in `r` have one number each that is paired with them. -/
theorem paired_injective {top : Nat} {a a' b : ObjectId} (ha : r.InUse a) (ha' : r.InUse a')
    (hab : Paired (· ∈ d.reachable) d.maxNumber r.maxNumber top a b)
    (hab' : Paired (· ∈ d.reachable) d.maxNumber r.maxNumber top a' b) : a = a' := by
  unfold InUse at ha ha'
  rcases hab with ⟨-, rfl⟩ | ⟨i, hi, -, rfl, rfl⟩ <;> rcases hab' with ⟨-, he⟩ | ⟨j, hj, -, rfl, he⟩
  · exact he
  · subst he
    dsimp only at ha
    omega
  · subst he
    dsimp only at ha'
    omega
  · have hij := congrArg ObjectId.number he
    dsimp only at hij
    congr 1
    omega

/-- Saving the same annotations once more, in the document that the saved one is loaded as, gives what was saved but
for the numbers of objects, and no more objects than before. -/
theorem save_again (h : d.Sound)
    (hcopies : ∀ number p, d.page number = .ok p → d.Receives ms number p → d.CopiesApart p) {w : Document α}
    (hw : d.save o ms = .ok w) (hr : w.Reloads r) (huse : ∀ id ∈ r.reachable, r.InUse id) :
    ∃ w', r.save o ms = .ok w' ∧ Renumbered (renumber d r) w w' ∧
      w'.catalogObjects.ncard = w.catalogObjects.ncard := by
  obtain ⟨c, x, d', hc, hx, hform, rfl⟩ := save_eq_ok.mp hw
  have hsaved := saved_of_written h hc hx hform
  have hrs := hsaved.sound_reload h hr huse
  obtain ⟨c', y, hc', hy, hwritten⟩ := hsaved.writtenAlike h hcopies hr hrs hc hx
  have hobjects : hasObjects (targets r) ms = hasObjects (targets d) ms := by
    rw [hsaved.targets_reload h hr, hasObjects, hasObjects, List.map_map]
    rfl
  obtain ⟨e', hform', hformed⟩ := formed_again h hrs hwritten hr.agree hform
  rw [← hobjects] at hform'
  have hagain := saved_of_written hrs hc' hy hform'
  have hreached : ∀ a, d'.FromCatalog a → a ∈ d'.reachable ∧ r.InUse a := fun a ha =>
    ⟨ha.within d'.reachable_region,
      huse a (((Agree.fromCatalog hr.agree d'.reachable_region).mpr ha).within r.reachable_region)⟩
  have hroot : MatchesAt (Paired (· ∈ d.reachable) d.maxNumber r.maxNumber d'.maxNumber) d'.trailer e'.trailer
      (Syntax.ascii "Root") := by
    refine .of_eq (hagain.edit.trailer ▸ hr.root) fun v hv id hid => .inl ⟨?_, rfl⟩
    rw [hsaved.edit.trailer] at hv
    exact d.reachable_closed.1 id (mem_entryReferences hv hid)
  have hrenumbered : Renumbered (renumber d r) d' e' := by
    refine .of_pairs (ρ := Paired (· ∈ d.reachable) d.maxNumber r.maxNumber d'.maxNumber)
      (fun a b => renumber_of_paired h)
      (fun a a' b ha ha' => paired_injective (hreached a ha).2 (hreached a' ha').2)
      hroot fun a b ha hab => ?_
    rcases hab with ⟨hd, rfl⟩ | hturn
    · exact hsaved.kept_again hagain h hr hwritten hformed hd (hreached b ha).1 (hreached b ha).2
    · exact hformed.lockstep.objects a b hturn
  have hpruned := hrenumbered.of_agree (prune_agree d') (prune_agree e')
  exact ⟨e'.prune, save_eq_ok.mpr ⟨c', y, e', hc', hy, hform', rfl⟩, hpruned, hpruned.ncard⟩

theorem save_again_twoPages : (twoPages ⟨5, 0⟩).Sound ∧
    (∀ number p, (twoPages ⟨5, 0⟩).page number = .ok p → (twoPages ⟨5, 0⟩).Receives severalMarks number p →
      (twoPages ⟨5, 0⟩).CopiesApart p) ∧
    ∃ w w', (twoPages ⟨5, 0⟩).save .default severalMarks = .ok w ∧ w.Reloads w.loaded ∧
      (∀ id ∈ w.loaded.reachable, w.loaded.InUse id) ∧ w.loaded.save .default severalMarks = .ok w' ∧
      Renumbered (renumber (twoPages ⟨5, 0⟩) w.loaded) w w' ∧ w'.catalogObjects.ncard = w.catalogObjects.ncard := by
  have hbare : ∀ p ∈ (twoPages ⟨5, 0⟩).pages, ((twoPages ⟨5, 0⟩).resources? (.page p)).isNone = true := by
    rw [twoPages_pages]
    decide +kernel
  have hcopies : ∀ number p, (twoPages ⟨5, 0⟩).page number = .ok p →
      (twoPages ⟨5, 0⟩).Receives severalMarks number p → (twoPages ⟨5, 0⟩).CopiesApart p := by
    intro number p hp _ resources hres
    obtain ⟨i, -, hi⟩ := page_eq_ok.mp hp
    rw [Option.isNone_iff_eq_none.mp (hbare p (List.mem_of_getElem? hi))] at hres
    cases hres
  have hfirst : ((twoPages ⟨5, 0⟩).save .default severalMarks).toOption.map
      (fun w => decide (∀ id ∈ w.loaded.reachable, id.number ≤ w.loaded.maxNumber)) = some true := by decide +kernel
  obtain ⟨w, hw, huse⟩ := Option.map_eq_some_iff.mp hfirst
  have hok : (twoPages ⟨5, 0⟩).save .default severalMarks = .ok w := by
    cases hs : (twoPages ⟨5, 0⟩).save .default severalMarks <;> rw [hs] at hw <;> cases hw
    rfl
  have hnumbers : ∀ id ∈ w.loaded.reachable, id.number ≤ w.loaded.maxNumber := of_decide_eq_true huse
  have hinUse : ∀ id ∈ w.loaded.reachable, w.loaded.InUse id := hnumbers
  obtain ⟨w', hw', hrenumbered, hcard⟩ :=
    save_again twoPages_sound hcopies hok (reloads_loaded w) hinUse
  exact ⟨twoPages_sound, hcopies, w, w', hok, reloads_loaded w, hinUse, hw', hrenumbered, hcard⟩

/-- Documents that are not the same again, each with two ways to objects: to the second page's content and to
the recognised text of the first page, which the second time is given the number of that content; and to an
annotation of the first page in its own dictionary and in the second page's fonts, which are copied from there. -/
def piling : List (Document (Exact .plain) × List (Mark (Exact .plain)) × List (List Object.Place) ×
    List (List Object.Place)) :=
  let parent : String × Object (Exact .plain) := ("Parent", .ref ⟨2, 0⟩)
  let text (page : Nat) : Mark (Exact .plain) :=
    { Mark.new .ocrText page lineBox "A" with fontFamily := "Helvetica" }
  let at_ (page : Nat) (places : List Object.Place) := [[.key "Pages"], [.key "Kids", .index page], places]
  [(pagesWith [parent] [parent, ("Contents", .ref ⟨11, 0⟩)] "" [], [text 1],
      at_ 1 [.key "Contents"], at_ 0 [.key "Contents", .index 1]),
    (pagesWith [parent] [parent, ("Resources", .ofEntries [("Font", .ref ⟨3, 0⟩)])] "" [],
      [Mark.new .highlight 1 lineBox "", text 2],
      at_ 0 [.key "Annots", .index 0], at_ 1 [.key "Resources", .key "Font", .key "Annots", .index 0])]

theorem save_again_piling : piling.Forall fun e => e.1.TreeSound ∧ ∃ w w', e.1.save .default e.2.1 = .ok w ∧
    w.Reloads w.loaded ∧ w.loaded.save .default e.2.1 = .ok w' ∧ ∀ f, ¬ Renumbered f w w' := by
  have hdiffer : ∀ e ∈ piling, ((e.1.save .default e.2.1).toOption.bind fun w =>
      (w.loaded.save .default e.2.1).toOption.bind fun w' =>
      (w.meet? e.2.2.1 e.2.2.2).map fun b => decide (w'.meet? e.2.2.1 e.2.2.2 = some b)) = some false := by
    decide +kernel
  have hok : ∀ {x : Except DocumentError (Document (Exact .plain))} {w}, x.toOption = some w → x = .ok w := by
    intro x w hx
    cases x <;> cases hx
    rfl
  rw [List.forall_iff_forall_mem]
  intro e he
  refine ⟨?_, ?_⟩
  · simp only [piling, List.mem_cons, List.not_mem_nil, or_false] at he
    rcases he with rfl | rfl <;> exact pagesWith_tree (by rfl) (by rfl)
  · obtain ⟨w, hw, hrest⟩ := Option.bind_eq_some_iff.mp (hdiffer e he)
    obtain ⟨w', hw', hrest⟩ := Option.bind_eq_some_iff.mp hrest
    obtain ⟨b, hb, hfalse⟩ := Option.map_eq_some_iff.mp hrest
    exact ⟨w, w', hok hw, reloads_loaded w, hok hw', fun f h => of_decide_eq_false hfalse (h.meet? hb)⟩

end Document

end Marginalia

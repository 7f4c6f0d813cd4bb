import Marginalia.Proofs.Document.Content
import Marginalia.Proofs.Mark.Layering
import Marginalia.Proofs.Mark.Saving

/-!
The programs of a page after annotations were saved: they find the forms and fonts that they found before,
and the content of the page is its own, with recognised text around it or not.
-/

namespace Marginalia

namespace MarkWriter

open Document

variable {α : Type}

/-- That a name is none of those that the fonts of recognised text are given. -/
def IsOwnName (key : Bytes) : Prop := ∀ i, key ≠ Syntax.ascii (fontName i)

theorem isOwnName_nil : IsOwnName [] := by
  intro i hi
  rw [fontName, Syntax.ascii_append] at hi
  cases hi

/-- The content of a page without the streams with a tag. -/
def ownContent (d : Document α) (es : Dict α) : Bytes := (ownStreams d es).flatMap d.contentData

theorem find?_category (d : Document α) (resources : Dict α) (key : String) (name : Bytes) :
    (category d resources key).find? name = d.entryIn? resources key name := by
  unfold category entryIn?
  cases resources.get? key with
  | none => rfl
  | some v =>
    simp only [Option.map_some, Option.bind_some]
    cases (d.deref v).dict? <;> rfl

end MarkWriter

namespace Document

open MarkWriter

variable {α : Type} {d d' : Document α}

/-- That saving sets nothing which the programs of a page read: no page is above it, and no forms or fonts
are in the dictionary of a page, in the catalog or in the form dictionary. -/
structure Apart [Scalar α] (d : Document α) (p : ObjectId) : Prop where
  above : ∀ es : Dict α, d.getDict? p = some es → ∀ home, d.Above es home → ¬ d.IsPageHome home
  names : NamesApart d.SaveKeys d p

theorem not_saveKeys_resources {home : ObjectId} (h : ¬ d.IsPageHome home) :
    ¬ d.SaveKeys home (Syntax.ascii "Resources") := by
  rintro (⟨hpage, -⟩ | ⟨-, hkey⟩)
  · exact h hpage
  · exact absurd hkey (by decide)

/-- The contents of a page are still near where they are as they were. -/
theorem ContentsNear.keeps {K : ObjectId → Bytes → Prop} {R : ObjectId → Prop} (h : Keeps K R d d')
    (hr : d.Region R) {es fs : Dict α} (hin : EntriesWithin R es) (hn : d.ContentsNear es)
    (hc : fs.get? "Contents" = es.get? "Contents") : d'.ContentsNear fs := by
  intro id home v hv hl
  rw [hc] at hv
  have hid : R id := hin _ _ hv id (by simp [Object.references])
  have hstored := stored?_of_locate hl
  rcases h.locateFrom hr maxReferences hid with ⟨e, -, hb⟩ | ⟨home', w, w', ha, hb, -⟩
  · rw [locate, hb] at hl
    cases hl
  · rw [locate, hb] at hl
    cases hl
    have hnear := hn id home w hv ha
    rcases h.locateFrom hr (maxContentSteps - 2) hid with ⟨e, ha', -⟩ | ⟨home'', x, x', ha', hb', -⟩
    · rw [hnear] at ha'
      cases ha'
    · rw [hnear] at ha'
      cases ha'
      rw [hb', Option.some.inj ((stored?_of_locateFrom hb').1.symm.trans hstored)]

theorem contentData_keeps {K : ObjectId → Bytes → Prop} {R : ObjectId → Prop} (h : Keeps K R d d')
    (hr : d.Region R) {id : ObjectId} (hid : R id) : d'.contentData id = d.contentData id := by
  simp only [contentData, h.getStream? hr hid]

theorem contentData_tagged {id : ObjectId} {tag : String} {data : Bytes}
    (h : d.stored? id = some (taggedStream tag data)) : d.contentData id = data := by
  rw [taggedStream_eq] at h
  rw [contentData_of_locate (locate_of_stored? h rfl)]
  have hfilter : (taggedEntries (α := α) tag data).get? "Filter" = none :=
    Option.isNone_iff_eq_none.mp (by simpa [Dict.has] using has_filter_taggedEntries (α := α) tag data)
  simp [StreamData.decode?, StreamData.decode, StreamData.filters, hfilter, bind, Except.bind,
    Except.toOption]

/-- The entry of a name in a category of a page's resources is the same in a copy of these resources. -/
theorem entryIn?_copy {K : ObjectId → Bytes → Prop} {R : ObjectId → Prop} (hk : Keeps K R d d')
    (hr : d.Region R) {p : ObjectId} (hp : R p) {copy : Dict α} {category : String}
    (hcopy : copy.get? category = (d.pageResources p).get? category)
    (ha : ∀ resources, d.resources? (.page p) = some resources → CategoryApart K d resources category)
    (name : Bytes) : d'.entryIn? copy category name = d.resource? (.page p) category name := by
  rw [resource?_eq]
  cases hres : d.resources? (.page p) with
  | none =>
    have hnone : copy.get? category = none := by
      rw [hcopy, pageResources, hres]
      rfl
    simp only [entryIn?, hnone, Option.bind_none]
  | some resources =>
    rw [pageResources, hres, Option.getD_some] at hcopy
    have hin : EntriesWithin R resources := hr.resources (fun id hid => by
      rcases hid with hid | hid <;> cases hid
      exact hp) hres
    exact hk.entryIn? hr hin hcopy (ha resources hres) name

variable [Scalar α] {o : SaveOptions α} {ms : List (Mark α)}

/-- Programs of a page without forms come to none. -/
theorem Visits.of_formless {p : ObjectId} (hforms : ∀ name, d.resource? (.page p) "XObject" name = none)
    {scope : Scope} (h : d.Visits p scope) : scope = .page p := by
  induction h with
  | page => rfl
  | form _ found ih =>
    rw [ih] at found
    simp [form?, hforms] at found

/-- A page without resources comes to no forms. -/
theorem Visits.of_bare {p : ObjectId} (hres : d.resources? (.page p) = none) {scope : Scope}
    (h : d.Visits p scope) : scope = .page p :=
  h.of_formless fun name => by rw [resource?_eq, hres, Option.bind_none]

theorem Apart.of_bare {p : ObjectId} (hres : d.resources? (.page p) = none)
    (habove : ∀ es : Dict α, d.getDict? p = some es → ∀ home, d.Above es home → ¬ d.IsPageHome home) :
    d.Apart p := by
  refine ⟨habove, fun scope hv resources he => ?_⟩
  rw [hv.of_bare hres, hres] at he
  cases he

/-- A page after annotations were saved: its dictionary is where it was, and there is recognised text on it
or its content and its resources are its own. -/
inductive PageSaved (o : SaveOptions α) (d : Document α) (ms : List (Mark α)) (d' : Document α)
    (p : ObjectId) (es es' : Dict α) : Prop where
  | plain (unread : ∀ t ∈ targets d, t.id = p → layerMarks (ms.filter fun m => m.page = t.number) = [])
      (contents : es'.get? "Contents" = (clearedEntries d es).get? "Contents")
      (resources : es'.get? "Resources" = es.get? "Resources")
  | layered {t : Target α} {d₁ : Document α} {parts : LayerParts α} (target : t ∈ targets d) (page : t.id = p)
      (read : layerMarks (ms.filter fun m => m.page = t.number) ≠ []) (edit : Edit d.PageEntries d d₁)
      (layer : HasLayer d.maxNumber o t.frame t.resources (category d₁ t.resources)
        (ownStreams d es) (layerMarks (ms.filter fun m => m.page = t.number)) d' es' parts)

theorem Saved.page (hsaved : Saved o d ms d') (h : d.Sound) {p home : ObjectId} {es : Dict α}
    (hp : p ∈ d.pages) (hl : d.locate p = .ok (home, .dict es)) :
    ∃ es' : Dict α, d'.locate p = .ok (home, .dict es') ∧
      (∀ key, ¬ d.SaveKeys home key → es'.find? key = es.find? key) ∧ PageSaved o d ms d' p es es' := by
  have hkept : ∀ es' : Dict α, d'.stored? home = some (.dict es') →
      ∀ key, ¬ d.SaveKeys home key → es'.find? key = es.find? key := by
    intro es' hs'
    obtain ⟨fs, hfs, hef⟩ := hsaved.edit.dict (h.home_inUse hp hl) (stored?_of_locate hl)
    rw [hs'] at hfs
    cases hfs
    exact hef
  by_cases ht : p ∈ (targets d).map Target.id
  · obtain ⟨t, hmem, rfl⟩ := List.mem_map.mp ht
    obtain ⟨es', hs', -, hlayer⟩ := hsaved.written t hmem home es hl
    refine ⟨es', h.locate hsaved.edit hp hl hs', hkept es' hs', ?_⟩
    rcases hlayer with ⟨hnone, hc, hr⟩ | ⟨hsome, d₁, parts, hedit, hparts⟩
    · refine .plain (fun t' ht' he => ?_) hc hr
      have hsame : t' = t := List.inj_on_of_nodup_map
        ((targets_sublist d).nodup h.tree.pages_homes.1.of_map) ht' hmem he
      rw [hsame, hnone]
    · exact .layered hmem rfl hsome hedit hparts
  · obtain ⟨es', hs', hsame⟩ := hsaved.cleared p hp ht home es hl
    refine ⟨es', h.locate hsaved.edit hp hl hs', hkept es' hs', .plain (fun t ht' he => ?_) ?_ ?_⟩
    · exact absurd (List.mem_map.mpr ⟨t, ht', he⟩) ht
    · exact hsame _ (by decide)
    · rw [hsame _ (by decide), get?_resources_clearedEntries]

/-- A page on which there is no recognised text has the forms and fonts that it had. -/
theorem resource?_plain (hsaved : Saved o d ms d') (h : d.Sound) {p home : ObjectId} {es es' : Dict α}
    (hp : p ∈ d.pages) (ha : d.Apart p) (hl : d.locate p = .ok (home, .dict es))
    (hl' : d'.locate p = .ok (home, .dict es'))
    (hparent : es'.get? "Parent" = es.get? "Parent") (hres : es'.get? "Resources" = es.get? "Resources")
    (name : Bytes) : d'.resource? (.page p) "XObject" name = d.resource? (.page p) "XObject" name ∧
      d'.resource? (.page p) "Font" name = d.resource? (.page p) "Font" name := by
  have hd : d.getDict? p = some es := getDict?_eq_some.mpr ⟨home, hl⟩
  have hd' : d'.getDict? p = some es' := getDict?_eq_some.mpr ⟨home, hl'⟩
  have habove : ∀ home, d.Above es home → ¬ d.SaveKeys home (Syntax.ascii "Resources") :=
    fun home ha' => not_saveKeys_resources (ha.above es hd home ha')
  have hpublic : Public d.SaveKeys "Parent" := d.saveKeys_publicTree.parent
  have halike := (h.keeps hsaved.edit).resources?_page h.region (h.reachable_of_pages hp) hd hd' hres hparent
    habove hpublic
  exact ⟨(h.keeps hsaved.edit).resource?_alike h.region halike d.saveKeys_publicResources.xObject
      (fun resources he => (ha.names _ .page resources he).1) name,
    (h.keeps hsaved.edit).resource?_alike h.region halike d.saveKeys_publicResources.font
      (fun resources he => (ha.names _ .page resources he).2) name⟩

/-- The programs of a page on which there is no recognised text find what they found. -/
theorem finds_plain (hsaved : Saved o d ms d') (h : d.Sound) {p home : ObjectId} {es es' : Dict α}
    (hp : p ∈ d.pages) (ha : d.Apart p) (hl : d.locate p = .ok (home, .dict es))
    (hl' : d'.locate p = .ok (home, .dict es')) (hparent : es'.get? "Parent" = es.get? "Parent")
    (hres : es'.get? "Resources" = es.get? "Resources") : Finds (fun _ => True) p d d' :=
  (h.keeps hsaved.edit).finds h.region d.saveKeys_publicResources (h.reachable_of_pages hp) ha.names
    (fun name => (resource?_plain hsaved h hp ha hl hl' hparent hres name).1)
    fun key _ => (resource?_plain hsaved h hp ha hl hl' hparent hres key).2

/-- A page with recognised text has the fonts that it had, but for those of that text. -/
theorem resource?_layered (h : d.Sound) {p home : ObjectId} {es' : Dict α} (hp : p ∈ d.pages)
    (ha : d.Apart p) (hl' : d'.locate p = .ok (home, .dict es')) {low : Nat} {frame : PageFrame α}
    {d₁ : Document α} (hedit : Edit d.PageEntries d d₁) {own : List ObjectId} {ns : List (Mark α)}
    {parts : LayerParts α} (hparts : HasLayer low o frame (d.pageResources p)
      (category d₁ (d.pageResources p)) own ns d' es' parts) {key : Bytes}
    (hkey : ∀ i < parts.fonts.length, key ≠ Syntax.ascii (fontName i)) :
    d'.resource? (.page p) "Font" key = d.resource? (.page p) "Font" key := by
  rw [hparts.resource_font (getDict?_eq_some.mpr ⟨home, hl'⟩), hparts.fontsIn.other key hkey, find?_category]
  refine entryIn?_copy (h.keeps hedit) h.region (h.reachable_of_pages hp) rfl (fun resources he => ?_) key
  exact fun id at_ hid hat key hk => (ha.names _ .page resources he).2 id at_ hid hat key (.inl hk)

/-- The programs of a page with recognised text find what they found, but for the fonts of that text. -/
theorem finds_layered (hsaved : Saved o d ms d') (h : d.Sound) {p home : ObjectId} {es' : Dict α}
    (hp : p ∈ d.pages) (ha : d.Apart p) (hl' : d'.locate p = .ok (home, .dict es')) {low : Nat}
    {frame : PageFrame α} {d₁ : Document α} (hedit : Edit d.PageEntries d d₁) {own : List ObjectId}
    {ns : List (Mark α)} {parts : LayerParts α}
    (hparts : HasLayer low o frame (d.pageResources p) (category d₁ (d.pageResources p)) own ns d'
      es' parts) : Finds IsOwnName p d d' := by
  have hd' : d'.getDict? p = some es' := getDict?_eq_some.mpr ⟨home, hl'⟩
  have hpage : p ∈ d.reachable := h.reachable_of_pages hp
  refine (h.keeps hsaved.edit).finds h.region d.saveKeys_publicResources hpage ha.names
    (fun name => ?_) fun key hkey => ?_
  · have hcopy : parts.resources.get? "XObject" = (d.pageResources p).get? "XObject" :=
      hparts.other _ (by decide)
    rw [resource?_eq, hparts.resources_page hd', Option.bind_some]
    exact entryIn?_copy (h.keeps hsaved.edit) h.region hpage hcopy
      (fun resources he => (ha.names _ .page resources he).1) name
  · exact resource?_layered h hp ha hl' hedit hparts fun i _ => hkey i

/-- The contents of a page that was cleared are near if they were. -/
theorem ContentsNear.cleared (hsaved : Saved o d ms d') (h : d.Sound) {p home : ObjectId} {es es' : Dict α}
    (hp : p ∈ d.pages) (hl : d.locate p = .ok (home, .dict es)) (hn : d.ContentsNear es)
    (hc : es'.get? "Contents" = (clearedEntries d es).get? "Contents") : d'.ContentsNear es' := by
  unfold clearedEntries at hc
  split at hc
  · rw [Dict.get?_erase_of_ne es (by decide)] at hc
    exact hn.keeps (h.keeps hsaved.edit) h.region (h.entriesWithin hp hl) hc
  · rw [Dict.get?_set_self] at hc
    intro id home v hv
    rw [hc] at hv
    cases hv

omit [Scalar α] in
/-- The streams of a page's own content still have no tag. -/
theorem own_untagged (h : d.Sound) {K : ObjectId → Bytes → Prop} (he : Edit K d d') {p home : ObjectId}
    (hp : p ∈ d.pages) {es : Dict α} (hl : d.locate p = .ok (home, .dict es)) :
    ∀ id ∈ ownStreams d es, Layer.tag? d' id = none := by
  intro id hid
  obtain ⟨hin, htag⟩ := List.mem_filter.mp hid
  rw [Layer.tag?_keeps (h.keeps he) h.region (Layer.mem_streams h.region (h.entriesWithin hp hl) hin)]
  exact Option.isNone_iff_eq_none.mp htag

/-- A page that was cleared has no programs of recognised text. -/
theorem layerPrograms_cleared (hsaved : Saved o d ms d') (h : d.Sound) {p home : ObjectId} {es es' : Dict α}
    (hp : p ∈ d.pages) (hl : d.locate p = .ok (home, .dict es))
    (hc : es'.get? "Contents" = (clearedEntries d es).get? "Contents") :
    MarkReader.layerPrograms d' es' = [] := by
  have hstreams := streams_cleared (h.keeps hsaved.edit) h.region (h.entriesWithin hp hl) hc
  have hempty : (ownStreams d es).filter
      (fun id => Layer.tag? d' id == some (Syntax.ascii Layer.textTag)) = [] := by
    rw [List.filter_eq_nil_iff]
    intro id hid
    simp [own_untagged h hsaved.edit hp hl id hid]
  simp only [MarkReader.layerPrograms, hstreams, hempty, List.filterMap_nil]

/-- The content of a page on which there is no recognised text is its own. -/
theorem pageContent_plain (hsaved : Saved o d ms d') (h : d.Sound) {p home : ObjectId} {es es' : Dict α}
    (hp : p ∈ d.pages) (hl : d.locate p = .ok (home, .dict es)) (hl' : d'.locate p = .ok (home, .dict es'))
    (hn : d.ContentsNear es) (hc : es'.get? "Contents" = (clearedEntries d es).get? "Contents") :
    d'.pageContent p = ownContent d es := by
  have hkeeps := h.keeps hsaved.edit
  have hin := h.entriesWithin hp hl
  have hnear : d'.ContentsNear es' := hn.cleared hsaved h hp hl hc
  rw [pageContent_eq (getDict?_eq_some.mpr ⟨home, hl'⟩) hnear, streams_cleared hkeeps h.region hin hc,
    ownContent]
  refine List.flatMap_congr fun id hid => contentData_keeps hkeeps h.region ?_
  exact Layer.mem_streams h.region hin (List.mem_of_mem_filter hid)

/-- The content of a page with recognised text saves the initial state, is the page's own, and draws the
text. -/
theorem pageContent_layered (hsaved : Saved o d ms d') (h : d.Sound) {p home : ObjectId} {es es' : Dict α}
    (hp : p ∈ d.pages) (hl : d.locate p = .ok (home, .dict es)) (hl' : d'.locate p = .ok (home, .dict es'))
    {low : Nat} {frame : PageFrame α} {resources : Dict α} {base : String → Dict α} {ns : List (Mark α)}
    {parts : LayerParts α}
    (hparts : HasLayer low o frame resources base (ownStreams d es) ns d' es' parts) :
    d'.pageContent p = Syntax.ascii "q\n" ++ ownContent d es ++ 0x0A :: printProgram parts.whole := by
  have hnear : d'.ContentsNear es' := by
    intro id home v hv
    rw [hparts.contents] at hv
    cases hv
  have hown : (ownStreams d es).flatMap d'.contentData = ownContent d es :=
    List.flatMap_congr fun id hid => contentData_keeps (h.keeps hsaved.edit) h.region
      (Layer.mem_streams h.region (h.entriesWithin hp hl) (List.mem_of_mem_filter hid))
  rw [pageContent_eq (getDict?_eq_some.mpr ⟨home, hl'⟩) hnear, hparts.streams, List.flatMap_append,
    List.flatMap_cons, contentData_tagged hparts.guard, hown, List.flatMap_singleton,
    contentData_tagged hparts.text]

/-- That a page has the same content in another document, but for the streams with a tag. -/
structure SameContent (d r : Document α) (es es' : Dict α) : Prop where
  streams : ownStreams r es' = ownStreams d es
  bytes : ∀ id ∈ ownStreams d es, r.getStream? id = d.getStream? id

namespace SameContent

variable {r : Document α} {es es' es'' : Dict α}

omit [Scalar α] in
theorem trans (h : SameContent d d' es es') (h' : SameContent d' r es' es'') : SameContent d r es es'' where
  streams := h'.streams.trans h.streams
  bytes := fun id hid => (h'.bytes id (h.streams ▸ hid)).trans (h.bytes id hid)

omit [Scalar α] in
theorem symm (h : SameContent d r es es') : SameContent r d es' es where
  streams := h.streams.symm
  bytes := fun id hid => (h.bytes id (h.streams ▸ hid)).symm

omit [Scalar α] in
theorem ownContent_eq (h : SameContent d r es es') : ownContent r es' = ownContent d es := by
  unfold ownContent
  rw [h.streams]
  exact List.flatMap_congr fun id hid => by simp only [contentData, h.bytes id hid]

omit [Scalar α] in
theorem of_agree {R : ObjectId → Prop} (h : Agree R d d') (hr : d.Region R) {p : ObjectId} (hp : R p)
    (hd : d.getDict? p = some es) : SameContent d d' es es := by
  have hin := hr.entriesWithin hp hd
  have hids : ∀ id ∈ Layer.streams d es, R id := fun id hid => Layer.mem_streams hr hin hid
  refine ⟨?_, fun id hid => Keeps.getStream? h hr (hids id (List.mem_of_mem_filter hid))⟩
  unfold ownStreams
  rw [Layer.streams_keeps h hr hin rfl]
  exact List.filter_congr fun id hid => by rw [Layer.tag?_keeps h hr (hids id hid)]

/-- Saving leaves the content of pages as it was. -/
theorem of_saved (hsaved : Saved o d ms d') (h : d.Sound) {p home : ObjectId} (hp : p ∈ d.pages)
    (hl : d.locate p = .ok (home, .dict es)) (hpage : PageSaved o d ms d' p es es') :
    SameContent d d' es es' := by
  have hkeeps := h.keeps hsaved.edit
  have hin := h.entriesWithin hp hl
  refine ⟨?_, fun id hid => hkeeps.getStream? h.region
    (Layer.mem_streams h.region hin (List.mem_of_mem_filter hid))⟩
  have hown : (ownStreams d es).filter (fun id => (Layer.tag? d' id).isNone) = ownStreams d es := by
    rw [List.filter_eq_self]
    intro id hid
    obtain ⟨hmem, htag⟩ := List.mem_filter.mp hid
    rwa [Layer.tag?_keeps hkeeps h.region (Layer.mem_streams h.region hin hmem)]
  cases hpage with
  | plain _ hc _ => rw [ownStreams, streams_cleared hkeeps h.region hin hc, hown]
  | layered _ _ _ _ hparts =>
    rw [ownStreams, hparts.streams, List.cons_append, List.filter_cons, hparts.tag_guard, List.filter_append,
      hown, List.filter_cons, hparts.tag_text]
    simp

end SameContent

/-- The pages of a saved document are those it had, with the frames that they had, and so are those of the
document that its file is loaded as. -/
theorem Saved.pages_reload {r : Document α} (hsaved : Saved o d ms d') (h : d.Sound)
    (hr : d'.prune.Reloads r) : r.pages = d.pages ∧
      ∀ p ∈ d.pages, p ∈ d'.reachable ∧ d'.frame p = d.frame p ∧ r.frame p = d.frame p := by
  have hkeeps := h.keeps hsaved.edit
  obtain ⟨htree, hpages, hin⟩ := h.tree.transfer hkeeps h.region d.saveKeys_publicTree
  obtain ⟨-, hpages', hin'⟩ := htree.transfer hr.agree d'.reachable_region Agree.publicTree
  refine ⟨hpages'.trans hpages, fun p hp => ?_⟩
  have hmem : p ∈ d'.reachable := hin' p (hpages ▸ hp)
  have hframe := hkeeps.frame h.region d.saveKeys_publicTree (hin p hp)
  exact ⟨hmem, hframe,
    (Keeps.frame hr.agree d'.reachable_region Agree.publicTree hmem).trans hframe⟩

/-- A page has the content that it had, once annotations were saved and the document loaded again. -/
theorem Saved.sameContent_reload {r : Document α} (hsaved : Saved o d ms d') (h : d.Sound)
    (hr : d'.prune.Reloads r) {p home : ObjectId} {es es' : Dict α} (hp : p ∈ d.pages)
    (hl : d.locate p = .ok (home, .dict es)) (hl' : d'.locate p = .ok (home, .dict es')) :
    SameContent d r es es' := by
  obtain ⟨es'', hl'', -, hpage⟩ := hsaved.page h hp hl
  cases hl'.symm.trans hl''
  exact (SameContent.of_saved hsaved h hp hl hpage).trans (.of_agree hr.agree d'.reachable_region
    ((hsaved.pages_reload h hr).2 p hp).1 (getDict?_eq_some.mpr ⟨home, hl'⟩))

/-- That a program on a page and the forms that it comes to select only fonts with names in `P`. -/
structure SelectsOnly (P : Bytes → Prop) (d : Document α) (p : ObjectId) (ops : List (Operation α)) :
    Prop where
  own : ∀ op ∈ ops, op.SelectsIn P
  forms : ∀ scope name f, d.Visits p scope → d.form? scope name = some f →
    ∀ op ∈ decodeOperations (α := α) f.content, op.SelectsIn P

/-- A program draws the same where the names that it uses stand for the same. -/
theorem Finds.runAll {P : Bytes → Prop} {p : ObjectId} {ops : List (Operation α)} (h : Finds P p d d')
    (hs : SelectsOnly P d p ops) (hnil : P []) (frame : PageFrame α) (nesting : Nat) :
    Machine.runAll d'.resolver frame nesting (.page p) ops .initial =
      Machine.runAll d.resolver frame nesting (.page p) ops .initial :=
  (Machine.runAll_agree (h.agreeOn h.onPage hs.forms) nesting (.page p) .page hs.own
    ⟨hnil, fun _ hg => absurd hg List.not_mem_nil⟩).1

theorem selectsOnly_true (d : Document α) (p : ObjectId) (ops : List (Operation α)) :
    SelectsOnly (fun _ => True) d p ops :=
  ⟨fun _ _ _ _ _ => trivial, fun _ _ _ _ _ _ _ _ _ _ => trivial⟩

theorem resolver_operations (d : Document α) : d.resolver.operations = decodeOperations := rfl

/-- What a page draws is what its content draws in its frame. -/
theorem runs_pageProgram (d : Document α) (p : ObjectId) (nesting : Nat) :
    (d.pageProgram p).runs d.resolver nesting = (d.frame p).map fun frame =>
      (Machine.runAll d.resolver frame nesting (.page p) (decodeOperations (d.pageContent p))
        .initial).runs := by
  unfold PageProgram.runs pageProgram
  rw [resolver_operations]
  cases d.frame p with
  | error e => simp only [Except.map]
  | ok frame => simp only [Except.map]

/-- The text of a page is what its content draws in its frame. -/
theorem textRuns_eq (d : Document α) (number nesting : Nat) :
    d.textRuns number nesting = (d.page number).bind fun p => (d.frame p).map fun frame =>
      (Machine.runAll d.resolver frame nesting (.page p) (decodeOperations (d.pageContent p))
        .initial).runs := by
  unfold Document.textRuns
  simp only [bind, runs_pageProgram]

/-- The text of a page in a document with the same page tree. -/
theorem textRuns_keeps {K : ObjectId → Bytes → Prop} {R : ObjectId → Prop} (hk : Keeps K R d d')
    (hr : d.Region R) (hpublic : PublicTree K) (ht : d.TreeSound) (number nesting : Nat) :
    d'.textRuns number nesting = (d.page number).bind fun p => (d.frame p).map fun frame =>
      (Machine.runAll d'.resolver frame nesting (.page p) (decodeOperations (d'.pageContent p))
        .initial).runs := by
  obtain ⟨-, hpages, hin⟩ := ht.transfer hk hr hpublic
  have hpage : d'.page number = d.page number := by simp only [page, pageCount, hpages]
  rw [textRuns_eq, hpage]
  cases hp : d.page number with
  | error e => simp only [Except.bind]
  | ok p =>
    obtain ⟨i, -, hi⟩ := page_eq_ok.mp hp
    have hframe : d'.frame p = d.frame p := hk.frame hr hpublic (hin p (List.mem_of_getElem? hi))
    simp only [Except.bind, hframe]

/-- What is drawn on the pages of a saved document is drawn on those of the document that its file is loaded
as. -/
theorem Saved.textRuns_reload {r : Document α} (hsaved : Saved o d ms d') (h : d.Sound)
    (hr : d'.prune.Reloads r) (number nesting : Nat) :
    r.textRuns number nesting = d'.textRuns number nesting := by
  obtain ⟨htree, -, -⟩ := h.tree.transfer (h.keeps hsaved.edit) h.region d.saveKeys_publicTree
  exact Agree.textRuns hr.agree d'.reachable_region htree number nesting

/-- The text of a page on which there is no recognised text is what its own content drew. -/
theorem Saved.textRuns_plain (hsaved : Saved o d ms d') (h : d.Sound) {number : Nat} {p home : ObjectId}
    {es es' : Dict α} (hp : d.page number = .ok p) (ha : d.Apart p) (hl : d.locate p = .ok (home, .dict es))
    (hl' : d'.locate p = .ok (home, .dict es')) (hn : d.ContentsNear es)
    (hparent : es'.get? "Parent" = es.get? "Parent")
    (hc : es'.get? "Contents" = (clearedEntries d es).get? "Contents")
    (hres : es'.get? "Resources" = es.get? "Resources") (nesting : Nat) :
    d'.textRuns number nesting = (d.frame p).map fun frame =>
      (Machine.runAll d.resolver frame nesting (.page p) (decodeOperations (ownContent d es))
        .initial).runs := by
  obtain ⟨i, -, hi⟩ := page_eq_ok.mp hp
  have hmem : p ∈ d.pages := List.mem_of_getElem? hi
  have hfinds := finds_plain hsaved h hmem ha hl hl' hparent hres
  rw [textRuns_keeps (h.keeps hsaved.edit) h.region d.saveKeys_publicTree h.tree, hp]
  simp only [Except.bind, pageContent_plain hsaved h hmem hl hl' hn hc,
    hfinds.runAll (selectsOnly_true d p _) trivial]

end Document

end Marginalia

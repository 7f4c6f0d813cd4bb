import Marginalia.Proofs.Mark.OwnText

/-!
Documents in which the dictionaries that saving changes stand for nothing else. They stay such documents when
annotations are saved in them, and when they are written and loaded again.
-/

namespace Marginalia

namespace Document

open MarkWriter

variable {α : Type} {K : ObjectId → Bytes → Prop} {R : ObjectId → Prop} {d d' : Document α}

/-- A dictionary that a number leads to is the one that it led to before, but for private entries. -/
theorem Keeps.locate_dict (h : Keeps K R d d') (hr : d.Region R) {id home : ObjectId} (hid : R id)
    {fs : Dict α} (hl : d'.locate id = .ok (home, .dict fs)) :
    ∃ es : Dict α, d.locate id = .ok (home, .dict es) ∧
      ∀ key, ¬ K home key → fs.find? key = es.find? key := by
  rcases h.getDict? hr hid with ⟨-, hb⟩ | ⟨home', es, fs', hl', -, hb, hef⟩
  · rw [getDict?_eq_some.mpr ⟨home, hl⟩] at hb
    cases hb
  · have hsame := h.home? hr hid
    rw [home?_eq_some.mpr ⟨_, hl⟩, home?_eq_some.mpr ⟨_, hl'⟩] at hsame
    cases hsame
    rw [getDict?_eq_some.mpr ⟨home, hl⟩] at hb
    cases hb
    exact ⟨es, hl', hef⟩

/-- What is above a dictionary was above it before. -/
theorem Above.of_keeps (h : Keeps K R d d') (hr : d.Region R) (hp : Public K "Parent") {es fs : Dict α}
    (hin : EntriesWithin R es) (hparent : fs.get? "Parent" = es.get? "Parent") {home : ObjectId}
    (ha : d'.Above fs home) : d.Above es home := by
  induction ha generalizing es with
  | parent link found =>
    rw [hparent] at link
    obtain ⟨es', hl, -⟩ := h.locate_dict hr (hin _ _ link _ (by simp [Object.references])) found
    exact .parent link hl
  | @further fs fs' id home₁ home₂ link found above ih =>
    rw [hparent] at link
    have hid : R id := hin _ _ link _ (by simp [Object.references])
    obtain ⟨es', hl, hef⟩ := h.locate_dict hr hid found
    exact .further link hl
      (ih (hr.entriesWithin hid (getDict?_eq_some.mpr ⟨_, hl⟩)) (hef _ (hp home₁)))

/-- Where a page is stored a page was stored. -/
theorem isPageHome_of_keeps (h : Keeps K R d d') (hr : d.Region R) (hk : PublicTree K) (ht : d.TreeSound)
    {home : ObjectId} (hhome : d'.IsPageHome home) : d.IsPageHome home := by
  obtain ⟨-, hpages, hin⟩ := ht.transfer h hr hk
  obtain ⟨p, hp, hph⟩ := hhome
  rw [hpages] at hp
  exact ⟨p, hp, (h.home? hr (hin p hp)).symm.trans hph⟩

/-- A page is apart from what saving changes in a document that differs only in private entries, if the form
dictionary is none but before and the page's resources have their forms and fonts where they had them. -/
theorem Apart.of_keeps [Scalar α] {P : Bytes → Prop} (h : Keeps K R d d') (hr : d.Region R)
    (hk : PublicTree K) (hk' : PublicResources K) (ht : d.TreeSound) {p : ObjectId} (hp : p ∈ d.pages)
    (hfinds : Finds P p d d') (hform : ∀ home, d'.IsFormHome home → d.IsFormHome home)
    (hpage : ∀ fs, d'.resources? (.page p) = some fs → ∀ category ∈ ["XObject", "Font"], ∀ id,
      fs.get? category = some (.ref id) →
        ∃ es, d.resources? (.page p) = some es ∧ es.get? category = some (.ref id))
    (ha : d.Apart p) : d'.Apart p := by
  have hpR : R p := (ht.transfer h hr hk).2.2 p hp
  have hkeys : ∀ home key, d'.SaveKeys home key → d.SaveKeys home key := by
    rintro home key (⟨hhome, hkey⟩ | ⟨hhome, hkey⟩)
    · exact .inl ⟨isPageHome_of_keeps h hr hk ht hhome, hkey⟩
    · exact .inr ⟨hform home hhome, hkey⟩
  refine ⟨fun fs hd' home habove hhome => ?_, fun scope hv fs hfs => ?_⟩
  · obtain ⟨home', hl'⟩ := getDict?_eq_some.mp hd'
    obtain ⟨es, hl, hef⟩ := h.locate_dict hr hpR hl'
    have hd : d.getDict? p = some es := getDict?_eq_some.mpr ⟨home', hl⟩
    exact ha.above es hd home (habove.of_keeps h hr hk.parent (hr.entriesWithin hpR hd)
      (hef _ (hk.parent home'))) (isPageHome_of_keeps h hr hk ht hhome)
  · have hv' := hfinds.visits.mp hv
    have hfound : ∀ category ∈ ["XObject", "Font"], Public K category → ∀ id,
        fs.get? category = some (.ref id) →
          ∃ es, d.resources? scope = some es ∧ es.get? category = some (.ref id) := by
      intro category hcategory hpublic id hid
      rcases hv'.page_or_form with rfl | ⟨form, rfl⟩
      · exact hpage fs hfs category hcategory id hid
      · rcases h.resources?_form hr (hv'.within hr hpR form (.inr rfl)) with ⟨-, hn⟩ | ⟨es, fs', hx, hy, -, hef⟩
        · rw [hfs] at hn
          cases hn
        · rw [hfs] at hy
          cases hy
          exact ⟨es, hx, (hef _ hpublic).symm.trans hid⟩
    have happart : ∀ category ∈ ["XObject", "Font"], Public K category →
        (∀ es, d.resources? scope = some es → CategoryApart d.SaveKeys d es category) →
        CategoryApart d'.SaveKeys d' fs category := by
      intro category hcategory hpublic hbefore id home hid hhome key hkey
      obtain ⟨es, hes, hid'⟩ := hfound category hcategory hpublic id hid
      have hin := hr.resources (hv'.within hr hpR) hes _ _ hid' id (by simp [Object.references])
      exact hbefore es hes id home hid' ((h.home? hr hin).symm.trans hhome) key (hkeys home key hkey)
    exact ⟨happart _ (by simp) hk'.xObject fun es hes => (ha.names scope hv' es hes).1,
      happart _ (by simp) hk'.font fun es hes => (ha.names scope hv' es hes).2⟩

/-- Where documents agree a page is apart in one if it is in the other. -/
theorem Agree.apart [Scalar α] (h : Agree R d d') (hr : d.Region R) (ht : d.TreeSound) {p : ObjectId}
    (hp : p ∈ d.pages) (ha : d.Apart p) : d'.Apart p := by
  have hpR : R p := (ht.transfer h hr Agree.publicTree).2.2 p hp
  refine ha.of_keeps h hr Agree.publicTree Agree.publicResources ht hp (h.finds hr hpR) ?_ ?_
  · rintro home ⟨root, hroot, hform⟩
    rw [h.root] at hroot
    have hin := hr.root root hroot
    rcases hform with hform | ⟨form, href, hform⟩
    · exact ⟨root, hroot, .inl ((h.home? hr hin).symm.trans hform)⟩
    · rw [h.getDict? hr hin] at href
      obtain ⟨entries, hentries, hentry⟩ := Option.bind_eq_some_iff.mp href
      have hformR : R form := hr.entry hin hentries hentry form (by simp [Object.references])
      exact ⟨root, hroot, .inr ⟨form, href, (h.home? hr hformR).symm.trans hform⟩⟩
  · intro fs hfs category _ id hid
    rcases h.resources?_page hr hpR with ⟨-, hn⟩ | ⟨es, fs', hx, hy, -, hef⟩
    · rw [hfs] at hn
      cases hn
    · rw [hfs] at hy
      cases hy
      exact ⟨es, hx, (hef _ fun _ hf => hf).symm.trans hid⟩

variable [Scalar α] {o : SaveOptions α} {ms : List (Mark α)}

/-- Where the form of a saved document is, there it was before. -/
theorem Saved.isFormHome (hsaved : Saved o d ms d') (h : d.Sound) {home : ObjectId} (hhome : d'.IsFormHome home) :
    d.IsFormHome home := by
  have hkeeps := h.keeps hsaved.edit
  obtain ⟨root, hroot, hform⟩ := hhome
  rw [hkeeps.root] at hroot
  have hin := h.region.root root hroot
  rcases hform with hform | ⟨form, href, hform⟩
  · exact ⟨root, hroot, .inl ((hkeeps.home? h.region hin).symm.trans hform)⟩
  · have href' := hsaved.form root form hroot href
    obtain ⟨entries, hentries, hentry⟩ := Option.bind_eq_some_iff.mp href'
    have hformR := h.region.entry hin hentries hentry form (by simp [Object.references])
    exact ⟨root, hroot, .inr ⟨form, href', (hkeeps.home? h.region hformR).symm.trans hform⟩⟩

/-- A page stays apart from what saving changes. -/
theorem Saved.apart (hsaved : Saved o d ms d') (h : d.Sound) {p : ObjectId} (hp : p ∈ d.pages)
    (ha : d.Apart p) : d'.Apart p := by
  obtain ⟨home, es, hl⟩ := h.tree.pages_homes.2 p hp
  obtain ⟨es', hl', hkept, hpage⟩ := hsaved.page h hp hl
  have hd : d.getDict? p = some es := getDict?_eq_some.mpr ⟨home, hl⟩
  have hd' : d'.getDict? p = some es' := getDict?_eq_some.mpr ⟨home, hl'⟩
  have hkeeps := h.keeps hsaved.edit
  have hpR : p ∈ d.reachable := h.reachable_of_pages hp
  have hparent : es'.get? "Parent" = es.get? "Parent" := hkept _ (d.saveKeys_publicTree.parent home)
  cases hpage with
  | plain _ _ hres =>
    refine ha.of_keeps hkeeps h.region d.saveKeys_publicTree d.saveKeys_publicResources h.tree hp
      (finds_plain hsaved h hp ha hl hl' hparent hres) (fun _ => hsaved.isFormHome h) fun fs hfs category hcategory id hid => ?_
    have hpublic : Public d.SaveKeys category := by
      simp only [List.mem_cons, List.not_mem_nil, or_false] at hcategory
      rcases hcategory with rfl | rfl
      · exact d.saveKeys_publicResources.xObject
      · exact d.saveKeys_publicResources.font
    rcases hkeeps.resources?_page h.region hpR hd hd' hres hparent
      (fun home ha' => not_saveKeys_resources (ha.above es hd home ha')) d.saveKeys_publicTree.parent with
      ⟨-, hn⟩ | ⟨fs', gs, hx, hy, -, hef⟩
    · rw [hfs] at hn
      cases hn
    · rw [hfs] at hy
      cases hy
      exact ⟨fs', hx, (hef _ hpublic).symm.trans hid⟩
  | @layered t d₁ parts ht hid _ hedit hparts =>
    subst hid
    rw [(mem_targets ht).2.2] at hparts
    refine ha.of_keeps hkeeps h.region d.saveKeys_publicTree d.saveKeys_publicResources h.tree hp
      (finds_layered hsaved h hp ha hl' hedit hparts) (fun _ => hsaved.isFormHome h) fun fs hfs category hcategory id hid => ?_
    rw [hparts.resources_page hd'] at hfs
    cases hfs
    simp only [List.mem_cons, List.not_mem_nil, or_false] at hcategory
    rcases hcategory with rfl | rfl
    · have hcopy : (d.pageResources t.id).get? "XObject" = some (.ref id) :=
        (hparts.other _ (by decide)).symm.trans hid
      cases hres : d.resources? (.page t.id) with
      | none =>
        rw [pageResources, hres] at hcopy
        cases hcopy
      | some resources =>
        rw [pageResources, hres] at hcopy
        exact ⟨resources, rfl, hcopy⟩
    · rw [hparts.fonts] at hid
      cases hid

/-- A sound document in which the dictionaries that saving changes stand for nothing else that a page has:
they are neither above pages nor forms or fonts. The contents of pages are near. -/
structure Separate (d : Document α) : Prop where
  sound : d.Sound
  apart : ∀ p ∈ d.pages, d.Apart p
  near : ∀ p ∈ d.pages, ∀ es, d.getDict? p = some es → d.ContentsNear es

/-- A document in which annotations were saved is sound when its file is loaded, if the numbers that it leads to are
in use. -/
theorem Saved.sound_reload {r : Document α} (hsaved : Saved o d ms d') (h : d.Sound) (hr : d'.prune.Reloads r)
    (huse : ∀ id ∈ r.reachable, r.InUse id) : r.Sound := by
  obtain ⟨htree, -⟩ := h.tree.transfer (h.keeps hsaved.edit) h.region d.saveKeys_publicTree
  exact ⟨(htree.transfer hr.agree d'.reachable_region Agree.publicTree).1, huse⟩

end Document

end Marginalia

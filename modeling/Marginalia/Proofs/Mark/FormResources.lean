import Marginalia.Proofs.Mark.RoundTrip

/-!
The interactive form of a document that annotations were saved in: the entries of its dictionary, and the
resources that the text of its fields is drawn with by default.
-/

namespace Marginalia

namespace Document

variable {α : Type} {K : ObjectId → Bytes → Prop} {d d' : Document α}

/-- That no object which the trailer leads to has a number above the highest one in use. -/
def Allotted (d : Document α) : Prop := ∀ id ∈ d.reachable, ∀ v, d.stored? id = some v → d.InUse id

/-- A number that leads to an object still leads there after a change. -/
theorem Edit.locate_ok (he : Edit K d d') (ha : d.Allotted) {id home : ObjectId} {v : Object α}
    (hid : id ∈ d.reachable) (hl : d.locate id = .ok (home, v)) :
    ∃ w, d'.locate id = .ok (home, w) ∧ Object.AlikeOff (K home) v w := by
  apply locateFrom_related (P := (· ∈ d.reachable)) (S := fun id v w => Object.AlikeOff (K id) v w) _ _ hid hl
  · intro id v hid hs
    obtain ⟨w, hw, hvw⟩ := he.stored_alike (ha id hid v hs) hs
    exact ⟨w, hw, hvw.ref?, hvw⟩
  · exact fun id next hid hs => d.reachable_region.closed id _ hid hs next (by simp [Object.references])

theorem Edit.locate_dict (he : Edit K d d') (ha : d.Allotted) {id home : ObjectId} {es : Dict α}
    (hid : id ∈ d.reachable) (hl : d.locate id = .ok (home, .dict es)) :
    ∃ fs : Dict α, d'.locate id = .ok (home, .dict fs) ∧ ∀ key, ¬ K home key → fs.find? key = es.find? key := by
  obtain ⟨w, hw, hvw⟩ := he.locate_ok ha hid hl
  cases hvw with
  | same => exact ⟨es, hw, fun _ _ => rfl⟩
  | dict _ hef => exact ⟨_, hw, hef⟩

end Document

namespace MarkWriter

open Document

variable {α : Type} {d₀ d d' : Document α}

/-- Entries of a page are set where the page was stored. -/
theorem updatePage_edit (ht : d₀.TreeSound) (ha : d₀.Allotted) (he : Edit d₀.PageEntries d₀ d) {p : ObjectId}
    (hp : p ∈ d₀.pages) {f : Dict α → Dict α}
    (hf : ∀ es : Dict α, ∀ key ∉ pageKeys.map Syntax.ascii, (f es).find? key = es.find? key)
    (hupdate : updatePage d p f = .ok d') : Edit d₀.PageEntries d₀ d' := by
  obtain ⟨home, es, hl⟩ := ht.pages_homes.2 p hp
  obtain ⟨fs, hl', -⟩ := he.locate_dict ha (ht.reachable_of_pages hp) hl
  have hpage : d₀.IsPageHome home := ⟨p, hp, home?_eq_some.mpr ⟨_, hl⟩⟩
  rw [updatePage_eq hl'] at hupdate
  obtain rfl := Except.ok.inj hupdate
  refine he.trans (.put (stored?_of_locate hl') ⟨Syntax.ascii "Annots", hpage, by decide⟩ fun key hkey => ?_)
  exact hf fs key fun hmem => hkey ⟨hpage, hmem⟩

theorem clearPage_edit (ht : d₀.TreeSound) (ha : d₀.Allotted) (he : Edit d₀.PageEntries d₀ d) {p : ObjectId}
    (hp : p ∈ d₀.pages) (hclear : clearPage d p = .ok d') : Edit d₀.PageEntries d₀ d' := by
  obtain ⟨home, es, hl, rfl⟩ := clearPage_eq_ok.mp hclear
  refine updatePage_edit (f := clearedEntries d) ht ha he hp (fun es key => find?_clearedEntries d es) ?_
  exact updatePage_eq hl _

theorem clearPages_edit (ht : d₀.TreeSound) (ha : d₀.Allotted) {ps : List ObjectId} (hps : ∀ p ∈ ps, p ∈ d₀.pages)
    (he : Edit d₀.PageEntries d₀ d) (hclear : ps.foldlM clearPage d = .ok d') : Edit d₀.PageEntries d₀ d' :=
  clearPages_inv (fun p hp _ _ h hp' => clearPage_edit ht ha h (hps p hp) hp') he hclear

theorem setAnnots_edit (ht : d₀.TreeSound) (ha : d₀.Allotted) (he : Edit d₀.PageEntries d₀ d) {p : ObjectId}
    (hp : p ∈ d₀.pages) {ids : List ObjectId} (hset : setAnnots d p ids = .ok d') : Edit d₀.PageEntries d₀ d' := by
  unfold setAnnots at hset
  split at hset
  · exact Except.ok.inj hset ▸ he
  · refine updatePage_edit ht ha he hp (fun es key hkey => ?_) hset
    have hannots : Syntax.ascii "Annots" ≠ key := fun he => hkey (by simp [pageKeys, ← he])
    rw [Dict.set, Dict.find?_setBytes, if_neg hannots]

variable [Scalar α] {o : SaveOptions α} {ms : List (Mark α)}

theorem addLayer_edit (ht : d₀.TreeSound) (ha : d₀.Allotted) (he : Edit d₀.PageEntries d₀ d) {p : ObjectId}
    (hp : p ∈ d₀.pages) {frame : PageFrame α} {resources : Dict α}
    (hadd : addLayer o d p frame resources ms = .ok d') : Edit d₀.PageEntries d₀ d' := by
  simp only [addLayer, bind, Except.bind] at hadd
  split at hadd
  · cases hadd
  rename_i s hs
  have hnamed : Named d.maxNumber (category d resources "Font")
      ⟨d, category d resources "Font", [], layerOpening⟩ [] :=
    ⟨rfl, Nat.le_refl _, by simp, fun _ _ => rfl⟩
  obtain ⟨-, -, -, -, -, hdrawn⟩ := hnamed.showAll hs
  have hadded : ∀ d₁ : Document α, Edit d₀.PageEntries d₀ d₁ → ∀ v, Edit d₀.PageEntries d₀ (d₁.add v).1 :=
    fun d₁ h v => h.trans (.add _ d₁ v)
  split at hadd
  · cases hadd
  refine updatePage_edit ht ha (hadded _ (hadded _ (he.trans (hdrawn.edit _)) _) _) hp (fun es key hkey => ?_) hadd
  have hcontents : Syntax.ascii "Contents" ≠ key := fun he => hkey (by simp [pageKeys, ← he])
  have hresources : Syntax.ascii "Resources" ≠ key := fun he => hkey (by simp [pageKeys, ← he])
  simp only [Dict.set, Dict.find?_setBytes, hcontents, hresources, if_false]

/-- Saving the annotations of a page sets entries of pages alone. -/
theorem addPage_edit (ht : d₀.TreeSound) (ha : d₀.Allotted) (he : Edit d₀.PageEntries d₀ d) {t : Target α}
    (hp : t.id ∈ d₀.pages) (hadd : addPage o d t ms = .ok d') : Edit d₀.PageEntries d₀ d' := by
  simp only [addPage, bind, Except.bind] at hadd
  split at hadd
  · cases hadd
  rename_i found hfound
  obtain ⟨d₁, ids⟩ := found
  have hobjects : Edit d₀.PageEntries d₀ d₁ := he.trans ((addObjects_spec hfound (Nat.le_refl _)).1.edit _)
  simp only at hadd
  split at hadd
  · cases hadd
  rename_i d₂ hset
  have hannots : Edit d₀.PageEntries d₀ d₂ := setAnnots_edit ht ha hobjects hp hset
  split at hadd
  · obtain rfl := Except.ok.inj hadd
    exact hannots
  · exact addLayer_edit ht ha hannots hp hadd

theorem addPages_edit (ht : d₀.TreeSound) (ha : d₀.Allotted) {ts : List (Target α)}
    (hts : ∀ t ∈ ts, t.id ∈ d₀.pages) (he : Edit d₀.PageEntries d₀ d) (hadd : addPages o ms d ts = .ok d') :
    Edit d₀.PageEntries d₀ d' := by
  induction ts generalizing d with
  | nil =>
    cases hadd
    exact he
  | cons t ts ih =>
    simp only [addPages, bind, Except.bind] at hadd
    split at hadd
    · cases hadd
    · rename_i d₁ hd₁
      exact ih (fun q hq => hts q (by simp [hq])) (addPage_edit ht ha he (hts t (by simp)) hd₁) hadd

/-- A document that annotations were saved in, before its form is seen to, has other entries of pages alone. -/
theorem pages_edit {cleared : Document α} (ht : d.TreeSound) (ha : d.Allotted)
    (hclear : d.pages.foldlM clearPage d = .ok cleared) (hadd : addPages o ms cleared (targets d) = .ok d') :
    Edit d.PageEntries d d' :=
  addPages_edit ht ha (fun _ h => id_mem_pages h) (clearPages_edit ht ha (fun _ h => h) (.refl _ d) hclear) hadd

end MarkWriter

namespace Document

variable {α : Type} {K : ObjectId → Bytes → Prop} {R : ObjectId → Prop} {d d' : Document α}

/-- The dictionary that an object is or refers to. -/
def dictOf? (d : Document α) (v : Object α) : Option (Dict α) := (d.deref v).dict?

theorem dictOf?_dict (d : Document α) (es : Dict α) : d.dictOf? (.dict es) = some es := rfl

/-- A dictionary that an object stands for is that object, or what it refers to. -/
theorem dictOf?_eq_some {v : Object α} {es : Dict α} (h : d.dictOf? v = some es) :
    v = .dict es ∨ ∃ id home, v = .ref id ∧ d.locate id = .ok (home, .dict es) := by
  cases v with
  | ref id =>
    cases hl : d.locate id with
    | error e => simp [dictOf?, deref, Document.get?, hl, Except.toOption, Object.dict?] at h
    | ok found =>
      obtain ⟨home, w⟩ := found
      simp only [dictOf?, deref, get?_eq_some.mpr ⟨home, hl⟩, Option.getD_some] at h
      cases w <;> cases h
      exact .inr ⟨id, home, rfl, hl⟩
  | dict entries =>
    cases h
    exact .inl rfl
  | null | bool | int | real | string | name | array | stream => cases h

theorem dictOf?_ref {id home : ObjectId} {es : Dict α} (hl : d.locate id = .ok (home, .dict es)) :
    d.dictOf? (.ref id) = some es := by
  simp [dictOf?, deref, get?_eq_some.mpr ⟨home, hl⟩, Object.dict?]

/-- A dictionary without private entries is the same after a change. -/
theorem Edit.dictOf? (he : Edit K d d') (ha : d.Allotted) {v : Object α} (hv : ∀ r ∈ v.references, r ∈ d.reachable)
    (hk : ∀ id home, v = .ref id → d.home? id = some home → ∀ key, ¬ K home key) {es : Dict α}
    (h : d.dictOf? v = some es) : d'.dictOf? v = some es := by
  rcases dictOf?_eq_some h with rfl | ⟨id, home, rfl, hl⟩
  · exact h
  · obtain ⟨w, hl', hvw⟩ := he.locate_ok ha (hv id (by simp [Object.references])) hl
    obtain rfl := hvw.eq (hk id home rfl (home?_eq_some.mpr ⟨_, hl⟩))
    exact dictOf?_ref hl'

theorem Agree.dictOf? (h : Agree R d d') (hr : d.Region R) {v : Object α} (hv : ∀ r ∈ v.references, R r) :
    d'.dictOf? v = d.dictOf? v := by
  rw [Document.dictOf?, h.deref hr hv, Document.dictOf?]

/-- The references in a dictionary that an object stands for stay in the region of the object. -/
theorem Region.dictOf? (hr : d.Region R) {v : Object α} (hv : ∀ r ∈ v.references, R r) {es : Dict α}
    (h : d.dictOf? v = some es) : EntriesWithin R es := by
  intro key w hw r hmem
  rcases dictOf?_eq_some h with rfl | ⟨id, home, rfl, hl⟩
  · exact hv r (Object.mem_entryReferences hw hmem)
  · exact hr.entry (hv id (by simp [Object.references])) (getDict?_eq_some.mpr ⟨home, hl⟩) hw r hmem

end Document

namespace InteractiveForm

open Document MarkWriter

variable {α : Type} {R : ObjectId → Prop} {d d' : Document α}

/-- What the catalog has for a form. -/
def acroForm? (d : Document α) : Option (Object α) := do
  let catalog ← d.getDict? (← (← d.trailer.get? "Root").ref?)
  catalog.get? "AcroForm"

/-- The form dictionary. -/
def dictionary? (d : Document α) : Option (Dict α) := (acroForm? d).bind d.dictOf?

/-- The resources that the text of fields is drawn with by default. -/
def defaults? (d : Document α) : Option (Dict α) := ((dictionary? d).bind (·.get? "DR")).bind d.dictOf?

/-- The default resource of a name in a category. -/
def default? (d : Document α) (category name : Bytes) : Option (Object α) := do
  let entries ← d.dictOf? (← (← defaults? d).find? category)
  entries.find? name

theorem acroForm?_eq_some {v : Object α} : acroForm? d = some v ↔ ∃ root home, ∃ catalog : Dict α,
    d.trailer.get? "Root" = some (.ref root) ∧ d.locate root = .ok (home, .dict catalog) ∧
      catalog.get? "AcroForm" = some v := by
  constructor
  · intro h
    simp only [acroForm?, Option.bind_eq_bind, Option.bind_eq_some_iff] at h
    obtain ⟨u, hu, root, href, catalog, hcatalog, hv⟩ := h
    cases u <;> cases href
    obtain ⟨home, hl⟩ := getDict?_eq_some.mp hcatalog
    exact ⟨root, home, catalog, hu, hl, hv⟩
  · rintro ⟨root, home, catalog, hroot, hl, hv⟩
    simp [acroForm?, hroot, Object.ref?, getDict?_eq_some.mpr ⟨home, hl⟩, hv]

/-- The references in what the catalog has for a form stay in the region. -/
theorem acroForm?_within (hr : d.Region R) {v : Object α} (h : acroForm? d = some v) : ∀ r ∈ v.references, R r := by
  obtain ⟨root, home, catalog, hroot, hl, hv⟩ := acroForm?_eq_some.mp h
  exact hr.entry (hr.root root hroot) (getDict?_eq_some.mpr ⟨home, hl⟩) hv

theorem dictionary?_within (hr : d.Region R) {form : Dict α} (h : dictionary? d = some form) :
    EntriesWithin R form := by
  obtain ⟨v, hv, hform⟩ := Option.bind_eq_some_iff.mp h
  exact hr.dictOf? (acroForm?_within hr hv) hform

theorem defaults?_within (hr : d.Region R) {resources : Dict α} (h : defaults? d = some resources) :
    EntriesWithin R resources := by
  obtain ⟨v, hv, hresources⟩ := Option.bind_eq_some_iff.mp h
  obtain ⟨form, hform, hv⟩ := Option.bind_eq_some_iff.mp hv
  exact hr.dictOf? (dictionary?_within hr hform _ v hv) hresources

theorem default?_eq_some {category name : Bytes} {v : Object α} : default? d category name = some v ↔
    ∃ resources u entries, defaults? d = some resources ∧ resources.find? category = some u ∧
      d.dictOf? u = some entries ∧ entries.find? name = some v := by
  simp only [default?, Option.bind_eq_bind, Option.bind_eq_some_iff]
  constructor
  · rintro ⟨resources, hresources, u, hu, entries, hentries, hv⟩
    exact ⟨resources, u, entries, hresources, hu, hentries, hv⟩
  · rintro ⟨resources, u, entries, hresources, hu, hentries, hv⟩
    exact ⟨resources, hresources, u, hu, entries, hentries, hv⟩

/-- What there is in a category of the default resources. -/
theorem default?_of_category {resources : Dict α} (h : defaults? d = some resources) {category : Bytes}
    {v : Object α} (hv : resources.find? category = some v) (name : Bytes) :
    default? d category name = (d.dictOf? v).bind (·.find? name) := by
  simp only [default?, h, Option.bind_eq_bind, Option.bind_some, hv]

theorem default?_within (hr : d.Region R) {category name : Bytes} {v : Object α}
    (h : default? d category name = some v) : ∀ r ∈ v.references, R r := by
  obtain ⟨resources, u, entries, hresources, hu, hentries, hv⟩ := default?_eq_some.mp h
  exact hr.dictOf? (defaults?_within hr hresources category u hu) hentries name v hv

theorem acroForm?_agree (h : Agree R d d') (hr : d.Region R) : acroForm? d' = acroForm? d := by
  unfold acroForm?
  simp only [h.root, Option.bind_eq_bind]
  cases hroot : d.trailer.get? "Root" with
  | none => rfl
  | some v =>
    cases v with
    | ref root => simp only [Option.bind_some, Object.ref?, h.getDict? hr (hr.root root hroot)]
    | null | bool | int | real | string | name | array | dict | stream =>
      simp only [Option.bind_some, Option.bind_none, Object.ref?]

/-- Where documents agree they have the same form. -/
theorem dictionary?_agree (h : Agree R d d') (hr : d.Region R) : dictionary? d' = dictionary? d := by
  rw [dictionary?, acroForm?_agree h hr, dictionary?]
  cases hv : acroForm? d with
  | none => rfl
  | some v => exact h.dictOf? hr (acroForm?_within hr hv)

theorem defaults?_agree (h : Agree R d d') (hr : d.Region R) : defaults? d' = defaults? d := by
  rw [defaults?, dictionary?_agree h hr, defaults?]
  cases hform : dictionary? d with
  | none => rfl
  | some form =>
    rw [Option.bind_some]
    cases hv : form.get? "DR" with
    | none => rfl
    | some v => exact h.dictOf? hr (dictionary?_within hr hform _ v hv)

theorem default?_agree (h : Agree R d d') (hr : d.Region R) (category name : Bytes) :
    default? d' category name = default? d category name := by
  rw [default?, defaults?_agree h hr, default?]
  cases hresources : defaults? d with
  | none => rfl
  | some resources =>
    simp only [Option.bind_eq_bind, Option.bind_some]
    cases hv : resources.find? category with
    | none => rfl
    | some v => simp only [Option.bind_some, h.dictOf? hr (defaults?_within hr hresources category v hv)]

/-- That an object is no reference to a dictionary which saving changes. -/
def Untouched (d : Document α) (v : Object α) : Prop :=
  ∀ id home, v = .ref id → d.home? id = some home → ¬ d.IsPageHome home ∧ ¬ d.IsFormHome home

/-- That the form dictionary is no page, and that no default resource is a page, the catalog or the form
dictionary. -/
structure Apart (d : Document α) : Prop where
  form : ∀ form home, acroForm? d = some (.ref form) → d.home? form = some home → ¬ d.IsPageHome home
  category : ∀ resources key v, defaults? d = some resources → resources.find? key = some v → Untouched d v
  resource : ∀ category name v, default? d category name = some v → Untouched d v

theorem Untouched.edit {v : Object α} (h : Untouched d v) (id home : ObjectId) (hv : v = .ref id)
    (hhome : d.home? id = some home) (key : Bytes) : ¬ d.SaveKeys home key := by
  rintro (hk | hk)
  · exact (h id home hv hhome).1 hk.1
  · exact (h id home hv hhome).2 hk.1

/-- Changes of pages keep what the catalog has for a form. -/
theorem acroForm?_edit (he : Edit d.PageEntries d d') (ha : d.Allotted) {v : Object α} (h : acroForm? d = some v) :
    acroForm? d' = some v := by
  obtain ⟨root, home, catalog, hroot, hl, hv⟩ := acroForm?_eq_some.mp h
  obtain ⟨catalog', hl', hef⟩ := he.locate_dict ha (d.reachable_region.root root hroot) hl
  refine acroForm?_eq_some.mpr ⟨root, home, catalog', he.trailer ▸ hroot, hl', (hef _ ?_).trans hv⟩
  exact fun hk => absurd hk.2 (by decide)

/-- A catalog still refers to a form dictionary that took the place of the one that it referred to. -/
theorem acroForm?_put_referred {id home : ObjectId} {form form' : Dict α} (hentry : acroForm? d = some (.ref id))
    (hl : d.locate id = .ok (home, .dict form)) (hsame : form'.get? "AcroForm" = form.get? "AcroForm") :
    acroForm? (d.put home (.dict form')) = some (.ref id) := by
  obtain ⟨root, catHome, catalog, hroot, hlroot, hv⟩ := acroForm?_eq_some.mp hentry
  have hs := stored?_of_locate hl
  have hlroot' := locate_put form' hs hlroot
  by_cases hcat : catHome = home
  · -- The catalog is the form dictionary.
    subst hcat
    rw [if_pos rfl] at hlroot'
    rw [stored?_of_locate hlroot] at hs
    cases hs
    exact acroForm?_eq_some.mpr ⟨root, _, _, hroot, hlroot', hsame.trans hv⟩
  · rw [if_neg hcat] at hlroot'
    exact acroForm?_eq_some.mpr ⟨root, _, _, hroot, hlroot', hv⟩

/-- A form dictionary in place of the one that the catalog refers to is the form dictionary. -/
theorem dictionary?_put_referred {id home : ObjectId} {form form' : Dict α} (hentry : acroForm? d = some (.ref id))
    (hl : d.locate id = .ok (home, .dict form)) (hsame : form'.get? "AcroForm" = form.get? "AcroForm") :
    dictionary? (d.put home (.dict form')) = some form' := by
  have hl' := locate_put form' (stored?_of_locate hl) hl
  rw [if_pos rfl] at hl'
  rw [dictionary?, acroForm?_put_referred hentry hl hsame, Option.bind_some, dictOf?_ref hl']

/-- A form dictionary in the catalog is what the catalog has for a form. -/
theorem acroForm?_put_catalog {root home : ObjectId} {catalog catalog' form : Dict α}
    (hroot : d.trailer.get? "Root" = some (.ref root)) (hl : d.locate root = .ok (home, .dict catalog))
    (hentry : catalog'.get? "AcroForm" = some (.dict form)) :
    acroForm? (d.put home (.dict catalog')) = some (.dict form) := by
  have hl' := locate_put catalog' (stored?_of_locate hl) hl
  rw [if_pos rfl] at hl'
  exact acroForm?_eq_some.mpr ⟨root, home, catalog', hroot, hl', hentry⟩

/-- A form dictionary in the catalog is the form dictionary. -/
theorem dictionary?_put_catalog {root home : ObjectId} {catalog catalog' form : Dict α}
    (hroot : d.trailer.get? "Root" = some (.ref root)) (hl : d.locate root = .ok (home, .dict catalog))
    (hentry : catalog'.get? "AcroForm" = some (.dict form)) :
    dictionary? (d.put home (.dict catalog')) = some form := by
  rw [dictionary?, acroForm?_put_catalog hroot hl hentry, Option.bind_some, dictOf?_dict]

theorem isFormHome_catalog {root home : ObjectId} {catalog : Dict α}
    (hroot : d.trailer.get? "Root" = some (.ref root)) (hl : d.locate root = .ok (home, .dict catalog)) :
    d.IsFormHome home :=
  ⟨root, hroot, .inl (home?_eq_some.mpr ⟨_, hl⟩)⟩

theorem isFormHome_referred {id home : ObjectId} {v : Object α} (hentry : acroForm? d = some (.ref id))
    (hl : d.locate id = .ok (home, v)) : d.IsFormHome home := by
  obtain ⟨root, catHome, catalog, hroot, hlroot, hv⟩ := acroForm?_eq_some.mp hentry
  refine ⟨root, hroot, .inr ⟨id, ?_, home?_eq_some.mpr ⟨_, hl⟩⟩⟩
  rw [getDict?_eq_some.mpr ⟨catHome, hlroot⟩, Option.bind_some, hv]

/-- Changes of pages keep a form dictionary that the catalog refers to, since it is no page. -/
theorem locate_referred (ha : d.Allotted) (hap : Apart d) (he : Edit d.PageEntries d d') {id : ObjectId}
    {form : Dict α} (hentry : acroForm? d = some (.ref id)) (hform : d.dictOf? (.ref id) = some form) :
    ∃ home, d.locate id = .ok (home, .dict form) ∧ d'.locate id = .ok (home, .dict form) := by
  rcases dictOf?_eq_some hform with hne | ⟨id', home, hid', hl⟩
  · cases hne
  · cases hid'
    have hid : id ∈ d.reachable := acroForm?_within d.reachable_region hentry id (by simp [Object.references])
    obtain ⟨w, hl', hfw⟩ := he.locate_ok ha hid hl
    obtain rfl := hfw.eq fun key hk => hap.form id home hentry (home?_eq_some.mpr ⟨_, hl⟩) hk.1
    exact ⟨home, hl, hl'⟩

/-- What the trailer leads to is not where Helvetica is added, so that it may be put anew. -/
theorem stored?_helvetica {d₁ : Document α} (ha : d.Allotted) (hle : d.maxNumber ≤ d₁.maxNumber) {home : ObjectId}
    {w : Object α} (hmem : home ∈ d.reachable) (hs : d.stored? home = some w) (u : Object α) :
    ((withHelveticaFont d₁).1.put home u).stored? (withHelveticaFont d₁).2 =
      some (.dict (FontSource.simpleFont (.nameOf "Helvetica"))) := by
  have huse : home.number ≤ d.maxNumber := ha _ hmem w hs
  have hne : home ≠ (withHelveticaFont d₁).2 := by
    rintro rfl
    exact Nat.not_succ_le_self _ (Nat.le_trans huse hle)
  rw [stored?_put_of_ne _ _ hne]
  exact stored?_add_self _ _

/-- Seeing to a form, in a document that only its pages differ in, prepares the form dictionary. -/
theorem ensure_prepares {d₁ : Document α} {form : Dict α} (ha : d.Allotted) (he : Edit d.PageEntries d d₁)
    (hap : Apart d) (hform : dictionary? d = some form) (h : ensure d₁ = .ok d') :
    ∃ helvetica, Edit d.SaveKeys d d' ∧ dictionary? d' = some (prepared helvetica form) ∧
      d'.stored? helvetica = some (.dict (FontSource.simpleFont (.nameOf "Helvetica"))) := by
  have hadded : Grows d₁ (withHelveticaFont d₁).1 := .add _ _ _
  have he₂ : Edit d.PageEntries d (withHelveticaFont d₁).1 := he.trans (hadded.edit _)
  have hedit : Edit d.SaveKeys d (withHelveticaFont d₁).1 := he₂.mono fun _ _ hk => .inl hk
  have hregion := d.reachable_region
  obtain ⟨v, hv, hdict⟩ := Option.bind_eq_some_iff.mp hform
  obtain ⟨root, catHome, catalog₀, hroot, hl₀, hentry₀⟩ := acroForm?_eq_some.mp hv
  obtain ⟨catalog, hl, hef⟩ := he₂.locate_dict ha (hregion.root root hroot) hl₀
  have hentry : catalog.get? "AcroForm" = some v := (hef _ fun hk => absurd hk.2 (by decide)).trans hentry₀
  obtain ⟨root', hroot', id, home, es, f, hlid, rfl, hid⟩ := ensure_cases h
  obtain rfl : root = root' := by
    rw [he.trailer, hroot] at hroot'
    cases hroot'
    rfl
  rw [Prepares, getDict?_eq_some.mpr ⟨catHome, hl⟩, Option.bind_some, hentry] at hid
  refine ⟨(withHelveticaFont d₁).2, ?_⟩
  rcases hid with ⟨href, rfl⟩ | ⟨rfl, rfl, hdirect⟩
  · -- The catalog refers to the form dictionary.
    cases href
    obtain ⟨home', hl', hl''⟩ := locate_referred ha hap he₂ hv hdict
    cases hlid.symm.trans hl''
    have hhome : d.IsFormHome home := isFormHome_referred hv hl'
    have hmem := hregion.home (acroForm?_within hregion hv id (by simp [Object.references])) hl'
    refine ⟨hedit.trans (.put (stored?_of_locate hlid) ⟨Syntax.ascii "DR", .inr ⟨hhome, by decide⟩⟩ ?_), ?_, ?_⟩
    · refine fun key hkey => find?_prepared _ _ (fun he => hkey ?_) fun he => hkey ?_
      · exact .inr ⟨hhome, by simp [formKeys, ← he]⟩
      · exact .inr ⟨hhome, by simp [formKeys, ← he]⟩
    · exact dictionary?_put_referred (acroForm?_edit he₂ ha hv) hlid (find?_prepared _ _ (by decide) (by decide))
    · exact stored?_helvetica ha he.maxNumber hmem (stored?_of_locate hl') _
  · -- The form dictionary is in the catalog.
    cases hlid.symm.trans hl
    obtain rfl : v = .dict form := by
      rcases dictOf?_eq_some hdict with hv' | ⟨id', _, rfl, -⟩
      · exact hv'
      · cases hdirect
    have hhome : d.IsFormHome catHome := isFormHome_catalog hroot hl₀
    have hmem := hregion.home (hregion.root _ hroot) hl₀
    refine ⟨hedit.trans (.put (stored?_of_locate hl) ⟨Syntax.ascii "DR", .inr ⟨hhome, by decide⟩⟩ ?_), ?_, ?_⟩
    · exact fun key hkey => find?_preparedIn _ _ fun hmem => hkey (.inr ⟨hhome, hmem⟩)
    · refine dictionary?_put_catalog (he₂.trailer ▸ hroot) hl ?_
      simp only [preparedIn, hentry, Dict.get?_set_self]
    · exact stored?_helvetica ha he.maxNumber hmem (stored?_of_locate hl₀) _

section Prepared

variable (helvetica : ObjectId)

theorem needAppearances_prepared (form : Dict α) :
    (prepared helvetica form).get? "NeedAppearances" = some (.bool true) := by
  unfold prepared
  simp only
  split <;> rw [Dict.get?_set_of_ne _ _ (by decide), Dict.get?_set_self]

/-- A prepared form has the default resources that were in it, with Helvetica. -/
theorem dr_prepared (form : Dict α) : ∃ resources, (prepared helvetica form).get? "DR" =
    some (.dict (withFont helvetica resources)) ∧ (∀ rs, form.get? "DR" = some (.dict rs) → resources = rs) ∧
      ((∀ rs, form.get? "DR" ≠ some (.dict rs)) → resources = []) := by
  have hdr : (form.set "NeedAppearances" (.bool true)).get? "DR" = form.get? "DR" :=
    Dict.get?_set_of_ne _ _ (by decide)
  unfold prepared
  simp only [hdr]
  split
  · rename_i resources hresources
    refine ⟨resources, Dict.get?_set_self _ _ _, fun rs hrs => ?_, fun hnone => absurd hresources (hnone _)⟩
    rw [hresources] at hrs
    cases hrs
    rfl
  · rename_i hnone
    exact ⟨[], Dict.get?_set_self _ _ _, fun rs hrs => absurd hrs (hnone rs), fun _ => rfl⟩

theorem find?_withFont (resources : Dict α) {key : Bytes} (h : Syntax.ascii "Font" ≠ key) :
    (withFont helvetica resources).find? key = resources.find? key := by
  unfold withFont
  split <;> rw [Dict.set, Dict.find?_setBytes, if_neg h]

/-- The fonts that were in the default resources are there with Helvetica. -/
theorem font_withFont (resources : Dict α) : ∃ fonts, (withFont helvetica resources).get? "Font" =
    some (.dict (withHelvetica helvetica fonts)) ∧ (∀ fs, resources.get? "Font" = some (.dict fs) → fonts = fs) ∧
      ((∀ fs, resources.get? "Font" ≠ some (.dict fs)) → fonts = []) := by
  unfold withFont
  split
  · rename_i fonts hfonts
    refine ⟨fonts, Dict.get?_set_self _ _ _, fun fs hfs => ?_, fun hnone => absurd hfonts (hnone _)⟩
    rw [hfonts] at hfs
    cases hfs
    rfl
  · rename_i hnone
    exact ⟨[], Dict.get?_set_self _ _ _, fun fs hfs => absurd hfs (hnone fs), fun _ => rfl⟩

variable {form : Dict α}

/-- The default resources of a prepared form are those that were in the form, with Helvetica. -/
theorem defaults?_prepared (h : dictionary? d = some (prepared helvetica form)) : ∃ resources,
    defaults? d = some (withFont helvetica resources) ∧ ∀ rs, form.get? "DR" = some (.dict rs) → resources = rs := by
  obtain ⟨resources, hdr, hsame, -⟩ := dr_prepared helvetica form
  refine ⟨resources, ?_, hsame⟩
  rw [defaults?, h, Option.bind_some, hdr]
  rfl

/-- The fonts that text in a prepared form is drawn with by default are those in its resources, with Helvetica. -/
theorem default?_font {resources : Dict α} (h : defaults? d = some (withFont helvetica resources)) : ∃ fonts,
    (∀ name, default? d (Syntax.ascii "Font") name = (withHelvetica helvetica fonts).find? name) ∧
      ∀ fs, resources.get? "Font" = some (.dict fs) → fonts = fs := by
  obtain ⟨fonts, hfonts, hsame, -⟩ := font_withFont helvetica resources
  exact ⟨fonts, default?_of_category h hfonts, hsame⟩

theorem default?_helvetica (h : dictionary? d = some (prepared helvetica form)) :
    default? d (Syntax.ascii "Font") (Syntax.ascii "Helv") = some (.ref helvetica) := by
  obtain ⟨resources, hdefaults, -⟩ := defaults?_prepared helvetica h
  obtain ⟨fonts, hfonts, -⟩ := default?_font helvetica hdefaults
  exact (hfonts _).trans (Dict.get?_set_self _ _ _)

variable (ha : d.Allotted) (hap : Apart d) (he : Edit d.SaveKeys d d')

include ha hap he in
/-- A default resource stays when the form is prepared, if the resources are in the form dictionary, and the fonts
in the resources. -/
theorem default?_prepared (hform : dictionary? d = some form)
    (hprepared : dictionary? d' = some (prepared helvetica form)) {category name : Bytes} {v : Object α}
    (hv : default? d category name = some v)
    (hname : category = Syntax.ascii "Font" → name ≠ Syntax.ascii "Helv")
    (hdirect : ∀ id, form.get? "DR" ≠ some (.ref id))
    (hfontDirect : ∀ (resources : Dict α) id, category = Syntax.ascii "Font" →
      form.get? "DR" = some (.dict resources) → resources.find? category ≠ some (.ref id)) :
    default? d' category name = some v := by
  obtain ⟨rs, u, entries, hrs, hu, hentries, hfound⟩ := default?_eq_some.mp hv
  have hdr : form.get? "DR" = some (.dict rs) := by
    rw [defaults?, hform, Option.bind_some] at hrs
    obtain ⟨x, hx, hxrs⟩ := Option.bind_eq_some_iff.mp hrs
    rcases dictOf?_eq_some hxrs with rfl | ⟨id, -, rfl, -⟩
    · exact hx
    · exact absurd hx (hdirect id)
  obtain ⟨resources, hdefaults, hsame⟩ := defaults?_prepared helvetica hprepared
  obtain rfl := hsame rs hdr
  by_cases hcategory : category = Syntax.ascii "Font"
  · subst hcategory
    obtain ⟨fonts, hfonts, hsame⟩ := default?_font helvetica hdefaults
    rcases dictOf?_eq_some hentries with rfl | ⟨id, -, rfl, -⟩
    · obtain rfl := hsame entries hu
      rw [hfonts, withHelvetica, Dict.set, Dict.find?_setBytes, if_neg (Ne.symm (hname rfl))]
      exact hfound
    · exact absurd hu (hfontDirect resources id rfl hdr)
  · have hu' := (find?_withFont helvetica resources (Ne.symm hcategory)).trans hu
    have hreach := defaults?_within d.reachable_region hrs category u hu
    rw [default?_of_category hdefaults hu', he.dictOf? ha hreach (hap.category resources category u hrs hu).edit hentries]
    exact hfound

include ha hap he in
/-- What a default resource refers to stays. -/
theorem default?_object {category name : Bytes} {id : ObjectId} (hv : default? d category name = some (.ref id))
    {x : Object α} (hx : d.get? id = some x) : d'.get? id = some x := by
  have hid : id ∈ d.reachable := default?_within d.reachable_region hv id (by simp [Object.references])
  obtain ⟨home, hl⟩ := get?_eq_some.mp hx
  obtain ⟨y, hl', hxy⟩ := he.locate_ok ha hid hl
  obtain rfl := hxy.eq ((hap.resource category name _ hv).edit id home rfl (home?_eq_some.mpr ⟨x, hl⟩))
  exact get?_eq_some.mpr ⟨home, hl'⟩

end Prepared

end InteractiveForm

namespace Document

open MarkWriter InteractiveForm

variable {α : Type} [Scalar α] {o : SaveOptions α} {ms : List (Mark α)} {d w r : Document α}

omit [Scalar α] in
/-- A page that has a frame is one that annotations are saved on. -/
theorem mem_targets_number [Scalar α] {number : Nat} {p : ObjectId} {frame : PageFrame α}
    (hp : d.page number = .ok p) (hf : d.frame p = .ok frame) : number ∈ (targets d).map Target.number := by
  refine List.mem_map.mpr ⟨⟨number, p, frame, d.pageResources p⟩, ?_, rfl⟩
  refine List.mem_filterMap.mpr ⟨(number, p), mem_numberedPages.mpr hp, ?_⟩
  simp only [hf]

/-- Saving an annotation with an object on a page prepares the form dictionary. -/
theorem save_prepares (ht : d.TreeSound) (ha : d.Allotted) (hap : InteractiveForm.Apart d) {form : Dict α}
    (hform : dictionary? d = some form) (hs : d.save o ms = .ok w)
    (hm : ∃ m ∈ ms, m.kind ≠ .ocrText ∧ ∃ p frame, d.page m.page = .ok p ∧ d.frame p = .ok frame) :
    ∃ d' helvetica, w = d'.prune ∧ Edit d.SaveKeys d d' ∧ dictionary? d' = some (prepared helvetica form) ∧
      d'.stored? helvetica = some (.dict (FontSource.simpleFont (.nameOf "Helvetica"))) := by
  obtain ⟨m, hm, hkind, p, frame, hp, hf⟩ := hm
  have hobjects : hasObjects (targets d) ms = true := by
    refine List.any_eq_true.mpr ⟨m, hm, ?_⟩
    simp only [Bool.and_eq_true, bne_iff_ne, List.contains_iff_mem]
    exact ⟨hkind, mem_targets_number hp hf⟩
  obtain ⟨cleared, written, d', hclear, hwritten, hd', rfl⟩ := save_eq_ok.mp hs
  rw [if_pos hobjects] at hd'
  obtain ⟨helvetica, hedit, hprepared, hfont⟩ := ensure_prepares ha (pages_edit ht ha hclear hwritten) hap hform hd'
  exact ⟨d', helvetica, rfl, hedit, hprepared, hfont⟩

/-- The form of a document that an annotation with an object was saved in: all of its entries stay but those that
saving sets, and so do its default resources where they are in the form dictionary. -/
theorem save_form (ht : d.TreeSound) (ha : d.Allotted) (hap : InteractiveForm.Apart d) {form : Dict α}
    (hform : dictionary? d = some form) (hs : d.save o ms = .ok w) (hr : w.Reloads r)
    (hm : ∃ m ∈ ms, m.kind ≠ .ocrText ∧ ∃ p frame, d.page m.page = .ok p ∧ d.frame p = .ok frame) :
    ∃ form', dictionary? r = some form' ∧ form'.get? "NeedAppearances" = some (.bool true) ∧
      (∀ key ∉ ["NeedAppearances", "DR"].map Syntax.ascii, form'.find? key = form.find? key) ∧
      (∃ id, default? r (Syntax.ascii "Font") (Syntax.ascii "Helv") = some (.ref id) ∧
        r.getDict? id = some (FontSource.simpleFont (.nameOf "Helvetica"))) ∧
      ∀ category name v, default? d category name = some v →
        (category = Syntax.ascii "Font" → name ≠ Syntax.ascii "Helv") →
        (∀ id, form.get? "DR" ≠ some (.ref id)) →
        (∀ (resources : Dict α) id, category = Syntax.ascii "Font" → form.get? "DR" = some (.dict resources) →
          resources.find? category ≠ some (.ref id)) →
        default? r category name = some v ∧
          ∀ id x, v = .ref id → d.get? id = some x → r.get? id = some x := by
  obtain ⟨d', helvetica, rfl, hedit, hprepared, hfont⟩ := save_prepares ht ha hap hform hs hm
  have hagree := hr.agree
  have hregion := d'.reachable_region
  have hhelv := default?_helvetica helvetica hprepared
  have hhelvMem : helvetica ∈ d'.reachable :=
    default?_within hregion hhelv helvetica (by simp [Object.references])
  refine ⟨_, (dictionary?_agree hagree hregion).trans hprepared, needAppearances_prepared helvetica form,
    fun key hkey => ?_, ⟨helvetica, ?_, ?_⟩, ?_⟩
  · refine find?_prepared helvetica form (fun he => hkey ?_) fun he => hkey ?_
    · simp [← he]
    · simp [← he]
  · exact (default?_agree hagree hregion _ _).trans hhelv
  · rw [hagree.getDict? hregion hhelvMem]
    exact getDict?_of_stored? hfont
  · intro category name v hv hname hdirect hfontDirect
    have hkept := default?_prepared helvetica ha hap hedit hform hprepared hv hname hdirect hfontDirect
    refine ⟨(default?_agree hagree hregion category name).trans hkept, ?_⟩
    rintro id x rfl hx
    rw [hagree.get? hregion (default?_within hregion hkept id (by simp [Object.references]))]
    exact default?_object ha hap hedit hv hx

/-- A page and a form dictionary with such default resources. -/
def formPage (defaults : Object (Exact .plain)) (extra : Object (Exact .plain)) : Document (Exact .plain) :=
  { objects := [
      (⟨1, 0⟩, .ofEntries [("Type", .nameOf "Catalog"), ("Pages", .ref ⟨2, 0⟩), ("AcroForm", .ref ⟨4, 0⟩)]),
      (⟨2, 0⟩, .ofEntries [("Type", .nameOf "Pages"), ("Kids", .array [.ref ⟨3, 0⟩]),
        ("MediaBox", .array [.int 0, .int 0, .int 300, .int 300])]),
      (⟨3, 0⟩, .ofEntries [("Type", .nameOf "Page"), ("Parent", .ref ⟨2, 0⟩)]),
      (⟨4, 0⟩, .ofEntries [("Fields", .array []), ("DR", defaults)]),
      (⟨5, 0⟩, .ofEntries [("Type", .nameOf "Font")]),
      (⟨6, 0⟩, extra)]
    trailer := Dict.ofList [("Root", .ref ⟨1, 0⟩)]
    maxNumber := 6
    streamed := false }

theorem formPage_tree (defaults extra : Object (Exact .plain)) : (formPage defaults extra).TreeSound := by
  have hstored : (formPage defaults extra).stored? ⟨3, 0⟩ =
      some (.ofEntries [("Type", .nameOf "Page"), ("Parent", .ref ⟨2, 0⟩)]) := rfl
  have hhome : (formPage defaults extra).home? ⟨3, 0⟩ = some ⟨3, 0⟩ :=
    home?_eq_some.mpr ⟨_, locate_of_stored? hstored rfl⟩
  refine ⟨fun root hroot => ⟨[⟨3, 0⟩], [⟨3, 0⟩], ?_, ?_⟩⟩
  · obtain rfl : (⟨2, 0⟩ : ObjectId) = root := Option.some.inj hroot
    exact @Walk.page _ _ (.ref ⟨3, 0⟩) [] [] _ _ _ rfl .done
  · simp only [List.map_cons, List.map_nil, hhome]
    decide

/-- One highlight on the first page. -/
def oneHighlight : List (Mark (Exact .plain)) := [Mark.new .highlight 1 lineBox ""]

/-- Default resources with a font of their own and forms behind a reference. -/
def directDefaults : Document (Exact .plain) :=
  formPage (.ofEntries [("Font", .ofEntries [("F1", .ref ⟨5, 0⟩)]), ("XObject", .ref ⟨6, 0⟩)])
    (.ofEntries [("X0", .ref ⟨5, 0⟩)])

theorem directDefaults_apart : InteractiveForm.Apart directDefaults := by
  have hpages : directDefaults.pages = [⟨3, 0⟩] := by decide +kernel
  have hpage : ∀ home, directDefaults.IsPageHome home → home = ⟨3, 0⟩ := by
    rintro home ⟨p, hp, hhome⟩
    rw [hpages, List.mem_singleton] at hp
    subst hp
    cases hhome
    rfl
  have hform : ∀ home, directDefaults.IsFormHome home → home = ⟨1, 0⟩ ∨ home = ⟨4, 0⟩ := by
    rintro home ⟨root, hroot, hhome⟩
    cases hroot
    rcases hhome with hhome | ⟨form, hform, hhome⟩
    · cases hhome
      exact .inl rfl
    · cases hform
      cases hhome
      exact .inr rfl
  have huntouched : ∀ v : Object (Exact .plain), v.ref? ∈ [none, some ⟨5, 0⟩, some ⟨6, 0⟩] →
      Untouched directDefaults v := by
    rintro v hv id home rfl hhome
    simp only [Object.ref?, List.mem_cons, List.not_mem_nil, or_false, reduceCtorEq, false_or, Option.some.injEq] at hv
    have hstands : home = ⟨5, 0⟩ ∨ home = ⟨6, 0⟩ := by
      rcases hv with rfl | rfl
      · cases hhome
        exact .inl rfl
      · cases hhome
        exact .inr rfl
    refine ⟨fun h => ?_, fun h => ?_⟩
    · have hthree := hpage home h
      rcases hstands with rfl | rfl <;> cases hthree
    · rcases hform home h with rfl | rfl <;> rcases hstands with h | h <;> cases h
  have hcategories : ∀ e ∈ (defaults? directDefaults).getD [], e.2.ref? ∈ [none, some ⟨5, 0⟩, some ⟨6, 0⟩] := by
    decide +kernel
  have hresources : ∀ e ∈ (defaults? directDefaults).getD [], ∀ f ∈ (directDefaults.dictOf? e.2).getD [],
      f.2.ref? ∈ [none, some ⟨5, 0⟩, some ⟨6, 0⟩] := by decide +kernel
  refine ⟨fun form home hentry hhome h => ?_, fun resources key v hdefaults hv => ?_, fun category name v hv => ?_⟩
  · cases hentry
    cases hhome
    cases hpage _ h
  · refine huntouched v (hcategories (key, v) ?_)
    rw [hdefaults]
    exact Dict.mem_of_find? hv
  · obtain ⟨resources, u, entries, hdefaults, hu, hentries, hfound⟩ := default?_eq_some.mp hv
    refine huntouched v (hresources (category, u) ?_ (name, v) ?_)
    · rw [hdefaults]
      exact Dict.mem_of_find? hu
    · rw [hentries]
      exact Dict.mem_of_find? hfound

theorem save_form_direct : directDefaults.TreeSound ∧ directDefaults.Allotted ∧ InteractiveForm.Apart directDefaults ∧
    ∃ form w, dictionary? directDefaults = some form ∧ directDefaults.save .default oneHighlight = .ok w ∧
      w.Reloads w ∧ default? w (Syntax.ascii "Font") (Syntax.ascii "F1") = some (.ref ⟨5, 0⟩) ∧
      default? w (Syntax.ascii "XObject") (Syntax.ascii "X0") = some (.ref ⟨5, 0⟩) := by
  have hok : (directDefaults.save .default oneHighlight).toOption.isSome = true := by decide +kernel
  have hallotted : ∀ id ∈ directDefaults.reachable, id.number ≤ 6 := by decide +kernel
  cases hs : directDefaults.save .default oneHighlight with
  | error e =>
    rw [hs] at hok
    cases hok
  | ok w =>
    have hself : w.Reloads w := ⟨rfl, fun _ _ => rfl⟩
    have htree : directDefaults.TreeSound := formPage_tree _ _
    have hall : directDefaults.Allotted := fun id hid _ _ => hallotted id hid
    obtain ⟨frame, hframe⟩ : ∃ frame, directDefaults.frame ⟨3, 0⟩ = .ok frame := ⟨_, rfl⟩
    obtain ⟨-, -, -, -, -, hkept⟩ := save_form htree hall directDefaults_apart rfl hs hself
      ⟨_, List.mem_singleton_self _, by decide, ⟨3, 0⟩, frame, rfl, hframe⟩
    refine ⟨htree, hall, directDefaults_apart, _, w, rfl, rfl, hself, ?_, ?_⟩
    · exact (hkept _ _ _ rfl (fun _ => by decide) (fun id h => by cases h) fun _ _ _ h => by cases h; nofun).1
    · exact (hkept _ _ _ rfl (fun h => by cases h) (fun id h => by cases h) fun _ _ h => by cases h).1

/-- Default resources, or the fonts among them, behind a reference. -/
def indirectDefaults : List (Document (Exact .plain)) :=
  let fonts : Object (Exact .plain) := .ofEntries [("F1", .ref ⟨5, 0⟩)]
  [formPage (.ref ⟨6, 0⟩) (.ofEntries [("Font", fonts)]), formPage (.ofEntries [("Font", .ref ⟨6, 0⟩)]) fonts]

/-- Where the default resources or their fonts are behind a reference, they are lost. -/
theorem save_form_indirect : indirectDefaults.Forall fun d => d.TreeSound ∧ d.Allotted ∧
    default? d (Syntax.ascii "Font") (Syntax.ascii "F1") = some (.ref ⟨5, 0⟩) ∧
    ∃ w, d.save .default oneHighlight = .ok w ∧ default? w (Syntax.ascii "Font") (Syntax.ascii "F1") = none := by
  have hallotted : ∀ d ∈ indirectDefaults, ∀ id ∈ d.reachable, id.number ≤ d.maxNumber := by decide +kernel
  have hbefore : ∀ d ∈ indirectDefaults, ((default? d (Syntax.ascii "Font") (Syntax.ascii "F1")).bind Object.ref?) =
      some ⟨5, 0⟩ := by decide +kernel
  have hafter : ∀ d ∈ indirectDefaults, ((d.save .default oneHighlight).toOption.map fun w =>
      (default? w (Syntax.ascii "Font") (Syntax.ascii "F1")).isNone) = some true := by decide +kernel
  rw [List.forall_iff_forall_mem]
  intro d hd
  refine ⟨?_, fun id hid _ _ => hallotted d hd id hid, ?_, ?_⟩
  · simp only [indirectDefaults, List.mem_cons, List.not_mem_nil, or_false] at hd
    rcases hd with rfl | rfl <;> exact formPage_tree _ _
  · obtain ⟨v, hv, href⟩ := Option.bind_eq_some_iff.mp (hbefore d hd)
    cases v <;> cases href
    exact hv
  · have hnone := hafter d hd
    cases hs : d.save .default oneHighlight with
    | error e =>
      rw [hs] at hnone
      cases hnone
    | ok w =>
      rw [hs] at hnone
      exact ⟨w, rfl, Option.isNone_iff_eq_none.mp (Option.some.inj hnone)⟩

end Document

end Marginalia

import Marginalia.Document.Resources
import Marginalia.Proofs.Document.Inherited
import Marginalia.Proofs.Graphics.Agreement

/-!
The forms and fonts that names stand for, in two documents that differ only in private entries. A page's
own resources may be private; then it is for its resources to agree.
-/

namespace Marginalia

namespace Document

variable {α : Type}

/-- The entry of a name in a category of some resources. -/
def entryIn? (d : Document α) (resources : Dict α) (category : String) (name : Bytes) :
    Option (Object α) :=
  ((resources.get? category).bind fun v => (d.deref v).dict?).bind (·.find? name)

theorem resource?_eq (d : Document α) (scope : Scope) (category : String) (name : Bytes) :
    d.resource? scope category name =
      (d.resources? scope).bind fun resources => d.entryIn? resources category name := by
  unfold resource? entryIn?
  simp only [Option.bind_eq_bind, Option.bind_assoc]

/-- That no private entries are in the dictionary that a category of resources is stored as. -/
def CategoryApart (K : ObjectId → Bytes → Prop) (d : Document α) (resources : Dict α)
    (category : String) : Prop :=
  ∀ id home, resources.get? category = some (.ref id) → d.home? id = some home → ∀ key, ¬ K home key

/-- That the keys which forms and fonts are read through are private nowhere. -/
structure PublicResources (K : ObjectId → Bytes → Prop) : Prop where
  font : Public K "Font"
  xObject : Public K "XObject"
  encoding : Public K "Encoding"
  subtype : Public K "Subtype"

theorem Region.entryIn {R : ObjectId → Prop} {d : Document α} (hr : d.Region R) {resources : Dict α}
    (hin : EntriesWithin R resources) {category : String} {name : Bytes} {v : Object α}
    (h : d.entryIn? resources category name = some v) : ∀ r ∈ v.references, R r := by
  obtain ⟨entries, hentries, hv⟩ := Option.bind_eq_some_iff.mp h
  obtain ⟨w, hw, hdict⟩ := Option.bind_eq_some_iff.mp hentries
  intro r hrv
  apply hr.deref (hin _ w hw)
  cases hd : d.deref w with
  | dict es =>
    simp only [hd, Object.dict?, Option.some.injEq] at hdict
    subst hdict
    simpa [Object.references] using Object.mem_entryReferences hv hrv
  | _ => simp [hd, Object.dict?] at hdict

theorem Region.inherited {R : ObjectId → Prop} {d : Document α} (hr : d.Region R) {entries : Dict α}
    (hin : EntriesWithin R entries) {key : String} {v : Object α}
    (h : d.inherited? entries key = some v) : ∀ r ∈ v.references, R r := by
  rcases (Keeps.refl (fun _ _ => False) R d).inheritedWithin? hr key maxAncestors
    (fun _ _ hf => hf) (fun _ hf => hf) hin rfl rfl with ⟨hn, -⟩ | ⟨_, w, _, hw, _, _, hrefs⟩
  · rw [inherited?, hn] at h
    cases h
  · rw [inherited?, hw] at h
    cases h
    exact hrefs

/-- The entries of the dictionary that a value in a region is. -/
theorem entriesWithin_of_dict {R : ObjectId → Prop} {v : Object α} {entries : Dict α}
    (hv : ∀ r ∈ v.references, R r) (h : v.dict? = some entries) : EntriesWithin R entries := by
  cases v <;> cases h
  intro key w hw r hrw
  exact hv r (by simpa [Object.references] using Object.mem_entryReferences hw hrw)

theorem Region.streamEntries {R : ObjectId → Prop} {d : Document α} (hr : d.Region R) {id : ObjectId}
    (hid : R id) {entries : Dict α} {data : Bytes} (h : d.getStream? id = some (entries, data)) :
    EntriesWithin R entries := by
  obtain ⟨s, hs, hstream⟩ := Option.bind_eq_some_iff.mp h
  obtain ⟨home, hl⟩ := get?_eq_some.mp hs
  cases s <;> cases hstream
  intro key w hw r hrw
  exact hr.located hid hl r (by simpa [Object.references] using Object.mem_entryReferences hw hrw)

/-- The resources of a scope in a region lead to nothing outside it. -/
theorem Region.resources {R : ObjectId → Prop} {d : Document α} (hr : d.Region R) {scope : Scope}
    (hs : ∀ id, scope = .page id ∨ scope = .form id → R id) {resources : Dict α}
    (h : d.resources? scope = some resources) : EntriesWithin R resources := by
  cases scope with
  | page id =>
    simp only [resources?, Option.bind_eq_bind, Option.bind_eq_some_iff] at h
    obtain ⟨entries, he, v, hv, hdict⟩ := h
    exact entriesWithin_of_dict (hr.inherited (hr.entriesWithin (hs id (.inl rfl)) he) hv) hdict
  | form id =>
    simp only [resources?, Option.bind_eq_bind, Option.bind_eq_some_iff] at h
    obtain ⟨⟨entries, data⟩, he, v, hv, hdict⟩ := h
    have hin := hr.streamEntries (hs id (.inr rfl)) he
    exact entriesWithin_of_dict (hr.deref (hin _ v hv)) hdict
  | nothing => cases h

/-- That the references in an optional object stay in a region. -/
def OptionWithin (R : ObjectId → Prop) (v : Option (Object α)) : Prop :=
  ∀ w, v = some w → ∀ r ∈ w.references, R r

theorem Region.resource {R : ObjectId → Prop} {d : Document α} (hr : d.Region R) {scope : Scope}
    (hs : ∀ id, scope = .page id ∨ scope = .form id → R id) (category : String) (name : Bytes) :
    OptionWithin R (d.resource? scope category name) := by
  intro v hv
  rw [resource?_eq] at hv
  obtain ⟨resources, hres, hv⟩ := Option.bind_eq_some_iff.mp hv
  exact hr.entryIn (hr.resources hs hres) hv

/-- That two documents have the same resources, but for private entries, in a region that references in them
do not leave. -/
def ResourcesAlike (K : ObjectId → Bytes → Prop) (R : ObjectId → Prop) (res res' : Option (Dict α)) : Prop :=
  (res = none ∧ res' = none) ∨ ∃ es fs, res = some es ∧ res' = some fs ∧ EntriesWithin R es ∧
    ∀ key, Public K key → fs.get? key = es.get? key

namespace Keeps

variable {K : ObjectId → Bytes → Prop} {R : ObjectId → Prop} {d d' : Document α}

/-- Where the private entries are elsewhere, a dictionary is the same behind a reference. -/
theorem deref_apart (h : Keeps K R d d') (hr : d.Region R) {v : Object α}
    (hv : ∀ r ∈ v.references, R r)
    (ha : ∀ id home, v = .ref id → d.home? id = some home → ∀ key, ¬ K home key) :
    d'.deref v = d.deref v := by
  cases v with
  | ref id =>
    rcases h.get? hr (hv id (by simp [Object.references])) with ⟨hx, hy⟩ | ⟨home, w, w', hl, hx, hy, hw⟩
    · simp only [Document.deref, hx, hy]
    · have hhome : d.home? id = some home := by simp [Document.home?, hl, Except.toOption]
      simp only [Document.deref, hx, hy, hw.eq (ha id home rfl hhome)]
  | _ => rfl

theorem entryIn? (h : Keeps K R d d') (hr : d.Region R) {es fs : Dict α} (hin : EntriesWithin R es)
    {category : String} (hc : fs.get? category = es.get? category)
    (ha : CategoryApart K d es category) (name : Bytes) :
    d'.entryIn? fs category name = d.entryIn? es category name := by
  unfold Document.entryIn?
  rw [hc]
  cases hv : es.get? category with
  | none => simp only [Option.bind_none]
  | some v =>
    have hd : d'.deref v = d.deref v :=
      h.deref_apart hr (hin _ v hv) fun id home he => ha id home (he ▸ hv)
    simp only [Option.bind_some, hd]

/-- The encoding that a font tells is the same. -/
theorem fontEncoding (h : Keeps K R d d') (hr : d.Region R) {es fs : Dict α}
    (hin : EntriesWithin R es) (he : fs.get? "Encoding" = es.get? "Encoding")
    (hs : fs.get? "Subtype" = es.get? "Subtype") : d'.fontEncoding fs = d.fontEncoding es := by
  have hname : (fs.get? "Encoding").bind (fun v => (d'.deref v).name?) =
      (es.get? "Encoding").bind fun v => (d.deref v).name? := by
    rw [he]
    cases hv : es.get? "Encoding" with
    | none => simp only [Option.bind_none]
    | some v => exact h.name?_deref hr (hin _ v hv)
  have hsub : fs.hasName "Subtype" "Type0" = es.hasName "Subtype" "Type0" := by
    simp only [Dict.hasName, Dict.name?, hs]
  simp only [Document.fontEncoding, hname, hsub]

/-- Text is read alike in a font that a name stands for in both documents. -/
theorem shownText (h : Keeps K R d d') (hr : d.Region R) (hk : PublicResources K) {scope : Scope}
    {key : Bytes} (hres : d'.resource? scope "Font" key = d.resource? scope "Font" key)
    (hin : OptionWithin R (d.resource? scope "Font" key)) (bytes : Bytes) :
    d'.shownText scope key bytes = d.shownText scope key bytes := by
  unfold Document.shownText font?
  rw [hres]
  cases hv : d.resource? scope "Font" key with
  | none => simp only [Option.bind_eq_bind, Option.bind_none]
  | some v =>
    obtain ⟨home, ha⟩ := h.deref hr (hin v hv)
    have hrefs := hr.deref (hin v hv)
    simp only [Option.bind_eq_bind, Option.bind_some]
    rcases ha.dict? with ⟨hx, hy⟩ | ⟨es, fs, hx, hy, hef⟩
    · simp only [hx, hy]
    · have hes : EntriesWithin R es := entriesWithin_of_dict hrefs (by rw [hx]; rfl)
      simp only [hx, hy, Object.dict?,
        h.fontEncoding hr hes (hef _ (hk.encoding home)) (hef _ (hk.subtype home))]

theorem resourcesAlike_deref (h : Keeps K R d d') (hr : d.Region R) {v : Object α}
    (hv : ∀ r ∈ v.references, R r) : ResourcesAlike K R (d.deref v).dict? (d'.deref v).dict? := by
  obtain ⟨home, hvw⟩ := h.deref hr hv
  rcases hvw.dict? with ⟨hx, hy⟩ | ⟨es, fs, hx, hy, hef⟩
  · exact .inl ⟨hx, hy⟩
  · have hes : (d.deref v).dict? = some es := by rw [hx]; rfl
    refine .inr ⟨es, fs, hes, by rw [hy]; rfl, entriesWithin_of_dict (hr.deref hv) hes, ?_⟩
    exact fun key hk => hef _ (hk home)

/-- A form has the same resources. -/
theorem resources?_form (h : Keeps K R d d') (hr : d.Region R) {id : ObjectId} (hid : R id) :
    ResourcesAlike K R (d.resources? (.form id)) (d'.resources? (.form id)) := by
  simp only [resources?, h.getStream? hr hid, Option.bind_eq_bind]
  cases hs : d.getStream? id with
  | none => exact .inl ⟨rfl, rfl⟩
  | some found =>
    obtain ⟨entries, data⟩ := found
    simp only [Option.bind_some]
    cases hv : entries.get? "Resources" with
    | none => exact .inl ⟨rfl, rfl⟩
    | some v => exact h.resourcesAlike_deref hr (hr.streamEntries hid hs _ v hv)

/-- A page whose resources are found where they were has the same resources. -/
theorem resources?_page (h : Keeps K R d d') (hr : d.Region R) {p : ObjectId} (hp : R p) {es fs : Dict α}
    (hd : d.getDict? p = some es) (hd' : d'.getDict? p = some fs)
    (hkey : fs.get? "Resources" = es.get? "Resources") (hparent : fs.get? "Parent" = es.get? "Parent")
    (habove : ∀ home, d.Above es home → ¬ K home (Syntax.ascii "Resources")) (hpublic : Public K "Parent") :
    ResourcesAlike K R (d.resources? (.page p)) (d'.resources? (.page p)) := by
  have hin := hr.entriesWithin hp hd
  simp only [resources?, hd, hd', Option.bind_eq_bind, Option.bind_some, inherited?]
  rcases h.inheritedWithin? hr "Resources" maxAncestors habove hpublic hin hkey hparent with
    ⟨hx, hy⟩ | ⟨home, v, w, hx, hy, hvw, hv⟩
  · exact .inl ⟨by rw [hx]; rfl, by rw [hy]; rfl⟩
  · rw [hx, hy, Option.bind_some, Option.bind_some]
    rcases hvw.dict? with ⟨hn, hn'⟩ | ⟨es', fs', rfl, rfl, hef⟩
    · exact .inl ⟨hn, hn'⟩
    · exact .inr ⟨es', fs', rfl, rfl, entriesWithin_of_dict hv rfl, fun key hk => hef _ (hk home)⟩

/-- Where resources are the same, the same is found under a name if no private entries are in the category. -/
theorem resource?_alike (h : Keeps K R d d') (hr : d.Region R) {scope : Scope}
    (halike : ResourcesAlike K R (d.resources? scope) (d'.resources? scope)) {category : String}
    (hc : Public K category)
    (ha : ∀ resources, d.resources? scope = some resources → CategoryApart K d resources category)
    (name : Bytes) : d'.resource? scope category name = d.resource? scope category name := by
  rw [resource?_eq, resource?_eq]
  rcases halike with ⟨hx, hy⟩ | ⟨es, fs, hx, hy, hin, hef⟩
  · rw [hx, hy, Option.bind_none, Option.bind_none]
  · rw [hx, hy, Option.bind_some, Option.bind_some]
    exact h.entryIn? hr hin (hef _ hc) (ha es hx) name

variable [Scalar α]

theorem number?_ofObject (v : Object α) : (Operand.ofObject v).number? = v.number? := by
  cases v <;> simp [Operand.ofObject, Operand.number?, Object.number?]

theorem ofOperands?_congr {vs ws : List (Operand α)}
    (h : vs.map Operand.number? = ws.map Operand.number?) :
    Matrix.ofOperands? vs = Matrix.ofOperands? ws := by
  have hlen : vs.length = ws.length := by simpa using congrArg List.length h
  match vs, ws with
  | a :: b :: c :: e :: f :: g :: _, a' :: b' :: c' :: e' :: f' :: g' :: _ =>
    simp only [List.map_cons, List.cons.injEq] at h
    obtain ⟨h₁, h₂, h₃, h₄, h₅, h₆, -⟩ := h
    simp only [Matrix.ofOperands?, h₁, h₂, h₃, h₄, h₅, h₆]
  | [], [] | [_], [_] | [_, _], [_, _] | [_, _, _], [_, _, _] | [_, _, _, _], [_, _, _, _]
  | [_, _, _, _, _], [_, _, _, _, _] => rfl

/-- The matrix in an entry is the same. -/
theorem matrix (h : Keeps K R d d') (hr : d.Region R) {v : Object α} (hv : ∀ r ∈ v.references, R r) :
    ((d'.deref v).array?.bind fun items =>
        Matrix.ofOperands? (items.map fun v => Operand.ofObject (d'.deref v))) =
      (d.deref v).array?.bind fun items =>
        Matrix.ofOperands? (items.map fun v => Operand.ofObject (d.deref v)) := by
  rw [h.array?_deref hr hv]
  cases hitems : (d.deref v).array? with
  | none => simp only [Option.bind_none]
  | some items =>
    have hin := hr.items hv hitems
    simp only [Option.bind_some]
    apply ofOperands?_congr
    simp only [List.map_map]
    exact List.map_congr_left fun w hw => by
      simp only [Function.comp_apply, number?_ofObject, h.number?_deref hr (hin w hw)]

/-- The form of a name that stands for the same in both documents is the same. -/
theorem form? (h : Keeps K R d d') (hr : d.Region R) {scope : Scope} {name : Bytes}
    (hres : d'.resource? scope "XObject" name = d.resource? scope "XObject" name)
    (hin : OptionWithin R (d.resource? scope "XObject" name)) :
    d'.form? scope name = d.form? scope name := by
  unfold Document.form?
  rw [hres]
  cases hv : d.resource? scope "XObject" name with
  | none => simp only [Option.bind_eq_bind, Option.bind_none]
  | some v =>
    cases v with
    | ref id =>
      have hid : R id := hin _ hv id (by simp [Object.references])
      simp only [Option.bind_eq_bind, Option.bind_some, Object.ref?, h.getStream? hr hid]
      cases hs : d.getStream? id with
      | none => simp only [Option.bind_none]
      | some found =>
        obtain ⟨entries, data⟩ := found
        have hentries := hr.streamEntries hid hs
        have hm : (entries.get? "Matrix").bind (fun v => (d'.deref v).array?.bind fun items =>
              Matrix.ofOperands? (items.map fun v => Operand.ofObject (d'.deref v))) =
            (entries.get? "Matrix").bind fun v => (d.deref v).array?.bind fun items =>
              Matrix.ofOperands? (items.map fun v => Operand.ofObject (d.deref v)) := by
          cases hm : entries.get? "Matrix" with
          | none => simp only [Option.bind_none]
          | some v => exact h.matrix hr (hentries _ v hm)
        simp only [Option.bind_some, hm]
    | _ => simp only [Option.bind_eq_bind, Option.bind_some, Object.ref?, Option.bind_none]

/-- A form comes from a region and looks names up there, or where it was found. -/
theorem form?_scope {d : Document α} {scope : Scope} {name : Bytes}
    (hin : OptionWithin R (d.resource? scope "XObject" name)) {f : Form α}
    (h : d.form? scope name = some f) : f.scope = scope ∨ ∃ id, f.scope = .form id ∧ R id := by
  unfold Document.form? at h
  cases hv : d.resource? scope "XObject" name with
  | none => simp [hv] at h
  | some v =>
    cases v with
    | ref id =>
      have hid : R id := hin _ hv id (by simp [Object.references])
      simp only [hv, Option.bind_eq_bind, Option.bind_some, Object.ref?] at h
      obtain ⟨⟨entries, data⟩, -, h⟩ := Option.bind_eq_some_iff.mp h
      simp only at h
      split at h
      · cases h
      · obtain ⟨content, -, h⟩ := Option.bind_eq_some_iff.mp h
        obtain rfl := Option.some.inj h
        by_cases hres : entries.has "Resources" = true
        · exact .inr ⟨id, by simp [hres], hid⟩
        · exact .inl (by simp [hres])
    | _ => simp [hv, Object.ref?] at h

end Keeps

/-- The scopes that a program of a page comes to: that of the page, and those of the forms that it invokes. -/
inductive Visits (d : Document α) [Scalar α] (p : ObjectId) : Scope → Prop where
  | page : Visits d p (.page p)
  | form {scope : Scope} {name : Bytes} {f : Form α} (from_ : Visits d p scope)
      (found : d.form? scope name = some f) : Visits d p f.scope

variable [Scalar α] {R : ObjectId → Prop} {d d' d'' : Document α} {p : ObjectId}

/-- The pages and forms that programs of a page come to are in the region of the page. -/
theorem Visits.within (hr : d.Region R) (hp : R p) {scope : Scope} (h : d.Visits p scope) :
    ∀ id, scope = .page id ∨ scope = .form id → R id := by
  induction h with
  | page =>
    rintro id (hid | hid) <;> cases hid
    exact hp
  | form _ found ih =>
    intro id hid
    rcases Keeps.form?_scope (hr.resource ih _ _) found with he | ⟨form, he, hform⟩
    · exact ih id (he ▸ hid)
    · rw [he] at hid
      rcases hid with hid | hid <;> cases hid
      exact hform

/-- Programs look names up on their page or in a form. -/
theorem Visits.page_or_form {scope : Scope} (h : d.Visits p scope) :
    scope = .page p ∨ ∃ id, scope = .form id := by
  induction h with
  | page => exact .inl rfl
  | form _ found ih =>
    rcases Keeps.form?_scope (R := fun _ => True) (fun _ _ _ _ => trivial) found with he | ⟨id, he, -⟩
    · rwa [he]
    · exact .inr ⟨id, he⟩

/-- That the programs of a page find the same in both documents: the same forms, the same text in the
fonts of forms, and the same text in the fonts of the page that have names in `P`. -/
structure Finds (P : Bytes → Prop) (p : ObjectId) (d d' : Document α) : Prop where
  form : ∀ scope name, d.Visits p scope → d'.form? scope name = d.form? scope name
  inForm : ∀ id key bytes, d.Visits p (.form id) →
    d'.shownText (.form id) key bytes = d.shownText (.form id) key bytes
  onPage : ∀ key bytes, P key → d'.shownText (.page p) key bytes = d.shownText (.page p) key bytes

namespace Finds

variable {P : Bytes → Prop}

theorem visits (h : Finds P p d d') {scope : Scope} : d'.Visits p scope ↔ d.Visits p scope := by
  constructor
  · intro hv
    induction hv with
    | page => exact .page
    | form _ found ih =>
      rw [h.form _ _ ih] at found
      exact .form ih found
  · intro hv
    induction hv with
    | page => exact .page
    | form from_ found ih =>
      rw [← h.form _ _ from_] at found
      exact .form ih found

theorem trans (h : Finds P p d d') (h' : Finds P p d' d'') : Finds P p d d'' where
  form := fun scope name hv => (h'.form scope name (h.visits.mpr hv)).trans (h.form scope name hv)
  inForm := fun id key bytes hv => (h'.inForm id key bytes (h.visits.mpr hv)).trans (h.inForm id key bytes hv)
  onPage := fun key bytes hk => (h'.onPage key bytes hk).trans (h.onPage key bytes hk)

theorem symm (h : Finds P p d d') : Finds P p d' d where
  form := fun scope name hv => (h.form scope name (h.visits.mp hv)).symm
  inForm := fun id key bytes hv => (h.inForm id key bytes (h.visits.mp hv)).symm
  onPage := fun key bytes hk => (h.onPage key bytes hk).symm

/-- Where also other fonts of the page show the same, programs that select only these and those draw the
same. -/
theorem agreeOn (h : Finds P p d d') {Q : Bytes → Prop}
    (hpage : ∀ key bytes, Q key → d'.shownText (.page p) key bytes = d.shownText (.page p) key bytes)
    (hforms : ∀ scope name f, d.Visits p scope → d.form? scope name = some f →
      ∀ op ∈ decodeOperations (α := α) f.content, op.SelectsIn Q) :
    d.resolver.AgreeOn (d.Visits p) Q d'.resolver where
  operations := fun _ => rfl
  form := h.form
  scope := fun _ _ _ hv hf => .form hv hf
  fonts := hforms
  text := fun scope key bytes hv hkey => by
    rcases hv.page_or_form with rfl | ⟨id, rfl⟩
    · exact hpage key bytes hkey
    · exact h.inForm id key bytes hv

end Finds

/-- That no private entries are in the forms and fonts of the scopes that the programs of a page come to. -/
def NamesApart (K : ObjectId → Bytes → Prop) (d : Document α) (p : ObjectId) : Prop :=
  ∀ scope, d.Visits p scope → ∀ resources, d.resources? scope = some resources →
    CategoryApart K d resources "XObject" ∧ CategoryApart K d resources "Font"

/-- A page whose own forms and fonts are the same finds the same in a document that differs only in private
entries. -/
theorem Keeps.finds {K : ObjectId → Bytes → Prop} {P : Bytes → Prop} (h : Keeps K R d d')
    (hr : d.Region R) (hk : PublicResources K) (hp : R p) (ha : NamesApart K d p)
    (hobjects : ∀ name, d'.resource? (.page p) "XObject" name = d.resource? (.page p) "XObject" name)
    (hfonts : ∀ key, P key → d'.resource? (.page p) "Font" key = d.resource? (.page p) "Font" key) :
    Finds P p d d' where
  form := fun scope name hv => by
    refine h.form? hr ?_ (hr.resource (hv.within hr hp) _ _)
    rcases hv.page_or_form with rfl | ⟨id, rfl⟩
    · exact hobjects name
    · exact h.resource?_alike hr (h.resources?_form hr (hv.within hr hp id (.inr rfl))) hk.xObject
        (fun resources he => (ha _ hv resources he).1) name
  inForm := fun id key bytes hv => by
    have hid := hv.within hr hp id (.inr rfl)
    refine h.shownText hr hk ?_ (hr.resource (hv.within hr hp) _ _) bytes
    exact h.resource?_alike hr (h.resources?_form hr hid) hk.font
      (fun resources he => (ha _ hv resources he).2) key
  onPage := fun key bytes hkey => by
    refine h.shownText hr hk (hfonts key hkey) (hr.resource ?_ _ _) bytes
    rintro id (hid | hid) <;> cases hid
    exact hp

end Document

end Marginalia

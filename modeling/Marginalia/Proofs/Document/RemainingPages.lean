import Marginalia.Proofs.Document.PageRemoval

/-!
What is read from the pages that are left when a page was removed: their frames, their content, and what names in it
stand for.
-/

namespace Marginalia

namespace Object

variable {α : Type} {p : ObjectId} {rows : ObjectId → Bool} {vs ws : List (Object α)}

/-- The references in a row are the same. -/
theorem filterMap_ref?_struck (h : List.Forall₂ (Struck p rows) vs ws) :
    ws.filterMap ref? = vs.filterMap ref? ∧ ∀ id ∈ vs.filterMap ref?, Clear p rows id := by
  induction h with
  | nil => simp
  | @cons v w vs ws hvw _ ih =>
    rw [List.filterMap_cons, List.filterMap_cons, hvw.ref?, ih.1]
    cases hv : v.ref? with
    | none => exact ⟨rfl, ih.2⟩
    | some id => exact ⟨rfl, List.forall_mem_cons.mpr ⟨hvw.clear hv, ih.2⟩⟩

end Object

namespace Document

open Object

variable {α : Type} {p : ObjectId} {rows : ObjectId → Bool} {d d' : Document α}

/-- That a scope is neither the page that was removed nor a form in place of an array of kids. -/
def ScopeClear (p : ObjectId) (rows : ObjectId → Bool) (scope : Scope) : Prop :=
  ∀ id, scope = .page id ∨ scope = .form id → Clear p rows id

namespace Detached

variable {es fs : Dict α} {v w : Object α}

/-- The value of an inherited attribute is what is left of what it was. -/
theorem inheritedWithin? (h : Detached p rows d d') {key : String} (hkey : Syntax.ascii key ∉ struckKeys) (hops : Nat)
    (hef : EntriesStruck p rows es fs) :
    Option.Rel (Struck p rows) (d.inheritedWithin? key hops es) (d'.inheritedWithin? key hops fs) := by
  induction hops generalizing es fs with
  | zero => exact .none
  | succ hops ih =>
    unfold Document.inheritedWithin?
    have hvalue := hef.get? hkey
    generalize es.get? key = x at *
    generalize fs.get? key = y at *
    cases hvalue with
    | some hvw => exact .some (h.deref hvw)
    | none =>
      refine rel_bind (hef.get? (by decide)) fun v w hvw => ?_
      cases hv : v.ref? with
      | none =>
        simp only [hvw.ref?, hv, Option.bind_eq_bind, Option.bind_none]
        exact .none
      | some parent =>
        simp only [hvw.ref?, hv, Option.bind_eq_bind, Option.bind_some]
        exact rel_bind (h.getDict? (hvw.clear hv)) fun es fs hef => ih hef

/-- Contents name the same streams. -/
theorem streamsOf (h : Detached p rows d d') (steps : Nat) (hvw : Struck p rows v w) :
    d'.streamsOf steps w = d.streamsOf steps v ∧ ∀ id ∈ d.streamsOf steps v, Clear p rows id := by
  induction steps generalizing v w with
  | zero => exact ⟨rfl, by simp [Document.streamsOf]⟩
  | succ steps ih =>
    cases hvw with
    | leaf hleaf => cases v <;> first | exact False.elim hleaf | exact ⟨rfl, by simp [Document.streamsOf]⟩
    | dict | stream => exact ⟨rfl, by simp [Document.streamsOf]⟩
    | array items => exact filterMap_ref?_struck items
    | @ref id clear =>
      have hstored := h.others id clear
      simp only [Document.streamsOf]
      generalize d.stored? id = x at *
      generalize d'.stored? id = y at *
      cases hstored with
      | none => exact ⟨rfl, by simpa using clear⟩
      | @some v w hvw =>
        have hrest := ih hvw
        cases hvw with
        | leaf hleaf => cases v <;> first | exact False.elim hleaf | exact hrest
        | stream => exact ⟨rfl, by simpa using clear⟩
        | _ => exact hrest

/-- A page has the same content. -/
theorem pageContent (h : Detached p rows d d') {q : ObjectId} (hq : Clear p rows q) :
    d'.pageContent q = d.pageContent q := by
  have hcontents : Option.Rel (Struck p rows) ((d.getDict? q).bind (·.get? "Contents"))
      ((d'.getDict? q).bind (·.get? "Contents")) :=
    rel_bind (h.getDict? hq) fun es fs hef => EntriesStruck.get? hef (by decide)
  unfold Document.pageContent
  generalize (d.getDict? q).bind (·.get? "Contents") = x at *
  generalize (d'.getDict? q).bind (·.get? "Contents") = y at *
  cases hcontents with
  | none => rfl
  | some hvw =>
    obtain ⟨hstreams, hclear⟩ := h.streamsOf maxContentSteps hvw
    simp only [hstreams]
    exact List.flatMap_congr fun id hid => by simp only [contentData, h.getStream? (hclear id hid)]

/-- Resources are what is left of what they were. -/
theorem resources?_page (h : Detached p rows d d') {q : ObjectId} (hq : Clear p rows q) :
    Option.Rel (EntriesStruck p rows) (d.resources? (.page q)) (d'.resources? (.page q)) :=
  rel_bind (h.getDict? hq) fun es fs hef => by
    refine rel_bind (h.inheritedWithin? (by decide) maxAncestors hef) fun v w hvw => ?_
    rcases hvw.dict? with ⟨hv, hw⟩ | ⟨es, fs, rfl, rfl, hef⟩
    · rw [hv, hw]
      exact .none
    · exact .some hef

theorem resources?_form (h : Detached p rows d d') {id : ObjectId} (hid : Clear p rows id) :
    Option.Rel (EntriesStruck p rows) (d.resources? (.form id)) (d'.resources? (.form id)) := by
  simp only [Document.resources?, h.getStream? hid, Option.bind_eq_bind]
  cases hs : d.getStream? id with
  | none => exact .none
  | some found =>
    obtain ⟨es, data⟩ := found
    simp only [Option.bind_some]
    exact rel_bind ((h.streamEntries hid hs).get? (by decide)) fun v w hvw => h.dict?_deref hvw

/-- What a name stands for among resources is what is left of what it stood for. -/
theorem entryIn? (h : Detached p rows d d') (hef : EntriesStruck p rows es fs) {category : String}
    (hc : Syntax.ascii category ∉ struckKeys) (name : Bytes) :
    EntryStruck p rows name (d.entryIn? es category name) (d'.entryIn? fs category name) := by
  have hentries := rel_bind (hef.get? hc) fun v w hvw => h.dict?_deref hvw
  unfold Document.entryIn?
  generalize (es.get? category).bind (fun v => (d.deref v).dict?) = x at *
  generalize (fs.get? category).bind (fun v => (d'.deref v).dict?) = y at *
  cases hentries with
  | none => exact .none
  | some hef => exact hef name

theorem fontEncoding (h : Detached p rows d d') (hef : EntriesStruck p rows es fs) :
    d'.fontEncoding fs = d.fontEncoding es := by
  have hname : (fs.get? "Encoding").bind (fun v => (d'.deref v).name?) =
      (es.get? "Encoding").bind fun v => (d.deref v).name? :=
    bind_eq_of_rel (hef.get? (by decide)) fun v w hvw => (h.deref hvw).name?
  have hsubtype : fs.hasName "Subtype" "Type0" = es.hasName "Subtype" "Type0" :=
    congrArg (· == some (Syntax.ascii "Type0")) (hef.name? (by decide))
  simp only [Document.fontEncoding, hname, hsubtype]

/-- An array of kids is neither a stream nor a dictionary. -/
theorem row_neither (h : Detached p rows d d') {id : ObjectId} (hid : rows id = true) :
    (d.getStream? id = none ∧ d'.getStream? id = none) ∧
      (d.deref (.ref id)).dict? = none ∧ (d'.deref (.ref id)).dict? = none := by
  rcases h.locateRow hid with ⟨e, ha, hb⟩ | ⟨home, items, ha, hb⟩
  · have hd : d.get? id = none := by simp [Document.get?, ha, Except.toOption]
    have hd' : d'.get? id = none := by simp [Document.get?, hb, Except.toOption]
    simp only [Document.getStream?, Document.deref, hd, hd', Option.bind_none, Option.getD_none, Object.dict?,
      and_self]
  · simp only [Document.getStream?, Document.deref, get?_eq_some.mpr ⟨home, ha⟩, get?_eq_some.mpr ⟨home, hb⟩,
      Option.bind_some, Option.getD_some, Object.stream?, Object.dict?, and_self]

section Scopes

variable {scope : Scope} (hs : ScopeClear p rows scope)

include hs

theorem resources? (h : Detached p rows d d') :
    Option.Rel (EntriesStruck p rows) (d.resources? scope) (d'.resources? scope) := by
  cases scope with
  | page id => exact h.resources?_page (hs id (.inl rfl))
  | form id => exact h.resources?_form (hs id (.inr rfl))
  | nothing => exact .none

theorem resource? (h : Detached p rows d d') {category : String} (hc : Syntax.ascii category ∉ struckKeys)
    (name : Bytes) : EntryStruck p rows name (d.resource? scope category name) (d'.resource? scope category name) := by
  have hres := h.resources? hs
  rw [resource?_eq, resource?_eq]
  generalize d.resources? scope = x at *
  generalize d'.resources? scope = y at *
  cases hres with
  | none => exact .none
  | some hef => exact h.entryIn? hef hc name

/-- The font of a name is what is left of what it was, unless it was the page. -/
theorem font? (h : Detached p rows d d') (hfont : d.resource? scope "Font" (Syntax.ascii "P") ≠ some (.ref p))
    (key : Bytes) : Option.Rel (EntriesStruck p rows) (d.font? scope key) (d'.font? scope key) := by
  have hentry := h.resource? hs (show Syntax.ascii "Font" ∉ struckKeys by decide) key
  unfold Document.font?
  rcases entryStruck_cases hentry with hrel | ⟨rfl, hx, -⟩ | ⟨v, w, hx, hy, hvw⟩
  · exact rel_bind hrel fun v w hvw => h.dict?_deref hvw
  · exact absurd hx hfont
  · have hnone : (d.deref v).dict? = none ∧ (d'.deref w).dict? = none := by
      rcases hvw with ⟨id, hid, rfl, rfl⟩ | ⟨⟨hv, hw⟩, hv', hw'⟩
      · exact (h.row_neither hid).2
      · cases v <;> cases hv <;> cases w <;> cases hw <;> exact ⟨hv', hw'⟩
    simp only [hx, hy, Option.bind_eq_bind, Option.bind_some, hnone]
    exact .none

theorem shownText (h : Detached p rows d d') (hfont : d.resource? scope "Font" (Syntax.ascii "P") ≠ some (.ref p))
    (key bytes : Bytes) : d'.shownText scope key bytes = d.shownText scope key bytes := by
  have hrel := h.font? hs hfont key
  unfold Document.shownText
  generalize d.font? scope key = x at *
  generalize d'.font? scope key = y at *
  cases hrel with
  | none => rfl
  | some hef => simp only [h.fontEncoding hef]

end Scopes

variable [Scalar α]

/-- The numbers of an array are the same. -/
theorem numbers? (h : Detached p rows d d') {vs ws : List (Object α)} (hitems : List.Forall₂ (Struck p rows) vs ws) :
    d'.numbers? ws = d.numbers? vs := by
  unfold Document.numbers?
  induction hitems with
  | nil => rw [List.mapM_nil, List.mapM_nil]
  | cons hvw _ ih => rw [List.mapM_cons, List.mapM_cons, (h.deref hvw).number?, ih]

theorem corners? (h : Detached p rows d d') {key : String} (hkey : Syntax.ascii key ∉ struckKeys)
    (hef : EntriesStruck p rows es fs) : d'.corners? fs key = d.corners? es key := by
  refine bind_eq_of_rel (h.inheritedWithin? hkey maxAncestors hef) fun v w hvw => ?_
  rcases hvw.array? with ⟨hv, hw⟩ | ⟨vs, ws, rfl, rfl, hitems⟩
  · simp only [hv, hw, Option.bind_eq_bind, Option.bind_none]
  · have htake : List.Forall₂ (Struck p rows) (vs.take 4) (ws.take 4) := List.forall₂_take 4 hitems
    simp only [Object.array?, Option.bind_eq_bind, Option.bind_some, h.numbers? htake]

/-- A page has the same frame. -/
theorem frame (h : Detached p rows d d') {q : ObjectId} (hq : Clear p rows q) (hd : d.getDict? q = some es) :
    d'.frame q = d.frame q := by
  obtain ⟨home, hl⟩ := getDict?_eq_some.mp hd
  rcases h.locateFrom maxReferences hq with ⟨e, ha, -⟩ | ⟨home', v, w, ha, hb, hvw⟩
  · rw [locate, ha] at hl
    cases hl
  · rw [locate, ha] at hl
    cases hl
    rcases hvw.dict? with ⟨hv, -⟩ | ⟨_, fs, he, rfl, hef⟩
    · cases hv
    · cases he
      have hef : EntriesStruck p rows es fs := hef
      simp only [Document.frame, pageEntries, locateDict_eq_ok.mpr ha, locateDict_eq_ok.mpr hb, bind, Except.bind,
        h.corners? (show Syntax.ascii "CropBox" ∉ struckKeys by decide) hef,
        h.corners? (show Syntax.ascii "MediaBox" ∉ struckKeys by decide) hef]

/-- The map in an entry of a form is the same. -/
theorem matrix (h : Detached p rows d d') (hvw : Struck p rows v w) :
    ((d'.deref w).array?.bind fun items => Matrix.ofOperands? (items.map fun v => Operand.ofObject (d'.deref v))) =
      (d.deref v).array?.bind fun items =>
        Matrix.ofOperands? (items.map fun v => Operand.ofObject (d.deref v)) := by
  refine bind_eq_of_rel (h.array?_deref hvw) fun vs ws hitems => Keeps.ofOperands?_congr ?_
  induction hitems with
  | nil => rfl
  | cons hvw _ ih =>
    simp only [List.map_cons, List.cons.injEq, Keeps.number?_ofObject]
    exact ⟨(h.deref hvw).number?, by simpa only [List.map_map, Function.comp_def, Keeps.number?_ofObject] using ih⟩

section Forms

omit [Scalar α] in
/-- A name refers to the same number, or to no stream before and after. -/
theorem named_stream (h : Detached p rows d d') (hp : (d.getDict? p).isSome = true) {name : Bytes}
    {x y : Option (Object α)} (hxy : EntryStruck p rows name x y) :
    (∃ id, Clear p rows id ∧ x.bind Object.ref? = some id ∧ y.bind Object.ref? = some id) ∨
      (x.bind Object.ref?).bind d.getStream? = none ∧ (y.bind Object.ref?).bind d'.getStream? = none := by
  rcases entryStruck_cases hxy with hrel | ⟨-, rfl, rfl⟩ | ⟨v, w, rfl, rfl, hvw⟩
  · cases hrel with
    | none => exact .inr ⟨rfl, rfl⟩
    | @some v w hvw =>
      rw [Option.bind_some, Option.bind_some, hvw.ref?]
      cases hv : v.ref? with
      | none => exact .inr ⟨rfl, rfl⟩
      | some id => exact .inl ⟨id, hvw.clear hv, rfl, rfl⟩
  · obtain ⟨es, hes⟩ := Option.isSome_iff_exists.mp hp
    obtain ⟨v, hv, hdict⟩ := Option.bind_eq_some_iff.mp hes
    refine .inr ⟨?_, rfl⟩
    cases v <;> cases hdict
    simp only [Option.bind_some, Object.ref?, Document.getStream?, hv, Object.stream?]
  · rcases hvw with ⟨id, hid, rfl, rfl⟩ | ⟨⟨hv, hw⟩, -⟩
    · exact .inr (h.row_neither hid).1
    · rw [Option.bind_some, Option.bind_some, hv, hw]
      exact .inr ⟨rfl, rfl⟩

variable {scope : Scope}

/-- Names stand for the same forms. -/
theorem form? (h : Detached p rows d d') (hp : (d.getDict? p).isSome = true) (hs : ScopeClear p rows scope)
    (name : Bytes) : d'.form? scope name = d.form? scope name := by
  have hentry := h.resource? hs (show Syntax.ascii "XObject" ∉ struckKeys by decide) name
  unfold Document.form?
  simp only [Option.bind_eq_bind, ← Option.bind_assoc]
  rcases h.named_stream hp hentry with ⟨id, hid, hx, hy⟩ | ⟨hx, hy⟩
  · simp only [hx, hy, Option.bind_some, h.getStream? hid]
    cases hstream : d.getStream? id with
    | none => simp only [Option.bind_none]
    | some found =>
      obtain ⟨es, data⟩ := found
      have hmatrix := bind_eq_of_rel ((h.streamEntries hid hstream).get? (show Syntax.ascii "Matrix" ∉ struckKeys by
        decide)) fun v w hvw => h.matrix hvw
      simp only [Option.bind_assoc, Option.bind_some, hmatrix]
  · have hnone : ∀ {e : Document α} {z : Option ObjectId}, z.bind e.getStream? = none →
        ∀ k : ObjectId → Dict α × Bytes → Option (Form α), (z.bind fun id => (e.getStream? id).bind (k id)) = none := by
      intro e z hz k
      cases z with
      | none => rfl
      | some id => rw [Option.bind_some, show e.getStream? id = none from hz, Option.bind_none]
    rw [hnone hx, hnone hy]

/-- A form looks names up in itself or where it was named. -/
theorem form?_clear (h : Detached p rows d d') (hp : (d.getDict? p).isSome = true) (hs : ScopeClear p rows scope)
    {name : Bytes} {f : Form α} (hf : d.form? scope name = some f) : ScopeClear p rows f.scope := by
  have hentry := h.resource? hs (show Syntax.ascii "XObject" ∉ struckKeys by decide) name
  unfold Document.form? at hf
  simp only [Option.bind_eq_bind, ← Option.bind_assoc] at hf
  obtain ⟨id, hx, hf⟩ := Option.bind_eq_some_iff.mp hf
  obtain ⟨⟨es, data⟩, hstream, hf⟩ := Option.bind_eq_some_iff.mp hf
  rcases h.named_stream hp hentry with ⟨id', hid, hx', -⟩ | ⟨hnone, -⟩
  · obtain rfl : id = id' := Option.some.inj (hx.symm.trans hx')
    simp only at hf
    split at hf
    · cases hf
    · obtain ⟨content, -, hf⟩ := Option.bind_eq_some_iff.mp hf
      obtain rfl := Option.some.inj hf
      intro i hi
      dsimp only at hi
      split at hi
      · rcases hi with hi | hi <;> cases hi
        exact hid
      · exact hs i hi
  · rw [hx, Option.bind_some, hstream] at hnone
    cases hnone

end Forms

/-- The programs of a page that is left find what they found, if no font of theirs was the page. -/
theorem finds (h : Detached p rows d d') (hp : (d.getDict? p).isSome = true) {q : ObjectId} (hq : Clear p rows q)
    (hfont : ∀ scope, d.Visits q scope → d.resource? scope "Font" (Syntax.ascii "P") ≠ some (.ref p)) :
    Finds (fun _ => True) q d d' := by
  have hclear : ∀ {scope}, d.Visits q scope → ScopeClear p rows scope := by
    intro scope hv
    induction hv with
    | page =>
      rintro id (hid | hid) <;> cases hid
      exact hq
    | form _ found ih => exact h.form?_clear hp ih found
  exact {
    form := fun scope name hv => h.form? hp (hclear hv) name
    inForm := fun id key bytes hv => h.shownText (hclear hv) (hfont _ hv) key bytes
    onPage := fun key bytes _ => h.shownText (hclear .page) (hfont _ .page) key bytes }

end Detached

end Document

end Marginalia

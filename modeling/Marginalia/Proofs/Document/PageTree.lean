import Marginalia.Proofs.Document.Likeness

/-!
A well-formed page tree is walked to its end within the budget of the walk, and two documents that
differ only in private entries have the same pages with the same frames.
-/

namespace Marginalia

namespace Document

variable {α : Type}

/-- The number that the object behind a number is stored under. -/
def home? (d : Document α) (id : ObjectId) : Option ObjectId :=
  (d.locate id).toOption.map Prod.fst

/-- A walk of the page tree that comes to its end and meets nothing but pages and nodes, with the
numbers of all that it looks at and the pages among them. -/
inductive Walk (d : Document α) :
    List (List (Object α)) → List ObjectId → List ObjectId → Prop where
  | done : Walk d [] [] []
  | page {v : Object α} {vs : List (Object α)} {stack : List (List (Object α))} {id : ObjectId}
      {seen pages : List ObjectId} (kid : d.kid v = .page id)
      (rest : Walk d (pushKids vs stack) seen pages) :
      Walk d ((v :: vs) :: stack) (id :: seen) (id :: pages)
  | node {v : Object α} {vs : List (Object α)} {stack : List (List (Object α))} {id : ObjectId}
      {seen pages : List ObjectId} (kid : d.kid v = .node id) (depth : stack.length < maxTreeDepth)
      (rest : Walk d (pushKids (d.kids id) (pushKids vs stack)) seen pages) :
      Walk d ((v :: vs) :: stack) (id :: seen) pages
  | deep {v : Object α} {vs : List (Object α)} {stack : List (List (Object α))} {id : ObjectId}
      {seen pages : List ObjectId} (kid : d.kid v = .node id) (depth : ¬ stack.length < maxTreeDepth)
      (rest : Walk d (pushKids vs stack) seen pages) :
      Walk d ((v :: vs) :: stack) (id :: seen) pages

/-- Every kid in the page tree is a page or a node that is met nowhere else. -/
structure TreeSound (d : Document α) : Prop where
  walk : ∀ root, d.pageTreeRoot? = some root →
    ∃ seen pages, d.Walk (pushKids (d.kids root) []) seen pages ∧ (seen.map d.home?).Nodup

/-- A kid that is a page or a node is a reference to a dictionary. -/
theorem kid_ref {d : Document α} {v : Object α} {id : ObjectId}
    (h : d.kid v = .page id ∨ d.kid v = .node id) :
    v = .ref id ∧ ∃ home, ∃ entries : Dict α, d.locate id = .ok (home, .dict entries) := by
  cases v with
  | ref r =>
    cases hd : d.getDict? r with
    | none => simp [kid, hd] at h
    | some entries =>
      have hr : r = id := by
        simp only [kid, hd, Option.bind_some] at h
        cases hn : Dict.typeName? entries with
        | none => simp [hn] at h
        | some n =>
          simp only [hn] at h
          split at h
          · simpa using h
          · split at h
            · simpa using h
            · simp at h
      obtain ⟨home, hl⟩ := getDict?_eq_some.mp hd
      exact ⟨by rw [hr], home, entries, by rw [← hr, hl]⟩
  | _ => simp [kid] at h

theorem kid_mem {d : Document α} {v : Object α} {id : ObjectId}
    (h : d.kid v = .page id ∨ d.kid v = .node id) : id ∈ v.references := by
  rw [(kid_ref h).1]
  simp [Object.references]

/-- What a walk looks at are dictionaries. -/
theorem Walk.dict {d : Document α} {stack : List (List (Object α))}
    {seen pages : List ObjectId} (h : d.Walk stack seen pages) :
    ∀ id ∈ seen, ∃ home, ∃ entries : Dict α, d.locate id = .ok (home, .dict entries) := by
  induction h with
  | done => simp
  | page kid _ ih =>
    intro id hid
    rcases List.mem_cons.mp hid with rfl | hid
    · exact (kid_ref (.inl kid)).2
    · exact ih id hid
  | node kid _ _ ih | deep kid _ _ ih =>
    intro id hid
    rcases List.mem_cons.mp hid with rfl | hid
    · exact (kid_ref (.inr kid)).2
    · exact ih id hid

theorem Walk.sublist {d : Document α} {stack : List (List (Object α))} {seen pages : List ObjectId}
    (h : d.Walk stack seen pages) : pages.Sublist seen := by
  induction h with
  | done => exact List.Sublist.refl _
  | page _ _ ih => exact ih.cons_cons _
  | node _ _ _ ih | deep _ _ _ ih => exact ih.cons _

theorem home?_eq_some {d : Document α} {id home : ObjectId} :
    d.home? id = some home ↔ ∃ v, d.locate id = .ok (home, v) := by
  unfold home?
  cases d.locate id with
  | error e => simp [Except.toOption]
  | ok found => obtain ⟨i, v⟩ := found; simp [Except.toOption]

/-- Objects met at different places are no more than there are objects. -/
theorem length_le_objects {d : Document α} {seen : List ObjectId} (hn : (seen.map d.home?).Nodup)
    (hs : ∀ id ∈ seen, ∃ home, ∃ entries : Dict α, d.locate id = .ok (home, .dict entries)) :
    seen.length ≤ d.objects.length := by
  have hsub : seen.map d.home? ⊆ d.objects.map fun e => some e.1 := by
    intro home hm
    obtain ⟨id, hid, rfl⟩ := List.mem_map.mp hm
    obtain ⟨home, entries, hl⟩ := hs id hid
    have hh : d.home? id = some home := home?_eq_some.mpr ⟨_, hl⟩
    have hst := stored?_of_locate hl
    simp only [stored?, Option.map_eq_some_iff] at hst
    obtain ⟨e, he, -⟩ := hst
    have hk : e.1 = home := by simpa using List.find?_some he
    rw [hh]
    exact List.mem_map.mpr ⟨e, List.mem_of_find?_eq_some he, by rw [hk]⟩
  simpa using hn.length_le_of_subset hsub

/-- A walk that ends gives the same pages with any budget that suffices for it. -/
theorem Walk.walkTree {d : Document α} {stack : List (List (Object α))} {seen pages : List ObjectId}
    (h : d.Walk stack seen pages) {limit : Nat} (hl : seen.length ≤ limit) :
    d.walkTree limit stack = pages := by
  induction h generalizing limit with
  | done => cases limit <;> rfl
  | page kid _ ih =>
    cases limit with
    | zero => simp at hl
    | succ limit =>
      simp only [Document.walkTree, kid]
      rw [ih (by simpa using hl)]
  | node kid depth _ ih =>
    cases limit with
    | zero => simp at hl
    | succ limit =>
      simp only [Document.walkTree, kid, depth, if_true]
      exact ih (by simpa using hl)
  | deep kid depth _ ih =>
    cases limit with
    | zero => simp at hl
    | succ limit =>
      simp only [Document.walkTree, kid, depth, if_false]
      exact ih (by simpa using hl)

/-- The pages are those of the walk. -/
theorem Walk.pages_eq {d : Document α} {root : ObjectId} {seen pages : List ObjectId}
    (hr : d.pageTreeRoot? = some root) (h : d.Walk (pushKids (d.kids root) []) seen pages)
    (hn : (seen.map d.home?).Nodup) : d.pages = pages := by
  simp only [Document.pages, hr]
  exact h.walkTree (length_le_objects hn h.dict)

/-- The pages are dictionaries at different places. -/
theorem TreeSound.pages_homes {d : Document α} (h : d.TreeSound) :
    (d.pages.map d.home?).Nodup ∧
      ∀ id ∈ d.pages, ∃ home, ∃ entries : Dict α, d.locate id = .ok (home, .dict entries) := by
  cases hr : d.pageTreeRoot? with
  | none => simp [pages, hr]
  | some root =>
    obtain ⟨seen, pages, hw, hn⟩ := h.walk root hr
    rw [hw.pages_eq hr hn]
    exact ⟨(hw.sublist.map d.home?).nodup hn, fun id hid => hw.dict id (hw.sublist.subset hid)⟩

theorem page_eq_ok {d : Document α} {number : Nat} {id : ObjectId} :
    d.page number = .ok id ↔ ∃ i, number = i + 1 ∧ d.pages[i]? = some id := by
  unfold page
  cases number with
  | zero => simp
  | succ i =>
    simp only [Nat.add_one_ne_zero, if_false, Nat.add_sub_cancel, Nat.add_right_cancel_iff,
      exists_eq_left']
    cases d.pages[i]? <;> simp

/-- The pages with their numbers are the pages of these numbers. -/
theorem mem_numberedPages {d : Document α} {number : Nat} {id : ObjectId} :
    (number, id) ∈ d.numberedPages ↔ d.page number = .ok id := by
  rw [page_eq_ok, numberedPages, List.mem_iff_getElem?]
  constructor
  · rintro ⟨i, hi⟩
    obtain ⟨hnumber, hid⟩ := List.getElem?_zip_eq_some.mp hi
    rw [List.getElem?_map, Option.map_eq_some_iff] at hnumber
    obtain ⟨j, hj, rfl⟩ := hnumber
    obtain rfl : i = j := by
      obtain ⟨hlt, rfl⟩ := List.getElem?_eq_some_iff.mp hj
      exact (List.getElem_range _).symm
    exact ⟨i, rfl, hid⟩
  · rintro ⟨i, rfl, hid⟩
    refine ⟨i, List.getElem?_zip_eq_some.mpr ⟨?_, hid⟩⟩
    have hlt := (List.getElem?_eq_some_iff.mp hid).1
    rw [List.getElem?_map, List.getElem?_range hlt, Option.map_some]

/-- That the keys which the page tree and the frames of pages are read through are private nowhere. -/
structure PublicTree (K : ObjectId → Bytes → Prop) : Prop where
  type : Public K "Type"
  linearized : Public K "Linearized"
  kids : Public K "Kids"
  pages : Public K "Pages"
  parent : Public K "Parent"
  cropBox : Public K "CropBox"
  mediaBox : Public K "MediaBox"

/-- That all references in a row of objects, and in the rows under it, stay in a region. -/
def RowsWithin (R : ObjectId → Prop) (rows : List (List (Object α))) : Prop :=
  ∀ row ∈ rows, ∀ v ∈ row, ∀ r ∈ v.references, R r

namespace Keeps

variable {K : ObjectId → Bytes → Prop} {R : ObjectId → Prop} {d d' : Document α}

theorem home? (h : Keeps K R d d') (hr : d.Region R) {id : ObjectId} (hid : R id) :
    d'.home? id = d.home? id := by
  rcases h.locateFrom hr maxReferences hid with ⟨e, ha, hb⟩ | ⟨home, v, w, ha, hb, -⟩
  · simp [Document.home?, locate, ha, hb, Except.toOption]
  · simp [Document.home?, locate, ha, hb, Except.toOption]

theorem pageTreeRoot? (h : Keeps K R d d') (hr : d.Region R) (hk : PublicTree K) :
    d'.pageTreeRoot? = d.pageTreeRoot? := by
  unfold Document.pageTreeRoot?
  rw [h.root]
  cases ht : d.trailer.get? "Root" with
  | none => rfl
  | some v =>
    cases hv : v.ref? with
    | none => simp [hv]
    | some root =>
      cases v <;> cases hv
      have he := congrArg (·.bind Object.ref?) (h.entry hr (hr.root _ ht) hk.pages)
      rw [Option.bind_assoc, Option.bind_assoc] at he
      exact he

theorem kids (h : Keeps K R d d') (hr : d.Region R) (hk : PublicTree K) {node : ObjectId}
    (hn : R node) : d'.kids node = d.kids node := by
  unfold Document.kids
  rw [h.entry hr hn hk.kids]
  cases he : (d.getDict? node).bind (·.get? "Kids") with
  | none => rfl
  | some v =>
    obtain ⟨entries, hd, hv⟩ := Option.bind_eq_some_iff.mp he
    simp only [Option.bind_some, h.array?_deref hr (hr.entry hn hd hv)]

theorem typeName? (h : Keeps K R d d') (hr : d.Region R) (hk : PublicTree K) {id : ObjectId}
    (hid : R id) :
    (d'.getDict? id).bind Dict.typeName? = (d.getDict? id).bind Dict.typeName? := by
  rcases h.getDict? hr hid with ⟨ha, hb⟩ | ⟨home, es, fs, -, ha, hb, hef⟩
  · simp [ha, hb]
  · have htype : fs.name? "Type" = es.name? "Type" := by
      have hget : fs.get? "Type" = es.get? "Type" := hef _ (hk.type home)
      rw [Dict.name?, hget]
      rfl
    have hlin : fs.has "Linearized" = es.has "Linearized" :=
      congrArg Option.isSome (hef _ (hk.linearized home))
    rw [ha, hb, Option.bind_some, Option.bind_some, Dict.typeName?, Dict.typeName?, htype, hlin]

theorem kid (h : Keeps K R d d') (hr : d.Region R) (hk : PublicTree K) {v : Object α}
    (hv : ∀ r ∈ v.references, R r) : d'.kid v = d.kid v := by
  cases v with
  | ref id => simp only [Document.kid, h.typeName? hr hk (hv id (by simp [Object.references]))]
  | _ => rfl

end Keeps

theorem Region.kids {R : ObjectId → Prop} {d : Document α} (hr : d.Region R) {node : ObjectId}
    (hn : R node) : ∀ v ∈ d.kids node, ∀ r ∈ v.references, R r := by
  unfold Document.kids
  cases he : ((d.getDict? node).bind (·.get? "Kids")).bind fun v => (d.deref v).array? with
  | none => simp
  | some items =>
    obtain ⟨v, hv, hitems⟩ := Option.bind_eq_some_iff.mp he
    obtain ⟨entries, hd, hv⟩ := Option.bind_eq_some_iff.mp hv
    exact hr.items (hr.entry hn hd hv) hitems

theorem rowsWithin_pushKids {R : ObjectId → Prop} {row : List (Object α)}
    {rows : List (List (Object α))} (hrow : ∀ v ∈ row, ∀ r ∈ v.references, R r)
    (hrows : RowsWithin R rows) : RowsWithin R (pushKids row rows) := by
  unfold pushKids
  split
  · exact hrows
  · intro r hr
    rcases List.mem_cons.mp hr with rfl | hr
    · exact hrow
    · exact hrows r hr

theorem RowsWithin.uncons {R : ObjectId → Prop} {v : Object α} {vs : List (Object α)}
    {rows : List (List (Object α))} (h : RowsWithin R ((v :: vs) :: rows)) :
    (∀ r ∈ v.references, R r) ∧ RowsWithin R (pushKids vs rows) := by
  have hrow := h (v :: vs) (by simp)
  refine ⟨hrow v (by simp), rowsWithin_pushKids (fun w hw => hrow w (by simp [hw])) ?_⟩
  exact fun row hr => h row (by simp [hr])

/-- A walk is a walk in a document that differs only in private entries. -/
theorem Walk.transfer {K : ObjectId → Bytes → Prop} {R : ObjectId → Prop} {d d' : Document α}
    (h : Keeps K R d d') (hr : d.Region R) (hk : PublicTree K) {stack : List (List (Object α))}
    {seen pages : List ObjectId} (hw : d.Walk stack seen pages) (hs : RowsWithin R stack) :
    d'.Walk stack seen pages ∧ ∀ id ∈ seen, R id := by
  induction hw with
  | done => exact ⟨.done, by simp⟩
  | page kid rest ih =>
    obtain ⟨hv, hrest⟩ := hs.uncons
    obtain ⟨hw', hin⟩ := ih hrest
    refine ⟨.page ((h.kid hr hk hv).trans kid) hw', ?_⟩
    intro id hid
    rcases List.mem_cons.mp hid with rfl | hid
    · exact hv _ (kid_mem (.inl kid))
    · exact hin id hid
  | node kid depth rest ih =>
    obtain ⟨hv, hrest⟩ := hs.uncons
    have hid := hv _ (kid_mem (.inr kid))
    obtain ⟨hw', hin⟩ := ih (rowsWithin_pushKids (hr.kids hid) hrest)
    rw [← h.kids hr hk hid] at hw'
    refine ⟨.node ((h.kid hr hk hv).trans kid) depth hw', ?_⟩
    intro id hid'
    rcases List.mem_cons.mp hid' with rfl | hid'
    · exact hid
    · exact hin id hid'
  | deep kid depth rest ih =>
    obtain ⟨hv, hrest⟩ := hs.uncons
    have hid := hv _ (kid_mem (.inr kid))
    obtain ⟨hw', hin⟩ := ih hrest
    refine ⟨.deep ((h.kid hr hk hv).trans kid) depth hw', ?_⟩
    intro id hid'
    rcases List.mem_cons.mp hid' with rfl | hid'
    · exact hid
    · exact hin id hid'

theorem Region.pageTreeRoot {R : ObjectId → Prop} {d : Document α} (hr : d.Region R)
    {root : ObjectId} (h : d.pageTreeRoot? = some root) : R root := by
  simp only [Document.pageTreeRoot?, Option.bind_eq_bind, Option.bind_eq_some_iff] at h
  obtain ⟨v, hv, id, hid, catalog, hcat, w, hw, hroot⟩ := h
  have hroot : w = .ref root := by cases w <;> simp_all [Object.ref?]
  have hid : v = .ref id := by cases v <;> simp_all [Object.ref?]
  subst hroot hid
  exact hr.entry (hr.root _ hv) hcat hw _ (by simp [Object.references])

/-- Two documents that differ only in private entries have the same pages, and the page tree of one is
well formed if that of the other is. -/
theorem TreeSound.transfer {K : ObjectId → Bytes → Prop} {R : ObjectId → Prop} {d d' : Document α}
    (hs : d.TreeSound) (h : Keeps K R d d') (hr : d.Region R) (hk : PublicTree K) :
    d'.TreeSound ∧ d'.pages = d.pages ∧ ∀ id ∈ d.pages, R id := by
  have hroot := h.pageTreeRoot? hr hk
  cases he : d.pageTreeRoot? with
  | none =>
    refine ⟨⟨fun root hd => ?_⟩, ?_, ?_⟩
    · rw [hroot, he] at hd
      cases hd
    · simp [pages, hroot, he]
    · simp [pages, he]
  | some root =>
    obtain ⟨seen, pages, hw, hn⟩ := hs.walk root he
    have hin := hr.pageTreeRoot he
    have hrows : RowsWithin R (pushKids (d.kids root) []) :=
      rowsWithin_pushKids (hr.kids hin) fun row hrow => absurd hrow (List.not_mem_nil)
    obtain ⟨hw', hseen⟩ := hw.transfer h hr hk hrows
    have hn' : (seen.map d'.home?).Nodup := by
      rwa [List.map_congr_left fun id hid => h.home? hr (hseen id hid)]
    rw [← h.kids hr hk hin] at hw'
    have hpages := hw.pages_eq he hn
    refine ⟨⟨fun root' hd => ?_⟩, ?_, ?_⟩
    · rw [hroot, he] at hd
      cases hd
      exact ⟨seen, pages, hw', hn'⟩
    · rw [hw'.pages_eq (hroot.trans he) hn', hpages]
    · rw [hpages]
      exact fun id hid => hseen id (hw.sublist.subset hid)

end Document

end Marginalia

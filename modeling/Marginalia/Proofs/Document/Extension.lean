import Marginalia.Mark.Layer
import Marginalia.Proofs.Document.Edit
import Marginalia.Proofs.Document.Inherited

/-!
Documents to which objects were added, under numbers that references may lead to already. What was stored is
still stored, but for entries that are not read, and an object that comes to stand behind a reference that led
nowhere tells nothing of the pages.
-/

namespace Marginalia

/-- The keys that the page tree, the frames of pages and the tags of their content are read through, further
than to the type of a dictionary. -/
def pathKeys : List String := ["Pages", "Kids", "Parent", "CropBox", "MediaBox", Layer.tagKey]

/-- That a dictionary has nothing under these keys. -/
def Dict.Silent {α : Type} (entries : Dict α) : Prop := ∀ key ∈ pathKeys, entries.get? key = none

/-- A dictionary or a stream that tells nothing of the pages. -/
def Object.Silent {α : Type} : Object α → Prop
  | .dict entries => Dict.Silent entries
  | .stream entries _ => Dict.Silent entries
  | _ => False

/-- That some keys are neither keys of the page tree nor those of the type of a dictionary. -/
def Unread (keys : List String) : Prop :=
  ∀ key ∈ "Type" :: "Linearized" :: pathKeys, Syntax.ascii key ∉ keys.map Syntax.ascii

/-- The same object, or a dictionary with the same entries but for those of some keys. -/
abbrev Object.Like {α : Type} (keys : List String) (v w : Object α) : Prop :=
  Object.AlikeOff (· ∈ keys.map Syntax.ascii) v w

namespace Object

variable {α : Type} {keys : List String} {v w : Object α}

theorem Silent.like (h : v.Silent) (hk : Unread keys) (hvw : Like keys v w) : w.Silent := by
  cases hvw with
  | same => exact h
  | dict _ hef => exact fun key hkey => (hef _ (hk key (by simp [hkey]))).trans (h key hkey)

theorem Silent.ref? (h : v.Silent) : v.ref? = none := by cases v <;> first | rfl | cases h

theorem Silent.array? (h : v.Silent) : v.array? = none := by cases v <;> first | rfl | cases h

theorem Silent.number? [Scalar α] (h : v.Silent) : v.number? = none := by
  cases v <;> first | rfl | cases h

theorem Silent.dict (h : v.Silent) {entries : Dict α} (hv : v.dict? = some entries) :
    entries.Silent := by
  cases v <;> cases hv
  exact h

theorem Silent.stream (h : v.Silent) {entries : Dict α} {data : Bytes} (hv : v.stream? = some (entries, data)) :
    entries.Silent := by
  cases v <;> cases hv
  exact h

end Object

namespace Document

variable {α : Type} {keys : List String} {d d' : Document α}

/-- That no object has a number above the highest one in use. -/
def Numbered (d : Document α) : Prop := ∀ id v, d.stored? id = some v → d.InUse id

/-- A document that has what another one has, but for entries under some keys, and silent objects besides. -/
structure Extends (keys : List String) (d d' : Document α) : Prop where
  root : d'.trailer.get? "Root" = d.trailer.get? "Root"
  kept : ∀ id v, d.stored? id = some v → ∃ w, d'.stored? id = some w ∧ v.Like keys w
  added : ∀ id w, d.stored? id = none → d'.stored? id = some w → w.Silent

namespace Extends

theorem refl (keys : List String) (d : Document α) : Extends keys d d :=
  ⟨rfl, fun _ v hv => ⟨v, hv, .same v⟩, fun _ _ hn hw => by simp [hn] at hw⟩

theorem trans {d'' : Document α} (hk : Unread keys) (h : Extends keys d d') (h' : Extends keys d' d'') :
    Extends keys d d'' := by
  refine ⟨h'.root.trans h.root, fun id v hv => ?_, fun id x hn hx => ?_⟩
  · obtain ⟨w, hw, hvw⟩ := h.kept id v hv
    obtain ⟨x, hx, hwx⟩ := h'.kept id w hw
    exact ⟨x, hx, hvw.trans hwx⟩
  · cases hw : d'.stored? id with
    | none => exact h'.added id x hw hx
    | some w =>
      obtain ⟨x', hx', hwx⟩ := h'.kept id w hw
      rw [hx] at hx'
      obtain rfl := Option.some.inj hx'
      exact (h.added id w hn hw).like hk hwx

theorem mono {keys' : List String} (h : Extends keys d d') (hk : keys ⊆ keys') : Extends keys' d d' := by
  refine ⟨h.root, fun id v hv => ?_, h.added⟩
  obtain ⟨w, hw, hvw⟩ := h.kept id v hv
  exact ⟨w, hw, hvw.mono fun key hkey => List.map_subset Syntax.ascii hk hkey⟩

theorem add (keys : List String) (hd : d.Numbered) {v : Object α} (hv : v.Silent) :
    Extends keys d (d.add v).1 := by
  refine ⟨rfl, fun id w hw => ⟨w, ?_, .same w⟩, fun id w hn hw => ?_⟩
  · rw [stored?_add_of_le d v (hd id w hw), hw]
  · by_cases hid : (d.add v).2 = id
    · subst hid
      rw [stored?_add_self] at hw
      exact Option.some.inj hw ▸ hv
    · rw [stored?_add_of_ne d v hid, hn] at hw
      cases hw

theorem put {home : ObjectId} {es fs : Dict α} (hs : d.stored? home = some (.dict es)) (hne : keys ≠ [])
    (hef : ∀ key ∉ keys.map Syntax.ascii, fs.find? key = es.find? key) :
    Extends keys d (d.put home (.dict fs)) := by
  refine ⟨rfl, fun id v hv => ?_, fun id w hn hw => ?_⟩
  · by_cases hid : home = id
    · subst hid
      rw [hs] at hv
      obtain rfl := Option.some.inj hv
      obtain ⟨key, hkey⟩ := List.exists_mem_of_ne_nil keys hne
      exact ⟨_, stored?_put_self d home _, .dict ⟨_, List.mem_map_of_mem hkey⟩ hef⟩
    · exact ⟨v, (stored?_put_of_ne d _ hid).trans hv, .same v⟩
  · have hid : home ≠ id := by
      rintro rfl
      rw [hs] at hn
      cases hn
    rw [stored?_put_of_ne d _ hid, hn] at hw
    cases hw

end Extends

theorem Numbered.add (hd : d.Numbered) (v : Object α) : (d.add v).1.Numbered := by
  intro id w hw
  by_cases hid : (d.add v).2 = id
  · subst hid
    exact Nat.le_refl _
  · rw [stored?_add_of_ne d v hid] at hw
    exact Nat.le_succ_of_le (hd id w hw)

theorem Numbered.put (hd : d.Numbered) {home : ObjectId} {v : Object α} (hs : d.stored? home = some v)
    (w : Object α) : (d.put home w).Numbered := by
  intro id x hx
  by_cases hid : home = id
  · exact hid ▸ hd home v hs
  · rw [stored?_put_of_ne d _ hid] at hx
    exact hd id x hx

/-- A change that adds silent objects under new numbers. -/
structure Adds (d d' : Document α) : Prop where
  grows : Grows d d'
  extends_ : Extends [] d d'
  numbered : d'.Numbered

namespace Adds

theorem refl (hd : d.Numbered) : Adds d d := ⟨.refl _ d, .refl [] d, hd⟩

theorem trans {d'' : Document α} (h : Adds d d') (h' : Adds d' d'') : Adds d d'' :=
  ⟨h.grows.trans h'.grows, h.extends_.trans (by simp [Unread]) h'.extends_, h'.numbered⟩

theorem add (hd : d.Numbered) {v : Object α} (hv : v.Silent) : Adds d (d.add v).1 :=
  ⟨.add _ d v, .add [] hd hv, hd.add v⟩

end Adds

theorem inheritedWithin?_silent {key : String} (hkey : key ∈ pathKeys) (hops : Nat) {es : Dict α}
    (hes : es.Silent) : d.inheritedWithin? key hops es = none := by
  cases hops with
  | zero => rfl
  | succ hops => simp [inheritedWithin?, hes key hkey, hes "Parent" (by decide)]

namespace Extends

variable (h : Extends keys d d') (hk : Unread keys)

include h

/-- A dictionary that is stored keeps its entries, but for those of the keys. -/
theorem stored_dict {id : ObjectId} {es : Dict α} (hs : d.stored? id = some (.dict es)) :
    ∃ fs : Dict α, d'.stored? id = some (.dict fs) ∧
      ∀ key ∉ keys.map Syntax.ascii, fs.find? key = es.find? key := by
  obtain ⟨w, hw, hvw⟩ := h.kept id _ hs
  cases hvw with
  | same => exact ⟨es, hw, fun _ _ => rfl⟩
  | dict _ hef => exact ⟨_, hw, hef⟩

/-- A number that leads to an object still leads there. -/
theorem locateFrom_ok {hops : Nat} {id home : ObjectId} {v : Object α} (hl : d.locateFrom hops id = .ok (home, v)) :
    ∃ w, d'.locateFrom hops id = .ok (home, w) ∧ v.Like keys w := by
  apply locateFrom_related (P := fun _ => True) (S := fun _ v w => v.Like keys w) _ _ trivial hl
  · intro id v _ hs
    obtain ⟨w, hw, hvw⟩ := h.kept id v hs
    exact ⟨w, hw, hvw.ref?, hvw⟩
  · exact fun _ _ _ _ => trivial

/-- A number that leads nowhere comes to lead to a silent object at most. -/
theorem locateFrom_error {hops : Nat} {id : ObjectId} {e : AccessError} (hl : d.locateFrom hops id = .error e)
    {home : ObjectId} {w : Object α} (hl' : d'.locateFrom hops id = .ok (home, w)) : w.Silent := by
  induction hops generalizing id with
  | zero =>
    cases hs : d.stored? id with
    | none =>
      cases hs' : d'.stored? id with
      | none => simp [locateFrom_none 0 hs'] at hl'
      | some u =>
        have hu := h.added id u hs hs'
        rw [locateFrom_some 0 hs' hu.ref?] at hl'
        cases hl'
        exact hu
    | some u =>
      obtain ⟨u', hs', huu⟩ := h.kept id u hs
      cases hu : u.ref? with
      | none => simp [locateFrom_some 0 hs hu] at hl
      | some next =>
        cases u <;> cases hu
        cases huu
        simp [locateFrom_zero_ref hs'] at hl'
  | succ hops ih =>
    cases hs : d.stored? id with
    | none =>
      cases hs' : d'.stored? id with
      | none => simp [locateFrom_none _ hs'] at hl'
      | some u =>
        have hu := h.added id u hs hs'
        rw [locateFrom_some _ hs' hu.ref?] at hl'
        cases hl'
        exact hu
    | some u =>
      obtain ⟨u', hs', huu⟩ := h.kept id u hs
      cases hu : u.ref? with
      | none => simp [locateFrom_some _ hs hu] at hl
      | some next =>
        cases u <;> cases hu
        cases huu
        rw [locateFrom_ref hops hs] at hl
        rw [locateFrom_ref hops hs'] at hl'
        exact ih hl hl'

/-- What a number leads to: an object that was there, or nothing and a silent object. -/
theorem get? (id : ObjectId) : (∃ v w, d.get? id = some v ∧ d'.get? id = some w ∧ v.Like keys w) ∨
    d.get? id = none ∧ ∀ w, d'.get? id = some w → w.Silent := by
  cases hl : d.locate id with
  | ok found =>
    obtain ⟨home, v⟩ := found
    obtain ⟨w, hl', hvw⟩ := h.locateFrom_ok hl
    exact .inl ⟨v, w, get?_eq_some.mpr ⟨home, hl⟩, get?_eq_some.mpr ⟨home, hl'⟩, hvw⟩
  | error e =>
    refine .inr ⟨by simp [Document.get?, hl, Except.toOption], fun w hw => ?_⟩
    obtain ⟨home, hl'⟩ := get?_eq_some.mp hw
    exact h.locateFrom_error hl hl'

theorem home? {id home : ObjectId} (hid : d.home? id = some home) : d'.home? id = some home := by
  obtain ⟨v, hl⟩ := home?_eq_some.mp hid
  obtain ⟨w, hl', -⟩ := h.locateFrom_ok hl
  exact home?_eq_some.mpr ⟨w, hl'⟩

theorem locate_dict {id home : ObjectId} {es : Dict α} (hl : d.locate id = .ok (home, .dict es)) :
    ∃ fs : Dict α, d'.locate id = .ok (home, .dict fs) ∧
      ∀ key ∉ keys.map Syntax.ascii, fs.find? key = es.find? key := by
  obtain ⟨w, hl', hvw⟩ := h.locateFrom_ok hl
  cases hvw with
  | same => exact ⟨es, hl', fun _ _ => rfl⟩
  | dict _ hef => exact ⟨_, hl', hef⟩

theorem array?_deref (v : Object α) : (d'.deref v).array? = (d.deref v).array? := by
  unfold Document.deref
  split
  · rename_i id
    rcases h.get? id with ⟨v, w, hv, hw, hvw⟩ | ⟨hn, hsilent⟩
    · simp only [hv, hw, Option.getD_some, hvw.array?]
    · cases hw : d'.get? id with
      | none => simp only [hn]
      | some w => simp only [hn, Option.getD_some, Option.getD_none, (hsilent w hw).array?]; rfl
  · rfl

theorem number?_deref [Scalar α] (v : Object α) : (d'.deref v).number? = (d.deref v).number? := by
  unfold Document.deref
  split
  · rename_i id
    rcases h.get? id with ⟨v, w, hv, hw, hvw⟩ | ⟨hn, hsilent⟩
    · simp only [hv, hw, Option.getD_some, hvw.number?]
    · cases hw : d'.get? id with
      | none => simp only [hn]
      | some w => simp only [hn, Option.getD_some, Option.getD_none, (hsilent w hw).number?]; rfl
  · rfl

include hk

/-- What a dictionary behind a number has under a key of the page tree. -/
theorem entry {key : String} (hkey : key ∈ pathKeys) (id : ObjectId) :
    (d'.getDict? id).bind (·.get? key) = (d.getDict? id).bind (·.get? key) := by
  unfold getDict?
  rcases h.get? id with ⟨v, w, hv, hw, hvw⟩ | ⟨hn, hsilent⟩
  · rw [hv, hw, Option.bind_some, Option.bind_some]
    rcases hvw.dict? with ⟨hv', hw'⟩ | ⟨es, fs, rfl, rfl, hef⟩
    · rw [hv', hw']
    · exact hef _ (hk key (by simp [hkey]))
  · rw [hn, Option.bind_none, Option.bind_none]
    cases hw : d'.get? id with
    | none => rfl
    | some w =>
      rw [Option.bind_some]
      cases hdict : w.dict? with
      | none => rfl
      | some entries => exact (hsilent w hw).dict hdict key hkey

theorem pageTreeRoot? : d'.pageTreeRoot? = d.pageTreeRoot? := by
  unfold Document.pageTreeRoot?
  rw [h.root]
  cases d.trailer.get? "Root" with
  | none => rfl
  | some v =>
    cases hv : v.ref? with
    | none => simp [hv]
    | some root =>
      have he := congrArg (·.bind Object.ref?) (h.entry hk (show "Pages" ∈ pathKeys by decide) root)
      simp only [Option.bind_assoc] at he
      simpa [hv] using he

theorem kids (node : ObjectId) : d'.kids node = d.kids node := by
  unfold Document.kids
  rw [h.entry hk (show "Kids" ∈ pathKeys by decide) node]
  simp only [h.array?_deref]

/-- A page or node of the tree is one. -/
theorem kid {v : Object α} {kid : Kid} (hv : d.kid v = kid) (hne : kid ≠ .other) : d'.kid v = kid := by
  subst hv
  cases v with
  | ref id =>
    cases hd : d.getDict? id with
    | none => simp [Document.kid, hd] at hne
    | some es =>
      obtain ⟨home, hl⟩ := getDict?_eq_some.mp hd
      obtain ⟨fs, hl', hef⟩ := h.locate_dict hl
      have htype : fs.get? "Type" = es.get? "Type" := hef _ (hk _ (by decide))
      have hlinearized : fs.has "Linearized" = es.has "Linearized" :=
        congrArg Option.isSome (hef _ (hk "Linearized" (by decide)))
      have hname : fs.typeName? = es.typeName? := by
        rw [Dict.typeName?, Dict.typeName?, Dict.name?, Dict.name?, htype, hlinearized]
      simp only [Document.kid, hd, getDict?_eq_some.mpr ⟨home, hl'⟩, Option.bind_some, hname]
  | _ => rfl

theorem walk {stack : List (List (Object α))} {seen pages : List ObjectId} (hw : d.Walk stack seen pages) :
    d'.Walk stack seen pages := by
  induction hw with
  | done => exact .done
  | page kid _ ih => exact .page (h.kid hk kid (by simp)) ih
  | @node _ _ _ id _ _ kid depth _ ih =>
    rw [← h.kids hk id] at ih
    exact .node (h.kid hk kid (by simp)) depth ih
  | deep kid depth _ ih => exact .deep (h.kid hk kid (by simp)) depth ih

/-- A well-formed page tree stays one, with the same pages. -/
theorem tree (hs : d.TreeSound) : d'.TreeSound ∧ d'.pages = d.pages := by
  have hroot := h.pageTreeRoot? hk
  cases he : d.pageTreeRoot? with
  | none =>
    refine ⟨⟨fun root hd => ?_⟩, by simp [pages, hroot, he]⟩
    rw [hroot, he] at hd
    cases hd
  | some root =>
    obtain ⟨seen, pages, hw, hn⟩ := hs.walk root he
    have hw' : d'.Walk (pushKids (d'.kids root) []) seen pages := by
      rw [h.kids hk root]
      exact h.walk hk hw
    have hhomes : seen.map d'.home? = seen.map d.home? := by
      refine List.map_congr_left fun id hid => ?_
      obtain ⟨home, es, hl⟩ := hw.dict id hid
      have hhome : d.home? id = some home := home?_eq_some.mpr ⟨_, hl⟩
      rw [hhome, h.home? hhome]
    have hn' : (seen.map d'.home?).Nodup := hhomes ▸ hn
    refine ⟨⟨fun root' hd => ?_⟩, ?_⟩
    · rw [hroot, he] at hd
      cases hd
      exact ⟨seen, pages, hw', hn'⟩
    · rw [hw'.pages_eq (hroot.trans he) hn', hw.pages_eq he hn]

/-- The array of an inherited attribute. -/
theorem inheritedWithin? {key : String} (hkey : key ∈ pathKeys) (hops : Nat) {es fs : Dict α}
    (hef : ∀ key ∈ pathKeys, fs.get? key = es.get? key) :
    (d'.inheritedWithin? key hops fs).bind Object.array? =
      (d.inheritedWithin? key hops es).bind Object.array? := by
  induction hops generalizing es fs with
  | zero => rfl
  | succ hops ih =>
    unfold Document.inheritedWithin?
    rw [hef key hkey, hef "Parent" (by decide)]
    cases es.get? key with
    | some v => exact h.array?_deref v
    | none =>
      cases es.get? "Parent" with
      | none => simp only [Option.bind_eq_bind, Option.bind_none]
      | some v =>
        cases hv : v.ref? with
        | none => simp [hv]
        | some parent =>
          simp only [Option.bind_eq_bind, Option.bind_some, hv, getDict?]
          rcases h.get? parent with ⟨x, y, hx, hy, hxy⟩ | ⟨hn, hsilent⟩
          · rw [hx, hy, Option.bind_some, Option.bind_some]
            rcases hxy.dict? with ⟨hx', hy'⟩ | ⟨es', fs', rfl, rfl, hef'⟩
            · simp only [hx', hy', Option.bind_none]
            · exact ih fun key hkey => hef' _ (hk key (by simp [hkey]))
          · rw [hn]
            cases hy : (d'.get? parent).bind Object.dict? with
            | none => simp only [Option.bind_none]
            | some fs' =>
              obtain ⟨w, hw, hdict⟩ := Option.bind_eq_some_iff.mp hy
              rw [Option.bind_some, inheritedWithin?_silent hkey hops ((hsilent w hw).dict hdict)]
              simp only [Option.bind_none]

variable [Scalar α]

theorem corners? {key : String} (hkey : key ∈ pathKeys) {es fs : Dict α}
    (hef : ∀ key ∈ pathKeys, fs.get? key = es.get? key) : d'.corners? fs key = d.corners? es key := by
  have hnumbers : ∀ items : List (Object α), d'.numbers? items = d.numbers? items := fun items => by
    unfold Document.numbers?
    simp only [h.number?_deref]
  have harray := h.inheritedWithin? hk hkey maxAncestors hef
  simp only [Document.corners?, inherited?, Option.bind_eq_bind, ← Option.bind_assoc, harray, hnumbers]

/-- A page keeps its frame. -/
theorem frame {id home : ObjectId} {es : Dict α} (hl : d.locate id = .ok (home, .dict es)) :
    d'.frame id = d.frame id := by
  obtain ⟨fs, hl', hef⟩ := h.locate_dict hl
  have hpath : ∀ key ∈ pathKeys, fs.get? key = es.get? key := fun key hkey => hef _ (hk key (by simp [hkey]))
  simp only [Document.frame, pageEntries, locateDict_eq_ok.mpr hl, locateDict_eq_ok.mpr hl', bind, Except.bind,
    h.corners? hk (show "CropBox" ∈ pathKeys by decide) hpath,
    h.corners? hk (show "MediaBox" ∈ pathKeys by decide) hpath]

end Extends

end Document

namespace Layer

open Document

variable {α : Type} {keys : List String} {d d' : Document α}

/-- Contents name the same streams. -/
theorem streams_extends (h : Extends keys d d') {es fs : Dict α} (hc : fs.get? "Contents" = es.get? "Contents") :
    streams d' fs = streams d es := by
  unfold streams
  rw [hc]
  cases es.get? "Contents" with
  | none => rfl
  | some v =>
    cases v with
    | ref id =>
      simp only
      rcases h.get? id with ⟨x, y, hx, hy, hxy⟩ | ⟨hn, hsilent⟩
      · simp only [hx, hy]
        cases hxy <;> rfl
      · simp only [hn]
        cases hy : d'.get? id with
        | none => rfl
        | some w =>
          have hw := (hsilent w hy).array?
          cases w <;> first | rfl | cases hw
    | _ => rfl

/-- Streams keep their tags, and what is added has none. -/
theorem tag?_extends (h : Extends keys d d') (id : ObjectId) : tag? d' id = tag? d id := by
  unfold tag? getStream?
  rcases h.get? id with ⟨x, y, hx, hy, hxy⟩ | ⟨hn, hsilent⟩
  · simp only [hx, hy, Option.bind_some, hxy.stream?]
  · rw [hn]
    cases hy : (d'.get? id).bind Object.stream? with
    | none => rfl
    | some found =>
      obtain ⟨entries, data⟩ := found
      obtain ⟨w, hw, hstream⟩ := Option.bind_eq_some_iff.mp hy
      have htag := (hsilent w hw).stream hstream tagKey (by decide)
      simp only [Option.bind_eq_bind, Option.bind_some, Option.bind_none, Dict.name?, htag]

end Layer

end Marginalia

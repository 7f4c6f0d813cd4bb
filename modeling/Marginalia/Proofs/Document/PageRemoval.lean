import Marginalia.Document.Text
import Marginalia.Mark.Layer
import Marginalia.Proofs.Document.Renumbering
import Marginalia.Proofs.Document.Resources
import Marginalia.Proofs.Document.Striking

/-!
A document from which a page was removed that only its place among the kids and the annotations on it referred to:
the other pages are left, and what is read from them is what was read before.
-/

namespace Marginalia

section Options

variable {α β γ δ : Type} {r : α → β → Prop} {s : γ → δ → Prop} {x : Option α} {y : Option β}

theorem rel_bind {f : α → Option γ} {g : β → Option δ} (h : Option.Rel r x y)
    (hfg : ∀ a b, r a b → Option.Rel s (f a) (g b)) : Option.Rel s (x.bind f) (y.bind g) := by
  cases h with
  | none => exact .none
  | some h => exact hfg _ _ h

theorem bind_eq_of_rel {f : α → Option γ} {g : β → Option γ} (h : Option.Rel r x y)
    (hfg : ∀ a b, r a b → g b = f a) : y.bind g = x.bind f := by
  cases h with
  | none => rfl
  | some h => exact hfg _ _ h

theorem filterMap_eq_of_forall₂ {l : List α} {m : List β} {f : α → Option γ} {g : β → Option γ}
    (h : List.Forall₂ r l m) (hfg : ∀ a b, r a b → g b = f a) : m.filterMap g = l.filterMap f := by
  induction h with
  | nil => rfl
  | cons h _ ih => rw [List.filterMap_cons, List.filterMap_cons, hfg _ _ h, ih]

end Options

namespace Object

variable {α : Type} {p : ObjectId} {rows : ObjectId → Bool}

/-- What is left of the entries of a dictionary. -/
abbrev EntriesStruck (p : ObjectId) (rows : ObjectId → Bool) (es fs : Dict α) : Prop :=
  ∀ key, EntryStruck p rows key (es.find? key) (fs.find? key)

namespace EntriesStruck

variable {es fs : Dict α}

theorem get? (h : EntriesStruck p rows es fs) {key : String} (hkey : Syntax.ascii key ∉ struckKeys) :
    Option.Rel (Struck p rows) (es.get? key) (fs.get? key) :=
  entryStruck_rel (h _) hkey

theorem name? (h : EntriesStruck p rows es fs) {key : String} (hkey : Syntax.ascii key ∉ struckKeys) :
    fs.name? key = es.name? key :=
  bind_eq_of_rel (h.get? hkey) fun v w hvw => by cases hvw <;> rfl

theorem has (h : EntriesStruck p rows es fs) {key : String} (hkey : Syntax.ascii key ∉ struckKeys) :
    fs.has key = es.has key := by
  have hrel := h.get? hkey
  unfold Dict.has
  cases hx : es.get? key <;> cases hy : fs.get? key <;> rw [hx, hy] at hrel <;> first | rfl | cases hrel

theorem ref? (h : EntriesStruck p rows es fs) {key : String} (hkey : Syntax.ascii key ∉ struckKeys) :
    (fs.get? key).bind Object.ref? = (es.get? key).bind Object.ref? :=
  bind_eq_of_rel (h.get? hkey) fun _ _ hvw => hvw.ref?

end EntriesStruck

end Object

namespace Document

open Object

variable {α : Type} {p : ObjectId} {rows : ObjectId → Bool} {d d' : Document α}

/-- That nothing refers to a page but arrays of kids, some of them objects of their own, and the /P of
dictionaries. -/
structure KidOnly (d : Document α) (p : ObjectId) (rows : ObjectId → Bool) : Prop where
  page : rows p = false
  trailer : p ∉ entryReferences d.trailer
  objects : ∀ e ∈ d.objects, e.1 ≠ p → rows e.1 = false → e.2.kidOnly p = true
  rows : ∀ e ∈ d.objects, rows e.1 = true → e.2.array?.isSome = true ∨ e.2.ref?.any rows = true

/-- That nothing but the kids of dictionaries refers to the arrays of kids that are objects of their own. -/
structure RowsApart (d : Document α) (p : ObjectId) (rows : ObjectId → Bool) : Prop where
  trailer : ∀ id ∈ entryReferences d.trailer, rows id = false
  objects : ∀ e ∈ d.objects, e.1 ≠ p → rows e.1 = false → e.2.rowsApart rows = true

/-- Where no array of kids is an object of its own nothing refers to one. -/
theorem RowsApart.none (d : Document α) (p : ObjectId) : d.RowsApart p fun _ => false :=
  ⟨fun _ _ => rfl, fun e _ _ _ => e.2.rowsApart_none⟩

/-- What is left of an array of kids that is an object of its own, or of a reference to one. -/
inductive RowStruck (p : ObjectId) (rows : ObjectId → Bool) : Object α → Object α → Prop where
  | ref {id : ObjectId} (h : rows id = true) : RowStruck p rows (.ref id) (.ref id)
  | kids {items : List (Object α)} : RowStruck p rows (.array items) (.array (strikeItems p false items))

/-- What a document is when a page was taken out of it. -/
structure Detached (p : ObjectId) (rows : ObjectId → Bool) (d d' : Document α) : Prop where
  trailer : d'.trailer = d.trailer
  root : ∀ id, d.trailer.get? "Root" = some (.ref id) → Clear p rows id
  gone : d'.stored? p = none
  others : ∀ id, Clear p rows id → Option.Rel (Struck p rows) (d.stored? id) (d'.stored? id)
  row : ∀ id, rows id = true → Option.Rel (RowStruck p rows) (d.stored? id) (d'.stored? id)

section Removal

theorem stored?_strike (d : Document α) (p id : ObjectId) :
    (d.strike p).stored? id = (d.stored? id).map (Object.strike p) := by
  simp only [strike, stored?, List.find?_map, Option.map_map]
  rfl

theorem stored?_remove (d : Document α) (p id : ObjectId) :
    (d.remove p).stored? id = if id = p then none else d.stored? id := by
  simp only [remove, stored?, List.find?_filter]
  by_cases hid : id = p
  · subst hid
    simp
  · rw [if_neg hid]
    congr 2
    funext e
    by_cases he : e.1 = id
    · simp [he, hid]
    · simp [he]

theorem mem_of_stored? {id : ObjectId} {v : Object α} (h : d.stored? id = some v) : (id, v) ∈ d.objects := by
  obtain ⟨e, he, rfl⟩ := Option.map_eq_some_iff.mp h
  have hk : e.1 = id := by simpa using List.find?_some he
  exact hk ▸ List.mem_of_find?_eq_some he

/-- References to the page are struck out of what is stored, and the page is removed. -/
theorem detached_remove (hkid : d.KidOnly p rows) (hrows : d.RowsApart p rows) :
    Detached p rows d ((d.strike p).remove p) where
  trailer := strikeEntries_eq_self hkid.trailer
  root := fun id hroot => by
    have hid : id ∈ entryReferences d.trailer := mem_entryReferences hroot (by simp [references])
    exact ⟨fun he => hkid.trailer (he ▸ hid), hrows.trailer id hid⟩
  gone := by rw [stored?_remove, if_pos rfl]
  others := fun id hid => by
    rw [stored?_remove, if_neg hid.1, stored?_strike]
    cases hs : d.stored? id with
    | none => exact .none
    | some v =>
      have hmem := mem_of_stored? hs
      exact .some (struck_strike (hkid.objects _ hmem hid.1 hid.2) (hrows.objects _ hmem hid.1 hid.2))
  row := fun id hid => by
    have hne : id ≠ p := fun he => by simp [he, hkid.page] at hid
    rw [stored?_remove, if_neg hne, stored?_strike]
    cases hs : d.stored? id with
    | none => exact .none
    | some v =>
      refine .some ?_
      rcases hkid.rows _ (mem_of_stored? hs) hid with harray | href
      · cases v with
        | array items => exact .kids
        | _ => cases harray
      · cases v with
        | ref next => exact .ref href
        | _ => cases href

/-- A dictionary that is left may have its count changed. -/
theorem Detached.recount (h : Detached p rows d d') {id : ObjectId} {fs : Dict α}
    (hs : d'.stored? id = some (.dict fs)) : Detached p rows d (d'.put id (.dict (uncounted fs))) := by
  have hp : id ≠ p := fun he => by
    rw [he, h.gone] at hs
    cases hs
  have hrow : rows id = false := by
    by_contra hrow
    have hrel := h.row id (by simpa using hrow)
    rw [hs] at hrel
    obtain ⟨v, -, hv⟩ := exists_of_some_rel hrel
    cases hv
  refine ⟨h.trailer, h.root, ?_, fun i hi => ?_, fun i hi => ?_⟩
  · rw [stored?_put_of_ne d' _ hp, h.gone]
  · by_cases hid : id = i
    · subst hid
      have hrel := h.others id hi
      rw [hs] at hrel
      obtain ⟨v, hv, hvw⟩ := exists_of_some_rel hrel
      rw [stored?_put_self, hv]
      exact .some hvw.uncounted
    · rw [stored?_put_of_ne d' _ hid]
      exact h.others i hi
  · have hid : id ≠ i := fun he => by simp [← he, hrow] at hi
    rw [stored?_put_of_ne d' _ hid]
    exact h.row i hi

theorem Detached.uncount (h : Detached p rows d d') (fuel : Nat) (node : Option ObjectId) :
    Detached p rows d (d'.uncount fuel node) := by
  induction fuel generalizing d' node with
  | zero => exact h
  | succ fuel ih =>
    cases node with
    | none => exact h
    | some id =>
      unfold Document.uncount
      cases hs : (d'.stored? id).bind Object.dict? with
      | none => exact h
      | some fs =>
        obtain ⟨w, hw, hdict⟩ := Option.bind_eq_some_iff.mp hs
        cases w <;> cases hdict
        exact ih (h.recount hw) _

end Removal

/-- Where two documents have related objects, which lead on only to such, a number leads to related objects or to
nothing in both. -/
theorem locateFrom_rel {P : ObjectId → Prop} {S : Object α → Object α → Prop}
    (hstored : ∀ id, P id → Option.Rel S (d.stored? id) (d'.stored? id))
    (href : ∀ v w, S v w → w.ref? = v.ref? ∧ ∀ next, v.ref? = some next → P next) (hops : Nat) {id : ObjectId}
    (hid : P id) :
    (∃ e, d.locateFrom hops id = .error e ∧ d'.locateFrom hops id = .error e) ∨
      ∃ home v w, d.locateFrom hops id = .ok (home, v) ∧ d'.locateFrom hops id = .ok (home, w) ∧ S v w := by
  have hrel := hstored id hid
  cases hv : d.stored? id with
  | none =>
    have hw : d'.stored? id = none := by
      rw [hv] at hrel
      cases hw : d'.stored? id with
      | none => rfl
      | some w => rw [hw] at hrel; cases hrel
    exact .inl ⟨_, locateFrom_none hops hv, locateFrom_none hops hw⟩
  | some v =>
    obtain ⟨w, hw, hvw⟩ := exists_of_rel_some (hv ▸ hrel)
    obtain ⟨hwv, hnext⟩ := href v w hvw
    cases hr : v.ref? with
    | none => exact .inr ⟨id, v, w, locateFrom_some hops hv hr, locateFrom_some hops hw (hwv.trans hr), hvw⟩
    | some next =>
      obtain rfl := ref?_eq_some.mp hr
      obtain rfl := ref?_eq_some.mp (hwv.trans hr)
      cases hops with
      | zero =>
        have hsome : (d'.stored? next).isSome = (d.stored? next).isSome := by
          have hrel := hstored next (hnext next hr)
          cases hx : d.stored? next <;> cases hy : d'.stored? next <;> rw [hx, hy] at hrel <;>
            first | rfl | cases hrel
        exact .inl ⟨_, locateFrom_zero_ref hv, by rw [locateFrom_zero_ref hw, hsome]⟩
      | succ hops =>
        rw [locateFrom_ref hops hv, locateFrom_ref hops hw]
        exact locateFrom_rel hstored href hops (hnext next hr)

namespace Detached

variable {v w : Object α} {es fs : Dict α}

/-- A number leads to what is left of what it led to. -/
theorem locateFrom (h : Detached p rows d d') (hops : Nat) {id : ObjectId} (hid : Clear p rows id) :
    (∃ e, d.locateFrom hops id = .error e ∧ d'.locateFrom hops id = .error e) ∨
      ∃ home v w, d.locateFrom hops id = .ok (home, v) ∧ d'.locateFrom hops id = .ok (home, w) ∧
        Struck p rows v w :=
  locateFrom_rel (P := Clear p rows) (S := Struck p rows) h.others
    (fun _ _ hvw => ⟨hvw.ref?, fun _ hnext => hvw.clear hnext⟩) hops hid

/-- An array of kids of its own is an array without the page, and no dictionary. -/
theorem locateRow (h : Detached p rows d d') {id : ObjectId} (hid : rows id = true) :
    (∃ e, d.locate id = .error e ∧ d'.locate id = .error e) ∨ ∃ home items,
      d.locate id = .ok (home, .array items) ∧ d'.locate id = .ok (home, .array (strikeItems p false items)) := by
  rcases locateFrom_rel (P := fun id => rows id = true) (S := RowStruck p rows) h.row (fun v w hvw => by
    cases hvw with
    | ref hrow => exact ⟨rfl, fun next hnext => by cases hnext; exact hrow⟩
    | kids => exact ⟨rfl, fun next hnext => by cases hnext⟩) maxReferences hid with hfault | ⟨home, v, w, ha, hb, hvw⟩
  · exact .inl hfault
  · have hv := (stored?_of_locateFrom ha).2
    cases hvw with
    | ref => cases hv
    | kids => exact .inr ⟨home, _, ha, hb⟩

theorem get? (h : Detached p rows d d') {id : ObjectId} (hid : Clear p rows id) :
    Option.Rel (Struck p rows) (d.get? id) (d'.get? id) := by
  unfold Document.get? locate
  rcases h.locateFrom maxReferences hid with ⟨e, ha, hb⟩ | ⟨home, v, w, ha, hb, hvw⟩
  · rw [ha, hb]
    exact .none
  · rw [ha, hb]
    exact .some hvw

theorem getDict? (h : Detached p rows d d') {id : ObjectId} (hid : Clear p rows id) :
    Option.Rel (EntriesStruck p rows) (d.getDict? id) (d'.getDict? id) :=
  rel_bind (h.get? hid) fun v w hvw => by
    rcases hvw.dict? with ⟨hv, hw⟩ | ⟨es, fs, rfl, rfl, hef⟩
    · rw [hv, hw]
      exact .none
    · exact .some hef

theorem getStream? (h : Detached p rows d d') {id : ObjectId} (hid : Clear p rows id) :
    d'.getStream? id = d.getStream? id :=
  bind_eq_of_rel (h.get? hid) fun _ _ hvw => hvw.stream?

/-- The entries of a stream lead neither to the page nor to arrays of kids. -/
theorem streamEntries (h : Detached p rows d d') {id : ObjectId} (hid : Clear p rows id) {data : Bytes}
    (hs : d.getStream? id = some (es, data)) : EntriesStruck p rows es es := by
  obtain ⟨v, hv, hstream⟩ := Option.bind_eq_some_iff.mp hs
  obtain ⟨w, -, hvw⟩ := exists_of_rel_some (hv ▸ h.get? hid)
  cases v <;> cases hstream
  cases hvw with
  | leaf hleaf => cases hleaf
  | stream entries =>
    intro key
    cases hfind : es.find? key with
    | none => exact .none
    | some u => exact .some (entries key u hfind)

theorem deref (h : Detached p rows d d') (hvw : Struck p rows v w) :
    Struck p rows (d.deref v) (d'.deref w) := by
  cases hvw with
  | @ref id clear =>
    have hrel := h.get? clear
    change Struck p rows ((d.get? id).getD (.ref id)) ((d'.get? id).getD (.ref id))
    cases hv : d.get? id with
    | none =>
      rw [hv] at hrel
      cases hw : d'.get? id with
      | none => exact .ref clear
      | some w => rw [hw] at hrel; cases hrel
    | some v =>
      obtain ⟨w, hw, hvw⟩ := exists_of_rel_some (hv ▸ hrel)
      rw [hw]
      exact hvw
  | leaf hv => cases v <;> first | exact .leaf hv | cases hv
  | array items => exact .array items
  | dict entries => exact .dict entries
  | stream entries => exact .stream entries

theorem dict?_deref (h : Detached p rows d d') (hvw : Struck p rows v w) :
    Option.Rel (EntriesStruck p rows) (d.deref v).dict? (d'.deref w).dict? := by
  rcases (h.deref hvw).dict? with ⟨hv, hw⟩ | ⟨es, fs, hv, hw, hef⟩
  · rw [hv, hw]
    exact .none
  · rw [hv, hw]
    exact .some hef

theorem array?_deref (h : Detached p rows d d') (hvw : Struck p rows v w) :
    Option.Rel (List.Forall₂ (Struck p rows)) (d.deref v).array? (d'.deref w).array? := by
  rcases (h.deref hvw).array? with ⟨hv, hw⟩ | ⟨vs, ws, hv, hw, hitems⟩
  · rw [hv, hw]
    exact .none
  · rw [hv, hw]
    exact .some hitems

/-- A number that leads to a dictionary is that of the page or clear. -/
theorem clear_of_dict (h : Detached p rows d d') {id : ObjectId} (hd : d.getDict? id = some es) (hp : id ≠ p) :
    Clear p rows id := by
  refine ⟨hp, Bool.eq_false_iff.mpr fun hrow => ?_⟩
  obtain ⟨home, hl⟩ := getDict?_eq_some.mp hd
  rcases h.locateRow hrow with ⟨e, he, -⟩ | ⟨home', items, ha, -⟩
  · rw [he] at hl
    cases hl
  · rw [ha] at hl
    cases hl

end Detached

/-- A walk of the page tree on which never as many rows of kids wait that a node is left out for its depth. -/
inductive WholeWalk (d : Document α) :
    List (List (Object α)) → List ObjectId → List ObjectId → Prop where
  | done : WholeWalk d [] [] []
  | page {v : Object α} {vs : List (Object α)} {stack : List (List (Object α))} {id : ObjectId}
      {seen pages : List ObjectId} (kid : d.kid v = .page id)
      (rest : WholeWalk d (pushKids vs stack) seen pages) :
      WholeWalk d ((v :: vs) :: stack) (id :: seen) (id :: pages)
  | node {v : Object α} {vs : List (Object α)} {stack : List (List (Object α))} {id : ObjectId}
      {seen pages : List ObjectId} (kid : d.kid v = .node id) (depth : stack.length < maxTreeDepth)
      (rest : WholeWalk d (pushKids (d.kids id) (pushKids vs stack)) seen pages) :
      WholeWalk d ((v :: vs) :: stack) (id :: seen) pages

/-- Every kid in the page tree is a page or a node that is met nowhere else, and no node is too deep. -/
structure WholeTree (d : Document α) : Prop where
  walk : ∀ root, d.pageTreeRoot? = some root →
    ∃ seen pages, d.WholeWalk (pushKids (d.kids root) []) seen pages ∧ (seen.map d.home?).Nodup

/-- That a row is of references to what is still to be looked at. -/
structure Waits (seen : List ObjectId) (row : List (Object α)) : Prop where
  refs : ∀ v ∈ row, ∃ id, v = .ref id
  ahead : (row.filterMap ref?).Sublist seen

theorem waits_pushKids {seen : List ObjectId} {row : List (Object α)} {stack : List (List (Object α))}
    (h : ∀ r ∈ pushKids row stack, Waits seen r) : Waits seen row ∧ ∀ r ∈ stack, Waits seen r := by
  unfold pushKids at h
  split at h
  · rename_i hempty
    obtain rfl := List.isEmpty_iff.mp hempty
    exact ⟨⟨by simp, by simp⟩, h⟩
  · exact ⟨h row (by simp), fun r hr => h r (by simp [hr])⟩

theorem waits_cons {seen : List ObjectId} {v : Object α} {vs : List (Object α)} {stack : List (List (Object α))}
    {id : ObjectId} (hv : v = .ref id) (hrow : Waits seen vs) (hstack : ∀ r ∈ stack, Waits seen r) :
    ∀ r ∈ (v :: vs) :: stack, Waits (id :: seen) r := by
  subst hv
  intro r hr
  rcases List.mem_cons.mp hr with rfl | hr
  · exact ⟨fun v hv => (List.mem_cons.mp hv).elim (fun h => ⟨id, h⟩) (hrow.refs v), hrow.ahead.cons_cons id⟩
  · exact ⟨(hstack r hr).refs, (hstack r hr).ahead.cons id⟩

namespace WholeWalk

variable {stack : List (List (Object α))} {seen pages : List ObjectId}

theorem walk (h : d.WholeWalk stack seen pages) : d.Walk stack seen pages := by
  induction h with
  | done => exact .done
  | page kid _ ih => exact .page kid ih
  | node kid depth _ ih => exact .node kid depth ih

theorem kid_page (h : d.WholeWalk stack seen pages) : ∀ id ∈ pages, d.kid (.ref id) = .page id := by
  induction h with
  | done => simp
  | page kid _ ih =>
    intro id hid
    rcases List.mem_cons.mp hid with rfl | hid
    · rwa [(kid_ref (.inl kid)).1] at kid
    · exact ih id hid
  | node _ _ _ ih => exact ih

theorem waits (h : d.WholeWalk stack seen pages) : ∀ row ∈ stack, Waits seen row := by
  induction h with
  | done => simp
  | page kid _ ih =>
    obtain ⟨hrow, hrest⟩ := waits_pushKids ih
    exact waits_cons (kid_ref (.inl kid)).1 hrow hrest
  | node kid _ _ ih =>
    obtain ⟨hrow, hrest⟩ := waits_pushKids (waits_pushKids ih).2
    exact waits_cons (kid_ref (.inr kid)).1 hrow hrest

end WholeWalk

theorem WholeTree.sound (h : d.WholeTree) : d.TreeSound :=
  ⟨fun root hr => by
    obtain ⟨seen, pages, hw, hn⟩ := h.walk root hr
    exact ⟨seen, pages, hw.walk, hn⟩⟩

/-- A kid that is a page of the tree. -/
theorem WholeTree.kid_page (h : d.WholeTree) {id : ObjectId} (hid : id ∈ d.pages) : d.kid (.ref id) = .page id := by
  cases hr : d.pageTreeRoot? with
  | none => simp [pages, hr] at hid
  | some root =>
    obtain ⟨seen, pages, hw, hn⟩ := h.walk root hr
    rw [hw.walk.pages_eq hr hn] at hid
    exact hw.kid_page id hid

/-- The rows that wait without references to the page, those aside in which there is nothing else. -/
def cutStack (p : ObjectId) (stack : List (List (Object α))) : List (List (Object α)) :=
  (stack.map (cutRow p)).filter fun row => !row.isEmpty

theorem cutStack_cons (row : List (Object α)) (stack : List (List (Object α))) :
    cutStack p (row :: stack) = pushKids (cutRow p row) (cutStack p stack) := by
  unfold cutStack pushKids
  rw [List.map_cons, List.filter_cons]
  cases (cutRow p row).isEmpty <;> rfl

theorem cutStack_pushKids (row : List (Object α)) (stack : List (List (Object α))) :
    cutStack p (pushKids row stack) = pushKids (cutRow p row) (cutStack p stack) := by
  unfold pushKids
  cases row with
  | nil => rfl
  | cons v vs => exact cutStack_cons (v :: vs) stack

theorem length_cutStack_le (p : ObjectId) (stack : List (List (Object α))) :
    (cutStack p stack).length ≤ stack.length := by
  unfold cutStack
  exact (List.length_filter_le _ _).trans_eq (List.length_map _)

theorem cutRow_cons_self (vs : List (Object α)) : cutRow p (.ref p :: vs) = cutRow p vs := by
  simp [cutRow, Object.ref?]

theorem cutRow_cons_of_ne {id : ObjectId} (h : id ≠ p) (vs : List (Object α)) :
    cutRow p (.ref id :: vs) = .ref id :: cutRow p vs := by
  simp [cutRow, Object.ref?, h]

namespace Detached

variable {es fs : Dict α}

theorem home? (h : Detached p rows d d') {id : ObjectId} (hid : Clear p rows id) : d'.home? id = d.home? id := by
  unfold Document.home? locate
  rcases h.locateFrom maxReferences hid with ⟨e, ha, hb⟩ | ⟨home, v, w, ha, hb, -⟩
  · rw [ha, hb]
  · rw [ha, hb]
    rfl

theorem kid (h : Detached p rows d d') {id : ObjectId} (hid : Clear p rows id) :
    d'.kid (.ref id) = d.kid (.ref id) := by
  have htype : (d'.getDict? id).bind Dict.typeName? = (d.getDict? id).bind Dict.typeName? :=
    bind_eq_of_rel (h.getDict? hid) fun es fs hef => by
      rw [Dict.typeName?, Dict.typeName?, EntriesStruck.name? hef (by decide), EntriesStruck.has hef (by decide)]
  simp only [Document.kid, htype]

theorem pageTreeRoot? (h : Detached p rows d d') : d'.pageTreeRoot? = d.pageTreeRoot? := by
  unfold Document.pageTreeRoot?
  rw [h.trailer]
  cases hroot : d.trailer.get? "Root" with
  | none => rfl
  | some v =>
    cases hv : v.ref? with
    | none => simp [hv]
    | some id =>
      obtain rfl := ref?_eq_some.mp hv
      change ((d'.getDict? id).bind fun fs => (fs.get? "Pages").bind Object.ref?) =
        (d.getDict? id).bind fun es => (es.get? "Pages").bind Object.ref?
      exact bind_eq_of_rel (h.getDict? (h.root id hroot)) fun es fs hef => EntriesStruck.ref? hef (by decide)

theorem root_clear (h : Detached p rows d d') {root : ObjectId} (hroot : d.pageTreeRoot? = some root) :
    Clear p rows root := by
  simp only [Document.pageTreeRoot?, Option.bind_eq_bind, Option.bind_eq_some_iff] at hroot
  obtain ⟨v, hv, id, hid, catalog, hcat, u, hu, hroot⟩ := hroot
  obtain rfl := ref?_eq_some.mp hid
  obtain rfl := ref?_eq_some.mp hroot
  obtain ⟨fs, -, hef⟩ := exists_of_rel_some (hcat ▸ h.getDict? (h.root id hv))
  obtain ⟨w, -, hw⟩ := exists_of_rel_some (hu ▸ EntriesStruck.get? hef (by decide))
  exact hw.clear rfl

/-- The items of the kids under a key, which are references, without the page. -/
theorem kidsOf (h : Detached p rows d d') {x y : Option (Object α)}
    (hxy : EntryStruck p rows (Syntax.ascii "Kids") x y)
    (hrefs : ∀ v ∈ (x.bind fun v => (d.deref v).array?).getD [], ∃ id, v = .ref id)
    (honce : (((x.bind fun v => (d.deref v).array?).getD []).filterMap Object.ref?).Nodup) :
    (y.bind fun v => (d'.deref v).array?).getD [] = cutRow p ((x.bind fun v => (d.deref v).array?).getD []) := by
  generalize hkey : Syntax.ascii "Kids" = key at hxy
  cases hxy with
  | none => rfl
  | out | count => exact absurd hkey (by decide)
  | kids => exact strikeItems_row hrefs honce
  | some hvw =>
    rw [Option.bind_some] at hrefs honce
    rw [Option.bind_some, Option.bind_some]
    rcases (h.deref hvw).array? with ⟨hv, hw⟩ | ⟨vs, ws, hv, hw, hitems⟩
    · rw [hv, hw]
      rfl
    · rw [hv] at hrefs
      rw [hv, hw]
      clear hv hw honce
      change ∀ v ∈ vs, _ at hrefs
      change ws = cutRow p vs
      induction hitems with
      | nil => rfl
      | cons hvw _ ih =>
        obtain ⟨id, rfl⟩ := hrefs _ List.mem_cons_self
        cases hvw with
        | leaf hleaf => cases hleaf
        | ref clear => rw [cutRow_cons_of_ne clear.1, ih fun v hv => hrefs v (List.mem_cons_of_mem _ hv)]
  | @row id hid =>
    rw [Option.bind_some] at hrefs honce
    rw [Option.bind_some, Option.bind_some]
    rcases h.locateRow hid with ⟨e, ha, hb⟩ | ⟨home, items, ha, hb⟩
    · simp only [Document.deref, Document.get?, ha, hb, Except.toOption, Option.map_none, Option.getD_none,
        Object.array?, cutRow, List.filter_nil]
    · have hd : d.deref (.ref id) = .array items := by
        simp only [Document.deref, get?_eq_some.mpr ⟨home, ha⟩, Option.getD_some]
      have hd' : d'.deref (.ref id) = .array (strikeItems p false items) := by
        simp only [Document.deref, get?_eq_some.mpr ⟨home, hb⟩, Option.getD_some]
      rw [hd] at hrefs honce
      rw [hd, hd']
      exact strikeItems_row hrefs honce

/-- Of the kids of a node, which are references, the page is gone. -/
theorem kids (h : Detached p rows d d') {node : ObjectId} (hnode : Clear p rows node)
    {seen : List ObjectId} (hwaits : Waits seen (d.kids node)) (hn : seen.Nodup) :
    d'.kids node = cutRow p (d.kids node) := by
  have hrel := h.getDict? hnode
  have hrefs := hwaits.refs
  have honce := hwaits.ahead.nodup hn
  unfold Document.kids at hrefs honce ⊢
  generalize d.getDict? node = es at *
  generalize d'.getDict? node = fs at *
  cases hrel with
  | none => rfl
  | some hef => exact h.kidsOf (hef (Syntax.ascii "Kids")) hrefs honce

/-- A walk of the tree goes on without the page. -/
theorem walk (h : Detached p rows d d') (hp : d.kid (.ref p) = .page p) {stack : List (List (Object α))}
    {seen pages : List ObjectId} (hw : d.WholeWalk stack seen pages) (hn : seen.Nodup) :
    d'.WholeWalk (cutStack p stack) (seen.filter (· ≠ p)) (pages.filter (· ≠ p)) ∧
      ∀ id ∈ seen, id ≠ p → Clear p rows id := by
  induction hw with
  | done => exact ⟨.done, by simp⟩
  | @page v vs stack id seen pages kid rest ih =>
    obtain ⟨hrest, hclear⟩ := ih hn.of_cons
    obtain ⟨rfl, home, entries, hl⟩ := kid_ref (.inl kid)
    rw [cutStack_pushKids] at hrest
    by_cases hid : id = p
    · subst hid
      rw [cutStack_cons, cutRow_cons_self, List.filter_cons_of_neg (by simp), List.filter_cons_of_neg (by simp)]
      exact ⟨hrest, fun i hi hne => hclear i ((List.mem_cons.mp hi).resolve_left hne) hne⟩
    · have hidc := h.clear_of_dict (getDict?_eq_some.mpr ⟨home, hl⟩) hid
      rw [cutStack_cons, cutRow_cons_of_ne hid, List.filter_cons_of_pos (by simpa using hid),
        List.filter_cons_of_pos (by simpa using hid)]
      refine ⟨.page ((h.kid hidc).trans kid) hrest, fun i hi hne => ?_⟩
      rcases List.mem_cons.mp hi with rfl | hi
      · exact hidc
      · exact hclear i hi hne
  | @node v vs stack id seen pages kid depth rest ih =>
    obtain ⟨hrest, hclear⟩ := ih hn.of_cons
    obtain ⟨rfl, home, entries, hl⟩ := kid_ref (.inr kid)
    have hid : id ≠ p := fun he => by
      rw [he, hp] at kid
      cases kid
    have hidc := h.clear_of_dict (getDict?_eq_some.mpr ⟨home, hl⟩) hid
    rw [cutStack_pushKids, cutStack_pushKids, ← h.kids hidc (waits_pushKids rest.waits).1 hn.of_cons] at hrest
    rw [cutStack_cons, cutRow_cons_of_ne hid, List.filter_cons_of_pos (by simpa using hid)]
    refine ⟨.node ((h.kid hidc).trans kid) (Nat.lt_of_le_of_lt (length_cutStack_le p stack) depth) hrest,
      fun i hi hne => ?_⟩
    rcases List.mem_cons.mp hi with rfl | hi
    · exact hidc
    · exact hclear i hi hne

/-- What is left of a tree is a tree, whose pages are the others in their order. -/
theorem tree (h : Detached p rows d d') (htree : d.WholeTree) (hp : p ∈ d.pages) :
    d'.TreeSound ∧ d'.pages = d.pages.filter (· ≠ p) ∧ ∀ id ∈ d.pages, id ≠ p → Clear p rows id := by
  cases hr : d.pageTreeRoot? with
  | none => simp [pages, hr] at hp
  | some root =>
    obtain ⟨seen, pages, hw, hn⟩ := htree.walk root hr
    have hpages := hw.walk.pages_eq hr hn
    obtain ⟨hw', hclear⟩ := h.walk (htree.kid_page hp) hw hn.of_map
    have hn' : ((seen.filter (· ≠ p)).map d'.home?).Nodup := by
      rw [List.map_congr_left fun id hid => h.home? (hclear id (List.mem_of_mem_filter hid)
        (by simpa using (List.mem_filter.mp hid).2))]
      exact (List.filter_sublist.map d.home?).nodup hn
    rw [cutStack_pushKids, ← h.kids (h.root_clear hr) (waits_pushKids hw.waits).1 hn.of_map] at hw'
    have hroot := h.pageTreeRoot?.trans hr
    refine ⟨⟨fun root' hr' => ?_⟩, ?_, ?_⟩
    · rw [hroot] at hr'
      cases hr'
      exact ⟨_, _, hw'.walk, hn'⟩
    · rw [hw'.walk.pages_eq hroot hn', hpages]
    · rw [hpages]
      exact fun id hid => hclear id (hw.walk.sublist.subset hid)

end Detached

end Document

end Marginalia

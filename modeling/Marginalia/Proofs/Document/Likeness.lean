import Marginalia.Document.PageTree
import Marginalia.Document.Reachability
import Marginalia.Proofs.Document.Store
import Marginalia.Proofs.Object.Dict

/-!
Two documents that differ only in private entries: what is read through public keys, from a region that
references do not leave, is the same in both. The page tree and the frames of pages are read that way.
-/

namespace Marginalia

namespace Object

variable {α : Type}

theorem itemReferences_eq (items : List (Object α)) :
    itemReferences items = items.flatMap references := by
  induction items with
  | nil => simp [itemReferences]
  | cons v vs ih => simp [itemReferences, ih]

theorem entryReferences_eq (entries : Dict α) :
    entryReferences entries = entries.flatMap fun e => e.2.references := by
  induction entries with
  | nil => simp [entryReferences]
  | cons e es ih => simp [entryReferences, ih]

theorem mem_entryReferences {entries : Dict α} {key : Bytes} {v : Object α} {r : ObjectId}
    (h : entries.find? key = some v) (hr : r ∈ v.references) : r ∈ entryReferences entries := by
  rw [entryReferences_eq]
  exact List.mem_flatMap.mpr ⟨_, Dict.mem_of_find? h, hr⟩

theorem mem_itemReferences {items : List (Object α)} {v : Object α} {r : ObjectId}
    (h : v ∈ items) (hr : r ∈ v.references) : r ∈ itemReferences items := by
  rw [itemReferences_eq]
  exact List.mem_flatMap.mpr ⟨v, h, hr⟩

/-- The same object, or a dictionary with the same entries but for those of some keys. -/
inductive AlikeOff (K : Bytes → Prop) : Object α → Object α → Prop where
  | same (v : Object α) : AlikeOff K v v
  | dict {es fs : Dict α} (some : ∃ key, K key)
    (h : ∀ key, ¬ K key → fs.find? key = es.find? key) : AlikeOff K (.dict es) (.dict fs)

namespace AlikeOff

variable {K : Bytes → Prop} {v w : Object α}

theorem trans {x : Object α} (h : AlikeOff K v w) (h' : AlikeOff K w x) : AlikeOff K v x := by
  cases h with
  | same => exact h'
  | dict hs h =>
    cases h' with
    | same => exact .dict hs h
    | dict _ h' => exact .dict hs fun key hk => (h' key hk).trans (h key hk)

theorem mono {K' : Bytes → Prop} (h : AlikeOff K v w) (hk : ∀ key, K key → K' key) :
    AlikeOff K' v w := by
  cases h with
  | same => exact .same v
  | dict hs h =>
    obtain ⟨key, hKey⟩ := hs
    exact .dict ⟨key, hk key hKey⟩ fun key hn => h key fun hKey => hn (hk key hKey)

/-- Without private keys nothing differs. -/
theorem eq (h : AlikeOff K v w) (hk : ∀ key, ¬ K key) : w = v := by
  cases h with
  | same => rfl
  | dict hs _ =>
    obtain ⟨key, hKey⟩ := hs
    exact absurd hKey (hk key)

theorem array? (h : AlikeOff K v w) : w.array? = v.array? := by cases h <;> rfl

theorem stream? (h : AlikeOff K v w) : w.stream? = v.stream? := by cases h <;> rfl

theorem name? (h : AlikeOff K v w) : w.name? = v.name? := by cases h <;> rfl

theorem ref? (h : AlikeOff K v w) : w.ref? = v.ref? := by cases h <;> rfl

theorem number? [Scalar α] (h : AlikeOff K v w) : w.number? = v.number? := by cases h <;> rfl

/-- Where one side has a dictionary the other has one too, with the same public entries. -/
theorem dict? (h : AlikeOff K v w) :
    (v.dict? = none ∧ w.dict? = none) ∨
      ∃ es fs : Dict α, v = .dict es ∧ w = .dict fs ∧
        ∀ key, ¬ K key → fs.find? key = es.find? key := by
  cases h with
  | same =>
    cases v
    case dict es => exact .inr ⟨es, es, rfl, rfl, fun _ _ => rfl⟩
    all_goals exact .inl ⟨rfl, rfl⟩
  | dict _ h => exact .inr ⟨_, _, rfl, rfl, h⟩

end AlikeOff

end Object

namespace Document

variable {α : Type}

/-- A set of numbers that the trailer's root belongs to and that references do not leave. -/
structure Region (d : Document α) (R : ObjectId → Prop) : Prop where
  root : ∀ id, d.trailer.get? "Root" = some (.ref id) → R id
  closed : ∀ id v, R id → d.stored? id = some v → ∀ r ∈ v.references, R r

/-- `d'` has under the numbers of a region what `d` has there, but for entries of dictionaries that are
private: `K home key` says that the key is private in the dictionary stored under `home`. -/
structure Keeps (K : ObjectId → Bytes → Prop) (R : ObjectId → Prop) (d d' : Document α) : Prop where
  root : d'.trailer.get? "Root" = d.trailer.get? "Root"
  stored : ∀ id, R id → (d.stored? id = none ∧ d'.stored? id = none) ∨
    ∃ v w, d.stored? id = some v ∧ d'.stored? id = some w ∧ Object.AlikeOff (K id) v w

/-- That a key is private nowhere. -/
def Public (K : ObjectId → Bytes → Prop) (key : String) : Prop :=
  ∀ home, ¬ K home (Syntax.ascii key)

variable {K : ObjectId → Bytes → Prop} {R : ObjectId → Prop} {d d' : Document α}

/-- Where a number of the region leads, references included. -/
theorem Region.home (hr : d.Region R) {hops : Nat} {id home : ObjectId} {v : Object α}
    (hid : R id) (h : d.locateFrom hops id = .ok (home, v)) : R home := by
  induction hops generalizing id with
  | zero =>
    cases hs : d.stored? id with
    | none => simp [locateFrom_none 0 hs] at h
    | some w =>
      cases hw : w.ref? with
      | none =>
        rw [locateFrom_some 0 hs hw] at h
        cases h
        exact hid
      | some next =>
        cases w <;> cases hw
        simp [locateFrom_zero_ref hs] at h
  | succ hops ih =>
    cases hs : d.stored? id with
    | none => simp [locateFrom_none _ hs] at h
    | some w =>
      cases hw : w.ref? with
      | none =>
        rw [locateFrom_some _ hs hw] at h
        cases h
        exact hid
      | some next =>
        cases w <;> cases hw
        rw [locateFrom_ref hops hs] at h
        exact ih (hr.closed _ _ hid hs next (by simp [Object.references])) h

theorem Region.located (hr : d.Region R) {hops : Nat} {id home : ObjectId} {v : Object α}
    (hid : R id) (h : d.locateFrom hops id = .ok (home, v)) : ∀ r ∈ v.references, R r :=
  hr.closed home v (hr.home hid h) (stored?_of_locateFrom h).1

theorem Region.deref (hr : d.Region R) {v : Object α} (hv : ∀ r ∈ v.references, R r) :
    ∀ r ∈ (d.deref v).references, R r := by
  unfold Document.deref
  split
  · rename_i id
    cases hg : d.get? id with
    | none => exact hv
    | some w =>
      obtain ⟨home, hl⟩ := get?_eq_some.mp hg
      exact hr.located (hv id (by simp [Object.references])) hl
  · exact hv

theorem Region.entry (hr : d.Region R) {id : ObjectId} {entries : Dict α} (hid : R id)
    (h : d.getDict? id = some entries) {key : Bytes} {v : Object α}
    (hv : entries.find? key = some v) : ∀ r ∈ v.references, R r := by
  obtain ⟨home, hl⟩ := getDict?_eq_some.mp h
  intro r hrv
  exact hr.located hid hl r (by simpa [Object.references] using Object.mem_entryReferences hv hrv)

theorem Region.items (hr : d.Region R) {v : Object α} (hv : ∀ r ∈ v.references, R r)
    {items : List (Object α)} (h : (d.deref v).array? = some items) :
    ∀ w ∈ items, ∀ r ∈ w.references, R r := by
  intro w hw r hrw
  apply hr.deref hv r
  cases hd : d.deref v with
  | array xs =>
    simp only [hd, Object.array?, Option.some.injEq] at h
    subst h
    simpa [Object.references] using Object.mem_itemReferences hw hrw
  | _ => simp [hd, Object.array?] at h

namespace Keeps

theorem refl (K : ObjectId → Bytes → Prop) (R : ObjectId → Prop) (d : Document α) :
    Keeps K R d d := by
  refine ⟨rfl, fun id _ => ?_⟩
  cases d.stored? id with
  | none => exact .inl ⟨rfl, rfl⟩
  | some v => exact .inr ⟨v, v, rfl, rfl, .same v⟩

theorem trans {d'' : Document α} (h : Keeps K R d d') (h' : Keeps K R d' d'') :
    Keeps K R d d'' := by
  refine ⟨h'.root.trans h.root, fun id hid => ?_⟩
  rcases h.stored id hid with ⟨ha, hb⟩ | ⟨v, w, ha, hb, hvw⟩
  · rcases h'.stored id hid with ⟨-, hc⟩ | ⟨w', x, hb', -, -⟩
    · exact .inl ⟨ha, hc⟩
    · rw [hb] at hb'
      cases hb'
  · rcases h'.stored id hid with ⟨hb', -⟩ | ⟨w', x, hb', hc, hwx⟩
    · rw [hb] at hb'
      cases hb'
    · rw [hb] at hb'
      cases hb'
      exact .inr ⟨v, x, ha, hc, hvw.trans hwx⟩

theorem mono {K' : ObjectId → Bytes → Prop} (h : Keeps K R d d')
    (hk : ∀ id key, K id key → K' id key) : Keeps K' R d d' := by
  refine ⟨h.root, fun id hid => ?_⟩
  rcases h.stored id hid with hn | ⟨v, w, ha, hb, hvw⟩
  · exact .inl hn
  · exact .inr ⟨v, w, ha, hb, hvw.mono (hk id)⟩

/-- A number of the region leads to the same place in both documents. -/
theorem locateFrom (h : Keeps K R d d') (hr : d.Region R) (hops : Nat) {id : ObjectId} (hid : R id) :
    (∃ e, d.locateFrom hops id = .error e ∧ d'.locateFrom hops id = .error e) ∨
      ∃ home v w, d.locateFrom hops id = .ok (home, v) ∧ d'.locateFrom hops id = .ok (home, w) ∧
        Object.AlikeOff (K home) v w := by
  induction hops generalizing id with
  | zero =>
    rcases h.stored id hid with ⟨ha, hb⟩ | ⟨v, w, ha, hb, hvw⟩
    · exact .inl ⟨_, locateFrom_none 0 ha, locateFrom_none 0 hb⟩
    · cases hv : v.ref? with
      | none =>
        exact .inr ⟨id, v, w, locateFrom_some 0 ha hv, locateFrom_some 0 hb (hvw.ref?.trans hv), hvw⟩
      | some next =>
        cases v <;> cases hv
        cases hvw
        have hnext : (d'.stored? next).isSome = (d.stored? next).isSome := by
          have hn : R next := hr.closed _ _ hid ha next (by simp [Object.references])
          rcases h.stored next hn with ⟨hx, hy⟩ | ⟨x, y, hx, hy, -⟩ <;> simp [hx, hy]
        exact .inl ⟨_, locateFrom_zero_ref ha, by rw [locateFrom_zero_ref hb, hnext]⟩
  | succ hops ih =>
    rcases h.stored id hid with ⟨ha, hb⟩ | ⟨v, w, ha, hb, hvw⟩
    · exact .inl ⟨_, locateFrom_none _ ha, locateFrom_none _ hb⟩
    · cases hv : v.ref? with
      | none =>
        exact .inr ⟨id, v, w, locateFrom_some _ ha hv, locateFrom_some _ hb (hvw.ref?.trans hv), hvw⟩
      | some next =>
        cases v <;> cases hv
        cases hvw
        rw [locateFrom_ref hops ha, locateFrom_ref hops hb]
        exact ih (hr.closed _ _ hid ha next (by simp [Object.references]))

theorem get? (h : Keeps K R d d') (hr : d.Region R) {id : ObjectId} (hid : R id) :
    (d.get? id = none ∧ d'.get? id = none) ∨
      ∃ home v w, d.locate id = .ok (home, v) ∧ d.get? id = some v ∧ d'.get? id = some w ∧
        Object.AlikeOff (K home) v w := by
  rcases h.locateFrom hr maxReferences hid with ⟨e, ha, hb⟩ | ⟨home, v, w, ha, hb, hvw⟩
  · left
    simp [Document.get?, Document.locate, ha, hb, Except.toOption]
  · exact .inr ⟨home, v, w, ha, get?_eq_some.mpr ⟨home, ha⟩, get?_eq_some.mpr ⟨home, hb⟩, hvw⟩

theorem getDict? (h : Keeps K R d d') (hr : d.Region R) {id : ObjectId} (hid : R id) :
    (d.getDict? id = none ∧ d'.getDict? id = none) ∨
      ∃ home, ∃ es fs : Dict α, d.locate id = .ok (home, .dict es) ∧ d.getDict? id = some es ∧
        d'.getDict? id = some fs ∧ ∀ key, ¬ K home key → fs.find? key = es.find? key := by
  rcases h.get? hr hid with ⟨ha, hb⟩ | ⟨home, v, w, hl, ha, hb, hvw⟩
  · exact .inl ⟨by simp [Document.getDict?, ha], by simp [Document.getDict?, hb]⟩
  · rcases hvw.dict? with ⟨hv, hw⟩ | ⟨es, fs, rfl, rfl, hef⟩
    · exact .inl ⟨by simp [Document.getDict?, ha, hv], by simp [Document.getDict?, hb, hw]⟩
    · exact .inr ⟨home, es, fs, hl, by simp [Document.getDict?, ha, Object.dict?],
        by simp [Document.getDict?, hb, Object.dict?], hef⟩

/-- A number of the region leads to a dictionary in both documents, or to the same fault. -/
theorem locateDict (h : Keeps K R d d') (hr : d.Region R) {id : ObjectId} (hid : R id) :
    (∃ e, d.locateDict id = .error e ∧ d'.locateDict id = .error e) ∨
      ∃ home, ∃ es fs : Dict α, d.locateDict id = .ok (home, es) ∧
        d'.locateDict id = .ok (home, fs) ∧ ∀ key, ¬ K home key → fs.find? key = es.find? key := by
  rcases h.locateFrom hr maxReferences hid with ⟨e, ha, hb⟩ | ⟨home, v, w, ha, hb, hvw⟩
  · exact .inl ⟨e, by rw [Document.locateDict, locate, ha], by rw [Document.locateDict, locate, hb]⟩
  · cases hvw with
    | dict _ hef =>
      exact .inr ⟨home, _, _, locateDict_eq_ok.mpr ha, locateDict_eq_ok.mpr hb, hef⟩
    | same =>
      cases v with
      | dict es =>
        exact .inr ⟨home, es, es, locateDict_eq_ok.mpr ha, locateDict_eq_ok.mpr hb, fun _ _ => rfl⟩
      | _ =>
        exact .inl ⟨_, by rw [Document.locateDict, locate, ha], by rw [Document.locateDict, locate, hb]⟩

theorem getStream? (h : Keeps K R d d') (hr : d.Region R) {id : ObjectId} (hid : R id) :
    d'.getStream? id = d.getStream? id := by
  rcases h.get? hr hid with ⟨ha, hb⟩ | ⟨home, v, w, -, ha, hb, hvw⟩
  · simp [Document.getStream?, ha, hb]
  · simp [Document.getStream?, ha, hb, hvw.stream?]

/-- A public entry of the dictionary behind a number. -/
theorem entry (h : Keeps K R d d') (hr : d.Region R) {id : ObjectId} (hid : R id) {key : String}
    (hk : Public K key) :
    (d'.getDict? id).bind (·.get? key) = (d.getDict? id).bind (·.get? key) := by
  rcases h.getDict? hr hid with ⟨ha, hb⟩ | ⟨home, es, fs, -, ha, hb, hef⟩
  · simp [ha, hb]
  · simpa [ha, hb, Dict.get?] using hef _ (hk home)

theorem deref (h : Keeps K R d d') (hr : d.Region R) {v : Object α} (hv : ∀ r ∈ v.references, R r) :
    ∃ home, Object.AlikeOff (K home) (d.deref v) (d'.deref v) := by
  unfold Document.deref
  split
  · rename_i id
    rcases h.get? hr (hv id (by simp [Object.references])) with ⟨ha, hb⟩ | ⟨home, v, w, -, ha, hb, hvw⟩
    · exact ⟨id, by simpa [ha, hb] using .same _⟩
    · exact ⟨home, by simpa [ha, hb] using hvw⟩
  · exact ⟨default, .same _⟩

/-- What is no dictionary reads the same behind a reference. -/
theorem array?_deref (h : Keeps K R d d') (hr : d.Region R) {v : Object α}
    (hv : ∀ r ∈ v.references, R r) : (d'.deref v).array? = (d.deref v).array? := by
  obtain ⟨home, ha⟩ := h.deref hr hv
  exact ha.array?

theorem name?_deref (h : Keeps K R d d') (hr : d.Region R) {v : Object α}
    (hv : ∀ r ∈ v.references, R r) : (d'.deref v).name? = (d.deref v).name? := by
  obtain ⟨home, ha⟩ := h.deref hr hv
  exact ha.name?

theorem number?_deref [Scalar α] (h : Keeps K R d d') (hr : d.Region R) {v : Object α}
    (hv : ∀ r ∈ v.references, R r) : (d'.deref v).number? = (d.deref v).number? := by
  obtain ⟨home, ha⟩ := h.deref hr hv
  exact ha.number?

end Keeps

end Document

end Marginalia

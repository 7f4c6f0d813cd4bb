import Marginalia.Document.Store

/-!
What is stored where after a document was changed, and where references lead.
-/

namespace Marginalia

namespace Document

variable {α : Type}

theorem find?_insertSorted (id j : ObjectId) (v : Object α) (objects : List (ObjectId × Object α)) :
    ((insertSorted id v objects).find? fun e => e.1 == j).map Prod.snd =
      if id = j then some v else (objects.find? fun e => e.1 == j).map Prod.snd := by
  induction objects with
  | nil => by_cases hj : id = j <;> simp [insertSorted, hj]
  | cons e rest ih =>
    unfold insertSorted
    by_cases he : id = e.1
    · by_cases hj : id = j
      · simp [he, ← hj]
      · simp [hj, ← he]
    · by_cases hb : id.before e.1
      · simp only [he, hb, if_true, if_false]
        by_cases hj : id = j <;> simp [hj]
      · simp only [he, hb, if_false, Bool.false_eq_true, List.find?_cons]
        by_cases hej : e.1 = j
        · simp [hej, show id ≠ j from hej ▸ he]
        · have hne : (e.1 == j) = false := by simpa using hej
          simpa only [hne] using ih

theorem stored?_put (d : Document α) (id j : ObjectId) (v : Object α) :
    (d.put id v).stored? j = if id = j then some v else d.stored? j :=
  find?_insertSorted id j v d.objects

theorem stored?_put_self (d : Document α) (id : ObjectId) (v : Object α) :
    (d.put id v).stored? id = some v := by simp [stored?_put]

theorem stored?_put_of_ne (d : Document α) {id j : ObjectId} (v : Object α) (h : id ≠ j) :
    (d.put id v).stored? j = d.stored? j := by simp [stored?_put, h]

theorem maxNumber_put (d : Document α) (id : ObjectId) (v : Object α) :
    (d.put id v).maxNumber = d.maxNumber := rfl

theorem stored?_add_self (d : Document α) (v : Object α) :
    (d.add v).1.stored? (d.add v).2 = some v :=
  (find?_insertSorted _ _ v d.objects).trans (if_pos rfl)

theorem stored?_add_of_ne (d : Document α) (v : Object α) {j : ObjectId} (h : (d.add v).2 ≠ j) :
    (d.add v).1.stored? j = d.stored? j :=
  (find?_insertSorted _ _ v d.objects).trans (if_neg h)

/-- An object that is added leaves the numbers in use alone. -/
theorem stored?_add_of_le (d : Document α) (v : Object α) {j : ObjectId}
    (h : j.number ≤ d.maxNumber) : (d.add v).1.stored? j = d.stored? j := by
  apply stored?_add_of_ne
  intro he
  have hn : (d.add v).2.number = d.maxNumber + 1 := rfl
  rw [he] at hn
  omega

theorem maxNumber_add (d : Document α) (v : Object α) :
    (d.add v).1.maxNumber = d.maxNumber + 1 := rfl

theorem locateFrom_none {d : Document α} {id : ObjectId} (hops : Nat) (h : d.stored? id = none) :
    d.locateFrom hops id = .error (.missing id) := by
  unfold locateFrom
  rw [h]

theorem locateFrom_some {d : Document α} {id : ObjectId} {v : Object α} (hops : Nat)
    (h : d.stored? id = some v) (hv : v.ref? = none) : d.locateFrom hops id = .ok (id, v) := by
  unfold locateFrom
  rw [h]
  cases v <;> first | rfl | cases hv

theorem locateFrom_ref {d : Document α} {id next : ObjectId} (hops : Nat)
    (h : d.stored? id = some (.ref next)) :
    d.locateFrom (hops + 1) id = d.locateFrom hops next := by
  rw [locateFrom, h]

theorem locateFrom_zero_ref {d : Document α} {id next : ObjectId}
    (h : d.stored? id = some (.ref next)) :
    d.locateFrom 0 id =
      .error (if (d.stored? next).isSome then .tooManyReferences else .missing next) := by
  rw [locateFrom, h]

/-- What a number leads to is stored where it was found, and is no reference itself. -/
theorem stored?_of_locateFrom {d : Document α} {hops : Nat} {id home : ObjectId} {v : Object α}
    (h : d.locateFrom hops id = .ok (home, v)) : d.stored? home = some v ∧ v.ref? = none := by
  induction hops generalizing id with
  | zero =>
    cases hs : d.stored? id with
    | none => simp [locateFrom_none 0 hs] at h
    | some w =>
      cases hw : w.ref? with
      | none =>
        rw [locateFrom_some 0 hs hw] at h
        cases h
        exact ⟨hs, hw⟩
      | some next =>
        cases w <;> cases hw
        simp [locateFrom_zero_ref hs] at h
  | succ hops ih =>
    cases hs : d.stored? id with
    | none => simp [locateFrom_none _ hs] at h
    | some w =>
      cases hw : w.ref? with
      | none =>
        rw [locateFrom_some _ hs hw] at h
        cases h
        exact ⟨hs, hw⟩
      | some next =>
        cases w <;> cases hw
        rw [locateFrom_ref hops hs] at h
        exact ih h

/-- Where one document has objects and another one related objects, which refer on alike, a number leads to
related objects in both. -/
theorem locateFrom_related {d d' : Document α} {P : ObjectId → Prop} {S : ObjectId → Object α → Object α → Prop}
    (hstored : ∀ id v, P id → d.stored? id = some v → ∃ w, d'.stored? id = some w ∧ w.ref? = v.ref? ∧ S id v w)
    (hnext : ∀ id next, P id → d.stored? id = some (.ref next) → P next) {hops : Nat} {id home : ObjectId}
    {v : Object α} (hid : P id) (hl : d.locateFrom hops id = .ok (home, v)) :
    ∃ w, d'.locateFrom hops id = .ok (home, w) ∧ S home v w := by
  induction hops generalizing id with
  | zero =>
    cases hs : d.stored? id with
    | none => simp [locateFrom_none 0 hs] at hl
    | some u =>
      obtain ⟨w, hw, href, hrel⟩ := hstored id u hid hs
      cases hu : u.ref? with
      | none =>
        rw [locateFrom_some 0 hs hu] at hl
        cases hl
        exact ⟨w, locateFrom_some 0 hw (href.trans hu), hrel⟩
      | some next =>
        cases u <;> cases hu
        simp [locateFrom_zero_ref hs] at hl
  | succ hops ih =>
    cases hs : d.stored? id with
    | none => simp [locateFrom_none _ hs] at hl
    | some u =>
      obtain ⟨w, hw, href, hrel⟩ := hstored id u hid hs
      cases hu : u.ref? with
      | none =>
        rw [locateFrom_some _ hs hu] at hl
        cases hl
        exact ⟨w, locateFrom_some _ hw (href.trans hu), hrel⟩
      | some next =>
        cases u <;> cases hu
        cases w <;> cases href
        rw [locateFrom_ref hops hs] at hl
        rw [locateFrom_ref hops hw]
        exact ih (hnext id next hid hs) hl

theorem stored?_of_locate {d : Document α} {id home : ObjectId} {v : Object α}
    (h : d.locate id = .ok (home, v)) : d.stored? home = some v :=
  (stored?_of_locateFrom h).1

/-- An object that is no reference is what its number leads to. -/
theorem locate_of_stored? {d : Document α} {id : ObjectId} {v : Object α}
    (h : d.stored? id = some v) (hv : v.ref? = none) : d.locate id = .ok (id, v) :=
  locateFrom_some _ h hv

theorem get?_of_stored? {d : Document α} {id : ObjectId} {v : Object α}
    (h : d.stored? id = some v) (hv : v.ref? = none) : d.get? id = some v := by
  rw [get?, locate_of_stored? h hv]
  rfl

theorem getDict?_of_stored? {d : Document α} {id : ObjectId} {entries : Dict α}
    (h : d.stored? id = some (.dict entries)) : d.getDict? id = some entries := by
  rw [getDict?, get?_of_stored? h rfl]
  rfl

theorem getStream?_of_stored? {d : Document α} {id : ObjectId} {entries : Dict α} {data : Bytes}
    (h : d.stored? id = some (.stream entries data)) : d.getStream? id = some (entries, data) := by
  rw [getStream?, get?_of_stored? h rfl]
  rfl

theorem get?_eq_some {d : Document α} {id : ObjectId} {v : Object α} :
    d.get? id = some v ↔ ∃ home, d.locate id = .ok (home, v) := by
  unfold get?
  cases d.locate id with
  | error e => simp [Except.toOption]
  | ok found => obtain ⟨home, w⟩ := found; simp [Except.toOption]

theorem getDict?_eq_some {d : Document α} {id : ObjectId} {entries : Dict α} :
    d.getDict? id = some entries ↔ ∃ home, d.locate id = .ok (home, .dict entries) := by
  rw [← get?_eq_some, getDict?]
  cases d.get? id with
  | none => simp
  | some v => cases v <;> simp [Object.dict?]

theorem locateDict_eq_ok {d : Document α} {id home : ObjectId} {entries : Dict α} :
    d.locateDict id = .ok (home, entries) ↔ d.locate id = .ok (home, .dict entries) := by
  unfold locateDict
  cases d.locate id with
  | error e => simp
  | ok found => obtain ⟨i, v⟩ := found; cases v <;> simp

/-- A dictionary in place of another one is found where that was, and all else where it was. -/
theorem locate_put {d : Document α} {home id home' : ObjectId} {es : Dict α} {v : Object α} (fs : Dict α)
    (hs : d.stored? home = some (.dict es)) (hl : d.locate id = .ok (home', v)) :
    (d.put home (.dict fs)).locate id = .ok (home', if home' = home then .dict fs else v) := by
  have hput : ∀ id v, True → d.stored? id = some v → ∃ w, (d.put home (.dict fs)).stored? id = some w ∧
      w.ref? = v.ref? ∧ w = if id = home then .dict fs else v := by
    intro id v _ hv
    by_cases hid : id = home
    · subst hid
      rw [hs] at hv
      cases hv
      exact ⟨_, stored?_put_self d id _, rfl, by simp⟩
    · exact ⟨v, (stored?_put_of_ne d _ (Ne.symm hid)).trans hv, rfl, by simp [hid]⟩
  obtain ⟨w, hw, rfl⟩ := locateFrom_related hput (fun _ _ _ _ => trivial) trivial hl
  exact hw

/-- Changing a dictionary changes the object that the number leads to, and that alone. -/
theorem modifyDict_eq_ok {d d' : Document α} {id : ObjectId} {f : Dict α → Dict α} :
    d.modifyDict id f = .ok d' ↔
      ∃ home entries, d.locate id = .ok (home, .dict entries) ∧
        d' = d.put home (.dict (f entries)) := by
  unfold modifyDict
  cases hl : d.locateDict id with
  | error e =>
    constructor
    · intro h
      cases h
    · rintro ⟨home, entries, hloc, -⟩
      rw [locateDict_eq_ok.mpr hloc] at hl
      cases hl
  | ok found =>
    obtain ⟨home, entries⟩ := found
    have hloc := locateDict_eq_ok.mp hl
    constructor
    · intro h
      cases h
      exact ⟨home, entries, hloc, rfl⟩
    · rintro ⟨home', entries', hloc', rfl⟩
      rw [hloc] at hloc'
      cases hloc'
      rfl

end Document

end Marginalia

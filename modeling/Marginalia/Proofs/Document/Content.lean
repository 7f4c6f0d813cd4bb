import Marginalia.Document.Text
import Marginalia.Mark.Layer
import Marginalia.Proofs.Document.Store

/-!
The content of a page as text is read from it is that of the streams that saving finds there, unless it is
behind too many references.
-/

namespace Marginalia

namespace Document

variable {α : Type} {d : Document α}

/-- That the contents of a page are behind so few references that reading text follows all of them. -/
def ContentsNear (d : Document α) (es : Dict α) : Prop :=
  ∀ id home v, es.get? "Contents" = some (.ref id) → d.locate id = .ok (home, v) →
    d.locateFrom (maxContentSteps - 2) id = .ok (home, v)

/-- The data of what a number leads to. -/
theorem contentData_of_locate {id home : ObjectId} {v : Object α} (h : d.locate id = .ok (home, v)) :
    d.contentData id =
      match v with
      | .stream entries data => (StreamData.decode? entries data).getD data
      | _ => [] := by
  have hg : d.get? id = some v := get?_eq_some.mpr ⟨home, h⟩
  unfold contentData getStream?
  rw [hg, Option.bind_some]
  cases v <;> rfl

theorem contentData_of_fault {id : ObjectId} {e : AccessError} (h : d.locate id = .error e) :
    d.contentData id = [] := by
  have hg : d.get? id = none := by simp [Document.get?, h, Except.toOption]
  simp only [contentData, getStream?, hg, Option.bind_none]

/-- The data of the streams that an object under a number stands for as contents. -/
def contentsData (d : Document α) (id : ObjectId) : Object α → Bytes
  | .array items => (items.filterMap Object.ref?).flatMap d.contentData
  | _ => d.contentData id

theorem data_streamsOf_stored {steps : Nat} {id : ObjectId} {v : Object α}
    (h : d.stored? id = some v) (hv : v.ref? = none) :
    (d.streamsOf (steps + 2) (.ref id)).flatMap d.contentData = d.contentsData id v := by
  have hempty := contentData_of_locate (locate_of_stored? h hv)
  cases v with
  | ref next => cases hv
  | stream entries data => simp [streamsOf, h, contentsData]
  | array items => simp [streamsOf, h, contentsData]
  | _ => simp [streamsOf, h, contentsData, hempty]

/-- Behind references that end there are the data of what they lead to. -/
theorem data_streamsOf_ok {hops steps : Nat} {id home : ObjectId} {v : Object α}
    (h : d.locateFrom hops id = .ok (home, v)) (hs : hops + 2 ≤ steps) :
    (d.streamsOf steps (.ref id)).flatMap d.contentData = d.contentsData home v := by
  induction hops generalizing id steps with
  | zero =>
    obtain ⟨steps, rfl⟩ := Nat.exists_eq_add_of_le' hs
    cases hst : d.stored? id with
    | none => simp [locateFrom_none 0 hst] at h
    | some w =>
      cases hw : w.ref? with
      | some next =>
        cases w <;> cases hw
        simp [locateFrom_zero_ref hst] at h
      | none =>
        rw [locateFrom_some 0 hst hw] at h
        cases h
        exact data_streamsOf_stored hst hw
  | succ hops ih =>
    obtain ⟨steps, rfl⟩ := Nat.exists_eq_add_of_le' hs
    cases hst : d.stored? id with
    | none => simp [locateFrom_none _ hst] at h
    | some w =>
      cases hw : w.ref? with
      | some next =>
        cases w <;> cases hw
        rw [locateFrom_ref hops hst] at h
        have hrest : hops + 2 ≤ steps + hops + 2 := by omega
        rw [← ih h hrest, show steps + (hops + 1 + 2) = (steps + hops + 2) + 1 by omega]
        simp only [streamsOf, hst]
      | none =>
        rw [locateFrom_some _ hst hw] at h
        cases h
        have hsplit : steps + (hops + 1 + 2) = steps + hops + 1 + 2 := by omega
        rw [hsplit]
        exact data_streamsOf_stored hst hw

/-- Where references lead nowhere there are no data. -/
theorem data_streamsOf_error {hops steps : Nat} {id : ObjectId} {e : AccessError}
    (h : d.locateFrom hops id = .error e) (hs : steps ≤ hops + 1) :
    (d.streamsOf steps (.ref id)).flatMap d.contentData = [] := by
  induction hops generalizing id steps with
  | zero =>
    cases hst : d.stored? id with
    | none =>
      have hdata := contentData_of_fault (locateFrom_none maxReferences hst)
      match steps with
      | 0 => rfl
      | steps + 1 => simp [streamsOf, hst, hdata]
    | some w =>
      cases hw : w.ref? with
      | none => simp [locateFrom_some 0 hst hw] at h
      | some next =>
        cases w <;> cases hw
        match steps, hs with
        | 0, _ => rfl
        | 1, _ => simp [streamsOf, hst]
  | succ hops ih =>
    cases hst : d.stored? id with
    | none =>
      have hdata := contentData_of_fault (locateFrom_none maxReferences hst)
      match steps with
      | 0 => rfl
      | steps + 1 => simp [streamsOf, hst, hdata]
    | some w =>
      cases hw : w.ref? with
      | none => simp [locateFrom_some _ hst hw] at h
      | some next =>
        cases w <;> cases hw
        rw [locateFrom_ref hops hst] at h
        match steps, hs with
        | 0, _ => rfl
        | steps + 1, hs =>
          have hrest : steps ≤ hops + 1 := by omega
          rw [← ih h hrest]
          simp only [streamsOf, hst]

/-- The content that text is read from is that of the content streams. -/
theorem pageContent_eq {p : ObjectId} {es : Dict α} (hd : d.getDict? p = some es) (hn : d.ContentsNear es) :
    d.pageContent p = (Layer.streams d es).flatMap d.contentData := by
  unfold pageContent Layer.streams
  rw [hd, Option.bind_some]
  cases hc : es.get? "Contents" with
  | none => rfl
  | some contents =>
    cases contents with
    | ref id =>
      cases hl : d.locate id with
      | error e =>
        have hg : d.get? id = none := by simp [Document.get?, hl, Except.toOption]
        simp only [hg, List.flatMap_cons, List.flatMap_nil, contentData_of_fault hl, List.append_nil]
        exact data_streamsOf_error hl (by decide)
      | ok found =>
        obtain ⟨home, v⟩ := found
        have hg : d.get? id = some v := get?_eq_some.mpr ⟨home, hl⟩
        have hhome := contentData_of_locate (locate_of_stored? (stored?_of_locate hl)
          (stored?_of_locateFrom hl).2)
        have hsteps : maxContentSteps - 2 + 2 ≤ maxContentSteps := by decide
        have hdata := data_streamsOf_ok (hn id home v hc hl) hsteps
        simp only [hg]
        cases v with
        | array items => exact hdata
        | _ => simpa [contentsData, contentData_of_locate hl, hhome] using hdata
    | array items => rfl
    | _ => rfl

end Document

end Marginalia

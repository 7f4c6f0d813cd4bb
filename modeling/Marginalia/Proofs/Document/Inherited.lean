import Marginalia.Proofs.Document.PageTree

/-!
What a page has from the nodes above it, in two documents that differ only in private entries. The
frame of a page is read that way.
-/

namespace Marginalia

namespace Document

variable {α : Type} {K : ObjectId → Bytes → Prop} {R : ObjectId → Prop} {d d' : Document α}

/-- That all references in the entries of a dictionary stay in a region. -/
def EntriesWithin (R : ObjectId → Prop) (entries : Dict α) : Prop :=
  ∀ (key : Bytes) (v : Object α), entries.find? key = some v → ∀ r ∈ v.references, R r

theorem Region.entriesWithin (hr : d.Region R) {id : ObjectId} {entries : Dict α} (hid : R id)
    (h : d.getDict? id = some entries) : EntriesWithin R entries :=
  fun _ _ hv => hr.entry hid h hv

/-- That a dictionary is above another one, over as many parents as there are. The number is the one that
it is stored under. -/
inductive Above (d : Document α) : Dict α → ObjectId → Prop where
  | parent {es fs : Dict α} {id home : ObjectId} (link : es.get? "Parent" = some (.ref id))
      (found : d.locate id = .ok (home, .dict fs)) : Above d es home
  | further {es fs : Dict α} {id home home' : ObjectId} (link : es.get? "Parent" = some (.ref id))
      (found : d.locate id = .ok (home, .dict fs)) (above : Above d fs home') : Above d es home'

namespace Keeps

/-- An inherited attribute is the same object in both documents, or dictionaries that differ only in
private entries, if its key is private nowhere above. -/
theorem inheritedWithin? (h : Keeps K R d d') (hr : d.Region R) (key : String) (hops : Nat)
    {es fs : Dict α} (hk : ∀ home, d.Above es home → ¬ K home (Syntax.ascii key)) (hp : Public K "Parent")
    (hin : EntriesWithin R es)
    (hkey : fs.get? key = es.get? key) (hparent : fs.get? "Parent" = es.get? "Parent") :
    (d.inheritedWithin? key hops es = none ∧ d'.inheritedWithin? key hops fs = none) ∨
      ∃ home v w, d.inheritedWithin? key hops es = some v ∧
        d'.inheritedWithin? key hops fs = some w ∧ Object.AlikeOff (K home) v w ∧
        ∀ r ∈ v.references, R r := by
  induction hops generalizing es fs with
  | zero => exact .inl ⟨rfl, rfl⟩
  | succ hops ih =>
    cases hv : es.get? key with
    | some v =>
      obtain ⟨home, ha⟩ := h.deref hr (hin _ v hv)
      refine .inr ⟨home, d.deref v, d'.deref v, ?_, ?_, ha, hr.deref (hin _ v hv)⟩
      · simp only [Document.inheritedWithin?, hv]
      · simp only [Document.inheritedWithin?, hkey, hv]
    | none =>
      have hd : d.inheritedWithin? key (hops + 1) es =
          ((es.get? "Parent").bind Object.ref?).bind fun p =>
            (d.getDict? p).bind (d.inheritedWithin? key hops) := by
        simp only [Document.inheritedWithin?, hv]
        cases es.get? "Parent" <;> rfl
      have hd' : d'.inheritedWithin? key (hops + 1) fs =
          ((es.get? "Parent").bind Object.ref?).bind fun p =>
            (d'.getDict? p).bind (d'.inheritedWithin? key hops) := by
        simp only [Document.inheritedWithin?, hkey, hv, hparent]
        cases es.get? "Parent" <;> rfl
      rw [hd, hd']
      cases hpar : (es.get? "Parent").bind Object.ref? with
      | none => exact .inl ⟨rfl, rfl⟩
      | some p =>
        have hlink : es.get? "Parent" = some (.ref p) := by
          obtain ⟨v, hv, hvp⟩ := Option.bind_eq_some_iff.mp hpar
          cases v <;> cases hvp
          exact hv
        have hpin : R p := hin _ _ hlink _ (by simp [Object.references])
        simp only [Option.bind_some]
        rcases h.getDict? hr hpin with ⟨ha, hb⟩ | ⟨home, es', fs', hl, ha, hb, hef⟩
        · exact .inl ⟨by simp [ha], by simp [hb]⟩
        · simp only [ha, hb, Option.bind_some]
          exact ih (fun home' habove => hk home' (.further hlink hl habove)) (hr.entriesWithin hpin ha)
            (hef _ (hk home (.parent hlink hl))) (hef _ (hp home))

variable [Scalar α]

theorem numbers? (h : Keeps K R d d') (hr : d.Region R) {items : List (Object α)}
    (hi : ∀ v ∈ items, ∀ r ∈ v.references, R r) : d'.numbers? items = d.numbers? items := by
  unfold Document.numbers?
  induction items with
  | nil => rfl
  | cons v vs ih =>
    rw [List.mapM_cons, List.mapM_cons, h.number?_deref hr (hi v (by simp)),
      ih fun w hw => hi w (by simp [hw])]

theorem corners? (h : Keeps K R d d') (hr : d.Region R) {key : String} (hk : Public K key)
    (hp : Public K "Parent") {es fs : Dict α} (hin : EntriesWithin R es)
    (hkey : fs.get? key = es.get? key) (hparent : fs.get? "Parent" = es.get? "Parent") :
    d'.corners? fs key = d.corners? es key := by
  unfold Document.corners? Document.inherited?
  rcases h.inheritedWithin? hr _ maxAncestors (fun home _ => hk home) hp hin hkey hparent with
    ⟨ha, hb⟩ | ⟨home, v, w, ha, hb, hvw, hv⟩
  · simp only [ha, hb, Option.bind_eq_bind, Option.bind_none]
  · rw [ha, hb]
    simp only [Option.bind_eq_bind, Option.bind_some, hvw.array?]
    cases v with
    | array items =>
      have hi : ∀ v ∈ items.take 4, ∀ r ∈ v.references, R r := fun u hu r hr =>
        hv r (by simpa [Object.references] using Object.mem_itemReferences (List.mem_of_mem_take hu) hr)
      simp only [Object.array?, Option.bind_some, h.numbers? hr hi]
    | _ => simp only [Object.array?, Option.bind_none]

/-- A page has the same frame in both documents. -/
theorem frame (h : Keeps K R d d') (hr : d.Region R) (hk : PublicTree K) {id : ObjectId} (hid : R id) :
    d'.frame id = d.frame id := by
  unfold Document.frame pageEntries
  rcases h.locateDict hr hid with ⟨e, ha, hb⟩ | ⟨home, es, fs, ha, hb, hef⟩
  · simp only [ha, hb, bind, Except.bind]
  · rw [ha, hb]
    have hin : EntriesWithin R es :=
      hr.entriesWithin hid (getDict?_eq_some.mpr ⟨home, locateDict_eq_ok.mp ha⟩)
    have hparent : fs.get? "Parent" = es.get? "Parent" := hef _ (hk.parent home)
    have hcrop := h.corners? hr hk.cropBox hk.parent hin (hef _ (hk.cropBox home)) hparent
    have hmedia := h.corners? hr hk.mediaBox hk.parent hin (hef _ (hk.mediaBox home)) hparent
    simp only [bind, Except.bind, hcrop, hmedia]

end Keeps

end Document

end Marginalia

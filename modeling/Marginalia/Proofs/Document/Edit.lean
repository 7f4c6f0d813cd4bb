import Marginalia.Proofs.Document.PageTree

/-!
Changes of a document that add objects under new numbers and set private entries of dictionaries that
are there. Whatever was stored is still stored, but for those entries.
-/

namespace Marginalia

namespace Document

variable {α : Type}

theorem Keeps.restrict {K : ObjectId → Bytes → Prop} {R R' : ObjectId → Prop} {d d' : Document α}
    (h : Keeps K R d d') (hR : ∀ id, R' id → R id) : Keeps K R' d d' :=
  ⟨h.root, fun id hid => h.stored id (hR id hid)⟩

/-- That a number is not above the highest one in use. -/
def InUse (d : Document α) (id : ObjectId) : Prop := id.number ≤ d.maxNumber

/-- A change that sets entries private by `K` and adds objects under new numbers. -/
structure Edit (K : ObjectId → Bytes → Prop) (d d' : Document α) : Prop where
  trailer : d'.trailer = d.trailer
  maxNumber : d.maxNumber ≤ d'.maxNumber
  keeps : Keeps K d.InUse d d'

namespace Edit

variable {K : ObjectId → Bytes → Prop} {d d' : Document α}

theorem refl (K : ObjectId → Bytes → Prop) (d : Document α) : Edit K d d :=
  ⟨rfl, Nat.le_refl _, .refl K _ d⟩

theorem trans {d'' : Document α} (h : Edit K d d') (h' : Edit K d' d'') : Edit K d d'' :=
  ⟨h'.trailer.trans h.trailer, Nat.le_trans h.maxNumber h'.maxNumber,
    h.keeps.trans (h'.keeps.restrict fun _ hid => Nat.le_trans hid h.maxNumber)⟩

theorem mono {K' : ObjectId → Bytes → Prop} (h : Edit K d d')
    (hk : ∀ id key, K id key → K' id key) : Edit K' d d' :=
  ⟨h.trailer, h.maxNumber, h.keeps.mono hk⟩

/-- What a change keeps in a region whose numbers are in use. -/
theorem keepsOn (h : Edit K d d') {R : ObjectId → Prop} (hR : ∀ id, R id → d.InUse id) :
    Keeps K R d d' :=
  h.keeps.restrict hR

theorem inUse (h : Edit K d d') {id : ObjectId} (hid : d.InUse id) : d'.InUse id :=
  Nat.le_trans hid h.maxNumber

/-- An object without private entries stays as it is. -/
theorem stored (h : Edit K d d') {id : ObjectId} (hid : d.InUse id) (hk : ∀ key, ¬ K id key) :
    d'.stored? id = d.stored? id := by
  rcases h.keeps.stored id hid with ⟨ha, hb⟩ | ⟨v, w, ha, hb, hvw⟩
  · rw [ha, hb]
  · rw [ha, hb, hvw.eq hk]

/-- An object is the same after a change, or a dictionary with the same public entries. -/
theorem stored_alike (h : Edit K d d') {id : ObjectId} {v : Object α} (hid : d.InUse id)
    (hs : d.stored? id = some v) : ∃ w, d'.stored? id = some w ∧ Object.AlikeOff (K id) v w := by
  rcases h.keeps.stored id hid with ⟨hn, -⟩ | ⟨u, w, hu, hw, huw⟩
  · rw [hn] at hs
    cases hs
  · rw [hs] at hu
    cases hu
    exact ⟨w, hw, huw⟩

/-- A dictionary keeps its public entries. -/
theorem dict (h : Edit K d d') {home : ObjectId} (hid : d.InUse home) {es : Dict α}
    (hs : d.stored? home = some (.dict es)) :
    ∃ fs : Dict α, d'.stored? home = some (.dict fs) ∧
      ∀ key, ¬ K home key → fs.find? key = es.find? key := by
  obtain ⟨w, hw, hvw⟩ := h.stored_alike hid hs
  cases hvw with
  | same => exact ⟨es, hw, fun _ _ => rfl⟩
  | dict _ hef => exact ⟨_, hw, hef⟩

theorem add (K : ObjectId → Bytes → Prop) (d : Document α) (v : Object α) : Edit K d (d.add v).1 := by
  refine ⟨rfl, Nat.le_succ _, rfl, fun id hid => ?_⟩
  rw [stored?_add_of_le d v hid]
  cases d.stored? id with
  | none => exact .inl ⟨rfl, rfl⟩
  | some w => exact .inr ⟨w, w, rfl, rfl, .same w⟩

theorem put {home : ObjectId} {es fs : Dict α} (hs : d.stored? home = some (.dict es))
    (hk : ∃ key, K home key) (hef : ∀ key, ¬ K home key → fs.find? key = es.find? key) :
    Edit K d (d.put home (.dict fs)) := by
  refine ⟨rfl, Nat.le_refl _, rfl, fun id _ => ?_⟩
  by_cases hid : home = id
  · subst hid
    exact .inr ⟨_, _, hs, stored?_put_self d home _, .dict hk hef⟩
  · rw [stored?_put_of_ne d _ hid]
    cases d.stored? id with
    | none => exact .inl ⟨rfl, rfl⟩
    | some w => exact .inr ⟨w, w, rfl, rfl, .same w⟩

end Edit

/-- That a number came into use after a change of a document whose highest number was `low`. -/
structure Fresh (low : Nat) (d : Document α) (id : ObjectId) : Prop where
  new : low < id.number
  inUse : d.InUse id

/-- That private entries are only in dictionaries under numbers up to `low`. -/
def PrivateUpTo (low : Nat) (K : ObjectId → Bytes → Prop) : Prop :=
  ∀ id key, K id key → id.number ≤ low

theorem Fresh.edit {low : Nat} {d d' : Document α} {id : ObjectId} {K : ObjectId → Bytes → Prop}
    (h : Fresh low d id) (he : Edit K d d') : Fresh low d' id :=
  ⟨h.new, he.inUse h.inUse⟩

/-- What was added stays as it is. -/
theorem Fresh.stored {low : Nat} {d d' : Document α} {id : ObjectId} {K : ObjectId → Bytes → Prop}
    (h : Fresh low d id) (he : Edit K d d') (hk : PrivateUpTo low K) : d'.stored? id = d.stored? id :=
  he.stored h.inUse fun key hkey => Nat.not_lt_of_le (hk id key hkey) h.new

theorem Fresh.add {low : Nat} {d : Document α} (h : low ≤ d.maxNumber) (v : Object α) :
    Fresh low (d.add v).1 (d.add v).2 :=
  ⟨Nat.lt_of_le_of_lt h (Nat.lt_succ_self _), Nat.le_refl _⟩

/-- A change that adds objects and leaves all others as they are. -/
abbrev Grows (d d' : Document α) : Prop := Edit (fun _ _ => False) d d'

theorem Grows.edit {d d' : Document α} (h : Grows d d') (K : ObjectId → Bytes → Prop) : Edit K d d' :=
  h.mono fun _ _ hf => hf.elim

theorem Grows.stored {d d' : Document α} (h : Grows d d') {id : ObjectId} (hid : d.InUse id) :
    d'.stored? id = d.stored? id :=
  Edit.stored h hid fun _ hf => hf

theorem Fresh.grow {low : Nat} {d d' : Document α} {id : ObjectId} (h : Fresh low d id)
    (hg : Grows d d') : Fresh low d' id ∧ d'.stored? id = d.stored? id :=
  ⟨h.edit hg, hg.stored h.inUse⟩

end Document

end Marginalia

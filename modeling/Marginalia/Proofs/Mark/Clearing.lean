import Marginalia.Mark.Writer
import Marginalia.Proofs.Document.Edit
import Marginalia.Proofs.Document.Reachability
import Marginalia.Proofs.Mark.Agreement

/-!
Clearing the pages of a document of its own annotations and recognised text, before others are written.
-/

namespace Marginalia

namespace Document

variable {α : Type}

/-- A document whose page tree is well formed, and whose trailer leads to no number above the highest one
in use. -/
structure Sound (d : Document α) : Prop where
  tree : d.TreeSound
  inUse : ∀ id ∈ d.reachable, d.InUse id

/-- The keys that saving sets in the dictionaries of pages. -/
def pageKeys : List String := ["Annots", "Contents", "Resources"]

/-- The keys that saving sets in the catalog and in the form dictionary. -/
def formKeys : List String := ["AcroForm", "NeedAppearances", "DR"]

/-- That a number is where the dictionary of a page is stored. -/
def IsPageHome (d : Document α) (id : ObjectId) : Prop := ∃ p ∈ d.pages, d.home? p = some id

/-- That a number is where the catalog is stored, or the form dictionary that it refers to. -/
def IsFormHome (d : Document α) (id : ObjectId) : Prop :=
  ∃ root, d.trailer.get? "Root" = some (.ref root) ∧ (d.home? root = some id ∨
    ∃ form, (d.getDict? root).bind (·.get? "AcroForm") = some (.ref form) ∧ d.home? form = some id)

def PageEntries (d : Document α) (id : ObjectId) (key : Bytes) : Prop :=
  d.IsPageHome id ∧ key ∈ pageKeys.map Syntax.ascii

def FormEntries (d : Document α) (id : ObjectId) (key : Bytes) : Prop :=
  d.IsFormHome id ∧ key ∈ formKeys.map Syntax.ascii

/-- The entries that saving sets. -/
def SaveKeys (d : Document α) (id : ObjectId) (key : Bytes) : Prop :=
  d.PageEntries id key ∨ d.FormEntries id key

theorem saveKeys_public (d : Document α) {key : String}
    (h : Syntax.ascii key ∉ (pageKeys ++ formKeys).map Syntax.ascii) : Public d.SaveKeys key := by
  intro home hk
  rw [List.map_append, List.mem_append, not_or] at h
  rcases hk with ⟨-, hk⟩ | ⟨-, hk⟩
  · exact h.1 hk
  · exact h.2 hk

theorem saveKeys_publicTree (d : Document α) : PublicTree d.SaveKeys where
  type := d.saveKeys_public (by decide)
  linearized := d.saveKeys_public (by decide)
  kids := d.saveKeys_public (by decide)
  pages := d.saveKeys_public (by decide)
  parent := d.saveKeys_public (by decide)
  cropBox := d.saveKeys_public (by decide)
  mediaBox := d.saveKeys_public (by decide)

theorem saveKeys_publicResources (d : Document α) : PublicResources d.SaveKeys where
  font := d.saveKeys_public (by decide)
  xObject := d.saveKeys_public (by decide)
  encoding := d.saveKeys_public (by decide)
  subtype := d.saveKeys_public (by decide)

theorem Region.home? {R : ObjectId → Prop} {d : Document α} (hr : d.Region R) {id home : ObjectId}
    (hid : R id) (h : d.home? id = some home) : R home := by
  obtain ⟨v, hl⟩ := home?_eq_some.mp h
  exact hr.home hid hl

/-- What is stored at the place that a number leads to is what it leads to. -/
theorem locate_of_home? {d : Document α} {id home : ObjectId} {v : Object α}
    (h : d.home? id = some home) (hs : d.stored? home = some v) : d.locate id = .ok (home, v) := by
  obtain ⟨w, hl⟩ := home?_eq_some.mp h
  have hw := stored?_of_locate hl
  rw [hs] at hw
  cases hw
  exact hl

/-- The pages of a well-formed tree are among what the trailer leads to. -/
theorem TreeSound.reachable_of_pages {d : Document α} (h : d.TreeSound) {p : ObjectId} (hp : p ∈ d.pages) :
    p ∈ d.reachable :=
  (h.transfer (Keeps.refl _ _ d) d.reachable_region Agree.publicTree).2.2 p hp

namespace Sound

variable {d : Document α}

theorem region (_ : d.Sound) : d.Region (· ∈ d.reachable) := d.reachable_region

/-- The pages are among what the trailer leads to. -/
theorem reachable_of_pages (h : d.Sound) {p : ObjectId} (hp : p ∈ d.pages) : p ∈ d.reachable :=
  h.tree.reachable_of_pages hp

theorem keeps (h : d.Sound) {K : ObjectId → Bytes → Prop} {d' : Document α} (he : Edit K d d') :
    Keeps K (· ∈ d.reachable) d d' :=
  he.keepsOn h.inUse

/-- What saving sets is in dictionaries whose numbers were in use. -/
theorem saveKeys_upTo (h : d.Sound) {id : ObjectId} {key : Bytes} (hk : d.SaveKeys id key) :
    d.InUse id := by
  apply h.inUse id
  rcases hk with ⟨⟨p, hp, hid⟩, -⟩ | ⟨⟨root, ht, hid⟩, -⟩
  · exact h.region.home? (h.reachable_of_pages hp) hid
  · have hroot := h.region.root root ht
    rcases hid with hid | ⟨form, hform, hid⟩
    · exact h.region.home? hroot hid
    · obtain ⟨entries, he, hv⟩ := Option.bind_eq_some_iff.mp hform
      exact h.region.home? (h.region.entry hroot he hv form (by simp [Object.references])) hid

/-- A page is found where it was, with what is stored there now. -/
theorem locate (h : d.Sound) {K : ObjectId → Bytes → Prop} {d' : Document α} (he : Edit K d d')
    {p home : ObjectId} (hp : p ∈ d.pages) {v w : Object α} (hl : d.locate p = .ok (home, v))
    (hs : d'.stored? home = some w) : d'.locate p = .ok (home, w) := by
  have hhome := (h.keeps he).home? h.region (h.reachable_of_pages hp)
  rw [home?_eq_some.mpr ⟨v, hl⟩] at hhome
  exact locate_of_home? hhome hs

/-- Where the dictionary of a page is stored no number is new. -/
theorem home_inUse (h : d.Sound) {p home : ObjectId} (hp : p ∈ d.pages) {v : Object α}
    (hl : d.locate p = .ok (home, v)) : d.InUse home :=
  h.inUse home (h.region.home (h.reachable_of_pages hp) hl)

theorem entriesWithin (h : d.Sound) {p home : ObjectId} (hp : p ∈ d.pages) {es : Dict α}
    (hl : d.locate p = .ok (home, .dict es)) : EntriesWithin (· ∈ d.reachable) es :=
  h.region.entriesWithin (h.reachable_of_pages hp) (getDict?_eq_some.mpr ⟨home, hl⟩)

end Sound

end Document

namespace MarkWriter

open Document

variable {α : Type} {d : Document α}

theorem entriesOn_eq {p home : ObjectId} {es : Dict α} (h : d.locate p = .ok (home, .dict es)) :
    entriesOn d p = .ok es := by
  rw [entriesOn, locateDict_eq_ok.mpr h]

theorem updatePage_eq {p home : ObjectId} {es : Dict α} (h : d.locate p = .ok (home, .dict es))
    (f : Dict α → Dict α) : updatePage d p f = .ok (d.put home (.dict (f es))) := by
  have hm : d.modifyDict p f = .ok (d.put home (.dict (f es))) :=
    modifyDict_eq_ok.mpr ⟨home, es, h, rfl⟩
  rw [updatePage, hm]

/-- Only a dictionary is updated. -/
theorem updatePage_eq_ok {p : ObjectId} {f : Dict α → Dict α} {d' : Document α} : updatePage d p f = .ok d' ↔
    ∃ home es, d.locate p = .ok (home, .dict es) ∧ d' = d.put home (.dict (f es)) := by
  constructor
  · intro h
    unfold updatePage at h
    split at h
    · rename_i hm
      cases h
      exact modifyDict_eq_ok.mp hm
    · cases h
  · rintro ⟨home, es, hl, rfl⟩
    exact updatePage_eq hl f

theorem filterMap_refs (ids : List ObjectId) :
    (ids.map (Object.ref (α := α))).filterMap Object.ref? = ids := by
  induction ids with
  | nil => rfl
  | cons id ids ih => simp [Object.ref?, ih]

/-- The streams of a page's content without a tag. -/
def ownStreams (d : Document α) (es : Dict α) : List ObjectId :=
  (Layer.streams d es).filter fun id => (Layer.tag? d id).isNone

/-- The entries of a page without its annotations and the streams with a tag. -/
def clearedEntries (d : Document α) (es : Dict α) : Dict α :=
  if (ownStreams d es).length = (Layer.streams d es).length then es.erase "Annots"
  else (es.erase "Annots").set "Contents" (refs (ownStreams d es))

theorem find?_clearedEntries (d : Document α) (es : Dict α) {key : Bytes}
    (h : key ∉ pageKeys.map Syntax.ascii) : (clearedEntries d es).find? key = es.find? key := by
  have hannots : Syntax.ascii "Annots" ≠ key := fun he => h (by simp [pageKeys, ← he])
  have hcontents : Syntax.ascii "Contents" ≠ key := fun he => h (by simp [pageKeys, ← he])
  unfold clearedEntries
  split
  · rw [Dict.find?_erase, if_neg hannots]
  · rw [Dict.set, Dict.find?_setBytes, if_neg hcontents, Dict.find?_erase, if_neg hannots]

theorem get?_annots_clearedEntries (d : Document α) (es : Dict α) :
    (clearedEntries d es).get? "Annots" = none := by
  unfold clearedEntries
  split
  · exact Dict.get?_erase_self es _
  · rw [Dict.get?_set_of_ne _ _ (by decide), Dict.get?_erase_self]

theorem get?_resources_clearedEntries (d : Document α) (es : Dict α) :
    (clearedEntries d es).get? "Resources" = es.get? "Resources" := by
  unfold clearedEntries
  split
  · exact Dict.get?_erase_of_ne es (by decide)
  · rw [Dict.get?_set_of_ne _ _ (by decide), Dict.get?_erase_of_ne es (by decide)]

/-- The content streams of a cleared page are those without a tag, where contents name the same streams. -/
theorem streams_of_cleared {d' : Document α} {es fs : Dict α}
    (hsame : fs.get? "Contents" = es.get? "Contents" → Layer.streams d' fs = Layer.streams d es)
    (hc : fs.get? "Contents" = (clearedEntries d es).get? "Contents") :
    Layer.streams d' fs = ownStreams d es := by
  unfold clearedEntries at hc
  split at hc
  · rename_i hlen
    rw [Dict.get?_erase_of_ne es (by decide)] at hc
    rw [hsame hc]
    exact (List.filter_sublist.eq_of_length hlen).symm
  · rw [Dict.get?_set_self] at hc
    simp only [Layer.streams, hc, refs, filterMap_refs]

theorem streams_cleared {K : ObjectId → Bytes → Prop} {R : ObjectId → Prop} {d' : Document α}
    (h : Keeps K R d d') (hr : d.Region R) {es fs : Dict α} (hin : EntriesWithin R es)
    (hc : fs.get? "Contents" = (clearedEntries d es).get? "Contents") :
    Layer.streams d' fs = ownStreams d es :=
  streams_of_cleared (Layer.streams_keeps h hr hin) hc

/-- That an entry is one that saving sets, in the dictionary of one of some pages. -/
def EntriesOf (d : Document α) (ps : List ObjectId) (id : ObjectId) (key : Bytes) : Prop :=
  (∃ p ∈ ps, d.home? p = some id) ∧ key ∈ pageKeys.map Syntax.ascii

theorem entriesOf_page {d : Document α} {ps : List ObjectId} (hps : ∀ p ∈ ps, p ∈ d.pages)
    (id : ObjectId) (key : Bytes) (h : EntriesOf d ps id key) : d.PageEntries id key := by
  obtain ⟨⟨p, hp, hhome⟩, hkey⟩ := h
  exact ⟨⟨p, hps p hp, hhome⟩, hkey⟩

theorem pageEntries_upTo {d : Document α} (h : d.Sound) : PrivateUpTo d.maxNumber d.PageEntries :=
  fun _ _ hk => h.saveKeys_upTo (.inl hk)

/-- Clearing a page changes its dictionary. -/
theorem clearPage_eq_ok {p : ObjectId} {d' : Document α} : clearPage d p = .ok d' ↔
    ∃ home es, d.locate p = .ok (home, .dict es) ∧ d' = d.put home (.dict (clearedEntries d es)) := by
  have hclears : ∀ {home : ObjectId} {es : Dict α}, d.locate p = .ok (home, .dict es) →
      clearPage d p = .ok (d.put home (.dict (clearedEntries d es))) := fun hl => by
    simp only [clearPage, entriesOn_eq hl, bind, Except.bind, updatePage_eq hl]
    rfl
  constructor
  · intro h
    cases hl : d.locateDict p with
    | error e =>
      rw [clearPage, entriesOn, hl] at h
      cases h
    | ok found =>
      obtain ⟨home, es⟩ := found
      have hl := locateDict_eq_ok.mp hl
      rw [hclears hl] at h
      exact ⟨home, es, hl, (Except.ok.inj h).symm⟩
  · rintro ⟨home, es, hl, rfl⟩
    exact hclears hl

/-- What clearing a page keeps is kept when pages are cleared one after another. -/
theorem clearPages_inv {P : Document α → Prop} {ps : List ObjectId}
    (hstep : ∀ p ∈ ps, ∀ d d', P d → clearPage d p = .ok d' → P d') {d' : Document α} (hd : P d)
    (hclear : ps.foldlM clearPage d = .ok d') : P d' := by
  induction ps generalizing d with
  | nil =>
    cases hclear
    exact hd
  | cons p ps ih =>
    rw [List.foldlM_cons] at hclear
    cases hp : clearPage d p with
    | error e =>
      rw [hp] at hclear
      cases hclear
    | ok d₁ =>
      rw [hp] at hclear
      exact ih (fun q hq => hstep q (by simp [hq])) (hstep p (by simp) d d₁ hd hp) hclear

/-- The entries of a cleared page are the same in documents where its contents name streams with the same tags. -/
theorem clearedEntries_congr {d' : Document α} {es : Dict α} (hstreams : Layer.streams d' es = Layer.streams d es)
    (htags : ∀ id ∈ Layer.streams d es, Layer.tag? d' id = Layer.tag? d id) :
    clearedEntries d' es = clearedEntries d es := by
  have hown : ownStreams d' es = ownStreams d es := by
    rw [ownStreams, hstreams]
    exact List.filter_congr fun id hid => by rw [htags id hid]
  rw [clearedEntries, hown, hstreams, clearedEntries]

/-- Clearing a page that is as it was. -/
theorem clearPage_eq (h : d.Sound) {K : ObjectId → Bytes → Prop} {d' : Document α} (he : Edit K d d')
    {p home : ObjectId} (hp : p ∈ d.pages) {es : Dict α} (hl : d.locate p = .ok (home, .dict es))
    (hs : d'.stored? home = some (.dict es)) :
    clearPage d' p = .ok (d'.put home (.dict (clearedEntries d es))) := by
  have hin := h.entriesWithin hp hl
  have hcleared : clearedEntries d' es = clearedEntries d es := by
    refine clearedEntries_congr (Layer.streams_keeps (h.keeps he) h.region hin rfl) fun id hid => ?_
    exact Layer.tag?_keeps (h.keeps he) h.region (Layer.mem_streams h.region hin hid)
  exact clearPage_eq_ok.mpr ⟨home, es, h.locate he hp hl hs, by rw [hcleared]⟩

/-- Clearing a page sets entries of it alone. -/
theorem edit_clearedEntries {d' : Document α} {p home : ObjectId} {es : Dict α} (hp : p ∈ d.pages)
    (hhome : d.home? p = some home) (hs : d'.stored? home = some (.dict es)) :
    Edit d.PageEntries d' (d'.put home (.dict (clearedEntries d es))) := by
  refine .put hs ⟨Syntax.ascii "Annots", ⟨p, hp, hhome⟩, by decide⟩ fun key hkey => ?_
  exact find?_clearedEntries d es fun hmem => hkey ⟨⟨p, hp, hhome⟩, hmem⟩

/-- That in documents with some property a page that is as it was in `d` is cleared, and that the property
stays. -/
def Clears (d : Document α) (P : Document α → Prop) : Prop :=
  ∀ d', P d' → ∀ p ∈ d.pages, ∀ home, ∀ es : Dict α, d.locate p = .ok (home, .dict es) →
    d'.stored? home = some (.dict es) →
    clearPage d' p = .ok (d'.put home (.dict (clearedEntries d es))) ∧
      P (d'.put home (.dict (clearedEntries d es)))

/-- Pages stored at different places are cleared one after another. -/
theorem clearPages_eq (h : d.TreeSound) {P : Document α → Prop} (hclears : Clears d P) {ps : List ObjectId}
    (hps : ∀ p ∈ ps, p ∈ d.pages) (hn : (ps.map d.home?).Nodup) {d' : Document α} (hd' : P d')
    (hs : ∀ p ∈ ps, ∀ home, d.home? p = some home → d'.stored? home = d.stored? home) :
    ∃ c, ps.foldlM clearPage d' = .ok c ∧ P c ∧
      (∀ p ∈ ps, ∀ home, ∀ es : Dict α, d.locate p = .ok (home, .dict es) →
        c.stored? home = some (.dict (clearedEntries d es))) ∧
      ∀ id, (∀ p ∈ ps, d.home? p ≠ some id) → c.stored? id = d'.stored? id := by
  induction ps generalizing d' with
  | nil => exact ⟨d', rfl, hd', by simp, fun _ _ => rfl⟩
  | cons p ps ih =>
    have hp := hps p (by simp)
    obtain ⟨home, es, hl⟩ := h.pages_homes.2 p hp
    have hhome : d.home? p = some home := home?_eq_some.mpr ⟨_, hl⟩
    have hst : d'.stored? home = some (.dict es) := by
      rw [hs p (by simp) home hhome, stored?_of_locate hl]
    obtain ⟨hput, hP⟩ := hclears d' hd' p hp home es hl hst
    rw [List.map_cons, List.nodup_cons] at hn
    have hapart : ∀ q ∈ ps, d.home? q ≠ some home := fun q hq hqh =>
      hn.1 (List.mem_map.mpr ⟨q, hq, hqh.trans hhome.symm⟩)
    obtain ⟨c, hc, hall, hpages, hother⟩ := ih (fun q hq => hps q (by simp [hq])) hn.2 hP
      fun q hq home' hq' => by
        have hne : home ≠ home' := by
          rintro rfl
          exact hapart q hq hq'
        rw [stored?_put_of_ne d' _ hne, hs q (by simp [hq]) home' hq']
    refine ⟨c, by rw [List.foldlM_cons, hput]; exact hc, hall, fun q hq home' es' hlq => ?_, fun id hid => ?_⟩
    · rcases List.mem_cons.mp hq with rfl | hq
      · rw [hl] at hlq
        cases hlq
        rw [hother home hapart, stored?_put_self]
      · exact hpages q hq home' es' hlq
    · have hne : home ≠ id := by
        rintro rfl
        exact hid p (by simp) hhome
      rw [hother id fun q hq => hid q (by simp [hq]), stored?_put_of_ne d' _ hne]

/-- All pages are cleared. -/
theorem Clears.pages {P : Document α → Prop} (hclears : Clears d P) (h : d.TreeSound) (hd : P d) :
    ∃ c, d.pages.foldlM clearPage d = .ok c ∧ P c ∧
      ∀ p ∈ d.pages, ∀ home, ∀ es : Dict α, d.locate p = .ok (home, .dict es) →
        c.stored? home = some (.dict (clearedEntries d es)) := by
  obtain ⟨c, hc, he, hp, -⟩ := clearPages_eq h hclears (fun _ hp => hp) h.pages_homes.1 hd fun _ _ _ _ => rfl
  exact ⟨c, hc, he, hp⟩

/-- All pages are cleared, and nothing else changes. -/
theorem cleared_pages (h : d.Sound) :
    ∃ c, d.pages.foldlM clearPage d = .ok c ∧ Edit d.PageEntries d c ∧
      ∀ p ∈ d.pages, ∀ home, ∀ es : Dict α, d.locate p = .ok (home, .dict es) →
        c.stored? home = some (.dict (clearedEntries d es)) := by
  refine Clears.pages (fun d' he p hp home es hl hs => ⟨clearPage_eq h he hp hl hs, ?_⟩) h.tree (.refl _ d)
  exact he.trans (edit_clearedEntries hp (home?_eq_some.mpr ⟨_, hl⟩) hs)

end MarkWriter

end Marginalia

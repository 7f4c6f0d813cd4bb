import Mathlib.Data.List.Nodup
import Marginalia.Mark.Reader
import Marginalia.Proofs.Mark.Writing

/-!
What a saved document is: the document before, but for the entries of its pages and of its form that saving
sets, with objects of its own added.
-/

namespace Marginalia

namespace MarkWriter

open Document

variable {α : Type} [Scalar α]

/-- That in documents with some property annotations are saved on a page that was cleared, and that the property
stays. -/
def Saves (o : SaveOptions α) (ms : List (Mark α)) (d₀ : Document α) (P : Document α → Prop) (t : Target α) : Prop :=
  ∀ d d', P d → addPage o d t (ms.filter fun m => m.page = t.number) = .ok d' → ∀ home, ∀ es : Dict α,
    d₀.locate t.id = .ok (home, .dict es) → d.stored? home = some (.dict (clearedEntries d₀ es)) →
    P d' ∧ ∃ es' : Dict α, Edit (EntriesOf d₀ [t.id]) d d' ∧ d'.stored? home = some (.dict es') ∧
      PageWritten o d₀ t es (ms.filter fun m => m.page = t.number) d' es'

/-- Annotations are saved page by page, on pages that were cleared. -/
theorem addPages_spec {o : SaveOptions α} {ms : List (Mark α)} {d₀ d d' : Document α} (h : d₀.TreeSound)
    (hupTo : PrivateUpTo d₀.maxNumber d₀.PageEntries) {P : Document α → Prop}
    (hmax : ∀ d, P d → d₀.maxNumber ≤ d.maxNumber) {ts : List (Target α)} (hts : ∀ t ∈ ts, t.id ∈ d₀.pages)
    (hsaves : ∀ t ∈ ts, Saves o ms d₀ P t) (hn : (ts.map fun t => d₀.home? t.id).Nodup)
    (hadd : addPages o ms d ts = .ok d') (hd : P d)
    (hs : ∀ t ∈ ts, ∀ home, ∀ es : Dict α, d₀.locate t.id = .ok (home, .dict es) →
      d.stored? home = some (.dict (clearedEntries d₀ es))) :
    P d' ∧ Edit (EntriesOf d₀ (ts.map Target.id)) d d' ∧
      ∀ t ∈ ts, ∀ home, ∀ es : Dict α, d₀.locate t.id = .ok (home, .dict es) →
        ∃ es' : Dict α, d'.stored? home = some (.dict es') ∧
          PageWritten o d₀ t es (ms.filter fun m => m.page = t.number) d' es' := by
  induction ts generalizing d with
  | nil =>
    cases hadd
    exact ⟨hd, .refl _ _, by simp⟩
  | cons t ts ih =>
    have ht := hts t (by simp)
    obtain ⟨home, es, hl⟩ := h.pages_homes.2 t.id ht
    have hhome : d₀.home? t.id = some home := home?_eq_some.mpr ⟨_, hl⟩
    have hupTo' : ∀ q : Target α, q.id ∈ d₀.pages → ∀ home', d₀.home? q.id = some home' → d₀.InUse home' :=
      fun q hq home' hq' => hupTo home' (Syntax.ascii "Annots") ⟨⟨q.id, hq, hq'⟩, by decide⟩
    simp only [addPages, bind, Except.bind] at hadd
    split at hadd
    · cases hadd
    rename_i d₁ hpage
    obtain ⟨hd₁, es', hedit, hs', hwritten⟩ :=
      hsaves t (by simp) d d₁ hd hpage home es hl (hs t (by simp) home es hl)
    rw [List.map_cons, List.nodup_cons] at hn
    have hapart : ∀ q ∈ ts, d₀.home? q.id ≠ some home := fun q hq hqh =>
      hn.1 (List.mem_map.mpr ⟨q, hq, hqh.trans hhome.symm⟩)
    have hrest : ∀ id key, EntriesOf d₀ (ts.map Target.id) id key → d₀.PageEntries id key := by
      refine entriesOf_page fun p hp => ?_
      obtain ⟨q, hq, rfl⟩ := List.mem_map.mp hp
      exact hts q (by simp [hq])
    obtain ⟨hd', hedit', hall⟩ := ih (fun q hq => hts q (by simp [hq])) (fun q hq => hsaves q (by simp [hq]))
      hn.2 hadd hd₁ fun q hq home' es₀ hlq => by
        have hq' : d₀.home? q.id = some home' := home?_eq_some.mpr ⟨_, hlq⟩
        have huse : d.InUse home' := Nat.le_trans (hupTo' q (hts q (by simp [hq])) home' hq') (hmax d hd)
        rw [hedit.stored huse, hs q (by simp [hq]) home' es₀ hlq]
        rintro key ⟨⟨p, hp, hp'⟩, -⟩
        rw [List.mem_singleton.mp hp, hhome] at hp'
        cases hp'
        exact hapart q hq hq'
    have hkeep : ∀ key, ¬ EntriesOf d₀ (ts.map Target.id) home key := by
      rintro key ⟨⟨p, hp, hp'⟩, -⟩
      obtain ⟨q, hq, rfl⟩ := List.mem_map.mp hp
      exact hapart q hq hp'
    refine ⟨hd', (hedit.mono ?_).trans (hedit'.mono ?_), fun q hq home' es₀ hlq => ?_⟩
    · rintro id key ⟨⟨p, hp, hp'⟩, hkey⟩
      exact ⟨⟨p, by simp [List.mem_singleton.mp hp], hp'⟩, hkey⟩
    · rintro id key ⟨⟨p, hp, hp'⟩, hkey⟩
      exact ⟨⟨p, by simp [hp], hp'⟩, hkey⟩
    · rcases List.mem_cons.mp hq with rfl | hq
      · rw [hl] at hlq
        cases hlq
        have huse : d₁.InUse home := Nat.le_trans (hupTo' q ht home hhome) (hmax d₁ hd₁)
        refine ⟨es', (hedit'.stored huse hkeep).trans hs', hwritten.edit hedit' ?_ fun _ _ => rfl⟩
        exact fun id key hkey => hupTo id key (hrest id key hkey)
      · exact hall q hq home' es₀ hlq

/-- The annotations of a page are saved on it in a document that only its pages differ in from a sound one. -/
theorem saves_of_sound {o : SaveOptions α} {ms : List (Mark α)} {d₀ : Document α} (h : d₀.Sound) {t : Target α}
    (ht : t.id ∈ d₀.pages) : Saves o ms d₀ (Edit d₀.PageEntries d₀) t := by
  intro d d' he hadd home es hl hs
  obtain ⟨es', hedit, hs', hwritten⟩ := addPage_spec ⟨h, ht, hl, he, hs⟩ hadd
  exact ⟨he.trans (hedit.mono (entriesOf_page (by simpa using ht))), es', hedit, hs', hwritten⟩

/-- The targets are the pages that have a frame. -/
theorem mem_targets {d : Document α} {t : Target α} (ht : t ∈ targets d) :
    (t.number, t.id) ∈ d.numberedPages ∧ d.frame t.id = .ok t.frame ∧
      t.resources = d.pageResources t.id := by
  obtain ⟨⟨number, id⟩, hm, hsome⟩ := List.mem_filterMap.mp ht
  simp only at hsome
  split at hsome
  · rename_i frame hframe
    obtain rfl := Option.some.inj hsome
    exact ⟨hm, hframe, rfl⟩
  · cases hsome

theorem targets_sublist (d : Document α) : ((targets d).map Target.id).Sublist d.pages := by
  have hpages : d.numberedPages.map Prod.snd = d.pages := by
    unfold numberedPages
    rw [List.map_snd_zip]
    simp
  rw [← hpages]
  unfold targets
  generalize d.numberedPages = numbered
  induction numbered with
  | nil => exact List.Sublist.refl _
  | cons e numbered ih =>
    obtain ⟨number, id⟩ := e
    cases hf : d.frame id with
    | error e =>
      simp only [List.filterMap_cons, hf, List.map_cons]
      exact ih.cons _
    | ok frame =>
      simp only [List.filterMap_cons, hf, List.map_cons]
      exact ih.cons_cons _

theorem id_mem_pages {d : Document α} {t : Target α} (ht : t ∈ targets d) : t.id ∈ d.pages :=
  (targets_sublist d).subset (List.mem_map_of_mem ht)

/-- The pages that annotations are saved on are stored at different places. -/
theorem targets_homes {d : Document α} (h : d.TreeSound) : ((targets d).map fun t => d.home? t.id).Nodup := by
  have hsub := (targets_sublist d).map d.home?
  rw [List.map_map] at hsub
  exact hsub.nodup h.pages_homes.1

end MarkWriter

namespace InteractiveForm

open Document

variable {α : Type}

theorem find?_prepared (helvetica : ObjectId) (form : Dict α) {key : Bytes}
    (hneed : Syntax.ascii "NeedAppearances" ≠ key) (hresources : Syntax.ascii "DR" ≠ key) :
    (prepared helvetica form).find? key = form.find? key := by
  unfold prepared
  simp only
  split <;> simp only [Dict.set, Dict.find?_setBytes, hneed, hresources, if_false]

theorem find?_preparedIn (helvetica : ObjectId) (catalog : Dict α) {key : Bytes}
    (h : key ∉ formKeys.map Syntax.ascii) :
    (preparedIn helvetica catalog).find? key = catalog.find? key := by
  have hform : Syntax.ascii "AcroForm" ≠ key := fun he => h (by simp [formKeys, ← he])
  unfold preparedIn
  exact (Dict.find?_setBytes _ _ _ _).trans (if_neg hform)

/-- Helvetica, which is added with the form. -/
def withHelveticaFont (d : Document α) : Document α × ObjectId :=
  d.add (.dict (FontSource.simpleFont (.nameOf "Helvetica")))

/-- That the form of a document to which Helvetica was added is prepared by a change of the dictionary behind a number:
the form dictionary that the catalog refers to, or else the catalog. -/
def Prepares (d : Document α) (root id : ObjectId) (f : Dict α → Dict α) : Prop :=
  (((withHelveticaFont d).1.getDict? root).bind (·.get? "AcroForm") = some (.ref id) ∧
      f = prepared (withHelveticaFont d).2) ∨
    id = root ∧ f = preparedIn (withHelveticaFont d).2 ∧
      (((withHelveticaFont d).1.getDict? root).bind (·.get? "AcroForm")).bind Object.ref? = none

theorem root_eq_ok {d : Document α} {id : ObjectId} : root d = .ok id ↔ d.trailer.get? "Root" = some (.ref id) := by
  unfold root
  cases d.trailer.get? "Root" with
  | none => simp
  | some v => cases v <;> simp

/-- What seeing to a form does: it prepares the form dictionary that the catalog refers to, or it sets one in the
catalog. -/
theorem ensure_cases {d d' : Document α} (hd : ensure d = .ok d') :
    ∃ root, d.trailer.get? "Root" = some (.ref root) ∧ ∃ id home, ∃ es : Dict α, ∃ f,
      (withHelveticaFont d).1.locate id = .ok (home, .dict es) ∧
      d' = (withHelveticaFont d).1.put home (.dict (f es)) ∧ Prepares d root id f := by
  unfold ensure at hd
  cases hroot : InteractiveForm.root d with
  | error e =>
    rw [hroot] at hd
    cases hd
  | ok root =>
    rw [hroot] at hd
    refine ⟨root, root_eq_ok.mp hroot, ?_⟩
    simp only at hd
    split at hd
    · rename_i d₁ hupdated
      obtain rfl := Except.ok.inj hd
      split at hupdated
      · rename_i form href
        obtain ⟨w, hw, hwr⟩ := Option.bind_eq_some_iff.mp href
        cases w <;> cases hwr
        obtain ⟨home, es, hl, rfl⟩ := modifyDict_eq_ok.mp hupdated
        exact ⟨form, home, es, _, hl, rfl, .inl ⟨hw, rfl⟩⟩
      · rename_i hnone
        obtain ⟨home, es, hl, rfl⟩ := modifyDict_eq_ok.mp hupdated
        exact ⟨root, home, es, _, hl, rfl, .inr ⟨rfl, rfl, hnone⟩⟩
    · cases hd

/-- A form is prepared where it is, or in the catalog. -/
theorem ensure_of_root {d : Document α} {root id home : ObjectId} {es : Dict α} {f : Dict α → Dict α}
    (hroot : d.trailer.get? "Root" = some (.ref root)) (hid : Prepares d root id f)
    (hl : (withHelveticaFont d).1.locate id = .ok (home, .dict es)) :
    ensure d = .ok ((withHelveticaFont d).1.put home (.dict (f es))) := by
  have hupdated : ∀ g,
      (withHelveticaFont d).1.modifyDict id g = .ok ((withHelveticaFont d).1.put home (.dict (g es))) :=
    fun g => modifyDict_eq_ok.mpr ⟨home, es, hl, rfl⟩
  unfold Prepares at hid
  unfold withHelveticaFont at hid hupdated ⊢
  unfold ensure
  rcases hid with ⟨hform, rfl⟩ | ⟨rfl, rfl, hnone⟩
  · simp only [root_eq_ok.mpr hroot, Option.bind_some, Object.ref?, hform, hupdated]
    rfl
  · simp only [root_eq_ok.mpr hroot, hnone, hupdated]
    rfl

/-- Preparing the form of a document whose pages were changed sets entries of the catalog and of the form
alone. -/
theorem ensure_spec {d₀ d d' : Document α} (h : d₀.Sound) (he : Edit d₀.PageEntries d₀ d)
    (hd : ensure d = .ok d') : Edit d₀.FormEntries d d' := by
  obtain ⟨root, hroot, id, home, es, f, hl, rfl, hid⟩ := ensure_cases hd
  have hadded : Grows d (withHelveticaFont d).1 := .add _ _ _
  have hkeeps := h.keeps (he.trans (hadded.edit _))
  have hroot₀ : d₀.trailer.get? "Root" = some (.ref root) := by rwa [he.trailer] at hroot
  have hin : root ∈ d₀.reachable := h.region.root root hroot₀
  have hform : ((withHelveticaFont d).1.getDict? root).bind (·.get? "AcroForm") =
      (d₀.getDict? root).bind (·.get? "AcroForm") :=
    hkeeps.entry h.region hin fun home hk => absurd hk.2 (by decide)
  have hhome : id ∈ d₀.reachable → d₀.home? id = some home := fun hmem =>
    (hkeeps.home? h.region hmem).symm.trans (home?_eq_some.mpr ⟨_, hl⟩)
  have hset : d₀.IsFormHome home ∧
      ∀ key ∉ formKeys.map Syntax.ascii, (f es).find? key = es.find? key := by
    rcases hid with ⟨href, rfl⟩ | ⟨rfl, rfl, -⟩
    · have href₀ := hform.symm.trans href
      obtain ⟨entries, hentries, hentry⟩ := Option.bind_eq_some_iff.mp href₀
      have hreach := h.region.entry hin hentries hentry id (by simp [Object.references])
      refine ⟨⟨root, hroot₀, .inr ⟨id, href₀, hhome hreach⟩⟩, fun key hkey => find?_prepared _ _ ?_ ?_⟩
      · exact fun he => hkey (by simp [formKeys, ← he])
      · exact fun he => hkey (by simp [formKeys, ← he])
    · exact ⟨⟨id, hroot₀, .inl (hhome hin)⟩, fun key hkey => find?_preparedIn _ _ hkey⟩
  refine (hadded.edit _).trans (.put (stored?_of_locate hl) ⟨Syntax.ascii "DR", hset.1, by decide⟩ ?_)
  exact fun key hkey => hset.2 key fun hmem => hkey ⟨hset.1, hmem⟩

/-- A form dictionary that the catalog refers to afterwards is the one that it referred to. -/
theorem ensure_form {d₀ d d' : Document α} (h : d₀.Sound) (he : Edit d₀.PageEntries d₀ d)
    (hd : ensure d = .ok d') {root form : ObjectId} (hroot₀ : d₀.trailer.get? "Root" = some (.ref root))
    (hform : (d'.getDict? root).bind (·.get? "AcroForm") = some (.ref form)) :
    (d₀.getDict? root).bind (·.get? "AcroForm") = some (.ref form) := by
  have hin : root ∈ d₀.reachable := h.region.root root hroot₀
  have hpages : ∀ home, ¬ d₀.PageEntries home (Syntax.ascii "AcroForm") := fun home hk =>
    absurd hk.2 (by decide)
  obtain ⟨root', hroot, id, home, es, f, hl, rfl, hid⟩ := ensure_cases hd
  obtain rfl : root = root' := by
    rw [he.trailer, hroot₀] at hroot
    cases hroot
    rfl
  have hadded : Grows d (withHelveticaFont d).1 := .add _ _ _
  have hedit := he.trans (hadded.edit _)
  rcases hid with ⟨-, rfl⟩ | ⟨rfl, rfl, -⟩
  · let other : ObjectId → Bytes → Prop := fun _ key => key ≠ Syntax.ascii "AcroForm"
    have hput : Edit other (withHelveticaFont d).1
        ((withHelveticaFont d).1.put home (.dict (prepared (withHelveticaFont d).2 es))) := by
      refine .put (stored?_of_locate hl) ⟨[], by decide⟩ fun key hk => ?_
      obtain rfl : key = Syntax.ascii "AcroForm" := Classical.not_not.mp hk
      exact find?_prepared _ _ (by decide) (by decide)
    have hother : ∀ id key, d₀.PageEntries id key → other id key := by
      rintro id key hk rfl
      exact hpages id hk
    have hall : Edit other d₀ _ := (hedit.mono hother).trans hput
    exact ((h.keeps hall).entry h.region hin fun _ hk => hk rfl).symm.trans hform
  · -- The catalog has a form dictionary in it, which is no reference.
    have hhome : ((withHelveticaFont d).1.put home (.dict (preparedIn (withHelveticaFont d).2 es))).locate
        id = .ok (home, .dict (preparedIn (withHelveticaFont d).2 es)) := by
      have hput : Edit (fun _ _ => True) (withHelveticaFont d).1
          ((withHelveticaFont d).1.put home (.dict (preparedIn (withHelveticaFont d).2 es))) :=
        .put (stored?_of_locate hl) ⟨[], trivial⟩ fun _ hk => absurd trivial hk
      have hsame := (h.keeps ((hedit.mono fun _ _ _ => trivial).trans hput)).home? h.region hin
      rw [← (h.keeps hedit).home? h.region hin, home?_eq_some.mpr ⟨_, hl⟩] at hsame
      exact locate_of_home? hsame (stored?_put_self _ _ _)
    rw [getDict?_eq_some.mpr ⟨home, hhome⟩, Option.bind_some, preparedIn, Dict.get?_set_self] at hform
    cases hform

end InteractiveForm

namespace Document

open MarkWriter

variable {α : Type}

/-- Pages with the same identifier have the same number. -/
theorem TreeSound.number_eq {d : Document α} (h : d.TreeSound) {m n : Nat} {p : ObjectId} (hm : d.page m = .ok p)
    (hn : d.page n = .ok p) : m = n := by
  obtain ⟨i, rfl, hi⟩ := page_eq_ok.mp hm
  obtain ⟨j, rfl, hj⟩ := page_eq_ok.mp hn
  have hnodup : d.pages.Nodup := h.pages_homes.1.of_map
  have hlt := (List.getElem?_eq_some_iff.mp hi).1
  rw [(List.getElem?_inj hlt hnodup).mp (hi.trans hj.symm)]

variable [Scalar α]

/-- The annotations of a document that has the pages and frames of another one, by the pages that those of the other
one are saved on. -/
theorem marks_on_targets {d d' : Document α} (hpages : d'.pages = d.pages)
    (hframe : ∀ p ∈ d.pages, d'.frame p = d.frame p) :
    d'.marks = (targets d).flatMap fun t => d'.pageMarks t.number t.id t.frame := by
  have hnumbered : d'.numberedPages = d.numberedPages := by simp only [numberedPages, hpages]
  have hmem : ∀ e ∈ d.numberedPages, e.2 ∈ d.pages := fun e he => (List.of_mem_zip he).2
  unfold Document.marks targets
  rw [hnumbered]
  generalize d.numberedPages = numbered at hmem
  induction numbered with
  | nil => rfl
  | cons e numbered ih =>
    obtain ⟨number, id⟩ := e
    rw [List.flatMap_cons, ih fun e he => hmem e (by simp [he])]
    simp only [hframe id (hmem (number, id) (by simp))]
    cases hf : d.frame id with
    | error e => simp only [List.filterMap_cons, hf, List.nil_append]
    | ok frame => simp only [List.filterMap_cons, hf, List.flatMap_cons]

/-- What saving annotations in a document makes of it, objects that are no longer referred to included. -/
structure Saved (o : SaveOptions α) (d : Document α) (ms : List (Mark α)) (d' : Document α) : Prop where
  edit : Edit d.SaveKeys d d'
  written : ∀ t ∈ targets d, ∀ home, ∀ es : Dict α, d.locate t.id = .ok (home, .dict es) →
    ∃ es' : Dict α, d'.stored? home = some (.dict es') ∧
      PageWritten o d t es (ms.filter fun m => m.page = t.number) d' es'
  cleared : ∀ p ∈ d.pages, p ∉ (targets d).map Target.id →
    ∀ home, ∀ es : Dict α, d.locate p = .ok (home, .dict es) →
      ∃ es' : Dict α, d'.stored? home = some (.dict es') ∧ SameEntries (clearedEntries d es) es'
  form : ∀ root form, d.trailer.get? "Root" = some (.ref root) →
    (d'.getDict? root).bind (·.get? "AcroForm") = some (.ref form) →
    (d.getDict? root).bind (·.get? "AcroForm") = some (.ref form)

/-- Whether there are annotations with objects of their own for some pages. -/
def hasObjects (ts : List (Target α)) (ms : List (Mark α)) : Bool :=
  ms.any fun m => m.kind != .ocrText && (ts.map Target.number).contains m.page

/-- The steps of saving. -/
theorem save_eq (o : SaveOptions α) (d : Document α) (ms : List (Mark α)) : d.save o ms =
    (d.pages.foldlM clearPage d).bind fun cleared => (addPages o ms cleared (targets d)).bind fun written =>
      (if hasObjects (targets d) ms then InteractiveForm.ensure written else .ok written).bind fun d' =>
        .ok d'.prune := by
  simp only [save, bind, Except.bind]
  cases d.pages.foldlM clearPage d with
  | error e => rfl
  | ok cleared =>
    simp only
    cases addPages o ms cleared (targets d) with
    | error e => rfl
    | ok written =>
      simp only
      by_cases hobjects : hasObjects (targets d) ms = true
      · rw [if_pos hobjects, if_pos (show ms.any _ = true from hobjects)]
        rfl
      · rw [if_neg hobjects, if_neg (show ¬ ms.any _ = true from hobjects)]
        rfl

/-- Saving clears the pages, writes on them, sees to the form if there are annotation objects, and leaves out what is
no longer referred to. -/
theorem save_eq_ok {o : SaveOptions α} {d w : Document α} {ms : List (Mark α)} : d.save o ms = .ok w ↔
    ∃ cleared written d', d.pages.foldlM clearPage d = .ok cleared ∧
      addPages o ms cleared (targets d) = .ok written ∧
      (if hasObjects (targets d) ms then InteractiveForm.ensure written else .ok written) = .ok d' ∧
      d'.prune = w := by
  rw [save_eq]
  constructor
  · intro hs
    cases hcleared : d.pages.foldlM clearPage d with
    | error e =>
      rw [hcleared] at hs
      cases hs
    | ok cleared =>
      rw [hcleared, Except.bind] at hs
      cases hwritten : addPages o ms cleared (targets d) with
      | error e =>
        rw [hwritten] at hs
        cases hs
      | ok written =>
        rw [hwritten, Except.bind] at hs
        cases hform : (if hasObjects (targets d) ms then InteractiveForm.ensure written else .ok written) with
        | error e =>
          rw [hform] at hs
          cases hs
        | ok d' =>
          rw [hform] at hs
          exact ⟨cleared, written, d', rfl, hwritten, hform, Except.ok.inj hs⟩
  · rintro ⟨cleared, written, d', hcleared, hwritten, hform, rfl⟩
    rw [hcleared, Except.bind, hwritten, Except.bind, hform]
    rfl

/-- A document that was written on and whose form was seen to is the document with exactly the annotations it was
saved with. -/
theorem saved_of_written {o : SaveOptions α} {d cleared written d' : Document α} {ms : List (Mark α)} (h : d.Sound)
    (hclear : d.pages.foldlM clearPage d = .ok cleared) (hwritten : addPages o ms cleared (targets d) = .ok written)
    (hform : (if hasObjects (targets d) ms then InteractiveForm.ensure written else .ok written) = .ok d') :
    Saved o d ms d' := by
  obtain ⟨c, hc, hcleared, hpages⟩ := cleared_pages h
  obtain rfl : c = cleared := Except.ok.inj (hc.symm.trans hclear)
  have hids : ∀ t ∈ targets d, t.id ∈ d.pages := fun t ht => id_mem_pages ht
  obtain ⟨-, hedit, hall⟩ := addPages_spec h.tree (pageEntries_upTo h) (fun _ he => he.maxNumber) hids
    (fun t ht => saves_of_sound h (hids t ht)) (targets_homes h.tree) hwritten hcleared fun t ht home es hl =>
      hpages t.id (hids t ht) home es hl
  have hupTo : PrivateUpTo d.maxNumber d.SaveKeys := fun id key hk => h.saveKeys_upTo hk
  have hpageEdit : Edit d.PageEntries d written := hcleared.trans (hedit.mono (entriesOf_page
    fun p hp => (targets_sublist d).subset hp))
  have hform : Edit d.FormEntries written d' ∧ ∀ root form, d.trailer.get? "Root" = some (.ref root) →
      (d'.getDict? root).bind (·.get? "AcroForm") = some (.ref form) →
      (d.getDict? root).bind (·.get? "AcroForm") = some (.ref form) := by
    split at hform
    · exact ⟨InteractiveForm.ensure_spec h hpageEdit hform, fun root form =>
        InteractiveForm.ensure_form h hpageEdit hform⟩
    · obtain rfl := Except.ok.inj hform
      refine ⟨.refl _ _, fun root form hroot he => ?_⟩
      have hsame : (written.getDict? root).bind (·.get? "AcroForm") =
          (d.getDict? root).bind (·.get? "AcroForm") :=
        (h.keeps hpageEdit).entry h.region (h.region.root root hroot) fun home hk => absurd hk.2 (by decide)
      exact hsame.symm.trans he
  obtain ⟨hform, hreferred⟩ := hform
  have hkeep : ∀ home, d.InUse home → ∀ es : Dict α, written.stored? home = some (.dict es) →
      ∃ es' : Dict α, d'.stored? home = some (.dict es') ∧ SameEntries es es' := by
    intro home huse es hstored
    obtain ⟨es', hs', hef⟩ := hform.dict (hpageEdit.inUse huse) hstored
    refine ⟨es', hs', fun key hkey => hef _ ?_⟩
    rintro ⟨-, hmem⟩
    revert key
    decide
  refine ⟨?_, fun t ht home es hl => ?_, fun p hp hnot home es hl => ?_, hreferred⟩
  · exact (hpageEdit.mono fun _ _ hk => .inl hk).trans (hform.mono fun _ _ hk => .inr hk)
  · obtain ⟨es', hs', hpw⟩ := hall t ht home es hl
    obtain ⟨es'', hs'', hsame⟩ := hkeep home (h.home_inUse (hids t ht) hl) es' hs'
    exact ⟨es'', hs'', hpw.edit hform (fun id key hk => hupTo id key (.inr hk)) hsame⟩
  · have hapart : ∀ key, ¬ EntriesOf d ((targets d).map Target.id) home key := by
      rintro key ⟨⟨q, hq, hqhome⟩, -⟩
      have hsame : q = p := List.inj_on_of_nodup_map h.tree.pages_homes.1
        ((targets_sublist d).subset hq) hp (hqhome.trans (home?_eq_some.mpr ⟨_, hl⟩).symm)
      exact hnot (hsame ▸ hq)
    have huse := h.home_inUse hp hl
    have hwritten' : written.stored? home = some (.dict (clearedEntries d es)) :=
      (hedit.stored (hcleared.inUse huse) hapart).trans (hpages p hp home es hl)
    exact hkeep home huse _ hwritten'

/-- A saved document is the document with exactly the annotations it was saved with. -/
theorem save_spec {o : SaveOptions α} {d w : Document α} {ms : List (Mark α)} (h : d.Sound)
    (hs : d.save o ms = .ok w) : ∃ d', w = d'.prune ∧ Saved o d ms d' := by
  obtain ⟨cleared, written, d', hcleared, hwritten, hform, rfl⟩ := save_eq_ok.mp hs
  exact ⟨d', rfl, saved_of_written h hcleared hwritten hform⟩

end Document

end Marginalia

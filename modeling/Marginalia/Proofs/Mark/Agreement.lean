import Mathlib.Data.List.Basic
import Marginalia.Mark.Reader
import Marginalia.Proofs.Document.Reachability
import Marginalia.Proofs.Document.Resources

/-!
Documents that have the same objects where their pages lead have the same annotations and the same text.
What is read from a document is so what is read from the one that its file is loaded as.
-/

namespace Marginalia

namespace Document

variable {α : Type} {R : ObjectId → Prop} {d d' : Document α}

namespace Agree

theorem deref (h : Agree R d d') (hr : d.Region R) {v : Object α} (hv : ∀ r ∈ v.references, R r) :
    d'.deref v = d.deref v :=
  Keeps.deref_apart h hr hv fun _ _ _ _ _ hf => hf

theorem getDict? (h : Agree R d d') (hr : d.Region R) {id : ObjectId} (hid : R id) :
    d'.getDict? id = d.getDict? id := by
  rcases Keeps.get? h hr hid with ⟨ha, hb⟩ | ⟨_, v, w, _, ha, hb, hvw⟩
  · simp only [Document.getDict?, ha, hb]
  · simp only [Document.getDict?, ha, hb, hvw.eq fun _ hf => hf]

theorem get? (h : Agree R d d') (hr : d.Region R) {id : ObjectId} (hid : R id) :
    d'.get? id = d.get? id := by
  rcases Keeps.get? h hr hid with ⟨ha, hb⟩ | ⟨_, v, w, _, ha, hb, hvw⟩
  · rw [ha, hb]
  · rw [ha, hb, hvw.eq fun _ hf => hf]

theorem publicTree : PublicTree fun _ _ => False :=
  ⟨fun _ hf => hf, fun _ hf => hf, fun _ hf => hf, fun _ hf => hf, fun _ hf => hf, fun _ hf => hf,
    fun _ hf => hf⟩

theorem publicResources : PublicResources fun _ _ => False :=
  ⟨fun _ hf => hf, fun _ hf => hf, fun _ hf => hf, fun _ hf => hf⟩

end Agree

end Document

namespace Layer

variable {α : Type} {R : ObjectId → Prop} {d d' : Document α}

theorem mem_streams {entries : Dict α} (hr : d.Region R) (hin : Document.EntriesWithin R entries)
    {id : ObjectId} (h : id ∈ streams d entries) : R id := by
  have hitems : ∀ items : List (Object α), (∀ v ∈ items, ∀ r ∈ v.references, R r) →
      id ∈ items.filterMap Object.ref? → R id := by
    intro items hi hm
    obtain ⟨v, hv, hid⟩ := List.mem_filterMap.mp hm
    cases v <;> cases hid
    exact hi _ hv id (by simp [Object.references])
  unfold streams at h
  cases hc : entries.get? "Contents" with
  | none => simp [hc] at h
  | some v =>
    have hv := hin _ v hc
    cases v with
    | ref i =>
      cases hg : d.get? i with
      | none =>
        simp only [hc, hg, List.mem_singleton] at h
        exact h ▸ hv i (by simp [Object.references])
      | some w =>
        cases w with
        | array items =>
          simp only [hc, hg] at h
          refine hitems items (hr.items (v := .ref i) hv ?_) h
          simp [Document.deref, hg, Object.array?]
        | _ =>
          simp only [hc, hg, List.mem_singleton] at h
          exact h ▸ hv i (by simp [Object.references])
    | array items =>
      simp only [hc] at h
      exact hitems items (fun w hw r hrw => hv r (by
        simpa [Object.references] using Object.mem_itemReferences hw hrw)) h
    | _ => simp [hc] at h

/-- The content streams of a page are the same where its contents are. -/
theorem streams_keeps {K : ObjectId → Bytes → Prop} (h : Document.Keeps K R d d') (hr : d.Region R)
    {es fs : Dict α} (hin : Document.EntriesWithin R es)
    (hc : fs.get? "Contents" = es.get? "Contents") : streams d' fs = streams d es := by
  unfold streams
  rw [hc]
  cases hv : es.get? "Contents" with
  | none => simp only
  | some v =>
    cases v with
    | ref id =>
      rcases h.get? hr (hin _ _ hv id (by simp [Object.references])) with
        ⟨ha, hb⟩ | ⟨_, v, w, _, ha, hb, hvw⟩
      · simp only [ha, hb]
      · simp only [ha, hb]
        cases hvw <;> rfl
    | _ => rfl

theorem tag?_keeps {K : ObjectId → Bytes → Prop} (h : Document.Keeps K R d d') (hr : d.Region R)
    {id : ObjectId} (hid : R id) : tag? d' id = tag? d id := by
  unfold tag?
  rw [h.getStream? hr hid]

end Layer

namespace MarkReader

variable {α : Type} {R : ObjectId → Prop} {d d' : Document α}

theorem text?_agree (h : Document.Agree R d d') (hr : d.Region R) {entries : Dict α}
    (hin : Document.EntriesWithin R entries) (key : String) :
    text? d' entries key = text? d entries key := by
  unfold text?
  cases hv : entries.get? key with
  | none => simp only [Option.map_none]
  | some v => simp only [Option.map_some, h.deref hr (hin _ v hv)]

variable [Scalar α]

theorem numbers?_agree (h : Document.Agree R d d') (hr : d.Region R) {entries : Dict α}
    (hin : Document.EntriesWithin R entries) (key : String) :
    numbers? d' entries key = numbers? d entries key := by
  unfold numbers?
  cases hv : entries.get? key with
  | none => simp only [Option.bind_eq_bind, Option.bind_none]
  | some v =>
    simp only [Option.bind_eq_bind, Option.bind_some, h.deref hr (hin _ v hv)]
    cases hitems : (d.deref v).array? with
    | none => simp only [Option.bind_none]
    | some items =>
      simp only [Option.bind_some]
      exact Document.Keeps.numbers? h hr (hr.items (hin _ v hv) hitems)

theorem mark?_agree (h : Document.Agree R d d') (hr : d.Region R) {entries : Dict α}
    (hin : Document.EntriesWithin R entries) (frame : PageFrame α) (page : Nat) :
    mark? d' frame page entries = mark? d frame page entries := by
  simp only [mark?, rect?, color?, id, withStyle, text, text?_agree h hr hin,
    numbers?_agree h hr hin]

theorem objects_agree (h : Document.Agree R d d') (hr : d.Region R) {entries : Dict α}
    (hin : Document.EntriesWithin R entries) (frame : PageFrame α) (page : Nat) :
    objects d' frame page entries = objects d frame page entries := by
  unfold objects
  cases hv : entries.get? "Annots" with
  | none => simp only [Option.map_none, Option.bind_none]
  | some v =>
    simp only [Option.map_some, h.deref hr (hin _ v hv)]
    cases hitems : (d.deref v).array? with
    | none => simp only [Option.bind_some, hitems]
    | some items =>
      simp only [Option.bind_some, hitems]
      apply List.filterMap_congr
      intro w hw
      have hrefs := hr.items (hin _ v hv) hitems w hw
      rw [h.deref hr hrefs]
      cases hdict : (d.deref w).dict? with
      | none => simp only [Option.bind_none]
      | some es =>
        simp only [Option.bind_some]
        exact mark?_agree h hr (Document.entriesWithin_of_dict (hr.deref hrefs) hdict) frame page

theorem layerPrograms_agree (h : Document.Agree R d d') (hr : d.Region R) {entries : Dict α}
    (hin : Document.EntriesWithin R entries) :
    layerPrograms d' entries = layerPrograms d entries := by
  unfold layerPrograms
  rw [Layer.streams_keeps h hr hin rfl]
  have hids : ∀ id ∈ Layer.streams d entries, R id := fun id hid => Layer.mem_streams hr hin hid
  rw [List.filter_congr fun id hid => by rw [Layer.tag?_keeps h hr (hids id hid)]]
  apply List.filterMap_congr
  intro id hid
  rw [Document.Keeps.getStream? h hr (hids id (List.mem_of_mem_filter hid))]

end MarkReader

namespace Document

variable {α : Type} {R : ObjectId → Prop} {d d' : Document α}

/-- The resources of a page are the same. -/
theorem Agree.resources?_page (h : Agree R d d') (hr : d.Region R) {p : ObjectId} (hp : R p) :
    ResourcesAlike (fun _ _ => False) R (d.resources? (.page p)) (d'.resources? (.page p)) := by
  have hdict := h.getDict? hr hp
  cases he : d.getDict? p with
  | none =>
    simp only [resources?, hdict, he, Option.bind_eq_bind, Option.bind_none]
    exact .inl ⟨rfl, rfl⟩
  | some es =>
    exact Keeps.resources?_page h hr hp he (hdict.trans he) rfl rfl (fun _ _ hf => hf) fun _ hf => hf

/-- The content of a page is the same. -/
theorem Agree.pageContent (h : Agree R d d') (hr : d.Region R) {p : ObjectId} (hp : R p) :
    d'.pageContent p = d.pageContent p := by
  have hstreams : ∀ steps (v : Object α), (∀ r ∈ v.references, R r) →
      d'.streamsOf steps v = d.streamsOf steps v ∧ ∀ id ∈ d.streamsOf steps v, R id := by
    intro steps
    induction steps with
    | zero => exact fun v _ => ⟨rfl, by simp [streamsOf]⟩
    | succ steps ih =>
      intro v hv
      cases v with
      | ref id =>
        have hid : R id := hv id (by simp [Object.references])
        have hst := Agree.stored? h hid
        cases hs : d.stored? id with
        | none =>
          rw [hs] at hst
          simp only [streamsOf, hs, hst, true_and, List.mem_singleton, forall_eq]
          exact hid
        | some w =>
          rw [hs] at hst
          have hw := ih w (hr.closed id w hid hs)
          cases w with
          | stream entries data =>
            simp only [streamsOf, hs, hst, true_and, List.mem_singleton, forall_eq]
            exact hid
          | _ => simpa only [streamsOf, hs, hst] using hw
      | array items =>
        refine ⟨rfl, fun id hid => ?_⟩
        obtain ⟨w, hw, hid⟩ := List.mem_filterMap.mp hid
        cases w <;> cases hid
        exact hv _ (by simpa [Object.references] using
          Object.mem_itemReferences hw (by simp [Object.references]))
      | _ => exact ⟨rfl, by simp [streamsOf]⟩
  unfold Document.pageContent
  rw [h.getDict? hr hp]
  cases he : (d.getDict? p).bind (·.get? "Contents") with
  | none => simp only
  | some contents =>
    obtain ⟨entries, hd, hc⟩ := Option.bind_eq_some_iff.mp he
    obtain ⟨heq, hin⟩ := hstreams maxContentSteps contents (hr.entry hp hd hc)
    simp only [heq]
    apply List.flatMap_congr
    intro id hid
    simp only [contentData, Keeps.getStream? h hr (hin id hid)]

variable [Scalar α]

omit [Scalar α] in
/-- What a name stands for on a page is the same. -/
theorem Agree.resource? (h : Agree R d d') (hr : d.Region R) {p : ObjectId} (hp : R p) (category : String)
    (name : Bytes) : d'.resource? (.page p) category name = d.resource? (.page p) category name :=
  Keeps.resource?_alike h hr (h.resources?_page hr hp) (fun _ hf => hf) (fun _ _ _ _ _ _ _ hf => hf) name

/-- Programs of a page find the same. -/
theorem Agree.finds (h : Agree R d d') (hr : d.Region R) {p : ObjectId} (hp : R p) :
    Finds (fun _ => True) p d d' := by
  have happart : NamesApart (fun _ _ => False) d p := fun _ _ _ _ =>
    ⟨fun _ _ _ _ _ hf => hf, fun _ _ _ _ _ hf => hf⟩
  exact Keeps.finds h hr Agree.publicResources hp happart (fun name => h.resource? hr hp _ name) fun key _ =>
    h.resource? hr hp _ key

/-- Where programs of a page find the same they draw the same. -/
theorem Finds.draws {p : ObjectId} (h : Finds (fun _ => True) p d d') (frame : PageFrame α) (nesting : Nat)
    (ops : List (Operation α)) (s : Machine α) :
    Machine.runAll d'.resolver frame nesting (.page p) ops s =
      Machine.runAll d.resolver frame nesting (.page p) ops s :=
  (Machine.runAll_agree (h.agreeOn h.onPage fun _ _ _ _ _ _ _ _ _ _ => trivial) nesting (.page p) .page
    (fun _ _ _ _ _ => trivial) ⟨trivial, fun _ _ => trivial⟩).1

/-- A program of a page draws the same. -/
theorem Agree.runAll (h : Agree R d d') (hr : d.Region R) {p : ObjectId} (hp : R p)
    (frame : PageFrame α) (nesting : Nat) (ops : List (Operation α)) (s : Machine α) :
    Machine.runAll d'.resolver frame nesting (.page p) ops s =
      Machine.runAll d.resolver frame nesting (.page p) ops s :=
  (h.finds hr hp).draws frame nesting ops s

/-- A page has the same annotations. -/
theorem Agree.pageMarks (h : Agree R d d') (hr : d.Region R) {p : ObjectId} (hp : R p)
    (number : Nat) (frame : PageFrame α) :
    d'.pageMarks number p frame = d.pageMarks number p frame := by
  unfold Document.pageMarks
  rw [h.getDict? hr hp]
  cases he : d.getDict? p with
  | none => simp only
  | some entries =>
    have hin := hr.entriesWithin hp he
    simp only [MarkReader.objects_agree h hr hin, MarkReader.layer,
      MarkReader.layerPrograms_agree h hr hin, h.runAll hr hp]

/-- Documents with the same objects where the trailer leads have the same annotations. -/
theorem Agree.marks (h : Agree R d d') (hr : d.Region R) (hs : d.TreeSound) : d'.marks = d.marks := by
  obtain ⟨-, hpages, hin⟩ := hs.transfer h hr Agree.publicTree
  unfold Document.marks numberedPages
  rw [hpages]
  apply List.flatMap_congr
  rintro ⟨number, p⟩ hm
  have hp : R p := hin p (List.of_mem_zip hm).2
  simp only [Keeps.frame h hr Agree.publicTree hp, h.pageMarks hr hp]

/-- The page of a number draws the same text. -/
theorem Agree.textRuns (h : Agree R d d') (hr : d.Region R) (hs : d.TreeSound) (number nesting : Nat) :
    d'.textRuns number nesting = d.textRuns number nesting := by
  obtain ⟨-, hpages, hin⟩ := hs.transfer h hr Agree.publicTree
  unfold Document.textRuns
  have hpage : d'.page number = d.page number := by simp only [page, pageCount, hpages]
  rw [hpage]
  cases hp : d.page number with
  | error e => simp only [bind, Except.bind]
  | ok p =>
    have hmem : p ∈ d.pages := by
      unfold page at hp
      split at hp
      · rename_i heq
        obtain rfl := Except.ok.inj hp
        split at heq
        · cases heq
        · exact List.mem_of_getElem? heq
      · cases hp
    have hp' : R p := hin p hmem
    simp only [bind, Except.bind, PageProgram.runs, pageProgram, Keeps.frame h hr Agree.publicTree hp',
      h.pageContent hr hp']
    cases d.frame p with
    | error e => simp only
    | ok frame => simp only [show d'.resolver.operations = d.resolver.operations from rfl, h.runAll hr hp']

end Document

end Marginalia

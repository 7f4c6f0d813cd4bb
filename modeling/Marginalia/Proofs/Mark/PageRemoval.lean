import Marginalia.Proofs.Document.DeepTree
import Marginalia.Proofs.Document.RemainingPages
import Marginalia.Proofs.Mark.OwnText
import Marginalia.Proofs.Number.Plain

/-!
Annotations and text of a document from which a page was removed: they are those of the other pages, whose numbers
follow each other again.
-/

namespace Marginalia

namespace Layer

open Document Object

variable {α : Type} {p : ObjectId} {rows : ObjectId → Bool} {d d' : Document α} {es fs : Dict α}

/-- The content streams of a page are the same. -/
theorem streams_detached (h : Detached p rows d d') (hef : EntriesStruck p rows es fs) :
    streams d' fs = streams d es ∧ ∀ id ∈ streams d es, Clear p rows id := by
  have hcontents := hef.get? (show Syntax.ascii "Contents" ∉ struckKeys by decide)
  unfold streams
  generalize es.get? "Contents" = x at *
  generalize fs.get? "Contents" = y at *
  cases hcontents with
  | none => exact ⟨rfl, by simp⟩
  | @some v w hvw =>
    cases hvw with
    | leaf hleaf => cases v <;> first | exact False.elim hleaf | exact ⟨rfl, by simp⟩
    | dict | stream => exact ⟨rfl, by simp⟩
    | array items => exact filterMap_ref?_struck items
    | @ref id clear =>
      have hrel := h.get? clear
      simp only
      generalize d.get? id = x at *
      generalize d'.get? id = y at *
      cases hrel with
      | none => exact ⟨rfl, by simpa using clear⟩
      | @some v w hvw =>
        cases hvw with
        | leaf hleaf => cases v <;> first | exact False.elim hleaf | exact ⟨rfl, by simpa using clear⟩
        | array items => exact filterMap_ref?_struck items
        | _ => exact ⟨rfl, by simpa using clear⟩

end Layer

namespace MarkReader

open Document Object

variable {α : Type} {p : ObjectId} {rows : ObjectId → Bool} {d d' : Document α} {es fs : Dict α}

theorem text?_detached (h : Detached p rows d d') (hef : EntriesStruck p rows es fs) {key : String}
    (hkey : Syntax.ascii key ∉ struckKeys) : text? d' fs key = text? d es key := by
  have hvalue := hef.get? hkey
  unfold text?
  generalize es.get? key = x at *
  generalize fs.get? key = y at *
  cases hvalue with
  | none => rfl
  | some hvw =>
    have hderef := h.deref hvw
    simp only [Option.map_some]
    generalize d.deref _ = v at *
    generalize d'.deref _ = w at *
    cases hderef <;> rfl

variable [Scalar α]

theorem numbers?_detached (h : Detached p rows d d') (hef : EntriesStruck p rows es fs) {key : String}
    (hkey : Syntax.ascii key ∉ struckKeys) : numbers? d' fs key = numbers? d es key := by
  refine bind_eq_of_rel (hef.get? hkey) fun v w hvw => ?_
  exact bind_eq_of_rel (h.array?_deref hvw) fun vs ws hitems => h.numbers? hitems

theorem mark?_detached (h : Detached p rows d d') (hef : EntriesStruck p rows es fs) (frame : PageFrame α)
    (number : Nat) : mark? d' frame number fs = mark? d frame number es := by
  have htext : ∀ key ∈ ["Contents", "NM", "DA", "DS"], text? d' fs key = text? d es key := fun key hkey =>
    text?_detached h hef (by revert key; decide)
  have hnumbers : ∀ key ∈ ["Rect", "C"], numbers? d' fs key = numbers? d es key := fun key hkey =>
    numbers?_detached h hef (by revert key; decide)
  have hsubtype : fs.name? "Subtype" = es.name? "Subtype" := hef.name? (by decide)
  simp only [mark?, rect?, color?, id, withStyle, text, hsubtype, htext "Contents" (by simp), htext "NM" (by simp),
    htext "DA" (by simp), htext "DS" (by simp), hnumbers "Rect" (by simp), hnumbers "C" (by simp)]

/-- The annotation objects of a page are the same. -/
theorem objects_detached (h : Detached p rows d d') (hef : EntriesStruck p rows es fs) (frame : PageFrame α)
    (number : Nat) : objects d' frame number fs = objects d frame number es := by
  have hannots : Option.Rel (List.Forall₂ (Struck p rows)) (((es.get? "Annots").map d.deref).bind Object.array?)
      (((fs.get? "Annots").map d'.deref).bind Object.array?) := by
    rw [Option.bind_map, Option.bind_map]
    exact rel_bind (hef.get? (by decide)) fun v w hvw => h.array?_deref hvw
  unfold objects
  generalize ((es.get? "Annots").map d.deref).bind Object.array? = x at *
  generalize ((fs.get? "Annots").map d'.deref).bind Object.array? = y at *
  cases hannots with
  | none => rfl
  | some hitems =>
    exact filterMap_eq_of_forall₂ hitems fun v w hvw =>
      bind_eq_of_rel (h.dict?_deref hvw) fun es fs hef => mark?_detached h hef frame number

theorem layerPrograms_detached (h : Detached p rows d d') (hef : EntriesStruck p rows es fs) :
    layerPrograms d' fs = layerPrograms d es := by
  obtain ⟨hstreams, hclear⟩ := Layer.streams_detached h hef
  unfold layerPrograms
  rw [hstreams]
  have htag : ∀ id ∈ Layer.streams d es, Layer.tag? d' id = Layer.tag? d id := fun id hid => by
    simp only [Layer.tag?, h.getStream? (hclear id hid)]
  rw [List.filter_congr fun id hid => by rw [htag id hid]]
  exact List.filterMap_congr fun id hid => by rw [h.getStream? (hclear id (List.mem_of_mem_filter hid))]

end MarkReader

/-- An annotation on the page of another number. -/
def Mark.onPage {α : Type} (number : Nat) (m : Mark α) : Mark α := { m with page := number }

namespace MarkReader

variable {α : Type} [Scalar α] {d : Document α}

/-- The number of a page is nothing but the page of the annotations that are read from it. -/
theorem mark?_onPage (frame : PageFrame α) (number number' : Nat) (entries : Dict α) :
    mark? d frame number' entries = (mark? d frame number entries).map (Mark.onPage number') := by
  unfold mark?
  cases entries.name? "Subtype" with
  | none => rfl
  | some subtype =>
    cases hkind : MarkKind.ofSubtype? subtype with
    | none => simp only [Option.bind_eq_bind, Option.bind_some, hkind, Option.bind_none, Option.map_none]
    | some kind =>
      cases hrect : rect? d entries with
      | none => simp only [Option.bind_eq_bind, Option.bind_some, hkind, Option.bind_none, Option.map_none]
      | some rect =>
        simp only [Option.bind_eq_bind, Option.bind_some, hkind]
        cases kind <;> rfl

theorem objects_onPage (frame : PageFrame α) (number number' : Nat) (entries : Dict α) :
    objects d frame number' entries = (objects d frame number entries).map (Mark.onPage number') := by
  unfold objects
  split
  · rw [List.map_filterMap]
    refine List.filterMap_congr fun v _ => ?_
    cases (d.deref v).dict? with
    | none => rfl
    | some es => exact mark?_onPage frame number number' es
  · rfl

theorem layer_onPage (frame : PageFrame α) (id : ObjectId) (number number' : Nat) (entries : Dict α) :
    layer d frame id number' entries = (layer d frame id number entries).map (Mark.onPage number') := by
  simp only [layer, ocrMarks, List.map_map]
  rfl

end MarkReader

namespace Document

open Object

variable {α : Type} [Scalar α] {p : ObjectId} {rows : ObjectId → Bool} {d d' : Document α}

theorem pageMarks_onPage (d : Document α) (frame : PageFrame α) (id : ObjectId) (number number' : Nat) :
    d.pageMarks number' id frame = (d.pageMarks number id frame).map (Mark.onPage number') := by
  unfold pageMarks
  cases d.getDict? id with
  | none => rfl
  | some entries =>
    simp only [List.map_append]
    rw [MarkReader.objects_onPage frame number number', MarkReader.layer_onPage frame id number number']

/-- The annotations of a page of a number, if the page has a frame. -/
def framedMarks (d : Document α) (number : Nat) (id : ObjectId) : List (Mark α) :=
  match d.frame id with
  | .ok frame => d.pageMarks number id frame
  | .error _ => []

theorem framedMarks_onPage (d : Document α) (id : ObjectId) (number number' : Nat) :
    d.framedMarks number' id = (d.framedMarks number id).map (Mark.onPage number') := by
  unfold framedMarks
  cases d.frame id with
  | error e => rfl
  | ok frame => exact d.pageMarks_onPage frame id number number'

theorem page_framedMarks {number : Nat} {id : ObjectId} : ∀ m ∈ d.framedMarks number id, m.page = number := by
  rw [d.framedMarks_onPage id number number]
  intro m hm
  obtain ⟨m', -, rfl⟩ := List.mem_map.mp hm
  rfl

omit [Scalar α] in
theorem numberedPages_eq (d : Document α) : d.numberedPages = (d.pages.zipIdx 1).map Prod.swap := by
  have hnumbers : (List.range d.pages.length).map (· + 1) = List.range' 1 d.pages.length := by
    simp only [List.range'_eq_map_range, Nat.add_comm]
  rw [numberedPages, hnumbers, List.zipIdx_eq_zip_range', List.zip_swap]

theorem marks_eq (d : Document α) : d.marks = (d.pages.zipIdx 1).flatMap fun e => d.framedMarks e.2 e.1 := by
  rw [marks, numberedPages_eq, List.flatMap_map]
  rfl

/-- The annotations of a document are on its pages. -/
theorem page_of_mem_marks {m : Mark α} (h : m ∈ d.marks) : 1 ≤ m.page ∧ m.page ≤ d.pageCount := by
  rw [marks_eq, List.mem_flatMap] at h
  obtain ⟨⟨id, number⟩, he, hm⟩ := h
  rw [page_framedMarks m hm]
  obtain ⟨hlow, hhigh, -⟩ := List.mem_zipIdx he
  exact ⟨hlow, by unfold pageCount; omega⟩

end Document

section Renumbering

variable {α : Type}

theorem renumberAfterDelete_flatMap {β : Type} (number : Nat) (l : List β) (f : β → List (Mark α)) :
    renumberAfterDelete number (l.flatMap f) = l.flatMap fun e => renumberAfterDelete number (f e) := by
  simp only [renumberAfterDelete, List.filter_flatMap, List.map_flatMap]

/-- Annotations of one page go with it, stay where they are or move up by one. -/
theorem renumberAfterDelete_page {number n : Nat} {ms : List (Mark α)} (h : ∀ m ∈ ms, m.page = n) :
    renumberAfterDelete number ms =
      if n = number then [] else if number < n then ms.map (Mark.onPage (n - 1)) else ms := by
  unfold renumberAfterDelete
  split
  · rename_i hn
    rw [List.filter_eq_nil_iff.mpr fun m hm => by simp [h m hm, hn], List.map_nil]
  · rename_i hn
    rw [List.filter_eq_self.mpr fun m hm => by simpa [h m hm] using hn]
    split
    · rename_i hlt
      refine List.map_congr_left fun m hm => ?_
      rw [h m hm, if_pos hlt]
      rfl
    · rename_i hlt
      exact (List.map_congr_left fun m hm => by rw [h m hm, if_neg hlt, id_eq]).trans (List.map_id ms)

end Renumbering

namespace Document

open Object

variable {α : Type} [Scalar α] {p : ObjectId} {rows : ObjectId → Bool} {d d' : Document α}

/-- The annotations of the other pages are those of all pages, renumbered as for the removal of the page. -/
theorem marks_of_pages {before after : List ObjectId} (hd : d.pages = before ++ p :: after)
    (hd' : d'.pages = before ++ after)
    (hsame : ∀ q ∈ before ++ after, ∀ number, d'.framedMarks number q = d.framedMarks number q) :
    d'.marks = renumberAfterDelete (before.length + 1) d.marks := by
  have hbefore : (before.zipIdx 1).flatMap (fun e => d'.framedMarks e.2 e.1) =
      (before.zipIdx 1).flatMap fun e => renumberAfterDelete (before.length + 1) (d.framedMarks e.2 e.1) := by
    refine List.flatMap_congr fun e he => ?_
    have hlt := List.snd_lt_add_of_mem_zipIdx he
    rw [hsame _ (List.mem_append_left _ (List.fst_mem_of_mem_zipIdx he)), renumberAfterDelete_page page_framedMarks,
      if_neg (by omega), if_neg (by omega)]
  have hafter : (after.zipIdx (1 + before.length)).flatMap (fun e => d'.framedMarks e.2 e.1) =
      (after.zipIdx (1 + before.length + 1)).flatMap fun e =>
        renumberAfterDelete (before.length + 1) (d.framedMarks e.2 e.1) := by
    rw [List.zipIdx_succ, List.flatMap_map]
    refine List.flatMap_congr ?_
    rintro ⟨q, number⟩ he
    have hle := List.le_snd_of_mem_zipIdx he
    dsimp only at hle ⊢
    rw [hsame q (List.mem_append_right _ (List.fst_mem_of_mem_zipIdx he)), renumberAfterDelete_page page_framedMarks,
      if_neg (by omega), if_pos (by omega), ← framedMarks_onPage, Nat.add_sub_cancel]
  have hgone : renumberAfterDelete (before.length + 1) (d.framedMarks (1 + before.length) p) = [] := by
    rw [renumberAfterDelete_page page_framedMarks, if_pos (by omega)]
  rw [marks_eq, marks_eq, hd, hd', renumberAfterDelete_flatMap, List.zipIdx_append, List.zipIdx_append,
    List.flatMap_append, List.flatMap_append, List.zipIdx_cons, List.flatMap_cons, hgone, List.nil_append, hbefore,
    hafter]

namespace Detached

/-- A page that is left has the same annotations. -/
theorem framedMarks (h : Detached p rows d d') (hp : (d.getDict? p).isSome = true) {q : ObjectId} (hq : Clear p rows q)
    {es : Dict α} (hd : d.getDict? q = some es)
    (hfont : ∀ scope, d.Visits q scope → d.resource? scope "Font" (Syntax.ascii "P") ≠ some (.ref p)) (number : Nat) :
    d'.framedMarks number q = d.framedMarks number q := by
  obtain ⟨fs, hd', hef⟩ := exists_of_rel_some (hd ▸ h.getDict? hq)
  have hef : EntriesStruck p rows es fs := hef
  have hmarks : ∀ frame, d'.pageMarks number q frame = d.pageMarks number q frame := fun frame => by
    simp only [pageMarks, hd, hd', MarkReader.objects_detached h hef, MarkReader.layer,
      MarkReader.layerPrograms_detached h hef, (h.finds hp hq hfont).draws]
  simp only [Document.framedMarks, h.frame hq hd, hmarks]

/-- A page that is left draws the same. -/
theorem runs (h : Detached p rows d d') (hp : (d.getDict? p).isSome = true) {q : ObjectId} (hq : Clear p rows q)
    {es : Dict α} (hd : d.getDict? q = some es)
    (hfont : ∀ scope, d.Visits q scope → d.resource? scope "Font" (Syntax.ascii "P") ≠ some (.ref p)) (nesting : Nat) :
    (d'.pageProgram q).runs d'.resolver nesting = (d.pageProgram q).runs d.resolver nesting := by
  simp only [runs_pageProgram, h.frame hq hd, h.pageContent hq, (h.finds hp hq hfont).draws]

end Detached

omit [Scalar α] in
/-- The pages are the ones before a page of a number, that page and the ones behind it. -/
theorem pages_split {number : Nat} (hp : d.page number = .ok p) :
    ∃ before after, d.pages = before ++ p :: after ∧ number = before.length + 1 := by
  obtain ⟨i, rfl, hi⟩ := page_eq_ok.mp hp
  obtain ⟨hlt, rfl⟩ := List.getElem?_eq_some_iff.mp hi
  refine ⟨d.pages.take i, d.pages.drop (i + 1), ?_, ?_⟩
  · rw [← List.drop_eq_getElem_cons hlt, List.take_append_drop]
  · rw [List.length_take_of_le (by omega)]

omit [Scalar α] in
/-- Where a page was taken out, the pages behind it have the numbers before theirs. -/
theorem page_of_pages {before after : List ObjectId} (hd : d.pages = before ++ p :: after)
    (hd' : d'.pages = before ++ after) {i : Nat} (hlow : 1 ≤ i) (hhigh : i ≤ d'.pageCount) :
    ∃ q ∈ before ++ after, d'.page i = .ok q ∧
      d.page (if i < before.length + 1 then i else i + 1) = .ok q := by
  obtain ⟨j, rfl⟩ := Nat.exists_eq_add_of_le' hlow
  rw [pageCount, hd'] at hhigh
  refine ⟨(before ++ after)[j], List.getElem_mem _, page_eq_ok.mpr ⟨j, rfl, ?_⟩, page_eq_ok.mpr ?_⟩
  · rw [hd']
    exact List.getElem?_eq_getElem hhigh
  · rw [hd]
    split
    · rename_i hlt
      have hj : j < before.length := by omega
      exact ⟨j, rfl, by rw [List.getElem?_append_left hj, List.getElem_append_left hj, List.getElem?_eq_getElem hj]⟩
    · rename_i hge
      have hj : before.length ≤ j := by omega
      refine ⟨j + 1, rfl, ?_⟩
      rw [List.getElem?_append_right (by omega), List.getElem_append_right hj, Nat.succ_sub hj, List.getElem?_cons_succ,
        List.getElem?_eq_getElem]

theorem textRuns_of_page {number : Nat} {q : ObjectId} (h : d.page number = .ok q) (nesting : Nat) :
    d.textRuns number nesting = (d.pageProgram q).runs d.resolver nesting := by
  simp only [textRuns, h, bind, Except.bind]

omit [Scalar α] in
/-- Removing a page of several leaves what is left without it, but for what nothing leads to. -/
theorem deletePage_detached (hmany : 2 ≤ d.pageCount) {number : Nat} (hp : d.page number = .ok p)
    (hkid : d.KidOnly p rows) (hrows : d.RowsApart p rows) :
    ∃ d', Detached p rows d d' ∧ d.deletePage number = .ok d'.prune := by
  refine ⟨_, (detached_remove hkid hrows).uncount (d.objects.length + 1) (d.parent? p), ?_⟩
  simp only [deletePage, hp, bind, Except.bind, withoutPage, if_neg (show ¬ d.pageCount ≤ 1 by omega), pure,
    Except.pure]

/-- Removing a page of a document whose page tree is whole takes it out of the annotations and the text and leaves
both as they were on the other pages, which are renumbered. -/
theorem deletePage_renumbers (htree : d.WholeTree) (hmany : 2 ≤ d.pageCount) {number : Nat}
    (hp : d.page number = .ok p) (hkid : d.KidOnly p rows) (hrows : d.RowsApart p rows)
    (hfont : ∀ q ∈ d.pages, q ≠ p → ∀ scope, d.Visits q scope →
      d.resource? scope "Font" (Syntax.ascii "P") ≠ some (.ref p)) :
    ∃ w, d.deletePage number = .ok w ∧ ∀ r, w.Reloads r →
      r.pageCount + 1 = d.pageCount ∧ r.marks = renumberAfterDelete number d.marks ∧
      (∀ m ∈ r.marks, 1 ≤ m.page ∧ m.page ≤ r.pageCount) ∧
      ∀ i nesting, 1 ≤ i → i ≤ r.pageCount →
        r.textRuns i nesting = d.textRuns (if i < number then i else i + 1) nesting := by
  obtain ⟨before, after, hpages, rfl⟩ := pages_split hp
  obtain ⟨hhomes, hdicts⟩ := htree.sound.pages_homes
  have hmem : p ∈ d.pages := by simp [hpages]
  have hdict : ∀ q ∈ d.pages, ∃ es, d.getDict? q = some es := fun q hq => by
    obtain ⟨home, es, hl⟩ := hdicts q hq
    exact ⟨es, getDict?_eq_some.mpr ⟨home, hl⟩⟩
  have hpage : (d.getDict? p).isSome = true := Option.isSome_iff_exists.mpr (hdict p hmem)
  obtain ⟨d', hdetached, hdeleted⟩ := deletePage_detached hmany hp hkid hrows
  obtain ⟨htree', hpages', hclear⟩ := hdetached.tree htree hmem
  have hleft : d'.pages = before ++ after := by
    have hn := hhomes.of_map
    rw [hpages, List.nodup_middle, List.nodup_cons] at hn
    rw [hpages', hpages, List.filter_append, List.filter_cons_of_neg (by simp), ← List.filter_append]
    exact List.filter_eq_self.mpr fun q hq => by
      have hne : q ≠ p := fun he => hn.1 (he ▸ hq)
      simpa using hne
  have hothers : ∀ q ∈ before ++ after, q ∈ d.pages ∧ q ≠ p := fun q hq => by
    rw [← hleft, hpages'] at hq
    simpa using hq
  refine ⟨d'.prune, hdeleted, fun r hr => ?_⟩
  have hagree := hr.agree
  have hreloaded : r.pages = d'.pages := (htree'.transfer hagree d'.reachable_region Agree.publicTree).2.1
  refine ⟨?_, ?_, fun m hm => page_of_mem_marks hm, fun i nesting hlow hhigh => ?_⟩
  · rw [pageCount, pageCount, hreloaded, hleft, hpages, List.length_append, List.length_append, List.length_cons]
    omega
  · rw [Agree.marks hagree d'.reachable_region htree']
    refine marks_of_pages hpages hleft fun q hq n => ?_
    obtain ⟨hq, hne⟩ := hothers q hq
    obtain ⟨es, hes⟩ := hdict q hq
    exact hdetached.framedMarks hpage (hclear q hq hne) hes (hfont q hq hne) n
  · rw [pageCount, hreloaded] at hhigh
    obtain ⟨q, hq, hi', hi⟩ := page_of_pages hpages hleft hlow hhigh
    obtain ⟨hq, hne⟩ := hothers q hq
    obtain ⟨es, hes⟩ := hdict q hq
    rw [Agree.textRuns hagree d'.reachable_region htree', textRuns_of_page hi', textRuns_of_page hi]
    exact hdetached.runs hpage (hclear q hq hne) hes (hfont q hq hne) nesting

/-- The pages of a ladder have no resources in which one of the others could be a font. -/
theorem fontless_ladder {height i : Nat} (hi : i ≤ height) {scope : Scope}
    (hv : (ladder α height).Visits (leaf i) scope) (name : Bytes) :
    (ladder α height).resource? scope "Font" name = none := by
  have hpage := getDict?_of_stored? (stored?_leaf (α := α) hi)
  have hres : (ladder α height).resources? (.page (leaf i)) = some [] := by
    simp only [resources?, hpage]
    rfl
  have hnone : ∀ category name, (ladder α height).resource? (.page (leaf i)) category name = none :=
    fun category name => by
      rw [resource?_eq, hres]
      rfl
  rw [hv.of_formless (hnone _), hnone]

omit [Scalar α] in
theorem wholeTree_ladder : (ladder α 1).WholeTree := by
  have h := ladder_ladder (α := α) 1
  refine ⟨fun root hroot => ⟨rungs 1 1 ++ leaves 0 2, leaves 0 2, ?_, h.nodup_homes (Nat.zero_le 1) le_rfl le_rfl⟩⟩
  obtain rfl : rung 0 = root := Option.some.inj hroot
  rw [h.step 0 le_rfl Nat.one_pos]
  refine .node (h.node 1 (Nat.zero_le 1) le_rfl) (Nat.succ_pos _) ?_
  rw [h.last]
  exact .page (h.page 1 (Nat.zero_le 1) le_rfl) (.page (h.page 0 le_rfl (Nat.zero_le 1)) .done)

/-- Of two pages with an annotation each the first is removed. -/
theorem deletePage_renumbers_ladder :
    (ladder (Exact .plain) 1).WholeTree ∧ (ladder (Exact .plain) 1).pageCount = 2 ∧
      (ladder (Exact .plain) 1).page 1 = .ok (leaf 1) ∧
      (ladder (Exact .plain) 1).marks.map Mark.page = [1, 2] ∧
      ∃ w, (ladder (Exact .plain) 1).deletePage 1 = .ok w ∧ w.Reloads w ∧ w.pageCount = 1 ∧
        w.marks = renumberAfterDelete 1 (ladder (Exact .plain) 1).marks ∧ w.textRuns 1 8 = (ladder (Exact .plain) 1).textRuns 2 8 := by
  have hcount : (ladder (Exact .plain) 1).pageCount = 2 := by decide +kernel
  have hpages : (ladder (Exact .plain) 1).pages = [leaf 1, leaf 0] := by decide +kernel
  have hpage : (ladder (Exact .plain) 1).page 1 = .ok (leaf 1) :=
    page_eq_ok.mpr ⟨0, rfl, by rw [hpages]; rfl⟩
  have hfont : ∀ q ∈ (ladder (Exact .plain) 1).pages, q ≠ leaf 1 →
      ∀ scope, (ladder (Exact .plain) 1).Visits q scope →
        (ladder (Exact .plain) 1).resource? scope "Font" (Syntax.ascii "P") ≠ some (.ref (leaf 1)) := by
    intro q hq hne scope hv
    rw [hpages] at hq
    obtain rfl : q = leaf 0 := by simpa [hne] using hq
    rw [fontless_ladder (Nat.zero_le 1) hv]
    exact (Option.some_ne_none _).symm
  obtain ⟨w, hw, hread⟩ := deletePage_renumbers wholeTree_ladder (by omega) hpage (kidOnly_ladder 1 1)
    (.none _ _) hfont
  obtain ⟨hleft, hmarks, -, hruns⟩ := hread w ⟨rfl, fun _ _ => rfl⟩
  refine ⟨wholeTree_ladder, hcount, hpage, by decide +kernel, w, hw, ⟨rfl, fun _ _ => rfl⟩, by omega, hmarks, ?_⟩
  exact hruns 1 8 le_rfl (by omega)

/-- Where so many rows of kids wait that the last page of a sound tree is left out, removing the page of the first
node lets it be read: there are as many pages as before. -/
theorem deletePage_deep :
    (ladder (Exact .plain) (maxTreeDepth + 1)).TreeSound ∧
      (ladder (Exact .plain) (maxTreeDepth + 1)).pageCount = maxTreeDepth + 1 ∧
      (ladder (Exact .plain) (maxTreeDepth + 1)).page (maxTreeDepth + 1) = .ok (leaf 0) ∧
      (ladder (Exact .plain) (maxTreeDepth + 1)).KidOnly (leaf 0) (fun _ => false) ∧
      ∃ w, (ladder (Exact .plain) (maxTreeDepth + 1)).deletePage (maxTreeDepth + 1) = .ok w ∧ w.Reloads w ∧
        w.pageCount = maxTreeDepth + 1 := by
  have hladder := ladder_ladder (α := Exact .plain) (maxTreeDepth + 1)
  have hkid := kidOnly_ladder (α := Exact .plain) (maxTreeDepth + 1) 0
  have hroot := pageTreeRoot?_ladder (α := Exact .plain) (maxTreeDepth + 1)
  generalize ladder (Exact .plain) (maxTreeDepth + 1) = d at *
  obtain ⟨htree, hpages⟩ := hladder.tree_deep hroot
  have hcount : d.pageCount = maxTreeDepth + 1 := by
    rw [pageCount, hpages, length_leaves]
  have hpage : d.page (maxTreeDepth + 1) = .ok (leaf 0) :=
    page_eq_ok.mpr ⟨maxTreeDepth, rfl, by rw [hpages]; decide +kernel⟩
  obtain ⟨d', hdetached, hdeleted⟩ := deletePage_detached (by rw [hcount]; decide) hpage hkid (.none _ _)
  obtain ⟨htree', hpages'⟩ := hladder.tree_detached hdetached hroot
  have hself : d'.prune.Reloads d'.prune := ⟨rfl, fun _ _ => rfl⟩
  have hleft := (htree'.transfer hself.agree d'.reachable_region Agree.publicTree).2.1
  exact ⟨htree, hcount, hpage, hkid, _, hdeleted, hself, by rw [pageCount, hleft, hpages', length_leaves]⟩

end Document

end Marginalia

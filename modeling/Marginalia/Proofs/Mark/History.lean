import Marginalia.Proofs.Mark.Framing

/-!
Saving annotations in a document in which others were saved before. What is read of a page afterwards is
told by its own content and the annotations saved last, so what was saved before leaves no trace.
-/

namespace Marginalia

namespace Document

open MarkWriter

variable {α : Type} {d d' r : Document α} {p : ObjectId}

/-- That none of the fonts of a page has a name that recognised text is given. -/
def Unnamed (d : Document α) (p : ObjectId) : Prop :=
  ∀ i, d.resource? (.page p) "Font" (Syntax.ascii (fontName i)) = none

/-- The names of fonts that recognised text is not given, or that the page has. -/
def HasFont (d : Document α) (p : ObjectId) (key : Bytes) : Prop :=
  IsOwnName key ∨ (d.resource? (.page p) "Font" key).isSome = true

variable [Scalar α] {o o' : SaveOptions α} {ms : List (Mark α)}

theorem Finds.mono {P Q : Bytes → Prop} (h : Finds P p d d') (hq : ∀ key, Q key → P key) : Finds Q p d d' :=
  ⟨h.form, h.inForm, fun key bytes hk => h.onPage key bytes (hq key hk)⟩

/-- That all programs of a page, those of its recognised text included, select fonts that the page has, if
these have names for recognised text. -/
structure FontsNamed (d : Document α) (p : ObjectId) : Prop where
  content : SelectsOnly (d.HasFont p) d p (decodeOperations (d.pageContent p))
  layer : ∀ es, d.getDict? p = some es → ∀ ops ∈ MarkReader.layerPrograms d es,
    ∀ op ∈ ops, op.SelectsIn (d.HasFont p)

/-- The fonts and the program of the recognised text among the annotations of a page, if there is any. -/
def layerOf (o : SaveOptions α) (frame : PageFrame α) (ms : List (Mark α)) :
    Option (List FontSource × List (Instruction α)) :=
  if layerMarks ms = [] then none else (plan o frame [] (layerMarks ms)).toOption

/-- The stream that recognised text is drawn by. -/
def layerData (program : List (Instruction α)) : Bytes :=
  0x0A :: printProgram (layerOpening ++ program ++ [⟨"ET", []⟩, ⟨"Q", []⟩])

/-- The fonts that recognised text has names for. -/
def layerFonts (layer : Option (List FontSource × List (Instruction α))) : List FontSource :=
  (layer.map Prod.fst).getD []

/-- What is read of a page with such content of its own, such recognised text and such annotations. -/
structure PageRead (o : SaveOptions α) (d : Document α) (own : Bytes) (number : Nat) (frame : PageFrame α)
    (ms : List (Mark α)) (d' : Document α) (p : ObjectId) (es' : Dict α) : Prop where
  objects : MarkReader.objects d' frame number es' = (objectMarks ms).filterMap fun m =>
    MarkReader.mark? .empty frame number (objectEntries o p frame m p)
  content : d'.pageContent p = match layerOf o frame ms with
    | none => own
    | some (_, program) => Syntax.ascii "q\n" ++ own ++ layerData program
  programs : MarkReader.layerPrograms d' es' = match layerOf o frame ms with
    | none => []
    | some (_, program) => [decodeOperations (layerData program)]
  shown : ∀ i f bytes, (layerFonts (layerOf o frame ms))[i]? = some f →
    d'.shownText (.page p) (Syntax.ascii (fontName i)) bytes = decodeShown f.textEncoding bytes
  other : ∀ i, (layerFonts (layerOf o frame ms))[i]? = none →
    d'.resource? (.page p) "Font" (Syntax.ascii (fontName i)) =
      d.resource? (.page p) "Font" (Syntax.ascii (fontName i))

theorem PageRead.of_agree {R : ObjectId → Prop} (h : Agree R d' r) (hr : d'.Region R) (hp : R p)
    {own : Bytes} {number : Nat} {frame : PageFrame α} {es' : Dict α} (hd' : d'.getDict? p = some es')
    (hread : PageRead o d own number frame ms d' p es') : PageRead o d own number frame ms r p es' where
  objects := (MarkReader.objects_agree h hr (hr.entriesWithin hp hd') frame number).trans hread.objects
  content := (h.pageContent hr hp).trans hread.content
  programs := (MarkReader.layerPrograms_agree h hr (hr.entriesWithin hp hd')).trans hread.programs
  shown := fun i f bytes hf => ((h.finds hr hp).onPage _ bytes trivial).trans (hread.shown i f bytes hf)
  other := fun i hi => (h.resource? hr hp _ _).trans (hread.other i hi)

/-- What is read of a page that annotations were saved on. -/
theorem Saved.pageRead (hsaved : Saved o d ms d') (h : d.Separate) {number : Nat} (hp : d.page number = .ok p)
    {frame : PageFrame α} (hframe : d.frame p = .ok frame) {home : ObjectId} {es : Dict α}
    (hl : d.locate p = .ok (home, .dict es)) : ∃ es' : Dict α, d'.locate p = .ok (home, .dict es') ∧
      PageSaved o d ms d' p es es' ∧
      PageRead o d (ownContent d es) number frame (ms.filter fun m => m.page = number) d' p es' := by
  obtain ⟨i, -, hi⟩ := page_eq_ok.mp hp
  have hmem : p ∈ d.pages := List.mem_of_getElem? hi
  have hd : d.getDict? p = some es := getDict?_eq_some.mpr ⟨home, hl⟩
  have ht : (⟨number, p, frame, d.pageResources p⟩ : Target α) ∈ targets d :=
    List.mem_filterMap.mpr ⟨(number, p), mem_numberedPages.mpr hp, by simp only [hframe]⟩
  obtain ⟨es', hl', hkept, hpage⟩ := hsaved.page h.sound hmem hl
  obtain ⟨fs, hfs, ⟨ids, hobjects, hannots⟩, -⟩ := hsaved.written _ ht home es hl
  obtain rfl : es' = fs := by
    rw [stored?_of_locate hl'] at hfs
    cases hfs
    rfl
  refine ⟨es', hl', hpage, ?_⟩
  have hread := objects_saved number hobjects hannots
  cases hpage with
  | plain hnone hc hres =>
    have hlayer : layerOf o frame (ms.filter fun m => m.page = number) = none := if_pos (hnone _ ht rfl)
    have hparent : es'.get? "Parent" = es.get? "Parent" := hkept _ (d.saveKeys_publicTree.parent home)
    refine ⟨hread, ?_, ?_, ?_, fun i _ => ?_⟩
    · rw [hlayer, pageContent_plain hsaved h.sound hmem hl hl' (h.near p hmem es hd) hc]
    · rw [hlayer, layerPrograms_cleared hsaved h.sound hmem hl hc]
    · intro i f bytes hf
      rw [hlayer] at hf
      cases hf
    · exact (resource?_plain hsaved h.sound hmem (h.apart p hmem) hl hl' hparent hres _).2
  | @layered t d₁ parts htarget hid hsome hedit hparts =>
    obtain ⟨hnumbered, htframe, hres⟩ := mem_targets htarget
    subst hid
    obtain rfl : t.number = number := h.sound.tree.number_eq (mem_numberedPages.mp hnumbered) hp
    obtain rfl : t.frame = frame := by
      rw [htframe] at hframe
      exact Except.ok.inj hframe
    have hlayer : layerOf o t.frame (ms.filter fun m => m.page = t.number) =
        some (parts.fonts, parts.program) := by
      rw [layerOf, if_neg hsome, hparts.plan]
      rfl
    rw [hres] at hparts
    have hd' : d'.getDict? t.id = some es' := getDict?_eq_some.mpr ⟨home, hl'⟩
    refine ⟨hread, ?_, ?_, fun i f bytes hf => ?_, fun i hi => ?_⟩
    · rw [hlayer, pageContent_layered hsaved h.sound hmem hl hl' hparts]
      rfl
    · rw [hlayer, hparts.layerPrograms (own_untagged h.sound hsaved.edit hmem hl)]
      rfl
    · rw [hlayer] at hf
      exact hparts.shownText hd' hf bytes
    · rw [hlayer] at hi
      refine resource?_layered h.sound hmem (h.apart _ hmem) hl' hedit hparts fun j hj he => ?_
      rw [fontName_injective he, layerFonts, Option.map_some, Option.getD_some,
        List.getElem?_eq_none_iff] at hi
      exact absurd hj (Nat.not_lt.mpr hi)

/-- Saving and loading again leaves what programs of a page find as it was, but for the fonts with names for
recognised text. -/
theorem Saved.finds_reload (hsaved : Saved o d ms d') (h : d.Separate) (hr : d'.prune.Reloads r)
    (hp : p ∈ d.pages) : Finds IsOwnName p d r := by
  obtain ⟨home, es, hl⟩ := h.sound.tree.pages_homes.2 p hp
  obtain ⟨es', hl', hkept, hpage⟩ := hsaved.page h.sound hp hl
  have hfinds : Finds IsOwnName p d d' := by
    cases hpage with
    | plain _ _ hres =>
      have hparent : es'.get? "Parent" = es.get? "Parent" := hkept _ (d.saveKeys_publicTree.parent home)
      exact (finds_plain hsaved h.sound hp (h.apart p hp) hl hl' hparent hres).mono fun _ _ => trivial
    | layered htarget hid _ hedit hparts =>
      subst hid
      rw [(mem_targets htarget).2.2] at hparts
      exact finds_layered hsaved h.sound hp (h.apart _ hp) hl' hedit hparts
  obtain ⟨-, hframes⟩ := hsaved.pages_reload h.sound hr
  exact hfinds.trans ((Agree.finds hr.agree d'.reachable_region (hframes p hp).1).mono fun _ _ => trivial)

theorem Saved.pageRead_reload (hsaved : Saved o d ms d') (h : d.Separate) (hr : d'.prune.Reloads r)
    {number : Nat} (hp : d.page number = .ok p) {frame : PageFrame α} (hframe : d.frame p = .ok frame)
    {es : Dict α} (hd : d.getDict? p = some es) : ∃ es' : Dict α, r.getDict? p = some es' ∧
      PageRead o d (ownContent d es) number frame (ms.filter fun m => m.page = number) r p es' := by
  obtain ⟨home, hl⟩ := getDict?_eq_some.mp hd
  obtain ⟨i, -, hi⟩ := page_eq_ok.mp hp
  obtain ⟨es', hl', -, hread⟩ := hsaved.pageRead h hp hframe hl
  obtain ⟨-, hframes⟩ := hsaved.pages_reload h.sound hr
  have hin : p ∈ d'.reachable := (hframes p (List.mem_of_getElem? hi)).1
  have hd' : d'.getDict? p = some es' := getDict?_eq_some.mpr ⟨home, hl'⟩
  exact ⟨es', (Agree.getDict? hr.agree d'.reachable_region hin).trans hd',
    hread.of_agree hr.agree d'.reachable_region hin hd'⟩

namespace PageRead

variable {e once twice : Document α} {own : Bytes} {number : Nat} {frame : PageFrame α} {es es' : Dict α}

/-- The fonts that a page has show the same as on a page that is read the same. -/
theorem shownText (ho : PageRead o d own number frame ms once p es)
    (ht : PageRead o e own number frame ms twice p es') (hfinds : Finds IsOwnName p once twice)
    (hun : d.Unnamed p) {key : Bytes} (hkey : once.HasFont p key) (bytes : Bytes) :
    twice.shownText (.page p) key bytes = once.shownText (.page p) key bytes := by
  by_cases hown : IsOwnName key
  · exact hfinds.onPage key bytes hown
  · have hsome := hkey.resolve_left hown
    obtain ⟨i, rfl⟩ : ∃ i, key = Syntax.ascii (fontName i) := by
      simpa only [IsOwnName, ne_eq, not_forall, not_not] using hown
    cases hf : (layerFonts (layerOf o frame ms))[i]? with
    | none =>
      rw [ho.other i hf, hun i] at hsome
      cases hsome
    | some f => rw [ht.shown i f bytes hf, ho.shown i f bytes hf]

/-- Programs that select only fonts which the page has draw the same. -/
theorem runAll (ho : PageRead o d own number frame ms once p es)
    (ht : PageRead o e own number frame ms twice p es') (hfinds : Finds IsOwnName p once twice)
    (hun : d.Unnamed p) (hnamed : once.FontsNamed p) {ops : List (Operation α)}
    (hops : ∀ op ∈ ops, op.SelectsIn (once.HasFont p)) (nesting : Nat) :
    Machine.runAll twice.resolver frame nesting (.page p) ops .initial =
      Machine.runAll once.resolver frame nesting (.page p) ops .initial :=
  (Machine.runAll_agree (hfinds.agreeOn (fun _ bytes hkey => ho.shownText ht hfinds hun hkey bytes)
    hnamed.content.forms) nesting (.page p) .page hops
    ⟨.inl isOwnName_nil, fun _ hg => absurd hg List.not_mem_nil⟩).1

theorem pageMarks (ho : PageRead o d own number frame ms once p es)
    (ht : PageRead o e own number frame ms twice p es') (hd : once.getDict? p = some es)
    (hd' : twice.getDict? p = some es') (hfinds : Finds IsOwnName p once twice) (hun : d.Unnamed p)
    (hnamed : once.FontsNamed p) : twice.pageMarks number p frame = once.pageMarks number p frame := by
  have hlayer := hnamed.layer es hd
  simp only [Document.pageMarks, hd, hd', ho.objects, ht.objects, MarkReader.layer, ht.programs]
  rw [ho.programs] at hlayer ⊢
  cases hl : layerOf o frame ms with
  | none => simp only [List.foldl_nil]
  | some layer =>
    simp only [hl, List.mem_singleton, forall_eq] at hlayer
    simp only [List.foldl_cons, List.foldl_nil, ho.runAll ht hfinds hun hnamed hlayer]

theorem pageRuns (ho : PageRead o d own number frame ms once p es)
    (ht : PageRead o e own number frame ms twice p es') (hfinds : Finds IsOwnName p once twice)
    (hun : d.Unnamed p) (hnamed : once.FontsNamed p) (nesting : Nat) :
    Machine.runAll twice.resolver frame nesting (.page p) (decodeOperations (twice.pageContent p)) .initial =
      Machine.runAll once.resolver frame nesting (.page p) (decodeOperations (once.pageContent p))
        .initial := by
  have hsame : twice.pageContent p = once.pageContent p := ht.content.trans ho.content.symm
  rw [hsame]
  exact ho.runAll ht hfinds hun hnamed hnamed.content.own nesting

end PageRead

/-- That two documents have the same pages but for annotations and recognised text. -/
structure SameBelow (d e : Document α) : Prop where
  pages : e.pages = d.pages
  frame : ∀ p ∈ d.pages, e.frame p = d.frame p
  finds : ∀ p ∈ d.pages, Finds IsOwnName p d e
  content : ∀ p ∈ d.pages, ∃ es es' : Dict α, d.getDict? p = some es ∧ e.getDict? p = some es' ∧
    SameContent d e es es'

namespace SameBelow

variable {e f : Document α}

theorem symm (h : SameBelow d e) : SameBelow e d where
  pages := h.pages.symm
  frame := fun p hp => (h.frame p (h.pages ▸ hp)).symm
  finds := fun p hp => (h.finds p (h.pages ▸ hp)).symm
  content := fun p hp => by
    obtain ⟨es, es', hd, he, hsame⟩ := h.content p (h.pages ▸ hp)
    exact ⟨es', es, he, hd, hsame.symm⟩

theorem trans (h : SameBelow d e) (h' : SameBelow e f) : SameBelow d f where
  pages := h'.pages.trans h.pages
  frame := fun p hp => (h'.frame p (h.pages ▸ hp)).trans (h.frame p hp)
  finds := fun p hp => (h.finds p hp).trans (h'.finds p (h.pages ▸ hp))
  content := fun p hp => by
    obtain ⟨es, es', hd, he, hsame⟩ := h.content p hp
    obtain ⟨fs, fs', he', hf, hsame'⟩ := h'.content p (h.pages ▸ hp)
    obtain rfl : es' = fs := Option.some.inj (he.symm.trans he')
    exact ⟨es, fs', hd, hf, hsame.trans hsame'⟩

theorem page (h : SameBelow d e) (number : Nat) : e.page number = d.page number := by
  simp only [Document.page, pageCount, h.pages]

/-- Documents with the same pages have the same annotations if each page with a frame has. -/
theorem marks (h : SameBelow d e) (hpages : ∀ number p frame, d.page number = .ok p →
    d.frame p = .ok frame → e.pageMarks number p frame = d.pageMarks number p frame) :
    e.marks = d.marks := by
  unfold Document.marks numberedPages
  rw [h.pages]
  refine List.flatMap_congr fun entry hentry => ?_
  obtain ⟨number, p⟩ := entry
  have hp : d.page number = .ok p := mem_numberedPages.mp hentry
  obtain ⟨i, -, hi⟩ := page_eq_ok.mp hp
  simp only [h.frame p (List.mem_of_getElem? hi)]
  cases hf : d.frame p with
  | error fault => simp only
  | ok frame => exact hpages number p frame hp hf

/-- Documents with the same pages have the same text if each page with a frame has. -/
theorem textRuns (h : SameBelow d e) {nesting : Nat} (hpages : ∀ number p frame, d.page number = .ok p →
    d.frame p = .ok frame →
      Machine.runAll e.resolver frame nesting (.page p) (decodeOperations (e.pageContent p)) .initial =
        Machine.runAll d.resolver frame nesting (.page p) (decodeOperations (d.pageContent p)) .initial)
    (number : Nat) : e.textRuns number nesting = d.textRuns number nesting := by
  rw [textRuns_eq, textRuns_eq, h.page]
  cases hp : d.page number with
  | error fault => simp only [Except.bind]
  | ok p =>
    obtain ⟨i, -, hi⟩ := page_eq_ok.mp hp
    simp only [Except.bind, h.frame p (List.mem_of_getElem? hi)]
    cases hf : d.frame p with
    | error fault => simp only [Except.map]
    | ok frame => simp only [Except.map, hpages number p frame hp hf]

end SameBelow

/-- A document in which annotations were saved is the same below them when its file is loaded. -/
theorem Saved.sameBelow (hsaved : Saved o d ms d') (h : d.Separate) (hr : d'.prune.Reloads r) :
    SameBelow d r := by
  obtain ⟨hpages, hframes⟩ := hsaved.pages_reload h.sound hr
  refine ⟨hpages, fun p hp => (hframes p hp).2.2, fun p hp => hsaved.finds_reload h hr hp, fun p hp => ?_⟩
  obtain ⟨home, es, hl⟩ := h.sound.tree.pages_homes.2 p hp
  obtain ⟨es', hl', -, -⟩ := hsaved.page h.sound hp hl
  have hin : p ∈ d'.reachable := (hframes p hp).1
  have hd' : d'.getDict? p = some es' := getDict?_eq_some.mpr ⟨home, hl'⟩
  exact ⟨es, es', getDict?_eq_some.mpr ⟨home, hl⟩,
    (Agree.getDict? hr.agree d'.reachable_region hin).trans hd',
    hsaved.sameContent_reload h.sound hr hp hl hl'⟩

/-- Saving the same annotations in documents that are the same below makes them the same. -/
theorem Saved.again {e e' once twice : Document α} (h : d.Separate) (he : e.Separate) (hsame : SameBelow d e)
    (honce : Saved o d ms d') (hro : d'.prune.Reloads once) (htwice : Saved o e ms e')
    (hrt : e'.prune.Reloads twice) (hun : ∀ p ∈ d.pages, d.Unnamed p)
    (hnamed : ∀ p ∈ d.pages, once.FontsNamed p) :
    twice.marks = once.marks ∧ SameBelow once twice ∧
      ∀ number nesting, twice.textRuns number nesting = once.textRuns number nesting := by
  have hbelow := honce.sameBelow h hro
  have hboth : SameBelow once twice := (hbelow.symm.trans hsame).trans (htwice.sameBelow he hrt)
  have hread : ∀ number p frame, once.page number = .ok p → once.frame p = .ok frame →
      ∃ own es es', p ∈ d.pages ∧ once.getDict? p = some es ∧ twice.getDict? p = some es' ∧
        PageRead o d own number frame (ms.filter fun m => m.page = number) once p es ∧
        PageRead o e own number frame (ms.filter fun m => m.page = number) twice p es' := by
    intro number p frame hp hf
    rw [hbelow.page] at hp
    obtain ⟨i, -, hi⟩ := page_eq_ok.mp hp
    have hmem : p ∈ d.pages := List.mem_of_getElem? hi
    rw [hbelow.frame p hmem] at hf
    obtain ⟨es, fs, hd, hfs, hcontent⟩ := hsame.content p hmem
    obtain ⟨es₁, hd₁, hread₁⟩ := honce.pageRead_reload h hro hp hf hd
    obtain ⟨es₂, hd₂, hread₂⟩ := htwice.pageRead_reload he hrt ((hsame.page number).trans hp)
      ((hsame.frame p hmem).trans hf) hfs
    rw [hcontent.ownContent_eq] at hread₂
    exact ⟨_, es₁, es₂, hmem, hd₁, hd₂, hread₁, hread₂⟩
  have hfinds : ∀ p ∈ d.pages, Finds IsOwnName p once twice := fun p hp =>
    hboth.finds p (hbelow.pages ▸ hp)
  refine ⟨hboth.marks fun number p frame hp hf => ?_, hboth,
    fun number nesting => hboth.textRuns (fun number p frame hp hf => ?_) number⟩
  · obtain ⟨own, es, es', hmem, hd, hd', ho, ht⟩ := hread number p frame hp hf
    exact ho.pageMarks ht hd hd' (hfinds p hmem) (hun p hmem) (hnamed p hmem)
  · obtain ⟨own, es, es', hmem, -, -, ho, ht⟩ := hread number p frame hp hf
    exact ho.pageRuns ht (hfinds p hmem) (hun p hmem) (hnamed p hmem) nesting

/-- A document as it is loaded: no number above those of its objects is in use. -/
def loaded (d : Document α) : Document α :=
  { d with maxNumber := (d.objects.map fun e => e.1.number).foldl max 0 }

omit [Scalar α] in
theorem reloads_loaded (d : Document α) : d.Reloads d.loaded := ⟨rfl, fun _ _ => rfl⟩

end Document

end Marginalia

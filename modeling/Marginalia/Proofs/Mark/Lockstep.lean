import Marginalia.Proofs.Document.Renumbering
import Marginalia.Proofs.Mark.Direct

/-!
Saving the same annotations in two documents. The same objects are added to both in the same order, under numbers
that differ by how many objects each document had, and what is added to one matches what is added to the other.
-/

namespace Marginalia

namespace Document

open Object

variable {α : Type} {R : ObjectId → Prop} {low low' : Nat}

/-- The numbers of objects that were added in the same turn to two documents whose highest numbers had been `low`
and `low'`, up to the number `top` in the first. -/
def InTurn (low low' top : Nat) (a b : ObjectId) : Prop :=
  ∃ j, 1 ≤ j ∧ low + j ≤ top ∧ a = ⟨low + j, 0⟩ ∧ b = ⟨low' + j, 0⟩

theorem InTurn.mono {top top' : Nat} {a b : ObjectId} (h : InTurn low low' top a b) (ht : top ≤ top') :
    InTurn low low' top' a b := by
  obtain ⟨j, hj, hle, ha, hb⟩ := h
  exact ⟨j, hj, Nat.le_trans hle ht, ha, hb⟩

/-- That two numbers are one number of a region, or those of objects that were added in the same turn. -/
def Paired (R : ObjectId → Prop) (low low' top : Nat) (a b : ObjectId) : Prop :=
  (R a ∧ b = a) ∨ InTurn low low' top a b

theorem Paired.mono {top top' : Nat} {a b : ObjectId} (h : Paired R low low' top a b) (ht : top ≤ top') :
    Paired R low low' top' a b :=
  h.imp_right fun hturn => hturn.mono ht

/-- That two numbers are one number of a region. -/
def Same (R : ObjectId → Prop) (a b : ObjectId) : Prop := R a ∧ b = a

theorem Same.paired {top : Nat} {a b : ObjectId} (h : Same R a b) : Paired R low low' top a b := .inl h

/-- Two documents under way, to which as many objects were added, that match one another in their turn. -/
structure Lockstep (R : ObjectId → Prop) (low low' : Nat) (x y : Document α) : Prop where
  count : ∃ n, x.maxNumber = low + n ∧ y.maxNumber = low' + n
  objects : ∀ a b, InTurn low low' x.maxNumber a b →
    Option.Rel (Matches (Paired R low low' x.maxNumber)) (x.stored? a) (y.stored? b)

namespace Lockstep

variable {x y : Document α}

theorem start (hx : x.maxNumber = low) (hy : y.maxNumber = low') : Lockstep R low low' x y := by
  refine ⟨⟨0, hx, hy⟩, fun a b ⟨j, hj, hle, _⟩ => ?_⟩
  omega

/-- The next numbers are given in the same turn. -/
theorem inTurn (h : Lockstep R low low' x y) :
    InTurn low low' (x.maxNumber + 1) ⟨x.maxNumber + 1, 0⟩ ⟨y.maxNumber + 1, 0⟩ := by
  obtain ⟨n, hx, hy⟩ := h.count
  exact ⟨n + 1, Nat.le_add_left 1 n, by rw [hx, Nat.add_assoc], by rw [hx, Nat.add_assoc], by rw [hy, Nat.add_assoc]⟩

/-- Adding matching objects. -/
theorem add (h : Lockstep R low low' x y) {v w : Object α}
    (hvw : Matches (Paired R low low' x.maxNumber) v w) : Lockstep R low low' (x.add v).1 (y.add w).1 := by
  obtain ⟨n, hx, hy⟩ := h.count
  have hmono : ∀ a b, Paired R low low' x.maxNumber a b → Paired R low low' (x.add v).1.maxNumber a b :=
    fun _ _ hab => hab.mono (Nat.le_succ _)
  refine ⟨⟨n + 1, by rw [maxNumber_add, hx, Nat.add_assoc], by rw [maxNumber_add, hy, Nat.add_assoc]⟩, ?_⟩
  rintro a b ⟨j, hj, hle, rfl, rfl⟩
  rw [maxNumber_add] at hle
  by_cases hlast : j = n + 1
  · subst hlast
    rw [← Nat.add_assoc, ← Nat.add_assoc, ← hx, ← hy]
    exact (stored?_add_self x v).symm ▸ (stored?_add_self y w).symm ▸ .some (hvw.mono hmono)
  · rw [stored?_add_of_le x v (show low + j ≤ x.maxNumber by omega),
      stored?_add_of_le y w (show low' + j ≤ y.maxNumber by omega)]
    exact rel_mono (h.objects _ _ ⟨j, hj, by omega, rfl, rfl⟩) fun _ _ hab => hab.mono hmono

/-- Changing objects that were there before. -/
theorem put (h : Lockstep R low low' x y) {home : ObjectId} (hx : home.number ≤ low) (hy : home.number ≤ low')
    (v w : Object α) : Lockstep R low low' (x.put home v) (y.put home w) := by
  refine ⟨h.count, ?_⟩
  rintro a b ⟨j, hj, hle, rfl, rfl⟩
  have hne : home ≠ ⟨low + j, 0⟩ := fun he => by
    rw [he] at hx
    simp only at hx
    omega
  have hne' : home ≠ ⟨low' + j, 0⟩ := fun he => by
    rw [he] at hy
    simp only at hy
    omega
  rw [stored?_put_of_ne x v hne, stored?_put_of_ne y w hne']
  exact h.objects _ _ ⟨j, hj, hle, rfl, rfl⟩

end Lockstep

end Document

namespace FontSource

open Document Object MarkWriter

variable {α : Type} {R : ObjectId → Prop} {low low' : Nat} {x y : Document α}

/-- Writing in the same font adds the same, and the dictionaries of the font match. -/
theorem dictionary_lockstep (f : FontSource) (h : Lockstep R low low' x y) (bold : Bool) :
    Lockstep R low low' (f.dictionary x bold).1 (f.dictionary y bold).1 ∧
      Matches (Paired R low low' (f.dictionary x bold).1.maxNumber)
        (.dict (f.dictionary x bold).2) (.dict (f.dictionary y bold).2) := by
  cases f with
  | standard family baseFont boldBaseFont =>
    refine ⟨h, .ofEntries (entries_direct ?_)⟩
    simp [Object.references, Object.nameOf, nameOfText]
  | cjk family baseFont ordering supplement encoding =>
    simp only [dictionary]
    refine ⟨h.add (.ofEntries (entries_direct ?_)), .ofEntries ?_⟩
    · simp [Object.references, Object.itemReferences, Object.nameOf, nameOfText]
    · have hname : ∀ s : String, (Object.nameOf s : Object α).references = [] := references_nameOf
      have htext : ∀ s : String, (nameOfText s : Object α).references = [] := fun s => by
        simp only [nameOfText, Object.references]
      refine .cons ⟨rfl, .of_direct (hname _)⟩ (.cons ⟨rfl, .of_direct (hname _)⟩ (.cons ⟨rfl, .of_direct (htext _)⟩
        (.cons ⟨rfl, .of_direct (htext _)⟩ (.cons ⟨rfl, .of_items (.cons (.ofEntries ?_) .nil)⟩ .nil))))
      refine .cons ⟨rfl, .of_direct (hname _)⟩ (.cons ⟨rfl, .of_direct (hname _)⟩ (.cons ⟨rfl, .of_direct (htext _)⟩
        (.cons ⟨rfl, .ofEntries (entries_direct ?_)⟩ (.cons ⟨rfl, .ref (.inr h.inTurn)⟩ (.cons ?_ .nil)))))
      · simp [Object.references]
      · exact ⟨rfl, .of_direct (by simp only [Object.references])⟩

end FontSource

namespace MarkWriter

open Document Object

variable {α : Type} [Scalar α] {R : ObjectId → Prop} {low low' : Nat} {x y x' : Document α}

section Objects

/-- The form of a free text is added in the same turn. -/
theorem addAppearance_lockstep (h : Lockstep R low low' x y) (font : FontSource) (m : Mark α) (rect : PageRect α)
    (size : α) :
    Lockstep R low low' (addAppearance x font m rect size).1 (addAppearance y font m rect size).1 ∧
      InTurn low low' (addAppearance x font m rect size).1.maxNumber (addAppearance x font m rect size).2
        (addAppearance y font m rect size).2 := by
  obtain ⟨hfont, hentries⟩ := font.dictionary_lockstep h m.bold
  have hadded := hfont.add hentries
  refine ⟨hadded.add (.streamOf (fun key => .ofList ?_) _), hadded.inTurn⟩
  have hbox : (Object.array [.int 0, .int 0, real rect.width, real rect.height]).references = [] := by
    simp [Object.references, Object.itemReferences, real]
  refine .cons ⟨rfl, .of_direct (references_nameOf _)⟩ (.cons ⟨rfl, .of_direct (references_nameOf _)⟩
    (.cons ⟨rfl, .of_direct hbox⟩ (.cons ⟨rfl, .ofEntries (.cons ⟨rfl, .ofEntries ?_⟩ .nil)⟩ .nil)))
  exact .cons ⟨rfl, .ref (.inr hfont.inTurn)⟩ .nil

/-- The dictionaries of an annotation match. -/
theorem objectEntries_matches {ρ : ObjectId → ObjectId → Prop} (o : SaveOptions α) {page : ObjectId}
    (hp : ρ page page) (frame : PageFrame α) (m : Mark α) (appearance appearance' : ObjectId)
    (ha : m.kind = .freeText → ρ appearance appearance') :
    Matches ρ (.dict (objectEntries o page frame m appearance)) (.dict (objectEntries o page frame m appearance')) := by
  have hint : ∀ n : Int, (Object.int n : Object α).references = [] := fun n => by simp only [Object.references]
  unfold objectEntries
  cases hkind : m.kind with
  | freeText =>
    refine .of_entries fun key => .ofList ?_
    refine .cons ⟨rfl, .of_direct (references_nameOf _)⟩ (.cons ⟨rfl, .of_direct (references_nameOf _)⟩ ?_)
    refine .cons ⟨rfl, .of_direct (references_rectObject _)⟩ (.cons ⟨rfl, .of_direct (references_textObject _)⟩ ?_)
    refine .cons ⟨rfl, .of_direct (references_literal _)⟩ (.cons ⟨rfl, .of_direct (references_literal _)⟩ ?_)
    refine .cons ⟨rfl, .of_direct (references_literal _)⟩ (.cons ⟨rfl, .of_direct (hint 4)⟩ ?_)
    refine .cons ⟨rfl, .ref hp⟩ (.cons ⟨rfl, .of_direct ?_⟩ (.cons ⟨rfl, .ofEntries ?_⟩ .nil))
    · simp [Object.references, Object.itemReferences]
    · exact .cons ⟨rfl, .ref (ha hkind)⟩ .nil
  | highlight | underline | ocrText =>
    refine .of_entries fun key => .ofList ?_
    refine .cons ⟨rfl, .of_direct (references_nameOf _)⟩ (.cons ⟨rfl, .of_direct (references_nameOf _)⟩ ?_)
    refine .cons ⟨rfl, .of_direct (references_rectObject _)⟩ (.cons ⟨rfl, .of_direct (references_array_real _)⟩ ?_)
    refine .cons ⟨rfl, .of_direct (references_array_real _)⟩ (.cons ⟨rfl, .of_direct (references_textObject _)⟩ ?_)
    refine .cons ⟨rfl, .of_direct (references_literal _)⟩ (.cons ⟨rfl, .of_direct (hint 4)⟩ ?_)
    exact .cons ⟨rfl, .ref hp⟩ .nil

/-- The object of an annotation is added in the same turn. -/
theorem addObject_lockstep (h : Lockstep R low low' x y) {o : SaveOptions α} {page : ObjectId} (hp : R page)
    {frame : PageFrame α} {m : Mark α} {id : ObjectId} (hadd : addObject o page frame x m = .ok (x', id)) :
    ∃ y' id', addObject o page frame y m = .ok (y', id') ∧ Lockstep R low low' x' y' ∧
      InTurn low low' x'.maxNumber id id' := by
  have hentries := fun top appearance appearance' ha =>
    objectEntries_matches (ρ := Paired R low low' top) o (.inl ⟨hp, rfl⟩) frame m appearance appearance' ha
  unfold addObject at hadd ⊢
  unfold objectEntries at hentries
  cases hkind : m.kind with
  | freeText =>
    simp only [hkind, addFreeText, bind, Except.bind] at hadd hentries ⊢
    cases hfont : o.fonts.resolve m.fontFamily m.content with
    | error e =>
      rw [hfont] at hadd
      cases hadd
    | ok font =>
      rw [hfont] at hadd
      obtain ⟨hdrawn, happearance⟩ := addAppearance_lockstep h font m
        (frame.rectToPage (m.box.unscaled o.effectiveScale)) (Resolution.fontPoints m.fontSize)
      obtain ⟨rfl, rfl⟩ := Prod.mk.inj (Except.ok.inj hadd)
      exact ⟨_, _, rfl, hdrawn.add (hentries _ _ _ fun _ => .inr happearance), hdrawn.inTurn⟩
  | highlight | underline | ocrText =>
    simp only [hkind, addMarkup_eq] at hadd hentries ⊢
    obtain ⟨rfl, rfl⟩ := Prod.mk.inj (Except.ok.inj hadd)
    exact ⟨_, _, rfl, h.add (hentries _ page page fun hf => by cases hf), h.inTurn⟩

/-- The objects of annotations are added in the same turns. -/
theorem addObjects_lockstep {o : SaveOptions α} {page : ObjectId} (hp : R page) {frame : PageFrame α}
    {ms : List (Mark α)} {ids : List ObjectId} (h : Lockstep R low low' x y)
    (hadd : addObjects o page frame x ms = .ok (x', ids)) :
    ∃ y' ids', addObjects o page frame y ms = .ok (y', ids') ∧ Lockstep R low low' x' y' ∧
      List.Forall₂ (InTurn low low' x'.maxNumber) ids ids' := by
  induction ms generalizing x y ids with
  | nil =>
    cases hadd
    exact ⟨y, [], rfl, h, .nil⟩
  | cons m ms ih =>
    rw [addObjects_cons] at hadd
    cases hm : addObject o page frame x m with
    | error e =>
      rw [hm] at hadd
      cases hadd
    | ok found =>
      obtain ⟨x₁, id⟩ := found
      simp only [hm, Except.bind] at hadd
      cases hrest : addObjects o page frame x₁ ms with
      | error e =>
        simp only [hrest] at hadd
        cases hadd
      | ok rest =>
        simp only [hrest] at hadd
        cases hadd
        obtain ⟨y₁, id', hy₁, hlockstep, hid⟩ := addObject_lockstep h hp hm
        obtain ⟨y', ids', hy', hlockstep', hids⟩ := ih hlockstep hrest
        refine ⟨y', id' :: ids', ?_, hlockstep', .cons (hid.mono ?_) hids⟩
        · simp only [addObjects_cons, hy₁, hy', Except.bind]
        · exact (addObjects_spec hrest (Nat.le_refl _)).1.maxNumber

end Objects

section Drawing

/-- Two drawings under way that are the same but for the numbers of their fonts. The names that fonts are yet to be
given, which are to be `count` in all, may stand for different ones. -/
structure DrawnAlike (R : ObjectId → Prop) (low low' count : Nat) (s t : Drawing α) : Prop where
  documents : Lockstep R low low' s.document t.document
  families : t.families = s.families
  program : t.program = s.program
  fonts : ∀ key, (∀ i, s.families.length ≤ i → i < count → key ≠ Syntax.ascii (fontName i)) →
    MatchesAt (Paired R low low' s.document.maxNumber) s.fonts t.fonts key

variable {count : Nat} {s t s' : Drawing α}

omit [Scalar α] in
/-- A font is found or added under the same name. -/
theorem DrawnAlike.font (h : DrawnAlike R low low' count s t) (font : FontSource) :
    DrawnAlike R low low' count (s.font font).1 (t.font font).1 ∧ (t.font font).2 = (s.font font).2 := by
  unfold Drawing.font
  rw [h.families]
  cases hfind : s.families.find? fun e => e.1 == font.family with
  | some e => exact ⟨h, rfl⟩
  | none =>
    obtain ⟨hfont, hentries⟩ := font.dictionary_lockstep h.documents false
    have hgrows := (font.dictionary_grows s.document false).trans
      (.add _ _ (.dict (font.dictionary s.document false).2))
    simp only
    rw [show "PmOcr" ++ toString s.families.length = fontName s.families.length from rfl]
    refine ⟨⟨hfont.add hentries, rfl, h.program, fun key hkey => ?_⟩, trivial⟩
    refine .set _ (.ref (.inr hfont.inTurn)) fun hne =>
      (h.fonts key fun i hle hlt => ?_).mono fun _ _ hab => hab.mono ?_
    · by_cases hi : i = s.families.length
      · rw [hi]
        exact hne.symm
      · exact hkey i (by simp only [List.length_append, List.length_cons, List.length_nil]; omega) hlt
    · exact hgrows.maxNumber

/-- A recognised text is drawn alike. -/
theorem DrawnAlike.show_ (h : DrawnAlike R low low' count s t) {fonts : FontChain} {frame : PageFrame α} {m : Mark α}
    {box : ViewerBox α} (hs : s.show_ fonts frame m box = .ok s') :
    ∃ t', t.show_ fonts frame m box = .ok t' ∧ DrawnAlike R low low' count s' t' := by
  unfold Drawing.show_ at hs ⊢
  by_cases hout : (m.content.isEmpty || decide (Resolution.toPoints box.height ≤ Scalar.zero)) = true
  · simp only [hout, if_true] at hs ⊢
    obtain rfl := Except.ok.inj hs
    exact ⟨t, rfl, h⟩
  · simp only [hout, bind, Except.bind, Bool.false_eq_true, if_false] at hs ⊢
    cases hres : fonts.resolve m.fontFamily m.content with
    | error e =>
      rw [hres] at hs
      cases hs
    | ok font =>
      rw [hres] at hs
      obtain ⟨hfont, hname⟩ := h.font font
      obtain rfl := Except.ok.inj hs
      exact ⟨_, rfl, hfont.documents, hfont.families, by simp only [hfont.program, hname], hfont.fonts⟩

theorem DrawnAlike.showAll {o : SaveOptions α} {frame : PageFrame α} {ms : List (Mark α)}
    (h : DrawnAlike R low low' count s t) (hs : s.showAll o frame ms = .ok s') :
    ∃ t', t.showAll o frame ms = .ok t' ∧ DrawnAlike R low low' count s' t' := by
  induction ms generalizing s t with
  | nil =>
    cases hs
    exact ⟨t, rfl, h⟩
  | cons m ms ih =>
    simp only [Drawing.showAll, bind, Except.bind] at hs ⊢
    cases hm : s.show_ o.fonts frame m (m.box.unscaled o.effectiveScale) with
    | error e =>
      rw [hm] at hs
      cases hs
    | ok s₁ =>
      rw [hm] at hs
      obtain ⟨t₁, ht₁, hdrawn⟩ := h.show_ hm
      simp only [ht₁]
      exact ih hdrawn hs

end Drawing

section Pages

omit [Scalar α] in
theorem refs_matches {ρ : ObjectId → ObjectId → Prop} {ids ids' : List ObjectId} (h : List.Forall₂ ρ ids ids') :
    Matches (α := α) ρ (refs ids) (refs ids') := by
  refine .of_items ?_
  rw [List.forall₂_map_left_iff, List.forall₂_map_right_iff]
  exact h.imp fun _ _ hid => .ref hid

omit [Scalar α] in
theorem taggedStream_matches {ρ : ObjectId → ObjectId → Prop} (tag : String) (data : Bytes) :
    Matches (α := α) ρ (taggedStream tag data) (taggedStream tag data) :=
  .streamOf (fun _ => .ofList (entries_direct (by simp [references_nameOf]))) data

theorem layerState_matches {ρ : ObjectId → ObjectId → Prop} : Matches (α := α) ρ layerState layerState :=
  .ofEntries (entries_direct (by simp [references_nameOf, Object.references, real]))

omit [Scalar α] in
/-- That the resources of a page are the same in two documents, but for so many fonts with names for recognised text
and for the graphics state of that text. -/
structure SameResources (R : ObjectId → Prop) (count : Nat) (x y : Document α) (res res' : Dict α) : Prop where
  fonts : ∀ key, (∀ i < count, key ≠ Syntax.ascii (fontName i)) →
    MatchesAt (Same R) (category x res "Font") (category y res' "Font") key
  states : ∀ key, Syntax.ascii layerStateName ≠ key →
    MatchesAt (Same R) (category x res "ExtGState") (category y res' "ExtGState") key
  other : ∀ key, Syntax.ascii "Font" ≠ key → Syntax.ascii "ExtGState" ≠ key → MatchesAt (Same R) res res' key

/-- Recognised text is added alike. -/
theorem addLayer_lockstep (h : Lockstep R low low' x y) {o : SaveOptions α} {page home : ObjectId}
    {frame : PageFrame α} {res res' fs fs' : Dict α} {ms : List (Mark α)} {own : List ObjectId}
    (hadd : addLayer o x page frame res ms = .ok x') (hx : home.number ≤ low) (hy : home.number ≤ low')
    (hlx : ∀ x₁, Grows x x₁ → x₁.locate page = .ok (home, .dict fs))
    (hly : ∀ y₁, Grows y y₁ → y₁.locate page = .ok (home, .dict fs'))
    (hsx : ∀ x₁, Grows x x₁ → Layer.streams x₁ fs = own) (hsy : ∀ y₁, Grows y y₁ → Layer.streams y₁ fs' = own)
    (hown : ∀ id ∈ own, R id)
    (hres : ∀ fonts program, plan o frame [] ms = .ok (fonts, program) →
      SameResources R fonts.length x y res res') :
    ∃ y', addLayer o y page frame res' ms = .ok y' ∧ Lockstep R low low' x' y' ∧ x.maxNumber ≤ x'.maxNumber ∧
      ∃ gs gs' : Dict α, x'.stored? home = some (.dict gs) ∧ y'.stored? home = some (.dict gs') ∧
        ∀ key, (Syntax.ascii "Contents" ≠ key → Syntax.ascii "Resources" ≠ key →
            MatchesAt (Paired R low low' x'.maxNumber) fs fs' key) →
          MatchesAt (Paired R low low' x'.maxNumber) gs gs' key := by
  simp only [addLayer, bind, Except.bind] at hadd ⊢
  split at hadd
  · cases hadd
  rename_i s hs
  have hnamed : ∀ (d : Document α) (base : Dict α), Named 0 base ⟨d, base, [], layerOpening⟩ [] := fun d base =>
    ⟨rfl, Nat.zero_le _, by simp, fun _ _ => rfl⟩
  obtain ⟨fonts, program, hplan, -, hfonts, hgrows⟩ := (hnamed x _).showAll hs
  obtain ⟨hsameFonts, hsameStates, hsameOther⟩ := hres fonts program hplan
  have hstart : DrawnAlike R low low' fonts.length ⟨x, category x res "Font", [], layerOpening⟩
      ⟨y, category y res' "Font", [], layerOpening⟩ :=
    ⟨h, rfl, rfl, fun key hkey => (hsameFonts key fun i hi => hkey i (Nat.zero_le i) hi).mono fun _ _ => Same.paired⟩
  obtain ⟨t, ht, hdrawn⟩ := hstart.showAll hs
  obtain ⟨-, -, -, -, -, hgrows'⟩ := (hnamed y _).showAll ht
  simp only at hgrows hgrows'
  simp only [ht]
  have hlength : fonts.length = s.families.length := by rw [hfonts.families, List.length_mapIdx]
  have hallFonts : ∀ key, MatchesAt (Paired R low low' s.document.maxNumber) s.fonts t.fonts key := fun key =>
    hdrawn.fonts key fun i hle hlt => by omega
  have hguarded := hdrawn.documents.add (taggedStream_matches Layer.guardTag (Syntax.ascii "q\n"))
  have hwritten := hguarded.add (taggedStream_matches Layer.textTag
    (0x0A :: printProgram (s.program ++ [⟨"ET", []⟩, ⟨"Q", []⟩])))
  have hall := hgrows.trans ((Edit.add _ s.document (taggedStream Layer.guardTag (Syntax.ascii "q\n"))).trans
    (.add _ _ (taggedStream Layer.textTag (0x0A :: printProgram (s.program ++ [⟨"ET", []⟩, ⟨"Q", []⟩])))))
  have hall' := hgrows'.trans ((Edit.add _ t.document (taggedStream Layer.guardTag (Syntax.ascii "q\n"))).trans
    (.add _ _ (taggedStream Layer.textTag (0x0A :: printProgram (s.program ++ [⟨"ET", []⟩, ⟨"Q", []⟩])))))
  rw [entriesOn_eq (hlx _ hall)] at hadd
  rw [hdrawn.program, entriesOn_eq (hly _ hall')]
  simp only at hadd ⊢
  rw [updatePage_eq (hlx _ hall), hsx _ hall] at hadd
  rw [updatePage_eq (hly _ hall'), hsy _ hall']
  obtain rfl := Except.ok.inj hadd
  have htop : s.document.maxNumber ≤ s.document.maxNumber + 1 + 1 := by omega
  refine ⟨_, rfl, hwritten.put hx hy _ _, hall.maxNumber, _, _, stored?_put_self _ _ _, stored?_put_self _ _ _,
    fun key hkey => .set "Resources" (.of_entries fun name => ?_) fun hresources =>
      .set "Contents" (refs_matches ?_) fun hcontents => hkey hcontents hresources⟩
  · refine .set "ExtGState" (.of_entries fun state => .set _ layerState_matches fun hne => ?_) fun hstates =>
      .set "Font" (.of_entries fun font => (hallFonts font).mono fun _ _ hab => hab.mono htop) fun hfont => ?_
    · exact (hsameStates state hne).mono fun _ _ => Same.paired
    · exact (hsameOther name hfont hstates).mono fun _ _ => Same.paired
  · refine List.rel_append (.cons (.inr (hdrawn.documents.inTurn.mono (Nat.le_succ _))) ?_)
      (.cons (.inr hguarded.inTurn) .nil)
    exact List.forall₂_same.mpr fun id hid => .inl ⟨hown id hid, rfl⟩

/-- That annotations are to be saved alike on a page of two documents, whose entries are `es` in the one and `es'` in
the other. -/
structure SavedAlike (R : ObjectId → Prop) (o : SaveOptions α) (ms : List (Mark α)) (d r : Document α)
    (t t' : Target α) (es es' : Dict α) : Prop where
  id : t'.id = t.id
  frame : t'.frame = t.frame
  page : R t.id
  own : ownStreams r es' = ownStreams d es
  within : ∀ id ∈ ownStreams d es, R id
  plain : layerMarks ms = [] → ∀ key, key = Syntax.ascii "Contents" ∨ key = Syntax.ascii "Resources" →
    MatchesAt (Same R) (clearedEntries d es) (clearedEntries r es') key
  layered : layerMarks ms ≠ [] → ∀ fonts program, plan o t.frame [] (layerMarks ms) = .ok (fonts, program) →
    ∀ x y, Edit d.PageEntries d x → Edit r.PageEntries r y →
      SameResources R fonts.length x y t.resources t'.resources

omit [Scalar α] in
/-- Annotations of pages that had none match. -/
theorem withAnnots_matches {ρ : ObjectId → ObjectId → Prop} {ids ids' : List ObjectId} (h : List.Forall₂ ρ ids ids')
    {es es' : Dict α} (hes : es.get? "Annots" = none) (hes' : es'.get? "Annots" = none) :
    MatchesAt ρ (withAnnots ids es) (withAnnots ids' es') (Syntax.ascii "Annots") := by
  have hget := get?_annots_withAnnots ids hes
  have hget' := get?_annots_withAnnots ids' hes'
  unfold Dict.get? at hget hget'
  rw [MatchesAt, hget, hget']
  cases h with
  | nil => exact .none
  | cons hid hids => exact .some (refs_matches (.cons hid hids))

/-- Annotations are saved alike on a page. -/
theorem addPage_lockstep (h : Lockstep R low low' x y) {o : SaveOptions α} {ms : List (Mark α)} {d r : Document α}
    {t t' : Target α} {home : ObjectId} {es es' : Dict α} (hx : Ready d x t.id home es)
    (hy : Ready r y t.id home es') (halike : SavedAlike R o ms d r t t' es es') (hlow : home.number ≤ low)
    (hlow' : home.number ≤ low') (hadd : addPage o x t ms = .ok x') :
    ∃ y', addPage o y t' ms = .ok y' ∧ Lockstep R low low' x' y' ∧
      ∃ gs gs' : Dict α, x'.stored? home = some (.dict gs) ∧ y'.stored? home = some (.dict gs') ∧
        ∀ key ∈ pageKeys, MatchesAt (Paired R low low' x'.maxNumber) gs gs' (Syntax.ascii key) := by
  simp only [addPage, bind, Except.bind, halike.id, halike.frame] at hadd ⊢
  split at hadd
  · cases hadd
  rename_i found hfound
  obtain ⟨x₁, ids⟩ := found
  obtain ⟨y₁, ids', hfound', hlockstep, hids⟩ := addObjects_lockstep halike.page h hfound
  obtain ⟨x₂, hx₂, hset, -, hedit, hfinds⟩ := hx.annotate (addObjects_spec hfound (Nat.le_refl _)).1 ids
  obtain ⟨y₂, hy₂, hset', -, hedit', hfinds'⟩ := hy.annotate (addObjects_spec hfound' (Nat.le_refl _)).1 ids'
  have hempty : ids'.isEmpty = ids.isEmpty := by cases hids <;> rfl
  have hlockstep₂ : Lockstep R low low' x₂ y₂ := by
    rw [hx₂, hy₂, hempty]
    by_cases hnone : ids.isEmpty = true
    · rw [if_pos hnone, if_pos hnone]
      exact hlockstep
    · rw [if_neg hnone, if_neg hnone]
      exact hlockstep.put hlow hlow' _ _
  have htop : x₂.maxNumber = x₁.maxNumber := by
    rw [hx₂]
    split <;> rfl
  have hannots : MatchesAt (Paired R low low' x₂.maxNumber) (withAnnots ids (clearedEntries d es))
      (withAnnots ids' (clearedEntries r es')) (Syntax.ascii "Annots") := by
    rw [htop]
    exact withAnnots_matches (hids.imp fun _ _ hid => .inr hid) (get?_annots_clearedEntries d es)
      (get?_annots_clearedEntries r es')
  simp only [hset] at hadd
  simp only [hfound', hset']
  have hstart := (hfinds _ (.refl _ _)).1
  have hstart' := (hfinds' _ (.refl _ _)).1
  by_cases hlayer : layerMarks ms = []
  · have hnone : (ms.filter fun m => m.kind == .ocrText).isEmpty = true := by
      rw [← layerMarks, hlayer]
      rfl
    rw [if_pos hnone] at hadd ⊢
    cases hadd
    refine ⟨_, rfl, hlockstep₂, _, _, stored?_of_locate hstart, stored?_of_locate hstart', fun key hkey => ?_⟩
    have hplain : ∀ key, key = Syntax.ascii "Contents" ∨ key = Syntax.ascii "Resources" →
        Syntax.ascii "Annots" ≠ key → MatchesAt (Paired R low low' x'.maxNumber)
          (withAnnots ids (clearedEntries d es)) (withAnnots ids' (clearedEntries r es')) key := by
      intro key hkey hne
      rw [MatchesAt, find?_withAnnots ids _ hne, find?_withAnnots ids' _ hne]
      exact MatchesAt.mono (halike.plain hlayer key hkey) fun _ _ => Same.paired
    simp only [pageKeys, List.mem_cons, List.not_mem_nil, or_false] at hkey
    rcases hkey with rfl | rfl | rfl
    · exact hannots
    · exact hplain _ (.inl rfl) (by decide)
    · exact hplain _ (.inr rfl) (by decide)
  · have hsome : ¬ (ms.filter fun m => m.kind == .ocrText).isEmpty = true := by
      rw [← layerMarks, List.isEmpty_iff]
      exact hlayer
    rw [if_neg hsome] at hadd ⊢
    obtain ⟨y', hy', hlockstep', hle, gs, gs', hgs, hgs', hmatch⟩ := addLayer_lockstep hlockstep₂ hadd hlow hlow'
      (fun x₃ hg => (hfinds x₃ hg).1) (fun y₃ hg => (hfinds' y₃ hg).1) (fun x₃ hg => (hfinds x₃ hg).2)
      (fun y₃ hg => (hfinds' y₃ hg).2.trans halike.own) halike.within fun fonts program hplan =>
        halike.layered hlayer fonts program hplan x₂ y₂ hedit hedit'
    refine ⟨y', hy', hlockstep', gs, gs', hgs, hgs', fun key hkey => hmatch _ fun hcontents hresources => ?_⟩
    simp only [pageKeys, List.mem_cons, List.not_mem_nil, or_false] at hkey
    rcases hkey with rfl | rfl | rfl
    · exact hannots.mono fun _ _ hab => hab.mono hle
    · exact absurd rfl hcontents
    · exact absurd rfl hresources

omit [Scalar α] in
/-- What is stored where none of some pages is stays as it is when these change. -/
theorem stored?_elsewhere {d z z' : Document α} {ps : List ObjectId} (he : Edit (EntriesOf d ps) z z')
    {home : ObjectId} (huse : z.InUse home) (hne : ∀ q ∈ ps, d.home? q ≠ some home) :
    z'.stored? home = z.stored? home :=
  he.stored huse fun _ ⟨⟨q, hq, hhome⟩, _⟩ => hne q hq hhome

omit [Scalar α] in
theorem entriesOf_cons {d z z' z'' : Document α} {p : ObjectId} {ps : List ObjectId}
    (he : Edit (EntriesOf d [p]) z z') (he' : Edit (EntriesOf d ps) z' z'') : Edit (EntriesOf d (p :: ps)) z z'' := by
  refine (he.mono ?_).trans (he'.mono ?_)
  · rintro id key ⟨⟨q, hq, hid⟩, hkey⟩
    exact ⟨⟨q, by simp [List.mem_singleton.mp hq], hid⟩, hkey⟩
  · rintro id key ⟨⟨q, hq, hid⟩, hkey⟩
    exact ⟨⟨q, by simp [hq], hid⟩, hkey⟩

omit [Scalar α] in
/-- A page is still ready after others were changed. -/
theorem Ready.other {d z z' : Document α} {p home : ObjectId} {es : Dict α} (h : Ready d z p home es)
    {ps : List ObjectId} (hps : ∀ q ∈ ps, q ∈ d.pages) (he : Edit (EntriesOf d ps) z z')
    (hne : ∀ q ∈ ps, d.home? q ≠ some home) : Ready d z' p home es where
  sound := h.sound
  page := h.page
  found := h.found
  edit := h.edit.trans (he.mono (entriesOf_page hps))
  stored := (stored?_elsewhere he (h.edit.inUse (h.sound.home_inUse h.page h.found)) hne).trans h.stored

/-- That a page of two documents under way was cleared and annotations are to be saved alike on it. -/
def ReadyAlike (R : ObjectId → Prop) (low low' : Nat) (o : SaveOptions α) (ms : List (Mark α)) (d r x y : Document α)
    (t t' : Target α) : Prop :=
  ∃ home es es', Ready d x t.id home es ∧ Ready r y t.id home es' ∧
    SavedAlike R o (ms.filter fun m => m.page = t.number) d r t t' es es' ∧ home.number ≤ low ∧ home.number ≤ low'

/-- Annotations are saved alike page by page. -/
theorem addPages_lockstep {o : SaveOptions α} {ms : List (Mark α)} {d r : Document α} {other : Target α → Target α}
    (hnumber : ∀ t, (other t).number = t.number) {ts : List (Target α)}
    (hn : (ts.map fun t => d.home? t.id).Nodup) (h : Lockstep R low low' x y)
    (hready : ∀ t ∈ ts, ReadyAlike R low low' o ms d r x y t (other t)) (hadd : addPages o ms x ts = .ok x') :
    ∃ y', addPages o ms y (ts.map other) = .ok y' ∧ Lockstep R low low' x' y' ∧
      Edit (EntriesOf d (ts.map Target.id)) x x' ∧ Edit (EntriesOf r (ts.map Target.id)) y y' ∧
      ∀ t ∈ ts, ∀ home, d.home? t.id = some home → ∃ gs gs' : Dict α, x'.stored? home = some (.dict gs) ∧
        y'.stored? home = some (.dict gs') ∧
        ∀ key ∈ pageKeys, MatchesAt (Paired R low low' x'.maxNumber) gs gs' (Syntax.ascii key) := by
  induction ts generalizing x y with
  | nil =>
    cases hadd
    exact ⟨y, rfl, h, .refl _ _, .refl _ y, by simp⟩
  | cons t ts ih =>
    obtain ⟨hnew, hn⟩ := List.nodup_cons.mp hn
    obtain ⟨home, es, es', hx, hy, halike, hlow, hlow'⟩ := hready t (by simp)
    have hhome : d.home? t.id = some home := home?_eq_some.mpr ⟨_, hx.found⟩
    have hhome' : r.home? t.id = some home := home?_eq_some.mpr ⟨_, hy.found⟩
    simp only [addPages, List.map_cons, bind, Except.bind, hnumber] at hadd ⊢
    split at hadd
    · cases hadd
    rename_i x₁ hx₁
    obtain ⟨y₁, hy₁, hlockstep, gs, gs', hgs, hgs', hmatch⟩ := addPage_lockstep h hx hy halike hlow hlow' hx₁
    obtain ⟨-, hedit, -⟩ := addPage_spec hx hx₁
    obtain ⟨-, hedit', -⟩ := addPage_spec (t := other t) (halike.id ▸ hy) hy₁
    rw [halike.id] at hedit'
    -- The pages that are left are stored elsewhere, in both documents.
    have hrest : ∀ q ∈ ts, d.home? q.id ≠ some home ∧ r.home? q.id = d.home? q.id := by
      intro q hq
      obtain ⟨_, _, _, hqx, hqy, -⟩ := hready q (by simp [hq])
      refine ⟨fun he => hnew (List.mem_map.mpr ⟨q, hq, he.trans hhome.symm⟩), ?_⟩
      rw [home?_eq_some.mpr ⟨_, hqx.found⟩, home?_eq_some.mpr ⟨_, hqy.found⟩]
    have hready₁ : ∀ q ∈ ts, ReadyAlike R low low' o ms d r x₁ y₁ q (other q) := by
      intro q hq
      obtain ⟨homeq, esq, esq', hqx, hqy, hrest'⟩ := hready q (by simp [hq])
      have hne : home ≠ homeq := fun he => (hrest q hq).1 (he ▸ home?_eq_some.mpr ⟨_, hqx.found⟩)
      refine ⟨homeq, esq, esq', hqx.other (by simpa using hx.page) hedit ?_,
        hqy.other (by simpa using hy.page) hedit' ?_, hrest'⟩
      · simpa [hhome] using hne
      · simpa [hhome'] using hne
    obtain ⟨y', hy', hlockstep', hedits, hedits', hall⟩ := ih hn hlockstep hready₁ hadd
    refine ⟨y', by simp only [hy₁, hy'], hlockstep', entriesOf_cons hedit hedits, entriesOf_cons hedit' hedits',
      fun q hq home' hq' => ?_⟩
    rcases List.mem_cons.mp hq with rfl | hq
    · rw [hhome] at hq'
      cases hq'
      have huse : x₁.InUse home := hedit.inUse (hx.edit.inUse (hx.sound.home_inUse hx.page hx.found))
      have huse' : y₁.InUse home := hedit'.inUse (hy.edit.inUse (hy.sound.home_inUse hy.page hy.found))
      refine ⟨gs, gs', (stored?_elsewhere hedits huse ?_).trans hgs, (stored?_elsewhere hedits' huse' ?_).trans hgs',
        fun key hkey => (hmatch key hkey).mono fun _ _ hab => hab.mono hedits.maxNumber⟩
      · simpa only [List.forall_mem_map] using fun q hq => (hrest q hq).1
      · simpa only [List.forall_mem_map] using fun q hq => (hrest q hq).2 ▸ (hrest q hq).1
    · exact hall q hq home' hq'

end Pages

end MarkWriter

end Marginalia

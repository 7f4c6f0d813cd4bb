import Marginalia.Mark.Writer
import Marginalia.Proofs.Document.Edit

/-!
Drawing recognised text. Which fonts are named, and the program, do not depend on the document; the
document gains a dictionary for every font that is named.
-/

namespace Marginalia

theorem Syntax.ascii_append (s t : String) :
    Syntax.ascii (s ++ t) = Syntax.ascii s ++ Syntax.ascii t := by
  simp [Syntax.ascii]

namespace FontSource

variable {α : Type}

theorem dictionary_grows (f : FontSource) (d : Document α) (bold : Bool) :
    Document.Grows d (f.dictionary d bold).1 := by
  cases f with
  | standard family baseFont boldBaseFont => exact .refl _ d
  | cjk family baseFont ordering supplement encoding => exact .add _ d _

end FontSource

namespace MarkWriter

open Document

/-- The name of the font that came to be named after so many others. -/
def fontName (i : Nat) : String := "PmOcr" ++ toString i

theorem fontName_injective {i j : Nat} (h : Syntax.ascii (fontName i) = Syntax.ascii (fontName j)) :
    i = j := by
  simp only [fontName, Syntax.ascii_append] at h
  have hdigits := List.append_cancel_left h
  have hmap : ∀ n : Nat, (Syntax.ascii (toString n)).map (fun b => Char.ofNat b.toNat) =
      Nat.toDigits 10 n := by
    intro n
    rw [Syntax.ascii, Nat.toString_eq_repr, Nat.toList_repr, List.map_map]
    refine (List.map_congr_left (g := id) fun c hc => ?_).trans (List.map_id _)
    have hd := Nat.isDigit_of_mem_toDigits (by decide) (by decide) hc
    simp only [Char.isDigit, Bool.and_eq_true, decide_eq_true_eq] at hd
    have hlt : c.toNat ≤ 57 := hd.2
    have hn : (UInt8.ofNat c.toNat).toNat = c.toNat := UInt8.toNat_ofNat_of_lt' (show _ < 256 by omega)
    simp [hn, Char.ofNat_toNat]
  have hchars : Nat.toDigits 10 i = Nat.toDigits 10 j := by rw [← hmap i, ← hmap j, hdigits]
  have hnum := congrArg (fun ds => Nat.ofDigitChars 10 ds 0) hchars
  simpa using hnum

/-- The fonts that have a name after one more is asked for, and which of them serves. -/
def addFont (fonts : List FontSource) (font : FontSource) : List FontSource × Nat :=
  match fonts.findIdx? fun f => f.family == font.family with
  | some i => (fonts, i)
  | none => (fonts ++ [font], fonts.length)

theorem addFont_extends (fonts : List FontSource) (font : FontSource) :
    fonts <+: (addFont fonts font).1 := by
  unfold addFont
  split
  · exact List.prefix_rfl
  · exact List.prefix_append _ _

theorem addFont_mem {fonts : List FontSource} {font f : FontSource} (h : f ∈ (addFont fonts font).1) :
    f ∈ fonts ∨ f = font := by
  unfold addFont at h
  split at h
  · exact .inl h
  · simpa using h

/-- The font that serves is of the family that was asked for. -/
theorem addFont_get (fonts : List FontSource) (font : FontSource) :
    ∃ f, (addFont fonts font).1[(addFont fonts font).2]? = some f ∧ f.family = font.family ∧
      (f ∈ fonts ∨ f = font) := by
  unfold addFont
  split
  · rename_i i hi
    obtain ⟨hlt, hp, -⟩ := List.findIdx?_eq_some_iff_getElem.mp hi
    exact ⟨fonts[i], List.getElem?_eq_getElem hlt, by simpa using hp, .inl (List.getElem_mem hlt)⟩
  · exact ⟨font, by simp, rfl, .inr rfl⟩

variable {α : Type}

/-- The fonts with names among the entries of a category, each with its dictionary in the document. All
other entries are those of `base`. -/
structure FontsIn (low : Nat) (d : Document α) (base entries : Dict α) (fonts : List FontSource) :
    Prop where
  stored : ∀ i f, fonts[i]? = some f → ∃ id d', entries.get? (fontName i) = some (.ref id) ∧
    Fresh low d id ∧ d.stored? id = some (.dict (f.dictionary d' false).2)
  other : ∀ key, (∀ i < fonts.length, key ≠ Syntax.ascii (fontName i)) →
    entries.find? key = base.find? key

theorem FontsIn.edit {low : Nat} {d d' : Document α} {base entries : Dict α} {fonts : List FontSource}
    {K : ObjectId → Bytes → Prop} (h : FontsIn low d base entries fonts) (he : Edit K d d')
    (hk : PrivateUpTo low K) : FontsIn low d' base entries fonts := by
  refine ⟨fun i f hf => ?_, h.other⟩
  obtain ⟨id, d'', hget, hfresh, hs⟩ := h.stored i f hf
  exact ⟨id, d'', hget, hfresh.edit he, (hfresh.stored he hk).trans hs⟩

/-- A drawing whose named fonts are these. -/
structure Named (low : Nat) (base : Dict α) (s : Drawing α) (fonts : List FontSource) : Prop where
  families : s.families = fonts.mapIdx fun i f => (f.family, fontName i)
  low_le : low ≤ s.document.maxNumber
  fontsIn : FontsIn low s.document base s.fonts fonts

theorem Named.withProgram {low : Nat} {base : Dict α} {s : Drawing α} {fonts : List FontSource}
    (h : Named low base s fonts) (program : List (Instruction α)) :
    Named low base { s with program } fonts :=
  ⟨h.families, h.low_le, h.fontsIn⟩

theorem find?_families (fonts : List FontSource) (family : String) :
    ((fonts.mapIdx fun i f => (f.family, fontName i)).find? fun e => e.1 == family).map Prod.snd =
      (fonts.findIdx? fun f => f.family == family).map fontName := by
  suffices h : ∀ name : Nat → String,
      ((fonts.mapIdx fun i f => (f.family, name i)).find? fun e => e.1 == family).map Prod.snd =
        (fonts.findIdx? fun f => f.family == family).map name from h fontName
  induction fonts with
  | nil => exact fun name => rfl
  | cons f fonts ih =>
    intro name
    rw [List.mapIdx_cons, List.find?_cons, List.findIdx?_cons]
    cases hf : f.family == family with
    | true => simp
    | false =>
      simp only [Bool.false_eq_true, if_false]
      rw [ih fun i => name (i + 1), Option.map_map]
      rfl

/-- A font is found or added under the name that its place among the fonts gives. -/
theorem Named.font {low : Nat} {base : Dict α} {s : Drawing α} {fonts : List FontSource}
    (h : Named low base s fonts) (font : FontSource) :
    (s.font font).2 = fontName (addFont fonts font).2 ∧
      Named low base (s.font font).1 (addFont fonts font).1 ∧
      Grows s.document (s.font font).1.document ∧ (s.font font).1.program = s.program := by
  have hfind := find?_families fonts font.family
  rw [← h.families] at hfind
  unfold Drawing.font addFont
  cases hi : fonts.findIdx? fun f => f.family == font.family with
  | some i =>
    rw [hi] at hfind
    obtain ⟨⟨family, name⟩, he, hname⟩ := Option.map_eq_some_iff.mp hfind
    simp only at hname
    subst hname
    simp only [he]
    exact ⟨trivial, h, .refl _ _, trivial⟩
  | none =>
    rw [hi] at hfind
    have hnone := Option.map_eq_none_iff.mp hfind
    have hlen : s.families.length = fonts.length := by rw [h.families, List.length_mapIdx]
    have hdict : Grows s.document (font.dictionary s.document false).1 := font.dictionary_grows _ false
    have he : Grows s.document ((font.dictionary s.document false).1.add
        (.dict (font.dictionary s.document false).2)).1 := hdict.trans (.add _ _ _)
    simp only [hnone, hlen]
    refine ⟨rfl, ⟨?_, Nat.le_trans h.low_le he.maxNumber, ⟨fun i f hf => ?_, fun key hkey => ?_⟩⟩, he,
      trivial⟩
    · simp only [h.families, List.mapIdx_append, List.mapIdx_cons, List.mapIdx_nil, Nat.zero_add]
      rfl
    · by_cases hlt : i < fonts.length
      · rw [List.getElem?_append_left hlt] at hf
        obtain ⟨id, d', hget, hfresh, hs⟩ := h.fontsIn.stored i f hf
        have hne : Syntax.ascii (fontName fonts.length) ≠ Syntax.ascii (fontName i) := fun heq =>
          absurd (fontName_injective heq) (by omega)
        obtain ⟨hfresh', hstored'⟩ := hfresh.grow he
        refine ⟨id, d', ?_, hfresh', hstored'.trans hs⟩
        exact (Dict.get?_set_of_ne _ _ hne).trans hget
      · have hi : i = fonts.length := by
          have := (List.getElem?_eq_some_iff.mp hf).1
          simp only [List.length_append, List.length_cons, List.length_nil] at this
          omega
        subst hi
        simp only [List.getElem?_concat_length, Option.some.injEq] at hf
        subst hf
        exact ⟨_, s.document, Dict.get?_set_self _ _ _,
          .add (Nat.le_trans h.low_le hdict.maxNumber) _, stored?_add_self _ _⟩
    · have hlen : (fonts ++ [font]).length = fonts.length + 1 := by simp
      have hother := h.fontsIn.other key fun i hi => hkey i (by omega)
      rw [← hother]
      exact (Dict.find?_setBytes _ _ _ _).trans (if_neg fun heq => hkey fonts.length (by omega) heq.symm)

variable [Scalar α]

/-- That a recognised text is left out: there is none, or its box has no height. -/
def isLeftOut (m : Mark α) (box : ViewerBox α) : Bool :=
  m.content.isEmpty || decide (Resolution.toPoints box.height ≤ Scalar.zero)

/-- The instructions that show a text in a font with a name. -/
def shown (font : FontSource) (name : String) (frame : PageFrame α) (m : Mark α) (box : ViewerBox α) :
    List (Instruction α) :=
  let size := Resolution.toPoints box.height
  [⟨"Tf", [.nameOf name, real size]⟩,
    ⟨"Tz", [real (stretch m.content box.width size * ((100 : Nat) : α))]⟩,
    ⟨"Tm", [.int 1, .int 0, .int 0, .int 1, real (frame.toPage box.x box.bottom).1,
      real (frame.toPage box.x box.bottom).2]⟩,
    ⟨"Tj", [.string (font.encode m.content) true]⟩]

/-- The fonts that are named and the program when texts are drawn one after another. -/
def plan (o : SaveOptions α) (frame : PageFrame α) :
    List FontSource → List (Mark α) → Except DocumentError (List FontSource × List (Instruction α))
  | fonts, [] => .ok (fonts, [])
  | fonts, m :: ms =>
    if isLeftOut m (m.box.unscaled o.effectiveScale) then plan o frame fonts ms
    else do
      let font ← o.fonts.resolve m.fontFamily m.content
      let (fonts', program) ← plan o frame (addFont fonts font).1 ms
      return (fonts', shown font (fontName (addFont fonts font).2) frame m
        (m.box.unscaled o.effectiveScale) ++ program)

/-- Drawing texts goes by the plan, whatever the document. -/
theorem Named.showAll {low : Nat} {base : Dict α} {o : SaveOptions α} {frame : PageFrame α}
    {ms : List (Mark α)} {s s' : Drawing α} {fonts : List FontSource} (h : Named low base s fonts)
    (hs : s.showAll o frame ms = .ok s') :
    ∃ fonts' program, plan o frame fonts ms = .ok (fonts', program) ∧
      s'.program = s.program ++ program ∧ Named low base s' fonts' ∧ Grows s.document s'.document := by
  induction ms generalizing s fonts with
  | nil =>
    cases hs
    exact ⟨fonts, [], rfl, by simp, h, .refl _ _⟩
  | cons m ms ih =>
    simp only [Drawing.showAll, bind, Except.bind] at hs
    cases hshow : s.show_ o.fonts frame m (m.box.unscaled o.effectiveScale) with
    | error e =>
      rw [hshow] at hs
      cases hs
    | ok s₁ =>
      rw [hshow] at hs
      simp only at hs
      by_cases hout : isLeftOut m (m.box.unscaled o.effectiveScale) = true
      · have hs₁ : s₁ = s := by
          simp only [isLeftOut] at hout
          simp only [Drawing.show_, hout, if_true] at hshow
          exact (Except.ok.inj hshow).symm
        subst hs₁
        obtain ⟨fonts', program, hp, hrest⟩ := ih h hs
        exact ⟨fonts', program, by simp only [plan, hout, if_true, hp], hrest⟩
      · simp only [isLeftOut] at hout
        simp only [Drawing.show_, hout, bind, Except.bind, Bool.false_eq_true, if_false] at hshow
        cases hres : o.fonts.resolve m.fontFamily m.content with
        | error e =>
          rw [hres] at hshow
          cases hshow
        | ok font =>
          rw [hres] at hshow
          obtain ⟨hname, hnamed, hedit, hprogram⟩ := h.font font
          have hs₁ : s₁ = { (s.font font).1 with
              program := s.program ++ shown font (fontName (addFont fonts font).2) frame m
                (m.box.unscaled o.effectiveScale) } := by
            rw [← hname, ← hprogram]
            exact (Except.ok.inj hshow).symm
          subst hs₁
          obtain ⟨fonts', program, hp, hprog, hnamed', hedit'⟩ :=
            ih (hnamed.withProgram _) hs
          refine ⟨fonts', shown font (fontName (addFont fonts font).2) frame m
            (m.box.unscaled o.effectiveScale) ++ program, ?_, ?_, hnamed', hedit.trans hedit'⟩
          · simp only [plan, isLeftOut, hout, hres, hp, bind, Except.bind, Bool.false_eq_true, if_false]
            rfl
          · rw [hprog, List.append_assoc]

theorem plan_cons {o : SaveOptions α} {frame : PageFrame α} {m : Mark α} {ms : List (Mark α)}
    {fonts fonts' : List FontSource} {program : List (Instruction α)}
    (h : plan o frame fonts (m :: ms) = .ok (fonts', program)) :
    (isLeftOut m (m.box.unscaled o.effectiveScale) = true ∧
        plan o frame fonts ms = .ok (fonts', program)) ∨
      (isLeftOut m (m.box.unscaled o.effectiveScale) = false ∧
        ∃ font rest, o.fonts.resolve m.fontFamily m.content = .ok font ∧
          plan o frame (addFont fonts font).1 ms = .ok (fonts', rest) ∧
          program = shown font (fontName (addFont fonts font).2) frame m
            (m.box.unscaled o.effectiveScale) ++ rest) := by
  unfold plan at h
  split at h
  · rename_i hout
    exact .inl ⟨hout, h⟩
  · rename_i hout
    refine .inr ⟨by simpa using hout, ?_⟩
    simp only [bind, Except.bind] at h
    cases hres : o.fonts.resolve m.fontFamily m.content with
    | error e =>
      rw [hres] at h
      cases h
    | ok font =>
      rw [hres] at h
      cases hrest : plan o frame (addFont fonts font).1 ms with
      | error e =>
        simp only [hrest] at h
        cases h
      | ok found =>
        simp only [hrest] at h
        cases h
        exact ⟨font, found.2, rfl, hrest, rfl⟩

/-- Fonts keep their places. -/
theorem plan_prefix {o : SaveOptions α} {frame : PageFrame α} {ms : List (Mark α)}
    {fonts fonts' : List FontSource} {program : List (Instruction α)}
    (h : plan o frame fonts ms = .ok (fonts', program)) : fonts <+: fonts' := by
  induction ms generalizing fonts program with
  | nil =>
    cases h
    exact List.prefix_rfl
  | cons m ms ih =>
    rcases plan_cons h with ⟨-, hrest⟩ | ⟨-, font, rest, -, hrest, -⟩
    · exact ih hrest
    · exact (addFont_extends fonts font).trans (ih hrest)

end MarkWriter

end Marginalia

import Mathlib.Data.List.FinRange
import Marginalia.Proofs.Geometry.Hull
import Marginalia.Proofs.Text.Lowering
import Marginalia.Proofs.Text.Scan
import Marginalia.Mark.Selection

/-!
What a drag selects and what a query finds. The comparison of sides says whether two boxes have a point in common, so
a selection depends on the points that were dragged over and not on the corner that the drag began at. A query finds
the texts that it stands in as it is, unless a capital sigma in it has another form there.
-/

namespace Marginalia

/-- A list filtered is the list at the positions, in ascending order, of what passes. -/
theorem filter_eq_map_get {β : Type} (p : β → Bool) (l : List β) :
    l.filter p = ((List.finRange l.length).filter fun i => p (l.get i)).map l.get := by
  conv_lhs => rw [← List.map_get_finRange l, List.filter_map]
  rfl

/-- That a filtered list has what is at some positions of the list, each position once and in ascending order. -/
theorem exists_positions {β : Type} {p : β → Bool} {q : β → Prop} (hpq : ∀ v, p v = true ↔ q v) (l : List β) :
    ∃ positions : List (Fin l.length), positions.Pairwise (· < ·) ∧ (∀ i, i ∈ positions ↔ q (l.get i)) ∧
      l.filter p = positions.map l.get := by
  refine ⟨_, (List.pairwise_lt_finRange l.length).sublist List.filter_sublist, fun i => ?_, filter_eq_map_get p l⟩
  rw [List.mem_filter, hpq]
  exact and_iff_right (List.mem_finRange i)

variable {N : Numerals}

namespace ViewerBox

variable {a b : ViewerBox (Exact N)}

/-- Boxes intersect when they have a point in common, one on their edges included. -/
theorem intersects_iff : a.intersects b = true ↔ (a.points ∩ b.points).Nonempty := by
  have hax := a.left_le_right_normalized
  have hbx := b.left_le_right_normalized
  have hay := a.top_le_bottom_normalized
  have hby := b.top_le_bottom_normalized
  rw [a.points_eq, b.points_eq, Set.prod_inter_prod, Set.prod_nonempty_iff, Set.Icc_inter_Icc, Set.Icc_inter_Icc,
    Set.nonempty_Icc, Set.nonempty_Icc, sup_le_iff, sup_le_iff, le_inf_iff, le_inf_iff, le_inf_iff, le_inf_iff]
  simp only [intersects, Bool.and_eq_true, decide_eq_true_eq]
  constructor
  · rintro ⟨⟨⟨hab, hba⟩, hab'⟩, hba'⟩
    exact ⟨⟨⟨hax, hab⟩, hba, hbx⟩, ⟨hay, hab'⟩, hba', hby⟩
  · rintro ⟨⟨⟨-, hab⟩, hba, -⟩, ⟨-, hab'⟩, hba', -⟩
    exact ⟨⟨⟨hab, hba⟩, hab'⟩, hba'⟩

theorem isVisible_iff : b.isVisible = true ↔ b.width * b.height ≠ 0 := by
  rw [isVisible, decide_eq_true_eq, area, Exact.absolute_eq, Exact.zero_eq, abs_pos]

/-- The box that a drag from one point to another goes over. -/
def dragged (start stop : Exact N × Exact N) : ViewerBox (Exact N) :=
  ⟨start.1, start.2, stop.1 - start.1, stop.2 - start.2⟩

theorem points_dragged (start stop : Exact N × Exact N) :
    (dragged start stop).points = Set.uIcc start.1 stop.1 ×ˢ Set.uIcc start.2 stop.2 := by
  simp only [points, dragged, right, bottom, add_sub_cancel]

end ViewerBox

namespace Selection

open ViewerBox

variable {runs : List (TextRun (Exact N))} {drag drag' : ViewerBox (Exact N)}

/-- That a drag goes over a run: the box of the run has an area, and a point in common with the drag. -/
def Touches (drag : ViewerBox (Exact N)) (run : TextRun (Exact N)) : Prop :=
  run.box.width * run.box.height ≠ 0 ∧ (run.box.points ∩ drag.points).Nonempty

theorem isSelected_iff (run : TextRun (Exact N)) :
    (run.box.isVisible && run.box.intersects drag.normalized) = true ↔ Touches drag run := by
  rw [Bool.and_eq_true, isVisible_iff, intersects_iff, points_normalized, Touches]

/-- Drags over the same points select the same runs. -/
theorem select_congr (h : drag.points = drag'.points) : select runs drag = select runs drag' := by
  refine List.filter_congr fun run _ => ?_
  rw [Bool.eq_iff_iff, isSelected_iff, isSelected_iff, Touches, Touches, h]

/-- A drag selects the runs that it touches, each position of the list once and in ascending order, and it does not
matter from which of the four corners it began. -/
theorem select_touched (runs : List (TextRun (Exact N))) :
    (∀ drag, ∃ positions : List (Fin runs.length), positions.Pairwise (· < ·) ∧
      (∀ i, i ∈ positions ↔ Touches drag (runs.get i)) ∧ select runs drag = positions.map runs.get) ∧
    ∀ x₁ y₁ x₂ y₂,
      select runs (dragged (x₂, y₁) (x₁, y₂)) = select runs (dragged (x₁, y₁) (x₂, y₂)) ∧
      select runs (dragged (x₁, y₂) (x₂, y₁)) = select runs (dragged (x₁, y₁) (x₂, y₂)) ∧
      select runs (dragged (x₂, y₂) (x₁, y₁)) = select runs (dragged (x₁, y₁) (x₂, y₂)) := by
  constructor
  · intro drag
    exact exists_positions isSelected_iff runs
  · intro x₁ y₁ x₂ y₂
    have hx : Set.uIcc x₂ x₁ = Set.uIcc x₁ x₂ := Set.uIcc_comm x₂ x₁
    have hy : Set.uIcc y₂ y₁ = Set.uIcc y₁ y₂ := Set.uIcc_comm y₂ y₁
    refine ⟨select_congr ?_, select_congr ?_, select_congr ?_⟩ <;> simp only [points_dragged, hx, hy]

section Search

variable {α : Type}

/-- That a query finds, in the order of the list, all runs with certain texts. -/
def FindsAll (α : Type) (query : String) (wanted : List Char → Prop) : Prop :=
  ∀ runs : List (TextRun α), ∃ positions : List (Fin runs.length), positions.Pairwise (· < ·) ∧
    search runs query = positions.map runs.get ∧ ∀ i, wanted (runs.get i).text.toList → i ∈ positions

/-- That a part stands in a text where its capital sigmas have the forms that they have in the part alone. -/
def StandsAlike (part text : List Char) : Prop :=
  ∃ front back, text = front ++ part ++ back ∧
    Unicode.sigmaForms front.reverse part back = Unicode.sigmaForms [] part []

theorem search_eq {query : String} (hquery : Unicode.isBlank query = false) (runs : List (TextRun α)) :
    search runs query = runs.filter fun run =>
      containsRow (Unicode.lowerChars (Unicode.trimChars query.toList)) (Unicode.lowerChars run.text.toList) := by
  have hpart : Unicode.trimChars query.toList ≠ [] := by
    rw [Unicode.isBlank, List.all_eq_false] at hquery
    obtain ⟨c, hc, hdark⟩ := hquery
    exact List.ne_nil_of_mem ((Unicode.isWhite_or_mem_trimChars hc).resolve_left hdark)
  have hneedle := List.isEmpty_eq_false_iff.mpr (Unicode.lowerChars_ne_nil hpart)
  simp only [search, hneedle, Bool.false_eq_true, if_false]

/-- A query finds all runs with certain texts when the lower case of these has the lower case of the query in it. -/
theorem findsAll_iff [Scalar α] {query : String} (hquery : Unicode.isBlank query = false)
    {wanted : List Char → Prop} : FindsAll α query wanted ↔
      ∀ text, wanted text → Unicode.lowerChars (Unicode.trimChars query.toList) <:+: Unicode.lowerChars text := by
  constructor
  · intro h text htext
    let run : TextRun α := ⟨String.ofList text, ⟨Scalar.zero, Scalar.zero, Scalar.zero, Scalar.zero⟩⟩
    have hrun : run.text.toList = text := String.toList_ofList
    obtain ⟨positions, -, hfound, hwanted⟩ := h [run]
    have hmem : run ∈ search [run] query := by
      rw [hfound]
      exact List.mem_map_of_mem (hwanted 0 (hrun ▸ htext))
    rw [search_eq hquery, List.mem_filter, hrun] at hmem
    exact containsRow_iff.mp hmem.2
  · intro h runs
    have hheld (run : TextRun α) : containsRow (Unicode.lowerChars (Unicode.trimChars query.toList))
          (Unicode.lowerChars run.text.toList) = true ↔
        Unicode.lowerChars (Unicode.trimChars query.toList) <:+: Unicode.lowerChars run.text.toList := containsRow_iff
    obtain ⟨positions, hascending, hmem, hfound⟩ := exists_positions hheld runs
    exact ⟨positions, hascending, (search_eq hquery runs).trans hfound, fun i hi => (hmem i).mpr (h _ hi)⟩

/-- A query finds every text that it stands in with its sigmas in the forms that they have in the query. It finds
every text that it stands in at all when these forms are the same everywhere, and only then; a query without capital
sigma does. -/
theorem search_literal [Scalar α] {query : String} (hquery : Unicode.isBlank query = false) :
    let part := Unicode.trimChars query.toList
    FindsAll α query (StandsAlike part) ∧ (FindsAll α query (part <:+: ·) ↔ Unicode.IsSteady part) ∧
      (Unicode.capitalSigma ∉ part → FindsAll α query (part <:+: ·)) := by
  intro part
  have hsteady : FindsAll α query (part <:+: ·) ↔ Unicode.IsSteady part := by
    rw [findsAll_iff hquery]
    exact Unicode.lowerChars_infix_iff
  refine ⟨?_, hsteady, fun hnone => hsteady.mpr (Unicode.isSteady_of_not_mem hnone)⟩
  rw [findsAll_iff hquery]
  rintro text ⟨front, back, rfl, hforms⟩
  exact Unicode.lowerChars_infix hforms

/-- A sigma that the query goes on behind is steady. -/
theorem search_literal_inner : Unicode.isBlank " ΜΕΣΑ " = false ∧
    FindsAll Float " ΜΕΣΑ " ("ΜΕΣΑ".toList <:+: ·) := by
  have hquery : Unicode.isBlank " ΜΕΣΑ " = false := by decide +kernel
  have hsteady : Unicode.IsSteady (Unicode.trimChars " ΜΕΣΑ ".toList) := by decide +kernel
  exact ⟨hquery, (search_literal hquery).2.1.mpr hsteady⟩

/-- A sigma at the end of the query has the form for the end of a word, and none of that form is in the text. -/
theorem search_literal_cut : Unicode.isBlank "ΜΕΣ" = false ∧ "ΜΕΣ".toList <:+: "ΜΕΣΑ".toList ∧
    search [(⟨"ΜΕΣΑ", ⟨0, 0, 40, 12⟩⟩ : TextRun Float)] "ΜΕΣ" = [] := by
  decide +kernel

end Search

end Selection

end Marginalia

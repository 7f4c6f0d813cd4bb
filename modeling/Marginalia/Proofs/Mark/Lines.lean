import Mathlib.Algebra.Order.Floor.Ring
import Mathlib.Data.Finset.Sort
import Mathlib.Data.Rat.Floor
import Marginalia.Proofs.Geometry.Hull
import Marginalia.Proofs.Mark.ReadingOrder
import Marginalia.Proofs.Number.Plain

/-!
The lines that a selection falls into. Runs are put into their lines one after the other, and each line keeps the
box around what it holds so far; what comes out is told without that history, by the rows that the runs start in.
-/

namespace Marginalia

namespace Selection

section Steps

variable {α : Type} [Scalar α]

/-- The lines stand in the order of their bands, from top to bottom and one for each. -/
def Ascending (ls : List (Line α)) : Prop := ls.Pairwise fun l l' => l.band < l'.band

theorem mem_bands_addRun (run : TextRun α) (ls : List (Line α)) (k : Int) :
    k ∈ (addRun run ls).map Line.band ↔ k = band run ∨ k ∈ ls.map Line.band := by
  induction ls with
  | nil => simp [addRun]
  | cons l rest ih =>
    rw [addRun]
    split
    · simp only [List.map_cons, List.mem_cons]
    · split
      · rename_i h
        simp only [List.map_cons, List.mem_cons, h, or_self_left]
      · simp only [List.map_cons, List.mem_cons, ih]
        exact or_left_comm

theorem ascending_addRun (run : TextRun α) {ls : List (Line α)} (h : Ascending ls) : Ascending (addRun run ls) := by
  induction ls with
  | nil => exact List.pairwise_singleton _ _
  | cons l rest ih =>
    obtain ⟨hl, hrest⟩ := List.pairwise_cons.mp h
    rw [addRun]
    split
    · rename_i hlt
      refine List.pairwise_cons.mpr ⟨?_, h⟩
      intro l' hl'
      rcases List.mem_cons.mp hl' with rfl | hl'
      · exact hlt
      · exact hlt.trans (hl l' hl')
    · split
      · exact List.pairwise_cons.mpr ⟨hl, hrest⟩
      · refine List.pairwise_cons.mpr ⟨?_, ih hrest⟩
        intro l' hl'
        rcases (mem_bands_addRun run rest l'.band).mp (List.mem_map_of_mem hl') with hk | hk
        · omega
        · obtain ⟨l'', hl'', hk⟩ := List.mem_map.mp hk
          exact hk ▸ hl l'' hl''

/-- A run goes into one line, and nothing else is moved. -/
theorem members_addRun (run : TextRun α) (ls : List (Line α)) :
    ((addRun run ls).flatMap Line.members).Perm (run :: ls.flatMap Line.members) := by
  induction ls with
  | nil => exact .refl _
  | cons l rest ih =>
    rw [addRun]
    split
    · exact .refl _
    · split
      · exact .refl _
      · simp only [List.flatMap_cons]
        exact (ih.append_left l.members).trans List.perm_middle

/-- What a line can be after a run was put in: one of another band as it was, one that the run opens, or the line
of its band with the run in it. -/
theorem mem_addRun {run : TextRun α} {ls : List (Line α)} {l : Line α} (h : Ascending ls) (hl : l ∈ addRun run ls) :
    (l ∈ ls ∧ l.band ≠ band run) ∨
      (band run ∉ ls.map Line.band ∧ l = ⟨band run, run.box.normalized, [run]⟩) ∨
      ∃ l₀ ∈ ls, l₀.band = band run ∧ l = { l₀ with box := l₀.box.union run.box, members := run :: l₀.members } := by
  induction ls with
  | nil => exact .inr (.inl ⟨List.not_mem_nil, List.mem_singleton.mp hl⟩)
  | cons l₁ rest ih =>
    obtain ⟨hfirst, hrest⟩ := List.pairwise_cons.mp h
    rw [addRun] at hl
    split at hl
    · rename_i hlt
      have hbelow : ∀ l' ∈ l₁ :: rest, band run < l'.band := by
        intro l' hl'
        rcases List.mem_cons.mp hl' with rfl | hl'
        · exact hlt
        · exact hlt.trans (hfirst l' hl')
      rcases List.mem_cons.mp hl with rfl | hl
      · refine .inr (.inl ⟨fun hmem => ?_, rfl⟩)
        obtain ⟨l', hl', hk⟩ := List.mem_map.mp hmem
        exact (hbelow l' hl').ne' hk
      · exact .inl ⟨hl, (hbelow l hl).ne'⟩
    · split at hl
      · rename_i heq
        rcases List.mem_cons.mp hl with rfl | hl
        · exact .inr (.inr ⟨l₁, List.mem_cons_self, heq.symm, rfl⟩)
        · exact .inl ⟨List.mem_cons_of_mem _ hl, heq ▸ (hfirst l hl).ne'⟩
      · rename_i hlt hne
        rcases List.mem_cons.mp hl with rfl | hl
        · exact .inl ⟨List.mem_cons_self, Ne.symm hne⟩
        · rcases ih hrest hl with ⟨hmem, hk⟩ | ⟨hnew, rfl⟩ | ⟨l₀, hmem, hk, rfl⟩
          · exact .inl ⟨List.mem_cons_of_mem _ hmem, hk⟩
          · refine .inr (.inl ⟨?_, rfl⟩)
            rw [List.map_cons, List.mem_cons, not_or]
            exact ⟨hne, hnew⟩
          · exact .inr (.inr ⟨l₀, List.mem_cons_of_mem _ hmem, hk, rfl⟩)

end Steps

variable {N : Numerals}

/-- The runs picked so far are in lines: one for each band, each with the runs that start in it as they were picked
and with the smallest box around them. -/
structure Grouped (runs : List (TextRun (Exact N))) (ls : List (Line (Exact N))) : Prop where
  ascending : Ascending ls
  bands : ∀ k, k ∈ ls.map Line.band ↔ k ∈ runs.map band
  partition : (ls.flatMap Line.members).Perm runs
  members : ∀ l ∈ ls, l.members.reverse = runs.filter fun run => band run = l.band
  hull : ∀ l ∈ ls, l.box.IsHull (l.members.map fun run => run.box.normalized)

/-- Putting one more run into its line keeps all of this. -/
theorem Grouped.addRun {runs : List (TextRun (Exact N))} {ls : List (Line (Exact N))} (h : Grouped runs ls)
    (run : TextRun (Exact N)) : Grouped (runs ++ [run]) (addRun run ls) where
  ascending := ascending_addRun run h.ascending
  bands k := by
    rw [mem_bands_addRun, h.bands, List.map_append, List.mem_append, List.map_singleton, List.mem_singleton, or_comm]
  partition := by
    have hend : (run :: runs).Perm (runs ++ [run]) := (List.perm_append_singleton run runs).symm
    exact (members_addRun run ls).trans ((h.partition.cons run).trans hend)
  members l hl := by
    rw [List.filter_append]
    rcases mem_addRun h.ascending hl with ⟨hl, hk⟩ | ⟨hnew, rfl⟩ | ⟨l₀, hl₀, hk, rfl⟩
    · rw [List.filter_singleton, decide_eq_false hk.symm, cond_false, List.append_nil, h.members l hl]
    · have hnone : (runs.filter fun r => band r = band run) = [] := by
        rw [List.filter_eq_nil_iff]
        intro r hr hk
        exact hnew ((h.bands _).mpr (of_decide_eq_true hk ▸ List.mem_map_of_mem hr))
      simp only [hnone, List.filter_singleton, decide_true, cond_true, List.reverse_singleton, List.nil_append]
    · simp only [List.reverse_cons, h.members l₀ hl₀, hk, List.filter_singleton, decide_true, cond_true]
  hull l hl := by
    rcases mem_addRun h.ascending hl with ⟨hl, _⟩ | ⟨_, rfl⟩ | ⟨l₀, hl₀, _, rfl⟩
    · exact h.hull l hl
    · exact .single run.box
    · exact (h.hull l₀ hl₀).union run.box

/-- The lines of a selection are its runs in lines. The induction takes the run that was picked last. -/
theorem grouped_lines (runs : List (TextRun (Exact N))) : Grouped runs (lines runs) := by
  induction runs using List.reverseRecOn with
  | nil => exact ⟨.nil, fun _ => Iff.rfl, .nil, List.forall_mem_nil _, List.forall_mem_nil _⟩
  | append_singleton runs run ih =>
    rw [lines, List.foldl_concat]
    exact ih.addRun run

instance : FloorRing (Exact N) := inferInstanceAs (FloorRing ℚ)

/-- The row of the page that a run starts in. Rows are ten pixels high. -/
def row (run : TextRun (Exact N)) : Int := ⌊run.box.y / (10 : Nat)⌋

theorem band_eq_row {run : TextRun (Exact N)} (h : -2 ^ 63 ≤ row run ∧ row run < 2 ^ 63) : band run = row run := by
  have hband : band run = max (-9223372036854775808) (min 9223372036854775807 (row run)) := rfl
  omega

/-- The rows that some runs start in, from top to bottom. -/
def rows (runs : List (TextRun (Exact N))) : List Int := (runs.map row).toFinset.sort

/-- The runs that start in a row, as they are listed. -/
def inRow (runs : List (TextRun (Exact N))) (k : Int) : List (TextRun (Exact N)) :=
  runs.filter fun run => row run = k

/-- An annotation of a kind and a page that has what the kind has by default, whose box is the smallest one around
some runs and whose text is read off them. -/
structure IsMarkOf (kind : MarkKind) (page : Nat) (runs : List (TextRun (Exact N))) (m : Mark (Exact N)) : Prop where
  made : m = Mark.new kind page m.box m.content
  hull : m.box.IsHull (runs.map fun run => run.box.normalized)
  reading : ∃ ordered, IsReading ordered runs ∧ m.content = " ".intercalate (ordered.map TextRun.text)

/-- Runs that start at different places have one annotation, however they are listed. -/
theorem IsMarkOf.unique {kind : MarkKind} {page : Nat} {runs runs' : List (TextRun (Exact N))} {m m' : Mark (Exact N)}
    (h : IsMarkOf kind page runs m) (h' : IsMarkOf kind page runs' m') (hruns : runs.Perm runs')
    (hplaces : (runs.map start).Nodup) : m = m' := by
  obtain ⟨ordered, hordered, hcontent⟩ := h.reading
  obtain ⟨ordered', hordered', hcontent'⟩ := h'.reading
  have hbox : m.box = m'.box := (h.hull.perm (hruns.map _)).unique h'.hull
  have htext : m.content = m'.content := by
    rw [hcontent, hcontent', hordered.unique hordered' hruns hplaces]
  rw [h.made, h'.made, hbox, htext]

section Rows

variable {runs : List (TextRun (Exact N))} (hrows : ∀ run ∈ runs, -2 ^ 63 ≤ row run ∧ row run < 2 ^ 63)

include hrows

theorem rows_eq : rows runs = (lines runs).map Line.band := by
  have h := grouped_lines runs
  apply List.Pairwise.eq_of_mem_iff (r := (· < ·)) (Finset.sortedLT_sort _).pairwise (List.pairwise_map.mpr h.ascending)
  intro k
  rw [Finset.mem_sort, List.mem_toFinset, h.bands, List.map_congr_left fun run hrun => band_eq_row (hrows run hrun)]

theorem inRow_eq (k : Int) : inRow runs k = runs.filter fun run => band run = k :=
  List.filter_congr fun run hrun => by rw [band_eq_row (hrows run hrun)]

theorem members_eq {l : Line (Exact N)} (hl : l ∈ lines runs) : l.members.reverse = inRow runs l.band := by
  rw [inRow_eq hrows, (grouped_lines runs).members l hl]

theorem forall₂_marks (kind : MarkKind) (page : Nat) :
    List.Forall₂ (fun k => IsMarkOf kind page (inRow runs k)) (rows runs) (marks runs kind page) := by
  have h := grouped_lines runs
  rw [rows_eq hrows, marks, List.forall₂_map_left_iff, List.forall₂_map_right_iff, List.forall₂_same]
  intro l hl
  have hhull := h.hull l hl
  rw [← members_eq hrows hl]
  constructor
  · rw [Mark.new, Mark.new, ViewerBox.normalized_normalized]
  · rw [Mark.new, hhull.normal]
    exact hhull.perm (l.members.reverse_perm.symm.map _)
  · exact ⟨_, isReading_mergeSort _, rfl⟩

theorem flatMap_inRow_perm : ((rows runs).flatMap (inRow runs)).Perm runs := by
  have hlines : ((rows runs).flatMap (inRow runs)).Perm ((lines runs).flatMap Line.members) := by
    rw [rows_eq hrows, List.flatMap_map]
    refine List.Perm.flatMap_left _ fun l hl => ?_
    rw [← members_eq hrows hl]
    exact l.members.reverse_perm
  exact hlines.trans (grouped_lines runs).partition

theorem marks_perm {runs' : List (TextRun (Exact N))} (hruns : runs'.Perm runs) (hplaces : (runs.map start).Nodup)
    (kind : MarkKind) (page : Nat) : marks runs' kind page = marks runs kind page := by
  have hrows' : ∀ run ∈ runs', -2 ^ 63 ≤ row run ∧ row run < 2 ^ 63 := fun run hrun =>
    hrows run (hruns.mem_iff.mp hrun)
  have hsame : rows runs' = rows runs := by
    rw [rows, rows, List.toFinset_eq_of_perm _ _ (hruns.map row)]
  -- both have in every row an annotation around the runs of that row, in some order
  let around : Int → Mark (Exact N) → Prop := fun k m =>
    ∃ members, members.Perm (inRow runs k) ∧ IsMarkOf kind page members m
  have hunique : Relator.RightUnique around := by
    rintro k m m' ⟨members, hmembers, hm⟩ ⟨members', hmembers', hm'⟩
    apply hm.unique hm' (hmembers.trans hmembers'.symm)
    rw [(hmembers.map start).nodup_iff]
    exact hplaces.sublist (List.filter_sublist.map start)
  have hleft : List.Forall₂ around (rows runs) (marks runs' kind page) := by
    rw [← hsame]
    exact (forall₂_marks hrows' kind page).imp fun k m hm => ⟨_, hruns.filter _, hm⟩
  have hright : List.Forall₂ around (rows runs) (marks runs kind page) :=
    (forall₂_marks hrows kind page).imp fun k m hm => ⟨_, .refl _, hm⟩
  exact List.right_unique_forall₂' hunique hleft hright

end Rows

/-- The annotations of a selection partition it by rows: there is one for each row that a run starts in, from top to
bottom, around the runs of that row and with their text in reading order, and each run is in one row. If no two runs
start at one place, the order in which they were picked does not matter. The numbers of the rows have to be machine
integers. -/
theorem marks_partition (runs : List (TextRun (Exact N))) (kind : MarkKind) (page : Nat)
    (hrows : ∀ run ∈ runs, -2 ^ 63 ≤ row run ∧ row run < 2 ^ 63) :
    List.Forall₂ (fun k => IsMarkOf kind page (inRow runs k)) (rows runs) (marks runs kind page) ∧
      ((rows runs).flatMap (inRow runs)).Perm runs ∧
      ((runs.map start).Nodup →
        ∀ runs' : List (TextRun (Exact N)), runs'.Perm runs → marks runs' kind page = marks runs kind page) :=
  ⟨forall₂_marks hrows kind page, flatMap_inRow_perm hrows, fun hplaces _ hruns =>
    marks_perm hrows hruns hplaces kind page⟩

/-- Two runs of one row, one of them dragged out to the left and upwards, and one above the page. -/
theorem marks_partition_backwards :
    let runs : List (TextRun (Exact .plain)) :=
      [⟨"up", ⟨20, 15, -8, -3⟩⟩, ⟨"look", ⟨30, 12, 5, 5⟩⟩, ⟨"head", ⟨0, -1, 4, 4⟩⟩]
    (∀ run ∈ runs, -2 ^ 63 ≤ row run ∧ row run < 2 ^ 63) ∧ (runs.map start).Nodup ∧
      rows runs = [-1, 1] ∧
      List.Forall₂ (fun k => IsMarkOf .highlight 3 (inRow runs k)) (rows runs) (marks runs .highlight 3) ∧
      marks runs.reverse .highlight 3 = marks runs .highlight 3 := by
  intro runs
  have hrows : ∀ run ∈ runs, -2 ^ 63 ≤ row run ∧ row run < 2 ^ 63 := by decide +kernel
  have hplaces : (runs.map start).Nodup := by decide +kernel
  have hbands : (lines runs).map Line.band = [-1, 1] := by decide +kernel
  obtain ⟨hmarks, _, hperm⟩ := marks_partition runs .highlight 3 hrows
  exact ⟨hrows, hplaces, (rows_eq hrows).trans hbands, hmarks, hperm hplaces _ runs.reverse_perm⟩

end Selection

end Marginalia

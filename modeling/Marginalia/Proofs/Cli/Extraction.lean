import Mathlib.Data.List.Perm.Basic
import Marginalia.Proofs.Cli.Files

/-!
The extraction of pages by tasks that run beside each other. The host decides in which order the tasks are done, and
the results are put in the order of the pages, so that the same is extracted whatever the host decides.
-/

namespace Marginalia

namespace Program

section Tasks

variable {σ β : Type} [Host (StateM σ)]

theorem cons_eraseIdx_perm {n next : Nat} (running : Vector β (n + 1)) (h : next < n + 1) :
    (running[next] :: (running.eraseIdx next).toList).Perm running.toList := by
  obtain ⟨items, hsize⟩ := running
  have hlt : next < items.toList.length := by rwa [Array.length_toList, hsize]
  simpa using List.getElem_cons_eraseIdx_perm hlt

/-- Whichever task the host lets be done next, each is done once. -/
theorem joinAll_perm {n : Nat} (running : Vector β n) (w : σ) :
    ((joinAll n running : StateM σ (List β)) w).1.Perm running.toList := by
  induction n generalizing w with
  | zero =>
    obtain rfl : running = #v[] := Vector.eq_empty
    exact .nil
  | succ n ih =>
    rcases hnext : (Host.nextDone n : StateM σ (Fin (n + 1))) w with ⟨next, w'⟩
    rcases hrest : (joinAll n (running.eraseIdx next) : StateM σ (List β)) w' with ⟨rest, w''⟩
    have hperm := ih (running.eraseIdx next) w'
    rw [hrest] at hperm
    rw [joinAll, state_bind hnext, state_bind hrest]
    exact (hperm.cons _).trans (cons_eraseIdx_perm running next.isLt)

end Tasks

/-- The results of pages sorted are the results in the order of the pages, in whichever order they came. -/
theorem mergeSort_results {pages : List Nat} (hpages : pages.Pairwise (· ≤ ·)) (runs : Nat → List (TextRun Float))
    {results : List PageRuns} (h : results.Perm (pages.map fun page => ⟨page, runs page⟩)) :
    (results.mergeSort fun a b => a.page ≤ b.page) = pages.map fun page => ⟨page, runs page⟩ := by
  have hsorted : (results.mergeSort fun a b => a.page ≤ b.page).Pairwise fun a b => a.page ≤ b.page := by
    have htrans (a b c : PageRuns) : decide (a.page ≤ b.page) = true → decide (b.page ≤ c.page) = true →
        decide (a.page ≤ c.page) = true := by simpa using Nat.le_trans
    have htotal (a b : PageRuns) : (decide (a.page ≤ b.page) || decide (b.page ≤ a.page)) = true := by
      simpa using Nat.le_total a.page b.page
    simpa using List.pairwise_mergeSort htrans htotal results
  have hperm := (List.mergeSort_perm results fun a b => decide (a.page ≤ b.page)).trans h
  refine List.Perm.eq_of_pairwise ?_ hsorted (List.pairwise_map.mpr hpages) hperm
  -- there is one result for a page, so two that are not apart in the order are one
  intro a b ha hb hab hba
  obtain ⟨p, -, rfl⟩ := List.mem_map.mp (hperm.mem_iff.mp ha)
  obtain ⟨q, -, rfl⟩ := List.mem_map.mp hb
  obtain rfl : p = q := Nat.le_antisymm hab hba
  rfl

section Extraction

variable {σ : Type} [Host (StateM σ)]

omit [Host (StateM σ)] in
theorem pure_run {β : Type} (v : β) (w : σ) : (pure v : ExceptT Failure (StateM σ) β) w = (.ok v, w) := rfl

theorem readPages_eq (d : Document Float) (nesting : Nat) {pages : List Nat} (hpages : pages.Pairwise (· ≤ ·))
    (w : σ) : ((readPages d nesting pages : StateM σ (List PageRuns)) w).1 =
      pages.map fun page => ⟨page, d.pageText page nesting⟩ := by
  let tasks := pages.toArray.map fun page => PageRuns.mk page (d.pageText page nesting)
  rcases hjoin : (joinAll tasks.size tasks.toVector : StateM σ (List PageRuns)) w with ⟨results, w'⟩
  have hperm := joinAll_perm tasks.toVector w
  rw [hjoin] at hperm
  rw [readPages, state_bind hjoin]
  apply mergeSort_results hpages
  simpa [tasks] using hperm

theorem lift_readPages (d : Document Float) (nesting : Nat) {pages : List Nat} (hpages : pages.Pairwise (· ≤ ·))
    (w : σ) : ((ExceptT.lift (readPages d nesting pages) : ExceptT Failure (StateM σ) (List PageRuns)) w).1 =
      .ok (pages.map fun page => ⟨page, d.pageText page nesting⟩) := by
  rw [← readPages_eq d nesting hpages w]
  rfl

omit [Host (StateM σ)] in
theorem checkPage_run (page count : Nat) (w : σ) : (checkPage page count : ExceptT Failure (StateM σ) Unit) w =
    (if 1 ≤ page ∧ page ≤ count then .ok () else .error (.noSuchPage page count), w) := by
  by_cases hin : 1 ≤ page ∧ page ≤ count
  · rw [checkPage, if_neg (by simp; omega), if_pos hin]
    rfl
  · rw [checkPage, if_pos (by simp; omega), if_neg hin]
    rfl

/-- In whichever order the tasks of the pages are done, the same is extracted from a document: the runs of the page
asked for, or those of all pages in order. A page that the document does not have is an error. -/
theorem extract_unordered (s : Settings) {file : Bytes} {d : Document Float} (hd : File.document file = .ok d)
    (w : σ) :
    ((extract s file none : ExceptT Failure (StateM σ) (List PageRuns)) w).1 =
        .ok ((List.range' 1 d.pageCount).map fun page => ⟨page, d.pageText page s.maxNesting⟩) ∧
      ∀ page, ((extract s file (some page) : ExceptT Failure (StateM σ) (List PageRuns)) w).1 =
        if 1 ≤ page ∧ page ≤ d.pageCount then .ok [⟨page, d.pageText page s.maxNesting⟩]
        else .error (.noSuchPage page d.pageCount) := by
  have hfound : (found (File.document file) : ExceptT Failure (StateM σ) (Document Float)) w = (.ok d, w) := by
    rw [hd]
    rfl
  constructor
  · have hall : (List.range d.pageCount).map (· + 1) = List.range' 1 d.pageCount := by
      rw [List.range'_eq_map_range]
      exact List.map_congr_left fun page _ => Nat.add_comm page 1
    have hascending : (List.range' 1 d.pageCount).Pairwise (· ≤ ·) := List.pairwise_le_range'
    rw [extract, bind_ok hfound]
    simp only
    rw [bind_ok (pure_run _ w), hall]
    exact lift_readPages d s.maxNesting hascending w
  · intro page
    have hchecked := checkPage_run page d.pageCount w
    rw [extract, bind_ok hfound]
    simp only
    split
    · rename_i hin
      rw [if_pos hin] at hchecked
      rw [bind_ok hchecked, bind_ok (pure_run _ w)]
      exact lift_readPages d s.maxNesting (List.pairwise_singleton _ page) w
    · rename_i hout
      rw [if_neg hout] at hchecked
      rw [bind_error hchecked]

end Extraction

/-- A host without files, under which tasks are done by their numbers among those that still run. -/
structure Schedule where
  picks : List Nat

instance : Host (StateM Schedule) where
  readFile _ := pure (.error .notFound)
  writeFile _ _ := pure (.error .notFound)
  makeFolders _ := pure (.error .notFound)
  pathExists _ := pure false
  print _ := pure ()
  note _ := pure ()
  drawId := pure (.ofRandom [])
  nextDone others := fun w => (⟨w.picks.headD 0 % (others + 1), Nat.mod_lt _ others.succ_pos⟩, ⟨w.picks.tail⟩)

/-- Tasks can be done in every order. -/
theorem exists_schedule {β : Type} {n : Nat} (running : Vector β n) {order : List β} (h : order.Perm running.toList) :
    ∃ schedule, ((joinAll n running : StateM Schedule (List β)) schedule).1 = order := by
  induction n generalizing order with
  | zero =>
    obtain rfl : running = #v[] := Vector.eq_empty
    exact ⟨⟨[]⟩, h.eq_nil.symm⟩
  | succ n ih =>
    have hlength : order.length = n + 1 := h.length_eq.trans running.length_toList
    obtain ⟨first, rest, rfl⟩ := List.exists_cons_of_length_eq_add_one hlength
    obtain ⟨i, hi, hfirst⟩ := List.mem_iff_getElem.mp (h.subset List.mem_cons_self)
    rw [Vector.length_toList] at hi
    rw [Vector.getElem_toList] at hfirst
    subst hfirst
    have hrest : rest.Perm (running.eraseIdx i).toList :=
      (h.trans (cons_eraseIdx_perm running hi).symm).cons_inv
    obtain ⟨⟨picks⟩, hpicks⟩ := ih (running.eraseIdx i) hrest
    refine ⟨⟨i :: picks⟩, ?_⟩
    have hnext : (Host.nextDone n : StateM Schedule (Fin (n + 1))) ⟨i :: picks⟩ = (⟨i, hi⟩, ⟨picks⟩) :=
      Prod.ext (Fin.ext (Nat.mod_eq_of_lt hi)) rfl
    rcases hjoin : (joinAll n (running.eraseIdx i) : StateM Schedule (List β)) ⟨picks⟩ with ⟨results, w⟩
    rw [hjoin] at hpicks
    rw [joinAll, state_bind hnext, state_bind hjoin]
    exact congrArg _ hpicks

/-- The second page of a document is done first. -/
theorem extract_unordered_reversed : ∃ d, File.document twoLeaves.print = .ok d ∧ d.pageCount = 2 ∧
    ((extract .default twoLeaves.print none : ExceptT Failure (StateM Schedule) (List PageRuns)) ⟨[1, 0]⟩).1 =
      .ok [⟨1, d.pageText 1 defaultFormNesting⟩, ⟨2, d.pageText 2 defaultFormNesting⟩] ∧
    ((extract .default twoLeaves.print (some 3) : ExceptT Failure (StateM Schedule) (List PageRuns)) ⟨[]⟩).1 =
      .error (.noSuchPage 3 2) := by
  have hcount : (File.document twoLeaves.print).map Document.pageCount = .ok 2 := by decide +kernel
  cases hd : File.document twoLeaves.print with
  | error e =>
    rw [hd] at hcount
    cases hcount
  | ok d =>
    rw [hd] at hcount
    have hpages : d.pageCount = 2 := Except.ok.inj hcount
    obtain ⟨hall, -⟩ := extract_unordered .default hd (⟨[1, 0]⟩ : Schedule)
    obtain ⟨-, hone⟩ := extract_unordered .default hd (⟨[]⟩ : Schedule)
    have hthree := hone 3
    rw [hpages] at hall hthree
    exact ⟨d, rfl, hpages, hall, hthree⟩

end Program

end Marginalia

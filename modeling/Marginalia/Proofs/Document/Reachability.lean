import Mathlib.Algebra.GroupWithZero.Nat
import Marginalia.Proofs.Document.Likeness

/-!
What the trailer leads to is followed to its end: it is a region that references do not leave, and
leaving out all other objects changes nothing in it.
-/

namespace Marginalia

namespace Document

variable {α : Type}

/-- How many references are still to be followed: those that wait, and those in the objects that were not
seen yet. -/
def pending (d : Document α) (queue seen : List ObjectId) : Nat :=
  queue.length + ((d.objects.filter fun e => !seen.contains e.1).map fun e => e.2.references.length).sum

theorem sum_references_see {id : ObjectId} {seen : List ObjectId} (h : id ∉ seen)
    (objects : List (ObjectId × Object α)) :
    ((objects.find? fun e => e.1 == id).map fun e => e.2.references.length).getD 0 +
        ((objects.filter fun e => !(id :: seen).contains e.1).map fun e => e.2.references.length).sum ≤
      ((objects.filter fun e => !seen.contains e.1).map fun e => e.2.references.length).sum := by
  induction objects with
  | nil => simp
  | cons e es ih =>
    by_cases he : e.1 = id
    · subst he
      have hseen : seen.contains e.1 = false := by simpa using h
      have hnew : (e.1 :: seen).contains e.1 = true := by simp
      simp only [List.find?_cons, beq_self_eq_true, Option.map_some, Option.getD_some,
        List.filter_cons, hseen, hnew, Bool.not_true, Bool.not_false, if_true, Bool.false_eq_true,
        if_false, List.map_cons, List.sum_cons]
      omega
    · have hne : (e.1 == id) = false := by simpa using he
      have hcont : (id :: seen).contains e.1 = seen.contains e.1 := by simp [he]
      simp only [List.find?_cons, hne, List.filter_cons, hcont]
      cases seen.contains e.1 with
      | true => simpa using ih
      | false =>
        simp only [Bool.not_false, if_true, List.map_cons, List.sum_cons]
        omega

/-- The references of an object that is seen for the first time are no longer ahead. -/
theorem pending_see (d : Document α) {id : ObjectId} {seen : List ObjectId} (h : id ∉ seen)
    (queue : List ObjectId) :
    d.pending (queue ++ d.referencesFrom id) (id :: seen) ≤ d.pending queue seen := by
  have hrefs : (d.referencesFrom id).length =
      ((d.objects.find? fun e => e.1 == id).map fun e => e.2.references.length).getD 0 := by
    unfold referencesFrom stored?
    cases d.objects.find? fun e => e.1 == id <;> rfl
  have hs := sum_references_see h d.objects
  simp only [pending, List.length_append, hrefs]
  omega

/-- Following comes to its end within the references that are ahead, and what it gives holds what it
started from and is closed under references. -/
theorem follow_closed (d : Document α) {fuel : Nat} {queue seen : List ObjectId}
    (hf : d.pending queue seen ≤ fuel)
    (hc : ∀ id ∈ seen, ∀ r ∈ d.referencesFrom id, r ∈ seen ∨ r ∈ queue) :
    (∀ id, id ∈ seen ∨ id ∈ queue → id ∈ d.follow fuel queue seen) ∧
      ∀ id ∈ d.follow fuel queue seen, ∀ r ∈ d.referencesFrom id, r ∈ d.follow fuel queue seen := by
  induction fuel generalizing queue seen with
  | zero =>
    have hq : queue = [] := List.eq_nil_of_length_eq_zero (by unfold pending at hf; omega)
    subst hq
    exact ⟨fun id hid => by simpa [follow] using hid, fun id hid r hr => by
      simpa [follow] using hc id hid r hr⟩
  | succ fuel ih =>
    cases queue with
    | nil =>
      exact ⟨fun id hid => by simpa [follow] using hid, fun id hid r hr => by
        simpa [follow] using hc id hid r hr⟩
    | cons id queue =>
      by_cases hs : id ∈ seen
      · have hstep : d.follow (fuel + 1) (id :: queue) seen = d.follow fuel queue seen := by
          simp [follow, hs]
        have hpend : d.pending queue seen ≤ fuel := by
          simp only [pending, List.length_cons] at hf ⊢
          omega
        rw [hstep]
        obtain ⟨hin, hclosed⟩ := ih hpend fun i hi r hr => by
          rcases hc i hi r hr with hr | hr
          · exact .inl hr
          · rcases List.mem_cons.mp hr with rfl | hr
            · exact .inl hs
            · exact .inr hr
        refine ⟨fun i hi => ?_, hclosed⟩
        rcases hi with hi | hi
        · exact hin i (.inl hi)
        · rcases List.mem_cons.mp hi with rfl | hi
          · exact hin i (.inl hs)
          · exact hin i (.inr hi)
      · have hstep : d.follow (fuel + 1) (id :: queue) seen =
            d.follow fuel (queue ++ d.referencesFrom id) (id :: seen) := by
          simp [follow, hs]
        have hpend : d.pending (queue ++ d.referencesFrom id) (id :: seen) ≤ fuel := by
          have := d.pending_see hs queue
          simp only [pending, List.length_cons] at hf this ⊢
          omega
        rw [hstep]
        obtain ⟨hin, hclosed⟩ := ih hpend fun i hi r hr => by
          rcases List.mem_cons.mp hi with rfl | hi
          · exact .inr (List.mem_append_right _ hr)
          · rcases hc i hi r hr with hr | hr
            · exact .inl (List.mem_cons_of_mem _ hr)
            · rcases List.mem_cons.mp hr with rfl | hr
              · exact .inl (List.mem_cons_self)
              · exact .inr (List.mem_append_left _ hr)
        refine ⟨fun i hi => ?_, hclosed⟩
        rcases hi with hi | hi
        · exact hin i (.inl (List.mem_cons_of_mem _ hi))
        · rcases List.mem_cons.mp hi with rfl | hi
          · exact hin i (.inl List.mem_cons_self)
          · exact hin i (.inr (List.mem_append_left _ hi))

theorem reachable_closed (d : Document α) :
    (∀ id ∈ Object.entryReferences d.trailer, id ∈ d.reachable) ∧
      ∀ id ∈ d.reachable, ∀ r ∈ d.referencesFrom id, r ∈ d.reachable := by
  have hf : d.pending (Object.entryReferences d.trailer) [] ≤ d.referenceCount + 1 := by
    have hall : d.objects.filter (fun e => !([] : List ObjectId).contains e.1) = d.objects := by
      simp
    rw [pending, hall, referenceCount]
    omega
  obtain ⟨hin, hclosed⟩ := d.follow_closed hf (by simp)
  exact ⟨fun id hid => hin id (.inr hid), hclosed⟩

/-- What the trailer leads to is a region. -/
theorem reachable_region (d : Document α) : d.Region (· ∈ d.reachable) := by
  obtain ⟨hin, hclosed⟩ := d.reachable_closed
  refine ⟨fun id ht => hin id ?_, fun id v hid hv r hr => hclosed id hid r ?_⟩
  · exact Object.mem_entryReferences ht (by simp [Object.references])
  · simpa [referencesFrom, hv] using hr

/-- What holds of the references that following starts from, and of those in each object that it holds of,
holds of all that is followed. -/
theorem follow_induction {P : ObjectId → Prop} {d : Document α}
    (hstep : ∀ id, P id → ∀ r ∈ d.referencesFrom id, P r) {fuel : Nat} {queue seen : List ObjectId}
    (hqueue : ∀ id ∈ queue, P id) (hseen : ∀ id ∈ seen, P id) : ∀ id ∈ d.follow fuel queue seen, P id := by
  induction fuel generalizing queue seen with
  | zero => simpa only [follow] using hseen
  | succ fuel ih =>
    cases queue with
    | nil => simpa only [follow] using hseen
    | cons id queue =>
      have hid : P id := hqueue id (by simp)
      have hrest : ∀ i ∈ queue, P i := fun i hi => hqueue i (by simp [hi])
      unfold follow
      split
      · exact ih hrest hseen
      · refine ih (fun i hi => ?_) fun i hi => ?_
        · rcases List.mem_append.mp hi with hi | hi
          · exact hrest i hi
          · exact hstep id hid i hi
        · rcases List.mem_cons.mp hi with rfl | hi
          · exact hid
          · exact hseen i hi

theorem reachable_induction {P : ObjectId → Prop} {d : Document α}
    (htrailer : ∀ id ∈ Object.entryReferences d.trailer, P id)
    (hstep : ∀ id, P id → ∀ r ∈ d.referencesFrom id, P r) : ∀ id ∈ d.reachable, P id :=
  follow_induction hstep htrailer (by simp)

theorem stored?_prune (d : Document α) (id : ObjectId) :
    d.prune.stored? id = if id ∈ d.reachable then d.stored? id else none := by
  simp only [prune, stored?, List.find?_filter]
  by_cases hid : id ∈ d.reachable
  · rw [if_pos hid]
    congr 2
    funext e
    by_cases he : e.1 = id
    · simp [he, hid]
    · simp [he]
  · rw [if_neg hid]
    simp only [Option.map_eq_none_iff, List.find?_eq_none]
    intro e _ hk
    simp only [List.contains_iff_mem, beq_iff_eq, decide_eq_true_eq] at hk
    exact hid (hk.2 ▸ hk.1)

/-- What the trailer leads to it still leads to when all else is left out. -/
theorem reachable_prune {d : Document α} {id : ObjectId} (h : id ∈ d.reachable) : id ∈ d.prune.reachable := by
  obtain ⟨hin, hclosed⟩ := d.reachable_closed
  obtain ⟨hin', hclosed'⟩ := d.prune.reachable_closed
  refine (reachable_induction (P := fun id => id ∈ d.reachable ∧ id ∈ d.prune.reachable)
    (fun i hi => ⟨hin i hi, hin' i hi⟩) (fun i hi r hr => ⟨hclosed i hi.1 r hr, hclosed' i hi.2 r ?_⟩) id h).2
  rwa [referencesFrom, stored?_prune, if_pos hi.1]

/-- Two documents with the same root that have the same objects under the numbers of a region. -/
abbrev Agree (R : ObjectId → Prop) (d d' : Document α) : Prop := Keeps (fun _ _ => False) R d d'

theorem agree_of_stored {R : ObjectId → Prop} {d d' : Document α}
    (hroot : d'.trailer.get? "Root" = d.trailer.get? "Root")
    (hs : ∀ id, R id → d'.stored? id = d.stored? id) : Agree R d d' := by
  refine ⟨hroot, fun id hid => ?_⟩
  cases hd : d.stored? id with
  | none => exact .inl ⟨rfl, (hs id hid).trans hd⟩
  | some v => exact .inr ⟨v, v, rfl, (hs id hid).trans hd, .same v⟩

theorem Agree.stored? {R : ObjectId → Prop} {d d' : Document α} (h : Agree R d d') {id : ObjectId}
    (hid : R id) : d'.stored? id = d.stored? id := by
  rcases h.stored id hid with ⟨ha, hb⟩ | ⟨v, w, ha, hb, hvw⟩
  · rw [ha, hb]
  · rw [ha, hb, hvw.eq fun _ hf => hf]

theorem prune_agree (d : Document α) : Agree (· ∈ d.reachable) d d.prune :=
  agree_of_stored rfl fun id hid => by rw [stored?_prune, if_pos hid]

/-- The document that is read from what a document was written as. The objects that its trailer leads to
are there again. -/
structure Reloads (d d' : Document α) : Prop where
  root : d'.trailer.get? "Root" = d.trailer.get? "Root"
  stored : ∀ id ∈ d.reachable, d'.stored? id = d.stored? id

theorem Reloads.agree {d d' : Document α} (h : d.prune.Reloads d') : Agree (· ∈ d.reachable) d d' :=
  agree_of_stored h.root fun id hid => by
    rw [h.stored id (reachable_prune hid), stored?_prune, if_pos hid]

end Document

end Marginalia

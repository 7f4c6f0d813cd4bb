import Marginalia.Proofs.Document.PageRemoval

/-!
Page trees in which each node but the last has a node and a page for kids. So many rows of kids wait above the last
node of a tall one that it is left out; without the page of the first node there is one row less, and it is read.
-/

namespace Marginalia

namespace Document

open Object

variable {α : Type} {rows : ObjectId → Bool} {d d' : Document α} {low height : Nat}

/-- A node of a ladder. -/
def rung (i : Nat) : ObjectId := ⟨2 * i + 2, 0⟩

/-- The page of a node of a ladder. -/
def leaf (i : Nat) : ObjectId := ⟨2 * i + 3, 0⟩

theorem rung_ne_leaf (i j : Nat) : rung i ≠ leaf j := by
  simp only [rung, leaf, ne_eq, ObjectId.mk.injEq, and_true]
  omega

theorem rung_inj {i j : Nat} (h : rung i = rung j) : i = j := by
  simp only [rung, ObjectId.mk.injEq, and_true] at h
  omega

theorem leaf_inj {i j : Nat} (h : leaf i = leaf j) : i = j := by
  simp only [leaf, ObjectId.mk.injEq, and_true] at h
  omega

/-- The kids of a node that is not the last. -/
def stepKids {α : Type} (i : Nat) : List (Object α) := [rung (i + 1), leaf i].map .ref

theorem nodup_step (i : Nat) : [rung (i + 1), leaf i].Nodup := by
  simpa using rung_ne_leaf (i + 1) i

/-- That nodes of a page tree from one on are the rungs of a ladder. -/
structure Ladder (d : Document α) (low height : Nat) : Prop where
  node : ∀ i, low ≤ i → i ≤ height → d.kid (.ref (rung i)) = .node (rung i)
  page : ∀ i, low ≤ i → i ≤ height → d.kid (.ref (leaf i)) = .page (leaf i)
  home : ∀ i, low ≤ i → i ≤ height → d.home? (rung i) = some (rung i) ∧ d.home? (leaf i) = some (leaf i)
  step : ∀ i, low ≤ i → i < height → d.kids (rung i) = stepKids i
  last : d.kids (rung height) = [leaf height].map .ref

def rungs (low n : Nat) : List ObjectId := (List.range' low n).map rung

/-- The pages of a ladder in their order, in which the lowest node's comes last. -/
def leaves (low n : Nat) : List ObjectId := (List.range' low n).reverse.map leaf

/-- The rows of kids that wait while the node behind them is walked. -/
def waiting {α : Type} (low n : Nat) : List (List (Object α)) := (leaves low n).map fun id => [.ref id]

theorem leaves_succ (low n : Nat) : leaves low (n + 1) = leaf (low + n) :: leaves low n := by
  simp [leaves, List.range'_1_concat]

theorem waiting_succ (low n : Nat) :
    (waiting low (n + 1) : List (List (Object α))) = [.ref (leaf (low + n))] :: waiting low n := by
  simp [waiting, leaves_succ]

theorem length_leaves (low n : Nat) : (leaves low n).length = n := by
  simp [leaves]

theorem length_waiting (low n : Nat) : (waiting low n : List (List (Object α))).length = n := by
  simp [waiting, leaves]

theorem nodup_rungs_leaves (low n low' n' : Nat) : (rungs low n ++ leaves low' n').Nodup := by
  rw [List.nodup_append]
  refine ⟨List.Nodup.map (fun i j => rung_inj) List.nodup_range', ?_, ?_⟩
  · exact List.Nodup.map (fun i j => leaf_inj) (List.nodup_reverse.mpr List.nodup_range')
  · intro id hid id' hid'
    obtain ⟨i, -, rfl⟩ := List.mem_map.mp hid
    obtain ⟨j, -, rfl⟩ := List.mem_map.mp hid'
    exact rung_ne_leaf i j

namespace Ladder

/-- The pages that wait are walked from the last to the first. -/
theorem walk_waiting (h : d.Ladder low height) (n : Nat) (hn : low + n ≤ height + 1) :
    d.Walk (waiting low n) (leaves low n) (leaves low n) := by
  induction n with
  | zero => exact .done
  | succ n ih =>
    rw [waiting_succ, leaves_succ]
    exact .page (h.page _ (by omega) (by omega)) (ih (by omega))

/-- A walk from a node is one from the nodes above it, as long as the rows that wait are not too many. -/
theorem walk_above (h : d.Ladder low height) {seen pages : List ObjectId} (n m : Nat) (hheight : low + m + n < height)
    (hdepth : m + n ≤ maxTreeDepth)
    (hw : d.Walk (stepKids (low + m + n) :: waiting low (m + n)) seen pages) :
    d.Walk (stepKids (low + m) :: waiting low m) (rungs (low + m + 1) n ++ seen) pages := by
  induction n generalizing m with
  | zero => exact hw
  | succ n ih =>
    have hbelow := ih (m + 1) (by omega) (by omega) (by rwa [← Nat.add_assoc low m 1, Nat.add_right_comm _ 1 n,
      Nat.add_right_comm m 1 n])
    refine .node (h.node _ (by omega) (by omega)) ((length_waiting low m).trans_lt (by omega)) ?_
    rw [h.step _ (by omega) (by omega)]
    change d.Walk (stepKids (low + m + 1) :: [.ref (leaf (low + m))] :: waiting low m) _ _
    rwa [← waiting_succ]

/-- The last node of a ladder is left out where as many rows wait above it as may. -/
theorem walk_deep (h : d.Ladder low (low + maxTreeDepth + 1)) :
    d.Walk [stepKids low] (rungs (low + 1) (maxTreeDepth + 1) ++ leaves low (maxTreeDepth + 1))
      (leaves low (maxTreeDepth + 1)) := by
  rw [rungs, List.range'_1_concat, List.map_append, List.append_assoc]
  refine h.walk_above maxTreeDepth 0 (by omega) (by omega) ?_
  rw [Nat.add_zero, Nat.zero_add, Nat.add_right_comm]
  refine .deep (h.node _ (by omega) (by omega)) (by simp [length_waiting]) ?_
  change d.Walk ([.ref (leaf (low + maxTreeDepth))] :: waiting low maxTreeDepth) _ _
  rw [← waiting_succ]
  exact h.walk_waiting _ (by omega)

/-- With one row less that waits the last node is walked. -/
theorem walk_whole (h : d.Ladder low (low + maxTreeDepth)) :
    d.Walk [[.ref (rung low)]] (rungs low (maxTreeDepth + 1) ++ leaves low (maxTreeDepth + 1))
      (leaves low (maxTreeDepth + 1)) := by
  obtain ⟨n, hn⟩ : ∃ n, maxTreeDepth = n + 1 := ⟨255, rfl⟩
  rw [rungs, List.range'_succ, List.map_cons, List.cons_append]
  refine .node (h.node _ (Nat.le_refl _) (by omega)) (Nat.succ_pos _) ?_
  rw [h.step _ (Nat.le_refl _) (by omega)]
  rw [hn] at h ⊢
  rw [List.range'_1_concat, List.map_append, List.append_assoc]
  refine h.walk_above n 0 (by omega) (by omega) ?_
  rw [Nat.add_zero, Nat.zero_add, Nat.add_right_comm]
  refine .node (h.node _ (by omega) (by omega)) (by rw [length_waiting]; omega) ?_
  rw [Nat.add_assoc, h.last]
  change d.Walk ([.ref (leaf (low + (n + 1)))] :: [.ref (leaf (low + n))] :: waiting low n) _ _
  rw [← waiting_succ, ← waiting_succ]
  exact h.walk_waiting _ (by omega)

/-- The nodes and pages of a ladder are objects at different places. -/
theorem nodup_homes (h : d.Ladder low height) {first n m : Nat} (hfirst : low ≤ first) (hn : first + n ≤ height + 1)
    (hm : low + m ≤ height + 1) : ((rungs first n ++ leaves low m).map d.home?).Nodup := by
  have hhomes : (rungs first n ++ leaves low m).map d.home? = (rungs first n ++ leaves low m).map some := by
    refine List.map_congr_left fun id hid => ?_
    rcases List.mem_append.mp hid with hid | hid
    · obtain ⟨i, hi, rfl⟩ := List.mem_map.mp hid
      rw [List.mem_range'_1] at hi
      exact (h.home i (by omega) (by omega)).1
    · obtain ⟨i, hi, rfl⟩ := List.mem_map.mp hid
      rw [List.mem_reverse, List.mem_range'_1] at hi
      exact (h.home i (by omega) (by omega)).2
  rw [hhomes]
  exact (nodup_rungs_leaves first n low m).map (Option.some_injective _)

/-- A page tree that is walked along a ladder is sound. -/
theorem tree (h : d.Ladder low height) {root : ObjectId} (hroot : d.pageTreeRoot? = some root)
    {stack : List (List (Object α))} (hkids : pushKids (d.kids root) [] = stack) {first n m : Nat}
    (hw : d.Walk stack (rungs first n ++ leaves low m) (leaves low m)) (hfirst : low ≤ first)
    (hn : first + n ≤ height + 1) (hm : low + m ≤ height + 1) : d.TreeSound ∧ d.pages = leaves low m := by
  subst hkids
  have hnodup := h.nodup_homes hfirst hn hm
  refine ⟨⟨fun root' hroot' => ?_⟩, hw.pages_eq hroot hnodup⟩
  rw [hroot] at hroot'
  cases hroot'
  exact ⟨_, _, hw, hnodup⟩

/-- The last page of a ladder that is one node too tall is not among the pages. -/
theorem tree_deep (h : d.Ladder 0 (maxTreeDepth + 1)) (hroot : d.pageTreeRoot? = some (rung 0)) :
    d.TreeSound ∧ d.pages = leaves 0 (maxTreeDepth + 1) := by
  have hdeep : d.Ladder 0 (0 + maxTreeDepth + 1) := by rwa [Nat.zero_add]
  exact h.tree hroot (by rw [h.step 0 le_rfl (Nat.succ_pos _)]; rfl) hdeep.walk_deep (Nat.zero_le _) (by omega)
    (by omega)

section Detached

variable (hdet : Detached (leaf low) rows d d')

include hdet

theorem clear_node (h : d.Ladder low height) {i : Nat} (hlow : low ≤ i) (hi : i ≤ height) :
    Clear (leaf low) rows (rung i) := by
  obtain ⟨-, home, entries, hl⟩ := kid_ref (.inr (h.node i hlow hi))
  exact hdet.clear_of_dict (getDict?_eq_some.mpr ⟨home, hl⟩) (rung_ne_leaf i low)

theorem clear_page (h : d.Ladder low height) {i : Nat} (hlow : low < i) (hi : i ≤ height) :
    Clear (leaf low) rows (leaf i) := by
  obtain ⟨-, home, entries, hl⟩ := kid_ref (.inl (h.page i hlow.le hi))
  exact hdet.clear_of_dict (getDict?_eq_some.mpr ⟨home, hl⟩) fun he => hlow.ne (leaf_inj he).symm

/-- Of kids that differ the page is struck out. -/
theorem kids_detached {node : ObjectId} (hnode : Clear (leaf low) rows node) {kids : List ObjectId}
    (hkids : d.kids node = kids.map .ref) (hn : kids.Nodup) :
    d'.kids node = cutRow (leaf low) (kids.map .ref) := by
  have hrefs : (kids.map (Object.ref (α := α))).filterMap Object.ref? = kids := by
    rw [List.filterMap_map]
    exact List.filterMap_some
  rw [← hkids]
  refine hdet.kids hnode ⟨fun v hv => ?_, by rw [hkids, hrefs]⟩ hn
  rw [hkids] at hv
  exact (List.mem_map.mp hv).imp fun id hid => hid.2.symm

/-- Without the page of its first node a ladder goes on from the node below. -/
theorem detached (h : d.Ladder low height) (hlow : low < height) :
    d'.Ladder (low + 1) height ∧ d'.kids (rung low) = [.ref (rung (low + 1))] := by
  have hnode := fun i (hi : low ≤ i) => h.clear_node hdet hi
  have hpage := fun i (hi : low + 1 ≤ i) => h.clear_page hdet hi
  have hcut : ∀ i, low < i → i < height → d'.kids (rung i) = stepKids i := fun i hi hlast => by
    rw [kids_detached hdet (hnode i (by omega) hlast.le) (h.step i hi.le hlast) (nodup_step i)]
    rw [List.map_cons, cutRow_cons_of_ne (rung_ne_leaf _ _), List.map_cons,
      cutRow_cons_of_ne fun he => hi.ne (leaf_inj he).symm]
    rfl
  refine ⟨⟨fun i hi hle => ?_, fun i hi hle => ?_, fun i hi hle => ⟨?_, ?_⟩, fun i hi hlt => hcut i hi hlt, ?_⟩, ?_⟩
  · rw [hdet.kid (hnode i (by omega) hle), h.node i (by omega) hle]
  · rw [hdet.kid (hpage i hi hle), h.page i (by omega) hle]
  · rw [hdet.home? (hnode i (by omega) hle), (h.home i (by omega) hle).1]
  · rw [hdet.home? (hpage i hi hle), (h.home i (by omega) hle).2]
  · rw [kids_detached hdet (hnode height hlow.le le_rfl) h.last (List.nodup_singleton _), List.map_cons,
      cutRow_cons_of_ne fun he => hlow.ne (leaf_inj he).symm]
    rfl
  · rw [kids_detached hdet (hnode low le_rfl hlow.le) (h.step low le_rfl hlow) (nodup_step low), List.map_cons,
      cutRow_cons_of_ne (rung_ne_leaf _ _), List.map_cons, cutRow_cons_self]
    rfl

end Detached

/-- Without the page of its first node a ladder that was one node too tall has its last page among the pages. -/
theorem tree_detached (hdet : Detached (leaf 0) rows d d') (h : d.Ladder 0 (maxTreeDepth + 1))
    (hroot : d.pageTreeRoot? = some (rung 0)) : d'.TreeSound ∧ d'.pages = leaves 1 (maxTreeDepth + 1) := by
  obtain ⟨hladder, hkids⟩ := h.detached hdet (Nat.succ_pos _)
  have hwhole : d'.Ladder 1 (1 + maxTreeDepth) := by rwa [Nat.add_comm 1]
  exact hladder.tree (hdet.pageTreeRoot?.trans hroot) (by rw [hkids]; rfl) hwhole.walk_whole le_rfl (by omega)
    (by omega)

end Ladder

/-- The entries of a node of a ladder. -/
def rungEntries (height i : Nat) : Dict α :=
  [(Syntax.ascii "Type", .nameOf "Pages"), (Syntax.ascii "Count", .int (height + 1 - i : Nat)),
    (Syntax.ascii "Kids", .array (if i < height then stepKids i else [leaf i].map .ref))] ++
      if i = 0 then [] else [(Syntax.ascii "Parent", .ref (rung (i - 1)))]

/-- The entries of the page of a node, on which there is an annotation. -/
def leafEntries (i : Nat) : Dict α :=
  [(Syntax.ascii "Type", .nameOf "Page"), (Syntax.ascii "Parent", .ref (rung i)), (Syntax.ascii "Resources", .dict []),
    (Syntax.ascii "MediaBox", .array [.int 0, .int 0, .int 612, .int 792]),
    (Syntax.ascii "Annots", .array [.dict [(Syntax.ascii "Type", .nameOf "Annot"),
      (Syntax.ascii "Subtype", .nameOf "Highlight"),
      (Syntax.ascii "Rect", .array [.int 72, .int 700, .int 144, .int 712]), (Syntax.ascii "P", .ref (leaf i))]])]

def ladderObject (height : Nat) : Nat → Object α
  | 0 => .dict [(Syntax.ascii "Type", .nameOf "Catalog"), (Syntax.ascii "Pages", .ref (rung 0))]
  | k + 1 => .dict (if k % 2 = 0 then rungEntries height (k / 2) else leafEntries (k / 2))

/-- A document whose page tree is a ladder. -/
def ladder (α : Type) (height : Nat) : Document α where
  objects := (List.range (2 * height + 3)).map fun k => (⟨k + 1, 0⟩, ladderObject height k)
  trailer := [(Syntax.ascii "Root", .ref ⟨1, 0⟩)]
  maxNumber := 2 * height + 3
  streamed := false

theorem kidOnly_ladder (height j : Nat) : (ladder α height).KidOnly (leaf j) fun _ => false where
  page := rfl
  trailer := by simp [ladder, entryReferences, references, leaf]
  objects := by
    rintro e he - -
    obtain ⟨k, -, rfl⟩ := List.mem_map.mp he
    cases k with
    | zero => simp [ladderObject, kidOnly, entriesKidOnly, nameOf, rung_ne_leaf]
    | succ k =>
      dsimp only [ladderObject]
      split
      · by_cases hi : k / 2 = 0 <;>
          simp [hi, rungEntries, kidOnly, entriesKidOnly, nameOf, rung_ne_leaf, array?]
      · by_cases hi : leaf (k / 2) = leaf j <;>
          simp [hi, leafEntries, kidOnly, entriesKidOnly, itemsKidOnly, nameOf, rung_ne_leaf, ref?, Dict.find?]
  rows := by simp

theorem stored?_ladder {k : Nat} (hk : k < 2 * height + 3) :
    (ladder α height).stored? ⟨k + 1, 0⟩ = some (ladderObject height k) := by
  have hfind : (List.range (2 * height + 3)).find? (fun i => (⟨i + 1, 0⟩ : ObjectId) == ⟨k + 1, 0⟩) = some k := by
    rw [List.find?_range_eq_some]
    refine ⟨by simp, by simpa using hk, fun i hi => ?_⟩
    simp
    omega
  simp only [ladder, stored?, List.find?_map, Function.comp_def, hfind, Option.map_some]

theorem stored?_rung {i : Nat} (hi : i ≤ height) :
    (ladder α height).stored? (rung i) = some (.dict (rungEntries height i)) := by
  rw [rung, stored?_ladder (by omega), ladderObject, if_pos (by omega), Nat.mul_div_cancel_left i Nat.two_pos]

theorem stored?_leaf {i : Nat} (hi : i ≤ height) :
    (ladder α height).stored? (leaf i) = some (.dict (leafEntries i)) := by
  rw [leaf, stored?_ladder (by omega), ladderObject, if_neg (by omega), show (2 * i + 1) / 2 = i by omega]

theorem pageTreeRoot?_ladder (height : Nat) : (ladder α height).pageTreeRoot? = some (rung 0) := by
  have hcatalog : (ladder α height).getDict? ⟨1, 0⟩ = _ := getDict?_of_stored? (stored?_ladder (Nat.succ_pos _))
  exact congrArg (·.bind fun catalog => (catalog.get? "Pages").bind Object.ref?) hcatalog

theorem ladder_ladder (height : Nat) : (ladder α height).Ladder 0 height := by
  have hnode := fun i (hi : i ≤ height) => getDict?_of_stored? (stored?_rung (α := α) hi)
  have hpage := fun i (hi : i ≤ height) => getDict?_of_stored? (stored?_leaf (α := α) hi)
  have hkids : ∀ i, (rungEntries height i : Dict α).get? "Kids" =
      some (.array (if i < height then stepKids i else [leaf i].map .ref)) := fun i => rfl
  refine ⟨fun i _ hi => ?_, fun i _ hi => ?_, fun i _ hi => ⟨?_, ?_⟩, fun i _ hi => ?_, ?_⟩
  · have htype : (rungEntries height i : Dict α).typeName? = some (Syntax.ascii "Pages") := rfl
    simp only [kid, hnode i hi, Option.bind_some, htype]
    rfl
  · have htype : (leafEntries i : Dict α).typeName? = some (Syntax.ascii "Page") := rfl
    simp only [kid, hpage i hi, Option.bind_some, htype]
    rfl
  · exact home?_eq_some.mpr ⟨_, locate_of_stored? (stored?_rung hi) rfl⟩
  · exact home?_eq_some.mpr ⟨_, locate_of_stored? (stored?_leaf hi) rfl⟩
  · simp only [kids, hnode i hi.le, Option.bind_some, hkids, if_pos hi, deref, array?, Option.getD_some]
  · simp only [kids, hnode height le_rfl, Option.bind_some, hkids, if_neg (Nat.lt_irrefl height), deref, array?,
      Option.getD_some]

end Document

end Marginalia

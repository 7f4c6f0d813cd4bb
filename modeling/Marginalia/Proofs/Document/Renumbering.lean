import Mathlib.Data.Set.Card
import Marginalia.Proofs.Document.Reachability

/-!
Documents that are the same but for the numbers of their objects. What the catalog leads to is compared, through
the references that arrays have in them and that dictionaries have under their keys.
-/

namespace Marginalia

/-- What is related to something is something. -/
theorem exists_of_rel_some {α β : Type} {r : α → β → Prop} {a : α} {y : Option β} (h : Option.Rel r (some a) y) :
    ∃ b, y = some b ∧ r a b := by
  cases h with
  | some h => exact ⟨_, rfl, h⟩

theorem rel_mono {α β : Type} {r s : α → β → Prop} {x : Option α} {y : Option β} (h : Option.Rel r x y)
    (hrs : ∀ a b, r a b → s a b) : Option.Rel s x y := by
  cases h with
  | some h => exact .some (hrs _ _ h)
  | none => exact .none

theorem exists_of_some_rel {α β : Type} {r : α → β → Prop} {x : Option α} {b : β} (h : Option.Rel r x (some b)) :
    ∃ a, x = some a ∧ r a b := by
  cases h with
  | some h => exact ⟨_, rfl, h⟩

namespace Object

variable {α : Type}

/-- That an object has a reference, itself or in a part of it. -/
inductive Refers (id : ObjectId) : Object α → Prop where
  | ref : Refers id (.ref id)
  | item {items : List (Object α)} {v : Object α} (mem : v ∈ items) (refers : Refers id v) :
      Refers id (.array items)
  | entry {entries : Dict α} {key : Bytes} {v : Object α} (found : entries.find? key = some v)
      (refers : Refers id v) : Refers id (.dict entries)
  | streamEntry {entries : Dict α} {data : Bytes} {key : Bytes} {v : Object α}
      (found : entries.find? key = some v) (refers : Refers id v) : Refers id (.stream entries data)

theorem Refers.mem_references {id : ObjectId} {v : Object α} (h : v.Refers id) : id ∈ v.references := by
  induction h with
  | ref => simp [references]
  | item mem _ ih => exact mem_itemReferences mem ih
  | entry found _ ih => exact mem_entryReferences found ih
  | streamEntry found _ ih => exact mem_entryReferences found ih

/-- That an object has no parts and is no reference. -/
def IsPlain : Object α → Prop
  | .array _ | .dict _ | .stream _ _ | .ref _ => False
  | _ => True

/-- That two objects are the same but for their references, which a relation pairs. The order of the entries of
a dictionary does not count. -/
inductive Matches (ρ : ObjectId → ObjectId → Prop) : Object α → Object α → Prop where
  | plain {v : Object α} (h : v.IsPlain) : Matches ρ v v
  | ref {id id' : ObjectId} (h : ρ id id') : Matches ρ (.ref id) (.ref id')
  | array {vs ws : List (Object α)} (length : vs.length = ws.length)
      (items : ∀ (i : Nat) v w, vs[i]? = some v → ws[i]? = some w → Matches ρ v w) : Matches ρ (.array vs) (.array ws)
  | dict {es fs : Dict α} (keys : ∀ key, (es.find? key).isSome = (fs.find? key).isSome)
      (entries : ∀ key v w, es.find? key = some v → fs.find? key = some w → Matches ρ v w) :
      Matches ρ (.dict es) (.dict fs)
  | stream {es fs : Dict α} {data : Bytes} (keys : ∀ key, (es.find? key).isSome = (fs.find? key).isSome)
      (entries : ∀ key v w, es.find? key = some v → fs.find? key = some w → Matches ρ v w) :
      Matches ρ (.stream es data) (.stream fs data)

/-- That what two dictionaries have under a key matches, or that neither has anything there. -/
abbrev MatchesAt (ρ : ObjectId → ObjectId → Prop) (es fs : Dict α) (key : Bytes) : Prop :=
  Option.Rel (Matches ρ) (es.find? key) (fs.find? key)

/-- That two entries have the same key and matching values. -/
abbrev EntryMatches (ρ : ObjectId → ObjectId → Prop) (e e' : String × Object α) : Prop :=
  e.1 = e'.1 ∧ Matches ρ e.2 e'.2

variable {ρ σ : ObjectId → ObjectId → Prop} {v w : Object α} {es fs : Dict α}

theorem matchesAt_iff {key : Bytes} : MatchesAt ρ es fs key ↔
    (es.find? key).isSome = (fs.find? key).isSome ∧
      ∀ v w, es.find? key = some v → fs.find? key = some w → Matches ρ v w := by
  unfold MatchesAt
  cases es.find? key <;> cases fs.find? key <;> simp

namespace Matches

theorem of_entries (h : ∀ key, MatchesAt ρ es fs key) : Matches ρ (.dict es) (.dict fs) :=
  .dict (fun key => (matchesAt_iff.mp (h key)).1) fun key => (matchesAt_iff.mp (h key)).2

theorem of_streamEntries (h : ∀ key, MatchesAt ρ es fs key) (data : Bytes) :
    Matches ρ (.stream es data) (.stream fs data) :=
  .stream (fun key => (matchesAt_iff.mp (h key)).1) fun key => (matchesAt_iff.mp (h key)).2

theorem of_items {vs ws : List (Object α)} (h : List.Forall₂ (Matches ρ) vs ws) :
    Matches ρ (.array vs) (.array ws) := by
  refine .array h.length_eq fun i v w hv hw => ?_
  obtain ⟨hi, rfl⟩ := List.getElem?_eq_some_iff.mp hv
  obtain ⟨hi', rfl⟩ := List.getElem?_eq_some_iff.mp hw
  exact h.get hi hi'

theorem mono (h : Matches ρ v w) (hρ : ∀ id id', ρ id id' → σ id id') : Matches σ v w := by
  induction h with
  | plain h => exact .plain h
  | ref h => exact .ref (hρ _ _ h)
  | array length _ ih => exact .array length ih
  | dict keys _ ih => exact .dict keys ih
  | stream keys _ ih => exact .stream keys ih

theorem symm (h : Matches ρ v w) : Matches (fun id id' => ρ id' id) w v := by
  induction h with
  | plain h => exact .plain h
  | ref h => exact .ref h
  | array length _ ih => exact .array length.symm fun i v w hv hw => ih i w v hw hv
  | dict keys _ ih => exact .dict (fun key => (keys key).symm) fun key v w hv hw => ih key w v hw hv
  | stream keys _ ih => exact .stream (fun key => (keys key).symm) fun key v w hv hw => ih key w v hw hv

/-- A reference of one object is paired with one of the other. -/
theorem refers (h : Matches ρ v w) {id : ObjectId} (hv : v.Refers id) : ∃ id', ρ id id' ∧ w.Refers id' := by
  induction h with
  | plain h => cases hv <;> cases h
  | ref h =>
    cases hv
    exact ⟨_, h, .ref⟩
  | @array vs ws length _ ih =>
    cases hv with
    | @item _ v mem refers =>
      obtain ⟨i, hi, rfl⟩ := List.mem_iff_getElem.mp mem
      have hi' : i < ws.length := length ▸ hi
      obtain ⟨id', hρ, hw⟩ := ih i _ _ (List.getElem?_eq_getElem hi) (List.getElem?_eq_getElem hi') refers
      exact ⟨id', hρ, .item (List.getElem_mem hi') hw⟩
  | dict keys _ ih =>
    cases hv with
    | @entry _ key v found refers =>
      obtain ⟨w, hw⟩ := Option.isSome_iff_exists.mp ((keys key).symm.trans (by rw [found]; rfl))
      obtain ⟨id', hρ, hid⟩ := ih key v w found hw refers
      exact ⟨id', hρ, .entry hw hid⟩
  | stream keys _ ih =>
    cases hv with
    | @streamEntry _ _ key v found refers =>
      obtain ⟨w, hw⟩ := Option.isSome_iff_exists.mp ((keys key).symm.trans (by rw [found]; rfl))
      obtain ⟨id', hρ, hid⟩ := ih key v w found hw refers
      exact ⟨id', hρ, .streamEntry hw hid⟩

/-- An object whose references are paired with themselves matches itself. -/
theorem self : ∀ {v : Object α}, (∀ id, v.Refers id → ρ id id) → Matches ρ v v
  | .null, _ | .bool _, _ | .int _, _ | .real _, _ | .name _, _ | .string _ _, _ => .plain trivial
  | .ref _, h => .ref (h _ .ref)
  | .array items, h => .array rfl fun i v w hv hw => by
      cases hv.symm.trans hw
      exact self fun id hid => h id (.item (List.mem_of_getElem? hv) hid)
  | .dict entries, h => .dict (fun _ => rfl) fun key v w hv hw => by
      cases hv.symm.trans hw
      exact self fun id hid => h id (.entry hv hid)
  | .stream entries data, h => .stream (fun _ => rfl) fun key v w hv hw => by
      cases hv.symm.trans hw
      exact self fun id hid => h id (.streamEntry hv hid)
termination_by v => sizeOf v
decreasing_by
  · exact Nat.lt_trans (List.sizeOf_lt_of_mem (List.mem_of_getElem? hv)) (by simp)
  all_goals
    have := List.sizeOf_lt_of_mem (Dict.mem_of_find? hv)
    simp only [Prod.mk.sizeOf_spec, dict.sizeOf_spec, stream.sizeOf_spec] at this ⊢
    omega

theorem of_direct (h : v.references = []) : Matches ρ v v :=
  self fun id hid => absurd hid.mem_references (by simp [h])

end Matches

/-- Entries without references match themselves. -/
theorem entries_direct {entries : List (String × Object α)} (h : ∀ e ∈ entries, e.2.references = []) :
    List.Forall₂ (EntryMatches ρ) entries entries :=
  List.forall₂_same.mpr fun e he => ⟨rfl, .of_direct (h e he)⟩

namespace MatchesAt

variable {key : Bytes}

theorem mono (h : MatchesAt ρ es fs key) (hρ : ∀ id id', ρ id id' → σ id id') : MatchesAt σ es fs key :=
  rel_mono h fun _ _ hvw => hvw.mono hρ

/-- Dictionaries with the same under a key match there if the references in it are paired with themselves. -/
theorem of_eq (he : fs.find? key = es.find? key)
    (h : ∀ v, es.find? key = some v → ∀ id ∈ v.references, ρ id id) : MatchesAt ρ es fs key := by
  refine matchesAt_iff.mpr ⟨by rw [he], fun v w hv hw => ?_⟩
  cases hv.symm.trans (he.symm.trans hw)
  exact .self fun id hid => h v hv id hid.mem_references

/-- Dictionaries in which matching values are set match at a key where they matched, and at the key of the values. -/
theorem set (name : String) (hv : Matches ρ v w) (h : Syntax.ascii name ≠ key → MatchesAt ρ es fs key) :
    MatchesAt ρ (es.set name v) (fs.set name w) key := by
  unfold MatchesAt
  rw [Dict.set, Dict.set, Dict.find?_setBytes, Dict.find?_setBytes]
  split
  · exact .some hv
  · exact h ‹_›

/-- Entries with the same keys and matching values make dictionaries that match. -/
theorem ofList {entries entries' : List (String × Object α)} (h : List.Forall₂ (EntryMatches ρ) entries entries') :
    MatchesAt ρ (Dict.ofList entries) (Dict.ofList entries') key := by
  suffices hall : ∀ es fs : Dict α, MatchesAt ρ es fs key →
      MatchesAt ρ (entries.foldl (fun d e => d.set e.1 e.2) es) (entries'.foldl (fun d e => d.set e.1 e.2) fs) key from
    hall [] [] .none
  induction h with
  | nil => exact fun es fs hef => hef
  | @cons e e' _ _ he _ ih =>
    intro es fs hef
    rw [List.foldl_cons, List.foldl_cons, ← he.1]
    exact ih _ _ (set e.1 he.2 fun _ => hef)

end MatchesAt

/-- Dictionaries made of entries with the same keys and matching values match. -/
theorem Matches.ofEntries {entries entries' : List (String × Object α)}
    (h : List.Forall₂ (EntryMatches ρ) entries entries') : Matches ρ (.ofEntries entries) (.ofEntries entries') :=
  .of_entries fun _ => .ofList h

/-- Streams with the same data and matching entries match, their length among the entries. -/
theorem Matches.streamOf (h : ∀ key, MatchesAt ρ es fs key) (data : Bytes) :
    Matches ρ (.streamOf es data) (.streamOf fs data) :=
  .of_streamEntries (fun key => .set "Length" (.of_direct (by simp [references])) fun _ => h key) data

/-- A place in an object: under a key of a dictionary, or in a row of objects. -/
inductive Place where
  | key (k : String)
  | index (i : Nat)

/-- What an object has at a place in it. -/
def part? : Place → Object α → Option (Object α)
  | .key k, .dict entries => Dict.get? entries k
  | .index i, .array items => items[i]?
  | _, _ => none

/-- What an object has at a place in it, at a place in that, and so on. -/
def at? (v : Object α) (places : List Place) : Option (Object α) := places.foldlM (fun v place => part? place v) v

theorem Refers.of_part? {place : Place} {id : ObjectId} (hp : part? place v = some w) (h : w.Refers id) :
    v.Refers id := by
  cases place <;> cases v <;> simp only [part?, reduceCtorEq] at hp
  · exact .entry hp h
  · exact .item (List.mem_of_getElem? hp) h

theorem Refers.of_at? {places : List Place} {id : ObjectId} (h : v.at? places = some (.ref id)) : v.Refers id := by
  induction places generalizing v with
  | nil =>
    cases h
    exact .ref
  | cons place places ih =>
    obtain ⟨w, hw, hid⟩ := Option.bind_eq_some_iff.mp h
    exact .of_part? hw (ih hid)

theorem Matches.part? (h : Matches ρ v w) (place : Place) :
    Option.Rel (Matches ρ) (part? place v) (part? place w) := by
  cases h with
  | plain h =>
    have hnone : Object.part? place v = none := by cases place <;> cases v <;> first | rfl | cases h
    rw [hnone]
    exact .none
  | ref h => cases place <;> exact .none
  | stream keys entries => cases place <;> exact .none
  | dict keys entries =>
    cases place with
    | index i => exact .none
    | key k => exact matchesAt_iff.mpr ⟨keys _, entries _⟩
  | @array vs ws length items =>
    cases place with
    | key k => exact .none
    | index i =>
      simp only [Object.part?]
      by_cases hi : i < vs.length
      · rw [List.getElem?_eq_getElem hi, List.getElem?_eq_getElem (length ▸ hi)]
        exact .some (items i _ _ (List.getElem?_eq_getElem hi) (List.getElem?_eq_getElem (length ▸ hi)))
      · rw [List.getElem?_eq_none (by omega), List.getElem?_eq_none (by omega)]
        exact .none

/-- Objects that match have at the same places objects that match. -/
theorem Matches.at? (h : Matches ρ v w) (places : List Place) :
    Option.Rel (Matches ρ) (v.at? places) (w.at? places) := by
  induction places generalizing v w with
  | nil => exact .some h
  | cons place places ih =>
    simp only [Object.at?, List.foldlM_cons, Option.bind_eq_bind]
    have hparts := h.part? place
    generalize Object.part? place v = x, Object.part? place w = y at hparts
    cases hparts with
    | some hvw => exact ih hvw
    | none => exact .none

end Object

namespace Document

open Object

variable {α : Type} {d d' : Document α}

/-- That a number is reached from the catalog. -/
inductive FromCatalog (d : Document α) : ObjectId → Prop where
  | root {id : ObjectId} (root : d.trailer.get? "Root" = some (.ref id)) : FromCatalog d id
  | step {id next : ObjectId} {v : Object α} (reached : FromCatalog d id) (stored : d.stored? id = some v)
      (refers : v.Refers next) : FromCatalog d next

/-- The numbers of the objects that are reached from the catalog. -/
def catalogObjects (d : Document α) : Set ObjectId := {id | d.FromCatalog id ∧ (d.stored? id).isSome}

/-- That what the catalog leads to is the same in two documents but for the numbers of objects, which a function
takes from one document to the other. -/
structure Renumbered (f : ObjectId → ObjectId) (d d' : Document α) : Prop where
  numbers : Set.BijOn f {id | d.FromCatalog id} {id | d'.FromCatalog id}
  root : ∀ id, d.trailer.get? "Root" = some (.ref id) → d'.trailer.get? "Root" = some (.ref (f id))
  objects : ∀ id, d.FromCatalog id →
    Option.Rel (Matches fun a b => f a = b) (d.stored? id) (d'.stored? (f id))

theorem FromCatalog.within {R : ObjectId → Prop} (hr : d.Region R) {id : ObjectId} (h : d.FromCatalog id) : R id := by
  induction h with
  | root root => exact hr.root _ root
  | step _ stored refers ih => exact hr.closed _ _ ih stored _ refers.mem_references

/-- Where documents agree the catalog leads to the same. -/
theorem Agree.fromCatalog {R : ObjectId → Prop} (h : Agree R d d') (hr : d.Region R) {id : ObjectId} :
    d'.FromCatalog id ↔ d.FromCatalog id := by
  constructor
  · intro hid
    induction hid with
    | root root => exact .root (h.root ▸ root)
    | step _ stored refers ih => exact .step ih ((h.stored? (ih.within hr)).symm.trans stored) refers
  · intro hid
    induction hid with
    | root root => exact .root (h.root.trans root)
    | step reached stored refers ih => exact .step ih ((h.stored? (reached.within hr)).trans stored) refers

/-- The number that the object under a number refers to at a place. -/
def refAt (d : Document α) (id : ObjectId) (places : List Object.Place) : Option ObjectId :=
  ((d.stored? id).bind (·.at? places)).bind Object.ref?

/-- The number that is come to from another one through references at given places. -/
def follows (d : Document α) (id : ObjectId) (path : List (List Object.Place)) : Option ObjectId :=
  path.foldlM d.refAt id

/-- Whether two ways from the catalog lead to one number, if they lead to any. -/
def meet? (d : Document α) (path path' : List (List Object.Place)) : Option Bool := do
  let root ← (d.trailer.get? "Root").bind Object.ref?
  let id ← d.follows root path
  let id' ← d.follows root path'
  some (decide (id = id'))

namespace Renumbered

variable {f : ObjectId → ObjectId}

/-- As many objects are reached from the catalog of one document as from that of the other. -/
theorem ncard (h : Renumbered f d d') : d'.catalogObjects.ncard = d.catalogObjects.ncard := by
  have hsome : ∀ id, d.FromCatalog id → (d'.stored? (f id)).isSome = (d.stored? id).isSome := by
    intro id hid
    have hrel := h.objects id hid
    generalize d.stored? id = x, d'.stored? (f id) = y at hrel
    cases hrel <;> rfl
  have himage : f '' d.catalogObjects = d'.catalogObjects := by
    ext id
    constructor
    · rintro ⟨a, ⟨ha, hs⟩, rfl⟩
      exact ⟨h.numbers.mapsTo ha, (hsome a ha).trans hs⟩
    · rintro ⟨hid, hs⟩
      obtain ⟨a, ha, rfl⟩ := h.numbers.surjOn hid
      exact ⟨a, ⟨ha, (hsome a ha).symm.trans hs⟩, rfl⟩
  rw [← himage, (h.numbers.injOn.mono fun _ hid => hid.1).ncard_image]

/-- Documents that agree with renumbered ones on what their trailers lead to are renumbered alike. -/
theorem of_agree {e e' : Document α} (h : Renumbered f d d') (he : Agree (· ∈ d.reachable) d e)
    (he' : Agree (· ∈ d'.reachable) d' e') : Renumbered f e e' := by
  have hiff : ∀ id, e.FromCatalog id ↔ d.FromCatalog id := fun _ => he.fromCatalog d.reachable_region
  have hiff' : ∀ id, e'.FromCatalog id ↔ d'.FromCatalog id := fun _ => he'.fromCatalog d'.reachable_region
  refine ⟨?_, fun id hid => he'.root.trans (h.root id (he.root.symm.trans hid)), fun id hid => ?_⟩
  · simp only [hiff, hiff']
    exact h.numbers
  · have hin := (hiff id).mp hid
    rw [he.stored? (hin.within d.reachable_region),
      he'.stored? (FromCatalog.within d'.reachable_region (h.numbers.mapsTo hin))]
    exact h.objects id hin

/-- A renumbered number is come to through the same places. -/
theorem follows (h : Renumbered f d d') {id next : ObjectId} {path : List (List Object.Place)} (hid : d.FromCatalog id)
    (hpath : d.follows id path = some next) : d.FromCatalog next ∧ d'.follows (f id) path = some (f next) := by
  induction path generalizing id with
  | nil =>
    cases hpath
    exact ⟨hid, rfl⟩
  | cons places path ih =>
    obtain ⟨step, hstep, hrest⟩ := Option.bind_eq_some_iff.mp hpath
    obtain ⟨r, hr, href⟩ := Option.bind_eq_some_iff.mp hstep
    obtain ⟨v, hv, hr⟩ := Option.bind_eq_some_iff.mp hr
    obtain rfl : r = .ref step := by
      cases r <;> cases href
      rfl
    obtain ⟨w, hw, hvw⟩ := exists_of_rel_some (hv ▸ h.objects id hid)
    obtain ⟨r', hr', href'⟩ := exists_of_rel_some (hr ▸ hvw.at? places)
    cases href' with
    | plain h => cases h
    | ref hf =>
      subst hf
      obtain ⟨hnext, hfollows⟩ := ih (.step hid hv (.of_at? hr)) hrest
      refine ⟨hnext, Option.bind_eq_some_iff.mpr ⟨_, ?_, hfollows⟩⟩
      simp only [refAt, hw, Option.bind_some, hr', Object.ref?]

/-- Ways that lead to one object lead to one in a renumbered document, and those that do not do not there. -/
theorem meet? (h : Renumbered f d d') {path path' : List (List Object.Place)} {b : Bool}
    (hb : d.meet? path path' = some b) :
    d'.meet? path path' = some b := by
  obtain ⟨root, hroot, hb⟩ := Option.bind_eq_some_iff.mp hb
  obtain ⟨id, hid, hb⟩ := Option.bind_eq_some_iff.mp hb
  obtain ⟨id', hid', hb⟩ := Option.bind_eq_some_iff.mp hb
  obtain ⟨v, hv, href⟩ := Option.bind_eq_some_iff.mp hroot
  obtain rfl : v = .ref root := by
    cases v <;> cases href
    rfl
  obtain ⟨hin, hid⟩ := h.follows (.root hv) hid
  obtain ⟨hin', hid'⟩ := h.follows (.root hv) hid'
  simp only [Document.meet?, h.root root hv, Option.bind_eq_bind, Option.bind_some, Object.ref?, hid, hid', ← hb,
    Option.some_inj, decide_eq_decide]
  exact h.numbers.injOn.eq_iff hin hin'

/-- Numbers that a relation pairs from the catalogs on are renumbered by the function that it is there. -/
theorem of_pairs {ρ : ObjectId → ObjectId → Prop} (hf : ∀ a b, ρ a b → f a = b)
    (hinj : ∀ a a' b, d.FromCatalog a → d.FromCatalog a' → ρ a b → ρ a' b → a = a')
    (hroot : Option.Rel (Matches ρ) (d.trailer.get? "Root") (d'.trailer.get? "Root"))
    (hobjects : ∀ a b, d.FromCatalog a → ρ a b → Option.Rel (Matches ρ) (d.stored? a) (d'.stored? b)) :
    Renumbered f d d' := by
  have hroots : ∀ a, d.trailer.get? "Root" = some (.ref a) → ∃ b, d'.trailer.get? "Root" = some (.ref b) ∧ ρ a b := by
    intro a ha
    rw [ha] at hroot
    obtain ⟨w, hw, hvw⟩ := exists_of_rel_some hroot
    cases hvw with
    | plain h => cases h
    | ref h => exact ⟨_, hw, h⟩
  have hright : ∀ a, d.FromCatalog a → ρ a (f a) ∧ d'.FromCatalog (f a) := by
    intro a ha
    induction ha with
    | root root =>
      obtain ⟨b, hb, hρ⟩ := hroots _ root
      obtain rfl := hf _ _ hρ
      exact ⟨hρ, .root hb⟩
    | @step a next v reached stored refers ih =>
      have hrel := hobjects a _ reached ih.1
      rw [stored] at hrel
      obtain ⟨w, hw, hvw⟩ := exists_of_rel_some hrel
      obtain ⟨next', hρ, hnext⟩ := hvw.refers refers
      obtain rfl := hf _ _ hρ
      exact ⟨hρ, .step ih.2 hw hnext⟩
  have hleft : ∀ b, d'.FromCatalog b → ∃ a, d.FromCatalog a ∧ ρ a b := by
    intro b hb
    induction hb with
    | @root b root =>
      rw [root] at hroot
      obtain ⟨v, hv, hvw⟩ := exists_of_some_rel hroot
      cases hvw with
      | plain h => cases h
      | ref h => exact ⟨_, .root hv, h⟩
    | @step b next w _ stored refers ih =>
      obtain ⟨a, ha, hρ⟩ := ih
      have hrel := hobjects a b ha hρ
      rw [stored] at hrel
      obtain ⟨v, hv, hvw⟩ := exists_of_some_rel hrel
      obtain ⟨a', hρ', ha'⟩ := hvw.symm.refers refers
      exact ⟨a', .step ha hv ha', hρ'⟩
  refine ⟨⟨fun a ha => (hright a ha).2, fun a ha a' ha' he => ?_, fun b hb => ?_⟩, fun a ha => ?_, fun a ha => ?_⟩
  · exact hinj a a' (f a) ha ha' (hright a ha).1 (he ▸ (hright a' ha').1)
  · obtain ⟨a, ha, hρ⟩ := hleft b hb
    exact ⟨a, ha, hf _ _ hρ⟩
  · obtain ⟨b, hb, hρ⟩ := hroots a ha
    rw [hb, hf _ _ hρ]
  · exact rel_mono (hobjects a _ ha (hright a ha).1) fun _ _ hvw => hvw.mono hf

end Renumbered

end Document

end Marginalia

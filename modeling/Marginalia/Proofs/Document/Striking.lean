import Mathlib.Data.List.Forall2
import Marginalia.Document.PageRemoval
import Marginalia.Proofs.Document.Likeness

/-!
What is left of objects when the references to a page are struck out of them: arrays of kids lose an item, and
dictionaries that name the page lose an entry.
-/

namespace Marginalia

namespace Object

variable {α : Type} {p : ObjectId} {rows : ObjectId → Bool}

section Holding

mutual

/-- Whether references to a page are in an object only in arrays of kids, and as the /P of dictionaries. -/
def kidOnly {α : Type} (p : ObjectId) : Object α → Bool
  | .ref id => id != p
  | .array items => itemsKidOnly p items
  | .dict entries => entriesKidOnly p entries
  | .stream entries _ => !(entryReferences entries).contains p
  | _ => true

def itemsKidOnly {α : Type} (p : ObjectId) : List (Object α) → Bool
  | [] => true
  | v :: vs => v.kidOnly p && itemsKidOnly p vs

/-- Of the entries with the key /P none comes after one that is the page. -/
def entriesKidOnly {α : Type} (p : ObjectId) : List (Bytes × Object α) → Bool
  | [] => true
  | (key, v) :: es =>
    (v.kidOnly p || key == Syntax.ascii "Kids" && v.array?.isSome ||
      key == Syntax.ascii "P" && v.ref? == some p && (Dict.find? es key).isNone) && entriesKidOnly p es

end

mutual

/-- Whether references to the rows of kids that are objects of their own are in an object only as the kids of
dictionaries. -/
def rowsApart {α : Type} (rows : ObjectId → Bool) : Object α → Bool
  | .ref id => !rows id
  | .array items => itemRowsApart rows items
  | .dict entries => entryRowsApart rows entries
  | .stream entries _ => (entryReferences entries).all fun id => !rows id
  | _ => true

def itemRowsApart {α : Type} (rows : ObjectId → Bool) : List (Object α) → Bool
  | [] => true
  | v :: vs => v.rowsApart rows && itemRowsApart rows vs

def entryRowsApart {α : Type} (rows : ObjectId → Bool) : List (Bytes × Object α) → Bool
  | [] => true
  | (key, v) :: es =>
    (v.rowsApart rows || key == Syntax.ascii "Kids" && v.ref?.any rows) && entryRowsApart rows es

end

mutual

/-- Without arrays of kids that are objects of their own nothing refers to one. -/
theorem rowsApart_none : ∀ v : Object α, v.rowsApart (fun _ => false) = true
  | .ref _ => rfl
  | .array items => itemRowsApart_none items
  | .dict entries => entryRowsApart_none entries
  | .stream _ _ => by simp [rowsApart]
  | .null | .bool _ | .int _ | .real _ | .name _ | .string _ _ => rfl

theorem itemRowsApart_none : ∀ items : List (Object α), itemRowsApart (fun _ => false) items = true
  | [] => rfl
  | v :: vs => by rw [itemRowsApart, rowsApart_none v, itemRowsApart_none vs]; rfl

theorem entryRowsApart_none : ∀ entries : List (Bytes × Object α), entryRowsApart (fun _ => false) entries = true
  | [] => rfl
  | (key, v) :: es => by rw [entryRowsApart, rowsApart_none v, entryRowsApart_none es]; rfl

end

end Holding

section Strike

theorem ref?_eq_some {v : Object α} {id : ObjectId} : v.ref? = some id ↔ v = .ref id := by
  cases v <;> simp [ref?]

theorem strikeEntries_cons {key : Bytes} {v : Object α} (h : v.ref? ≠ some p) (es : Dict α) (direct : Bool) :
    strikeEntries p direct ((key, v) :: es) = (key, v.strike p) :: strikeEntries p direct es := by
  have hkept : (direct && v.ref? == some p) = false := by simp [h]
  rw [strikeEntries, hkept, if_neg (by simp)]

theorem strikeItems_cons {v : Object α} (h : v.ref? ≠ some p) (vs : List (Object α)) (struck : Bool) :
    strikeItems p struck (v :: vs) = v.strike p :: strikeItems p struck vs := by
  have hkept : (!struck && v.ref? == some p) = false := by simp [h]
  rw [strikeItems, hkept, if_neg (by simp)]

mutual

/-- Out of an object without references to a number none are struck. -/
theorem strike_eq_self : ∀ {v : Object α}, p ∉ v.references → v.strike p = v
  | .array items, h => by rw [strike, strikeItems_eq_self (by simpa only [references] using h)]
  | .dict entries, h => by rw [strike, strikeEntries_eq_self (by simpa only [references] using h)]
  | .stream entries data, h => by rw [strike, strikeEntries_eq_self (by simpa only [references] using h)]
  | .ref _, _ | .null, _ | .bool _, _ | .int _, _ | .real _, _ | .name _, _ | .string _ _, _ => rfl

theorem strikeItems_eq_self : ∀ {items : List (Object α)} {struck : Bool}, p ∉ itemReferences items →
    strikeItems p struck items = items
  | [], _, _ => rfl
  | v :: vs, struck, h => by
    rw [itemReferences, List.mem_append, not_or] at h
    have hne : v.ref? ≠ some p := fun he => h.1 (by rw [ref?_eq_some.mp he]; simp [references])
    rw [strikeItems_cons hne, strike_eq_self h.1, strikeItems_eq_self h.2]

theorem strikeEntries_eq_self : ∀ {entries : Dict α} {direct : Bool}, p ∉ entryReferences entries →
    strikeEntries p direct entries = entries
  | [], _, _ => rfl
  | (key, v) :: es, direct, h => by
    rw [entryReferences, List.mem_append, not_or] at h
    have hne : v.ref? ≠ some p := fun he => h.1 (by rw [ref?_eq_some.mp he]; simp [references])
    rw [strikeEntries_cons hne, strike_eq_self h.1, strikeEntries_eq_self h.2]

end

/-- Striking gives a dictionary no keys. -/
theorem find?_strikeEntries_none {entries : Dict α} {key : Bytes} (h : entries.find? key = none) (direct : Bool) :
    Dict.find? (strikeEntries p direct entries) key = none := by
  induction entries with
  | nil => rfl
  | cons e es ih =>
    obtain ⟨k, v⟩ := e
    have hk : k ≠ key := fun hk => by simp [Dict.find?_cons, hk] at h
    rw [Dict.find?_cons, if_neg hk] at h
    rw [strikeEntries]
    split
    · exact ih h
    · rw [Dict.find?_cons, if_neg hk]
      exact ih h

/-- The references in a row of kids that are not to a page. -/
def cutRow (p : ObjectId) (row : List (Object α)) : List (Object α) :=
  row.filter fun v => v.ref? != some p

/-- A row of references of which at most one is to the page loses that one. -/
theorem strikeItems_row {row : List (Object α)} (hrefs : ∀ v ∈ row, ∃ id, v = .ref id)
    (honce : (row.filterMap ref?).Nodup) : strikeItems p false row = cutRow p row := by
  have hkept : ∀ {vs : List (Object α)} {struck : Bool}, (∀ v ∈ vs, ∃ id, v = .ref id) →
      (∀ v ∈ vs, v.ref? ≠ some p) → strikeItems p struck vs = vs := by
    intro vs struck hv hp
    refine strikeItems_eq_self fun hmem => ?_
    rw [itemReferences_eq, List.mem_flatMap] at hmem
    obtain ⟨v, hmem, hr⟩ := hmem
    obtain ⟨id, rfl⟩ := hv v hmem
    exact hp _ hmem (by simpa [references, ref?, eq_comm] using hr)
  induction row with
  | nil => rfl
  | cons v vs ih =>
    obtain ⟨id, rfl⟩ := hrefs v (by simp)
    have hrest : ∀ w ∈ vs, ∃ id, w = .ref id := fun w hw => hrefs w (by simp [hw])
    have hcons : (ref id :: vs).filterMap Object.ref? = id :: vs.filterMap Object.ref? := rfl
    rw [hcons, List.nodup_cons] at honce
    by_cases hid : id = p
    · subst hid
      have hnone : ∀ w ∈ vs, w.ref? ≠ some id := fun w hw he => honce.1 (List.mem_filterMap.mpr ⟨w, hw, he⟩)
      have hstruck : (!false && (ref id : Object α).ref? == some id) = true := by simp [ref?]
      rw [strikeItems, hstruck, if_pos rfl, hkept hrest hnone, cutRow, List.filter_cons_of_neg (by simp [ref?]),
        List.filter_eq_self.mpr fun w hw => by simpa using hnone w hw]
    · have hne : (ref id : Object α).ref? ≠ some p := by simpa [ref?] using hid
      rw [strikeItems_cons hne, ih hrest honce.2, cutRow, cutRow, List.filter_cons_of_pos (by simpa using hne)]
      rfl

end Strike

section Struck

/-- That an object has no parts and is no reference. -/
def IsLeaf : Object α → Prop
  | .array _ | .dict _ | .stream _ _ | .ref _ => False
  | _ => True

/-- That a number is neither that of a page nor that of an array of kids. -/
abbrev Clear (p : ObjectId) (rows : ObjectId → Bool) (id : ObjectId) : Prop := id ≠ p ∧ rows id = false

mutual

/-- What an object may be when the references to a page were struck out, of which it had none but in arrays of kids
and as the /P of dictionaries. -/
inductive Struck (p : ObjectId) (rows : ObjectId → Bool) : Object α → Object α → Prop where
  | leaf {v : Object α} (h : v.IsLeaf) : Struck p rows v v
  | ref {id : ObjectId} (clear : Clear p rows id) : Struck p rows (.ref id) (.ref id)
  | array {vs ws : List (Object α)} (items : List.Forall₂ (Struck p rows) vs ws) : Struck p rows (.array vs) (.array ws)
  | dict {es fs : Dict α} (entries : ∀ key, EntryStruck p rows key (es.find? key) (fs.find? key)) :
      Struck p rows (.dict es) (.dict fs)
  | stream {es : Dict α} {data : Bytes} (entries : ∀ key v, es.find? key = some v → Struck p rows v v) :
      Struck p rows (.stream es data) (.stream es data)

/-- What a dictionary may have under a key. Counts change with the pages. -/
inductive EntryStruck (p : ObjectId) (rows : ObjectId → Bool) : Bytes → Option (Object α) → Option (Object α) → Prop where
  | none {key : Bytes} : EntryStruck p rows key none none
  | some {key : Bytes} {v w : Object α} (h : Struck p rows v w) : EntryStruck p rows key (some v) (some w)
  | out : EntryStruck p rows (Syntax.ascii "P") (some (.ref p)) none
  | count {m n : Int} : EntryStruck p rows (Syntax.ascii "Count") (some (.int m)) (some (.int n))
  | row {id : ObjectId} (h : rows id = true) :
      EntryStruck p rows (Syntax.ascii "Kids") (some (.ref id)) (some (.ref id))
  | kids {items : List (Object α)} : EntryStruck p rows (Syntax.ascii "Kids") (some (.array items))
      (some (.array (strikeItems p false items)))

end

mutual

/-- An object is left as it is if it refers neither to the page nor to rows of kids. -/
theorem Struck.self : ∀ {v : Object α}, (∀ id ∈ v.references, Clear p rows id) → Struck p rows v v
  | .ref id, h => .ref (h id (by simp [references]))
  | .array items, h => .array (struckItems_self (by simpa only [references] using h))
  | .dict entries, h => .dict fun key => by
      have hes := struckEntries_self (by simpa only [references] using h) key
      cases hv : Dict.find? entries key with
      | none => exact .none
      | some v => exact .some (hes v hv)
  | .stream entries data, h => .stream (struckEntries_self (by simpa only [references] using h))
  | .null, _ | .bool _, _ | .int _, _ | .real _, _ | .name _, _ | .string _ _, _ => .leaf trivial

theorem struckItems_self : ∀ {items : List (Object α)},
    (∀ id ∈ itemReferences items, Clear p rows id) → List.Forall₂ (Struck p rows) items items
  | [], _ => .nil
  | v :: vs, h => by
    have hv : ∀ id ∈ v.references, Clear p rows id := fun id hid => h id (by simp [itemReferences, hid])
    exact .cons (Struck.self hv) (struckItems_self fun id hid => h id (by simp [itemReferences, hid]))

theorem struckEntries_self : ∀ {entries : Dict α},
    (∀ id ∈ entryReferences entries, Clear p rows id) →
      ∀ key v, Dict.find? entries key = some v → Struck p rows v v
  | [], _, _, _, hv => by cases hv
  | (k, w) :: es, h, key, v, hv => by
    have hw : Struck p rows w w := Struck.self fun id hid => h id (by simp [entryReferences, hid])
    have hes : ∀ key v, Dict.find? es key = some v → Struck p rows v v :=
      struckEntries_self fun id hid => h id (by simp [entryReferences, hid])
    rw [Dict.find?_cons] at hv
    split at hv
    · obtain rfl := Option.some.inj hv
      exact hw
    · exact hes key v hv

end

mutual

/-- What is left of an object that has references to the page and to rows of kids only where they are looked for. -/
theorem struck_strike : ∀ {v : Object α}, v.kidOnly p = true → v.rowsApart rows = true →
    Struck p rows v (v.strike p)
  | .ref id, hp, hr => .ref ⟨by simpa [kidOnly] using hp, by simpa [rowsApart] using hr⟩
  | .array items, hp, hr =>
    .array (struck_strikeItems (by simpa only [kidOnly] using hp) (by simpa only [rowsApart] using hr))
  | .dict entries, hp, hr =>
    .dict (struck_strikeEntries (by simpa only [kidOnly] using hp) (by simpa only [rowsApart] using hr))
  | .stream entries data, hp, hr => by
    have hout : p ∉ entryReferences entries := by simpa [kidOnly] using hp
    have hclear : ∀ id ∈ entryReferences entries, Clear p rows id := fun id hid =>
      ⟨fun he => hout (he ▸ hid), by
        rw [rowsApart, List.all_eq_true] at hr
        simpa using hr id hid⟩
    rw [strike, strikeEntries_eq_self hout]
    exact .stream (struckEntries_self hclear)
  | .null, _, _ | .bool _, _, _ | .int _, _, _ | .real _, _, _ | .name _, _, _ | .string _ _, _, _ => .leaf trivial

theorem struck_strikeItems : ∀ {items : List (Object α)}, itemsKidOnly p items = true →
    itemRowsApart rows items = true → List.Forall₂ (Struck p rows) items (strikeItems p false items)
  | [], _, _ => .nil
  | v :: vs, hp, hr => by
    rw [itemsKidOnly, Bool.and_eq_true] at hp
    rw [itemRowsApart, Bool.and_eq_true] at hr
    have hne : v.ref? ≠ some p := fun he => by
      rw [ref?_eq_some.mp he] at hp
      simp [kidOnly] at hp
    rw [strikeItems_cons hne]
    exact .cons (struck_strike hp.1 hr.1) (struck_strikeItems hp.2 hr.2)

theorem struck_strikeEntries : ∀ {entries : Dict α}, entriesKidOnly p entries = true →
    entryRowsApart rows entries = true →
      ∀ key, EntryStruck p rows key (entries.find? key) (Dict.find? (strikeEntries p true entries) key)
  | [], _, _, _ => .none
  | (k, v) :: es, hp, hr, key => by
    rw [entriesKidOnly, Bool.and_eq_true] at hp
    rw [entryRowsApart, Bool.and_eq_true] at hr
    have hrest := struck_strikeEntries hp.2 hr.2 key
    by_cases hv : v.ref? = some p
    · obtain rfl := ref?_eq_some.mp hv
      obtain ⟨rfl, hlast⟩ : k = Syntax.ascii "P" ∧ Dict.find? es k = none := by
        simpa [kidOnly, array?, ref?] using hp.1
      rw [strikeEntries, if_pos (by simp [ref?]), Dict.find?_cons]
      by_cases hk : Syntax.ascii "P" = key
      · subst hk
        rw [if_pos rfl, find?_strikeEntries_none hlast]
        exact .out
      · rwa [if_neg hk]
    · rw [strikeEntries_cons hv, Dict.find?_cons, Dict.find?_cons]
      by_cases hk : k = key
      · subst hk
        rw [if_pos rfl, if_pos rfl]
        by_cases hkids : k = Syntax.ascii "Kids" ∧ (v.array?.isSome ∨ v.ref?.any rows)
        · obtain ⟨rfl, harray | hrow⟩ := hkids
          · cases v with
            | array items => exact .kids
            | _ => cases harray
          · cases v with
            | ref id => exact .row hrow
            | _ => cases hrow
        · have hvp : v.kidOnly p = true := by
            simp only [Bool.or_eq_true, Bool.and_eq_true, beq_iff_eq, hv, and_false, false_and, or_false] at hp
            exact hp.1.resolve_right fun h => hkids ⟨h.1, .inl h.2⟩
          have hvr : v.rowsApart rows = true := by
            simp only [Bool.or_eq_true, Bool.and_eq_true, beq_iff_eq] at hr
            exact hr.1.resolve_right fun h => hkids ⟨h.1, .inr h.2⟩
          exact .some (struck_strike hvp hvr)
      · rwa [if_neg hk, if_neg hk]

end

namespace Struck

variable {v w : Object α}

theorem ref? (h : Struck p rows v w) : w.ref? = v.ref? := by cases h <;> rfl

theorem clear {id : ObjectId} (h : Struck p rows v w) (hv : v.ref? = some id) : Clear p rows id := by
  obtain rfl := ref?_eq_some.mp hv
  cases h with
  | leaf hleaf => cases hleaf
  | ref clear => exact clear

theorem name? (h : Struck p rows v w) : w.name? = v.name? := by cases h <;> rfl

theorem number? [Scalar α] (h : Struck p rows v w) : w.number? = v.number? := by cases h <;> rfl

theorem stream? (h : Struck p rows v w) : w.stream? = v.stream? := by cases h <;> rfl

theorem array? (h : Struck p rows v w) : (v.array? = none ∧ w.array? = none) ∨
    ∃ vs ws, v = .array vs ∧ w = .array ws ∧ List.Forall₂ (Struck p rows) vs ws := by
  cases h with
  | array items => exact .inr ⟨_, _, rfl, rfl, items⟩
  | leaf hv => cases v <;> first | exact .inl ⟨rfl, rfl⟩ | cases hv
  | _ => exact .inl ⟨rfl, rfl⟩

theorem dict? (h : Struck p rows v w) : (v.dict? = none ∧ w.dict? = none) ∨
    ∃ es fs : Dict α, v = .dict es ∧ w = .dict fs ∧ ∀ key, EntryStruck p rows key (es.find? key) (fs.find? key) := by
  cases h with
  | dict entries => exact .inr ⟨_, _, rfl, rfl, entries⟩
  | leaf hv => cases v <;> first | exact .inl ⟨rfl, rfl⟩ | cases hv
  | _ => exact .inl ⟨rfl, rfl⟩

end Struck

/-- The keys under which striking may change more than the objects that are there. -/
def struckKeys : List Bytes := ["P", "Kids", "Count"].map Syntax.ascii

theorem entryStruck_rel {key : Bytes} {x y : Option (Object α)} (h : EntryStruck p rows key x y)
    (hkey : key ∉ struckKeys) : Option.Rel (Struck p rows) x y := by
  cases h with
  | none => exact .none
  | some h => exact .some h
  | _ => exact absurd (by simp [struckKeys]) hkey

/-- What is under those keys is no dictionary and refers to none but the page and rows of kids. -/
theorem entryStruck_cases {key : Bytes} {x y : Option (Object α)} (h : EntryStruck p rows key x y) :
    Option.Rel (Struck p rows) x y ∨ (key = Syntax.ascii "P" ∧ x = some (.ref p) ∧ y = none) ∨
      ∃ v w, x = some v ∧ y = some w ∧ ((∃ id, rows id = true ∧ v = .ref id ∧ w = .ref id) ∨
        (v.ref? = none ∧ w.ref? = none) ∧ v.dict? = none ∧ w.dict? = none) := by
  cases h with
  | none => exact .inl .none
  | some h => exact .inl (.some h)
  | out => exact .inr (.inl ⟨rfl, rfl, rfl⟩)
  | row h => exact .inr (.inr ⟨_, _, rfl, rfl, .inl ⟨_, h, rfl, rfl⟩⟩)
  | _ => exact .inr (.inr ⟨_, _, rfl, rfl, .inr ⟨⟨rfl, rfl⟩, rfl, rfl⟩⟩)

theorem entryStruck_count {x : Option (Object α)} {m : Int}
    (h : EntryStruck p rows (Syntax.ascii "Count") x (some (.int m))) (n : Int) :
    EntryStruck p rows (Syntax.ascii "Count") x (some (.int n)) := by
  generalize hkey : Syntax.ascii "Count" = key at h ⊢
  cases h with
  | some h =>
    cases h
    exact hkey ▸ .count
  | count => exact .count

/-- A change of the count of a dictionary that is left. -/
theorem Struck.uncounted {v : Object α} {fs : Dict α} (h : Struck p rows v (.dict fs)) :
    Struck p rows v (.dict (Document.uncounted fs)) := by
  rcases h.dict? with ⟨-, hw⟩ | ⟨es, _, rfl, he, hentries⟩
  · cases hw
  · cases he
    unfold Document.uncounted
    cases hcount : (fs.get? "Count").bind Object.int? with
    | none => exact h
    | some m =>
      refine .dict fun key => ?_
      have hset : Dict.find? (fs.set "Count" (.int ((m - 1).bmod (2 ^ 64)))) key = _ := Dict.find?_setBytes _ _ _ _
      rw [hset]
      split
      · rename_i hkey
        subst hkey
        obtain ⟨w, hw, hint⟩ := Option.bind_eq_some_iff.mp hcount
        cases w <;> cases hint
        have hold := hentries (Syntax.ascii "Count")
        rw [show fs.find? (Syntax.ascii "Count") = some (.int m) from hw] at hold
        exact entryStruck_count hold _
      · exact hentries key

end Struck

end Object

end Marginalia

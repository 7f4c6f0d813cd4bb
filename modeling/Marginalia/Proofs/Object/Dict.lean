import Marginalia.Object.Basic

/-!
Looking up in a dictionary that was changed.
-/

namespace Marginalia

namespace Dict

variable {α : Type}

theorem find?_cons (key key' : Bytes) (v : Object α) (d : Dict α) :
    Dict.find? ((key, v) :: d) key' = if key = key' then some v else d.find? key' := by
  by_cases hk : key = key' <;> simp [find?, hk]

theorem find?_setBytes (d : Dict α) (key key' : Bytes) (v : Object α) :
    (d.setBytes key v).find? key' = if key = key' then some v else d.find? key' := by
  unfold setBytes
  split
  · rename_i hany
    have hkeys : (fun e : Bytes × Object α => e.1 == key') ∘
        (fun e => if e.1 == key then (e.1, v) else e) = fun e => e.1 == key' := by
      funext e
      simp only [Function.comp_apply]
      split <;> rfl
    have hfind : find? (d.map fun e => if e.1 == key then (e.1, v) else e) key' =
        (d.find? key').map fun w => if key = key' then v else w := by
      simp only [find?, List.find?_map, hkeys, Option.map_map]
      cases he : List.find? (fun e => e.1 == key') d with
      | none => rfl
      | some e =>
        have hk : e.1 = key' := by simpa using List.find?_some he
        by_cases hkk : key = key'
        · simp [hk, hkk]
        · simp [hk, hkk, Ne.symm hkk]
    rw [hfind]
    by_cases hkk : key = key'
    · subst hkk
      obtain ⟨e, he, hk⟩ := List.any_eq_true.mp hany
      cases hf : d.find? key with
      | none =>
        simp only [find?, Option.map_eq_none_iff, List.find?_eq_none] at hf
        exact absurd hk (hf e he)
      | some w => simp
    · simp [hkk]
  · rename_i hany
    simp only [find?, List.find?_append, List.find?_singleton]
    by_cases hkk : key = key'
    · subst hkk
      have hnone : List.find? (fun e => e.1 == key) d = none := by
        rw [List.find?_eq_none]
        intro e he hk
        exact hany (List.any_eq_true.mpr ⟨e, he, hk⟩)
      simp [hnone]
    · simp [hkk]

theorem get?_set_self (d : Dict α) (key : String) (v : Object α) :
    (d.set key v).get? key = some v := by
  simp [get?, set, find?_setBytes]

theorem get?_set_of_ne (d : Dict α) {key key' : String} (v : Object α)
    (h : Syntax.ascii key ≠ Syntax.ascii key') : (d.set key v).get? key' = d.get? key' := by
  simp [get?, set, find?_setBytes, h]

theorem find?_erase (d : Dict α) (key : String) (key' : Bytes) :
    (d.erase key).find? key' = if Syntax.ascii key = key' then none else d.find? key' := by
  simp only [find?, erase, List.find?_filter]
  by_cases hk : Syntax.ascii key = key'
  · subst hk
    simp
  · rw [if_neg hk]
    congr 2
    funext e
    by_cases he : e.1 = key'
    · simp [he, Ne.symm hk]
    · simp [he]

theorem get?_erase_self (d : Dict α) (key : String) : (d.erase key).get? key = none := by
  simp [get?, find?_erase]

theorem get?_erase_of_ne (d : Dict α) {key key' : String}
    (h : Syntax.ascii key ≠ Syntax.ascii key') : (d.erase key).get? key' = d.get? key' := by
  simp [get?, find?_erase, h]

theorem get?_foldl_set (entries : List (String × Object α)) (d : Dict α) (key : String) :
    (entries.foldl (fun (d : Dict α) e => d.set e.1 e.2) d).get? key =
      ((ofList entries).get? key).or (d.get? key) := by
  suffices h : ∀ acc : Dict α, (entries.foldl (fun (d : Dict α) e => d.set e.1 e.2) acc).get? key =
      ((entries.foldl (fun (d : Dict α) e => d.set e.1 e.2) ([] : Dict α)).get? key).or (acc.get? key) from h d
  induction entries with
  | nil => intro acc; rfl
  | cons e es ih =>
    intro acc
    rw [List.foldl_cons, List.foldl_cons, ih (acc.set e.1 e.2), ih (Dict.set [] e.1 e.2),
      Option.or_assoc]
    congr 1
    by_cases hk : Syntax.ascii e.1 = Syntax.ascii key
    · simp [get?, set, find?_setBytes, hk]
    · rw [get?_set_of_ne _ _ hk, get?_set_of_ne _ _ hk]
      rfl

theorem get?_ofList_nil (key : String) : (ofList ([] : List (String × Object α))).get? key = none := rfl

/-- Of entries with one key the last counts. -/
theorem get?_ofList_cons (e : String × Object α) (entries : List (String × Object α)) (key : String) :
    (ofList (e :: entries)).get? key = ((ofList entries).get? key).or
      (if Syntax.ascii e.1 = Syntax.ascii key then some e.2 else none) := by
  have h := get?_foldl_set entries (Dict.set [] e.1 e.2) key
  rw [ofList, List.foldl_cons, h]
  congr 1
  split
  · rename_i hk
    simp [get?, set, find?_setBytes, hk]
  · rename_i hk
    rw [get?_set_of_ne _ _ hk]
    rfl

/-- An entry that is found is among the entries. -/
theorem mem_of_find? {d : Dict α} {key : Bytes} {v : Object α} (h : d.find? key = some v) :
    (key, v) ∈ d := by
  obtain ⟨e, he, rfl⟩ := Option.map_eq_some_iff.mp h
  have hk : e.1 = key := by simpa using List.find?_some he
  exact hk ▸ List.mem_of_find?_eq_some he

end Dict

end Marginalia

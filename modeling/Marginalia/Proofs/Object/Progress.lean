import Marginalia.Proofs.Object.Joining

/-!
Every reader of values leaves an end of its input, and one that reads a value leaves less than it had.
-/

namespace Marginalia

open Syntax

namespace ObjectReader

/-- That an input is an end of another one and not all of it. -/
structure Behind (r bs : Bytes) : Prop where
  suffix : r <:+ bs
  length : r.length < bs.length

namespace Behind

variable {r s bs : Bytes}

theorem cons (c : UInt8) (h : r <:+ bs) : Behind r (c :: bs) :=
  ⟨h.trans (List.suffix_cons c bs), Nat.lt_succ_of_le h.length_le⟩

theorem after (h : r <:+ s) (h' : Behind s bs) : Behind r bs :=
  ⟨h.trans h'.suffix, Nat.lt_of_le_of_lt h.length_le h'.length⟩

theorem within (h : Behind r s) (h' : s <:+ bs) : Behind r bs :=
  ⟨h.suffix.trans h', Nat.lt_of_lt_of_le h.length h'.length_le⟩

end Behind

theorem digits_suffix (bs : Bytes) : (digits bs).2 <:+ bs := List.dropWhile_suffix _

theorem sign_suffix (bs : Bytes) : (sign bs).2 <:+ bs := by
  unfold sign
  split
  · exact List.suffix_cons _ _
  · exact List.suffix_cons _ _
  · exact List.suffix_rfl

/-- Digits are not read from an input that has none. -/
theorem digits_behind {bs : Bytes} (h : (digits bs).1 ≠ []) : Behind (digits bs).2 bs := by
  refine ⟨digits_suffix bs, ?_⟩
  have hsplit : (digits bs).1.length + (digits bs).2.length = bs.length := by
    rw [← List.length_append]
    exact congrArg List.length List.takeWhile_append_dropWhile
  have hpos := List.length_pos_iff.mpr h
  omega

theorem unsigned?_behind {bound n : Nat} {bs r : Bytes} (h : unsigned? bound bs = some (n, r)) :
    Behind r bs := by
  unfold unsigned? at h
  simp only at h
  split at h
  · cases h
  · rename_i hne
    simp only [Bool.or_eq_true, not_or, List.isEmpty_iff] at hne
    obtain ⟨rfl, rfl⟩ := Prod.mk.inj (Option.some.inj h)
    exact digits_behind hne.1

theorem integer?_behind {n : Int} {bs r : Bytes} (h : integer? bs = some (n, r)) : Behind r bs := by
  unfold integer? at h
  simp only at h
  split at h
  · rename_i m hm
    split at h
    · obtain ⟨-, rfl⟩ := Prod.mk.inj (Option.some.inj h)
      refine (digits_behind fun hne => ?_).within (sign_suffix bs)
      rw [hne, List.append_nil] at hm
      unfold sign at hm
      split at hm <;> cases hm
    · cases h
  · cases h

theorem real?_behind {α : Type} [Scalar α] {x : α} {bs r : Bytes} (h : real? bs = some (x, r)) :
    Behind r bs := by
  unfold real? at h
  simp only at h
  split at h
  · rename_i t ht
    obtain ⟨d, -, he⟩ := Option.map_eq_some_iff.mp h
    obtain ⟨rfl, rfl⟩ := Prod.mk.inj he
    have hpoint : Behind t (digits (sign bs).2).2 := by
      rw [ht]
      exact .cons _ List.suffix_rfl
    exact .after (digits_suffix t) (hpoint.within ((digits_suffix _).trans (sign_suffix bs)))
  · cases h

theorem nameBytes_suffix (bs : Bytes) : (nameBytes bs).2 <:+ bs := by
  fun_induction nameBytes bs with
  | case2 c h l bs hc hx b hb n r hn ih =>
    rw [hn] at ih
    exact ih.trans ((List.suffix_cons _ _).trans ((List.suffix_cons _ _).trans (List.suffix_cons _ _)))
  | case4 c h l bs hc hx n r hn ih =>
    rw [hn] at ih
    exact ih.trans (List.suffix_cons _ _)
  | case6 => exact List.suffix_cons _ _
  | case7 | case9 => exact List.nil_suffix
  | _ => exact List.suffix_rfl

theorem name?_behind {n bs r : Bytes} (h : name? bs = some (n, r)) : Behind r bs := by
  unfold name? at h
  split at h
  · rename_i bs'
    have hr : (nameBytes bs').2 = r := congrArg Prod.snd (Option.some.inj h)
    exact hr ▸ .cons _ (nameBytes_suffix bs')
  · cases h

theorem read?_suffix {depth : Nat} {bs s r : Bytes} {l : Literal} (h : l.read? depth bs = some (s, r)) :
    r <:+ bs := by
  induction bs generalizing l with
  | nil => cases h
  | cons c bs ih =>
    simp only [Literal.read?] at h
    split at h
    · split at h
      · cases h
      · exact (ih h).trans (List.suffix_cons c bs)
    · obtain ⟨-, rfl⟩ := Prod.mk.inj (Option.some.inj h)
      exact List.suffix_cons c bs

theorem hexBody?_suffix {nibbles : List UInt8} {bs s r : Bytes}
    (h : hexBody? nibbles bs = some (s, r)) : r <:+ bs := by
  induction bs generalizing nibbles with
  | nil => cases h
  | cons c bs ih =>
    simp only [hexBody?] at h
    split at h
    · obtain ⟨-, rfl⟩ := Prod.mk.inj (Option.some.inj h)
      exact List.suffix_cons c bs
    · split at h
      · exact (ih h).trans (List.suffix_cons c bs)
      · split at h
        · exact (ih h).trans (List.suffix_cons c bs)
        · cases h

theorem literal?_behind {bs s r : Bytes} (h : literal? bs = some (s, r)) : Behind r bs := by
  unfold literal? at h
  split at h
  · exact .cons _ (read?_suffix h)
  · cases h

theorem hexString?_behind {bs s r : Bytes} (h : hexString? bs = some (s, r)) : Behind r bs := by
  unfold hexString? at h
  split at h
  · exact .cons _ (hexBody?_suffix h)
  · cases h

theorem expect?_behind {word bs r : Bytes} (hw : word ≠ []) (h : expect? word bs = some r) :
    Behind r bs := by
  obtain rfl := expect?_eq_some.mp h
  refine ⟨List.suffix_append _ _, ?_⟩
  have := List.length_pos_iff.mpr hw
  rw [List.length_append]
  omega

theorem skipBlankFrom_suffix {bs text : Bytes} (h : bs <:+ text) :
    skipBlankFrom (some text) bs <:+ text ∧ skipBlankFrom none bs <:+ bs := by
  induction bs generalizing text with
  | nil => exact ⟨List.suffix_rfl, List.suffix_rfl⟩
  | cons c bs ih =>
    have htail := (List.suffix_cons c bs).trans h
    obtain ⟨hpending, hnone⟩ := ih htail
    constructor
    · simp only [skipBlankFrom]
      split
      · exact hnone.trans htail
      · exact hpending
    · simp only [skipBlankFrom]
      split
      · exact hnone.trans (List.suffix_cons c bs)
      · split
        · exact (ih (List.suffix_cons c bs)).1
        · exact List.suffix_rfl

theorem skipBlank_suffix (bs : Bytes) : skipBlank bs <:+ bs :=
  (skipBlankFrom_suffix List.suffix_rfl).2

theorem reference?_behind {id : ObjectId} {bs r : Bytes} (h : reference? bs = some (id, r)) :
    Behind r bs := by
  simp only [reference?, Option.bind_eq_bind, Option.bind_eq_some_iff] at h
  obtain ⟨⟨number, r₁⟩, h₁, ⟨generation, r₂⟩, h₂, r₃, h₃, h⟩ := h
  obtain ⟨-, rfl⟩ := Prod.mk.inj (Option.some.inj h)
  refine .after ?_ (unsigned?_behind h₁)
  have hletter := (expect?_behind (by decide) h₃).suffix.trans (skipBlank_suffix r₂)
  exact hletter.trans ((unsigned?_behind h₂).suffix.trans (skipBlank_suffix r₁))

section Values

variable {α : Type} [Scalar α]

theorem firstOf_behind {bs r : Bytes} {β : Type} {v : β} {a : Option (β × Bytes)}
    {b : Unit → Option (β × Bytes)} (ha : ∀ v r, a = some (v, r) → Behind r bs)
    (hb : ∀ v r, b () = some (v, r) → Behind r bs) (h : firstOf a b = some (v, r)) : Behind r bs := by
  cases ha' : a with
  | none =>
    rw [ha'] at h
    exact hb v r h
  | some found =>
    rw [ha'] at h
    exact ha v r (ha'.trans h)

theorem map_behind {bs : Bytes} {β γ : Type} {f : Bytes → Option (β × Bytes)} {g : β → γ}
    (hf : ∀ v r, f bs = some (v, r) → Behind r bs) (v : γ) (r : Bytes)
    (h : (f bs).map (fun (v, r) => (g v, r)) = some (v, r)) : Behind r bs := by
  obtain ⟨⟨w, s⟩, hs, he⟩ := Option.map_eq_some_iff.mp h
  obtain ⟨-, rfl⟩ := Prod.mk.inj he
  exact hf w _ hs

theorem simple?_behind {references : Bool} {bs r : Bytes} {v : Object α}
    (h : simple? references bs = some (v, r)) : Behind r bs := by
  have hword : ∀ {word : Bytes} {w : Object α}, word ≠ [] → ∀ v r,
      (expect? word bs).map (fun r => (w, r)) = some (v, r) → Behind r bs := by
    intro word w hw v r hr
    obtain ⟨s, hs, he⟩ := Option.map_eq_some_iff.mp hr
    obtain ⟨-, rfl⟩ := Prod.mk.inj he
    exact expect?_behind hw hs
  refine firstOf_behind (hword (by decide)) (fun v r => firstOf_behind (hword (by decide)) fun v r =>
    firstOf_behind (hword (by decide)) fun v r => firstOf_behind ?_ fun v r =>
    firstOf_behind (map_behind fun _ _ => real?_behind) fun v r =>
    firstOf_behind (map_behind fun _ _ => integer?_behind) fun v r =>
    firstOf_behind (map_behind fun _ _ => name?_behind) fun v r =>
    firstOf_behind (map_behind (g := fun s => (Object.string s false : Object α)) fun _ _ => literal?_behind)
      (map_behind (g := fun s => (Object.string s true : Object α)) fun _ _ => hexString?_behind)) h
  intro v r hr
  split at hr
  · exact map_behind (fun _ _ => reference?_behind) v r hr
  · cases hr

theorem value?_behind (fuel : Nat) :
    (∀ {references : Bool} {bs r : Bytes} {v : Object α}, value? references fuel bs = some (v, r) →
      Behind r bs) ∧
    (∀ (acc : List (Object α)) (bs : Bytes), (items fuel acc bs).2 <:+ bs) ∧
    ∀ (acc : Dict α) (bs : Bytes), (entries fuel acc bs).2 <:+ bs := by
  induction fuel with
  | zero => exact ⟨fun h => by simp [value?] at h, fun _ _ => List.suffix_rfl, fun _ _ => List.suffix_rfl⟩
  | succ fuel ih =>
    obtain ⟨hvalue, hitems, hentries⟩ := ih
    refine ⟨fun {references bs r v} h => ?_, fun acc bs => ?_, fun acc bs => ?_⟩
    · rcases value?_cases h with hs | ⟨bs', vs, rfl, -, hin⟩ | ⟨bs', es, rfl, -, hin⟩
      · exact simple?_behind hs
      · have hr : 0x5D :: r <:+ skipBlank bs' := by simpa only [hin] using hitems [] (skipBlank bs')
        exact .cons _ ((List.suffix_cons _ r).trans (hr.trans (skipBlank_suffix bs')))
      · have hr : 0x3E :: 0x3E :: r <:+ skipBlank bs' := by
          simpa only [hin] using hentries [] (skipBlank bs')
        have hr' : r <:+ bs' := (List.suffix_append [0x3E, 0x3E] r).trans (hr.trans (skipBlank_suffix bs'))
        exact .cons _ (hr'.trans (List.suffix_cons _ bs'))
    · simp only [items]
      split
      · rename_i v r hv
        exact (hitems _ _).trans ((skipBlank_suffix r).trans (hvalue hv).suffix)
      · exact List.suffix_rfl
    · simp only [entries]
      split
      · rename_i key r hk
        split
        · rename_i v r' hv
          have hr : r' <:+ bs := (hvalue hv).suffix.trans ((skipBlank_suffix r).trans (name?_behind hk).suffix)
          exact (hentries _ _).trans ((skipBlank_suffix r').trans hr)
        · exact List.suffix_rfl
      · exact List.suffix_rfl

end Values

end ObjectReader

end Marginalia

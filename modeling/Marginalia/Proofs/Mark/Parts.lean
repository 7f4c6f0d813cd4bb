import Mathlib.Algebra.Order.Field.Basic
import Mathlib.Tactic.Positivity
import Marginalia.Mark.Color
import Marginalia.Mark.Uuid
import Marginalia.Proofs.Number.Exact
import Marginalia.Proofs.Number.Rounding
import Marginalia.Text.Blank

/-!
The identifier and the colour of an annotation, which are read as they are written.
-/

namespace Marginalia

namespace Unicode

/-- A text without white space is trimmed to itself. -/
theorem trimChars_of_dark {cs : List Char} (h : ∀ c ∈ cs, isWhite c = false) : trimChars cs = cs := by
  have hdrop : ∀ {ds : List Char}, (∀ c ∈ ds, isWhite c = false) → ds.dropWhile isWhite = ds := by
    intro ds hds
    cases ds with
    | nil => rfl
    | cons d ds => simp [hds d (by simp)]
  rw [trimChars, hdrop h, hdrop (by simpa using h), List.reverse_reverse]

end Unicode

namespace Uuid

theorem digit?_digitChar (d : Fin 16) : digit? (digitChar d) = some d := by
  revert d
  decide

theorem digitChar_ne_hyphen (d : Fin 16) : digitChar d ≠ '-' := by
  revert d
  decide

theorem digitChar_ascii (d : Fin 16) : (digitChar d).toNat < 0x80 := by
  revert d
  decide

theorem isWhite_digitChar (d : Fin 16) : Unicode.isWhite (digitChar d) = false := by
  revert d
  decide

theorem mapM_digit? (ds : List (Fin 16)) : (ds.map digitChar).mapM digit? = some ds := by
  induction ds with
  | nil => rfl
  | cons d ds ih =>
    rw [List.map_cons, List.mapM_cons, digit?_digitChar, ih]
    rfl

theorem simple?_digits (u : Uuid) : simple? (u.digits.map digitChar) = some u := by
  rw [simple?, mapM_digit?, Option.bind_some, ofDigits?, dif_pos u.length_digits]

theorem toList_text (u : Uuid) : u.text.toList =
    (u.digits.map digitChar).take 8 ++ ['-'] ++ ((u.digits.map digitChar).drop 8).take 4 ++ ['-'] ++
      ((u.digits.map digitChar).drop 12).take 4 ++ ['-'] ++
      ((u.digits.map digitChar).drop 16).take 4 ++ ['-'] ++ (u.digits.map digitChar).drop 20 := by
  simp [text]

/-- The groups of an identifier together are all its digits. -/
theorem groups (cs : List Char) : cs.take 8 ++ ((cs.drop 8).take 4 ++ ((cs.drop 12).take 4 ++
    ((cs.drop 16).take 4 ++ cs.drop 20))) = cs := by
  have h16 : (cs.drop 16).take 4 ++ cs.drop 20 = cs.drop 16 := by
    simpa using List.take_append_drop 4 (cs.drop 16)
  have h12 : (cs.drop 12).take 4 ++ cs.drop 16 = cs.drop 12 := by
    simpa using List.take_append_drop 4 (cs.drop 12)
  have h8 : (cs.drop 8).take 4 ++ cs.drop 12 = cs.drop 8 := by
    simpa using List.take_append_drop 4 (cs.drop 8)
  rw [h16, h12, h8, List.take_append_drop]

theorem filter_text (u : Uuid) : u.text.toList.filter (· ≠ '-') = u.digits.map digitChar := by
  have hkeep : ∀ c ∈ u.digits.map digitChar, (decide (c ≠ '-')) = true := by
    intro c hc
    obtain ⟨d, -, rfl⟩ := List.mem_map.mp hc
    simpa using digitChar_ne_hyphen d
  rw [toList_text]
  generalize u.digits.map digitChar = cs at hkeep ⊢
  have hf : ∀ {ds : List Char}, ds ⊆ cs → ds.filter (· ≠ '-') = ds := fun hs =>
    List.filter_eq_self.mpr fun c hc => hkeep c (hs hc)
  have htake : ∀ i j, (cs.drop i).take j ⊆ cs := fun i j =>
    List.Subset.trans (List.take_subset _ _) (List.drop_subset _ _)
  simp only [List.filter_append, hf (List.take_subset _ _), hf (List.drop_subset _ _), hf (htake _ _)]
  simpa using groups cs

/-- An identifier is read from the text that it is written as. -/
theorem parse?_text (u : Uuid) : parse? u.text.toList = some u := by
  have hlen : (u.digits.map digitChar).length = 32 := by rw [List.length_map, u.length_digits]
  have h36 : u.text.toList.length = 36 := by
    rw [toList_text]
    simp [hlen]
  have hhyphens : ([8, 13, 18, 23].all fun i => u.text.toList[i]? == some '-') = true := by
    rw [toList_text]
    simp [List.getElem?_append, hlen]
  have hy : hyphenated? u.text.toList = some u := by
    rw [hyphenated?, if_pos (by rw [h36, hhyphens]; rfl), filter_text, simple?_digits]
  rw [parse?, h36]
  exact hy

theorem text_chars (u : Uuid) : ∀ c ∈ u.text.toList, c.toNat < 0x80 ∧ Unicode.isWhite c = false := by
  intro c hc
  by_cases hh : c = '-'
  · subst hh
    decide
  · have hm : c ∈ u.text.toList.filter (· ≠ '-') := List.mem_filter.mpr ⟨hc, by simpa using hh⟩
    rw [filter_text] at hm
    obtain ⟨d, -, rfl⟩ := List.mem_map.mp hm
    exact ⟨digitChar_ascii d, isWhite_digitChar d⟩

end Uuid

namespace MarkId

/-- The identifier that stands in a text, white space around it aside. -/
theorem parse?_text (i : MarkId) : (match Uuid.parse? (Unicode.trimChars i.text.toList) with
    | some u => MarkId.known u
    | none => .pending) = i := by
  cases i with
  | known u =>
    rw [text, Unicode.trimChars_of_dark fun c hc => (u.text_chars c hc).2, Uuid.parse?_text]
  | pending => decide

theorem text_ascii (i : MarkId) : ∀ c ∈ i.text.toList, c.toNat < 0x80 := by
  cases i with
  | known u => exact fun c hc => (u.text_chars c hc).1
  | pending => decide

end MarkId

namespace Color

variable {N : Numerals}

/-- A part of one within half a byte of a channel is read as that channel. -/
theorem byteOfUnit_of_near {v : Exact N} {b : UInt8} (h : |v * 255 - (b.toNat : Exact N)| < 1 / 2) :
    byteOfUnit v = b := by
  have hb : b.toNat ≤ 255 := Nat.le_of_lt_succ b.toNat_lt
  have hclamped : |(if v < 0 then 0 else if 1 < v then 1 else v) * 255 - (b.toNat : Exact N)| < 1 / 2 := by
    split_ifs with hlow hhigh
    · have hzero : b.toNat = 0 := by
        by_contra hne
        have hone : (1 : Exact N) ≤ b.toNat := by exact_mod_cast Nat.one_le_iff_ne_zero.mpr hne
        rw [abs_lt] at h
        linarith
      simp [hzero]
    · have hfull : b.toNat = 255 := by
        by_contra hne
        have hless : (b.toNat : Exact N) + 1 ≤ 255 := by exact_mod_cast (by omega : b.toNat + 1 ≤ 255)
        rw [abs_lt] at h
        linarith
      simp [hfull]
    · exact h
  simp only [byteOfUnit, Exact.zero_eq, Exact.one_eq]
  generalize (if v < 0 then 0 else if 1 < v then 1 else v : Exact N) = w at hclamped
  have hround : (Scalar.exact (w * ((255 : Nat) : Exact N))).roundWithin 0 255 = b.toNat :=
    Extended.roundWithin_of_near hclamped (by exact_mod_cast hb)
  rw [hround, Int.toNat_natCast]
  exact UInt8.ofNat_toNat

/-- A channel is read from the part of one that it is written as. -/
theorem byteOfUnit_unitOfByte (b : UInt8) : byteOfUnit (unitOfByte b : Exact N) = b := by
  apply byteOfUnit_of_near
  have hmul : (unitOfByte b : Exact N) * 255 = b.toNat := by
    unfold unitOfByte
    push_cast
    field_simp
  rw [hmul, sub_self, abs_zero]
  norm_num

end Color

end Marginalia

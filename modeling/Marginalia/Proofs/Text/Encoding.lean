import Mathlib.Tactic.IntervalCases
import Marginalia.Font.Source

/-!
Text that is stored, or shown in a font that supports it, is read back as it was.
-/

namespace Marginalia

/-- The code points of characters leave out the surrogates. -/
theorem Char.scalar (c : Char) : c.toNat < 0xD800 ∨ 0xDFFF < c.toNat ∧ c.toNat < 0x110000 :=
  c.valid

namespace Utf16

theorem units_unitBytes {u : Nat} (h : u < 65536) (rest : Bytes) :
    units (unitBytes u ++ rest) = u :: units rest := by
  have hh : (UInt8.ofNat (u / 256)).toNat = u / 256 := UInt8.toNat_ofNat_of_lt' (show _ < 256 by omega)
  have hl : (UInt8.ofNat u).toNat = u % 256 := by simp
  simp only [unitBytes, List.cons_append, List.nil_append, units, hh, hl]
  congr 1
  omega

theorem charUnits_lt (c : Char) : ∀ u ∈ charUnits c, u < 65536 := by
  have hc := Char.scalar c
  unfold charUnits
  by_cases h : c.toNat < 0x10000
  · simp [h]
  · simp only [h, if_false, List.mem_cons, List.not_mem_nil, or_false]
    intro u hu
    omega

theorem units_flatMap {us : List Nat} (h : ∀ u ∈ us, u < 65536) (rest : Bytes) :
    units (us.flatMap unitBytes ++ rest) = us ++ units rest := by
  induction us with
  | nil => rfl
  | cons u us ih =>
    rw [List.flatMap_cons, List.append_assoc, units_unitBytes (h u (by simp)),
      ih fun v hv => h v (by simp [hv])]
    rfl

theorem units_encode (cs : List Char) : units (encode cs) = cs.flatMap charUnits := by
  induction cs with
  | nil => rfl
  | cons c cs ih =>
    have hsplit : encode (c :: cs) = (charUnits c).flatMap unitBytes ++ encode cs := rfl
    rw [hsplit, units_flatMap (charUnits_lt c), ih]
    rfl

/-- A character that is one unit is no surrogate. -/
theorem ofUnits_single {c : Char} (h : c.toNat < 0x10000) (rest : List Nat) :
    ofUnits (c.toNat :: rest) = c :: ofUnits rest := by
  have hc := Char.scalar c
  have hhigh : isHigh c.toNat = false := by
    simp only [isHigh, Bool.and_eq_false_iff, decide_eq_false_iff_not]
    omega
  have hlow : isLow c.toNat = false := by
    simp only [isLow, Bool.and_eq_false_iff, decide_eq_false_iff_not]
    omega
  cases rest <;> simp [ofUnits, hhigh, hlow, Char.ofNat_toNat]

/-- A character of two units is the one that the pair stands for. -/
theorem ofUnits_pair {c : Char} (h : ¬ c.toNat < 0x10000) (rest : List Nat) :
    ofUnits ((0xD800 + (c.toNat - 0x10000) / 1024) :: (0xDC00 + (c.toNat - 0x10000) % 1024) :: rest) =
      c :: ofUnits rest := by
  have hc := Char.scalar c
  have hhigh : isHigh (0xD800 + (c.toNat - 0x10000) / 1024) = true := by
    simp only [isHigh, Bool.and_eq_true, decide_eq_true_eq]
    omega
  have hlow : isLow (0xDC00 + (c.toNat - 0x10000) % 1024) = true := by
    simp only [isLow, Bool.and_eq_true, decide_eq_true_eq]
    omega
  have hn : 0x10000 + (0xD800 + (c.toNat - 0x10000) / 1024 - 0xD800) * 1024 +
      (0xDC00 + (c.toNat - 0x10000) % 1024 - 0xDC00) = c.toNat := by omega
  simp only [ofUnits, hhigh, hlow, if_true, hn, Char.ofNat_toNat]

theorem ofUnits_charUnits (cs : List Char) : ofUnits (cs.flatMap charUnits) = cs := by
  induction cs with
  | nil => rfl
  | cons c cs ih =>
    rw [List.flatMap_cons]
    by_cases h : c.toNat < 0x10000
    · have hu : charUnits c = [c.toNat] := by simp [charUnits, h]
      rw [hu, List.cons_append, List.nil_append, ofUnits_single h, ih]
    · have hu : charUnits c =
          [0xD800 + (c.toNat - 0x10000) / 1024, 0xDC00 + (c.toNat - 0x10000) % 1024] := by
        simp [charUnits, h]
      rw [hu, List.cons_append, List.cons_append, List.nil_append, ofUnits_pair h, ih]

theorem decode_encode (cs : List Char) : decode (encode cs) = cs := by
  rw [decode, units_encode, ofUnits_charUnits]

end Utf16

namespace Utf8

theorem lead_ascii {c : Char} (h : c.toNat < 0x80) : lead (UInt8.ofNat c.toNat) = .ascii c := by
  have hn : (UInt8.ofNat c.toNat).toNat = c.toNat := UInt8.toNat_ofNat_of_lt' (show _ < 256 by omega)
  have hlt : UInt8.ofNat c.toNat < 0x80 := by
    rw [UInt8.lt_iff_toNat_lt, hn]
    exact h
  simp only [lead, hlt, if_true, hn, Char.ofNat_toNat]

theorem read_ascii {cs : List Char} (h : ∀ c ∈ cs, c.toNat < 0x80) :
    read none (cs.map fun c => UInt8.ofNat c.toNat) = cs.map some := by
  induction cs with
  | nil => rfl
  | cons c cs ih =>
    simp only [List.map_cons, read, lead_ascii (h c (by simp)),
      ih fun c' hc' => h c' (by simp [hc']), List.cons_append, List.nil_append]

theorem decodeLossy_ascii {cs : List Char} (h : ∀ c ∈ cs, c.toNat < 0x80) :
    decodeLossy (cs.map fun c => UInt8.ofNat c.toNat) = cs := by
  simp [decodeLossy, read_ascii h, Function.comp_def]

/-- A byte behind the first of a sequence, with six bits of the character. -/
def tail (n : Nat) : UInt8 := UInt8.ofNat (0x80 + n % 64)

theorem toNat_tail (n : Nat) : (tail n).toNat = 0x80 + n % 64 :=
  UInt8.toNat_ofNat_of_lt' (show _ < 256 by omega)

theorem accepts_tail {p : Pending} {n : Nat} (hlow : p.low.toNat ≤ 0x80 + n % 64)
    (hhigh : 0x80 + n % 64 ≤ p.high.toNat) : p.accepts (tail n) = true := by
  simp only [Pending.accepts, Bool.and_eq_true, decide_eq_true_eq, UInt8.le_iff_toNat_le, toNat_tail]
  exact ⟨hlow, hhigh⟩

theorem extend_tail (p : Pending) (n : Nat) :
    p.extend (tail n) = ⟨p.bits * 64 + n % 64, p.due - 1, 0x80, 0xBF⟩ := by
  have hsub : (tail n - 0x80).toNat = n % 64 := by
    rw [UInt8.toNat_sub_of_le _ _ (by rw [UInt8.le_iff_toNat_le, toNat_tail]; exact Nat.le_add_right _ _),
      toNat_tail]
    exact Nat.add_sub_cancel_left _ _
  rw [Pending.extend, hsub]

theorem read_tail {p : Pending} {n : Nat} (hlow : p.low.toNat ≤ 0x80 + n % 64)
    (hhigh : 0x80 + n % 64 ≤ p.high.toNat) (hdue : 2 ≤ p.due) (bs : Bytes) :
    read (some p) (tail n :: bs) = read (some ⟨p.bits * 64 + n % 64, p.due - 1, 0x80, 0xBF⟩) bs := by
  have hmore : ¬ p.due - 1 = 0 := by omega
  rw [read, if_pos (accepts_tail hlow hhigh), extend_tail]
  exact if_neg hmore

theorem read_last {p : Pending} {n : Nat} (hlow : p.low.toNat ≤ 0x80 + n % 64)
    (hhigh : 0x80 + n % 64 ≤ p.high.toNat) (hdue : p.due = 1) (bs : Bytes) :
    read (some p) (tail n :: bs) = some (Char.ofNat (p.bits * 64 + n % 64)) :: read none bs := by
  rw [read, if_pos (accepts_tail hlow hhigh), extend_tail]
  exact if_pos (by rw [hdue])

theorem read_opens {b : UInt8} {p : Pending} (h : lead b = .opens p) (bs : Bytes) :
    read none (b :: bs) = read (some p) bs := by
  rw [read]
  simp only [h, List.nil_append]

theorem lead_two {h : Nat} (hlow : 2 ≤ h) (hhigh : h < 32) :
    lead (UInt8.ofNat (0xC0 + h)) = .opens ⟨h, 1, 0x80, 0xBF⟩ := by
  interval_cases h <;> rfl

/-- The first of three bytes. What the second one may be leaves out overlong forms and surrogates. -/
theorem lead_three {h : Nat} (hhigh : h < 16) : ∃ low high : UInt8,
    lead (UInt8.ofNat (0xE0 + h)) = .opens ⟨h, 2, low, high⟩ ∧
      (h = 0 ∧ low = 0xA0 ∧ high = 0xBF ∨ h = 13 ∧ low = 0x80 ∧ high = 0x9F ∨
        h ≠ 0 ∧ h ≠ 13 ∧ low = 0x80 ∧ high = 0xBF) := by
  interval_cases h <;> exact ⟨_, _, rfl, by decide⟩

/-- The first of four bytes. What the second one may be leaves out overlong forms and values above the last
scalar. -/
theorem lead_four {h : Nat} (hhigh : h < 5) : ∃ low high : UInt8,
    lead (UInt8.ofNat (0xF0 + h)) = .opens ⟨h, 3, low, high⟩ ∧
      (h = 0 ∧ low = 0x90 ∧ high = 0xBF ∨ h = 4 ∧ low = 0x80 ∧ high = 0x8F ∨
        h ≠ 0 ∧ h ≠ 4 ∧ low = 0x80 ∧ high = 0xBF) := by
  interval_cases h <;> exact ⟨_, _, rfl, by decide⟩

theorem encode_cons (c : Char) (cs : List Char) : encode (c :: cs) = encode [c] ++ encode cs := by
  simp [encode]

/-- A character is read from the bytes that it is written as. -/
theorem read_encode_one (c : Char) (bs : Bytes) : read none (encode [c] ++ bs) = some c :: read none bs := by
  have hscalar := Char.scalar c
  have hc : Char.ofNat c.toNat = c := Char.ofNat_toNat c
  generalize hn : c.toNat = n at hscalar hc
  by_cases h₁ : n < 0x80
  · have hbytes : encode [c] = [UInt8.ofNat c.toNat] := by simp [encode, hn, h₁]
    rw [hbytes, List.singleton_append, read]
    simp only [lead_ascii (hn ▸ h₁), List.cons_append, List.nil_append]
  by_cases h₂ : n < 0x800
  · have hbytes : encode [c] = [UInt8.ofNat (0xC0 + n / 64), tail n] := by
      simp [encode, hn, h₁, h₂, tail]
    have hjoin : n / 64 * 64 + n % 64 = n := by omega
    rw [hbytes, List.cons_append, List.singleton_append, read_opens (lead_two (by omega) (by omega)),
      read_last (by simp) (by simp; omega) rfl, hjoin, hc]
  by_cases h₃ : n < 0x10000
  · have hbytes : encode [c] = [UInt8.ofNat (0xE0 + n / 4096), tail (n / 64), tail n] := by
      simp [encode, hn, h₁, h₂, h₃, tail]
    obtain ⟨low, high, hlead, hrange⟩ := lead_three (show n / 4096 < 16 by omega)
    have hjoin : (n / 4096 * 64 + n / 64 % 64) * 64 + n % 64 = n := by omega
    have hsecond : low.toNat ≤ 0x80 + n / 64 % 64 ∧ 0x80 + n / 64 % 64 ≤ high.toNat := by
      rcases hrange with ⟨h, rfl, rfl⟩ | ⟨h, rfl, rfl⟩ | ⟨h, h', rfl, rfl⟩ <;>
        simp only [UInt8.reduceToNat] <;> omega
    rw [hbytes, List.cons_append, List.cons_append, List.singleton_append, read_opens hlead,
      read_tail hsecond.1 hsecond.2 (Nat.le_refl 2), read_last (by simp) (by simp; omega) rfl, hjoin, hc]
  · have hbytes : encode [c] =
        [UInt8.ofNat (0xF0 + n / 262144), tail (n / 4096), tail (n / 64), tail n] := by
      simp [encode, hn, h₁, h₂, h₃, tail]
    obtain ⟨low, high, hlead, hrange⟩ := lead_four (show n / 262144 < 5 by omega)
    have hjoin : ((n / 262144 * 64 + n / 4096 % 64) * 64 + n / 64 % 64) * 64 + n % 64 = n := by omega
    have hsecond : low.toNat ≤ 0x80 + n / 4096 % 64 ∧ 0x80 + n / 4096 % 64 ≤ high.toNat := by
      rcases hrange with ⟨h, rfl, rfl⟩ | ⟨h, rfl, rfl⟩ | ⟨h, h', rfl, rfl⟩ <;>
        simp only [UInt8.reduceToNat] <;> omega
    rw [hbytes, List.cons_append, List.cons_append, List.cons_append, List.singleton_append, read_opens hlead,
      read_tail hsecond.1 hsecond.2 (Nat.le_succ 2), read_tail (by simp) (by simp; omega) (Nat.le_refl 2),
      read_last (by simp) (by simp; omega) rfl, hjoin, hc]

theorem read_encode (cs : List Char) : read none (encode cs) = cs.map some := by
  induction cs with
  | nil => rfl
  | cons c cs ih => rw [encode_cons, read_encode_one, ih, List.map_cons]

/-- A text is read from its bytes. -/
theorem decode?_encode (cs : List Char) : decode? (encode cs) = some cs := by
  rw [decode?, read_encode]
  induction cs with
  | nil => rfl
  | cons c cs ih =>
    simp only [List.map_cons, List.mapM_cons, id_eq, ih]
    rfl

/-- The first byte of the mark of UTF-16 has no place in UTF-8. -/
theorem decode?_mark (bs : Bytes) : decode? (0xFE :: bs) = none := by
  have hlead : lead 0xFE = .invalid := rfl
  simp only [decode?, read, hlead, List.cons_append, List.mapM_cons, id_eq]
  rfl

/-- No text has a byte order mark of UTF-16 in front. -/
theorem encode_ne_mark (cs : List Char) (bs : Bytes) : encode cs ≠ 0xFE :: bs := by
  intro h
  have hread := decode?_encode cs
  rw [h, decode?_mark] at hread
  cases hread

end Utf8

namespace TextString

/-- A text is read from its own bytes, whatever characters it has. -/
theorem decode_utf8 (text : String) : decode (Utf8.encode text.toList) = text := by
  unfold decode
  split
  · rename_i rest heq
    exact absurd heq (Utf8.encode_ne_mark _ _)
  · rw [Utf8.decode?_encode]
    exact String.ofList_toList

/-- A text is read from the bytes that it is stored as. -/
theorem decode_encode (text : String) : decode (encode text) = text := by
  unfold encode
  by_cases ha : isAscii text.toList = true
  · simp only [ha, if_true, decode_utf8]
  · simp only [ha, Bool.false_eq_true, if_false, decode, Utf16.decode_encode, String.ofList_toList]

end TextString

namespace WinAnsi

/-- The byte of a character stands for that character. -/
theorem charOf_byte? {c : Char} {b : UInt8} (h : byte? c = some b) : charOf b = c := by
  unfold byte? at h
  simp only at h
  split at h
  · rename_i hr
    obtain rfl := Option.some.inj h
    simp only [Bool.or_eq_true, Bool.and_eq_true, decide_eq_true_eq] at hr
    have hn : (UInt8.ofNat c.toNat).toNat = c.toNat := UInt8.toNat_ofNat_of_lt' (show _ < 256 by omega)
    have hout : ¬ (0x80 ≤ UInt8.ofNat c.toNat ∧ UInt8.ofNat c.toNat ≤ 0x9F) := by
      rw [UInt8.le_iff_toNat_le, UInt8.le_iff_toNat_le, hn]
      simp
      omega
    simp only [charOf, Bool.and_eq_true, decide_eq_true_eq, hout, if_false, hn, Char.ofNat_toNat]
  · obtain ⟨i, hi, rfl⟩ := Option.map_eq_some_iff.mp h
    obtain ⟨hlt, hc, -⟩ := List.findIdx?_eq_some_iff_getElem.mp hi
    have hlen : typographic.length = 32 := rfl
    have hn : (UInt8.ofNat (0x80 + i)).toNat = 0x80 + i := UInt8.toNat_ofNat_of_lt' (show _ < 256 by omega)
    have hin : 0x80 ≤ UInt8.ofNat (0x80 + i) ∧ UInt8.ofNat (0x80 + i) ≤ 0x9F := by
      rw [UInt8.le_iff_toNat_le, UInt8.le_iff_toNat_le, hn]
      simp
      omega
    have hsub : (UInt8.ofNat (0x80 + i) - 0x80).toNat = i := by
      rw [UInt8.toNat_sub_of_le _ _ hin.1, hn]
      simp
    have hget : typographic[i]? = some (some c) := by
      rw [List.getElem?_eq_getElem hlt]
      simpa using hc
    simp only [charOf, Bool.and_eq_true, decide_eq_true_eq, hin, and_self, if_true, hsub, hget]
    rfl

end WinAnsi

namespace FontSource

/-- A Latin font shows what it supports in one byte for each character. -/
theorem winAnsi_decode_encode {family baseFont boldBaseFont text : String}
    (h : (standard family baseFont boldBaseFont).supports text = true) :
    WinAnsi.decode ((standard family baseFont boldBaseFont).encode text) = text.toList := by
  simp only [supports, List.all_eq_true] at h
  simp only [encode, WinAnsi.decode]
  generalize text.toList = cs at h
  induction cs with
  | nil => rfl
  | cons c cs ih =>
    obtain ⟨b, hb⟩ := Option.isSome_iff_exists.mp (h c (by simp))
    simp only [List.flatMap_cons, encodeChar, hb, Option.getD_some, List.cons_append,
      List.nil_append, List.map_cons, WinAnsi.charOf_byte? hb]
    exact congrArg _ (ih fun c' hc' => h c' (by simp [hc']))

/-- A font of a character collection shows what it supports in one code unit for each character. -/
theorem encode_cjk {family baseFont ordering encoding text : String} {supplement : Int}
    (h : (cjk family baseFont ordering supplement encoding).supports text = true) :
    (cjk family baseFont ordering supplement encoding).encode text = Utf16.encode text.toList := by
  simp only [supports, List.all_eq_true, supportsChar, decide_eq_true_eq] at h
  simp only [encode, Utf16.encode]
  generalize text.toList = cs at h
  induction cs with
  | nil => rfl
  | cons c cs ih =>
    have hc := h c (by simp)
    have hlt : c.toNat < 0x10000 := by omega
    rw [List.flatMap_cons, List.flatMap_cons, ih fun c' hc' => h c' (by simp [hc'])]
    simp [encodeChar, Utf16.charUnits, hc, hlt]

end FontSource

end Marginalia

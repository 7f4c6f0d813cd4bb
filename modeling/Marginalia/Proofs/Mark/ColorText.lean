import Mathlib.Data.List.TakeWhile
import Marginalia.Json.Interchange

/-!
Which texts are read as colours. Every text that is written as a colour is read as that colour; beyond these there
are texts which the reader does not refuse, in three ways: further `#` in front, other characters than digits in front
of the last six, and plus signs in place of the first digits of channels.
-/

namespace Marginalia

namespace Color

/-- The hexadecimal digits, in lower and in upper case. -/
def hexDigits : List Char := "0123456789abcdefABCDEF".toList

def digitValue (c : Char) : Nat := "0123456789abcdef".toList.idxOf c.toLower

theorem hexValue?_of_mem {c : Char} (h : c ∈ hexDigits) : hexValue? c = some (digitValue c) := by
  revert c
  decide

theorem toNat_lt_of_isSome {c : Char} (h : (hexValue? c).isSome = true) : c.toNat < 0x80 := by
  have hle {d : Char} (hd : c ≤ d) (hascii : d.toNat < 0x80) : c.toNat < 0x80 := Nat.lt_of_le_of_lt hd hascii
  unfold hexValue? at h
  split at h
  · rename_i hc
    rw [Char.isDigit, Bool.and_eq_true, decide_eq_true_eq, decide_eq_true_eq] at hc
    exact Nat.lt_of_le_of_lt hc.2 (by decide)
  · split at h
    · rename_i hc
      rw [Bool.and_eq_true, decide_eq_true_eq, decide_eq_true_eq] at hc
      exact hle hc.2 (by decide)
    · split at h
      · rename_i hc
        rw [Bool.and_eq_true, decide_eq_true_eq, decide_eq_true_eq] at hc
        exact hle hc.2 (by decide)
      · cases h

theorem mem_hexDigits {c : Char} (h : (hexValue? c).isSome = true) : c ∈ hexDigits := by
  have hall : ∀ n < 0x80, (hexValue? (Char.ofNat n)).isSome = true → Char.ofNat n ∈ hexDigits := by decide +kernel
  have hc := hall c.toNat (toNat_lt_of_isSome h)
  rw [Char.ofNat_toNat] at hc
  exact hc h

theorem hexValue?_isSome {c : Char} : (hexValue? c).isSome = true ↔ c ∈ hexDigits :=
  ⟨mem_hexDigits, fun h => by rw [hexValue?_of_mem h, Option.isSome_some]⟩

theorem toNat_lt_of_mem {c : Char} (h : c ∈ hexDigits) : c.toNat < 0x80 :=
  toNat_lt_of_isSome (hexValue?_isSome.mpr h)

theorem ne_of_mem_hexDigits {c : Char} (h : c ∈ hexDigits) : c ≠ '+' ∧ c ≠ '#' := by
  revert c
  decide

/-- How a text is made up that can be read as a colour: what stands in front of the last six characters, and these in
pairs, one for each channel. -/
structure Spelling where
  hashes : Nat
  alpha : List Char
  red : Char × Char
  green : Char × Char
  blue : Char × Char

namespace Spelling

variable {w w' : Spelling} {s : String}

def pairs (w : Spelling) : List (Char × Char) := [w.red, w.green, w.blue]

def digits (w : Spelling) : List Char := [w.red.1, w.red.2, w.green.1, w.green.2, w.blue.1, w.blue.2]

def text (w : Spelling) : List Char := List.replicate w.hashes '#' ++ (w.alpha ++ w.digits)

/-- The value of a pair of digits. -/
def channel (p : Char × Char) : UInt8 := UInt8.ofNat (digitValue p.1 * 16 + digitValue p.2)

def color (w : Spelling) : Color := ⟨channel w.red, channel w.green, channel w.blue⟩

/-- Six or eight digits, behind a `#` or not. -/
structure IsProper (w : Spelling) : Prop where
  lone : w.hashes ≤ 1
  length : w.alpha.length = 0 ∨ w.alpha.length = 2
  hexadecimal : ∀ c ∈ w.alpha ++ w.digits, c ∈ hexDigits

/-- That a pair of characters is read as a channel. -/
def IsChannel (p : Char × Char) : Prop := (p.1 ∈ hexDigits ∨ p.1 = '+') ∧ p.2 ∈ hexDigits

instance (p : Char × Char) : Decidable (IsChannel p) := inferInstanceAs (Decidable (_ ∧ _))

/-- What is read as a colour. -/
structure IsTaken (w : Spelling) : Prop where
  length : w.alpha.length = 0 ∨ w.alpha.length = 2
  ascii : ∀ c ∈ w.alpha, c.toNat < 0x80
  unhashed : (w.alpha ++ w.digits).head? ≠ some '#'
  channels : ∀ p ∈ w.pairs, IsChannel p

theorem channel?_of_mem {p : Char × Char} (h₁ : p.1 ∈ hexDigits) (h₂ : p.2 ∈ hexDigits) :
    channel? p.1 p.2 = some (channel p) := by
  have hplus : (p.1 == '+') = false := beq_eq_false_iff_ne.mpr (ne_of_mem_hexDigits h₁).1
  simp only [channel?, hplus, Bool.false_eq_true, if_false, hexValue?_of_mem h₁, hexValue?_of_mem h₂]
  rfl

theorem channel?_isSome (p : Char × Char) : (channel? p.1 p.2).isSome = true ↔ IsChannel p := by
  unfold channel? IsChannel
  rw [← hexValue?_isSome, ← hexValue?_isSome]
  by_cases hplus : p.1 = '+'
  · rw [hplus]
    cases hexValue? p.2 <;> simp
  · cases hexValue? p.1 <;> cases hexValue? p.2 <;> simp [hplus]

theorem forall_pairs {P : Char × Char → Prop} : (∀ p ∈ w.pairs, P p) ↔ P w.red ∧ P w.green ∧ P w.blue := by
  simp [pairs]

theorem ofDigits?_digits (w : Spelling) : (ofDigits? w.digits).isSome = true ↔ ∀ p ∈ w.pairs, IsChannel p := by
  rw [forall_pairs, ← channel?_isSome, ← channel?_isSome, ← channel?_isSome, digits, ofDigits?]
  cases channel? w.red.1 w.red.2 <;> cases channel? w.green.1 w.green.2 <;> cases channel? w.blue.1 w.blue.2 <;> simp

/-- Only six characters are read as digits. -/
theorem exists_digits {ds : List Char} (h : (ofDigits? ds).isSome = true) (hashes : Nat) (alpha : List Char) :
    ∃ w : Spelling, w.hashes = hashes ∧ w.alpha = alpha ∧ w.digits = ds := by
  unfold ofDigits? at h
  split at h
  · rename_i r₁ r₂ g₁ g₂ b₁ b₂
    exact ⟨⟨hashes, alpha, (r₁, r₂), (g₁, g₂), (b₁, b₂)⟩, rfl, rfl, rfl⟩
  · cases h

theorem dropWhile_of_head? {cs : List Char} (h : cs.head? ≠ some '#') : cs.dropWhile (· == '#') = cs := by
  cases cs with
  | nil => rfl
  | cons c cs =>
    rw [List.head?_cons, ne_eq, Option.some_inj] at h
    exact List.dropWhile_cons_of_neg (by simpa using h)

theorem dropWhile_text (h : (w.alpha ++ w.digits).head? ≠ some '#') :
    w.text.dropWhile (· == '#') = w.alpha ++ w.digits := by
  rw [text, List.dropWhile_append_of_pos, dropWhile_of_head? h]
  intro c hc
  rw [List.eq_of_mem_replicate hc, beq_self_eq_true]

/-- The reading of a text that is made up in this way. -/
theorem parse?_of_text (halpha : w.alpha.length = 0 ∨ w.alpha.length = 2)
    (hashed : (w.alpha ++ w.digits).head? ≠ some '#') (htext : Unicode.trimChars s.toList = w.text) :
    parse? s = if (w.alpha ++ w.digits).all (fun c => c.toNat < 0x80) then ofDigits? w.digits else none := by
  have hlength : (w.alpha ++ w.digits).length = w.alpha.length + 6 := by
    rw [List.length_append]
    rfl
  have hlast : (if w.alpha.length + 6 = 8 then ofDigits? ((w.alpha ++ w.digits).drop 2)
      else ofDigits? (w.alpha ++ w.digits)) = ofDigits? w.digits := by
    rcases halpha with h | h
    · rw [h, List.length_eq_zero_iff.mp h]
      rfl
    · rw [h, List.drop_left' h]
      rfl
  simp only [parse?, htext, dropWhile_text hashed, hlength, hlast]
  cases (w.alpha ++ w.digits).all fun c => decide (c.toNat < 0x80) <;> rfl

theorem IsChannel.ascii {p : Char × Char} (h : IsChannel p) : p.1.toNat < 0x80 ∧ p.2.toNat < 0x80 := by
  obtain ⟨hfirst | hfirst, hsecond⟩ := h
  · exact ⟨toNat_lt_of_mem hfirst, toNat_lt_of_mem hsecond⟩
  · rw [hfirst]
    exact ⟨by decide, toNat_lt_of_mem hsecond⟩

theorem IsTaken.all_ascii (h : w.IsTaken) : (w.alpha ++ w.digits).all (fun c => c.toNat < 0x80) = true := by
  obtain ⟨hred, hgreen, hblue⟩ := forall_pairs.mp h.channels
  rw [List.all_append, Bool.and_eq_true]
  refine ⟨List.all_eq_true.mpr fun c hc => decide_eq_true (h.ascii c hc), ?_⟩
  simp [digits, hred.ascii, hgreen.ascii, hblue.ascii]

theorem IsTaken.isSome (h : w.IsTaken) (htext : Unicode.trimChars s.toList = w.text) : (parse? s).isSome = true := by
  rw [parse?_of_text h.length h.unhashed htext, if_pos h.all_ascii, ofDigits?_digits]
  exact h.channels

/-- What is read as a colour is made up in a way that is taken. -/
theorem exists_taken (h : (parse? s).isSome = true) :
    ∃ w : Spelling, Unicode.trimChars s.toList = w.text ∧ w.IsTaken := by
  let cs := Unicode.trimChars s.toList
  let hashes := (cs.takeWhile (· == '#')).length
  let rest := cs.dropWhile (· == '#')
  have hfront : cs.takeWhile (· == '#') = List.replicate hashes '#' :=
    List.eq_replicate_of_mem fun c hc => by simpa using List.mem_takeWhile_imp hc
  have hcs : List.replicate hashes '#' ++ rest = cs := by
    rw [← hfront, List.takeWhile_append_dropWhile]
  have hrest : rest.head? ≠ some '#' := by
    intro hhead
    have hnone := List.head?_dropWhile_not (· == '#') cs
    rw [hhead] at hnone
    cases hnone
  -- of eight characters the first two are alpha, which the reader drops before it looks at digits
  have hread : ∃ alpha ds, rest = alpha ++ ds ∧ (alpha.length = 0 ∨ alpha.length = 2) ∧
      (ofDigits? ds).isSome = true := by
    change (if _ then none else if rest.length = 8 then ofDigits? (rest.drop 2) else ofDigits? rest).isSome = true at h
    split at h
    · cases h
    · split at h
      · rename_i hlength
        refine ⟨rest.take 2, rest.drop 2, (List.take_append_drop 2 rest).symm, .inr ?_, h⟩
        rw [List.length_take, hlength]
        rfl
      · exact ⟨[], rest, rfl, .inl rfl, h⟩
  obtain ⟨alpha, ds, halpha, hlength, hsome⟩ := hread
  obtain ⟨w, hw, hw', hw''⟩ := exists_digits hsome hashes alpha
  have htext : cs = w.text := by
    rw [text, hw, hw', hw'', ← halpha, hcs]
  have hunhashed : (w.alpha ++ w.digits).head? ≠ some '#' := by
    rwa [hw', hw'', ← halpha]
  rw [parse?_of_text (hw' ▸ hlength) hunhashed htext] at h
  split at h
  · rename_i hascii
    refine ⟨w, htext, hw' ▸ hlength, ?_, hunhashed, (ofDigits?_digits w).mp h⟩
    intro c hc
    exact of_decide_eq_true (List.all_eq_true.mp hascii c (List.mem_append_left _ hc))
  · cases h

theorem IsProper.mem_hexDigits (h : w.IsProper) : ∀ p ∈ w.pairs, p.1 ∈ hexDigits ∧ p.2 ∈ hexDigits := by
  have hdigits (c) (hc : c ∈ w.digits) : c ∈ hexDigits := h.hexadecimal c (List.mem_append_right _ hc)
  simp only [digits, List.forall_mem_cons] at hdigits
  obtain ⟨hr₁, hr₂, hg₁, hg₂, hb₁, hb₂, -⟩ := hdigits
  exact forall_pairs.mpr ⟨⟨hr₁, hr₂⟩, ⟨hg₁, hg₂⟩, hb₁, hb₂⟩

theorem IsProper.isTaken (h : w.IsProper) : w.IsTaken where
  length := h.length
  ascii c hc := toNat_lt_of_mem (h.hexadecimal c (List.mem_append_left _ hc))
  unhashed hhash := (ne_of_mem_hexDigits (h.hexadecimal '#' (List.mem_of_mem_head? hhash))).2 rfl
  channels p hp := ⟨.inl (h.mem_hexDigits p hp).1, (h.mem_hexDigits p hp).2⟩

theorem IsProper.parse?_eq (h : w.IsProper) (htext : Unicode.trimChars s.toList = w.text) :
    parse? s = some w.color := by
  have hchannels (p) (hp : p ∈ w.pairs) : channel? p.1 p.2 = some (channel p) :=
    channel?_of_mem (h.mem_hexDigits p hp).1 (h.mem_hexDigits p hp).2
  obtain ⟨hred, hgreen, hblue⟩ := forall_pairs.mp hchannels
  rw [parse?_of_text h.isTaken.length h.isTaken.unhashed htext, if_pos h.isTaken.all_ascii, digits, ofDigits?, hred,
    hgreen, hblue]
  rfl

/-- A text is made up in one way only. -/
theorem eq_of_text (h : w.IsTaken) (h' : w'.IsTaken) (htext : w.text = w'.text) : w = w' := by
  -- the rest does not begin with `#`, so it is known where it begins; its last six characters are the digits
  have hrest : w.alpha ++ w.digits = w'.alpha ++ w'.digits := by
    rw [← dropWhile_text h.unhashed, htext, dropWhile_text h'.unhashed]
  have hhashes : w.hashes = w'.hashes := by
    have hlength := congrArg List.length htext
    simpa only [text, hrest, List.length_append, List.length_replicate, Nat.add_right_cancel_iff] using hlength
  obtain ⟨halpha, hdigits⟩ := List.append_inj' hrest rfl
  simp only [digits, List.cons.injEq, and_true] at hdigits
  obtain ⟨hr₁, hr₂, hg₁, hg₂, hb₁, hb₂⟩ := hdigits
  cases w
  cases w'
  simp only [mk.injEq]
  exact ⟨hhashes, halpha, Prod.ext hr₁ hr₂, Prod.ext hg₁ hg₂, Prod.ext hb₁ hb₂⟩

end Spelling

/-- That a text, without the white space around it, is `#RRGGBB` or `#AARRGGBB` for a colour, with the `#` or not. -/
def Denotes (s : String) (c : Color) : Prop :=
  ∃ w : Spelling, Unicode.trimChars s.toList = w.text ∧ w.IsProper ∧ c = w.color

/-- That a text is no colour but is read as one: it has more than one `#`, or a sign for a digit, or something else
than digits in front of the last six. -/
def IsLoose (s : String) : Prop :=
  ∃ w : Spelling, Unicode.trimChars s.toList = w.text ∧ w.IsTaken ∧
    (2 ≤ w.hashes ∨ (∃ c ∈ w.alpha, c ∉ hexDigits) ∨ ∃ p ∈ w.pairs, p.1 = '+')

/-- What is taken is proper or loose. -/
theorem isProper_of_taken {s : String} {w : Spelling} (h : w.IsTaken) (htext : Unicode.trimChars s.toList = w.text)
    (hs : ¬ IsLoose s) : w.IsProper := by
  have hstrict : ¬ (2 ≤ w.hashes ∨ (∃ c ∈ w.alpha, c ∉ hexDigits) ∨ ∃ p ∈ w.pairs, p.1 = '+') := fun hloose =>
    hs ⟨w, htext, h, hloose⟩
  simp only [not_or, not_exists, not_and, not_not, not_le] at hstrict
  obtain ⟨hhashes, halpha, hpairs⟩ := hstrict
  have hmem (p) (hp : p ∈ w.pairs) : p.1 ∈ hexDigits ∧ p.2 ∈ hexDigits :=
    ⟨(h.channels p hp).1.resolve_right (hpairs p hp), (h.channels p hp).2⟩
  obtain ⟨hred, hgreen, hblue⟩ := Spelling.forall_pairs.mp hmem
  refine ⟨Nat.le_of_lt_succ hhashes, h.length, fun c hc => ?_⟩
  rcases List.mem_append.mp hc with hc | hc
  · exact halpha c hc
  · simp only [Spelling.digits, List.mem_cons, List.not_mem_nil, or_false] at hc
    rcases hc with rfl | rfl | rfl | rfl | rfl | rfl
    exacts [hred.1, hred.2, hgreen.1, hgreen.2, hblue.1, hblue.2]

theorem not_denotes_of_loose {s : String} (h : IsLoose s) (c : Color) : ¬ Denotes s c := by
  rintro ⟨w', htext', hproper, -⟩
  obtain ⟨w, htext, htaken, hloose⟩ := h
  -- the spelling that is proper would be the loose one
  obtain rfl : w = w' := Spelling.eq_of_text htaken hproper.isTaken (htext.symm.trans htext')
  rcases hloose with hhashes | ⟨c, hc, hne⟩ | ⟨p, hp, hplus⟩
  · have := hproper.lone
    omega
  · exact hne (hproper.hexadecimal c (List.mem_append_left _ hc))
  · exact (ne_of_mem_hexDigits (hproper.mem_hexDigits p hp).1).1 hplus

theorem denotes_or_loose {s : String} {c : Color} (h : parse? s = some c) : Denotes s c ∨ IsLoose s := by
  by_cases hs : IsLoose s
  · exact .inr hs
  · obtain ⟨w, htext, htaken⟩ := Spelling.exists_taken (h ▸ rfl : (parse? s).isSome = true)
    have hproper := isProper_of_taken htaken htext hs
    rw [hproper.parse?_eq htext] at h
    exact .inl ⟨w, htext, hproper, (Option.some.inj h).symm⟩

theorem parse?_of_denotes {s : String} {c : Color} (h : Denotes s c) : parse? s = some c := by
  obtain ⟨w, htext, hproper, rfl⟩ := h
  exact hproper.parse?_eq htext

/-- A text that denotes a colour is read as that colour. The texts that are read as colours are those that denote one
unless a text is loose; and what does neither is read as black in an annotation. -/
theorem parse?_denoted (s : String) :
    (∀ c, Denotes s c → parse? s = some c ∧ Interchange.color? (.ofString s) = some c) ∧
      ((∀ c, parse? s = some c ↔ Denotes s c) ↔ ¬ IsLoose s) ∧
      (¬ IsLoose s → (∀ c, ¬ Denotes s c) → parse? s = none ∧ Interchange.color? (.ofString s) = some black) := by
  have hread : Interchange.color? (.ofString s) = some ((parse? s).getD .black) := rfl
  refine ⟨fun c h => ?_, ⟨fun h hloose => ?_, fun hs c => ?_⟩, fun hs hnone => ?_⟩
  · rw [hread, parse?_of_denotes h]
    exact ⟨rfl, rfl⟩
  · obtain ⟨w, htext, htaken, -⟩ := id hloose
    obtain ⟨c, hc⟩ := Option.isSome_iff_exists.mp (htaken.isSome htext)
    exact not_denotes_of_loose hloose c ((h c).mp hc)
  · exact ⟨fun h => (denotes_or_loose h).resolve_right hs, parse?_of_denotes⟩
  · have hparse : parse? s = none := Option.eq_none_iff_forall_ne_some.mpr fun c hc =>
      hnone c ((denotes_or_loose hc).resolve_right hs)
    rw [hread, hparse]
    exact ⟨rfl, rfl⟩

/-- None of these denotes a colour, and each is read as one. -/
theorem parse?_loose :
    (∀ c, ¬ Denotes "##FF0000" c) ∧ Interchange.color? (.ofString "##FF0000") = some ⟨255, 0, 0⟩ ∧
      (∀ c, ¬ Denotes "#+1+2+3" c) ∧ Interchange.color? (.ofString "#+1+2+3") = some ⟨1, 2, 3⟩ ∧
      (∀ c, ¬ Denotes "#zzFF0000" c) ∧ Interchange.color? (.ofString "#zzFF0000") = some ⟨255, 0, 0⟩ := by
  let hashed : Spelling := ⟨2, [], ('F', 'F'), ('0', '0'), ('0', '0')⟩
  let signed : Spelling := ⟨1, [], ('+', '1'), ('+', '2'), ('+', '3')⟩
  let strange : Spelling := ⟨1, ['z', 'z'], ('F', 'F'), ('0', '0'), ('0', '0')⟩
  have hhashed : IsLoose "##FF0000" :=
    ⟨hashed, by decide, ⟨by decide, by decide, by decide, by decide⟩, .inl (by decide)⟩
  have hsigned : IsLoose "#+1+2+3" :=
    ⟨signed, by decide, ⟨by decide, by decide, by decide, by decide⟩, .inr (.inr ⟨('+', '1'), by decide, rfl⟩)⟩
  have hstrange : IsLoose "#zzFF0000" :=
    ⟨strange, by decide, ⟨by decide, by decide, by decide, by decide⟩, .inr (.inl ⟨'z', by decide, by decide⟩)⟩
  exact ⟨not_denotes_of_loose hhashed, by decide +kernel, not_denotes_of_loose hsigned, by decide +kernel,
    not_denotes_of_loose hstrange, by decide +kernel⟩

end Color

end Marginalia

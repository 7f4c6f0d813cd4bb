import Marginalia.Proofs.Object.Reading

/-!
What is read from the front of an input is read from it too when more follows on a line of its own. The
line is one that begins with the restoring of a saved state, which is no part of any value.
-/

namespace Marginalia

open Syntax

/-- A line that begins with the restoring of a saved state, behind the end of the line before. -/
def restoreLine (rest : Bytes) : Bytes := 0x0A :: 0x51 :: rest

namespace ObjectReader

section Scanning

variable (rest : Bytes)

theorem takeWhile_restoreLine {p : UInt8 → Bool} (hp : p 0x0A = false) (bs : Bytes) :
    (bs ++ restoreLine rest).takeWhile p = bs.takeWhile p ∧
      (bs ++ restoreLine rest).dropWhile p = bs.dropWhile p ++ restoreLine rest := by
  induction bs with
  | nil => simp [restoreLine, hp]
  | cons c bs ih =>
    obtain ⟨ht, hd⟩ := ih
    cases hc : p c with
    | true => simp [hc, ht, hd]
    | false => simp [hc]

/-- A word without a line end is expected of the input alone. -/
theorem expect?_restoreLine (word : Bytes) (hw : (0x0A : UInt8) ∉ word) (bs : Bytes) :
    expect? word (bs ++ restoreLine rest) = (expect? word bs).map (· ++ restoreLine rest) := by
  induction word generalizing bs with
  | nil => simp [expect?]
  | cons w word ih =>
    have hw' : (0x0A : UInt8) ∉ word := fun h => hw (by simp [h])
    cases bs with
    | nil =>
      have hne : (w == 0x0A) = false := by
        simp only [beq_eq_false_iff_ne, ne_eq]
        rintro rfl
        simp at hw
      simp [expect?, restoreLine, List.isPrefixOf, hne]
    | cons c bs =>
      have ih := ih hw' bs
      simp only [expect?, List.cons_append, List.isPrefixOf, List.length_cons, List.drop_succ_cons] at ih ⊢
      cases w == c with
      | true => simpa using ih
      | false => simp

theorem digits_restoreLine (bs : Bytes) :
    digits (bs ++ restoreLine rest) = ((digits bs).1, (digits bs).2 ++ restoreLine rest) := by
  obtain ⟨ht, hd⟩ := takeWhile_restoreLine rest (p := isDigit) rfl bs
  rw [digits, ht, hd]
  rfl

theorem sign_restoreLine (bs : Bytes) :
    sign (bs ++ restoreLine rest) = ((sign bs).1, (sign bs).2 ++ restoreLine rest) := by
  cases bs with
  | nil => rfl
  | cons c bs =>
    simp only [List.cons_append]
    unfold sign
    split
    · rename_i h
      obtain ⟨rfl, rfl⟩ := List.cons.inj h
      rfl
    · rename_i h
      obtain ⟨rfl, rfl⟩ := List.cons.inj h
      rfl
    · rename_i hp hm
      split
      · rename_i h
        exact absurd (congrArg (· :: _) (List.cons.inj h).1) (hp _)
      · rename_i h
        exact absurd (congrArg (· :: _) (List.cons.inj h).1) (hm _)
      · rfl

theorem unsigned?_restoreLine (bound : Nat) (bs : Bytes) :
    unsigned? bound (bs ++ restoreLine rest) =
      (unsigned? bound bs).map fun e => (e.1, e.2 ++ restoreLine rest) := by
  simp only [unsigned?, digits_restoreLine]
  split <;> rfl

theorem integer?_restoreLine (bs : Bytes) :
    integer? (bs ++ restoreLine rest) = (integer? bs).map fun e => (e.1, e.2 ++ restoreLine rest) := by
  simp only [integer?, sign_restoreLine, digits_restoreLine]
  split
  · split <;> rfl
  · rfl

/-- No escape goes over a line end. -/
theorem escapedByte?_lineEnd (c l : UInt8) :
    escapedByte? c 0x0A l = none ∧ escapedByte? c l 0x0A = none := by
  have hhex : hexValue? 0x0A = none := by decide
  unfold escapedByte?
  rw [hhex]
  constructor <;> (split <;> first | rfl | (cases hexValue? l <;> rfl))

/-- A name ends where no byte of a name stands, and no escape. -/
theorem nameBytes_end {c h l : UInt8} (hc : (!isRegular c || c == 0x23) = true)
    (he : escapedByte? c h l = none) (bs : Bytes) :
    nameBytes (c :: h :: l :: bs) = ([], c :: h :: l :: bs) := by
  cases hr : isRegular c with
  | false => exact nameBytes_stop hr _
  | true =>
    have hx : (c == 0x23) = true := by simpa [hr] using hc
    simp only [nameBytes, hr, hx, he, Bool.not_true, Bool.false_eq_true, if_false, if_true]

theorem nameBytes_restoreLine (bs : Bytes) :
    nameBytes (bs ++ restoreLine rest) = ((nameBytes bs).1, (nameBytes bs).2 ++ restoreLine rest) := by
  have hend : nameBytes (restoreLine rest) = ([], restoreLine rest) := nameBytes_stop rfl _
  have hplain : ∀ {c : UInt8}, ¬(!isRegular c || c == 0x23) = true → isRegular c = true ∧ c ≠ 0x23 := by
    intro c hc
    simpa [not_or] using hc
  fun_induction nameBytes bs with
  | case1 c h l bs hc => exact nameBytes_stop (by simpa using hc) _
  | case2 c h l bs hc hx b hb n r hn ih =>
    rw [hn] at ih
    simp only [List.cons_append, nameBytes, hc, hx, hb, ih, Bool.false_eq_true, if_true, if_false]
  | case3 c h l bs hc hx hb =>
    simp only [List.cons_append, nameBytes, hc, hx, hb, Bool.false_eq_true, if_true, if_false]
  | case4 c h l bs hc hx n r hn ih =>
    rw [hn] at ih
    simp only [List.cons_append] at ih ⊢
    simp only [nameBytes, hc, hx, ih, Bool.false_eq_true, if_false]
  | case5 c d hc => exact nameBytes_end hc (escapedByte?_lineEnd c d).2 _
  | case6 c d hc hd =>
    have hd' := nameBytes_end hd (escapedByte?_lineEnd d 0x51).1 rest
    obtain ⟨hr, hx⟩ := hplain hc
    show nameBytes (c :: d :: 0x0A :: 0x51 :: rest) = _
    rw [nameBytes_regular hr hx, hd']
    rfl
  | case7 c d hc hd =>
    obtain ⟨hr, hx⟩ := hplain hc
    obtain ⟨hr', hx'⟩ := hplain hd
    show nameBytes (c :: d :: restoreLine rest) = _
    rw [nameBytes_regular hr hx, nameBytes_regular hr' hx', hend]
    rfl
  | case8 c hc => exact nameBytes_end hc (escapedByte?_lineEnd c 0x51).1 rest
  | case9 c hc =>
    obtain ⟨hr, hx⟩ := hplain hc
    show nameBytes (c :: restoreLine rest) = _
    rw [nameBytes_regular hr hx, hend]
    rfl
  | case10 => exact hend

theorem name?_restoreLine (bs : Bytes) :
    name? (bs ++ restoreLine rest) = (name? bs).map fun e => (e.1, e.2 ++ restoreLine rest) := by
  cases bs with
  | nil => rfl
  | cons c bs =>
    simp only [List.cons_append]
    unfold name?
    split
    · rename_i h
      obtain ⟨rfl, rfl⟩ := List.cons.inj h
      simp only [nameBytes_restoreLine, Option.map_some]
    · rename_i hs
      split
      · rename_i h
        exact absurd (congrArg (· :: _) (List.cons.inj h).1) (hs _)
      · rfl

theorem real?_restoreLine {α : Type} [Scalar α] (bs : Bytes) :
    real? (α := α) (bs ++ restoreLine rest) =
      (real? bs).map fun e => (e.1, e.2 ++ restoreLine rest) := by
  simp only [real?, sign_restoreLine, digits_restoreLine]
  cases hr : (digits (sign bs).2).2 with
  | nil => rfl
  | cons c r =>
    simp only [List.cons_append]
    split
    · rename_i h
      obtain ⟨rfl, rfl⟩ := List.cons.inj h
      simp only [digits_restoreLine, Option.map_map]
      rfl
    · rename_i hs
      split
      · rename_i h
        exact absurd (congrArg (· :: _) (List.cons.inj h).1) (hs _)
      · rfl

/-- A comment in front of a further line ends, whatever it began with. -/
theorem skipBlankFrom_pending (bs text text' : Bytes) :
    skipBlankFrom (some text) (bs ++ restoreLine rest) =
      skipBlankFrom (some text') (bs ++ restoreLine rest) := by
  induction bs with
  | nil => rfl
  | cons c bs ih => simp only [List.cons_append, skipBlankFrom, ih]

/-- Between values, what begins one is found again behind the same white space and comments. Where there is
nothing but these, or a comment that does not end, the next line is found. -/
theorem skipBlankFrom_restoreLine (bs : Bytes) (pending : Option Bytes)
    (hp : ∀ text ∈ pending, text.head? = some 0x25) :
    ((∃ c cs, skipBlankFrom pending bs = c :: cs ∧ c ≠ 0x25) ∧
        skipBlankFrom pending (bs ++ restoreLine rest) = skipBlankFrom pending bs ++ restoreLine rest) ∨
      ((skipBlankFrom pending bs).head? = none ∨ (skipBlankFrom pending bs).head? = some 0x25) ∧
        skipBlankFrom pending (bs ++ restoreLine rest) = 0x51 :: rest := by
  induction bs generalizing pending with
  | nil =>
    right
    cases pending with
    | none => exact ⟨.inl rfl, rfl⟩
    | some text => exact ⟨.inr (hp text rfl), rfl⟩
  | cons c bs ih =>
    have hnone := ih none (by simp)
    cases pending with
    | none =>
      by_cases hw : isWhite c = true
      · simpa only [List.cons_append, skipBlankFrom, hw, if_true] using hnone
      · by_cases hc : (c == 0x25) = true
        · have hstart : (c :: bs).head? = some 0x25 := by simpa using hc
          have hcomment := ih (some (c :: bs)) (by simpa using hc)
          simp only [List.cons_append, skipBlankFrom, hw, hc, Bool.false_eq_true, if_false, if_true]
          rwa [skipBlankFrom_pending rest bs _ (c :: bs)]
        · left
          refine ⟨⟨c, bs, ?_, by simpa using hc⟩, ?_⟩
          · simp only [skipBlankFrom, hw, hc, Bool.false_eq_true, if_false]
          · simp only [List.cons_append, skipBlankFrom, hw, hc, Bool.false_eq_true, if_false]
    | some text =>
      by_cases hl : isLineEnd c = true
      · simpa only [List.cons_append, skipBlankFrom, hl, if_true] using hnone
      · simpa only [List.cons_append, skipBlankFrom, hl, Bool.false_eq_true, if_false] using ih (some text) hp

theorem skipBlank_restoreLine {bs : Bytes} {c : UInt8} {cs : Bytes} (h : skipBlank bs = c :: cs)
    (hc : c ≠ 0x25) : skipBlank (bs ++ restoreLine rest) = c :: cs ++ restoreLine rest := by
  rcases skipBlankFrom_restoreLine rest bs none (by simp) with ⟨-, he⟩ | ⟨hend, -⟩
  · exact he.trans (congrArg (· ++ _) h)
  · rw [← skipBlank, h] at hend
    rcases hend with hend | hend
    · cases hend
    · exact absurd (Option.some.inj hend) hc

/-- What reads neither from nothing nor from a comment reads the same behind white space. -/
theorem skipBlank_read {β : Type} {f : Bytes → Option (β × Bytes)}
    (hf : ∀ bs, f (bs ++ restoreLine rest) = (f bs).map fun e => (e.1, e.2 ++ restoreLine rest))
    (hnil : f [] = none) (hcomment : ∀ bs, f (0x25 :: bs) = none) (hrestore : f (0x51 :: rest) = none)
    (bs : Bytes) :
    f (skipBlank (bs ++ restoreLine rest)) =
      (f (skipBlank bs)).map fun e => (e.1, e.2 ++ restoreLine rest) := by
  rcases skipBlankFrom_restoreLine rest bs none (by simp) with ⟨-, he⟩ | ⟨hend, he⟩
  · rw [skipBlank, he]
    exact hf _
  · rw [skipBlank, he, hrestore, skipBlank]
    cases hs : skipBlankFrom none bs with
    | nil => rw [hnil]; rfl
    | cons c cs =>
      rw [hs] at hend
      rcases hend with hend | hend
      · cases hend
      · rw [Option.some.inj hend, hcomment]
        rfl

theorem unsigned?_of_head {bound : Nat} {c : UInt8} (hc : isDigit c = false) (bs : Bytes) :
    unsigned? bound (c :: bs) = none := by
  simp [unsigned?, digits, hc]

theorem reference?_restoreLine (bs : Bytes) :
    reference? (bs ++ restoreLine rest) =
      (reference? bs).map fun e => (e.1, e.2 ++ restoreLine rest) := by
  have hgeneration := skipBlank_read rest (unsigned?_restoreLine rest 65536) rfl
    (fun bs => unsigned?_of_head rfl bs) (unsigned?_of_head rfl rest)
  have hletter := skipBlank_read rest (f := fun bs => (expect? [0x52] bs).map fun r => ((), r))
    (fun bs => by simp [expect?_restoreLine rest [0x52] (by decide), Function.comp_def]) rfl
    (fun bs => rfl) rfl
  simp only [reference?, Option.bind_eq_bind, unsigned?_restoreLine]
  cases unsigned? 4294967296 bs with
  | none => rfl
  | some number =>
    simp only [Option.map_some, Option.bind_some, hgeneration]
    cases unsigned? 65536 (skipBlank number.2) with
    | none => rfl
    | some generation =>
      have hletter := hletter generation.2
      simp only [Option.map_some, Option.bind_some]
      cases he : expect? [0x52] (skipBlank generation.2) with
      | none =>
        rw [he] at hletter
        rw [Option.map_eq_none_iff.mp hletter]
        rfl
      | some r =>
        rw [he] at hletter
        obtain ⟨r', hr', heq⟩ := Option.map_eq_some_iff.mp hletter
        rw [hr', (Prod.mk.inj heq).2]
        rfl

theorem read?_restoreLine {depth : Nat} {bs s r : Bytes} {l : Literal}
    (h : l.read? depth bs = some (s, r)) :
    l.read? depth (bs ++ restoreLine rest) = some (s, r ++ restoreLine rest) := by
  induction bs generalizing l with
  | nil => cases h
  | cons c bs ih =>
    simp only [List.cons_append, Literal.read?] at h ⊢
    cases hn : l.next c with
    | inl l' =>
      simp only [hn] at h ⊢
      split
      · rename_i hdeep
        simp [hdeep] at h
      · rename_i hdeep
        simp only [hdeep, if_false] at h
        exact ih h
    | inr done =>
      simp only [hn, Option.some.injEq, Prod.mk.injEq] at h ⊢
      obtain ⟨rfl, rfl⟩ := h
      exact ⟨rfl, rfl⟩

theorem hexBody?_restoreLine {nibbles : List UInt8} {bs s r : Bytes}
    (h : hexBody? nibbles bs = some (s, r)) :
    hexBody? nibbles (bs ++ restoreLine rest) = some (s, r ++ restoreLine rest) := by
  induction bs generalizing nibbles with
  | nil => cases h
  | cons c bs ih =>
    simp only [List.cons_append, hexBody?] at h ⊢
    split
    · rename_i hc
      simp only [hc, if_true, Option.some.injEq, Prod.mk.injEq] at h
      obtain ⟨rfl, rfl⟩ := h
      rfl
    · rename_i hc
      simp only [hc, Bool.false_eq_true, if_false] at h
      cases hx : hexValue? c with
      | some d =>
        simp only [hx] at h ⊢
        exact ih h
      | none =>
        simp only [hx] at h ⊢
        split
        · rename_i hw
          simp only [hw, if_true] at h
          exact ih h
        · rename_i hw
          simp [hw] at h

end Scanning

section Values

variable {α : Type} (rest : Bytes)

/-- What is read goes on with a further line. -/
def andLine {β : Type} (e : β × Bytes) : β × Bytes := (e.1, e.2 ++ restoreLine rest)

/-- A reading that is the same on longer input can stand in front of one that is kept there. -/
theorem firstOf_kept {β : Type} {a a' : Option (β × Bytes)} {b b' : Unit → Option (β × Bytes)}
    (ha : a' = a.map (andLine rest)) (hb : ∀ e, b () = some e → b' () = some (andLine rest e))
    (e : β × Bytes) (h : firstOf a b = some e) : firstOf a' b' = some (andLine rest e) := by
  cases a with
  | none =>
    rw [ha]
    exact hb e h
  | some v =>
    rw [ha]
    exact congrArg (fun o => o.map (andLine rest)) h

theorem string?_restoreLine {bs : Bytes} {e : Object α × Bytes}
    (h : firstOf ((literal? bs).map fun (s, r) => (.string s false, r))
      (fun _ => (hexString? bs).map fun (s, r) => (.string s true, r)) = some e) :
    firstOf ((literal? (bs ++ restoreLine rest)).map fun (s, r) => (.string s false, r))
      (fun _ => (hexString? (bs ++ restoreLine rest)).map fun (s, r) => (.string s true, r)) =
      some (andLine rest e) := by
  cases bs with
  | nil => cases h
  | cons c bs =>
    by_cases hl : c = 0x28
    · subst hl
      cases hr : Literal.empty.read? maxParentheses bs with
      | none => simp [literal?, hexString?, hr, firstOf] at h
      | some found =>
        have hkept := read?_restoreLine rest hr
        simp only [literal?, hr, Option.map_some, firstOf, Option.some.injEq] at h
        simp only [List.cons_append, literal?, hkept, Option.map_some, firstOf, ← h]
        rfl
    · have hnone : ∀ bs, literal? (c :: bs) = none := fun bs => by simp [literal?, hl]
      by_cases hx : c = 0x3C
      · subst hx
        cases hr : hexBody? [] bs with
        | none => simp [literal?, hexString?, hr, firstOf] at h
        | some found =>
          have hkept := hexBody?_restoreLine rest hr
          simp only [hnone, hexString?, hr, Option.map_some, Option.map_none, firstOf,
            Option.some.injEq] at h
          simp only [List.cons_append, hnone, hexString?, hkept, Option.map_some, Option.map_none,
            firstOf, ← h]
          rfl
      · simp [hnone, hexString?, hx, firstOf] at h

variable [Scalar α]

/-- A value with no parts is read the same. -/
theorem simple?_restoreLine {references : Bool} {bs r : Bytes} {v : Object α}
    (h : simple? references bs = some (v, r)) :
    simple? references (bs ++ restoreLine rest) = some (v, r ++ restoreLine rest) := by
  refine firstOf_kept rest ?_ (firstOf_kept rest ?_ (firstOf_kept rest ?_ (firstOf_kept rest ?_
    (firstOf_kept rest ?_ (firstOf_kept rest ?_ (firstOf_kept rest ?_ ?_)))))) (v, r) h
  · rw [expect?_restoreLine rest _ (by decide), Option.map_map, Option.map_map]
    rfl
  · rw [expect?_restoreLine rest _ (by decide), Option.map_map, Option.map_map]
    rfl
  · rw [expect?_restoreLine rest _ (by decide), Option.map_map, Option.map_map]
    rfl
  · cases references with
    | false => rfl
    | true =>
      simp only [if_true, reference?_restoreLine, Option.map_map]
      rfl
  · rw [real?_restoreLine, Option.map_map, Option.map_map]
    rfl
  · rw [integer?_restoreLine, Option.map_map, Option.map_map]
    rfl
  · rw [name?_restoreLine, Option.map_map, Option.map_map]
    rfl
  · exact fun e he => string?_restoreLine rest he

/-- What begins with a delimiter is a name or a string, if it is a value with no parts. -/
theorem simple?_of_delimiter {c : UInt8} (hc : isDelimiter c = true) (references : Bool) (bs : Bytes) :
    simple? (α := α) references (c :: bs) =
      firstOf ((name? (c :: bs)).map fun (n, r) => (.name n, r)) fun _ =>
      firstOf ((literal? (c :: bs)).map fun (s, r) => (.string s false, r)) fun _ =>
      (hexString? (c :: bs)).map fun (s, r) => (.string s true, r) := by
  have hall : ∀ k : Fin 256, isDelimiter (UInt8.ofNat k) = true → startsNumber (UInt8.ofNat k) = false ∧
      isDigit (UInt8.ofNat k) = false ∧ UInt8.ofNat k ≠ 0x6E ∧ UInt8.ofNat k ≠ 0x74 ∧
        UInt8.ofNat k ≠ 0x66 := by decide +kernel
  have hclass := hall ⟨c.toNat, c.toNat_lt⟩
  simp only [UInt8.ofNat_toNat] at hclass
  obtain ⟨hnumber, hdigit, hn, ht, hf⟩ := hclass hc
  have hword : ∀ {w : UInt8} {word : Bytes}, c ≠ w → expect? (w :: word) (c :: bs) = none := by
    intro w word hw
    refine expect?_of_head (w := w) fun d hd => ?_
    cases hd
    simpa using hw
  have hreference : reference? (c :: bs) = none := by
    simp only [reference?, unsigned?_of_head hdigit, Option.bind_eq_bind, Option.bind_none]
  obtain ⟨hreal, hint⟩ := real?_of_head (α := α) hnumber bs
  have hnull : expect? (ascii "null") (c :: bs) = none := hword (w := 0x6E) hn
  have htrue : expect? (ascii "true") (c :: bs) = none := hword (w := 0x74) ht
  have hfalse : expect? (ascii "false") (c :: bs) = none := hword (w := 0x66) hf
  simp only [simple?, hnull, htrue, hfalse, hreference, hreal, hint, Option.map_none, ite_self, firstOf]

/-- Bytes that begin no value which has no parts, or a hexadecimal string at most. -/
theorem simple?_of_head {c : UInt8} (hc : c ∈ [0x5B, 0x5D, 0x3C, 0x3E, 0x25]) (references : Bool)
    (bs : Bytes) : simple? (α := α) references (c :: bs) =
      (hexString? (c :: bs)).map fun (s, r) => (.string s true, r) := by
  have hclass : isDelimiter c = true ∧ c ≠ 0x2F ∧ c ≠ 0x28 := by
    revert c
    decide
  obtain ⟨hdelimiter, hslash, hparen⟩ := hclass
  have hname : name? (c :: bs) = none := by simp [name?, hslash]
  have hliteral : literal? (c :: bs) = none := by simp [literal?, hparen]
  rw [simple?_of_delimiter hdelimiter, hname, hliteral]
  rfl

/-- Two opening angle brackets begin no string. -/
theorem simple?_dict (references : Bool) (bs : Bytes) :
    simple? (α := α) references (0x3C :: 0x3C :: bs) = none := by
  have hhex : hexString? (0x3C :: 0x3C :: bs) = none := rfl
  rw [simple?_of_head (by decide), hhex]
  rfl

theorem simple?_array (references : Bool) (bs : Bytes) :
    simple? (α := α) references (0x5B :: bs) = none := by
  have hhex : hexString? (0x5B :: bs) = none := rfl
  rw [simple?_of_head (by decide), hhex]
  rfl

/-- What no value begins with: the ends of an array and of a dictionary, and a comment. -/
theorem value?_eq_none {c : UInt8} (hc : c ∈ [0x5D, 0x3E, 0x25]) (references : Bool) (fuel : Nat)
    (bs : Bytes) : value? (α := α) references fuel (c :: bs) = none := by
  have hclass : c ∈ [0x5B, 0x5D, 0x3C, 0x3E, 0x25] ∧ c ≠ 0x3C ∧ c ≠ 0x5B := by
    revert c
    decide
  obtain ⟨hin, hless, hbracket⟩ := hclass
  have hhex : hexString? (c :: bs) = none := by simp [hexString?, hless]
  have hsimple : simple? (α := α) references (c :: bs) = none := by
    rw [simple?_of_head hin, hhex]
    rfl
  cases fuel with
  | zero => simp [value?]
  | succ fuel =>
    unfold value?
    rw [hsimple]
    simp only
    split
    · rename_i heq
      exact absurd (List.cons.inj heq).1 hbracket
    · rename_i heq
      exact absurd (List.cons.inj heq).1 hless
    · rfl

omit [Scalar α] in
theorem expect?_eq_some {word bs r : Bytes} : expect? word bs = some r ↔ bs = word ++ r := by
  unfold expect?
  constructor
  · intro h
    split at h
    · rename_i hp
      obtain ⟨t, rfl⟩ := List.isPrefixOf_iff_prefix.mp hp
      simpa using h
    · cases h
  · rintro rfl
    simp

theorem value?_of_simple {references : Bool} {fuel : Nat} {bs : Bytes} {e : Object α × Bytes}
    (h : simple? references bs = some e) : value? references (fuel + 1) bs = some e := by
  unfold value?
  rw [h]

theorem value?_array (references : Bool) {fuel : Nat} {bs r : Bytes} {vs : List (Object α)}
    (h : items fuel [] (skipBlank bs) = (vs, 0x5D :: r)) :
    value? references (fuel + 1) (0x5B :: bs) = some (.array vs, r) := by
  unfold value?
  simp only [simple?_array, h]
  rfl

theorem value?_dict (references : Bool) {fuel : Nat} {bs r : Bytes} {es : Dict α}
    (h : entries fuel [] (skipBlank bs) = (es, 0x3E :: 0x3E :: r)) :
    value? references (fuel + 1) (0x3C :: 0x3C :: bs) = some (.dict es, r) := by
  unfold value?
  simp only [simple?_dict, h]
  rfl

/-- A value has no parts, or is an array or a dictionary. -/
theorem value?_cases {references : Bool} {fuel : Nat} {bs r : Bytes} {v : Object α}
    (h : value? references (fuel + 1) bs = some (v, r)) :
    simple? references bs = some (v, r) ∨
      (∃ bs' vs, bs = 0x5B :: bs' ∧ v = .array vs ∧
        items fuel [] (skipBlank bs') = (vs, 0x5D :: r)) ∨
      ∃ bs' : Bytes, ∃ es : Dict α, bs = 0x3C :: 0x3C :: bs' ∧ v = .dict es ∧
        entries fuel [] (skipBlank bs') = (es, 0x3E :: 0x3E :: r) := by
  unfold value? at h
  cases hs : simple? (α := α) references bs with
  | some found =>
    rw [hs] at h
    exact .inl h
  | none =>
    rw [hs] at h
    simp only at h
    split at h
    · rename_i bs'
      cases hin : items (α := α) fuel [] (skipBlank bs') with
      | mk vs t =>
        simp only [hin] at h
        obtain ⟨u, hu, he⟩ := Option.map_eq_some_iff.mp h
        obtain rfl := expect?_eq_some.mp hu
        cases he
        exact .inr (.inl ⟨bs', vs, rfl, rfl, hin⟩)
    · rename_i bs'
      cases hin : entries (α := α) fuel [] (skipBlank bs') with
      | mk es t =>
        simp only [hin] at h
        obtain ⟨u, hu, he⟩ := Option.map_eq_some_iff.mp h
        obtain rfl := expect?_eq_some.mp hu
        cases he
        exact .inr (.inr ⟨bs', es, rfl, rfl, hin⟩)
    · cases h

theorem items_nil (fuel : Nat) (acc : List (Object α)) : items fuel acc [] = (acc.reverse, []) := by
  cases fuel with
  | zero => rfl
  | succ fuel => simp only [items, value?_nil]

theorem items_comment (fuel : Nat) (acc : List (Object α)) (bs : Bytes) :
    items fuel acc (0x25 :: bs) = (acc.reverse, 0x25 :: bs) := by
  cases fuel with
  | zero => rfl
  | succ fuel => simp only [items, value?_eq_none (c := 0x25) (by decide)]

theorem entries_of_head (fuel : Nat) (acc : Dict α) {bs : Bytes} (h : bs.head? ≠ some 0x2F) :
    entries fuel acc bs = (acc, bs) := by
  cases fuel with
  | zero => rfl
  | succ fuel =>
    cases bs with
    | nil => rfl
    | cons c bs =>
      have hc : c ≠ 0x2F := fun he => h (by simp [he])
      simp [entries, name?, hc]

omit [Scalar α] in
/-- Behind what was read up to a byte that begins no comment, the same byte is found. -/
theorem skipBlank_of_stop {r : Bytes} (h : skipBlank r ≠ []) (hc : (skipBlank r).head? ≠ some 0x25) :
    skipBlank (r ++ restoreLine rest) = skipBlank r ++ restoreLine rest := by
  cases hs : skipBlank r with
  | nil => exact absurd hs h
  | cons c cs =>
    rw [hs] at hc
    exact skipBlank_restoreLine rest hs fun he => hc (by simp [he])

theorem items_end (fuel : Nat) (acc : List (Object α)) (bs : Bytes) :
    items fuel acc (0x5D :: bs) = (acc.reverse, 0x5D :: bs) := by
  cases fuel with
  | zero => rfl
  | succ fuel => simp only [items, value?_eq_none (c := 0x5D) (by decide)]

/-- In front of a value the same blanks are passed over. -/
theorem skipBlank_of_value {references : Bool} {fuel : Nat} {bs : Bytes} {e : Object α × Bytes}
    (h : value? references fuel (skipBlank bs) = some e) :
    skipBlank (bs ++ restoreLine rest) = skipBlank bs ++ restoreLine rest := by
  refine skipBlank_of_stop rest (fun he => ?_) fun he => ?_
  · rw [he, value?_nil] at h
    cases h
  · obtain ⟨cs, hcs⟩ := List.head?_eq_some_iff.mp he
    rw [hcs, value?_eq_none (c := 0x25) (by decide)] at h
    cases h

/-- In front of the items of an array that is closed the same blanks are passed over. -/
theorem skipBlank_of_items {fuel : Nat} {acc vs : List (Object α)} {bs r : Bytes}
    (h : items fuel acc (skipBlank bs) = (vs, 0x5D :: r)) :
    skipBlank (bs ++ restoreLine rest) = skipBlank bs ++ restoreLine rest := by
  refine skipBlank_of_stop rest (fun he => ?_) fun he => ?_
  · rw [he, items_nil] at h
    cases h
  · obtain ⟨cs, hcs⟩ := List.head?_eq_some_iff.mp he
    rw [hcs, items_comment] at h
    cases h

/-- In front of entries that something other than a comment ends the same blanks are passed over. -/
theorem skipBlank_of_entries {fuel : Nat} {acc es : Dict α} {bs r : Bytes} {c : UInt8} (hc : c ≠ 0x25)
    (h : entries fuel acc (skipBlank bs) = (es, c :: r)) :
    skipBlank (bs ++ restoreLine rest) = skipBlank bs ++ restoreLine rest := by
  refine skipBlank_of_stop rest (fun he => ?_) fun he => ?_
  · rw [he, entries_of_head _ _ (by simp)] at h
    cases h
  · rw [entries_of_head _ _ (by rw [he]; decide)] at h
    rw [(Prod.mk.inj h).2] at he
    exact hc (Option.some.inj he)

/-- That what is read with some fuel is read with some other fuel in front of the line. Items are read up to the
end of their array, entries up to what is neither a name nor a comment. -/
structure Kept (α : Type) [Scalar α] (rest : Bytes) (fuel fuel' : Nat) : Prop where
  value : ∀ {references : Bool} {bs r : Bytes} {v : Object α}, value? references fuel bs = some (v, r) →
    value? references fuel' (bs ++ restoreLine rest) = some (v, r ++ restoreLine rest)
  items : ∀ {acc vs : List (Object α)} {bs r : Bytes}, items fuel acc bs = (vs, 0x5D :: r) →
    items fuel' acc (bs ++ restoreLine rest) = (vs, 0x5D :: r ++ restoreLine rest)
  entries : ∀ {acc es : Dict α} {bs r : Bytes} {c : UInt8}, c ≠ 0x2F → c ≠ 0x25 →
    entries fuel acc bs = (es, c :: r) → entries fuel' acc (bs ++ restoreLine rest) = (es, c :: r ++ restoreLine rest)

namespace Kept

variable {rest} {fuel fuel' : Nat} (hkept : Kept α rest fuel fuel')

include hkept

theorem value_succ {references : Bool} {bs r : Bytes} {v : Object α}
    (h : value? references (fuel + 1) bs = some (v, r)) :
    value? references (fuel' + 1) (bs ++ restoreLine rest) = some (v, r ++ restoreLine rest) := by
  rcases value?_cases h with hs | ⟨bs', vs, rfl, rfl, hin⟩ | ⟨bs', es, rfl, rfl, hin⟩
  · exact value?_of_simple (simple?_restoreLine rest hs)
  · rw [List.cons_append]
    refine value?_array references ?_
    rw [skipBlank_of_items rest hin]
    exact hkept.items hin
  · rw [List.cons_append, List.cons_append]
    refine value?_dict references ?_
    rw [skipBlank_of_entries rest (by decide) hin]
    exact hkept.entries (by decide) (by decide) hin

theorem items_succ {acc vs : List (Object α)} {bs r : Bytes} (h : ObjectReader.items (fuel + 1) acc bs = (vs, 0x5D :: r)) :
    ObjectReader.items (fuel' + 1) acc (bs ++ restoreLine rest) = (vs, 0x5D :: r ++ restoreLine rest) := by
  simp only [ObjectReader.items] at h ⊢
  cases hv : value? (α := α) true fuel bs with
  | none =>
    rw [hv] at h
    obtain ⟨rfl, rfl⟩ := Prod.mk.inj h
    simp only [List.cons_append, value?_eq_none (c := 0x5D) (by decide)]
  | some found =>
    simp only [hv] at h
    simp only [hkept.value hv, skipBlank_of_items rest h]
    exact hkept.items h

theorem entries_succ {acc es : Dict α} {bs r : Bytes} {c : UInt8} (hc : c ≠ 0x2F) (hc' : c ≠ 0x25)
    (h : ObjectReader.entries (fuel + 1) acc bs = (es, c :: r)) :
    ObjectReader.entries (fuel' + 1) acc (bs ++ restoreLine rest) = (es, c :: r ++ restoreLine rest) := by
  simp only [ObjectReader.entries] at h ⊢
  cases hk : name? bs with
  | none =>
    rw [hk] at h
    obtain ⟨rfl, rfl⟩ := Prod.mk.inj h
    simp only [name?_restoreLine, hk, Option.map_none]
  | some found =>
    obtain ⟨key, r₁⟩ := found
    simp only [hk] at h
    simp only [name?_restoreLine, hk, Option.map_some]
    cases hv : value? (α := α) true fuel (skipBlank r₁) with
    | none =>
      -- Then the entries end in front of the key, and what ends them is the slash of a name.
      rw [hv] at h
      obtain ⟨-, rfl⟩ := Prod.mk.inj h
      simp [name?, hc] at hk
    | some found =>
      simp only [hv] at h
      simp only [skipBlank_of_value rest hv, hkept.value hv, skipBlank_of_entries rest hc' h]
      exact hkept.entries hc hc' h

end Kept

/-- Values are read the same, and with more fuel too. -/
theorem kept_restoreLine {fuel fuel' : Nat} (hf : fuel ≤ fuel') : Kept α rest fuel fuel' := by
  induction fuel generalizing fuel' with
  | zero =>
    refine ⟨fun h => by simp [value?] at h, fun h => ?_, fun hc _ h => ?_⟩
    · obtain ⟨rfl, rfl⟩ := Prod.mk.inj h
      exact items_end _ _ _
    · obtain ⟨rfl, rfl⟩ := Prod.mk.inj h
      exact entries_of_head _ _ fun he => hc (Option.some.inj he)
  | succ fuel ih =>
    obtain ⟨fuel', rfl⟩ : ∃ n, fuel' = n + 1 := ⟨fuel' - 1, by omega⟩
    have hkept := ih (Nat.le_of_succ_le_succ hf)
    exact ⟨hkept.value_succ, hkept.items_succ, hkept.entries_succ⟩

end Values

end ObjectReader

end Marginalia

import Marginalia.Proofs.Content.Program
import Marginalia.Proofs.Object.Progress

/-!
A program that is read to its end, with a program on lines of its own behind it, is read as the one and then
the other.
-/

namespace Marginalia

open Syntax ObjectReader

namespace Grammar

section Scanning

variable (rest : Bytes)

theorem skipSpaces_suffix (bs : Bytes) : skipSpaces bs <:+ bs := List.dropWhile_suffix _

/-- White space in front of a further line ends where it ended, or with the line end. -/
theorem skipSpaces_restoreLine (bs : Bytes) :
    skipSpaces bs ≠ [] ∧ skipSpaces (bs ++ restoreLine rest) = skipSpaces bs ++ restoreLine rest ∨
      skipSpaces bs = [] ∧ skipSpaces (bs ++ restoreLine rest) = 0x51 :: rest := by
  induction bs with
  | nil => exact .inr ⟨rfl, rfl⟩
  | cons c bs ih =>
    cases hc : isSpace c with
    | true => simpa [skipSpaces, hc] using ih
    | false => exact .inl (by simp [skipSpaces, hc])

theorem skipSpaces_of_ne {bs : Bytes} (h : skipSpaces bs ≠ []) :
    skipSpaces (bs ++ restoreLine rest) = skipSpaces bs ++ restoreLine rest := by
  rcases skipSpaces_restoreLine rest bs with ⟨-, he⟩ | ⟨hnil, -⟩
  · exact he
  · exact absurd hnil h

theorem headNot_skipSpaces (bs : Bytes) : HeadNot isSpace (skipSpaces bs) := by
  induction bs with
  | nil => exact headNot_nil
  | cons c bs ih =>
    cases hc : isSpace c with
    | true => simpa [skipSpaces, hc] using ih
    | false =>
      intro d hd
      obtain rfl : c = d := by simpa [skipSpaces, hc] using hd
      exact hc

theorem skipSpaces_skip (bs : Bytes) :
    skipSpaces (skipSpaces bs ++ restoreLine rest) = skipSpaces (bs ++ restoreLine rest) := by
  induction bs with
  | nil => rfl
  | cons c bs ih =>
    cases hc : isSpace c with
    | true => simpa [skipSpaces, hc] using ih
    | false => simp [skipSpaces, hc]

theorem lineEnd?_restoreLine {bs r : Bytes} (h : lineEnd? bs = some r) (hr : r ≠ []) :
    lineEnd? (bs ++ restoreLine rest) = some (r ++ restoreLine rest) := by
  unfold lineEnd? at h
  split at h
  · obtain rfl := Option.some.inj h
    rfl
  · obtain rfl := Option.some.inj h
    rfl
  · rename_i bs' hlf
    obtain rfl := Option.some.inj h
    cases bs' with
    | nil => exact absurd rfl hr
    | cons c cs =>
      have hc : c ≠ 10 := by
        rintro rfl
        exact hlf cs rfl
      simp [lineEnd?, hc]
  · cases h

theorem commentBody?_restoreLine {bs r : Bytes} (h : commentBody? bs = some r) (hr : r ≠ []) :
    commentBody? (bs ++ restoreLine rest) = some (r ++ restoreLine rest) := by
  induction bs with
  | nil => cases h
  | cons c bs ih =>
    simp only [List.cons_append, commentBody?] at h ⊢
    split
    · rename_i hc
      simp only [hc, if_true] at h
      exact lineEnd?_restoreLine rest h hr
    · rename_i hc
      simp only [hc, Bool.false_eq_true, if_false] at h
      exact ih h

/-- A comment that does not end does so with the line. -/
theorem commentBody?_none {bs : Bytes} (h : commentBody? bs = none) :
    commentBody? (bs ++ restoreLine rest) = some (0x51 :: rest) := by
  induction bs with
  | nil => rfl
  | cons c bs ih =>
    simp only [List.cons_append, commentBody?] at h ⊢
    split
    · rename_i hc
      simp only [hc, if_true] at h
      simp only [isLineEnd, Bool.or_eq_true, beq_iff_eq] at hc
      rcases hc with rfl | rfl
      · cases h
      · unfold lineEnd? at h
        split at h <;> simp_all
    · rename_i hc
      simp only [hc, Bool.false_eq_true, if_false] at h
      exact ih h

theorem comment?_of_head {bs : Bytes} (h : bs.head? ≠ some 0x25) : comment? bs = none := by
  unfold comment?
  split
  · exact absurd rfl h
  · rfl

theorem skipComments_of_none {bs : Bytes} (h : comment? bs = none) (fuel : Nat) :
    skipComments fuel bs = bs := by
  cases fuel with
  | zero => rfl
  | succ fuel => simp only [skipComments, h]

theorem lineEnd?_suffix {bs r : Bytes} (h : lineEnd? bs = some r) : r <:+ bs := by
  unfold lineEnd? at h
  split at h
  · obtain rfl := Option.some.inj h
    exact List.suffix_append [13, 10] _
  · obtain rfl := Option.some.inj h
    exact List.suffix_cons _ _
  · obtain rfl := Option.some.inj h
    exact List.suffix_cons _ _
  · cases h

theorem comment?_suffix {bs r : Bytes} (h : comment? bs = some r) : r <:+ bs := by
  have hbody : ∀ {bs : Bytes}, commentBody? bs = some r → r <:+ bs := by
    intro bs h
    induction bs with
    | nil => cases h
    | cons c bs ih =>
      simp only [commentBody?] at h
      split at h
      · exact lineEnd?_suffix h
      · exact (ih h).trans (List.suffix_cons c bs)
  unfold comment? at h
  split at h
  · exact (hbody h).trans (List.suffix_cons _ _)
  · cases h

theorem skipComments_suffix (fuel : Nat) (bs : Bytes) : skipComments fuel bs <:+ bs := by
  induction fuel generalizing bs with
  | zero => exact List.suffix_rfl
  | succ fuel ih =>
    simp only [skipComments]
    split
    · rename_i r hr
      exact (ih r).trans (comment?_suffix hr)
    · exact List.suffix_rfl

theorem comment?_restoreLine {bs r : Bytes} (h : comment? bs = some r) (hr : r ≠ []) :
    comment? (bs ++ restoreLine rest) = some (r ++ restoreLine rest) := by
  unfold comment? at h
  split at h
  · exact commentBody?_restoreLine rest h hr
  · cases h

/-- Comments are passed over up to the same place. -/
theorem skipComments_restoreLine {fuel fuel' : Nat} (hf : fuel ≤ fuel') {bs : Bytes}
    (hne : skipComments fuel bs ≠ []) (hc : (skipComments fuel bs).head? ≠ some 0x25) :
    skipComments fuel' (bs ++ restoreLine rest) = skipComments fuel bs ++ restoreLine rest := by
  have hstop : ∀ {fuel' : Nat} {bs : Bytes}, bs ≠ [] → bs.head? ≠ some 0x25 →
      skipComments fuel' (bs ++ restoreLine rest) = bs ++ restoreLine rest := by
    intro fuel' bs hbs hhead
    refine skipComments_of_none (comment?_of_head ?_) fuel'
    cases bs with
    | nil => exact absurd rfl hbs
    | cons c bs => exact hhead
  induction fuel generalizing fuel' bs with
  | zero => exact hstop hne hc
  | succ fuel ih =>
    cases hcomment : comment? bs with
    | none =>
      rw [skipComments_of_none hcomment] at hne hc ⊢
      exact hstop hne hc
    | some r =>
      simp only [skipComments, hcomment] at hne hc ⊢
      have hr : r ≠ [] := by
        rintro rfl
        exact hne (List.suffix_nil.mp (skipComments_suffix fuel []))
      obtain ⟨fuel', rfl⟩ : ∃ n, fuel' = n + 1 := ⟨fuel' - 1, by omega⟩
      simp only [skipComments, comment?_restoreLine rest hcomment hr]
      exact ih (Nat.le_of_succ_le_succ hf) hne hc

/-- A comment that does not end is passed over with the end of its line. -/
theorem skipComments_unfinished {fuel fuel' : Nat} (hf : fuel < fuel') {bs : Bytes}
    (hhead : (skipComments fuel bs).head? = some 0x25) (hnone : comment? (skipComments fuel bs) = none) :
    skipComments fuel' (bs ++ restoreLine rest) = 0x51 :: rest := by
  have hend : ∀ {fuel' : Nat} {bs : Bytes}, 0 < fuel' → bs.head? = some 0x25 → comment? bs = none →
      skipComments fuel' (bs ++ restoreLine rest) = 0x51 :: rest := by
    intro fuel' bs hpos hhead hnone
    obtain ⟨fuel', rfl⟩ : ∃ n, fuel' = n + 1 := ⟨fuel' - 1, by omega⟩
    obtain ⟨text, rfl⟩ := List.head?_eq_some_iff.mp hhead
    have hbody : comment? (0x25 :: text ++ restoreLine rest) = some (0x51 :: rest) :=
      commentBody?_none rest hnone
    simp only [skipComments, hbody]
    exact skipComments_of_none (comment?_of_head (by simp)) fuel'
  induction fuel generalizing fuel' bs with
  | zero => exact hend hf hhead hnone
  | succ fuel ih =>
    cases hcomment : comment? bs with
    | none =>
      rw [skipComments_of_none hcomment] at hhead hnone
      exact hend (by omega) hhead hnone
    | some r =>
      simp only [skipComments, hcomment] at hhead hnone
      have hr : r ≠ [] := by
        rintro rfl
        rw [List.suffix_nil.mp (skipComments_suffix fuel [])] at hhead
        cases hhead
      obtain ⟨fuel', rfl⟩ : ∃ n, fuel' = n + 1 := ⟨fuel' - 1, by omega⟩
      simp only [skipComments, comment?_restoreLine rest hcomment hr]
      exact ih (Nat.lt_of_succ_lt_succ hf) hhead hnone

theorem operator?_restoreLine {bs r : Bytes} {word : String} (h : operator? bs = some (word, r)) :
    operator? (bs ++ restoreLine rest) = some (word, r ++ restoreLine rest) := by
  obtain ⟨ht, hd⟩ := takeWhile_restoreLine rest (p := isOperatorByte) rfl bs
  unfold operator? at h ⊢
  simp only [ht, hd] at h ⊢
  split at h
  · cases h
  · rename_i hne
    rw [if_neg hne]
    obtain ⟨rfl, rfl⟩ := Prod.mk.inj (Option.some.inj h)
    rfl

end Scanning

section Operations

variable {α : Type} [Scalar α] (rest : Bytes)

/-- What begins with an operator can be a value only if it is one of three words. -/
theorem value?_of_operator {c : UInt8} (hc : isOperatorByte c = true) (depth : Nat) (bs : Bytes) :
    value? (α := α) false (depth + 1) (c :: bs) = none ↔
      expect? (ascii "null") (c :: bs) = none ∧ expect? (ascii "true") (c :: bs) = none ∧
        expect? (ascii "false") (c :: bs) = none := by
  have hall : ∀ c : UInt8, isOperatorByte c = true → startsNumber c = false ∧ c ≠ 0x2F ∧ c ≠ 0x28 ∧
      c ≠ 0x3C ∧ c ≠ 0x5B := by
    intro c hc
    have hall : ∀ k : Fin 256, isOperatorByte (UInt8.ofNat k) = true →
        startsNumber (UInt8.ofNat k) = false ∧ UInt8.ofNat k ≠ 0x2F ∧ UInt8.ofNat k ≠ 0x28 ∧
          UInt8.ofNat k ≠ 0x3C ∧ UInt8.ofNat k ≠ 0x5B := by decide +kernel
    have h := hall ⟨c.toNat, c.toNat_lt⟩
    simpa using h (by simpa using hc)
  obtain ⟨hnumber, hslash, hparen, hless, hbracket⟩ := hall c hc
  obtain ⟨hreal, hint⟩ := real?_of_head (α := α) hnumber bs
  have hname : name? (c :: bs) = none := by simp [name?, hslash]
  have hliteral : literal? (c :: bs) = none := by simp [literal?, hparen]
  have hhex : hexString? (c :: bs) = none := by simp [hexString?, hless]
  have hsimple : simple? (α := α) false (c :: bs) = none ↔
      expect? (ascii "null") (c :: bs) = none ∧ expect? (ascii "true") (c :: bs) = none ∧
        expect? (ascii "false") (c :: bs) = none := by
    simp only [simple?, hreal, hint, hname, hliteral, hhex, Option.map_none, Bool.false_eq_true, if_false]
    cases expect? (ascii "null") (c :: bs) <;> cases expect? (ascii "true") (c :: bs) <;>
      cases expect? (ascii "false") (c :: bs) <;> simp [firstOf]
  rw [← hsimple]
  unfold value?
  cases hs : simple? (α := α) false (c :: bs) with
  | some found => simp
  | none =>
    simp only [iff_true]
    split
    · rename_i heq
      exact absurd (List.cons.inj heq).1 hbracket
    · rename_i heq
      exact absurd (List.cons.inj heq).1 hless
    · rfl

theorem operator?_head {bs r : Bytes} {word : String} (h : operator? bs = some (word, r)) :
    ∃ c cs, bs = c :: cs ∧ isOperatorByte c = true := by
  cases bs with
  | nil => cases h
  | cons c cs =>
    refine ⟨c, cs, rfl, ?_⟩
    cases hc : isOperatorByte c with
    | true => rfl
    | false => simp [operator?, hc] at h

theorem operands_nil (depth fuel : Nat) (acc : List (Operand α)) :
    operands depth fuel acc [] = (acc.reverse, []) := by
  cases fuel with
  | zero => rfl
  | succ fuel => simp only [operands, ObjectReader.value?_nil]

theorem operands_comment (depth fuel : Nat) (acc : List (Operand α)) (bs : Bytes) :
    operands depth fuel acc (0x25 :: bs) = (acc.reverse, 0x25 :: bs) := by
  cases fuel with
  | zero => rfl
  | succ fuel => simp only [operands, value?_eq_none (c := 0x25) (by decide)]

theorem operator?_behind {bs r : Bytes} {word : String} (h : operator? bs = some (word, r)) :
    Behind r bs := by
  obtain ⟨c, cs, rfl, hc⟩ := operator?_head h
  unfold operator? at h
  simp only at h
  split at h
  · cases h
  · obtain ⟨-, rfl⟩ := Prod.mk.inj (Option.some.inj h)
    rw [List.dropWhile_cons_of_pos hc]
    exact .cons c (List.dropWhile_suffix _)

theorem operands_suffix (depth fuel : Nat) (acc : List (Operand α)) (bs : Bytes) :
    (operands depth fuel acc bs).2 <:+ bs := by
  induction fuel generalizing acc bs with
  | zero => exact List.suffix_rfl
  | succ fuel ih =>
    simp only [operands]
    split
    · rename_i v r hv
      exact (ih _ _).trans ((skipSpaces_suffix r).trans ((value?_behind depth).1 hv).suffix)
    · exact List.suffix_rfl

/-- The operands of an operation are read the same. -/
theorem operands_restoreLine {depth depth' fuel fuel' : Nat} (hd : depth ≤ depth') (hpos : 0 < depth)
    (hf : fuel ≤ fuel') {bs r r' : Bytes} (hl : bs.length < fuel) {acc vs : List (Operand α)}
    {word : String} (h : operands depth fuel acc bs = (vs, r)) (ho : operator? r = some (word, r')) :
    operands depth' fuel' acc (bs ++ restoreLine rest) = (vs, r ++ restoreLine rest) := by
  induction fuel generalizing fuel' acc bs with
  | zero => exact absurd hl (Nat.not_lt_zero _)
  | succ fuel ih =>
    obtain ⟨fuel', rfl⟩ : ∃ n, fuel' = n + 1 := ⟨fuel' - 1, by omega⟩
    simp only [operands] at h ⊢
    cases hv : value? (α := α) false depth bs with
    | some found =>
      obtain ⟨v, r₁⟩ := found
      simp only [hv] at h
      simp only [(kept_restoreLine rest hd).value hv]
      have hne : skipSpaces r₁ ≠ [] := by
        intro he
        rw [he, operands_nil] at h
        rw [← (Prod.mk.inj h).2] at ho
        cases ho
      rw [skipSpaces_of_ne rest hne]
      have hbehind := ((value?_behind depth).1 hv).length
      have hskip := (skipSpaces_suffix r₁).length_le
      exact ih (Nat.le_of_succ_le_succ hf) (by omega) h
    | none =>
      simp only [hv] at h
      obtain ⟨rfl, rfl⟩ := Prod.mk.inj h
      obtain ⟨c, cs, rfl, hc⟩ := operator?_head ho
      obtain ⟨depth, rfl⟩ : ∃ n, depth = n + 1 := ⟨depth - 1, by omega⟩
      obtain ⟨depth', rfl⟩ : ∃ n, depth' = n + 1 := ⟨depth' - 1, by omega⟩
      obtain ⟨hnull, htrue, hfalse⟩ := (value?_of_operator hc depth cs).mp hv
      have hnone : value? (α := α) false (depth' + 1) (c :: cs ++ restoreLine rest) = none := by
        rw [List.cons_append]
        refine (value?_of_operator hc depth' _).mpr ?_
        rw [← List.cons_append, expect?_restoreLine rest _ (by decide), expect?_restoreLine rest _ (by decide),
          expect?_restoreLine rest _ (by decide), hnull, htrue, hfalse]
        exact ⟨rfl, rfl, rfl⟩
      rw [hnone]

/-- What an inline image is made of. -/
theorem inlineImage?_eq_some {fuel : Nat} {bs r : Bytes} {op : Operation α} :
    inlineImage? fuel bs = some (op, r) ↔ ∃ d : Dict α, ∃ r₁ n r₂,
      entries fuel [] (skipSpaces bs) = (d, ascii "ID" ++ r₁) ∧ sampleBytes? d = some n ∧
        n ≤ (skipSpaces r₁).length ∧ skipSpaces ((skipSpaces r₁).drop n) = ascii "EI" ++ r₂ ∧
        (⟨"BI", [.dict (Operand.ofEntries (d.set "Length" (.int n)))]⟩, skipSpaces r₂) = (op, r) := by
  simp only [inlineImage?, Option.bind_eq_bind, Option.bind_eq_some_iff, Option.pure_def]
  constructor
  · rintro ⟨r₁, hid, n, hn, h⟩
    split at h
    · cases h
    · rename_i hlen
      obtain ⟨r₂, hei, h⟩ := Option.bind_eq_some_iff.mp h
      exact ⟨_, r₁, n, r₂, Prod.ext rfl (expect?_eq_some.mp hid), hn, Nat.not_lt.mp hlen,
        expect?_eq_some.mp hei, Option.some.inj h⟩
  · rintro ⟨d, r₁, n, r₂, hentries, hn, hlen, hei, h⟩
    rw [hentries]
    refine ⟨r₁, expect?_eq_some.mpr rfl, n, hn, ?_⟩
    rw [if_neg (Nat.not_lt.mpr hlen), expect?_eq_some.mpr hei, Option.bind_some, h]

/-- An inline image is read the same, up to the white space behind it. -/
theorem inlineImage?_restoreLine {fuel fuel' : Nat} (hf : fuel ≤ fuel') {bs r : Bytes} {op : Operation α}
    (h : inlineImage? fuel bs = some (op, r)) :
    Behind r bs ∧
      inlineImage? fuel' (bs ++ restoreLine rest) = some (op, skipSpaces (r ++ restoreLine rest)) := by
  obtain ⟨d, r₁, n, r₂, hentries, hn, hlen, hei, he⟩ := inlineImage?_eq_some.mp h
  obtain ⟨rfl, rfl⟩ := Prod.mk.inj he
  have hid : ascii "ID" = [0x49, 0x44] := by rfl
  have heiBytes : ascii "EI" = [0x45, 0x49] := by rfl
  have hsuffix : ascii "ID" ++ r₁ <:+ skipSpaces bs := by
    simpa only [hentries] using (value?_behind fuel).2.2 ([] : Dict α) (skipSpaces bs)
  have hr₂ : r₂ <:+ r₁ := by
    have hdrop : ascii "EI" ++ r₂ <:+ r₁ := hei ▸ (skipSpaces_suffix _).trans
      ((List.drop_suffix n _).trans (skipSpaces_suffix r₁))
    exact (List.suffix_append _ _).trans hdrop
  have hbehind : Behind r₁ bs := by
    refine Behind.within (s := ascii "ID" ++ r₁) ⟨List.suffix_append _ _, ?_⟩
      (hsuffix.trans (skipSpaces_suffix bs))
    rw [hid, List.length_append, List.length_cons, List.length_cons]
    omega
  refine ⟨.after ((skipSpaces_suffix r₂).trans hr₂) hbehind, ?_⟩
  have hsamples : skipSpaces (r₁ ++ restoreLine rest) = skipSpaces r₁ ++ restoreLine rest := by
    refine skipSpaces_of_ne rest fun hnil => ?_
    rw [hnil, List.drop_nil, heiBytes] at hei
    cases hei
  have hbehindSamples : skipSpaces ((skipSpaces r₁ ++ restoreLine rest).drop n) =
      ascii "EI" ++ (r₂ ++ restoreLine rest) := by
    rw [List.drop_append_of_le_length hlen, skipSpaces_of_ne rest ?_, hei, List.append_assoc]
    intro hnil
    rw [hei, heiBytes] at hnil
    cases hnil
  have hparameters : entries fuel' [] (skipSpaces (bs ++ restoreLine rest)) =
      (d, ascii "ID" ++ (r₁ ++ restoreLine rest)) := by
    have hne : skipSpaces bs ≠ [] := by
      intro hnil
      rw [hnil, entries_of_head _ _ (by simp), hid] at hentries
      cases hentries
    rw [skipSpaces_of_ne rest hne]
    rw [hid] at hentries ⊢
    exact (kept_restoreLine rest hf).entries (by decide) (by decide) hentries
  refine inlineImage?_eq_some.mpr ⟨d, r₁ ++ restoreLine rest, n, r₂ ++ restoreLine rest, hparameters, hn,
    ?_, ?_, ?_⟩
  · rw [hsamples, List.length_append]
    exact Nat.le_add_right_of_le hlen
  · rw [hsamples]
    exact hbehindSamples
  · rw [skipSpaces_skip]

/-- What an operation is read from, behind the comments in front of it: an inline image behind its word, or
operands and the word behind them. -/
theorem step_eq_operation {limit : Nat} {bs r : Bytes} {op : Operation α} :
    step limit bs = .operation op r ↔
      (∃ r₁, expect? (ascii "BI") (skipComments limit bs) = some r₁ ∧
        inlineImage? limit r₁ = some (op, r)) ∨
      expect? (ascii "BI") (skipComments limit bs) = none ∧ ∃ vs r₁ word r₂,
        operands limit limit [] (skipComments limit bs) = (vs, r₁) ∧ operator? r₁ = some (word, r₂) ∧
          (⟨word, vs⟩, skipSpaces r₂) = (op, r) := by
  simp only [step]
  cases himage : expect? (ascii "BI") (skipComments limit bs) with
  | some r₁ =>
    cases hop : inlineImage? (α := α) limit r₁ with
    | none => simp [hop]
    | some found => simp [hop, Prod.ext_iff]
  | none =>
    cases hvs : operands (α := α) limit limit [] (skipComments limit bs) with
    | mk vs r₁ =>
      cases hop : operator? r₁ with
      | none => simp [hop]
      | some found =>
        obtain ⟨word, r₂⟩ := found
        constructor
        · intro h
          exact .inr ⟨rfl, vs, r₁, word, r₂, rfl, hop, by simpa using h⟩
        · rintro (⟨r', h, -⟩ | ⟨-, vs', r', word', r'', h, hword, he⟩)
          · cases h
          · obtain ⟨rfl, rfl⟩ := Prod.mk.inj h
            cases hop.symm.trans hword
            simpa using he

/-- Operands with a word behind them begin neither at the end of the input nor with a comment. -/
theorem operands_head {depth fuel : Nat} {bs r r' : Bytes} {vs : List (Operand α)} {word : String}
    (h : operands depth fuel [] bs = (vs, r)) (ho : operator? r = some (word, r')) :
    bs ≠ [] ∧ bs.head? ≠ some 0x25 := by
  obtain ⟨c, cs, rfl, hc⟩ := operator?_head ho
  refine ⟨?_, fun hhead => ?_⟩
  · rintro rfl
    rw [operands_nil] at h
    cases h
  · obtain ⟨tail, rfl⟩ := List.head?_eq_some_iff.mp hhead
    rw [operands_comment depth fuel ([] : List (Operand α))] at h
    rw [← (List.cons.inj (Prod.mk.inj h).2).1] at hc
    cases hc

/-- An operation at the front is read the same, up to the white space behind it. -/
theorem step_restoreLine {limit limit' : Nat} (hl : limit ≤ limit') {bs r : Bytes}
    (hlen : bs.length < limit) {op : Operation α} (h : step limit bs = .operation op r) :
    Behind r bs ∧
      step limit' (bs ++ restoreLine rest) = .operation op (skipSpaces (r ++ restoreLine rest)) := by
  have hsuffix := skipComments_suffix limit bs
  rcases step_eq_operation.mp h with ⟨r₁, himage, hop⟩ | ⟨himage, vs, r₁, word, r₂, hvs, hop, he⟩
  · obtain ⟨hbehind, hkept⟩ := inlineImage?_restoreLine rest hl hop
    have hword : skipComments limit bs = 0x42 :: 0x49 :: r₁ := expect?_eq_some.mp himage
    have hskip := skipComments_restoreLine rest hl (by rw [hword]; exact List.cons_ne_nil _ _)
      (by rw [hword]; simp)
    refine ⟨.within (.after hbehind.suffix (expect?_behind (by decide) himage)) hsuffix,
      step_eq_operation.mpr (.inl ⟨r₁ ++ restoreLine rest, ?_, hkept⟩)⟩
    rw [hskip, expect?_restoreLine rest (ascii "BI") (by decide), himage, Option.map_some]
  · obtain ⟨rfl, rfl⟩ := Prod.mk.inj he
    obtain ⟨hne, hcomment⟩ := operands_head hvs hop
    have hskip := skipComments_restoreLine rest hl hne hcomment
    have hlen' : (skipComments limit bs).length < limit := Nat.lt_of_le_of_lt hsuffix.length_le hlen
    have hpos : 0 < limit := Nat.lt_of_le_of_lt (Nat.zero_le _) hlen
    have hr₁ : r₁ <:+ skipComments limit bs := by
      simpa only [hvs] using operands_suffix (α := α) limit limit [] (skipComments limit bs)
    refine ⟨.within (.after (skipSpaces_suffix r₂) (operator?_behind hop)) (hr₁.trans hsuffix),
      step_eq_operation.mpr (.inr ⟨?_, vs, r₁ ++ restoreLine rest, word, r₂ ++ restoreLine rest, ?_,
        operator?_restoreLine rest hop, ?_⟩)⟩
    · rw [hskip, expect?_restoreLine rest (ascii "BI") (by decide), himage, Option.map_none]
    · rw [hskip]
      exact operands_restoreLine rest hl hpos hl hlen' hvs hop
    · rw [skipSpaces_skip]

/-- That a program is read to its end. A comment may stand there that goes on to the end of the input. -/
inductive Reads (limit : Nat) : Bytes → List (Operation α) → Prop where
  | done : Reads limit [] []
  | comment {bs : Bytes} (starts : (skipComments limit bs).head? = some 0x25)
      (unfinished : comment? (skipComments limit bs) = none) : Reads limit bs []
  | step {bs r : Bytes} {op : Operation α} {ops : List (Operation α)}
      (first : step limit bs = .operation op r) (others : Reads limit r ops) : Reads limit bs (op :: ops)

/-- Every operation takes a byte at least. -/
theorem Reads.length_le {limit : Nat} {bs : Bytes} {ops : List (Operation α)} (h : Reads limit bs ops)
    (hl : bs.length < limit) : ops.length ≤ bs.length := by
  induction h with
  | done | comment => exact Nat.zero_le _
  | step first _ ih =>
    have hr := (step_restoreLine [] (Nat.le_refl _) hl first).1.length
    have := ih (Nat.lt_trans hr hl)
    rw [List.length_cons]
    omega

/-- In front of a comment that does not end reading stops. -/
theorem step_comment {limit : Nat} {bs : Bytes} (hc : (skipComments limit bs).head? = some 0x25) :
    step (α := α) limit bs = .stop := by
  obtain ⟨cs, hcs⟩ := List.head?_eq_some_iff.mp hc
  have himage : expect? (ascii "BI") (0x25 :: cs) = none := rfl
  simp only [step, hcs, himage, operands_comment]
  rfl

theorem Reads.operationsFrom {limit : Nat} {bs : Bytes} {ops : List (Operation α)} (h : Reads limit bs ops)
    {fuel : Nat} (hf : ops.length < fuel) (acc : List (Operation α)) :
    Grammar.operationsFrom limit fuel acc bs = some (acc.reverse ++ ops) := by
  induction h generalizing fuel acc with
  | done =>
    obtain ⟨fuel, rfl⟩ : ∃ n, fuel = n + 1 := ⟨fuel - 1, by omega⟩
    simp only [Grammar.operationsFrom, step_nil, List.append_nil]
  | comment starts =>
    obtain ⟨fuel, rfl⟩ : ∃ n, fuel = n + 1 := ⟨fuel - 1, by omega⟩
    simp only [Grammar.operationsFrom, step_comment starts, List.append_nil]
  | step first _ ih =>
    obtain ⟨fuel, rfl⟩ : ∃ n, fuel = n + 1 := ⟨fuel - 1, by omega⟩
    simp only [Grammar.operationsFrom, first]
    rw [ih (by simpa using hf)]
    simp

/-- Behind an operation there is no white space left. -/
theorem step_headNot {limit : Nat} {bs r : Bytes} {op : Operation α} (h : step limit bs = .operation op r) :
    HeadNot isSpace r := by
  rcases step_eq_operation.mp h with ⟨r₁, -, hop⟩ | ⟨-, vs, r₁, word, r₂, -, -, he⟩
  · obtain ⟨d, r₂, n, r₃, -, -, -, -, he⟩ := inlineImage?_eq_some.mp hop
    exact (Prod.mk.inj he).2 ▸ headNot_skipSpaces r₃
  · exact (Prod.mk.inj he).2 ▸ headNot_skipSpaces r₂

/-- A program behind one that is read to its end is read too. -/
theorem Reads.operationsFrom_append {limit limit' : Nat} (hl : limit < limit') {bs : Bytes}
    {ops : List (Operation α)} (h : Reads limit bs ops) (hlen : bs.length < limit)
    (hhead : HeadNot isSpace bs) {p : List (Instruction α)} (hp : ∀ i ∈ p, i.IsPrintable) (hoperands : ∀ i ∈ p, i.operands.length < limit')
    (hrest : printProgram p = 0x51 :: rest) {fuel : Nat} (hf : ops.length + p.length < fuel)
    (acc : List (Operation α)) :
    Grammar.operationsFrom limit' fuel acc (skipSpaces (bs ++ restoreLine rest)) =
      some (acc.reverse ++ ops ++ p.map Instruction.readBack) := by
  have hprogram : ∀ {fuel : Nat} (acc : List (Operation α)), p.length < fuel →
      Grammar.operationsFrom limit' fuel acc (0x51 :: rest) =
        some (acc.reverse ++ p.map Instruction.readBack) := by
    intro fuel acc hf
    rw [← hrest]
    exact operationsFrom_print hp hoperands hf acc
  -- The white space behind an operation may be all that was left of the program.
  induction h generalizing fuel acc with
  | done =>
    have hskip : skipSpaces ([] ++ restoreLine rest) = 0x51 :: rest := rfl
    rw [hskip, hprogram acc (by simpa using hf), List.append_nil]
  | comment starts unfinished =>
    rename_i bs
    have hne : bs ≠ [] := by
      rintro rfl
      rw [List.suffix_nil.mp (skipComments_suffix limit [])] at starts
      cases starts
    have hskip := skipComments_unfinished rest hl starts unfinished
    have hrestore : comment? (0x51 :: rest) = none := comment?_of_head (by simp)
    have hstep : Grammar.step (α := α) limit' (bs ++ restoreLine rest) = Grammar.step limit' (0x51 :: rest) := by
      simp only [Grammar.step, hskip, skipComments_of_none hrestore limit']
    have hspaces : skipSpaces bs ≠ [] := by rwa [skipSpaces_of_headNot hhead]
    obtain ⟨fuel, rfl⟩ : ∃ n, fuel = n + 1 := ⟨fuel - 1, by omega⟩
    rw [skipSpaces_of_ne rest hspaces, skipSpaces_of_headNot hhead, List.append_nil,
      ← hprogram acc (by simpa only [List.length_nil, Nat.zero_add] using hf), Grammar.operationsFrom,
      Grammar.operationsFrom, hstep]
  | step first others ih =>
    rename_i bs r op ops
    obtain ⟨hbehind, hstep⟩ := step_restoreLine rest (Nat.le_of_lt hl) hlen first
    have hspaces : skipSpaces bs ≠ [] := by
      rw [skipSpaces_of_headNot hhead]
      rintro rfl
      exact absurd hbehind.length (Nat.not_lt_zero _)
    obtain ⟨fuel, rfl⟩ : ∃ n, fuel = n + 1 := ⟨fuel - 1, by omega⟩
    rw [skipSpaces_of_ne rest hspaces, skipSpaces_of_headNot hhead, Grammar.operationsFrom, hstep]
    simp only
    have hfuel : ops.length + p.length < fuel := by
      rw [List.length_cons] at hf
      omega
    rw [ih (Nat.lt_trans hbehind.length hlen) (step_headNot first) hfuel]
    simp

end Operations

/-- That a program is read to its end, with white space in front of it left out. -/
def Complete {α : Type} [Scalar α] (bs : Bytes) (ops : List (Operation α)) : Prop :=
  Reads (fuelFor bs) (skipSpaces bs) ops

end Grammar

open Grammar

variable {α : Type} [Scalar α] {bs : Bytes} {ops : List (Operation α)}

theorem Grammar.Complete.length_lt (_ : Complete bs ops) : (skipSpaces bs).length < fuelFor bs :=
  Nat.lt_succ_of_le (skipSpaces_suffix bs).length_le

/-- A program that is read to its end is read as its operations. -/
theorem Grammar.Complete.decodeOperations (h : Complete bs ops) : decodeOperations bs = ops := by
  have hle := Reads.length_le h h.length_lt
  have hlt := h.length_lt
  simp only [Marginalia.decodeOperations, operations?, Reads.operationsFrom h (Nat.lt_of_le_of_lt hle hlt),
    List.reverse_nil, List.nil_append]

/-- A written program does not begin with white space. -/
theorem Grammar.headNot_printProgram {p : List (Instruction α)} (hp : ∀ i ∈ p, i.IsPrintable) :
    HeadNot isSpace (printProgram p) := by
  cases p with
  | nil => exact headNot_nil
  | cons i p =>
    obtain ⟨tail, hprint, -⟩ := printProgram_cons i p
    rw [hprint]
    exact headNot_instruction (hp i (by simp)) tail

/-- A written program is read to its end. -/
theorem Grammar.complete_print {p : List (Instruction α)} (hp : ∀ i ∈ p, i.IsPrintable) :
    Complete (printProgram p) (p.map Instruction.readBack) := by
  have hreads : ∀ {limit : Nat} {p : List (Instruction α)}, (∀ i ∈ p, i.IsPrintable) →
      (∀ i ∈ p, i.operands.length < limit) →
      Reads limit (printProgram p) (p.map Instruction.readBack) := by
    intro limit p hp hl
    induction p with
    | nil => exact .done
    | cons i p ih =>
      have hrest : ∀ j ∈ p, j.IsPrintable := fun j hj => hp j (by simp [hj])
      obtain ⟨tail, hprint, hbreak, htail⟩ := printProgram_cons i p
      have hstep := step_print (hp i (by simp)) (hl i (by simp)) hbreak
      have hskip : skipSpaces tail = printProgram p := by
        rcases htail with ⟨rfl, rfl⟩ | ⟨rfl, -⟩
        · rfl
        · exact skipSpaces_cons rfl (headNot_printProgram hrest)
      rw [hskip] at hstep
      rw [hprint]
      exact .step hstep (ih hrest fun j hj => hl j (by simp [hj]))
  obtain ⟨-, hoperands⟩ := length_printProgram hp
  rw [Complete, skipSpaces_of_headNot (headNot_printProgram hp)]
  exact hreads hp fun i hi => Nat.lt_succ_of_le (hoperands i hi)

theorem isWord_save : IsWord "q" := by decide

/-- The instruction that saves the state. -/
def savingInstruction : Instruction α := ⟨"q", []⟩

theorem savingInstruction_printable : (savingInstruction : Instruction α).IsPrintable :=
  ⟨fun _ hv => absurd hv List.not_mem_nil, isWord_save⟩

theorem print_savingInstruction : (savingInstruction : Instruction α).print = [0x71] := by
  have hq : ascii "q" = [0x71] := by rfl
  simp only [savingInstruction, Instruction.print, hq, List.flatMap_nil, List.nil_append]

/-- A program that is read to its end, with a saving of the state in front of it and a further program behind
it, is read as all three. -/
theorem Grammar.Complete.decodeOperations_guarded (h : Complete bs ops) {p : List (Instruction α)}
    (hp : ∀ i ∈ p, i.IsPrintable) {rest : Bytes} (hrest : printProgram p = 0x51 :: rest) :
    Marginalia.decodeOperations (ascii "q\n" ++ bs ++ 0x0A :: printProgram p) =
      ⟨"q", []⟩ :: (ops ++ p.map Instruction.readBack) := by
  have hline : 0x0A :: printProgram p = restoreLine rest := by
    rw [hrest]
    rfl
  have hwhole : ascii "q\n" ++ bs ++ restoreLine rest =
      (savingInstruction : Instruction α).print ++ 0x0A :: (bs ++ restoreLine rest) := by
    have hq : ascii "q\n" = [0x71, 0x0A] := by rfl
    rw [hq, print_savingInstruction]
    simp
  have hspaces : skipSpaces (0x0A :: (bs ++ restoreLine rest)) =
      skipSpaces (skipSpaces bs ++ restoreLine rest) := by
    rw [skipSpaces_skip]
    rfl
  obtain ⟨hcount, hoperands⟩ := length_printProgram hp
  have hops := Reads.length_le h h.length_lt
  have hskip := (skipSpaces_suffix bs).length_le
  let limit := bs.length + (printProgram p).length + 4
  have hlimit : fuelFor (ascii "q\n" ++ bs ++ restoreLine rest) = limit := by
    have hq : (ascii "q\n").length = 2 := by rfl
    rw [← hline]
    simp only [fuelFor, List.length_append, List.length_cons, hq, limit]
    omega
  have hshort : fuelFor bs < limit := by
    simp only [fuelFor, limit]
    omega
  have hfirst : step (α := α) limit (ascii "q\n" ++ bs ++ restoreLine rest) =
      .operation ⟨"q", []⟩ (skipSpaces (0x0A :: (bs ++ restoreLine rest))) := by
    rw [hwhole]
    exact step_print savingInstruction_printable (Nat.lt_of_le_of_lt (Nat.zero_le _) hshort) (.inr ⟨_, rfl⟩)
  have hothers : operationsFrom limit (limit - 1) [⟨"q", []⟩]
      (skipSpaces (skipSpaces bs ++ restoreLine rest)) =
      some ([⟨"q", []⟩].reverse ++ ops ++ p.map Instruction.readBack) := by
    have hfuel : ops.length + p.length < bs.length + (printProgram p).length + 3 := by omega
    refine Reads.operationsFrom_append rest hshort h h.length_lt (headNot_skipSpaces bs) hp
      (fun i hi => ?_) hrest hfuel _
    have := hoperands i hi
    simp only [limit]
    omega
  have hfuel : limit = limit - 1 + 1 := rfl
  have hstart : skipSpaces (ascii "q\n" ++ bs ++ restoreLine rest) = ascii "q\n" ++ bs ++ restoreLine rest := by
    rw [hwhole]
    exact skipSpaces_of_headNot (headNot_instruction savingInstruction_printable _)
  have hall : operationsFrom limit limit [] (ascii "q\n" ++ bs ++ restoreLine rest) =
      some (⟨"q", []⟩ :: (ops ++ p.map Instruction.readBack)) := by
    rw [hfuel, operationsFrom, ← hfuel, hfirst, hspaces]
    exact hothers
  simp only [Marginalia.decodeOperations, operations?, hline, hlimit, hstart, hall]

end Marginalia

import Marginalia.Proofs.Mark.RoundTrip
import Marginalia.Proofs.Mark.Separation

/-!
What saving annotations leaves as it was: the pages and their frames, the content of each page without the
streams with a tag, all entries of pages but three, and the text of pages that get no recognised text.
-/

namespace Marginalia

namespace Document

open MarkWriter

variable {α : Type} {d d' r : Document α}

variable [Scalar α] {o : SaveOptions α} {ms : List (Mark α)} {w : Document α}

/-- That a page has a frame and that there is recognised text for it. -/
def Receives (d : Document α) (ms : List (Mark α)) (number : Nat) (p : ObjectId) : Prop :=
  (∃ frame, d.frame p = .ok frame) ∧ ∃ m ∈ ms, m.kind = .ocrText ∧ m.page = number

theorem twoPages_pages : (twoPages ⟨5, 0⟩).pages = [⟨3, 0⟩, ⟨4, 0⟩] := by decide +kernel

/-- Two pages with such entries, a stream of content and other objects. -/
def pagesWith (first second : List (String × Object (Exact .plain))) (content : String)
    (extra : List (ObjectId × Object (Exact .plain))) : Document (Exact .plain) :=
  { objects := [
      (⟨1, 0⟩, .ofEntries [("Type", .nameOf "Catalog"), ("Pages", .ref ⟨2, 0⟩)]),
      (⟨2, 0⟩, .ofEntries [("Type", .nameOf "Pages"), ("Kids", .array [.ref ⟨3, 0⟩, .ref ⟨4, 0⟩]),
        ("MediaBox", .array [.int 0, .int 0, .int 300, .int 300])]),
      (⟨3, 0⟩, .ofEntries (("Type", .nameOf "Page") :: first)),
      (⟨4, 0⟩, .ofEntries (("Type", .nameOf "Page") :: second)),
      (⟨5, 0⟩, .streamOf [] (Syntax.ascii content))] ++ extra
    trailer := Dict.ofList [("Root", .ref ⟨1, 0⟩)]
    maxNumber := (extra.map fun e => e.1.number).foldl max 5
    streamed := false }

theorem pagesWith_tree {first second : List (String × Object (Exact .plain))} {content : String}
    {extra : List (ObjectId × Object (Exact .plain))}
    (hfirst : (Dict.ofList (("Type", .nameOf "Page") :: first)).typeName? = some (Syntax.ascii "Page"))
    (hsecond : (Dict.ofList (("Type", .nameOf "Page") :: second)).typeName? = some (Syntax.ascii "Page")) :
    (pagesWith first second content extra).TreeSound := by
  have hstored₁ : (pagesWith first second content extra).stored? ⟨3, 0⟩ =
      some (.dict (Dict.ofList (("Type", .nameOf "Page") :: first))) := rfl
  have hstored₂ : (pagesWith first second content extra).stored? ⟨4, 0⟩ =
      some (.dict (Dict.ofList (("Type", .nameOf "Page") :: second))) := rfl
  have hkid : ∀ {id : ObjectId} {es : Dict (Exact .plain)},
      (pagesWith first second content extra).stored? id = some (.dict es) →
      es.typeName? = some (Syntax.ascii "Page") → (pagesWith first second content extra).kid (.ref id) = .page id := by
    intro id es hs htype
    simp only [kid, getDict?_of_stored? hs, Option.bind_some, htype, beq_self_eq_true, if_true]
  have hhome : ∀ {id : ObjectId} {es : Dict (Exact .plain)},
      (pagesWith first second content extra).stored? id = some (.dict es) →
      (pagesWith first second content extra).home? id = some id :=
    fun hs => home?_eq_some.mpr ⟨_, locate_of_stored? hs rfl⟩
  refine ⟨fun root hroot => ⟨[⟨3, 0⟩, ⟨4, 0⟩], [⟨3, 0⟩, ⟨4, 0⟩], ?_, ?_⟩⟩
  · obtain rfl : (⟨2, 0⟩ : ObjectId) = root := Option.some.inj hroot
    exact @Walk.page _ _ (.ref ⟨3, 0⟩) [.ref ⟨4, 0⟩] [] _ _ _ (hkid hstored₁ hfirst)
      (@Walk.page _ _ (.ref ⟨4, 0⟩) [] [] _ _ _ (hkid hstored₂ hsecond) .done)
  · simp only [List.map_cons, List.map_nil, hhome hstored₁, hhome hstored₂]
    decide

end Document

end Marginalia

import Marginalia.Document.Store

/-!
Which objects the trailer leads to. An object that it does not lead to is no part of the document, and
is left out when the document is saved.
-/

namespace Marginalia

mutual

/-- The references in an object, those in its parts included. -/
def Object.references {α : Type} : Object α → List ObjectId
  | .ref id => [id]
  | .array items => Object.itemReferences items
  | .dict entries => Object.entryReferences entries
  | .stream entries _ => Object.entryReferences entries
  | _ => []

def Object.itemReferences {α : Type} : List (Object α) → List ObjectId
  | [] => []
  | v :: vs => v.references ++ Object.itemReferences vs

def Object.entryReferences {α : Type} : List (Bytes × Object α) → List ObjectId
  | [] => []
  | (_, v) :: es => v.references ++ Object.entryReferences es

end

namespace Document

variable {α : Type}

/-- The references in the object of a number. -/
def referencesFrom (d : Document α) (id : ObjectId) : List ObjectId :=
  ((d.stored? id).map Object.references).getD []

/-- Follows a row of references and all that they lead to, adding to what was `seen`. -/
def follow (d : Document α) : Nat → List ObjectId → (seen : List ObjectId) → List ObjectId
  | 0, _, seen => seen
  | _ + 1, [], seen => seen
  | fuel + 1, id :: queue, seen =>
    if seen.contains id then follow d fuel queue seen
    else follow d fuel (queue ++ d.referencesFrom id) (id :: seen)

/-- How many references there are in all, which bounds how many are followed. -/
def referenceCount (d : Document α) : Nat :=
  (d.objects.map fun e => e.2.references.length).sum + (Object.entryReferences d.trailer).length

/-- The numbers that the trailer leads to, whether there are objects under them or not. -/
def reachable (d : Document α) : List ObjectId :=
  d.follow (d.referenceCount + 1) (Object.entryReferences d.trailer) []

/-- The document without the objects that the trailer does not lead to. -/
def prune (d : Document α) : Document α :=
  let kept := d.reachable
  { d with objects := d.objects.filter fun e => kept.contains e.1 }

end Document

end Marginalia

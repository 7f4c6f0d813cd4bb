import Marginalia.Document.PageTree
import Marginalia.Document.Reachability

/-!
Removing a page: the page itself, the references to it, its share in the counts of the nodes above it,
and what nothing leads to any more.
-/

namespace Marginalia

mutual

/-- An object with references to a number struck out: of an array the first, of a dictionary all. The
entries of a stream stand, though not those of dictionaries among them. -/
def Object.strike {α : Type} (id : ObjectId) : Object α → Object α
  | .array items => .array (Object.strikeItems id false items)
  | .dict entries => .dict (Object.strikeEntries id true entries)
  | .stream entries data => .stream (Object.strikeEntries id false entries) data
  | v => v

/-- The items of an array; once one was struck out the others stand. -/
def Object.strikeItems {α : Type} (id : ObjectId) (struck : Bool) : List (Object α) → List (Object α)
  | [] => []
  | v :: vs =>
    if !struck && v.ref? == some id then Object.strikeItems id true vs
    else v.strike id :: Object.strikeItems id struck vs

/-- The entries of a dictionary, of which references to the number go if `direct`. -/
def Object.strikeEntries {α : Type} (id : ObjectId) (direct : Bool) :
    List (Bytes × Object α) → List (Bytes × Object α)
  | [] => []
  | (key, v) :: es =>
    if direct && v.ref? == some id then Object.strikeEntries id direct es
    else (key, v.strike id) :: Object.strikeEntries id direct es

end

namespace Document

variable {α : Type}

/-- Strikes out all references to a number but those that are entries of the trailer. -/
def strike (d : Document α) (id : ObjectId) : Document α :=
  { d with
    objects := d.objects.map fun e => (e.1, e.2.strike id)
    trailer := Object.strikeEntries id false d.trailer }

def remove (d : Document α) (id : ObjectId) : Document α :=
  { d with objects := d.objects.filter fun e => e.1 != id }

/-- The count of a node, if it has one, less one, as a signed word. -/
def uncounted (entries : Dict α) : Dict α :=
  match (entries.get? "Count").bind Object.int? with
  | some n => entries.set "Count" (.int ((n - 1).bmod (2 ^ 64)))
  | none => entries

/-- Takes one off the counts of a node and of the nodes above it. -/
def uncount (d : Document α) : Nat → Option ObjectId → Document α
  | 0, _ => d
  | _ + 1, none => d
  | fuel + 1, some id =>
    match (d.stored? id).bind Object.dict? with
    | some entries =>
      uncount (d.put id (.dict (uncounted entries))) fuel ((entries.get? "Parent").bind Object.ref?)
    | none => d

/-- The node above a page. -/
def parent? (d : Document α) (page : ObjectId) : Option ObjectId := do
  (← (← (← d.stored? page).dict?).get? "Parent").ref?

/-- The document without a page, whatever else leads to it. -/
def withoutPage (d : Document α) (page : ObjectId) : Document α :=
  (((d.strike page).remove page).uncount (d.objects.length + 1) (d.parent? page)).prune

/-- Removes the page of a number, unless it is the only one. -/
def deletePage (d : Document α) (number : Nat) : Except DocumentError (Document α) := do
  let page ← d.page number
  if d.pageCount ≤ 1 then .error (.save "cannot delete the only page")
  else return d.withoutPage page

end Document

end Marginalia

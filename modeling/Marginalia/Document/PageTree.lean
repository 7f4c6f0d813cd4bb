import Marginalia.Document.Error
import Marginalia.Document.Store
import Marginalia.Geometry.Frame

/-!
The pages of a document in their order, and the attributes that a page has from the nodes above it.
-/

namespace Marginalia

namespace Document

variable {α : Type}

/-- The root of the page tree, over two references from the trailer. -/
def pageTreeRoot? (d : Document α) : Option ObjectId := do
  let catalog ← d.getDict? (← (← d.trailer.get? "Root").ref?)
  (← catalog.get? "Pages").ref?

/-- The kids of a node. -/
def kids (d : Document α) (node : ObjectId) : List (Object α) :=
  (((d.getDict? node).bind (·.get? "Kids")).bind fun v => (d.deref v).array?).getD []

/-- What a kid of a node can be. Other kids count for nothing. -/
inductive Kid where
  | page (id : ObjectId)
  | node (id : ObjectId)
  | other

def kid (d : Document α) : Object α → Kid
  | .ref id =>
    match (d.getDict? id).bind Dict.typeName? with
    | some n =>
      if n == Syntax.ascii "Page" then .page id
      else if n == Syntax.ascii "Pages" then .node id
      else .other
    | none => .other
  | _ => .other

/-- At most so many rows of kids wait while a node below them is walked. -/
def maxTreeDepth : Nat := 256

/-- Puts a row of kids on a stack of such rows, none of which is empty. -/
def pushKids (kids : List (Object α)) (stack : List (List (Object α))) : List (List (Object α)) :=
  if kids.isEmpty then stack else kids :: stack

/-- Walks the tree in depth-first order, looking at no more kids than `limit`. -/
def walkTree (d : Document α) : (limit : Nat) → List (List (Object α)) → List ObjectId
  | 0, _ => []
  | _ + 1, [] => []
  | _ + 1, [] :: _ => []
  | limit + 1, (v :: vs) :: stack =>
    match d.kid v with
    | .page id => id :: walkTree d limit (pushKids vs stack)
    | .node id =>
      if stack.length < maxTreeDepth then
        walkTree d limit (pushKids (d.kids id) (pushKids vs stack))
      else walkTree d limit (pushKids vs stack)
    | .other => walkTree d limit (pushKids vs stack)

/-- The pages in their order. As many kids are looked at as there are objects, which ends a tree with
a cycle. -/
def pages (d : Document α) : List ObjectId :=
  match d.pageTreeRoot? with
  | some root => d.walkTree d.objects.length (pushKids (d.kids root) [])
  | none => []

def pageCount (d : Document α) : Nat := d.pages.length

/-- The pages with their numbers, which count from one. -/
def numberedPages (d : Document α) : List (Nat × ObjectId) :=
  ((List.range d.pages.length).map (· + 1)).zip d.pages

/-- The page of a number. -/
def page (d : Document α) (number : Nat) : Except DocumentError ObjectId :=
  match if number = 0 then none else d.pages[number - 1]? with
  | some id => .ok id
  | none => .error (.pageOutOfRange number d.pageCount)

/-- How many nodes an inherited attribute is looked for in, the page included. -/
def maxAncestors : Nat := 64

/-- The value of a key in a dictionary, or else in the nearest node above that has it. -/
def inheritedWithin? (d : Document α) (key : String) : Nat → Dict α → Option (Object α)
  | 0, _ => none
  | hops + 1, entries =>
    match entries.get? key with
    | some v => some (d.deref v)
    | none => do
      let parent ← d.getDict? (← (← entries.get? "Parent").ref?)
      inheritedWithin? d key hops parent

def inherited? (d : Document α) (entries : Dict α) (key : String) : Option (Object α) :=
  d.inheritedWithin? key maxAncestors entries

/-- The dictionary of a page. -/
def pageEntries (d : Document α) (id : ObjectId) : Except DocumentError (Dict α) :=
  match d.locateDict id with
  | .ok (_, entries) => .ok entries
  | .error e => .error (.parse ("cannot get page object: " ++ e.message))

variable [Scalar α]

/-- The numbers of an array, each of which may be a reference; none if one is no number. -/
def numbers? (d : Document α) (items : List (Object α)) : Option (List α) :=
  items.mapM fun v => (d.deref v).number?

/-- The first four numbers of an inherited array, as two corners. -/
def corners? (d : Document α) (entries : Dict α) (key : String) : Option (α × α × α × α) := do
  let items ← (← d.inherited? entries key).array?
  match ← d.numbers? (items.take 4) with
  | [x₁, y₁, x₂, y₂] => some (x₁, y₁, x₂, y₂)
  | _ => none

/-- The visible part of a page: its crop box, or else its media box. -/
def frame (d : Document α) (id : ObjectId) : Except DocumentError (PageFrame α) := do
  let entries ← d.pageEntries id
  match (d.corners? entries "CropBox").or (d.corners? entries "MediaBox") with
  | some (x₁, y₁, x₂, y₂) =>
    return ⟨Scalar.lesser x₁ x₂, Scalar.lesser y₁ y₂, Scalar.absolute (y₂ - y₁)⟩
  | none => .error (.parse "MediaBox not found for page")

end Document

end Marginalia

/-!
Instances that are taken before any others, so that a definition is the same wherever it is read.
-/

namespace Marginalia

/-- What is said of all members of a list is decided along the list, also for a type with few values. -/
instance (priority := 1100) decidableForallMem {α : Type} (p : α → Prop) [DecidablePred p] (l : List α) :
    Decidable (∀ a ∈ l, p a) :=
  List.decidableBAll p l

/-- What is said of a value that may be missing is decided for that value. -/
instance (priority := 1100) decidableForallMemOption {α : Type} (p : α → Prop) [DecidablePred p] (o : Option α) :
    Decidable (∀ a ∈ o, p a) :=
  Option.decidableForallMem o

/-- What numbers are added up from. -/
instance (priority := 1100) zeroOfNat : Zero Nat := Zero.ofOfNat0

/-- Powers are taken in the numbers themselves, whatever else they are an instance of. -/
@[default_instance 20000]
instance (priority := 1100) powerOfNat : Pow Nat Nat := instPowNat

@[default_instance 15000]
instance (priority := 1100) powerOfInt : Pow Int Nat := instPowNat

end Marginalia

import Emission.Layout.Build

/-!
Recipes for layouts. A recipe names the constructors and their arguments, so the layouts that can be had at
all are those that a recipe builds.
-/
namespace Emission

inductive Recipe
  | scalar
  | sizes (size : List Nat)
  | padded (size padding : List Nat)
  | parts (size extent offset order : List Nat)
  | reordered (inner : Recipe) (order : List Nat)

def Recipe.build : Recipe → Except Failure Layout
  | scalar => .ok .scalar
  | sizes size => Layout.ofSizes size
  | padded size padding => Layout.withPadding size padding
  | parts size extent offset order => Layout.ofParts size extent offset order
  | reordered inner order => do (← inner.build).reorder order

end Emission

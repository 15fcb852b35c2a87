import Emission.Layout.Basic

/-!
Building layouts. A layout comes from sizes alone, from sizes and padding, or from all of its parts, and its
axes can be permuted. Strides follow from the extents. A request is refused when its lists differ in length,
when the order is no permutation, when a dimension has no room for its active positions, or when the number
of elements or a stride is no word.
-/
namespace Emission.Layout

/-- The product of some sizes, taken from the left. -/
def volume? (sizes : List Nat) : Option Nat :=
  sizes.foldlM checkedMul 1

/-- The stride of each dimension, which is the product of the extents to its right. -/
def strides? : List Nat → Option (List Nat)
  | [] => some []
  | _ :: extents => do
    let inner ← strides? extents
    match extents, inner with
    | e :: _, s :: _ => return (← checkedMul s e) :: inner
    | _, _ => return [1]

def assemble : List Nat → List Nat → List Nat → List Nat → List Nat → List Dimension
  | n :: size, e :: extent, o :: offset, s :: stride, a :: order =>
    ⟨n, e, o, s, a⟩ :: assemble size extent offset stride order
  | _, _, _, _, _ => []

def build (size extent offset order : List Nat) : Except Failure Layout :=
  match volume? size, volume? extent, strides? extent with
  | some _, some _, some stride => .ok ⟨assemble size extent offset stride order⟩
  | _, _, _ => .error (.invalidArgument (.extentOverflow extent))

/-- Whether the axes can be marked one after the other, each of them within range and not marked before. -/
def markable : List Bool → List Nat → Bool
  | _, [] => true
  | marks, a :: order =>
    match marks[a]? with
    | some false => markable (marks.set a true) order
    | _ => false

/-- Whether the list holds each number below its length once. -/
def isPermutation (order : List Nat) : Bool :=
  markable (List.replicate order.length false) order

def checkOrder (order : List Nat) : Except Failure Unit :=
  if isPermutation order then .ok () else .error (.invalidArgument (.notPermutation order))

/-- Each dimension has room for its active positions. The first number counts the dimensions passed. -/
def checkFit (d : Nat) : List Nat → List Nat → List Nat → Except Failure Unit
  | n :: size, e :: extent, o :: offset =>
    if (checkedAdd o n).any (· ≤ e) then checkFit (d + 1) size extent offset
    else .error (.invalidArgument (.dimensionOverflow d o n e))
  | _, _, _ => .ok ()

/-- The packed row-major layout of some sizes. -/
def ofSizes (size : List Nat) : Except Failure Layout :=
  build size size (size.map fun _ => 0) (List.range size.length)

/-- The layout with all its parts given, each in physical order. -/
def ofParts (size extent offset order : List Nat) : Except Failure Layout := do
  if extent.length ≠ size.length ∨ offset.length ≠ size.length ∨ order.length ≠ size.length then
    throw (.invalidArgument (.partRanks size.length extent.length offset.length order.length))
  checkOrder order
  checkFit 0 size extent offset
  build size extent offset order

/-- A size with padding on both sides. -/
def padded? (size padding : Nat) : Option Nat := do
  checkedAdd size (← checkedMul padding 2)

/-- The row-major layout with the same padding before and after each dimension. -/
def withPadding (size padding : List Nat) : Except Failure Layout := do
  if size.length ≠ padding.length then
    throw (.invalidArgument (.paddingRank padding.length size.length))
  match (size.zip padding).mapM fun (n, p) => padded? n p with
  | some extent => ofParts size extent padding (List.range size.length)
  | none => throw (.invalidArgument .paddedExtent)

/-- The same storage with its axes permuted. -/
def reorder (l : Layout) (order : List Nat) : Except Failure Layout := do
  if order.length ≠ l.rank then
    throw (.invalidArgument (.reorderRank order.length l.rank))
  checkOrder order
  return ⟨List.zipWith (fun d a => { d with axis := a }) l.dims order⟩

end Emission.Layout

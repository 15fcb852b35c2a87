import Emission.Layout.Basic

/-!
Counting through an index space. An odometer reads one coordinate vector after the other, the last
coordinate fastest, and is spent after the last one. It never holds more than one reading, so a space of
any size can be entered.
-/
namespace Emission

/-- The coordinates after the given ones, if any are left. -/
def successor? : List Nat → List Nat → Option (List Nat)
  | n :: sizes, c :: coordinates =>
    match successor? sizes coordinates with
    | some rest => some (c :: rest)
    | none => if c + 1 < n then some ((c + 1) :: coordinates.map fun _ => 0) else none
  | _, _ => none

structure Odometer where
  sizes : List Nat
  reading : Option (List Nat)

namespace Odometer

/-- The odometer at the origin; a space with an empty dimension has nothing to read. -/
def start (sizes : List Nat) : Odometer :=
  ⟨sizes, if sizes.contains 0 then none else some (sizes.map fun _ => 0)⟩

/-- The present reading and the odometer moved on. -/
def next? (o : Odometer) : Option (List Nat × Odometer) :=
  o.reading.map fun c => (c, ⟨o.sizes, successor? o.sizes c⟩)

/-- The first `n` readings. -/
def take : Nat → Odometer → List (List Nat)
  | 0, _ => []
  | n + 1, o =>
    match o.next? with
    | some (c, rest) => c :: take n rest
    | none => []

/-- Runs a body on the first `n` readings, from the first on. -/
@[specialize] def foldM {m : Type → Type} [Monad m] {β : Type} (body : β → List Nat → m β) :
    Nat → Odometer → β → m β
  | 0, _, acc => pure acc
  | n + 1, o, acc =>
    match o.next? with
    | some (c, rest) => do
      let acc ← body acc c
      foldM body n rest acc
    | none => pure acc

theorem foldM_eq_foldlM_take {m : Type → Type} [Monad m] {β : Type} (body : β → List Nat → m β)
    (n : Nat) (o : Odometer) (acc : β) : foldM body n o acc = (o.take n).foldlM body acc := by
  induction n generalizing o acc with
  | zero => rfl
  | succ n ih =>
    simp only [foldM, take]
    split <;> simp [*]

end Odometer

namespace Layout

/-- The first `n` coordinate vectors of the layout's logical index space. -/
def firstCoordinates (l : Layout) (n : Nat) : List (List Nat) :=
  (Odometer.start l.logicalSize).take n

def coordinates (l : Layout) : List (List Nat) :=
  l.firstCoordinates l.numElements

/-- Runs a body on each coordinate vector of the layout in turn, and hands on what it returns. -/
@[specialize] def foldCoordinatesM {m : Type → Type} [Monad m] {β : Type} (l : Layout) (acc : β)
    (body : β → List Nat → m β) : m β :=
  Odometer.foldM body l.numElements (Odometer.start l.logicalSize) acc

theorem foldCoordinatesM_eq {m : Type → Type} [Monad m] {β : Type} (l : Layout) (acc : β)
    (body : β → List Nat → m β) : l.foldCoordinatesM acc body = l.coordinates.foldlM body acc :=
  Odometer.foldM_eq_foldlM_take ..

end Layout

end Emission

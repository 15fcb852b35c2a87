/-!
The kinds of element that storage can hold, and the types of values over them. A base type is a kind
or void, and a value's type is a base type or a pointer to one. There are no pointers to pointers.
Types are numbered and named in one order, base types first.
-/
namespace Emission

inductive IntKind
  | byte | char8 | short | int32 | int64
deriving DecidableEq

/-- What one cell of storage holds. -/
inductive Kind
  | boolean
  | integer (kind : IntKind)
  | double
deriving DecidableEq

inductive BaseType
  | void
  | cell (kind : Kind)
deriving DecidableEq

inductive ElementType
  | plain (base : BaseType)
  | pointer (base : BaseType)
deriving DecidableEq

namespace IntKind

def width : IntKind → Nat
  | byte | char8 => 8
  | short => 16
  | int32 => 32
  | int64 => 64

/-- A `byte` is unsigned, the other kinds are signed. -/
def isSigned : IntKind → Bool
  | byte => false
  | char8 | short | int32 | int64 => true

/-- The non-negative numbers of the kind are those below its bound. -/
def bound (k : IntKind) : Nat :=
  1 <<< (if k.isSigned then k.width - 1 else k.width)

def name : IntKind → String
  | byte => "byte"
  | char8 => "char8"
  | short => "short"
  | int32 => "int32"
  | int64 => "int64"

def identifier : IntKind → String
  | byte => "Byte"
  | char8 => "Char8"
  | short => "Short"
  | int32 => "Int32"
  | int64 => "Int64"

end IntKind

namespace Kind

def name : Kind → String
  | boolean => "bool"
  | integer k => k.name
  | double => "double"

def identifier : Kind → String
  | boolean => "Boolean"
  | integer k => k.identifier
  | double => "Double"

def sizeInBytes : Kind → Nat
  | boolean => 1
  | integer k => k.width / 8
  | double => 8

end Kind

namespace BaseType

abbrev boolean : BaseType := cell .boolean

abbrev int32 : BaseType := cell (.integer .int32)

abbrev double : BaseType := cell .double

/-- Every base type, in the order of the tags. -/
def all : List BaseType :=
  [void, cell .boolean, cell (.integer .byte), cell (.integer .char8), cell (.integer .short),
    cell (.integer .int32), cell (.integer .int64), cell .double]

/-- A boolean is not a number. -/
def isIntegral : BaseType → Bool
  | cell (.integer _) => true
  | void | cell .boolean | cell .double => false

def isFloatingPoint : BaseType → Bool
  | cell .double => true
  | void | cell .boolean | cell (.integer _) => false

def name : BaseType → String
  | void => "void"
  | cell k => k.name

def identifier : BaseType → String
  | void => "Void"
  | cell k => k.identifier

def sizeInBytes : BaseType → Nat
  | void => 0
  | cell k => k.sizeInBytes

end BaseType

namespace ElementType

def all : List ElementType :=
  BaseType.all.map plain ++ BaseType.all.map pointer

def base : ElementType → BaseType
  | plain b | pointer b => b

def isPointer : ElementType → Bool
  | plain _ => false
  | pointer _ => true

def pointerTo? : ElementType → Option ElementType
  | plain b => some (pointer b)
  | pointer _ => none

def pointee? : ElementType → Option ElementType
  | plain _ => none
  | pointer b => some (plain b)

def isIntegral : ElementType → Bool
  | plain b => b.isIntegral
  | pointer _ => false

def isFloatingPoint : ElementType → Bool
  | plain b => b.isFloatingPoint
  | pointer _ => false

/-- A pointer takes eight bytes, whatever it points to. -/
def sizeInBytes : ElementType → Nat
  | plain b => b.sizeInBytes
  | pointer _ => 8

def tag (t : ElementType) : Nat :=
  all.idxOf t

def ofTag? (tag : Nat) : Option ElementType :=
  all[tag]?

theorem ofTag?_tag (t : ElementType) : ofTag? t.tag = some t := by
  rcases t with b | b <;> rcases b with _ | k <;> try rfl
  all_goals rcases k with _ | k | _ <;> try rfl
  all_goals cases k <;> rfl

/-- A pointer's name is that of what it points to, and a star. -/
def name : ElementType → String
  | plain b => b.name
  | pointer b => b.name ++ "*"

def ofName? (name : String) : Option ElementType :=
  all.find? (·.name == name)

def identifier : ElementType → String
  | plain b => b.identifier
  | pointer b => "P" ++ b.identifier

end ElementType

end Emission

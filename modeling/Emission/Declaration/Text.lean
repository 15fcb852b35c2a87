import Emission.Declaration.Basic
import Emission.Text.Quoted

/-!
Descriptions of layouts, parameters and declarations in one line of text.
-/
namespace Emission

/-- A record's name and its fields in braces. -/
def recordText (name : String) (fields : List (String × String)) : String :=
  name ++ " \x7b " ++ ", ".intercalate (fields.map fun (field, text) => field ++ ": " ++ text) ++ " \x7d"

def Layout.describe (l : Layout) : String :=
  recordText "MemoryLayout" [("size", listText l.size), ("extent", listText l.extent),
    ("offset", listText l.offset), ("increment", listText l.stride), ("order", listText l.order)]

def Parameter.describe (p : Parameter) : String :=
  recordText "Parameter" [("name", Text.quoted p.name), ("ty", p.type.identifier),
    ("layout", p.layout.describe)]

def Declaration.describe {Body : Type} (d : Declaration Body) : String :=
  recordText "FunctionDeclaration" [("name", Text.quoted d.name), ("return_type", d.result.identifier),
    ("parameters", "[" ++ ", ".intercalate (d.parameters.map Parameter.describe) ++ "]"),
    ("defined", toString d.isDefined),
    ("intrinsic", match d.intrinsic? with
      | some f => "Some(" ++ f.identifier ++ ")"
      | none => "None")]

end Emission

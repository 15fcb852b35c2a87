import Emission.Declaration.Text

/-!
Settings of an emitting context, and the linkage of the functions it emits. Printing the emitted module can
be asked for in the environment, by any text that is not empty.
-/
namespace Emission

structure Settings where
  moduleName : String
  printsModule : Bool
deriving DecidableEq

namespace Settings

def ofName (moduleName : String) : Settings := ⟨moduleName, false⟩

/-- The settings under an environment whose variable holds the given text, if it is set. -/
def ofEnvironment (moduleName : String) (setting? : Option String) : Settings :=
  ⟨moduleName, setting?.any fun text => !text.isEmpty⟩

def describe (s : Settings) : String :=
  recordText "LlvmEmitterConfig" [("module_name", Text.quoted s.moduleName),
    ("debug_ir", toString s.printsModule)]

end Settings

inductive Linkage
  | external | internal
deriving DecidableEq

namespace Linkage

/-- Functions are visible outside their module unless said otherwise. -/
def standard : Linkage := external

def identifier : Linkage → String
  | external => "External"
  | internal => "Internal"

end Linkage

end Emission

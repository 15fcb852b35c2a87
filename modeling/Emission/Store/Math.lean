import Emission.Intrinsic.Template
import Emission.Store.Elementwise
import Emission.Store.Read

/-!
Evaluation of intrinsics. A call is checked against its template first. A reduction folds the elements of a
vector from the first on.
-/
namespace Emission

variable {Body : Type}

/-- The choice between two elements that a maximum or a minimum makes. -/
def Intrinsic.choose : Intrinsic → Datum → Datum → Datum
  | maxnum, a, b => a.max b
  | _, a, b => a.min b

/-- The elements of a vector, folded into one. -/
def Intrinsic.reduce (f : Intrinsic) (data : Data) : Except Failure Datum :=
  return (data.toList.drop 1).foldl f.choose (← data.load 0)

namespace Action

def evaluate (f : Intrinsic) (args : List Value) : Action Body Value := do
  let result ← f.template args
  let shape ← result.layout
  match f, args with
  | .maxnum, [v] | .minnum, [v] =>
    let d ← f.reduce (← reading (·.read v))
    tabulate result.type shape fun _ _ => .ok d
  | .maxnum, a :: b :: _ | .minnum, a :: b :: _ =>
    let x ← reading (·.fetch a [])
    let y ← reading (·.fetch b [])
    tabulate result.type shape fun _ _ => .ok (f.choose x y)
  | .pow, a :: b :: _ =>
    let exponent ← reading (·.fetch b [])
    tabulate result.type (← a.layout) fun s c => return (← s.fetch a c).pow exponent
  | _, a :: _ =>
    tabulate result.type (← a.layout) fun s c => return (← s.fetch a c).applyUnary f
  | _, [] => throw (.invalidArgument (.intrinsicCount f 0))

end Action

end Emission

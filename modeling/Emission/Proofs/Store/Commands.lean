import Emission.Proofs.Store.Calls
import Emission.Proofs.Store.History
import Emission.Proofs.Store.Naming
import Emission.Store.Branch

/-!
What can be asked of a context. A command is a request with all that it is given, but for the code that
loops, branches and functions run; that is handed in beside it. Most commands write nothing that was there
before, whatever they are given and however they end: they add buffers and slots, and at most one entry to
the table of names or of functions, under a key that was free. So in the course of such commands all that is
there stays there. Whether code that is handed in has been run can be told from outside: a command that runs
none ends in the same way whatever the code is.
-/
namespace Emission

variable {Body α : Type}

/-- A request to a context, with the type of its answer. -/
inductive Command (Body : Type) : Type → Type
  | allocate (type : ElementType) (l : Layout) : Command Body Value
  | allocateRow (type : ElementType) (length : Nat) : Command Body Value
  | allocateNamed (r : Request) : Command Body Value
  | typeOf (h : Handle) : Command Body ElementType
  | define (d : Declaration Body) (body : Body) : Command Body (Declaration Body)
  | storeConstant (c : Constant) : Command Body Value
  | loop (l : Layout) : Command Body Unit
  | move (source : Value) : Command Body (Value × Value)
  | copy (source destination : Value) : Command Body Unit
  | offset (v : Value) (i : Scalar) : Command Body Value
  | offsetAt (v : Value) (coordinates : List Scalar) : Command Body Value
  | negate (v : Value) : Command Body Value
  | arithmetic (op : Arithmetic) (v w : Value) : Command Body Value
  | compare (op : Comparison) (v w : Value) : Command Body Value
  | cast (v : Value) (type : ElementType) : Command Body Value
  | begin (test : Scalar) : Command Body Chain
  | elseIf (chain : Chain) (test : Scalar) : Command Body Chain
  | otherwise (chain : Chain) : Command Body Unit
  | call (d : Declaration Body) (args : List Value) : Command Body (Option Value)

/-- The code that is handed in with commands: what a round of a loop does, what a branch does, and what the
bodies of functions do. -/
structure Supplied (Body : Type) where
  round : List Scalar → Action Body Unit
  branch : Action Body Unit
  function : Body → List Value → Action Body (Option Value)

namespace Supplied

/-- Code that does nothing. -/
def idle : Supplied Body := ⟨fun _ => pure (), pure (), fun _ _ => pure none⟩

/-- Code that fails at once. -/
def failing (e : Failure) : Supplied Body := ⟨fun _ => throw e, throw e, fun _ _ => throw e⟩

end Supplied

namespace Command

def run (code : Supplied Body) : Command Body α → Action Body α
  | allocate type l => .allocate type l
  | allocateRow type length => .allocateRow type length
  | allocateNamed r => r.action
  | typeOf h => .reading (·.typeOf h)
  | define d body => .define d body
  | storeConstant c => .storeConstant c
  | loop l => forEach (fun x => x) l code.round
  | move source => liftM source.move
  | copy source destination => .copy source destination
  | offset v i => .offset v i
  | offsetAt v coordinates => .offsetAt v coordinates
  | negate v => .negate v
  | arithmetic op v w => .arithmetic op v w
  | compare op v w => .compare op v w
  | cast v type => .cast v type
  | begin test => Chain.begin (fun x => x) test code.branch
  | elseIf chain test => chain.elseIf (fun x => x) test code.branch
  | otherwise chain => chain.otherwise code.branch
  | call d args => .call code.function d args

/-- The command neither copies into storage that is there nor runs code that is handed in. -/
def IsAdditive : Command Body α → Prop
  | copy .. | loop _ | begin _ | elseIf .. | otherwise _ => False
  | call d _ => d.isIntrinsic
  | _ => True

/-- The request of a command for named storage. -/
def request? : Command Body α → Option Request
  | allocateNamed r => some r
  | _ => none

/-- What a command defines. -/
def definition? : Command Body α → Option (Declaration Body × Body)
  | define d body => some (d, body)
  | _ => none

/-- The command has only added to the store. A name is added by a request for it and a function by its
definition, and neither was there. -/
structure AddsTo (c : Command Body α) (s s' : Store Body) : Prop where
  buffers : ∃ bs, s'.buffers = s.buffers ++ bs
  slots : ∃ hs, s'.slots = s.slots ++ hs
  names : s'.names = s.names ∨ ∃ r v, c.request? = some r ∧ s.named? (r.key s) = none ∧
    s'.names = (r.key s, v) :: s.names
  functions : s'.functions = s.functions ∨ ∃ d body, c.definition? = some (d, body) ∧
    s.function? d.name = none ∧ s'.functions = (d.name, d.define body) :: s.functions
  calls : s'.calls = s.calls

end Command

open Emission.Store Emission.Action

namespace Command

variable {s s' : Store Body}

theorem adds_intrinsic {d : Declaration Body} (hd : d.isIntrinsic = true) (args : List Value)
    (eval : Body → List Value → Action Body (Option Value)) :
    Obeys Grows (Action.call eval d args) := by
  obtain ⟨f, hf⟩ := Option.isSome_iff_exists.mp hd
  rw [call_intrinsic eval hf]
  exact .bind (.lift _) fun _ => .bind (adds_evaluate f args) fun v => .pure (some v)

/-- The new state of a command that only adds: it has more buffers and slots, or also the name of one, or
one more function. -/
def Grown (c : Command Body α) (s s' : Store Body) : Prop :=
  s.Grows s' ∨
    (∃ r k, c.request? = some r ∧ s.named? (r.key s) = none ∧
      s' = s.withStorage (r.key s) k r.layout) ∨
    ∃ d body, c.definition? = some (d, body) ∧ s.function? d.name = none ∧
      s' = { s with functions := (d.name, d.define body) :: s.functions }

theorem grown_run (code : Supplied Body) (c : Command Body α) (hc : c.IsAdditive) (s : Store Body) :
    c.Grown s ((c.run code).exec s).2 := by
  cases c with
  | allocate type l => exact Or.inl (adds_allocate type l s)
  | allocateRow type length => exact Or.inl (adds_allocateRow type length s)
  | allocateNamed r =>
    show (allocateNamed r).Grown s (r.action.exec s).2
    rcases r.action_cases s with ⟨k, -, hfree, hexec⟩ | ⟨e, -, hsame⟩ | ⟨e, s', hexec, hs⟩
    · exact Or.inr (Or.inl ⟨r, k, rfl, hfree, by rw [hexec]⟩)
    · exact Or.inl (by rw [hsame]; exact .refl s)
    · exact Or.inl (by rw [hexec]; exact hs)
  | typeOf h => exact Or.inl (Obeys.reading _ s)
  | define d body =>
    show (define d body).Grown s ((Action.define d body).exec s).2
    by_cases h : s.Admits d
    · exact Or.inr (Or.inr ⟨d, body, rfl, h.2, by rw [exec_define_admitted h]⟩)
    · exact Or.inl (by rw [exec_define_refused h]; exact .refl s)
  | storeConstant c => exact Or.inl (adds_storeConstant c s)
  | move source => exact Or.inl (Obeys.lift _ s)
  | offset v i => exact Or.inl (adds_offset v i s)
  | offsetAt v coordinates => exact Or.inl (adds_offsetAt v coordinates s)
  | negate v => exact Or.inl (adds_negate v s)
  | arithmetic op v w => exact Or.inl (adds_arithmetic op v w s)
  | compare op v w => exact Or.inl (adds_compare op v w s)
  | cast v type => exact Or.inl (adds_cast v type s)
  | call d args => exact Or.inl (adds_intrinsic hc args code.function s)
  | loop _ | copy _ _ | begin _ | elseIf _ _ | otherwise _ => exact hc.elim

/-- Whatever a command is given and however it ends, unless it copies or runs code that is handed in, what
was in the store is there as before: buffers with their contents, slots, names, functions and running calls.
Only a request for named storage adds a name and only a definition a function, each under a key that was
free. -/
theorem additive_addsTo (code : Supplied Body) (c : Command Body α) (hc : c.IsAdditive)
    (s : Store Body) : c.AddsTo s ((c.run code).exec s).2 := by
  rcases grown_run code c hc s with ⟨bs, hs, hgrown⟩ | ⟨r, k, hr, hfree, hnew⟩ |
    ⟨d, body, hd, hfree, hnew⟩
  · rw [hgrown]
    exact ⟨⟨bs, rfl⟩, ⟨hs, rfl⟩, Or.inl rfl, Or.inl rfl, rfl⟩
  · rw [hnew]
    exact ⟨⟨#[_], rfl⟩, ⟨#[_], rfl⟩, Or.inr ⟨r, _, hr, hfree, rfl⟩, Or.inl rfl, rfl⟩
  · rw [hnew]
    exact ⟨⟨#[], Array.append_empty.symm⟩, ⟨#[], Array.append_empty.symm⟩, Or.inl rfl,
      Or.inr ⟨d, body, hd, hfree, rfl⟩, rfl⟩

/-- A division that fails at the second element has stored the first quotient in a buffer of its own. -/
theorem additive_addsTo_division :
    let bytes (x y : BitVec 8) : Data :=
      .ofList (.integer .byte) [.integer .byte x, .integer .byte y]
    let row (h : Nat) : Value :=
      ⟨.plain (.cell (.integer .byte)), some ⟨[⟨2, 2, 0, 1, 0⟩]⟩, some ⟨h⟩⟩
    let s : Store Unit := { (Store.empty : Store Unit) with
      buffers := #[bytes 6 6, bytes 2 0]
      slots := #[⟨0, 0⟩, ⟨1, 0⟩] }
    let c : Command Unit Value := .arithmetic .divide (row 0) (row 1)
    let s' := ((c.run .idle).exec s).2
    c.IsAdditive ∧ ((c.run .idle).exec s).1 = .error (.invalidArgument .divisionByZero) ∧
      s'.buffers.toList.map Data.cells =
        [(bytes 6 6).cells, (bytes 2 0).cells, (bytes 3 0).cells] ∧ c.AddsTo s s' := by
  intro bytes row s c s'
  exact ⟨trivial, rfl, by decide +kernel, additive_addsTo .idle c trivial s⟩

/-- Everything that is in the one store is in the other, as it was. -/
structure Accrues (s s' : Store Body) : Prop where
  buffers : ∃ bs, s'.buffers = s.buffers ++ bs
  slots : ∃ hs, s'.slots = s.slots ++ hs
  names : ∀ key v, s.named? key = some v → s'.named? key = some v
  functions : ∀ name d, s.function? name = some d → s'.function? name = some d
  calls : s'.calls = s.calls

/-- An entry under a key that was free hides no other one. -/
theorem lookup_cons_of_free {κ ν : Type} [BEq κ] [LawfulBEq κ] {entries : List (κ × ν)} {k k₀ : κ}
    {x x₀ : ν} (hfree : entries.lookup k₀ = none) (hx : entries.lookup k = some x) :
    ((k₀, x₀) :: entries).lookup k = some x := by
  have hne : (k == k₀) = false := by
    refine beq_eq_false_iff_ne.mpr fun heq => ?_
    rw [heq, hfree] at hx
    cases hx
  rw [List.lookup_cons, hne]
  exact hx

theorem Grown.accrues {c : Command Body α} (h : c.Grown s s') : Accrues s s' := by
  rcases h with ⟨bs, hs, rfl⟩ | ⟨r, k, -, hfree, rfl⟩ | ⟨d, body, -, hfree, rfl⟩
  · exact ⟨⟨bs, rfl⟩, ⟨hs, rfl⟩, fun _ _ hv => hv, fun _ _ hd => hd, rfl⟩
  · exact ⟨⟨#[_], rfl⟩, ⟨#[_], rfl⟩, fun _ _ hv => lookup_cons_of_free hfree hv,
      fun _ _ hd => hd, rfl⟩
  · exact ⟨⟨#[], Array.append_empty.symm⟩, ⟨#[], Array.append_empty.symm⟩, fun _ _ hv => hv,
      fun _ _ hd => lookup_cons_of_free hfree hd, rfl⟩

end Command

end Emission

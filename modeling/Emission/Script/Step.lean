import Emission.Activation
import Emission.Data
import Emission.Declaration.Basic
import Emission.Layout.Recipe
import Emission.Store.Basic

/-!
Scripts are programs over contexts. Their steps work on registers, which hold values. Most steps make one
value and put it into a register; the others observe, activate contexts, move data or control other steps.
The bodies of loops, conditionals and functions are steps as well.
-/
namespace Emission.Script

abbrev Register := String

/-- A register taken as a scalar or as a vector. -/
inductive Argument
  | scalar (r : Register)
  | vector (r : Register)

/-- An operation on the elements of an argument, with its right operand if it has one. -/
inductive Method
  | arithmetic (op : Arithmetic) (b : Argument)
  | compare (op : Comparison) (b : Argument)
  | negate
  | cast (type : ElementType)

/-- How a step makes its value. -/
inductive Maker
  | value (type : ElementType) (layout? : Option Recipe) (handle? : Option Handle)
  | copyOf (r : Register)
  | scalarOf (r : Register)
  | withLayout (r : Register) (layout : Recipe)
  | withHandle (r : Register) (handle : Handle)
  | released (r : Register)
  | allocate (type : ElementType) (layout : Recipe)
  | allocateRow (type : ElementType) (length : Nat)
  | allocateNamed (scope : Scope) (name : String) (type : ElementType) (layout : Recipe)
  | allocateGuarded (guard : String) (type : ElementType) (length : Nat)
  | store (constant : Constant)
  | scalarConstant (constant : Constant)
  | vectorConstant (constant : Constant)
  | offset (r index : Register)
  | offsetAt (r : Register) (coordinates : List Register)
  | calculateOffset (layout : Recipe) (coordinates : List Register)
  | element (vector index : Register)
  | negate (r : Register)
  | arithmetic (op : Arithmetic) (a b : Register)
  | compare (op : Comparison) (a b : Register)
  | cast (r : Register) (type : ElementType)
  | elementwise (method : Method) (a : Argument)
  | math (f : Intrinsic) (a : Argument) (b? : Option Register)

/-- What a step finds out. -/
inductive Question
  | read (r : Register) (context? : Option String)
  | buffer (r : Register) (context? : Option String)
  | inspect (r : Register)
  | same (a b : Register)
  | typeOfHandle (handle : Handle)
  | typeOf (r : Register)
  | mark (text : String)
  | failure (f : Failure)
  | isActive
  | intrinsics

/-- Where a declaration gets its name from. -/
inductive Origin
  | name (name : String)
  | intrinsic (f : Intrinsic)

inductive Step
  | make (maker : Maker) (to? : Option Register)
  | ask (question : Question)
  | asVector (r : Register) (to? : Option Register)
  | activate (context guard : String) (muted : Bool)
  | deactivate (guard : String)
  | copy (source destination : Register)
  | move (source destination : Register)
  | forEach (layout : Recipe) (indices : List Register) (body : List Step)
  | conditional (test : Register) (body : List Step) (others : List (Register × List Step))
      (otherwise? : Option (List Step))
  | declare (id : String) (origin : Origin) (result? : Option ElementType)
      (parameters : List (String × ElementType × Recipe))
  | define (id : String) (body : List Step) (result? : Option Register) (to? : Option String)
  | call (id : String) (args : List Register) (to? : Option Register)
  | attempt (step : Step)

/-- What a script's function definition consists of. -/
structure Body where
  parameters : List Register
  steps : List Step
  result? : Option Register

/-- The contexts of a program have names. Without any there is one, and it is active from the start. -/
structure Program where
  contexts? : Option (List String)
  steps : List Step

end Emission.Script

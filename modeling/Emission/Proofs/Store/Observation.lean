import Emission.Proofs.Store.Execution

/-!
Watching what code is run. A loop or a chain of conditions runs code that is handed in. Here that code notes each
visit, with what it is given and the state in which it is entered, before it does anything. It may act on the
visits that were made before, so it can be code with a memory of its own, and it may do anything to the state.
If it does not look at them, watching it changes neither the outcome nor the state.
-/
namespace Emission

variable {Body ι α β : Type}

/-- One run of the code: what it is given, and the state at the start. -/
structure Visit (Body ι : Type) where
  given : ι
  state : Store Body

/-- Computations over a context that keep the visits made so far, the earliest first. -/
abbrev Watched (Body ι : Type) : Type → Type :=
  ExceptT Failure (StateM (Store Body × List (Visit Body ι)))

namespace Watched

/-- The outcome of a computation, the state after it and all visits up to then. -/
def exec (x : Watched Body ι α) (t : Store Body × List (Visit Body ι)) :
    Except Failure α × Store Body × List (Visit Body ι) :=
  (ExceptT.run x).run t

/-- An action that is no visit. -/
def lift (x : Action Body α) : Watched Body ι α :=
  ExceptT.mk fun (s, visits) => ((x.exec s).1, (x.exec s).2, visits)

/-- A visit of code that knows the earlier ones. -/
def visit (code : List (Visit Body ι) → ι → Action Body α) (given : ι) : Watched Body ι α :=
  ExceptT.mk fun (s, visits) =>
    (((code visits given).exec s).1, ((code visits given).exec s).2, visits ++ [⟨given, s⟩])

variable (s : Store Body) (visits : List (Visit Body ι))

@[simp] theorem exec_pure (a : α) :
    (pure a : Watched Body ι α).exec (s, visits) = (.ok a, s, visits) := rfl

theorem exec_bind (x : Watched Body ι α) (f : α → Watched Body ι β)
    (t : Store Body × List (Visit Body ι)) : (x >>= f).exec t = match x.exec t with
      | (.ok a, t') => (f a).exec t'
      | (.error e, t') => (.error e, t') := by
  simp only [exec, ExceptT.run, bind, ExceptT.bind, ExceptT.mk, StateT.bind, StateT.run]
  rcases x t with ⟨_ | _, _⟩ <;> rfl

theorem exec_lift (x : Action Body α) : (lift x : Watched Body ι α).exec (s, visits) =
    ((x.exec s).1, (x.exec s).2, visits) := rfl

theorem exec_visit (code : List (Visit Body ι) → ι → Action Body α) (given : ι) :
    (visit code given).exec (s, visits) = (((code visits given).exec s).1,
      ((code visits given).exec s).2, visits ++ [⟨given, s⟩]) := rfl

/-- Whatever visits came before, the computation ends as the action does. -/
def Erases (x : Watched Body ι α) (y : Action Body α) : Prop :=
  ∀ s visits, y.exec s = ((x.exec (s, visits)).1, (x.exec (s, visits)).2.1)

namespace Erases

theorem pure (a : α) : Erases (pure a : Watched Body ι α) (pure a) := fun _ _ => rfl

theorem lift (x : Action Body α) : Erases (lift x : Watched Body ι α) x := fun _ _ => rfl

/-- Code that ignores the earlier visits. -/
theorem visit (body : ι → Action Body α) (given : ι) :
    Erases (visit (fun _ => body) given) (body given) := fun _ _ => rfl

theorem bind {x : Watched Body ι α} {y : Action Body α} {f : α → Watched Body ι β}
    {g : α → Action Body β} (hx : Erases x y) (hf : ∀ a, Erases (f a) (g a)) :
    Erases (x >>= f) (y >>= g) := by
  intro s visits
  rw [Action.exec_bind, exec_bind, hx s visits]
  rcases x.exec (s, visits) with ⟨e | a, s', visits'⟩
  · rfl
  · exact hf a s' visits'

theorem foldlM {γ : Type} {f : β → γ → Watched Body ι β} {g : β → γ → Action Body β}
    (hf : ∀ b c, Erases (f b c) (g b c)) (cs : List γ) (b : β) :
    Erases (cs.foldlM f b) (cs.foldlM g b) := by
  induction cs generalizing b with
  | nil => exact pure b
  | cons c cs ih =>
    rw [List.foldlM_cons, List.foldlM_cons]
    exact bind (hf b c) ih

end Erases

end Watched

end Emission

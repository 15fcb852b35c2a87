import Emission.Proofs.Store.Commands
import Mathlib.Data.List.Induction
import Mathlib.Logic.Relation

/-!
Code over a context. A procedure is written out as a tree: what it asks for, what it hands to its commands to be
run in their course, how it goes on after an answer and how after a failure. So it can be said where control
comes to, in the body of which function and at which state. A relation between states that holds for whatever
only adds to the store, and that may be drawn around a call, holds for the run of a procedure if it holds for
each copy that control comes to.
-/
namespace Emission

open Emission.Store Emission.Action

variable {Body α β : Type}

/-- Code over a context. Commands are given the code for their rounds, their branch and the bodies of functions,
though few of them run any. -/
inductive Procedure (Body : Type) : Type → Type 1
  | done {α : Type} (a : α) : Procedure Body α
  | fail {α : Type} (e : Failure) : Procedure Body α
  | bind {α β : Type} (x : Procedure Body α) (f : α → Procedure Body β) : Procedure Body β
  | attempt {α : Type} (x : Procedure Body α) (recover : Failure → Procedure Body α) : Procedure Body α
  | look {α : Type} (f : Store Body → Except Failure α) : Procedure Body α
  | request {α : Type} (c : Command Body α) (round : List Scalar → Procedure Body Unit)
      (branch : Procedure Body Unit) (function : Body → List Value → Procedure Body (Option Value)) :
      Procedure Body α

namespace Procedure

def run : {α : Type} → Procedure Body α → Action Body α
  | _, done a => pure a
  | _, fail e => throw e
  | _, bind x f => x.run >>= fun a => (f a).run
  | _, attempt x recover => tryCatchThe Failure x.run fun e => (recover e).run
  | _, look f => .reading f
  | _, request c round branch function =>
    c.run ⟨fun as => (round as).run, branch.run, fun body vs => (function body vs).run⟩

/-- The code that goes with a command. -/
def supplied (round : List Scalar → Procedure Body Unit) (branch : Procedure Body Unit)
    (function : Body → List Value → Procedure Body (Option Value)) : Supplied Body :=
  ⟨fun as => (round as).run, branch.run, fun body vs => (function body vs).run⟩

theorem run_request (c : Command Body α) (round : List Scalar → Procedure Body Unit)
    (branch : Procedure Body Unit) (function : Body → List Value → Procedure Body (Option Value)) :
    (request c round branch function).run = c.run (supplied round branch function) := rfl

/-- A command that is given no code to run. -/
def ask (c : Command Body α) : Procedure Body α := request c (fun _ => done ()) (done ()) fun _ _ => done none

/-- A call with the code of the bodies. -/
def call (function : Body → List Value → Procedure Body (Option Value)) (d : Declaration Body)
    (args : List Value) : Procedure Body (Option Value) :=
  request (.call d args) (fun _ => done ()) (done ()) function

end Procedure

namespace Action

variable {s s' : Store Body}

section Rounds

variable {round : List Scalar → Action Body Unit}

/-- The rounds of a loop for some coordinates one after another. -/
def rounds (round : List Scalar → Action Body Unit) (cs : List (List Nat)) : Action Body Unit :=
  cs.foldlM (fun _ c => indexScalars c >>= round) ()

theorem forEach_eq_rounds (l : Layout) : forEach (fun x => x) l round =
    if l.numElements = 0 then pure () else rounds round l.coordinates := by
  unfold forEach
  rw [Layout.foldCoordinatesM_eq]
  rfl

theorem rounds_concat (cs : List (List Nat)) (c : List Nat) :
    rounds round (cs ++ [c]) = rounds round cs >>= fun _ => indexScalars c >>= round := by
  simp [rounds, List.foldlM_append]

/-- What holds for each round from the state to which the earlier ones have led holds for all of them. -/
theorem state_rounds {R : Store Body → Store Body → Prop} [Std.Refl R] [IsTrans _ R]
    {cs : List (List Nat)} (hround : ∀ past c s', past ++ [c] <+: cs →
      (rounds round past).exec s = (.ok (), s') → R s' ((indexScalars c >>= round).exec s').2) :
    R s ((rounds round cs).exec s).2 := by
  have hrounds : ∀ past, past <+: cs → R s ((rounds round past).exec s).2 := by
    intro past hpast
    induction past using List.reverseRecOn with
    | nil => exact refl_of R s
    | append_singleton past c ih =>
      rw [rounds_concat]
      refine state_bind (ih ((List.prefix_append past [c]).trans hpast)) fun u s' hexec hs => ?_
      exact trans_of R hs (hround past c s' hpast hexec)
  exact hrounds cs List.prefix_rfl

end Rounds

end Action

namespace Command

/-- The test can be made and holds. -/
def Passes (s : Store Body) (test : Scalar) : Prop :=
  checkTest test = .ok () ∧ ∃ d, s.element test = .ok d ∧ d.toBool = true

/-- The command runs its branch. -/
def TakesBranch (s : Store Body) : Command Body α → Prop
  | begin test => Passes s test
  | elseIf chain test => chain.taken = false ∧ Passes s test
  | otherwise chain => chain.taken = false
  | _ => False

/-- The command has a branch. -/
def IsBranching : Command Body α → Prop
  | begin _ | elseIf .. | otherwise _ => True
  | _ => False

/-- The command runs code that goes with it. -/
def RunsCode : Command Body α → Prop
  | loop _ | begin _ | elseIf .. | otherwise _ => True
  | call d _ => d.intrinsic? = none
  | _ => False

/-- A branch that is run if a test holds. -/
def testBranch (test : Scalar) (branch : Action Body Unit) : Action Body Chain := do
  liftM (checkTest test)
  let taken ← readTest test
  if taken then branch
  return ⟨taken⟩

theorem state_testBranch (test : Scalar) (branch : Action Body Unit) (s : Store Body) :
    ((testBranch test branch).exec s).2 = s ∨
      Passes s test ∧ ((testBranch test branch).exec s).2 = (branch.exec s).2 := by
  unfold testBranch readTest
  simp only [exec_bind, exec_lift, exec_reading]
  cases htest : checkTest test with
  | error e => exact Or.inl rfl
  | ok u =>
    simp only
    cases helement : s.element test with
    | error e => exact Or.inl rfl
    | ok d =>
      simp only [ok_bind, pure_eq_ok]
      cases hd : d.toBool with
      | false => exact Or.inl rfl
      | true =>
        refine Or.inr ⟨⟨htest, d, helement, hd⟩, ?_⟩
        simp only [if_true, exec_bind]
        rcases branch.exec s with ⟨e | u, s'⟩ <;> rfl

/-- Tests change nothing, so a branch is entered in the state in which its command is given. -/
theorem state_branch (code : Supplied Body) {c : Command Body α} (hc : c.IsBranching) (s : Store Body) :
    ((c.run code).exec s).2 = s ∨
      c.TakesBranch s ∧ ((c.run code).exec s).2 = (code.branch.exec s).2 := by
  cases c with
  | begin test => exact state_testBranch test code.branch s
  | elseIf chain test =>
    show ((chain.elseIf (fun x => x) test code.branch).exec s).2 = s ∨
      (chain.taken = false ∧ Passes s test) ∧
        ((chain.elseIf (fun x => x) test code.branch).exec s).2 = (code.branch.exec s).2
    cases htaken : chain.taken with
    | true =>
      refine Or.inl ?_
      simp only [Chain.elseIf, htaken, if_true, exec_bind, exec_lift]
      cases checkTest test <;> rfl
    | false =>
      have hrun : chain.elseIf (fun x => x) test code.branch = testBranch test code.branch := by
        simp only [Chain.elseIf, htaken, Bool.false_eq_true, if_false]
        rfl
      rw [hrun]
      exact (state_testBranch test code.branch s).imp_right fun h => ⟨⟨rfl, h.1⟩, h.2⟩
  | otherwise chain =>
    obtain ⟨taken⟩ := chain
    cases taken with
    | true => exact Or.inl rfl
    | false => exact Or.inr ⟨rfl, rfl⟩
  | _ => exact hc.elim

end Command

/-- Where control is: before some code, in the bodies of some functions, the innermost of them first, and at
some state. -/
structure Point (Body : Type) where
  {Result : Type}
  code : Procedure Body Result
  functions : List String
  state : Store Body

namespace Point

/-- Control comes from some code to a part of it, or into the body of a function that it calls. -/
inductive Enters : Point Body → Point Body → Prop
  | first {α β : Type} {x : Procedure Body α} {f : α → Procedure Body β} {fs : List String}
      {s : Store Body} : Enters ⟨.bind x f, fs, s⟩ ⟨x, fs, s⟩
  | next {α β : Type} {x : Procedure Body α} {f : α → Procedure Body β} {fs : List String}
      {s s' : Store Body} {a : α} : x.run.exec s = (.ok a, s') →
      Enters ⟨.bind x f, fs, s⟩ ⟨f a, fs, s'⟩
  | tried {α : Type} {x : Procedure Body α} {recover : Failure → Procedure Body α} {fs : List String}
      {s : Store Body} : Enters ⟨.attempt x recover, fs, s⟩ ⟨x, fs, s⟩
  | recovered {α : Type} {x : Procedure Body α} {recover : Failure → Procedure Body α}
      {fs : List String} {s s' : Store Body} {e : Failure} : x.run.exec s = (.error e, s') →
      Enters ⟨.attempt x recover, fs, s⟩ ⟨recover e, fs, s'⟩
  -- a round starts when the earlier ones have succeeded and its indexes have been made
  | round {l : Layout} {round : List Scalar → Procedure Body Unit} {branch : Procedure Body Unit}
      {function : Body → List Value → Procedure Body (Option Value)} {fs : List String}
      {s s₁ s₂ : Store Body} {past : List (List Nat)} {c : List Nat} {as : List Scalar} :
      l.numElements ≠ 0 → past ++ [c] <+: l.coordinates →
      (rounds (fun as => (round as).run) past).exec s = (.ok (), s₁) →
      (indexScalars c).exec s₁ = (.ok as, s₂) →
      Enters ⟨.request (.loop l) round branch function, fs, s⟩ ⟨round as, fs, s₂⟩
  | branch {α : Type} {c : Command Body α} {round : List Scalar → Procedure Body Unit}
      {branch : Procedure Body Unit} {function : Body → List Value → Procedure Body (Option Value)}
      {fs : List String} {s : Store Body} : c.TakesBranch s →
      Enters ⟨.request c round branch function, fs, s⟩ ⟨branch, fs, s⟩
  -- a body starts when its arguments have been bound
  | body {d d' : Declaration Body} {args vs : List Value} {body : Body}
      {round : List Scalar → Procedure Body Unit} {branch : Procedure Body Unit}
      {function : Body → List Value → Procedure Body (Option Value)} {fs : List String}
      {s s' : Store Body} : d.intrinsic? = none →
      (d.prepare args).exec s = (.ok (d', body, vs), s') →
      Enters ⟨.request (.call d args) round branch function, fs, s⟩
        ⟨function body vs, d.name :: fs, { s' with calls := d'.name :: s'.calls }⟩

/-- Only from a command that runs code does control come to another point. -/
theorem Enters.runsCode {α : Type} {c : Command Body α} {round : List Scalar → Procedure Body Unit}
    {branch : Procedure Body Unit} {function : Body → List Value → Procedure Body (Option Value)}
    {fs : List String} {s : Store Body} {b : Point Body}
    (h : Enters ⟨.request c round branch function, fs, s⟩ b) : c.RunsCode := by
  cases h with
  | round => trivial
  | branch htakes =>
    cases c with
    | begin _ | elseIf _ _ | otherwise _ => trivial
    | _ => exact htakes.elim
  | body hd => exact hd

/-- Control comes from the one point to the other in the course of the first one's code. -/
abbrev Reaches : Point Body → Point Body → Prop := Relation.ReflTransGen Enters

/-- The relation holds for every copy that control comes to. -/
def CopiesObey (R : Store Body → Store Body → Prop) (a : Point Body) : Prop :=
  ∀ source destination round branch function fs s,
    Reaches a ⟨.request (.copy source destination) round branch function, fs, s⟩ →
    R s ((Action.copy source destination).exec s).2

theorem CopiesObey.enter {R : Store Body → Store Body → Prop} {a b : Point Body}
    (ha : CopiesObey R a) (h : Enters a b) : CopiesObey R b :=
  fun v w round branch function fs s hb => ha v w round branch function fs s (.head h hb)

end Point

/-- The relation holds for whatever only adds to a store, and if it holds for the run of a body from its entrance
on, it does for the whole stay in the body's function. -/
structure Frames (R : Store Body → Store Body → Prop) : Prop where
  grown : ∀ {α : Type} {c : Command Body α} {s s' : Store Body}, c.Grown s s' → R s s'
  within : ∀ (name : String) {s s' : Store Body}, R { s with calls := name :: s.calls } s' →
    R s { s' with calls := s'.calls.tail }

namespace Frames

variable {R : Store Body → Store Body → Prop}

theorem grows (hR : Frames R) {s s' : Store Body} (h : s.Grows s') : R s s' :=
  hR.grown (c := .storeConstant (.single .boolean (.boolean false))) (Or.inl h)

variable [IsTrans _ R]

/-- A body starts where its arguments have been bound. -/
theorem call (hR : Frames R) (eval : Body → List Value → Action Body (Option Value))
    {d : Declaration Body} (hd : d.intrinsic? = none) (args : List Value) (s : Store Body)
    (hbody : ∀ d' body vs s', (d.prepare args).exec s = (.ok (d', body, vs), s') →
      R { s' with calls := d'.name :: s'.calls }
        ((eval body vs).exec { s' with calls := d'.name :: s'.calls }).2) :
    R s ((Action.call eval d args).exec s).2 := by
  have hgrows := adds_prepare d args s
  rw [exec_call eval hd]
  rcases hprepare : (d.prepare args).exec s with ⟨e | ⟨d', body, vs⟩, s'⟩
  · rw [hprepare] at hgrows
    exact hR.grows hgrows
  · rw [hprepare] at hgrows
    have hwithin := hR.within d'.name (hbody d' body vs s' hprepare)
    exact trans_of R (hR.grows hgrows) hwithin

variable [Std.Refl R]

/-- What holds for every copy that control comes to holds for the run. -/
theorem run (hR : Frames R) (p : Procedure Body α) (fs : List String) (s : Store Body)
    (hcopies : Point.CopiesObey R ⟨p, fs, s⟩) : R s (p.run.exec s).2 := by
  -- each part of the code is run from a point that control comes to
  induction p generalizing fs s with
  | done a => exact refl_of R s
  | fail e => exact refl_of R s
  | bind x f ihx ihf =>
    refine state_bind (ihx fs s (hcopies.enter .first)) fun a s' hexec hs => trans_of R hs ?_
    exact ihf a fs s' (hcopies.enter (.next hexec))
  | attempt x recover ihx ihr =>
    have hx := ihx fs s (hcopies.enter .tried)
    show R s ((tryCatchThe Failure x.run fun e => (recover e).run).exec s).2
    rw [exec_tryCatch]
    rcases hexec : x.run.exec s with ⟨e | a, s'⟩
    · rw [hexec] at hx
      exact trans_of R hx (ihr e fs s' (hcopies.enter (.recovered hexec)))
    · rw [hexec] at hx
      exact hx
  | look f => exact Obeys.reading f s
  | request c round branch function ihround ihbranch ihfunction =>
    rw [Procedure.run_request]
    have hbranch : c.IsBranching →
        R s ((c.run (Procedure.supplied round branch function)).exec s).2 := by
      intro hc
      rcases c.state_branch _ hc s with hsame | ⟨htakes, hrun⟩
      · rw [hsame]
        exact refl_of R s
      · rw [hrun]
        exact ihbranch fs s (hcopies.enter (.branch htakes))
    by_cases hc : c.IsAdditive
    · exact hR.grown (c.grown_run _ hc s)
    · cases c with
      | copy v w => exact hcopies v w round branch function fs s .refl
      | loop l =>
        show R s ((forEach (fun x => x) l fun as => (round as).run).exec s).2
        rw [forEach_eq_rounds]
        split
        · exact refl_of R s
        · next hl =>
          refine state_rounds fun past c s₁ hpast hexec => ?_
          refine state_bind (hR.grows (adds_indexScalars c s₁)) fun as s₂ hindex hs₂ => ?_
          exact trans_of R hs₂ (ihround as fs s₂ (hcopies.enter (.round hl hpast hexec hindex)))
      | begin _ | elseIf _ _ | otherwise _ => exact hbranch trivial
      | call d args =>
        have hd : d.intrinsic? = none := Option.not_isSome_iff_eq_none.mp hc
        refine hR.call _ hd args s fun d' body vs s' hprepare => ?_
        exact ihfunction body vs (d.name :: fs) _ (hcopies.enter (.body hd hprepare))
      | _ => exact absurd trivial hc

section Steps

variable (hR : Frames R) (hcopy : ∀ source destination, Obeys R (Action.copy source destination))
include hR hcopy

theorem obeys (p : Procedure Body α) : Obeys R p.run :=
  fun s => hR.run p [] s fun v w _ _ _ _ s' _ => hcopy v w s'

theorem rounds (round : List Scalar → Procedure Body Unit) (cs : List (List Nat)) :
    Obeys R (Action.rounds (fun as => (round as).run) cs) := by
  intro s
  refine state_rounds fun past c s' _ _ => ?_
  exact Obeys.bind (fun s => hR.grows (adds_indexScalars c s)) (fun as => hR.obeys hcopy (round as)) s'

/-- Control stays in the same functions, or comes into the body registered under a name, when its arguments
have been bound. -/
theorem enter {a b : Point Body} (h : Point.Enters a b) :
    b.functions = a.functions ∧ R a.state b.state ∨
      ∃ name d body s, a.state.definition name = .ok (d, body) ∧ R a.state s ∧
        b.functions = name :: a.functions ∧ b.state = { s with calls := d.name :: s.calls } := by
  cases h with
  | first | tried | branch _ => exact Or.inl ⟨rfl, refl_of R _⟩
  | @next _ _ x _ _ s _ _ hexec =>
    have hs := hR.obeys hcopy x s
    rw [hexec] at hs
    exact Or.inl ⟨rfl, hs⟩
  | @recovered _ x _ _ s _ _ hexec =>
    have hs := hR.obeys hcopy x s
    rw [hexec] at hs
    exact Or.inl ⟨rfl, hs⟩
  | @round l round _ _ _ s s₁ s₂ past c _ _ _ hpast hindex =>
    have hs₁ := hR.rounds hcopy round past s
    have hs₂ := hR.grows (adds_indexScalars c s₁)
    rw [hpast] at hs₁
    rw [hindex] at hs₂
    exact Or.inl ⟨rfl, trans_of R hs₁ hs₂⟩
  | @body d d' args _ body _ _ _ _ s s' hd hprepare =>
    have hs := hR.grows (adds_prepare d args s)
    rw [hprepare] at hs
    exact Or.inr ⟨d.name, d', body, s', (passed_of_prepare hd hprepare).1, hs, rfl, rfl⟩

end Steps

end Frames

end Emission

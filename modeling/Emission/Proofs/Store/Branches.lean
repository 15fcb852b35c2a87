import Emission.Proofs.Store.Observation
import Emission.Store.Branch

/-!
Which branch of a chain runs. Each test is made when its link is reached, by an action that may itself change the
state, and until one holds nothing else is done. The body of the first that holds is the only one that runs; the
tests after it are still made and checked to be defined booleans, but what they hold by then does not matter.
-/
namespace Emission

variable {Body : Type}

/-- What a test says in a state, if it can be made and read. -/
def Store.answer (s : Store Body) (test : Scalar) : Except Failure Bool := do
  checkTest test
  return (← s.element test).toBool

theorem checkTest_fails_iff (test : Scalar) :
    (∃ e, checkTest test = .error e) ↔ test.base ≠ .boolean ∨ test.value.isDefined = false := by
  unfold checkTest Value.ensureDefined
  by_cases hbase : test.base = .boolean
  · by_cases hdefined : test.value.isDefined = true
    · simp [hbase, hdefined]
    · simp [hbase, hdefined]
  · simp [hbase]

/-- One after the other the tests are made, and say no; this takes the state from the first to the second. -/
def Store.Passes (s : Store Body) : List (Action Body Scalar) → Store Body → Prop
  | [], s' => s' = s
  | make :: makes, s' => ∃ t s₁, make.exec s = (.ok t, s₁) ∧ s₁.answer t = .ok false ∧
    s₁.Passes makes s'

/-- Scalars that are there already take nothing to make. -/
theorem Store.passes_pure {s s' : Store Body} {tests : List Scalar} :
    s.Passes (tests.map pure) s' ↔ s' = s ∧ ∀ u ∈ tests, s.answer u = .ok false := by
  induction tests with
  | nil => simp [Passes]
  | cons u tests ih =>
    rw [List.map_cons, Passes, List.forall_mem_cons]
    constructor
    · rintro ⟨_, _, hmake, hu, hrest⟩
      cases hmake
      obtain ⟨hs, htests⟩ := ih.mp hrest
      exact ⟨hs, hu, htests⟩
    · rintro ⟨hs, hu, htests⟩
      exact ⟨u, s, rfl, hu, ih.mpr ⟨hs, htests⟩⟩

/-- All that is done with a test once a branch has been taken. -/
def Action.checkMade (make : Action Body Scalar) : Action Body Unit := do
  checkTest (← make)

section Chains

variable {m : Type → Type} [Monad m] (lift : ∀ {α : Type}, Action Body α → m α)

/-- Tests with the bodies of their numbers. -/
def numbered (body : Nat → m Unit) : Nat → List (Action Body Scalar) → List (m Scalar × m Unit)
  | _, [] => []
  | i, make :: makes => (lift make, body i) :: numbered body (i + 1) makes

/-- The chain over some tests, the first body being number 0. It may be closed with a body without a test. -/
def chainOf (body : Nat → m Unit) (test : Scalar) (makes : List (Action Body Scalar))
    (closed : Bool) : m Unit :=
  conditional lift test (body 0) (numbered lift body 1 makes)
    (if closed then some (body (makes.length + 1)) else none)

/-- The end of a chain. -/
def Chain.close (chain : Chain) (last? : Option (m Unit)) : m Unit :=
  match last? with
  | some body => chain.otherwise body
  | none => pure ()

theorem begin_eq_elseIf (test : Scalar) (body : m Unit) :
    Chain.begin lift test body = Chain.elseIf lift ⟨false⟩ test body := by
  unfold Chain.begin Chain.elseIf
  simp only [Bool.false_eq_true, if_false]

/-- A chain is made link by link from one of which no branch is taken. -/
theorem conditional_eq [LawfulMonad m] (test : Scalar) (body : m Unit)
    (others : List (m Scalar × m Unit)) (last? : Option (m Unit)) :
    conditional lift test body others last? = (do
      let chain ← Chain.elseIfs lift ⟨false⟩ ((pure test, body) :: others)
      chain.close last?) := by
  unfold conditional
  rw [begin_eq_elseIf]
  cases last? with
  | none => simp only [Chain.elseIfs, Chain.close, pure_bind, bind_assoc]
  | some last => simp only [Chain.elseIfs, Chain.close, pure_bind, bind_assoc]

end Chains

namespace Watched

variable (code : List (Visit Body Nat) → Nat → Action Body Unit) (s : Store Body)
  (visits : List (Visit Body Nat))

theorem exec_elseIf_taken (test : Scalar) (body : Watched Body Nat Unit) :
    (Chain.elseIf lift ⟨true⟩ test body).exec (s, visits) =
      ((checkTest test).map fun _ => ⟨true⟩, s, visits) := by
  unfold Chain.elseIf
  rw [exec_bind, exec_lift, Action.exec_lift]
  cases checkTest test <;> rfl

theorem exec_elseIf_open (test : Scalar) (i : Nat) :
    (Chain.elseIf lift ⟨false⟩ test (visit code i)).exec (s, visits) = match s.answer test with
      | .error e => (.error e, s, visits)
      | .ok false => (.ok ⟨false⟩, s, visits)
      | .ok true => ((((code visits i).exec s).1).map fun _ => ⟨true⟩, ((code visits i).exec s).2,
          visits ++ [⟨i, s⟩]) := by
  unfold Chain.elseIf Store.answer Action.readTest
  rw [exec_bind, exec_lift, Action.exec_lift]
  cases checkTest test with
  | error e => rfl
  | ok u =>
    simp only [Bool.false_eq_true, if_false, exec_bind, exec_lift, Action.exec_reading, ok_bind]
    cases s.element test with
    | error e => rfl
    | ok d =>
      simp only [ok_bind, pure_eq_ok]
      cases d.toBool with
      | false => rfl
      | true =>
        simp only [if_true, exec_bind, exec_visit]
        rcases (code visits i).exec s with ⟨e | u, s₁⟩ <;> rfl

/-- Once a branch is taken the other tests are only made and checked. -/
theorem exec_elseIfs_taken (makes : List (Action Body Scalar)) (i : Nat) :
    (Chain.elseIfs lift ⟨true⟩ (numbered lift (visit code) i makes)).exec (s, visits) =
      (((makes.forM Action.checkMade).exec s).1.map fun _ => ⟨true⟩,
        ((makes.forM Action.checkMade).exec s).2, visits) := by
  induction makes generalizing s i with
  | nil => rfl
  | cons make makes ih =>
    rw [List.forM_eq_forM, List.forM_cons, numbered, Chain.elseIfs, exec_bind, exec_lift,
      Action.checkMade, bind_assoc, Action.exec_bind]
    rcases make.exec s with ⟨e | t, s₁⟩
    · rfl
    · simp only [exec_bind, exec_elseIf_taken, Action.exec_bind, Action.exec_lift]
      cases checkTest t with
      | error e => rfl
      | ok u => exact ih s₁ (i + 1)

variable {s} {s₁ : Store Body}

/-- Tests that do not hold are passed over. -/
theorem exec_elseIfs_append {before : List (Action Body Scalar)} (hbefore : s.Passes before s₁)
    (after : List (Action Body Scalar)) (i : Nat) :
    (Chain.elseIfs lift ⟨false⟩ (numbered lift (visit code) i (before ++ after))).exec (s, visits) =
      (Chain.elseIfs lift ⟨false⟩ (numbered lift (visit code) (i + before.length) after)).exec
        (s₁, visits) := by
  induction before generalizing s i with
  | nil =>
    obtain rfl := hbefore
    rfl
  | cons make before ih =>
    obtain ⟨t, s', hmake, ht, hbefore⟩ := hbefore
    rw [List.cons_append, numbered, Chain.elseIfs, exec_bind, exec_lift, hmake]
    simp only [exec_bind, exec_elseIf_open, ht]
    rw [List.length_cons, show i + (before.length + 1) = i + 1 + before.length by omega]
    exact ih hbefore (i + 1)

section Runs

variable {s₂ : Store Body} {test t : Scalar} {make : Action Body Scalar}
  {makes before after : List (Action Body Scalar)} {e : Failure}

/-- A chain goes on from its first test that does not just say no. -/
theorem exec_chainOf (hsplit : pure test :: makes = before ++ after) (hbefore : s.Passes before s₁)
    (closed : Bool) : (chainOf lift (visit code) test makes closed).exec (s, []) =
      (Chain.elseIfs lift ⟨false⟩ (numbered lift (visit code) before.length after) >>= fun chain =>
        chain.close (if closed then some (visit code (makes.length + 1)) else none)).exec
          (s₁, []) := by
  have hlinks : (pure test, visit code 0) :: numbered lift (visit code) 1 makes =
      numbered lift (visit code) 0 (before ++ after) := by
    rw [← hsplit]
    rfl
  have hskip := exec_elseIfs_append code [] hbefore after 0
  rw [Nat.zero_add] at hskip
  rw [chainOf, conditional_eq, hlinks, exec_bind, exec_bind, hskip]

theorem exec_chainOf_unmade (hsplit : pure test :: makes = before ++ make :: after)
    (hbefore : s.Passes before s₁) (hmake : make.exec s₁ = (.error e, s₂)) (closed : Bool) :
    (chainOf lift (visit code) test makes closed).exec (s, []) = (.error e, s₂, []) := by
  rw [exec_chainOf code hsplit hbefore, numbered, Chain.elseIfs, exec_bind, exec_bind, exec_lift,
    hmake]

/-- The first link of which the test is made and does not say no decides about the chain. -/
theorem exec_chainOf_made (hsplit : pure test :: makes = before ++ make :: after)
    (hbefore : s.Passes before s₁) (hmake : make.exec s₁ = (.ok t, s₂)) (closed : Bool) :
    (chainOf lift (visit code) test makes closed).exec (s, []) =
      (Chain.elseIf lift ⟨false⟩ t (visit code before.length) >>= fun chain =>
        chain.elseIfs lift (numbered lift (visit code) (before.length + 1) after) >>= fun chain =>
          chain.close (if closed then some (visit code (makes.length + 1)) else none)).exec
            (s₂, []) := by
  rw [exec_chainOf code hsplit hbefore, numbered, Chain.elseIfs, bind_assoc, exec_bind, exec_lift,
    hmake]
  simp only [bind_assoc]

theorem exec_chainOf_failed (hsplit : pure test :: makes = before ++ make :: after)
    (hbefore : s.Passes before s₁) (hmake : make.exec s₁ = (.ok t, s₂))
    (ht : s₂.answer t = .error e) (closed : Bool) :
    (chainOf lift (visit code) test makes closed).exec (s, []) = (.error e, s₂, []) := by
  rw [exec_chainOf_made code hsplit hbefore hmake, exec_bind, exec_elseIf_open, ht]

theorem exec_chainOf_taken (hsplit : pure test :: makes = before ++ make :: after)
    (hbefore : s.Passes before s₁) (hmake : make.exec s₁ = (.ok t, s₂))
    (ht : s₂.answer t = .ok true) (closed : Bool) :
    (chainOf lift (visit code) test makes closed).exec (s, []) =
      match (code [] before.length).exec s₂ with
      | (.ok (), s₃) => (((after.forM Action.checkMade).exec s₃).1,
          ((after.forM Action.checkMade).exec s₃).2, [⟨before.length, s₂⟩])
      | (.error e, s₃) => (.error e, s₃, [⟨before.length, s₂⟩]) := by
  rw [exec_chainOf_made code hsplit hbefore hmake, exec_bind, exec_elseIf_open, ht]
  rcases (code [] before.length).exec s₂ with ⟨e | u, s₃⟩
  · rfl
  · simp only [Except.map, exec_bind, exec_elseIfs_taken, List.nil_append]
    rcases (after.forM Action.checkMade).exec s₃ with ⟨e | u, s₄⟩
    · rfl
    · cases closed <;> rfl

theorem exec_chainOf_declined (hall : s.Passes (pure test :: makes) s₁) (closed : Bool) :
    (chainOf lift (visit code) test makes closed).exec (s, []) =
      if closed then (visit code (makes.length + 1)).exec (s₁, []) else (.ok (), s₁, []) := by
  rw [exec_chainOf code (List.append_nil _).symm hall, numbered, Chain.elseIfs, pure_bind]
  cases closed <;> rfl

end Runs

/-- Watching the bodies of a chain does not change it. -/
theorem erases_elseIf {ι : Type} (chain : Chain) (test : Scalar) {x : Watched Body ι Unit}
    {y : Action Body Unit} (hx : Erases x y) :
    Erases (chain.elseIf lift test x) (chain.elseIf (fun a => a) test y) := by
  unfold Chain.elseIf
  refine .bind (.lift _) fun _ => ?_
  split
  · exact .pure chain
  · refine .bind (.lift _) fun taken => ?_
    split
    · exact .bind hx fun _ => .pure _
    · exact .pure _

theorem erases_elseIfs (body : Nat → Action Body Unit) (makes : List (Action Body Scalar))
    (chain : Chain) (i : Nat) :
    Erases (chain.elseIfs lift (numbered lift (visit fun _ => body) i makes))
      (chain.elseIfs (fun a => a) (numbered (fun a => a) body i makes)) := by
  induction makes generalizing chain i with
  | nil => exact .pure chain
  | cons make makes ih =>
    rw [numbered, numbered, Chain.elseIfs, Chain.elseIfs]
    refine .bind (.lift make) fun t => ?_
    exact .bind (erases_elseIf chain t (.visit body i)) fun chain => ih chain (i + 1)

theorem erases_chainOf (body : Nat → Action Body Unit) (test : Scalar)
    (makes : List (Action Body Scalar)) (closed : Bool) :
    Erases (chainOf lift (visit fun _ => body) test makes closed)
      (chainOf (fun a => a) body test makes closed) := by
  rw [chainOf, chainOf, conditional_eq, conditional_eq]
  refine .bind (erases_elseIfs body (pure test :: makes) ⟨false⟩ 0) fun chain => ?_
  cases closed with
  | false => exact .pure ()
  | true =>
    unfold Chain.close Chain.otherwise
    simp only [if_true]
    split
    · exact .visit body _
    · exact .pure ()

variable (s)

/-- The bodies of a chain are numbered in the order of its links, with the one without a test last. Each test is
made when its link is reached. The body of the first that holds then is run there, and no other; the later tests
are made and checked, whatever it has made of them. A test that cannot be made, checked or read, before any
holds, ends the chain there, in the state in which making it ends. If none holds only the last body is run, if
there is one. A test is refused by the check exactly if it is no boolean or undefined. -/
theorem conditional_runs_first (test : Scalar) (makes : List (Action Body Scalar)) (closed : Bool) :
    let run := (chainOf lift (visit code) test makes closed).exec (s, [])
    (∀ before make after s₁, pure test :: makes = before ++ make :: after → s.Passes before s₁ →
      (∀ e s₂, make.exec s₁ = (.error e, s₂) → run = (.error e, s₂, [])) ∧
      ∀ t s₂, make.exec s₁ = (.ok t, s₂) →
        (∀ e, s₂.answer t = .error e → run = (.error e, s₂, [])) ∧
        (s₂.answer t = .ok true → run = match (code [] before.length).exec s₂ with
          | (.ok (), s₃) => (((after.forM Action.checkMade).exec s₃).1,
              ((after.forM Action.checkMade).exec s₃).2, [⟨before.length, s₂⟩])
          | (.error e, s₃) => (.error e, s₃, [⟨before.length, s₂⟩]))) ∧
    (∀ s₁, s.Passes (pure test :: makes) s₁ →
      run = if closed then (visit code (makes.length + 1)).exec (s₁, []) else (.ok (), s₁, [])) ∧
    (∀ t, (∃ e, checkTest t = .error e) ↔ t.base ≠ .boolean ∨ t.value.isDefined = false) ∧
    ∀ body, (code = fun _ => body) →
      (chainOf (fun a => a) body test makes closed).exec s = (run.1, run.2.1) := by
  intro run
  refine ⟨fun before make after s₁ hsplit hbefore => ⟨fun e s₂ hmake => ?_, fun t s₂ hmake =>
    ⟨fun e he => ?_, fun ht => ?_⟩⟩, fun s₁ hall => ?_, checkTest_fails_iff, ?_⟩
  · exact exec_chainOf_unmade code hsplit hbefore hmake closed
  · exact exec_chainOf_failed code hsplit hbefore hmake he closed
  · exact exec_chainOf_taken code hsplit hbefore hmake ht closed
  · exact exec_chainOf_declined code hall closed
  · rintro body rfl
    exact erases_chainOf body test makes closed s []

/-- The second of three tests holds. Its body makes it false and the third one true, which is not noticed. -/
theorem conditional_runs_first_overwriting :
    let flag (i : Nat) : Scalar := ⟨⟨.plain .boolean, some .scalar, some ⟨i⟩⟩, rfl⟩
    let s : Store Unit := { (Store.empty : Store Unit) with
      buffers := #[.zeros .boolean 1, .ofList .boolean [.boolean true], .zeros .boolean 1]
      slots := #[⟨0, 0⟩, ⟨1, 0⟩, ⟨2, 0⟩] }
    let code (_ : List (Visit Unit Nat)) (_ : Nat) : Action Unit Unit := do
      Action.write (flag 1).value [] (.boolean false)
      Action.write (flag 2).value [] (.boolean true)
    s.answer (flag 0) = .ok false ∧ s.answer (flag 1) = .ok true ∧
      ∃ s', (chainOf lift (visit code) (flag 0) [pure (flag 1), pure (flag 2)] true).exec (s, []) =
          (.ok (), s', [⟨1, s⟩]) ∧
        s'.answer (flag 1) = .ok false ∧ s'.answer (flag 2) = .ok true := by
  intro flag s code
  have hfirst : s.answer (flag 0) = .ok false := rfl
  have hsecond : s.answer (flag 1) = .ok true := rfl
  have hbody : ((code [] 1).exec s).1 = .ok () := rfl
  have hanswers : ((code [] 1).exec s).2.answer (flag 1) = .ok false ∧
      ((code [] 1).exec s).2.answer (flag 2) = .ok true := ⟨rfl, rfl⟩
  have hpasses : s.Passes ([flag 0].map pure) s := Store.passes_pure.mpr ⟨rfl, by simpa using hfirst⟩
  have hrun := (((conditional_runs_first code s (flag 0) [pure (flag 1), pure (flag 2)] true).1
    ([flag 0].map pure) (pure (flag 1)) [pure (flag 2)] s rfl hpasses).2 (flag 1) s rfl).2 hsecond
  rcases hexec : (code [] 1).exec s with ⟨r, s'⟩
  rw [hexec] at hbody hanswers
  obtain rfl : r = .ok () := hbody
  have hchecks : ([pure (flag 2)].forM Action.checkMade).exec s' = (.ok (), s') := rfl
  simp only [List.length_map, List.length_singleton, hexec, hchecks] at hrun
  exact ⟨hfirst, hsecond, s', hrun, hanswers⟩

end Watched

end Emission

import Emission.Proofs.Scoping
import Emission.Proofs.Store.Functions
import Emission.Script.Make

/-!
Functions on the active context. A function that is applied to a scalar or a vector while a context is
active is a call on that context and nothing else: what the call gives has the rank that the result is
refined to, so the refinement neither fails nor changes it.
-/
namespace Emission.Script

variable {α β : Type}

namespace Session

/-- The session with another state of one of its contexts. -/
def withContext (s : Session) (i : Nat) (store : Store Body) : Session :=
  { s with contexts := s.contexts.setIfInBounds i store }

/-- A context is the active one, and this is its state. -/
structure Active (s : Session) (i : Nat) (store : Store Body) : Prop where
  current : s.activation.current? = some (.direct i)
  context : s.contexts[i]? = some store

variable {s : Session} {i : Nat} {store store' : Store Body}

@[simp] theorem withContext_withContext (s : Session) (i : Nat) (store store' : Store Body) :
    (s.withContext i store).withContext i store' = s.withContext i store' := by
  simp [withContext]

theorem contexts_withContext (h : s.contexts[i]? = some store) (store' : Store Body) :
    (s.withContext i store').contexts[i]? = some store' := by
  obtain ⟨hi, -⟩ := Array.getElem?_eq_some_iff.mp h
  exact Array.getElem?_setIfInBounds_self_of_lt hi

end Session

open Emission.Script.Computation Emission.Script.Session

variable {s : Session} {i : Nat} {store : Store Body}

/-- An action on a context changes only that. -/
theorem exec_onContext (h : s.contexts[i]? = some store) (action : Action Body α) :
    (onContext i action).exec s =
      ((action.exec store).1.mapError Stop.failed, s.withContext i (action.exec store).2) := by
  show (liftM (action.exec (s.contexts[i]?.getD .empty)).1 : Computation α).exec
    ((s.withContext i .empty).withContext i (action.exec (s.contexts[i]?.getD .empty)).2) = _
  rw [h, withContext_withContext, Option.getD_some, exec_lift]
  cases (action.exec store).1 <;> rfl

/-- One action after another on the same context. -/
theorem exec_onContext_bind (h : s.contexts[i]? = some store) (x : Action Body α)
    (f : α → Action Body β) :
    (onContext i x >>= fun a => onContext i (f a)).exec s = (onContext i (x >>= f)).exec s := by
  rw [exec_bind, exec_onContext h, exec_onContext h, Action.exec_bind]
  rcases x.exec store with ⟨e | a, store'⟩
  · rfl
  · show (onContext i (f a)).exec (s.withContext i store') = _
    rw [exec_onContext (contexts_withContext h store'), withContext_withContext]

/-- A call of a function on the active context always has a result, unless it fails there. -/
theorem exec_callIntrinsic (h : s.Active i store) (f : Intrinsic) (args : List Value) :
    (callIntrinsic f args).exec s = (onContext i (Action.apply f args)).exec s := by
  have hcall : callOn (.direct i) (fun _ _ => return none) f.declaration args =
      some <$> (onContext i (liftM ((f.declaration : Declaration Body).checkCall args)) >>= fun _ =>
        onContext i (Action.evaluate f args)) := by
    rw [map_bind]
    rfl
  unfold callIntrinsic
  rw [exec_bind, Activation.exec_current, h.current]
  show (callOn (.direct i) (fun _ _ => return none) f.declaration args >>= _).exec s = _
  rw [hcall]
  simp only [map_eq_pure_bind, bind_assoc, pure_bind, bind_pure]
  exact exec_onContext_bind h.context _ _

theorem value_ofScalar {v : Value} (h : v.rank? = some 0) :
    (do return (← Scalar.ofValue v).value : Except Failure Value) = .ok v := by
  rw [Scalar.ofValue_eq h]
  rfl

theorem value_ofVector {v : Value} (h : v.rank? = some 1) :
    (do return (← Vector.ofValue v).value : Except Failure Value) = .ok v := by
  unfold Vector.ofValue
  split
  · next hnone => cases hnone.symm.trans h
  · next n hn =>
    obtain rfl := Option.some.inj (hn.symm.trans h)
    rfl

/-- A value of the rank of an operand is refined as it is. -/
theorem value_refine {a : Operand} {v : Value} (h : v.rank? = a.value.rank?) :
    (do return (← a.refine v).value : Except Failure Value) = .ok v := by
  cases a with
  | scalar x =>
    simp only [Operand.refine, bind_assoc, pure_bind]
    exact value_ofScalar (h.trans x.rank_eq)
  | vector x =>
    simp only [Operand.refine, bind_assoc, pure_bind]
    exact value_ofVector (h.trans x.rank_eq)

/-- What a call gives for an operand, and perhaps for a single element besides it, is of the rank that it is
refined to. -/
theorem refineMath_eq_ok {f : Intrinsic} {a : Operand} {rest : List Value} {t : Value}
    (ht : f.template (a.value :: rest) = .ok t) (k : Handle) :
    refineMath f a (t.withHandle k) = .ok (t.withHandle k) := by
  cases hf : f.selects with
  | true =>
    have hscalar : refineMath f a (t.withHandle k) =
        (do return (← Scalar.ofValue (t.withHandle k)).value) := by
      cases f with
      | maxnum | minnum => rfl
      | _ => cases hf
    rw [hscalar]
    refine value_ofScalar ?_
    show t.layout?.map Layout.rank = some 0
    rw [Value.layout_eq_ok_iff.mp (Intrinsic.layout_of_selects hf ht)]
    rfl
  | false =>
    have hrefine : refineMath f a (t.withHandle k) = (do return (← a.refine (t.withHandle k)).value) := by
      cases f with
      | maxnum | minnum => cases hf
      | _ => rfl
    have hrank : t.rank? = a.value.rank? := Intrinsic.rank_of_template hf ht
    rw [hrefine]
    exact value_refine hrank

/-- A function of a scalar or a vector, and perhaps of a scalar besides it. -/
def applyMath (f : Intrinsic) (a : Operand) (b? : Option Scalar) : Computation Value := do
  refineMath f a (← callIntrinsic f (a.value :: (b?.map Scalar.value).toList))

/-- It is what a step does once it has read its operands. -/
theorem run_math (f : Intrinsic) (a : Argument) (b? : Option Register) :
    Maker.run (.math f a b?) = (do
      let a ← readArgument a
      applyMath f a (← b?.mapM readScalar)) := by
  cases b? with
  | none => simp [Maker.run, applyMath]
  | some b => simp [Maker.run, applyMath]

/-- Refining what a call gives neither fails nor changes it. -/
theorem exec_applyMath (h : s.Active i store) (f : Intrinsic) (a : Operand) (b? : Option Scalar) :
    (applyMath f a b?).exec s =
      (onContext i (Action.apply f (a.value :: (b?.map Scalar.value).toList))).exec s := by
  unfold applyMath
  rw [exec_bind, exec_callIntrinsic h, exec_onContext h.context]
  rcases hexec : (Action.apply f (a.value :: (b?.map Scalar.value).toList)).exec store with ⟨e | v, store'⟩
  · rfl
  · obtain ⟨t, k, ht, rfl⟩ := Action.apply_eq_ok hexec
    show (liftM (refineMath f a (t.withHandle k)) : Computation Value).exec _ = _
    rw [refineMath_eq_ok ht, exec_lift]
    rfl

/-- Where a context is in the given state, the computation gives the template on a new buffer of the
elements, unless there is no handle left for it. -/
def Session.Yields (s : Session) (i : Nat) (store : Store Body) (x : Computation Value) (t : Value)
    (ds : List Datum) : Prop :=
  (store.slots.size < handleLimit → ∃ data : Data, data.toList = ds ∧
    x.exec s = (.ok (t.withHandle ⟨store.slots.size⟩), s.withContext i (store.withBuffer data)) ∧
    (store.withBuffer data).read (t.withHandle ⟨store.slots.size⟩) = .ok data) ∧
  (¬ store.slots.size < handleLimit → ∃ data,
    x.exec s = (.error (.failed (.backend .handlesExhausted)),
      s.withContext i { store with buffers := store.buffers.push data }))

/-- With a template and with storage behind the operands, a function gives its results on what they read as.
-/
theorem yields_applyMath (h : s.Active i store) {f : Intrinsic} (a : Operand) (b? : Option Scalar)
    {t : Value} (ht : f.template (a.value :: (b?.map Scalar.value).toList) = .ok t)
    (hargs : ∀ v ∈ a.value :: (b?.map Scalar.value).toList, store.Backed v) :
    ∃ xss, List.Forall₂ (fun v xs => store.read v = .ok xs) (a.value :: (b?.map Scalar.value).toList) xss ∧
      s.Yields i store (applyMath f a b?) t (f.results xss) := by
  obtain ⟨xss, hread, hyields, hexhausts⟩ := Action.apply_of_template ht hargs
  refine ⟨xss, hread, fun hroom => ?_, fun hroom => ?_⟩
  · obtain ⟨data, hdata, hexec, hback⟩ := hyields hroom
    refine ⟨data, hdata, ?_, hback⟩
    rw [exec_applyMath h, exec_onContext h.context, hexec]
    rfl
  · obtain ⟨data, hexec⟩ := hexhausts hroom
    refine ⟨data, ?_⟩
    rw [exec_applyMath h, exec_onContext h.context, hexec]
    rfl

end Emission.Script

namespace Emission.Intrinsic

open Store Script

variable {Body : Type}

/-- The template of a call foretells it. A call without one is refused in the kind in which the template is,
and nothing changes. A call with one, and with storage behind its arguments, gives the template on a new
buffer, and what is read from there follows from the readings of the arguments alone; it fails only for want
of a handle. So a function that is applied in a session does with the active context what the call does, and
never fails in refining what it gets or for having got nothing. -/
theorem call_of_template (eval : Body → List Value → Action Body (Option Value)) (f : Intrinsic)
    (args : List Value) (s : Store Body) :
    (∀ e, f.template args = .error e →
      ∃ e', (Action.call eval f.declaration args).exec s = (.error e', s) ∧ e'.kind = e.kind) ∧
    (∀ t, f.template args = .ok t → (∀ v ∈ args, s.Backed v) →
      ∃ xss, List.Forall₂ (fun v xs => s.read v = .ok xs) args xss ∧
        (s.slots.size < handleLimit → ∃ data : Data, data.toList = f.results xss ∧
          (Action.call eval f.declaration args).exec s =
            (.ok (some (t.withHandle ⟨s.slots.size⟩)), s.withBuffer data) ∧
          (s.withBuffer data).read (t.withHandle ⟨s.slots.size⟩) = .ok data) ∧
        (¬ s.slots.size < handleLimit → ∃ data,
          (Action.call eval f.declaration args).exec s =
            (.error (.backend .handlesExhausted), { s with buffers := s.buffers.push data }))) ∧
    ∀ (session : Session) (i : Nat) (store : Store Script.Body), session.Active i store →
      ∀ (a : Operand) (b? : Option Scalar)
        (code : Script.Body → List Value → Action Script.Body (Option Value)),
      ∃ (outcome : Except Failure Value) (store' : Store Script.Body),
        (Action.call code f.declaration (a.value :: (b?.map Scalar.value).toList)).exec store =
          (outcome.map some, store') ∧
        (applyMath f a b?).exec session =
          (outcome.mapError Stop.failed, session.withContext i store') ∧
        ∀ e, outcome = .error e → e.isRefinement = false := by
  refine ⟨fun e he => ?_, fun t ht hargs => ?_, fun session i store h a b? code => ?_⟩
  · obtain ⟨e', hexec, hkind⟩ := Action.exec_apply_refused he s
    refine ⟨e', ?_, hkind⟩
    rw [Action.exec_call_declaration, hexec]
    rfl
  · obtain ⟨xss, hread, hyields, hexhausts⟩ := Action.apply_of_template ht hargs
    refine ⟨xss, hread, fun hroom => ?_, fun hroom => ?_⟩
    · obtain ⟨data, hdata, hexec, hback⟩ := hyields hroom
      refine ⟨data, hdata, ?_, hback⟩
      rw [Action.exec_call_declaration, hexec]
      rfl
    · obtain ⟨data, hexec⟩ := hexhausts hroom
      refine ⟨data, ?_⟩
      rw [Action.exec_call_declaration, hexec]
      rfl
  · refine ⟨_, _, Action.exec_call_declaration code f _ store, ?_, Action.isRefinement_of_apply f _ store⟩
    rw [exec_applyMath h, exec_onContext h.context]

/-- The absolute values of two padded elements, and their square roots, which there are not. -/
theorem call_of_template_padded :
    let a : Data := .ofList (.integer .short) [.integer .short 9, .integer .short 9,
      .integer .short (-3), .integer .short 4, .integer .short 9]
    let store : Store Script.Body := { Store.empty with buffers := #[a], slots := #[⟨0, 1⟩] }
    let v : Value := ⟨.plain (.cell (.integer .short)), some ⟨[⟨2, 4, 1, 1, 0⟩]⟩, some ⟨0⟩⟩
    let p : Layout := ⟨[⟨2, 2, 0, 1, 0⟩]⟩
    let session : Session := ⟨#[store], ["main"], .enter .empty "main" (.direct 0), [], [], [], 0, #[]⟩
    (∃ data : Data, data.toList = [.integer .short 3, .integer .short 4] ∧
      (applyMath .abs (.vector ⟨v, rfl⟩) none).exec session =
        (.ok ⟨.plain (.cell (.integer .short)), some p, some ⟨1⟩⟩,
          session.withContext 0 (store.withBuffer data))) ∧
      ∃ e, (applyMath .sqrt (.vector ⟨v, rfl⟩) none).exec session =
        (.error (.failed e), session.withContext 0 store) ∧ e.kind = "TypeMismatch" := by
  intro a store v p session
  have hactive : session.Active 0 store := ⟨rfl, rfl⟩
  have hbacked : store.Backed v := ⟨_, ⟨0, 1⟩, a, {
    layout := rfl
    obtainable := ⟨.padded [2] [1], rfl⟩
    handle := ⟨⟨0⟩, rfl, rfl⟩
    cells := rfl
    base := rfl
    room := by decide
    fits := by decide }⟩
  refine ⟨?_, ?_⟩
  · obtain ⟨-, haccepted, hsession⟩ := call_of_template (fun _ _ => pure none) .abs [v] store
    obtain ⟨xss, hread, hyields, -⟩ := haccepted ⟨.plain (.cell (.integer .short)), some p, none⟩ rfl
      (List.forall_mem_singleton.mpr hbacked)
    obtain ⟨data, hdata, hexec, -⟩ := hyields (by decide)
    obtain ⟨outcome, store', hcall, hmath, -⟩ :=
      hsession session 0 store hactive (.vector ⟨v, rfl⟩) none fun _ _ => pure none
    obtain ⟨houtcome, rfl⟩ := Prod.mk.inj (hexec.symm.trans hcall)
    refine ⟨data, ?_, ?_⟩
    · obtain ⟨xs, _, hxs, ⟨⟩, rfl⟩ := List.forall₂_cons_left_iff.mp hread
      have hpair : store.read v =
        .ok (.ofList (.integer .short) [.integer .short (-3), .integer .short 4]) := rfl
      obtain rfl := Except.ok.inj (hpair.symm.trans hxs)
      exact hdata
    · cases outcome with
      | error e => cases houtcome
      | ok w =>
        cases houtcome
        exact hmath
  · obtain ⟨hrefused, -, hsession⟩ := call_of_template (fun _ _ => pure none) .sqrt [v] store
    obtain ⟨e, hexec, hkind⟩ := hrefused _ rfl
    obtain ⟨outcome, store', hcall, hmath, -⟩ :=
      hsession session 0 store hactive (.vector ⟨v, rfl⟩) none fun _ _ => pure none
    obtain ⟨houtcome, rfl⟩ := Prod.mk.inj (hexec.symm.trans hcall)
    refine ⟨e, ?_, hkind⟩
    cases outcome with
    | error e' =>
      cases houtcome
      exact hmath
    | ok w => cases houtcome

end Emission.Intrinsic

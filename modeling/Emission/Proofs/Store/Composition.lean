import Emission.Proofs.Store.History
import Emission.Proofs.Store.Naming

/-!
Programs taken apart. Loops, conditionals and calls run their bodies between operations of their own, so a
program of any shape is a composition of operations, and the states of its run are those that some
sequence of operations goes through, with the same requests for named storage on the way. What is shown of all
sequences holds of every run.
-/
namespace Emission

/-- What a context does with its state. Entering and leaving functions, passing arguments and making the
indexes of a round are what calls and loops do beside running their bodies. -/
inductive Operation (Body : Type)
  | look
  | allocate (type : ElementType) (l : Layout)
  | allocateRow (type : ElementType) (length : Nat)
  | allocateNamed (r : Request)
  | storeConstant (c : Constant)
  | negate (v : Value)
  | arithmetic (op : Arithmetic) (v w : Value)
  | compare (op : Comparison) (v w : Value)
  | cast (v : Value) (type : ElementType)
  | evaluate (f : Intrinsic) (args : List Value)
  | offset (v : Value) (i : Scalar)
  | offsetAt (v : Value) (coordinates : List Scalar)
  | calculateOffset (l : Layout) (coordinates : List Scalar)
  | copy (source destination : Value)
  | indexScalars (c : List Nat)
  | bindArguments (parameters : List Parameter) (args : List Value)
  | enterFunction (name : String)
  | leaveFunction
  | define (d : Declaration Body) (body : Body)

namespace Operation

variable {Body : Type}

/-- The state that the operation leaves, whether it succeeds or fails. -/
def apply : Operation Body → Store Body → Store Body
  | look, s => s
  | allocate type l, s => ((Action.allocate type l).exec s).2
  | allocateRow type length, s => ((Action.allocateRow type length).exec s).2
  | allocateNamed r, s => (r.action.exec s).2
  | storeConstant c, s => ((Action.storeConstant c).exec s).2
  | negate v, s => ((Action.negate v).exec s).2
  | arithmetic op v w, s => ((Action.arithmetic op v w).exec s).2
  | compare op v w, s => ((Action.compare op v w).exec s).2
  | cast v type, s => ((Action.cast v type).exec s).2
  | evaluate f args, s => ((Action.evaluate f args).exec s).2
  | offset v i, s => ((Action.offset v i).exec s).2
  | offsetAt v coordinates, s => ((Action.offsetAt v coordinates).exec s).2
  | calculateOffset l coordinates, s => ((Action.calculateOffset l coordinates).exec s).2
  | copy source destination, s => ((Action.copy source destination).exec s).2
  | indexScalars c, s => ((Action.indexScalars c).exec s).2
  | bindArguments parameters args, s => ((Action.bindArguments parameters args).exec s).2
  | enterFunction name, s => ((Action.enterFunction name).exec s).2
  | leaveFunction, s => (Action.leaveFunction.exec s).2
  | define d body, s => ((Action.define d body).exec s).2

/-- The request for named storage that the operation makes, if any. -/
def asked? : Operation Body → Store Body → Option (Asked Body)
  | allocateNamed r, s => some ⟨s, r⟩
  | _, _ => none

end Operation

namespace Store

variable {Body : Type}

/-- The state after a sequence of operations, from the empty one on. -/
def after (ops : List (Operation Body)) : Store Body :=
  ops.foldl (fun s op => op.apply s) .empty

theorem after_concat (ops : List (Operation Body)) (op : Operation Body) :
    after (ops ++ [op]) = op.apply (after ops) :=
  List.foldl_concat ..

/-- The requests for named storage that a sequence of operations makes from a state on, the earliest first. -/
def requestsFrom : Store Body → List (Operation Body) → List (Asked Body)
  | _, [] => []
  | s, op :: ops => (op.asked? s).toList ++ requestsFrom (op.apply s) ops

def requests (ops : List (Operation Body)) : List (Asked Body) := requestsFrom .empty ops

theorem requests_concat (ops : List (Operation Body)) (op : Operation Body) :
    requests (ops ++ [op]) = requests ops ++ (op.asked? (after ops)).toList := by
  have hfrom : ∀ s : Store Body, requestsFrom s (ops ++ [op]) =
      requestsFrom s ops ++ (op.asked? (ops.foldl (fun s op => op.apply s) s)).toList := by
    intro s
    induction ops generalizing s with
    | nil => exact List.append_nil _
    | cons op' ops ih =>
      rw [List.cons_append, requestsFrom, requestsFrom, ih, List.append_assoc]
      rfl
  exact hfrom .empty

end Store

open Recorded in
/-- Computations made of operations without any construct of control but choice and recovery. -/
inductive Composed {Code : Type} : {α : Type} → Recorded (Routine Code) α → Prop
  | pure {α : Type} (a : α) : Composed (pure a)
  | fail {α : Type} (e : Failure) : Composed (throw e : Recorded (Routine Code) α)
  | bind {α β : Type} {x : Recorded (Routine Code) α} {f : α → Recorded (Routine Code) β} :
      Composed x → (∀ a, Composed (f a)) → Composed (x >>= f)
  | attempt {α : Type} {x : Recorded (Routine Code) α} {h : Failure → Recorded (Routine Code) α} :
      Composed x → (∀ e, Composed (h e)) → Composed (tryCatchThe Failure x h)
  | act {α : Type} {x : Action (Routine Code) α} (op : Operation (Routine Code)) :
      (∀ s, (x.exec s).2 = op.apply s) → Composed (act op.asked? x)
  | handOut (vs : List Value) : Composed (handOut vs)
  | inspect {α : Type} {f : _ → Recorded (Routine Code) α} :
      (∀ t, Composed (f t)) → Composed (get >>= f)

namespace Composed

open Recorded

variable {Code α : Type}

theorem lift {x : Action (Routine Code) α} (op : Operation (Routine Code))
    (hasked : op.asked? = fun _ => none) (hop : ∀ s, (x.exec s).2 = op.apply s) :
    Composed (Recorded.lift x) := by
  unfold Recorded.lift
  rw [← hasked]
  exact .act op hop

theorem look (f : Store (Routine Code) → Except Failure α) : Composed (Recorded.lift (.reading f)) :=
  .lift .look rfl fun s => by rw [Action.exec_reading]; rfl

theorem check (x : Except Failure α) : Composed (Recorded.lift (liftM x : Action (Routine Code) α)) :=
  .lift .look rfl fun s => by rw [Action.exec_lift]; rfl

theorem handedOut {x : Recorded (Routine Code) Value} (hx : Composed x) : Composed (do
    let v ← x
    Recorded.handOut [v]
    return v) :=
  .bind hx fun v => .bind (.handOut [v]) fun _ => .pure v

theorem make {x : Action (Routine Code) Value} (op : Operation (Routine Code))
    (hasked : op.asked? = fun _ => none) (hop : ∀ s, (x.exec s).2 = op.apply s) : Composed (make x) :=
  (lift op hasked hop).handedOut

theorem allocateNamed (r : Request) :
    Composed (Recorded.allocateNamed r : Recorded (Routine Code) Value) :=
  handedOut (.act (.allocateNamed r) fun _ => rfl)

theorem view {v : Value} {x : Action (Routine Code) Value} (op : Operation (Routine Code))
    (hasked : op.asked? = fun _ => none) (hop : ∀ s, (x.exec s).2 = op.apply s) :
    Composed (view v x) := by
  refine .inspect fun t => .bind (.lift op hasked hop) fun w => ?_
  split
  · exact .bind (.handOut [w]) fun _ => .pure w
  · exact .pure w

theorem loop {l : Layout} {body : List Scalar → Recorded (Routine Code) Unit}
    (hbody : ∀ as, Composed (body as)) : Composed (loop l body) := by
  unfold Recorded.loop forEach
  split
  · exact .pure ()
  · rw [Layout.foldCoordinatesM_eq]
    generalize l.coordinates = cs
    induction cs with
    | nil => exact .pure ()
    | cons c cs ih =>
      rw [List.foldlM_cons]
      refine .bind (.bind (.lift (.indexScalars c) rfl fun _ => rfl) fun as => ?_) fun _ => ih
      exact .bind (.handOut _) fun _ => hbody as

section Chains

variable {test : Scalar} {body : Recorded (Routine Code) Unit}

theorem taken {γ : Type} (hbody : Composed body) (taken : Bool) (a : γ) :
    Composed (if taken = true then body >>= fun _ => Pure.pure a else Pure.pure a) := by
  split
  · exact .bind hbody fun _ => .pure a
  · exact .pure a

theorem begin (hbody : Composed body) : Composed (Chain.begin Recorded.lift test body) := by
  unfold Chain.begin
  exact .bind (.check _) fun _ => .bind (.look _) fun taken => .taken hbody taken _

theorem elseIf (chain : Chain) (hbody : Composed body) :
    Composed (chain.elseIf Recorded.lift test body) := by
  unfold Chain.elseIf
  refine .bind (.check _) fun _ => ?_
  split
  · exact .pure chain
  · exact .bind (.look _) fun taken => .taken hbody taken _

theorem otherwise (chain : Chain) (hbody : Composed body) :
    Composed (chain.otherwise body) := by
  unfold Chain.otherwise
  split
  · exact hbody
  · exact .pure ()

end Chains

theorem runWithin (name : String) {body : Recorded (Routine Code) (Option Value)}
    (hbody : Composed body) :
    Composed (runWithin (ε := Failure) Recorded.lift name body) := by
  have hleave : Composed (Recorded.lift (Action.leaveFunction : Action (Routine Code) Unit)) :=
    .lift .leaveFunction rfl fun _ => rfl
  unfold Emission.runWithin
  refine .bind (.lift (.enterFunction name) rfl fun _ => rfl) fun _ => ?_
  refine .bind (.attempt hbody fun e => ?_) fun result? => ?_
  · exact .bind hleave fun _ => .fail e
  · exact .bind hleave fun _ => .pure result?

theorem call {eval : Code → List Value → Recorded (Routine Code) (Option Value)}
    (heval : ∀ code vs, Composed (eval code vs)) (d : Declaration (Routine Code))
    (args : List Value) : Composed (call eval d args) := by
  have hinvoke : Composed (invoke (ε := Failure) Recorded.lift (fun r vs => do
      Recorded.handOut (byValue r.parameters vs)
      eval r.code vs) d.name args) := by
    unfold invoke
    refine .bind (.look _) fun ⟨d', r⟩ => ?_
    refine .bind (.lift (.bindArguments d'.parameters args) rfl fun _ => rfl) fun vs => ?_
    refine .bind (.runWithin d'.name ?_) fun result? => .check _
    exact .bind (.handOut _) fun _ => heval r.code vs
  unfold Recorded.call Declaration.call
  refine .bind (.bind (.check _) fun _ => ?_) fun result? => ?_
  · split
    · rw [← bind_pure_comp]
      exact .bind (.lift (.evaluate _ args) rfl fun _ => rfl) fun v => .pure (some v)
    · exact hinvoke
  · split
    · exact .bind (.handOut _) fun _ => .pure result?
    · exact .pure result?

end Composed

namespace Program

variable {Code α : Type} {x : Recorded (Routine Code) α}

theorem composed (hx : Program x) : Composed x := by
  induction hx with
  | pure a => exact .pure a
  | fail e => exact .fail e
  | bind _ _ ihx ihf => exact .bind ihx ihf
  | attempt _ _ ihx ihh => exact .attempt ihx ihh
  | look f => exact .look f
  | allocate type hl => exact .make (.allocate type _) rfl fun _ => rfl
  | allocateRow type n => exact .make (.allocateRow type n) rfl fun _ => rfl
  | allocateNamed _ => exact .allocateNamed _
  | storeConstant c => exact .make (.storeConstant c) rfl fun _ => rfl
  | negate v => exact .make (.negate v) rfl fun _ => rfl
  | arithmetic op v w => exact .make (.arithmetic op v w) rfl fun _ => rfl
  | compare op v w => exact .make (.compare op v w) rfl fun _ => rfl
  | cast v type => exact .make (.cast v type) rfl fun _ => rfl
  | offset v i => exact .view (.offset v i) rfl fun _ => rfl
  | offsetAt v coordinates => exact .view (.offsetAt v coordinates) rfl fun _ => rfl
  | calculateOffset l coordinates => exact .lift (.calculateOffset l coordinates) rfl fun _ => rfl
  | copy v w => exact .lift (.copy v w) rfl fun _ => rfl
  | loop l _ ih => exact .loop ih
  | begin test _ ih => exact .begin ih
  | elseIf chain test _ ih => exact .elseIf chain ih
  | otherwise chain _ ih => exact .otherwise chain ih
  | define d code => exact .lift (.define d ⟨d.parameters, code⟩) rfl fun _ => rfl
  | call d args _ ih => exact .call ih d args

end Program

namespace Recorded

variable {Code α β : Type}

/-- The state after a run with these moments. -/
def reached (ms : List (Moment (Routine Code))) : Store (Routine Code) :=
  (ms.getLast?.map (·.state)).getD .empty

/-- The requests for named storage in a run, the earliest first. -/
def asked (ms : List (Moment (Routine Code))) : List (Asked (Routine Code)) := ms.filterMap (·.asked?)

theorem asked_concat (ms : List (Moment (Routine Code))) (m : Moment (Routine Code)) :
    asked (ms ++ [m]) = asked ms ++ m.asked?.toList := by
  rw [asked, List.filterMap_append]
  cases h : m.asked? <;> simp [asked, h]

/-- The run is in the state after the operations and has made their requests, and so it was after some first ones
of them whenever it had only come to an earlier moment. -/
structure Follows (t : Store (Routine Code) × List (Moment (Routine Code)))
    (ops : List (Operation (Routine Code))) : Prop where
  last : t.1 = .after ops
  asked : asked t.2 = Store.requests ops
  earlier : ∀ ms, ms <+: t.2 →
    ∃ past, past <+: ops ∧ reached ms = .after past ∧ Recorded.asked ms = Store.requests past

variable {t : Store (Routine Code) × List (Moment (Routine Code))}
  {ops : List (Operation (Routine Code))}

/-- One more operation, and a moment at the state that it leaves. -/
theorem Follows.push (ht : Follows t ops) (op : Operation (Routine Code)) (vs : List Value) :
    Follows (op.apply t.1, t.2 ++ [⟨op.apply t.1, vs, op.asked? t.1⟩]) (ops ++ [op]) := by
  have hlast : op.apply t.1 = .after (ops ++ [op]) := by rw [Store.after_concat, ht.last]
  have hasked : Recorded.asked (t.2 ++ [⟨op.apply t.1, vs, op.asked? t.1⟩]) =
      Store.requests (ops ++ [op]) := by
    rw [asked_concat, Store.requests_concat, ht.asked, ht.last]
  refine ⟨hlast, hasked, fun ms hms => ?_⟩
  rcases List.prefix_concat_iff.mp hms with rfl | hms
  · refine ⟨ops ++ [op], List.prefix_rfl, ?_, hasked⟩
    rw [reached, List.getLast?_concat]
    exact hlast
  · obtain ⟨past, hpast, hearlier⟩ := ht.earlier ms hms
    exact ⟨past, hpast.trans (List.prefix_append ops [op]), hearlier⟩

end Recorded

open Recorded

variable {Code α : Type} {x : Recorded (Routine Code) α}

/-- A run goes on by operations, whatever it has done before. -/
theorem Composed.follows (hx : Composed x)
    {t : Store (Routine Code) × List (Moment (Routine Code))}
    {ops : List (Operation (Routine Code))} (ht : Follows t ops) :
    ∃ ops', Follows (x.exec t).2 ops' := by
  induction hx generalizing t ops with
  | pure a => exact ⟨ops, ht⟩
  | fail e => exact ⟨ops, ht⟩
  | @bind α β x f _ _ ihx ihf =>
    obtain ⟨ops', ht'⟩ := ihx ht
    rw [exec_bind]
    rcases hexec : x.exec t with ⟨e | a, t'⟩
    · rw [hexec] at ht'
      exact ⟨ops', ht'⟩
    · rw [hexec] at ht'
      exact ihf a ht'
  | @attempt α x h _ _ ihx ihh =>
    obtain ⟨ops', ht'⟩ := ihx ht
    rw [exec_tryCatch]
    rcases hexec : x.exec t with ⟨e | a, t'⟩
    · rw [hexec] at ht'
      exact ihh e ht'
    · rw [hexec] at ht'
      exact ⟨ops', ht'⟩
  | @act α x op hop =>
    rw [exec_act, hop]
    exact ⟨_, ht.push op []⟩
  | handOut vs => exact ⟨_, ht.push .look vs⟩
  | inspect _ ih => exact ih t ht

theorem follows_nil : Follows ((.empty, []) : Store (Routine Code) × List (Moment (Routine Code))) [] :=
  ⟨rfl, rfl, fun _ hms => ⟨[], List.prefix_rfl, by rw [List.prefix_nil.mp hms]; exact ⟨rfl, rfl⟩⟩⟩

/-- The states of a program's run and its requests are those of some operations one after another. -/
theorem Program.exists_operations (hx : Program x) : ∃ ops, Follows (x.exec (.empty, [])).2 ops :=
  hx.composed.follows follows_nil

end Emission

import Emission.Proofs.Store.Naming
import Emission.Proofs.Store.Upkeep
import Emission.Store.Branch

/-!
Runs of programs over a context. A program is any computation made of operations, of choices that
depend on what they gave, and of loops, conditionals and calls whose bodies are programs; failures may
be caught. A run records each state that it goes through and the values that are handed out at it.
What is handed out is backed from then on in every state, and no state has a slot outside its buffers.
-/
namespace Emission

/-- A state that a run went through, the values that were handed out at it, and the request for named storage
that has led to it, if one has. -/
structure Moment (Body : Type) where
  state : Store Body
  handed : List Value
  asked? : Option (Asked Body)

/-- Computations over a context whose moments are recorded, the earliest first. -/
abbrev Recorded (Body : Type) : Type → Type :=
  ExceptT Failure (StateM (Store Body × List (Moment Body)))

/-- What a function definition consists of: its code, and the parameters it was declared with. -/
structure Routine (Code : Type) where
  parameters : List Parameter
  code : Code

namespace Recorded

variable {Body α β : Type}

/-- The outcome of a computation, the last state and all moments before it. -/
def exec (x : Recorded Body α) (t : Store Body × List (Moment Body)) :
    Except Failure α × Store Body × List (Moment Body) :=
  (ExceptT.run x).run t

/-- An action, with the request that it makes. -/
def act (asked? : Store Body → Option (Asked Body)) (x : Action Body α) : Recorded Body α :=
  ExceptT.mk fun (s, ms) => ((x.exec s).1, (x.exec s).2, ms ++ [⟨(x.exec s).2, [], asked? s⟩])

def lift (x : Action Body α) : Recorded Body α := act (fun _ => none) x

def handOut (vs : List Value) : Recorded Body Unit :=
  modify fun (s, ms) => (s, ms ++ [⟨s, vs, none⟩])

/-- An operation that makes a value. -/
def make (x : Action Body Value) : Recorded Body Value := do
  let v ← lift x
  handOut [v]
  return v

/-- A request for named storage. -/
def allocateNamed (r : Request) : Recorded Body Value := do
  let v ← act (fun s => some ⟨s, r⟩) r.action
  handOut [v]
  return v

open Classical in
/-- An operation that makes a view of a value. Only views of backed values have cells of their own. -/
noncomputable def view (v : Value) (x : Action Body Value) : Recorded Body Value := do
  let (s, _) ← get
  let w ← lift x
  if s.Backed v then handOut [w]
  return w

/-- A loop whose body is handed new scalars in each round. -/
def loop (l : Layout) (body : List Scalar → Recorded Body Unit) : Recorded Body Unit :=
  forEach lift l fun as => do
    handOut (as.map Scalar.value)
    body as

def define {Code : Type} (d : Declaration (Routine Code)) (code : Code) :
    Recorded (Routine Code) (Declaration (Routine Code)) :=
  lift (Action.define d ⟨d.parameters, code⟩)

/-- A call hands copies of scalar arguments to the body, or gives the result of an intrinsic. -/
def call {Code : Type} (eval : Code → List Value → Recorded (Routine Code) (Option Value))
    (d : Declaration (Routine Code)) (args : List Value) :
    Recorded (Routine Code) (Option Value) := do
  let result? ← d.call (ε := Failure) lift (fun r vs => do
    handOut (byValue r.parameters vs)
    eval r.code vs) args
  if d.isIntrinsic then handOut result?.toList
  return result?

/-- The moments of a run from the beginning. -/
def moments (x : Recorded Body α) : List (Moment Body) := (x.exec (.empty, [])).2.2

def lastState (x : Recorded Body α) : Store Body := (x.exec (.empty, [])).2.1

variable (t : Store Body × List (Moment Body))

theorem exec_bind (x : Recorded Body α) (f : α → Recorded Body β) :
    (x >>= f).exec t = match x.exec t with
      | (.ok a, t') => (f a).exec t'
      | (.error e, t') => (.error e, t') := by
  simp only [exec, ExceptT.run, bind, ExceptT.bind, ExceptT.mk, StateT.bind, StateT.run]
  rcases x t with ⟨_ | _, _⟩ <;> rfl

theorem exec_act (asked? : Store Body → Option (Asked Body)) (x : Action Body α) :
    (act asked? x).exec t =
      ((x.exec t.1).1, (x.exec t.1).2, t.2 ++ [⟨(x.exec t.1).2, [], asked? t.1⟩]) := rfl

theorem exec_tryCatch (x : Recorded Body α) (h : Failure → Recorded Body α) :
    (tryCatchThe Failure x h).exec t = match x.exec t with
      | (.ok a, t') => (.ok a, t')
      | (.error e, t') => (h e).exec t' := by
  change ExceptT.tryCatch x h t = _
  simp only [exec, ExceptT.run, ExceptT.tryCatch, ExceptT.mk, bind, StateT.bind, StateT.run]
  rcases x t with ⟨_ | _, _⟩ <;> rfl

end Recorded

open Recorded in
/-- Computations made of operations. Layouts are those that can be had, and all other operands are
arbitrary. What a chain of conditions or a call runs, and how the code of a function is run, are
programs again. -/
inductive Program {Code : Type} : {α : Type} → Recorded (Routine Code) α → Prop
  | pure {α : Type} (a : α) : Program (pure a)
  | fail {α : Type} (e : Failure) : Program (throw e : Recorded (Routine Code) α)
  | bind {α β : Type} {x : Recorded (Routine Code) α} {f : α → Recorded (Routine Code) β} :
      Program x → (∀ a, Program (f a)) → Program (x >>= f)
  | attempt {α : Type} {x : Recorded (Routine Code) α} {h : Failure → Recorded (Routine Code) α} :
      Program x → (∀ e, Program (h e)) → Program (tryCatchThe Failure x h)
  | look {α : Type} (f : Store (Routine Code) → Except Failure α) : Program (lift (.reading f))
  | allocate (type : ElementType) {l : Layout} (hl : l.Obtainable) :
      Program (make (.allocate type l))
  | allocateRow (type : ElementType) (length : Nat) : Program (make (.allocateRow type length))
  | allocateNamed {r : Request} (hr : r.layout.Obtainable) : Program (allocateNamed r)
  | storeConstant (c : Constant) : Program (make (.storeConstant c))
  | negate (v : Value) : Program (make (.negate v))
  | arithmetic (op : Arithmetic) (v w : Value) : Program (make (.arithmetic op v w))
  | compare (op : Comparison) (v w : Value) : Program (make (.compare op v w))
  | cast (v : Value) (type : ElementType) : Program (make (.cast v type))
  | offset (v : Value) (i : Scalar) : Program (view v (.offset v i))
  | offsetAt (v : Value) (coordinates : List Scalar) :
      Program (view v (.offsetAt v coordinates))
  | calculateOffset (l : Layout) (coordinates : List Scalar) :
      Program (lift (.calculateOffset l coordinates))
  | copy (source destination : Value) : Program (lift (.copy source destination))
  | loop (l : Layout) {body : List Scalar → Recorded (Routine Code) Unit} :
      (∀ as, Program (body as)) → Program (loop l body)
  | begin (test : Scalar) {body : Recorded (Routine Code) Unit} :
      Program body → Program (Chain.begin lift test body)
  | elseIf (chain : Chain) (test : Scalar) {body : Recorded (Routine Code) Unit} :
      Program body → Program (chain.elseIf lift test body)
  | otherwise (chain : Chain) {body : Recorded (Routine Code) Unit} :
      Program body → Program (chain.otherwise body)
  | define (d : Declaration (Routine Code)) (code : Code) : Program (define d code)
  | call {eval : Code → List Value → Recorded (Routine Code) (Option Value)}
      (d : Declaration (Routine Code)) (args : List Value) :
      (∀ code vs, Program (eval code vs)) → Program (call eval d args)

namespace Recorded

variable {Code α β : Type}

/-- What holds of a run at each of its states: the states before are extended by it, their slots are
within buffers, and what was handed out was backed. -/
structure Valid (t : Store (Routine Code) × List (Moment (Routine Code))) : Prop where
  sound : t.1.Sound
  functions : ∀ e ∈ t.1.functions, ∀ r, e.2.definition? = some r → r.parameters = e.2.parameters
  moments : ∀ m ∈ t.2, m.state.Sound ∧ m.state.Extends t.1 ∧ ∀ v ∈ m.handed, m.state.Backed v
  order : t.2.Pairwise fun m m' => m.state.Extends m'.state
  last : t.1 = (t.2.getLast?.map (·.state)).getD .empty

/-- The computation keeps a run valid, and what it gives has a property. -/
def Safe (t : Store (Routine Code) × List (Moment (Routine Code)))
    (x : Recorded (Routine Code) α) (P : α → Store (Routine Code) → Prop) : Prop :=
  Valid t → Valid (x.exec t).2 ∧ t.1.Extends (x.exec t).2.1 ∧
    ∀ a, (x.exec t).1 = .ok a → P a (x.exec t).2.1

variable {t : Store (Routine Code) × List (Moment (Routine Code))}
  {P : α → Store (Routine Code) → Prop} {Q : β → Store (Routine Code) → Prop}

/-- A run goes on by an advance of its state, or by handing out backed values at it. -/
theorem Valid.push (ht : Valid t) {s : Store (Routine Code)} {vs : List Value} (hs : s.Sound)
    (hext : t.1.Extends s)
    (hfunctions : ∀ e ∈ s.functions, ∀ r, e.2.definition? = some r → r.parameters = e.2.parameters)
    (hvs : ∀ v ∈ vs, s.Backed v) {asked? : Option (Asked (Routine Code))} :
    Valid (s, t.2 ++ [⟨s, vs, asked?⟩]) where
  sound := hs
  functions := hfunctions
  moments := by
    intro m hm
    rcases List.mem_append.mp hm with hm | hm
    · obtain ⟨hsound, hm, hhanded⟩ := ht.moments m hm
      exact ⟨hsound, hm.trans hext, hhanded⟩
    · obtain rfl := List.mem_singleton.mp hm
      exact ⟨hs, .refl s, hvs⟩
  order := by
    refine List.pairwise_append.mpr ⟨ht.order, List.pairwise_singleton .., fun m hm m' hm' => ?_⟩
    obtain rfl := List.mem_singleton.mp hm'
    exact (ht.moments m hm).2.1.trans hext
  last := by simp

theorem safe_pure {a : α} (h : P a t.1) : Safe t (pure a) P := fun ht =>
  ⟨ht, .refl t.1, fun _ ha => Except.ok.inj ha ▸ h⟩

theorem safe_throw (e : Failure) : Safe t (throw e) P := fun ht =>
  ⟨ht, .refl t.1, fun _ ha => (nomatch ha)⟩

theorem Safe.bind {x : Recorded (Routine Code) α} {f : α → Recorded (Routine Code) β}
    (hx : Safe t x P) (hf : ∀ a t', t.1.Extends t'.1 → P a t'.1 → Safe t' (f a) Q) :
    Safe t (x >>= f) Q := by
  intro ht
  obtain ⟨hvalid, hext, hpost⟩ := hx ht
  rw [exec_bind]
  rcases hexec : x.exec t with ⟨e | a, t'⟩
  · rw [hexec] at hvalid hext
    exact ⟨hvalid, hext, fun _ hb => (nomatch hb)⟩
  · rw [hexec] at hvalid hext hpost
    obtain ⟨hvalid', hext', hpost'⟩ := hf a t' hext (hpost a rfl) hvalid
    exact ⟨hvalid', hext.trans hext', hpost'⟩

theorem Safe.attempt {x : Recorded (Routine Code) α} {h : Failure → Recorded (Routine Code) α}
    (hx : Safe t x P) (hh : ∀ e t', Safe t' (h e) P) : Safe t (tryCatchThe Failure x h) P := by
  intro ht
  obtain ⟨hvalid, hext, hpost⟩ := hx ht
  rw [exec_tryCatch]
  rcases hexec : x.exec t with ⟨e | a, t'⟩
  · rw [hexec] at hvalid hext
    obtain ⟨hvalid', hext', hpost'⟩ := hh e t' hvalid
    exact ⟨hvalid', hext.trans hext', hpost'⟩
  · rw [hexec] at hvalid hext hpost
    exact ⟨hvalid, hext, hpost⟩

theorem Safe.imp {x : Recorded (Routine Code) α} {P' : α → Store (Routine Code) → Prop}
    (hx : Safe t x P) (h : ∀ a s, P a s → P' a s) : Safe t x P' := by
  intro ht
  obtain ⟨hvalid, hext, hpost⟩ := hx ht
  exact ⟨hvalid, hext, fun a ha => h a _ (hpost a ha)⟩

theorem safe_act {x : Action (Routine Code) α} (hx : Valid t → Action.Keeps t.1 x P)
    (asked? : Store (Routine Code) → Option (Asked (Routine Code))) : Safe t (act asked? x) P := by
  intro ht
  obtain ⟨hs, hpost⟩ := hx ht
  have hvalid : Valid ((x.exec t.1).2, t.2 ++ [⟨(x.exec t.1).2, [], asked? t.1⟩]) :=
    ht.push (hs.sound ht.sound) hs.extension (by rw [hs.functions]; exact ht.functions) (by simp)
  refine ⟨hvalid, hs.extension, fun a ha => ?_⟩
  have hresult : (x.exec t.1).1 = .ok a := ha
  rcases hexec : x.exec t.1 with ⟨r, s⟩
  rw [hexec] at hpost hresult
  obtain rfl : r = .ok a := hresult
  rw [exec_act, hexec]
  exact hpost

theorem safe_lift {x : Action (Routine Code) α} (hx : Valid t → Action.Keeps t.1 x P) :
    Safe t (lift x) P :=
  safe_act hx fun _ => none

theorem safe_handOut {vs : List Value} (hvs : ∀ v ∈ vs, t.1.Backed v) :
    Safe t (handOut vs) fun _ s => s = t.1 := fun ht =>
  ⟨ht.push ht.sound (.refl t.1) ht.functions hvs, .refl t.1, fun _ _ => rfl⟩

/-- A value that has been made is handed out. -/
theorem Safe.handedOut {x : Recorded (Routine Code) Value} (hx : Safe t x fun v s => s.Backed v) :
    Safe t (do
      let v ← x
      handOut [v]
      return v) fun v s => s.Backed v := by
  refine hx.bind fun v t₁ _ hv => ?_
  refine (safe_handOut (List.forall_mem_singleton.mpr hv)).bind fun _ t₂ _ hs => ?_
  exact safe_pure (hs ▸ hv)

theorem safe_make {x : Action (Routine Code) Value}
    (hx : Valid t → Action.Keeps t.1 x fun v s => s.Backed v) :
    Safe t (make x) fun v s => s.Backed v :=
  (safe_lift hx).handedOut

theorem safe_allocateNamed {r : Request} (hr : r.layout.Obtainable) :
    Safe t (allocateNamed r) fun v s => s.Backed v :=
  (safe_act (fun ht => Action.keeps_allocateNamed ht.sound r.scope r.name r.type hr) _).handedOut

theorem Safe.after_get {f : Store (Routine Code) × List (Moment (Routine Code)) →
    Recorded (Routine Code) α} (h : Safe t (f t) P) : Safe t (get >>= f) P := by
  intro ht
  rw [exec_bind]
  exact h ht

theorem safe_view {v : Value} {x : Action (Routine Code) Value}
    (hx : Action.Keeps t.1 x fun w s => t.1.Backed v → s.Backed w) :
    Safe t (view v x) fun _ _ => True := by
  unfold view
  refine Safe.after_get ((safe_lift fun _ => hx).bind fun w t₁ _ hw => ?_)
  by_cases hv : t.1.Backed v
  · rw [if_pos hv]
    exact (safe_handOut (List.forall_mem_singleton.mpr (hw hv))).bind fun _ _ _ _ =>
      safe_pure trivial
  · rw [if_neg hv]
    exact safe_pure trivial

theorem safe_loop {l : Layout} {body : List Scalar → Recorded (Routine Code) Unit}
    (hbody : ∀ as t, Safe t (body as) fun _ _ => True) : Safe t (loop l body) fun _ _ => True := by
  have hround : ∀ c t, Safe t (do
      let as ← lift (Action.indexScalars c)
      handOut (as.map Scalar.value)
      body as) fun _ _ => True := by
    intro c t
    refine (safe_lift fun _ => Action.keeps_indexScalars c).bind fun as t₁ _ has => ?_
    have hvs : ∀ v ∈ as.map Scalar.value, t₁.1.Backed v := by
      intro v hv
      obtain ⟨a, ha, rfl⟩ := List.mem_map.mp hv
      exact has a ha
    exact (safe_handOut hvs).bind fun _ t₂ _ _ => hbody as t₂
  unfold loop forEach
  by_cases hl : l.numElements = 0
  · rw [if_pos hl]
    exact safe_pure trivial
  · rw [if_neg hl, Layout.foldCoordinatesM_eq]
    generalize l.coordinates = cs
    induction cs generalizing t with
    | nil => exact safe_pure trivial
    | cons c cs ih =>
      rw [List.foldlM_cons]
      exact (hround c t).bind fun _ t₁ _ _ => ih

section Chains

variable {test : Scalar} {body : Recorded (Routine Code) Unit}

/-- A body that may be run before something is given. -/
theorem safe_taken {γ : Type} (hbody : ∀ t, Safe t body fun _ _ => True) (taken : Bool) (a : γ) :
    Safe t (if taken = true then body >>= fun _ => pure a else pure a) fun _ _ => True := by
  cases taken with
  | false => exact safe_pure trivial
  | true => exact (hbody t).bind fun _ _ _ _ => safe_pure trivial

theorem safe_begin (hbody : ∀ t, Safe t body fun _ _ => True) :
    Safe t (Chain.begin lift test body) fun _ _ => True := by
  unfold Chain.begin
  refine (safe_lift fun _ => Action.keeps_lift _).bind fun _ t₁ _ _ => ?_
  refine (safe_lift fun _ => Action.keeps_reading _).bind fun taken t₂ _ _ => ?_
  exact safe_taken hbody taken _

theorem safe_elseIf (chain : Chain) (hbody : ∀ t, Safe t body fun _ _ => True) :
    Safe t (chain.elseIf lift test body) fun _ _ => True := by
  unfold Chain.elseIf
  refine (safe_lift fun _ => Action.keeps_lift _).bind fun _ t₁ _ _ => ?_
  by_cases htaken : chain.taken = true
  · rw [if_pos htaken]
    exact safe_pure trivial
  · rw [if_neg htaken]
    refine (safe_lift fun _ => Action.keeps_reading _).bind fun taken t₂ _ _ => ?_
    exact safe_taken hbody taken _

theorem safe_otherwise (chain : Chain) (hbody : ∀ t, Safe t body fun _ _ => True) :
    Safe t (chain.otherwise body) fun _ _ => True := by
  unfold Chain.otherwise
  by_cases htaken : (!chain.taken) = true
  · rw [if_pos htaken]
    exact hbody t
  · rw [if_neg htaken]
    exact safe_pure trivial

end Chains

section Calls

/-- A definition is stored with the parameters of its declaration. -/
theorem safe_define (d : Declaration (Routine Code)) (code : Code) :
    Safe t (define d code) fun _ _ => True := by
  intro ht
  unfold define lift
  rw [exec_act]
  by_cases h : t.1.Admits d
  · rw [Store.exec_define_admitted h]
    have hext : t.1.Extends { t.1 with
        functions := (d.name, d.define ⟨d.parameters, code⟩) :: t.1.functions } :=
      ⟨fun _ _ hx => hx, fun _ a ha => ⟨a, ha, rfl, rfl⟩⟩
    refine ⟨ht.push ?_ hext (List.forall_mem_cons.mpr ⟨?_, ht.functions⟩) (by simp), hext,
      fun _ _ => trivial⟩
    · exact ⟨fun i x hx => (ht.sound.slots i x hx).mono hext,
        fun e he => Store.Backed.mono (ht.sound.names e he) hext, ht.sound.fits⟩
    · intro r hr
      obtain rfl := Option.some.inj hr
      rfl
  · rw [Store.exec_define_refused h]
    exact ⟨ht.push ht.sound (.refl t.1) ht.functions (by simp), .refl t.1, fun _ _ => trivial⟩

theorem safe_runWithin (name : String) {body : Recorded (Routine Code) (Option Value)}
    (hbody : ∀ t', t.1.Extends t'.1 → Safe t' body fun _ _ => True) :
    Safe t (runWithin (ε := Failure) lift name body) fun _ _ => True := by
  have hleave : ∀ t' : Store (Routine Code) × List (Moment (Routine Code)),
      Safe t' (lift Action.leaveFunction) fun _ _ => True := fun t' => safe_lift fun _ =>
    (Action.keeps_modify (Store.advances_calls _)).imp (fun _ _ _ _ => trivial) fun _ h => h
  unfold runWithin
  refine (safe_lift fun _ => Action.keeps_modify (Store.advances_calls _)).bind
    fun _ t₁ hext _ => ?_
  refine (Safe.attempt (hbody t₁ hext) fun e t₂ => ?_).bind fun result? t₂ _ _ => ?_
  · exact (hleave t₂).bind fun _ _ _ _ => safe_throw e
  · exact (hleave t₂).bind fun _ _ _ _ => safe_pure trivial

/-- A body is entered with the copies of its scalar arguments backed. -/
theorem safe_invoke {eval : Code → List Value → Recorded (Routine Code) (Option Value)}
    (heval : ∀ code vs t, Safe t (eval code vs) fun _ _ => True) (name : String)
    (args : List Value) :
    Safe t (invoke (ε := Failure) lift (fun r vs => do
      handOut (byValue r.parameters vs)
      eval r.code vs) name args) fun _ _ => True := by
  have hdefinition : Safe t (lift (Action.reading (·.definition name)))
      fun (dr : Declaration (Routine Code) × Routine Code) _ =>
        dr.2.parameters = dr.1.parameters := by
    refine safe_lift fun ht => (Action.keeps_reading _).imp (fun dr _ _ ⟨hdr, _⟩ => ?_) fun _ h => h
    obtain ⟨hd, hr⟩ := Store.definition_eq_ok_iff.mp hdr
    exact ht.functions (name, dr.1) (mem_of_lookup hd) dr.2 hr
  unfold invoke
  refine hdefinition.bind fun ⟨d, r⟩ t₁ _ hr => ?_
  refine (safe_lift fun _ => Action.keeps_bindArguments d.parameters args).bind
    fun vs t₂ _ hvs => ?_
  refine (safe_runWithin d.name fun t₃ hext => ?_).bind fun result? t₄ _ _ => ?_
  · have hbacked : ∀ v ∈ byValue r.parameters vs, t₃.1.Backed v := fun v hv =>
      (hvs v (hr ▸ hv)).mono hext
    exact (safe_handOut hbacked).bind fun _ t₄ _ _ => heval r.code vs t₄
  · exact (safe_lift fun _ => Action.keeps_lift _).imp fun _ _ _ => trivial

theorem safe_call {eval : Code → List Value → Recorded (Routine Code) (Option Value)}
    (heval : ∀ code vs t, Safe t (eval code vs) fun _ _ => True) (d : Declaration (Routine Code))
    (args : List Value) : Safe t (call eval d args) fun _ _ => True := by
  have hcall : Safe t (d.call (ε := Failure) lift (fun r vs => do
      handOut (byValue r.parameters vs)
      eval r.code vs) args) fun result? s => d.isIntrinsic = true →
        ∀ v ∈ result?.toList, s.Backed v := by
    unfold Declaration.call
    refine (safe_lift fun _ => Action.keeps_lift _).bind fun _ t₁ _ _ => ?_
    split
    case h_1 f hf =>
      rw [← bind_pure_comp]
      refine (safe_lift fun _ => Action.keeps_evaluate f args).bind fun v t₂ _ hv => ?_
      exact safe_pure fun _ => List.forall_mem_singleton.mpr hv
    case h_2 hf =>
      refine (safe_invoke heval d.name args).imp fun result? s _ hintrinsic => ?_
      rw [Declaration.isIntrinsic, hf] at hintrinsic
      cases hintrinsic
  unfold call
  refine hcall.bind fun result? t₁ _ hresult => ?_
  by_cases hintrinsic : d.isIntrinsic = true
  · rw [if_pos hintrinsic]
    exact (safe_handOut (hresult hintrinsic)).bind fun _ _ _ _ => safe_pure trivial
  · rw [if_neg hintrinsic]
    exact safe_pure trivial

end Calls

end Recorded

namespace Program

open Recorded

variable {Code α : Type} {x : Recorded (Routine Code) α}

theorem elseIfs (others : List (Recorded (Routine Code) Scalar × Recorded (Routine Code) Unit))
    (chain : Chain) (htests : ∀ o ∈ others, Program o.1) (hbodies : ∀ o ∈ others, Program o.2) :
    Program (chain.elseIfs lift others) := by
  induction others generalizing chain with
  | nil => exact .pure chain
  | cons o others ih =>
    obtain ⟨htest, htests⟩ := List.forall_mem_cons.mp htests
    obtain ⟨hbody, hbodies⟩ := List.forall_mem_cons.mp hbodies
    exact .bind htest fun test => .bind (.elseIf chain test hbody) fun chain =>
      ih chain htests hbodies

/-- A whole chain of conditions is a program when its tests and bodies are. -/
theorem conditional (test : Scalar) {body : Recorded (Routine Code) Unit}
    {others : List (Recorded (Routine Code) Scalar × Recorded (Routine Code) Unit)}
    {otherwise? : Option (Recorded (Routine Code) Unit)} (hbody : Program body)
    (htests : ∀ o ∈ others, Program o.1) (hbodies : ∀ o ∈ others, Program o.2)
    (hotherwise : ∀ b ∈ otherwise?, Program b) :
    Program (conditional lift test body others otherwise?) := by
  refine .bind (.begin test hbody) fun chain => .bind (elseIfs others chain htests hbodies)
    fun chain => ?_
  cases otherwise? with
  | none => exact .pure ()
  | some b => exact .otherwise chain (hotherwise b rfl)

/-- Programs keep runs valid, from wherever they start. -/
theorem safe (hx : Program x) (t : Store (Routine Code) × List (Moment (Routine Code))) :
    Safe t x fun _ _ => True := by
  -- what comes second in a program starts from the run that the first part has left
  induction hx generalizing t with
  | pure a => exact safe_pure trivial
  | fail e => exact safe_throw e
  | bind _ _ ihx ihf => exact (ihx t).bind fun a t' _ _ => ihf a t'
  | attempt _ _ ihx ihh => exact (ihx t).attempt ihh
  | look f => exact (safe_lift fun _ => Action.keeps_reading f).imp fun _ _ _ => trivial
  | allocate type hl =>
    exact (safe_make fun _ => Action.keeps_allocate type hl).imp fun _ _ _ => trivial
  | allocateRow type n =>
    exact (safe_make fun _ => Action.keeps_allocateRow type n).imp fun _ _ _ => trivial
  | allocateNamed hr => exact (safe_allocateNamed hr).imp fun _ _ _ => trivial
  | storeConstant c =>
    exact (safe_make fun _ => Action.keeps_storeConstant c).imp fun _ _ _ => trivial
  | negate v => exact (safe_make fun _ => Action.keeps_negate v).imp fun _ _ _ => trivial
  | arithmetic op v w =>
    exact (safe_make fun _ => Action.keeps_arithmetic op v w).imp fun _ _ _ => trivial
  | compare op v w =>
    exact (safe_make fun _ => Action.keeps_compare op v w).imp fun _ _ _ => trivial
  | cast v type => exact (safe_make fun _ => Action.keeps_cast v type).imp fun _ _ _ => trivial
  | offset v i => exact safe_view (Action.keeps_offset v i)
  | offsetAt v coordinates => exact safe_view (Action.keeps_offsetAt v coordinates)
  | calculateOffset l coordinates =>
    exact safe_lift fun _ => Action.keeps_calculateOffset l coordinates
  | copy v w => exact safe_lift fun _ => Action.keeps_copy v w
  | loop l _ ih => exact safe_loop ih
  | begin test _ ih => exact safe_begin ih
  | elseIf chain test _ ih => exact safe_elseIf chain ih
  | otherwise chain _ ih => exact safe_otherwise chain ih
  | define d code => exact safe_define d code
  | call d args _ ih => exact safe_call ih d args

theorem valid (hx : Program x) : Valid (x.exec (.empty, [])).2 :=
  (hx.safe (.empty, []) {
    sound := Store.sound_empty
    functions := by simp [Store.empty]
    moments := by simp
    order := .nil
    last := rfl }).1

/-- Handles never go stale. Every state of a run is one of its moments. At each of them the slots are
within buffers, and from each to each later one slots, kinds and lengths stay. What was handed out is
backed then and later, so it can be read and its handle has a pointer type. -/
theorem handles_stay_backed (hx : Program x) :
    x.lastState = (x.moments.getLast?.map (·.state)).getD .empty ∧
    ∀ (i j : Nat) (m m' : Moment (Routine Code)), i ≤ j → x.moments[i]? = some m → x.moments[j]? = some m' →
      (∀ (n : Nat) (slot : Slot), m'.state.slots[n]? = some slot → m'.state.Inside slot) ∧
      m.state.Extends m'.state ∧
      ∀ v ∈ m.handed, m'.state.Backed v ∧ ∃ l k data h, v.layout? = some l ∧
        v.base = .cell k ∧ m'.state.read v = .ok data ∧ data.kind = k ∧
        data.size = l.numElements ∧ v.handle? = some h ∧
        m'.state.typeOf h = .ok (.pointer (.cell k)) := by
  have hvalid := hx.valid
  refine ⟨hvalid.last, fun i j m m' hij hm hm' => ?_⟩
  have hmem : m ∈ x.moments := List.mem_of_getElem? hm
  have hmem' : m' ∈ x.moments := List.mem_of_getElem? hm'
  have hext : m.state.Extends m'.state := by
    obtain ⟨hi, rfl⟩ := List.getElem?_eq_some_iff.mp hm
    obtain ⟨hj, rfl⟩ := List.getElem?_eq_some_iff.mp hm'
    by_cases hlt : i < j
    · exact List.pairwise_iff_getElem.mp hvalid.order i j hi hj hlt
    · obtain rfl : i = j := by omega
      exact .refl _
  refine ⟨(hvalid.moments m' hmem').1.slots, hext, fun v hv => ?_⟩
  have hbacked : m'.state.Backed v := ((hvalid.moments m hmem).2.2 v hv).mono hext
  exact ⟨hbacked, hbacked.read⟩

/-- Allocates a row, cannot negate it, and makes scalars of its indexes. -/
def rowRun : Recorded (Routine Unit) Unit := do
  let v ← make (.allocateRow (.plain (.cell (.integer .int32))) 2)
  tryCatchThe Failure (do let _ ← make (.negate v)) fun _ => return
  Recorded.loop ⟨[⟨2, 2, 0, 1, 0⟩]⟩ fun _ => return

/-- The row was handed out before any other buffer, and it is backed after both rounds as well. -/
theorem handles_stay_backed_row : ∃ m m', rowRun.moments[1]? = some m ∧
    rowRun.moments[6]? = some m' ∧ m.state.buffers.size = 1 ∧ m'.state.buffers.size = 3 ∧
    ∀ v ∈ m.handed, v.handle? = some ⟨0⟩ ∧ m'.state.Backed v := by
  have hrow : Program rowRun :=
    .bind (.allocateRow _ _) fun v =>
      .bind (.attempt (.bind (.negate v) fun _ => .pure ()) fun _ => .pure ()) fun _ =>
        .loop _ fun _ => .pure ()
  refine ⟨_, _, rfl, rfl, rfl, rfl, fun v hv => ⟨?_, ?_⟩⟩
  · obtain rfl := List.mem_singleton.mp hv
    rfl
  · obtain ⟨-, -, hhanded⟩ := (handles_stay_backed hrow).2 1 6 _ _ (by decide) rfl rfl
    exact (hhanded v hv).1

end Program

end Emission

import Emission.Proofs.Layout.Packing
import Emission.Proofs.Store.Frame
import Mathlib.Data.List.Forall2

/-!
Calls of functions. The arguments of a call are checked against the declaration that is called, but bound to
the parameters of the definition registered under its name. So a body is never run on arguments that the
called declaration refuses, and gets as many of the others as it has parameters, whatever their types are.
They are of its own types exactly if these are the first ones of the types that were called.
-/
namespace Emission

variable {Body : Type}

namespace Declaration

/-- The base types of the parameters. -/
def signature (d : Declaration Body) : List BaseType := d.parameters.map (·.type.base)

/-- What a call does before a body runs: it checks the arguments, looks up the definition under the name,
and binds the arguments to its parameters. -/
def prepare (d : Declaration Body) (args : List Value) :
    Action Body (Declaration Body × Body × List Value) := do
  liftM (d.checkCall args)
  let (d', body) ← Action.reading (·.definition d.name)
  let vs ← Action.bindArguments d'.parameters args
  return (d', body, vs)

/-- How a call ends when its body has: the result is checked, and the function is no longer running. -/
def finish (d : Declaration Body) (ending : Except Failure (Option Value) × Store Body) :
    Except Failure (Option Value) × Store Body :=
  (ending.1 >>= d.checkResult, { ending.2 with calls := ending.2.calls.tail })

theorem checkArguments_eq_ok_iff {d : Declaration Body} {args : List Value} :
    d.checkArguments args = .ok () ↔ d.signature = args.map Value.base := by
  have hsame : d.signature = args.map Value.base ↔ d.parameters.length = args.length ∧
      ∀ pa ∈ d.parameters.zip args, pa.1.type.base = pa.2.base := by
    unfold signature
    rw [← List.forall₂_eq_eq_eq, List.forall₂_map_left_iff, List.forall₂_map_right_iff,
      List.forall₂_iff_zip, Prod.forall]
  have hcheck : ∀ b b' : BaseType, (if b = b' then .ok ()
      else .error (.baseMismatch b b') : Except Failure Unit) = .ok () ↔ b = b' := by
    intro b b'
    by_cases h : b = b' <;> simp [h]
  rw [hsame]
  unfold checkArguments
  by_cases hlength : d.parameters.length = args.length
  · simp only [hlength, ne_eq, not_true_eq_false, if_false, true_and]
    rw [forM_eq_ok_iff]
    simp only [hcheck]
  · simp [hlength]

end Declaration

namespace Action

variable {s s' : Store Body}

/-- A copy is made only if the destination has room for it. -/
theorem memorySize_le_of_copy {v w : Value} {u : Unit} (h : (copy v w).exec s = (.ok u, s')) :
    ∃ l l', v.layout? = some l ∧ w.layout? = some l' ∧ l.memorySize ≤ l'.memorySize := by
  have hlayout : ∀ {v : Value} {l : Layout} {s s₁ : Store Body},
      (liftM v.layout : Action Body Layout).exec s = (.ok l, s₁) → v.layout? = some l := by
    intro v l s s₁ h
    rw [exec_lift] at h
    exact Value.layout_eq_ok_iff.mp (Prod.mk.inj h).1
  unfold copy at h
  obtain ⟨_, _, -, h⟩ := exec_bind_eq_ok_iff.mp h
  obtain ⟨_, _, -, h⟩ := exec_bind_eq_ok_iff.mp h
  split at h
  · rw [exec_bind, exec_throw] at h
    cases h
  · obtain ⟨l, _, hl, h⟩ := exec_bind_eq_ok_iff.mp h
    obtain ⟨l', _, hl', h⟩ := exec_bind_eq_ok_iff.mp h
    refine ⟨l, l', hlayout hl, hlayout hl', ?_⟩
    by_contra hlt
    simp only [Nat.lt_of_not_le hlt, if_true, exec_bind, exec_throw] at h
    cases h

/-- How an argument reaches a body. A scalar parameter is a single element of the argument's type, and only
an argument with room for no more than that is copied there. Another parameter is the argument itself. -/
def Passed (p : Parameter) (a v : Value) : Prop :=
  if p.isScalar then v.base = a.base ∧ v.layout? = some .scalar ∧
    ∃ l, a.layout? = some l ∧ l.memorySize ≤ 1 ∧ (l.Obtainable → l.numElements ≤ 1)
  else v = a

theorem Passed.base_eq {p : Parameter} {a v : Value} (h : Passed p a v) : v.base = a.base := by
  unfold Passed at h
  split at h
  · exact h.1
  · rw [h]

theorem passed_of_passByValue {p : Parameter} {a v : Value} (hp : p.isScalar = true)
    (h : (passByValue a).exec s = (.ok v, s')) : Passed p a v := by
  unfold passByValue at h
  obtain ⟨w, s₁, hw, h⟩ := exec_bind_eq_ok_iff.mp h
  obtain ⟨u, s₂, hcopy, h⟩ := exec_bind_eq_ok_iff.mp h
  obtain rfl : w = v := Except.ok.inj (Prod.mk.inj h).1
  obtain ⟨k, hk, rfl, -⟩ := newStorage_eq_ok hw
  have hbase : (s.fresh k .scalar).base = a.base := (ElementType.plain.inj hk).symm
  obtain ⟨l, l', hl, hl', hle⟩ := memorySize_le_of_copy hcopy
  obtain rfl : Layout.scalar = l' := Option.some.inj hl'
  have hone : l.memorySize ≤ 1 := hle
  unfold Passed
  rw [if_pos hp]
  exact ⟨hbase, rfl, l, hl, hone, fun h => Nat.le_trans h.wellFormed.numElements_le hone⟩

/-- Each argument for which there is a parameter is passed, and no other one. -/
theorem passed_of_bindArguments {ps : List Parameter} {args vs : List Value}
    (h : (bindArguments ps args).exec s = (.ok vs, s')) :
    List.Forall₂ (fun pa v => Passed pa.1 pa.2 v) (ps.zip args) vs := by
  induction ps generalizing s args vs with
  | nil =>
    obtain rfl : [] = vs := Except.ok.inj (Prod.mk.inj h).1
    exact .nil
  | cons p ps ih =>
    cases args with
    | nil =>
      obtain rfl : [] = vs := Except.ok.inj (Prod.mk.inj h).1
      exact .nil
    | cons a args =>
      obtain ⟨v, s₁, hv, vs', hrest, rfl⟩ : ∃ v s₁, Passed p a v ∧ ∃ vs',
          (bindArguments ps args).exec s₁ = (.ok vs', s') ∧ vs = v :: vs' := by
        unfold bindArguments at h
        by_cases hp : p.isScalar = true
        · simp only [hp, if_true] at h
          obtain ⟨v, s₁, hv, h⟩ := exec_bind_eq_ok_iff.mp h
          obtain ⟨vs', s₂, hrest, h⟩ := exec_bind_eq_ok_iff.mp h
          obtain ⟨hvs, rfl⟩ := Prod.mk.inj h
          exact ⟨v, s₁, passed_of_passByValue hp hv, vs', hrest, (Except.ok.inj hvs).symm⟩
        · simp only [hp, Bool.false_eq_true, if_false, pure_bind] at h
          obtain ⟨vs', s₂, hrest, h⟩ := exec_bind_eq_ok_iff.mp h
          obtain ⟨hvs, rfl⟩ := Prod.mk.inj h
          refine ⟨a, s, ?_, vs', hrest, (Except.ok.inj hvs).symm⟩
          unfold Passed
          rw [if_neg hp]
      exact .cons hv (ih hrest)

/-- The types that a body is given are the first ones that were passed. -/
theorem base_of_passed {ps : List Parameter} {args vs : List Value}
    (h : List.Forall₂ (fun pa v => Passed pa.1 pa.2 v) (ps.zip args) vs) :
    vs.map Value.base = (args.map Value.base).take ps.length := by
  induction ps generalizing args vs with
  | nil =>
    cases h
    rfl
  | cons p ps ih =>
    cases args with
    | nil =>
      cases h
      rfl
    | cons a args =>
      rw [List.zip_cons_cons] at h
      cases h with
      | cons hv hrest =>
        rw [List.map_cons, List.map_cons, List.length_cons, List.take_succ_cons, hv.base_eq,
          ih hrest]

/-- Nothing but new buffers and slots comes of a call before a body runs. -/
theorem adds_prepare (d : Declaration Body) (args : List Value) :
    Obeys Store.Grows (d.prepare args) := by
  unfold Declaration.prepare
  refine .bind (.lift _) fun _ => .bind (.reading _) fun (d', body) => ?_
  exact .bind (adds_bindArguments d'.parameters args) fun vs => .pure _

variable (eval : Body → List Value → Action Body (Option Value))

/-- A call whose bodies act on the state. -/
abbrev call (d : Declaration Body) (args : List Value) : Action Body (Option Value) :=
  d.call (ε := Failure) (fun x => x) eval args

theorem call_intrinsic {d : Declaration Body} {f : Intrinsic} (hd : d.intrinsic? = some f)
    (args : List Value) : call eval d args = do
      liftM (d.checkCall args)
      let v ← evaluate f args
      return some v := by
  unfold call Declaration.call
  rw [hd, bind_pure_comp]

/-- A body is run between the entrance of its function and the exit, which comes in any case. -/
theorem exec_runWithin (name : String) (body : Action Body (Option Value)) (s : Store Body) :
    (runWithin (ε := Failure) (fun x => x) name body).exec s =
      ((body.exec { s with calls := name :: s.calls }).1,
        { (body.exec { s with calls := name :: s.calls }).2 with
          calls := (body.exec { s with calls := name :: s.calls }).2.calls.tail }) := by
  unfold runWithin enterFunction leaveFunction
  simp only [exec_bind, exec_modify, exec_tryCatch]
  rcases body.exec { s with calls := name :: s.calls } with ⟨e | result?, s'⟩ <;> rfl

/-- A call runs the body on the arguments that have been bound, as the innermost function, and ends as its
declaration says. -/
theorem exec_call {d : Declaration Body} (hd : d.intrinsic? = none) (args : List Value) :
    (call eval d args).exec s = match (d.prepare args).exec s with
      | (.ok (d', body, vs), s') =>
        d'.finish ((eval body vs).exec { s' with calls := d'.name :: s'.calls })
      | (.error e, s') => (.error e, s') := by
  unfold call Declaration.call invoke Declaration.prepare
  rw [hd]
  simp only [exec_bind, exec_lift, exec_reading]
  cases d.checkCall args with
  | error e => rfl
  | ok u =>
    simp only
    cases s.definition d.name with
    | error e => rfl
    | ok db =>
      simp only
      rcases (bindArguments db.1.parameters args).exec s with ⟨e | vs, s₁⟩
      · rfl
      · simp only [exec_pure, exec_runWithin, Declaration.finish]
        cases ((eval db.2 vs).exec { s₁ with calls := db.1.name :: s₁.calls }).1 <;> rfl

theorem exec_prepare {d d' : Declaration Body} {args : List Value} {body : Body}
    (hcheck : d.checkCall args = .ok ()) (hdefinition : s.definition d.name = .ok (d', body)) :
    (d.prepare args).exec s = match (bindArguments d'.parameters args).exec s with
      | (.ok vs, s') => (.ok (d', body, vs), s')
      | (.error e, s') => (.error e, s') := by
  unfold Declaration.prepare
  simp only [exec_bind, exec_lift, exec_reading, hcheck, hdefinition]
  rcases (bindArguments d'.parameters args).exec s with ⟨e | vs, s'⟩ <;> rfl

/-- Arguments come to a body only through the declaration that is called and that of the body. -/
theorem passed_of_prepare {d d' : Declaration Body} {args vs : List Value} {body : Body}
    (hd : d.intrinsic? = none)
    (h : (d.prepare args).exec s = (.ok (d', body, vs), s')) :
    s.definition d.name = .ok (d', body) ∧ d.signature = args.map Value.base ∧
      List.Forall₂ (fun pa v => Passed pa.1 pa.2 v) (d'.parameters.zip args) vs := by
  unfold Declaration.prepare at h
  obtain ⟨u, s₁, hcheck, h⟩ := exec_bind_eq_ok_iff.mp h
  obtain ⟨⟨d₁, body₁⟩, s₂, hdefinition, h⟩ := exec_bind_eq_ok_iff.mp h
  obtain ⟨vs₁, s₃, hbind, h⟩ := exec_bind_eq_ok_iff.mp h
  cases h
  rw [exec_lift] at hcheck
  obtain ⟨hchecked, rfl⟩ := Prod.mk.inj hcheck
  rw [exec_reading] at hdefinition
  obtain ⟨hregistered, rfl⟩ := Prod.mk.inj hdefinition
  refine ⟨hregistered, ?_, passed_of_bindArguments hbind⟩
  unfold Declaration.checkCall at hchecked
  obtain ⟨_, -, hchecked⟩ := bind_eq_ok_iff.mp hchecked
  rw [hd] at hchecked
  exact Declaration.checkArguments_eq_ok_iff.mp hchecked

/-- A call that runs no body ends in the same way whatever bodies do, and fails unless it is of an intrinsic.
A call that runs one runs the body registered under the name, on the first arguments, as many as that has
parameters. Arguments that do not fit the declaration that is called never come that far. But those that do
fit it are of the body's own types only if these are the first ones of the declaration that is called. -/
theorem call_passes_arguments (s : Store Body) (d : Declaration Body) (args : List Value) :
    (∃ out : Except Failure (Option Value) × Store Body,
      (∀ eval, (call eval d args).exec s = out) ∧ (d.intrinsic? = none → ∃ e, out.1 = .error e)) ∨
    ∃ (d' : Declaration Body) (body : Body) (vs : List Value) (s' : Store Body),
      s.definition d.name = .ok (d', body) ∧ (∀ eval, (call eval d args).exec s =
        d'.finish ((eval body vs).exec { s' with calls := d'.name :: s'.calls })) ∧
      args.map Value.base = d.signature ∧
      List.Forall₂ (fun pa v => Passed pa.1 pa.2 v) (d'.parameters.zip args) vs ∧
      vs.map Value.base = d.signature.take d'.parameters.length ∧
      (vs.map Value.base = d'.signature ↔ d'.signature <+: d.signature) := by
  cases hd : d.intrinsic? with
  | some f =>
    let evaluation : Action Body (Option Value) := do
      liftM (d.checkCall args)
      some <$> evaluate f args
    refine Or.inl ⟨evaluation.exec s, fun eval => ?_, nofun⟩
    unfold call Declaration.call
    rw [hd]
  | none =>
    have hcall := fun eval => exec_call (s := s) eval hd args
    rcases hprepare : (d.prepare args).exec s with ⟨e | ⟨d', body, vs⟩, s'⟩
    · rw [hprepare] at hcall
      exact Or.inl ⟨(.error e, s'), hcall, fun _ => ⟨e, rfl⟩⟩
    · rw [hprepare] at hcall
      obtain ⟨hdefinition, hsignature, hpassed⟩ := passed_of_prepare hd hprepare
      have htypes : vs.map Value.base = d.signature.take d'.parameters.length := by
        rw [hsignature]
        exact base_of_passed hpassed
      refine Or.inr ⟨d', body, vs, s', hdefinition, hcall, hsignature.symm, hpassed, htypes, ?_⟩
      have hlength : d'.signature.length = d'.parameters.length := List.length_map ..
      rw [htypes, List.prefix_iff_eq_take, hlength]
      exact eq_comm

/-- A registered function of two doubles, and a declaration of the same name for a row of bytes. -/
def takesDoubles : Declaration Unit :=
  ⟨"f", .plain .void, [.ofScalar "x" (.plain .double), .ofScalar "y" (.plain .double)], some (), none⟩

def emptyRow : Value := ⟨.plain (.cell (.integer .byte)), some ⟨[⟨0, 0, 0, 1, 0⟩]⟩, some ⟨0⟩⟩

def takesRow : Declaration Unit :=
  ⟨"f", .plain .void, [⟨"x", emptyRow.type, ⟨[⟨0, 0, 0, 1, 0⟩]⟩⟩], none, none⟩

/-- The body for two doubles is run on a single byte, copied from an argument without any elements. -/
theorem call_runs_other_signature :
    let s : Store Unit := { (Store.empty : Store Unit) with
      buffers := #[.zeros (.integer .byte) 0]
      slots := #[⟨0, 0⟩]
      functions := [("f", takesDoubles)] }
    s.definition takesRow.name = .ok (takesDoubles, ()) ∧
      takesDoubles.signature = [.cell .double, .cell .double] ∧
      takesRow.signature = [.cell (.integer .byte)] ∧
      emptyRow.layout?.map Layout.numElements = some 0 ∧
      ∃ (v : Value) (s' : Store Unit), v.base = .cell (.integer .byte) ∧
        ∀ eval, (call eval takesRow [emptyRow]).exec s =
          takesDoubles.finish ((eval () [v]).exec { s' with calls := ["f"] }) := by
  intro s
  refine ⟨rfl, rfl, rfl, rfl, ⟨emptyRow.type, some .scalar, some ⟨1⟩⟩,
    s.withBuffer (.zeros (.integer .byte) 1), rfl, fun eval => ?_⟩
  rw [exec_call eval rfl]
  rfl

end Action

end Emission

import Emission.Proofs.Store.Failures
import Emission.Proofs.Template
import Emission.Proofs.Store.Frame
import Emission.Proofs.Store.Upkeep

/-!
Rejection. A request that does not fit, in type, in size, in operation or by name, is rejected; all other
failures come up when it is carried out. Most operations check everything before they store anything. What
comes after the checks of an operation on elements fails in other ways only, as do reading and writing. But
an offset by coordinates is computed by stored operations that have checks of their own, and a scalar
parameter gets its storage before the argument is checked to fit into it.
-/
namespace Emission

/-- The request does not fit: in a type, in size, as an operation or by the name of a function. -/
def Failure.isRejection : Failure → Bool
  | typeMismatch .. | invalidSize .. | invalidOperatorType _ | invalidValueType _
  | invalidFunction _ => true
  | invalidComparisonType _ | invalidArgument _ | illegalState _ | backend _ | panic _ => false

/-- The answer is no rejection. -/
def Unrejected {α : Type} (x : Except Failure α) : Prop := ∀ e, x = .error e → e.isRejection = false

section Answers

variable {Body α β : Type}

@[simp] theorem unrejected_ok (a : α) : Unrejected (.ok a) := fun _ h => nomatch h

@[simp] theorem unrejected_error_iff {e : Failure} :
    Unrejected (.error e : Except Failure α) ↔ e.isRejection = false := by
  refine ⟨fun h => h e rfl, fun h e' he => ?_⟩
  obtain rfl := Except.error.inj he
  exact h

theorem Unrejected.bind {x : Except Failure α} {f : α → Except Failure β} (hx : Unrejected x)
    (hf : ∀ a, Unrejected (f a)) : Unrejected (x >>= f) :=
  FailsBy.bind hx fun a _ => hf a

/-- Not to find something is no rejection. -/
theorem isRejection_of_isAbsence (e : Failure) (he : e.isAbsence = true) : e.isRejection = false := by
  unfold Failure.isAbsence at he
  split at he
  case h_9 => cases he
  all_goals rfl

theorem unrejected_of_absence {x : Except Failure α} (hx : FailsByAbsence x) : Unrejected x :=
  hx.imp isRejection_of_isAbsence

theorem unrejected_ensureDefined (v : Value) : Unrejected v.ensureDefined :=
  failsBy_ensureDefined rfl

theorem unrejected_ofValue (v : Value) : Unrejected (Scalar.ofValue v) := by
  unfold Scalar.ofValue
  split <;> simp [Failure.isRejection]

theorem unrejected_ofSizes (sizes : List Nat) : Unrejected (Layout.ofSizes sizes) := by
  unfold Layout.ofSizes Layout.build
  split <;> simp [Failure.isRejection]

theorem unrejected_checkShapes (v w : Value) : Unrejected (checkShapes v w) :=
  failsBy_checkShapes isRejection_of_isAbsence (fun _ _ => rfl) v w

theorem unrejected_toIndex (d : Datum) : Unrejected d.toIndex := by
  unfold Datum.toIndex
  split <;> simp [Failure.isRejection]

theorem unrejected_datum (op : Arithmetic) (a b : Datum) : Unrejected (a.arithmetic op b) :=
  failsBy_datum (P := (·.isRejection = false)) rfl op a b

end Answers

namespace Action

open Store

variable {Body α β γ : Type}

/-- From no state the action is rejected. -/
def Accepted (x : Action Body α) : Prop := ∀ s, Unrejected (x.exec s).1

/-- Where the action is rejected, the state is as before. -/
def Clean (x : Action Body α) : Prop :=
  ∀ s e s', x.exec s = (.error e, s') → e.isRejection = true → s' = s

/-- Unless it fails in another way than by rejection, the action makes a buffer. -/
def Stores (x : Action Body α) : Prop :=
  ∀ s, (∃ e, (x.exec s).1 = .error e ∧ e.isRejection = false) ∨
    s.buffers.size < (x.exec s).2.buffers.size

namespace Accepted

theorem pure (a : α) : Accepted (pure a : Action Body α) := FailsBy.pure a

theorem throw {e : Failure} (h : e.isRejection = false) : Accepted (throw e : Action Body α) :=
  FailsBy.throw h

theorem lift {x : Except Failure α} (hx : Unrejected x) : Accepted (liftM x : Action Body α) :=
  FailsBy.lift hx

theorem reading {f : Store Body → Except Failure α} (hf : ∀ s, Unrejected (f s)) :
    Accepted (reading f) :=
  FailsBy.reading hf

theorem bind {x : Action Body α} {f : α → Action Body β} (hx : Accepted x)
    (hf : ∀ a, Accepted (f a)) : Accepted (x >>= f) :=
  FailsBy.bind hx hf

theorem foldlM {f : β → γ → Action Body β} (hf : ∀ b c, Accepted (f b c)) (cs : List γ) (b : β) :
    Accepted (cs.foldlM f b) :=
  FailsBy.foldlM hf cs b

theorem of_absence {x : Action Body α} (hx : FailsByAbsence x) : Accepted x :=
  hx.imp isRejection_of_isAbsence

/-- To look for something that may not be there. -/
theorem seeking {f : Store Body → Except Failure α} (hf : ∀ s, Emission.FailsByAbsence (f s)) :
    Accepted (Action.reading f) :=
  .reading fun s => unrejected_of_absence (hf s)

end Accepted

namespace Clean

theorem of_accepted {x : Action Body α} (hx : Accepted x) : Clean x := by
  intro s e s' hexec he
  rw [hx s e (by rw [hexec])] at he
  cases he

theorem throw (e : Failure) : Clean (throw e : Action Body α) := by
  intro s e' s' h _
  exact (Prod.mk.inj h).2.symm

theorem lift (x : Except Failure α) : Clean (liftM x : Action Body α) := by
  intro s e s' h _
  rw [exec_lift] at h
  exact (Prod.mk.inj h).2.symm

theorem reading (f : Store Body → Except Failure α) : Clean (reading f) := by
  intro s e s' h _
  rw [exec_reading] at h
  exact (Prod.mk.inj h).2.symm

/-- A check comes before what follows it. -/
theorem bind_lift {x : Except Failure α} {f : α → Action Body β}
    (hf : ∀ a, x = .ok a → Clean (f a)) : Clean (liftM x >>= f) := by
  intro s e s' h he
  rcases exec_lift_bind_eq_error_iff.mp h with ⟨-, hs⟩ | ⟨a, ha, h⟩
  · exact hs
  · exact hf a ha s e s' h he

theorem bind_reading {g : Store Body → Except Failure α} {f : α → Action Body β}
    (hf : ∀ a, Clean (f a)) : Clean (Action.reading g >>= f) := by
  intro s e s' h he
  rw [exec_bind, exec_reading] at h
  cases hg : g s with
  | error e₁ =>
    rw [hg] at h
    exact (Prod.mk.inj h).2.symm
  | ok a =>
    rw [hg] at h
    exact hf a s e s' h he

/-- What follows the last check is not rejected. -/
theorem bind_accepted {x : Action Body α} {f : α → Action Body β} (hx : Clean x)
    (hf : ∀ a, Accepted (f a)) : Clean (x >>= f) := by
  intro s e s' h he
  rcases exec_bind_eq_error_iff.mp h with h | ⟨a, s₁, -, h⟩
  · exact hx s e s' h he
  · rw [hf a s₁ e (by rw [h])] at he
    cases he

theorem guard {c : Prop} [Decidable c] {e : Failure} {f : β → Action Body α} {x : Action Body α}
    (hx : ¬ c → Clean x) : Clean (if c then MonadExcept.throw e >>= f else x) := by
  split
  · intro s e' s' h _
    rw [exec_bind, exec_throw] at h
    exact (Prod.mk.inj h).2.symm
  · next hc => exact hx hc

end Clean

namespace Stores

/-- A rejection comes when something is stored already. -/
theorem ne_of_rejected {x : Action Body α} (hx : Stores x) {s s' : Store Body} {e : Failure}
    (h : x.exec s = (.error e, s')) (he : e.isRejection = true) : s' ≠ s := by
  rintro rfl
  rcases hx s' with ⟨e', he', hother⟩ | hsize
  · rw [h] at he'
    obtain rfl := Except.error.inj he'
    rw [hother] at he
    cases he
  · rw [h] at hsize
    exact Nat.lt_irrefl _ hsize

theorem throw {e : Failure} (h : e.isRejection = false) : Stores (throw e : Action Body α) :=
  fun _ => Or.inl ⟨e, rfl, h⟩

/-- What comes later takes no buffer away. -/
theorem bind {x : Action Body α} {f : α → Action Body β} (hx : Stores x)
    (hf : ∀ a, Obeys Extends (f a)) : Stores (x >>= f) := by
  intro s
  rw [exec_bind]
  have h := hx s
  generalize x.exec s = r at h ⊢
  rcases r with ⟨e | a, s₁⟩
  · rcases h with ⟨e', he', hother⟩ | hsize
    · obtain rfl := Except.error.inj he'
      exact Or.inl ⟨e, rfl, hother⟩
    · exact Or.inr hsize
  · rcases h with ⟨e', he', -⟩ | hsize
    · cases he'
    · exact Or.inr (Nat.lt_of_lt_of_le hsize (hf a s₁).size_le)

theorem bind_keeps {x : Action Body α} {f : α → Action Body β} (hx : Stores x)
    (hf : ∀ a s, Keeps s (f a) fun _ _ => True) : Stores (x >>= f) :=
  .bind hx fun a s => (hf a s).1.extension

theorem bind_adds {x : Action Body α} {f : α → Action Body β} (hx : Stores x)
    (hf : ∀ a, Obeys Grows (f a)) : Stores (x >>= f) :=
  .bind hx fun a => (hf a).imp fun _ _ => Grows.toExtends

/-- A check that is no rejection comes before. -/
theorem bind_lift {x : Except Failure α} {f : α → Action Body β} (hx : Unrejected x)
    (hf : ∀ a, Stores (f a)) : Stores (liftM x >>= f) := by
  intro s
  rw [exec_bind, exec_lift]
  cases x with
  | error e => exact Or.inl ⟨e, rfl, hx e rfl⟩
  | ok a => exact hf a s

end Stores

section Making

theorem stores_newBuffer (data : Data) (l : Layout) :
    Stores (newBuffer data l : Action Body Value) := by
  intro s
  rw [exec_newBuffer]
  split
  · exact Or.inr (by simp [withBuffer])
  · exact Or.inl ⟨_, rfl, rfl⟩

theorem stores_newStorage (k : Kind) (l : Layout) :
    Stores (newStorage (.plain (.cell k)) l : Action Body Value) := by
  unfold newStorage
  refine .bind_lift ?_ fun data => stores_newBuffer data l
  exact failsBy_zeroed isRejection_of_isAbsence (.ok k) l.memorySize

/-- Storage of any type is refused before a buffer is made. -/
theorem clean_newStorage (type : ElementType) (l : Layout) :
    Clean (newStorage type l : Action Body Value) := by
  unfold newStorage
  exact .bind_lift fun data _ => .of_accepted (.of_absence (failsBy_newBuffer data l))

variable {k : Kind} {shape : Layout} {f : Store Body → List Nat → Except Failure Datum}

/-- If computing the elements is not rejected, making a value of them is not. -/
theorem accepted_tabulate (hf : ∀ s c, Unrejected (f s c)) :
    Accepted (tabulate (.plain (.cell k)) shape f) :=
  failsBy_tabulate isRejection_of_isAbsence (.ok k) (unrejected_ofSizes _) hf

/-- Computing each element from that of an operand is never rejected. -/
theorem accepted_map (v : Value) (g : Datum → Datum) :
    Accepted (tabulate (.plain (.cell k)) shape fun s c => return g (← s.fetch v c) :
      Action Body Value) :=
  failsBy_map isRejection_of_isAbsence (.ok k) (unrejected_ofSizes _) v g

theorem stores_tabulate : Stores (tabulate (.plain (.cell k)) shape f) := by
  unfold tabulate
  simp only [Layout.foldCoordinatesM_eq]
  refine .bind_lift (unrejected_ofSizes _) fun l => .bind_keeps (stores_newStorage k l) fun v s => ?_
  exact (keeps_fill v f _).bind fun _ _ _ _ => .pure trivial

end Making

section Checking

theorem clean_allocate (type : ElementType) (l : Layout) :
    Clean (allocate type l : Action Body Value) := by
  unfold allocate
  exact .guard fun _ => clean_newStorage type l

theorem clean_allocateRow (type : ElementType) (length : Nat) :
    Clean (allocateRow type length : Action Body Value) := by
  unfold allocateRow
  exact .bind_lift fun l _ => clean_allocate type l

theorem accepted_storeConstant (c : Constant) :
    Accepted (storeConstant c : Action Body Value) := by
  unfold storeConstant
  exact .bind (.lift (unrejected_ofSizes _)) fun l => .of_absence (failsBy_newBuffer c.data l)

theorem stores_storeConstant (c : Constant) : Stores (storeConstant c : Action Body Value) := by
  unfold storeConstant
  exact .bind_lift (unrejected_ofSizes _) fun l => stores_newBuffer c.data l

theorem clean_negate (v : Value) : Clean (negate v : Action Body Value) := by
  unfold negate
  refine .bind_lift fun _ _ => .bind_lift fun l _ => .guard fun _ => .of_accepted ?_
  exact accepted_map v fun d => .boolean !d.toBool

theorem clean_compare (op : Comparison) (v w : Value) :
    Clean (compare op v w : Action Body Value) := by
  unfold compare
  refine .guard fun _ => .guard fun _ => .bind_lift fun _ _ => .bind_lift fun l _ => ?_
  refine .of_accepted (accepted_tabulate fun s c => ?_)
  exact .bind (unrejected_of_absence (s.failsBy_broadcast v c)) fun a =>
    .bind (unrejected_of_absence (s.failsBy_broadcast w c)) fun b => unrejected_ok _

theorem clean_cast (v : Value) (type : ElementType) :
    Clean (cast v type : Action Body Value) := by
  unfold cast
  refine .guard fun _ => .bind_lift fun _ _ => ?_
  split
  · next k => exact .bind_lift fun l _ => .of_accepted (accepted_map v (·.convert k))
  · exact .throw _

end Checking

section Arithmetic

/-- Arithmetic is defined on the values: they are of the same numeric type. -/
def Commensurable (v w : Value) : Prop :=
  v.base = w.base ∧ (v.base.isIntegral || v.base.isFloatingPoint) = true

theorem exists_kind_of_numeric {b : BaseType} (h : (b.isIntegral || b.isFloatingPoint) = true) :
    ∃ k, b = .cell k := by
  cases b with
  | void => cases h
  | cell k => exact ⟨k, rfl⟩

variable {v w : Value}

/-- On other values it is refused by its own checks. -/
theorem exec_arithmetic_refused (op : Arithmetic) (h : ¬ Commensurable v w) (s : Store Body) :
    ∃ e, (arithmetic op v w).exec s = (.error e, s) := by
  unfold arithmetic
  simp only [exec_bind, exec_lift]
  cases v.ensureDefined with
  | error e => exact ⟨e, rfl⟩
  | ok _ =>
    cases w.ensureDefined with
    | error e => exact ⟨e, rfl⟩
    | ok _ =>
      by_cases hbase : v.base = w.base
      · have hnumeric : ¬ (v.base.isIntegral || v.base.isFloatingPoint) = true :=
          fun hnumeric => h ⟨hbase, hnumeric⟩
        exact ⟨.invalidOperatorType (.undefinedFor op v.base), by simp [hbase, hbase ▸ hnumeric]⟩
      · exact ⟨.baseMismatch v.base w.base, by simp [hbase]⟩

theorem arithmetic_eq {k : Kind} (op : Arithmetic) (h : Commensurable v w) (hk : v.base = .cell k) :
    (arithmetic op v w : Action Body Value) = (do
      liftM v.ensureDefined
      liftM w.ensureDefined
      liftM (checkShapes v w)
      let l ← liftM v.layout
      tabulate (.plain (.cell k)) l fun s c => do
        let a ← s.broadcast v c
        a.arithmetic op (← s.broadcast w c)) := by
  obtain ⟨hbase, hnumeric⟩ := h
  unfold arithmetic
  rw [hk] at hnumeric
  simp only [← hbase, hk, hnumeric, ne_eq, not_true_eq_false, Bool.not_true, Bool.false_eq_true,
    if_false]

theorem accepted_arithmetic (op : Arithmetic) (h : Commensurable v w) :
    Accepted (arithmetic op v w : Action Body Value) := by
  obtain ⟨k, hk⟩ := exists_kind_of_numeric h.2
  rw [arithmetic_eq op h hk]
  refine .bind (.lift (unrejected_ensureDefined v)) fun _ => ?_
  refine .bind (.lift (unrejected_ensureDefined w)) fun _ => ?_
  refine .bind (.lift (unrejected_checkShapes v w)) fun _ => ?_
  refine .bind (.lift (unrejected_of_absence (failsBy_layout v))) fun l => accepted_tabulate fun s c => ?_
  exact .bind (unrejected_of_absence (s.failsBy_broadcast v c)) fun a =>
    .bind (unrejected_of_absence (s.failsBy_broadcast w c)) fun b => unrejected_datum op a b

theorem stores_arithmetic (op : Arithmetic) (h : Commensurable v w) :
    Stores (arithmetic op v w : Action Body Value) := by
  obtain ⟨k, hk⟩ := exists_kind_of_numeric h.2
  rw [arithmetic_eq op h hk]
  refine .bind_lift (unrejected_ensureDefined v) fun _ => ?_
  refine .bind_lift (unrejected_ensureDefined w) fun _ => ?_
  refine .bind_lift (unrejected_checkShapes v w) fun _ => ?_
  exact .bind_lift (unrejected_of_absence (failsBy_layout v)) fun l => stores_tabulate

theorem clean_arithmetic (op : Arithmetic) (v w : Value) :
    Clean (arithmetic op v w : Action Body Value) := by
  by_cases h : Commensurable v w
  · exact .of_accepted (accepted_arithmetic op h)
  · intro s e s' hexec _
    obtain ⟨e', he'⟩ := exec_arithmetic_refused op h s
    rw [hexec] at he'
    exact (Prod.mk.inj he').2

end Arithmetic

section Intrinsics

theorem type_of_template {f : Intrinsic} {args : List Value} {v : Value}
    (h : f.template args = .ok v) : ∃ k, v.type = .plain (.cell k) := by
  obtain ⟨-, haccepts, haccepted⟩ := Intrinsic.template_eq_ok_iff.mp h
  have hnumeric : (v.base.isIntegral || v.base.isFloatingPoint) = true := by
    unfold Intrinsic.acceptsBase at haccepts
    grind
  obtain ⟨k, hk⟩ := exists_kind_of_numeric hnumeric
  refine ⟨k, ?_⟩
  cases haccepted <;> exact congrArg ElementType.plain hk

theorem clean_evaluate (f : Intrinsic) (args : List Value) :
    Clean (evaluate f args : Action Body Value) := by
  unfold evaluate
  refine .bind_lift fun result hresult => .bind_lift fun shape _ => ?_
  obtain ⟨k, hk⟩ := type_of_template hresult
  rw [hk]
  have hconst : ∀ d, Clean (tabulate (.plain (.cell k)) shape fun _ _ => .ok d : Action Body Value) :=
    fun d => .of_accepted (accepted_tabulate fun _ _ => unrejected_ok d)
  split
  · exact .bind_reading fun _ => .bind_lift fun d _ => hconst d
  · exact .bind_reading fun _ => .bind_lift fun d _ => hconst d
  · exact .bind_reading fun x => .bind_reading fun y => hconst _
  · exact .bind_reading fun x => .bind_reading fun y => hconst _
  · exact .bind_reading fun x => .bind_lift fun l _ => .of_accepted (accepted_map _ (·.pow x))
  · exact .bind_lift fun l _ => .of_accepted (accepted_map _ (·.applyUnary f))
  · exact .throw _

end Intrinsics

section Copying

theorem accepted_copyCells (h h' : Handle) (count i : Nat) :
    Accepted (copyCells h h' count i : Action Body Unit) := by
  induction count generalizing i with
  | zero => exact .pure ()
  | succ count ih =>
    unfold copyCells
    refine .bind (.seeking fun s => ?_) fun d => ?_
    · exact .bind (s.failsBy_buffer h) fun data _ =>
        .bind (s.failsBy_slot h) fun x _ => failsBy_load data _
    · refine .bind (.seeking fun s => s.failsBy_slot h') fun target => ?_
      exact .bind (.of_absence (failsBy_writeCell h' _ d)) fun _ => ih (i + 1)

theorem clean_copy (v w : Value) : Clean (copy v w : Action Body Unit) := by
  unfold copy
  refine .bind_lift fun _ _ => .bind_lift fun _ _ => .guard fun _ => .bind_lift fun l _ => ?_
  refine .bind_lift fun l' _ => .guard fun _ => .bind_lift fun h _ => ?_
  have hslot : ∀ h : Handle, Clean (discard (reading (·.slot h)) : Action Body Unit) :=
    fun h => .bind_reading fun _ => .of_accepted (.pure ())
  have hcells : ∀ h', Accepted (do
      discard <| reading (·.slot h')
      copyCells h h' l.memorySize 0 : Action Body Unit) := fun h' =>
    .bind (.bind (.seeking fun s => s.failsBy_slot h') fun _ => .pure ()) fun _ =>
      accepted_copyCells h h' _ 0
  exact .bind_accepted (hslot h) fun _ => .bind (.lift (unrejected_of_absence (failsBy_handle w))) fun h' => hcells h'

end Copying

section Views

theorem clean_offset (v : Value) (i : Scalar) : Clean (offset v i : Action Body Value) := by
  unfold offset
  refine .bind_lift fun _ _ => .bind_lift fun _ _ => .guard fun _ => .bind_lift fun h _ => ?_
  refine .bind_reading fun slot => .bind_reading fun d => .bind_lift fun n _ => ?_
  refine .bind_reading fun length => ?_
  split
  · exact .of_accepted (.bind (.of_absence (failsBy_newSlot _)) fun _ => .pure _)
  · exact .throw _

theorem accepted_offset (v : Value) {i : Scalar} (hi : i.base.isIntegral = true) :
    Accepted (offset v i : Action Body Value) := by
  unfold offset
  simp only [hi, Bool.not_true, Bool.false_eq_true, if_false]
  refine .bind (.lift (unrejected_ensureDefined v)) fun _ => ?_
  refine .bind (.lift (unrejected_ensureDefined i.value)) fun _ => ?_
  refine .bind (.lift (unrejected_of_absence (failsBy_handle v))) fun h => ?_
  refine .bind (.seeking fun s => s.failsBy_slot h) fun slot => ?_
  refine .bind (.seeking fun s => s.failsBy_fetch i.value []) fun d => ?_
  refine .bind (.lift (unrejected_toIndex d)) fun n => ?_
  refine .bind (.seeking fun s => s.failsBy_size h) fun length => ?_
  split
  · exact .bind (.of_absence (failsBy_newSlot _)) fun _ => .pure _
  · exact .throw rfl

end Views

end Action

end Emission

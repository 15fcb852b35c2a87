import Emission.Proofs.Store.Calls
import Emission.Proofs.Store.Tabulation
import Emission.Proofs.Template

/-!
In what ways requests fail. It is enough to know it of the checks that are made on the way. To reach for
elements, to write them and to make buffers takes no look at types or shapes: it only fails because something is
not there or because there is no handle left, or it panics. Filling a new value adds to this only that the shape may have no
packed layout, and whatever fails in computing the elements.
-/
namespace Emission

/-- Something that was reached for is not there: an element, a handle that is left, or room in memory. -/
def Failure.isAbsence : Failure → Bool
  | invalidArgument .noLayout | invalidArgument .noHandle | invalidArgument (.unknownHandle _)
  | invalidArgument (.coordinateCount ..) | invalidArgument (.offsetOverflow _)
  | invalidArgument (.elementOutside ..) | backend .handlesExhausted | panic _ => true
  | _ => false

/-- A rule of the calls of functions is broken. -/
def Failure.isCallFault : Failure → Bool
  | typeMismatch .. | invalidArgument (.undefinedValue _) | invalidArgument (.intrinsicCount ..)
  | invalidArgument (.reductionRank ..) | invalidArgument (.reductionEmpty _)
  | invalidArgument (.pairRank _) | invalidArgument .exponentRank => true
  | _ => false

section Answers

variable {Body α β : Type} {P Q : Failure → Prop}

/-- The request fails only because something is not there. -/
abbrev FailsByAbsence (x : Except Failure α) : Prop := FailsBy (·.isAbsence = true) x

theorem failsBy_layout (v : Value) : FailsByAbsence v.layout := by
  unfold Value.layout
  split
  · exact .ok _
  · exact .error rfl

theorem failsBy_handle (v : Value) : FailsByAbsence v.handle := by
  unfold Value.handle
  split
  · exact .ok _
  · exact .error rfl

theorem failsBy_checkRank (l : Layout) (given : Nat) : FailsByAbsence (l.checkRank given) := by
  unfold Layout.checkRank
  split
  · exact .ok ()
  · exact .error rfl

theorem failsBy_entryOffset (l : Layout) (c : List Nat) : FailsByAbsence (l.entryOffset c) := by
  unfold Layout.entryOffset
  refine .bind (failsBy_checkRank l _) fun _ _ => ?_
  split
  · exact .ok _
  · exact .error rfl

theorem failsBy_load (data : Data) (i : Nat) : FailsByAbsence (data.load i) := by
  unfold Data.load
  split
  · exact .ok _
  · exact .error rfl

theorem failsBy_reserve (k : Kind) (n : Nat) : FailsByAbsence (reserve k n) := by
  unfold reserve
  split
  · exact .ok ()
  · exact .error rfl

theorem failsBy_zeroed (hP : ∀ e, e.isAbsence = true → P e) {type : ElementType}
    (htype : FailsBy P type.storable) (n : Nat) : FailsBy P (Data.zeroed type n) := by
  unfold Data.zeroed
  exact .bind htype fun k _ => .bind ((failsBy_reserve k n).imp hP) fun _ _ => .ok _

theorem failsBy_ensureDefined {v : Value} (h : P (.invalidArgument (.undefinedValue v.type))) :
    FailsBy P v.ensureDefined := by
  unfold Value.ensureDefined
  split
  · exact .ok ()
  · exact .error h

theorem failsBy_checkShapes (hP : ∀ e, e.isAbsence = true → P e)
    (h : ∀ ns ms, P (.invalidArgument (.operandShapes ns ms))) (v w : Value) :
    FailsBy P (checkShapes v w) := by
  unfold checkShapes
  refine .bind ((failsBy_layout v).imp hP) fun l _ => ?_
  refine .bind ((failsBy_layout w).imp hP) fun r _ => ?_
  split
  · exact .ok ()
  · exact .error (h _ _)

theorem failsBy_onWords (h : P (.invalidArgument .divisionByZero)) (op : Arithmetic)
    (x y : BitVec 64) : FailsBy P (op.onWords x y) := by
  cases op with
  | add | subtract | multiply => exact .ok _
  | divide | modulus =>
    simp only [Arithmetic.onWords]
    split
    · exact .error h
    · exact .ok _

theorem failsBy_datum (h : P (.invalidArgument .divisionByZero)) (op : Arithmetic) (a b : Datum) :
    FailsBy P (a.arithmetic op b) := by
  unfold Datum.arithmetic
  split
  · exact .ok _
  · exact .bind (failsBy_onWords h op _ _) fun _ _ => .ok _

namespace Store

variable (s : Store Body)

theorem failsBy_slot (h : Handle) : FailsByAbsence (s.slot h) := by
  unfold slot
  split
  · exact .ok _
  · exact .error rfl

theorem failsBy_buffer (h : Handle) : FailsByAbsence (s.buffer h) := by
  unfold buffer
  refine .bind (s.failsBy_slot h) fun x _ => ?_
  split
  · exact .ok _
  · exact .error rfl

theorem failsBy_size (h : Handle) :
    FailsByAbsence (do return (← s.buffer h).size : Except Failure Nat) :=
  .bind (s.failsBy_buffer h) fun _ _ => .ok _

theorem failsBy_locate (v : Value) (c : List Nat) : FailsByAbsence (s.locate v c) := by
  unfold locate
  refine .bind (failsBy_handle v) fun h _ => .bind (s.failsBy_slot h) fun x _ => ?_
  refine .bind (failsBy_layout v) fun l _ => .bind (failsBy_entryOffset l c) fun _ _ => ?_
  split
  · exact .ok _
  · exact .error rfl

theorem failsBy_fetch (v : Value) (c : List Nat) : FailsByAbsence (s.fetch v c) := by
  unfold fetch
  refine .bind (s.failsBy_locate v c) fun (h, i) _ => ?_
  exact .bind (s.failsBy_buffer h) fun data _ => failsBy_load data i

theorem failsBy_broadcast (v : Value) (c : List Nat) : FailsByAbsence (s.broadcast v c) := by
  unfold broadcast
  refine .bind (failsBy_layout v) fun l _ => ?_
  split
  · exact s.failsBy_fetch v []
  · exact s.failsBy_fetch v c

theorem failsBy_read (hP : ∀ e, e.isAbsence = true → P e) (v : Value)
    (htype : FailsBy P (ElementType.plain v.base).storable) : FailsBy P (s.read v) := by
  unfold read
  simp only [Layout.foldCoordinatesM_eq]
  refine .bind ((failsBy_layout v).imp hP) fun l _ => .bind htype fun k _ => ?_
  refine .bind ((failsBy_reserve k _).imp hP) fun _ _ => .bind ?_ fun _ _ => .ok _
  exact .foldlM (fun ds c => .bind ((s.failsBy_fetch v c).imp hP) fun _ _ => .ok _) _ _

end Store

end Answers

namespace Action

variable {Body α β γ : Type} {P Q : Failure → Prop}

/-- Where the action fails, on whatever state, its failure has the property. -/
def FailsBy (P : Failure → Prop) (x : Action Body α) : Prop := ∀ s, Emission.FailsBy P (x.exec s).1

namespace FailsBy

theorem pure (a : α) : FailsBy P (pure a : Action Body α) := fun _ => .ok a

theorem throw {e : Failure} (h : P e) : FailsBy P (throw e : Action Body α) := fun _ => .error h

theorem imp {x : Action Body α} (hx : FailsBy P x) (h : ∀ e, P e → Q e) : FailsBy Q x :=
  fun s => (hx s).imp h

theorem lift {x : Except Failure α} (hx : Emission.FailsBy P x) :
    FailsBy P (liftM x : Action Body α) := by
  intro s
  rw [exec_lift]
  exact hx

theorem reading {f : Store Body → Except Failure α} (hf : ∀ s, Emission.FailsBy P (f s)) :
    FailsBy P (reading f) := by
  intro s
  rw [exec_reading]
  exact hf s

theorem bind {x : Action Body α} {f : α → Action Body β} (hx : FailsBy P x)
    (hf : ∀ a, FailsBy P (f a)) : FailsBy P (x >>= f) := by
  intro s e he
  have hexec : (x >>= f).exec s = (.error e, ((x >>= f).exec s).2) := Prod.ext he rfl
  rcases exec_bind_eq_error_iff.mp hexec with h | ⟨a, s₁, -, h⟩
  · exact hx s e (by rw [h])
  · exact hf a s₁ e (by rw [h])

/-- What follows a check may rely on what it has found. -/
theorem lift_bind {x : Except Failure α} {f : α → Action Body β} (hx : Emission.FailsBy P x)
    (hf : ∀ a, x = .ok a → FailsBy P (f a)) : FailsBy P (liftM x >>= f) := by
  intro s
  rw [exec_bind, exec_lift]
  cases x with
  | error e => exact .error (hx e rfl)
  | ok a => exact hf a rfl s

theorem guard {c : Prop} [Decidable c] {e : Failure} {f : β → Action Body α} {x : Action Body α}
    (he : c → P e) (hx : ¬ c → FailsBy P x) :
    FailsBy P (if c then MonadExcept.throw e >>= f else x) := by
  split
  · next hc =>
    intro s
    rw [exec_bind, exec_throw]
    exact .error (he hc)
  · next hc => exact hx hc

theorem foldlM {f : β → γ → Action Body β} (hf : ∀ b c, FailsBy P (f b c)) (cs : List γ) (b : β) :
    FailsBy P (cs.foldlM f b) := by
  induction cs generalizing b with
  | nil => exact pure b
  | cons c cs ih =>
    rw [List.foldlM_cons]
    exact bind (hf b c) ih

end FailsBy

/-- The action fails only because something is not there, or for want of a handle. -/
abbrev FailsByAbsence (x : Action Body α) : Prop := FailsBy (·.isAbsence = true) x

theorem failsBy_newSlot (x : Slot) : FailsByAbsence (newSlot x : Action Body Handle) := by
  intro s
  rw [exec_newSlot]
  split
  · exact .ok _
  · exact .error rfl

theorem failsBy_newBuffer (data : Data) (l : Layout) :
    FailsByAbsence (newBuffer data l : Action Body Value) := by
  intro s
  rw [exec_newBuffer]
  split
  · exact .ok _
  · exact .error rfl

theorem failsBy_newStorage {type : ElementType} (hP : ∀ e, e.isAbsence = true → P e)
    (htype : Emission.FailsBy P type.storable) (l : Layout) :
    FailsBy P (newStorage type l : Action Body Value) := by
  unfold newStorage
  exact .bind (.lift (failsBy_zeroed hP htype _)) fun data => (failsBy_newBuffer data l).imp hP

theorem failsBy_writeCell (h : Handle) (i : Nat) (d : Datum) :
    FailsByAbsence (writeCell h i d : Action Body Unit) := by
  unfold writeCell
  refine .bind (.reading fun s => s.failsBy_size h) fun length => ?_
  split
  · exact .bind (.reading fun s => s.failsBy_slot h) fun slot => fun _ => .ok ()
  · exact .throw rfl

theorem failsBy_write (v : Value) (c : List Nat) (d : Datum) :
    FailsByAbsence (write v c d : Action Body Unit) := by
  unfold write
  exact .bind (.reading fun s => s.failsBy_locate v c) fun (h, i) => failsBy_writeCell h i d

section Filling

variable {type : ElementType} {shape : Layout} {f : Store Body → List Nat → Except Failure Datum}

/-- A new value is filled unless storage cannot hold its elements, its shape has no packed layout or an
element cannot be computed. -/
theorem failsBy_tabulate (hP : ∀ e, e.isAbsence = true → P e)
    (htype : Emission.FailsBy P type.storable)
    (hsizes : Emission.FailsBy P (Layout.ofSizes shape.logicalSize))
    (hf : ∀ s c, Emission.FailsBy P (f s c)) : FailsBy P (tabulate type shape f) := by
  unfold tabulate
  simp only [Layout.foldCoordinatesM_eq]
  refine .bind (.lift hsizes) fun l => .bind (failsBy_newStorage hP htype l) fun v => ?_
  refine .bind (.foldlM (fun _ c => ?_) _ _) fun _ => .pure v
  exact .bind (.reading fun s => hf s c) fun d => (failsBy_write v c d).imp hP

/-- Computing each element from that of an operand adds no way to fail. -/
theorem failsBy_map (hP : ∀ e, e.isAbsence = true → P e)
    (htype : Emission.FailsBy P type.storable)
    (hsizes : Emission.FailsBy P (Layout.ofSizes shape.logicalSize)) (v : Value) (g : Datum → Datum) :
    FailsBy P (tabulate type shape fun s c => return g (← s.fetch v c) : Action Body Value) :=
  failsBy_tabulate hP htype hsizes fun s c =>
    .bind ((s.failsBy_fetch v c).imp hP) fun d _ => .ok (g d)

end Filling

end Action

section Functions

variable {Body : Type} {P : Failure → Prop} {args : List Value}
  (habsence : ∀ e, e.isAbsence = true → P e) (hfault : ∀ e, e.isCallFault = true → P e)
  (hsizes : ∀ v ∈ args, ∀ l, v.layout = .ok l → Emission.FailsBy P (Layout.ofSizes l.logicalSize))

include habsence hfault hsizes

theorem failsBy_resultLayout (f : Intrinsic) {v : Value} (hv : v ∈ args) (second? : Option Value) :
    FailsBy P (f.resultLayout v second?) := by
  have hlayout : ∀ v : Value, FailsBy P v.layout := fun v => (failsBy_layout v).imp habsence
  unfold Intrinsic.resultLayout
  refine .bind (hlayout v) fun l hl => ?_
  split
  · exact .guard (fun _ => hfault _ rfl) fun _ => .guard (fun _ => hfault _ rfl) fun _ => .ok _
  · exact .guard (fun _ => hfault _ rfl) fun _ => .guard (fun _ => hfault _ rfl) fun _ => .ok _
  · refine .guard (fun _ => hfault _ rfl) fun _ => .bind (hlayout _) fun r _ => ?_
    exact .guard (fun _ => hfault _ rfl) fun _ => .ok _
  · refine .guard (fun _ => hfault _ rfl) fun _ => .bind (hlayout _) fun r _ => ?_
    exact .guard (fun _ => hfault _ rfl) fun _ => .ok _
  · refine .bind (hlayout _) fun r _ => .guard (fun _ => hfault _ rfl) fun _ => ?_
    exact hsizes v hv l hl
  · exact hsizes v hv l hl

/-- A call without a template breaks a rule, or it lacks something or a packed layout. -/
theorem failsBy_template (f : Intrinsic) : FailsBy P (f.template args) := by
  unfold Intrinsic.template
  refine .guard (fun _ => hfault _ rfl) fun _ => ?_
  refine .bind (.forM fun v _ => failsBy_ensureDefined (hfault _ rfl)) fun _ _ => ?_
  split
  · exact .error (hfault _ rfl)
  · refine .guard (fun _ => hfault _ rfl) fun _ => .bind ?_ fun _ _ => ?_
    · unfold Intrinsic.checkSecond
      split
      · split
        · exact .ok ()
        · exact .error (hfault _ rfl)
      · exact .ok ()
    · exact .bind (failsBy_resultLayout habsence hfault hsizes f List.mem_cons_self _) fun _ _ => .ok _

variable (htype : ∀ type : ElementType, Emission.FailsBy P type.storable)

include htype

/-- Evaluation adds to this only that storage cannot hold the elements. -/
theorem Action.failsBy_evaluate (f : Intrinsic) : FailsBy P (evaluate f args : Action Body Value) := by
  have hfetch : ∀ v c, FailsBy P (reading (·.fetch v c) : Action Body Datum) :=
    fun v c => .reading fun s => (s.failsBy_fetch v c).imp habsence
  have hsingle : ∀ (result : Value) (shape : Layout) (d : Datum), f.template args = .ok result →
      result.layout = .ok shape → f.selects = true →
      FailsBy P (tabulate result.type shape fun _ _ => .ok d : Action Body Value) := by
    intro result shape d ht hshape hf
    obtain rfl := Except.ok.inj ((Intrinsic.layout_of_selects hf ht).symm.trans hshape)
    exact failsBy_tabulate habsence (htype _) (.ok _) fun _ _ => .ok d
  have hmap : ∀ (result : Value) {v : Value} (l : Layout) (g : Datum → Datum), v ∈ args →
      v.layout = .ok l →
      FailsBy P (tabulate result.type l fun s c => return g (← s.fetch v c) : Action Body Value) :=
    fun _ v l g hv hl => failsBy_map habsence (htype _) (hsizes v hv l hl) v g
  have hread : ∀ v, FailsBy P (reading (·.read v) : Action Body Data) :=
    fun v => .reading fun s => s.failsBy_read habsence v (htype _)
  have hreduce : ∀ data, Emission.FailsBy P (f.reduce data) := fun data =>
    .bind ((failsBy_load data 0).imp habsence) fun _ _ => .ok _
  unfold evaluate
  refine .lift_bind (failsBy_template habsence hfault hsizes f) fun result ht => ?_
  refine .lift_bind ((failsBy_layout result).imp habsence) fun shape hshape => ?_
  split
  · exact .bind (hread _) fun _ => .lift_bind (hreduce _) fun d _ => hsingle result shape d ht hshape rfl
  · exact .bind (hread _) fun _ => .lift_bind (hreduce _) fun d _ => hsingle result shape d ht hshape rfl
  · exact .bind (hfetch _ _) fun _ => .bind (hfetch _ _) fun _ => hsingle result shape _ ht hshape rfl
  · exact .bind (hfetch _ _) fun _ => .bind (hfetch _ _) fun _ => hsingle result shape _ ht hshape rfl
  · refine .bind (hfetch _ _) fun x => .lift_bind ((failsBy_layout _).imp habsence) fun l hl => ?_
    exact hmap result l (·.pow x) List.mem_cons_self hl
  · refine .lift_bind ((failsBy_layout _).imp habsence) fun l hl => ?_
    exact hmap result l (·.applyUnary f) List.mem_cons_self hl
  · exact .throw (hfault _ rfl)

theorem Action.failsBy_call {d : Declaration Body} {f : Intrinsic} (hd : d.intrinsic? = some f)
    (eval : Body → List Value → Action Body (Option Value)) : FailsBy P (call eval d args) := by
  rw [call_intrinsic eval hd]
  refine .bind (.lift ?_) fun _ => .bind (failsBy_evaluate habsence hfault hsizes htype f) fun v =>
    .pure (some v)
  unfold Declaration.checkCall
  refine .bind (.forM fun a _ => failsBy_ensureDefined (hfault _ rfl)) fun _ _ => ?_
  rw [hd]
  exact .bind (failsBy_template habsence hfault hsizes f) fun _ _ => .ok ()

end Functions

end Emission

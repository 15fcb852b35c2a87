import Emission.Proofs.Store.Soundness
import Emission.Store.Addressing
import Emission.Store.Call
import Emission.Store.Loop

/-!
What every operation keeps. An operation advances the state, also when it fails half way, and the
values that it makes are backed when they are made. Nothing is asked of its operands: what is written
through an operand that is not backed cannot go outside a buffer. Definitions either add one entry for
a free name or change nothing.
-/
namespace Emission

variable {Body : Type}

/-- The values among those given to a body that are copies of its arguments. -/
def byValue (parameters : List Parameter) (vs : List Value) : List Value :=
  (parameters.zip vs).filterMap fun (p, v) => if p.isScalar then some v else none

/-- A name has a definition if it is registered with a body. -/
theorem Store.definition_eq_ok_iff {s : Store Body} {name : String} {d : Declaration Body} {body : Body} :
    s.definition name = .ok (d, body) ↔ s.function? name = some d ∧ d.definition? = some body := by
  unfold definition
  cases s.function? name with
  | none => simp
  | some d' =>
    simp only [Option.some.injEq]
    cases hbody : d'.definition? with
    | none =>
      refine iff_of_false nofun ?_
      rintro ⟨rfl, hsome⟩
      rw [hbody] at hsome
      cases hsome
    | some body' =>
      simp only [Except.ok.injEq, Prod.mk.injEq]
      refine and_congr_right ?_
      rintro rfl
      rw [hbody, Option.some.injEq]

namespace Store

variable {s : Store Body} {d : Declaration Body}

/-- The declaration is not of an intrinsic, and there is no function of its name. -/
def Admits (s : Store Body) (d : Declaration Body) : Prop :=
  d.intrinsic? = none ∧ s.function? d.name = none

theorem exec_define_admitted (h : s.Admits d) (body : Body) : (Action.define d body).exec s =
    (.ok (d.define body), { s with functions := (d.name, d.define body) :: s.functions }) := by
  unfold Action.define
  simp only [Declaration.isIntrinsic, h.1, h.2, Option.isSome_none, Bool.false_eq_true, if_false,
    Action.exec_bind, Action.exec_get, Action.exec_modify, Action.exec_pure]

theorem exec_define_refused (h : ¬ s.Admits d) (body : Body) :
    (Action.define d body).exec s = (.error (.invalidFunction d.name), s) := by
  unfold Action.define
  by_cases hd : d.isIntrinsic = true
  · simp only [hd, if_true, Action.exec_bind, Action.exec_throw]
  · have hnone : d.intrinsic? = none := Option.not_isSome_iff_eq_none.mp hd
    have hsome : (s.function? d.name).isSome = true := by
      rw [Option.isSome_iff_ne_none]
      exact fun hfree => h ⟨hnone, hfree⟩
    simp only [hd, hsome, Bool.false_eq_true, if_false, if_true, Action.exec_bind, Action.exec_get, Action.exec_throw]

end Store

namespace Action

open Store

variable {α β γ : Type} {s : Store Body}

section Storage

theorem keeps_newSlot {x : Slot} (hx : s.Inside x) :
    Keeps s (newSlot x) fun h s' => s'.slots[h.index]? = some x := by
  have hexec := exec_newSlot s x
  by_cases hroom : s.slots.size < handleLimit
  · exact .of_ok (hexec.trans (if_pos hroom)) (advances_pushSlot hx) Array.getElem?_push_size
  · exact .of_error (hexec.trans (if_neg hroom)) (.refl s) trivial

theorem keeps_newBuffer {data : Data} {l : Layout} (hl : l.Obtainable)
    (hroom : l.memorySize ≤ data.size) (hfits : data.size < cellLimit) :
    Keeps s (newBuffer data l) fun v s' => s'.Backed v := by
  have hexec := exec_newBuffer s data l
  by_cases hslots : s.slots.size < handleLimit
  · exact .of_ok (hexec.trans (if_pos hslots)) (advances_withBuffer hfits)
      (s.fresh_backing data hl hroom hfits).toBacked
  · exact .of_error (hexec.trans (if_neg hslots)) (advances_pushBuffer hfits) trivial

theorem keeps_newStorage (type : ElementType) {l : Layout} (hl : l.Obtainable) :
    Keeps s (newStorage type l) fun v s' => s'.Backed v := by
  unfold newStorage
  refine Keeps.after_lift fun data hdata => ?_
  obtain ⟨k, -, hdata⟩ := bind_eq_ok_iff.mp hdata
  obtain ⟨_, hroom, hdata⟩ := bind_eq_ok_iff.mp hdata
  obtain rfl := Except.ok.inj hdata
  refine keeps_newBuffer hl (by simp) ?_
  rw [Data.size_zeros]
  exact reserve_eq_ok_iff.mp hroom

theorem keeps_writeCell (h : Handle) (i : Nat) (d : Datum) :
    Keeps s (writeCell h i d) fun _ _ => True := by
  unfold writeCell
  refine Keeps.after_reading fun length _ => ?_
  by_cases hi : i < length
  · rw [if_pos hi]
    refine Keeps.after_reading fun slot _ => ?_
    exact (keeps_modify (advances_withCell slot.buffer i d)).imp (fun _ _ _ _ => trivial)
      fun _ h => h
  · rw [if_neg hi]
    exact keeps_throw _

theorem keeps_write (v : Value) (c : List Nat) (d : Datum) :
    Keeps s (write v c d) fun _ _ => True := by
  unfold write
  exact Keeps.after_reading fun ⟨h, i⟩ _ => keeps_writeCell h i d

theorem keeps_fill (v : Value) (f : Store Body → List Nat → Except Failure Datum)
    (cs : List (List Nat)) :
    Keeps s (cs.foldlM (fun _ c => do write v c (← reading (f · c))) ()) fun _ _ => True := by
  refine Keeps.foldlM (fun s _ c => ?_) _ _
  exact Keeps.after_reading fun d _ => keeps_write v c d

/-- Whatever is filled in, and whether all of it can be computed or not. -/
theorem keeps_tabulate (type : ElementType) (shape : Layout)
    (f : Store Body → List Nat → Except Failure Datum) :
    Keeps s (tabulate type shape f) fun v s' => s'.Backed v := by
  unfold tabulate
  refine Keeps.after_lift fun l hl => ?_
  refine (keeps_newStorage type (Layout.obtainable_ofSizes hl)).bind fun v s₁ _ hv => ?_
  rw [Layout.foldCoordinatesM_eq]
  exact (keeps_fill v f _).bind fun _ s₂ hs₂ _ => .pure (hv.mono hs₂.extension)

theorem keeps_copyCells (h h' : Handle) (count i : Nat) :
    Keeps s (copyCells h h' count i) fun _ _ => True := by
  induction count generalizing s i with
  | zero => exact .pure trivial
  | succ count ih =>
    unfold copyCells
    refine Keeps.after_reading fun d _ => Keeps.after_reading fun target _ => ?_
    exact (keeps_writeCell h' (target.start + i) d).bind fun _ _ _ _ => ih (i + 1)

theorem keeps_copy (v w : Value) : Keeps s (copy v w) fun _ _ => True := by
  unfold copy
  refine Keeps.after_lift fun _ _ => Keeps.after_lift fun _ _ => Keeps.guard fun _ => ?_
  refine Keeps.after_lift fun l _ => Keeps.after_lift fun l' _ => Keeps.guard fun _ => ?_
  refine Keeps.after_lift fun h _ => ?_
  refine (keeps_discard (keeps_reading _)).bind fun _ _ _ _ => Keeps.after_lift fun h' _ => ?_
  exact (keeps_discard (keeps_reading _)).bind fun _ _ _ _ => keeps_copyCells h h' _ 0

end Storage

section Requests

theorem keeps_allocate (type : ElementType) {l : Layout} (hl : l.Obtainable) :
    Keeps s (allocate type l) fun v s' => s'.Backed v := by
  unfold allocate
  exact Keeps.guard fun _ => keeps_newStorage type hl

theorem keeps_allocateRow (type : ElementType) (length : Nat) :
    Keeps s (allocateRow type length) fun v s' => s'.Backed v := by
  unfold allocateRow
  exact Keeps.after_lift fun l hl => keeps_allocate type (Layout.obtainable_ofSizes hl)

theorem keeps_storeConstant (c : Constant) :
    Keeps s (storeConstant c) fun v s' => s'.Backed v := by
  unfold storeConstant
  refine Keeps.after_lift fun l hl => ?_
  have hsize : l.memorySize = c.data.size := by
    rw [(Layout.packed_volume hl).2, List.prod_singleton]
  exact keeps_newBuffer (Layout.obtainable_ofSizes hl) (Nat.le_of_eq hsize) c.fits

theorem keeps_allocateNamed (hs : s.Sound) (scope : Scope) (name : String) (type : ElementType)
    {l : Layout} (hl : l.Obtainable) :
    Keeps s (allocateNamed scope name type l) fun v s' => s'.Backed v := by
  unfold allocateNamed
  refine Keeps.guard fun _ => ?_
  refine Keeps.after_get (Keeps.after_get ?_)
  cases hnamed : s.named? (s.key scope name) with
  | some existing =>
    have hbacked : s.Backed existing := hs.names _ (mem_of_lookup hnamed)
    exact (keeps_lift _).imp (fun v _ _ ⟨hv, h⟩ => h ▸ hbacked.reuse hl hv) fun _ h => h
  | none =>
    refine (keeps_newStorage type hl).bind fun v s₁ _ hv => ?_
    refine (keeps_modify (advances_name _ hv)).bind fun _ s₂ hs₂ _ => ?_
    exact .pure (hv.mono hs₂.extension)

theorem keeps_negate (v : Value) : Keeps s (negate v) fun w s' => s'.Backed w := by
  unfold negate
  refine Keeps.after_lift fun _ _ => Keeps.after_lift fun l _ => Keeps.guard fun _ => ?_
  exact keeps_tabulate _ _ _

theorem keeps_arithmetic (op : Arithmetic) (v w : Value) :
    Keeps s (arithmetic op v w) fun x s' => s'.Backed x := by
  unfold arithmetic
  refine Keeps.after_lift fun _ _ => Keeps.after_lift fun _ _ => ?_
  refine Keeps.guard fun _ => Keeps.guard fun _ => ?_
  exact Keeps.after_lift fun _ _ => Keeps.after_lift fun l _ => keeps_tabulate _ _ _

theorem keeps_compare (op : Comparison) (v w : Value) :
    Keeps s (compare op v w) fun x s' => s'.Backed x := by
  unfold compare
  refine Keeps.guard fun _ => Keeps.guard fun _ => ?_
  exact Keeps.after_lift fun _ _ => Keeps.after_lift fun l _ => keeps_tabulate _ _ _

theorem keeps_cast (v : Value) (type : ElementType) :
    Keeps s (cast v type) fun w s' => s'.Backed w := by
  unfold cast
  refine Keeps.guard fun _ => Keeps.after_lift fun _ _ => ?_
  split
  · exact Keeps.after_lift fun l _ => keeps_tabulate _ _ _
  · exact keeps_throw _

theorem keeps_evaluate (f : Intrinsic) (args : List Value) :
    Keeps s (evaluate f args) fun w s' => s'.Backed w := by
  unfold evaluate
  refine Keeps.after_lift fun result _ => Keeps.after_lift fun shape _ => ?_
  split
  · exact Keeps.after_reading fun _ _ => Keeps.after_lift fun _ _ => keeps_tabulate _ _ _
  · exact Keeps.after_reading fun _ _ => Keeps.after_lift fun _ _ => keeps_tabulate _ _ _
  · exact Keeps.after_reading fun _ _ => Keeps.after_reading fun _ _ => keeps_tabulate _ _ _
  · exact Keeps.after_reading fun _ _ => Keeps.after_reading fun _ _ => keeps_tabulate _ _ _
  · exact Keeps.after_reading fun _ _ => Keeps.after_lift fun _ _ => keeps_tabulate _ _ _
  · exact Keeps.after_lift fun _ _ => keeps_tabulate _ _ _
  · exact keeps_throw _

/-- A view of a cell of a backed value is backed. -/
theorem keeps_offset (v : Value) (i : Scalar) :
    Keeps s (offset v i) fun w s' => s.Backed v → s'.Backed w := by
  unfold offset
  refine Keeps.after_lift fun _ _ => Keeps.after_lift fun _ _ => Keeps.guard fun _ => ?_
  refine Keeps.after_lift fun h hhandle => Keeps.after_reading fun slot hslot => ?_
  refine Keeps.after_reading fun d _ => Keeps.after_lift fun n _ => ?_
  refine Keeps.after_reading fun length hlength => ?_
  obtain ⟨data, hdata, hsize⟩ := bind_eq_ok_iff.mp hlength
  obtain rfl := Except.ok.inj hsize
  have hcells := (buffer_eq_ok_iff hslot).mp hdata
  by_cases hinside : slot.start + n < data.size
  · rw [if_pos hinside]
    refine (keeps_newSlot (x := ⟨slot.buffer, slot.start + n⟩) ⟨data, hcells, Or.inr hinside⟩).bind
      fun h' s' hs' hslot' => .pure fun hv => ?_
    obtain ⟨l, slot', data', b⟩ := hv.mono hs'.extension
    obtain ⟨h'', hhandle', hslot'', -⟩ := b.exists_handle
    obtain rfl : h = h'' := Except.ok.inj (hhandle.symm.trans hhandle')
    -- the slot and the length are still those that were read
    obtain rfl : slot = slot' := by
      have hold := hs'.extension.slots _ _ (slot_eq_ok_iff.mp hslot)
      exact Option.some.inj (hold.symm.trans (slot_eq_ok_iff.mp hslot''))
    obtain ⟨a, ha, -, hsize⟩ := hs'.extension.buffers _ _ hcells
    obtain rfl : a = data' := Option.some.inj (ha.symm.trans b.cells)
    have hw : s'.Points ⟨v.type, some .scalar, some h'⟩ v.type ⟨slot.buffer, slot.start + n⟩ :=
      ⟨h', rfl, hslot'⟩
    exact (hw.backing b rfl (hsize ▸ hinside)).toBacked
  · rw [if_neg hinside]
    exact keeps_throw _

end Requests

section Coordinates

theorem keeps_indexConstant (k : IntKind) (n : Nat) :
    Keeps s (indexConstant k n) fun _ _ => True := by
  unfold indexConstant
  by_cases hn : n < k.bound
  · rw [if_pos hn]
    refine (keeps_storeConstant _).bind fun v _ _ _ => ?_
    exact (keeps_lift _).imp (fun _ _ _ _ => trivial) fun _ h => h
  · rw [if_neg hn]
    exact keeps_throw _

theorem keeps_scalarArithmetic (op : Arithmetic) (a b : Scalar) :
    Keeps s (scalarArithmetic op a b) fun _ _ => True := by
  unfold scalarArithmetic
  refine (keeps_arithmetic op a.value b.value).bind fun v _ _ _ => ?_
  exact (keeps_lift _).imp (fun _ _ _ _ => trivial) fun _ h => h

theorem keeps_applyNumber (k : IntKind) (op : Arithmetic) (neutral n : Nat) (a : Scalar) :
    Keeps s (applyNumber k op neutral n a) fun _ _ => True := by
  unfold applyNumber
  by_cases hn : n = neutral
  · rw [if_pos hn]
    exact .pure trivial
  · rw [if_neg hn]
    exact (keeps_indexConstant k n).bind fun b _ _ _ => keeps_scalarArithmetic op a b

theorem keeps_addTerm (total? : Option Scalar) (term : Scalar) :
    Keeps s (addTerm total? term) fun _ _ => True := by
  unfold addTerm
  cases total? with
  | none => exact .pure trivial
  | some total => exact keeps_scalarArithmetic .add total term

theorem keeps_sumTerms (k : IntKind) (coordinates : List Scalar) (dims : List Dimension)
    (total? : Option Scalar) : Keeps s (sumTerms k coordinates dims total?) fun _ _ => True := by
  induction dims generalizing s total? with
  | nil => exact .pure trivial
  | cons d dims ih =>
    unfold sumTerms
    split
    · unfold indexTerm
      refine ((keeps_applyNumber k .add 0 d.offset _).bind fun b _ _ _ =>
        keeps_applyNumber k .multiply 1 d.stride b).bind fun term _ _ _ => ?_
      exact (keeps_addTerm total? term).bind fun total _ _ _ => ih (some total)
    · exact keeps_throw _

theorem keeps_calculateOffset (l : Layout) (coordinates : List Scalar) :
    Keeps s (calculateOffset l coordinates) fun _ _ => True := by
  unfold calculateOffset
  refine Keeps.after_lift fun _ _ => Keeps.after_lift fun k _ => ?_
  refine (keeps_sumTerms k coordinates l.dims none).bind fun total? _ _ _ => ?_
  cases total? with
  | none => exact keeps_indexConstant k 0
  | some total => exact .pure trivial

theorem keeps_offsetAt (v : Value) (coordinates : List Scalar) :
    Keeps s (offsetAt v coordinates) fun w s' => s.Backed v → s'.Backed w := by
  unfold offsetAt
  refine Keeps.after_lift fun _ _ => Keeps.after_lift fun l _ => ?_
  refine (keeps_calculateOffset l coordinates).bind fun a s' hs' _ => ?_
  exact (keeps_offset v a).imp (fun w _ _ h hv => h (hv.mono hs'.extension)) fun _ h => h

end Coordinates

section Bodies

theorem keeps_indexScalar (c : Nat) : Keeps s (indexScalar c) fun a s' => s'.Backed a.value := by
  unfold indexScalar
  by_cases hc : c < IntKind.int32.bound
  · rw [if_pos hc]
    have hroom : Layout.scalar.memorySize ≤
        (Data.ofList (.integer .int32) [.integer .int32 (BitVec.ofNat 32 c)]).size := Nat.le_refl 1
    refine (keeps_newBuffer Layout.obtainable_scalar hroom
      one_lt_cellLimit).bind fun v s₁ _ hv => ?_
    exact (keeps_lift _).imp (fun a s₂ _ ⟨ha, hs₂⟩ => hs₂ ▸ hv.ofValue ha) fun _ h => h
  · rw [if_neg hc]
    exact keeps_throw _

/-- All scalars of a round are still backed when the last of them has been made. -/
theorem keeps_indexScalars (cs : List Nat) :
    Keeps s (indexScalars cs) fun as s' => ∀ a ∈ as, s'.Backed a.value := by
  induction cs generalizing s with
  | nil => exact .pure (by simp)
  | cons c cs ih =>
    unfold indexScalars
    refine (keeps_indexScalar c).bind fun a s₁ _ ha => ih.bind fun as s₂ hs₂ has => ?_
    exact .pure (List.forall_mem_cons.mpr ⟨ha.mono hs₂.extension, has⟩)

theorem keeps_passByValue (a : Value) : Keeps s (passByValue a) fun v s' => s'.Backed v := by
  unfold passByValue
  refine (keeps_newStorage _ Layout.obtainable_scalar).bind fun v s₁ _ hv => ?_
  exact (keeps_copy a v).bind fun _ s₂ hs₂ _ => .pure (hv.mono hs₂.extension)

theorem keeps_bindArguments (parameters : List Parameter) (args : List Value) :
    Keeps s (bindArguments parameters args) fun vs s' =>
      ∀ v ∈ byValue parameters vs, s'.Backed v := by
  induction parameters generalizing s args with
  | nil => exact .pure (by simp [byValue])
  | cons p parameters ih =>
    cases args with
    | nil => exact .pure (by simp [byValue])
    | cons a args =>
      unfold bindArguments
      by_cases hp : p.isScalar = true
      · simp only [hp, if_true]
        refine (keeps_passByValue a).bind fun v s₁ _ hv => (ih args).bind fun vs s₂ hs₂ hvs => ?_
        refine .pure ?_
        simp only [byValue, List.zip_cons_cons, List.filterMap_cons, hp, if_true]
        exact List.forall_mem_cons.mpr ⟨hv.mono hs₂.extension, hvs⟩
      · simp only [hp, Bool.false_eq_true, if_false, pure_bind]
        refine (ih args).bind fun vs s₂ hs₂ hvs => .pure ?_
        simp only [byValue, List.zip_cons_cons, List.filterMap_cons, hp, Bool.false_eq_true,
          if_false]
        exact hvs

end Bodies

end Action

end Emission

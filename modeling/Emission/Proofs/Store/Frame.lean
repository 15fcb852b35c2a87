import Emission.Proofs.Store.Tabulation
import Emission.Store.Addressing
import Emission.Store.Call
import Emission.Store.Loop

/-!
What operations leave alone. Most operations only add buffers and slots, however they end; they write,
if they write at all, into a buffer that they have made. So does the passing of arguments, which copies them
into new storage. Copying into storage that is there changes cells of old buffers as well. None of them
touches the tables of names, functions and calls.
-/
namespace Emission

variable {Body α β γ : Type}

namespace Store

/-- The tables of names, functions and calls are as they were. -/
def Retains (s s' : Store Body) : Prop :=
  ∃ bs hs, s' = { s with buffers := bs, slots := hs }

/-- What holds of the one state holds of the other. -/
def Preserving (P : Store Body → Prop) (s s' : Store Body) : Prop := P s → P s'

instance (P : Store Body → Prop) : Std.Refl (Preserving P) := ⟨fun _ => id⟩

instance (P : Store Body → Prop) : IsTrans (Store Body) (Preserving P) :=
  ⟨fun _ _ _ h h' hs => h' (h hs)⟩

variable {s s' s'' : Store Body}

namespace Retains

theorem refl (s : Store Body) : s.Retains s := ⟨_, _, rfl⟩

theorem trans (h : s.Retains s') (h' : s'.Retains s'') : s.Retains s'' := by
  obtain ⟨bs, hs, rfl⟩ := h
  obtain ⟨bs', hs', rfl⟩ := h'
  exact ⟨bs', hs', rfl⟩

instance : Std.Refl (@Retains Body) := ⟨refl⟩

instance : IsTrans (Store Body) Retains := ⟨fun _ _ _ => trans⟩

theorem names_eq (h : s.Retains s') : s'.names = s.names := by
  obtain ⟨bs, hs, rfl⟩ := h
  rfl

end Retains

theorem Grows.toRetains (h : s.Grows s') : s.Retains s' := by
  obtain ⟨bs, hs, rfl⟩ := h
  exact ⟨_, _, rfl⟩

theorem retains_withCell (s : Store Body) (buffer i : Nat) (d : Datum) :
    s.Retains (s.withCell buffer i d) := ⟨_, _, rfl⟩

/-- A cell of an added buffer may change as well. -/
theorem Grows.withCell (h : s.Grows s') {buffer : Nat} (hbuffer : s.buffers.size ≤ buffer)
    (i : Nat) (d : Datum) : s.Grows (s'.withCell buffer i d) := by
  obtain ⟨bs, hs, rfl⟩ := h
  refine ⟨bs.modify (buffer - s.buffers.size) (·.set i d), hs, ?_⟩
  have hmodify : (s.buffers ++ bs).modify buffer (·.set i d) =
      s.buffers ++ bs.modify (buffer - s.buffers.size) (·.set i d) := by
    refine Array.ext_getElem? fun j => ?_
    rw [Array.getElem?_modify, Array.getElem?_append, Array.getElem?_append, Array.getElem?_modify]
    by_cases hj : j < s.buffers.size
    · have hne : buffer ≠ j := by omega
      simp only [hj, hne, if_true, if_false]
    · have hiff : buffer - s.buffers.size = j - s.buffers.size ↔ buffer = j := by omega
      simp only [hj, hiff, if_false]
  simp only [Store.withCell, hmodify]

end Store

namespace Action

open Store

variable {R : Store Body → Store Body → Prop}

/-- What holds of a state after a bind, if it holds after the first part and after what follows that. -/
theorem state_bind {x : Action Body α} {f : α → Action Body β} {s : Store Body}
    {P : Store Body → Prop} (hx : P (x.exec s).2)
    (hf : ∀ a s', x.exec s = (.ok a, s') → P s' → P ((f a).exec s').2) :
    P ((x >>= f).exec s).2 := by
  rw [exec_bind]
  rcases hexec : x.exec s with ⟨e | a, s'⟩
  · rw [hexec] at hx
    exact hx
  · rw [hexec] at hx
    exact hf a s' hexec hx

/-- From whatever state, and however it ends, the action leads to a related state. -/
def Obeys (R : Store Body → Store Body → Prop) (x : Action Body α) : Prop :=
  ∀ s, R s (x.exec s).2

namespace Obeys

theorem imp {R' : Store Body → Store Body → Prop} {x : Action Body α} (hx : Obeys R x)
    (h : ∀ s s', R s s' → R' s s') : Obeys R' x :=
  fun s => h _ _ (hx s)

theorem pure [Std.Refl R] (a : α) : Obeys R (pure a) := refl_of R

theorem throw [Std.Refl R] (e : Failure) : Obeys R (throw e : Action Body α) := refl_of R

theorem lift [Std.Refl R] (x : Except Failure α) : Obeys R (liftM x : Action Body α) := by
  intro s
  rw [exec_lift]
  exact refl_of R s

theorem reading [Std.Refl R] (f : Store Body → Except Failure α) : Obeys R (reading f) := by
  intro s
  rw [exec_reading]
  exact refl_of R s

theorem bind [IsTrans _ R] {x : Action Body α} {f : α → Action Body β} (hx : Obeys R x)
    (hf : ∀ a, Obeys R (f a)) : Obeys R (x >>= f) := by
  intro s
  exact state_bind (hx s) fun a s' _ hs => trans_of R hs (hf a s')

/-- What follows a check may use what it has found. -/
theorem bind_lift [Std.Refl R] {x : Except Failure α} {f : α → Action Body β}
    (hf : ∀ a, x = .ok a → Obeys R (f a)) : Obeys R (liftM x >>= f) := by
  intro s
  rw [exec_bind, exec_lift]
  cases hx : x with
  | error e => exact refl_of R s
  | ok a => exact hf a hx s

theorem discard [Std.Refl R] [IsTrans _ R] {x : Action Body α} (hx : Obeys R x) :
    Obeys R (discard x) :=
  bind hx fun _ => pure ()

theorem guard [Std.Refl R] [IsTrans _ R] {c : Prop} [Decidable c] {e : Failure}
    {f : β → Action Body α} {x : Action Body α} (hx : Obeys R x) :
    Obeys R (if c then MonadExcept.throw e >>= f else x) := by
  split
  · intro s
    rw [exec_bind, exec_throw]
    exact refl_of R s
  · exact hx

theorem foldlM [Std.Refl R] [IsTrans _ R] {f : β → γ → Action Body β}
    (hf : ∀ b c, Obeys R (f b c)) (cs : List γ) (b : β) : Obeys R (cs.foldlM f b) := by
  induction cs generalizing b with
  | nil => exact .pure b
  | cons c cs ih =>
    rw [List.foldlM_cons]
    exact .bind (hf b c) ih

end Obeys

section Adding

theorem adds_newSlot (x : Slot) : Obeys Grows (newSlot x : Action Body Handle) := by
  intro s
  rw [exec_newSlot]
  split
  · exact s.grows_pushSlot x
  · exact .refl s

theorem adds_newBuffer (data : Data) (l : Layout) :
    Obeys Grows (newBuffer data l : Action Body Value) := by
  intro s
  rw [exec_newBuffer]
  split
  · exact s.grows_withBuffer data
  · exact s.grows_pushBuffer data

theorem adds_newStorage (type : ElementType) (l : Layout) :
    Obeys Grows (newStorage type l : Action Body Value) := by
  unfold newStorage
  exact .bind (.lift _) fun data => adds_newBuffer data l

theorem adds_allocate (type : ElementType) (l : Layout) :
    Obeys Grows (allocate type l : Action Body Value) := by
  unfold allocate
  exact .guard (adds_newStorage type l)

theorem adds_allocateRow (type : ElementType) (length : Nat) :
    Obeys Grows (allocateRow type length : Action Body Value) := by
  unfold allocateRow
  exact .bind (.lift _) fun l => adds_allocate type l

theorem adds_storeConstant (c : Constant) :
    Obeys Grows (storeConstant c : Action Body Value) := by
  unfold storeConstant
  exact .bind (.lift _) fun l => adds_newBuffer c.data l

/-- Whatever a write does, it does to one cell of the buffer behind the handle. -/
theorem writeCell_cases (s : Store Body) (h : Handle) (i : Nat) (d : Datum) :
    ((writeCell h i d).exec s).2 = s ∨ ∃ x, s.slot h = .ok x ∧
      ((writeCell h i d).exec s).2 = s.withCell x.buffer i d := by
  unfold writeCell
  rw [exec_bind, exec_reading]
  cases hbuffer : s.buffer h with
  | error e => exact Or.inl rfl
  | ok data =>
    obtain ⟨x, hx, -⟩ := bind_eq_ok_iff.mp hbuffer
    by_cases hi : i < data.size
    · refine Or.inr ⟨x, hx, ?_⟩
      simp only [ok_bind, pure_eq_ok, hi, if_true, exec_bind, exec_reading, hx, exec_modify]
      rfl
    · refine Or.inl ?_
      simp only [ok_bind, pure_eq_ok, hi, if_false, exec_throw]

theorem handle_of_locate {s : Store Body} {v : Value} {c : List Nat} {h : Handle} {i : Nat}
    (hlocate : s.locate v c = .ok (h, i)) : v.handle = .ok h := by
  unfold locate at hlocate
  obtain ⟨h', hh, hlocate⟩ := bind_eq_ok_iff.mp hlocate
  obtain ⟨_, -, hlocate⟩ := bind_eq_ok_iff.mp hlocate
  obtain ⟨_, -, hlocate⟩ := bind_eq_ok_iff.mp hlocate
  obtain ⟨_, -, hlocate⟩ := bind_eq_ok_iff.mp hlocate
  split at hlocate
  · cases hlocate
    exact hh
  · cases hlocate

theorem write_cases (s : Store Body) (v : Value) (c : List Nat) (d : Datum) :
    ((write v c d).exec s).2 = s ∨ ∃ h x i, v.handle = .ok h ∧ s.slot h = .ok x ∧
      ((write v c d).exec s).2 = s.withCell x.buffer i d := by
  unfold write
  rw [exec_bind, exec_reading]
  cases hlocate : s.locate v c with
  | error e => exact Or.inl rfl
  | ok place =>
    obtain ⟨h, i⟩ := place
    rcases writeCell_cases s h i d with hsame | ⟨x, hx, hcell⟩
    · exact Or.inl hsame
    · exact Or.inr ⟨h, x, i, handle_of_locate hlocate, hx, hcell⟩

/-- There is no storage for elements of other types than the kinds. -/
theorem newStorage_cases (s : Store Body) (type : ElementType) (l : Layout) :
    (∃ k, type = .plain (.cell k)) ∨
      (newStorage type l).exec s = (.error (.invalidValueType (.unstorable type)), s) := by
  cases type with
  | plain b =>
    cases b with
    | void => exact Or.inr rfl
    | cell k => exact Or.inl ⟨k, rfl⟩
  | pointer b => exact Or.inr rfl

theorem newStorage_eq_ok {s s' : Store Body} {type : ElementType} {l : Layout} {v : Value}
    (hexec : (newStorage type l).exec s = (.ok v, s')) : ∃ k, type = .plain (.cell k) ∧
      v = s.fresh k l ∧ s' = s.withBuffer (.zeros k l.memorySize) := by
  rcases newStorage_cases s type l with ⟨k, rfl⟩ | hfail
  · by_cases hfits : l.memorySize < cellLimit
    · rw [exec_newStorage s k hfits] at hexec
      split at hexec
      · obtain ⟨hv, rfl⟩ := Prod.mk.inj hexec
        exact ⟨k, rfl, (Except.ok.inj hv).symm, rfl⟩
      · cases hexec
    · rw [exec_newStorage_without_room s k hfits] at hexec
      cases hexec
  · rw [hfail] at hexec
    cases hexec

/-- The handle of new storage leads to the next buffer. -/
theorem newStorage_slot {s s' : Store Body} {type : ElementType} {l : Layout} {v : Value}
    (hexec : (newStorage type l).exec s = (.ok v, s')) {h : Handle} (hh : v.handle = .ok h) :
    s'.slot h = .ok ⟨s.buffers.size, 0⟩ := by
  obtain ⟨k, -, rfl, rfl⟩ := newStorage_eq_ok hexec
  obtain rfl := Except.ok.inj hh
  exact slot_eq_ok_iff.mpr Array.getElem?_push_size

/-- What is tabulated has the type that was asked for, in the packed layout of the shape. -/
theorem tabulate_eq_ok {s s' : Store Body} {type : ElementType} {shape : Layout}
    {f : Store Body → List Nat → Except Failure Datum} {v : Value}
    (hexec : (tabulate type shape f).exec s = (.ok v, s')) :
    ∃ l h, Layout.ofSizes shape.logicalSize = .ok l ∧ v = ⟨type, some l, some h⟩ := by
  unfold tabulate at hexec
  obtain ⟨l, s₁, hl, hexec⟩ := exec_bind_eq_ok_iff.mp hexec
  obtain ⟨w, s₂, hnew, hexec⟩ := exec_bind_eq_ok_iff.mp hexec
  obtain ⟨_, s₃, -, hexec⟩ := exec_bind_eq_ok_iff.mp hexec
  obtain ⟨k, rfl, rfl, -⟩ := newStorage_eq_ok hnew
  obtain rfl := Except.ok.inj (Prod.mk.inj hexec).1
  rw [exec_lift] at hl
  exact ⟨l, _, (Prod.mk.inj hl).1, rfl⟩

/-- A value on an added buffer can be filled from any sources. -/
theorem adds_fill (s : Store Body) {v : Value} {b : Nat} (hb : s.buffers.size ≤ b)
    (f : Store Body → List Nat → Except Failure Datum) (cs : List (List Nat)) :
    Obeys (Preserving fun s' => s.Grows s' ∧ ∀ h, v.handle = .ok h → s'.slot h = .ok ⟨b, 0⟩)
      (cs.foldlM (fun _ c => do write v c (← reading (f · c))) ()) := by
  refine .foldlM (fun _ c => .bind (.reading _) fun d => ?_) cs ()
  rintro s' ⟨hs, hv⟩
  rcases write_cases s' v c d with hsame | ⟨h, x, i, hh, hx, hcell⟩
  · rw [hsame]
    exact ⟨hs, hv⟩
  · obtain rfl := Except.ok.inj (hx.symm.trans (hv h hh))
    rw [hcell]
    exact ⟨hs.withCell hb i d, hv⟩

/-- The elements are written into the buffer that is made for them, however far that goes. -/
theorem adds_tabulate (type : ElementType) (shape : Layout)
    (f : Store Body → List Nat → Except Failure Datum) : Obeys Grows (tabulate type shape f) := by
  unfold tabulate
  refine .bind (.lift _) fun l => ?_
  intro s
  refine state_bind (adds_newStorage type l s) fun v s₁ hexec hs₁ => ?_
  rw [Layout.foldCoordinatesM_eq]
  have hfill := adds_fill s (v := v) (Nat.le_refl _) f shape.coordinates s₁
    ⟨hs₁, fun _ hh => newStorage_slot hexec hh⟩
  exact state_bind hfill.1 fun _ _ _ hs₂ => hs₂

theorem adds_negate (v : Value) : Obeys Grows (negate v : Action Body Value) := by
  unfold negate
  exact .bind (.lift _) fun _ => .bind (.lift _) fun l => .guard (adds_tabulate _ _ _)

theorem adds_arithmetic (op : Arithmetic) (v w : Value) :
    Obeys Grows (arithmetic op v w : Action Body Value) := by
  unfold arithmetic
  refine .bind (.lift _) fun _ => .bind (.lift _) fun _ => .guard (.guard ?_)
  exact .bind (.lift _) fun _ => .bind (.lift _) fun l => adds_tabulate _ _ _

theorem adds_compare (op : Comparison) (v w : Value) :
    Obeys Grows (compare op v w : Action Body Value) := by
  unfold compare
  refine .guard (.guard ?_)
  exact .bind (.lift _) fun _ => .bind (.lift _) fun l => adds_tabulate _ _ _

theorem adds_cast (v : Value) (type : ElementType) :
    Obeys Grows (cast v type : Action Body Value) := by
  unfold cast
  refine .guard (.bind (.lift _) fun _ => ?_)
  split
  · exact .bind (.lift _) fun l => adds_tabulate _ _ _
  · exact .throw _

theorem adds_evaluate (f : Intrinsic) (args : List Value) :
    Obeys Grows (evaluate f args : Action Body Value) := by
  unfold evaluate
  refine .bind (.lift _) fun result => .bind (.lift _) fun shape => ?_
  split
  · exact .bind (.reading _) fun _ => .bind (.lift _) fun _ => adds_tabulate _ _ _
  · exact .bind (.reading _) fun _ => .bind (.lift _) fun _ => adds_tabulate _ _ _
  · exact .bind (.reading _) fun _ => .bind (.reading _) fun _ => adds_tabulate _ _ _
  · exact .bind (.reading _) fun _ => .bind (.reading _) fun _ => adds_tabulate _ _ _
  · exact .bind (.reading _) fun _ => .bind (.lift _) fun _ => adds_tabulate _ _ _
  · exact .bind (.lift _) fun _ => adds_tabulate _ _ _
  · exact .throw _

theorem adds_offset (v : Value) (i : Scalar) : Obeys Grows (offset v i : Action Body Value) := by
  unfold offset
  refine .bind (.lift _) fun _ => .bind (.lift _) fun _ => .guard (.bind (.lift _) fun h => ?_)
  refine .bind (.reading _) fun slot => .bind (.reading _) fun d => .bind (.lift _) fun n => ?_
  refine .bind (.reading _) fun length => ?_
  split
  · exact .bind (adds_newSlot _) fun _ => .pure _
  · exact .throw _

theorem adds_indexConstant (k : IntKind) (n : Nat) :
    Obeys Grows (indexConstant k n : Action Body Scalar) := by
  unfold indexConstant
  split
  · exact .bind (adds_storeConstant _) fun _ => .lift _
  · exact .throw _

theorem adds_scalarArithmetic (op : Arithmetic) (a b : Scalar) :
    Obeys Grows (scalarArithmetic op a b : Action Body Scalar) := by
  unfold scalarArithmetic
  exact .bind (adds_arithmetic op a.value b.value) fun _ => .lift _

theorem adds_applyNumber (k : IntKind) (op : Arithmetic) (neutral n : Nat) (a : Scalar) :
    Obeys Grows (applyNumber k op neutral n a : Action Body Scalar) := by
  unfold applyNumber
  split
  · exact .pure a
  · exact .bind (adds_indexConstant k n) fun b => adds_scalarArithmetic op a b

theorem adds_addTerm (total? : Option Scalar) (term : Scalar) :
    Obeys Grows (addTerm total? term : Action Body Scalar) := by
  unfold addTerm
  split
  · exact adds_scalarArithmetic .add _ term
  · exact .pure term

theorem adds_sumTerms (k : IntKind) (coordinates : List Scalar) (dims : List Dimension)
    (total? : Option Scalar) :
    Obeys Grows (sumTerms k coordinates dims total? : Action Body (Option Scalar)) := by
  induction dims generalizing total? with
  | nil => exact .pure total?
  | cons d dims ih =>
    unfold sumTerms
    split
    · unfold indexTerm
      refine .bind (.bind (adds_applyNumber k .add 0 d.offset _) fun b =>
        adds_applyNumber k .multiply 1 d.stride b) fun term => ?_
      exact .bind (adds_addTerm total? term) fun total => ih (some total)
    · exact .throw _

theorem adds_calculateOffset (l : Layout) (coordinates : List Scalar) :
    Obeys Grows (calculateOffset l coordinates : Action Body Scalar) := by
  unfold calculateOffset
  refine .bind (.lift _) fun _ => .bind (.lift _) fun k => ?_
  refine .bind (adds_sumTerms k coordinates l.dims none) fun total? => ?_
  split
  · exact .pure _
  · exact adds_indexConstant k 0

theorem adds_offsetAt (v : Value) (coordinates : List Scalar) :
    Obeys Grows (offsetAt v coordinates : Action Body Value) := by
  unfold offsetAt
  refine .bind (.lift _) fun _ => .bind (.lift _) fun l => ?_
  exact .bind (adds_calculateOffset l coordinates) fun a => adds_offset v a

theorem adds_indexScalar (c : Nat) : Obeys Grows (indexScalar c : Action Body Scalar) := by
  unfold indexScalar
  split
  · exact .bind (adds_newBuffer _ _) fun _ => .lift _
  · exact .throw _

theorem adds_indexScalars (cs : List Nat) :
    Obeys Grows (indexScalars cs : Action Body (List Scalar)) := by
  induction cs with
  | nil => exact .pure []
  | cons c cs ih =>
    unfold indexScalars
    exact .bind (adds_indexScalar c) fun a => .bind ih fun as => .pure _

end Adding

section Copying

theorem retains_writeCell (h : Handle) (i : Nat) (d : Datum) :
    Obeys Retains (writeCell h i d : Action Body Unit) := by
  intro s
  rcases writeCell_cases s h i d with hsame | ⟨x, -, hcell⟩
  · rw [hsame]
    exact .refl s
  · rw [hcell]
    exact s.retains_withCell x.buffer i d

theorem retains_copyCells (h h' : Handle) (count i : Nat) :
    Obeys Retains (copyCells h h' count i : Action Body Unit) := by
  induction count generalizing i with
  | zero => exact .pure ()
  | succ count ih =>
    unfold copyCells
    refine .bind (.reading _) fun d => .bind (.reading _) fun target => ?_
    exact .bind (retains_writeCell h' _ d) fun _ => ih (i + 1)

theorem retains_copy (v w : Value) : Obeys Retains (copy v w : Action Body Unit) := by
  unfold copy
  refine .bind (.lift _) fun _ => .bind (.lift _) fun _ => .guard ?_
  refine .bind (.lift _) fun l => .bind (.lift _) fun l' => .guard (.bind (.lift _) fun h => ?_)
  refine .bind (.discard (.reading _)) fun _ => .bind (.lift _) fun h' => ?_
  exact .bind (.discard (.reading _)) fun _ => retains_copyCells h h' _ 0

/-- Into a value on an added buffer anything can be copied. -/
theorem adds_copyCells (s : Store Body) (h h' : Handle) {b : Nat} (hb : s.buffers.size ≤ b)
    (count i : Nat) : Obeys (Preserving fun s' => s.Grows s' ∧ s'.slot h' = .ok ⟨b, 0⟩)
      (copyCells h h' count i) := by
  induction count generalizing i with
  | zero => exact .pure ()
  | succ count ih =>
    unfold copyCells
    refine .bind (.reading _) fun d => .bind (.reading _) fun target => ?_
    refine .bind ?_ fun _ => ih (i + 1)
    rintro s' ⟨hs, hslot⟩
    rcases writeCell_cases s' h' (target.start + i) d with hsame | ⟨x, hx, hcell⟩
    · rw [hsame]
      exact ⟨hs, hslot⟩
    · obtain rfl := Except.ok.inj (hx.symm.trans hslot)
      rw [hcell]
      exact ⟨hs.withCell hb _ d, hslot⟩

theorem adds_passByValue (a : Value) : Obeys Grows (passByValue a : Action Body Value) := by
  unfold passByValue
  intro s
  refine state_bind (adds_newStorage _ .scalar s) fun v s₁ hexec hs₁ => ?_
  have hcopy : Obeys (Preserving fun s' => s.Grows s' ∧
      ∀ h, v.handle = .ok h → s'.slot h = .ok ⟨s.buffers.size, 0⟩) (copy a v) := by
    unfold copy
    refine .bind (.lift _) fun _ => .bind (.lift _) fun _ => .guard ?_
    refine .bind (.lift _) fun l => .bind (.lift _) fun l' => .guard (.bind (.lift _) fun h => ?_)
    refine .bind (.discard (.reading _)) fun _ => .bind_lift fun h' hh' => ?_
    refine .bind (.discard (.reading _)) fun _ => ?_
    rintro s' ⟨hs, hslot⟩
    obtain ⟨hs', hslot'⟩ := adds_copyCells s h h' (Nat.le_refl _) _ 0 s' ⟨hs, hslot h' hh'⟩
    refine ⟨hs', fun h'' hh'' => ?_⟩
    obtain rfl := Except.ok.inj (hh''.symm.trans hh')
    exact hslot'
  have hs₂ := hcopy s₁ ⟨hs₁, fun _ hh => newStorage_slot hexec hh⟩
  exact state_bind hs₂.1 fun _ _ _ hs => hs

theorem adds_bindArguments (parameters : List Parameter) (args : List Value) :
    Obeys Grows (bindArguments parameters args : Action Body (List Value)) := by
  induction parameters generalizing args with
  | nil => exact .pure []
  | cons p parameters ih =>
    cases args with
    | nil => exact .pure []
    | cons a args =>
      have hrest : ∀ v, Obeys Grows
          (do return v :: (← bindArguments parameters args) : Action Body (List Value)) :=
        fun v => .bind (ih args) fun vs => .pure _
      unfold bindArguments
      by_cases hp : p.isScalar = true
      · simp only [hp, if_true]
        exact .bind (adds_passByValue a) hrest
      · simp only [hp, Bool.false_eq_true, if_false]
        exact .bind (.pure a) hrest

end Copying

end Action

end Emission

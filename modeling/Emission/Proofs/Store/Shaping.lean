import Emission.Proofs.Layout.Packing
import Emission.Proofs.Store.Commands
import Emission.Proofs.Store.Failures

/-!
Operations that make a value in the shape of an operand. All of them ask for the packed layout of the operand's
logical shape before they store anything. So whether they can be carried out depends on the order of the axes
if the operand has no elements: a shape that cannot be packed makes every one of them fail.
-/
namespace Emission

open Layout Store

/-- The function keeps the shape of its first argument: it takes only that, or it is the power. -/
def Intrinsic.keepsShape (f : Intrinsic) : Bool := f.isUnary || f == .pow

theorem Intrinsic.keepsShape_eq (f : Intrinsic) : f.keepsShape = !f.selects := by
  cases f <;> rfl

/-- What an operation on all elements, a cast or a call of a function that keeps the shape works on. -/
def Command.operands {Body α : Type} : Command Body α → List Value
  | negate v | cast v _ => [v]
  | arithmetic _ v w | compare _ v w => [v, w]
  | call d args => if (d.intrinsic?.map Intrinsic.keepsShape).getD false then args else []
  | _ => []

/-- If it is the failure to pack a shape, the shape is that of one of the values and cannot be packed. -/
def Failure.Blames (vs : List Value) (e : Failure) : Prop :=
  ∀ ns, e = .invalidArgument (.extentOverflow ns) →
    ¬ Packs ns ∧ ∃ v ∈ vs, ∃ l, v.layout? = some l ∧ l.logicalSize = ns

section Answers

variable {vs : List Value} {v w : Value} {l : Layout}

theorem blames_of_absence (e : Failure) (he : e.isAbsence = true) : e.Blames vs := by
  rintro ns rfl
  cases he

theorem blames_of_callFault (e : Failure) (he : e.isCallFault = true) : e.Blames vs := by
  rintro ns rfl
  cases he

theorem blames_ofSizes (hv : v ∈ vs) (hl : v.layout = .ok l) :
    FailsBy (Failure.Blames vs) (ofSizes l.logicalSize) := by
  rcases ofSizes_cases l.logicalSize with ⟨-, p, hp⟩ | ⟨hpacks, hp⟩
  · rw [hp]
    exact .ok p
  · rw [hp]
    refine .error fun ns hns => ?_
    cases hns
    exact ⟨hpacks, v, hv, l, Value.layout_eq_ok_iff.mp hl, rfl⟩

theorem blames_storable (type : ElementType) : FailsBy (Failure.Blames vs) type.storable := by
  unfold ElementType.storable
  split
  · exact .ok _
  · exact .error nofun

end Answers

namespace Action

variable {Body : Type} {vs : List Value} {v w : Value} {l : Layout}

theorem blames_negate (v : Value) : FailsBy (Failure.Blames [v]) (negate v : Action Body Value) := by
  unfold negate
  refine .lift_bind (failsBy_ensureDefined nofun) fun _ _ => ?_
  refine .lift_bind ((failsBy_layout v).imp blames_of_absence) fun l hl => .guard nofun fun _ => ?_
  exact failsBy_map blames_of_absence (blames_storable _) (blames_ofSizes List.mem_cons_self hl) v
    fun d => .boolean !d.toBool

theorem blames_arithmetic (op : Arithmetic) (v w : Value) :
    FailsBy (Failure.Blames [v, w]) (arithmetic op v w : Action Body Value) := by
  unfold arithmetic
  refine .lift_bind (failsBy_ensureDefined nofun) fun _ _ => ?_
  refine .lift_bind (failsBy_ensureDefined nofun) fun _ _ => .guard nofun fun _ => .guard nofun fun _ => ?_
  refine .lift_bind (failsBy_checkShapes blames_of_absence (fun _ _ => nofun) v w) fun _ _ => ?_
  refine .lift_bind ((failsBy_layout v).imp blames_of_absence) fun l hl => ?_
  refine failsBy_tabulate blames_of_absence (blames_storable _) (blames_ofSizes List.mem_cons_self hl)
    fun s c => ?_
  refine .bind ((s.failsBy_broadcast v c).imp blames_of_absence) fun a _ => ?_
  exact .bind ((s.failsBy_broadcast w c).imp blames_of_absence) fun b _ => failsBy_datum nofun op a b

theorem blames_compare (op : Comparison) (v w : Value) :
    FailsBy (Failure.Blames [v, w]) (compare op v w : Action Body Value) := by
  unfold compare
  refine .guard nofun fun _ => .guard nofun fun _ => ?_
  refine .lift_bind (failsBy_checkShapes blames_of_absence (fun _ _ => nofun) v w) fun _ _ => ?_
  refine .lift_bind ((failsBy_layout v).imp blames_of_absence) fun l hl => ?_
  refine failsBy_tabulate blames_of_absence (blames_storable _) (blames_ofSizes List.mem_cons_self hl)
    fun s c => ?_
  refine .bind ((s.failsBy_broadcast v c).imp blames_of_absence) fun a _ => ?_
  exact .bind ((s.failsBy_broadcast w c).imp blames_of_absence) fun b _ => .ok _

theorem blames_cast (v : Value) (type : ElementType) :
    FailsBy (Failure.Blames [v]) (cast v type : Action Body Value) := by
  unfold cast
  refine .guard nofun fun _ => .lift_bind (failsBy_ensureDefined nofun) fun _ _ => ?_
  split
  · next k =>
    refine .lift_bind ((failsBy_layout v).imp blames_of_absence) fun l hl => ?_
    exact failsBy_map blames_of_absence (blames_storable _) (blames_ofSizes List.mem_cons_self hl) v
      (·.convert k)
  · exact .throw nofun

/-- On every state the action fails, and leaves it as it was. -/
def Refuses {α : Type} (x : Action Body α) : Prop := ∀ s, ∃ e, x.exec s = (.error e, s)

namespace Refuses

variable {α β : Type}

theorem throw (e : Failure) : Refuses (throw e : Action Body α) := fun _ => ⟨e, rfl⟩

theorem lift_bind {x : Except Failure β} {f : β → Action Body α}
    (hf : ∀ b, x = .ok b → Refuses (f b)) : Refuses (liftM x >>= f) := by
  intro s
  rw [exec_bind, exec_lift]
  cases x with
  | error e => exact ⟨e, rfl⟩
  | ok b => exact hf b rfl s

/-- What is done with a layout that is there. -/
theorem layout_bind (hl : v.layout? = some l) {f : Layout → Action Body α} (hf : Refuses (f l)) :
    Refuses (liftM v.layout >>= f) := by
  refine lift_bind fun l' hl' => ?_
  obtain rfl := Except.ok.inj ((Value.layout_eq_ok_iff.mpr hl).symm.trans hl')
  exact hf

theorem guard {c : Prop} [Decidable c] {e : Failure} {f : β → Action Body α} {x : Action Body α}
    (hx : ¬ c → Refuses x) : Refuses (if c then MonadExcept.throw e >>= f else x) := by
  split
  · intro s
    rw [exec_bind, exec_throw]
    exact ⟨e, rfl⟩
  · next hc => exact hx hc

theorem tabulate {shape : Layout} (h : ¬ Packs shape.logicalSize) (type : ElementType)
    (f : Store Body → List Nat → Except Failure Datum) : Refuses (tabulate type shape f) := by
  unfold Action.tabulate
  exact .lift_bind fun l hl => absurd ((exists_ofSizes_iff _).mp ⟨l, hl⟩) h

end Refuses

section Refusals

variable {x : Value} {u : Layout}

/-- Operands that go together cannot be packed together. -/
theorem unpacked_of_checkShapes (h : checkShapes v w = .ok ()) (hx : x ∈ [v, w])
    (hu : x.layout? = some u) (hpacks : ¬ Packs u.logicalSize) (hl : v.layout = .ok l) :
    ¬ Packs l.logicalSize := by
  have hu' := Value.layout_eq_ok_iff.mpr hu
  simp only [List.mem_cons, List.not_mem_nil, or_false] at hx
  rcases hx with rfl | rfl
  · obtain rfl := Except.ok.inj (hu'.symm.trans hl)
    exact hpacks
  · unfold checkShapes at h
    rw [hl, ok_bind, hu', ok_bind] at h
    split at h
    · next hshapes =>
      rcases hshapes with hscalar | hsame
      · exact absurd (packs_of_isScalar hscalar) hpacks
      · rwa [hsame]
    · cases h

theorem refuses_negate (hl : v.layout? = some l) (h : ¬ Packs l.logicalSize) :
    Refuses (negate v : Action Body Value) := by
  unfold negate
  exact .lift_bind fun _ _ => .layout_bind hl (.guard fun _ => .tabulate h _ _)

theorem refuses_arithmetic (op : Arithmetic) (hx : x ∈ [v, w]) (hu : x.layout? = some u)
    (h : ¬ Packs u.logicalSize) : Refuses (arithmetic op v w : Action Body Value) := by
  unfold arithmetic
  refine .lift_bind fun _ _ => .lift_bind fun _ _ => .guard fun _ => .guard fun _ => ?_
  refine .lift_bind fun _ hshapes => .lift_bind fun l hl => ?_
  exact .tabulate (unpacked_of_checkShapes hshapes hx hu h hl) _ _

theorem refuses_compare (op : Comparison) (hx : x ∈ [v, w]) (hu : x.layout? = some u)
    (h : ¬ Packs u.logicalSize) : Refuses (compare op v w : Action Body Value) := by
  unfold compare
  refine .guard fun _ => .guard fun _ => .lift_bind fun _ hshapes => .lift_bind fun l hl => ?_
  exact .tabulate (unpacked_of_checkShapes hshapes hx hu h hl) _ _

theorem refuses_cast (hl : v.layout? = some l) (h : ¬ Packs l.logicalSize) (type : ElementType) :
    Refuses (cast v type : Action Body Value) := by
  unfold cast
  refine .guard fun _ => .lift_bind fun _ _ => ?_
  split
  · exact .layout_bind hl (.tabulate h _ _)
  · exact .throw _

/-- If the rules of a call are obeyed, the shapes of all its arguments can be packed: what a power takes
besides the first is a single element. -/
theorem packs_of_template {f : Intrinsic} (hf : f.keepsShape = true) {args : List Value} {t : Value}
    (h : f.template args = .ok t) (hx : x ∈ args) (hu : x.layout? = some u) :
    Packs u.logicalSize := by
  have hlayout := Value.layout_eq_ok_iff.mpr hu
  rw [f.keepsShape_eq, Bool.not_eq_true'] at hf
  obtain ⟨-, -, haccepted⟩ := Intrinsic.template_eq_ok_iff.mp h
  cases haccepted with
  | each _ hl hp =>
    obtain rfl := List.mem_singleton.mp hx
    obtain rfl := Except.ok.inj (hlayout.symm.trans hl)
    exact (exists_ofSizes_iff _).mp ⟨_, hp⟩
  | power _ hl hw _ hp =>
    simp only [List.mem_cons, List.not_mem_nil, or_false] at hx
    rcases hx with rfl | rfl
    · obtain rfl := Except.ok.inj (hlayout.symm.trans hl)
      exact (exists_ofSizes_iff _).mp ⟨_, hp⟩
    · obtain rfl := Except.ok.inj (hlayout.symm.trans hw)
      exact packs_of_isScalar rfl
  | reduction hselects | pair hselects =>
    rw [hf] at hselects
    cases hselects

theorem refuses_call {d : Declaration Body} {f : Intrinsic} (hd : d.intrinsic? = some f)
    (hf : f.keepsShape = true) {args : List Value} (hx : x ∈ args) (hu : x.layout? = some u)
    (h : ¬ Packs u.logicalSize) (eval : Body → List Value → Action Body (Option Value)) :
    Refuses (Action.call eval d args) := by
  rw [call_intrinsic eval hd]
  refine .lift_bind fun _ hcheck => ?_
  unfold Declaration.checkCall at hcheck
  obtain ⟨_, -, hcheck⟩ := bind_eq_ok_iff.mp hcheck
  rw [hd] at hcheck
  obtain ⟨t, ht, -⟩ := bind_eq_ok_iff.mp hcheck
  exact absurd (packs_of_template hf ht hx hu) h

end Refusals

end Action

namespace Command

open Emission.Action

variable {Body α : Type} {v : Value} {l : Layout}

/-- A call that has operands is one of a function that keeps the shape. -/
theorem operands_call {d : Declaration Body} {args : List Value}
    (hv : v ∈ (call d args).operands) : ∃ f, d.intrinsic? = some f ∧ f.keepsShape = true ∧
      (call d args).operands = args := by
  simp only [operands] at hv ⊢
  split at hv
  · next hkeeps =>
    cases hd : d.intrinsic? with
    | none => simp [hd] at hkeeps
    | some f =>
      have hf : f.keepsShape = true := by simpa [hd] using hkeeps
      exact ⟨f, rfl, hf, by simp [hf]⟩
  · cases hv

theorem blames_run {c : Command Body α} (hv : v ∈ c.operands) (code : Supplied Body) :
    Action.FailsBy (Failure.Blames c.operands) (c.run code) := by
  cases c with
  | negate w => exact blames_negate w
  | arithmetic op w w' => exact blames_arithmetic op w w'
  | compare op w w' => exact blames_compare op w w'
  | cast w type => exact blames_cast w type
  | call d args =>
    obtain ⟨f, hd, -, hargs⟩ := operands_call hv
    rw [hargs]
    exact failsBy_call blames_of_absence blames_of_callFault (fun v hv l hl => blames_ofSizes hv hl)
      blames_storable hd code.function
  | _ => cases hv

theorem refuses_run {c : Command Body α} (hv : v ∈ c.operands) (hl : v.layout? = some l)
    (h : ¬ Packs l.logicalSize) (code : Supplied Body) : Refuses (c.run code) := by
  cases c with
  | negate w =>
    obtain rfl := List.mem_singleton.mp hv
    exact refuses_negate hl h
  | arithmetic op w w' => exact refuses_arithmetic op hv hl h
  | compare op w w' => exact refuses_compare op hv hl h
  | cast w type =>
    obtain rfl := List.mem_singleton.mp hv
    exact refuses_cast hl h type
  | call d args =>
    obtain ⟨f, hd, hf, hargs⟩ := operands_call hv
    rw [hargs] at hv
    exact refuses_call hd hf hv hl h code.function
  | _ => cases hv

/-- The logical shape of a layout has a packed layout, with as many elements, exactly if the products of its
sizes from the left and from the right are words. That is so whenever the layout has elements or its axes are
in physical order. An operation on all elements, a cast or a call of a function that keeps the shape fails to
pack only a shape of one of its operands that is not so, and it fails, without any change, if there is one
among them. -/
theorem shapes_pack_iff {l : Layout} (hl : l.Obtainable) :
    ((∃ p, ofSizes l.logicalSize = .ok p) ↔ Packs l.logicalSize) ∧
    (∀ p, ofSizes l.logicalSize = .ok p → p.numElements = l.numElements) ∧
    (0 < l.numElements ∨ l.order = List.range l.rank → Packs l.logicalSize) ∧
    ∀ {α : Type} (c : Command Body α) (v : Value), v ∈ c.operands → v.layout? = some l →
      ∀ (code : Supplied Body) (s : Store Body),
        (∀ ns, ((c.run code).exec s).1 = .error (.invalidArgument (.extentOverflow ns)) →
          ¬ Packs ns ∧ ∃ w ∈ c.operands, ∃ l', w.layout? = some l' ∧ l'.logicalSize = ns) ∧
        (¬ Packs l.logicalSize → ∃ e, (c.run code).exec s = (.error e, s)) := by
  have hwell := hl.wellFormed
  refine ⟨exists_ofSizes_iff _, fun p hp => ?_, ?_,
    fun c v hv hvl code s => ⟨fun ns hns => ?_, fun h => ?_⟩⟩
  · rw [(packed_volume hp).1, prod_logicalSize hwell]
  · rintro (hpos | horder)
    · exact packs_of_pos hwell hpos
    · exact packs_of_physical hwell horder
  · exact blames_run hv code s _ hns ns rfl
  · exact refuses_run hv hvl h code s

/-- Six elements can be cast with their axes swapped. -/
theorem shapes_pack_iff_swapped :
    let l : Layout := ⟨[⟨2, 2, 0, 3, 1⟩, ⟨3, 3, 0, 1, 0⟩]⟩
    let v : Value := ⟨.plain .boolean, some l, some ⟨0⟩⟩
    let c : Command Unit Value := .cast v (.plain (.cell (.integer .byte)))
    l.Obtainable ∧ 0 < l.numElements ∧ v ∈ c.operands ∧
      (∃ p, ofSizes l.logicalSize = .ok p ∧ p.numElements = 6) ∧
      ∀ (s : Store Unit) ns, ((c.run .idle).exec s).1 ≠ .error (.invalidArgument (.extentOverflow ns)) := by
  intro l v c
  have hl : l.Obtainable := ⟨.reordered (.sizes [2, 3]) [1, 0], rfl⟩
  have hpos : 0 < l.numElements := by decide
  have hv : v ∈ c.operands := List.mem_singleton.mpr rfl
  obtain ⟨hiff, hcount, hpacks, hrun⟩ := shapes_pack_iff hl
  obtain ⟨p, hp⟩ := hiff.mpr (hpacks (Or.inl hpos))
  refine ⟨hl, hpos, hv, ⟨p, hp, hcount p hp⟩, fun s ns hns => ?_⟩
  obtain ⟨hnot, w, hw, l', hl', rfl⟩ := (hrun c v hv rfl .idle s).1 ns hns
  obtain rfl := List.mem_singleton.mp hw
  obtain rfl : l = l' := Option.some.inj hl'
  exact hnot (hpacks (Or.inl hpos))

/-- No elements: sizes that are packed with the zero between the others, with the axes out of order. -/
def emptyLayout : Layout :=
  ⟨[⟨4294967296, 4294967296, 0, 0, 1⟩, ⟨0, 0, 0, 4294967296, 0⟩, ⟨4294967296, 4294967296, 0, 1, 2⟩]⟩

/-- With the zero in front the sizes are not packed, and a value with this layout cannot even be negated. -/
theorem swapped_axes_overflow :
    let v : Value := ⟨.plain .boolean, some emptyLayout, some ⟨0⟩⟩
    let s : Store Unit := { (Store.empty : Store Unit) with
      buffers := #[.zeros .boolean 0]
      slots := #[⟨0, 0⟩] }
    let c : Command Unit Value := .negate v
    let e : Failure := .invalidArgument (.extentOverflow [0, 4294967296, 4294967296])
    (do (← ofSizes [4294967296, 0, 4294967296]).reorder [1, 0, 2]) = .ok emptyLayout ∧
      emptyLayout.Obtainable ∧ s.Backed v ∧ emptyLayout.numElements = 0 ∧
      ofSizes emptyLayout.logicalSize = .error e ∧ ((c.run .idle).exec s).1 = .error e := by
  intro v s c e
  have hbuild : (do (← ofSizes [4294967296, 0, 4294967296]).reorder [1, 0, 2]) = .ok emptyLayout := by
    decide +kernel
  have hl : emptyLayout.Obtainable :=
    ⟨.reordered (.sizes [4294967296, 0, 4294967296]) [1, 0, 2], hbuild⟩
  have hpacks : ¬ Packs emptyLayout.logicalSize := fun h =>
    absurd (h.right _ List.mem_cons_self) (by decide +kernel)
  have hsizes : ofSizes emptyLayout.logicalSize = .error e := ofSizes_unpacked hpacks
  refine ⟨hbuild, hl, ⟨emptyLayout, ⟨0, 0⟩, .zeros .boolean 0, ?_⟩, by decide +kernel, hsizes, ?_⟩
  · exact {
      layout := rfl
      obtainable := hl
      handle := ⟨⟨0⟩, rfl, rfl⟩
      cells := rfl
      base := rfl
      room := by decide +kernel
      fits := by decide +kernel }
  · show (((tabulate (.plain .boolean) emptyLayout fun s c => return .boolean !(← s.fetch v c).toBool) :
      Action Unit Value).exec s).1 = _
    unfold tabulate
    rw [exec_bind, exec_lift, hsizes]

end Command

end Emission

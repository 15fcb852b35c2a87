import Emission.Proofs.Layout.Packing
import Emission.Proofs.Store.Elementwise
import Emission.Proofs.Store.Failures

/-!
What calls of functions give. A call that has no template is refused in the kind in which its template is,
before anything is stored. A call that has one is a tabulation of elements that the readings of its
arguments decide, as long as there is storage behind them. So it gives what the template announces, on a new
buffer.
-/
namespace Emission

variable {Body : Type}

namespace Intrinsic

variable {f : Intrinsic}

theorem kind_choose (f : Intrinsic) (a b : Datum) : (f.choose a b).kind = a.kind := by
  unfold choose
  split
  · exact a.kind_max b
  · exact a.kind_min b

theorem kind_foldl_choose (f : Intrinsic) (ds : List Datum) (a : Datum) :
    (ds.foldl f.choose a).kind = a.kind := by
  induction ds generalizing a with
  | nil => rfl
  | cons d ds ih => rw [List.foldl_cons, ih, kind_choose]

/-- The elements that a function gives when its arguments read as the arrays. The exponent of a power and
what is chosen from are single elements. -/
def results (f : Intrinsic) : List Data → List Datum
  | [xs] =>
    if f.selects then [(xs.toList.drop 1).foldl f.choose (xs.get 0)]
    else xs.toList.map (·.applyUnary f)
  | [xs, ys] =>
    if f.selects then [f.choose (xs.get 0) (ys.get 0)] else xs.toList.map (·.pow (ys.get 0))
  | _ => []

theorem results_unary (hf : f.isUnary = true) (xs : Data) :
    f.results [xs] = xs.toList.map (·.applyUnary f) := by
  cases f with
  | maxnum | minnum | pow => cases hf
  | _ => rfl

theorem results_reduction (hf : f.selects = true) (xs : Data) :
    f.results [xs] = [(xs.toList.drop 1).foldl f.choose (xs.get 0)] := if_pos hf

theorem results_pow (xs ys : Data) : pow.results [xs, ys] = xs.toList.map (·.pow (ys.get 0)) := rfl

theorem results_pair (hf : f.selects = true) (xs ys : Data) :
    f.results [xs, ys] = [f.choose (xs.get 0) (ys.get 0)] := if_pos hf

end Intrinsic

namespace Action

section Opening

variable {f : Intrinsic} {v w : Value}

theorem evaluate_unary (hf : f.isUnary = true) : (evaluate f [v] : Action Body Value) = (do
    let result ← f.template [v]
    let _ ← result.layout
    tabulate result.type (← v.layout) fun s c => return (← s.fetch v c).applyUnary f) := by
  cases f with
  | maxnum | minnum | pow => cases hf
  | _ => rfl

theorem evaluate_pow : (evaluate .pow [v, w] : Action Body Value) = (do
    let result ← Intrinsic.pow.template [v, w]
    let _ ← result.layout
    let exponent ← reading (·.fetch w [])
    tabulate result.type (← v.layout) fun s c => return (← s.fetch v c).pow exponent) := rfl

theorem evaluate_reduction (hf : f.selects = true) : (evaluate f [v] : Action Body Value) = (do
    let result ← f.template [v]
    let shape ← result.layout
    let d ← f.reduce (← reading (·.read v))
    tabulate result.type shape fun _ _ => .ok d) := by
  cases f with
  | maxnum | minnum => rfl
  | _ => cases hf

theorem evaluate_pair (hf : f.selects = true) : (evaluate f [v, w] : Action Body Value) = (do
    let result ← f.template [v, w]
    let shape ← result.layout
    let x ← reading (·.fetch v [])
    let y ← reading (·.fetch w [])
    tabulate result.type shape fun _ _ => .ok (f.choose x y)) := by
  cases f with
  | maxnum | minnum => rfl
  | _ => cases hf

end Opening

end Action

namespace Store

variable {s : Store Body} {v w : Value} {l p : Layout} {slot slot' : Slot} {a b : Data} {k : Kind}
  {ds : List Datum} {f : Intrinsic} {t : Value} {args : List Value} {action : Action Body Value}

theorem Backing.fetch_scalar (hw : s.Backing w .scalar slot b) : s.fetch w [] = .ok (b.get slot.start) :=
  hw.fetch_eq (c := []) List.Forall₂.nil

/-- The action tabulates elements of one kind that can all be computed beforehand, in a shape whose packed
layout is the given one. -/
structure Tabulates (s : Store Body) (action : Action Body Value) (k : Kind) (p : Layout) (ds : List Datum) :
    Prop where
  kind : ∀ d ∈ ds, d.kind = k
  exec : ∃ (shape : Layout) (g : Store Body → List Nat → Except Failure Datum) (d : List Nat → Datum),
    shape.WellFormed ∧ Layout.ofSizes shape.logicalSize = .ok p ∧ shape.numElements < cellLimit ∧
    action.exec s = (Action.tabulate (.plain (.cell k)) shape g).exec s ∧
    (∀ s', s.Grows s' → ∀ c ∈ shape.coordinates, g s' c = .ok (d c)) ∧ shape.coordinates.map d = ds

namespace Tabulates

/-- The elements lie packed in a new buffer. -/
theorem exec_eq (h : s.Tabulates action k p ds) (hroom : s.slots.size < handleLimit) :
    ∃ data, data.toList = ds ∧ action.exec s = (.ok (s.fresh k p), s.withBuffer data) ∧
      (s.withBuffer data).read (s.fresh k p) = .ok data := by
  obtain ⟨shape, g, d, hshape, hp, hfits, hexec, hg, rfl⟩ := h.exec
  obtain ⟨l, hl, hyields, hread⟩ := yields_tabulate_packed (k := k) hshape hp hfits hroom d hg
  obtain rfl := Except.ok.inj (hl.symm.trans hp)
  exact ⟨.ofList k (shape.coordinates.map d), Data.toList_ofList h.kind, hexec.trans hyields, hread⟩

theorem exhausts (h : s.Tabulates action k p ds) (hroom : ¬ s.slots.size < handleLimit) :
    s.Exhausts action := by
  obtain ⟨shape, g, d, hshape, hp, hfits, hexec, -⟩ := h.exec
  exact (tabulate_exhausted_packed hshape hp hfits hroom g).congr hexec

/-- A single element that is known beforehand. -/
theorem single {d : Datum} (hkind : d.kind = k)
    (hexec : action.exec s = (Action.tabulate (.plain (.cell k)) .scalar fun _ _ => .ok d).exec s) :
    s.Tabulates action k .scalar [d] where
  kind := List.forall_mem_singleton.mpr hkind
  exec := ⟨.scalar, _, fun _ => d, Layout.scalar_wellFormed, rfl, one_lt_cellLimit, hexec,
    fun _ _ _ _ => rfl, rfl⟩

end Tabulates

/-- The elements of a value with storage, each changed in the same way. -/
theorem Backing.tabulates_each (hv : s.Backing v l slot a) (hp : Layout.ofSizes l.logicalSize = .ok p)
    {h : Datum → Datum} (hkind : ∀ d, d.kind = a.kind → (h d).kind = a.kind)
    (hexec : action.exec s =
      (Action.tabulate (.plain (.cell a.kind)) l fun s c => return h (← s.fetch v c)).exec s) :
    s.Tabulates action a.kind p ((a.view slot.start l).toList.map h) where
  kind := by
    intro d hd
    obtain ⟨x, hx, rfl⟩ := List.mem_map.mp hd
    have hx := Data.kind_of_mem hx
    exact hkind x hx
  exec := by
    refine ⟨l, _, fun c => h (a.get (slot.start + l.address c)), hv.wellFormed, hp, hv.numElements_lt,
      hexec, ?_, ?_⟩
    · intro s' hs c hc
      have hin := (Layout.mem_coordinates hv.wellFormed).mp hc
      rw [(hv.mono hs).fetch_eq hin]
      rfl
    · rw [Data.toList_view, List.map_map]
      rfl

section Cases

variable (hv : s.Backing v l slot a) (hw : s.Backing w .scalar slot' b)

include hv

/-- A function of one argument is applied to each element. -/
theorem tabulates_unary (hf : f.isUnary = true) (ht : f.template [v] = .ok ⟨.plain v.base, some p, none⟩)
    (hp : Layout.ofSizes l.logicalSize = .ok p) :
    s.Tabulates (Action.evaluate f [v]) a.kind p (f.results [a.view slot.start l]) := by
  rw [Intrinsic.results_unary hf]
  refine hv.tabulates_each hp (fun d hd => (Datum.kind_applyUnary f d).trans hd) ?_
  simp only [Action.evaluate_unary hf, Action.exec_bind, Action.exec_lift, ht, Value.layout, hv.layout,
    hv.base]

/-- A reduction folds the elements from the first one on. -/
theorem tabulates_reduction (hf : f.selects = true)
    (ht : f.template [v] = .ok ⟨.plain v.base, some .scalar, none⟩) (hcount : l.numElements ≠ 0) :
    s.Tabulates (Action.evaluate f [v]) a.kind .scalar (f.results [a.view slot.start l]) := by
  have hsize : 0 < (a.view slot.start l).size := by
    rw [Data.size_view hv.wellFormed]
    exact Nat.pos_of_ne_zero hcount
  rw [Intrinsic.results_reduction hf]
  refine .single ((Intrinsic.kind_foldl_choose f _ _).trans (Data.kind_get _ 0)) ?_
  simp only [Action.evaluate_reduction hf, Action.exec_bind, Action.exec_lift, Action.exec_reading, ht,
    Value.layout, hv.read_eq, Intrinsic.reduce, Data.load_of_lt hsize, hv.base]
  rfl

include hw

/-- The exponent of a power is used for each element, and the elements are doubles. -/
theorem tabulates_power (hdouble : a.kind = .double)
    (ht : Intrinsic.pow.template [v, w] = .ok ⟨.plain v.base, some p, none⟩)
    (hp : Layout.ofSizes l.logicalSize = .ok p) :
    s.Tabulates (Action.evaluate .pow [v, w]) a.kind p
      (Intrinsic.pow.results [a.view slot.start l, b.view slot'.start .scalar]) := by
  rw [Intrinsic.results_pow]
  refine hv.tabulates_each hp (fun _ _ => hdouble.symm) ?_
  simp only [Action.evaluate_pow, Action.exec_bind, Action.exec_lift, Action.exec_reading, ht, Value.layout,
    hv.layout, hv.base, hw.fetch_scalar, Data.get_view_scalar]

end Cases

/-- Of two single elements one is chosen. -/
theorem tabulates_pair (hv : s.Backing v .scalar slot a) (hw : s.Backing w .scalar slot' b)
    (hf : f.selects = true) (ht : f.template [v, w] = .ok ⟨.plain v.base, some .scalar, none⟩) :
    s.Tabulates (Action.evaluate f [v, w]) a.kind .scalar
      (f.results [a.view slot.start .scalar, b.view slot'.start .scalar]) := by
  rw [Intrinsic.results_pair hf]
  refine .single ((Intrinsic.kind_choose f _ _).trans (Data.kind_get _ 0)) ?_
  simp only [Action.evaluate_pair hf, Action.exec_bind, Action.exec_lift, Action.exec_reading, ht,
    Value.layout, hv.fetch_scalar, hw.fetch_scalar, hv.base, Data.get_view_scalar]

/-- A value that is backed is so in its layout. -/
theorem Backed.backing (hv : s.Backed v) (hl : v.layout = .ok l) : ∃ slot data, s.Backing v l slot data := by
  obtain ⟨l', slot, data, b⟩ := hv
  obtain rfl := Except.ok.inj (b.layout_eq.symm.trans hl)
  exact ⟨slot, data, b⟩

/-- Powers are of doubles alone. -/
theorem Backing.kind_of_acceptsBase (hv : s.Backing v l slot a)
    (h : Intrinsic.pow.acceptsBase v.base = true) : a.kind = .double := by
  rw [hv.base] at h
  cases hkind : a.kind with
  | double => rfl
  | boolean | integer =>
    rw [hkind] at h
    cases h

/-- With a template and with storage behind the arguments, evaluation tabulates the results of what they
read as, in the type and the layout of the template. -/
theorem tabulates_evaluate (ht : f.template args = .ok t) (hargs : ∀ v ∈ args, s.Backed v) :
    ∃ k p xss, t = ⟨.plain (.cell k), some p, none⟩ ∧
      List.Forall₂ (fun v xs => s.read v = .ok xs) args xss ∧
      s.Tabulates (Action.evaluate f args) k p (f.results xss) := by
  obtain ⟨-, haccepts, haccepted⟩ := Intrinsic.template_eq_ok_iff.mp ht
  cases haccepted with
  | each hf hl hp =>
    obtain ⟨slot, a, hv⟩ := (hargs _ List.mem_cons_self).backing hl
    exact ⟨a.kind, _, _, by rw [hv.base], .cons hv.read_eq .nil, tabulates_unary hv hf ht hp⟩
  | power hf hl hw _ hp =>
    subst hf
    obtain ⟨hv, hargs⟩ := List.forall_mem_cons.mp hargs
    obtain ⟨slot, a, hv⟩ := hv.backing hl
    obtain ⟨slot', b, hw⟩ := (hargs _ List.mem_cons_self).backing hw
    exact ⟨a.kind, _, _, by rw [hv.base], .cons hv.read_eq (.cons hw.read_eq .nil),
      tabulates_power hv hw (hv.kind_of_acceptsBase haccepts) ht hp⟩
  | reduction hf hl _ hcount =>
    obtain ⟨slot, a, hv⟩ := (hargs _ List.mem_cons_self).backing hl
    exact ⟨a.kind, _, _, by rw [hv.base], .cons hv.read_eq .nil, tabulates_reduction hv hf ht hcount⟩
  | pair hf hv hw =>
    obtain ⟨hv', hargs⟩ := List.forall_mem_cons.mp hargs
    obtain ⟨slot, a, hv⟩ := hv'.backing hv
    obtain ⟨slot', b, hw⟩ := (hargs _ List.mem_cons_self).backing hw
    exact ⟨a.kind, _, _, by rw [hv.base], .cons hv.read_eq (.cons hw.read_eq .nil),
      tabulates_pair hv hw hf ht⟩

end Store

/-- The failure to refine a result, or to have one. -/
def Failure.isRefinement : Failure → Bool
  | invalidArgument (.scalarRank _) | invalidArgument (.vectorRank _) | invalidArgument .vectorLayout
  | backend (.intrinsicResult _) => true
  | _ => false

section Unrefined

theorem isRefinement_of_absence (e : Failure) (he : e.isAbsence = true) : e.isRefinement = false := by
  unfold Failure.isAbsence at he
  split at he <;> first | rfl | cases he

theorem isRefinement_of_callFault (e : Failure) (he : e.isCallFault = true) : e.isRefinement = false := by
  unfold Failure.isCallFault at he
  split at he <;> first | rfl | cases he

theorem isRefinement_of_ofSizes (ns : List Nat) :
    FailsBy (·.isRefinement = false) (Layout.ofSizes ns) := by
  rcases Layout.ofSizes_cases ns with ⟨-, p, hp⟩ | ⟨-, hp⟩
  · rw [hp]
    exact .ok p
  · rw [hp]
    exact .error rfl

theorem isRefinement_of_storable (type : ElementType) :
    FailsBy (·.isRefinement = false) type.storable := by
  unfold ElementType.storable
  split
  · exact .ok _
  · exact .error rfl

end Unrefined

namespace Action

open Store

variable {f : Intrinsic} {args : List Value} {t v : Value} {s s' : Store Body}
  (eval : Body → List Value → Action Body (Option Value))

/-- What a call of a function does: the call is checked and evaluated. -/
def apply (f : Intrinsic) (args : List Value) : Action Body Value := do
  liftM ((f.declaration : Declaration Body).checkCall args)
  evaluate f args

/-- A call always has a result, unless it fails. -/
theorem exec_call_declaration (f : Intrinsic) (args : List Value) (s : Store Body) :
    (call eval f.declaration args).exec s =
      (((apply f args).exec s).1.map some, ((apply f args).exec s).2) := by
  rw [call_intrinsic eval rfl, apply, exec_bind, exec_bind]
  rw [exec_lift]
  cases (f.declaration : Declaration Body).checkCall args with
  | error e => rfl
  | ok u =>
    simp only [exec_bind]
    rcases (evaluate f args).exec s with ⟨e | v, s'⟩
    · rfl
    · rfl

/-- A call of a function does not fail in refining a result: it has none of its own to refine. -/
theorem isRefinement_of_apply (f : Intrinsic) (args : List Value) :
    FailsBy (·.isRefinement = false) (apply f args : Action Body Value) := by
  have hcall : FailsBy (·.isRefinement = false)
      (call (fun _ _ => pure none) f.declaration args : Action Body (Option Value)) :=
    failsBy_call isRefinement_of_absence isRefinement_of_callFault
      (fun _ _ l _ => isRefinement_of_ofSizes l.logicalSize) isRefinement_of_storable rfl _
  intro s e he
  refine hcall s e ?_
  rw [exec_call_declaration, he]
  rfl

theorem checkCall_declaration (f : Intrinsic) (args : List Value) :
    (f.declaration : Declaration Body).checkCall args =
      (args.forM Value.ensureDefined >>= fun _ => discard (f.template args)) := rfl

/-- With an undefined argument there is no template, be it for the number of arguments. -/
theorem template_of_undefined {e : Failure} (h : args.forM Value.ensureDefined = .error e) :
    ∃ e', f.template args = .error e' ∧ e.kind = e'.kind := by
  have hkind : e.kind = "InvalidArgument" :=
    (Emission.FailsBy.forM (P := (·.kind = "InvalidArgument")) fun v _ => failsBy_ensureDefined rfl) e h
  by_cases htakes : f.takes args.length = true
  · exact ⟨e, by simp [Intrinsic.template, htakes, h], rfl⟩
  · exact ⟨.invalidArgument (.intrinsicCount f args.length), by simp [Intrinsic.template, htakes], hkind⟩

/-- A call without a template is refused in the kind in which the template is. -/
theorem exec_apply_refused {e : Failure} (h : f.template args = .error e) (s : Store Body) :
    ∃ e', (apply f args).exec s = (.error e', s) ∧ e'.kind = e.kind := by
  unfold apply
  cases hdefined : args.forM Value.ensureDefined with
  | error e₁ =>
    obtain ⟨e₂, he₂, hkind⟩ := template_of_undefined hdefined
    obtain rfl := Except.error.inj (h.symm.trans he₂)
    refine ⟨e₁, ?_, hkind⟩
    rw [exec_bind, exec_lift, checkCall_declaration, hdefined]
    rfl
  | ok u =>
    refine ⟨e, ?_, rfl⟩
    rw [exec_bind, exec_lift, checkCall_declaration, hdefined, h]
    rfl

/-- A call with a template is the evaluation. -/
theorem exec_apply_accepted (h : f.template args = .ok t) (s : Store Body) :
    (apply f args).exec s = (evaluate f args).exec s := by
  have hdefined : args.forM Value.ensureDefined = .ok () :=
    forM_eq_ok_iff.mpr fun a ha => Intrinsic.ensureDefined_eq_ok_iff.mpr
      ((Intrinsic.template_eq_ok_iff.mp h).1 a ha)
  unfold apply
  rw [exec_bind, exec_lift, checkCall_declaration, hdefined, h]
  rfl

/-- Whatever an evaluation asks for first, in the end it tabulates elements in a shape that packs to the
layout of the template. -/
theorem tabulate_of_evaluate (hexec : (evaluate f args).exec s = (.ok v, s')) :
    ∃ t shape g s₁, f.template args = .ok t ∧ Layout.ofSizes shape.logicalSize = t.layout ∧
      (tabulate t.type shape g).exec s₁ = (.ok v, s') := by
  obtain ⟨t, ht, -⟩ := exec_lift_bind_eq_ok_iff.mp hexec
  have haccepts := Intrinsic.template_eq_ok_iff.mp ht
  refine ⟨t, ?_⟩
  cases haccepts.2.2 with
  | each hf hl hp =>
    simp only [evaluate_unary hf, exec_lift_bind_eq_ok_iff, ht, hl, Except.ok.injEq, exists_eq_left'] at hexec
    obtain ⟨_, -, hexec⟩ := hexec
    exact ⟨_, _, s, ht, hp, hexec⟩
  | power hf hl hw hbase hp =>
    subst hf
    simp only [evaluate_pow, exec_lift_bind_eq_ok_iff, ht, Except.ok.injEq, exists_eq_left'] at hexec
    obtain ⟨_, -, hexec⟩ := hexec
    obtain ⟨x, s₁, -, hexec⟩ := exec_bind_eq_ok_iff.mp hexec
    obtain ⟨l, hl', hexec⟩ := exec_lift_bind_eq_ok_iff.mp hexec
    obtain rfl := Except.ok.inj (hl'.symm.trans hl)
    exact ⟨l, _, s₁, ht, hp, hexec⟩
  | reduction hf hl =>
    simp only [evaluate_reduction hf, exec_lift_bind_eq_ok_iff, ht, Except.ok.injEq, exists_eq_left'] at hexec
    obtain ⟨_, ⟨⟩, hexec⟩ := hexec
    obtain ⟨data, s₁, -, hexec⟩ := exec_bind_eq_ok_iff.mp hexec
    obtain ⟨d, -, hexec⟩ := exec_lift_bind_eq_ok_iff.mp hexec
    exact ⟨.scalar, _, s₁, ht, rfl, hexec⟩
  | pair hf hv hw =>
    simp only [evaluate_pair hf, exec_lift_bind_eq_ok_iff, ht, Except.ok.injEq, exists_eq_left'] at hexec
    obtain ⟨_, ⟨⟩, hexec⟩ := hexec
    obtain ⟨x, s₁, -, hexec⟩ := exec_bind_eq_ok_iff.mp hexec
    obtain ⟨y, s₂, -, hexec⟩ := exec_bind_eq_ok_iff.mp hexec
    exact ⟨.scalar, _, s₂, ht, rfl, hexec⟩

/-- What a call gives is its template with a handle. -/
theorem apply_eq_ok (hexec : (apply f args).exec s = (.ok v, s')) :
    ∃ t h, f.template args = .ok t ∧ v = t.withHandle h := by
  obtain ⟨_, -, hexec⟩ := exec_lift_bind_eq_ok_iff.mp hexec
  obtain ⟨t, shape, g, s₁, ht, hshape, htabulate⟩ := tabulate_of_evaluate hexec
  obtain ⟨l, h, hl, rfl⟩ := tabulate_eq_ok htabulate
  refine ⟨t, h, ht, ?_⟩
  rw [Value.withHandle, ← Value.layout_eq_ok_iff.mp (hshape.symm.trans hl)]

/-- With a template and with storage behind the arguments, a call gives the template on a new buffer of the
results, unless there is no handle left. -/
theorem apply_of_template (ht : f.template args = .ok t) (hargs : ∀ v ∈ args, s.Backed v) :
    ∃ xss, List.Forall₂ (fun v xs => s.read v = .ok xs) args xss ∧
      (s.slots.size < handleLimit → ∃ data, data.toList = f.results xss ∧
        (apply f args).exec s = (.ok (t.withHandle ⟨s.slots.size⟩), s.withBuffer data) ∧
        (s.withBuffer data).read (t.withHandle ⟨s.slots.size⟩) = .ok data) ∧
      (¬ s.slots.size < handleLimit → s.Exhausts (apply f args)) := by
  obtain ⟨k, p, xss, rfl, hread, htabulates⟩ := tabulates_evaluate ht hargs
  refine ⟨xss, hread, fun hroom => ?_, fun hroom => ?_⟩
  · obtain ⟨data, hdata, hexec, hback⟩ := htabulates.exec_eq hroom
    exact ⟨data, hdata, (exec_apply_accepted ht s).trans hexec, hback⟩
  · exact (htabulates.exhausts hroom).congr (exec_apply_accepted ht s)

end Action

end Emission

import Emission.Intrinsic.Template
import Emission.Proofs.Layout.Addressing

/-!
Which calls of functions have a template. A function of one argument and the power keep the logical shape of
what they are applied to, and the power takes a single element besides. A maximum or a minimum reduces a row
with elements, or takes two single elements, and its result is a single element.
-/
namespace Emission.Intrinsic

/-- Takes the largest or the smallest element. -/
def selects (f : Intrinsic) : Bool := f == .maxnum || f == .minnum

/-- The shapes that the arguments of a function may have, and the template of the result. -/
inductive Accepts (f : Intrinsic) : List Value → Value → Prop
  | each {v : Value} {l p : Layout} : f.isUnary = true → v.layout = .ok l →
      Layout.ofSizes l.logicalSize = .ok p → Accepts f [v] ⟨.plain v.base, some p, none⟩
  | power {v w : Value} {l p : Layout} : f = .pow → v.layout = .ok l → w.layout = .ok .scalar →
      w.base = v.base → Layout.ofSizes l.logicalSize = .ok p →
      Accepts f [v, w] ⟨.plain v.base, some p, none⟩
  | reduction {v : Value} {l : Layout} : f.selects = true → v.layout = .ok l → l.rank = 1 →
      l.numElements ≠ 0 → Accepts f [v] ⟨.plain v.base, some .scalar, none⟩
  | pair {v w : Value} : f.selects = true → v.layout = .ok .scalar → w.layout = .ok .scalar →
      w.base = v.base → Accepts f [v, w] ⟨.plain v.base, some .scalar, none⟩

variable {f : Intrinsic} {v w t : Value} {args rest : List Value} {l p : Layout}

section Shapes

theorem resultLayout_unary (hf : f.isUnary = true) (v : Value) (second? : Option Value) :
    f.resultLayout v second? = (do Layout.ofSizes (← v.layout).logicalSize) := by
  cases f with
  | maxnum | minnum | pow => cases hf
  | _ => rfl

theorem resultLayout_unary_eq_ok_iff (hf : f.isUnary = true) : f.resultLayout v none = .ok p ↔
    ∃ l, v.layout = .ok l ∧ Layout.ofSizes l.logicalSize = .ok p := by
  rw [resultLayout_unary hf, bind_eq_ok_iff]

theorem scalar_guard_eq_ok_iff {x : Except Failure Layout} {e : Failure} {y : Except Failure Layout} :
    (do if !(← x).isScalar then throw e
        y) = .ok p ↔ x = .ok .scalar ∧ y = .ok p := by
  simp only [bind_eq_ok_iff, guard_eq_ok_iff, Bool.not_eq_true', Bool.not_eq_false]
  constructor
  · rintro ⟨l, rfl, hl, hy⟩
    rw [Layout.eq_scalar_of_isScalar hl]
    exact ⟨rfl, hy⟩
  · rintro ⟨rfl, hy⟩
    exact ⟨.scalar, rfl, rfl, hy⟩

theorem resultLayout_pow_eq_ok_iff : pow.resultLayout v (some w) = .ok p ↔
    w.layout = .ok .scalar ∧ ∃ l, v.layout = .ok l ∧ Layout.ofSizes l.logicalSize = .ok p := by
  show (do
      let shape ← v.layout
      if !(← w.layout).isScalar then throw (.invalidArgument .exponentRank)
      Layout.ofSizes shape.logicalSize : Except Failure Layout) = .ok p ↔ _
  rw [bind_eq_ok_iff]
  constructor
  · rintro ⟨l, hl, h⟩
    obtain ⟨hw, hp⟩ := scalar_guard_eq_ok_iff.mp h
    exact ⟨hw, l, hl, hp⟩
  · rintro ⟨hw, l, hl, hp⟩
    exact ⟨l, hl, scalar_guard_eq_ok_iff.mpr ⟨hw, hp⟩⟩

theorem resultLayout_reduction_eq_ok_iff (hf : f.selects = true) : f.resultLayout v none = .ok p ↔
    (∃ l, v.layout = .ok l ∧ l.rank = 1 ∧ l.numElements ≠ 0) ∧ p = .scalar := by
  have hopen : f.resultLayout v none = (do
      let shape ← v.layout
      if shape.rank ≠ 1 then throw (.invalidArgument (.reductionRank f shape.rank))
      if shape.numElements = 0 then throw (.invalidArgument (.reductionEmpty f))
      return .scalar) := by
    cases f with
    | maxnum | minnum => rfl
    | _ => cases hf
  simp only [hopen, bind_eq_ok_iff, guard_eq_ok_iff, pure_eq_ok, Except.ok.injEq, not_not]
  constructor
  · rintro ⟨l, hl, hrank, hcount, rfl⟩
    exact ⟨⟨l, hl, hrank, hcount⟩, rfl⟩
  · rintro ⟨⟨l, hl, hrank, hcount⟩, rfl⟩
    exact ⟨l, hl, hrank, hcount, rfl⟩

theorem resultLayout_pair_eq_ok_iff (hf : f.selects = true) : f.resultLayout v (some w) = .ok p ↔
    v.layout = .ok .scalar ∧ w.layout = .ok .scalar ∧ p = .scalar := by
  have hopen : f.resultLayout v (some w) = (do
      if !(← v.layout).isScalar then throw (.invalidArgument (.pairRank f))
      if !(← w.layout).isScalar then throw (.invalidArgument (.pairRank f))
      return .scalar) := by
    cases f with
    | maxnum | minnum => rfl
    | _ => cases hf
  rw [hopen, scalar_guard_eq_ok_iff, scalar_guard_eq_ok_iff, pure_eq_ok, Except.ok.injEq,
    eq_comm (a := Layout.scalar)]

end Shapes

/-- How many arguments a function takes, by its kind. -/
theorem takes_iff (f : Intrinsic) (n : Nat) : f.takes n = true ↔
    f.isUnary = true ∧ n = 1 ∨ f = .pow ∧ n = 2 ∨ f.selects = true ∧ n = 1 ∨
      f.selects = true ∧ n = 2 := by
  cases f <;> simp [takes, isUnary, selects]

theorem checkSecond_eq_ok_iff {b : BaseType} :
    checkSecond b (some w) = .ok () ↔ w.base = b := by
  show (if w.base = b then .ok () else .error (.baseMismatch b w.base) : Except Failure Unit) = .ok () ↔ _
  split
  · next h => exact iff_of_true rfl h
  · next h => exact iff_of_false nofun h

/-- What is accepted passes the checks of arity, of types and of shapes, and nothing else does. -/
theorem accepts_cons_iff : f.Accepts (v :: rest) t ↔
    f.takes (v :: rest).length = true ∧ checkSecond v.base rest.head? = .ok () ∧
      ∃ p, f.resultLayout v rest.head? = .ok p ∧ t = ⟨.plain v.base, some p, none⟩ := by
  constructor
  · intro h
    cases h with
    | each hf hl hp =>
      exact ⟨(takes_iff f 1).mpr (.inl ⟨hf, rfl⟩), rfl, _,
        (resultLayout_unary_eq_ok_iff hf).mpr ⟨_, hl, hp⟩, rfl⟩
    | power hf hl hw hbase hp =>
      subst hf
      exact ⟨rfl, checkSecond_eq_ok_iff.mpr hbase, _,
        resultLayout_pow_eq_ok_iff.mpr ⟨hw, _, hl, hp⟩, rfl⟩
    | reduction hf hl hrank hcount =>
      exact ⟨(takes_iff f 1).mpr (.inr (.inr (.inl ⟨hf, rfl⟩))), rfl, _,
        (resultLayout_reduction_eq_ok_iff hf).mpr ⟨⟨_, hl, hrank, hcount⟩, rfl⟩, rfl⟩
    | pair hf hv hw hbase =>
      exact ⟨(takes_iff f 2).mpr (.inr (.inr (.inr ⟨hf, rfl⟩))), checkSecond_eq_ok_iff.mpr hbase, _,
        (resultLayout_pair_eq_ok_iff hf).mpr ⟨hv, hw, rfl⟩, rfl⟩
  · rintro ⟨htakes, hsecond, p, hp, rfl⟩
    rcases (takes_iff f _).mp htakes with ⟨hf, hlength⟩ | ⟨rfl, hlength⟩ | ⟨hf, hlength⟩ | ⟨hf, hlength⟩
    · obtain rfl : rest = [] := List.length_eq_zero_iff.mp (Nat.succ.inj hlength)
      obtain ⟨l, hl, hp⟩ := (resultLayout_unary_eq_ok_iff hf).mp hp
      exact .each hf hl hp
    · obtain ⟨w, rfl⟩ := List.length_eq_one_iff.mp (Nat.succ.inj hlength)
      obtain ⟨hw, l, hl, hp⟩ := resultLayout_pow_eq_ok_iff.mp hp
      exact .power rfl hl hw (checkSecond_eq_ok_iff.mp hsecond) hp
    · obtain rfl : rest = [] := List.length_eq_zero_iff.mp (Nat.succ.inj hlength)
      obtain ⟨⟨l, hl, hrank, hcount⟩, rfl⟩ := (resultLayout_reduction_eq_ok_iff hf).mp hp
      exact .reduction hf hl hrank hcount
    · obtain ⟨w, rfl⟩ := List.length_eq_one_iff.mp (Nat.succ.inj hlength)
      obtain ⟨hv, hw, rfl⟩ := (resultLayout_pair_eq_ok_iff hf).mp hp
      exact .pair hf hv hw (checkSecond_eq_ok_iff.mp hsecond)

theorem ensureDefined_eq_ok_iff : v.ensureDefined = .ok () ↔ v.isDefined = true := by
  unfold Value.ensureDefined
  split
  · next h => exact iff_of_true rfl h
  · next h => exact iff_of_false nofun h

/-- A call has a template when its arguments are defined, their elements are of a type that the function
takes, and it is accepted for its arguments' number, types and shapes. -/
theorem template_eq_ok_iff : f.template args = .ok t ↔
    (∀ a ∈ args, a.isDefined = true) ∧ f.acceptsBase t.base = true ∧ f.Accepts args t := by
  unfold template
  rw [guard_eq_ok_iff, bind_eq_ok_iff, Bool.not_eq_true', Bool.not_eq_false]
  cases args with
  | nil =>
    refine iff_of_false (fun h => ?_) fun h => nomatch h.2.2
    simpa using (takes_iff f 0).mp h.1
  | cons v rest =>
    rw [accepts_cons_iff]
    constructor
    · rintro ⟨htakes, ⟨⟩, hdefined, h⟩
      obtain ⟨haccepts, h⟩ := guard_eq_ok_iff.mp h
      obtain ⟨⟨⟩, hsecond, h⟩ := bind_eq_ok_iff.mp h
      obtain ⟨p, hp, h⟩ := bind_eq_ok_iff.mp h
      obtain rfl := Except.ok.inj h
      refine ⟨fun a ha => ?_, Bool.not_not_eq.mp haccepts, htakes, hsecond, p, hp, rfl⟩
      exact ensureDefined_eq_ok_iff.mp (forM_eq_ok_iff.mp hdefined a ha)
    · rintro ⟨hdefined, haccepts, htakes, hsecond, p, hp, rfl⟩
      refine ⟨htakes, (), forM_eq_ok_iff.mpr fun a ha => ensureDefined_eq_ok_iff.mpr (hdefined a ha), ?_⟩
      refine guard_eq_ok_iff.mpr ⟨Bool.not_not_eq.mpr haccepts, ?_⟩
      rw [hsecond, ok_bind, hp]
      rfl

/-- The largest or smallest element is a single element. -/
theorem layout_of_selects (hf : f.selects = true) (h : f.template args = .ok t) : t.layout = .ok .scalar := by
  obtain ⟨-, -, haccepted⟩ := template_eq_ok_iff.mp h
  cases haccepted with
  | each hunary =>
    cases f with
    | maxnum | minnum => cases hunary
    | _ => cases hf
  | power hpow =>
    subst hpow
    cases hf
  | reduction | pair => rfl

/-- All other functions keep the rank of their first argument. -/
theorem rank_of_template (hf : f.selects = false) (h : f.template (v :: rest) = .ok t) :
    t.rank? = v.rank? := by
  have hkeeps : ∀ {l p : Layout}, v.layout = .ok l → Layout.ofSizes l.logicalSize = .ok p →
      some p.rank = v.rank? := by
    intro l p hl hp
    rw [Value.rank?, Value.layout_eq_ok_iff.mp hl, Option.map_some, ← p.length_logicalSize,
      Layout.packed_logicalSize hp, l.length_logicalSize]
  obtain ⟨-, -, haccepted⟩ := template_eq_ok_iff.mp h
  cases haccepted with
  | each _ hl hp => exact hkeeps hl hp
  | power _ hl _ _ hp => exact hkeeps hl hp
  | reduction hselects | pair hselects =>
    rw [hf] at hselects
    cases hselects

end Emission.Intrinsic

import Emission.Proofs.Functions
import Emission.Proofs.Store.Indexing
import Mathlib.Data.Set.List

/-!
Extremes of rows. Of two integers of one kind a maximum or a minimum keeps one as it is: what is widened for
the comparison narrows back to itself. So a row is folded to one of its elements, which all the others
precede, in the order of the numbers that the elements stand for.
-/
namespace Emission.Intrinsic

/-- The order in which an extreme comes last: that of the numbers for a maximum, and the reverse of it for a
minimum. -/
def Precedes : Intrinsic → Int → Int → Prop
  | maxnum, x, y => x ≤ y
  | _, x, y => y ≤ x

variable {f : Intrinsic} {k : IntKind}

theorem precedes_refl (f : Intrinsic) (x : Int) : f.Precedes x x := by
  cases f <;> exact Int.le_refl x

theorem precedes_trans {x y z : Int} (hxy : f.Precedes x y) (hyz : f.Precedes y z) :
    f.Precedes x z := by
  cases f with
  | maxnum => exact Int.le_trans hxy hyz
  | _ => exact Int.le_trans hyz hxy

/-- Of two integers one is chosen that neither comes after. -/
theorem choose_integer (f : Intrinsic) (x y : BitVec k.width) :
    ∃ z, f.choose (.integer k x) (.integer k y) = .integer k z ∧ (z = x ∨ z = y) ∧
      f.Precedes (k.toInt x) (k.toInt z) ∧ f.Precedes (k.toInt y) (k.toInt z) := by
  cases f with
  | maxnum =>
    refine ⟨_, Datum.max_integer k x y, ?_⟩
    split
    · next h => exact ⟨.inr rfl, Int.le_of_lt h, Int.le_refl _⟩
    · next h => exact ⟨.inl rfl, Int.le_refl _, Int.not_lt.mp h⟩
  | _ =>
    refine ⟨_, Datum.min_integer k x y, ?_⟩
    split
    · next h => exact ⟨.inr rfl, Int.le_of_lt h, Int.le_refl _⟩
    · next h => exact ⟨.inl rfl, Int.le_refl _, Int.not_lt.mp h⟩

/-- A fold ends with one of the integers, and none comes after it. -/
theorem foldl_choose (f : Intrinsic) (xs : List (BitVec k.width)) (x : BitVec k.width) :
    ∃ z, (xs.map (Datum.integer k)).foldl f.choose (.integer k x) = .integer k z ∧ z ∈ x :: xs ∧
      ∀ y ∈ x :: xs, f.Precedes (k.toInt y) (k.toInt z) := by
  induction xs generalizing x with
  | nil => exact ⟨x, rfl, List.mem_singleton_self x, by simpa using f.precedes_refl _⟩
  | cons x' xs ih =>
    obtain ⟨w, hchoose, hmem, hx, hx'⟩ := f.choose_integer x x'
    obtain ⟨z, hfold, hz, hall⟩ := ih w
    refine ⟨z, ?_, ?_, ?_⟩
    · rw [List.map_cons, List.foldl_cons, hchoose, hfold]
    · rcases List.mem_cons.mp hz with rfl | hz
      · rcases hmem with rfl | rfl <;> simp
      · simp [hz]
    · have hw := hall w List.mem_cons_self
      intro y hy
      rcases List.mem_cons.mp hy with rfl | hy
      · exact precedes_trans hx hw
      · rcases List.mem_cons.mp hy with rfl | hy
        · exact precedes_trans hx' hw
        · exact hall y (List.mem_cons_of_mem w hy)

theorem acceptsBase_integer (hf : f.selects = true) (k : IntKind) :
    f.acceptsBase (.cell (.integer k)) = true := by
  cases f with
  | maxnum | minnum => rfl
  | _ => cases hf

end Emission.Intrinsic

namespace Emission.Store

open Intrinsic

variable {Body : Type} {s : Store Body} {f : Intrinsic} {k : IntKind} {v w : Value} {l : Layout}

/-- What is read from storage of integers are integers of that kind. -/
theorem Backed.exists_integers (hv : s.Backed v) (hl : v.layout = .ok l) (hk : v.base = .cell (.integer k)) :
    ∃ (xs : Data) (bs : List (BitVec k.width)), s.read v = .ok xs ∧ xs.toList = bs.map (.integer k) ∧
      bs.length = l.numElements := by
  obtain ⟨slot, a, b⟩ := hv.backing hl
  have hkind : a.kind = .integer k := BaseType.cell.inj (b.base.symm.trans hk)
  have hrange : (a.view slot.start l).toList ∈ Set.range (List.map (Datum.integer k)) := by
    rw [Set.range_list_map]
    intro d hd
    obtain ⟨x, rfl⟩ := Datum.exists_integer ((Data.kind_of_mem hd).trans hkind)
    exact ⟨x, rfl⟩
  obtain ⟨bs, hbs⟩ := hrange
  refine ⟨a.view slot.start l, bs, b.read_eq, hbs.symm, ?_⟩
  rw [← Data.size_view b.wellFormed a slot.start, ← Data.length_toList, ← hbs, List.length_map]

theorem Backed.isDefined (hv : s.Backed v) : v.isDefined = true := by
  obtain ⟨l, slot, a, b⟩ := hv
  exact b.isDefined_eq

/-- A row of integers has an extreme if it has elements. -/
theorem Backed.template_reduction (hv : s.Backed v) (hf : f.selects = true) (hl : v.layout = .ok l)
    (hk : v.base = .cell (.integer k)) (hrank : l.rank = 1) (hcount : l.numElements ≠ 0) :
    f.template [v] = .ok ⟨.plain (.cell (.integer k)), some .scalar, none⟩ := by
  rw [← hk]
  exact template_eq_ok_iff.mpr ⟨List.forall_mem_singleton.mpr hv.isDefined,
    hk ▸ acceptsBase_integer hf k, .reduction hf hl hrank hcount⟩

/-- Two single integers of one kind have an extreme. -/
theorem Holds.template_pair {a b : Scalar} {x y : BitVec k.width} (ha : s.Holds k a x) (hb : s.Holds k b y)
    (hf : f.selects = true) :
    f.template [a.value, b.value] = .ok ⟨.plain (.cell (.integer k)), some .scalar, none⟩ := by
  rw [← ha.base_eq]
  have hdefined : ∀ v ∈ [a.value, b.value], v.isDefined = true :=
    List.forall_mem_cons.mpr ⟨ha.backed.isDefined, List.forall_mem_singleton.mpr hb.backed.isDefined⟩
  have hbase := hb.base_eq.trans ha.base_eq.symm
  refine template_eq_ok_iff.mpr ⟨hdefined, ha.base_eq ▸ acceptsBase_integer hf k, ?_⟩
  obtain ⟨_, _, hbacking, -⟩ := ha
  obtain ⟨_, _, hbacking', -⟩ := hb
  exact .pair hf hbacking.layout_eq hbacking'.layout_eq hbase

end Emission.Store

namespace Emission.Intrinsic

open Store Script

variable {f : Intrinsic} {k : IntKind} {store : Store Script.Body} {row : Vector} {l : Layout} {slot : Slot}
  {a : Data}

/-- What a row reads as decides its extreme. -/
theorem yields_row {session : Session} {i : Nat} (hactive : session.Active i store) (hf : f.selects = true)
    (hrow : store.Backed row.value) (hl : row.value.layout = .ok l) (hk : row.base = .cell (.integer k))
    (hcount : l.numElements ≠ 0) {xs : Data} (hread : store.read row.value = .ok xs) {d : Datum}
    {ds : List Datum} (hxs : xs.toList = d :: ds) :
    session.Yields i store (applyMath f (.vector row) none)
      ⟨.plain (.cell (.integer k)), some .scalar, none⟩ [ds.foldl f.choose d] := by
  have hrank : l.rank = 1 := by
    have hvalue := row.rank_eq
    rw [Value.rank?, Value.layout_eq_ok_iff.mp hl] at hvalue
    exact Option.some.inj hvalue
  obtain ⟨xss, hxss, hyields⟩ := yields_applyMath hactive (.vector row) none
    (hrow.template_reduction hf hl hk hrank hcount) (List.forall_mem_singleton.mpr hrow)
  obtain ⟨ys, _, hys, ⟨⟩, rfl⟩ := List.forall₂_cons_left_iff.mp hxss
  obtain rfl := Except.ok.inj (hread.symm.trans hys)
  rw [results_reduction hf, hxs, Data.get_zero_of_cons hxs] at hyields
  exact hyields

/-- A function on two scalars chooses from their elements. -/
theorem yields_pair {session : Session} {i : Nat} (hactive : session.Active i store) (hf : f.selects = true)
    {a b : Scalar} {x y : BitVec k.width} (ha : store.Holds k a x) (hb : store.Holds k b y) :
    session.Yields i store (applyMath f (.scalar a) (some b))
      ⟨.plain (.cell (.integer k)), some .scalar, none⟩ [f.choose (.integer k x) (.integer k y)] := by
  have hargs : ∀ v ∈ [a.value, b.value], store.Backed v :=
    List.forall_mem_cons.mpr ⟨ha.backed, List.forall_mem_singleton.mpr hb.backed⟩
  obtain ⟨xss, hxss, hyields⟩ :=
    yields_applyMath hactive (.scalar a) (some b) (ha.template_pair hb hf) hargs
  obtain ⟨us, _, hus, hrest, rfl⟩ := List.forall₂_cons_left_iff.mp hxss
  obtain ⟨vs, _, hvs, ⟨⟩, rfl⟩ := List.forall₂_cons_left_iff.mp hrest
  obtain rfl := Except.ok.inj (ha.read_eq.symm.trans hus)
  obtain rfl := Except.ok.inj (hb.read_eq.symm.trans hvs)
  rw [results_pair hf, get_single, get_single] at hyields
  exact hyields

/-- A row of integers that has elements reads as a first one and others. Its maximum is one of them that all
precede, its minimum is so in the reverse order, and either is the fold of what the function of two scalars
chooses. What is stored elsewhere has no part in it: in every state where the row reads as this, the
function gives that element, unless there is no handle left. -/
theorem extreme_of_row (hrow : store.Backed row.value) (hl : row.value.layout = .ok l)
    (hk : row.base = .cell (.integer k)) (hcount : l.numElements ≠ 0) (hf : f.selects = true) :
    ∃ (xs : Data) (first : BitVec k.width) (rest : List (BitVec k.width)) (best : BitVec k.width),
      store.read row.value = .ok xs ∧ xs.toList = (first :: rest).map (.integer k) ∧
      best ∈ first :: rest ∧ (∀ x ∈ first :: rest, f.Precedes (k.toInt x) (k.toInt best)) ∧
      (rest.map (.integer k)).foldl f.choose (.integer k first) = .integer k best ∧
      (l.numElements = 1 → best = first) ∧
      ∀ (session : Session) (i : Nat) (store' : Store Script.Body), session.Active i store' →
        (store'.Backed row.value → store'.read row.value = .ok xs →
          session.Yields i store' (applyMath f (.vector row) none)
            ⟨.plain (.cell (.integer k)), some .scalar, none⟩ [.integer k best]) ∧
        ∀ (a b : Scalar) (x y : BitVec k.width), store'.Holds k a x → store'.Holds k b y →
          session.Yields i store' (applyMath f (.scalar a) (some b))
            ⟨.plain (.cell (.integer k)), some .scalar, none⟩ [f.choose (.integer k x) (.integer k y)] := by
  obtain ⟨xs, bs, hread, hxs, hlength⟩ := hrow.exists_integers hl hk
  cases bs with
  | nil => exact absurd hlength.symm hcount
  | cons first rest =>
    obtain ⟨best, hfold, hmem, hall⟩ := f.foldl_choose rest first
    refine ⟨xs, first, rest, best, hread, hxs, hmem, hall, hfold, fun hone => ?_,
      fun session i store' hactive => ⟨fun hrow' hread' => ?_, fun a b x y ha hb => ?_⟩⟩
    · rw [hone, List.length_cons, Nat.add_eq_right, List.length_eq_zero_iff] at hlength
      subst hlength
      exact List.mem_singleton.mp hmem
    · rw [← hfold]
      exact yields_row hactive hf hrow' hl hk hcount hread' hxs
    · exact yields_pair hactive hf ha hb

/-- The larger and the smaller of two bytes, the larger one with its high bit set. Among the cells beside
them are larger and smaller ones. -/
theorem extreme_of_row_padded :
    let a : Data := .ofList (.integer .byte) [.integer .byte 255, .integer .byte 0, .integer .byte 100,
      .integer .byte 200, .integer .byte 255]
    let store : Store Script.Body := { Store.empty with buffers := #[a], slots := #[⟨0, 1⟩] }
    let row : Vector := ⟨⟨.plain (.cell (.integer .byte)), some ⟨[⟨2, 4, 1, 1, 0⟩]⟩, some ⟨0⟩⟩, rfl⟩
    let session : Session := ⟨#[store], ["main"], .enter .empty "main" (.direct 0), [], [], [], 0, #[]⟩
    session.Yields 0 store (applyMath .maxnum (.vector row) none)
        ⟨.plain (.cell (.integer .byte)), some .scalar, none⟩ [.integer .byte 200] ∧
      session.Yields 0 store (applyMath .minnum (.vector row) none)
        ⟨.plain (.cell (.integer .byte)), some .scalar, none⟩ [.integer .byte 100] := by
  intro a store row session
  have hrow : store.Backed row.value := ⟨_, ⟨0, 1⟩, a, {
    layout := rfl
    obtainable := ⟨.padded [2] [1], rfl⟩
    handle := ⟨⟨0⟩, rfl, rfl⟩
    cells := rfl
    base := rfl
    room := by decide
    fits := by decide }⟩
  have hpair : store.read row.value =
    .ok (.ofList (.integer .byte) [.integer .byte 100, .integer .byte 200]) := rfl
  have hbytes : Function.Injective (Datum.integer .byte) := fun _ _ h => by injection h
  constructor
  · obtain ⟨xs, first, rest, best, hread, hxs, -, -, hfold, -, hyields⟩ :=
      extreme_of_row (f := .maxnum) hrow rfl rfl (by decide) rfl
    obtain rfl := Except.ok.inj (hpair.symm.trans hread)
    obtain ⟨rfl, rfl⟩ : 100 = first ∧ [200] = rest :=
      List.cons.inj (List.map_injective_iff.mpr hbytes hxs)
    obtain rfl : 200 = best := hbytes hfold
    exact (hyields session 0 store ⟨rfl, rfl⟩).1 hrow rfl
  · obtain ⟨xs, first, rest, best, hread, hxs, -, -, hfold, -, hyields⟩ :=
      extreme_of_row (f := .minnum) hrow rfl rfl (by decide) rfl
    obtain rfl := Except.ok.inj (hpair.symm.trans hread)
    obtain ⟨rfl, rfl⟩ : 100 = first ∧ [200] = rest :=
      List.cons.inj (List.map_injective_iff.mpr hbytes hxs)
    obtain rfl : 100 = best := hbytes hfold
    exact (hyields session 0 store ⟨rfl, rfl⟩).1 hrow rfl

end Emission.Intrinsic

import Emission.Proofs.Datum
import Emission.Proofs.Store.Tabulation

/-!
Operations on all elements, seen through reading. The operands may be laid out in any way, each in
its own. The result lies on a new buffer in a packed layout, and it reads as the operation on what
the operands read as, position by position, with a single right element repeated.
-/
namespace Emission

variable {Body : Type}

namespace Layout

/-- A packed layout shows a whole array as it is. -/
theorem view_packed {ns : List Nat} {l : Layout} (hl : ofSizes ns = .ok l) {data : Data}
    (hsize : data.size = ns.prod) : data.view 0 l = data := by
  have hwf := ofSizes_wellFormed hl
  have hcount : l.coordinates.length = data.size := by
    rw [length_coordinates hwf, (packed_volume hl).1, hsize]
  refine Data.ext_get rfl (by rw [Data.view, Data.size_ofList, List.length_map, hcount]) ?_
  intro i hi
  have hi' : i < l.coordinates.length := by rw [hcount]; exact hi
  rw [Data.get_view data 0 l hi', packed_address_getElem hl hi', Nat.zero_add]

end Layout

/-- What a right operand has beside `n` elements of a left one: a single element is repeated. -/
def alignedElements (r : Layout) (n : Nat) (ys : Data) : List Datum :=
  if r.isScalar then List.replicate n (ys.get 0) else ys.toList

namespace Store

variable (s : Store Body)

/-- The action gives a value on the next buffer, in the packed layout of the sizes, which reads as the
data. The state gets this buffer and its slot, and changes in nothing else. -/
def Yields (action : Action Body Value) (sizes : List Nat) (data : Data) : Prop :=
  ∃ l, Layout.ofSizes sizes = .ok l ∧
    action.exec s = (.ok (s.fresh data.kind l), s.withBuffer data) ∧
    (s.withBuffer data).read (s.fresh data.kind l) = .ok data

/-- The action fails because no handle is left for its result. The state gets a buffer that nothing
leads to. -/
def Exhausts (action : Action Body Value) : Prop :=
  ∃ data, action.exec s =
    (.error (.backend .handlesExhausted), { s with buffers := s.buffers.push data })

variable {s}

theorem Exhausts.congr {x y : Action Body Value} (h : s.Exhausts x) (hxy : y.exec s = x.exec s) :
    s.Exhausts y := by
  obtain ⟨data, hexec⟩ := h
  exact ⟨data, hxy.trans hexec⟩

theorem Yields.congr {x y : Action Body Value} {sizes : List Nat} {data : Data}
    (h : s.Yields x sizes data) (hxy : y.exec s = x.exec s) : s.Yields y sizes data := by
  obtain ⟨l, hl, hexec, hread⟩ := h
  exact ⟨l, hl, hxy.trans hexec, hread⟩

variable {v lhs rhs : Value} {l r : Layout} {slot slot' : Slot} {a b : Data}

/-- The left operand's element at some coordinates, whether it is repeated or not. -/
theorem Backing.broadcast_eq (hl : s.Backing v l slot a) {c : List Nat} (hc : l.InRange c) :
    s.broadcast v c = .ok (a.get (slot.start + l.address c)) := by
  unfold broadcast
  rw [hl.layout_eq, ok_bind, hl.fetch_eq hc]
  split
  · obtain rfl := Layout.eq_scalar_of_isScalar ‹_›
    obtain rfl : c = [] := List.length_eq_zero_iff.mp hc.length_eq
    exact hl.fetch_eq hc
  · rfl

/-- The cell that a right operand has at coordinates of a left one. -/
def meet (r : Layout) (slot : Slot) (b : Data) (c : List Nat) : Datum :=
  if r.isScalar then b.get slot.start else b.get (slot.start + r.address c)

theorem kind_meet (r : Layout) (slot : Slot) (b : Data) (c : List Nat) :
    (meet r slot b c).kind = b.kind := by
  unfold meet
  split <;> exact Data.kind_get b _

theorem Backing.broadcast_meet (hr : s.Backing v r slot b)
    (hshape : r.isScalar = true ∨ l.logicalSize = r.logicalSize) {c : List Nat}
    (hc : l.InRange c) : s.broadcast v c = .ok (meet r slot b c) := by
  unfold broadcast meet
  rw [hr.layout_eq, ok_bind]
  by_cases hscalar : r.isScalar = true
  · obtain rfl := Layout.eq_scalar_of_isScalar hscalar
    simp only [hscalar, if_true]
    exact hr.fetch_eq (c := []) List.Forall₂.nil
  · have hsizes := hshape.resolve_left hscalar
    simp only [hscalar, Bool.false_eq_true, if_false]
    exact hr.fetch_eq (by rw [Layout.InRange, ← hsizes]; exact hc)

/-- The cells that a right operand has at all coordinates of a left one are the elements it is read
as, aligned with those of the left one. -/
theorem Backing.aligned_eq (hl : l.WellFormed) (hr : s.Backing v r slot b)
    (hshape : r.isScalar = true ∨ l.logicalSize = r.logicalSize) :
    alignedElements r l.numElements (b.view slot.start r) =
      l.coordinates.map (meet r slot b) := by
  unfold alignedElements
  by_cases hscalar : r.isScalar = true
  · obtain rfl := Layout.eq_scalar_of_isScalar hscalar
    have hget := Data.get_view_scalar b slot.start
    have hmeet : ∀ c ∈ l.coordinates, meet .scalar slot b c = b.get slot.start := fun c _ => rfl
    rw [if_pos hscalar, hget, List.map_congr_left hmeet, List.map_const',
      Layout.length_coordinates hl]
  · have hsizes := hshape.resolve_left hscalar
    rw [if_neg hscalar, Data.toList_view, Layout.coordinates_congr hl hr.wellFormed hsizes]
    exact List.map_congr_left fun c _ => by simp only [meet, hscalar, Bool.false_eq_true, if_false]

/-- A tabulation of elements that can all be computed from the storage there was before, in a shape that can
be packed. -/
theorem yields_tabulate_packed {k : Kind} {packed : Layout} (hl : l.WellFormed)
    (hpacked : Layout.ofSizes l.logicalSize = .ok packed) (hfits : l.numElements < cellLimit)
    (hroom : s.slots.size < handleLimit)
    {f : Store Body → List Nat → Except Failure Datum} (g : List Nat → Datum)
    (hf : ∀ s', s.Grows s' → ∀ c ∈ l.coordinates, f s' c = .ok (g c)) :
    s.Yields (Action.tabulate (.plain (.cell k)) l f) l.logicalSize
      (.ofList k (l.coordinates.map g)) := by
  have hmapM : l.coordinates.mapM (fun c => (Except.ok (g c) : Except Failure Datum)) =
      .ok (l.coordinates.map g) := mapM_eq_ok fun _ _ => rfl
  obtain ⟨data, hexec, hdata⟩ := Action.exec_tabulate s (k := k) hl hpacked hfits hf hroom
  obtain rfl := hdata _ hmapM
  rw [hmapM] at hexec
  refine ⟨packed, hpacked, hexec, ?_⟩
  have hcount : (Data.ofList k (l.coordinates.map g)).size = l.numElements := by
    rw [Data.size_ofList, List.length_map, Layout.length_coordinates hl]
  have hsize := hcount.trans (Layout.prod_logicalSize hl).symm
  rw [(s.fresh_backing_packed hpacked hsize (hcount ▸ hfits)).read_eq]
  exact congrArg Except.ok (Layout.view_packed hpacked hsize)

theorem yields_tabulate {k : Kind} (hl : l.WellFormed) (hpos : 0 < l.numElements)
    (hfits : l.numElements < cellLimit) (hroom : s.slots.size < handleLimit)
    {f : Store Body → List Nat → Except Failure Datum}
    (g : List Nat → Datum) (hf : ∀ s', s.Grows s' → ∀ c ∈ l.coordinates, f s' c = .ok (g c)) :
    s.Yields (Action.tabulate (.plain (.cell k)) l f) l.logicalSize
      (.ofList k (l.coordinates.map g)) := by
  obtain ⟨packed, hpacked⟩ := Layout.exists_packed_logicalSize hl hpos
  exact yields_tabulate_packed hl hpacked hfits hroom g hf

/-- Without a handle left, no tabulation succeeds. -/
theorem tabulate_exhausted_packed {k : Kind} {packed : Layout} (hl : l.WellFormed)
    (hpacked : Layout.ofSizes l.logicalSize = .ok packed) (hfits : l.numElements < cellLimit)
    (hroom : ¬ s.slots.size < handleLimit) (f : Store Body → List Nat → Except Failure Datum) :
    s.Exhausts (Action.tabulate (.plain (.cell k)) l f) := by
  have hmemory : packed.memorySize < cellLimit := by
    rwa [(Layout.packed_volume hpacked).2, Layout.prod_logicalSize hl]
  unfold Exhausts Action.tabulate
  rw [Action.exec_bind, Action.exec_lift, hpacked]
  simp only [Action.exec_bind, Action.exec_newStorage s k hmemory, hroom, if_false]
  exact ⟨_, rfl⟩

theorem tabulate_exhausted {k : Kind} (hl : l.WellFormed) (hpos : 0 < l.numElements)
    (hfits : l.numElements < cellLimit) (hroom : ¬ s.slots.size < handleLimit)
    (f : Store Body → List Nat → Except Failure Datum) :
    s.Exhausts (Action.tabulate (.plain (.cell k)) l f) := by
  obtain ⟨packed, hpacked⟩ := Layout.exists_packed_logicalSize hl hpos
  exact tabulate_exhausted_packed hl hpacked hfits hroom f

/-- The type of numbers is not that of booleans. -/
theorem Backing.kind_ne_boolean (hl : s.Backing lhs l slot a)
    (hnumeric : (lhs.base.isIntegral || lhs.base.isFloatingPoint) = true) :
    a.kind ≠ .boolean := by
  intro h
  rw [hl.base, h] at hnumeric
  cases hnumeric

section Checks

/-- Arithmetic on backed operands that agree passes all checks. -/
theorem arithmetic_exec (op : Arithmetic) (hl : s.Backing lhs l slot a)
    (hr : s.Backing rhs r slot' b) (hbase : lhs.base = rhs.base)
    (hshape : r.isScalar = true ∨ l.logicalSize = r.logicalSize)
    (hnumeric : (lhs.base.isIntegral || lhs.base.isFloatingPoint) = true) :
    (Action.arithmetic op lhs rhs).exec s =
      (Action.tabulate (.plain (.cell a.kind)) l fun s c => do
        let x ← s.broadcast lhs c
        x.arithmetic op (← s.broadcast rhs c)).exec s := by
  have hshapes : checkShapes lhs rhs = .ok () := by
    simp [checkShapes, hl.layout_eq, hr.layout_eq, hshape]
  unfold Action.arithmetic
  simp only [Action.exec_bind, Action.exec_lift, hl.ensureDefined_eq, hr.ensureDefined_eq, hbase,
    ne_eq, not_true_eq_false, if_false]
  rw [← hbase, hnumeric]
  simp only [Bool.not_true, Bool.false_eq_true, if_false, Action.exec_bind, Action.exec_lift,
    hshapes, hl.layout_eq, hl.base]

theorem compare_exec (op : Comparison) (hl : s.Backing lhs l slot a)
    (hr : s.Backing rhs r slot' b) (hbase : lhs.base = rhs.base)
    (hshape : r.isScalar = true ∨ l.logicalSize = r.logicalSize) :
    (Action.compare op lhs rhs).exec s =
      (Action.tabulate (.plain .boolean) l fun s c => do
        let x ← s.broadcast lhs c
        return .boolean (x.compare op (← s.broadcast rhs c))).exec s := by
  have hshapes : checkShapes lhs rhs = .ok () := by
    simp [checkShapes, hl.layout_eq, hr.layout_eq, hshape]
  unfold Action.compare
  simp only [hl.isDefined_eq, hr.isDefined_eq, Bool.not_true, Bool.or_self, Bool.false_eq_true,
    if_false, hbase, ne_eq, not_true_eq_false, Action.exec_bind, Action.exec_lift, hshapes,
    hl.layout_eq]

theorem negate_exec (hl : s.Backing v l slot a) (hbase : v.base = .boolean) :
    (Action.negate v).exec s =
      (Action.tabulate (.plain .boolean) l fun s c =>
        return .boolean !(← s.fetch v c).toBool).exec s := by
  unfold Action.negate
  simp only [Action.exec_bind, Action.exec_lift, hl.ensureDefined_eq, hl.layout_eq, hbase, ne_eq,
    not_true_eq_false, if_false]

theorem cast_exec (k : Kind) (hl : s.Backing v l slot a) :
    (Action.cast v (.plain (.cell k))).exec s =
      (Action.tabulate (.plain (.cell k)) l fun s c =>
        return (← s.fetch v c).convert k).exec s := by
  have hconstrained : v.isConstrained = true := by simp [Value.isConstrained, hl.layout]
  unfold Action.cast
  simp only [hconstrained, Bool.not_true, Bool.false_eq_true, if_false, Action.exec_bind,
    Action.exec_lift, hl.ensureDefined_eq, hl.layout_eq]

end Checks

/-- Where both operands agree, the elements they are read as are paired at the same coordinates. -/
theorem Backing.zipWith_eq {γ : Type} (f : Datum → Datum → γ) (hl : s.Backing lhs l slot a)
    (hr : s.Backing rhs r slot' b) (hshape : r.isScalar = true ∨ l.logicalSize = r.logicalSize) :
    List.zipWith f (a.view slot.start l).toList
        (alignedElements r (a.view slot.start l).size (b.view slot'.start r)) =
      l.coordinates.map fun c => f (a.get (slot.start + l.address c)) (meet r slot' b c) := by
  rw [Data.size_view hl.wellFormed, hr.aligned_eq hl.wellFormed hshape, Data.toList_view,
    List.zipWith_map, List.zipWith_self]

/-- What a right operand shows at all coordinates of a left one is what it is read as. -/
theorem Backing.mem_aligned (hl : l.WellFormed) (hpos : 0 < l.numElements)
    (hr : s.Backing rhs r slot b) (hshape : r.isScalar = true ∨ l.logicalSize = r.logicalSize)
    (d : Datum) : (∃ c ∈ l.coordinates, meet r slot b c = d) ↔
      d ∈ (b.view slot.start r).toList := by
  rw [← List.mem_map, ← hr.aligned_eq hl hshape]
  unfold alignedElements
  by_cases hscalar : r.isScalar = true
  · obtain rfl := Layout.eq_scalar_of_isScalar hscalar
    have hlist : (b.view slot.start .scalar).toList = [(b.view slot.start .scalar).get 0] := by
      refine List.ext_getElem (by simp [Data.view, Layout.coordinates_scalar]) fun i hi hi' => ?_
      obtain rfl : i = 0 := by simpa using hi'
      exact Data.getElem_toList hi
    rw [if_pos hscalar, hlist, List.mem_replicate, List.mem_singleton]
    exact ⟨And.right, fun h => ⟨by omega, h⟩⟩
  · rw [if_neg hscalar]

section Results

variable (hl : s.Backing lhs l slot a) (hr : s.Backing rhs r slot' b)
  (hbase : lhs.base = rhs.base) (hpos : 0 < l.numElements)
  (hshape : r.isScalar = true ∨ l.logicalSize = r.logicalSize)
  (hroom : s.slots.size < handleLimit)

include hl hr hbase hpos hshape hroom

/-- A comparison reads as the comparison of the elements at each position. -/
theorem compare_yields (op : Comparison) :
    s.Yields (Action.compare op lhs rhs) l.logicalSize
      (.ofList .boolean (List.zipWith (fun x y => .boolean (x.compare op y))
        (a.view slot.start l).toList
        (alignedElements r (a.view slot.start l).size (b.view slot'.start r)))) := by
  rw [hl.zipWith_eq _ hr hshape]
  refine (yields_tabulate hl.wellFormed hpos hl.numElements_lt hroom _ fun s' hs' c hc => ?_).congr
    (compare_exec op hl hr hbase hshape)
  have hin := (Layout.mem_coordinates hl.wellFormed).mp hc
  simp only [(hl.mono hs').broadcast_eq hin, (hr.mono hs').broadcast_meet hshape hin, ok_bind,
    pure_eq_ok]

/-- Without an integral division by zero, arithmetic reads as the arithmetic of the elements at each
position. -/
theorem arithmetic_yields (op : Arithmetic)
    (hnumeric : (lhs.base.isIntegral || lhs.base.isFloatingPoint) = true)
    (hdivides : ¬ (op.Divides ∧ ∃ k, .integer k 0 ∈ (b.view slot'.start r).toList)) :
    ∃ zs : Data, zs.kind = a.kind ∧
      List.zipWith (Datum.arithmetic op) (a.view slot.start l).toList
          (alignedElements r (a.view slot.start l).size (b.view slot'.start r)) =
        zs.toList.map .ok ∧
      s.Yields (Action.arithmetic op lhs rhs) l.logicalSize zs := by
  have hkinds := hl.kind_eq hr hbase
  -- each pair has a result, because none of the right elements is a zero to divide by
  have hpairs : ∀ c ∈ l.coordinates, ∃ d, (a.get (slot.start + l.address c)).arithmetic op
      (meet r slot' b c) = .ok d ∧ d.kind = a.kind := by
    intro c hc
    refine Datum.arithmetic_ok (hl.kind_ne_boolean hnumeric) (Data.kind_get a _)
      ((kind_meet r slot' b c).trans hkinds) ?_
    rintro ⟨hop, k, hk⟩
    exact hdivides ⟨hop, k, (hr.mem_aligned hl.wellFormed hpos hshape _).mp ⟨c, hc, hk⟩⟩
  choose! g hg using hpairs
  have hlist : (Data.ofList a.kind (l.coordinates.map g)).toList = l.coordinates.map g := by
    refine Data.toList_ofList fun d hd => ?_
    obtain ⟨c, hc, rfl⟩ := List.mem_map.mp hd
    exact (hg c hc).2
  refine ⟨.ofList a.kind (l.coordinates.map g), rfl, ?_, ?_⟩
  · rw [hl.zipWith_eq _ hr hshape, hlist, List.map_map]
    exact List.map_congr_left fun c hc => (hg c hc).1
  · refine (yields_tabulate hl.wellFormed hpos hl.numElements_lt hroom g fun s' hs' c hc => ?_).congr
      (arithmetic_exec op hl hr hbase hshape hnumeric)
    have hin := (Layout.mem_coordinates hl.wellFormed).mp hc
    simp only [(hl.mono hs').broadcast_eq hin, (hr.mono hs').broadcast_meet hshape hin, ok_bind]
    exact (hg c hc).1

/-- An integral division by a zero element fails. -/
theorem arithmetic_divides {op : Arithmetic} (hop : op.Divides)
    (hnumeric : (lhs.base.isIntegral || lhs.base.isFloatingPoint) = true)
    (hzero : ∃ k, .integer k 0 ∈ (b.view slot'.start r).toList) :
    ((Action.arithmetic op lhs rhs).exec s).1 = .error (.invalidArgument .divisionByZero) := by
  obtain ⟨k, hk⟩ := hzero
  have hkinds := hl.kind_eq hr hbase
  obtain ⟨packed, hpacked⟩ := Layout.exists_packed_logicalSize hl.wellFormed hpos
  have hf : ∀ s', s.Grows s' → ∀ c ∈ l.coordinates,
      (do let x ← s'.broadcast lhs c
          x.arithmetic op (← s'.broadcast rhs c)) =
        (a.get (slot.start + l.address c)).arithmetic op (meet r slot' b c) := by
    intro s' hs' c hc
    have hin := (Layout.mem_coordinates hl.wellFormed).mp hc
    rw [(hl.mono hs').broadcast_eq hin, (hr.mono hs').broadcast_meet hshape hin]
    rfl
  obtain ⟨data, hexec, -⟩ :=
    Action.exec_tabulate s (k := a.kind) hl.wellFormed hpacked hl.numElements_lt hf hroom
  have hfails : l.coordinates.mapM (fun c =>
      (a.get (slot.start + l.address c)).arithmetic op (meet r slot' b c)) =
        .error (.invalidArgument .divisionByZero) := by
    refine mapM_eq_error (fun c _ => Datum.arithmetic_total op (hl.kind_ne_boolean hnumeric)
      (Data.kind_get a _) ((kind_meet r slot' b c).trans hkinds)) ?_
    obtain ⟨c, hc, hmeet⟩ := (hr.mem_aligned hl.wellFormed hpos hshape _).mpr hk
    have hkind : a.kind = .integer k := by rw [← hkinds, ← kind_meet r slot' b c, hmeet]; rfl
    refine ⟨c, hc, ?_⟩
    rw [hmeet]
    exact Datum.arithmetic_zero hop ((Data.kind_get a _).trans hkind)
  rw [arithmetic_exec op hl hr hbase hshape hnumeric, hexec, hfails]
  rfl

end Results

section Unary

variable (hl : s.Backing v l slot a) (hpos : 0 < l.numElements)
  (hroom : s.slots.size < handleLimit)

include hl hpos hroom

theorem negate_yields (hbase : v.base = .boolean) :
    s.Yields (Action.negate v) l.logicalSize
      (.ofList .boolean ((a.view slot.start l).toList.map fun x => .boolean !x.toBool)) := by
  rw [Data.toList_view, List.map_map]
  refine (yields_tabulate hl.wellFormed hpos hl.numElements_lt hroom _ fun s' hs' c hc => ?_).congr
    (negate_exec hl hbase)
  rw [(hl.mono hs').fetch_eq ((Layout.mem_coordinates hl.wellFormed).mp hc)]
  rfl

theorem cast_yields (k : Kind) :
    s.Yields (Action.cast v (.plain (.cell k))) l.logicalSize
      (.ofList k ((a.view slot.start l).toList.map (·.convert k))) := by
  rw [Data.toList_view, List.map_map]
  refine (yields_tabulate hl.wellFormed hpos hl.numElements_lt hroom _ fun s' hs' c hc => ?_).congr
    (cast_exec k hl)
  rw [(hl.mono hs').fetch_eq ((Layout.mem_coordinates hl.wellFormed).mp hc)]
  rfl

end Unary

/-- Operations on all elements commute with reading, whatever the layouts of the operands. Arithmetic
fails for an integral division by zero alone, and the other operations never fail, as long as there is
a handle for the result. -/
theorem elementwise_reads (hl : s.Backing lhs l slot a) (hr : s.Backing rhs r slot' b)
    (hbase : lhs.base = rhs.base) (hpos : 0 < l.numElements)
    (hshape : r.isScalar = true ∨ l.logicalSize = r.logicalSize) :
    ∃ xs ys, s.read lhs = .ok xs ∧ s.read rhs = .ok ys ∧
      (s.slots.size < handleLimit →
        (∀ op : Arithmetic, (lhs.base.isIntegral || lhs.base.isFloatingPoint) = true →
          ((op.Divides ∧ ∃ k, .integer k 0 ∈ ys.toList) →
            ((Action.arithmetic op lhs rhs).exec s).1 =
              .error (.invalidArgument .divisionByZero)) ∧
          (¬ (op.Divides ∧ ∃ k, .integer k 0 ∈ ys.toList) → ∃ zs : Data, zs.kind = xs.kind ∧
            List.zipWith (Datum.arithmetic op) xs.toList (alignedElements r xs.size ys) =
              zs.toList.map .ok ∧
            s.Yields (Action.arithmetic op lhs rhs) l.logicalSize zs)) ∧
        (∀ op, s.Yields (Action.compare op lhs rhs) l.logicalSize
          (.ofList .boolean (List.zipWith (fun x y => .boolean (x.compare op y)) xs.toList
            (alignedElements r xs.size ys)))) ∧
        (lhs.base = .boolean → s.Yields (Action.negate lhs) l.logicalSize
          (.ofList .boolean (xs.toList.map fun x => .boolean !x.toBool))) ∧
        ∀ k, s.Yields (Action.cast lhs (.plain (.cell k))) l.logicalSize
          (.ofList k (xs.toList.map (·.convert k)))) ∧
      (¬ s.slots.size < handleLimit →
        (∀ op, (lhs.base.isIntegral || lhs.base.isFloatingPoint) = true →
          s.Exhausts (Action.arithmetic op lhs rhs)) ∧
        (∀ op, s.Exhausts (Action.compare op lhs rhs)) ∧
        (lhs.base = .boolean → s.Exhausts (Action.negate lhs)) ∧
        ∀ k, s.Exhausts (Action.cast lhs (.plain (.cell k)))) := by
  refine ⟨a.view slot.start l, b.view slot'.start r, hl.read_eq, hr.read_eq, fun hroom => ?_,
    fun hroom => ?_⟩
  · refine ⟨fun op hnumeric => ⟨fun h => ?_, fun h => ?_⟩, fun op => ?_, fun hboolean => ?_,
      fun k => ?_⟩
    · exact arithmetic_divides hl hr hbase hpos hshape hroom h.1 hnumeric h.2
    · exact arithmetic_yields hl hr hbase hpos hshape hroom op hnumeric h
    · exact compare_yields hl hr hbase hpos hshape hroom op
    · exact negate_yields hl hpos hroom hboolean
    · exact cast_yields hl hpos hroom k
  · refine ⟨fun op hnumeric => ?_, fun op => ?_, fun hboolean => ?_, fun k => ?_⟩
    · exact (tabulate_exhausted hl.wellFormed hpos hl.numElements_lt hroom _).congr
        (arithmetic_exec op hl hr hbase hshape hnumeric)
    · exact (tabulate_exhausted hl.wellFormed hpos hl.numElements_lt hroom _).congr
        (compare_exec op hl hr hbase hshape)
    · exact (tabulate_exhausted hl.wellFormed hpos hl.numElements_lt hroom _).congr
        (negate_exec hl hboolean)
    · exact (tabulate_exhausted hl.wellFormed hpos hl.numElements_lt hroom _).congr
        (cast_exec k hl)

/-- A padded row of two cells, the second from its start on, and a single element in another buffer. -/
theorem elementwise_reads_padded :
    let a : Data := .ofList (.integer .byte) [.integer .byte 9, .integer .byte 9, .integer .byte 1,
      .integer .byte 7, .integer .byte 9]
    let b : Data := .ofList (.integer .byte) [.integer .byte 0, .integer .byte 2]
    let s : Store Unit := { Store.empty with buffers := #[a, b], slots := #[⟨0, 1⟩, ⟨1, 1⟩] }
    let l : Layout := ⟨[⟨2, 4, 1, 1, 0⟩]⟩
    let lhs : Value := ⟨.plain (.cell (.integer .byte)), some l, some ⟨0⟩⟩
    let rhs : Value := ⟨.plain (.cell (.integer .byte)), some .scalar, some ⟨1⟩⟩
    ∃ zs : Data, zs.toList = [.integer .byte 0, .integer .byte 3] ∧
      s.Yields (Action.arithmetic .divide lhs rhs) [2] zs := by
  intro a b s l lhs rhs
  have hl : s.Backing lhs l ⟨0, 1⟩ a := {
    layout := rfl
    obtainable := ⟨.padded [2] [1], rfl⟩
    handle := ⟨⟨0⟩, rfl, rfl⟩
    cells := rfl
    base := rfl
    room := by decide
    fits := by decide }
  have hr : s.Backing rhs .scalar ⟨1, 1⟩ b := {
    layout := rfl
    obtainable := ⟨.scalar, rfl⟩
    handle := ⟨⟨1⟩, rfl, rfl⟩
    cells := rfl
    base := rfl
    room := by decide
    fits := by decide }
  obtain ⟨xs, ys, hxs, hys, hyields, -⟩ :=
    elementwise_reads hl hr rfl (by decide) (Or.inl rfl)
  have hx : s.read lhs = .ok (.ofList (.integer .byte) [.integer .byte 1, .integer .byte 7]) := rfl
  have hy : s.read rhs = .ok (.ofList (.integer .byte) [.integer .byte 2]) := rfl
  obtain rfl := Except.ok.inj (hx.symm.trans hxs)
  obtain rfl := Except.ok.inj (hy.symm.trans hys)
  have hdivisor : ¬ ∃ k, .integer k 0 ∈
      (Data.ofList (.integer .byte) [.integer .byte 2]).toList := by
    rintro ⟨k, hk⟩
    cases List.mem_singleton.mp hk
  obtain ⟨zs, -, hpairs, hzs⟩ :=
    ((hyields (by decide)).1 .divide rfl).2 fun h => hdivisor h.2
  have hok : Function.Injective (Except.ok : Datum → Except Failure Datum) :=
    fun _ _ h => Except.ok.inj h
  exact ⟨zs, List.map_injective_iff.mpr hok hpairs.symm, hzs⟩

end Store

end Emission

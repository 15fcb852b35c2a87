import Emission.Proofs.Store.Procedures
import Emission.Proofs.Store.Selection

/-!
How arguments reach a body. For each scalar parameter there is a new buffer with a copy of the argument, so no
handle that was issued before leads there, and none of another parameter does, even if they have got the same
argument. For every other parameter the body gets the argument itself. A body that writes through its parameters
alone so changes none of the buffers from before the call but those behind the arguments that are not scalars.
-/
namespace Emission

open Emission.Store Emission.Action

variable {Body : Type}

section Copies

variable {s s' s'' : Store Body} {b : Nat}

namespace Store

/-- The buffer is as it was. -/
def Spares (b : Nat) (s s' : Store Body) : Prop :=
  ∀ data, s.buffers[b]? = some data → s'.buffers[b]? = some data

instance (b : Nat) : Std.Refl (@Spares Body b) := ⟨fun _ _ h => h⟩

instance (b : Nat) : IsTrans (Store Body) (Spares b) := ⟨fun _ _ _ h h' data hdata => h' data (h data hdata)⟩

theorem frames_spares (b : Nat) : Frames (@Spares Body b) where
  grown h data hdata := by
    obtain ⟨bs, hbs⟩ := h.accrues.buffers
    rw [hbs, Array.getElem?_append_left (Array.getElem?_eq_some_iff.mp hdata).1]
    exact hdata
  within _ _ _ h := h

theorem bufferOf?_of_slot {v : Value} {h : Handle} {x : Slot} (hh : v.handle = .ok h)
    (hx : s.slot h = .ok x) : s.bufferOf? v = some x.buffer := by
  unfold bufferOf?
  rw [Value.handle_eq_ok_iff.mp hh, Option.bind_eq_bind, Option.bind_some, slot_eq_ok_iff.mp hx]
  rfl

theorem Backing.bufferOf?_eq {v : Value} {l : Layout} {slot : Slot} {data : Data}
    (b : s.Backing v l slot data) : s.bufferOf? v = some slot.buffer := by
  obtain ⟨h, hh, hslot, -⟩ := b.exists_handle
  exact bufferOf?_of_slot hh hslot

end Store

/-- The cells that a copy sets are all in the buffer behind the destination. -/
theorem Action.spares_copyCells (h h' : Handle) (hne : ∀ x, s.slot h' = .ok x → x.buffer ≠ b) (count i : Nat) :
    Obeys (Preserving fun t => t.slots = s.slots ∧ s.Spares b t)
      (copyCells h h' count i : Action Body Unit) := by
  induction count generalizing i with
  | zero => exact .pure ()
  | succ count ih =>
    unfold copyCells
    refine .bind (.reading _) fun d => .bind (.reading _) fun target => .bind ?_ fun _ => ih (i + 1)
    rintro t ⟨hslots, hspares⟩
    rcases writeCell_cases t h' (target.start + i) d with hsame | ⟨x, hx, hcell⟩
    · rw [hsame]
      exact ⟨hslots, hspares⟩
    · have hbuffer : x.buffer ≠ b := hne x (by rwa [Store.slot, ← hslots])
      rw [hcell]
      refine ⟨hslots, fun data hdata => ?_⟩
      rw [Store.withCell, Array.getElem?_modify, if_neg hbuffer]
      exact hspares data hdata

theorem Action.spares_copy {v w : Value} (hw : s.bufferOf? w ≠ some b) :
    s.Spares b ((copy v w).exec s).2 := by
  have hcopy : Obeys (Preserving fun t => t.slots = s.slots ∧ s.Spares b t) (copy v w) := by
    unfold copy
    refine .bind (.lift _) fun _ => .bind (.lift _) fun _ => .guard ?_
    refine .bind (.lift _) fun l => .bind (.lift _) fun l' => .guard (.bind (.lift _) fun h => ?_)
    refine .bind (.discard (.reading _)) fun _ => .bind_lift fun h' hh' => ?_
    refine .bind (.discard (.reading _)) fun _ => spares_copyCells h h' (fun x hx => ?_) _ 0
    rintro rfl
    exact hw (bufferOf?_of_slot hh' hx)
  exact (hcopy s ⟨rfl, refl_of (Spares b) s⟩).2

/-- Wherever control comes to, nothing is copied into other buffers. -/
def Point.WritesOnly (allowed : Nat → Prop) (a : Point Body) : Prop :=
  ∀ source destination round branch function fs s b,
    Reaches a ⟨.request (.copy source destination) round branch function, fs, s⟩ →
    s.bufferOf? destination = some b → allowed b

theorem Point.WritesOnly.spares {allowed : Nat → Prop} {a : Point Body} (ha : a.WritesOnly allowed)
    (hb : ¬ allowed b) : a.state.Spares b (a.code.run.exec a.state).2 := by
  refine (frames_spares b).run a.code a.functions a.state fun v w round branch function fs s hreach => ?_
  exact spares_copy fun hw => hb (ha v w round branch function fs s b hreach hw)

namespace Point.WritesOnly

variable {α β : Type} {allowed : Nat → Prop} {fs : List String}

/-- What holds of all parts of some code that is no copy itself holds of the code. -/
theorem of_enters {a : Point Body} (hcopy : ∀ source destination round branch function fs s,
      a ≠ ⟨.request (.copy source destination) round branch function, fs, s⟩)
    (h : ∀ b, Enters a b → b.WritesOnly allowed) : a.WritesOnly allowed := by
  intro v w round branch function fs s b hreach
  rcases Relation.ReflTransGen.cases_head hreach with heq | ⟨c, hc, hreach⟩
  · exact absurd heq (hcopy v w round branch function fs s)
  · exact h c hc v w round branch function fs s b hreach

theorem done (a : α) : WritesOnly allowed ⟨.done a, fs, s⟩ :=
  of_enters (fun _ _ _ _ _ _ _ h => nomatch h) fun _ h => nomatch h

theorem bind {x : Procedure Body α} {f : α → Procedure Body β} (hx : WritesOnly allowed ⟨x, fs, s⟩)
    (hf : ∀ a s', x.run.exec s = (.ok a, s') → WritesOnly allowed ⟨f a, fs, s'⟩) :
    WritesOnly allowed ⟨.bind x f, fs, s⟩ := by
  refine of_enters (fun _ _ _ _ _ _ _ h => nomatch h) fun b h => ?_
  cases h with
  | first => exact hx
  | next hexec => exact hf _ _ hexec

/-- What only adds, and runs no code, writes into no buffer that is there. -/
theorem additive {c : Command Body α} (hc : c.IsAdditive) (hcode : ¬ c.RunsCode) :
    WritesOnly allowed ⟨.ask c, fs, s⟩ := by
  intro v w round branch function fs s b hreach hw
  rcases Relation.ReflTransGen.cases_head hreach with heq | ⟨_, henters, -⟩
  · cases heq
    exact hc.elim
  · exact absurd henters.runsCode hcode

theorem copy {source destination : Value} (h : ∀ b, s.bufferOf? destination = some b → allowed b) :
    WritesOnly allowed ⟨.ask (.copy source destination), fs, s⟩ := by
  intro v w round branch function fs s b hreach hw
  rcases Relation.ReflTransGen.cases_head hreach with heq | ⟨c, hc, -⟩
  · cases heq
    exact h b hw
  · exact hc.runsCode.elim

end Point.WritesOnly

end Copies

section Binding

variable {s s' s'' : Store Body} {a v : Value} {slot : Slot} {data : Data}

namespace Store

/-- The argument fits the parameter: it has storage, the base type of the parameter, and the rank if that is 0. -/
structure Fits (s : Store Body) (p : Parameter) (a : Value) : Prop where
  backed : s.Backed a
  base : p.type.base = a.base
  rank : p.isScalar = true → a.rank? = some 0

/-- The value is a single element of the argument's type, on a buffer that is new, and reads as the argument
did. -/
structure OwnCopy (s s' : Store Body) (a v : Value) : Prop where
  rank : v.rank? = some 0
  base : v.base = a.base
  backed : s'.Backed v
  fresh : ∃ b, s.buffers.size ≤ b ∧ s'.bufferOf? v = some b
  read : s'.read v = s.read a

/-- How a body receives an argument. -/
def Receives (s s' : Store Body) (p : Parameter) (a v : Value) : Prop :=
  if p.isScalar then s.OwnCopy s' a v else v = a

theorem Backed.read_grows (ha : s.Backed a) (hs : s.Grows s') : s'.read a = s.read a := by
  obtain ⟨l, slot, data, b⟩ := ha
  rw [b.read_eq, (b.mono hs).read_eq]

theorem Grows.size_le (h : s.Grows s') : s.buffers.size ≤ s'.buffers.size := h.toExtends.size_le

theorem Fits.mono {p : Parameter} (h : s.Fits p a) (hs : s.Grows s') : s'.Fits p a :=
  ⟨h.backed.mono hs.toExtends, h.base, h.rank⟩

theorem OwnCopy.grow (h : s.OwnCopy s' a v) (hs : s'.Grows s'') : s.OwnCopy s'' a v where
  rank := h.rank
  base := h.base
  backed := h.backed.mono hs.toExtends
  fresh := by
    obtain ⟨b, hb, hv⟩ := h.fresh
    exact ⟨b, hb, bufferOf?_mono hs.toExtends hv⟩
  read := (h.backed.read_grows hs).trans h.read

/-- A copy that is made later is a copy of the same. -/
theorem OwnCopy.back (h : s'.OwnCopy s'' a v) (hs : s.Grows s') (ha : s.Backed a) : s.OwnCopy s'' a v where
  rank := h.rank
  base := h.base
  backed := h.backed
  fresh := by
    obtain ⟨b, hb, hv⟩ := h.fresh
    exact ⟨b, hs.size_le.trans hb, hv⟩
  read := h.read.trans (ha.read_grows hs)

theorem Receives.back {p : Parameter} (h : s'.Receives s'' p a v) (hs : s.Grows s') (ha : s.Backed a) :
    s.Receives s'' p a v := by
  unfold Receives at h ⊢
  split
  · next hp => exact OwnCopy.back (by rwa [if_pos hp] at h) hs ha
  · next hp => rwa [if_neg hp] at h

/-- A value of rank 0 that is backed shows a single cell. -/
theorem Backed.scalar (ha : s.Backed a) (hrank : a.rank? = some 0) :
    ∃ slot data, s.Backing a .scalar slot data := by
  obtain ⟨⟨dims⟩, slot, data, b⟩ := ha
  have hlength : dims.length = 0 := by
    rw [Value.rank?, b.layout] at hrank
    exact Option.some.inj hrank
  obtain rfl := List.length_eq_zero_iff.mp hlength
  exact ⟨slot, data, b⟩

end Store

namespace Action

/-- A scalar is passed on one new buffer, as long as there are handles. -/
theorem exec_passByValue (ha : s.Backing a .scalar slot data) : (passByValue a).exec s =
    if s.slots.size < handleLimit then
      (.ok (s.fresh data.kind .scalar), s.withBuffer (.ofList data.kind [data.get slot.start]))
    else (.error (.backend .handlesExhausted),
      { s with buffers := s.buffers.push (.zeros data.kind 1) }) := by
  have hsize : Layout.scalar.memorySize = 1 := rfl
  unfold passByValue
  rw [exec_bind, ha.base, exec_newStorage s data.kind (l := .scalar) one_lt_cellLimit, hsize]
  by_cases hroom : s.slots.size < handleLimit
  · have hgrows := s.grows_withBuffer (Data.zeros data.kind 1)
    have hfresh : (s.withBuffer (.zeros data.kind 1)).Backing (s.fresh data.kind .scalar) .scalar
        ⟨s.buffers.size, 0⟩ (.zeros data.kind 1) :=
      s.fresh_backing _ Layout.obtainable_scalar (by simp [hsize]) (by simpa using one_lt_cellLimit)
    simp only [hroom, if_true, exec_bind, copy_scalar_exec (ha.mono hgrows) hfresh ha.base, exec_pure]
    exact congrArg _ (s.modify_withBuffer (.zeros data.kind 1) _)
  · simp only [hroom, if_false]

theorem single_backing (s : Store Body) (k : Kind) (d : Datum) :
    (s.withBuffer (.ofList k [d])).Backing (s.fresh k .scalar) .scalar ⟨s.buffers.size, 0⟩ (.ofList k [d]) :=
  s.fresh_backing _ Layout.obtainable_scalar (Nat.le_refl 1) one_lt_cellLimit

/-- What is passed then is a copy of the argument. -/
theorem ownCopy_of_backing (ha : s.Backing a .scalar slot data) :
    s.OwnCopy (s.withBuffer (.ofList data.kind [data.get slot.start])) a (s.fresh data.kind .scalar) := by
  have hfresh := single_backing s data.kind (data.get slot.start)
  refine ⟨rfl, ha.base.symm, hfresh.toBacked, ⟨s.buffers.size, Nat.le_refl _, hfresh.bufferOf?_eq⟩, ?_⟩
  rw [hfresh.read_scalar, ha.read_scalar, Data.get_ofList (by simp), List.getElem_singleton,
    Data.convert_of_kind (Data.kind_get data _)]
  rfl

end Action

theorem byValue_cons (p : Parameter) (ps : List Parameter) (v : Value) (vs : List Value) :
    byValue (p :: ps) (v :: vs) = if p.isScalar then v :: byValue ps vs else byValue ps vs := by
  unfold byValue
  rw [List.zip_cons_cons, List.filterMap_cons]
  by_cases hp : p.isScalar = true <;> simp [hp]

variable {p : Parameter} {ps : List Parameter} {args vs : List Value}

/-- What passing the arguments comes to: each is received, and no two scalars are in one buffer. -/
structure Binds (s : Store Body) (ps : List Parameter) (args vs : List Value) (s' : Store Body) : Prop where
  grows : s.Grows s'
  receives : List.Forall₂ (fun pa v => s.Receives s' pa.1 pa.2 v) (ps.zip args) vs
  apart : (byValue ps vs).Pairwise fun v w => ¬ s'.SharesBuffer v w

namespace Binds

theorem ownCopy (h : Binds s ps args vs s') : ∀ v ∈ byValue ps vs, ∃ a, s.OwnCopy s' a v := by
  obtain ⟨-, h, -⟩ := h
  induction ps generalizing args vs with
  | nil => simp [byValue]
  | cons p ps ih =>
    cases args with
    | nil =>
      cases h
      simp [byValue]
    | cons a args =>
      rw [List.zip_cons_cons] at h
      cases h with
      | @cons _ v _ vs hv hvs =>
        rw [byValue_cons]
        split
        · next hp =>
          simp only [Receives, hp, if_true] at hv
          exact List.forall_mem_cons.mpr ⟨⟨a, hv⟩, ih hvs⟩
        · exact ih hvs

theorem nil (s : Store Body) : Binds s [] [] [] s := ⟨.refl s, .nil, .nil⟩

/-- A scalar is copied before the arguments that follow are passed. -/
theorem cons_scalar (hp : p.isScalar = true) (ha : s.Backing a .scalar slot data)
    (hargs : List.Forall₂ s.Fits ps args)
    (h : Binds (s.withBuffer (.ofList data.kind [data.get slot.start])) ps args vs s') :
    Binds s (p :: ps) (a :: args) (s.fresh data.kind .scalar :: vs) s' := by
  have hs := s.grows_withBuffer (.ofList data.kind [data.get slot.start])
  have hcopy := ownCopy_of_backing ha
  refine ⟨hs.trans h.grows, ?_, ?_⟩
  · rw [List.zip_cons_cons]
    refine .cons ?_ ?_
    · simp only [Receives, hp, if_true]
      exact hcopy.grow h.grows
    · refine List.forall₂_iff_zip.mpr ⟨h.receives.length_eq, fun {pa v} hmem => ?_⟩
      have hback := (List.forall₂_iff_zip.mp h.receives).2 hmem
      exact hback.back hs ((List.forall₂_iff_zip.mp hargs).2 (List.of_mem_zip hmem).1).backed
  · rw [byValue_cons, if_pos hp, List.pairwise_cons]
    refine ⟨fun w hw => ?_, h.apart⟩
    rintro ⟨b, hv, hbw⟩
    obtain ⟨_, hown⟩ := h.ownCopy w hw
    obtain ⟨b', hb', hw'⟩ := hown.fresh
    have hfirst := ((single_backing s data.kind (data.get slot.start)).mono h.grows).bufferOf?_eq
    have hb : s.buffers.size = b := Option.some.inj (hfirst.symm.trans hv)
    have hb'' : b' = b := Option.some.inj (hw'.symm.trans hbw)
    rw [withBuffer, Array.size_push] at hb'
    omega

theorem cons_other (hp : p.isScalar = false) (h : Binds s ps args vs s') (a : Value) :
    Binds s (p :: ps) (a :: args) (a :: vs) s' := by
  refine ⟨h.grows, ?_, ?_⟩
  · rw [List.zip_cons_cons]
    refine .cons ?_ h.receives
    simp [Receives, hp]
  · rw [byValue_cons, hp]
    exact h.apart

end Binds

namespace Store

/-- So many more handles can be issued. -/
def HasHandles (s : Store Body) (n : Nat) : Prop := ∀ i < n, s.slots.size + i < handleLimit

theorem hasHandles_succ_iff (data : Data) (n : Nat) :
    s.HasHandles (n + 1) ↔ s.slots.size < handleLimit ∧ (s.withBuffer data).HasHandles n := by
  have hsize : (s.withBuffer data).slots.size = s.slots.size + 1 := Array.size_push ..
  unfold HasHandles
  rw [hsize]
  constructor
  · intro h
    refine ⟨h 0 (Nat.succ_pos n), fun i hi => ?_⟩
    have := h (i + 1) (Nat.succ_lt_succ hi)
    omega
  · rintro ⟨hfirst, h⟩ i hi
    cases i with
    | zero => exact hfirst
    | succ i =>
      have := h i (Nat.lt_of_succ_lt_succ hi)
      omega

end Store

namespace Action

/-- With handles for all scalars the arguments are passed. -/
theorem binds_arguments (hargs : List.Forall₂ s.Fits ps args)
    (hroom : s.HasHandles (ps.countP (·.isScalar))) :
    ∃ vs s', (bindArguments ps args).exec s = (.ok vs, s') ∧ Binds s ps args vs s' := by
  induction ps generalizing s args with
  | nil =>
    cases hargs
    exact ⟨[], s, rfl, .nil s⟩
  | cons p ps ih =>
    obtain _ | @⟨_, a, _, args, ha, hargs⟩ := hargs
    unfold bindArguments
    cases hp : p.isScalar with
    | true =>
      obtain ⟨slot, data, hbacking⟩ := ha.backed.scalar (ha.rank hp)
      rw [List.countP_cons_of_pos hp, hasHandles_succ_iff (.ofList data.kind [data.get slot.start])] at hroom
      have hs := s.grows_withBuffer (.ofList data.kind [data.get slot.start])
      obtain ⟨vs, s', hexec, hbinds⟩ := ih (hargs.imp fun _ _ h => h.mono hs) hroom.2
      refine ⟨_, s', ?_, hbinds.cons_scalar hp hbacking hargs⟩
      simp only [if_true, exec_bind, exec_passByValue hbacking, hroom.1, hexec, exec_pure]
    | false =>
      rw [List.countP_cons_of_neg (by simp [hp])] at hroom
      obtain ⟨vs, s', hexec, hbinds⟩ := ih hargs hroom
      refine ⟨_, s', ?_, hbinds.cons_other hp a⟩
      simp only [Bool.false_eq_true, if_false, pure_bind, exec_bind, hexec, exec_pure]

/-- Without them the call ends when they have run out. -/
theorem exec_bindArguments_exhausted (hargs : List.Forall₂ s.Fits ps args)
    (hroom : ¬ s.HasHandles (ps.countP (·.isScalar))) :
    ∃ s', (bindArguments ps args).exec s = (.error (.backend .handlesExhausted), s') := by
  induction ps generalizing s args with
  | nil => exact absurd (fun i hi => absurd hi (Nat.not_lt_zero i)) hroom
  | cons p ps ih =>
    obtain _ | @⟨_, a, _, args, ha, hargs⟩ := hargs
    unfold bindArguments
    cases hp : p.isScalar with
    | true =>
      obtain ⟨slot, data, hbacking⟩ := ha.backed.scalar (ha.rank hp)
      rw [List.countP_cons_of_pos hp, hasHandles_succ_iff (.ofList data.kind [data.get slot.start])] at hroom
      have hs := s.grows_withBuffer (.ofList data.kind [data.get slot.start])
      by_cases hfirst : s.slots.size < handleLimit
      · obtain ⟨s', hexec⟩ := ih (hargs.imp fun _ _ h => h.mono hs) fun h => hroom ⟨hfirst, h⟩
        refine ⟨s', ?_⟩
        simp only [if_true, exec_bind, exec_passByValue hbacking, hfirst, hexec]
      · refine ⟨{ s with buffers := s.buffers.push (.zeros data.kind 1) }, ?_⟩
        simp only [if_true, exec_bind, exec_passByValue hbacking, hfirst, if_false]
    | false =>
      rw [List.countP_cons_of_neg (by simp [hp])] at hroom
      obtain ⟨s', hexec⟩ := ih hargs hroom
      refine ⟨s', ?_⟩
      simp only [Bool.false_eq_true, if_false, pure_bind, exec_bind, hexec]

end Action

theorem Store.Sound.bufferOf?_lt (hs : s.Sound) {w : Value} {b : Nat} (hw : s.bufferOf? w = some b) :
    b < s.buffers.size := by
  obtain ⟨h, -, hw⟩ := Option.bind_eq_some_iff.mp hw
  obtain ⟨x, hx, hb⟩ := Option.bind_eq_some_iff.mp hw
  obtain rfl : x.buffer = b := Option.some.inj hb
  obtain ⟨data, hdata, -⟩ := hs.slots h.index x hx
  exact (Array.getElem?_eq_some_iff.mp hdata).1

namespace Binds

/-- No handle from before leads to the buffer of a scalar. -/
theorem unreached (h : Binds s ps args vs s') (hs : s.Sound) {w : Value} (hv : v ∈ byValue ps vs)
    (hw : s.bufferOf? w ≠ none) : ¬ s'.SharesBuffer v w := by
  rintro ⟨b, hb, hb'⟩
  obtain ⟨c, hc⟩ := Option.ne_none_iff_exists'.mp hw
  obtain ⟨a, hown⟩ := h.ownCopy v hv
  obtain ⟨b', hle, hb''⟩ := hown.fresh
  have hlt := hs.bufferOf?_lt hc
  obtain rfl : c = b := Option.some.inj ((bufferOf?_mono h.grows.toExtends hc).symm.trans hb')
  obtain rfl : b' = c := Option.some.inj (hb''.symm.trans hb)
  omega

/-- The parameters lead to new buffers and to those of the arguments that are not scalars. -/
theorem bufferOf? (h : Binds s ps args vs s') (hargs : List.Forall₂ s.Fits ps args) {b : Nat}
    (hv : v ∈ vs) (hb : s'.bufferOf? v = some b) : s.buffers.size ≤ b ∨
      ∃ pa ∈ ps.zip args, pa.1.isScalar = false ∧ s.bufferOf? pa.2 = some b := by
  obtain ⟨pa, hpa, hreceives⟩ : ∃ pa ∈ ps.zip args, s.Receives s' pa.1 pa.2 v := by
    obtain ⟨i, hi, rfl⟩ := List.getElem_of_mem hv
    have hi' : i < (ps.zip args).length := h.receives.length_eq ▸ hi
    exact ⟨_, List.getElem_mem hi', h.receives.get hi' hi⟩
  unfold Receives at hreceives
  cases hp : pa.1.isScalar with
  | true =>
    rw [hp, if_pos rfl] at hreceives
    obtain ⟨b', hle, hb'⟩ := hreceives.fresh
    obtain rfl : b' = b := Option.some.inj (hb'.symm.trans hb)
    exact Or.inl hle
  | false =>
    rw [hp, if_neg Bool.false_ne_true] at hreceives
    obtain ⟨l, slot, data, hbacking⟩ := ((List.forall₂_iff_zip.mp hargs).2 hpa).backed
    obtain rfl : v = pa.2 := hreceives
    have hsame := hbacking.bufferOf?_eq
    have hslot : slot.buffer = b :=
      Option.some.inj ((bufferOf?_mono h.grows.toExtends hsame).symm.trans hb)
    exact Or.inr ⟨pa, hpa, hp, hslot ▸ hsame⟩

end Binds

namespace Action

/-- Scalars are passed by value and everything else by reference. In a call that is admitted, on arguments that
fit the registered parameters, each scalar parameter gets a copy that reads as its argument, alone in a new buffer
to which no handle from before leads, and every other one gets the argument itself; unless handles run out, then no
body is run. So if the body writes through its parameters and into storage of its own only, each buffer from before
the call is as it was, but for those behind arguments that are not scalars. -/
theorem call_binds_arguments (hs : s.Sound) {d d' : Declaration Body} {body : Body}
    (hd : d.intrinsic? = none) (hcheck : d.checkCall args = .ok ())
    (hdefinition : s.definition d.name = .ok (d', body)) (hargs : List.Forall₂ s.Fits d'.parameters args) :
    (¬ s.HasHandles (d'.parameters.countP (·.isScalar)) → ∃ s', ∀ eval,
      (call eval d args).exec s = (.error (.backend .handlesExhausted), s')) ∧
    (s.HasHandles (d'.parameters.countP (·.isScalar)) → ∃ (vs : List Value) (s' : Store Body),
      (∀ eval, (call eval d args).exec s =
        d'.finish ((eval body vs).exec { s' with calls := d'.name :: s'.calls })) ∧ s.Grows s' ∧
      List.Forall₂ (fun pa v => s.Receives s' pa.1 pa.2 v) (d'.parameters.zip args) vs ∧
      ((byValue d'.parameters vs).Pairwise fun v w => ¬ s'.SharesBuffer v w) ∧
      (∀ v ∈ byValue d'.parameters vs, ∀ w, s.bufferOf? w ≠ none → ¬ s'.SharesBuffer v w) ∧
      ∀ function, Point.WritesOnly (fun b => s.buffers.size ≤ b ∨ ∃ v ∈ vs, s'.bufferOf? v = some b)
          ⟨function body vs, d.name :: s.calls, { s' with calls := d'.name :: s'.calls }⟩ →
        ∀ b, b < s.buffers.size →
          (∀ pa ∈ d'.parameters.zip args, pa.1.isScalar = false → s.bufferOf? pa.2 ≠ some b) →
          ((Procedure.call function d args).run.exec s).2.buffers[b]? = s.buffers[b]?) := by
  refine ⟨fun hroom => ?_, fun hroom => ?_⟩
  · obtain ⟨s', hexec⟩ := exec_bindArguments_exhausted hargs hroom
    refine ⟨s', fun eval => ?_⟩
    rw [exec_call eval hd, exec_prepare hcheck hdefinition, hexec]
  · obtain ⟨vs, s', hexec, hbinds⟩ := binds_arguments hargs hroom
    refine ⟨vs, s', fun eval => ?_, hbinds.grows, hbinds.receives, hbinds.apart,
      fun v hv w hw => hbinds.unreached hs hv hw, fun function hwrites b hb hbehind => ?_⟩
    · rw [exec_call eval hd, exec_prepare hcheck hdefinition, hexec]
    · have hspares : s.Spares b ((Procedure.call function d args).run.exec s).2 := by
        refine (frames_spares b).call _ hd args s fun d₁ body₁ vs₁ s₁ hprepare => ?_
        rw [exec_prepare hcheck hdefinition, hexec] at hprepare
        obtain ⟨⟨rfl, rfl, rfl⟩, rfl⟩ := hprepare
        refine hwrites.spares ?_
        rintro (hle | ⟨v, hv, hvb⟩)
        · omega
        · rcases hbinds.bufferOf? hargs hv hvb with hle | ⟨pa, hpa, hscalar, hpab⟩
          · omega
          · exact hbehind pa hpa hscalar hpab
      rw [Array.getElem?_eq_getElem hb]
      exact hspares _ (Array.getElem?_eq_getElem hb)

/-- A function of two bytes and a row, with a body that writes the first byte into the row. -/
def fills : Declaration Unit :=
  ⟨"f", .plain .void, [.ofScalar "x" (.plain (.cell (.integer .byte))),
    .ofScalar "y" (.plain (.cell (.integer .byte))),
    ⟨"r", .plain (.cell (.integer .byte)), ⟨[⟨2, 2, 0, 1, 0⟩]⟩⟩], some (), none⟩

def fill : Unit → List Value → Procedure Unit (Option Value)
  | _, [x, _, r] => (Procedure.ask (.copy x r)).bind fun _ => .done none
  | _, _ => .done none

/-- One byte is passed for both scalars. -/
theorem call_binds_arguments_twice :
    let a : Value := ⟨.plain (.cell (.integer .byte)), some .scalar, some ⟨0⟩⟩
    let row : Value := ⟨.plain (.cell (.integer .byte)), some ⟨[⟨2, 2, 0, 1, 0⟩]⟩, some ⟨1⟩⟩
    let byte : Data := .ofList (.integer .byte) [.integer .byte 7]
    let s : Store Unit := { ((Store.empty : Store Unit).withBuffer byte).withBuffer (.zeros (.integer .byte) 2) with
      functions := [("f", fills)] }
    s.Sound ∧ List.Forall₂ s.Fits fills.parameters [a, a, row] ∧
      (∃ (x y : Value) (s' : Store Unit), (∀ eval, (call eval fills [a, a, row]).exec s =
          fills.finish ((eval () [x, y, row]).exec { s' with calls := "f" :: s'.calls })) ∧
        ¬ s'.SharesBuffer x y ∧ ¬ s'.SharesBuffer x a ∧ s'.read x = s.read a) ∧
      ((Procedure.call fill fills [a, a, row]).run.exec s).2.buffers[0]? = some byte := by
  intro a row byte s
  have hs : s.Sound := by
    have h := (advances_withBuffer (s := (Store.empty : Store Unit).withBuffer byte)
      (a := .zeros (.integer .byte) 2) (by decide)).sound
      ((advances_withBuffer (by decide)).sound sound_empty)
    exact ⟨h.slots, fun _ he => (nomatch he), h.fits⟩
  have ha : s.Backing a .scalar ⟨0, 0⟩ byte := {
    layout := rfl
    obtainable := Layout.obtainable_scalar
    handle := ⟨⟨0⟩, rfl, rfl⟩
    cells := rfl
    base := rfl
    room := by decide
    fits := by decide }
  have hrow : s.Backing row ⟨[⟨2, 2, 0, 1, 0⟩]⟩ ⟨1, 0⟩ (.zeros (.integer .byte) 2) := {
    layout := rfl
    obtainable := ⟨.sizes [2], rfl⟩
    handle := ⟨⟨1⟩, rfl, rfl⟩
    cells := rfl
    base := rfl
    room := by decide
    fits := by decide }
  have hfits : List.Forall₂ s.Fits fills.parameters [a, a, row] :=
    .cons ⟨ha.toBacked, rfl, fun _ => rfl⟩ (.cons ⟨ha.toBacked, rfl, fun _ => rfl⟩
      (.cons ⟨hrow.toBacked, rfl, fun h => nomatch h⟩ .nil))
  have hroom : s.HasHandles (fills.parameters.countP (·.isScalar)) := by
    intro i hi
    have hcount : fills.parameters.countP (·.isScalar) = 2 := rfl
    have hsize : s.slots.size = 2 := rfl
    rw [hcount] at hi
    rw [hsize, show handleLimit = 4294967296 from rfl]
    omega
  have hdefinition : s.definition fills.name = .ok (fills, ()) := rfl
  have hcheck : fills.checkCall [a, a, row] = .ok () := rfl
  obtain ⟨vs, s', hcall, hgrows, hreceives, hapart, hunreached, hframe⟩ :=
    (call_binds_arguments hs rfl hcheck hdefinition hfits).2 hroom
  obtain ⟨x, y, hx, rfl⟩ : ∃ x y, s.OwnCopy s' a x ∧ vs = [x, y, row] := by
    change List.Forall₂ _ [(_, a), (_, a), (_, row)] vs at hreceives
    obtain _ | ⟨hx, _ | ⟨hy, _ | ⟨hr, _ | _⟩⟩⟩ := hreceives
    exact ⟨_, _, hx, by rw [show _ = row from hr]⟩
  refine ⟨hs, hfits, ⟨x, y, s', hcall, ?_, ?_, hx.read⟩, ?_⟩
  · exact (List.pairwise_cons.mp hapart).1 y List.mem_cons_self
  · exact hunreached x List.mem_cons_self a (by rw [ha.bufferOf?_eq]; exact Option.some_ne_none _)
  · refine (hframe fill ?_ 0 (by decide) ?_).trans rfl
    · refine .bind (.copy fun b hb => Or.inr ⟨row, by simp, hb⟩) fun _ _ _ => .done none
    · intro pa hpa hp
      change pa ∈ [(_, a), (_, a), (_, row)] at hpa
      simp only [List.mem_cons, List.not_mem_nil, or_false] at hpa
      rcases hpa with rfl | rfl | rfl
      · cases hp
      · cases hp
      · rw [hrow.bufferOf?_eq]
        decide

end Action

end Binding

end Emission

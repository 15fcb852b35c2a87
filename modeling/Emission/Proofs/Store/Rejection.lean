import Emission.Proofs.Store.Commands
import Emission.Proofs.Store.Checks
import Emission.Proofs.Store.Indexing

/-!
What a rejected command has done. Nothing, unless the command is an offset by coordinates or a call. An offset
stores the numbers of the layout and the terms that it computes before it finds coordinates that cannot be
added; a call makes the storage of its first scalar parameter before it finds an argument that does not
fit. Then all that was there stays there, but there are more buffers.
-/
namespace Emission

/-- The dimension takes its coordinate as the number of the element. -/
def Dimension.IsDirect (d : Dimension) : Prop := d.offset = 0 ∧ d.stride = 1

/-- The first sum of an offset is of two coordinates as they are given, and is not defined. -/
def Layout.RefusesFirstSum (l : Layout) (coordinates : List Scalar) : Prop :=
  ∃ d d' dims a a', l.dims = d :: d' :: dims ∧ d.IsDirect ∧ d'.IsDirect ∧
    coordinates[d.axis]? = some a ∧ coordinates[d'.axis]? = some a' ∧
    ¬ Action.Commensurable a.value a'.value

namespace Action

open Store

variable {Body α β : Type} {s s' : Store Body} {e : Failure}

section Offsets

variable {k : IntKind} {coordinates : List Scalar} {d d' : Dimension} {a a' : Scalar}

theorem indexTerm_direct (hd : d.IsDirect) (a : Scalar) :
    (indexTerm k d a : Action Body Scalar) = pure a := by
  unfold indexTerm applyNumber
  rw [if_pos hd.1, pure_bind, if_pos hd.2]

theorem stores_scalarArithmetic (op : Arithmetic) (h : Commensurable a.value a'.value) :
    Stores (scalarArithmetic op a a' : Action Body Scalar) :=
  .bind_adds (stores_arithmetic op h) fun _ => .lift _

theorem stores_indexConstant (k : IntKind) (n : Nat) :
    Stores (indexConstant k n : Action Body Scalar) := by
  unfold indexConstant
  split
  · exact .bind_adds (stores_storeConstant _) fun _ => .lift _
  · exact .throw rfl

theorem stores_applyNumber {op : Arithmetic} {neutral n : Nat} (hn : n ≠ neutral) (a : Scalar) :
    Stores (applyNumber k op neutral n a : Action Body Scalar) := by
  unfold applyNumber
  rw [if_neg hn]
  exact .bind_adds (stores_indexConstant k n) fun b => adds_scalarArithmetic op a b

/-- The numbers of a dimension that is not direct are stored. -/
theorem stores_indexTerm (hd : ¬ d.IsDirect) (a : Scalar) :
    Stores (indexTerm k d a : Action Body Scalar) := by
  unfold indexTerm
  by_cases hoffset : d.offset = 0
  · have hstride : d.stride ≠ 1 := fun h => hd ⟨hoffset, h⟩
    rw [applyNumber, if_pos hoffset, pure_bind]
    exact stores_applyNumber hstride a
  · exact .bind_adds (stores_applyNumber hoffset a) fun b =>
      adds_applyNumber k .multiply 1 d.stride b

theorem sumTerms_cons (ha : coordinates[d.axis]? = some a) (k : IntKind) (dims : List Dimension)
    (total? : Option Scalar) : (sumTerms k coordinates (d :: dims) total? : Action Body _) =
      indexTerm k d a >>= fun term => addTerm total? term >>= fun total =>
        sumTerms k coordinates dims (some total) := by
  rw [sumTerms, ha]

theorem sumTerms_first (hd : d.IsDirect) (ha : coordinates[d.axis]? = some a) (k : IntKind)
    (dims : List Dimension) : (sumTerms k coordinates (d :: dims) none : Action Body _) =
      sumTerms k coordinates dims (some a) := by
  rw [sumTerms_cons ha, indexTerm_direct hd, pure_bind]
  exact pure_bind a fun total => sumTerms k coordinates dims (some total)

theorem sumTerms_next (hd : d.IsDirect) (ha : coordinates[d.axis]? = some a) (k : IntKind)
    (dims : List Dimension) (total : Scalar) :
    (sumTerms k coordinates (d :: dims) (some total) : Action Body _) =
      scalarArithmetic .add total a >>= fun total => sumTerms k coordinates dims (some total) := by
  rw [sumTerms_cons ha, indexTerm_direct hd, pure_bind]
  rfl

/-- A dimension stores something first, unless it is direct; then its coordinate is known. -/
theorem stores_or_direct (k : IntKind) (coordinates : List Scalar) (d : Dimension)
    (dims : List Dimension) (total? : Option Scalar) :
    Stores (sumTerms k coordinates (d :: dims) total? : Action Body (Option Scalar)) ∨
      d.IsDirect ∧ ∃ a, coordinates[d.axis]? = some a := by
  cases ha : coordinates[d.axis]? with
  | none =>
    rw [sumTerms, ha]
    exact Or.inl (.throw rfl)
  | some a =>
    by_cases hd : d.IsDirect
    · exact Or.inr ⟨hd, a, rfl⟩
    · rw [sumTerms_cons ha]
      refine Or.inl (.bind_adds (stores_indexTerm hd a) fun term => ?_)
      exact .bind (adds_addTerm total? term) fun total => adds_sumTerms k coordinates dims _

/-- The offset starts by storing something, unless there is nothing to add up or the first sum is refused. -/
theorem stores_sumTerms {l : Layout} (hsum : ¬ l.RefusesFirstSum coordinates) (k : IntKind) :
    Stores (sumTerms k coordinates l.dims none : Action Body (Option Scalar)) ∨ l.dims = [] ∨
      ∃ d a, l.dims = [d] ∧ d.IsDirect ∧ coordinates[d.axis]? = some a := by
  obtain ⟨dims⟩ := l
  cases dims with
  | nil => exact Or.inr (Or.inl rfl)
  | cons d dims =>
    rcases stores_or_direct k coordinates d dims none with h | ⟨hd, a, ha⟩
    · exact Or.inl h
    · cases dims with
      | nil => exact Or.inr (Or.inr ⟨d, a, rfl, hd, ha⟩)
      | cons d' dims =>
        refine Or.inl ?_
        show Stores (sumTerms k coordinates (d :: d' :: dims) none : Action Body _)
        rw [sumTerms_first hd ha]
        rcases stores_or_direct k coordinates d' dims (some a) with h | ⟨hd', a', ha'⟩
        · exact h
        · rw [sumTerms_next hd' ha']
          have hsame : Commensurable a.value a'.value := by
            by_contra hrefused
            exact hsum ⟨d, d', dims, a, a', rfl, hd, hd', ha, ha', hrefused⟩
          exact .bind_adds (stores_scalarArithmetic .add hsame) fun total =>
            adds_sumTerms k coordinates dims _

/-- Nothing is stored when the first sum is refused. -/
theorem exec_sumTerms_refused {l : Layout} (hsum : l.RefusesFirstSum coordinates) (k : IntKind)
    (s : Store Body) :
    ∃ e, (sumTerms k coordinates l.dims none).exec s = (.error e, s) := by
  obtain ⟨d, d', dims, a, a', hdims, hd, hd', ha, ha', hrefused⟩ := hsum
  obtain ⟨e, he⟩ := exec_arithmetic_refused .add hrefused s
  refine ⟨e, ?_⟩
  rw [hdims, sumTerms_first hd ha, sumTerms_next hd' ha', exec_bind, scalarArithmetic, exec_bind, he]

/-- What an offset does after its first checks. -/
def offsetBySum (k : IntKind) (l : Layout) (coordinates : List Scalar) (v : Value) :
    Action Body Value :=
  sumTerms k coordinates l.dims none >>= fun total? =>
    (match total? with
      | some total => pure total
      | none => indexConstant k 0) >>= offset v

/-- The first checks reject only coordinates of which the first is no integer. -/
theorem offsetAt_rejected_cases {v : Value} (h : (offsetAt v coordinates).exec s = (.error e, s'))
    (he : e.isRejection = true) : ∃ l, v.layout? = some l ∧ coordinates.length = l.rank ∧
      (indexKind coordinates = .error e ∧ s' = s ∨
        ∃ k, indexKind coordinates = .ok k ∧
          (offsetBySum k l coordinates v).exec s = (.error e, s')) := by
  have hother : ∀ {γ : Type} {x : Except Failure γ}, Unrejected x → x ≠ .error e := by
    intro γ x hx hxe
    rw [hx e hxe] at he
    cases he
  unfold offsetAt calculateOffset at h
  simp only [bind_assoc] at h
  rcases exec_lift_bind_eq_error_iff.mp h with ⟨h, -⟩ | ⟨_, -, h⟩
  · exact absurd h (hother (unrejected_ensureDefined v))
  rcases exec_lift_bind_eq_error_iff.mp h with ⟨h, -⟩ | ⟨l, hl, h⟩
  · exact absurd h (hother (unrejected_of_absence (failsBy_layout v)))
  rcases exec_lift_bind_eq_error_iff.mp h with ⟨h, -⟩ | ⟨_, hrank, h⟩
  · exact absurd h (hother (unrejected_of_absence (failsBy_checkRank l _)))
  refine ⟨l, Value.layout_eq_ok_iff.mp hl, ?_, exec_lift_bind_eq_error_iff.mp h⟩
  unfold Layout.checkRank at hrank
  split at hrank
  · next hlength => exact hlength
  · cases hrank

/-- What comes after them rejects the offset only when something is stored, or in the first sum. -/
theorem ne_of_offsetBySum_rejected {l : Layout} {v : Value} (hlength : coordinates.length = l.rank)
    (hk : indexKind coordinates = .ok k) (hsum : ¬ l.RefusesFirstSum coordinates)
    (h : (offsetBySum k l coordinates v).exec s = (.error e, s')) (he : e.isRejection = true) :
    s' ≠ s := by
  unfold offsetBySum at h
  rcases stores_sumTerms hsum k with hstores | hnil | ⟨d, a, hdims, hd, ha⟩
  · refine (hstores.bind_adds fun total? => ?_).ne_of_rejected h he
    refine .bind ?_ fun a => adds_offset v a
    cases total? with
    | none => exact adds_indexConstant k 0
    | some total => exact .pure total
  · rw [hnil, sumTerms, pure_bind] at h
    exact ((stores_indexConstant k 0).bind_adds fun a => adds_offset v a).ne_of_rejected h he
  · -- A single coordinate is the number of the element and an integer, so the view is not rejected.
    rw [hdims, sumTerms_first hd ha, sumTerms, pure_bind, pure_bind] at h
    rw [Layout.rank, hdims] at hlength
    obtain ⟨b, rfl⟩ := List.length_eq_one_iff.mp hlength
    obtain rfl : b = a := (List.mem_singleton.mp (List.mem_of_getElem? ha)).symm
    have hintegral : b.base.isIntegral = true := by rw [indexKind_eq_ok_iff.mp hk]; rfl
    have hother := accepted_offset v hintegral s e (by rw [h])
    rw [hother] at he
    cases he

/-- An offset that is rejected has stored something if the first coordinate is an integer and the first sum
is not refused. -/
theorem ne_of_offsetAt_rejected_iff {v : Value} (h : (offsetAt v coordinates).exec s = (.error e, s'))
    (he : e.isRejection = true) : s' ≠ s ↔
      ∃ l k, v.layout? = some l ∧ indexKind coordinates = .ok k ∧ ¬ l.RefusesFirstSum coordinates := by
  obtain ⟨l, hl, hlength, ⟨hkind, hsame⟩ | ⟨k, hk, h⟩⟩ := offsetAt_rejected_cases h he
  · refine iff_of_false (fun hne => hne hsame) ?_
    rintro ⟨_, k, -, hk, -⟩
    rw [hkind] at hk
    cases hk
  · by_cases hsum : l.RefusesFirstSum coordinates
    · obtain ⟨e', he'⟩ := exec_sumTerms_refused hsum k s
      rw [offsetBySum, exec_bind, he'] at h
      refine iff_of_false (fun hne => hne (Prod.mk.inj h).2.symm) ?_
      rintro ⟨l', _, hl', -, hnot⟩
      obtain rfl := Option.some.inj (hl.symm.trans hl')
      exact hnot hsum
    · exact iff_of_true (ne_of_offsetBySum_rejected hlength hk hsum h he) ⟨l, k, hl, hk, hsum⟩

end Offsets

section Calls

/-- The first argument that is passed by value. -/
def firstCopied? (parameters : List Parameter) (args : List Value) : Option Value :=
  ((parameters.zip args).find? fun pa => pa.1.isScalar).map Prod.snd

theorem firstCopied?_scalar {p : Parameter} (hp : p.isScalar = true) (ps : List Parameter) (a : Value)
    (args : List Value) : firstCopied? (p :: ps) (a :: args) = some a := by
  simp [firstCopied?, hp]

theorem firstCopied?_other {p : Parameter} (hp : ¬ p.isScalar = true) (ps : List Parameter) (a : Value)
    (args : List Value) : firstCopied? (p :: ps) (a :: args) = firstCopied? ps args := by
  simp [firstCopied?, hp]

/-- An argument that has a type of elements is given storage first. -/
theorem stores_passByValue {a : Value} (ha : a.base ≠ .void) :
    Stores (passByValue a : Action Body Value) := by
  unfold passByValue
  cases hbase : a.base with
  | void => exact absurd hbase ha
  | cell k =>
    refine .bind_keeps (stores_newStorage k .scalar) fun v s => ?_
    exact (keeps_copy a v).bind fun _ _ _ _ => .pure trivial

theorem exec_passByValue_void {a : Value} (ha : a.base = .void) (s : Store Body) :
    ∃ e, (passByValue a).exec s = (.error e, s) := by
  unfold passByValue
  rw [ha]
  exact ⟨_, rfl⟩

/-- The first argument that is passed by value decides. -/
theorem ne_of_bindArguments_rejected_iff {ps : List Parameter} {args : List Value}
    (h : (bindArguments ps args).exec s = (.error e, s')) (he : e.isRejection = true) :
    s' ≠ s ↔ ∃ a, firstCopied? ps args = some a ∧ a.base ≠ .void := by
  induction ps generalizing args with
  | nil => cases h
  | cons p ps ih =>
    cases args with
    | nil => cases h
    | cons a args =>
      unfold bindArguments at h
      by_cases hp : p.isScalar = true
      · simp only [hp, if_true] at h
        rw [firstCopied?_scalar hp]
        by_cases ha : a.base = .void
        · obtain ⟨e', he'⟩ := exec_passByValue_void ha s
          rw [exec_bind, he'] at h
          refine iff_of_false (fun hne => hne (Prod.mk.inj h).2.symm) ?_
          rintro ⟨_, heq, hne⟩
          cases heq
          exact hne ha
        · refine iff_of_true ?_ ⟨a, rfl, ha⟩
          refine ((stores_passByValue ha).bind_adds fun v => ?_).ne_of_rejected h he
          exact .bind (adds_bindArguments ps args) fun vs => .pure _
      · simp only [hp, Bool.false_eq_true, if_false, pure_bind] at h
        rw [firstCopied?_other hp]
        rcases exec_bind_eq_error_iff.mp h with h | ⟨vs, s₁, -, h⟩
        · exact ih h
        · cases h

/-- A call that is rejected before a body is run has stored something if its own checks are passed and the
first argument that the definition takes by value can be stored. -/
theorem ne_of_prepare_rejected_iff {d : Declaration Body} {args : List Value}
    (h : (d.prepare args).exec s = (.error e, s')) (he : e.isRejection = true) :
    s' ≠ s ↔ d.checkCall args = .ok () ∧ ∃ d' body a, s.definition d.name = .ok (d', body) ∧
      firstCopied? d'.parameters args = some a ∧ a.base ≠ .void := by
  unfold Declaration.prepare at h
  rcases exec_lift_bind_eq_error_iff.mp h with ⟨hcheck, hsame⟩ | ⟨_, hcheck, h⟩
  · refine iff_of_false (fun hne => hne hsame) ?_
    rintro ⟨hok, -⟩
    rw [hcheck] at hok
    cases hok
  · rw [exec_bind, exec_reading] at h
    cases hdefinition : s.definition d.name with
    | error e' =>
      rw [hdefinition] at h
      refine iff_of_false (fun hne => hne (Prod.mk.inj h).2.symm) ?_
      rintro ⟨-, _, _, _, hok, -⟩
      cases hok
    | ok db =>
      rw [hdefinition] at h
      rcases exec_bind_eq_error_iff.mp h with h | ⟨vs, s₁, -, h⟩
      · rw [ne_of_bindArguments_rejected_iff h he]
        constructor
        · rintro ⟨a, hfirst, ha⟩
          exact ⟨hcheck, db.1, db.2, a, rfl, hfirst, ha⟩
        · rintro ⟨-, _, _, a, hok, hfirst, ha⟩
          obtain rfl := Except.ok.inj hok
          exact ⟨a, hfirst, ha⟩
      · cases h

end Calls

section Loops

theorem accepted_indexScalars (cs : List Nat) :
    Accepted (indexScalars cs : Action Body (List Scalar)) := by
  induction cs with
  | nil => exact .pure []
  | cons c cs ih =>
    unfold indexScalars indexScalar
    refine .bind ?_ fun a => .bind ih fun as => .pure _
    split
    · exact .bind (.of_absence (failsBy_newBuffer _ _)) fun v => .lift (unrejected_ofValue v)
    · exact .throw rfl

end Loops

end Action

namespace Command

open Emission.Store Emission.Action

variable {Body α : Type} {s s' : Store Body} {e : Failure}

/-- Every check of the command comes before anything that it stores. -/
def ChecksFirst : Command Body α → Prop
  | offsetAt .. => False
  | call d _ => d.isIntrinsic
  | _ => True

/-- When the command is rejected, something is stored already. -/
def StoresFirst : Command Body α → Store Body → Prop
  | offsetAt v coordinates, _ => ∃ l k, v.layout? = some l ∧ indexKind coordinates = .ok k ∧
      ¬ l.RefusesFirstSum coordinates
  | call d args, s => d.intrinsic? = none ∧ d.checkCall args = .ok () ∧
      ∃ d' body a, s.definition d.name = .ok (d', body) ∧
        firstCopied? d'.parameters args = some a ∧ a.base ≠ .void
  | _, _ => False

theorem ChecksFirst.not_storesFirst {c : Command Body α} (hc : c.ChecksFirst) (s : Store Body) :
    ¬ c.StoresFirst s := by
  cases c with
  | offsetAt v coordinates => exact hc.elim
  | call d args =>
    rintro ⟨hd, -⟩
    obtain ⟨f, hf⟩ := Option.isSome_iff_exists.mp hc
    rw [hd] at hf
    cases hf
  | _ => exact id

theorem clean_request (r : Request) : Clean (r.action : Action Body Value) := by
  intro s e s' h he
  cases hnamed : s.named? (r.key s) with
  | some v =>
    rw [Request.exec_named hnamed] at h
    exact (Prod.mk.inj h).2.symm
  | none =>
    by_cases hstorable : ∃ k, r.type = .plain (.cell k)
    · obtain ⟨k, hk⟩ := hstorable
      by_cases hfits : r.layout.memorySize < cellLimit
      · rw [Request.exec_first hk hfits hnamed] at h
        split at h
        · cases h
        · cases h
          cases he
      · rw [Request.exec_without_room hk hfits hnamed] at h
        exact (Prod.mk.inj h).2.symm
    · rw [Request.exec_unstorable (fun k hk => hstorable ⟨k, hk⟩) hnamed] at h
      exact (Prod.mk.inj h).2.symm

theorem clean_define (d : Declaration Body) (body : Body) : Clean (Action.define d body) := by
  intro s e s' h _
  by_cases hadmits : s.Admits d
  · rw [exec_define_admitted hadmits] at h
    cases h
  · rw [exec_define_refused hadmits] at h
    exact (Prod.mk.inj h).2.symm

theorem clean_intrinsic {d : Declaration Body} (hd : d.isIntrinsic = true) (args : List Value)
    (eval : Body → List Value → Action Body (Option Value)) : Clean (Action.call eval d args) := by
  obtain ⟨f, hf⟩ := Option.isSome_iff_exists.mp hd
  rw [call_intrinsic eval hf]
  exact .bind_lift fun _ _ => .bind_accepted (clean_evaluate f args) fun v => .pure (some v)

theorem clean_loop (l : Layout) : Clean ((loop l).run .idle : Action Body Unit) := by
  show Clean (forEach (fun x => x) l fun _ => pure ())
  unfold forEach
  refine .of_accepted ?_
  split
  · exact .pure ()
  · rw [Layout.foldCoordinatesM_eq]
    exact .foldlM (fun _ c => .bind (accepted_indexScalars c) fun as => .pure ()) _ _

theorem accepted_taken {γ : Type} (taken : Bool) (a : γ) :
    Accepted (if taken = true then (pure () : Action Body Unit) >>= fun _ => pure a else pure a) := by
  split
  · exact .pure a
  · exact .pure a

/-- Where no code is run, such a command is rejected before it has stored anything. -/
theorem clean_run {c : Command Body α} (hc : c.ChecksFirst) : Clean (c.run .idle) := by
  cases c with
  | allocate type l => exact clean_allocate type l
  | allocateRow type length => exact clean_allocateRow type length
  | allocateNamed r => exact clean_request r
  | typeOf h => exact .reading _
  | define d body => exact clean_define d body
  | storeConstant c => exact .of_accepted (accepted_storeConstant c)
  | loop l => exact clean_loop l
  | move source => exact .lift _
  | copy source destination => exact clean_copy source destination
  | offset v i => exact clean_offset v i
  | offsetAt v coordinates => exact hc.elim
  | negate v => exact clean_negate v
  | arithmetic op v w => exact clean_arithmetic op v w
  | compare op v w => exact clean_compare op v w
  | cast v type => exact clean_cast v type
  | begin test =>
    exact .bind_lift fun _ _ => .bind_reading fun taken => .of_accepted (accepted_taken taken _)
  | elseIf chain test =>
    refine .bind_lift fun _ _ => ?_
    split
    · exact .of_accepted (.pure chain)
    · exact .bind_reading fun taken => .of_accepted (accepted_taken taken _)
  | otherwise chain =>
    show Clean (if (!chain.taken) = true then pure () else pure ())
    rw [ite_self]
    exact .of_accepted (.pure ())
  | call d args => exact clean_intrinsic hc args _

/-- A call that is rejected in this way is rejected when it prepares its arguments. -/
theorem prepare_of_rejected {d : Declaration Body} {args : List Value} (hd : d.intrinsic? = none)
    (he : e.isRejection = true) (h : ∀ code, ((call d args).run code).exec s = (.error e, s')) :
    (d.prepare args).exec s = (.error e, s') := by
  have hfail : (Action.call (Supplied.failing (.illegalState .noActiveContext)).function d args).exec s =
    (.error e, s') := h _
  rw [exec_call _ hd] at hfail
  rcases hprepare : (d.prepare args).exec s with ⟨e₁ | ⟨d', body, vs⟩, s₁⟩
  · simp only [hprepare] at hfail
    obtain ⟨he₁, rfl⟩ := Prod.mk.inj hfail
    obtain rfl := Except.error.inj he₁
    rfl
  · simp only [hprepare] at hfail
    -- the body has been run, and so the call has failed as the body does
    obtain rfl : Failure.illegalState .noActiveContext = e := Except.error.inj (Prod.mk.inj hfail).1
    cases he

/-- A command that is rejected whatever code is handed in, as none of it is run, leaves all that is in the
store as it was, and the tables of names and functions. It has made new buffers exactly if it is an offset or
a call that stores something before it is rejected; otherwise nothing has changed at all. -/
theorem rejected_changes_iff (c : Command Body α) (he : e.isRejection = true)
    (h : ∀ code, (c.run code).exec s = (.error e, s')) :
    s.Grows s' ∧ (s' ≠ s ↔ c.StoresFirst s) := by
  by_cases hc : c.ChecksFirst
  · obtain rfl : s' = s := clean_run hc s e s' (h .idle) he
    exact ⟨.refl s', iff_of_false (fun hne => hne rfl) (hc.not_storesFirst s')⟩
  · cases c with
    | offsetAt v coordinates =>
      have hexec : (Action.offsetAt v coordinates).exec s = (.error e, s') := h .idle
      have hgrows := adds_offsetAt v coordinates s
      rw [hexec] at hgrows
      exact ⟨hgrows, ne_of_offsetAt_rejected_iff hexec he⟩
    | call d args =>
      have hd : d.intrinsic? = none := Option.not_isSome_iff_eq_none.mp hc
      have hprepare := prepare_of_rejected hd he h
      have hgrows := adds_prepare d args s
      rw [hprepare] at hgrows
      exact ⟨hgrows, (ne_of_prepare_rejected_iff hprepare he).trans (and_iff_right hd).symm⟩
    | _ => exact absurd trivial hc

/-- A function of one byte is called with two of them. They are too many for the storage of the parameter,
which has been made. -/
theorem rejected_changes_call :
    let d : Declaration Unit := ⟨"f", .plain .void, [.ofScalar "x" (.plain (.cell (.integer .byte)))],
      some (), none⟩
    let row : Value := ⟨.plain (.cell (.integer .byte)), some ⟨[⟨2, 2, 0, 1, 0⟩]⟩, some ⟨0⟩⟩
    let s : Store Unit := { (Store.empty : Store Unit) with
      buffers := #[.zeros (.integer .byte) 2]
      slots := #[⟨0, 0⟩]
      functions := [("f", d)] }
    let s' := s.withBuffer (.zeros (.integer .byte) 1)
    let c : Command Unit (Option Value) := .call d [row]
    (Failure.invalidSize 2 1).isRejection = true ∧
      (∀ code, (c.run code).exec s = (.error (.invalidSize 2 1), s')) ∧ s.Grows s' ∧ s' ≠ s := by
  intro d row s s' c
  have hrun : ∀ code, (c.run code).exec s = (.error (.invalidSize 2 1), s') := fun _ => rfl
  obtain ⟨hgrows, hchanged⟩ := rejected_changes_iff c rfl hrun
  exact ⟨rfl, hrun, hgrows, hchanged.mpr ⟨rfl, rfl, d, (), row, rfl, rfl, nofun⟩⟩

/-- An offset by a 32-bit and a 64-bit coordinate is rejected, as they cannot be added. By then the extent of
a row is stored, and the product of it and the first coordinate. -/
theorem offsetAt_rejected_stores :
    let number (k : IntKind) (n : Nat) : Data := .ofList (.integer k) [.integer k (BitVec.ofNat _ n)]
    let coordinate (k : IntKind) (h : Nat) : Scalar :=
      ⟨⟨.plain (.cell (.integer k)), some .scalar, some ⟨h⟩⟩, rfl⟩
    let table : Value := ⟨.plain (.cell (.integer .byte)),
      some ⟨[⟨2, 2, 0, 3, 0⟩, ⟨3, 3, 0, 1, 1⟩]⟩, some ⟨0⟩⟩
    let s : Store Unit := { (Store.empty : Store Unit) with
      buffers := #[.zeros (.integer .byte) 6, number .int32 1, number .int64 2]
      slots := #[⟨0, 0⟩, ⟨1, 0⟩, ⟨2, 0⟩] }
    let c : Command Unit Value := .offsetAt table [coordinate .int32 1, coordinate .int64 2]
    let e : Failure := .baseMismatch .int32 (.cell (.integer .int64))
    e.isRejection = true ∧ ∃ s', (∀ code, (c.run code).exec s = (.error e, s')) ∧
      s'.buffers.toList.map Data.cells =
        s.buffers.toList.map Data.cells ++ [(number .int32 3).cells, (number .int32 3).cells] ∧
      s'.slots.size = 5 := by
  intro number coordinate table s c e
  have hexec : ((c.run .idle).exec s).1 = .error e := rfl
  refine ⟨rfl, ((c.run .idle).exec s).2, fun _ => Prod.ext hexec rfl, ?_, ?_⟩
  · decide +kernel
  · decide +kernel

end Command

end Emission

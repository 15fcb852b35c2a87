import Emission.Proofs.Store.Indexing
import Emission.Proofs.Store.Observation
import Emission.Store.Loop

/-!
What a loop runs. Its body is visited with the coordinates of the layout in logical order, each in new scalars of
its own, whatever the earlier visits have done to the state. The first visit that fails is the last one. A loop
can only fail by its body, unless a coordinate is too large for the type of its scalars or no handle is left.
-/
namespace Emission

open Store

variable {Body : Type}

namespace Action

/-- A new scalar holds its coordinate; it can be had while there are handles. -/
theorem indexScalar_meets (s : Store Body) {c : Nat} (hc : c < IntKind.int32.bound) :
    Meets Grows s (indexScalar c)
      (fun a s' => ∃ x, s'.Holds .int32 a x ∧ IntKind.int32.toInt x = c) (Blocked False) := by
  unfold indexScalar
  rw [if_pos hc]
  by_cases hroom : s.slots.size < handleLimit
  · refine .of_ok (a := ⟨s.fresh (.integer .int32) .scalar, rfl⟩) ?_ (s.grows_withBuffer _)
      ⟨_, s.holds_fresh .int32 (BitVec.ofNat 32 c), IntKind.int32.toInt_ofNat hc⟩
    simp only [exec_bind, exec_newBuffer, hroom, if_true]
    rfl
  · refine .of_error (e := .backend .handlesExhausted) ?_
      (s.grows_pushBuffer (single .int32 (BitVec.ofNat 32 c))) (Or.inl (Nat.le_of_not_lt hroom))
    simp only [exec_bind, exec_newBuffer, hroom, if_false]
    rfl

theorem indexScalars_meets (s : Store Body) {cs : List Nat}
    (hcs : ∀ c ∈ cs, c < IntKind.int32.bound) :
    Meets Grows s (indexScalars cs) (fun as s' => s'.Indexes .int32 as cs) (Blocked False) := by
  induction cs generalizing s with
  | nil => exact .pure .nil
  | cons c cs ih =>
    obtain ⟨hc, hcs⟩ := List.forall_mem_cons.mp hcs
    unfold indexScalars
    refine (indexScalar_meets s hc).bind fun a s₁ _ ⟨x, hx, hn⟩ => ?_
    refine (ih s₁ hcs).bind fun as s₂ hs₂ has => ?_
    exact .pure (.cons ⟨x, hx.mono hs₂, hn⟩ has)

end Action

/-- The visit is given a 32-bit integer for each coordinate, which reads as the coordinate at the start. -/
def Visit.Shows (v : Visit Body (List Scalar)) (c : List Nat) : Prop :=
  List.Forall₂ (fun a (n : Nat) => a.base = .cell (.integer .int32) ∧
    ∃ x, v.state.read a.value = .ok (single .int32 x) ∧ IntKind.int32.toInt x = n) v.given c

theorem Store.Indexes.shows {s : Store Body} {as : List Scalar} {c : List Nat}
    (h : s.Indexes .int32 as c) : Visit.Shows ⟨as, s⟩ c :=
  h.imp fun _ _ ⟨x, hx, hn⟩ => ⟨Holds.base_eq hx, x, Holds.read_eq hx, hn⟩

namespace Watched

variable {ι : Type}

/-- From the state on the code makes these visits, one after the other, and the run ends in this way. Between
one visit and the next there are only additions. A visit that fails is the last one, and the run ends as it
does; without one it succeeds. -/
def Successive (code : List (Visit Body ι) → ι → Action Body Unit) (past : List (Visit Body ι))
    (s : Store Body) : List (Visit Body ι) → Except Failure Unit × Store Body → Prop
  | [], out => out = (.ok (), s)
  | v :: visits, out => s.Grows v.state ∧
    match (code past v.given).exec v.state with
    | (.ok (), s') => Successive code (past ++ [v]) s' visits out
    | (.error e, s') => visits = [] ∧ out = (.error e, s')

variable (round : List (Visit Body (List Scalar)) → List Scalar → Action Body Unit)

/-- The rounds of a loop for some coordinates, up to the first that fails. -/
theorem rounds_visits {cs : List (List Nat)} (hcs : ∀ c ∈ cs, ∀ n ∈ c, n < IntKind.int32.bound)
    (s : Store Body) (past : List (Visit Body (List Scalar)))
    {out : Except Failure Unit} {s' : Store Body} {visits : List (Visit Body (List Scalar))}
    (hrun : (cs.foldlM (fun _ c => lift (Action.indexScalars c) >>= visit round) ()).exec (s, past) =
      (out, s', visits)) (hroom : s'.slots.size < handleLimit) :
    ∃ made, visits = past ++ made ∧ Successive round past s made (out, s') ∧
      List.Forall₂ Visit.Shows made (cs.take made.length) ∧ (out = .ok () → made.length = cs.length) := by
  induction cs generalizing s past with
  | nil =>
    cases hrun
    exact ⟨[], (List.append_nil _).symm, rfl, .nil, fun _ => rfl⟩
  | cons c cs ih =>
    obtain ⟨hc, hcs⟩ := List.forall_mem_cons.mp hcs
    rw [List.foldlM_cons, exec_bind, exec_bind, exec_lift] at hrun
    rcases (Action.indexScalars_meets s hc).cases with ⟨as, s₁, hexec, hs₁, has⟩ | ⟨e, s₁, hexec, -, hfull⟩
    · simp only [hexec, exec_visit] at hrun
      rcases hround : (round past as).exec s₁ with ⟨e | u, s₂⟩
      · simp only [hround] at hrun
        cases hrun
        refine ⟨[⟨as, s₁⟩], rfl, ⟨hs₁, ?_⟩, .cons has.shows .nil, nofun⟩
        rw [hround]
        exact ⟨rfl, rfl⟩
      · simp only [hround] at hrun
        obtain ⟨made, rfl, hmade, hshows, hlength⟩ := ih hcs s₂ (past ++ [⟨as, s₁⟩]) hrun
        refine ⟨⟨as, s₁⟩ :: made, List.append_cons .. |>.symm, ⟨hs₁, ?_⟩, .cons has.shows hshows,
          fun hout => congrArg (· + 1) (hlength hout)⟩
        rw [hround]
        exact hmade
    · simp only [hexec] at hrun
      cases hrun
      exact absurd hroom (Nat.not_lt_of_le (hfull.resolve_right id))

/-- Watching the rounds of a loop does not change it. -/
theorem erases_forEach (l : Layout) {round : List Scalar → Watched Body ι Unit}
    {body : List Scalar → Action Body Unit} (hround : ∀ as, Erases (round as) (body as)) :
    Erases (forEach lift l round) (forEach (fun x => x) l body) := by
  unfold forEach
  split
  · exact .pure ()
  · rw [Layout.foldCoordinatesM_eq, Layout.foldCoordinatesM_eq]
    exact .foldlM (fun _ c => .bind (.lift _) hround) _ _

/-- Whatever the body does, with the state and the scalars it is given or from memory, it is visited with
32-bit scalars that read as the coordinates of the layout, in logical order and each once, as long as no visit
fails. The first failure is that of the loop and ends it; without one the loop succeeds after a visit for each
element. -/
theorem forEach_visits {l : Layout} (hl : l.Obtainable) (hsizes : ∀ n ∈ l.logicalSize, n ≤ 2 ^ 31)
    {s s' : Store Body} {out : Except Failure Unit} {visits : List (Visit Body (List Scalar))}
    (hrun : (forEach lift l (visit round)).exec (s, []) = (out, s', visits))
    (hroom : s'.slots.size < handleLimit) :
    Successive round [] s visits (out, s') ∧
      List.Forall₂ Visit.Shows visits (l.coordinates.take visits.length) ∧
      (out = .ok () → visits.length = l.numElements) ∧
      ∀ body, (round = fun _ => body) → (forEach (fun x => x) l body).exec s = (out, s') := by
  have hwell := hl.wellFormed
  have hbound : ∀ c ∈ l.coordinates, ∀ n ∈ c, n < IntKind.int32.bound := by
    intro c hc n hn
    obtain ⟨i, hi, rfl⟩ := List.getElem_of_mem hn
    have hin := (Layout.mem_coordinates hwell).mp hc
    have hi' : i < l.logicalSize.length := hin.length_eq ▸ hi
    exact Nat.lt_of_lt_of_le (hin.get hi' hi) (hsizes _ (List.getElem_mem hi'))
  have herase : ∀ body, (round = fun _ => body) → (forEach (fun x => x) l body).exec s = (out, s') := by
    rintro body rfl
    rw [erases_forEach l (fun as => .visit body as) s [], hrun]
  unfold forEach at hrun
  split at hrun
  · next hzero =>
    cases hrun
    exact ⟨rfl, .nil, fun _ => hzero.symm, herase⟩
  · rw [Layout.foldCoordinatesM_eq] at hrun
    obtain ⟨made, rfl, hmade, hshows, hlength⟩ := rounds_visits round hbound s [] hrun hroom
    exact ⟨hmade, hshows, fun hout => (hlength hout).trans (Layout.length_coordinates hwell), herase⟩

/-- A body that overwrites its coordinates and fails at the fourth of six visits. -/
theorem forEach_visits_overwriting :
    let l : Layout := ⟨[⟨2, 4, 1, 7, 1⟩, ⟨3, 7, 2, 1, 0⟩]⟩
    let round (past : List (Visit Unit (List Scalar))) (as : List Scalar) : Action Unit Unit := do
      as.forM fun a => Action.write a.value [] (.integer .int32 9)
      if past.length = 3 then throw (.illegalState (.stated "enough"))
    l.Obtainable ∧ ∃ s' visits, (forEach lift l (visit round)).exec (Store.empty, []) =
        (.error (.illegalState (.stated "enough")), s', visits) ∧ s'.slots.size = 8 ∧
      Successive round [] Store.empty visits (.error (.illegalState (.stated "enough")), s') ∧
      List.Forall₂ Visit.Shows visits [[0, 0], [0, 1], [1, 0], [1, 1]] := by
  intro l round
  have hl : l.Obtainable := ⟨.reordered (.padded [2, 3] [1, 2]) [1, 0], rfl⟩
  have hcoordinates : l.coordinates.take 4 = [[0, 0], [0, 1], [1, 0], [1, 1]] := by decide
  have hout : ((forEach lift l (visit round)).exec (Store.empty, [])).1 =
    .error (.illegalState (.stated "enough")) := by decide +kernel
  have hslots : ((forEach lift l (visit round)).exec (Store.empty, [])).2.1.slots.size = 8 := by
    decide +kernel
  have hlength : ((forEach lift l (visit round)).exec (Store.empty, [])).2.2.length = 4 := by
    decide +kernel
  rcases hrun : (forEach lift l (visit round)).exec (Store.empty, []) with ⟨out, s', visits⟩
  rw [hrun] at hout hslots hlength
  obtain rfl : out = _ := hout
  have hroom : s'.slots.size < handleLimit := by
    rw [show s'.slots.size = 8 from hslots]
    decide
  obtain ⟨hmade, hshows, -, -⟩ := forEach_visits round hl (by decide) hrun hroom
  rw [show visits.length = 4 from hlength, hcoordinates] at hshows
  exact ⟨hl, s', visits, rfl, hslots, hmade, hshows⟩

end Watched

end Emission

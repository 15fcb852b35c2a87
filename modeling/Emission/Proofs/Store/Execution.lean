import Emission.Proofs.Outcome
import Emission.Store.Basic
import Mathlib.Order.Defs.Unbundled

/-!
Running actions. An action is followed from one state to the next by what it does first and what it
does then. These laws are the only place where the make-up of actions matters: everything else
follows states through `Action.exec`, or through what an action relates and gives.
-/
namespace Emission.Action

variable {Body α β : Type} (s : Store Body)

@[simp] theorem exec_pure (a : α) : (pure a : Action Body α).exec s = (.ok a, s) := rfl

@[simp] theorem exec_throw (e : Failure) :
    (throw e : Action Body α).exec s = (.error e, s) := rfl

@[simp] theorem exec_lift (x : Except Failure α) :
    (liftM x : Action Body α).exec s = (x, s) := by
  cases x <;> rfl

/-- A bind goes on from the state that its first part has left, unless that part has failed. -/
theorem exec_bind (x : Action Body α) (f : α → Action Body β) :
    (x >>= f).exec s = match x.exec s with
      | (.ok a, s') => (f a).exec s'
      | (.error e, s') => (.error e, s') := by
  simp only [exec, ExceptT.run, bind, ExceptT.bind, ExceptT.mk, StateT.bind, StateT.run]
  rcases x s with ⟨_ | _, _⟩ <;> rfl

theorem exec_bind_eq_ok_iff {s s' : Store Body} {x : Action Body α} {f : α → Action Body β} {b : β} :
    (x >>= f).exec s = (.ok b, s') ↔
      ∃ a s₁, x.exec s = (.ok a, s₁) ∧ (f a).exec s₁ = (.ok b, s') := by
  rw [exec_bind]
  rcases x.exec s with ⟨e | a, s₁⟩
  · simp
  · refine ⟨fun h => ⟨a, s₁, rfl, h⟩, ?_⟩
    rintro ⟨_, _, hx, h⟩
    cases hx
    exact h

theorem exec_bind_eq_error_iff {s s' : Store Body} {x : Action Body α} {f : α → Action Body β}
    {e : Failure} : (x >>= f).exec s = (.error e, s') ↔
      x.exec s = (.error e, s') ∨ ∃ a s₁, x.exec s = (.ok a, s₁) ∧ (f a).exec s₁ = (.error e, s') := by
  rw [exec_bind]
  rcases x.exec s with ⟨e₁ | a, s₁⟩
  · simp
  · refine ⟨fun h => Or.inr ⟨a, s₁, rfl, h⟩, ?_⟩
    rintro (h | ⟨_, _, hx, h⟩)
    · cases h
    · cases hx
      exact h

theorem exec_lift_bind_eq_ok_iff {s s' : Store Body} {x : Except Failure α}
    {f : α → Action Body β} {b : β} : (liftM x >>= f).exec s = (.ok b, s') ↔
      ∃ a, x = .ok a ∧ (f a).exec s = (.ok b, s') := by
  rw [exec_bind, exec_lift]
  cases x with
  | error e => simp
  | ok a => simp

theorem exec_lift_bind_eq_error_iff {s s' : Store Body} {x : Except Failure α}
    {f : α → Action Body β} {e : Failure} : (liftM x >>= f).exec s = (.error e, s') ↔
      x = .error e ∧ s' = s ∨ ∃ a, x = .ok a ∧ (f a).exec s = (.error e, s') := by
  rw [exec_bind, exec_lift]
  cases x with
  | error e₁ => simp [eq_comm]
  | ok a => simp

theorem exec_discard (x : Action Body α) :
    (discard x).exec s = match x.exec s with
      | (.ok _, s') => (.ok (), s')
      | (.error e, s') => (.error e, s') :=
  exec_bind s x fun _ => pure ()

theorem exec_tryCatch (x : Action Body α) (h : Failure → Action Body α) :
    (tryCatchThe Failure x h).exec s = match x.exec s with
      | (.ok a, s') => (.ok a, s')
      | (.error e, s') => (h e).exec s' := by
  change exec (ExceptT.tryCatch x h) s = _
  simp only [exec, ExceptT.run, ExceptT.tryCatch, ExceptT.mk, bind, StateT.bind, StateT.run]
  rcases x s with ⟨_ | _, _⟩ <;> rfl

@[simp] theorem exec_modify (f : Store Body → Store Body) :
    (modify f : Action Body Unit).exec s = (.ok (), f s) := rfl

@[simp] theorem exec_get : (get : Action Body (Store Body)).exec s = (.ok s, s) := rfl

@[simp] theorem exec_reading (f : Store Body → Except Failure α) :
    (reading f).exec s = (f s, s) := by
  unfold reading
  rw [exec_bind, exec_get]
  exact exec_lift s (f s)

/-- The action relates the state to the new one. It gives something that has a property in the new
state, or it fails and the new state has another one. -/
def Meets (R : Store Body → Store Body → Prop) (s : Store Body) (x : Action Body α)
    (P : α → Store Body → Prop) (E : Store Body → Prop) : Prop :=
  R s (x.exec s).2 ∧
    match x.exec s with
    | (.ok a, s') => P a s'
    | (.error _, s') => E s'

section Meets

variable {s : Store Body} {R : Store Body → Store Body → Prop} {P : α → Store Body → Prop}
  {Q : β → Store Body → Prop} {E : Store Body → Prop}

theorem Meets.pure [Std.Refl R] {a : α} (h : P a s) : Meets R s (pure a : Action Body α) P E :=
  ⟨refl_of R s, h⟩

theorem Meets.of_ok {x : Action Body α} {a : α} {s' : Store Body} (hx : x.exec s = (.ok a, s'))
    (hs : R s s') (h : P a s') : Meets R s x P E := by
  unfold Meets
  rw [hx]
  exact ⟨hs, h⟩

theorem Meets.of_error {x : Action Body α} {e : Failure} {s' : Store Body}
    (hx : x.exec s = (.error e, s')) (hs : R s s') (h : E s') : Meets R s x P E := by
  unfold Meets
  rw [hx]
  exact ⟨hs, h⟩

theorem Meets.cases {x : Action Body α} (h : Meets R s x P E) :
    (∃ a s', x.exec s = (.ok a, s') ∧ R s s' ∧ P a s') ∨
      ∃ e s', x.exec s = (.error e, s') ∧ R s s' ∧ E s' := by
  obtain ⟨hs, hx⟩ := h
  rcases hexec : x.exec s with ⟨e | a, s'⟩
  · rw [hexec] at hs hx
    exact Or.inr ⟨e, s', rfl, hs, hx⟩
  · rw [hexec] at hs hx
    exact Or.inl ⟨a, s', rfl, hs, hx⟩

theorem Meets.bind [IsTrans _ R] {x : Action Body α} {f : α → Action Body β} (hx : Meets R s x P E)
    (hf : ∀ a s', R s s' → P a s' → Meets R s' (f a) Q E) : Meets R s (x >>= f) Q E := by
  unfold Meets
  rw [exec_bind]
  rcases hx.cases with ⟨a, s', hexec, hs, ha⟩ | ⟨e, s', hexec, hs, he⟩
  · rw [hexec]
    obtain ⟨hs', hfa⟩ := hf a s' hs ha
    exact ⟨trans_of R hs hs', hfa⟩
  · rw [hexec]
    exact ⟨hs, he⟩

/-- What only looks at the state can be passed over. -/
theorem Meets.step {x : Action Body α} {f : α → Action Body β} {a : α}
    (hx : x.exec s = (.ok a, s)) (h : Meets R s (f a) Q E) : Meets R s (x >>= f) Q E := by
  unfold Meets at h ⊢
  rw [exec_bind, hx]
  exact h

/-- What is met may be weakened, knowing how the states are related. -/
theorem Meets.imp {x : Action Body α} {P' : α → Store Body → Prop} {E' : Store Body → Prop}
    (hx : Meets R s x P E) (hP : ∀ a s', R s s' → P a s' → P' a s') (hE : ∀ s', E s' → E' s') :
    Meets R s x P' E' := by
  rcases hx.cases with ⟨a, s', hexec, hs, ha⟩ | ⟨e, s', hexec, hs, he⟩
  · exact .of_ok hexec hs (hP a s' hs ha)
  · exact .of_error hexec hs (hE s' he)

end Meets

end Emission.Action

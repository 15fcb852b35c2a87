import Emission.Proofs.Activation

/-!
Scopes of guards. A guard that is the newest one alive when it ends takes the top of the stack with it. So if
from its creation on every guard that ends is the newest one alive, its end leaves the stack as it was before
its creation, whatever has happened before that. A guard that lives as long as a computation runs gives
back the activation that it found, whether the computation succeeds or fails.
-/
namespace Emission.Activation

section Histories

variable {Guard Context : Type} [DecidableEq Guard] [DecidableEq Context]

/-- A guard ends as the newest one. -/
def Event.EndsNewest (guards : List (Guard × Context)) : Event Guard Context → Prop
  | enter _ _ => True
  | leave g => guards.head?.map Prod.fst = some g

instance (guards : List (Guard × Context)) (e : Event Guard Context) :
    Decidable (e.EndsNewest guards) :=
  match e with
  | .enter _ _ => inferInstanceAs (Decidable True)
  | .leave g => inferInstanceAs (Decidable (guards.head?.map Prod.fst = some g))

/-- After the past events, guards end in reverse order of their creation: each that ends in the later events
is the newest one alive then. -/
def Reversed (past later : List (Event Guard Context)) : Prop :=
  ∀ mid e, mid ++ [e] <+: later → e.EndsNewest (living (past ++ mid))

variable {events past later inner : List (Event Guard Context)} {e : Event Guard Context} {g : Guard}
  {c : Context}

theorem reversed_nil (past : List (Event Guard Context)) : Reversed past [] := by
  intro mid e h
  simp at h

theorem reversed_concat : Reversed past (later ++ [e]) ↔
    Reversed past later ∧ e.EndsNewest (living (past ++ later)) := by
  constructor
  · intro h
    exact ⟨fun mid e' hmid => h mid e' (hmid.trans (List.prefix_append later [e])),
      h later e (List.prefix_refl _)⟩
  · rintro ⟨h, he⟩ mid e' hmid
    rcases List.prefix_concat_iff.mp hmid with heq | hmid
    · obtain ⟨rfl, rfl⟩ := List.append_singleton_inj.mp heq
      exact he
    · exact h mid e' hmid

/-- The newest guard takes the top of the stack with it. -/
theorem run_leave_newest (h : Fresh events) {older : List (Guard × Context)} {stack : List Context}
    (hliving : living events = (g, c) :: older) (hstack : (run events).stack = c :: stack) :
    living (events ++ [.leave g]) = older ∧ (run (events ++ [.leave g])).stack = stack := by
  have hnodup := h.nodup_living
  rw [hliving, List.map_cons] at hnodup
  have holder : ∀ e ∈ older, e.1 ≠ g := fun e he heq =>
    (List.nodup_cons.mp hnodup).1 (List.mem_map.mpr ⟨e, he, heq⟩)
  constructor
  · rw [living_leave, hliving, List.filter_cons_of_neg (by simp),
      List.filter_eq_self.mpr (by simpa using holder)]
  · rw [run_concat]
    simp [after, leave, guarded?, guards_run h, hliving, hstack]

theorem leave_enter (a : Activation Guard Context) (g : Guard) (c : Context) :
    (a.enter g c).leave g = a := by
  simp [enter, leave, guarded?]

/-- A guard that ends has an entry, and its end takes one entry of its context off the stack. -/
theorem stack_leave_perm (h : Fresh events) {e : Guard × Context} (he : e ∈ living events) :
    (run events).stack.Perm (e.2 :: (run (events ++ [.leave e.1])).stack) := by
  obtain ⟨g, c⟩ := e
  have hguards := guards_run h
  rw [run_concat]
  rcases leave_cases (run events) g with ⟨-, -, hne⟩ | ⟨newer, c', older, hsplit, hne, hleave⟩
  · exact absurd rfl (hne (g, c) (hguards ▸ he))
  · -- the guard is found under its own context, since no other has its name
    obtain rfl : c = c' := by
      have hnodup := h.nodup_living
      have he' : (g, c') ∈ living events := by
        rw [← hguards, hsplit]
        exact List.mem_append_right _ List.mem_cons_self
      exact congrArg Prod.snd (List.inj_on_of_nodup_map hnodup he he' rfl)
    have hmem : c ∈ (run events).stack := by
      refine (stack_perm events).mem_iff.mpr (List.mem_map.mpr ⟨(g, c), ?_, rfl⟩)
      rw [hguards]
      exact he
    rw [after, hleave]
    exact List.perm_cons_erase hmem

/-- As long as a guard lives in a reversed history, those created after it lie above it, and what was there
before lies below it as it was. -/
theorem exists_newer (h : Fresh (past ++ .enter g c :: inner))
    (hreversed : Reversed (past ++ [.enter g c]) inner)
    (hg : g ∈ (living (past ++ .enter g c :: inner)).map Prod.fst) :
    ∃ newer, living (past ++ .enter g c :: inner) = newer ++ (g, c) :: living past ∧
      (run (past ++ .enter g c :: inner)).stack = newer.map Prod.snd ++ c :: (run past).stack := by
  induction inner using List.reverseRecOn with
  | nil =>
    refine ⟨[], living_enter, ?_⟩
    rw [run_concat]
    rfl
  | append_singleton inner e ih =>
    have happend : past ++ .enter g c :: (inner ++ [e]) = past ++ .enter g c :: inner ++ [e] := by
      simp
    rw [happend] at h hg ⊢
    have hpast := h.of_prefix (List.prefix_append _ [e])
    obtain ⟨hreversed, he⟩ := reversed_concat.mp hreversed
    rw [List.append_assoc, List.singleton_append] at he
    have ih := ih hpast hreversed
    cases e with
    | enter g' c' =>
      rw [living_enter] at hg ⊢
      have hne : g ≠ g' := by
        rintro rfl
        simp [Fresh, List.nodup_append, Event.created?] at h
      obtain ⟨newer, hliving, hstack⟩ :=
        ih ((List.mem_cons.mp hg).resolve_left hne)
      refine ⟨(g', c') :: newer, by rw [hliving]; rfl, ?_⟩
      rw [run_concat]
      exact congrArg (c' :: ·) hstack
    | leave g' =>
      rw [living_leave] at hg
      obtain ⟨e, he', rfl⟩ := List.mem_map.mp hg
      obtain ⟨hmem, hne⟩ := List.mem_filter.mp he'
      obtain ⟨newer, hliving, hstack⟩ := ih (List.mem_map_of_mem hmem)
      -- it is another guard that ends, so it is one of the newer ones
      cases newer with
      | nil =>
        rw [hliving] at he
        simp [Event.EndsNewest] at he
        simp [he] at hne
      | cons e₁ newer =>
        obtain ⟨g₁, c₁⟩ := e₁
        obtain rfl : g₁ = g' := by
          rw [hliving] at he
          exact Option.some.inj he
        obtain ⟨hliving', hstack'⟩ := run_leave_newest hpast hliving hstack
        exact ⟨newer, hliving', hstack'⟩

/-- The end of a guard in a reversed history leaves the stack as it was before its creation. -/
theorem stack_of_reversed (h : Fresh (past ++ .enter g c :: (inner ++ [.leave g])))
    (hreversed : Reversed (past ++ [.enter g c]) (inner ++ [.leave g])) :
    (run (past ++ .enter g c :: (inner ++ [.leave g]))).stack = (run past).stack := by
  have happend : past ++ .enter g c :: (inner ++ [.leave g]) =
      past ++ .enter g c :: inner ++ [.leave g] := by simp
  rw [happend] at h ⊢
  have hpast := h.of_prefix (List.prefix_append _ [Event.leave g])
  obtain ⟨hreversed, hnewest⟩ := reversed_concat.mp hreversed
  rw [List.append_assoc, List.singleton_append] at hnewest
  obtain ⟨e, he, hg⟩ := Option.map_eq_some_iff.mp hnewest
  have hmem : g ∈ (living (past ++ .enter g c :: inner)).map Prod.fst :=
    List.mem_map.mpr ⟨e, List.mem_of_head? he, hg⟩
  obtain ⟨newer, hliving, hstack⟩ := exists_newer hpast hreversed hmem
  cases newer with
  | nil => exact (run_leave_newest hpast hliving hstack).2
  | cons e₁ newer =>
    -- a newer guard would have the same name
    have hnodup := hpast.nodup_living
    rw [hliving] at he hnodup
    obtain rfl := Option.some.inj he
    simp [← hg] at hnodup

end Histories

end Emission.Activation

namespace Emission.Script

variable {α β : Type}

/-- Runs a computation under a guard that lives until it has ended, in whatever way. -/
def guarding (g : String) (b : Backend) (x : Computation α) : Computation α := do
  modify fun s => { s with activation := s.activation.enter g b }
  let a ← tryCatchThe Stop x fun e => do
    modify fun s => { s with activation := s.activation.leave g }
    throwThe Stop e
  modify fun s => { s with activation := s.activation.leave g }
  return a

/-- Computations that emit into contexts, the active one or any other, and activate contexts for parts of
them only. -/
inductive Emits : {α : Type} → Computation α → Prop
  | pure {α : Type} (a : α) : Emits (pure a)
  | fail {α : Type} (e : Stop) : Emits (throw e : Computation α)
  | bind {α β : Type} {x : Computation α} {f : α → Computation β} :
      Emits x → (∀ a, Emits (f a)) → Emits (x >>= f)
  | attempt {α : Type} {x : Computation α} {h : Stop → Computation α} :
      Emits x → (∀ e, Emits (h e)) → Emits (tryCatchThe Stop x h)
  | onContext {α : Type} (i : Nat) (action : Action Body α) : Emits (onContext i action)
  | current : Emits current
  | guarding {α : Type} (g : String) (b : Backend) {x : Computation α} :
      Emits x → Emits (guarding g b x)

theorem Emits.onActive (action : Action Body α) : Emits (onActive action) :=
  .bind .current fun b => .onContext b.context action

namespace Computation

variable (s : Session)

theorem exec_bind (x : Computation α) (f : α → Computation β) :
    (x >>= f).exec s = match x.exec s with
      | (.ok a, s') => (f a).exec s'
      | (.error e, s') => (.error e, s') := by
  simp only [exec, ExceptT.run, bind, ExceptT.bind, ExceptT.mk, StateT.bind, StateT.run]
  rcases x s with ⟨_ | _, _⟩ <;> rfl

theorem exec_tryCatch (x : Computation α) (h : Stop → Computation α) :
    (tryCatchThe Stop x h).exec s = match x.exec s with
      | (.ok a, s') => (.ok a, s')
      | (.error e, s') => (h e).exec s' := by
  change Computation.exec (ExceptT.tryCatch x h) s = _
  simp only [exec, ExceptT.run, ExceptT.tryCatch, ExceptT.mk, bind, StateT.bind, StateT.run]
  rcases x s with ⟨_ | _, _⟩ <;> rfl

theorem exec_modify (f : Session → Session) :
    (modify f : Computation Unit).exec s = (.ok (), f s) := rfl

theorem exec_lift (x : Except Failure α) : (liftM x : Computation α).exec s =
    (match x with
      | .ok a => .ok a
      | .error f => .error (.failed f), s) := by
  cases x <;> rfl

end Computation

open Emission.Script.Computation

theorem activation_onContext (i : Nat) (action : Action Body α) (s : Session) :
    ((onContext i action).exec s).2.activation = s.activation := by
  unfold onContext
  simp only [exec_bind, exec_modify, exec_lift]
  rfl

/-- A guard for a computation ends with it. The computation runs with the guard's backend as the active one,
and its outcome is that of the whole. -/
theorem exec_guarding (g : String) (b : Backend) (x : Computation α) (s : Session) :
    (guarding g b x).exec s =
      ((x.exec { s with activation := s.activation.enter g b }).1,
        let s' := (x.exec { s with activation := s.activation.enter g b }).2
        { s' with activation := s'.activation.leave g }) := by
  unfold guarding
  simp only [exec_bind, exec_modify, exec_tryCatch]
  rcases x.exec { s with activation := s.activation.enter g b } with ⟨e | a, s'⟩
  · rfl
  · rfl

/-- What is emitted under guards of its own does not change the activation, however it ends. -/
theorem Emits.activation_eq {x : Computation α} (hx : Emits x) (s : Session) :
    (x.exec s).2.activation = s.activation := by
  induction hx generalizing s with
  | pure a => rfl
  | fail e => rfl
  | @bind α β x f _ _ ihx ihf =>
    rw [exec_bind]
    have hx := ihx s
    rcases hexec : x.exec s with ⟨e | a, s'⟩
    · rw [hexec] at hx
      exact hx
    · rw [hexec] at hx
      exact (ihf a s').trans hx
  | @attempt α x h _ _ ihx ihh =>
    rw [exec_tryCatch]
    have hx := ihx s
    rcases hexec : x.exec s with ⟨e | a, s'⟩
    · rw [hexec] at hx
      exact (ihh e s').trans hx
    · rw [hexec] at hx
      exact hx
  | onContext i action => exact activation_onContext i action s
  | current => rw [Activation.exec_current]
  | guarding g b _ ih =>
    rw [exec_guarding]
    simp only [ih]
    rw [Activation.leave_enter]

end Emission.Script

namespace Emission.Activation

open Script

/-- The stack holds one entry of its context for each living guard and nothing else. So a guard that ends
finds an entry and takes one of its context off the stack, and some context is active exactly while a guard is
alive. Where guards end in reverse order, each leaves the stack as it was before its creation, whatever the
order was before. So a guard for the time of a computation gives back what it found, and the outcome is that
of the computation. -/
theorem stack_balanced {events : List (Event String Backend)} (hfresh : Fresh events) :
    (run events).stack.Perm ((living events).map Prod.snd) ∧
    (∀ e ∈ living events,
      (run events).stack.Perm (e.2 :: (run (events ++ [.leave e.1])).stack)) ∧
    ((run events).isActive = true ↔ living events ≠ []) ∧
    (∀ past g c inner, events = past ++ .enter g c :: (inner ++ [.leave g]) →
      Reversed (past ++ [.enter g c]) (inner ++ [.leave g]) → (run events).stack = (run past).stack) ∧
    ∀ (α : Type) (x : Script.Computation α), Emits x → ∀ g b s,
      ((guarding g b x).exec s).1 = (x.exec { s with activation := s.activation.enter g b }).1 ∧
      ((guarding g b x).exec s).2.activation = s.activation := by
  have hperm := guards_run hfresh ▸ stack_perm events
  refine ⟨hperm, fun e he => stack_leave_perm hfresh he, ?_, ?_, fun α x hx g b s => ⟨?_, ?_⟩⟩
  · have hnil : (run events).stack = [] ↔ living events = [] := by
      rw [← List.length_eq_zero_iff, hperm.length_eq, List.length_map, List.length_eq_zero_iff]
    simp [isActive, hnil]
  · rintro past g c inner rfl hreversed
    exact stack_of_reversed hfresh hreversed
  · rw [exec_guarding]
  · exact (hx.guarding g b).activation_eq s

/-- After the crossed history two guards are created, and the newer one ends first. -/
def nestedHistory : List (Event String Backend) :=
  crossedHistory ++ .enter "d" (.direct 1) :: ([.enter "e" (.direct 0), .leave "e"] ++ [.leave "d"])

theorem stack_balanced_nested : Fresh nestedHistory ∧
    (run nestedHistory).stack = (run crossedHistory).stack ∧
    (run nestedHistory).stack.Perm [.direct 0, .direct 1] := by
  have hfresh : Fresh nestedHistory := by decide
  have hreversed : Reversed (crossedHistory ++ [.enter "d" (.direct 1)])
      ([] ++ [.enter "e" (.direct 0)] ++ [.leave "e"] ++ [.leave "d"]) := by
    simp only [reversed_concat]
    exact ⟨⟨⟨reversed_nil _, trivial⟩, by decide⟩, by decide⟩
  obtain ⟨hperm, -, -, hnested, -⟩ := stack_balanced hfresh
  exact ⟨hfresh, hnested crossedHistory "d" (.direct 1) _ rfl hreversed, hperm⟩

end Emission.Activation

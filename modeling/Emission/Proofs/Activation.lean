import Emission.Script.Session
import Mathlib.Data.List.Induction
import Mathlib.Data.List.Nodup

/-!
Histories of guards. Guards are created and ended in any order, and a context may have several at once.
The stack holds one entry for each living guard, so some context is active exactly while a guard is alive.
Which entry a guard takes with it when it ends is decided by its context alone. It is the guard's own
entry as long as no guard of another context stands between it and the newest guard of its context.
-/
namespace Emission.Activation

variable {Guard Context : Type}

inductive Event (Guard Context : Type)
  | enter (guard : Guard) (context : Context)
  | leave (guard : Guard)
deriving DecidableEq

namespace Event

/-- The guard that the event creates, if it creates one. -/
def created? : Event Guard Context → Option Guard
  | enter g _ => some g
  | leave _ => none

end Event

section Histories

variable [DecidableEq Guard] [DecidableEq Context]

/-- The guards that are alive after some events, the newest first: those that none of the later events
ends. -/
def living : List (Event Guard Context) → List (Guard × Context)
  | [] => []
  | .enter g c :: events =>
    if .leave g ∈ events then living events else living events ++ [(g, c)]
  | .leave _ :: events => living events

def after (a : Activation Guard Context) : Event Guard Context → Activation Guard Context
  | .enter g c => a.enter g c
  | .leave g => a.leave g

def run (events : List (Event Guard Context)) : Activation Guard Context :=
  events.foldl after empty

/-- Each guard is created once. -/
def Fresh (events : List (Event Guard Context)) : Prop :=
  (events.filterMap Event.created?).Nodup

instance (events : List (Event Guard Context)) : Decidable (Fresh events) :=
  inferInstanceAs (Decidable (events.filterMap Event.created?).Nodup)

/-- A guard ends in order if from the newest guard of its context on down to it there is no guard of
another context. -/
def Event.InOrder (guards : List (Guard × Context)) : Event Guard Context → Prop
  | enter _ _ => True
  | leave g => ∀ c ∈ guards.lookup g,
      (guards.takeWhile (·.1 ≠ g)).Pairwise fun e e' => e.2 = c → e'.2 = c

instance (guards : List (Guard × Context)) (e : Event Guard Context) :
    Decidable (e.InOrder guards) :=
  match e with
  | .enter _ _ => inferInstanceAs (Decidable True)
  | .leave g => inferInstanceAs (Decidable (∀ c ∈ guards.lookup g,
      (guards.takeWhile (·.1 ≠ g)).Pairwise fun e e' => e.2 = c → e'.2 = c))

/-- Every guard ends in order among those that are alive then. -/
def Orderly (events : List (Event Guard Context)) : Prop :=
  ∀ past e, past ++ [e] <+: events → e.InOrder (living past)

variable {events : List (Event Guard Context)} {g : Guard} {c : Context}

theorem living_enter : living (events ++ [.enter g c]) = (g, c) :: living events := by
  induction events with
  | nil => rfl
  | cons e events ih =>
    cases e with
    | enter g' c' =>
      have hleave : Event.leave g' ∈ events ++ [.enter g c] ↔ .leave g' ∈ events := by simp
      simp only [List.cons_append, living, hleave, ih]
      split <;> rfl
    | leave g' => exact ih

theorem living_leave :
    living (events ++ [.leave g]) = (living events).filter fun e => e.1 ≠ g := by
  induction events with
  | nil => rfl
  | cons e events ih =>
    cases e with
    | enter g' c' =>
      have hleave : Event.leave g' ∈ events ++ [.leave g] ↔ .leave g' ∈ events ∨ g' = g := by simp
      simp only [List.cons_append, living, hleave, ih]
      by_cases hmem : Event.leave g' ∈ events
      · rw [if_pos (Or.inl hmem), if_pos hmem]
      · by_cases hg : g' = g
        · rw [if_pos (Or.inr hg), if_neg hmem]
          simp [hg]
        · rw [if_neg (not_or.mpr ⟨hmem, hg⟩), if_neg hmem]
          simp [hg]
    | leave g' => exact ih

theorem living_sublist (events : List (Event Guard Context)) :
    ((living events).map Prod.fst).Sublist (events.filterMap Event.created?).reverse := by
  induction events with
  | nil => exact .slnil
  | cons e events ih =>
    cases e with
    | enter g c =>
      simp only [living, List.filterMap_cons, Event.created?, List.reverse_cons]
      split
      · exact ih.trans (List.sublist_append_left _ _)
      · rw [List.map_append]
        exact ih.append (.refl _)
    | leave g => exact ih

theorem Fresh.nodup_living (h : Fresh events) : ((living events).map Prod.fst).Nodup :=
  (List.nodup_reverse.mpr h).sublist (living_sublist events)

omit [DecidableEq Guard] [DecidableEq Context] in
theorem Fresh.of_prefix {past : List (Event Guard Context)} (h : Fresh events)
    (hpast : past <+: events) : Fresh past :=
  List.Nodup.sublist (hpast.sublist.filterMap _) h

theorem run_concat (e : Event Guard Context) : run (events ++ [e]) = (run events).after e := by
  simp [run]

/-- A guard that ends takes an entry of its context with it; the end of any other guard is ignored. -/
theorem leave_cases (a : Activation Guard Context) (g : Guard) :
    (a.leave g = a ∧ a.guards.lookup g = none ∧ ∀ e ∈ a.guards, e.1 ≠ g) ∨
      ∃ newer c older, a.guards = newer ++ (g, c) :: older ∧ (∀ e ∈ newer, e.1 ≠ g) ∧
        a.leave g = ⟨a.stack.erase c, newer ++ older⟩ := by
  unfold leave guarded?
  cases hlookup : a.guards.lookup g with
  | none =>
    refine Or.inl ⟨rfl, rfl, fun e he heq => ?_⟩
    have hne := List.lookup_eq_none_iff.mp hlookup e he
    simp [heq] at hne
  | some c =>
    obtain ⟨newer, older, hsplit, hnewer⟩ := List.lookup_eq_some_iff.mp hlookup
    have hne : ∀ e ∈ newer, e.1 ≠ g := fun e he heq => by simpa [heq] using hnewer e he
    refine Or.inr ⟨newer, c, older, hsplit, hne, ?_⟩
    have herase : (newer ++ (g, c) :: older).eraseP (·.1 = g) = newer ++ older := by
      rw [List.eraseP_append_right _ (by simpa using hne), List.eraseP_cons_of_pos (by simp)]
    simp only [hsplit, herase]

/-- There is an entry for each guard, whatever has happened. -/
theorem stack_perm (events : List (Event Guard Context)) :
    (run events).stack.Perm ((run events).guards.map Prod.snd) := by
  induction events using List.reverseRecOn with
  | nil => exact .nil
  | append_singleton events e ih =>
    rw [run_concat]
    cases e with
    | enter g c => exact ih.cons c
    | leave g =>
      rcases leave_cases (run events) g with ⟨hleave, -⟩ | ⟨newer, c, older, hsplit, -, hleave⟩
      · rw [after, hleave]
        exact ih
      · rw [hsplit, List.map_append, List.map_cons] at ih
        have herase := (ih.trans List.perm_middle).erase c
        rw [List.erase_cons_head, ← List.map_append] at herase
        rw [after, hleave]
        exact herase

theorem guards_run (h : Fresh events) : (run events).guards = living events := by
  induction events using List.reverseRecOn with
  | nil => rfl
  | append_singleton events e ih =>
    have hpast := h.of_prefix (List.prefix_append events [e])
    have ih := ih hpast
    rw [run_concat]
    cases e with
    | enter g c =>
      rw [living_enter, ← ih]
      rfl
    | leave g =>
      rw [living_leave, ← ih]
      rcases leave_cases (run events) g with ⟨hleave, -, hne⟩ | ⟨newer, c, older, hsplit, hne, hleave⟩
      · rw [after, hleave]
        exact (List.filter_eq_self.mpr (by simpa using hne)).symm
      · -- names are not used twice, so the guard is not among the older ones either
        have hnodup := hpast.nodup_living
        rw [← ih, hsplit, List.map_append, List.map_cons] at hnodup
        have hnotin := (List.nodup_cons.mp (List.nodup_append.mp hnodup).2.1).1
        have holder : ∀ e ∈ older, e.1 ≠ g := fun e he heq =>
          hnotin (List.mem_map.mpr ⟨e, he, heq⟩)
        rw [after, hleave, hsplit, List.filter_append, List.filter_cons_of_neg (by simp),
          List.filter_eq_self.mpr (by simpa using hne),
          List.filter_eq_self.mpr (by simpa using holder)]

/-- Taking the first copy of an element is taking a later one just when all before that are copies once
one is. -/
theorem erase_append_cons_iff {x : Context} {l l' : List Context} :
    (l ++ x :: l').erase x = l ++ l' ↔ l.Pairwise fun y z => y = x → z = x := by
  induction l with
  | nil => simp
  | cons y l ih =>
    rw [List.cons_append, List.pairwise_cons]
    by_cases hy : y = x
    · subst hy
      have hshift : ∀ l : List Context,
          l ++ y :: l' = y :: (l ++ l') ↔ ∀ z ∈ l, z = y := by
        intro l
        induction l with
        | nil => simp
        | cons z l ih =>
          constructor
          · intro heq
            obtain ⟨rfl, hrest⟩ := List.cons.inj heq
            exact List.forall_mem_cons.mpr ⟨rfl, ih.mp hrest⟩
          · intro hall
            obtain ⟨rfl, hall⟩ := List.forall_mem_cons.mp hall
            exact congrArg (z :: ·) (ih.mpr hall)
      rw [List.erase_cons_head, List.cons_append, hshift]
      constructor
      · intro hall
        exact ⟨fun z hz _ => hall z hz, List.pairwise_of_forall_mem_list fun _ _ z hz _ => hall z hz⟩
      · intro h z hz
        exact h.1 z hz rfl
    · rw [List.erase_cons_tail (by simpa using hy), List.cons_append, List.cons.injEq, ih]
      simp [hy]

/-- The guard that ends takes its own entry exactly when it ends in order. -/
theorem leave_stack_iff {a : Activation Guard Context} (ha : a.stack = a.guards.map Prod.snd) :
    (a.leave g).stack = (a.leave g).guards.map Prod.snd ↔
      (Event.leave g : Event Guard Context).InOrder a.guards := by
  rcases leave_cases a g with ⟨hleave, hnone, -⟩ | ⟨newer, c, older, hsplit, hne, hleave⟩
  · rw [hleave]
    exact iff_of_true ha (by simp [Event.InOrder, hnone])
  · have hlookup : a.guards.lookup g = some c :=
      List.lookup_eq_some_iff.mpr ⟨newer, older, hsplit, fun e he => by simpa using (hne e he).symm⟩
    have hnewer : a.guards.takeWhile (·.1 ≠ g) = newer := by
      rw [hsplit, List.takeWhile_append_of_pos (by simpa using hne)]
      simp
    have hstack : a.stack = newer.map Prod.snd ++ c :: older.map Prod.snd := by
      rw [ha, hsplit, List.map_append, List.map_cons]
    rw [hleave]
    simp only [Event.InOrder, hlookup, Option.mem_some_iff, forall_eq', hnewer]
    rw [hstack, List.map_append, erase_append_cons_iff, List.pairwise_map]

theorem orderly_concat {e : Event Guard Context} :
    Orderly (events ++ [e]) ↔ Orderly events ∧ e.InOrder (living events) := by
  constructor
  · intro h
    exact ⟨fun past e' hpast => h past e' (hpast.trans (List.prefix_append events [e])),
      h events e (List.prefix_refl _)⟩
  · rintro ⟨h, he⟩ past e' hpast
    rcases List.prefix_concat_iff.mp hpast with heq | hpast
    · obtain ⟨rfl, rfl⟩ := List.append_singleton_inj.mp heq
      exact he
    · exact h past e' hpast

/-- All through a history the stack lists the contexts of the living guards, the newest first, exactly
when every guard ends in order. -/
theorem orderly_iff (h : Fresh events) : Orderly events ↔
    ∀ past, past <+: events → (run past).stack = (living past).map Prod.snd := by
  induction events using List.reverseRecOn with
  | nil =>
    refine iff_of_true (fun past e hpast => ?_) fun past hpast => ?_
    · simp at hpast
    · rw [List.prefix_nil.mp hpast]
      rfl
  | append_singleton events e ih =>
    have hpast := h.of_prefix (List.prefix_append events [e])
    have ih := ih hpast
    have hstep : (run events).stack = (living events).map Prod.snd →
        ((run (events ++ [e])).stack = (living (events ++ [e])).map Prod.snd ↔
          e.InOrder (living events)) := by
      intro hstack
      rw [← guards_run hpast] at hstack ⊢
      rw [← guards_run h, run_concat]
      cases e with
      | enter g c =>
        refine iff_of_true ?_ trivial
        show c :: (run events).stack = c :: (run events).guards.map Prod.snd
        rw [hstack]
      | leave g => exact leave_stack_iff hstack
    rw [orderly_concat, ih]
    constructor
    · rintro ⟨hpasts, he⟩ past hpast
      rcases List.prefix_concat_iff.mp hpast with rfl | hpast
      · exact (hstep (hpasts events (List.prefix_refl _))).mpr he
      · exact hpasts past hpast
    · intro hpasts
      have hstack := hpasts events (List.prefix_append events [e])
      exact ⟨fun past hpast => hpasts past (hpast.trans (List.prefix_append events [e])),
        (hstep hstack).mp (hpasts _ (List.prefix_refl _))⟩

end Histories

section Sessions

open Script

theorem exec_current (s : Session) : current.exec s =
    (match s.activation.current? with
      | some b => .ok b
      | none => .error (Stop.failed (.illegalState .noActiveContext)), s) := by
  show (match s.activation.current? with
      | some b => (pure b : Script.Computation Backend)
      | none => throw (Stop.failed (.illegalState .noActiveContext))).exec s = _
  cases s.activation.current? <;> rfl

/-- After any history the active backend is that of a living guard, and there is none only when no guard
is alive. It is that of the newest one when every guard has ended in order. Then, and not otherwise,
every guard that ended took its own entry and left the others in their order. -/
theorem current_of_history {events : List (Event String Backend)} (hfresh : Fresh events)
    {s : Session} (hs : s.activation = run events) :
    (living events = [] →
      current.exec s = (.error (.failed (.illegalState .noActiveContext)), s)) ∧
    (living events ≠ [] → ∃ e ∈ living events, current.exec s = (.ok e.2, s)) ∧
    (Orderly events → ∀ e, (living events).head? = some e → current.exec s = (.ok e.2, s)) ∧
    (Orderly events ↔
      ∀ past, past <+: events → (run past).stack = (living past).map Prod.snd) := by
  have hperm := guards_run hfresh ▸ stack_perm events
  have hcurrent : s.activation.current? = (run events).stack.head? := congrArg current? hs
  rw [exec_current, hcurrent]
  refine ⟨fun hnone => ?_, fun hsome => ?_, fun horder e he => ?_, orderly_iff hfresh⟩
  · rw [hnone] at hperm
    rw [List.Perm.eq_nil hperm]
    rfl
  · cases hstack : (run events).stack with
    | nil =>
      rw [hstack] at hperm
      exact absurd (List.map_eq_nil_iff.mp (List.Perm.nil_eq hperm).symm) hsome
    | cons b stack =>
      have hmem : b ∈ (living events).map Prod.snd :=
        hperm.mem_iff.mp (by rw [hstack]; exact List.mem_cons_self)
      obtain ⟨e, he, rfl⟩ := List.mem_map.mp hmem
      exact ⟨e, he, rfl⟩
  · rw [(orderly_iff hfresh).mp horder events (List.prefix_refl _), List.head?_map, he]
    rfl

/-- A session of which only the history of guards is known. -/
def sessionAfter (events : List (Event String Backend)) : Session :=
  ⟨#[], [], run events, [], [], [], 0, #[]⟩

/-- Of two guards of one context the older ends first, and then a newer one of another context. -/
def pairHistory : List (Event String Backend) :=
  [.enter "a" (.direct 0), .enter "b" (.direct 0), .enter "c" (.direct 1), .leave "a", .leave "c"]

theorem current_of_history_pair : Fresh pairHistory ∧ Orderly pairHistory ∧
    current.exec (sessionAfter pairHistory) = (.ok (.direct 0), sessionAfter pairHistory) := by
  have hfresh : Fresh pairHistory := by decide
  have horderly : Orderly pairHistory := by
    show Orderly ([] ++ [_] ++ [_] ++ [_] ++ [_] ++ [_])
    simp only [orderly_concat]
    exact ⟨⟨⟨⟨⟨fun past e h => by simp at h, by decide⟩, by decide⟩, by decide⟩, by decide⟩, by decide⟩
  have hliving : (living pairHistory).head? = some ("b", .direct 0) := by decide
  exact ⟨hfresh, horderly, (current_of_history hfresh rfl).2.2.1 horderly _ hliving⟩

/-- The oldest of three guards ends while the newest has the same context. The newest guard is still alive
then, but the other context is the innermost one. -/
def crossedHistory : List (Event String Backend) :=
  [.enter "a" (.direct 0), .enter "b" (.direct 1), .enter "c" (.direct 0), .leave "a"]

theorem current_skips_newest :
    living crossedHistory = [("c", .direct 0), ("b", .direct 1)] ∧
      current.exec (sessionAfter crossedHistory) =
        (.ok (.direct 1), sessionAfter crossedHistory) := by
  refine ⟨by decide, ?_⟩
  rw [exec_current]
  rfl

end Sessions

end Emission.Activation

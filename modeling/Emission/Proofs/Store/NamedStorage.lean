import Emission.Proofs.Store.Composition
import Mathlib.Data.List.Induction

/-!
Named storage over whole runs. A run is one of a program, or any sequence of operations from the empty state on.
What a key leads to is what was given for the first request under it that was granted, and never changes. Two
requests are given the same buffer exactly if they have the same key, which between functions with plain names
means the same name in the same scope and function.
-/
namespace Emission

open Emission.Store Emission.Action

variable {Body : Type}

section Histories

/-- An operation only adds buffers and slots, unless it copies, asks for named storage, defines a function, or
enters or leaves one. -/
theorem Operation.grows_cases (op : Operation Body) (s : Store Body) :
    s.Grows (op.apply s) ∨ (∃ v w, op = .copy v w) ∨ (∃ r, op = .allocateNamed r) ∨
      (∃ d body, op = .define d body) ∨ ∃ calls, op.apply s = { s with calls := calls } := by
  cases op with
  | look => exact Or.inl (.refl s)
  | allocate type l => exact Or.inl (adds_allocate type l s)
  | allocateRow type n => exact Or.inl (adds_allocateRow type n s)
  | allocateNamed r => exact Or.inr (Or.inr (Or.inl ⟨r, rfl⟩))
  | storeConstant c => exact Or.inl (adds_storeConstant c s)
  | negate v => exact Or.inl (adds_negate v s)
  | arithmetic op v w => exact Or.inl (adds_arithmetic op v w s)
  | compare op v w => exact Or.inl (adds_compare op v w s)
  | cast v type => exact Or.inl (adds_cast v type s)
  | evaluate f args => exact Or.inl (adds_evaluate f args s)
  | offset v i => exact Or.inl (adds_offset v i s)
  | offsetAt v cs => exact Or.inl (adds_offsetAt v cs s)
  | calculateOffset l cs => exact Or.inl (adds_calculateOffset l cs s)
  | copy v w => exact Or.inr (Or.inl ⟨v, w, rfl⟩)
  | indexScalars c => exact Or.inl (adds_indexScalars c s)
  | bindArguments ps args => exact Or.inl (adds_bindArguments ps args s)
  | enterFunction name => exact Or.inr (Or.inr (Or.inr (Or.inr ⟨name :: s.calls, rfl⟩)))
  | leaveFunction => exact Or.inr (Or.inr (Or.inr (Or.inr ⟨s.calls.tail, rfl⟩)))
  | define d body => exact Or.inr (Or.inr (Or.inr (Or.inl ⟨d, body, rfl⟩)))

/-- No operation takes slots or buffers away or changes the names, but for a request that makes storage. -/
theorem Operation.apply_cases (op : Operation Body) (s : Store Body) :
    s.Extends (op.apply s) ∧ ((op.apply s).names = s.names ∨
      ∃ r k, op = .allocateNamed r ∧ s.Creates r k) := by
  rcases op.grows_cases s with hs | ⟨v, w, rfl⟩ | ⟨r, rfl⟩ | ⟨d, body, rfl⟩ | ⟨calls, hcalls⟩
  · exact ⟨hs.toExtends, Or.inl hs.toRetains.names_eq⟩
  · exact ⟨(keeps_copy v w).1.extension, Or.inl (retains_copy v w s).names_eq⟩
  · refine ⟨r.action_extends s, ?_⟩
    show (r.action.exec s).2.names = s.names ∨ _
    rcases r.action_cases s with hcreates | ⟨e, -, hsame⟩ | ⟨e, s', hexec, hs⟩
    · obtain ⟨k, hk⟩ := hcreates
      exact Or.inr ⟨r, k, rfl, hk⟩
    · exact Or.inl (by rw [hsame])
    · exact Or.inl (by rw [hexec]; exact hs.toRetains.names_eq)
  · show s.Extends ((Action.define d body).exec s).2 ∧
      (((Action.define d body).exec s).2.names = s.names ∨ _)
    by_cases h : s.Admits d
    · rw [exec_define_admitted h]
      exact ⟨extends_of_cells rfl rfl, Or.inl rfl⟩
    · rw [exec_define_refused h]
      exact ⟨.refl s, Or.inl rfl⟩
  · rw [hcalls]
    exact ⟨extends_of_cells rfl rfl, Or.inl rfl⟩

namespace Store

variable {ops past : List (Operation Body)} {e : Value} {key : Key}

/-- What holds after some operations holds after more, if each operation keeps it. -/
theorem after_induction {P : Store Body → Prop} (hstep : ∀ op s, P s → P (Operation.apply op s))
    (hpast : past <+: ops) (h : P (after past)) : P (after ops) := by
  obtain ⟨later, rfl⟩ := hpast
  induction later using List.reverseRecOn with
  | nil => rwa [List.append_nil]
  | append_singleton later op ih =>
    rw [← List.append_assoc, after_concat]
    exact hstep op _ ih

theorem requests_mono (h : past <+: ops) : requests past <+: requests ops := by
  obtain ⟨later, rfl⟩ := h
  induction later using List.reverseRecOn with
  | nil => rw [List.append_nil]
  | append_singleton later op ih =>
    rw [← List.append_assoc, requests_concat]
    exact ih.trans (List.prefix_append ..)

theorem separate_after (ops : List (Operation Body)) : (after ops).Separate := by
  refine after_induction (fun op s h => ?_) (List.nil_prefix (l := ops)) separate_empty
  obtain ⟨hs, hnames | ⟨r, k, rfl, -, -, hexec⟩⟩ := op.apply_cases s
  · exact h.extend hs hnames
  · show (r.action.exec s).2.Separate
    rw [hexec]
    exact h.create (r.key s) k r.layout

/-- What a name leads to never changes. -/
theorem named?_after (hpast : past <+: ops) (he : (after past).named? key = some e) :
    (after ops).named? key = some e := by
  refine after_induction (P := fun s => s.named? key = some e) (fun op s h => ?_) hpast he
  rcases (op.apply_cases s).2 with hnames | ⟨r, k, rfl, -, hnone, hexec⟩
  · exact (named?_congr hnames key).trans h
  · show (r.action.exec s).2.named? key = some e
    rw [hexec, named?_withStorage, if_neg ?_]
    · exact h
    · rintro rfl
      rw [hnone] at h
      cases h

end Store

end Histories

section Granting

/-- The state is one that a run goes through, and the requests are those that have been made for named storage
until then, the earliest first. A run is one of operations in any order or one of a program. -/
inductive Asks : {Body : Type} → List (Asked Body) → Store Body → Prop
  | operations {Body : Type} (ops : List (Operation Body)) : Asks (requests ops) (after ops)
  | program {Code α : Type} {x : Recorded (Routine Code) α} {ms : List (Moment (Routine Code))} :
      Program x → ms <+: x.moments → Asks (Recorded.asked ms) (Recorded.reached ms)

/-- Runs of programs are among those of operations. -/
theorem Asks.exists_operations {history : List (Asked Body)} {s : Store Body} (h : Asks history s) :
    ∃ ops, history = requests ops ∧ s = after ops := by
  cases h with
  | operations ops => exact ⟨ops, rfl, rfl⟩
  | program hx hms =>
    obtain ⟨ops, hfollows⟩ := hx.exists_operations
    obtain ⟨past, -, hreached, hasked⟩ := hfollows.earlier _ hms
    exact ⟨past, hasked, hreached⟩

variable {history before before' : List (Asked Body)} {ops : List (Operation Body)}
  {a a' : Asked Body} {s : Store Body} {v v' : Value}

/-- The request was made when these others had been, and the value was given for it. -/
structure Granted (history before : List (Asked Body)) (a : Asked Body) (v : Value) : Prop where
  made : before ++ [a] <+: history
  given : a.Gives v

/-- No request under the key was granted. -/
def Unnamed (history : List (Asked Body)) (key : Key) : Prop :=
  ∀ before a v, Granted history before a v → a.key ≠ key

/-- The request was the first one under its key to be granted. -/
structure GrantedFirst (history before : List (Asked Body)) (a : Asked Body) (v : Value) : Prop
    extends Granted history before a v where
  first : Unnamed before a.key

/-- Requests are made by operations, in the states after those before. -/
theorem made_iff : before ++ [a] <+: requests ops ↔
    ∃ past, past ++ [.allocateNamed a.request] <+: ops ∧ a.state = after past ∧ before = requests past := by
  constructor
  · intro h
    induction ops using List.reverseRecOn with
    | nil => exact absurd (List.prefix_nil.mp h) (List.concat_ne_nil a before)
    | append_singleton ops op ih =>
      have hold : before ++ [a] <+: requests ops →
          ∃ past, past ++ [.allocateNamed a.request] <+: ops ++ [op] ∧ a.state = after past ∧
            before = requests past := by
        intro hold
        obtain ⟨past, hmade, hpast⟩ := ih hold
        exact ⟨past, hmade.trans (List.prefix_append ops [op]), hpast⟩
      rw [requests_concat] at h
      cases op with
      | allocateNamed r =>
        rcases List.prefix_concat_iff.mp h with heq | hprefix
        · obtain ⟨rfl, hlast⟩ := List.append_inj' heq rfl
          obtain rfl : a = ⟨after ops, r⟩ := List.singleton_inj.mp hlast
          exact ⟨ops, List.prefix_rfl, rfl, rfl⟩
        · exact hold hprefix
      | _ => exact hold (by simpa [Operation.asked?] using h)
  · rintro ⟨past, hmade, hstate, rfl⟩
    have h := requests_mono hmade
    rwa [requests_concat, Operation.asked?, ← hstate] at h

/-- What is given for a request is what its key leads to from then on. -/
theorem Granted.named (h : Granted (requests ops) before a v) :
    ∃ e, (after ops).named? a.key = some e ∧ e.handle? = v.handle? := by
  obtain ⟨past, hmade, hstate, -⟩ := made_iff.mp h.made
  obtain ⟨e, he, hhandle⟩ := Request.named_of_ok h.given
  refine ⟨e, named?_after hmade ?_, hhandle⟩
  rw [after_concat, ← hstate]
  exact he

theorem Granted.extend {more : List (Asked Body)} (h : Granted history before a v)
    (hmore : history <+: more) : Granted more before a v :=
  ⟨h.made.trans hmore, h.given⟩

theorem unnamed_of_none {key : Key} (h : (after ops).named? key = none) : Unnamed (requests ops) key := by
  rintro before a v hgranted rfl
  obtain ⟨e, he, -⟩ := hgranted.named
  rw [he] at h
  cases h

/-- A name leads to what was given for the first request. -/
theorem exists_first {key : Key} {e : Value} (he : (after ops).named? key = some e) :
    ∃ before a, GrantedFirst (requests ops) before a e ∧ a.key = key := by
  induction ops using List.reverseRecOn with
  | nil => cases he
  | append_singleton ops op ih =>
    have hmore : requests ops <+: requests (ops ++ [op]) := requests_mono (List.prefix_append ops [op])
    have hold : (after ops).named? key = some e →
        ∃ before a, GrantedFirst (requests (ops ++ [op])) before a e ∧ a.key = key := by
      intro hold
      obtain ⟨before, a, hfirst, hkey⟩ := ih hold
      exact ⟨before, a, ⟨hfirst.extend hmore, hfirst.first⟩, hkey⟩
    rw [after_concat] at he
    rcases (op.apply_cases (after ops)).2 with hnames | ⟨r, k, rfl, -, hnone, hexec⟩
    · exact hold ((named?_congr hnames key).symm.trans he)
    · change (r.action.exec (after ops)).2.named? key = some e at he
      rw [hexec, named?_withStorage] at he
      by_cases hkey : key = r.key (after ops)
      · rw [if_pos hkey] at he
        obtain rfl := Option.some.inj he
        have hgranted : Granted (requests (ops ++ [.allocateNamed r])) (requests ops) ⟨after ops, r⟩
            (Store.fresh (after ops) k r.layout) :=
          ⟨made_iff.mpr ⟨ops, List.prefix_rfl, rfl, rfl⟩, congrArg Prod.fst hexec⟩
        exact ⟨requests ops, ⟨after ops, r⟩, ⟨hgranted, unnamed_of_none hnone⟩, hkey.symm⟩
      · rw [if_neg hkey] at he
        exact hold he

theorem named?_eq_none_iff {key : Key} : (after ops).named? key = none ↔ Unnamed (requests ops) key := by
  refine ⟨unnamed_of_none, fun h => ?_⟩
  cases he : (after ops).named? key with
  | none => rfl
  | some e =>
    obtain ⟨before, a, hfirst, hkey⟩ := exists_first he
    exact absurd hkey (h before a e hfirst.toGranted)

/-- The first request has made what its name leads to. -/
theorem GrantedFirst.creates (h : GrantedFirst (requests ops) before a v) :
    (∃ k, a.state.Creates a.request k) ∧ (after ops).named? a.key = some v ∧
      v.type = a.request.type ∧ v.layout? = some a.request.layout := by
  obtain ⟨past, hmade, hstate, rfl⟩ := made_iff.mp h.made
  have hnone : a.state.named? a.key = none := by
    rw [hstate]
    exact named?_eq_none_iff.mpr h.first
  rcases a.request.action_cases a.state with ⟨k, hk⟩ | ⟨e, he, -⟩ | ⟨e, s', hexec, -⟩
  · have hv : (a.request.action.exec a.state).1 = .ok v := h.given
    obtain ⟨htype, -, hexec⟩ := hk
    rw [hexec] at hv
    obtain rfl := Except.ok.inj hv
    refine ⟨⟨k, htype, hnone, hexec⟩, named?_after hmade ?_, htype.symm, rfl⟩
    rw [after_concat]
    show (a.request.action.exec (after past)).2.named? _ = _
    rw [← hstate, hexec]
    exact (named?_withStorage ..).trans (if_pos rfl)
  · cases hnone.symm.trans he
  · have hv : (a.request.action.exec a.state).1 = .ok v := h.given
    rw [hexec] at hv
    cases hv

/-- Two requests of a run that were granted give the same buffer exactly if they have the same key. Where the
functions that make them have plain names, that is for the same name in the same scope and function. -/
theorem shares_buffer_iff (hs : Asks history s) (h : Granted history before a v)
    (h' : Granted history before' a' v') :
    (s.SharesBuffer v v' ↔ a.key = a'.key) ∧
    (a.state.RunsPlain → a'.state.RunsPlain →
      (s.SharesBuffer v v' ↔ a.request.scope = a'.request.scope ∧ a.request.name = a'.request.name ∧
        (a.request.scope = .function → a.state.calls.head? = a'.state.calls.head?))) := by
  obtain ⟨ops, rfl, rfl⟩ := hs.exists_operations
  obtain ⟨e, he, hv⟩ := h.named
  obtain ⟨e', he', hv'⟩ := h'.named
  have hseparate := separate_after ops
  have hiff : (after ops).SharesBuffer v v' ↔ a.key = a'.key := by
    constructor
    · rintro ⟨b, hb, hb'⟩
      refine hseparate.apart _ _ e e' he he' ⟨b, ?_, ?_⟩
      · exact (bufferOf?_congr hv).trans hb
      · exact (bufferOf?_congr hv').trans hb'
    · intro hkey
      rw [hkey, he'] at he
      obtain rfl := Option.some.inj he
      obtain ⟨b, -, hb, -⟩ := hseparate.housed _ _ he'
      exact ⟨b, (bufferOf?_congr hv).symm.trans hb, (bufferOf?_congr hv').symm.trans hb⟩
  exact ⟨hiff, fun hplain hplain' => hiff.trans (key_eq_iff hplain hplain')⟩

/-- A truth value under a name of function scope. -/
def static (name : String) : Request := ⟨.function, name, .plain .boolean, .scalar⟩

/-- The body of a function asks for a truth value of its own. -/
def asksStatic (name : String) (_ : List Value) : Recorded (Routine String) (Option Value) := do
  let _ ← Recorded.allocateNamed (static name)
  return none

/-- Two functions that ask for storage of their own are defined, and called one after the other. -/
def twoStatics (f m g n : String) : Recorded (Routine String) Unit := do
  let _ ← Recorded.define (.ofName f) m
  let _ ← Recorded.define (.ofName g) n
  let _ ← Recorded.call asksStatic (.ofName f) []
  let _ ← Recorded.call asksStatic (.ofName g) []

theorem program_twoStatics (f m g n : String) : Program (twoStatics f m g n) := by
  have hasks : ∀ name vs, Program (asksStatic name vs) := fun name vs =>
    .bind (.allocateNamed Layout.obtainable_scalar) fun _ => .pure none
  refine .bind (.define _ m) fun _ => .bind (.define _ n) fun _ => ?_
  exact .bind (.call _ [] hasks) fun _ => .bind (.call _ [] hasks) fun _ => .pure ()

/-- Two functions with plain names have storage of their own under one name. -/
theorem shares_buffer_iff_plain :
    let x := twoStatics "a" "c" "b" "c"
    ∃ a a' v v', Recorded.asked x.moments = [a, a'] ∧ a.Gives v ∧ a'.Gives v' ∧
      a.request = static "c" ∧ a.state.calls = ["a"] ∧ a'.request = static "c" ∧ a'.state.calls = ["b"] ∧
      ¬ (Recorded.reached x.moments).SharesBuffer v v' := by
  intro x
  let v : Value := ⟨.plain .boolean, some .scalar, some ⟨0⟩⟩
  let v' : Value := ⟨.plain .boolean, some .scalar, some ⟨1⟩⟩
  have hruns : Asks (Recorded.asked x.moments) (Recorded.reached x.moments) :=
    .program (program_twoStatics ..) List.prefix_rfl
  obtain ⟨a, a', hasked, hv, hv', hr, hcalls, hr', hcalls'⟩ : ∃ a a',
      Recorded.asked x.moments = [a, a'] ∧ a.Gives v ∧ a'.Gives v' ∧ a.request = static "c" ∧
      a.state.calls = ["a"] ∧ a'.request = static "c" ∧ a'.state.calls = ["b"] :=
    ⟨_, _, rfl, rfl, rfl, rfl, rfl, rfl, rfl⟩
  have h : Granted (Recorded.asked x.moments) [] a v := ⟨⟨[a'], hasked.symm⟩, hv⟩
  have h' : Granted (Recorded.asked x.moments) [a] a' v' := ⟨⟨[], hasked.symm⟩, hv'⟩
  have hplain : a.state.RunsPlain := by
    rw [Store.RunsPlain, hcalls]
    decide
  have hplain' : a'.state.RunsPlain := by
    rw [Store.RunsPlain, hcalls']
    decide
  refine ⟨a, a', v, v', hasked, hv, hv', hr, hcalls, hr', hcalls', fun hshare => ?_⟩
  have hsame := (((shares_buffer_iff hruns h h').2 hplain hplain').mp hshare).2.2
  rw [hr, hcalls, hcalls'] at hsame
  exact absurd (hsame rfl) (by decide)

/-- The functions and the names are different, but joined they give the same text. -/
theorem shares_buffer_across_functions :
    let x := twoStatics "a" "b.c" "a.b" "c"
    Program x ∧ ∃ a a' v v', Recorded.asked x.moments = [a, a'] ∧ a.Gives v ∧ a'.Gives v' ∧
      x.lastState.SharesBuffer v v' ∧ a.request = static "b.c" ∧ a.state.calls = ["a"] ∧
      a'.request = static "c" ∧ a'.state.calls = ["a.b"] := by
  intro x
  exact ⟨program_twoStatics .., _, _, _, _, rfl, rfl, rfl, ⟨0, rfl, rfl⟩, rfl, rfl, rfl, rfl⟩

/-- The first request that is granted under a key makes a buffer of zeros, and one that fails for want of
storage of its type, or of room for it, changes nothing. From then on the type and the layout of the first request
decide about every other one: it fails, or shows the same storage in its own layout, and changes nothing either
way. Between functions with plain names, a key stands for one name in one scope and function. -/
theorem named_storage_stable (hs : Asks history s) (r : Request) :
    (Unnamed history (r.key s) →
      (∀ k, r.type = .plain (.cell k) →
        (r.layout.memorySize < cellLimit → s.slots.size < handleLimit →
          r.action.exec s = (.ok (s.fresh k r.layout), s.withStorage (r.key s) k r.layout)) ∧
        (cellLimit ≤ r.layout.memorySize → r.action.exec s =
          (.error (.panic (.allocation (r.layout.memorySize * k.sizeInBytes))), s))) ∧
      ((∀ k, r.type ≠ .plain (.cell k)) → ∃ e, r.action.exec s = (.error e, s))) ∧
    (¬ Unnamed history (r.key s) → ∃ before a v, GrantedFirst history before a v ∧ a.key = r.key s) ∧
    (∀ before a v, GrantedFirst history before a v → a.key = r.key s →
      r.action.exec s =
        (if r.type = .plain .void then .error (.invalidArgument .voidStorage)
          else if a.request.type ≠ r.type then .error (.typeMismatch a.request.type r.type)
          else if a.request.layout.memorySize < r.layout.memorySize then
            .error (.invalidSize r.layout.memorySize a.request.layout.memorySize)
          else .ok (v.withLayout r.layout), s)) ∧
    ∀ (s₀ : Store Body) (r₀ : Request), s₀.RunsPlain → s.RunsPlain →
      (r₀.key s₀ = r.key s ↔ r₀.scope = r.scope ∧ r₀.name = r.name ∧
        (r₀.scope = .function → s₀.calls.head? = s.calls.head?)) := by
  obtain ⟨ops, rfl, rfl⟩ := hs.exists_operations
  refine ⟨fun hunnamed => ?_, fun hnamed => ?_, fun before a v hfirst hkey => ?_,
    fun s₀ r₀ hplain hplain' => key_eq_iff hplain hplain'⟩
  · have hnone := named?_eq_none_iff.mpr hunnamed
    refine ⟨fun k hk => ⟨fun hfits hroom => ?_, fun hle => ?_⟩,
      fun hr => ⟨_, Request.exec_unstorable hr hnone⟩⟩
    · rw [Request.exec_first hk hfits hnone, if_pos hroom]
    · exact Request.exec_without_room hk (Nat.not_lt.mpr hle) hnone
  · cases he : (after ops).named? (r.key (after ops)) with
    | none => exact absurd (unnamed_of_none he) hnamed
    | some e =>
      obtain ⟨before, a, hfirst, hkey⟩ := exists_first he
      exact ⟨before, a, e, hfirst, hkey⟩
  · obtain ⟨-, hv, htype, hlayout⟩ := hfirst.creates
    rw [hkey] at hv
    rw [Request.exec_named hv, reuse_eq hlayout, htype]

/-- A row of truth values that all functions share. -/
def shared (length : Nat) : Request :=
  ⟨.global, "shared", .plain .boolean, ⟨[⟨length, length, 0, 1, 0⟩]⟩⟩

/-- The row is asked for, and then a function is called that asks for the first truth value of it. -/
def shortened : Recorded (Routine Unit) Unit := do
  let _ ← Recorded.allocateNamed (shared 3)
  let _ ← Recorded.define (.ofName "f") ()
  let _ ← Recorded.call (fun _ _ => do
    let _ ← Recorded.allocateNamed (shared 1)
    return none) (.ofName "f") []

/-- A function that gets less of the row than there is does not make it shorter. -/
theorem named_storage_stable_row :
    let s := Recorded.reached shortened.moments
    ∃ a a' v, Recorded.asked shortened.moments = [a, a'] ∧ a'.request = shared 1 ∧ a'.Gives v ∧
      (shared 4).action.exec s = (.error (.invalidSize 4 3), s) := by
  intro s
  have hprogram : Program shortened := by
    have hbody : ∀ (code : Unit) (vs : List Value), Program (do
        let _ ← Recorded.allocateNamed (shared 1)
        return none : Recorded (Routine Unit) (Option Value)) := fun _ _ =>
      .bind (.allocateNamed ⟨.sizes [1], rfl⟩) fun _ => .pure none
    exact .bind (.allocateNamed ⟨.sizes [3], rfl⟩) fun _ => .bind (.define _ ()) fun _ =>
      .bind (.call _ [] hbody) fun _ => .pure ()
  have hruns : Asks (Recorded.asked shortened.moments) s := .program hprogram List.prefix_rfl
  have hfirst : GrantedFirst (Recorded.asked shortened.moments) [] ⟨.empty, shared 3⟩
      ⟨.plain .boolean, some (shared 3).layout, some ⟨0⟩⟩ := {
    made := ⟨[_], rfl⟩
    given := rfl
    first := fun before a v h _ => by simpa using List.prefix_nil.mp h.made }
  exact ⟨_, _, _, rfl, rfl, rfl, (named_storage_stable hruns (shared 4)).2.2.1 _ _ _ hfirst rfl⟩

/-- The one body stores a truth value in storage of its own, and the other one asks for its storage. -/
def storesOrAsks : Bool → List Value → Recorded (Routine Bool) (Option Value)
  | true, _ => do
    let v ← Recorded.allocateNamed (static "b.c")
    let w ← Recorded.make (.storeConstant (.single .boolean (.boolean true)))
    Recorded.lift (.copy w v)
    return none
  | false, _ => do
    let _ ← Recorded.allocateNamed (static "c")
    return none

/-- The two functions are defined, and called one after the other. -/
def storesThenAsks : Recorded (Routine Bool) Unit := do
  let _ ← Recorded.define (.ofName "a") true
  let _ ← Recorded.define (.ofName "a.b") false
  let _ ← Recorded.call storesOrAsks (.ofName "a") []
  let _ ← Recorded.call storesOrAsks (.ofName "a.b") []

/-- A function stores something under a name, and another one asks for storage under a name that it has not
used yet. It is given what the first one has stored. -/
theorem first_request_reads_foreign_storage :
    Program storesThenAsks ∧ ∃ a a' v, Recorded.asked storesThenAsks.moments = [a, a'] ∧
      a.request = static "b.c" ∧ a.state.calls = ["a"] ∧
      a'.request = static "c" ∧ a'.state.calls = ["a.b"] ∧
      a'.request.action.exec a'.state = (.ok v, a'.state) ∧
      a'.state.read v = .ok (.ofList .boolean [.boolean true]) ∧
      Data.ofList .boolean [.boolean true] ≠ .zeros .boolean 1 := by
  refine ⟨?_, _, _, _, rfl, rfl, rfl, rfl, rfl, rfl, rfl, fun hzeros => ?_⟩
  · have hbody : ∀ code vs, Program (storesOrAsks code vs) := by
      intro code vs
      cases code with
      | true =>
        exact .bind (.allocateNamed Layout.obtainable_scalar) fun v => .bind (.storeConstant _) fun w =>
          .bind (.copy w v) fun _ => .pure none
      | false => exact .bind (.allocateNamed Layout.obtainable_scalar) fun _ => .pure none
    exact .bind (.define _ true) fun _ => .bind (.define _ false) fun _ =>
      .bind (.call _ [] hbody) fun _ => .bind (.call _ [] hbody) fun _ => .pure ()
  · exact absurd (congrArg Data.toList hzeros) (by decide)

end Granting

end Emission

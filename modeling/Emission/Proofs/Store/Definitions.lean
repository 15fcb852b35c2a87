import Emission.Proofs.Store.NamedStorage
import Emission.Proofs.Store.Procedures

/-!
Definitions of functions over whole runs. The first definition of a name that is accepted stays the definition
of the name, whatever happens later. Each later attempt to define the name fails and changes nothing, and each
accepted call by it runs the first body, whatever the declaration that is called carries. Intrinsics are neither
defined nor looked up.
-/
namespace Emission

open Emission.Store Emission.Action

variable {Body : Type}

namespace Store

variable {s s' s'' : Store Body} {name : String} {d : Declaration Body} {body : Body}

theorem admits_of_define {d' : Declaration Body} (h : ((define d body).exec s).1 = .ok d') :
    s.Admits d := by
  by_contra hrefused
  rw [exec_define_refused hrefused body] at h
  cases h

theorem definition_of_none (h : s.function? name = none) :
    s.definition name = .error (.invalidFunction name) := by
  simp only [definition, h]

/-- Every function is registered under its own name. -/
def Filed (s : Store Body) : Prop := ∀ e ∈ s.functions, e.2.name = e.1

theorem Filed.name_eq (hs : s.Filed) (h : s.definition name = .ok (d, body)) : d.name = name :=
  hs (name, d) (mem_of_lookup (definition_eq_ok_iff.mp h).1)

/-- What is registered under a name stays. -/
def Remembers (s s' : Store Body) : Prop :=
  ∀ name d, s.function? name = some d → s'.function? name = some d

namespace Remembers

theorem refl (s : Store Body) : s.Remembers s := fun _ _ h => h

theorem trans (h : s.Remembers s') (h' : s'.Remembers s'') : s.Remembers s'' :=
  fun name d hd => h' name d (h name d hd)

instance : Std.Refl (@Remembers Body) := ⟨refl⟩

instance : IsTrans (Store Body) Remembers := ⟨fun _ _ _ => trans⟩

theorem of_functions (h : s'.functions = s.functions) : s.Remembers s' := by
  intro name d hd
  unfold function? at hd ⊢
  rwa [h]

end Remembers

theorem Retains.functions_eq (h : s.Retains s') : s'.functions = s.functions := by
  obtain ⟨bs, hs, rfl⟩ := h
  rfl

theorem frames_remembers : Frames (@Remembers Body) where
  grown h := h.accrues.functions
  within _ _ _ h := h

end Store

/-- Wherever control comes to, what was registered at the start still is. -/
theorem Point.Reaches.remembers {a b : Point Body} (h : Point.Reaches a b) : a.state.Remembers b.state := by
  induction h with
  | refl => exact .refl _
  | tail _ hstep ih =>
    have hcopy : ∀ v w, Obeys Remembers (Action.copy v w : Action Body Unit) :=
      fun v w s => .of_functions (retains_copy v w s).functions_eq
    rcases frames_remembers.enter hcopy hstep with ⟨-, hs⟩ | ⟨_, _, _, s, -, hs, -, hstate⟩
    · exact ih.trans hs
    · rw [hstate]
      exact ih.trans hs

section Histories

/-- No operation changes what is registered, but for a definition, which adds an entry under a free name. -/
theorem Operation.functions_cases (op : Operation Body) (s : Store Body) :
    (op.apply s).functions = s.functions ∨ ∃ d body, op = .define d body ∧ s.Admits d ∧
      (op.apply s).functions = (d.name, d.define body) :: s.functions := by
  rcases op.grows_cases s with hs | ⟨v, w, rfl⟩ | ⟨r, rfl⟩ | ⟨d, body, rfl⟩ | ⟨calls, hcalls⟩
  · exact Or.inl hs.toRetains.functions_eq
  · exact Or.inl (retains_copy v w s).functions_eq
  · refine Or.inl ?_
    show (r.action.exec s).2.functions = s.functions
    rcases r.action_cases s with ⟨k, -, -, hexec⟩ | ⟨e, -, hsame⟩ | ⟨e, s', hexec, hs⟩
    · rw [hexec]
      rfl
    · rw [hsame]
    · rw [hexec]
      exact hs.toRetains.functions_eq
  · show ((Action.define d body).exec s).2.functions = s.functions ∨ ∃ d' body', _ ∧ _ ∧
      ((Action.define d body).exec s).2.functions = _
    by_cases h : s.Admits d
    · rw [exec_define_admitted h]
      exact Or.inr ⟨d, body, rfl, h, rfl⟩
    · rw [exec_define_refused h]
      exact Or.inl rfl
  · rw [hcalls]
    exact Or.inl rfl

variable {ops past : List (Operation Body)} {name : String} {d : Declaration Body} {body : Body}

namespace Store

theorem remembers_apply (op : Operation Body) (s : Store Body) : s.Remembers (op.apply s) := by
  rcases op.functions_cases s with hsame | ⟨d, body, rfl, hadmits, hnew⟩
  · exact .of_functions hsame
  · intro name d' hd'
    unfold function?
    rw [hnew]
    exact Command.lookup_cons_of_free hadmits.2 hd'

theorem remembers_after (h : past <+: ops) : (after past).Remembers (after ops) :=
  after_induction (fun op s hs => hs.trans (remembers_apply op s)) h (.refl _)

/-- So it is in every run. -/
theorem filed_after (ops : List (Operation Body)) : (after ops).Filed := by
  refine after_induction (fun op s hs => ?_) (List.nil_prefix (l := ops)) (fun _ he => (nomatch he))
  rcases op.functions_cases s with hsame | ⟨d, body, rfl, -, hnew⟩
  · unfold Filed
    rw [hsame]
    exact hs
  · unfold Filed
    rw [hnew]
    exact List.forall_mem_cons.mpr ⟨rfl, hs⟩

end Store

/-- The function was defined after the past operations, and the definition was accepted. -/
structure Defined (ops past : List (Operation Body)) (d : Declaration Body) (body : Body) : Prop where
  made : past ++ [.define d body] <+: ops
  accepted : ∃ d', ((Action.define d body).exec (after past)).1 = .ok d'

/-- A definition of the name has been accepted. -/
def Known (ops : List (Operation Body)) (name : String) : Prop :=
  ∃ past d body, Defined ops past d body ∧ d.name = name

namespace Defined

theorem admits (h : Defined ops past d body) : (after past).Admits d := by
  obtain ⟨d', hd'⟩ := h.accepted
  exact admits_of_define hd'

theorem function?_eq (h : Defined ops past d body) :
    (after ops).function? d.name = some (d.define body) := by
  refine remembers_after h.made d.name (d.define body) ?_
  rw [after_concat]
  show ((Action.define d body).exec (after past)).2.function? d.name = _
  rw [exec_define_admitted h.admits]
  exact List.lookup_cons_self

end Defined

theorem Known.extend {more : List (Operation Body)} (h : Known ops name) (hmore : ops <+: more) :
    Known more name := by
  obtain ⟨past, d, body, hdefined, hname⟩ := h
  exact ⟨past, d, body, ⟨hdefined.made.trans hmore, hdefined.accepted⟩, hname⟩

/-- There is a function of a name exactly if a definition of it has been accepted. -/
theorem known_iff : Known ops name ↔ (after ops).function? name ≠ none := by
  constructor
  · rintro ⟨past, d, body, hdefined, rfl⟩
    rw [hdefined.function?_eq]
    exact Option.some_ne_none _
  · intro hsome
    induction ops using List.reverseRecOn with
    | nil => exact absurd rfl hsome
    | append_singleton ops op ih =>
      have hold : (after ops).function? name ≠ none → Known (ops ++ [op]) name :=
        fun h => (ih h).extend (List.prefix_append ops [op])
      rw [after_concat] at hsome
      unfold function? at hsome
      rcases op.functions_cases (after ops) with hsame | ⟨d, body, rfl, hadmits, hnew⟩
      · rw [hsame] at hsome
        exact hold hsome
      · rw [hnew, List.lookup_cons] at hsome
        by_cases hname : name = d.name
        · have haccepted := congrArg Prod.fst (exec_define_admitted hadmits body)
          exact ⟨ops, d, body, ⟨List.prefix_rfl, _, haccepted⟩, hname.symm⟩
        · rw [beq_eq_false_iff_ne.mpr hname] at hsome
          exact hold hsome

end Histories

section Permanence

variable {ops past : List (Operation Body)} {d d₁ : Declaration Body} {body : Body} {args : List Value}

/-- A call by a name binds the arguments, which the declaration in the call admits, to the parameters of the
definition of the name. If this succeeds it runs the body of that definition. -/
theorem exec_call_registered {s : Store Body} (hregistered : s.function? d.name = some (d.define body))
    (hname : d₁.name = d.name) (hd : d₁.intrinsic? = none) (hcheck : d₁.checkCall args = .ok ())
    (eval : Body → List Value → Action Body (Option Value)) :
    (call eval d₁ args).exec s = match (bindArguments d.parameters args).exec s with
      | (.ok vs, s') => d.finish ((eval body vs).exec { s' with calls := d.name :: s'.calls })
      | (.error e, s') => (.error e, s') := by
  have hdefinition : s.definition d₁.name = .ok (d.define body, body) :=
    definition_eq_ok_iff.mpr ⟨hname ▸ hregistered, rfl⟩
  have hparameters : (d.define body).parameters = d.parameters := rfl
  rw [exec_call eval hd, exec_prepare hcheck hdefinition, hparameters]
  rcases (bindArguments d.parameters args).exec s with ⟨e | vs, s'⟩ <;> rfl

/-- Of a name there is only one definition. -/
theorem Defined.unique {past' : List (Operation Body)} {d' : Declaration Body} {body' : Body}
    (h : Defined ops past d body) (h' : Defined ops past' d' body') (hname : d'.name = d.name) :
    past' = past ∧ d' = d ∧ body' = body := by
  -- of two definitions the later one would find the name taken
  have hlater : ∀ {past past' : List (Operation Body)} {d d' : Declaration Body} {body body' : Body},
      Defined ops past d body → Defined ops past' d' body' → d'.name = d.name →
      past'.length ≤ past.length := by
    intro past past' d d' body body' h h' hname
    by_contra hlt
    have hbefore : past ++ [.define d body] <+: past' := by
      refine List.prefix_of_prefix_length_le h.made ((List.prefix_append past' _).trans h'.made) ?_
      rw [List.length_append, List.length_singleton]
      omega
    have hknown : Known past' d.name := ⟨past, d, body, ⟨hbefore, h.accepted⟩, rfl⟩
    exact known_iff.mp hknown (hname ▸ h'.admits.2)
  have hlength : past'.length = past.length :=
    Nat.le_antisymm (hlater h h' hname) (hlater h' h hname.symm)
  have hsame : past' ++ [.define d' body'] = past ++ [.define d body] := by
    refine List.IsPrefix.eq_of_length (List.prefix_of_prefix_length_le h'.made h.made ?_) ?_
    · simp [hlength]
    · simp [hlength]
  obtain ⟨rfl, hop⟩ := List.append_inj hsame hlength
  cases hop
  exact ⟨rfl, rfl, rfl⟩

open Point in
/-- A name has at most one definition. From then on, also in the course of anything that starts later and while
the function itself is running, nothing else can be defined under the name. A call by it that is admitted binds its
arguments to the parameters of this definition, and fails before any body is run if that fails; otherwise it runs
the body of this definition on what has been bound, as the innermost function, and ends as that does. Without a
definition such a call fails, whatever definition the declaration in the call carries. Intrinsics are never defined,
and a call of one is evaluated without regard to any definition. -/
theorem definition_permanent (ops : List (Operation Body)) :
    (∀ past d body, Defined ops past d body →
      (∀ past' d' body', Defined ops past' d' body' → d'.name = d.name →
        past' = past ∧ d' = d ∧ body' = body) ∧
      ∀ (α : Type) (p : Procedure Body α) fs b, Reaches ⟨p, fs, after ops⟩ b →
        ∀ d₁ : Declaration Body, d₁.name = d.name →
        (∀ body₁, (Action.define d₁ body₁).exec b.state =
          (.error (.invalidFunction d.name), b.state)) ∧
        ∀ args, d₁.intrinsic? = none → d₁.checkCall args = .ok () →
          (∀ e s', (bindArguments d.parameters args).exec b.state = (.error e, s') →
            ∀ eval, (call eval d₁ args).exec b.state = (.error e, s')) ∧
          ∀ vs s', (bindArguments d.parameters args).exec b.state = (.ok vs, s') →
            ∀ eval, (call eval d₁ args).exec b.state =
              d.finish ((eval body vs).exec { s' with calls := d.name :: s'.calls })) ∧
    (∀ d : Declaration Body, ¬ Known ops d.name → d.intrinsic? = none →
      ∀ eval args, d.checkCall args = .ok () →
        (call eval d args).exec (after ops) = (.error (.invalidFunction d.name), after ops)) ∧
    ∀ (d : Declaration Body) f, d.intrinsic? = some f →
      (∀ body s, (Action.define d body).exec s = (.error (.invalidFunction d.name), s)) ∧
      (∀ name d₀, (after ops).function? name = some d₀ → d₀.intrinsic? = none) ∧
      ∀ eval args, call eval d args = do
        liftM (d.checkCall args)
        let v ← evaluate f args
        return some v := by
  refine ⟨fun past d body h => ⟨fun past' d' body' h' => h.unique h',
    fun α p fs b hb d₁ hname => ?_⟩, fun d hnew hd eval args hcheck => ?_, fun d f hf => ⟨?_, ?_, ?_⟩⟩
  · have hregistered : b.state.function? d.name = some (d.define body) :=
      Reaches.remembers hb d.name _ h.function?_eq
    refine ⟨fun body₁ => ?_, fun args hd hcheck => ?_⟩
    · rw [exec_define_refused ?_ body₁, hname]
      intro hadmits
      rw [Admits, hname, hregistered] at hadmits
      cases hadmits.2
    · have hcall := exec_call_registered hregistered hname hd hcheck
      refine ⟨fun e s' hbind eval => ?_, fun vs s' hbind eval => ?_⟩
      · rw [hcall eval, hbind]
      · rw [hcall eval, hbind]
  · have hnone : (after ops).function? d.name = none := by
      by_contra hsome
      exact hnew (known_iff.mpr hsome)
    rw [exec_call eval hd, Declaration.prepare]
    simp only [exec_bind, exec_lift, hcheck, exec_reading, definition_of_none hnone]
  · refine fun body s => exec_define_refused (fun hadmits => ?_) body
    rw [hadmits.1] at hf
    cases hf
  · intro name d₀ h₀
    obtain ⟨past, d', body, hdefined, rfl⟩ := known_iff.mpr (h₀ ▸ Option.some_ne_none d₀)
    obtain rfl : d'.define body = d₀ := Option.some.inj (hdefined.function?_eq.symm.trans h₀)
    exact hdefined.admits.1
  · exact fun eval args => call_intrinsic eval hf args

open Point in
/-- The function is running when another definition is tried under its name, and when it is called by a
declaration with that definition. Its own body is run, as the innermost function once more. -/
theorem definition_permanent_running :
    let d : Declaration Bool := .ofName "f"
    let d₁ : Declaration Bool := { d with definition? := some false }
    let redefines (_ : Bool) (_ : List Value) : Procedure Bool (Option Value) :=
      (Procedure.ask (.define d₁ false)).bind fun _ => .done none
    ∃ s : Store Bool, Reaches ⟨.call redefines d [], [], after [.define d true]⟩
        ⟨redefines true [], ["f"], s⟩ ∧ s.calls = ["f"] ∧
      (Action.define d₁ false).exec s = (.error (.invalidFunction "f"), s) ∧
      ∀ eval, (call eval d₁ []).exec s = d.finish ((eval true []).exec { s with calls := ["f", "f"] }) := by
  intro d d₁ redefines
  let ops : List (Operation Bool) := [.define d true]
  let s : Store Bool := { after ops with calls := ["f"] }
  have hdefined : Defined ops [] d true := ⟨List.prefix_rfl, _, rfl⟩
  have hprepare : (d.prepare []).exec (after ops) = (.ok (d.define true, true, []), after ops) := rfl
  have hreaches : Reaches ⟨.call redefines d [], [], after ops⟩ ⟨redefines true [], ["f"], s⟩ :=
    .single (.body rfl hprepare)
  have h := ((definition_permanent ops).1 [] d true hdefined).2 _ _ _ _ hreaches d₁ rfl
  exact ⟨s, hreaches, rfl, h.1 false, (h.2 [] rfl rfl).2 [] s rfl⟩

end Permanence

end Emission

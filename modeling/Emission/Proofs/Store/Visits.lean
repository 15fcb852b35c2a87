import Emission.Proofs.Store.Branches
import Emission.Proofs.Store.Loops
import Emission.Proofs.Store.Procedures

/-!
Watching procedures. Whatever a procedure asks for is noted before it is done, with the functions in whose bodies
control is and the state at that time. The functions are those that have been called and whose bodies have not
ended, which is known from the code and not from the state. To watch a procedure does not change its run, and each
note is of a point that control comes to. So what holds at all these points is seen in the run itself.
-/
namespace Emission

open Emission.Store Emission.Action

variable {Body ι α β : Type}

namespace Watched

/-- A visit of code that does nothing. -/
def note (given : ι) : Watched Body ι Unit := visit (fun _ _ => pure ()) given

theorem exec_tryCatch (x : Watched Body ι α) (h : Failure → Watched Body ι α)
    (t : Store Body × List (Visit Body ι)) :
    (tryCatchThe Failure x h).exec t = match x.exec t with
      | (.ok a, t') => (.ok a, t')
      | (.error e, t') => (h e).exec t' := by
  change exec (ExceptT.tryCatch x h) t = _
  simp only [exec, ExceptT.run, ExceptT.tryCatch, ExceptT.mk, bind, StateT.bind, StateT.run]
  rcases x t with ⟨_ | _, _⟩ <;> rfl

/-- What follows a note starts from the same state. -/
theorem exec_note_bind (given : ι) (x : Watched Body ι α) (s : Store Body)
    (visits : List (Visit Body ι)) :
    (note given >>= fun _ => x).exec (s, visits) = x.exec (s, visits ++ [⟨given, s⟩]) := by
  rw [exec_bind, note, exec_visit]
  rfl

namespace Erases

theorem throw (e : Failure) : Erases (throw e : Watched Body ι α) (throw e) := fun _ _ => rfl

theorem after_note {x : Watched Body ι α} {y : Action Body α} (hx : Erases x y) (given : ι) :
    Erases (note given >>= fun _ => x) y := by
  intro s visits
  rw [exec_note_bind]
  exact hx s (visits ++ [⟨given, s⟩])

theorem tryCatch {x : Watched Body ι α} {y : Action Body α} {h : Failure → Watched Body ι α}
    {k : Failure → Action Body α} (hx : Erases x y) (hh : ∀ e, Erases (h e) (k e)) :
    Erases (tryCatchThe Failure x h) (tryCatchThe Failure y k) := by
  intro s visits
  rw [Action.exec_tryCatch, exec_tryCatch, hx s visits]
  rcases x.exec (s, visits) with ⟨e | a, s', visits'⟩
  · exact hh e s' visits'
  · rfl

theorem runWithin {body : Watched Body ι (Option Value)} {body' : Action Body (Option Value)}
    (hbody : Erases body body') (name : String) :
    Erases (runWithin (ε := Failure) Watched.lift name body)
      (runWithin (ε := Failure) (fun x => x) name body') := by
  unfold Emission.runWithin
  refine .bind (.lift _) fun _ => .bind (.tryCatch hbody fun e => ?_) fun result? => ?_
  · exact .bind (.lift _) fun _ => .throw e
  · exact .bind (.lift _) fun _ => .pure result?

theorem call {d : Declaration Body} {eval : Body → List Value → Watched Body ι (Option Value)}
    {eval' : Body → List Value → Action Body (Option Value)}
    (heval : ∀ body vs, Erases (eval body vs) (eval' body vs)) (args : List Value) :
    Erases (d.call (ε := Failure) Watched.lift eval args) (Action.call eval' d args) := by
  unfold Action.call Declaration.call
  refine .bind (.lift _) fun _ => ?_
  cases d.intrinsic? with
  | some f =>
    simp only [← bind_pure_comp]
    exact .bind (.lift _) fun v => .pure (some v)
  | none =>
    unfold invoke
    refine .bind (.lift _) fun (d', body) => .bind (.lift _) fun vs => ?_
    exact .bind (.runWithin (heval body vs) d'.name) fun _ => .lift _

end Erases

/-- Each visit that is made from the state on has the property. -/
def Notes (s : Store Body) (x : Watched Body ι α) (P : Visit Body ι → Prop) : Prop :=
  ∀ past, ∃ made, (x.exec (s, past)).2.2 = past ++ made ∧ ∀ v ∈ made, P v

namespace Notes

variable {s : Store Body} {P : Visit Body ι → Prop}

theorem silent {x : Watched Body ι α} (hx : ∀ past, (x.exec (s, past)).2.2 = past) : Notes s x P :=
  fun past => ⟨[], (hx past).trans (List.append_nil past).symm, fun _ hv => nomatch hv⟩

theorem pure (a : α) : Notes s (pure a : Watched Body ι α) P := silent fun _ => rfl

theorem throw (e : Failure) : Notes s (throw e : Watched Body ι α) P := silent fun _ => rfl

theorem lift (x : Action Body α) : Notes s (Watched.lift x : Watched Body ι α) P := silent fun _ => rfl

theorem imp {x : Watched Body ι α} {Q : Visit Body ι → Prop} (h : Notes s x P) (hPQ : ∀ v, P v → Q v) :
    Notes s x Q := by
  intro past
  obtain ⟨made, hmade, hall⟩ := h past
  exact ⟨made, hmade, fun v hv => hPQ v (hall v hv)⟩

/-- A run goes on after visits that have the property. -/
theorem extend {x : Watched Body ι α} (hx : Notes s x P) {made : List (Visit Body ι)}
    (hall : ∀ v ∈ made, P v) (past : List (Visit Body ι)) :
    ∃ more, (x.exec (s, past ++ made)).2.2 = past ++ more ∧ ∀ v ∈ more, P v := by
  obtain ⟨more, hmore, hall'⟩ := hx (past ++ made)
  refine ⟨made ++ more, hmore.trans (List.append_assoc past made more), fun v hv => ?_⟩
  exact (List.mem_append.mp hv).elim (hall v) (hall' v)

theorem after_note {given : ι} {x : Watched Body ι α} (hgiven : P ⟨given, s⟩) (hx : Notes s x P) :
    Notes s (note given >>= fun _ => x) P := by
  intro past
  rw [exec_note_bind]
  exact hx.extend (List.forall_mem_singleton.mpr hgiven) past

theorem bind {x : Watched Body ι α} {y : Action Body α} {f : α → Watched Body ι β}
    (herases : Erases x y) (hx : Notes s x P)
    (hf : ∀ a s', y.exec s = (.ok a, s') → Notes s' (f a) P) : Notes s (x >>= f) P := by
  intro past
  obtain ⟨made, hmade, hall⟩ := hx past
  have hexec := herases s past
  rw [exec_bind]
  rcases hrun : x.exec (s, past) with ⟨e | a, s', visits⟩
  · rw [hrun] at hmade
    exact ⟨made, hmade, hall⟩
  · rw [hrun] at hmade hexec
    obtain rfl : visits = past ++ made := hmade
    exact (hf a s' hexec).extend hall past

theorem tryCatch {x : Watched Body ι α} {y : Action Body α} {h : Failure → Watched Body ι α}
    (herases : Erases x y) (hx : Notes s x P)
    (hh : ∀ e s', y.exec s = (.error e, s') → Notes s' (h e) P) :
    Notes s (tryCatchThe Failure x h) P := by
  intro past
  obtain ⟨made, hmade, hall⟩ := hx past
  have hexec := herases s past
  rw [exec_tryCatch]
  rcases hrun : x.exec (s, past) with ⟨e | a, s', visits⟩
  · rw [hrun] at hmade hexec
    obtain rfl : visits = past ++ made := hmade
    exact (hh e s' hexec).extend hall past
  · rw [hrun] at hmade
    exact ⟨made, hmade, hall⟩

/-- A branch is entered in the state in which its test passes. -/
theorem elseIf {chain : Chain} {test : Scalar} {branch : Watched Body ι Unit} {branch' : Action Body Unit}
    (herases : Erases branch branch')
    (hbranch : chain.taken = false → Command.Passes s test → Notes s branch P) :
    Notes s (chain.elseIf Watched.lift test branch) P := by
  unfold Chain.elseIf
  refine .bind (.lift _) (.lift _) fun u s₁ hcheck => ?_
  rw [Action.exec_lift] at hcheck
  obtain ⟨hchecked, rfl⟩ := Prod.mk.inj hcheck
  split
  · exact .pure chain
  · next htaken =>
    refine .bind (.lift _) (.lift _) fun taken s₂ hread => ?_
    rw [readTest, exec_reading] at hread
    obtain ⟨hanswer, rfl⟩ := Prod.mk.inj hread
    obtain ⟨d, hd, htest⟩ := bind_eq_ok_iff.mp hanswer
    split
    · next hpasses =>
      have hpasses : Command.Passes s test :=
        ⟨hchecked, d, hd, (Except.ok.inj htest).trans hpasses⟩
      exact .bind herases (hbranch (Bool.eq_false_iff.mpr htaken) hpasses) fun _ _ _ => .pure _
    · exact .pure _

/-- A round is run from the state to which the earlier ones and the making of its indexes have led. -/
theorem forEach {l : Layout} {round : List Scalar → Watched Body ι Unit}
    {round' : List Scalar → Action Body Unit} (herases : ∀ as, Erases (round as) (round' as))
    (hround : l.numElements ≠ 0 → ∀ past c s₁ as s₂, past ++ [c] <+: l.coordinates →
      (rounds round' past).exec s = (.ok (), s₁) → (indexScalars c).exec s₁ = (.ok as, s₂) →
      Notes s₂ (round as) P) :
    Notes s (Emission.forEach Watched.lift l round) P := by
  have hstep : ∀ c, Erases (Watched.lift (indexScalars c) >>= round) (indexScalars c >>= round') :=
    fun c => .bind (.lift _) herases
  unfold Emission.forEach
  split
  · exact .pure ()
  · next hl =>
    rw [Layout.foldCoordinatesM_eq]
    have hrounds : ∀ cs, cs <+: l.coordinates →
        Notes s (cs.foldlM (fun _ c => Watched.lift (indexScalars c) >>= round) ()) P := by
      intro cs hcs
      induction cs using List.reverseRecOn with
      | nil => exact .pure ()
      | append_singleton cs c ih =>
        rw [List.foldlM_append]
        refine .bind (.foldlM (fun _ c => hstep c) cs ()) (ih ((List.prefix_append cs [c]).trans hcs))
          fun u s₁ hpast => ?_
        rw [List.foldlM_cons]
        refine .bind (hstep c) ?_ fun _ _ _ => .pure _
        exact .bind (.lift _) (.lift _) fun as s₂ hindex => hround hl cs c s₁ as s₂ hcs hpast hindex
    exact hrounds l.coordinates List.prefix_rfl

/-- A body is run with its function on top of the running ones. -/
theorem runWithin {body : Watched Body ι (Option Value)} {body' : Action Body (Option Value)}
    {name : String} (herases : Erases body body')
    (hbody : Notes { s with calls := name :: s.calls } body P) :
    Notes s (Emission.runWithin (ε := Failure) Watched.lift name body) P := by
  unfold Emission.runWithin
  refine .bind (.lift _) (.lift _) fun _ s₁ henter => ?_
  obtain rfl : { s with calls := name :: s.calls } = s₁ := (Prod.mk.inj henter).2
  refine .bind (.tryCatch herases fun e => .bind (.lift _) fun _ => .throw e) ?_ fun result? _ _ => ?_
  · refine .tryCatch herases hbody fun e _ _ => ?_
    exact .bind (.lift _) (.lift _) fun _ _ _ => .throw e
  · exact .bind (.lift _) (.lift _) fun _ _ _ => .pure result?

/-- A body starts when its arguments have been bound. -/
theorem call {d : Declaration Body} {eval : Body → List Value → Watched Body ι (Option Value)}
    {eval' : Body → List Value → Action Body (Option Value)}
    (heval : ∀ body vs, Erases (eval body vs) (eval' body vs)) (args : List Value)
    (hbody : d.intrinsic? = none → ∀ d' body vs s', (d.prepare args).exec s = (.ok (d', body, vs), s') →
      Notes { s' with calls := d'.name :: s'.calls } (eval body vs) P) :
    Notes s (d.call (ε := Failure) Watched.lift eval args) P := by
  unfold Declaration.call
  refine .bind (.lift _) (.lift _) fun u s₁ hcheck => ?_
  rw [Action.exec_lift] at hcheck
  obtain ⟨hchecked, rfl⟩ := Prod.mk.inj hcheck
  cases hd : d.intrinsic? with
  | some f =>
    simp only [← bind_pure_comp]
    exact .bind (.lift _) (.lift _) fun v _ _ => .pure (some v)
  | none =>
    unfold invoke
    refine .bind (.lift _) (.lift _) fun (d', body) s₁ hdefinition => ?_
    rw [exec_reading] at hdefinition
    obtain ⟨hregistered, rfl⟩ := Prod.mk.inj hdefinition
    refine .bind (.lift _) (.lift _) fun vs s' hbind => ?_
    have hprepare : (d.prepare args).exec s = (.ok (d', body, vs), s') := by
      rw [exec_prepare hchecked hregistered, hbind]
    refine .bind (.runWithin (heval body vs) d'.name) ?_ fun _ _ _ => .lift _
    exact .runWithin (heval body vs) (hbody hd d' body vs s' hprepare)

end Notes

end Watched

namespace Command

/-- A command run with code that is watched. The bodies of functions are told the name by which they are
called. -/
def watch (round : List Scalar → Watched Body ι Unit) (branch : Watched Body ι Unit)
    (function : String → Body → List Value → Watched Body ι (Option Value)) :
    {α : Type} → Command Body α → Watched Body ι α
  | _, loop l => forEach .lift l round
  | _, begin test => Chain.begin .lift test branch
  | _, elseIf chain test => chain.elseIf .lift test branch
  | _, otherwise chain => chain.otherwise branch
  | _, call d args => d.call (ε := Failure) .lift (function d.name) args
  | _, c => .lift (c.run .idle)

open Watched

theorem erases_watch {round : List Scalar → Watched Body ι Unit} {branch : Watched Body ι Unit}
    {function : String → Body → List Value → Watched Body ι (Option Value)} {code : Supplied Body}
    (hround : ∀ as, Erases (round as) (code.round as)) (hbranch : Erases branch code.branch)
    (hfunction : ∀ name body vs, Erases (function name body vs) (code.function body vs))
    (c : Command Body α) : Erases (c.watch round branch function) (c.run code) := by
  cases c with
  | loop l => exact erases_forEach l hround
  | begin test =>
    show Erases (Chain.begin Watched.lift test branch) (Chain.begin (fun x => x) test code.branch)
    rw [begin_eq_elseIf, begin_eq_elseIf]
    exact erases_elseIf ⟨false⟩ test hbranch
  | elseIf chain test => exact erases_elseIf chain test hbranch
  | otherwise chain =>
    obtain ⟨taken⟩ := chain
    cases taken with
    | true => exact .pure ()
    | false => exact hbranch
  | call d args => exact .call (hfunction d.name) args
  | _ => exact .lift _

end Command

namespace Procedure

open Watched

/-- The run of a procedure in the bodies of some functions, in which all that it asks for is noted first: the
functions in whose bodies control is, the innermost of them first, and the state. -/
def watch : {α : Type} → Procedure Body α → List String → Watched Body (List String) α
  | _, done a, _ => pure a
  | _, fail e, _ => throw e
  | _, bind x f, fs => x.watch fs >>= fun a => (f a).watch fs
  | _, attempt x recover, fs => tryCatchThe Failure (x.watch fs) fun e => (recover e).watch fs
  | _, look f, fs => note fs >>= fun _ => .lift (.reading f)
  | _, request c round branch function, fs => note fs >>= fun _ =>
    c.watch (fun as => (round as).watch fs) (branch.watch fs) fun name body vs =>
      (function body vs).watch (name :: fs)

/-- To watch a procedure does not change its run. -/
theorem erases_watch (p : Procedure Body α) (fs : List String) : Erases (p.watch fs) p.run := by
  induction p generalizing fs with
  | done a => exact .pure a
  | fail e => exact .throw e
  | bind x f ihx ihf => exact .bind (ihx fs) fun a => ihf a fs
  | attempt x recover ihx ihr => exact .tryCatch (ihx fs) fun e => ihr e fs
  | look f => exact .after_note (.lift _) fs
  | request c round branch function ihround ihbranch ihfunction =>
    refine .after_note (Command.erases_watch (fun as => ihround as fs) (ihbranch fs) ?_ c) fs
    exact fun name body vs => ihfunction body vs (name :: fs)

/-- The note is of a point that control comes to. -/
def Seen (a : Point Body) (v : Visit Body (List String)) : Prop :=
  ∃ b, Point.Reaches a b ∧ b.functions = v.given ∧ b.state = v.state

theorem Seen.enter {a b : Point Body} {v : Visit Body (List String)} (hb : Seen b v)
    (h : Point.Enters a b) : Seen a v := by
  obtain ⟨b', hreaches, hv⟩ := hb
  exact ⟨b', .head h hreaches, hv⟩

/-- Whatever is noted in a run is noted at a point that control comes to. -/
theorem seen_of_watch (p : Procedure Body α) (fs : List String) (s : Store Body) :
    Notes s (p.watch fs) (Seen ⟨p, fs, s⟩) := by
  induction p generalizing fs s with
  | done a => exact .pure a
  | fail e => exact .throw e
  | bind x f ihx ihf =>
    refine .bind (x.erases_watch fs) ((ihx fs s).imp fun v hv => hv.enter .first) fun a s' hexec => ?_
    exact (ihf a fs s').imp fun v hv => hv.enter (.next hexec)
  | attempt x recover ihx ihr =>
    refine .tryCatch (x.erases_watch fs) ((ihx fs s).imp fun v hv => hv.enter .tried) fun e s' hexec => ?_
    exact (ihr e fs s').imp fun v hv => hv.enter (.recovered hexec)
  | look f => exact .after_note ⟨_, .refl, rfl, rfl⟩ (.lift _)
  | request c round branch function ihround ihbranch ihfunction =>
    refine .after_note ⟨_, .refl, rfl, rfl⟩ ?_
    have hbranch : c.TakesBranch s →
        Notes s (branch.watch fs) (Seen ⟨.request c round branch function, fs, s⟩) :=
      fun htakes => (ihbranch fs s).imp fun v hv => hv.enter (.branch htakes)
    cases c with
    | loop l =>
      refine .forEach (fun as => (round as).erases_watch fs) fun hl past c s₁ as s₂ hpast hexec hindex => ?_
      exact (ihround as fs s₂).imp fun v hv => hv.enter (.round hl hpast hexec hindex)
    | begin test =>
      show Notes s (Chain.begin Watched.lift test (branch.watch fs)) _
      rw [begin_eq_elseIf]
      exact .elseIf (branch.erases_watch fs) fun _ hpasses => hbranch hpasses
    | elseIf chain test =>
      exact .elseIf (branch.erases_watch fs) fun htaken hpasses => hbranch ⟨htaken, hpasses⟩
    | otherwise chain =>
      obtain ⟨taken⟩ := chain
      cases taken with
      | true => exact .pure ()
      | false => exact hbranch rfl
    | call d args =>
      refine .call (fun body vs => (function body vs).erases_watch (d.name :: fs)) args
        fun hd d' body vs s' hprepare => ?_
      exact (ihfunction body vs (d.name :: fs) _).imp fun v hv => hv.enter (.body hd hprepare)
    | _ => exact .lift _

end Procedure

end Emission

import Emission.Proofs.Store.Definitions
import Emission.Proofs.Store.Visits

/-!
Which function is running. A call puts its function on top of the running ones for as long as the body runs, and
whatever the body does, the running functions are afterwards the ones from before. So wherever control comes to
in the course of a call, the running functions are those in whose bodies it is, and storage of function scope that
is asked for there belongs to the innermost one. This is seen in the run itself: at each state that is noted when
the call is watched, the running functions are those that the note names.
-/
namespace Emission

open Emission.Action

variable {Body α : Type}

namespace Store

variable {s s' s'' : Store Body}

/-- The running functions are the ones from before, and the registered ones are under their names. -/
structure Balances (s s' : Store Body) : Prop where
  calls : s'.calls = s.calls
  filed : s.Filed → s'.Filed

namespace Balances

theorem refl (s : Store Body) : s.Balances s := ⟨rfl, id⟩

theorem trans (h : s.Balances s') (h' : s'.Balances s'') : s.Balances s'' :=
  ⟨h'.calls.trans h.calls, fun hs => h'.filed (h.filed hs)⟩

instance : Std.Refl (@Balances Body) := ⟨refl⟩

instance : IsTrans (Store Body) Balances := ⟨fun _ _ _ => trans⟩

end Balances

theorem Retains.balances (h : s.Retains s') : s.Balances s' := by
  obtain ⟨bs, hs, rfl⟩ := h
  exact ⟨rfl, id⟩

theorem frames_balances : Frames (@Balances Body) where
  grown h := by
    rcases h with hs | ⟨r, k, -, -, rfl⟩ | ⟨d, body, -, -, rfl⟩
    · exact hs.toRetains.balances
    · exact ⟨rfl, id⟩
    · exact ⟨rfl, fun hs => List.forall_mem_cons.mpr ⟨rfl, hs⟩⟩
  within name _ _ h := ⟨by rw [h.calls, List.tail_cons], h.filed⟩

end Store

open Store

/-- The code leaves the running functions as it has found them, however it ends. -/
theorem Procedure.balances (p : Procedure Body α) : Obeys Balances p.run :=
  frames_balances.obeys (fun v w s => (retains_copy v w s).balances) p

namespace Point

/-- The functions in whose bodies control is are the running ones. -/
structure Tracked (a : Point Body) : Prop where
  calls : a.state.calls = a.functions
  filed : a.state.Filed

variable {a b : Point Body}

theorem Tracked.enter (ha : Tracked a) (h : Enters a b) : Tracked b := by
  rcases frames_balances.enter (fun v w s => (retains_copy v w s).balances) h with
    ⟨hfunctions, hs⟩ | ⟨name, d, body, s, hdefinition, hs, hfunctions, hstate⟩
  · exact ⟨(hs.calls.trans ha.calls).trans hfunctions.symm, hs.filed ha.filed⟩
  · refine ⟨?_, ?_⟩
    · rw [hstate, hfunctions, ← ha.calls, ← hs.calls, ← ha.filed.name_eq hdefinition]
    · rw [hstate]
      exact hs.filed ha.filed

theorem Tracked.reach (ha : Tracked a) (h : Reaches a b) : Tracked b := by
  induction h with
  | refl => exact ha
  | tail _ hstep ih => exact ih.enter hstep

end Point

open Point

namespace Procedure

/-- A call leaves the running functions as it has found them, whatever the body does and however it ends, also if
it fails before any body is run. If it comes so far, the body is run with the function of the call on top of them,
and the call ends as that does. Wherever control comes to in its course, the running functions are those in whose
bodies it is, and they are so again when what is run there has ended. Whenever the watched call asks for something,
in a run with the same end, the functions whose bodies have been entered and not left are the running ones, and the
innermost one owns what is asked for by name. -/
theorem call_tracks_functions {s : Store Body} (hs : s.Filed)
    (function : Body → List Value → Procedure Body (Option Value)) {d : Declaration Body}
    (hd : d.intrinsic? = none) (args : List Value) :
    ((call function d args).run.exec s).2.calls = s.calls ∧
    (∀ e s', (d.prepare args).exec s = (.error e, s') →
      (call function d args).run.exec s = (.error e, s') ∧ s'.calls = s.calls) ∧
    (∀ d' body vs s', (d.prepare args).exec s = (.ok (d', body, vs), s') →
      (call function d args).run.exec s =
        d'.finish ((function body vs).run.exec { s' with calls := d.name :: s.calls })) ∧
    (∀ b, Reaches ⟨call function d args, s.calls, s⟩ b →
      b.state.calls = b.functions ∧ (b.code.run.exec b.state).2.calls = b.functions) ∧
    ∃ visits, ((call function d args).watch s.calls).exec (s, []) =
        (((call function d args).run.exec s).1, ((call function d args).run.exec s).2, visits) ∧
      ∀ v ∈ visits, v.state.calls = v.given ∧
        ∀ f fs, v.given = f :: fs → ∀ r : Request, r.scope = .function →
          r.key v.state = ⟨.function, f ++ "." ++ r.name⟩ := by
  have hcall : (call function d args).run.exec s =
    (Action.call (fun body vs => (function body vs).run) d args).exec s := rfl
  have htracked : ∀ b, Reaches ⟨call function d args, s.calls, s⟩ b → Tracked b :=
    fun b hb => Tracked.reach ⟨rfl, hs⟩ hb
  refine ⟨((call function d args).balances s).calls, fun e s' hprepare => ⟨?_, ?_⟩,
    fun d' body vs s' hprepare => ?_, fun b hb => ⟨(htracked b hb).calls, ?_⟩, ?_⟩
  · rw [hcall, exec_call _ hd, hprepare]
  · have hgrows := adds_prepare d args s
    rw [hprepare] at hgrows
    exact hgrows.toRetains.balances.calls
  · have hgrows := adds_prepare d args s
    rw [hprepare] at hgrows
    have hcalls : s'.calls = s.calls := hgrows.toRetains.balances.calls
    have hname : d'.name = d.name := hs.name_eq (passed_of_prepare hd hprepare).1
    rw [hcall, exec_call _ hd, hprepare, ← hname, ← hcalls]
  · exact (b.code.balances b.state).calls.trans (htracked b hb).calls
  · obtain ⟨visits, hvisits, hseen⟩ := seen_of_watch (call function d args) s.calls s []
    refine ⟨visits, ?_, fun v hv => ?_⟩
    · rw [erases_watch (call function d args) s.calls s []]
      exact Prod.ext rfl (Prod.ext rfl hvisits)
    · obtain ⟨b, hb, hfunctions, hstate⟩ := hseen v hv
      have hcalls : v.state.calls = v.given := by
        rw [← hstate, ← hfunctions]
        exact (htracked b hb).calls
      refine ⟨hcalls, fun f fs hf r hr => ?_⟩
      unfold Request.key Store.key
      rw [hr, hcalls, hf]
      rfl

/-- A truth value of its own for the running function. -/
def flag : Request := ⟨.function, "n", .plain .boolean, .scalar⟩

/-- The body of a function that asks for its flag and fails. -/
def fails : Bool → List Value → Procedure Bool (Option Value) :=
  fun _ _ => (ask (.allocateNamed flag)).bind fun _ => fail (.invalidFunction "")

/-- The body of a function that calls the other one, goes on although that fails and asks for its own flag. -/
def tolerates : Bool → List Value → Procedure Bool (Option Value) :=
  fun _ _ => (attempt (call fails (.ofName "g") []) fun _ => done none).bind fun _ =>
    (ask (.allocateNamed flag)).bind fun v => done (some v)

/-- Control comes into the body of the one function, from there into that of the other and, as this fails, back.
Each has got a flag of its own. -/
theorem call_tracks_functions_tolerated :
    let f : Declaration Bool := .ofName "f"
    let s : Store Bool := after [.define f true, .define (.ofName "g") false]
    let s' := ((call tolerates f []).run.exec s).2
    s.Filed ∧ s'.calls = [] ∧ s'.names.map (·.1.text) = ["f.n", "g.n"] ∧
      ∃ out visits, ((call tolerates f []).watch []).exec (s, []) = (out, s', visits) ∧
        visits.map Visit.given = [[], ["f"], ["g", "f"], ["f"]] ∧
        ∀ v ∈ visits, v.state.calls = v.given := by
  intro f s s'
  have hs : s.Filed := filed_after _
  obtain ⟨hcalls, -, -, -, visits, hwatch, hvisits⟩ := call_tracks_functions hs tolerates (d := f) rfl []
  have hgiven : (((call tolerates f []).watch []).exec (s, [])).2.2.map Visit.given =
    [[], ["f"], ["g", "f"], ["f"]] := rfl
  rw [show s.calls = [] from rfl] at hwatch
  rw [hwatch] at hgiven
  exact ⟨hs, hcalls, rfl, _, visits, hwatch, hgiven, fun v hv => (hvisits v hv).1⟩

end Procedure

end Emission

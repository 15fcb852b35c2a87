import Emission.Value
import Mathlib.Tactic.Choose

/-!
Requests that can fail, opened at their binds; properties of failures, carried over from the parts of a request
to the whole of it; and what values are asked for.
-/
namespace Emission

variable {α β : Type}

@[simp] theorem ok_bind (a : α) (f : α → Except Failure β) : (Except.ok a >>= f) = f a := rfl

@[simp] theorem error_bind (e : Failure) (f : α → Except Failure β) :
    (Except.error e >>= f) = .error e := rfl

@[simp] theorem throw_eq_error (e : Failure) : (throw e : Except Failure α) = .error e := rfl

@[simp] theorem pure_eq_ok (a : α) : (pure a : Except Failure α) = .ok a := rfl

theorem bind_eq_ok_iff {x : Except Failure α} {f : α → Except Failure β} {b : β} :
    (x >>= f) = .ok b ↔ ∃ a, x = .ok a ∧ f a = .ok b := by
  cases x with
  | error e => simp
  | ok a => simp

/-- A check that is made first. -/
theorem guard_eq_ok_iff {c : Prop} [Decidable c] {e : Failure} {f : β → Except Failure α}
    {x : Except Failure α} {a : α} :
    (if c then MonadExcept.throw e >>= f else x) = .ok a ↔ ¬ c ∧ x = .ok a := by
  split
  · next hc => exact iff_of_false nofun fun h => h.1 hc
  · next hc => exact (and_iff_right hc).symm

theorem forM_eq_ok_iff {f : α → Except Failure Unit} {as : List α} :
    as.forM f = .ok () ↔ ∀ a ∈ as, f a = .ok () := by
  rw [List.forM_eq_forM]
  induction as with
  | nil => simp
  | cons a as ih =>
    rw [List.forM_cons, bind_eq_ok_iff, List.forall_mem_cons]
    constructor
    · rintro ⟨_, ha, has⟩
      exact ⟨ha, ih.mp has⟩
    · rintro ⟨ha, has⟩
      exact ⟨(), ha, ih.mpr has⟩

theorem length_of_mapM_eq_ok {f : α → Except Failure β} {as : List α} {bs : List β}
    (h : as.mapM f = .ok bs) : bs.length = as.length := by
  induction as generalizing bs with
  | nil =>
    obtain rfl : [] = bs := Except.ok.inj h
    rfl
  | cons a as ih =>
    rw [List.mapM_cons] at h
    obtain ⟨b, -, h⟩ := bind_eq_ok_iff.mp h
    obtain ⟨bs', hbs, h⟩ := bind_eq_ok_iff.mp h
    obtain rfl := Except.ok.inj h
    rw [List.length_cons, List.length_cons, ih hbs]

/-- A list of requests that all succeed gives all their answers. -/
theorem mapM_eq_ok {f : α → Except Failure β} {g : α → β} {as : List α}
    (h : ∀ a ∈ as, f a = .ok (g a)) : as.mapM f = .ok (as.map g) := by
  induction as with
  | nil => rfl
  | cons a as ih =>
    obtain ⟨ha, h⟩ := List.forall_mem_cons.mp h
    rw [List.mapM_cons, ha, ih h]
    rfl

/-- When all requests of a list succeed, each has an answer. -/
theorem exists_map_of_mapM_eq_ok [Nonempty β] {f : α → Except Failure β} {as : List α} {bs : List β}
    (h : as.mapM f = .ok bs) : ∃ g : α → β, (∀ a ∈ as, f a = .ok (g a)) ∧ bs = as.map g := by
  have hall : ∀ a ∈ as, ∃ b, f a = .ok b := by
    induction as generalizing bs with
    | nil => simp
    | cons a as ih =>
      rw [List.mapM_cons] at h
      obtain ⟨b, hb, h⟩ := bind_eq_ok_iff.mp h
      obtain ⟨bs', hbs, -⟩ := bind_eq_ok_iff.mp h
      exact List.forall_mem_cons.mpr ⟨⟨b, hb⟩, ih hbs⟩
  choose! g hg using hall
  exact ⟨g, hg, Except.ok.inj (h.symm.trans (mapM_eq_ok hg))⟩

/-- A list of requests that can fail in one way only fails in that way when one of them does. -/
theorem mapM_eq_error {f : α → Except Failure β} {e : Failure} {as : List α}
    (h : ∀ a ∈ as, f a = .error e ∨ ∃ b, f a = .ok b) (he : ∃ a ∈ as, f a = .error e) :
    as.mapM f = .error e := by
  induction as with
  | nil => simp at he
  | cons a as ih =>
    obtain ⟨ha, h⟩ := List.forall_mem_cons.mp h
    rw [List.mapM_cons]
    rcases ha with ha | ⟨b, ha⟩
    · rw [ha]
      rfl
    · have hrest : ∃ a ∈ as, f a = .error e := by
        obtain ⟨a', hmem, ha'⟩ := he
        rcases List.mem_cons.mp hmem with rfl | hmem
        · rw [ha] at ha'
          cases ha'
        · exact ⟨a', hmem, ha'⟩
      rw [ha, ih h hrest]
      rfl

/-- Where the request fails, its failure has the property. -/
def FailsBy (P : Failure → Prop) (x : Except Failure α) : Prop := ∀ e, x = .error e → P e

namespace FailsBy

variable {P Q : Failure → Prop}

theorem ok (a : α) : FailsBy P (.ok a) := fun _ h => nomatch h

theorem error {e : Failure} (h : P e) : FailsBy P (.error e : Except Failure α) := by
  intro e' he
  obtain rfl := Except.error.inj he
  exact h

theorem imp {x : Except Failure α} (hx : FailsBy P x) (h : ∀ e, P e → Q e) : FailsBy Q x :=
  fun e he => h e (hx e he)

theorem bind {x : Except Failure α} {f : α → Except Failure β} (hx : FailsBy P x)
    (hf : ∀ a, x = .ok a → FailsBy P (f a)) : FailsBy P (x >>= f) := by
  cases x with
  | error e => exact error (hx e rfl)
  | ok a => exact hf a rfl

/-- A check that is made first. -/
theorem guard {c : Prop} [Decidable c] {e : Failure} {f : β → Except Failure α}
    {x : Except Failure α} (he : c → P e) (hx : ¬ c → FailsBy P x) :
    FailsBy P (if c then throw e >>= f else x) := by
  split
  · next hc => exact error (he hc)
  · next hc => exact hx hc

theorem forM {f : α → Except Failure Unit} {as : List α} (hf : ∀ a ∈ as, FailsBy P (f a)) :
    FailsBy P (as.forM f) := by
  rw [List.forM_eq_forM]
  induction as with
  | nil => exact ok ()
  | cons a as ih =>
    obtain ⟨ha, hf⟩ := List.forall_mem_cons.mp hf
    rw [List.forM_cons]
    exact ha.bind fun _ _ => ih hf

theorem foldlM {f : β → α → Except Failure β} (hf : ∀ b a, FailsBy P (f b a)) (as : List α) (b : β) :
    FailsBy P (as.foldlM f b) := by
  induction as generalizing b with
  | nil => exact ok b
  | cons a as ih =>
    rw [List.foldlM_cons]
    exact (hf b a).bind fun b' _ => ih b'

/-- A request without an answer has failed. -/
theorem exists_error {x : Except Failure α} (hx : FailsBy P x) (h : ¬ ∃ a, x = .ok a) :
    ∃ e, x = .error e ∧ P e := by
  cases x with
  | error e => exact ⟨e, rfl, hx e rfl⟩
  | ok a => exact absurd ⟨a, rfl⟩ h

end FailsBy

theorem Value.layout_eq_ok_iff {v : Value} {l : Layout} : v.layout = .ok l ↔ v.layout? = some l := by
  unfold layout
  cases v.layout? <;> simp

theorem Value.handle_eq_ok_iff {v : Value} {h : Handle} : v.handle = .ok h ↔ v.handle? = some h := by
  unfold handle
  cases v.handle? <;> simp

/-- A value of rank 0 is the scalar of it. -/
theorem Scalar.ofValue_eq {v : Value} (h : v.rank? = some 0) : Scalar.ofValue v = .ok ⟨v, h⟩ := by
  unfold Scalar.ofValue
  split
  · next hnone => cases hnone.symm.trans h
  · rfl
  · next hsucc => cases hsucc.symm.trans h

end Emission

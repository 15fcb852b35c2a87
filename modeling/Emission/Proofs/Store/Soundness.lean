import Emission.Proofs.Store.Tabulation
import Emission.Store.Allocate

/-!
Sound states and how they are kept. In a sound state each slot is a position in a buffer, each named
value is backed, and every buffer is in memory. A state is advanced by new buffers, by new slots within
buffers, by names of backed values and by other elements in old buffers. A backed value stays backed
whatever the advance.
-/
namespace Emission

theorem mem_of_lookup {κ ν : Type} [BEq κ] [LawfulBEq κ] {entries : List (κ × ν)} {k : κ} {x : ν}
    (h : entries.lookup k = some x) : (k, x) ∈ entries := by
  obtain ⟨before, after, hsplit, -⟩ := List.lookup_eq_some_iff.mp h
  rw [hsplit]
  exact List.mem_append_right before List.mem_cons_self

variable {Body : Type}

namespace Store

/-- The slot is the start of a buffer or a cell of it. -/
def Inside (s : Store Body) (x : Slot) : Prop :=
  ∃ a, s.buffers[x.buffer]? = some a ∧ (x.start = 0 ∨ x.start < a.size)

structure Sound (s : Store Body) : Prop where
  slots : ∀ (i : Nat) (x : Slot), s.slots[i]? = some x → s.Inside x
  names : ∀ e ∈ s.names, s.Backed e.2
  fits : ∀ (i : Nat) (a : Data), s.buffers[i]? = some a → a.size < cellLimit

/-- How operations change the state. They define no functions. -/
structure Advances (s s' : Store Body) : Prop where
  extension : s.Extends s'
  sound : s.Sound → s'.Sound
  functions : s'.functions = s.functions

variable {s s' s'' : Store Body}

namespace Advances

theorem refl (s : Store Body) : s.Advances s := ⟨.refl s, id, rfl⟩

theorem trans (h : s.Advances s') (h' : s'.Advances s'') : s.Advances s'' :=
  ⟨h.extension.trans h'.extension, fun hs => h'.sound (h.sound hs),
    h'.functions.trans h.functions⟩

instance : Std.Refl (@Advances Body) := ⟨refl⟩

instance : IsTrans (Store Body) Advances := ⟨fun _ _ _ => trans⟩

end Advances

theorem Inside.mono {x : Slot} (hx : s.Inside x) (h : s.Extends s') : s'.Inside x := by
  obtain ⟨a, ha, hstart⟩ := hx
  obtain ⟨a', ha', -, hsize⟩ := h.buffers x.buffer a ha
  exact ⟨a', ha', by rwa [hsize]⟩

theorem sound_empty : (empty : Store Body).Sound where
  slots := by simp [empty]
  names := by simp [empty]
  fits := by simp [empty]

/-- An extension in which new slots are within buffers and new names are those of backed values. -/
theorem Extends.advances (h : s.Extends s')
    (hslots : ∀ (i : Nat) (x : Slot), s'.slots[i]? = some x → s.slots[i]? = some x ∨ s'.Inside x)
    (hnames : ∀ e ∈ s'.names, e ∈ s.names ∨ s.Backed e.2)
    (hfits : s.Sound → ∀ (i : Nat) (a : Data), s'.buffers[i]? = some a → a.size < cellLimit)
    (hfunctions : s'.functions = s.functions) : s.Advances s' where
  extension := h
  sound hs := {
    slots := fun i x hx => (hslots i x hx).elim (fun hx => (hs.slots i x hx).mono h) id
    names := fun e he => ((hnames e he).elim (hs.names e) id).mono h
    fits := hfits hs }
  functions := hfunctions

theorem advances_pushBuffer {a : Data} (ha : a.size < cellLimit) :
    s.Advances { s with buffers := s.buffers.push a } := by
  refine (s.grows_pushBuffer a).toExtends.advances (fun _ _ hx => Or.inl hx)
    (fun _ he => Or.inl he) (fun hs i b hb => ?_) rfl
  rw [Array.getElem?_push] at hb
  split at hb
  · obtain rfl := Option.some.inj hb
    exact ha
  · exact hs.fits i b hb

theorem advances_pushSlot {x : Slot} (hx : s.Inside x) :
    s.Advances { s with slots := s.slots.push x } := by
  refine (s.grows_pushSlot x).toExtends.advances (fun i y hy => ?_) (fun _ he => Or.inl he)
    (fun hs => hs.fits) rfl
  rw [Array.getElem?_push] at hy
  split at hy
  · obtain rfl := Option.some.inj hy
    exact Or.inr hx
  · exact Or.inl hy

theorem advances_withBuffer {a : Data} (ha : a.size < cellLimit) :
    s.Advances (s.withBuffer a) :=
  (advances_pushBuffer ha).trans
    (advances_pushSlot (x := ⟨s.buffers.size, 0⟩) ⟨a, Array.getElem?_push_size, Or.inl rfl⟩)

theorem advances_withCell (buffer i : Nat) (d : Datum) : s.Advances (s.withCell buffer i d) := by
  refine (s.extends_withCell buffer i d).advances (fun _ _ hx => Or.inl hx)
    (fun _ he => Or.inl he) (fun hs j b hb => ?_) rfl
  rw [withCell, Array.getElem?_modify] at hb
  split at hb
  · obtain ⟨a, ha, rfl⟩ := Option.map_eq_some_iff.mp hb
    rw [Data.size_set]
    exact hs.fits j a ha
  · exact hs.fits j b hb

theorem advances_name (key : Key) {v : Value} (hv : s.Backed v) :
    s.Advances { s with names := (key, v) :: s.names } := by
  have h : s.Extends { s with names := (key, v) :: s.names } :=
    ⟨fun _ _ hx => hx, fun _ a ha => ⟨a, ha, rfl, rfl⟩⟩
  refine h.advances (fun _ _ hx => Or.inl hx) (fun e he => ?_) (fun hs => hs.fits) rfl
  rcases List.mem_cons.mp he with rfl | he
  · exact Or.inr hv
  · exact Or.inl he

theorem advances_calls (calls : List String) : s.Advances { s with calls := calls } :=
  Extends.advances ⟨fun _ _ hx => hx, fun _ a ha => ⟨a, ha, rfl, rfl⟩⟩ (fun _ _ hx => Or.inl hx)
    (fun _ he => Or.inl he) (fun hs => hs.fits) rfl

/-- Named storage that is requested again has room for the new layout. -/
theorem Backed.reuse {existing v : Value} {type : ElementType} {l : Layout}
    (hexisting : s.Backed existing) (hl : l.Obtainable) (h : Action.reuse existing type l = .ok v) :
    s.Backed v := by
  obtain ⟨l', slot, data, b⟩ := hexisting
  unfold Action.reuse at h
  split at h
  · cases h
  · rw [b.layout_eq] at h
    simp only [ok_bind] at h
    split at h
    · cases h
    · obtain rfl := Except.ok.inj h
      have hroom := b.room
      exact ⟨l, slot, data, {
        layout := rfl
        obtainable := hl
        handle := b.handle
        cells := b.cells
        base := b.base
        room := by omega
        fits := b.fits }⟩

/-- A scalar made of a backed value is backed. -/
theorem Backed.ofValue {v : Value} {a : Scalar} (hv : s.Backed v) (h : Scalar.ofValue v = .ok a) :
    s.Backed a.value := by
  obtain ⟨l, slot, data, b⟩ := hv
  have hrank : v.rank? = some l.rank := by rw [Value.rank?, b.layout]; rfl
  unfold Scalar.ofValue at h
  split at h
  case h_1 hnone => exact nomatch hnone.symm.trans hrank
  · obtain rfl := Except.ok.inj h
    exact b.toBacked
  · cases h

end Store

namespace Action

open Store

variable {α β γ : Type} {s : Store Body}

/-- The action advances the state, also when it fails, and what it gives has a property. -/
abbrev Keeps (s : Store Body) (x : Action Body α) (P : α → Store Body → Prop) : Prop :=
  Meets Advances s x P fun _ => True

theorem keeps_throw (e : Failure) {P : α → Store Body → Prop} : Keeps s (throw e) P :=
  .of_error (exec_throw s e) (.refl s) trivial

theorem keeps_reading (f : Store Body → Except Failure α) :
    Keeps s (reading f) fun a s' => f s = .ok a ∧ s' = s := by
  have hexec := exec_reading s f
  rcases hf : f s with e | a
  · exact .of_error (hexec.trans (by rw [hf])) (.refl s) trivial
  · exact .of_ok (hexec.trans (by rw [hf])) (.refl s) ⟨rfl, rfl⟩

theorem keeps_lift (x : Except Failure α) :
    Keeps s (liftM x : Action Body α) fun a s' => x = .ok a ∧ s' = s := by
  cases x with
  | ok a => exact .of_ok (exec_lift s _) (.refl s) ⟨rfl, rfl⟩
  | error e => exact .of_error (exec_lift s _) (.refl s) trivial

theorem keeps_modify {f : Store Body → Store Body} (h : s.Advances (f s)) :
    Keeps s (modify f) fun _ s' => s' = f s :=
  .of_ok (exec_modify s f) h rfl

/-- A check that only looks at the state may stand before anything. -/
theorem Keeps.after_lift {x : Except Failure α} {f : α → Action Body β} {P : β → Store Body → Prop}
    (h : ∀ a, x = .ok a → Keeps s (f a) P) : Keeps s (liftM x >>= f) P :=
  (keeps_lift x).bind fun a _ _ ⟨ha, hs⟩ => hs ▸ h a ha

theorem Keeps.after_reading {f : Store Body → Except Failure α} {g : α → Action Body β}
    {P : β → Store Body → Prop} (h : ∀ a, f s = .ok a → Keeps s (g a) P) :
    Keeps s (reading f >>= g) P :=
  (keeps_reading f).bind fun a _ _ ⟨ha, hs⟩ => hs ▸ h a ha

theorem keeps_discard {x : Action Body α} {P : α → Store Body → Prop} (hx : Keeps s x P) :
    Keeps s (discard x) fun _ _ => True := by
  have hexec := exec_discard s x
  rcases hx.cases with ⟨a, s', hx, hs, -⟩ | ⟨e, s', hx, hs, -⟩
  · exact .of_ok (hexec.trans (by rw [hx])) hs trivial
  · exact .of_error (hexec.trans (by rw [hx])) hs trivial

theorem Keeps.after_get {f : Store Body → Action Body β} {P : β → Store Body → Prop}
    (h : Keeps s (f s) P) : Keeps s (get >>= f) P :=
  .step (exec_get s) h

/-- A condition that has to hold may be assumed after it has been tested. -/
theorem Keeps.guard {c : Prop} [Decidable c] {e : Failure} {f : β → Action Body α}
    {x : Action Body α} {P : α → Store Body → Prop} (h : ¬ c → Keeps s x P) :
    Keeps s (if c then throw e >>= f else x) P := by
  by_cases hc : c
  · rw [if_pos hc]
    exact (keeps_throw e).bind (P := fun _ _ => False) fun _ _ _ h => h.elim
  · rw [if_neg hc]
    exact h hc

theorem Keeps.foldlM {f : β → γ → Action Body β} (hf : ∀ s b c, Keeps s (f b c) fun _ _ => True)
    (cs : List γ) (b : β) : Keeps s (cs.foldlM f b) fun _ _ => True := by
  induction cs generalizing s b with
  | nil => exact .pure trivial
  | cons c cs ih =>
    rw [List.foldlM_cons]
    exact (hf s b c).bind fun b' s' _ _ => ih b'

end Action

end Emission

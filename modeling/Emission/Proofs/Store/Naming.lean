import Emission.Proofs.Store.Frame

/-!
Names of storage. A request under a name makes a buffer of zeros, or gets a view of the buffer that the name
leads to and changes nothing. Names lead to different buffers as long as their keys are different. The key of
a name of function scope is the function's name and the name joined by a point: it tells two functions apart
only where their names have no points, and a function from the outside only where its name is not empty.
-/
namespace Emission

variable {Body : Type}

namespace Store

/-- The buffer that a value shows cells of. -/
def bufferOf? (s : Store Body) (v : Value) : Option Nat := do
  let h ← v.handle?
  let x ← s.slots[h.index]?
  return x.buffer

def SharesBuffer (s : Store Body) (v w : Value) : Prop :=
  ∃ b, s.bufferOf? v = some b ∧ s.bufferOf? w = some b

/-- The state with storage of zeros under a name. -/
def withStorage (s : Store Body) (key : Key) (k : Kind) (l : Layout) : Store Body :=
  { s.withBuffer (.zeros k l.memorySize) with names := (key, s.fresh k l) :: s.names }

/-- The innermost of the running functions, if any, has a name without points that is not empty. -/
def RunsPlain (s : Store Body) : Prop :=
  ∀ f, s.calls.head? = some f → f ≠ "" ∧ '.' ∉ f.toList

variable {s s' : Store Body} {v w e e' : Value} {b : Nat} {key key' : Key}

theorem SharesBuffer.symm (h : s.SharesBuffer v w) : s.SharesBuffer w v := by
  obtain ⟨b, hv, hw⟩ := h
  exact ⟨b, hw, hv⟩

theorem bufferOf?_congr (h : v.handle? = w.handle?) : s.bufferOf? v = s.bufferOf? w := by
  unfold bufferOf?
  rw [h]

theorem bufferOf?_mono (hs : s.Extends s') (hv : s.bufferOf? v = some b) :
    s'.bufferOf? v = some b := by
  obtain ⟨h, hh, hv⟩ := Option.bind_eq_some_iff.mp hv
  obtain ⟨x, hx, hb⟩ := Option.bind_eq_some_iff.mp hv
  unfold bufferOf?
  rw [hh, Option.bind_eq_bind, Option.bind_some, hs.slots _ _ hx]
  exact hb

theorem extends_withStorage (s : Store Body) (key : Key) (k : Kind) (l : Layout) :
    s.Extends (s.withStorage key k l) := by
  have h := (s.grows_withBuffer (.zeros k l.memorySize)).toExtends
  exact ⟨h.slots, h.buffers⟩

theorem named?_withStorage (s : Store Body) (key key' : Key) (k : Kind) (l : Layout) :
    (s.withStorage key k l).named? key' =
      if key' = key then some (s.fresh k l) else s.named? key' := by
  unfold named? withStorage
  rw [List.lookup_cons]
  by_cases h : key' = key
  · rw [if_pos h, beq_iff_eq.mpr h]
  · rw [if_neg h, beq_eq_false_iff_ne.mpr h]

theorem bufferOf?_withStorage (s : Store Body) (key : Key) (k : Kind) (l : Layout) :
    (s.withStorage key k l).bufferOf? (s.fresh k l) = some s.buffers.size := by
  show ((s.slots.push ⟨s.buffers.size, 0⟩)[s.slots.size]?.bind fun x => some x.buffer) = _
  rw [Array.getElem?_push_size]
  rfl

theorem extends_of_cells (hslots : s'.slots = s.slots) (hbuffers : s'.buffers = s.buffers) :
    s.Extends s' where
  slots _ _ hx := hslots ▸ hx
  buffers _ a ha := ⟨a, hbuffers ▸ ha, rfl, rfl⟩

/-- Every name leads to a buffer, and no two to the same one. -/
structure Separate (s : Store Body) : Prop where
  housed : ∀ key e, s.named? key = some e →
    ∃ b data, s.bufferOf? e = some b ∧ s.buffers[b]? = some data
  apart : ∀ key key' e e', s.named? key = some e → s.named? key' = some e' →
    s.SharesBuffer e e' → key = key'

theorem separate_empty : (empty : Store Body).Separate :=
  ⟨fun _ _ h => (nomatch h), fun _ _ _ _ h => (nomatch h)⟩

/-- A name's buffer is one of those there are, and the name leads to no other one later. -/
theorem Separate.old (h : s.Separate) (hs : s.Extends s') (he : s.named? key = some e)
    (hb : s'.bufferOf? e = some b) : b < s.buffers.size ∧ s.bufferOf? e = some b := by
  obtain ⟨c, data, hc, hdata⟩ := h.housed key e he
  obtain rfl : c = b := Option.some.inj ((bufferOf?_mono hs hc).symm.trans hb)
  exact ⟨(Array.getElem?_eq_some_iff.mp hdata).1, hc⟩

theorem Separate.housed_extend (h : s.Separate) (hs : s.Extends s') (he : s.named? key = some e) :
    ∃ b data, s'.bufferOf? e = some b ∧ s'.buffers[b]? = some data := by
  obtain ⟨b, data, hb, hdata⟩ := h.housed key e he
  obtain ⟨data', hdata', -⟩ := hs.buffers b data hdata
  exact ⟨b, data', bufferOf?_mono hs hb, hdata'⟩

theorem Separate.apart_extend (h : s.Separate) (hs : s.Extends s') (he : s.named? key = some e)
    (he' : s.named? key' = some e') (hshare : s'.SharesBuffer e e') : key = key' := by
  obtain ⟨b, hb, hb'⟩ := hshare
  exact h.apart key key' e e' he he' ⟨b, (h.old hs he hb).2, (h.old hs he' hb').2⟩

theorem named?_congr (hnames : s'.names = s.names) (key : Key) : s'.named? key = s.named? key := by
  unfold named?
  rw [hnames]

/-- It stays so while the names stay. -/
theorem Separate.extend (h : s.Separate) (hs : s.Extends s') (hnames : s'.names = s.names) :
    s'.Separate where
  housed key _ he := h.housed_extend hs (named?_congr hnames key ▸ he)
  apart key key' _ _ he he' hshare :=
    h.apart_extend hs (named?_congr hnames key ▸ he) (named?_congr hnames key' ▸ he') hshare

/-- The buffer of a new name is none of those before. -/
theorem Separate.create (h : s.Separate) (key : Key) (k : Kind) (l : Layout) :
    (s.withStorage key k l).Separate := by
  have hs := s.extends_withStorage key k l
  have hnew := s.bufferOf?_withStorage key k l
  have hother : ∀ key' e, s.named? key' = some e →
      ¬ (s.withStorage key k l).SharesBuffer e (s.fresh k l) := by
    rintro key' e he ⟨b, hb, hb'⟩
    obtain rfl : b = s.buffers.size := Option.some.inj (hb'.symm.trans hnew)
    exact Nat.lt_irrefl _ (h.old hs he hb).1
  refine ⟨fun key' e he => ?_, fun key₁ key₂ e₁ e₂ he₁ he₂ hshare => ?_⟩
  · rw [named?_withStorage] at he
    by_cases hkey : key' = key
    · rw [if_pos hkey] at he
      obtain rfl := Option.some.inj he
      exact ⟨s.buffers.size, _, hnew, Array.getElem?_push_size⟩
    · rw [if_neg hkey] at he
      exact h.housed_extend hs he
  · rw [named?_withStorage] at he₁ he₂
    by_cases hkey₁ : key₁ = key
    · by_cases hkey₂ : key₂ = key
      · rw [hkey₁, hkey₂]
      · rw [if_pos hkey₁] at he₁
        rw [if_neg hkey₂] at he₂
        obtain rfl := Option.some.inj he₁
        exact absurd hshare.symm (hother key₂ e₂ he₂)
    · rw [if_neg hkey₁] at he₁
      by_cases hkey₂ : key₂ = key
      · rw [if_pos hkey₂] at he₂
        obtain rfl := Option.some.inj he₂
        exact absurd hshare (hother key₁ e₁ he₁)
      · rw [if_neg hkey₂] at he₂
        exact h.apart_extend hs he₁ he₂ hshare

end Store

section Keys

/-- A text is split at its first point in one way only. -/
theorem append_point_inj {f g m n : String} (hf : '.' ∉ f.toList) (hg : '.' ∉ g.toList) :
    f ++ "." ++ m = g ++ "." ++ n ↔ f = g ∧ m = n := by
  refine ⟨fun h => ?_, fun ⟨hfg, hmn⟩ => by rw [hfg, hmn]⟩
  have hlist : f.toList ++ '.' :: m.toList = g.toList ++ '.' :: n.toList := by
    simpa using congrArg String.toList h
  have hstart : ∀ {t : String} (r : List Char), '.' ∉ t.toList →
      (t.toList ++ '.' :: r).takeWhile (· ≠ '.') = t.toList := by
    intro t r ht
    have hall : ∀ c ∈ t.toList, decide (c ≠ '.') = true := by
      intro c hc
      exact decide_eq_true fun h => ht (h ▸ hc)
    rw [List.takeWhile_append_of_pos hall]
    simp
  have hfg : f.toList = g.toList := by
    rw [← hstart m.toList hf, hlist, hstart n.toList hg]
  rw [hfg] at hlist
  have hmn : m.toList = n.toList := by simpa using hlist
  exact ⟨String.toList_injective hfg, String.toList_injective hmn⟩

/-- Between functions with plain names, keys are as good as what they are made of. -/
theorem Store.key_eq_iff {s s' : Store Body} (hs : s.RunsPlain) (hs' : s'.RunsPlain)
    {scope scope' : Scope} {name name' : String} :
    s.key scope name = s'.key scope' name' ↔
      scope = scope' ∧ name = name' ∧ (scope = .function → s.calls.head? = s'.calls.head?) := by
  have hplain : ∀ {s : Store Body}, s.RunsPlain → '.' ∉ (s.calls.head?.getD "").toList := by
    intro s hs
    cases hcall : s.calls.head? with
    | none => simp
    | some f => exact (hs f hcall).2
  have hhead : s.calls.head?.getD "" = s'.calls.head?.getD "" ↔ s.calls.head? = s'.calls.head? := by
    refine ⟨fun h => ?_, fun h => by rw [h]⟩
    cases hcall : s.calls.head? with
    | none =>
      cases hcall' : s'.calls.head? with
      | none => rfl
      | some g =>
        rw [hcall, hcall'] at h
        exact absurd h.symm (hs' g hcall').1
    | some f =>
      cases hcall' : s'.calls.head? with
      | none =>
        rw [hcall, hcall'] at h
        exact absurd h (hs f hcall).1
      | some g =>
        rw [hcall, hcall'] at h
        exact congrArg some h
  cases scope <;> cases scope'
  · simp only [key, Key.mk.injEq, true_and, append_point_inj (hplain hs) (hplain hs'), hhead,
      forall_const]
    exact and_comm
  · simp [key]
  · simp [key]
  · simp [key]

end Keys

/-- A request for named storage. -/
structure Request where
  scope : Scope
  name : String
  type : ElementType
  layout : Layout

namespace Request

def action (r : Request) : Action Body Value := .allocateNamed r.scope r.name r.type r.layout

/-- The key under which a state looks the name up. -/
def key (r : Request) (s : Store Body) : Key := s.key r.scope r.name

end Request

/-- A request for named storage and the state in which it is made. -/
structure Asked (Body : Type) where
  state : Store Body
  request : Request

namespace Asked

def key (a : Asked Body) : Key := a.request.key a.state

/-- The value is given for the request. -/
def Gives (a : Asked Body) (v : Value) : Prop := (a.request.action.exec a.state).1 = .ok v

end Asked

open Emission.Store Emission.Action

/-- Storage that is seen again has its old type and no room beyond its old layout. -/
theorem reuse_eq {e : Value} {l₀ : Layout} (hl : e.layout? = some l₀) (type : ElementType)
    (l : Layout) : reuse e type l =
      if e.type ≠ type then .error (.typeMismatch e.type type)
      else if l₀.memorySize < l.memorySize then .error (.invalidSize l.memorySize l₀.memorySize)
      else .ok (e.withLayout l) := by
  unfold reuse
  split
  · rfl
  · rw [Value.layout_eq_ok_iff.mpr hl]
    simp only [ok_bind]
    split <;> rfl

theorem handle?_of_reuse {e v : Value} {type : ElementType} {l : Layout}
    (h : reuse e type l = .ok v) : e.handle? = v.handle? := by
  obtain ⟨l₀, hl⟩ : ∃ l₀, e.layout? = some l₀ := by
    unfold reuse at h
    split at h
    · cases h
    · obtain ⟨l₀, hl, -⟩ := bind_eq_ok_iff.mp h
      exact ⟨l₀, Value.layout_eq_ok_iff.mp hl⟩
  rw [reuse_eq hl] at h
  split at h
  · cases h
  · split at h
    · cases h
    · obtain rfl := Except.ok.inj h
      rfl

/-- The request makes storage, where the name led to none. -/
def Store.Creates (s : Store Body) (r : Request) (k : Kind) : Prop :=
  r.type = .plain (.cell k) ∧ s.named? (r.key s) = none ∧
    r.action.exec s = (.ok (s.fresh k r.layout), s.withStorage (r.key s) k r.layout)

namespace Request

variable {r : Request} {s : Store Body}

/-- Storage that is there is seen through the layout of the request, if it will do. -/
theorem exec_named {e : Value} (he : s.named? (r.key s) = some e) : r.action.exec s =
    (if r.type = .plain .void then .error (.invalidArgument .voidStorage)
      else reuse e r.type r.layout, s) := by
  unfold action allocateNamed
  by_cases hvoid : r.type = .plain .void
  · simp only [hvoid, if_true, exec_bind, exec_throw]
  · have hkey : s.key r.scope r.name = r.key s := rfl
    simp only [hvoid, if_false, exec_bind, exec_get, hkey, he, exec_lift]

/-- The first request makes storage of its type. -/
theorem exec_first {k : Kind} (hr : r.type = .plain (.cell k)) (hfits : r.layout.memorySize < cellLimit)
    (hnone : s.named? (r.key s) = none) : r.action.exec s =
      if s.slots.size < handleLimit then
        (.ok (s.fresh k r.layout), s.withStorage (r.key s) k r.layout)
      else (.error (.backend .handlesExhausted),
        { s with buffers := s.buffers.push (.zeros k r.layout.memorySize) }) := by
  have hkey : s.key r.scope r.name = r.key s := rfl
  have hvoid : ¬ ElementType.plain (.cell k) = .plain .void := nofun
  unfold action allocateNamed
  simp only [hr, hvoid, if_false, exec_bind, exec_get, hkey, hnone, exec_newStorage s k hfits]
  by_cases hroom : s.slots.size < handleLimit
  · simp only [hroom, if_true, exec_modify, exec_pure]
    rfl
  · simp only [hroom, if_false]

/-- It panics when there is no room for the storage. -/
theorem exec_without_room {k : Kind} (hr : r.type = .plain (.cell k))
    (hroom : ¬ r.layout.memorySize < cellLimit) (hnone : s.named? (r.key s) = none) :
    r.action.exec s = (.error (.panic (.allocation (r.layout.memorySize * k.sizeInBytes))), s) := by
  have hkey : s.key r.scope r.name = r.key s := rfl
  have hvoid : ¬ ElementType.plain (.cell k) = .plain .void := nofun
  unfold action allocateNamed
  simp only [hr, hvoid, if_false, exec_bind, exec_get, hkey, hnone, exec_newStorage_without_room s k hroom]

/-- There is no storage of the other types. -/
theorem exec_unstorable (hr : ∀ k, r.type ≠ .plain (.cell k)) (hnone : s.named? (r.key s) = none) :
    r.action.exec s = (.error (if r.type = .plain .void then .invalidArgument .voidStorage
      else .invalidValueType (.unstorable r.type)), s) := by
  unfold action allocateNamed
  by_cases hvoid : r.type = .plain .void
  · simp only [hvoid, if_true, exec_bind, exec_throw]
  · have hkey : s.key r.scope r.name = r.key s := rfl
    rcases newStorage_cases s r.type r.layout with ⟨k, hk⟩ | hfail
    · exact absurd hk (hr k)
    · simp only [hvoid, if_false, exec_bind, exec_get, hkey, hnone, hfail]

/-- A request makes the storage, or changes nothing as the storage is there, or fails. -/
theorem action_cases (r : Request) (s : Store Body) :
    (∃ k, s.Creates r k) ∨ (∃ e, s.named? (r.key s) = some e ∧ (r.action.exec s).2 = s) ∨
      ∃ e s', r.action.exec s = (.error e, s') ∧ s.Grows s' := by
  cases hnamed : s.named? (r.key s) with
  | some e => exact Or.inr (Or.inl ⟨e, rfl, by rw [exec_named hnamed]⟩)
  | none =>
    by_cases hstorable : ∃ k, r.type = .plain (.cell k)
    · obtain ⟨k, hk⟩ := hstorable
      by_cases hfits : r.layout.memorySize < cellLimit
      · have hexec := exec_first hk hfits hnamed
        by_cases hroom : s.slots.size < handleLimit
        · exact Or.inl ⟨k, hk, hnamed, hexec.trans (if_pos hroom)⟩
        · exact Or.inr (Or.inr ⟨_, _, hexec.trans (if_neg hroom), s.grows_pushBuffer _⟩)
      · exact Or.inr (Or.inr ⟨_, s, exec_without_room hk hfits hnamed, .refl s⟩)
    · have hr : ∀ k, r.type ≠ .plain (.cell k) := fun k hk => hstorable ⟨k, hk⟩
      exact Or.inr (Or.inr ⟨_, s, exec_unstorable hr hnamed, .refl s⟩)

theorem action_extends (r : Request) (s : Store Body) : s.Extends (r.action.exec s).2 := by
  rcases r.action_cases s with ⟨k, -, -, hexec⟩ | ⟨e, -, hexec⟩ | ⟨e, s', hexec, hs⟩
  · rw [hexec]
    exact s.extends_withStorage (r.key s) k r.layout
  · rw [hexec]
    exact .refl s
  · rw [hexec]
    exact hs.toExtends

/-- What is granted has the handle of the storage under the request's key. -/
theorem named_of_ok {v : Value} (hv : (r.action.exec s).1 = .ok v) :
    ∃ e, (r.action.exec s).2.named? (r.key s) = some e ∧ e.handle? = v.handle? := by
  rcases r.action_cases s with ⟨k, -, -, hexec⟩ | ⟨e, he, hsame⟩ | ⟨e, s', hexec, -⟩
  · rw [hexec] at hv ⊢
    obtain rfl := Except.ok.inj hv
    exact ⟨_, (s.named?_withStorage ..).trans (if_pos rfl), rfl⟩
  · rw [hsame]
    refine ⟨e, he, ?_⟩
    rw [exec_named he] at hv
    by_cases hvoid : r.type = .plain .void
    · rw [if_pos hvoid] at hv
      cases hv
    · rw [if_neg hvoid] at hv
      exact handle?_of_reuse hv
  · rw [hexec] at hv
    cases hv

end Request

end Emission

import Mathlib.Data.List.Basic
import Mathlib.Tactic.TypeStar

/-!
# Traced computations

A *traced computation* emits events while it runs and ends with a value or with a fault. Events that
were emitted stay emitted: a fault cuts off what would have come after it, and nothing else. This is
how code looks from outside when it calls into something whose calls cannot be taken back (a
channel, a device, an object with a life cycle): the trace is the list of those calls.
-/

namespace LimbWorker.Lib

/-- What a computation emitted, and how it ended. -/
structure Traced (κ ε α : Type*) where
  events : List κ
  result : Except ε α

namespace Traced

universe u

variable {κ ε : Type*} {α β : Type u}

/-- Emit one event. -/
def emit (e : κ) : Traced κ ε Unit := ⟨[e], .ok ()⟩

/-- End with a fault. -/
def fault (e : ε) : Traced κ ε α := ⟨[], .error e⟩

/-- Sequencing: the second computation runs only when the first ended with a value. -/
protected def bind (x : Traced κ ε α) (f : α → Traced κ ε β) : Traced κ ε β :=
  match x.result with
  | .ok a => ⟨x.events ++ (f a).events, (f a).result⟩
  | .error e => ⟨x.events, .error e⟩

instance : Monad (Traced κ ε) where
  pure a := ⟨[], .ok a⟩
  bind := Traced.bind

/-- Run `x` where a fault is caught by the caller and dropped, as far as `caught` says. -/
def swallow (caught : ε → Bool) (x : Traced κ ε Unit) : Traced κ ε Unit :=
  match x.result with
  | .ok () => x
  | .error e => if caught e then ⟨x.events, .ok ()⟩ else x

/-- Run `x` in a scope that emits `e` when it is left: with a value, or with a fault that unwinds. -/
def scope (unwinds : ε → Bool) (e : κ) (x : Traced κ ε α) : Traced κ ε α :=
  match x.result with
  | .ok _ => { x with events := x.events ++ [e] }
  | .error f => if unwinds f then { x with events := x.events ++ [e] } else x

/-- The same computation inside one that emits events of another kind. -/
def mapEvents {κ' : Type*} (g : κ → κ') (x : Traced κ ε α) : Traced κ' ε α := ⟨x.events.map g, x.result⟩

variable (e : κ) (ε' : ε) (a : α) (es : List κ) (x : Traced κ ε Unit) (f : α → Traced κ ε β)

@[simp] theorem events_emit : (emit e : Traced κ ε Unit).events = [e] := rfl
@[simp] theorem result_emit : (emit e : Traced κ ε Unit).result = .ok () := rfl
@[simp] theorem events_fault : (fault ε' : Traced κ ε α).events = [] := rfl
@[simp] theorem result_fault : (fault ε' : Traced κ ε α).result = .error ε' := rfl
@[simp] theorem events_pure : (pure a : Traced κ ε α).events = [] := rfl
@[simp] theorem result_pure : (pure a : Traced κ ε α).result = .ok a := rfl

@[simp] theorem pure_bind : (pure a : Traced κ ε α) >>= f = f a := rfl

@[simp] theorem fault_bind : (fault ε' : Traced κ ε α) >>= f = fault ε' := rfl

/-- Sequencing after a computation that ended with a value. -/
@[simp] theorem ok_bind :
    (⟨es, .ok a⟩ : Traced κ ε α) >>= f = ⟨es ++ (f a).events, (f a).result⟩ := rfl

/-- Sequencing after a fault. -/
@[simp] theorem error_bind : (⟨es, .error ε'⟩ : Traced κ ε α) >>= f = ⟨es, .error ε'⟩ := rfl

variable {x : Traced κ ε α} in
/-- What comes after a computation that ended with a value. -/
theorem bind_of_ok {a : α} (h : x.result = .ok a) :
    x >>= f = ⟨x.events ++ (f a).events, (f a).result⟩ := by
  show Traced.bind x f = _
  rw [Traced.bind, h]

variable {f} {x : Traced κ ε α} in
/-- Inversion: where a sequence ended with a value, both of its computations did. -/
theorem result_bind_eq_ok {b : β} (h : (x >>= f).result = .ok b) :
    ∃ a, x.result = .ok a ∧ (f a).result = .ok b := by
  cases hx : x.result with
  | ok a =>
      rw [bind_of_ok f hx] at h
      exact ⟨a, rfl, h⟩
  | error e =>
      have herr : (x >>= f).result = .error e := by
        show (Traced.bind x f).result = .error e
        rw [Traced.bind, hx]
      rw [herr] at h
      cases h

variable {x : Traced κ ε α} in
/-- What was emitted first comes first, however the first computation ended. -/
theorem events_bind_prefix : ∃ tail, (x >>= f).events = x.events ++ tail := by
  show ∃ tail, (Traced.bind x f).events = x.events ++ tail
  unfold Traced.bind
  split
  · exact ⟨_, rfl⟩
  · exact ⟨[], (List.append_nil _).symm⟩

/-- All that a computation emits is of one kind, whatever it ends with. -/
def Emits {α : Type*} (P : κ → Prop) (x : Traced κ ε α) : Prop := ∀ e ∈ x.events, P e

namespace Emits

variable {P : κ → Prop}

theorem pure (a : α) : (Pure.pure a : Traced κ ε α).Emits P := fun _ h => by cases h

theorem fault (ε' : ε) : (Traced.fault ε' : Traced κ ε α).Emits P := fun _ h => by cases h

theorem emit {e : κ} (h : P e) : (Traced.emit e : Traced κ ε Unit).Emits P := by
  intro e' he'
  cases List.mem_singleton.mp he'
  exact h

theorem bind {x : Traced κ ε α} {f : α → Traced κ ε β} (hx : x.Emits P) (hf : ∀ a, (f a).Emits P) :
    (x >>= f).Emits P := by
  obtain ⟨events, result⟩ := x
  cases result with
  | error e => exact hx
  | ok a =>
      intro e he
      exact (List.mem_append.mp he).elim (hx e) (hf a e)

end Emits

/-- Ending with a value emits nothing more. -/
theorem events_bind_pure (x : Traced κ ε α) (g : α → β) :
    (x >>= fun a => (pure (g a) : Traced κ ε β)).events = x.events := by
  show (Traced.bind x _).events = _
  unfold Traced.bind
  split
  · exact List.append_nil _
  · rfl

@[simp] theorem emit_bind {γ : Type} (g : Unit → Traced κ ε γ) :
    (emit e : Traced κ ε Unit) >>= g = ⟨e :: (g ()).events, (g ()).result⟩ := rfl

/-- A scope that is left with a value. -/
@[simp] theorem scope_ok (unwinds : ε → Bool) :
    (⟨es, .ok a⟩ : Traced κ ε α).scope unwinds e = ⟨es ++ [e], .ok a⟩ := rfl

@[simp] theorem mapEvents_pure {κ' : Type*} (g : κ → κ') :
    (pure a : Traced κ ε α).mapEvents g = pure a := rfl

@[simp] theorem mapEvents_ok {κ' : Type*} (g : κ → κ') :
    (⟨es, .ok a⟩ : Traced κ ε α).mapEvents g = ⟨es.map g, .ok a⟩ := rfl

/-- Catching a fault does not take back what was emitted. -/
@[simp] theorem events_swallow (caught : ε → Bool) : (x.swallow caught).events = x.events := by
  unfold swallow
  split
  · rfl
  · split <;> rfl

/-- The faults that are left are those that were not caught. -/
theorem result_swallow_eq_error (caught : ε → Bool) :
    (x.swallow caught).result = .error ε' ↔ x.result = .error ε' ∧ caught ε' = false := by
  unfold swallow
  split
  · next h => simp [h]
  · next e h =>
      split
      · next hc =>
        simp only [h, reduceCtorEq, Except.error.injEq, false_iff, not_and]
        rintro rfl
        simp [hc]
      · next hc =>
        simp only [h, Except.error.injEq, iff_self_and]
        rintro rfl
        simpa using hc

end Traced

end LimbWorker.Lib

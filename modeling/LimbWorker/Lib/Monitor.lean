import LimbWorker.Lib.StepSystem
import LimbWorker.Lib.Traced

/-!
# Monitored computations

A *monitor* is a step system that reads the events of a traced computation: an event that is not enabled is
one that should not have happened. `Monitored step s x Q E` says that a monitor in state `s` lets every event
of `x` pass, and is left in a state that meets `Q` where `x` ended with a value and `E` where it ended with a
fault.

The rules are those of a logic of pre- and postconditions with two exits. They follow the text of the
computation: one for each way to build one (`pure`, `fault`, `emit`, `bind`), and one to weaken what
is known (`mono`).
-/

namespace LimbWorker.Lib

universe u

variable {σ κ ε : Type*} {α β : Type u}

/-- The monitor lets `x` pass; `Q` and `E` are what is known afterwards. -/
def Monitored (step : σ → κ → Option σ) (s : σ) (x : Traced κ ε α) (Q : α → σ → Prop) (E : ε → σ → Prop) :
    Prop :=
  ∃ s', run step s x.events = some s' ∧ (∀ a, x.result = .ok a → Q a s') ∧ ∀ e, x.result = .error e → E e s'

namespace Monitored

variable {step : σ → κ → Option σ} {s s' : σ} {x : Traced κ ε α} {f : α → Traced κ ε β} {Q Q' : α → σ → Prop}
  {R : β → σ → Prop} {E E' : ε → σ → Prop}

theorem pure {a : α} (h : Q a s) : Monitored step s (Pure.pure a : Traced κ ε α) Q E := by
  refine ⟨s, rfl, fun b hb => ?_, fun e he => ?_⟩
  · cases hb
    exact h
  · cases he

theorem fault {e : ε} (h : E e s) : Monitored step s (.fault e : Traced κ ε α) Q E := by
  refine ⟨s, rfl, fun a ha => ?_, fun e' he => ?_⟩
  · cases ha
  · cases he
    exact h

theorem emit {c : κ} {Q : Unit → σ → Prop} (hs : step s c = some s') (h : Q () s') :
    Monitored step s (.emit c : Traced κ ε Unit) Q E := by
  refine ⟨s', run_cons_of hs, fun _ _ => h, fun e he => ?_⟩
  cases he

/-- **Sequencing**: the second computation starts where the first one has left the monitor. -/
theorem bind (hx : Monitored step s x Q E) (hf : ∀ a s', Q a s' → Monitored step s' (f a) R E) :
    Monitored step s (x >>= f) R E := by
  obtain ⟨s₁, hrun, hok, herror⟩ := hx
  obtain ⟨events, result⟩ := x
  cases result with
  | ok a =>
      obtain ⟨s₂, hrun₂, hok₂, herror₂⟩ := hf a s₁ (hok a rfl)
      rw [Traced.ok_bind]
      exact ⟨s₂, run_trans hrun hrun₂, hok₂, herror₂⟩
  | error e =>
      rw [Traced.error_bind]
      refine ⟨s₁, hrun, fun b hb => ?_, fun e' he => ?_⟩
      · cases hb
      · cases he
        exact herror e rfl

/-- **Consequence**: what is known afterwards may be weakened. -/
theorem mono (h : Monitored step s x Q E) (hQ : ∀ a s', Q a s' → Q' a s') (hE : ∀ e s', E e s' → E' e s') :
    Monitored step s x Q' E' := by
  obtain ⟨s₁, hrun, hok, herror⟩ := h
  exact ⟨s₁, hrun, fun a ha => hQ a s₁ (hok a ha), fun e he => hE e s₁ (herror e he)⟩

end Monitored

end LimbWorker.Lib

import LimbWorker.Lib.StepSystem
import Mathlib.Algebra.Order.Ring.Nat

/-!
# Amortised costs

How many steps of some kind a run of a step system can take. Each action has a cost and brings some pay with it; what
the pay does not cover is put into debt, or paid for by what the state gains. Debt and gain are functions of the state,
so that over a whole run only their first and last values are left: `run_cost_le`.
-/

namespace LimbWorker.Lib

variable {σ α : Type*} {step : σ → α → Option σ} {s s' : σ} {as : List α}

/-- **Amortised costs**: what a step costs is paid for by the action, or by what the state gains. -/
theorem run_cost_le {I : σ → Prop} {cost pay : α → Nat} {debt gain : σ → Nat}
    (hinv : ∀ s a s', I s → step s a = some s' → I s')
    (hstep : ∀ s a s', I s → step s a = some s' → cost a + debt s' + gain s ≤ pay a + debt s + gain s')
    (h₀ : I s) (h : run step s as = some s') :
    (as.map cost).sum + debt s' + gain s ≤ (as.map pay).sum + debt s + gain s' := by
  induction as generalizing s with
  | nil =>
      cases h
      exact Nat.le_refl _
  | cons a as ih =>
      obtain ⟨s₁, h₁, h₂⟩ := run_cons_eq_some h
      have hfirst := hstep s a s₁ h₀ h₁
      have hrest := ih (hinv s a s₁ h₀ h₁) h₂
      rw [List.map_cons, List.map_cons, List.sum_cons, List.sum_cons]
      omega

end LimbWorker.Lib

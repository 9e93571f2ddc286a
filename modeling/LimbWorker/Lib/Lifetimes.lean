import LimbWorker.Lib.StepSystem
import Mathlib.Data.List.Nodup

/-!
# Lifetimes

Objects are created, used and destroyed, and an object that was made from others needs them for as long as it
is touched. `line r` are the objects that `r` was made from, all the way up. `Life.step line` reads what happens to
objects and keeps those that are alive; an event that touches what is not alive is not enabled, so a trace along
which the step system runs has no use after the end, no second end and no object that outlives its line in use.
What is left in the state is what was never destroyed.
-/

namespace LimbWorker.Lib

universe u

/-- What happens to an object. -/
inductive Life (A : Type u) where
  | create (r : A)
  | use (r : A)
  | destroy (r : A)
  deriving DecidableEq, Repr

namespace Life

variable {A : Type u}

/-- The object that it happens to. -/
def object : Life A → A
  | .create r | .use r | .destroy r => r

variable [DecidableEq A] (line : A → List A)

/-- The objects alive after an event; `none` where it touches what is not alive. -/
def step (live : List A) : Life A → Option (List A)
  | .create r => if r ∉ live ∧ ∀ p ∈ line r, p ∈ live then some (r :: live) else none
  | .use r => if r ∈ live ∧ ∀ p ∈ line r, p ∈ live then some live else none
  | .destroy r => if r ∈ live ∧ ∀ p ∈ line r, p ∈ live then some (live.erase r) else none

/-- The same for code that gives nothing back yet. -/
def building (live : List A) (e : Life A) : Option (List A) :=
  if e = .destroy e.object then none else step line live e

variable {line} {live live' : List A} {r : A} {e : Life A} {trace : List (Life A)}

theorem step_create (hr : r ∉ live) (hline : ∀ p ∈ line r, p ∈ live) :
    step line live (.create r) = some (r :: live) :=
  if_pos ⟨hr, hline⟩

theorem step_use (hr : r ∈ live) (hline : ∀ p ∈ line r, p ∈ live) :
    step line live (.use r) = some live :=
  if_pos ⟨hr, hline⟩

theorem step_destroy (hr : r ∈ live) (hline : ∀ p ∈ line r, p ∈ live) :
    step line live (.destroy r) = some (live.erase r) :=
  if_pos ⟨hr, hline⟩

/-- Inversion of a step. -/
theorem step_eq_some (h : step line live e = some live') :
    (∀ p ∈ line e.object, p ∈ live) ∧
      ((e = .create e.object ∧ e.object ∉ live ∧ live' = e.object :: live) ∨
        (e = .use e.object ∧ e.object ∈ live ∧ live' = live) ∨
        e = .destroy e.object ∧ e.object ∈ live ∧ live' = live.erase e.object) := by
  cases e with
  | create r =>
      obtain ⟨⟨hr, hline⟩, heq⟩ := Option.ite_none_right_eq_some.mp h
      exact ⟨hline, .inl ⟨rfl, hr, (Option.some.inj heq).symm⟩⟩
  | use r =>
      obtain ⟨⟨hr, hline⟩, heq⟩ := Option.ite_none_right_eq_some.mp h
      exact ⟨hline, .inr (.inl ⟨rfl, hr, (Option.some.inj heq).symm⟩)⟩
  | destroy r =>
      obtain ⟨⟨hr, hline⟩, heq⟩ := Option.ite_none_right_eq_some.mp h
      exact ⟨hline, .inr (.inr ⟨rfl, hr, (Option.some.inj heq).symm⟩)⟩

/-- No object is alive twice. -/
theorem nodup_step (hlive : live.Nodup) (h : step line live e = some live') : live'.Nodup := by
  rcases (step_eq_some h).2 with ⟨-, hr, rfl⟩ | ⟨-, -, rfl⟩ | ⟨-, -, rfl⟩
  · exact hlive.cons hr
  · exact hlive
  · exact hlive.erase _

/-- **The balance of a trace**: an object was created as often as it was destroyed, and once more if it is still
alive. -/
theorem count_create_eq (hlive : live.Nodup) (h : run (step line) live trace = some live') (r : A) :
    trace.count (.create r) + (if r ∈ live then 1 else 0) =
      trace.count (.destroy r) + if r ∈ live' then 1 else 0 := by
  induction trace generalizing live with
  | nil =>
      cases h
      rfl
  | cons e trace ih =>
      obtain ⟨live₁, h₁, h₂⟩ := run_cons_eq_some h
      have hrest := ih (nodup_step hlive h₁) h₂
      rw [List.count_cons, List.count_cons]
      rcases (step_eq_some h₁).2 with ⟨heq, hr, rfl⟩ | ⟨heq, hr, rfl⟩ | ⟨heq, hr, rfl⟩ <;> rw [heq]
      · by_cases hobject : e.object = r
        · subst hobject
          simp [hr] at hrest ⊢
          omega
        · have hne : r ≠ e.object := fun hr' => hobject hr'.symm
          simp [hobject, hne] at hrest ⊢
          omega
      · simpa using hrest
      · by_cases hobject : e.object = r
        · subst hobject
          simp [hr, hlive.mem_erase_iff] at hrest ⊢
          omega
        · have hne : r ≠ e.object := fun hr' => hobject hr'.symm
          simp [hobject, hne, hlive.mem_erase_iff] at hrest ⊢
          omega

/-- **What code has built up** is what it has created. -/
theorem run_building (h : run (building line) live trace = some live') :
    run (step line) live trace = some live' ∧ (∀ r, r ∈ live' ↔ r ∈ live ∨ .create r ∈ trace) ∧
      ∀ r, .destroy r ∉ trace := by
  induction trace generalizing live with
  | nil =>
      cases h
      exact ⟨rfl, fun r => by simp, fun r => List.not_mem_nil⟩
  | cons e trace ih =>
      obtain ⟨live₁, h₁, h₂⟩ := run_cons_eq_some h
      obtain ⟨hdestroy, hstep⟩ := Option.ite_none_left_eq_some.mp h₁
      obtain ⟨hrun, hmem, hnone⟩ := ih h₂
      refine ⟨by rw [run_cons, hstep]; exact hrun, fun r => ?_, fun r hr => ?_⟩
      swap
      · rcases List.mem_cons.mp hr with heq | hr
        · exact hdestroy (by rw [← heq]; rfl)
        · exact hnone r hr
      rw [hmem r, List.mem_cons]
      rcases (step_eq_some hstep).2 with ⟨heq, -, rfl⟩ | ⟨heq, -, rfl⟩ | ⟨heq, -, -⟩
      · rw [heq, List.mem_cons]
        simp only [object, create.injEq]
        tauto
      · rw [heq]
        simp
      · exact absurd heq hdestroy

end Life

end LimbWorker.Lib

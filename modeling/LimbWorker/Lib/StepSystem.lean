import Mathlib.Logic.Basic
import Mathlib.Tactic.TypeStar
import Mathlib.Data.List.Basic

/-!
# Step systems

A *step system* is a partial step function `step : σ → α → Option σ`: in state `s` the action `a`
either is not enabled (`none`) or leads to exactly one state. Nondeterminism (which thread moves,
what the environment answers) lives in the choice of the action, so a schedule is a list of
actions and every statement "for every interleaving" is a statement about every list.

Three notions and the rules that go with them:

* `run` executes a list of actions; `Reachable` forgets the list.
* an **invariant** holds initially and is kept by every step (`run_invariant`,
  `Reachable.invariant`).
* a **guarded run** (`Guarded`) takes every step in a state that meets a condition. It carries the
  claims of the form "as long as this never happens": `guarded_invariant` keeps an invariant whose
  steps need the guard, and `guarded_iff` is for a property that each step keeps *exactly* under
  the guard, so that the final state tells whether the guard was met all along; `guarded_of_not_bad`
  reads it off the final state where damage stays. Where a later step
  can hide what an earlier one did, `Throughout` asks for the property in every state of the run:
  `throughout_iff` and `throughout_iff_of_invariant` are the exact rules, and `throughout_of_invariant` the one
  for an invariant.
-/

namespace LimbWorker.Lib

variable {σ τ α β : Type*}

/-- Execute the actions `as` from `s`; `none` as soon as one of them is not enabled. -/
def run (step : σ → α → Option σ) : σ → List α → Option σ
  | s, [] => some s
  | s, a :: as => (step s a).bind fun s' => run step s' as

/-- `s` is reached from `s₀` by some list of actions. -/
def Reachable (step : σ → α → Option σ) (s₀ s : σ) : Prop :=
  ∃ as, run step s₀ as = some s

/-- Every step of the run from `s` along `as` is taken in a state that meets `guard`. -/
def Guarded (step : σ → α → Option σ) (guard : σ → α → Prop) : σ → List α → Prop
  | _, [] => True
  | s, a :: as => guard s a ∧ ∀ s', step s a = some s' → Guarded step guard s' as

/-- `P` holds in every state that the run from `s` along `as` comes through. -/
def Throughout (step : σ → α → Option σ) (P : σ → Prop) : σ → List α → Prop
  | s, [] => P s
  | s, a :: as => P s ∧ ∀ s', step s a = some s' → Throughout step P s' as

/-- The highest mark that the run from `s` along `as` comes to. -/
def highest (step : σ → α → Option σ) (mark : σ → Nat) : σ → List α → Nat
  | s, [] => mark s
  | s, a :: as => max (mark s) (((step s a).map fun s' => highest step mark s' as).getD 0)

variable {step : σ → α → Option σ} {s s' s₀ s₁ s₂ : σ} {a : α} {as bs : List α}

/-! ## Runs -/

@[simp] theorem run_nil : run step s [] = some s := rfl

@[simp] theorem run_cons : run step s (a :: as) = (step s a).bind fun s' => run step s' as := rfl

theorem run_append : run step s (as ++ bs) = (run step s as).bind fun s' => run step s' bs := by
  induction as generalizing s with
  | nil => rfl
  | cons a as ih =>
      rw [List.cons_append, run_cons, run_cons, Option.bind_assoc]
      congr 1
      funext s'
      exact ih

/-- Inversion of a run that starts with `a`: its first step and the rest. -/
theorem run_cons_eq_some (h : run step s (a :: as) = some s₂) :
    ∃ s₁, step s a = some s₁ ∧ run step s₁ as = some s₂ :=
  Option.bind_eq_some_iff.mp h

/-- Inversion of a run in two parts. -/
theorem run_append_eq_some (h : run step s (as ++ bs) = some s₂) :
    ∃ s₁, run step s as = some s₁ ∧ run step s₁ bs = some s₂ := by
  rw [run_append] at h
  exact Option.bind_eq_some_iff.mp h

/-- A run of one step. -/
theorem run_cons_of (hs : step s a = some s') : run step s [a] = some s' := by
  rw [run_cons, hs]
  rfl

/-- Two runs one after the other. -/
theorem run_trans (h₁ : run step s as = some s₁) (h₂ : run step s₁ bs = some s₂) :
    run step s (as ++ bs) = some s₂ := by
  rw [run_append, h₁]
  exact h₂

/-- Actions of one kind: the run of the system that has only these. -/
theorem run_map (f : β → α) (bs : List β) :
    run step s (bs.map f) = run (fun s b => step s (f b)) s bs := by
  induction bs generalizing s with
  | nil => rfl
  | cons b bs ih =>
      rw [List.map_cons, run_cons, run_cons]
      congr 1
      funext s'
      exact ih

/-- One action again and again: if it can be followed along `put`, so can its repetition. -/
theorem run_replicate_lift {step' : τ → β → Option τ} (put : τ → σ) {b : β} {t t' : τ}
    (hstep : ∀ t t', step' t b = some t' → step (put t) a = some (put t')) (k : Nat)
    (h : run step' t (List.replicate k b) = some t') :
    run step (put t) (List.replicate k a) = some (put t') := by
  induction k generalizing t with
  | zero =>
      cases h
      rfl
  | succ k ih =>
      obtain ⟨t₁, h₁, h₂⟩ := run_cons_eq_some h
      rw [List.replicate_succ, run_cons, hstep t t₁ h₁]
      exact ih h₂

/-! ## Invariants -/

/-- **The invariant rule for runs**: what every step keeps holds at the end of every run. -/
theorem run_invariant {I : σ → Prop} (hstep : ∀ s a s', I s → step s a = some s' → I s')
    (h₀ : I s) (h : run step s as = some s') : I s' := by
  induction as generalizing s with
  | nil =>
      cases h
      exact h₀
  | cons a as ih =>
      obtain ⟨s₁, h₁, h₂⟩ := run_cons_eq_some h
      exact ih (hstep s a s₁ h₀ h₁) h₂

namespace Reachable

theorem refl : Reachable step s s := ⟨[], rfl⟩

theorem tail (h : Reachable step s₀ s) (hs : step s a = some s') : Reachable step s₀ s' := by
  obtain ⟨as, has⟩ := h
  exact ⟨as ++ [a], run_trans has (by simp [hs])⟩

theorem trans (h₁ : Reachable step s₀ s₁) (h₂ : Reachable step s₁ s₂) : Reachable step s₀ s₂ := by
  obtain ⟨as, has⟩ := h₁
  obtain ⟨bs, hbs⟩ := h₂
  exact ⟨as ++ bs, run_trans has hbs⟩

theorem single (hs : step s a = some s') : Reachable step s s' := refl.tail hs

/-- **The invariant rule**: a property that holds initially and is kept by every step holds in
every reachable state. -/
theorem invariant {I : σ → Prop} (hstep : ∀ s a s', I s → step s a = some s' → I s')
    (h₀ : I s₀) (h : Reachable step s₀ s) : I s := by
  obtain ⟨as, has⟩ := h
  exact run_invariant hstep h₀ has

/-- **Projection**: if every step of one system is matched by a run of another along `f`, reachable
states go to reachable states. The component of a composed system is reached in its own right. -/
theorem project {step' : τ → β → Option τ} {f : σ → τ}
    (hstep : ∀ s a s', step s a = some s' → Reachable step' (f s) (f s'))
    (h : Reachable step s₀ s) : Reachable step' (f s₀) (f s) :=
  invariant (I := fun s => Reachable step' (f s₀) (f s))
    (fun s a s' ih hs => ih.trans (hstep s a s' hs)) refl h

end Reachable

/-- **The simulation rule for runs**: if every step of one system is matched by the step of another one that takes the
same action, then so is every run. -/
theorem run_simulation {step' : τ → α → Option τ} {R : σ → τ → Prop} {t : τ}
    (hstep : ∀ s t a s', R s t → step s a = some s' → ∃ t', step' t a = some t' ∧ R s' t')
    (h₀ : R s t) (h : run step s as = some s') : ∃ t', run step' t as = some t' ∧ R s' t' := by
  induction as generalizing s t with
  | nil =>
      cases h
      exact ⟨t, rfl, h₀⟩
  | cons a as ih =>
      obtain ⟨s₁, h₁, h₂⟩ := run_cons_eq_some h
      obtain ⟨t₁, ht₁, hR⟩ := hstep s t a s₁ h₀ h₁
      obtain ⟨t', ht', hR'⟩ := ih hR h₂
      exact ⟨t', by rw [run_cons, ht₁]; exact ht', hR'⟩

/-- **The rule for high-water marks**: what each step raises to the new mark, if that is higher, is in the end as high as
the highest mark of the run. -/
theorem run_highest {I : σ → Prop} {mark level : σ → Nat} (hinv : ∀ s a s', I s → step s a = some s' → I s')
    (hstep : ∀ s a s', I s → step s a = some s' → level s' = max (level s) (mark s'))
    (h₀ : I s) (hmark : mark s ≤ level s) (h : run step s as = some s') :
    level s' = max (level s) (highest step mark s as) := by
  induction as generalizing s with
  | nil =>
      cases h
      exact (Nat.max_eq_left hmark).symm
  | cons a as ih =>
      obtain ⟨s₁, h₁, h₂⟩ := run_cons_eq_some h
      have hlevel := hstep s a s₁ h₀ h₁
      rw [ih (hinv s a s₁ h₀ h₁) (hlevel ▸ Nat.le_max_right _ _) h₂, hlevel, highest, h₁, Option.map_some,
        Option.getD_some]
      have hle : mark s₁ ≤ highest step mark s₁ as := by
        cases as with
        | nil => exact Nat.le_refl _
        | cons b as => exact Nat.le_max_left _ _
      omega

/-! ## Guarded runs -/

@[simp] theorem guarded_nil {guard : σ → α → Prop} : Guarded step guard s [] := trivial

theorem guarded_cons {guard : σ → α → Prop} (hs : step s a = some s') :
    Guarded step guard s (a :: as) ↔ guard s a ∧ Guarded step guard s' as := by
  constructor
  · rintro ⟨hg, hrest⟩
    exact ⟨hg, hrest s' hs⟩
  · rintro ⟨hg, hrest⟩
    refine ⟨hg, fun s'' hs'' => ?_⟩
    rw [hs] at hs''
    cases hs''
    exact hrest

/-- A guarded run goes on as a guarded run. -/
theorem guarded_append {guard : σ → α → Prop} (h : run step s as = some s')
    (has : Guarded step guard s as) (hbs : Guarded step guard s' bs) :
    Guarded step guard s (as ++ bs) := by
  induction as generalizing s with
  | nil =>
      cases h
      exact hbs
  | cons a as ih =>
      obtain ⟨s₁, h₁, h₂⟩ := run_cons_eq_some h
      obtain ⟨hga, hgas⟩ := (guarded_cons h₁).mp has
      exact (guarded_cons h₁).mpr ⟨hga, ih h₂ hgas⟩

/-- **The invariant rule for guarded runs**: a step needs to keep the invariant only where it meets
the guard. -/
theorem guarded_invariant {guard : σ → α → Prop} {I : σ → Prop}
    (hstep : ∀ s a s', I s → guard s a → step s a = some s' → I s')
    (h₀ : I s) (h : run step s as = some s') (hg : Guarded step guard s as) : I s' := by
  induction as generalizing s with
  | nil =>
      cases h
      exact h₀
  | cons a as ih =>
      obtain ⟨s₁, h₁, h₂⟩ := run_cons_eq_some h
      obtain ⟨hga, hgas⟩ := (guarded_cons h₁).mp hg
      exact ih (hstep s a s₁ h₀ hga h₁) h₂ hgas

/-- **The exact rule for guarded runs**: if, under an invariant, a step leads to a good state just
when it starts in a good state and meets the guard, then the last state of a run is good just when
the first one is and every step met the guard. -/
theorem guarded_iff {G : σ → α → Prop} {I P : σ → Prop}
    (hinv : ∀ s a s', I s → step s a = some s' → I s')
    (hP : ∀ s a s', I s → step s a = some s' → (P s' ↔ P s ∧ G s a))
    (h₀ : I s) (h : run step s as = some s') :
    P s' ↔ P s ∧ Guarded step G s as := by
  induction as generalizing s with
  | nil =>
      cases h
      simp
  | cons a as ih =>
      obtain ⟨s₁, h₁, h₂⟩ := run_cons_eq_some h
      rw [ih (hinv s a s₁ h₀ h₁) h₂, hP s a s₁ h₀ h₁, guarded_cons h₁, and_assoc]

/-- **Guarded by an invariant**: actions of one kind keep an invariant from which the guard follows. -/
theorem guarded_of_invariant {G : σ → α → Prop} {I : σ → Prop} {K : α → Prop}
    (hG : ∀ s a, I s → K a → G s a) (hinv : ∀ s a s', I s → K a → step s a = some s' → I s')
    (h₀ : I s) (has : ∀ a ∈ as, K a) : Guarded step G s as := by
  induction as generalizing s with
  | nil => exact trivial
  | cons a as ih =>
      have ha := has a List.mem_cons_self
      exact ⟨hG s a h₀ ha, fun s' hs =>
        ih (hinv s a s' h₀ ha hs) fun b hb => has b (List.mem_cons_of_mem a hb)⟩

/-- **Guards that agree**: where, under an invariant that steps keep under one guard, the other guard says the same. -/
theorem guarded_congr {G G' : σ → α → Prop} {I : σ → Prop} (hG : ∀ s a, I s → (G s a ↔ G' s a))
    (hinv : ∀ s a s', I s → G s a → step s a = some s' → I s') (h₀ : I s) :
    Guarded step G s as ↔ Guarded step G' s as := by
  induction as generalizing s with
  | nil => exact Iff.rfl
  | cons a as ih =>
      constructor
      · rintro ⟨ha, hrest⟩
        exact ⟨(hG s a h₀).mp ha, fun s' hs => (ih (hinv s a s' h₀ ha hs)).mp (hrest s' hs)⟩
      · rintro ⟨ha, hrest⟩
        have ha' := (hG s a h₀).mpr ha
        exact ⟨ha', fun s' hs => (ih (hinv s a s' h₀ ha' hs)).mpr (hrest s' hs)⟩

/-- **The rule for damage that stays**: if a step that misses the guard leads to a bad state, and bad
states stay bad, then every step of a run to a state that is not bad met the guard. -/
theorem guarded_of_not_bad {G : σ → α → Prop} {I Bad : σ → Prop}
    (hinv : ∀ s a s', I s → step s a = some s' → I s')
    (hmiss : ∀ s a s', I s → step s a = some s' → ¬ G s a → Bad s')
    (hstay : ∀ s a s', I s → step s a = some s' → Bad s → Bad s')
    (h₀ : I s) (h : run step s as = some s') (hend : ¬ Bad s') : Guarded step G s as := by
  induction as generalizing s with
  | nil => exact trivial
  | cons a as ih =>
      obtain ⟨s₁, h₁, h₂⟩ := run_cons_eq_some h
      have hI := hinv s a s₁ h₀ h₁
      refine (guarded_cons h₁).mpr ⟨?_, ih hI h₂⟩
      by_contra hguard
      have hbad := run_invariant (I := fun s => I s ∧ Bad s)
        (fun s a s' hs hstep => ⟨hinv s a s' hs.1 hstep, hstay s a s' hs.1 hstep hs.2⟩)
        ⟨hI, hmiss s a s₁ h₀ h₁ hguard⟩ h₂
      exact hend hbad.2

/-- **The invariant rule for every state of a run**: what follows from an invariant holds all along. -/
theorem throughout_of_invariant {I P : σ → Prop}
    (hstep : ∀ s a s', I s → step s a = some s' → I s') (hP : ∀ s, I s → P s) (h₀ : I s) :
    Throughout step P s as := by
  induction as generalizing s with
  | nil => exact hP s h₀
  | cons a as ih => exact ⟨hP s h₀, fun s' hs => ih (hstep s a s' h₀ hs)⟩

/-- **The exact rule for every state of a run**, under an invariant: if a step that starts in a good state leads
to a good one just when it meets the guard, then a run that starts in a good state comes through good states
only just when every step met the guard. -/
theorem throughout_iff_of_invariant {G : σ → α → Prop} {I P : σ → Prop}
    (hinv : ∀ s a s', I s → step s a = some s' → I s')
    (hP : ∀ s a s', I s → P s → step s a = some s' → (P s' ↔ G s a))
    (hI : I s) (h₀ : P s) (h : run step s as = some s') :
    Throughout step P s as ↔ Guarded step G s as := by
  induction as generalizing s with
  | nil => exact iff_of_true h₀ trivial
  | cons a as ih =>
      obtain ⟨s₁, h₁, h₂⟩ := run_cons_eq_some h
      have hI₁ := hinv s a s₁ hI h₁
      rw [guarded_cons h₁]
      constructor
      · rintro ⟨-, hrest⟩
        have hthrough := hrest s₁ h₁
        -- the state after the first step is the first of the rest
        have hgood : P s₁ := by
          cases as with
          | nil => exact hthrough
          | cons b as => exact hthrough.1
        exact ⟨(hP s a s₁ hI h₀ h₁).mp hgood, (ih hI₁ hgood h₂).mp hthrough⟩
      · rintro ⟨hguard, hrest⟩
        have hgood := (hP s a s₁ hI h₀ h₁).mpr hguard
        refine ⟨h₀, fun s₂ hs₂ => ?_⟩
        rw [h₁] at hs₂
        cases hs₂
        exact (ih hI₁ hgood h₂).mpr hrest

/-- The exact rule for every state of a run, where a step needs no invariant. -/
theorem throughout_iff {G : σ → α → Prop} {P : σ → Prop}
    (hP : ∀ s a s', P s → step s a = some s' → (P s' ↔ G s a))
    (h₀ : P s) (h : run step s as = some s') : Throughout step P s as ↔ Guarded step G s as :=
  throughout_iff_of_invariant (I := fun _ => True) (fun _ _ _ _ _ => trivial)
    (fun s a s' _ => hP s a s') trivial h₀ h

end LimbWorker.Lib

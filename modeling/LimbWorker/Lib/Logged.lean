import LimbWorker.Lib.StepSystem

/-!
# Step systems with a log

What an observer writes down while a step system runs. `logged step note` is the same system with a log
beside its state: a step appends what `note` says of it. The log is enabled or disabled by nothing, so
the runs are those of `step` (`run_of_logged`, `exists_logged`), and what is known of a log is proved as an
invariant of the logged system.

Order in time is order in the log. `Justified why log` says that each entry was preceded by what `why`
asks for; it grows entry by entry (`justified_concat`). `Alternates opens log` is for entries of two kinds that
take turns, the opening kind first; it grows by an entry of the other kind than the last
(`alternates_concat`).
-/

namespace LimbWorker.Lib

variable {σ α ε : Type*}

/-- The system with a log of its steps. -/
def logged (step : σ → α → Option σ) (note : σ → α → List ε) :
    σ × List ε → α → Option (σ × List ε)
  | (s, log), a => (step s a).map fun s' => (s', log ++ note s a)

/-- Each entry of the log was written when the log before it met `why`. -/
def Justified (why : List ε → ε → Prop) (log : List ε) : Prop :=
  ∀ before e after, log = before ++ e :: after → why before e

variable {step : σ → α → Option σ} {note : σ → α → List ε} {s s' : σ} {log log' : List ε} {a : α}
  {as : List α}

/-! ## Runs -/

/-- Inversion of a step: one of the system, and a longer log. -/
theorem logged_eq_some (h : logged step note (s, log) a = some (s', log')) :
    step s a = some s' ∧ log' = log ++ note s a := by
  obtain ⟨s₁, hs, heq⟩ := Option.map_eq_some_iff.mp h
  cases heq
  exact ⟨hs, rfl⟩

/-- Without its log a run is a run of the system. -/
theorem run_of_logged (h : run (logged step note) (s, log) as = some (s', log')) :
    run step s as = some s' := by
  induction as generalizing s log with
  | nil =>
      cases h
      rfl
  | cons a as ih =>
      obtain ⟨⟨s₁, log₁⟩, h₁, h₂⟩ := run_cons_eq_some h
      rw [run_cons, (logged_eq_some h₁).1]
      exact ih h₂

/-- Every run has a log. -/
theorem exists_logged (log : List ε) (h : run step s as = some s') :
    ∃ log', run (logged step note) (s, log) as = some (s', log') := by
  induction as generalizing s log with
  | nil =>
      cases h
      exact ⟨log, rfl⟩
  | cons a as ih =>
      obtain ⟨s₁, h₁, h₂⟩ := run_cons_eq_some h
      obtain ⟨log', hlog'⟩ := ih (log ++ note s a) h₂
      refine ⟨log', ?_⟩
      rw [run_cons, logged, h₁]
      exact hlog'

/-- A guard that does not look at the log. -/
theorem guarded_logged {guard : σ → α → Prop} :
    Guarded (logged step note) (fun s a => guard s.1 a) (s, log) as ↔ Guarded step guard s as := by
  induction as generalizing s log with
  | nil => exact Iff.rfl
  | cons a as ih =>
      constructor
      · rintro ⟨ha, hrest⟩
        exact ⟨ha, fun s' hs => ih.mp (hrest (s', log ++ note s a) (by rw [logged, hs]; rfl))⟩
      · rintro ⟨ha, hrest⟩
        refine ⟨ha, fun s' hs => ?_⟩
        obtain ⟨s₁, hs₁, rfl⟩ := Option.map_eq_some_iff.mp hs
        exact ih.mpr (hrest s₁ hs₁)

/-- **Simulation with logs**: if, under an invariant, a step of one system is along `f` a step of another one that is
noted in the same words, then the runs leave the same logs. -/
theorem run_logged_map {τ : Type*} {step' : τ → α → Option τ} {note' : τ → α → List ε} {f : σ → τ} {I : σ → Prop}
    (hstep : ∀ s a s', I s → step s a = some s' → I s' ∧ step' (f s) a = some (f s') ∧ note' (f s) a = note s a)
    (h₀ : I s) (h : run (logged step note) (s, log) as = some (s', log')) :
    run (logged step' note') (f s, log) as = some (f s', log') := by
  induction as generalizing s log with
  | nil =>
      cases h
      rfl
  | cons a as ih =>
      obtain ⟨⟨s₁, log₁⟩, h₁, h₂⟩ := run_cons_eq_some h
      obtain ⟨hs, rfl⟩ := logged_eq_some h₁
      obtain ⟨hI, hs', hnote⟩ := hstep s a s₁ h₀ hs
      rw [run_cons, logged, hs', Option.map_some, Option.bind_some, hnote]
      exact ih hI h₂

/-! ## Justified logs -/

/-- Events that a log shows in order, with the newest one. -/
theorem sublist_concat {events : List ε} (e : ε) (h : events.Sublist log) :
    (events ++ [e]).Sublist (log ++ [e]) :=
  h.append (List.Sublist.refl _)

theorem justified_nil {why : List ε → ε → Prop} : Justified why [] := by
  intro before e after h
  cases before <;> cases h

/-- A justified log with one more entry. -/
theorem justified_concat {why : List ε → ε → Prop} {e : ε} (h : Justified why log)
    (he : why log e) : Justified why (log ++ [e]) := by
  intro before e' after heq
  rcases List.eq_nil_or_concat after with rfl | ⟨after, last, rfl⟩
  · obtain ⟨rfl, hlast⟩ := List.append_inj' heq rfl
    cases hlast
    exact he
  · rw [List.concat_eq_append, ← List.cons_append, ← List.append_assoc] at heq
    exact h before e' after (List.append_inj' heq rfl).1

/-! ## Entries that take turns -/

/-- The entries are of the opening kind and of the other kind by turns. -/
def Alternates (opens : ε → Bool) (log : List ε) : Prop :=
  ∀ k e, log[k]? = some e → (opens e = true ↔ k % 2 = 0)

theorem alternates_nil {opens : ε → Bool} : Alternates opens [] := by
  intro k e h
  cases h

/-- What is of the opening kind comes after nothing, or after an entry of the other kind. -/
theorem alternates_concat {opens : ε → Bool} {e : ε} (h : Alternates opens log)
    (he : opens e = true ↔ ∀ last, log.getLast? = some last → opens last = false) :
    Alternates opens (log ++ [e]) := by
  intro k e' hk
  rcases Nat.lt_or_ge k log.length with hlt | hge
  · rw [List.getElem?_append_left hlt] at hk
    exact h k e' hk
  · rw [List.getElem?_append_right hge] at hk
    obtain ⟨hzero, heq⟩ := List.getElem?_eq_some_iff.mp hk
    obtain rfl : k = log.length := by
      have := List.length_singleton (a := e)
      omega
    have hsame : e = e' := by simpa using heq
    rw [← hsame, he]
    -- the last entry so far sits at the position before
    cases hlast : log.getLast? with
    | none =>
        rw [List.getLast?_eq_none_iff.mp hlast]
        simp
    | some last =>
        have hpos : log.length ≠ 0 := by
          intro hnil
          rw [List.length_eq_zero_iff.mp hnil] at hlast
          cases hlast
        rw [List.getLast?_eq_getElem?] at hlast
        have hturn := h _ _ hlast
        constructor
        · intro hother
          rw [hother last rfl] at hturn
          simp only [Bool.false_eq_true, false_iff] at hturn
          omega
        · intro heven last' hlast'
          cases hlast'
          rw [← Bool.not_eq_true]
          intro hopens
          have := hturn.mp hopens
          omega

end LimbWorker.Lib

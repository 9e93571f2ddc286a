import LimbWorker.Lib.StepSystem

/-!
# Transactions

A *transaction* is a program that works on the value under one key of a store. Run by itself it turns a value into a
result and a new value (`exec`); run by one of many threads it takes one step at a time, and the others' steps come
in between.

`Shared` is the store with the jobs that are under way; every job has a key and a transaction. `serializable` says
that as long as jobs under way at the same time have different keys, they end as if each had been run by itself, one
after the other, in the order in which they end.
-/

namespace LimbWorker.Lib

universe u

/-- A program over one value: it ends, looks at the value, or replaces it. -/
inductive Transaction (ν ρ : Type u) where
  | done (result : ρ)
  | get (next : ν → Transaction ν ρ)
  | put (value : ν) (next : Transaction ν ρ)

namespace Transaction

variable {ν ρ ρ' : Type u}

/-- The result, and the value afterwards. -/
def exec : Transaction ν ρ → ν → ρ × ν
  | .done result, value => (result, value)
  | .get next, value => (next value).exec value
  | .put value next, _ => next.exec value

/-- One program after the other. -/
protected def bind : Transaction ν ρ → (ρ → Transaction ν ρ') → Transaction ν ρ'
  | .done result, f => f result
  | .get next, f => .get fun value => (next value).bind f
  | .put value next, f => .put value (next.bind f)

instance : Monad (Transaction ν) where
  pure := .done
  bind := Transaction.bind

@[simp] theorem exec_pure (result : ρ) (value : ν) :
    (pure result : Transaction ν ρ).exec value = (result, value) := rfl

@[simp] theorem exec_get (next : ν → Transaction ν ρ) (value : ν) :
    (Transaction.get next).exec value = (next value).exec value := rfl

@[simp] theorem exec_put (value value' : ν) (next : Transaction ν ρ) :
    (Transaction.put value' next).exec value = next.exec value' := rfl

@[simp] theorem exec_bind (x : Transaction ν ρ) (f : ρ → Transaction ν ρ') (value : ν) :
    (x >>= f).exec value = (f (x.exec value).1).exec (x.exec value).2 := by
  show (Transaction.bind x f).exec value = _
  induction x generalizing value with
  | done result => rfl
  | get next ih => exact ih value value
  | put value' next ih => exact ih value'

end Transaction

/-! ## One after the other -/

section Serial

variable {β κ ν ρ : Type u} [DecidableEq κ] (key : β → κ) (program : β → Transaction ν ρ)

/-- The store after a job. -/
def storeAfter (store : κ → ν) (job : β) : κ → ν :=
  Function.update store (key job) ((program job).exec (store (key job))).2

/-- The store after the jobs, each by itself. -/
def serially (store : κ → ν) (jobs : List β) : κ → ν := jobs.foldl (storeAfter key program) store

/-- The jobs and their results, each by itself. -/
def serialResults (store : κ → ν) : List β → List (β × ρ)
  | [] => []
  | job :: rest =>
      (job, ((program job).exec (store (key job))).1) :: serialResults (storeAfter key program store job) rest

theorem serially_concat (store : κ → ν) (jobs : List β) (job : β) :
    serially key program store (jobs ++ [job]) = storeAfter key program (serially key program store jobs) job := by
  rw [serially, List.foldl_append]
  rfl

theorem serialResults_concat (store : κ → ν) (jobs : List β) (job : β) :
    serialResults key program store (jobs ++ [job]) = serialResults key program store jobs ++
      [(job, ((program job).exec (serially key program store jobs (key job))).1)] := by
  induction jobs generalizing store with
  | nil => rfl
  | cons job' jobs ih => exact congrArg (_ :: ·) (ih _)

end Serial

/-! ## All at once -/

/-- A job under way, and what is left of its transaction. -/
structure Opened (β ν ρ : Type u) where
  job : β
  rest : Transaction ν ρ

/-- The store, what each thread has under way, and what has ended, with its result, the earliest first. -/
structure Shared (τ β κ ν ρ : Type u) where
  store : κ → ν
  opened : τ → Option (Opened β ν ρ)
  ended : List (β × ρ)

/-- A thread begins a job, or goes on with the one that it has under way. -/
inductive SharedAction (τ β : Type u) where
  | begin (t : τ) (job : β)
  | go (t : τ)

namespace Shared

variable {τ β κ ν ρ : Type u} [DecidableEq τ] [DecidableEq κ] (key : β → κ) (program : β → Transaction ν ρ)

omit [DecidableEq τ] [DecidableEq κ] in
/-- Nothing is under way. -/
def start (store : κ → ν) : Shared τ β κ ν ρ := ⟨store, fun _ => none, []⟩

/-- One step of a transaction. -/
def goOn (s : Shared τ β κ ν ρ) (t : τ) (o : Opened β ν ρ) : Shared τ β κ ν ρ :=
  match o.rest with
  | .done result => { s with opened := Function.update s.opened t none, ended := s.ended ++ [(o.job, result)] }
  | .get next =>
      { s with opened := Function.update s.opened t (some ⟨o.job, next (s.store (key o.job))⟩) }
  | .put value next =>
      { s with
        store := Function.update s.store (key o.job) value
        opened := Function.update s.opened t (some ⟨o.job, next⟩) }

/-- One step. -/
def step (s : Shared τ β κ ν ρ) : SharedAction τ β → Option (Shared τ β κ ν ρ)
  | .begin t job =>
      if (s.opened t).isNone then
        some { s with opened := Function.update s.opened t (some ⟨job, program job⟩) }
      else none
  | .go t => (s.opened t).map (s.goOn key t)

omit [DecidableEq τ] [DecidableEq κ] in
/-- A job begins only while no other one with its key is under way. -/
def Apart (s : Shared τ β κ ν ρ) : SharedAction τ β → Prop
  | .begin _ job => ∀ t o, s.opened t = some o → key o.job ≠ key job
  | .go _ => True

omit [DecidableEq τ] in
/-- What has ended is as if it had been run one after the other, and what is under way will end as if it had
begun now. -/
structure Serial (store₀ : κ → ν) (s : Shared τ β κ ν ρ) : Prop where
  results : s.ended = serialResults key program store₀ (s.ended.map Prod.fst)
  untouched : ∀ k, (∀ t o, s.opened t = some o → key o.job ≠ k) →
    s.store k = serially key program store₀ (s.ended.map Prod.fst) k
  rest : ∀ t o, s.opened t = some o → o.rest.exec (s.store (key o.job)) =
    (program o.job).exec (serially key program store₀ (s.ended.map Prod.fst) (key o.job))
  apart : ∀ t t' o o', s.opened t = some o → s.opened t' = some o' → key o.job = key o'.job → t = t'

variable {key program} {store₀ : κ → ν} {s s' : Shared τ β κ ν ρ}

omit [DecidableEq τ] in
theorem serial_start : Serial key program store₀ (start store₀ : Shared τ β κ ν ρ) where
  results := rfl
  untouched := fun _ _ => rfl
  rest := fun _ _ h => by cases h
  apart := fun _ _ _ _ h => by cases h

/-- A job that begins will end as if it had begun now. -/
theorem Serial.begin {t : τ} {job : β} (h : Serial key program store₀ s) (hidle : s.opened t = none)
    (hapart : ∀ t o, s.opened t = some o → key o.job ≠ key job) :
    Serial key program store₀
      { s with opened := Function.update s.opened t (some ⟨job, program job⟩) } where
  results := h.results
  untouched := by
    intro k hk
    refine h.untouched k fun t' o ho => hk t' o ?_
    have ht : t' ≠ t := by
      rintro rfl
      rw [hidle] at ho
      cases ho
    exact (Function.update_of_ne ht _ _).trans ho
  rest := by
    intro t' o ho
    dsimp only at ho ⊢
    by_cases ht : t' = t
    · subst ht
      rw [Function.update_self] at ho
      cases ho
      -- nobody has this key open, so the whole program is still to run on the store as it was
      rw [h.untouched (key job) hapart]
    · rw [Function.update_of_ne ht] at ho
      exact h.rest t' o ho
  apart := by
    intro t₁ t₂ o₁ o₂ h₁ h₂ hkey
    dsimp only at h₁ h₂
    rw [Function.update_apply] at h₁ h₂
    -- two open jobs of one key: both the new one, both old, or one of each, which the key excludes
    split at h₁ <;> split at h₂
    · next ht₁ ht₂ => rw [ht₁, ht₂]
    · cases h₁
      exact absurd hkey.symm (hapart t₂ o₂ h₂)
    · cases h₂
      exact absurd hkey (hapart t₁ o₁ h₁)
    · exact h.apart t₁ t₂ o₁ o₂ h₁ h₂ hkey

omit [DecidableEq κ] in
/-- A thread whose transaction goes on has the same job under way. -/
theorem opened_of_update {t t' : τ} {o o₁ : Opened β ν ρ} {next : Transaction ν ρ} (ho : s.opened t = some o)
    (h : Function.update s.opened t (some ⟨o.job, next⟩) t' = some o₁) :
    ∃ o₂, s.opened t' = some o₂ ∧ o₂.job = o₁.job := by
  rw [Function.update_apply] at h
  split at h
  · next ht =>
    cases h
    exact ⟨o, ht ▸ ho, rfl⟩
  · exact ⟨o₁, h, rfl⟩

/-- Under a key that no other thread works on, the store is as it will be without the job of `t`. -/
theorem Serial.untouched_of_ne {t : τ} {o : Opened β ν ρ} {k : κ} (h : Serial key program store₀ s)
    (ho : s.opened t = some o) (hk : k ≠ key o.job)
    (hothers : ∀ t' o', t' ≠ t → s.opened t' = some o' → key o'.job ≠ k) :
    s.store k = serially key program store₀ (s.ended.map Prod.fst) k := by
  refine h.untouched k fun t' o' ho' => ?_
  by_cases ht : t' = t
  · rw [ht, ho] at ho'
    cases ho'
    exact Ne.symm hk
  · exact hothers t' o' ht ho'

omit [DecidableEq τ] in
/-- The other threads have other keys. -/
theorem Serial.key_ne {t t' : τ} {o o' : Opened β ν ρ} (h : Serial key program store₀ s)
    (ho : s.opened t = some o) (ht : t' ≠ t) (ho' : s.opened t' = some o') : key o'.job ≠ key o.job :=
  fun hkey => ht (h.apart t' t o' o ho' ho hkey)

/-- A thread that goes on with its job keeps its key. -/
theorem Serial.apart_update {t : τ} {o : Opened β ν ρ} {next : Transaction ν ρ}
    (h : Serial key program store₀ s) (ho : s.opened t = some o) {t₁ t₂ : τ} {o₁ o₂ : Opened β ν ρ}
    (h₁ : Function.update s.opened t (some ⟨o.job, next⟩) t₁ = some o₁)
    (h₂ : Function.update s.opened t (some ⟨o.job, next⟩) t₂ = some o₂) (hkey : key o₁.job = key o₂.job) :
    t₁ = t₂ := by
  obtain ⟨o₁', h₁', hjob₁⟩ := opened_of_update ho h₁
  obtain ⟨o₂', h₂', hjob₂⟩ := opened_of_update ho h₂
  exact h.apart t₁ t₂ o₁' o₂' h₁' h₂' (by rw [hjob₁, hjob₂, hkey])

/-- A job ends as it would have by itself. -/
theorem Serial.done {t : τ} {o : Opened β ν ρ} {result : ρ} (h : Serial key program store₀ s)
    (ho : s.opened t = some o) (hrest : o.rest = .done result) :
    Serial key program store₀
      { s with opened := Function.update s.opened t none, ended := s.ended ++ [(o.job, result)] } := by
  have hexec := h.rest t o ho
  rw [hrest] at hexec
  refine ⟨?_, fun k hk => ?_, fun t' o' ho' => ?_, fun t₁ t₂ o₁ o₂ h₁ h₂ => ?_⟩
  · rw [List.map_append, List.map_singleton, serialResults_concat, ← h.results, ← hexec]
    rfl
  · rw [List.map_append, List.map_singleton, serially_concat, storeAfter]
    by_cases hkey : k = key o.job
    · subst hkey
      -- the store has under this key what the ended program left there
      rw [Function.update_self]
      exact congrArg Prod.snd hexec
    · rw [Function.update_of_ne hkey]
      exact h.untouched_of_ne ho hkey fun t' o' ht ho' => hk t' o' ((Function.update_of_ne ht _ _).trans ho')
  · have ht : t' ≠ t := by
      rintro rfl
      simp at ho'
    dsimp only at ho' ⊢
    rw [Function.update_of_ne ht] at ho'
    rw [List.map_append, List.map_singleton, serially_concat, storeAfter,
      Function.update_of_ne (h.key_ne ho ht ho')]
    exact h.rest t' o' ho'
  · dsimp only at h₁ h₂
    rw [Function.update_apply] at h₁ h₂
    split at h₁
    · cases h₁
    · split at h₂
      · cases h₂
      · exact h.apart t₁ t₂ o₁ o₂ h₁ h₂

/-- Looking at the value changes nothing. -/
theorem Serial.get {t : τ} {o : Opened β ν ρ} {next : ν → Transaction ν ρ} (h : Serial key program store₀ s)
    (ho : s.opened t = some o) (hrest : o.rest = .get next) :
    Serial key program store₀
      { s with opened := Function.update s.opened t (some ⟨o.job, next (s.store (key o.job))⟩) } := by
  have hexec := h.rest t o ho
  rw [hrest] at hexec
  refine ⟨h.results, fun k hk => h.untouched k fun t' o' ho' => ?_, fun t' o' ho' => ?_,
    fun t₁ t₂ o₁ o₂ h₁ h₂ => h.apart_update ho h₁ h₂⟩
  · by_cases ht : t' = t
    · rw [ht, ho] at ho'
      cases ho'
      exact hk t ⟨o.job, next (s.store (key o.job))⟩ (Function.update_self _ _ _)
    · exact hk t' o' ((Function.update_of_ne ht _ _).trans ho')
  · dsimp only at ho'
    rw [Function.update_apply] at ho'
    split at ho'
    · cases ho'
      exact hexec
    · exact h.rest t' o' ho'

/-- Replacing the value is nothing that the others see. -/
theorem Serial.put {t : τ} {o : Opened β ν ρ} {value : ν} {next : Transaction ν ρ}
    (h : Serial key program store₀ s) (ho : s.opened t = some o) (hrest : o.rest = .put value next) :
    Serial key program store₀
      { s with
        store := Function.update s.store (key o.job) value
        opened := Function.update s.opened t (some ⟨o.job, next⟩) } := by
  have hexec := h.rest t o ho
  rw [hrest] at hexec
  refine ⟨h.results, fun k hk => ?_, fun t' o' ho' => ?_, fun t₁ t₂ o₁ o₂ h₁ h₂ => h.apart_update ho h₁ h₂⟩
  · have hne : k ≠ key o.job := Ne.symm (hk t ⟨o.job, next⟩ (Function.update_self _ _ _))
    dsimp only
    rw [Function.update_of_ne hne]
    exact h.untouched_of_ne ho hne fun t' o' ht ho' => hk t' o' ((Function.update_of_ne ht _ _).trans ho')
  · dsimp only at ho' ⊢
    by_cases ht : t' = t
    · rw [ht, Function.update_self] at ho'
      cases ho'
      dsimp only
      rw [Function.update_self]
      exact hexec
    · rw [Function.update_of_ne ht] at ho'
      rw [Function.update_of_ne (h.key_ne ho ht ho')]
      exact h.rest t' o' ho'

/-- A step of a transaction changes nothing of how its job will end, nor anything under the keys of the others. -/
theorem Serial.goOn {t : τ} {o : Opened β ν ρ} (h : Serial key program store₀ s) (ho : s.opened t = some o) :
    Serial key program store₀ (s.goOn key t o) := by
  unfold Shared.goOn
  split
  · next result hrest => exact h.done ho hrest
  · next next hrest => exact h.get ho hrest
  · next value next hrest => exact h.put ho hrest

theorem Serial.step {act : SharedAction τ β} (h : Serial key program store₀ s) (hapart : s.Apart key act)
    (hs : s.step key program act = some s') : Serial key program store₀ s' := by
  cases act with
  | begin t job =>
      obtain ⟨hidle, hs⟩ := Option.ite_none_right_eq_some.mp hs
      cases hs
      exact h.begin (Option.isNone_iff_eq_none.mp hidle) hapart
  | go t =>
      obtain ⟨o, ho, rfl⟩ := Option.map_eq_some_iff.mp hs
      exact h.goOn ho

/-- **Serializability**: jobs that never have the same key under way at the same time end as if each had been run
by itself, one after the other. -/
theorem serializable {acts : List (SharedAction τ β)}
    (h : run (step key program) (start store₀ : Shared τ β κ ν ρ) acts = some s)
    (hapart : Guarded (step key program) (Apart key) (start store₀ : Shared τ β κ ν ρ) acts) :
    Serial key program store₀ s :=
  guarded_invariant (fun _ _ _ hserial hguard hs => hserial.step hguard hs) serial_start h hapart

end Shared

end LimbWorker.Lib

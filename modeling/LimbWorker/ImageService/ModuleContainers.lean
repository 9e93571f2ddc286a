import LimbWorker.ImageService.LazyInit

/-!
# The containers of the modules

`RealesrganContainer` and `RmbgContainer`, with the calls that they make on the GPU instance of their library.
An `init` that fails calls `deinit` itself, so it leaves the instance destroyed. Whoever calls `deinit` after
that destroys it once more; where every `init` succeeds, creating and destroying take turns.
-/

namespace LimbWorker.ImageService

open Lib

/-- A call of `ncnn::create_gpu_instance` or `ncnn::destroy_gpu_instance`. -/
inductive GpuCall where
  | create_gpu_instance
  | destroy_gpu_instance
  deriving DecidableEq, Repr

def GpuCall.creates : GpuCall → Bool
  | create_gpu_instance => true
  | destroy_gpu_instance => false

/-! ## The two containers -/

/-- `RealesrganContainer`: whether `net` is not null. -/
structure RealesrganContainer where
  net : Bool
  deriving DecidableEq, Repr

namespace RealesrganContainer

/-- `RealesrganContainer::deinit`. -/
def deinit (_ : RealesrganContainer) : Traced GpuCall Empty (ReturnStatus × RealesrganContainer) := do
  .emit .destroy_gpu_instance
  return (.kOk, ⟨false⟩)

/-- `RealesrganContainer::init`, with what `load_param` and `load_model` return. -/
def init (_ : RealesrganContainer) (load_param load_model : Int) :
    Traced GpuCall Empty (ReturnStatus × RealesrganContainer) := do
  .emit .create_gpu_instance
  let this : RealesrganContainer := ⟨true⟩
  if load_param ≠ 0 then
    let (_, this) ← this.deinit
    return (.kAborted, this)
  else if load_model ≠ 0 then
    let (_, this) ← this.deinit
    return (.kAborted, this)
  else
    return (.kOk, this)

/-- `tryAcquireProcessor` returns null without a net. -/
def tryAcquireProcessor (this : RealesrganContainer) : Bool := this.net

end RealesrganContainer

/-- `RmbgContainer`: whether `session` is not null, and the buffer. -/
structure RmbgContainer where
  session : Bool
  modelBuffer : Bytes
  deriving DecidableEq, Repr

namespace RmbgContainer

/-- `loadFile`: a file that cannot be opened, one whose length cannot be had, or its bytes. -/
def loadFile (buffer : Bytes) : Option (Option Bytes) → ReturnStatus × Bytes
  | none => (.kNotFound, buffer)
  | some none => (.kAborted, buffer)
  | some (some bytes) => (.kOk, bytes)

/-- `RmbgContainer::deinit`. -/
def deinit (_ : RmbgContainer) : Traced GpuCall Empty (ReturnStatus × RmbgContainer) := do
  .emit .destroy_gpu_instance
  return (.kOk, ⟨false, []⟩)

/-- `RmbgContainer::init`; a session can be made of a model that was read. -/
def init (this : RmbgContainer) (file : Option (Option Bytes)) :
    Traced GpuCall Empty (ReturnStatus × RmbgContainer) := do
  .emit .create_gpu_instance
  let (ret, modelBuffer) := loadFile this.modelBuffer file
  let this := { this with modelBuffer := modelBuffer }
  if ret ≠ .kOk then
    let (_, this) ← this.deinit
    return (.kNotFound, this)
  else
    return (.kOk, { this with session := true })

/-- `tryAcquireProcessor` returns null without a session. -/
def tryAcquireProcessor (this : RmbgContainer) : Bool := this.session

end RmbgContainer

/-! ## The GPU instance -/

/-- The calls on the GPU instance during a lifecycle call. -/
def gpuCalls : LifecycleCall → List GpuCall
  | .init _ .kOk => [.create_gpu_instance]
  | .init _ _ => [.create_gpu_instance, .destroy_gpu_instance]
  | .deinit _ => [.destroy_gpu_instance]

/-- What an `init` is to the provider: it succeeds and leaves something to acquire processors from, or it fails
and leaves nothing; the status tells which, and which calls it made on the GPU instance. -/
def InitOutcome (c : ContainerId) (outcome : Traced GpuCall Empty (ReturnStatus × Bool)) : Prop :=
  ∃ ret usable, outcome.result = .ok (ret, usable) ∧ (ret = .kOk ↔ usable = true) ∧
    outcome.events = gpuCalls (.init c ret)

/-- Both files are needed. -/
theorem RealesrganContainer.init_outcome (this : RealesrganContainer) (load_param load_model : Int)
    (c : ContainerId) :
    InitOutcome c (do
      let (ret, this) ← this.init load_param load_model
      return (ret, this.tryAcquireProcessor)) := by
  unfold RealesrganContainer.init
  by_cases hparam : load_param ≠ 0
  · simp only [if_pos hparam]
    exact ⟨.kAborted, false, rfl, by decide, rfl⟩
  · by_cases hmodel : load_model ≠ 0
    · simp only [if_neg hparam, if_pos hmodel]
      exact ⟨.kAborted, false, rfl, by decide, rfl⟩
    · simp only [if_neg hparam, if_neg hmodel]
      exact ⟨.kOk, true, rfl, by decide, rfl⟩

/-- The model file is needed. -/
theorem RmbgContainer.init_outcome (this : RmbgContainer) (file : Option (Option Bytes)) (c : ContainerId) :
    InitOutcome c (do
      let (ret, this) ← this.init file
      return (ret, this.tryAcquireProcessor)) := by
  unfold RmbgContainer.init
  cases file with
  | none => exact ⟨.kNotFound, false, rfl, by decide, rfl⟩
  | some length =>
      cases length with
      | none => exact ⟨.kNotFound, false, rfl, by decide, rfl⟩
      | some bytes => exact ⟨.kOk, true, rfl, by decide, rfl⟩

namespace ProcessorInitializer

/-- Every `init` so far has succeeded. -/
def AllSucceeded (log : List LifecycleCall) : Prop := ∀ c returned, .init c returned ∈ log → returned = .kOk

theorem AllSucceeded.step {s s' : ProcessorInitializer × List LifecycleCall} {call : InitializerCall}
    (hinv : Inv s.1) (h : AllSucceeded s.2) (hcall : InitSucceeds s call)
    (hstep : lived s call = some s') : AllSucceeded s'.2 := by
  rw [lived_eq_some hstep]
  intro c returned hmem
  rcases List.mem_append.mp hmem with hold | hnew
  · exact h c returned hold
  · cases call with
    | addContainer index c' => cases hnew
    -- what is heard on removal is a `deinit`
    | removeContainer index =>
        rw [(hinv.removeContainer index).2.2] at hnew
        split at hnew
        · cases hc₀ : s.1.stored index with
          | none =>
              rw [hc₀] at hnew
              cases hnew
          | some c₀ =>
              rw [hc₀] at hnew
              cases List.mem_singleton.mp hnew
        · cases hnew
    | acquireContainer index returned' =>
        cases hc₀ : s.1.stored index with
        | none =>
            rw [(acquireContainer_of_not_stored hc₀ returned').2.2] at hnew
            cases hnew
        | some c₀ =>
            rw [(acquireContainer_of_stored hc₀ returned').2.2.2] at hnew
            split at hnew
            · cases hnew
            · next hmem' =>
              -- the first acquisition calls `init`, which the guard says succeeds
              cases List.mem_singleton.mp hnew
              exact hcall (by rw [hc₀]; exact Option.some_ne_none _) hmem'
    | reclaimContainer c' => cases hnew

/-- Then an `init` only creates the instance. -/
theorem AllSucceeded.flatMap_gpuCalls {log : List LifecycleCall} (h : AllSucceeded log) :
    log.flatMap gpuCalls =
      log.map fun e => if e.isInit then .create_gpu_instance else .destroy_gpu_instance := by
  induction log with
  | nil => rfl
  | cons e log ih =>
      rw [List.flatMap_cons, List.map_cons,
        ih fun c returned hmem => h c returned (List.mem_cons_of_mem e hmem)]
      cases e with
      | init c returned =>
          rw [h c returned List.mem_cons_self]
          rfl
      | deinit c => rfl

/-- **The GPU instance of a library** is created and destroyed by turns, as long as no container is added while
it is stored and every `init` succeeds. -/
theorem gpu_instance_alternates {calls : List InitializerCall}
    {s : ProcessorInitializer × List LifecycleCall}
    (hdistinct : Guarded lived AddsDistinct (empty, []) calls)
    (hsucceeds : Guarded lived InitSucceeds (empty, []) calls)
    (hrun : run lived (empty, []) calls = some s) (c : ContainerId) :
    Alternates GpuCall.creates ((callsOf s.2 c).flatMap gpuCalls) := by
  have hlazy : Lazy s :=
    guarded_invariant (fun _ _ _ hs hcall hstep => hs.step hcall hstep) lazy_empty hrun hdistinct
  have hall : Inv s.1 ∧ AllSucceeded s.2 :=
    guarded_invariant (I := fun s => Inv s.1 ∧ AllSucceeded s.2)
      (fun s call s' hs hcall hstep => ⟨by
        rw [lived_eq_some hstep]
        exact hs.1.perform call, hs.2.step hs.1 hcall hstep⟩)
      ⟨inv_empty, fun c returned hmem => absurd hmem List.not_mem_nil⟩ hrun hsucceeds
  have hown : AllSucceeded (callsOf s.2 c) := fun c' returned hmem =>
    hall.2 c' returned (List.mem_filter.mp hmem).1
  rw [hown.flatMap_gpuCalls]
  intro k e hk
  rw [List.getElem?_map, Option.map_eq_some_iff] at hk
  obtain ⟨e', he', rfl⟩ := hk
  rw [← hlazy.alternates c k e' he']
  cases e' with
  | init c returned => exact iff_of_true rfl rfl
  | deinit c => exact iff_of_false Bool.false_ne_true Bool.false_ne_true

end ProcessorInitializer

end LimbWorker.ImageService

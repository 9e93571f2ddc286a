import LimbWorker.Lib.StepSystem
import LimbWorker.PluginLoading

/-!
# The handles of the loader

The loader opens a library once for each module that it registers, and once more while it looks whether it can use it;
`unload` closes what the modules keep open. Libraries stay in the process as long as somebody has them open, so the
loader sees what the rest of the process does with them, and the rest of the process what the loader does.

`handles_exact` is about the loader in a process that goes on opening and closing libraries: the loader has a handle
open for each of its modules and no other, and what it finds when it reloads are the plug-ins that others keep open. Its
own handles are closed by then.
-/

namespace LimbWorker

open Lib

/-- The loader scans its directories again, as they are at that time, or is destroyed; the rest of the process opens or
closes a library. -/
inductive HandleAction (Λ : Type) where
  | reload (subdirectories : String → Option (List (List (DirEntry Λ)))) (m_loadDirectories : List String)
  | unload
  | openElsewhere (library : Λ)
  | closeElsewhere (library : Λ)

namespace LoaderProcess

variable {Λ : Type} [DecidableEq Λ] (linker : Linker Λ)

/-- One action; the rest of the process closes only what it has open. -/
def step (p : LoaderProcess Λ) : HandleAction Λ → Option (LoaderProcess Λ)
  | .reload subdirectories m_loadDirectories =>
      some (p.unload.loadDirectories linker subdirectories m_loadDirectories)
  | .unload => some p.unload
  | .openElsewhere library =>
      some { p with references := Function.update p.references library (p.references library + 1) }
  | .closeElsewhere library =>
      if p.m_modules.count library < p.references library then some (unloadLibrary library p) else none

/-- The process without the loader. -/
def elsewhere (references : Λ → Nat) : HandleAction Λ → Option (Λ → Nat)
  | .reload _ _ | .unload => some references
  | .openElsewhere library => some (Function.update references library (references library + 1))
  | .closeElsewhere library =>
      if 0 < references library then some (Function.update references library (references library - 1)) else none

/-- The handles are those of the rest of the process, and one for each module. -/
def Accounts (p : LoaderProcess Λ) (references : Λ → Nat) : Prop :=
  ∀ library, p.references library = references library + p.m_modules.count library

variable {p p' : LoaderProcess Λ} {references : Λ → Nat}

/-- Without its modules the loader has nothing open. -/
theorem Accounts.unload (h : Accounts p references) : p.unload = ⟨references, []⟩ := by
  refine LoaderProcess.ext ?_ rfl
  funext library
  show (p.m_modules.foldl (fun p handle => unloadLibrary handle p) p).references library = references library
  rw [references_foldl_unloadLibrary, h library, Nat.add_sub_cancel]

/-- **Reloading** registers the plug-ins that others keep open. -/
theorem Accounts.reload (h : Accounts p references) (subdirectories : String → Option (List (List (DirEntry Λ))))
    (equivalent : String → String → Option Bool) (paths : List String) :
    (p.unload.loadDirectories linker subdirectories paths).m_modules =
        LoaderImpl.foundModules (fileSystem linker subdirectories equivalent ⟨references, []⟩) paths ∧
      Accounts (p.unload.loadDirectories linker subdirectories paths) references := by
  rw [h.unload, loadDirectories_eq linker subdirectories equivalent]
  refine ⟨by rw [m_modules_registerAll, List.nil_append], fun library => ?_⟩
  rw [references_registerAll, m_modules_registerAll, List.nil_append]

/-- **One action** keeps the account. -/
theorem Accounts.step {act : HandleAction Λ} (h : Accounts p references) (hs : p.step linker act = some p') :
    ∃ references', elsewhere references act = some references' ∧ Accounts p' references' := by
  cases act with
  | reload subdirectories paths =>
      cases hs
      exact ⟨references, rfl, (h.reload linker subdirectories (fun _ _ => none) paths).2⟩
  | unload =>
      cases hs
      refine ⟨references, rfl, fun library => ?_⟩
      rw [h.unload]
      rfl
  | openElsewhere library =>
      cases hs
      refine ⟨_, rfl, fun library' => ?_⟩
      dsimp only
      rw [Function.update_apply, Function.update_apply, h library]
      split
      · next heq =>
        subst heq
        omega
      · exact h library'
  | closeElsewhere library =>
      -- a reference of the process itself is closed only if it holds one
      obtain ⟨hopen, hs⟩ := Option.ite_none_right_eq_some.mp hs
      cases hs
      rw [h library] at hopen
      refine ⟨_, if_pos (by omega), fun library' => ?_⟩
      dsimp only [unloadLibrary]
      rw [Function.update_apply, Function.update_apply, h library]
      split
      · next heq =>
        subst heq
        omega
      · exact h library'

/-- **The loader closes what it opens**: whatever the rest of the process opens and closes, however often the loader
scans its directories and whatever it finds there, the process has the handles that it would have without the loader
and one for each module; a reload finds just the plug-ins that are open without the loader; and after `unload` the
handles are as if there had been no loader. -/
theorem handles_exact (references : Λ → Nat) {acts : List (HandleAction Λ)}
    (h : run (step linker) ⟨references, []⟩ acts = some p) :
    ∃ references', run elsewhere references acts = some references' ∧
      (∀ library, p.references library = references' library + p.m_modules.count library) ∧
      (∀ before subdirectories paths equivalent, acts = before ++ [.reload subdirectories paths] →
        p.m_modules =
          LoaderImpl.foundModules (fileSystem linker subdirectories equivalent ⟨references', []⟩) paths) ∧
      ∀ before, acts = before ++ [.unload] → p = ⟨references', []⟩ := by
  have hstart : Accounts ⟨references, []⟩ references := fun _ => rfl
  have hsimulation : ∀ {acts p}, run (step linker) ⟨references, []⟩ acts = some p →
      ∃ references', run elsewhere references acts = some references' ∧ Accounts p references' :=
    fun h => run_simulation (fun _ _ _ _ hR hs => hR.step linker hs) hstart h
  obtain ⟨references', hrun, haccounts⟩ := hsimulation h
  refine ⟨references', hrun, haccounts, ?_, ?_⟩
  · rintro before subdirectories paths equivalent rfl
    obtain ⟨q, hbefore, hlast⟩ := run_append_eq_some h
    obtain ⟨references₁, hrun₁, haccounts₁⟩ := hsimulation hbefore
    -- a reload opens and closes nothing elsewhere
    rw [run_append, hrun₁] at hrun
    cases hrun
    cases hlast
    exact (haccounts₁.reload linker subdirectories equivalent paths).1
  · rintro before rfl
    obtain ⟨q, hbefore, hlast⟩ := run_append_eq_some h
    obtain ⟨references₁, hrun₁, haccounts₁⟩ := hsimulation hbefore
    rw [run_append, hrun₁] at hrun
    cases hrun
    cases hlast
    exact haccounts₁.unload

/-- One plug-in, which somebody else opens after the loader has looked for it in vain, and closes at the end. -/
def lateLibrary : List (HandleAction Unit) :=
  [.reload (fun _ => some [[⟨"loopback.so", true, ()⟩]]) ["processors"], .openElsewhere (),
    .reload (fun _ => some [[⟨"loopback.so", true, ()⟩]]) ["processors"], .closeElsewhere (), .unload]

theorem lateLibrary_handles_exact : ∃ p, run (step ⟨fun _ => true, fun _ => true⟩) ⟨fun _ => 0, []⟩ lateLibrary = some p ∧
    ∃ references', run elsewhere (fun _ => 0) lateLibrary = some references' ∧
      (∀ library, p.references library = references' library + p.m_modules.count library) ∧
      (∀ before subdirectories paths equivalent, lateLibrary = before ++ [.reload subdirectories paths] →
        p.m_modules = LoaderImpl.foundModules
          (fileSystem ⟨fun _ => true, fun _ => true⟩ subdirectories equivalent ⟨references', []⟩) paths) ∧
      ∀ before, lateLibrary = before ++ [.unload] → p = ⟨references', []⟩ :=
  ⟨_, rfl, handles_exact _ _ rfl⟩

end LoaderProcess

end LimbWorker

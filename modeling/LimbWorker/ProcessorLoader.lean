import LimbWorker.ImageService.ProcessorProvider

/-!
# `ProcessorLoader`

The loader asks modules for containers and remembers which module each one came from. Modules are the
environment: `allocateContainer` of a module either fails or returns a new container, and addresses are
not used twice.
-/

namespace LimbWorker

open ImageService Lib

/-- `LoadedModule`, as far as the loader reads it. -/
structure LoadedModule where
  name : String
  deriving DecidableEq, Repr

/-- `ProcessorLoader::impl`; `allocated` is the next address. -/
structure ProcessorLoader where
  m_modules : List LoadedModule
  m_processors : List (ContainerId × Nat)
  allocated : ContainerId

namespace ProcessorLoader

/-- A loader that has found `modules`. -/
def load (modules : List LoadedModule) : ProcessorLoader := ⟨modules, [], 0⟩

/-- `processorName`; an index past the modules has the empty name. -/
def processorName (l : ProcessorLoader) (index : Nat) : String :=
  match l.m_modules[index]? with
  | some module => module.name
  | none => ""

def processorCount (l : ProcessorLoader) : Nat := l.m_modules.length

/-- `allocateContainer`; `given` says whether the module returns a container. -/
def allocateContainer (l : ProcessorLoader) (index : Nat) (given : Bool) :
    ProcessorLoader × Option ContainerId :=
  if index < l.m_modules.length then
    if given then
      ({ l with
          m_processors := l.m_processors ++ [(l.allocated, index)]
          allocated := l.allocated + 1 }, some l.allocated)
    else (l, none)
  else (l, none)

/-- `destroyContainer`. The module is indexed without a check. -/
def destroyContainer (l : ProcessorLoader) (container : ContainerId) : Service ProcessorLoader :=
  match l.m_processors.lookup container with
  | none => pure l
  | some index =>
      match l.m_modules[index]? with
      | none => .fault .undefinedBehaviour
      | some _ => do
          .emit (.deallocate container)
          return { l with m_processors := l.m_processors.filter fun e => e.1 ≠ container }

/-- Dropping the entries of a container leaves those of the others. -/
theorem lookup_filter_ne {α : Type} (entries : List (ContainerId × α)) (c container : ContainerId) :
    (entries.filter fun e => e.1 ≠ container).lookup c =
      if c = container then none else entries.lookup c := by
  induction entries with
  | nil => simp
  | cons e entries ih =>
      obtain ⟨c', v⟩ := e
      by_cases hdrop : c' = container
      · subst hdrop
        by_cases hc : c = c'
        · simpa [hc] using ih
        · have hbeq : (c == c') = false := by simpa using hc
          simpa [hc, List.lookup_cons, hbeq] using ih
      · by_cases hc : c = c'
        · subst hc
          simp [hdrop]
        · have hbeq : (c == c') = false := by simpa using hc
          simpa [hdrop, List.lookup_cons, hbeq] using ih

end ProcessorLoader

end LimbWorker

import LimbWorker.Lib.StepSystem
import LimbWorker.ProcessorLoader
import Mathlib.Logic.Function.Basic

/-!
# `ProcessorLoader` and its directories

The whole of `ProcessorLoader::impl`: the directories that are searched, the modules that were found there,
and for every container that is out the index of its module. `reload`, `addLoadDir` and `removeLoadDir` clear
the modules and load them again, from whatever the file system holds by then; the indices stay.

Each load asks the libraries for their modules again, and `GetProcessorModule` makes a new object every time. So
the module that made a container never comes back, and containers are given back to it just as long as none is out
when the libraries are loaded again. The file system is the environment: it says which directories there are, which
of them are the same, and which libraries in them give a module.
-/

namespace LimbWorker

open ImageService Lib

/-- What the file system answers during one call; `equivalent` throws where it is `none`, and `modules`
are those of the libraries in a directory whose `GetProcessorModule` can be called. -/
structure FileSystem (M : Type) where
  is_directory : String → Bool
  equivalent : String → String → Option Bool
  modules : String → List M

/-- An object that `GetProcessorModule` of a module's library has made. Every call makes another one, and the loader
never deletes any, so they are told apart by a number that counts the calls. -/
structure ModuleObject (M : Type) where
  module : M
  number : Nat
  deriving DecidableEq, Repr

/-- What `destroyContainer` does: nothing, a call of `deallocateContainer`, or reading past the end of
the modules. -/
inductive DestroyEffect (M : Type) where
  | notFound
  | deallocate (module : ModuleObject M)
  | outOfRange

/-- `ProcessorLoader::impl` over modules of any kind. The last two are history variables: how many module objects
`unload` has dropped so far, and the one whose `allocateContainer` returned the container last. -/
structure LoaderImpl (M : Type) where
  m_loadDirectories : List String
  m_processors : ContainerId → Option Nat
  m_modules : List M
  dropped : Nat
  allocatedBy : ContainerId → Option (ModuleObject M)

/-- A call of a member function; `returned` is what `allocateContainer` of the module returns. -/
inductive LoaderCall (M : Type) where
  | allocateContainer (index : Nat) (returned : Option ContainerId)
  | destroyContainer (container : ContainerId)
  | reload (fs : FileSystem M)
  | addLoadDir (dirPath : String) (fs : FileSystem M)
  | removeLoadDir (index : Nat) (fs : FileSystem M)

namespace LoaderImpl

variable {M : Type}

/-- `defaultLoadDir`. -/
def defaultLoadDir : String := "processors"

/-- The modules that `loadDirectories` finds. -/
def foundModules (fs : FileSystem M) (m_loadDirectories : List String) : List M :=
  m_loadDirectories.flatMap fun path => if fs.is_directory path then fs.modules path else []

/-- `loadDirectories`. -/
def loadDirectories (s : LoaderImpl M) (fs : FileSystem M) : LoaderImpl M :=
  { s with m_modules := s.m_modules ++ foundModules fs s.m_loadDirectories }

/-- `unload`. What is known of the containers stays. -/
def unload (s : LoaderImpl M) : LoaderImpl M :=
  { s with m_modules := [], dropped := s.dropped + s.m_modules.length }

/-- `m_modules[index].procModule`. Those before it, and all that were dropped, were made earlier. -/
def procModule (s : LoaderImpl M) (index : Nat) : Option (ModuleObject M) :=
  s.m_modules[index]?.map fun module => ⟨module, s.dropped + index⟩

/-- The constructor. Its search for an equivalent directory asks `noexcept(fs::equivalent(...))`, which is
false whatever the directories are. -/
def new (additionalDirectories : List String) (fs : FileSystem M) : LoaderImpl M :=
  loadDirectories
    { m_loadDirectories := defaultLoadDir :: additionalDirectories.filter fs.is_directory
      m_processors := fun _ => none
      m_modules := []
      dropped := 0
      allocatedBy := fun _ => none } fs

def processorCount (s : LoaderImpl M) : Nat := s.m_modules.length

/-- `status`. -/
def status (s : LoaderImpl M) : ReturnStatus := if s.processorCount > 0 then .kOk else .kAborted

/-- `ProcessorLoader::reload`. -/
def reload (s : LoaderImpl M) (fs : FileSystem M) : ReturnStatus × LoaderImpl M :=
  let s := s.unload.loadDirectories fs
  (s.status, s)

/-- Whether a directory of the list is equivalent to `dirPath`; the search ends where the question throws. -/
def findEquivalent (fs : FileSystem M) (dirPath : String) : List String → Option Bool
  | [] => some false
  | path :: paths =>
      match fs.equivalent dirPath path with
      | none => none
      | some true => some true
      | some false => findEquivalent fs dirPath paths

/-- `ProcessorLoader::addLoadDir`; the status is `none` when an exception leaves it. -/
def addLoadDir (s : LoaderImpl M) (dirPath : String) (fs : FileSystem M) :
    Option ReturnStatus × LoaderImpl M :=
  if fs.is_directory dirPath = false then (some .kInvalidInput, s)
  else
    match findEquivalent fs dirPath s.m_loadDirectories with
    | none => (none, s)
    | some true => (some .kAlreadyExists, s)
    | some false =>
        let (ret, s) := { s with m_loadDirectories := s.m_loadDirectories ++ [dirPath] }.reload fs
        (some ret, s)

/-- `ProcessorLoader::removeLoadDir`. -/
def removeLoadDir (s : LoaderImpl M) (index : Nat) (fs : FileSystem M) :
    ReturnStatus × LoaderImpl M :=
  if index ≥ s.m_loadDirectories.length then s.reload fs
  else { s with m_loadDirectories := s.m_loadDirectories.eraseIdx index }.reload fs

/-- `allocateContainer`. -/
def allocateContainer (s : LoaderImpl M) (index : Nat) (returned : Option ContainerId) :
    Option ContainerId × LoaderImpl M :=
  match s.procModule index with
  | none => (none, s)
  | some module =>
      match returned with
      | none => (none, s)
      | some container =>
          (some container, { s with
            m_processors := Function.update s.m_processors container (some index)
            allocatedBy := Function.update s.allocatedBy container (some module) })

/-- `destroyContainer`. The module is indexed without a check. -/
def destroyContainer (s : LoaderImpl M) (container : ContainerId) :
    DestroyEffect M × LoaderImpl M :=
  match s.m_processors container with
  | none => (.notFound, s)
  | some index =>
      match s.procModule index with
      | none => (.outOfRange, s)
      | some module =>
          (.deallocate module, { s with
            m_processors := Function.update s.m_processors container none })

/-- Execute one call. -/
def perform (s : LoaderImpl M) : LoaderCall M → LoaderImpl M
  | .allocateContainer index returned => (s.allocateContainer index returned).2
  | .destroyContainer container => (s.destroyContainer container).2
  | .reload fs => (s.reload fs).2
  | .addLoadDir dirPath fs => (s.addLoadDir dirPath fs).2
  | .removeLoadDir index fs => (s.removeLoadDir index fs).2

/-- `perform` as a step system: every call is always enabled. -/
def step (s : LoaderImpl M) (call : LoaderCall M) : Option (LoaderImpl M) := some (s.perform call)

/-- There is a module object at each index below the end, and none past it. -/
theorem procModule_eq_some_iff {s : LoaderImpl M} {index : Nat} {module : ModuleObject M} :
    s.procModule index = some module ↔
      ∃ hlt : index < s.m_modules.length, module = ⟨s.m_modules[index], s.dropped + index⟩ := by
  unfold procModule
  rw [Option.map_eq_some_iff]
  constructor
  · rintro ⟨m, hm, rfl⟩
    obtain ⟨hlt, rfl⟩ := List.getElem?_eq_some_iff.mp hm
    exact ⟨hlt, rfl⟩
  · rintro ⟨hlt, rfl⟩
    exact ⟨_, List.getElem?_eq_getElem hlt, rfl⟩

theorem procModule_of_lt {s : LoaderImpl M} {index : Nat} (hlt : index < s.m_modules.length) :
    s.procModule index = some ⟨s.m_modules[index], s.dropped + index⟩ :=
  procModule_eq_some_iff.mpr ⟨hlt, rfl⟩

theorem procModule_eq_none {s : LoaderImpl M} {index : Nat} (hge : s.m_modules.length ≤ index) :
    s.procModule index = none := by
  rw [procModule, List.getElem?_eq_none hge]
  rfl

/-- Destroying a container does not touch what is known of the others. -/
theorem m_processors_destroyContainer_of_ne (s : LoaderImpl M) {c container : ContainerId}
    (hne : c ≠ container) :
    (s.destroyContainer container).2.m_processors c = s.m_processors c := by
  unfold destroyContainer
  split
  · rfl
  · split
    · rfl
    · exact Function.update_of_ne hne _ _

/-- A container that was returned is tracked under its index, and the others are as before. -/
theorem m_processors_allocateContainer {s : LoaderImpl M} {index : Nat}
    (hlt : index < s.m_modules.length) (c container : ContainerId) :
    (s.allocateContainer index (some container)).2.m_processors c =
      if c = container then some index else s.m_processors c := by
  unfold allocateContainer
  rw [procModule_of_lt hlt]
  exact Function.update_apply _ _ _ _

/-! ## Given back to the module that made it -/

/-- Every entry of `m_processors` names the module that made the container, so `destroyContainer` gives it
back to that module. -/
structure GivenBack (s : LoaderImpl M) : Prop where
  entries : ∀ container index, s.m_processors container = some index →
    index < s.m_modules.length ∧ s.allocatedBy container = s.procModule index
  destroys : ∀ container, s.m_processors container ≠ none →
    ∃ module, s.allocatedBy container = some module ∧
      (s.destroyContainer container).1 = .deallocate module

/-- Whether the call loads the libraries again. -/
def LoadsAgain (s : LoaderImpl M) : LoaderCall M → Prop
  | .allocateContainer _ _ => False
  | .destroyContainer _ => False
  | .reload _ => True
  | .addLoadDir dirPath fs =>
      fs.is_directory dirPath = true ∧ findEquivalent fs dirPath s.m_loadDirectories = some false
  | .removeLoadDir _ _ => True

/-- The condition on a call: if it loads the libraries again, no container is out. -/
def NoneOut (s : LoaderImpl M) (call : LoaderCall M) : Prop :=
  s.LoadsAgain call → ∀ container, s.m_processors container = none

/-- The entries are what matters. -/
theorem givenBack_iff (s : LoaderImpl M) :
    GivenBack s ↔ ∀ container index, s.m_processors container = some index →
      ∃ module, s.procModule index = some module ∧ s.allocatedBy container = some module := by
  constructor
  · intro h container index hentry
    obtain ⟨hlt, howner⟩ := h.entries container index hentry
    have hmodule := procModule_of_lt hlt
    exact ⟨_, hmodule, howner.trans hmodule⟩
  · intro h
    constructor
    · intro container index hentry
      obtain ⟨module, hmodule, howner⟩ := h container index hentry
      obtain ⟨hlt, -⟩ := procModule_eq_some_iff.mp hmodule
      exact ⟨hlt, howner.trans hmodule.symm⟩
    · intro container hentry
      obtain ⟨index, hindex⟩ := Option.ne_none_iff_exists'.mp hentry
      obtain ⟨module, hmodule, howner⟩ := h container index hindex
      refine ⟨module, howner, ?_⟩
      simp [destroyContainer, hindex, hmodule]

/-- A loader that has just been constructed has no container out. -/
theorem givenBack_new (additionalDirectories : List String) (fs : FileSystem M) :
    GivenBack (new additionalDirectories fs) :=
  (givenBack_iff _).mpr fun _ _ hentry => by cases hentry

/-- A call that does not load the libraries again keeps everything in place. -/
theorem givenBack_of_not_loadsAgain {s : LoaderImpl M} {call : LoaderCall M} (h : GivenBack s)
    (hcall : ¬ s.LoadsAgain call) : GivenBack (s.perform call) := by
  rw [givenBack_iff] at h ⊢
  intro container index hentry
  cases call with
  | allocateContainer index' returned =>
      simp only [perform, allocateContainer] at hentry ⊢
      split at hentry
      · exact h container index hentry
      · next module hmodule =>
        cases returned with
        | none => exact h container index hentry
        | some container' =>
            -- the new container is tracked under the module that made it, the others as before
            by_cases hsame : container = container'
            · subst hsame
              simp only [Function.update_self, Option.some.injEq] at hentry
              subst hentry
              exact ⟨module, hmodule, Function.update_self _ _ _⟩
            · simp only [Function.update_of_ne hsame] at hentry ⊢
              exact h container index hentry
  | destroyContainer container' =>
      simp only [perform, destroyContainer] at hentry ⊢
      split at hentry
      · exact h container index hentry
      · split at hentry
        · exact h container index hentry
        · next module hmodule =>
          -- the container is no longer tracked
          by_cases hsame : container = container'
          · subst hsame
            simp at hentry
          · simp only [ne_eq, hsame, not_false_eq_true, Function.update_of_ne] at hentry
            exact h container index hentry
  | reload fs => exact absurd trivial hcall
  | addLoadDir dirPath fs =>
      -- without loading again the call changes nothing
      have hsame : s.perform (.addLoadDir dirPath fs) = s := by
        simp only [perform, addLoadDir]
        split
        · rfl
        · next hdirectory =>
          have hother : findEquivalent fs dirPath s.m_loadDirectories ≠ some false := fun hfind =>
            hcall ⟨by simpa using hdirectory, hfind⟩
          split
          · rfl
          · rfl
          · next hfind => exact absurd hfind hother
      rw [hsame] at hentry ⊢
      exact h container index hentry
  | removeLoadDir index' fs => exact absurd trivial hcall

/-- A call that loads the libraries again drops all modules that were there, and changes nothing that is known of
containers. -/
theorem perform_of_loadsAgain {s : LoaderImpl M} {call : LoaderCall M} (hcall : s.LoadsAgain call) :
    (s.perform call).dropped = s.dropped + s.m_modules.length ∧
      (s.perform call).m_processors = s.m_processors ∧ (s.perform call).allocatedBy = s.allocatedBy := by
  cases call with
  | allocateContainer index returned => exact hcall.elim
  | destroyContainer container => exact hcall.elim
  | reload fs => exact ⟨rfl, rfl, rfl⟩
  | addLoadDir dirPath fs =>
      obtain ⟨hdirectory, hfind⟩ := hcall
      simp only [perform, addLoadDir, hdirectory, hfind, Bool.true_eq_false, if_false]
      exact ⟨rfl, rfl, rfl⟩
  | removeLoadDir index fs =>
      simp only [perform, removeLoadDir]
      split <;> exact ⟨rfl, rfl, rfl⟩

/-- **One call gives back what it should** just when it finds no container out, if it loads the libraries again. -/
theorem givenBack_perform_iff {s : LoaderImpl M} (h : GivenBack s) (call : LoaderCall M) :
    GivenBack (s.perform call) ↔ NoneOut s call := by
  by_cases hcall : s.LoadsAgain call
  · obtain ⟨hdropped, hprocessors, hallocated⟩ := perform_of_loadsAgain hcall
    constructor
    · intro hnew _ container
      by_contra hentry
      obtain ⟨index, hindex⟩ := Option.ne_none_iff_exists'.mp hentry
      obtain ⟨module, hmodule, howner⟩ := (givenBack_iff s).mp h container index hindex
      obtain ⟨module', hmodule', howner'⟩ :=
        (givenBack_iff _).mp hnew container index (hprocessors ▸ hindex)
      -- the module that made the container was dropped, and those that are there now were made later
      rw [hallocated, howner] at howner'
      cases howner'
      obtain ⟨hlt, rfl⟩ := procModule_eq_some_iff.mp hmodule
      obtain ⟨_, hobject⟩ := procModule_eq_some_iff.mp hmodule'
      have hnumber : s.dropped + index = s.dropped + s.m_modules.length + index := by
        rw [← hdropped]
        exact congrArg ModuleObject.number hobject
      omega
    · intro hnone
      rw [givenBack_iff, hprocessors]
      intro container index hentry
      rw [hnone hcall container] at hentry
      cases hentry
  · exact iff_of_true (givenBack_of_not_loadsAgain h hcall) fun hloads => absurd hloads hcall

theorem run_step (s : LoaderImpl M) (calls : List (LoaderCall M)) :
    run step s calls = some (calls.foldl perform s) := by
  induction calls generalizing s with
  | nil => rfl
  | cons call calls ih => exact ih (s.perform call)

/-- **Containers are given back to the module that made them** in every state of a run, exactly when no container
is out whenever a call loads the libraries again: for every constructed loader, every sequence of calls, and whatever
the file system holds at each of them. -/
theorem givenBack_throughout_iff (additionalDirectories : List String) (fs : FileSystem M)
    (calls : List (LoaderCall M)) :
    Throughout step GivenBack (new additionalDirectories fs) calls ↔
      Guarded step NoneOut (new additionalDirectories fs) calls := by
  refine throughout_iff ?_ (givenBack_new additionalDirectories fs) (run_step _ calls)
  intro s call s' h hs
  cases hs
  exact givenBack_perform_iff h call

/-- A file system with the given modules under the default directory, and no other directory. -/
def onlyDefault (modules : List String) : FileSystem String where
  is_directory := fun path => path == defaultLoadDir
  equivalent := fun path path' => some (path == path')
  modules := fun _ => modules

/-- The library of a container that is out has gone when the loader loads again. -/
theorem library_gone_not_givenBack :
    ¬ Throughout step GivenBack (new [] (onlyDefault ["loopback"]))
      [.allocateContainer 0 (some 7), .reload (onlyDefault [])] := by
  rintro ⟨-, hafter⟩
  obtain ⟨-, hlast⟩ := hafter _ rfl
  obtain ⟨hlt, -⟩ := (hlast _ rfl).entries 7 0 (by decide)
  exact absurd hlt (by decide)

-- The same library makes another object.
example :
    let s := ((new [] (onlyDefault ["loopback"])).allocateContainer 0 (some 7)).2
    let s' := (s.reload (onlyDefault ["loopback"])).2
    s'.m_processors 7 = some 0 ∧ s'.m_modules = s.m_modules ∧ s'.allocatedBy 7 ≠ s'.procModule 0 := by decide

end LoaderImpl

/-! ## The loader of an application -/

/-- The loader as `App` uses it, which never loads again, and the whole loader: the same modules, and the
same containers under the same indices. -/
structure Tracks (l : ProcessorLoader) (s : LoaderImpl LoadedModule) : Prop where
  modules : l.m_modules = s.m_modules
  processors : ∀ container, l.m_processors.lookup container = s.m_processors container
  fresh : ∀ container, l.allocated ≤ container → s.m_processors container = none

namespace Tracks

variable {l l' : ProcessorLoader} {s : LoaderImpl LoadedModule}

/-- The loader of an application holds what a newly constructed one has found. -/
theorem new (additionalDirectories : List String) (fs : FileSystem LoadedModule) :
    Tracks (.load (LoaderImpl.new additionalDirectories fs).m_modules)
      (.new additionalDirectories fs) where
  modules := rfl
  processors := fun _ => rfl
  fresh := fun _ _ => rfl

/-- They allocate alike, and hand out the same container. -/
theorem allocateContainer (h : Tracks l s) (index : Nat) (given : Bool) :
    (l.allocateContainer index given).2 =
        (s.allocateContainer index (if given then some l.allocated else none)).1 ∧
      Tracks (l.allocateContainer index given).1
        (s.allocateContainer index (if given then some l.allocated else none)).2 := by
  unfold ProcessorLoader.allocateContainer LoaderImpl.allocateContainer
  by_cases hlt : index < l.m_modules.length
  · have hmodule := LoaderImpl.procModule_of_lt (h.modules ▸ hlt)
    cases given with
    | false =>
        simp only [hlt, hmodule, if_true, Bool.false_eq_true, if_false]
        exact ⟨trivial, h⟩
    | true =>
        simp only [hlt, hmodule, if_true, true_and]
        refine ⟨h.modules, fun container => ?_, fun container hle => ?_⟩
        · have hlookup := h.processors container
          simp only [List.lookup_append, Function.update_apply]
          -- no earlier container has the number of the new one, so appending it does not hide an entry
          by_cases hsame : container = l.allocated
          · subst hsame
            rw [hlookup, h.fresh l.allocated (Nat.le_refl _)]
            simp
          · have hbeq : (container == l.allocated) = false := by simpa using hsame
            simp [hlookup, hsame, List.lookup_cons, hbeq]
        · have hle' : (l.allocated : Nat) + 1 ≤ container := hle
          have hne : container ≠ l.allocated := Nat.ne_of_gt hle'
          show Function.update s.m_processors l.allocated (some index) container = none
          rw [Function.update_of_ne hne]
          exact h.fresh container (Nat.le_of_succ_le hle')
  · have hnone := LoaderImpl.procModule_eq_none (h.modules ▸ Nat.not_lt.mp hlt)
    simp only [hlt, hnone, if_false]
    exact ⟨trivial, h⟩

/-- They destroy alike, and call `deallocateContainer` in the same cases. -/
theorem destroyContainer (h : Tracks l s) (container : ContainerId) :
    match (s.destroyContainer container).1 with
    | .notFound => l.destroyContainer container = pure l
    | .outOfRange => l.destroyContainer container = .fault .undefinedBehaviour
    | .deallocate _ => ∃ l', l.destroyContainer container = ⟨[.deallocate container], .ok l'⟩ ∧
        Tracks l' (s.destroyContainer container).2 := by
  unfold LoaderImpl.destroyContainer ProcessorLoader.destroyContainer
  rw [h.processors container]
  cases s.m_processors container with
  | none => rfl
  | some index =>
      dsimp only
      rw [h.modules, LoaderImpl.procModule]
      cases s.m_modules[index]? with
      | none => rfl
      | some module =>
          refine ⟨_, rfl, rfl, fun c => ?_, fun c hle => ?_⟩
          · show (l.m_processors.filter fun e => e.1 ≠ container).lookup c =
              Function.update s.m_processors container none c
            rw [ProcessorLoader.lookup_filter_ne, h.processors c, Function.update_apply]
          · show Function.update s.m_processors container none c = none
            by_cases hsame : c = container
            · rw [hsame, Function.update_self]
            · rw [Function.update_of_ne hsame]
              exact h.fresh c hle

end Tracks

end LimbWorker

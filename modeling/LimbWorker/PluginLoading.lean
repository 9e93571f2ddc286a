import LimbWorker.LoadDirectories
import Mathlib.Data.List.Count
import Mathlib.Data.List.Infix
import Mathlib.Logic.Function.Basic

/-!
# Loading plug-ins

How `loadModules` finds the modules of a directory: it probes each library, loads it, and registers what
`GetProcessorModule` of it returns. Libraries are resident in the process as long as somebody has a handle;
handles are counted.

The probe opens the library with `RTLD_NOLOAD`, which does not load anything: it gives a handle only for a
library that is resident already. So what is registered is what somebody else has loaded before.
-/

namespace LimbWorker

/-- What `dlopen` and `dlsym` make of a library file: whether it can be loaded, and whether it exports
`GetProcessorModule`. -/
structure Linker (Λ : Type) where
  loads : Λ → Bool
  exports : Λ → Bool

/-- What a directory iterator shows of an entry, and the file behind it. -/
structure DirEntry (Λ : Type) where
  filename : String
  is_regular_file : Bool
  library : Λ

/-- How a library is opened: `RTLD_NOW`, or `RTLD_LAZY` with `RTLD_NOLOAD`. -/
inductive DlopenMode where
  | now
  | noload
  deriving DecidableEq, Repr

/-- The libraries of the process with the number of their handles, and the handles of `m_modules`. -/
@[ext] structure LoaderProcess (Λ : Type) where
  references : Λ → Nat
  m_modules : List Λ

/-- `libEXT`. -/
def libEXT : String := ".so"

/-- `filename.find(libEXT)` finds something. -/
def hasLibEXT (filename : String) : Bool := libEXT.toList <:+: filename.toList

namespace LoaderProcess

variable {Λ : Type} [DecidableEq Λ] (linker : Linker Λ)

/-- The library is in the process. -/
def Resident (p : LoaderProcess Λ) (library : Λ) : Prop := 0 < p.references library

instance (p : LoaderProcess Λ) (library : Λ) : Decidable (p.Resident library) :=
  inferInstanceAs (Decidable (0 < _))

/-! ## The calls -/

/-- `dlopen`: a handle, which is counted, or null. -/
def dlopen (mode : DlopenMode) (library : Λ) (p : LoaderProcess Λ) : Option Λ × LoaderProcess Λ :=
  let opens : Bool := match mode with
    | .now => linker.loads library
    | .noload => p.Resident library
  if opens then
    (some library,
      { p with references := Function.update p.references library (p.references library + 1) })
  else (none, p)

/-- `unloadLibrary`, which is `dlclose`. -/
def unloadLibrary (handle : Λ) (p : LoaderProcess Λ) : LoaderProcess Λ :=
  { p with references := Function.update p.references handle (p.references handle - 1) }

/-- `loadLibrary`. -/
def loadLibrary (path : Λ) (p : LoaderProcess Λ) : Option Λ × LoaderProcess Λ := dlopen linker .now path p

/-- `loadLibraryWithLocalOrigin`, the same on Linux. -/
def loadLibraryWithLocalOrigin (path : Λ) (p : LoaderProcess Λ) : Option Λ × LoaderProcess Λ :=
  dlopen linker .now path p

/-- `loadLibraryUnresolved`. -/
def loadLibraryUnresolved (path : Λ) (p : LoaderProcess Λ) : Option Λ × LoaderProcess Λ :=
  dlopen linker .noload path p

/-- `getFunction` for `GetProcessorModule`: whether it is not null. -/
def getFunction (handle : Λ) : Bool := linker.exports handle

/-- `verifyModules`. -/
def verifyModules (path : Λ) (p : LoaderProcess Λ) : Bool × LoaderProcess Λ :=
  match loadLibraryUnresolved linker path p with
  | (none, p) => (false, p)
  | (some handle, p) =>
      let success := getFunction linker handle
      (success, unloadLibrary handle p)

/-- The loop body of `loadModules`. -/
def loadFile (p : LoaderProcess Λ) (file : DirEntry Λ) : LoaderProcess Λ :=
  if file.is_regular_file = false ∨ hasLibEXT file.filename = false then p
  else
    match verifyModules linker file.library p with
    | (false, p) => p
    | (true, p) =>
        let (handle, p) := loadLibraryWithLocalOrigin linker file.library p
        let (handle, p) := match handle with
          | some handle => (some handle, p)
          | none => loadLibrary linker file.library p
        match handle with
        | none => p
        | some handle =>
            if getFunction linker handle = false then unloadLibrary handle p
            else { p with m_modules := p.m_modules ++ [handle] }

/-- `loadModules`; a path that is no directory has no entries. -/
def loadModules (p : LoaderProcess Λ) (directory : List (DirEntry Λ)) : LoaderProcess Λ :=
  directory.foldl (loadFile linker) p

/-! ## One file -/

/-- A regular file with the library extension in its name, that can be loaded and exports
`GetProcessorModule`. -/
def isPlugin (file : DirEntry Λ) : Bool :=
  file.is_regular_file && hasLibEXT file.filename && linker.loads file.library &&
    linker.exports file.library

/-- Registering takes a handle and keeps it. -/
def register (p : LoaderProcess Λ) (library : Λ) : LoaderProcess Λ where
  references := Function.update p.references library (p.references library + 1)
  m_modules := p.m_modules ++ [library]

theorem references_register (p : LoaderProcess Λ) (library library' : Λ) :
    (p.register library).references library' =
      if library' = library then p.references library + 1 else p.references library' :=
  Function.update_apply _ _ _ _

/-- A handle that is taken and given back has no effect. -/
theorem unloadLibrary_update (p : LoaderProcess Λ) (library : Λ) :
    unloadLibrary library
      { p with references := Function.update p.references library (p.references library + 1) } = p := by
  have hback : Function.update (Function.update p.references library (p.references library + 1)) library
      (p.references library) = p.references := by
    rw [Function.update_idem, Function.update_eq_self]
  simp only [unloadLibrary, Function.update_self, Nat.add_sub_cancel, hback]

/-- **The probe** lets through what is resident and exports the function, and leaves nothing behind. -/
theorem verifyModules_eq (p : LoaderProcess Λ) (library : Λ) :
    verifyModules linker library p = (decide (p.Resident library) && linker.exports library, p) := by
  unfold verifyModules loadLibraryUnresolved dlopen
  by_cases hresident : p.Resident library
  · simp only [hresident, decide_true, if_true, Bool.true_and, unloadLibrary_update]
    rfl
  · simp only [hresident, decide_false, Bool.false_and, Bool.false_eq_true, if_false]

/-- **One file**: it is registered if it is a plug-in and its library is resident, and otherwise nothing
happens. -/
theorem loadFile_eq (p : LoaderProcess Λ) (file : DirEntry Λ) :
    p.loadFile linker file =
      if isPlugin linker file = true ∧ p.Resident file.library then p.register file.library else p := by
  unfold loadFile
  rw [verifyModules_eq]
  by_cases hskip : file.is_regular_file = false ∨ hasLibEXT file.filename = false
  · have hnot : ¬ (isPlugin linker file = true ∧ p.Resident file.library) := by
      rintro ⟨hplugin, -⟩
      simp only [isPlugin, Bool.and_eq_true] at hplugin
      rcases hskip with hskip | hskip
      · rw [hskip] at hplugin
        exact Bool.false_ne_true hplugin.1.1.1
      · rw [hskip] at hplugin
        exact Bool.false_ne_true hplugin.1.1.2
    rw [if_pos hskip, if_neg hnot]
  · rw [if_neg hskip]
    have hregular : file.is_regular_file = true ∧ hasLibEXT file.filename = true := by
      simpa only [not_or, Bool.not_eq_false] using hskip
    by_cases hresident : p.Resident file.library
    · cases hexports : linker.exports file.library with
      | false => simp [isPlugin, hexports]
      | true =>
          cases hloads : linker.loads file.library with
          | false =>
              simp [isPlugin, hexports, hloads, hresident, loadLibraryWithLocalOrigin, loadLibrary, dlopen]
          | true =>
              simp [isPlugin, hexports, hloads, hresident, hregular, loadLibraryWithLocalOrigin, dlopen,
                getFunction, register]
    · simp [hresident]

/-! ## A directory -/

/-- The libraries that `loadModules` registers, in a process `p`. -/
def registered (p : LoaderProcess Λ) (directory : List (DirEntry Λ)) : List Λ :=
  (directory.filter fun file => isPlugin linker file && decide (p.Resident file.library)).map
    DirEntry.library

/-- A handle more for each library of the list. -/
def registerAll (p : LoaderProcess Λ) (libraries : List Λ) : LoaderProcess Λ := libraries.foldl register p

theorem m_modules_registerAll (p : LoaderProcess Λ) (libraries : List Λ) :
    (p.registerAll libraries).m_modules = p.m_modules ++ libraries := by
  induction libraries generalizing p with
  | nil => exact (List.append_nil _).symm
  | cons library libraries ih =>
      show ((p.register library).registerAll libraries).m_modules = _
      rw [ih, register, List.append_assoc]
      rfl

theorem references_registerAll (p : LoaderProcess Λ) (libraries : List Λ) (library : Λ) :
    (p.registerAll libraries).references library = p.references library + libraries.count library := by
  induction libraries generalizing p with
  | nil => rfl
  | cons first libraries ih =>
      show ((p.register first).registerAll libraries).references library = _
      rw [ih, references_register, List.count_cons]
      by_cases hsame : library = first
      · subst hsame
        rw [if_pos rfl, beq_self_eq_true, if_pos rfl]
        omega
      · have hbeq : (first == library) = false := by
          rw [beq_eq_false_iff_ne]
          exact Ne.symm hsame
        rw [if_neg hsame, hbeq]
        rfl

/-- Registering what is resident makes nothing else resident. -/
theorem resident_register {p : LoaderProcess Λ} {library library' : Λ} (h : p.Resident library) :
    (p.register library).Resident library' ↔ p.Resident library' := by
  unfold Resident
  rw [references_register]
  split
  · next hsame =>
    subst hsame
    exact iff_of_true (Nat.succ_pos _) h
  · exact Iff.rfl

/-- **A directory**: `loadModules` registers the plug-ins whose libraries were resident before, in the order of
the entries, and does nothing else. -/
theorem loadModules_eq (p : LoaderProcess Λ) (directory : List (DirEntry Λ)) :
    p.loadModules linker directory = p.registerAll (registered linker p directory) := by
  unfold loadModules
  induction directory generalizing p with
  | nil => rfl
  | cons file directory ih =>
      rw [List.foldl_cons, loadFile_eq, ih]
      by_cases hregisters : isPlugin linker file = true ∧ p.Resident file.library
      · rw [if_pos hregisters]
        -- the libraries of the other files are as resident as before
        have hrest : registered linker (p.register file.library) directory =
            registered linker p directory := by
          unfold registered
          simp only [resident_register hregisters.2]
        have hfirst : registered linker p (file :: directory) =
            file.library :: registered linker p directory := by
          simp [registered, hregisters]
        rw [hrest, hfirst]
        rfl
      · rw [if_neg hregisters]
        have hfirst : registered linker p (file :: directory) = registered linker p directory := by
          unfold registered
          rw [List.filter_cons_of_neg]
          simpa using hregisters
        rw [hfirst]

/-- `loadModules` finds the plug-ins of the directory: it registers one module for each of them, in the order of
the entries, and none for any other entry; and what is resident afterwards was so before, or is registered. -/
structure FindsPlugins (p : LoaderProcess Λ) (directory : List (DirEntry Λ)) : Prop where
  registers : (p.loadModules linker directory).m_modules =
    p.m_modules ++ (directory.filter (isPlugin linker)).map DirEntry.library
  resident : ∀ library, (p.loadModules linker directory).Resident library →
    p.Resident library ∨ library ∈ (directory.filter (isPlugin linker)).map DirEntry.library

/-- **Every valid plug-in is found** exactly when each of them is resident before it is looked for: for every
directory, whatever can be loaded and exports what, and whatever is resident. -/
theorem finds_plugins_iff (p : LoaderProcess Λ) (directory : List (DirEntry Λ)) :
    FindsPlugins linker p directory ↔
      ∀ file ∈ directory, isPlugin linker file = true → p.Resident file.library := by
  have hmodules : (p.loadModules linker directory).m_modules =
      p.m_modules ++ registered linker p directory := by
    rw [loadModules_eq, m_modules_registerAll]
  constructor
  · intro h file hfile hplugin
    have hsame : registered linker p directory =
        (directory.filter (isPlugin linker)).map DirEntry.library :=
      List.append_cancel_left (hmodules.symm.trans h.registers)
    have hmem : file.library ∈ registered linker p directory := by
      rw [hsame]
      exact List.mem_map_of_mem (List.mem_filter.mpr ⟨hfile, hplugin⟩)
    -- whatever is registered under this identity was resident
    obtain ⟨file', hfile', heq⟩ := List.mem_map.mp hmem
    have hresident := (List.mem_filter.mp hfile').2
    rw [Bool.and_eq_true, decide_eq_true_iff, heq] at hresident
    exact hresident.2
  · intro h
    have hsame : registered linker p directory =
        (directory.filter (isPlugin linker)).map DirEntry.library := by
      unfold registered
      refine congrArg (List.map DirEntry.library) (List.filter_congr fun file hfile => ?_)
      cases hplugin : isPlugin linker file with
      | false => rfl
      | true =>
          rw [Bool.true_and, decide_eq_true_iff]
          exact h file hfile hplugin
    refine ⟨by rw [hmodules, hsame], fun library hresident => ?_⟩
    rw [loadModules_eq, Resident, references_registerAll, hsame] at hresident
    by_cases hbefore : p.Resident library
    · exact Or.inl hbefore
    · refine Or.inr (List.count_pos_iff.mp ?_)
      unfold Resident at hbefore
      omega

/-- A process in which no library is loaded, and a directory with a plug-in. -/
theorem nonresident_plugin_missed :
    let linker : Linker Unit := ⟨fun _ => true, fun _ => true⟩
    let p : LoaderProcess Unit := ⟨fun _ => 0, []⟩
    let directory : List (DirEntry Unit) := [⟨"librmbg.so", true, ()⟩]
    (p.loadModules linker directory).m_modules = [] ∧ ¬ FindsPlugins linker p directory := by
  refine ⟨by decide, fun h => ?_⟩
  have hregisters := h.registers
  exact absurd hregisters (by decide)

/-! ## All directories -/

/-- `loadDirectories`: each directory of the list with its subdirectories, those that do not exist left out. -/
def loadDirectories (subdirectories : String → Option (List (List (DirEntry Λ)))) (p : LoaderProcess Λ)
    (m_loadDirectories : List String) : LoaderProcess Λ :=
  m_loadDirectories.foldl (fun p path =>
    match subdirectories path with
    | none => p
    | some directories => directories.foldl (loadModules linker) p) p

/-- `unload`. -/
def unload (p : LoaderProcess Λ) : LoaderProcess Λ :=
  { p.m_modules.foldl (fun p handle => unloadLibrary handle p) p with m_modules := [] }

/-- What the loader of `LoadDirectories.lean` sees of the file system, in a process `p`. -/
def fileSystem (subdirectories : String → Option (List (List (DirEntry Λ))))
    (equivalent : String → String → Option Bool) (p : LoaderProcess Λ) : FileSystem Λ where
  is_directory := fun path => (subdirectories path).isSome
  equivalent := equivalent
  modules := fun path => ((subdirectories path).getD []).flatMap (registered linker p)

theorem registerAll_append (p : LoaderProcess Λ) (libraries libraries' : List Λ) :
    p.registerAll (libraries ++ libraries') = (p.registerAll libraries).registerAll libraries' :=
  List.foldl_append

omit [DecidableEq Λ] in
theorem resident_of_mem_registered {p : LoaderProcess Λ} {directory : List (DirEntry Λ)} {library : Λ}
    (h : library ∈ registered linker p directory) : p.Resident library := by
  obtain ⟨file, hfile, rfl⟩ := List.mem_map.mp h
  have hfilter := (List.mem_filter.mp hfile).2
  rw [Bool.and_eq_true, decide_eq_true_iff] at hfilter
  exact hfilter.2

/-- Registering what is resident does not change what is found elsewhere. -/
theorem registered_registerAll {p : LoaderProcess Λ} {libraries : List Λ}
    (h : ∀ library ∈ libraries, p.Resident library) :
    registered linker (p.registerAll libraries) = registered linker p := by
  induction libraries generalizing p with
  | nil => rfl
  | cons library libraries ih =>
      have hfirst := h library List.mem_cons_self
      have hrest : ∀ library' ∈ libraries, (p.register library).Resident library' := fun library' hmem =>
        (resident_register hfirst).mpr (h library' (List.mem_cons_of_mem _ hmem))
      show registered linker ((p.register library).registerAll libraries) = _
      rw [ih hrest]
      funext directory
      unfold registered
      simp only [resident_register hfirst]

/-- The subdirectories of one directory. -/
theorem foldl_loadModules (p : LoaderProcess Λ) (directories : List (List (DirEntry Λ))) :
    directories.foldl (loadModules linker) p =
      p.registerAll (directories.flatMap (registered linker p)) := by
  induction directories generalizing p with
  | nil => rfl
  | cons directory directories ih =>
      have hresident : ∀ library ∈ registered linker p directory, p.Resident library := fun library h =>
        resident_of_mem_registered linker h
      rw [List.foldl_cons, loadModules_eq, ih, registered_registerAll linker hresident, List.flatMap_cons,
        registerAll_append]

/-- **The pass over all directories** finds what the loader of `LoadDirectories.lean` finds in the file system
as this process sees it. -/
theorem loadDirectories_eq (subdirectories : String → Option (List (List (DirEntry Λ))))
    (equivalent : String → String → Option Bool) (p : LoaderProcess Λ) (paths : List String) :
    p.loadDirectories linker subdirectories paths =
      p.registerAll (LoaderImpl.foundModules (p.fileSystem linker subdirectories equivalent) paths) := by
  -- loading changes which libraries are registered, but not which can be
  suffices hloop : ∀ q : LoaderProcess Λ, registered linker q = registered linker p →
      q.loadDirectories linker subdirectories paths =
        q.registerAll (LoaderImpl.foundModules (p.fileSystem linker subdirectories equivalent) paths) from
    hloop p rfl
  intro q hq
  induction paths generalizing q with
  | nil => rfl
  | cons path paths ih =>
      rw [LoaderImpl.foundModules, List.flatMap_cons]
      cases hpath : subdirectories path with
      | none =>
          have hnothing : (p.fileSystem linker subdirectories equivalent).is_directory path = false := by
            simp [fileSystem, hpath]
          rw [hnothing]
          simp only [loadDirectories, List.foldl_cons, hpath]
          exact ih q hq
      | some directories =>
          have hsome : (p.fileSystem linker subdirectories equivalent).is_directory path = true := by
            simp [fileSystem, hpath]
          have hmodules : (p.fileSystem linker subdirectories equivalent).modules path =
              directories.flatMap (registered linker q) := by
            simp [fileSystem, hpath, hq]
          -- what is registered is already resident, so registering it makes nothing new resident
          have hresident : ∀ library ∈ directories.flatMap (registered linker q), q.Resident library := by
            intro library hmem
            obtain ⟨directory, -, hmem⟩ := List.mem_flatMap.mp hmem
            exact resident_of_mem_registered linker hmem
          rw [hsome, if_pos rfl, hmodules, registerAll_append]
          simp only [loadDirectories, List.foldl_cons, hpath]
          rw [foldl_loadModules]
          exact ih _ ((registered_registerAll linker hresident).trans hq)

/-- Closing handles takes them off the counts. -/
theorem references_foldl_unloadLibrary (p : LoaderProcess Λ) (handles : List Λ) (library : Λ) :
    (handles.foldl (fun p handle => unloadLibrary handle p) p).references library =
      p.references library - handles.count library := by
  induction handles generalizing p with
  | nil => rfl
  | cons handle handles ih =>
      rw [List.foldl_cons, ih, List.count_cons]
      show Function.update p.references handle (p.references handle - 1) library - _ = _
      rw [Function.update_apply]
      by_cases hsame : library = handle
      · subst hsame
        rw [if_pos rfl, beq_self_eq_true, if_pos rfl]
        omega
      · have hbeq : (handle == library) = false := by
          rw [beq_eq_false_iff_ne]
          exact Ne.symm hsame
        rw [if_neg hsame, hbeq]
        rfl

/-- **Loading and unloading** leaves the handles of the process as they were. -/
theorem unload_loadDirectories (subdirectories : String → Option (List (List (DirEntry Λ))))
    (p : LoaderProcess Λ) (hempty : p.m_modules = []) (paths : List String) :
    (p.loadDirectories linker subdirectories paths).unload = p := by
  rw [loadDirectories_eq linker subdirectories fun _ _ => none]
  generalize LoaderImpl.foundModules _ paths = libraries
  refine LoaderProcess.ext ?_ hempty.symm
  funext library
  show ((p.registerAll libraries).m_modules.foldl (fun p handle => unloadLibrary handle p)
    (p.registerAll libraries)).references library = _
  rw [references_foldl_unloadLibrary, m_modules_registerAll, references_registerAll, hempty,
    List.nil_append, Nat.add_sub_cancel]

end LoaderProcess

end LimbWorker

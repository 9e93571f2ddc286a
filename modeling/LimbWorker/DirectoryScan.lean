import LimbWorker.LoadDirectories
import Mathlib.Data.List.Nodup

/-!
# No directory twice

`addLoadDir` and the constructor both look for an equivalent directory before they append one. `addLoadDir`
asks `fs::equivalent`; the constructor asks whether asking might throw. So the list stays free of repetitions
once it is, and it starts out so just when the arguments of the constructor are.

Paths name directories, and several paths may name the same one. A library is known by its directory and its
place below it.
-/

namespace LimbWorker

open Lib

/-- The libraries below each directory that give a module, each listed once. -/
structure Listing (δ L : Type) where
  libraries : δ → List L
  nodup : ∀ d, (libraries d).Nodup

section

variable {δ L : Type} [DecidableEq δ] (names : String → Option δ)

/-- `fs::equivalent`, which throws (`none`) where a path names nothing. -/
def equivalent (path path' : String) : Option Bool :=
  match names path, names path' with
  | some d, some d' => some (d = d')
  | _, _ => none

/-- The file system that such paths and listings make up. -/
def Listing.fileSystem (listing : Listing δ L) : FileSystem (δ × L) where
  is_directory := fun path => (names path).isSome
  equivalent := equivalent names
  modules := fun path =>
    match names path with
    | some d => (listing.libraries d).map fun library => (d, library)
    | none => []

/-- A change of the directories, or a new pass over them; what they hold may have changed. -/
inductive DirCall (δ L : Type) where
  | addLoadDir (dirPath : String) (listing : Listing δ L)
  | removeLoadDir (index : Nat) (listing : Listing δ L)
  | reload (listing : Listing δ L)

/-- The call with its file system. -/
def DirCall.toCall : DirCall δ L → LoaderCall (δ × L)
  | .addLoadDir dirPath listing => .addLoadDir dirPath (listing.fileSystem names)
  | .removeLoadDir index listing => .removeLoadDir index (listing.fileSystem names)
  | .reload listing => .reload (listing.fileSystem names)

/-- One call on the loader. -/
def dirStep (s : LoaderImpl (δ × L)) (call : DirCall δ L) : Option (LoaderImpl (δ × L)) :=
  some (s.perform (call.toCall names))

/-- No two of the paths are equivalent. -/
def Inequivalent (paths : List String) : Prop :=
  paths.Pairwise fun path path' => equivalent names path path' ≠ some true

instance (paths : List String) : Decidable (Inequivalent names paths) :=
  inferInstanceAs (Decidable (paths.Pairwise _))

variable {names}

theorem equivalent_eq_some_true {path path' : String} :
    equivalent names path path' = some true ↔ ∃ d, names path = some d ∧ names path' = some d := by
  unfold equivalent
  split
  · next d d' hd hd' =>
    rw [hd, hd']
    constructor
    · intro h
      have hsame : d = d' := by simpa using h
      exact ⟨d, rfl, congrArg some hsame.symm⟩
    · rintro ⟨d₀, hd₀, hd₀'⟩
      have hsame : d = d' := Option.some.inj (hd₀.trans hd₀'.symm)
      simp [hsame]
  · next hnot =>
    refine iff_of_false (fun h => by cases h) ?_
    rintro ⟨d, hd, hd'⟩
    exact hnot d d hd hd'

theorem equivalent_comm (path path' : String) : equivalent names path path' = some true ↔
    equivalent names path' path = some true := by
  rw [equivalent_eq_some_true, equivalent_eq_some_true]
  constructor
  · rintro ⟨d, hd, hd'⟩
    exact ⟨d, hd', hd⟩
  · rintro ⟨d, hd, hd'⟩
    exact ⟨d, hd', hd⟩

namespace LoaderImpl

/-! ## What a pass finds -/

/-- A path that names a directory yields what is listed there, and any other path nothing. -/
theorem found_eq (listing : Listing δ L) (path : String) :
    (if (listing.fileSystem names).is_directory path then (listing.fileSystem names).modules path else []) =
      (names path).elim [] fun d => (listing.libraries d).map fun library => (d, library) := by
  cases hd : names path with
  | none => simp [Listing.fileSystem, hd]
  | some d => simp [Listing.fileSystem, hd]

omit [DecidableEq δ] in
theorem names_of_mem_found {listing : Listing δ L} {path : String} {entry : δ × L}
    (h : entry ∈ (names path).elim [] fun d => (listing.libraries d).map fun library => (d, library)) :
    names path = some entry.1 := by
  cases hd : names path with
  | none =>
      rw [hd] at h
      cases h
  | some d =>
      rw [hd] at h
      obtain ⟨library, -, rfl⟩ := List.mem_map.mp h
      rfl

/-- **Directories that are not equivalent** are searched without finding a library twice. -/
theorem nodup_foundModules {paths : List String} (h : Inequivalent names paths) (listing : Listing δ L) :
    (foundModules (listing.fileSystem names) paths).Nodup := by
  unfold foundModules
  simp only [found_eq]
  rw [List.nodup_flatMap]
  constructor
  · intro path _
    cases names path with
    | none => exact List.nodup_nil
    | some d => exact (listing.nodup d).map fun _ _ heq => (Prod.mk.inj heq).2
  · refine h.imp fun {path path'} hne entry hentry hentry' => ?_
    exact hne (equivalent_eq_some_true.mpr
      ⟨entry.1, names_of_mem_found hentry, names_of_mem_found hentry'⟩)

/-- The search of `addLoadDir` comes to its end when all directories exist and none is equivalent. -/
theorem findEquivalent_eq_some_false {M : Type} {fs : FileSystem M} {dirPath : String}
    {paths : List String} (h : findEquivalent fs dirPath paths = some false) :
    ∀ path ∈ paths, fs.equivalent dirPath path = some false := by
  induction paths with
  | nil => exact fun path hpath => absurd hpath List.not_mem_nil
  | cons first rest ih =>
      rw [findEquivalent] at h
      cases hfirst : fs.equivalent dirPath first with
      | none =>
          rw [hfirst] at h
          cases h
      | some same =>
          rw [hfirst] at h
          cases same with
          | true => cases h
          | false =>
              intro path hpath
              rcases List.mem_cons.mp hpath with rfl | hpath
              · exact hfirst
              · exact ih h path hpath

/-- A directory that passed the search can be appended. -/
theorem inequivalent_append {paths : List String} {dirPath : String} (h : Inequivalent names paths)
    (hnew : ∀ path ∈ paths, equivalent names dirPath path = some false) :
    Inequivalent names (paths ++ [dirPath]) := by
  refine List.pairwise_append.mpr ⟨h, List.pairwise_singleton _ _, fun path hpath path' hpath' => ?_⟩
  rw [List.mem_singleton.mp hpath']
  intro hsame
  have hother := hnew path hpath
  rw [(equivalent_comm path dirPath).mp hsame] at hother
  cases hother

/-! ## Over a run -/

variable (names) in
/-- No directory is scanned twice, so no library is registered twice; and an `addLoadDir` that refuses leaves
directories and modules as they are. -/
structure ScannedOnce (s : LoaderImpl (δ × L)) : Prop where
  directories : Inequivalent names s.m_loadDirectories
  modules : s.m_modules.Nodup
  refused : ∀ dirPath (listing : Listing δ L) status s',
    s.addLoadDir dirPath (listing.fileSystem names) = (some status, s') →
      status = .kAlreadyExists ∨ status = .kInvalidInput →
        s'.m_loadDirectories = s.m_loadDirectories ∧ s'.m_modules = s.m_modules

/-- `addLoadDir` changes something only where it ends with the status of the loader. -/
theorem refused_addLoadDir {M : Type} {s s' : LoaderImpl M} {dirPath : String} {fs : FileSystem M}
    {status : ReturnStatus} (h : s.addLoadDir dirPath fs = (some status, s'))
    (hstatus : status = .kAlreadyExists ∨ status = .kInvalidInput) : s' = s := by
  unfold addLoadDir at h
  split at h
  · cases h
    rfl
  · split at h
    · cases h
    · cases h
      rfl
    · -- the status after loading is `kOk` or `kAborted`
      simp only [reload, LoaderImpl.status] at h
      have hloaded : status = .kOk ∨ status = .kAborted := by
        have hfst := Option.some.inj (Prod.mk.inj h).1
        rw [← hfst]
        split
        · exact Or.inl rfl
        · exact Or.inr rfl
      rcases hloaded with rfl | rfl
      · rcases hstatus with hstatus | hstatus
        · cases hstatus
        · cases hstatus
      · rcases hstatus with hstatus | hstatus
        · cases hstatus
        · cases hstatus

theorem scannedOnce_of {s : LoaderImpl (δ × L)} (hdirectories : Inequivalent names s.m_loadDirectories)
    (hmodules : s.m_modules.Nodup) : ScannedOnce names s := by
  refine ⟨hdirectories, hmodules, fun dirPath listing status s' h hstatus => ?_⟩
  rw [refused_addLoadDir h hstatus]
  exact ⟨rfl, rfl⟩

/-- A pass over directories that are not equivalent. -/
theorem scannedOnce_reload {s : LoaderImpl (δ × L)} (h : Inequivalent names s.m_loadDirectories)
    (listing : Listing δ L) : ScannedOnce names (s.reload (listing.fileSystem names)).2 :=
  scannedOnce_of h (nodup_foundModules h listing)

/-- **One call keeps directories and libraries apart.** -/
theorem ScannedOnce.step {s s' : LoaderImpl (δ × L)} {call : DirCall δ L} (h : ScannedOnce names s)
    (hstep : dirStep names s call = some s') : ScannedOnce names s' := by
  cases hstep
  cases call with
  | addLoadDir dirPath listing =>
      simp only [DirCall.toCall, perform, addLoadDir]
      split
      · exact h
      · split
        · exact h
        · exact h
        · next hfind =>
          have hnew := findEquivalent_eq_some_false hfind
          exact scannedOnce_reload (inequivalent_append h.directories hnew) listing
  | removeLoadDir index listing =>
      simp only [DirCall.toCall, perform, removeLoadDir]
      split
      · exact scannedOnce_reload h.directories listing
      · exact scannedOnce_reload (h.directories.sublist (List.eraseIdx_sublist _ _)) listing
  | reload listing => exact scannedOnce_reload h.directories listing

/-- The constructor drops what does not exist, and nothing else. -/
theorem inequivalent_new_iff (additionalDirectories : List String) (listing : Listing δ L) :
    Inequivalent names (new additionalDirectories (listing.fileSystem names)).m_loadDirectories ↔
      Inequivalent names (defaultLoadDir :: additionalDirectories) := by
  have hexists {path path' : String} (h : equivalent names path path' = some true) :
      (names path).isSome = true ∧ (names path').isSome = true := by
    obtain ⟨d, hd, hd'⟩ := equivalent_eq_some_true.mp h
    rw [hd, hd']
    exact ⟨rfl, rfl⟩
  show Inequivalent names (defaultLoadDir :: additionalDirectories.filter _) ↔ _
  unfold Inequivalent
  rw [List.pairwise_cons, List.pairwise_cons, List.pairwise_filter]
  refine and_congr ⟨fun h path hpath hsame => ?_, fun h path hpath => ?_⟩
    ⟨fun h => h.imp fun {path path'} hne hsame => ?_, fun h => h.imp fun {path path'} hne _ _ => hne⟩
  · exact h path (List.mem_filter.mpr ⟨hpath, (hexists hsame).2⟩) hsame
  · exact h path (List.mem_filter.mp hpath).1
  · exact hne (hexists hsame).1 (hexists hsame).2 hsame

/-- **No directory is scanned twice** in any state that adding and removing directories leads to, exactly when
the constructor is given directories of which no two are equivalent, nor one of them to the default. -/
theorem scannedOnce_throughout_iff (names : String → Option δ) (additionalDirectories : List String)
    (listing : Listing δ L) (calls : List (DirCall δ L)) :
    Throughout (dirStep names) (ScannedOnce names) (new additionalDirectories (listing.fileSystem names)) calls ↔
      Inequivalent names (defaultLoadDir :: additionalDirectories) := by
  rw [← inequivalent_new_iff additionalDirectories listing]
  constructor
  · intro h
    have hstart : ScannedOnce names (new additionalDirectories (listing.fileSystem names)) := by
      cases calls with
      | nil => exact h
      | cons call calls => exact h.1
    exact hstart.directories
  · intro h
    refine throughout_of_invariant (fun s call s' hs hstep => hs.step hstep) (fun s hs => hs) ?_
    exact scannedOnce_of h (nodup_foundModules h listing)

/-- The directory of the processors as the only one, with one library. -/
def onlyProcessors : Listing Unit String := ⟨fun _ => ["librmbg.so"], fun _ => List.nodup_singleton _⟩

/-- The program's own argument: the default directory once more, and its library twice. -/
theorem default_scanned_twice :
    let names : String → Option Unit := fun path => if path = "processors" then some () else none
    let loader := new ["processors"] (onlyProcessors.fileSystem names)
    loader.m_modules = [((), "librmbg.so"), ((), "librmbg.so")] ∧
      ¬ Throughout (dirStep names) (ScannedOnce names) loader [] := by
  refine ⟨by decide, fun h => ?_⟩
  exact absurd h.modules (by decide)

end LoaderImpl

end

end LimbWorker

import LimbWorker.Lib.Traced
import LimbWorker.Utils.Basic
import Mathlib.Data.List.Sort

/-!
# Containers and their providers

`ProcessorStorage` maps a processor index to the container that serves it, `ProcessorInitializer` sits
on top of it and initialises a container when it is first asked for. What they do to containers is
traced call by call; a container is known by its address.
-/

namespace LimbWorker.ImageService

open Lib

/-- The address of a `ProcessorContainer`. -/
abbrev ContainerId := Nat

/-- A call of a member function of a container, or of `deallocateContainer` with it. -/
inductive ContainerCall where
  | init (c : ContainerId)
  | deinit (c : ContainerId)
  | tryAcquireProcessor (c : ContainerId)
  | reclaimProcessor (c : ContainerId)
  | deallocate (c : ContainerId)
  deriving DecidableEq, Repr

/-- How code that handles containers can fail to return: `std::map::at` throws, or a container's index is
past the modules of the loader. -/
inductive Fault where
  | outOfRange
  | undefinedBehaviour
  deriving DecidableEq, Repr

abbrev Service := Traced ContainerCall Fault

/-! ## `ProcessorStorage` -/

/-- `ProcessorStorage`, a map: no index occurs twice. -/
structure ProcessorStorage where
  m_containers : List (Nat × ContainerId)
  nodup : (m_containers.map Prod.fst).Nodup

namespace ProcessorStorage

def empty : ProcessorStorage := ⟨[], List.nodup_nil⟩

/-- `addContainer`. -/
def addContainer (s : ProcessorStorage) (index : Nat) (container : ContainerId) :
    ReturnStatus × ProcessorStorage :=
  if h : index ∈ s.m_containers.map Prod.fst then (.kAlreadyExists, s)
  else
    (.kOk, ⟨s.m_containers ++ [(index, container)], by
      rw [List.map_append]
      exact s.nodup.append (List.nodup_singleton index) (by simpa using h)⟩)

/-- `removeContainer`. -/
def removeContainer (s : ProcessorStorage) (index : Nat) : Bool × ProcessorStorage :=
  (s.m_containers.any fun entry => entry.1 = index,
    ⟨s.m_containers.filter fun entry => entry.1 ≠ index,
      s.nodup.sublist (List.filter_sublist.map Prod.fst)⟩)

/-- `acquireContainer`, which is `m_containers.at(index)`. -/
def acquireContainer (s : ProcessorStorage) (index : Nat) : Service ContainerId :=
  match s.m_containers.lookup index with
  | some container => pure container
  | none => .fault .outOfRange

/-- `reclaimContainer`, which does nothing. -/
def reclaimContainer (s : ProcessorStorage) (_container : ContainerId) : ProcessorStorage := s

def processorCount (s : ProcessorStorage) : Nat := s.m_containers.length

end ProcessorStorage

/-! ## `ProcessorInitializer` -/

/-- `ProcessorInitializer<ProcessorStorage>`; `m_initializedMap` is a set, kept in ascending order. -/
structure ProcessorInitializer where
  m_initializedMap : List Nat
  m_upstream : ProcessorStorage

namespace ProcessorInitializer

def empty : ProcessorInitializer := ⟨[], .empty⟩

/-- `addContainer`. -/
def addContainer (p : ProcessorInitializer) (index : Nat) (container : ContainerId) :
    ReturnStatus × ProcessorInitializer :=
  let (err, upstream) := p.m_upstream.addContainer index container
  (err, { p with m_upstream := upstream })

/-- `acquireContainer`. What `init` returns is not looked at. -/
def acquireContainer (p : ProcessorInitializer) (index : Nat) :
    Service (ProcessorInitializer × ContainerId) := do
  let container ← p.m_upstream.acquireContainer index
  if index ∈ p.m_initializedMap then
    return (p, container)
  else
    .emit (.init container)
    return ({ p with m_initializedMap := p.m_initializedMap.orderedInsert (· ≤ ·) index }, container)

/-- `deinitContainer`. -/
def deinitContainer (p : ProcessorInitializer) (index : Nat) : Service ProcessorInitializer := do
  if index ∈ p.m_initializedMap then
    let container ← p.m_upstream.acquireContainer index
    .emit (.deinit container)
    return { p with m_initializedMap := p.m_initializedMap.erase index }
  else
    return p

/-- `removeContainer`. -/
def removeContainer (p : ProcessorInitializer) (index : Nat) :
    Service (Bool × ProcessorInitializer) := do
  let p ← p.deinitContainer index
  let (removed, upstream) := p.m_upstream.removeContainer index
  return (removed, { p with m_upstream := upstream })

/-- `reclaimContainer`. -/
def reclaimContainer (p : ProcessorInitializer) (container : ContainerId) : ProcessorInitializer :=
  { p with m_upstream := p.m_upstream.reclaimContainer container }

/-- `clear`. The loop runs over the set while `deinitContainer` erases from it; it is taken to visit each
index that was there once. -/
def clear (p : ProcessorInitializer) : Service ProcessorInitializer := do
  let p ← p.m_initializedMap.foldlM deinitContainer p
  return { p with m_upstream := .empty }

def processorCount (p : ProcessorInitializer) : Nat := p.m_upstream.processorCount

end ProcessorInitializer

end LimbWorker.ImageService

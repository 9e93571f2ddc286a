import LimbWorker.AppTasks.TaskParser
import LimbWorker.ProcessorLoader

/-!
# `App`

`App` ties the loader, the image service and the capabilities together. A run of the program is `init`,
some `processImage` calls, `deinit`, and `deinit` once more from the destructor; `lifecycle` is that
run, and its trace is every call that the containers see.
-/

namespace LimbWorker

open AppTasks ImageService Lib

/-- `App`; of the image service only its container provider, of the capabilities their list. -/
structure App where
  m_mediaService : ProcessorInitializer
  m_processorLoader : ProcessorLoader
  m_capProvider : List AppInfoTask.AvailableProcessor

/-- A `processImage` call, as the containers see it: whether the image could be read and decoded, and
whether the container has a processor to give. -/
structure Request where
  modelId : Nat
  decoded : Bool
  processor : Bool
  deriving DecidableEq, Repr

namespace App

/-- An `App` over a loader that has found `modules`. -/
def new (modules : List LoadedModule) : App := ⟨.empty, .load modules, []⟩

/-- `CapabilitiesProvider::addAvailableProcessor`. -/
def addAvailableProcessor (app : App) (name : String) (index : Nat) : App :=
  if app.m_capProvider.any fun proc => proc.index = index then app
  else { app with m_capProvider := app.m_capProvider ++ [⟨name, index⟩] }

/-- The loop of `init` from index `i` on; `given i` says whether module `i` returns a container. The
`unique_ptr` deinitialises and destroys a container that could not be added. -/
def initLoop (given : Nat → Bool) (app : App) (i : Nat) : Nat → Service (ReturnStatus × App)
  | 0 => return (.kOk, app)
  | remaining + 1 =>
      match app.m_processorLoader.allocateContainer i (given i) with
      | (_, none) => return (.kInvalidInput, app)
      | (loader, some container) =>
          match app.m_mediaService.addContainer i container with
          | (.kOk, service) =>
              let app := { app with m_processorLoader := loader, m_mediaService := service }
              initLoop given (app.addAvailableProcessor (loader.processorName i) i) (i + 1) remaining
          | (err, _) => do
              .emit (.deinit container)
              let loader ← loader.destroyContainer container
              return (err, { app with m_processorLoader := loader })

/-- `App::init`. -/
def init (app : App) (given : Nat → Bool) : Service (ReturnStatus × App) :=
  app.initLoop given 0 app.m_processorLoader.processorCount

/-- The loop of `deinit` from index `i` on. -/
def deinitLoop (app : App) (i : Nat) : Nat → Service App
  | 0 => return app
  | remaining + 1 => do
      let (service, container) ← app.m_mediaService.acquireContainer i
      let loader ← app.m_processorLoader.destroyContainer container
      deinitLoop { app with m_mediaService := service, m_processorLoader := loader } (i + 1) remaining

/-- `App::deinit`. -/
def deinit (app : App) : Service App := do
  let app ← app.deinitLoop 0 app.m_mediaService.processorCount
  let service ← app.m_mediaService.clear
  return { app with m_capProvider := [], m_mediaService := service }

/-- `App::processImage`. -/
def processImage (app : App) (input : Request) : Service App := do
  if input.decoded = false then
    return app
  else
    let (service, container) ← app.m_mediaService.acquireContainer input.modelId
    .emit (.tryAcquireProcessor container)
    if input.processor then
      .emit (.reclaimProcessor container)
    return { app with m_mediaService := service }

/-- The `processImage` calls of a run. An exception ends its call and leaves the application as it
was. -/
def requests (app : App) : List Request → Service App
  | [] => return app
  | input :: rest =>
      let call := app.processImage input
      match call.result with
      | .ok app => ⟨call.events ++ (requests app rest).events, (requests app rest).result⟩
      | .error _ => ⟨call.events ++ (requests app rest).events, (requests app rest).result⟩

/-- A whole run: `init`, the requests, `deinit`, and the `deinit` of the destructor. -/
def lifecycle (modules : List LoadedModule) (given : Nat → Bool) (inputs : List Request) :
    Service Unit := do
  let (_, app) ← (new modules).init given
  let app ← app.requests inputs
  let app ← app.deinit
  let _ ← app.deinit

end App

end LimbWorker

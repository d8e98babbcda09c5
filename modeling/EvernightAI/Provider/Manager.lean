import EvernightAI.Schema.Base
import EvernightAI.Lib.TransitionSystem
import Mathlib.Logic.Function.Basic

/-!
# The provider manager

`ProviderManager` keeps one live *slot* for each enabled provider: an instance with the number of
calls on it. A replaced or deleted slot is *retired*; its instance is closed by whoever finds it
idle first. The operations are coroutines of one event loop, so the manager is a transition system
over its state and the tasks that run on it: a step takes one task from one `await` to the next.

* `ManagerCall` is what a caller asks for, `ManagerPoint` is where its task stands.
* `ManagerLabel` is what is decided outside: which task goes on, which of the collaborators (secret
  resolver, factory, store) fail while it does, and which task is cancelled.
* How a call on an instance ends is left open, and so is which waiter gets a lock. Every caller of
  `chat_stream` in the repository reads its stream once, so a stream is one task: it is opened,
  read, and released. A stream that nobody reads stays where it is.

A step that finds its lock taken, or its event not set, is not enabled. Instances are numbered in
the order they are built.
-/

namespace EvernightAI

inductive ProviderType
  | openai | openaiResponses | google | anthropic
  deriving DecidableEq, Repr

structure ProviderConfig where
  providerId : String
  name : String
  type : ProviderType
  isEnabled : Bool := true
  discoverModels : Bool := false
  apiKey : Option String := none
  apiKeySecretRef : Option String := none
  baseUrl : Option String := none
  model : Dict := []
  metadata : Dict := []
  deriving DecidableEq, Repr

/-- A partial update. A field that is `none` was not set; a nullable one may be set to `none`. -/
structure ProviderConfigUpdate where
  name : Option String := none
  type : Option ProviderType := none
  isEnabled : Option Bool := none
  discoverModels : Option Bool := none
  apiKey : Option (Option String) := none
  apiKeySecretRef : Option (Option String) := none
  baseUrl : Option (Option String) := none
  model : Option Dict := none
  metadata : Option Dict := none
  deriving DecidableEq, Repr

namespace ProviderConfigUpdate

/-- `not changes or changes == {"is_enabled": config.is_enabled}` -/
def changesNothing (update : ProviderConfigUpdate) (config : ProviderConfig) : Bool :=
  { update with isEnabled := none } = ({} : ProviderConfigUpdate) &&
    update.isEnabled.all (· = config.isEnabled)

/-- The configuration with the changes. A new key replaces a secret reference, and the other way
round. -/
def apply (update : ProviderConfigUpdate) (config : ProviderConfig) : ProviderConfig where
  providerId := config.providerId
  name := update.name.getD config.name
  type := update.type.getD config.type
  isEnabled := update.isEnabled.getD config.isEnabled
  discoverModels := update.discoverModels.getD config.discoverModels
  apiKey :=
    if update.apiKey.join.isNone && update.apiKeySecretRef.join.isSome then none
    else update.apiKey.getD config.apiKey
  apiKeySecretRef :=
    if update.apiKey.join.isSome then none
    else update.apiKeySecretRef.getD config.apiKeySecretRef
  baseUrl := update.baseUrl.getD config.baseUrl
  model := update.model.getD config.model
  metadata := update.metadata.getD config.metadata

end ProviderConfigUpdate

/-- `_ProviderSlot`. `idle` and `closed` are its events. -/
structure ProviderSlot where
  providerId : String
  generation : Nat
  /-- the number of its instance -/
  built : Nat
  activeCalls : Int := 0
  retired : Bool := false
  closeStarted : Bool := false
  idle : Bool := true
  closed : Bool := false
  deriving DecidableEq, Repr

/-- An operation of the manager. -/
inductive ManagerCall
  | create (provider : ProviderConfig) (replaceExisting : Bool)
  | update (providerId : String) (update : ProviderConfigUpdate)
  | delete (providerId : String)
  | chat (providerId : String)
  | chatStream (providerId : String)
  | close
  deriving DecidableEq, Repr

/-- Where the task of an operation stands. A slot is given by its number in the heap. -/
inductive ManagerPoint
  /-- the operation is called, and waits for its lock -/
  | start
  /-- `_replace_provider` holds the lock and awaits the factory -/
  | building (provider : ProviderConfig) (previous : Option Nat)
  /-- the configuration was not saved; the new instance is being closed under the lock -/
  | discarding (providerId : String)
  /-- a call on the instance is running -/
  | calling (slot : Nat)
  /-- a stream of the instance is open -/
  | streaming (slot : Nat)
  /-- the call is over, and its slot not yet released -/
  | releasing (slot : Nat)
  /-- `_close_when_idle`, before `idle.wait()` has returned; `rest` are the slots after this one -/
  | waitIdle (slot : Nat) (rest : List Nat)
  /-- `idle.wait()` has returned -/
  | foundIdle (slot : Nat) (rest : List Nat)
  /-- somebody else closes the slot -/
  | waitClosed (slot : Nat) (rest : List Nat)
  /-- awaiting `instance.close()` -/
  | closing (slot : Nat) (rest : List Nat)
  | returned
  | raised
  | cancelled
  /-- cancelled before the slot was released -/
  | abandoned (slot : Nat)
  deriving DecidableEq, Repr

structure ManagerTask where
  call : ManagerCall
  point : ManagerPoint := .start
  deriving DecidableEq, Repr

/-- What fails while a task goes on. -/
inductive ManagerFailure
  | resolveSecret | buildInstance | saveConfig | deleteConfig | openStream
  deriving DecidableEq, Repr

inductive ManagerLabel
  | call (call : ManagerCall)
  | go (task : Nat) (failures : List ManagerFailure)
  | cancel (task : Nat)
  deriving DecidableEq, Repr

/-- The manager, the tasks that run on it, and the instances `close()` was called on. `locks` has
the task that holds a lock across an `await`. -/
structure ProviderManager where
  configStore : Option (String → Option ProviderConfig) := none
  hasSecretResolver : Bool := false
  configs : String → Option ProviderConfig := fun _ => none
  slots : String → Option Nat := fun _ => none
  retiredSlots : String × Nat → Option Nat := fun _ => none
  locks : String → Option Nat := fun _ => none
  generations : String → Nat := fun _ => 0
  heap : List ProviderSlot := []
  built : Nat := 0
  tasks : List ManagerTask := []
  closes : List Nat := []

namespace ProviderManager

variable (manager : ProviderManager) (task : Nat)

def slot? (slot : Nat) : Option ProviderSlot := manager.heap[slot]?

/-- The task goes to another point. -/
def goto (point : ManagerPoint) : ProviderManager :=
  { manager with tasks := manager.tasks.modify task ({ · with point }) }

def updateSlot (slot : Nat) (f : ProviderSlot → ProviderSlot) : ProviderManager :=
  { manager with heap := manager.heap.modify slot f }

def unlock (providerId : String) : ProviderManager :=
  { manager with locks := Function.update manager.locks providerId none }

/-! ### Closing slots -/

/-- `_retire_slot` -/
def retireSlot (slot : Nat) : ProviderManager :=
  match manager.slot? slot with
  | none => manager
  | some s =>
    { manager.updateSlot slot ({ · with retired := true }) with
      retiredSlots := Function.update manager.retiredSlots (s.providerId, s.generation)
        (some slot) }

/-- The calls of `_close_when_idle` for some slots, up to the first that has to wait. -/
def closeWhenIdle : List Nat → ManagerPoint
  | [] => .returned
  | slot :: rest =>
    if (manager.slot? slot).any (·.retired) then .waitIdle slot rest else closeWhenIdle rest

/-- `_close_if_idle` -/
def closeIfIdle (slot : Nat) : ManagerPoint :=
  if (manager.slot? slot).any (0 < ·.activeCalls) then .returned else manager.closeWhenIdle [slot]

/-- The rest of `_close_when_idle` when the slot is idle. -/
def startClose (slot : Nat) (rest : List Nat) : ProviderManager :=
  match manager.slot? slot with
  | none => manager
  | some s =>
    if s.closeStarted then manager.goto task (.waitClosed slot rest)
    else
      { manager.updateSlot slot ({ · with closeStarted := true }) with
        closes := manager.closes ++ [s.built] }.goto task (.closing slot rest)

/-- The `finally` clause of `_close_when_idle`. -/
def finishClose (slot : Nat) : ProviderManager :=
  match manager.slot? slot with
  | none => manager
  | some s =>
    { manager.updateSlot slot ({ · with closed := true }) with
      retiredSlots := Function.update manager.retiredSlots (s.providerId, s.generation) none }

/-! ### Creating, updating and deleting -/

/-- The store is written, when there is one and it does not fail. -/
def saveConfig (provider : ProviderConfig) (failures : List ManagerFailure) :
    Option ProviderManager :=
  match manager.configStore with
  | none => some manager
  | some store =>
    if ManagerFailure.saveConfig ∈ failures then none
    else
      let stored := if provider.apiKeySecretRef.isSome then { provider with apiKey := none }
        else provider
      some { manager with
        configStore := some (Function.update store provider.providerId (some stored)) }

/-- The configuration and its instance become the live ones. -/
def publishSlot (provider : ProviderConfig) (instance? : Option Nat) : ProviderManager :=
  let manager := { manager with
    configs := Function.update manager.configs provider.providerId (some provider) }
  match instance? with
  | none => { manager with slots := Function.update manager.slots provider.providerId none }
  | some built =>
    let generation := manager.generations provider.providerId + 1
    { manager with
      generations := Function.update manager.generations provider.providerId generation
      slots := Function.update manager.slots provider.providerId (some manager.heap.length)
      heap := manager.heap ++ [{ providerId := provider.providerId, generation, built }] }

/-- The publication of a configuration, and the retirement of the previous slot. -/
def publish (provider : ProviderConfig) (previous : Option Nat) (instance? : Option Nat) :
    ProviderManager :=
  previous.elim (manager.publishSlot provider instance?)
    (manager.publishSlot provider instance?).retireSlot

/-- `_replace_provider` behind the factory, and the end of `create` and `update`. -/
def replaceProvider (provider : ProviderConfig) (previous : Option Nat) (instance? : Option Nat)
    (failures : List ManagerFailure) : ProviderManager :=
  match manager.saveConfig provider failures with
  | none =>
    match instance? with
    | none => (manager.unlock provider.providerId).goto task .raised
    | some built =>
      { manager with closes := manager.closes ++ [built] }.goto task
        (.discarding provider.providerId)
  | some saved =>
    let published := (saved.publish provider previous instance?).unlock provider.providerId
    published.goto task (previous.elim .returned published.closeIfIdle)

/-- `_resolve_secret` raises. -/
def secretFails (provider : ProviderConfig) (failures : List ManagerFailure) : Bool :=
  provider.apiKey.isNone && provider.apiKeySecretRef.isSome &&
    (!manager.hasSecretResolver || failures.contains .resolveSecret)

/-- `_replace_provider` up to the factory. -/
def buildProvider (provider : ProviderConfig) (previous : Option Nat)
    (failures : List ManagerFailure) : ProviderManager :=
  if provider.isEnabled then
    if manager.secretFails provider failures then manager.goto task .raised
    else
      { manager with locks := Function.update manager.locks provider.providerId (some task) }.goto
        task (.building provider previous)
  else manager.replaceProvider task provider previous none failures

/-- `delete` under its lock, up to the closing of the slot. -/
def deleteProvider (providerId : String) (failures : List ManagerFailure) : ProviderManager :=
  if (manager.configs providerId).isNone then manager.goto task .raised
  else if manager.configStore.isSome && failures.contains .deleteConfig then
    manager.goto task .raised
  else
    let removed := { manager with
      configStore := manager.configStore.map fun store => Function.update store providerId none
      slots := Function.update manager.slots providerId none
      configs := Function.update manager.configs providerId none }
    match manager.slots providerId with
    | none => removed.goto task .returned
    | some slot =>
      let retired := removed.retireSlot slot
      retired.goto task (retired.closeWhenIdle [slot])

/-- The slots `close` collects, here in the order of their creation. -/
def allSlots : List Nat :=
  (List.range manager.heap.length).filter fun slot =>
    (manager.slot? slot).any fun s =>
      manager.slots s.providerId = some slot ||
        manager.retiredSlots (s.providerId, s.generation) = some slot

/-- `close`, up to the first slot it waits for. -/
def closeManager : ProviderManager :=
  let slots := manager.allSlots
  let retired := slots.foldl retireSlot
    { manager with slots := fun _ => none, configs := fun _ => none }
  retired.goto task (retired.closeWhenIdle slots)

/-! ### Calls on an instance -/

/-- `_acquire_slot`: `_get_slot` raises, or the slot is held by the call. -/
def acquireSlot (providerId : String) : ProviderManager :=
  match manager.configs providerId, manager.slots providerId with
  | some config, some slot =>
    if config.isEnabled then
      (manager.updateSlot slot fun s =>
        { s with activeCalls := s.activeCalls + 1, idle := false }).goto task (.calling slot)
    else manager.goto task .raised
  | _, _ => manager.goto task .raised

/-- `_release_slot` -/
def releaseSlot (slot : Nat) : ProviderManager :=
  let released := manager.updateSlot slot fun s =>
    { s with activeCalls := s.activeCalls - 1, idle := s.idle || s.activeCalls - 1 = 0 }
  released.goto task (released.closeIfIdle slot)

/-! ### Steps -/

/-- The lock of a provider is free. -/
def free (providerId : String) : Bool := (manager.locks providerId).isNone

/-- The first step of an operation. `close` takes no lock. -/
def startStep (call : ManagerCall) (failures : List ManagerFailure) : Option ProviderManager :=
  match call with
  | .create provider replaceExisting =>
    if manager.free provider.providerId then
      some (if (manager.configs provider.providerId).isSome && !replaceExisting then
        manager.goto task .raised
      else
        manager.buildProvider task provider (manager.slots provider.providerId) failures)
    else none
  | .update providerId update =>
    if manager.free providerId then
      some (match manager.configs providerId with
        | none => manager.goto task .raised
        | some config =>
          if update.changesNothing config then manager.goto task .returned
          else manager.buildProvider task (update.apply config) (manager.slots providerId) failures)
    else none
  | .delete providerId =>
    if manager.free providerId then some (manager.deleteProvider task providerId failures) else none
  | .chat providerId | .chatStream providerId =>
    if manager.free providerId then some (manager.acquireSlot task providerId) else none
  | .close => some (manager.closeManager task)

/-- The task goes on from its point. -/
def goStep (call : ManagerCall) (failures : List ManagerFailure) :
    ManagerPoint → Option ProviderManager
  | .start => manager.startStep task call failures
  | .building provider previous =>
    if ManagerFailure.buildInstance ∈ failures then
      some ((manager.unlock provider.providerId).goto task .raised)
    else
      some ({ manager with built := manager.built + 1 }.replaceProvider task provider previous
        (some manager.built) failures)
  | .discarding providerId => some ((manager.unlock providerId).goto task .raised)
  | .calling slot =>
    match call with
    | .chatStream _ =>
      some (manager.goto task
        (if ManagerFailure.openStream ∈ failures then .releasing slot else .streaming slot))
    | _ => some (manager.goto task (.releasing slot))
  | .streaming slot => some (manager.goto task (.releasing slot))
  | .releasing slot =>
    match manager.slot? slot with
    | some s => if manager.free s.providerId then some (manager.releaseSlot task slot) else none
    | none => none
  | .waitIdle slot rest =>
    if (manager.slot? slot).any (·.idle) then some (manager.goto task (.foundIdle slot rest))
    else none
  | .foundIdle slot rest => some (manager.startClose task slot rest)
  | .waitClosed slot rest =>
    if (manager.slot? slot).any (·.closed) then
      some (manager.goto task (manager.closeWhenIdle rest))
    else none
  | .closing slot rest =>
    let finished := manager.finishClose slot
    some (finished.goto task (finished.closeWhenIdle rest))
  | .returned | .raised | .cancelled | .abandoned _ => none

/-- The task is cancelled at its `await`. -/
def cancelStep : ManagerPoint → Option ProviderManager
  | .start | .waitIdle _ _ | .foundIdle _ _ | .waitClosed _ _ =>
    some (manager.goto task .cancelled)
  | .building provider _ => some ((manager.unlock provider.providerId).goto task .cancelled)
  | .discarding providerId => some ((manager.unlock providerId).goto task .cancelled)
  | .calling slot | .streaming slot => some (manager.goto task (.releasing slot))
  | .releasing slot => some (manager.goto task (.abandoned slot))
  | .closing slot _ => some ((manager.finishClose slot).goto task .cancelled)
  | .returned | .raised | .cancelled | .abandoned _ => none

/-- One step of the manager. -/
def step (manager : ProviderManager) : ManagerLabel → Option ProviderManager
  | .call call => some { manager with tasks := manager.tasks ++ [{ call }] }
  | .go task failures => manager.tasks[task]?.bind fun t =>
      manager.goStep task t.call failures t.point
  | .cancel task => manager.tasks[task]?.bind fun t => manager.cancelStep task t.point

end ProviderManager

end EvernightAI

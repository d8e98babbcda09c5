import EvernightAI.Lib.TransitionSystem
import Mathlib.Data.Finset.Basic

/-!
# The single-process executor

`SingleProcessAgentRunExecutor` runs an operation in a task of its own, renews the lease of the run
in a second task, and hands the result (`execute`) or the events (`stream`) to a consumer. The three
tasks meet at awaits only, so an interleaving is a list of labels, one for each stretch of code that
some task runs between two awaits.

* `Execution` is one call of `execute` or one started `stream`: the task of its operation, the
  heartbeat, the queue of one place with its getter, and the point the consumer waits at.
* `Executor` holds the collections the executions share, under the source's names.
* `step` is the relation. What the operation does, what the lease register answers and when somebody
  is cancelled come with the label.

`produced` and `emitted` record the events the operation made and the consumer got; `leaseCalls`
records what the execution asked of the register after it had acquired its lease.
-/

namespace EvernightAI.AgentExecutor

open TransitionSystem

/-! ### The tasks of one execution -/

/-- How a task ends. -/
inductive Outcome
  | returned | failed | canceled
  deriving DecidableEq, Repr

/-- The task of an operation. While it is `running` it is at an await of the operation itself. -/
inductive TaskState (α : Type)
  | running
  /-- `queue.put` waits for a place. -/
  | putting (event : α)
  /-- `queue.put` was cancelled: `produce` closes the events and raises. -/
  | dropping (event : α)
  | ended (outcome : Outcome)
  deriving DecidableEq, Repr

/-- The getter task of the relay. -/
inductive Getter (α : Type)
  | absent
  | waiting
  | holding (event : α)
  deriving DecidableEq, Repr

/-- The heartbeat task; once it is `canceling` it renews nothing any more. -/
inductive Heartbeat
  | beating | canceling | ended
  deriving DecidableEq, Repr

/-- How `execute` or the generator of `stream` ends. -/
inductive Ending
  | returned
  | failed
  /-- `CancelledError` -/
  | canceled
  /-- `AgentRunCanceledError` -/
  | runCanceled (message : String)
  /-- `AgentRunLeaseLostError` -/
  | leaseLost (message : String)
  /-- `GeneratorExit` -/
  | closed
  | releaseFailed
  deriving DecidableEq, Repr

/-- Where `execute` or the generator of `stream` waits. -/
inductive Consumer
  /-- `await task` of `execute` -/
  | awaitingResult
  /-- `asyncio.wait({get, task})` -/
  | waiting
  /-- `yield get.result()` -/
  | relaying
  /-- `yield queue.get_nowait()` -/
  | flushing
  /-- `asyncio.wait({task})` of the cleanup -/
  | stopping (ending : Ending)
  /-- `await heartbeat` of the cleanup -/
  | retiring (ending : Ending)
  | ended (ending : Ending)
  deriving DecidableEq, Repr

/-- A call of the lease register by an execution that holds a lease. -/
inductive LeaseCall
  | heartbeat (runId : String) (generation : Nat)
  | release (runId : String) (generation : Nat)
  deriving DecidableEq, Repr

/-- One call of `execute`, or one `stream` whose generator has been started. -/
structure Execution (α : Type) where
  runId : String
  generation : Nat
  streams : Bool
  task : TaskState α := .running
  heartbeat : Heartbeat := .beating
  queue : List α := []
  getter : Getter α := .absent
  consumer : Consumer
  produced : List α := []
  emitted : List α := []
  leaseCalls : List LeaseCall := []
  deriving DecidableEq, Repr

variable {α : Type}

/-- The task is done. -/
def TaskState.done : TaskState α → Bool
  | .ended _ => true
  | _ => false

/-- `task.cancelled()` -/
def TaskState.cancelled : TaskState α → Bool
  | .ended .canceled => true
  | _ => false

/-- `task.cancel()`: a waiting `queue.put` raises; what the operation makes of a cancellation at an
await of its own is up to the operation. -/
def TaskState.cancel : TaskState α → TaskState α
  | .putting event => .dropping event
  | task => task

/-- `heartbeat.cancel()` -/
def Heartbeat.cancel : Heartbeat → Heartbeat
  | .ended => .ended
  | _ => .canceling

/-- The generator or call is over. -/
def Consumer.isEnded : Consumer → Bool
  | .ended _ => true
  | _ => false

namespace Execution

/-- `task.cancel()` -/
def cancelTask (e : Execution α) : Execution α := { e with task := e.task.cancel }

/-- The operation yields an event, and `queue.put` places it or waits. -/
def produce (e : Execution α) (event : α) : Option (Execution α) :=
  match e.streams, e.task, e.queue with
  | true, .running, [] => some { e with produced := e.produced ++ [event], queue := [event] }
  | true, .running, _ => some { e with produced := e.produced ++ [event], task := .putting event }
  | _, _, _ => none

/-- The waiting `queue.put` finds a place. -/
def put (e : Execution α) : Option (Execution α) :=
  match e.task, e.queue with
  | .putting event, [] => some { e with task := .running, queue := [event] }
  | _, _ => none

/-- The task ends. After a dropped event it can only raise. -/
def finishTask (e : Execution α) (outcome : Outcome) : Option (Execution α) :=
  match e.task with
  | .running => some { e with task := .ended outcome }
  | .dropping _ => if outcome = .returned then none else some { e with task := .ended outcome }
  | _ => none

/-- The getter takes the item of the queue. -/
def take (e : Execution α) : Option (Execution α) :=
  match e.getter, e.queue with
  | .waiting, event :: rest => some { e with getter := .holding event, queue := rest }
  | _, _ => none

/-- The heartbeat renews the lease; it ends when the lease is not renewed. -/
def renew (e : Execution α) (renewed : Bool) : Option (Execution α) :=
  match e.heartbeat with
  | .beating => some { e with
      leaseCalls := e.leaseCalls ++ [.heartbeat e.runId e.generation]
      heartbeat := if renewed then .beating else .ended }
  | _ => none

/-- The cancelled heartbeat ends. -/
def stopHeartbeat (e : Execution α) : Option (Execution α) :=
  if e.heartbeat = .canceling then some { e with heartbeat := .ended } else none

/-! ### The consumer -/

/-- `_finish_execution` from `heartbeat.cancel()` to its await. -/
def retire (e : Execution α) (ending : Ending) : Execution α :=
  { e with heartbeat := e.heartbeat.cancel, consumer := .retiring ending }

/-- `_finish_execution` up to its first await. -/
def finish (e : Execution α) (ending : Ending) : Execution α :=
  if e.task.done then e.retire ending
  else { e with task := e.task.cancel, consumer := .stopping ending }

/-- `await task` of a task that is done, with its `except` clause. -/
def taskEnding (e : Execution α) (interruption : Option Ending) : Ending :=
  match e.task with
  | .ended .returned => .returned
  | .ended .canceled => interruption.getD .canceled
  | _ => .failed

/-- The generator from `while not queue.empty()` to its next await. -/
def flush (e : Execution α) (interruption : Option Ending) : Execution α :=
  match e.queue with
  | event :: rest =>
    { e with queue := rest, emitted := e.emitted ++ [event], consumer := .flushing }
  | [] => e.finish (e.taskEnding interruption)

/-- What the consumer waits for has happened. -/
def wake (e : Execution α) (interruption : Option Ending) : Option (Execution α) :=
  match e.consumer, e.getter with
  | .awaitingResult, _ =>
    if e.task.done then some (e.finish (e.taskEnding interruption)) else none
  | .waiting, .holding event =>
    some { e with getter := .absent, emitted := e.emitted ++ [event], consumer := .relaying }
  | .waiting, _ =>
    -- the getter is cancelled, and has taken nothing
    if e.task.done then some ({ e with getter := .absent }.flush interruption) else none
  | .stopping ending, _ => if e.task.done then some (e.retire ending) else none
  | _, _ => none

/-- `__anext__` of the started generator. -/
def next (e : Execution α) (interruption : Option Ending) : Option (Execution α) :=
  match e.consumer with
  | .relaying => some { e with getter := .waiting, consumer := .waiting }
  | .flushing => some (e.flush interruption)
  | _ => none

/-- `aclose` at a `yield`. -/
def aclose (e : Execution α) : Option (Execution α) :=
  match e.consumer with
  | .relaying | .flushing => some (e.finish .closed)
  | _ => none

/-- The consumer is cancelled at the await it is at. -/
def interrupt (e : Execution α) (interruption : Option Ending) : Option (Execution α) :=
  match e.consumer with
  | .awaitingResult =>
    -- the cancellation goes to the awaited task, unless that is done
    if e.task.done then some (e.finish (interruption.getD .canceled)) else some e.cancelTask
  | .waiting =>
    some ({ e with getter := .absent }.finish
      (if e.task.cancelled then interruption.getD .canceled else .canceled))
  | .stopping _ => some { e with consumer := .ended .canceled }
  | .retiring _ => some e
  | _ => none

/-- `_finish_execution` from its last await: `release_lease` returns or raises. -/
def release (e : Execution α) (released : Bool) : Option (Execution α) :=
  match e.consumer, e.heartbeat with
  | .retiring ending, .ended => some { e with
      leaseCalls := e.leaseCalls ++ [.release e.runId e.generation]
      consumer := .ended (if released then ending else .releaseFailed) }
  | _, _ => none

end Execution

/-! ### The executor -/

/-- `SingleProcessAgentRunExecutor` with the executions it has started; a task is named by the place
of its execution. -/
structure Executor (α : Type) where
  closing : Bool := false
  tasks : String → Option Nat := fun _ => none
  cancelRequested : Finset String := ∅
  leaseLost : Finset String := ∅
  executions : List (Execution α) := []

namespace Executor

variable (s : Executor α)

/-- The stretch of code `f` of an execution. -/
def advance (i : Nat) (f : Execution α → Option (Execution α)) : Option (Executor α) :=
  s.executions[i]?.bind fun e => (f e).map fun e' => { s with executions := s.executions.set i e' }

/-- `_acquire`, the register answering with a generation or an error. -/
def acquire (runId : String) (answer : Except String Nat) : Except String Nat :=
  if s.closing then .error "Agent run executor is closing"
  else if (s.tasks runId).isSome then .error s!"The agent run {runId} is already executing"
  else answer

/-- `execute` or the generator of `stream` up to its first await. -/
def start (streams : Bool) (runId : String) (answer : Except String Nat) : Executor α :=
  match s.acquire runId answer with
  | .error _ => s
  | .ok generation =>
    { s with
      tasks := Function.update s.tasks runId (some s.executions.length)
      executions := s.executions ++ [{
        runId, generation, streams
        consumer := if streams then .waiting else .awaitingResult
        getter := if streams then .waiting else .absent }] }

/-- `task.cancel()` of the task in `_tasks`. -/
def cancelTask (i : Nat) : Executor α :=
  (s.advance i fun e => some e.cancelTask).getD s

/-- `cancel` -/
def cancel (runId : String) : Bool × Executor α :=
  match s.tasks runId with
  | none => (false, s)
  | some i =>
    if s.executions[i]?.any (·.task.done) then (false, s)
    else (true, { s with cancelRequested := insert runId s.cancelRequested }.cancelTask i)

/-- `_interruption_error` -/
def interruptionError (runId : String) : Option Ending :=
  if runId ∈ s.cancelRequested then some (.runCanceled s!"The agent run {runId} was canceled")
  else if runId ∈ s.leaseLost then
    some (.leaseLost s!"The agent run {runId} lost its execution lease")
  else none

/-- The branch of `_heartbeat` for a lease that was not renewed. -/
def loseLease (runId : String) : Executor α :=
  match s.tasks runId with
  | none => { s with leaseLost := insert runId s.leaseLost }
  | some i => { s with leaseLost := insert runId s.leaseLost }.cancelTask i

/-- One turn of `_heartbeat`. -/
def heartbeat (i : Nat) (renewed : Bool) : Option (Executor α) :=
  s.executions[i]?.bind fun e => (s.advance i (·.renew renewed)).map fun s' =>
    if renewed then s' else s'.loseLease e.runId

/-- The end of `_finish_execution`: the run leaves the collections. -/
def release (i : Nat) (released : Bool) : Option (Executor α) :=
  s.executions[i]?.bind fun e => (s.advance i (·.release released)).map fun s' =>
    if s.tasks e.runId = some i then
      { s' with
        tasks := Function.update s'.tasks e.runId none
        cancelRequested := s'.cancelRequested.erase e.runId
        leaseLost := s'.leaseLost.erase e.runId }
    else s'

end Executor

/-- The stretches of code between two awaits. -/
inductive Label (α : Type)
  | start (streams : Bool) (runId : String) (answer : Except String Nat)
  | cancel (runId : String)
  | close
  | produce (i : Nat) (event : α)
  | put (i : Nat)
  | finishTask (i : Nat) (outcome : Outcome)
  /-- The deadline of the operation, or a cancelled `close`, cancels the task. -/
  | expire (i : Nat)
  | take (i : Nat)
  | heartbeat (i : Nat) (renewed : Bool)
  | stopHeartbeat (i : Nat)
  | wake (i : Nat)
  | next (i : Nat)
  | aclose (i : Nat)
  | interrupt (i : Nat)
  | release (i : Nat) (released : Bool)

/-- **The step relation.** -/
def step (s : Executor α) : Label α → Option (Executor α)
  | .start streams runId answer => some (s.start streams runId answer)
  | .cancel runId => some (s.cancel runId).2
  | .close => some { s with closing := true }
  | .produce i event => s.advance i (·.produce event)
  | .put i => s.advance i Execution.put
  | .finishTask i outcome => s.advance i (·.finishTask outcome)
  | .expire i => s.advance i fun e => some e.cancelTask
  | .take i => s.advance i Execution.take
  | .heartbeat i renewed => s.heartbeat i renewed
  | .stopHeartbeat i => s.advance i Execution.stopHeartbeat
  | .wake i => s.advance i fun e => e.wake (s.interruptionError e.runId)
  | .next i => s.advance i fun e => e.next (s.interruptionError e.runId)
  | .aclose i => s.advance i Execution.aclose
  | .interrupt i => s.advance i fun e => e.interrupt (s.interruptionError e.runId)
  | .release i released => s.release i released

end EvernightAI.AgentExecutor

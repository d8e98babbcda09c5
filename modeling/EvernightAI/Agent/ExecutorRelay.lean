import EvernightAI.Agent.Executor

/-!
# One execution between two awaits

The stretches of code of an execution, one by one: the task puts events, the getter takes them, the
consumer relays them and cleans up.

* `Coherent` is what holds between the parts of an execution at every await: what is on its way to
  the consumer completes what it has got to what was produced.
* `Keeps` is what no stretch of code undoes: the calls of the lease register, an ended task, heartbeat
  or consumer.
* `interrupt_isEnded` says which cancellation ends the consumer at once.
-/

namespace EvernightAI.AgentExecutor

variable {α : Type}

/-- The event a getter has taken. -/
def Getter.held : Getter α → List α
  | .holding event => [event]
  | _ => []

/-- The event that is produced and not in the queue. -/
def TaskState.pending : TaskState α → List α
  | .putting event | .dropping event => [event]
  | _ => []

/-- The task has dropped no event. -/
def TaskState.intact : TaskState α → Bool
  | .ended .failed | .ended .canceled => false
  | _ => true

/-- How the execution is going to end, once its cleanup has begun. -/
def Consumer.ending : Consumer → Option Ending
  | .stopping ending | .retiring ending | .ended ending => some ending
  | _ => none

/-- The generator is still relaying. -/
def Consumer.inRelay : Consumer → Bool
  | .waiting | .relaying | .flushing => true
  | _ => false

/-- The cleanup waits for the task. -/
def Consumer.stops : Consumer → Bool
  | .stopping _ => true
  | _ => false

/-- The consumer has seen the task done. -/
def Consumer.pastTask : Consumer → Bool
  | .flushing | .retiring _ => true
  | _ => false

namespace Execution

variable {e e' : Execution α} {ending : Ending} {interruption : Option Ending}

/-- What the consumer of a stream is owed. -/
structure Relays (e : Execution α) : Prop where
  inOrder : e.emitted <+: e.produced
  complete : e.consumer = .ended .returned → e.emitted = e.produced

/-- The lease is held: it has been renewed, and not released. -/
def HoldsLease (e : Execution α) : Prop :=
  ∃ n, e.leaseCalls = List.replicate n (.heartbeat e.runId e.generation)

/-- The lease was released once, by its own generation, and never renewed after that. -/
def ReleasedLease (e : Execution α) : Prop :=
  ∃ n, e.leaseCalls =
    List.replicate n (.heartbeat e.runId e.generation) ++ [.release e.runId e.generation]

theorem HoldsLease.not_released (h : e.HoldsLease) : ¬e.ReleasedLease := by
  obtain ⟨n, hn⟩ := h
  rintro ⟨m, hm⟩
  have hmem : LeaseCall.release e.runId e.generation ∈ e.leaseCalls := by
    rw [hm]
    exact List.mem_append_right _ (List.mem_singleton.mpr rfl)
  rw [hn] at hmem
  exact absurd (List.eq_of_mem_replicate hmem) (by simp)

/-! ### One execution -/

/-- The events on their way to the consumer: only a task that has failed can have lost one, and
that was the last. -/
def InFlight (e : Execution α) : Prop :=
  ∃ lost, e.produced = e.emitted ++ (e.getter.held ++ (e.queue ++ (e.task.pending ++ lost))) ∧
    (e.task.intact = true → lost = [])

/-- **Between two awaits** the parts of an execution fit together. -/
structure Coherent (e : Execution α) : Prop where
  inFlight : e.consumer.inRelay = true → e.InFlight
  inOrder : e.emitted <+: e.produced
  complete : e.consumer.ending = some .returned → e.task.done = true ∧ e.emitted = e.produced
  silent : e.streams = false → e.produced = []
  awaiting : e.consumer = .awaitingResult → e.streams = false
  pastTask : e.consumer.pastTask = true → e.task.done = true
  ungotten : e.consumer ≠ .waiting → e.getter = .absent

/-- **What no code of an execution undoes.** -/
structure Keeps (e e' : Execution α) : Prop where
  runId : e'.runId = e.runId
  generation : e'.generation = e.generation
  leaseCalls : e'.leaseCalls = e.leaseCalls
  done : e.task.done = true → e'.task.done = true
  retired : e.heartbeat = .ended → e'.heartbeat = .ended
  ended : e.consumer.isEnded = true → e'.consumer = e.consumer

theorem Keeps.refl (e : Execution α) : Keeps e e := ⟨rfl, rfl, rfl, id, id, fun _ => rfl⟩

theorem Keeps.trans {e'' : Execution α} (h : Keeps e e') (h' : Keeps e' e'') : Keeps e e'' where
  runId := h'.runId.trans h.runId
  generation := h'.generation.trans h.generation
  leaseCalls := h'.leaseCalls.trans h.leaseCalls
  done := h'.done ∘ h.done
  retired := h'.retired ∘ h.retired
  ended := fun he => (h'.ended (by rw [h.ended he]; exact he)).trans (h.ended he)

theorem Keeps.holdsLease_iff (h : Keeps e e') : e'.HoldsLease ↔ e.HoldsLease := by
  unfold HoldsLease
  rw [h.leaseCalls, h.runId, h.generation]

theorem Keeps.releasedLease_iff (h : Keeps e e') : e'.ReleasedLease ↔ e.ReleasedLease := by
  unfold ReleasedLease
  rw [h.leaseCalls, h.runId, h.generation]

theorem done_cancel {task : TaskState α} (h : task.done = true) : task.cancel = task := by
  cases task with
  | ended outcome => rfl
  | running | putting event | dropping event => exact absurd h (by simp [TaskState.done])

theorem pending_cancel (task : TaskState α) : task.cancel.pending = task.pending := by
  cases task <;> rfl

theorem intact_cancel (task : TaskState α) : task.cancel.intact = task.intact := by
  cases task <;> rfl

theorem intact_of_undone {task : TaskState α} (h : task.done = false) : task.intact = true := by
  cases task with
  | ended outcome => exact absurd h (by simp [TaskState.done])
  | running | putting event | dropping event => rfl

theorem pending_of_done {task : TaskState α} (h : task.done = true) : task.pending = [] := by
  cases task with
  | ended outcome => rfl
  | running | putting event | dropping event => exact absurd h (by simp [TaskState.done])

/-- A coherent execution that streams nothing has nothing to relay. -/
theorem Coherent.emitted_eq (h : e.Coherent) (hstreams : e.streams = false) :
    e.emitted = e.produced := by
  have hempty := h.silent hstreams
  have hin := h.inOrder
  rw [hempty] at hin ⊢
  exact List.prefix_nil.mp hin

/-! #### The task, the getter and the heartbeat -/

theorem Coherent.cancelTask (h : e.Coherent) : e.cancelTask.Coherent := by
  have hdone : e.task.done = true → e.cancelTask.task.done = true := fun hd => by
    rw [Execution.cancelTask, done_cancel hd]
    exact hd
  refine ⟨fun hr => ?_, h.inOrder, fun hc => ?_, h.silent, h.awaiting, fun hp => ?_, h.ungotten⟩
  · obtain ⟨lost, hflight, hlost⟩ := h.inFlight hr
    refine ⟨lost, ?_, fun hi => hlost (intact_cancel e.task ▸ hi)⟩
    show e.produced = e.emitted ++ (e.getter.held ++ (e.queue ++ (e.task.cancel.pending ++ lost)))
    rw [pending_cancel]
    exact hflight
  · exact ⟨hdone (h.complete hc).1, (h.complete hc).2⟩
  · exact hdone (h.pastTask hp)

theorem keeps_cancelTask (e : Execution α) : Keeps e e.cancelTask :=
  ⟨rfl, rfl, rfl, fun hd => by rw [Execution.cancelTask, done_cancel hd]; exact hd, id,
    fun _ => rfl⟩

/-- The task of a coherent execution moves on: as long as it is not done, all that has to be shown
is that the events in flight still make up what was produced. -/
theorem Coherent.of_undone (h : e.Coherent) (hundone : e.task.done = false)
    (hstreams : e'.streams = e.streams) (hconsumer : e'.consumer = e.consumer)
    (hgetter : e'.getter = e.getter) (hemitted : e'.emitted = e.emitted)
    (hproduced : e.produced <+: e'.produced) (hsilent : e.streams = false → e'.produced = [])
    (hflight : e.produced = e.emitted ++ (e.getter.held ++ (e.queue ++ e.task.pending)) →
      ∃ lost, e'.produced =
          e.emitted ++ (e.getter.held ++ (e'.queue ++ (e'.task.pending ++ lost))) ∧
        (e'.task.intact = true → lost = [])) :
    e'.Coherent := by
  have hpast : e.consumer.pastTask ≠ true := fun hp => by
    rw [h.pastTask hp] at hundone
    exact absurd hundone (by simp)
  have hreturned : e.consumer.ending ≠ some .returned := fun hr => by
    rw [(h.complete hr).1] at hundone
    exact absurd hundone (by simp)
  refine ⟨fun hr => ?_, ?_, fun hc => ?_, ?_, ?_, fun hp => ?_, ?_⟩
  · obtain ⟨lost, hproduced', hlost⟩ := h.inFlight (hconsumer ▸ hr)
    rw [hlost (intact_of_undone hundone), List.append_nil] at hproduced'
    unfold InFlight
    rw [hemitted, hgetter]
    exact hflight hproduced'
  · rw [hemitted]
    exact h.inOrder.trans hproduced
  · exact absurd (hconsumer ▸ hc) hreturned
  · rw [hstreams]
    exact hsilent
  · rw [hconsumer, hstreams]
    exact h.awaiting
  · exact absurd (hconsumer ▸ hp) hpast
  · rw [hconsumer, hgetter]
    exact h.ungotten

theorem produce_eq_some {event : α} (h : e.produce event = some e') :
    e.streams = true ∧ e.task = .running ∧
      ((e.queue = [] ∧ e' = { e with produced := e.produced ++ [event], queue := [event] }) ∨
        e' = { e with produced := e.produced ++ [event], task := .putting event }) := by
  unfold Execution.produce at h
  split at h
  · rename_i hs ht hq
    exact ⟨hs, ht, .inl ⟨hq, (Option.some.inj h).symm⟩⟩
  · rename_i hs ht _
    exact ⟨hs, ht, .inr (Option.some.inj h).symm⟩
  · cases h

theorem Coherent.produce {event : α} (h : e.Coherent) (hp : e.produce event = some e') :
    e'.Coherent ∧ Keeps e e' := by
  obtain ⟨hstreams, htask, he'⟩ := produce_eq_some hp
  have hundone : e.task.done = false := by rw [htask]; rfl
  have hloud : ¬e.streams = false := by rw [hstreams]; simp
  rcases he' with ⟨hqueue, rfl⟩ | rfl
  · refine ⟨h.of_undone hundone rfl rfl rfl rfl (List.prefix_append _ _) (absurd · hloud) ?_,
      ⟨rfl, rfl, rfl, id, id, fun _ => rfl⟩⟩
    intro hflight
    refine ⟨[], ?_, fun _ => rfl⟩
    rw [hflight, hqueue, htask]
    simp [TaskState.pending]
  · refine ⟨h.of_undone hundone rfl rfl rfl rfl (List.prefix_append _ _) (absurd · hloud) ?_,
      ⟨rfl, rfl, rfl, fun hd => absurd hd (by rw [hundone]; simp), id, fun _ => rfl⟩⟩
    intro hflight
    refine ⟨[], ?_, fun _ => rfl⟩
    rw [hflight, htask]
    simp [TaskState.pending]

theorem Coherent.put (h : e.Coherent) (hp : e.put = some e') : e'.Coherent ∧ Keeps e e' := by
  unfold Execution.put at hp
  split at hp
  · rename_i event htask hqueue
    obtain rfl := Option.some.inj hp
    have hundone : e.task.done = false := by rw [htask]; rfl
    refine ⟨h.of_undone hundone rfl rfl rfl rfl List.prefix_rfl h.silent ?_,
      ⟨rfl, rfl, rfl, fun hd => absurd hd (by rw [hundone]; simp), id, fun _ => rfl⟩⟩
    intro hflight
    refine ⟨[], ?_, fun _ => rfl⟩
    rw [hflight, hqueue, htask]
    rfl
  · cases hp

theorem finishTask_eq_some {outcome : Outcome} (h : e.finishTask outcome = some e') :
    e' = { e with task := .ended outcome } ∧ (e.task = .running ∨
      ∃ event, e.task = .dropping event ∧ outcome ≠ .returned) := by
  unfold Execution.finishTask at h
  split at h
  · rename_i htask
    exact ⟨(Option.some.inj h).symm, .inl htask⟩
  · rename_i event htask
    split_ifs at h with houtcome
    exact ⟨(Option.some.inj h).symm, .inr ⟨event, htask, houtcome⟩⟩
  · cases h

theorem Coherent.finishTask {outcome : Outcome} (h : e.Coherent)
    (hf : e.finishTask outcome = some e') : e'.Coherent ∧ Keeps e e' := by
  obtain ⟨rfl, htask⟩ := finishTask_eq_some hf
  have hundone : e.task.done = false := by
    rcases htask with htask | ⟨event, htask, -⟩ <;> rw [htask] <;> rfl
  refine ⟨h.of_undone hundone rfl rfl rfl rfl List.prefix_rfl h.silent ?_,
    ⟨rfl, rfl, rfl, fun _ => rfl, id, fun _ => rfl⟩⟩
  intro hflight
  rcases htask with htask | ⟨event, htask, houtcome⟩
  · refine ⟨[], ?_, fun _ => rfl⟩
    rw [hflight, htask]
    rfl
  · -- the event the task could not put is lost with it
    refine ⟨[event], ?_, fun hintact => ?_⟩
    · rw [hflight, htask]
      rfl
    · cases outcome with
      | returned => exact absurd rfl houtcome
      | failed | canceled => exact absurd hintact (by simp [TaskState.intact])

theorem Coherent.take (h : e.Coherent) (ht : e.take = some e') : e'.Coherent ∧ Keeps e e' := by
  unfold Execution.take at ht
  split at ht
  · rename_i event rest hgetter hqueue
    obtain rfl := Option.some.inj ht
    have hwaiting : e.consumer = .waiting := by
      by_contra hne
      rw [h.ungotten hne] at hgetter
      exact absurd hgetter (by simp)
    refine ⟨⟨fun hr => ?_, h.inOrder, h.complete, h.silent, h.awaiting, h.pastTask,
      fun hne => absurd hwaiting hne⟩, ⟨rfl, rfl, rfl, id, id, fun _ => rfl⟩⟩
    obtain ⟨lost, hflight, hlost⟩ := h.inFlight hr
    refine ⟨lost, ?_, hlost⟩
    rw [hflight, hgetter, hqueue]
    rfl
  · cases ht

theorem Coherent.stopHeartbeat (h : e.Coherent) (hs : e.stopHeartbeat = some e') :
    e'.Coherent ∧ Keeps e e' := by
  unfold Execution.stopHeartbeat at hs
  split_ifs at hs
  obtain rfl := Option.some.inj hs
  exact ⟨⟨h.inFlight, h.inOrder, h.complete, h.silent, h.awaiting, h.pastTask, h.ungotten⟩,
    ⟨rfl, rfl, rfl, id, fun _ => rfl, fun _ => rfl⟩⟩

/-! #### The consumer -/

theorem retire_heartbeat (e : Execution α) (ending : Ending) :
    e.heartbeat = .ended → (e.retire ending).heartbeat = .ended := fun h => by
  show e.heartbeat.cancel = .ended
  rw [h]
  rfl

theorem keeps_finish (hrunning : e.consumer.isEnded = false) (ending : Ending) :
    Keeps e (e.finish ending) := by
  have hended : e.consumer.isEnded ≠ true := by rw [hrunning]; simp
  unfold Execution.finish
  split_ifs with hdone
  · exact ⟨rfl, rfl, rfl, id, retire_heartbeat e ending, fun he => absurd he hended⟩
  · exact ⟨rfl, rfl, rfl, fun hd => absurd hd hdone, id, fun he => absurd he hended⟩

/-- The cleanup may begin wherever the getter is gone. -/
theorem coherent_finish (hin : e.emitted <+: e.produced)
    (hsilent : e.streams = false → e.produced = []) (hgetter : e.getter = .absent)
    (hreturned : ending = .returned → e.task.done = true ∧ e.emitted = e.produced) :
    (e.finish ending).Coherent := by
  have hcomplete : some ending = some .returned → e.task.done = true ∧ e.emitted = e.produced :=
    fun hc => hreturned (Option.some.inj hc)
  unfold Execution.finish
  split_ifs with hdone
  · exact ⟨fun hr => absurd hr (by simp [Execution.retire, Consumer.inRelay]), hin, hcomplete,
      hsilent, fun hc => absurd hc (by simp [Execution.retire]), fun _ => hdone, fun _ => hgetter⟩
  · refine ⟨fun hr => absurd hr (by simp [Consumer.inRelay]), hin, fun hc => ?_, hsilent,
      fun hc => absurd hc (by simp), fun hp => absurd hp (by simp [Consumer.pastTask]),
      fun _ => hgetter⟩
    exact absurd (hcomplete hc).1 hdone

theorem taskEnding_returned (hinterruption : interruption ≠ some .returned)
    (h : e.taskEnding interruption = .returned) : e.task = .ended .returned := by
  unfold Execution.taskEnding at h
  split at h
  · assumption
  · cases interruption with
    | none => exact absurd h (by simp)
    | some ending => exact absurd (congrArg some h) hinterruption
  · cases h

theorem keeps_flush (hrunning : e.consumer.isEnded = false) :
    Keeps e (e.flush interruption) := by
  unfold Execution.flush
  split
  · exact ⟨rfl, rfl, rfl, id, id, fun he => absurd he (by rw [hrunning]; simp)⟩
  · exact keeps_finish hrunning _

/-- The queue of a task that is done is emptied into the consumer, and then the cleanup begins. -/
theorem coherent_flush (hflight : e.InFlight) (hin : e.emitted <+: e.produced)
    (hsilent : e.streams = false → e.produced = []) (hgetter : e.getter = .absent)
    (hdone : e.task.done = true) (hinterruption : interruption ≠ some .returned) :
    (e.flush interruption).Coherent := by
  obtain ⟨lost, hproduced, hlost⟩ := hflight
  rw [hgetter, pending_of_done hdone] at hproduced
  unfold Execution.flush
  split
  · rename_i event rest hqueue
    rw [hqueue] at hproduced
    have hproduced' : e.produced = (e.emitted ++ [event]) ++ (rest ++ lost) := by
      rw [hproduced]
      simp [Getter.held]
    refine ⟨fun _ => ⟨lost, ?_, hlost⟩, ⟨rest ++ lost, hproduced'.symm⟩,
      fun hc => absurd hc (by simp [Consumer.ending]), hsilent, fun hc => absurd hc (by simp),
      fun _ => hdone, fun _ => hgetter⟩
    rw [hproduced', hgetter, pending_of_done hdone]
    rfl
  · rename_i hqueue
    refine coherent_finish hin hsilent hgetter fun hreturned => ⟨hdone, ?_⟩
    -- a task that returned has lost nothing, and nothing is left on the way
    have htask := taskEnding_returned hinterruption hreturned
    rw [hlost (by rw [htask]; rfl), hqueue] at hproduced
    simpa [Getter.held] using hproduced.symm

theorem Coherent.wake (h : e.Coherent) (hinterruption : interruption ≠ some .returned)
    (hw : e.wake interruption = some e') : e'.Coherent ∧ Keeps e e' := by
  unfold Execution.wake at hw
  split at hw
  · rename_i _ hconsumer
    split_ifs at hw with hdone
    obtain rfl := Option.some.inj hw
    have hsilent := h.awaiting hconsumer
    have hgetter := h.ungotten (by rw [hconsumer]; simp)
    exact ⟨coherent_finish h.inOrder h.silent hgetter fun _ => ⟨hdone, h.emitted_eq hsilent⟩,
      keeps_finish (by rw [hconsumer]; rfl) _⟩
  · rename_i event hconsumer hgetter
    obtain rfl := Option.some.inj hw
    obtain ⟨lost, hproduced, hlost⟩ := h.inFlight (by rw [hconsumer]; rfl)
    rw [hgetter] at hproduced
    have hproduced' :
        e.produced = (e.emitted ++ [event]) ++ (e.queue ++ (e.task.pending ++ lost)) := by
      rw [hproduced]
      simp [Getter.held]
    refine ⟨⟨fun _ => ⟨lost, hproduced', hlost⟩, ⟨_, hproduced'.symm⟩,
      fun hc => absurd hc (by simp [Consumer.ending]), h.silent, fun hc => absurd hc (by simp),
      fun hp => absurd hp (by simp [Consumer.pastTask]), fun _ => rfl⟩,
      ⟨rfl, rfl, rfl, id, id, fun he => absurd he (by rw [hconsumer]; simp [Consumer.isEnded])⟩⟩
  · rename_i hconsumer hnothing
    split_ifs at hw with hdone
    obtain rfl := Option.some.inj hw
    have hheld : e.getter.held = [] := by
      cases hgetter : e.getter with
      | absent | waiting => rfl
      | holding event => exact (hnothing event hgetter).elim
    obtain ⟨lost, hproduced, hlost⟩ := h.inFlight (by rw [hconsumer]; rfl)
    rw [hheld] at hproduced
    have hkeeps : Keeps e { e with getter := .absent } :=
      ⟨rfl, rfl, rfl, id, id, fun _ => rfl⟩
    exact ⟨@coherent_flush _ { e with getter := .absent } _ ⟨lost, hproduced, hlost⟩ h.inOrder
      h.silent rfl hdone hinterruption,
      hkeeps.trans (@keeps_flush _ { e with getter := .absent } _ (by rw [hconsumer]; rfl))⟩
  · rename_i ending hconsumer
    split_ifs at hw with hdone
    obtain rfl := Option.some.inj hw
    have hgetter := h.ungotten (by rw [hconsumer]; simp)
    have hfinish : e.retire ending = e.finish ending := (if_pos hdone).symm
    rw [hfinish]
    exact ⟨coherent_finish h.inOrder h.silent hgetter fun hreturned =>
        h.complete (by rw [hconsumer, hreturned]; rfl),
      keeps_finish (by rw [hconsumer]; rfl) _⟩
  · cases hw

theorem Coherent.next (h : e.Coherent) (hinterruption : interruption ≠ some .returned)
    (hn : e.next interruption = some e') : e'.Coherent ∧ Keeps e e' := by
  unfold Execution.next at hn
  split at hn
  · rename_i hconsumer
    obtain rfl := Option.some.inj hn
    have hgetter := h.ungotten (by rw [hconsumer]; simp)
    obtain ⟨lost, hproduced, hlost⟩ := h.inFlight (by rw [hconsumer]; rfl)
    rw [hgetter] at hproduced
    exact ⟨⟨fun _ => ⟨lost, hproduced, hlost⟩, h.inOrder,
      fun hc => absurd hc (by simp [Consumer.ending]), h.silent, fun hc => absurd hc (by simp),
      fun hp => absurd hp (by simp [Consumer.pastTask]), fun hne => absurd rfl hne⟩,
      ⟨rfl, rfl, rfl, id, id, fun he => absurd he (by rw [hconsumer]; simp [Consumer.isEnded])⟩⟩
  · rename_i hconsumer
    obtain rfl := Option.some.inj hn
    exact ⟨coherent_flush (h.inFlight (by rw [hconsumer]; rfl)) h.inOrder h.silent
      (h.ungotten (by rw [hconsumer]; simp)) (h.pastTask (by rw [hconsumer]; rfl)) hinterruption,
      keeps_flush (by rw [hconsumer]; rfl)⟩
  · cases hn

theorem aclose_eq_some (h : e.aclose = some e') :
    e' = e.finish .closed ∧ (e.consumer = .relaying ∨ e.consumer = .flushing) := by
  unfold Execution.aclose at h
  split at h
  · rename_i hconsumer
    exact ⟨(Option.some.inj h).symm, .inl hconsumer⟩
  · rename_i hconsumer
    exact ⟨(Option.some.inj h).symm, .inr hconsumer⟩
  · cases h

theorem Coherent.aclose (h : e.Coherent) (ha : e.aclose = some e') : e'.Coherent ∧ Keeps e e' := by
  obtain ⟨rfl, hconsumer⟩ := aclose_eq_some ha
  have hgetter : e.getter = .absent := h.ungotten (by rcases hconsumer with hc | hc <;> simp [hc])
  have hrunning : e.consumer.isEnded = false := by rcases hconsumer with hc | hc <;> rw [hc] <;> rfl
  exact ⟨coherent_finish h.inOrder h.silent hgetter (fun hc => by cases hc),
    keeps_finish hrunning _⟩

theorem Coherent.interrupt (h : e.Coherent) (hinterruption : interruption ≠ some .returned)
    (hi : e.interrupt interruption = some e') : e'.Coherent ∧ Keeps e e' := by
  unfold Execution.interrupt at hi
  split at hi
  · rename_i hconsumer
    split_ifs at hi with hdone
    · obtain rfl := Option.some.inj hi
      have hgetter := h.ungotten (by rw [hconsumer]; simp)
      exact ⟨coherent_finish h.inOrder h.silent hgetter fun _ =>
        ⟨hdone, h.emitted_eq (h.awaiting hconsumer)⟩, keeps_finish (by rw [hconsumer]; rfl) _⟩
    · obtain rfl := Option.some.inj hi
      exact ⟨h.cancelTask, keeps_cancelTask e⟩
  · rename_i hconsumer
    obtain rfl := Option.some.inj hi
    have hkeeps : Keeps e { e with getter := .absent } :=
      ⟨rfl, rfl, rfl, id, id, fun _ => rfl⟩
    refine ⟨@coherent_finish _ { e with getter := .absent } _ h.inOrder h.silent rfl ?_,
      hkeeps.trans (@keeps_finish _ { e with getter := .absent } (by rw [hconsumer]; rfl) _)⟩
    intro hreturned
    exfalso
    split_ifs at hreturned
    cases interruption with
    | none => cases hreturned
    | some ending => exact hinterruption (congrArg some hreturned)
  · rename_i ending hconsumer
    obtain rfl := Option.some.inj hi
    exact ⟨⟨fun hr => absurd hr (by simp [Consumer.inRelay]), h.inOrder,
      fun hc => absurd hc (by simp [Consumer.ending]), h.silent, fun hc => absurd hc (by simp),
      fun hp => absurd hp (by simp [Consumer.pastTask]),
      fun _ => h.ungotten (by rw [hconsumer]; simp)⟩,
      ⟨rfl, rfl, rfl, id, id, fun he => absurd he (by rw [hconsumer]; simp [Consumer.isEnded])⟩⟩
  · obtain rfl := Option.some.inj hi
    exact ⟨h, .refl e⟩
  · cases hi

/-! #### Who has ended -/

theorem finish_running (e : Execution α) (ending : Ending) :
    (e.finish ending).consumer.isEnded = false := by
  unfold Execution.finish
  split_ifs <;> rfl

theorem flush_running (e : Execution α) (interruption : Option Ending) :
    (e.flush interruption).consumer.isEnded = false := by
  unfold Execution.flush
  split
  · rfl
  · exact finish_running e _

theorem wake_running (h : e.wake interruption = some e') : e'.consumer.isEnded = false := by
  unfold Execution.wake at h
  split at h
  · split_ifs at h
    exact Option.some.inj h ▸ finish_running e _
  · exact Option.some.inj h ▸ rfl
  · split_ifs at h
    exact Option.some.inj h ▸ flush_running _ _
  · split_ifs at h
    exact Option.some.inj h ▸ rfl
  · cases h

theorem next_running (h : e.next interruption = some e') : e'.consumer.isEnded = false := by
  unfold Execution.next at h
  split at h
  · exact Option.some.inj h ▸ rfl
  · exact Option.some.inj h ▸ flush_running e _
  · cases h

/-- A cancellation ends the consumer if and only if it arrives while the cleanup waits for the
task. -/
theorem interrupt_isEnded (h : e.interrupt interruption = some e') :
    e'.consumer.isEnded = true ↔ e.consumer.stops = true := by
  unfold Execution.interrupt at h
  split at h
  · rename_i hconsumer
    have hstops : e.consumer.stops = false := by rw [hconsumer]; rfl
    split_ifs at h
    · obtain rfl := Option.some.inj h
      rw [finish_running, hstops]
    · obtain rfl := Option.some.inj h
      rw [hstops, Execution.cancelTask, hconsumer]
      rfl
  · rename_i hconsumer
    obtain rfl := Option.some.inj h
    rw [finish_running, hconsumer]
    rfl
  · rename_i hconsumer
    obtain rfl := Option.some.inj h
    rw [hconsumer]
    exact Iff.rfl
  · rename_i hconsumer
    obtain rfl := Option.some.inj h
    rw [hconsumer]
    rfl
  · cases h

theorem produce_consumer {event : α} (h : e.produce event = some e') :
    e'.consumer = e.consumer := by
  obtain ⟨-, -, ⟨-, rfl⟩ | rfl⟩ := produce_eq_some h <;> rfl

theorem put_consumer (h : e.put = some e') : e'.consumer = e.consumer := by
  unfold Execution.put at h
  split at h
  · exact Option.some.inj h ▸ rfl
  · cases h

theorem take_consumer (h : e.take = some e') : e'.consumer = e.consumer := by
  unfold Execution.take at h
  split at h
  · exact Option.some.inj h ▸ rfl
  · cases h

theorem stopHeartbeat_consumer (h : e.stopHeartbeat = some e') : e'.consumer = e.consumer := by
  unfold Execution.stopHeartbeat at h
  split_ifs at h
  exact Option.some.inj h ▸ rfl

end Execution

end EvernightAI.AgentExecutor

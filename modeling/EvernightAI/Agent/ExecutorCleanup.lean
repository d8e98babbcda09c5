import EvernightAI.Agent.ExecutorRelay

/-!
# What the executor relays and what it leaves behind

The consumer of a stream gets the events of the operation in their order, and all of them before a
normal end. The cleanup of an execution ends its tasks, releases its lease and takes the run out of
the collections, unless the consumer is cancelled once more while the cleanup waits for the task.

* `Consistent` says that a run is in `_tasks` exactly while an execution holds its lease.
* `Settled` says that whoever has ended has released; `settled_step_iff` is its step lemma.
* `relayed_and_cleansUp_iff` is the result about whole runs.
-/

namespace EvernightAI.AgentExecutor

open TransitionSystem

variable {α : Type}

/-! ### The collections -/

/-- The execution is over, and nothing of it is left. -/
structure Execution.Retired (e : Execution α) : Prop where
  released : e.ReleasedLease
  taskDone : e.task.done = true
  heartbeat : e.heartbeat = .ended
  ended : e.consumer.isEnded = true

/-- An execution holds its lease or is retired. -/
structure Execution.Sound (e : Execution α) : Prop where
  coherent : e.Coherent
  lease : e.HoldsLease ∨ e.Retired

theorem Execution.Sound.of_keeps {e e' : Execution α} (h : e.Sound)
    (hkeeps : e'.Coherent ∧ Execution.Keeps e e') : e'.Sound := by
  obtain ⟨hcoherent, hk⟩ := hkeeps
  refine ⟨hcoherent, ?_⟩
  rcases h.lease with hholds | hretired
  · exact .inl (hk.holdsLease_iff.mpr hholds)
  · have hconsumer := hk.ended hretired.ended
    exact .inr ⟨hk.releasedLease_iff.mpr hretired.released, hk.done hretired.taskDone,
      hk.retired hretired.heartbeat, hconsumer ▸ hretired.ended⟩

/-- A running execution holds its lease. -/
theorem Execution.Sound.holdsLease {e : Execution α} (h : e.Sound)
    (hrunning : e.consumer.isEnded ≠ true ∨ e.heartbeat ≠ .ended) : e.HoldsLease := by
  rcases h.lease with hholds | hretired
  · exact hholds
  · rcases hrunning with hrunning | hrunning
    · exact absurd hretired.ended hrunning
    · exact absurd hretired.heartbeat hrunning

/-- **The collections.** A run is in `_tasks` while an execution holds its lease, and in the other
two collections only while it is in `_tasks`. -/
structure Consistent (s : Executor α) : Prop where
  sound : ∀ (i : Nat) (e : Execution α), s.executions[i]? = some e → e.Sound
  tasks : ∀ runId i, s.tasks runId = some i ↔
    ∃ e : Execution α, s.executions[i]? = some e ∧ e.runId = runId ∧ e.HoldsLease
  requested : ∀ runId ∈ s.cancelRequested, s.tasks runId ≠ none
  lost : ∀ runId ∈ s.leaseLost, s.tasks runId ≠ none

variable {s s' : Executor α} {i : Nat}

theorem consistent_init : Consistent ({} : Executor α) where
  sound := fun i e he => by cases he
  tasks := fun runId i => by
    constructor
    · intro h
      cases h
    · rintro ⟨e, he, -⟩
      cases he
  requested := fun runId h => absurd h (Finset.notMem_empty _)
  lost := fun runId h => absurd h (Finset.notMem_empty _)

theorem advance_eq_some {f : Execution α → Option (Execution α)} :
    s.advance i f = some s' ↔ ∃ e e', s.executions[i]? = some e ∧ f e = some e' ∧
      s' = { s with executions := s.executions.set i e' } := by
  unfold Executor.advance
  simp only [Option.bind_eq_some_iff, Option.map_eq_some_iff, eq_comm (b := s')]
  constructor
  · rintro ⟨e, he, e', he', hs'⟩
    exact ⟨e, e', he, he', hs'⟩
  · rintro ⟨e, e', he, he', hs'⟩
    exact ⟨e, he, e', he', hs'⟩

theorem getElem?_set_of {β : Type*} {l : List β} {i : Nat} {a b : β} (h : l[i]? = some a)
    (j : Nat) : (l.set i b)[j]? = if i = j then some b else l[j]? := by
  have hlength : i < l.length := (List.getElem?_eq_some_iff.mp h).1
  rw [List.getElem?_set, if_pos hlength]

/-- An execution that keeps its run and its hold on the lease may change. -/
theorem Consistent.set {e e' : Execution α} (h : Consistent s) (he : s.executions[i]? = some e)
    (hsound : e'.Sound) (hrun : e'.runId = e.runId) (hlease : e'.HoldsLease ↔ e.HoldsLease) :
    Consistent { s with executions := s.executions.set i e' } := by
  refine ⟨fun j e'' he'' => ?_, fun runId j => ?_, h.requested, h.lost⟩
  · rw [getElem?_set_of he] at he''
    split_ifs at he'' with hij
    · obtain rfl := Option.some.inj he''
      exact hsound
    · exact h.sound j e'' he''
  · show s.tasks runId = some j ↔ _
    rw [h.tasks runId j, getElem?_set_of he]
    split_ifs with hij
    · subst hij
      constructor
      · rintro ⟨e₁, he₁, hr, hl⟩
        obtain rfl := Option.some.inj (he.symm.trans he₁)
        exact ⟨e', rfl, hrun.trans hr, hlease.mpr hl⟩
      · rintro ⟨e₁, he₁, hr, hl⟩
        obtain rfl := Option.some.inj he₁
        exact ⟨e, he, hrun.symm.trans hr, hlease.mp hl⟩
    · exact Iff.rfl

/-- **Steps of one execution.** -/
theorem Consistent.advance {f : Execution α → Option (Execution α)} (h : Consistent s)
    (hs' : s.advance i f = some s')
    (hf : ∀ e e', e.Coherent → f e = some e' → e'.Coherent ∧ Execution.Keeps e e') :
    Consistent s' := by
  obtain ⟨e, e', he, hfe, rfl⟩ := advance_eq_some.mp hs'
  have hsound := h.sound i e he
  have hkeeps := hf e e' hsound.coherent hfe
  exact h.set he (hsound.of_keeps hkeeps) hkeeps.2.runId hkeeps.2.holdsLease_iff

theorem Consistent.cancelTask (h : Consistent s) (i : Nat) : Consistent (s.cancelTask i) := by
  unfold Executor.cancelTask
  cases hs' : s.advance i fun e => some e.cancelTask with
  | none => exact h
  | some s' =>
    refine h.advance hs' fun e e' hcoherent he' => ?_
    obtain rfl := Option.some.inj he'
    exact ⟨hcoherent.cancelTask, Execution.keeps_cancelTask e⟩

theorem acquire_eq_ok {runId : String} {answer : Except String Nat} {generation : Nat}
    (h : s.acquire runId answer = .ok generation) : s.tasks runId = none := by
  unfold Executor.acquire at h
  split_ifs at h with hclosing htask
  exact Option.not_isSome_iff_eq_none.mp htask

theorem getElem?_concat_eq_some {β : Type*} {l : List β} {a b : β} {j : Nat} :
    (l ++ [a])[j]? = some b ↔ l[j]? = some b ∨ j = l.length ∧ a = b := by
  rcases Nat.lt_trichotomy j l.length with hj | hj | hj
  · rw [List.getElem?_append_left hj]
    exact ⟨.inl, fun h => h.resolve_right fun ⟨hl, _⟩ => by omega⟩
  · subst hj
    rw [List.getElem?_concat_length, List.getElem?_eq_none (Nat.le_refl _), Option.some_inj]
    exact ⟨fun h => .inr ⟨rfl, h⟩, fun h => (h.resolve_left (by simp)).2⟩
  · rw [List.getElem?_append_right (by omega), List.getElem?_eq_none (Nat.le_of_lt hj),
      List.getElem?_eq_none (by rw [List.length_singleton]; omega)]
    constructor
    · intro h
      cases h
    · rintro (h | ⟨h, -⟩)
      · cases h
      · omega

/-- A run that an execution holds is not acquired again, so the new execution is the only one. -/
theorem Consistent.start (h : Consistent s) (streams : Bool) (runId : String)
    (answer : Except String Nat) : Consistent (s.start streams runId answer) := by
  unfold Executor.start
  split
  · exact h
  · rename_i generation hacquire
    have hfree := acquire_eq_ok hacquire
    refine ⟨fun j e he => ?_, fun run j => ?_, fun run hmem => ?_, fun run hmem => ?_⟩
    · rcases getElem?_concat_eq_some.mp he with he | ⟨-, rfl⟩
      · exact h.sound j e he
      · refine ⟨⟨fun _ => ⟨[], ?_, fun _ => rfl⟩, List.prefix_rfl, fun hc => ?_, fun _ => rfl,
          fun hc => ?_, fun hp => ?_, fun hne => ?_⟩, .inl ⟨0, rfl⟩⟩
        all_goals cases streams
        all_goals first | rfl | simp_all [Consumer.ending, Consumer.pastTask]
    · show Function.update s.tasks runId (some s.executions.length) run = some j ↔ _
      by_cases hrun : run = runId
      · subst hrun
        rw [Function.update_self, Option.some_inj]
        constructor
        · rintro rfl
          exact ⟨_, List.getElem?_concat_length, rfl, 0, rfl⟩
        · rintro ⟨e, he, hr, hl⟩
          rcases getElem?_concat_eq_some.mp he with he | ⟨hj, -⟩
          · rw [(h.tasks run j).mpr ⟨e, he, hr, hl⟩] at hfree
            cases hfree
          · exact hj.symm
      · rw [Function.update_of_ne hrun, h.tasks run j]
        constructor
        · rintro ⟨e, he, hr, hl⟩
          exact ⟨e, getElem?_concat_eq_some.mpr (.inl he), hr, hl⟩
        · rintro ⟨e, he, hr, hl⟩
          rcases getElem?_concat_eq_some.mp he with he | ⟨-, rfl⟩
          · exact ⟨e, he, hr, hl⟩
          · exact absurd hr.symm hrun
    · have hne : run ≠ runId := fun heq => h.requested run hmem (heq ▸ hfree)
      show Function.update s.tasks runId _ run ≠ none
      rw [Function.update_of_ne hne]
      exact h.requested run hmem
    · have hne : run ≠ runId := fun heq => h.lost run hmem (heq ▸ hfree)
      show Function.update s.tasks runId _ run ≠ none
      rw [Function.update_of_ne hne]
      exact h.lost run hmem

/-- A run in `_tasks` may be marked. -/
theorem Consistent.mark (h : Consistent s) {runId : String} (hheld : s.tasks runId ≠ none) :
    Consistent { s with cancelRequested := insert runId s.cancelRequested } ∧
      Consistent { s with leaseLost := insert runId s.leaseLost } := by
  have hmarked : ∀ {marks : Finset String}, (∀ run ∈ marks, s.tasks run ≠ none) →
      ∀ run ∈ insert runId marks, s.tasks run ≠ none := by
    intro marks hmarks run hmem
    rcases Finset.mem_insert.mp hmem with rfl | hmem
    · exact hheld
    · exact hmarks run hmem
  exact ⟨⟨h.sound, h.tasks, hmarked h.requested, h.lost⟩,
    ⟨h.sound, h.tasks, h.requested, hmarked h.lost⟩⟩

theorem Consistent.cancel (h : Consistent s) (runId : String) :
    Consistent (s.cancel runId).2 := by
  unfold Executor.cancel
  split
  · exact h
  · rename_i i htask
    split_ifs
    · exact h
    · exact (h.mark (by rw [htask]; simp)).1.cancelTask i

theorem Consistent.loseLease (h : Consistent s) {runId : String} (hheld : s.tasks runId ≠ none) :
    Consistent (s.loseLease runId) := by
  unfold Executor.loseLease
  split
  · exact (h.mark hheld).2
  · exact (h.mark hheld).2.cancelTask _

/-- One turn of the heartbeat adds a renewal to the calls of a lease that is held. -/
theorem Execution.Sound.renew {e e' : Execution α} {renewed : Bool} (h : e.Sound)
    (he' : e.renew renewed = some e') :
    e'.Sound ∧ e'.runId = e.runId ∧ e'.consumer = e.consumer ∧ e.HoldsLease ∧ e'.HoldsLease := by
  unfold Execution.renew at he'
  split at he'
  · rename_i hbeating
    obtain rfl := Option.some.inj he'
    obtain ⟨n, hn⟩ := h.holdsLease (.inr (by rw [hbeating]; simp))
    have hholds' : ({ e with
        leaseCalls := e.leaseCalls ++ [.heartbeat e.runId e.generation]
        heartbeat := if renewed then .beating else .ended } : Execution α).HoldsLease := by
      refine ⟨n + 1, ?_⟩
      show e.leaseCalls ++ [_] = _
      rw [hn, List.replicate_succ']
    have hc := h.coherent
    exact ⟨⟨⟨hc.inFlight, hc.inOrder, hc.complete, hc.silent, hc.awaiting, hc.pastTask,
      hc.ungotten⟩, .inl hholds'⟩, rfl, rfl, ⟨n, hn⟩, hholds'⟩
  · cases he'

theorem heartbeat_eq_some {renewed : Bool} (hs' : s.heartbeat i renewed = some s') :
    ∃ e e', s.executions[i]? = some e ∧ e.renew renewed = some e' ∧
      s' = if renewed then { s with executions := s.executions.set i e' }
        else { s with executions := s.executions.set i e' }.loseLease e.runId := by
  obtain ⟨e, he, hs'⟩ := Option.bind_eq_some_iff.mp hs'
  obtain ⟨m, hm, rfl⟩ := Option.map_eq_some_iff.mp hs'
  obtain ⟨e₁, e', he₁, he', rfl⟩ := advance_eq_some.mp hm
  obtain rfl := Option.some.inj (he.symm.trans he₁)
  exact ⟨e, e', he, he', rfl⟩

theorem Consistent.heartbeat {renewed : Bool} (h : Consistent s)
    (hs' : s.heartbeat i renewed = some s') : Consistent s' := by
  obtain ⟨e, e', he, he', rfl⟩ := heartbeat_eq_some hs'
  obtain ⟨hsound, hrun, -, hholds, hholds'⟩ := (h.sound i e he).renew he'
  have hnext := h.set he hsound hrun ⟨fun _ => hholds, fun _ => hholds'⟩
  split_ifs
  · exact hnext
  · refine hnext.loseLease ?_
    show s.tasks e.runId ≠ none
    rw [(h.tasks e.runId i).mpr ⟨e, he, rfl, hholds⟩]
    simp

/-- The last stretch of a cleanup gives the lease back; everything else has ended before. -/
theorem Execution.Sound.release {e e' : Execution α} {released : Bool} (h : e.Sound)
    (he' : e.release released = some e') :
    e'.Sound ∧ e'.runId = e.runId ∧ e.HoldsLease ∧ e'.Retired := by
  unfold Execution.release at he'
  split at he'
  · rename_i ending hconsumer hheartbeat
    obtain rfl := Option.some.inj he'
    have hc := h.coherent
    obtain ⟨n, hn⟩ := h.holdsLease (.inl (by rw [hconsumer]; simp [Consumer.isEnded]))
    have hdone := hc.pastTask (by rw [hconsumer]; rfl)
    have hretired : ({ e with
        leaseCalls := e.leaseCalls ++ [.release e.runId e.generation]
        consumer := .ended (if released then ending else .releaseFailed) } :
          Execution α).Retired := by
      refine ⟨⟨n, ?_⟩, hdone, hheartbeat, rfl⟩
      show e.leaseCalls ++ [_] = _
      rw [hn]
    refine ⟨⟨⟨fun hr => absurd hr (by simp [Consumer.inRelay]), hc.inOrder, fun hcomplete => ?_,
      hc.silent, fun hw => absurd hw (by simp), fun hp => absurd hp (by simp [Consumer.pastTask]),
      fun _ => hc.ungotten (by rw [hconsumer]; simp)⟩, .inr hretired⟩, rfl, ⟨n, hn⟩, hretired⟩
    refine hc.complete ?_
    rw [hconsumer]
    cases released with
    | true => exact hcomplete
    | false => cases hcomplete
  · cases he'

theorem release_eq_some {released : Bool} (h : Consistent s)
    (hs' : s.release i released = some s') :
    ∃ e e', s.executions[i]? = some e ∧ e.release released = some e' ∧ s' =
      { s with
        executions := s.executions.set i e'
        tasks := Function.update s.tasks e.runId none
        cancelRequested := s.cancelRequested.erase e.runId
        leaseLost := s.leaseLost.erase e.runId } := by
  obtain ⟨e, he, hs'⟩ := Option.bind_eq_some_iff.mp hs'
  obtain ⟨m, hm, rfl⟩ := Option.map_eq_some_iff.mp hs'
  obtain ⟨e₁, e', he₁, he', rfl⟩ := advance_eq_some.mp hm
  obtain rfl := Option.some.inj (he.symm.trans he₁)
  obtain ⟨-, -, hholds, -⟩ := (h.sound i e he).release he'
  refine ⟨e, e', he, he', ?_⟩
  rw [if_pos ((h.tasks e.runId i).mpr ⟨e, he, rfl, hholds⟩)]

/-- The cleanup gives the lease back and takes the run out of the collections. -/
theorem Consistent.release {released : Bool} (h : Consistent s)
    (hs' : s.release i released = some s') : Consistent s' := by
  obtain ⟨e, e', he, he', rfl⟩ := release_eq_some h hs'
  obtain ⟨hsound, hrun, hholds, hretired⟩ := (h.sound i e he).release he'
  have htask : s.tasks e.runId = some i := (h.tasks e.runId i).mpr ⟨e, he, rfl, hholds⟩
  have herased : ∀ {marks : Finset String}, (∀ run ∈ marks, s.tasks run ≠ none) →
      ∀ run ∈ marks.erase e.runId, Function.update s.tasks e.runId none run ≠ none := by
    intro marks hmarks run hmem
    obtain ⟨hne, hmem⟩ := Finset.mem_erase.mp hmem
    rw [Function.update_of_ne hne]
    exact hmarks run hmem
  refine ⟨fun j e₁ he₁ => ?_, fun run j => ?_, herased h.requested, herased h.lost⟩
  · rw [getElem?_set_of he] at he₁
    split_ifs at he₁ with hij
    · obtain rfl := Option.some.inj he₁
      exact hsound
    · exact h.sound j e₁ he₁
  · show Function.update s.tasks e.runId none run = some j ↔ _
    constructor
    · intro hj
      have hne : run ≠ e.runId := fun heq => by
        rw [heq, Function.update_self] at hj
        cases hj
      rw [Function.update_of_ne hne] at hj
      obtain ⟨e₁, he₁, hr, hl⟩ := (h.tasks run j).mp hj
      refine ⟨e₁, ?_, hr, hl⟩
      rw [getElem?_set_of he, if_neg, he₁]
      rintro rfl
      obtain rfl := Option.some.inj (he.symm.trans he₁)
      exact hne hr.symm
    · rintro ⟨e₁, he₁, hr, hl⟩
      rw [getElem?_set_of he] at he₁
      split_ifs at he₁ with hij
      · obtain rfl := Option.some.inj he₁
        exact absurd hretired.released hl.not_released
      · have hj := (h.tasks run j).mpr ⟨e₁, he₁, hr, hl⟩
        have hne : run ≠ e.runId := fun heq => by
          rw [heq, htask] at hj
          exact hij (Option.some.inj hj)
        rw [Function.update_of_ne hne]
        exact hj

/-- `_interruption_error` names an error. -/
theorem interruptionError_ne (s : Executor α) (runId : String) :
    s.interruptionError runId ≠ some .returned := by
  unfold Executor.interruptionError
  split_ifs <;> simp

/-- **Steps.** The collections fit the executions after every step. -/
theorem Consistent.step {a : Label α} (h : Consistent s) (hs' : step s a = some s') :
    Consistent s' := by
  cases a with
  | start streams runId answer => exact Option.some.inj hs' ▸ h.start streams runId answer
  | cancel runId => exact Option.some.inj hs' ▸ h.cancel runId
  | close =>
    obtain rfl := Option.some.inj hs'
    exact ⟨h.sound, h.tasks, h.requested, h.lost⟩
  | produce i event => exact h.advance hs' fun _ _ hc hf => hc.produce hf
  | put i => exact h.advance hs' fun _ _ hc hf => hc.put hf
  | finishTask i outcome => exact h.advance hs' fun _ _ hc hf => hc.finishTask hf
  | expire i =>
    refine h.advance hs' fun e e' hc hf => ?_
    obtain rfl := Option.some.inj hf
    exact ⟨hc.cancelTask, Execution.keeps_cancelTask e⟩
  | take i => exact h.advance hs' fun _ _ hc hf => hc.take hf
  | heartbeat i renewed => exact h.heartbeat hs'
  | stopHeartbeat i => exact h.advance hs' fun _ _ hc hf => hc.stopHeartbeat hf
  | wake i => exact h.advance hs' fun _ _ hc hf => hc.wake (interruptionError_ne s _) hf
  | next i => exact h.advance hs' fun _ _ hc hf => hc.next (interruptionError_ne s _) hf
  | aclose i => exact h.advance hs' fun _ _ hc hf => hc.aclose hf
  | interrupt i => exact h.advance hs' fun _ _ hc hf => hc.interrupt (interruptionError_ne s _) hf
  | release i released => exact h.release hs'

/-- Every run of the executor keeps the collections right. -/
theorem Consistent.run {labels : List (Label α)}
    (hrun : run AgentExecutor.step {} labels = some s) : Consistent s :=
  run_invariant (fun _ _ _ h hs' => h.step hs') consistent_init hrun

/-- **The relay.** Every consumer has got a beginning of what its operation produced. -/
def Relayed (s : Executor α) : Prop :=
  ∀ (i : Nat) (e : Execution α), s.executions[i]? = some e → e.Relays

theorem Consistent.relayed (h : Consistent s) : Relayed s := fun i e he => by
  have hc := (h.sound i e he).coherent
  exact ⟨hc.inOrder, fun hended => (hc.complete (by rw [hended]; rfl)).2⟩

/-! ### The cleanup -/

/-- What an execution leaves behind. -/
structure CleanedUp (s : Executor α) (e : Execution α) : Prop where
  taskDone : e.task.done = true
  released : e.ReleasedLease
  heartbeat : e.heartbeat = .ended
  /-- Once no execution of the run is under way the run is in none of the collections, and it can be
  executed again. -/
  vacated : (∀ (j : Nat) (e' : Execution α), s.executions[j]? = some e' → e'.runId = e.runId →
      e'.consumer.isEnded = true) →
    s.tasks e.runId = none ∧ e.runId ∉ s.cancelRequested ∧ e.runId ∉ s.leaseLost ∧
      ∀ answer, s.closing = false → s.acquire e.runId answer = answer

/-- **The cleanup.** Every execution that has ended has cleaned up, and no run is executed twice at
a time. -/
structure CleansUp (s : Executor α) : Prop where
  cleaned : ∀ (i : Nat) (e : Execution α), s.executions[i]? = some e →
    e.consumer.isEnded = true → CleanedUp s e
  exclusive : ∀ (i j : Nat) (e e' : Execution α), s.executions[i]? = some e →
    s.executions[j]? = some e' → e.consumer.isEnded = false → e'.consumer.isEnded = false →
    e.runId = e'.runId → i = j

/-- Whoever has ended has released its lease. -/
def Settled (s : Executor α) : Prop :=
  ∀ (i : Nat) (e : Execution α), s.executions[i]? = some e → e.consumer.isEnded = true →
    e.ReleasedLease

theorem Consistent.holdsLease {e : Execution α} (h : Consistent s)
    (he : s.executions[i]? = some e) (hrunning : e.consumer.isEnded = false) :
    s.tasks e.runId = some i := by
  refine (h.tasks e.runId i).mpr ⟨e, he, rfl, (h.sound i e he).holdsLease (.inl ?_)⟩
  rw [hrunning]
  simp

theorem Settled.cleansUp (h : Consistent s) (hsettled : Settled s) : CleansUp s := by
  constructor
  · intro i e he hended
    have hreleased := hsettled i e he hended
    have hretired : e.Retired :=
      (h.sound i e he).lease.resolve_left fun hholds => hholds.not_released hreleased
    refine ⟨hretired.taskDone, hreleased, hretired.heartbeat, fun hall => ?_⟩
    have hfree : s.tasks e.runId = none := by
      refine Option.eq_none_iff_forall_not_mem.mpr fun j hj => ?_
      obtain ⟨e', he', hrun, hholds⟩ := (h.tasks e.runId j).mp hj
      exact hholds.not_released (hsettled j e' he' (hall j e' he' hrun))
    refine ⟨hfree, fun hmem => h.requested _ hmem hfree, fun hmem => h.lost _ hmem hfree,
      fun answer hopen => ?_⟩
    unfold Executor.acquire
    rw [hopen, hfree]
    rfl
  · intro i j e e' he he' hrunning hrunning' hrun
    have hi := h.holdsLease he hrunning
    rw [hrun, h.holdsLease he' hrunning'] at hi
    exact (Option.some.inj hi).symm

/-- The step does not cancel a consumer while its cleanup waits for the task. -/
def LetsCleanupWait (s : Executor α) : Label α → Prop
  | .interrupt i => ∀ e ∈ s.executions[i]?, e.consumer.stops = false
  | _ => True

/-- Only a cancelled cleanup ends an execution without releasing its lease. -/
theorem settled_advance {f : Execution α → Option (Execution α)} (hsettled : Settled s)
    (hs' : s.advance i f = some s')
    (hf : ∀ e e', s.executions[i]? = some e → f e = some e' → e'.consumer.isEnded = true →
      e'.ReleasedLease) : Settled s' := by
  obtain ⟨e, e', he, hfe, rfl⟩ := advance_eq_some.mp hs'
  intro j e₁ he₁ hended
  rw [getElem?_set_of he] at he₁
  split_ifs at he₁ with hij
  · obtain rfl := Option.some.inj he₁
    exact hf e e' he hfe hended
  · exact hsettled j e₁ he₁ hended

/-- An execution whose consumer is where it was is as settled as before. -/
theorem settled_advance_task {f : Execution α → Option (Execution α)} (h : Consistent s)
    (hsettled : Settled s) (hs' : s.advance i f = some s')
    (hf : ∀ e e', e.Coherent → f e = some e' →
      (e'.Coherent ∧ Execution.Keeps e e') ∧ e'.consumer = e.consumer) : Settled s' := by
  refine settled_advance hsettled hs' fun e e' he hfe hended => ?_
  obtain ⟨⟨-, hkeeps⟩, hconsumer⟩ := hf e e' (h.sound i e he).coherent hfe
  rw [hconsumer] at hended
  exact hkeeps.releasedLease_iff.mpr (hsettled i e he hended)

/-- A consumer that goes on has not ended. -/
theorem settled_advance_running {f : Execution α → Option (Execution α)} (hsettled : Settled s)
    (hs' : s.advance i f = some s')
    (hf : ∀ e e', f e = some e' → e'.consumer.isEnded = false) : Settled s' := by
  refine settled_advance hsettled hs' fun e e' _ hfe hended => ?_
  rw [hf e e' hfe] at hended
  cases hended

theorem Settled.cancelTask (h : Consistent s) (hsettled : Settled s) (i : Nat) :
    Settled (s.cancelTask i) := by
  unfold Executor.cancelTask
  cases hs' : s.advance i fun e => some e.cancelTask with
  | none => exact hsettled
  | some s' =>
    refine settled_advance_task h hsettled hs' fun e e' hcoherent he' => ?_
    obtain rfl := Option.some.inj he'
    exact ⟨⟨hcoherent.cancelTask, Execution.keeps_cancelTask e⟩, rfl⟩

theorem Settled.start (hsettled : Settled s) (streams : Bool) (runId : String)
    (answer : Except String Nat) : Settled (s.start streams runId answer) := by
  unfold Executor.start
  split
  · exact hsettled
  · intro j e he hended
    rcases getElem?_concat_eq_some.mp he with he | ⟨-, rfl⟩
    · exact hsettled j e he hended
    · cases streams <;> cases hended

theorem Settled.cancel (h : Consistent s) (hsettled : Settled s) (runId : String) :
    Settled (s.cancel runId).2 := by
  unfold Executor.cancel
  split
  · exact hsettled
  · rename_i i htask
    split_ifs
    · exact hsettled
    · exact @Settled.cancelTask _ { s with cancelRequested := _ }
        (h.mark (by rw [htask]; simp)).1 hsettled i

theorem Settled.loseLease (h : Consistent s) (hsettled : Settled s) {runId : String}
    (hheld : s.tasks runId ≠ none) : Settled (s.loseLease runId) := by
  unfold Executor.loseLease
  split
  · exact hsettled
  · exact @Settled.cancelTask _ { s with leaseLost := _ } (h.mark hheld).2 hsettled _

theorem Settled.heartbeat {renewed : Bool} (h : Consistent s) (hsettled : Settled s)
    (hs' : s.heartbeat i renewed = some s') : Settled s' := by
  obtain ⟨e, e', he, he', rfl⟩ := heartbeat_eq_some hs'
  obtain ⟨hsound, hrun, hconsumer, hholds, hholds'⟩ := (h.sound i e he).renew he'
  have hnext := h.set he hsound hrun ⟨fun _ => hholds, fun _ => hholds'⟩
  have hnextSettled : Settled { s with executions := s.executions.set i e' } := by
    intro j e₁ he₁ hended
    rw [getElem?_set_of he] at he₁
    split_ifs at he₁ with hij
    · obtain rfl := Option.some.inj he₁
      rw [hconsumer] at hended
      exact absurd (hsettled i e he hended) hholds.not_released
    · exact hsettled j e₁ he₁ hended
  split_ifs
  · exact hnextSettled
  · refine Settled.loseLease hnext hnextSettled ?_
    show s.tasks e.runId ≠ none
    rw [(h.tasks e.runId i).mpr ⟨e, he, rfl, hholds⟩]
    simp

theorem Settled.release {released : Bool} (h : Consistent s) (hsettled : Settled s)
    (hs' : s.release i released = some s') : Settled s' := by
  obtain ⟨e, e', he, he', rfl⟩ := release_eq_some h hs'
  intro j e₁ he₁ hended
  rw [getElem?_set_of he] at he₁
  split_ifs at he₁ with hij
  · obtain rfl := Option.some.inj he₁
    exact ((h.sound i e he).release he').2.2.2.released
  · exact hsettled j e₁ he₁ hended

/-- **One step.** Executions stay settled exactly when no cleanup is cancelled. -/
theorem settled_step_iff {a : Label α} (h : Consistent s) (hsettled : Settled s)
    (hs' : step s a = some s') : Settled s' ↔ LetsCleanupWait s a := by
  cases a with
  | interrupt i =>
    obtain ⟨e, e', he, he', rfl⟩ := advance_eq_some.mp hs'
    have hkeeps := ((h.sound i e he).coherent.interrupt (interruptionError_ne s _) he').2
    constructor
    · intro hnext e₁ he₁
      obtain rfl := Option.some.inj (he.symm.trans he₁)
      refine Bool.eq_false_of_not_eq_true fun hstops => ?_
      -- the consumer ends at once, and its execution still holds the lease
      have hended := (Execution.interrupt_isEnded he').mpr hstops
      have hreleased := hnext i e' (by rw [getElem?_set_of he, if_pos rfl]) hended
      have hholds := (h.sound i e he).holdsLease (.inl fun hend => by
        cases hconsumer : e.consumer with
        | stopping ending => rw [hconsumer] at hend; cases hend
        | _ => rw [hconsumer] at hstops; cases hstops)
      exact (hkeeps.holdsLease_iff.mpr hholds).not_released hreleased
    · intro hwait
      refine settled_advance hsettled hs' fun e₁ e₁' he₁ hfe hended => ?_
      have hstops := (Execution.interrupt_isEnded hfe).mp hended
      rw [hwait e₁ he₁] at hstops
      cases hstops
  | start streams runId answer =>
    obtain rfl := Option.some.inj hs'
    exact iff_of_true (hsettled.start streams runId answer) trivial
  | cancel runId =>
    obtain rfl := Option.some.inj hs'
    exact iff_of_true (hsettled.cancel h runId) trivial
  | close =>
    obtain rfl := Option.some.inj hs'
    exact iff_of_true hsettled trivial
  | heartbeat i renewed => exact iff_of_true (hsettled.heartbeat h hs') trivial
  | release i released => exact iff_of_true (hsettled.release h hs') trivial
  | produce i event =>
    exact iff_of_true (settled_advance_task h hsettled hs' fun _ _ hc hf =>
      ⟨hc.produce hf, Execution.produce_consumer hf⟩) trivial
  | put i =>
    exact iff_of_true (settled_advance_task h hsettled hs' fun _ _ hc hf =>
      ⟨hc.put hf, Execution.put_consumer hf⟩) trivial
  | finishTask i outcome =>
    exact iff_of_true (settled_advance_task h hsettled hs' fun _ _ hc hf =>
      ⟨hc.finishTask hf, by rw [(Execution.finishTask_eq_some hf).1]⟩) trivial
  | expire i =>
    refine iff_of_true (settled_advance_task h hsettled hs' fun e e' hc hf => ?_) trivial
    obtain rfl := Option.some.inj hf
    exact ⟨⟨hc.cancelTask, Execution.keeps_cancelTask e⟩, rfl⟩
  | take i =>
    exact iff_of_true (settled_advance_task h hsettled hs' fun _ _ hc hf =>
      ⟨hc.take hf, Execution.take_consumer hf⟩) trivial
  | stopHeartbeat i =>
    exact iff_of_true (settled_advance_task h hsettled hs' fun _ _ hc hf =>
      ⟨hc.stopHeartbeat hf, Execution.stopHeartbeat_consumer hf⟩) trivial
  | wake i =>
    exact iff_of_true
      (settled_advance_running hsettled hs' fun _ _ hf => Execution.wake_running hf) trivial
  | next i =>
    exact iff_of_true
      (settled_advance_running hsettled hs' fun _ _ hf => Execution.next_running hf) trivial
  | aclose i =>
    refine iff_of_true (settled_advance_running hsettled hs' fun e e' hf => ?_) trivial
    rw [(Execution.aclose_eq_some hf).1]
    exact Execution.finish_running e _

/-- **Relay and cleanup.** In a run of the executor every consumer gets its events in order and
every ended execution has cleaned up, in every state of the run, if and only if no consumer is
cancelled while its cleanup waits for the task of the operation. -/
theorem relayed_and_cleansUp_iff {labels : List (Label α)} {t : Executor α}
    (hrun : run step {} labels = some t) :
    (∀ before u, before <+: labels → run step ({} : Executor α) before = some u →
      Relayed u ∧ CleansUp u) ↔ Along step LetsCleanupWait {} labels := by
  have hsettled : Settled ({} : Executor α) := fun i e he => by cases he
  have hstep : ∀ (s : Executor α) a s', Consistent s ∧ Settled s → step s a = some s' →
      (Consistent s' ∧ Settled s' ↔ LetsCleanupWait s a) := by
    intro s a s' h hs'
    rw [← settled_step_iff h.1 h.2 hs']
    exact and_iff_right (h.1.step hs')
  rw [← forall_prefix_iff_along_of_run hstep ⟨consistent_init, hsettled⟩ hrun]
  constructor
  · intro h before u hbefore hu
    exact ⟨.run hu, fun i e he hended =>
      ((h before u hbefore hu).2.cleaned i e he hended).released⟩
  · intro h before u hbefore hu
    obtain ⟨hconsistent, hsettled⟩ := h before u hbefore hu
    exact ⟨hconsistent.relayed, hsettled.cleansUp hconsistent⟩

instance (s : Executor α) (a : Label α) : Decidable (LetsCleanupWait s a) := by
  cases a <;> unfold LetsCleanupWait <;> infer_instance

/-- A stream of one event. -/
private def oneEvent : List (Label String) :=
  [.start true "r" (.ok 1), .produce 0 "a", .take 0, .wake 0, .heartbeat 0 true, .next 0,
    .finishTask 0 .returned, .wake 0, .stopHeartbeat 0, .release 0 true]

theorem relayed_and_cleansUp_oneEvent :
    Along step LetsCleanupWait {} oneEvent ∧
      ∀ before u, before <+: oneEvent → run step ({} : Executor String) before = some u →
        Relayed u ∧ CleansUp u := by
  have hgood : Along step LetsCleanupWait {} oneEvent := by decide +kernel
  obtain ⟨t, hrun⟩ : ∃ t, run step ({} : Executor String) oneEvent = some t := ⟨_, rfl⟩
  exact ⟨hgood, (relayed_and_cleansUp_iff hrun).mpr hgood⟩

/-- A consumer that is cancelled twice leaves the lease and the run behind, and the run cannot be
executed again. -/
theorem cancelled_cleanup_keeps_run :
    ∃ t e, run step ({} : Executor String)
        [.start true "r" (.ok 1), .interrupt 0, .interrupt 0, .finishTask 0 .canceled] = some t ∧
      t.executions[0]? = some e ∧ e.consumer = .ended .canceled ∧ ¬CleanedUp t e ∧
      t.acquire "r" (.ok 2) = .error "The agent run r is already executing" := by
  refine ⟨_, _, rfl, rfl, rfl, fun h => ?_, by decide +kernel⟩
  obtain ⟨n, hn⟩ := h.released
  change [] = List.replicate n _ ++ [_] at hn
  simp at hn

end EvernightAI.AgentExecutor

import EvernightAI.Agent.AttemptHistory
import EvernightAI.Lib.TransitionSystem
import Mathlib.Data.List.Dedup

/-!
# Tools that must not be replayed run at most once

`LedgerRun` is a run as its ledger sees it. An executor takes a paused run, executes the tool
calls of the current round one after the other, and waits on at most one tool; it may die at any
await and between any two writes. Recovery turns STARTED attempts into UNKNOWN and pauses the run,
but it does not reach into the executor that had the run: when that executor is still alive, the
tool it waits on may still return, and its outcome is written then (`stale`). The operator resolves
UNKNOWN attempts of a paused run.

Every step of the machine is a chain of the writes of `Wrote` (`step_wrote`), so what holds of
every history holds of every run (`atMostOnce`):

* attempt numbers are distinct and increase in the order of the starts, and a NON_REPLAYABLE call
  is invoked at most once more often than it was given RETRY;
* a COMPLETED attempt settles its call for good **when outcomes are recorded only on the latest
  attempt of their call, and never over a COMPLETED one** (`RecordsOnLatest`). Nothing enforces
  that: `resolve_tool_execution` takes any attempt number, and the ledger is written without a
  lease.
-/

namespace EvernightAI

open TransitionSystem

/-- A run as its ledger sees it. `session` is the live executor, with the attempt it waits on. -/
structure LedgerRun extends LedgerHistory where
  paused : Bool := true
  session : Option (Option ToolExecutionAttempt) := none
  stale : List ToolExecutionAttempt := []

/-- Where an executor dies inside `_execute_tool_call`, before the tool is invoked. -/
inductive ExecutionCrash
  | none | afterCreate | afterStart
  deriving DecidableEq, Repr

/-- The outcome is a result. -/
def ToolOutcome.completes : ToolOutcome → Bool
  | .returned _ => true
  | .raised _ => false

inductive LedgerEvent
  /-- An executor takes the paused run. -/
  | begin
  /-- The next response of the model is in the journal. -/
  | nextRound
  /-- The executor handles a call; `tool` is what the register answers for its name. -/
  | execute (call : ToolCall) (toolName : String) (tool : Option ToolDefinition)
      (crash : ExecutionCrash)
  /-- The tool the executor waits on ends. -/
  | finish (outcome : ToolOutcome)
  /-- The executor stops at a checkpoint. -/
  | pause
  /-- The executor dies or is cancelled while it waits. -/
  | interrupt
  /-- Recovery, also by a timeout: attempts become UNKNOWN and the run paused. -/
  | recover
  /-- A reconciliation that dies after its first `count` attempts. -/
  | markUnknown (count : Nat)
  /-- The tool a stale executor waits on ends. -/
  | finishStale (index : Nat) (outcome : ToolOutcome)
  | resolve (toolCallId : String) (attempt : Nat) (resolution : ToolExecutionResolution)
      (result : Option Dict) (reason : Option String)
  /-- A retry as a new run abandons the first `count` of the unresolved attempts. -/
  | abandon (count : Nat)

namespace LedgerRun

/-- The executor's writes up to the invocation, for a prepared attempt. -/
def startAttempt (s : LedgerRun) (call : ToolCall) (attempt : ToolExecutionAttempt)
    (created : Bool) (crash : ExecutionCrash) : Option LedgerRun :=
  match if created then s.ledger.createAttempt attempt else .ok s.ledger with
  | .error _ => some { s with session := none }
  | .ok ledger =>
    match crash with
    | .afterCreate => some { s with ledger, session := none }
    | crash =>
      match ledger.saveAttempt (attempt.start call) with
      | .error _ => some { s with ledger, session := none }
      | .ok ledger =>
        let s := { s with
          ledger, started := s.started ++ [(attempt.toolCallId, attempt.attempt)] }
        if crash = .afterStart then some { s with session := none }
        else some { s with
          invocations := s.invocations ++ [(s.round, attempt.toolCallId)]
          session := some (some (attempt.start call)) }

/-- The write of an outcome; a write that fails is lost with the executor. -/
def record (s : LedgerRun) (attempt : ToolExecutionAttempt) (outcome : ToolOutcome) : LedgerRun :=
  match s.ledger.saveAttempt (attempt.finish outcome) with
  | .ok ledger => { s with ledger }
  | .error _ => s

def step (runId : String) (s : LedgerRun) : LedgerEvent → Option LedgerRun
  | .begin => if s.paused ∧ s.session = none then
      some { s with paused := false, session := some none } else none
  | .nextRound =>
    match s.session with
    | some (some _) => none
    | _ => some { s with round := s.round + 1 }
  | .execute call toolName tool crash =>
    if s.session ≠ some none then none
    else
      match prepareToolExecution runId s.round (fun _ => tool) toolName call
          s.ledger.listAttempts with
      | .error e => if e.errorType = .agentStateError then some { s with session := none } else some s
      | .ok (.reuse _) => some s
      | .ok (.run attempt created) => s.startAttempt call attempt created crash
  | .finish outcome =>
    match s.session with
    | some (some attempt) => some { s.record attempt outcome with session := some none }
    | _ => none
  | .pause => if s.session = some none then
      some { s with paused := true, session := none } else none
  | .interrupt => some { s with session := none }
  | .recover => if s.paused then none else
      some { s with
        ledger := markStartedExecutionsUnknown s.ledger.listAttempts s.ledger
        paused := true
        session := none
        stale := match s.session with
          | some (some attempt) => s.stale ++ [attempt]
          | _ => s.stale }
  | .markUnknown count => some { s with
      ledger := markStartedExecutionsUnknown (s.ledger.listAttempts.take count) s.ledger }
  | .finishStale index outcome =>
    match s.stale[index]? with
    | some attempt => some { s.record attempt outcome with stale := s.stale.eraseIdx index }
    | none => none
  | .resolve toolCallId attempt resolution result reason =>
    if s.paused then
      match resolveAttempt toolCallId attempt resolution result reason s.ledger with
      | .error _ => some s
      | .ok ledger =>
        let s' := { s with ledger }
        match resolution, s.ledger.getAttempt toolCallId attempt with
        | .retry, .ok execution => some { s' with
            retries := s.retries ++ [(execution.toolRound.getD 0, toolCallId)] }
        | _, _ => some s'
    else none
  | .abandon count =>
    if s.paused then some { s with
      ledger := abandonUnrecoverableToolExecutions
        ((latestToolExecutionAttempts s.ledger.listAttempts).take count) s.ledger }
    else none

end LedgerRun

/-- An outcome written to the attempt of this key goes to an attempt that is not COMPLETED and,
when it completes it, to the latest attempt of its call. -/
def Ledger.MaySettle (ledger : Ledger) (key : String × Nat) (completes : Bool) : Prop :=
  ∀ row ∈ ledger, row.key = key →
    row.status ≠ .completed ∧ (completes = true → ledger.IsLatest row)

/-- **When COMPLETED attempts settle their calls**: judged at the state before each step, outcomes
are recorded only where they may settle the call. -/
def RecordsOnLatest (s : LedgerRun) : LedgerEvent → Prop
  | .finish outcome =>
    ∀ attempt ∈ s.session.join, s.ledger.MaySettle attempt.key outcome.completes
  | .finishStale index outcome =>
    ∀ attempt ∈ s.stale[index]?, s.ledger.MaySettle attempt.key outcome.completes
  | .resolve toolCallId attempt .confirmCompleted _ _ => s.ledger.MaySettle (toolCallId, attempt) true
  | _ => True

instance (ledger : Ledger) (attempt : ToolExecutionAttempt) :
    Decidable (ledger.IsLatest attempt) := by
  unfold Ledger.IsLatest
  infer_instance

instance (ledger : Ledger) (key : String × Nat) (completes : Bool) :
    Decidable (ledger.MaySettle key completes) := by
  unfold Ledger.MaySettle
  infer_instance

instance (s : LedgerRun) (event : LedgerEvent) : Decidable (RecordsOnLatest s event) := by
  unfold RecordsOnLatest
  split <;> infer_instance

/-! ### The writers of the ledger -/

/-- A chain of writes. -/
abbrev Writes (strict : Prop) : LedgerHistory → LedgerHistory → Prop :=
  Relation.ReflTransGen (Wrote strict)

/-- The attempt was launched: what is stored under its key is a version of it. -/
def LedgerHistory.Launched (h : LedgerHistory) (attempt : ToolExecutionAttempt) : Prop :=
  ∃ row ∈ h.ledger, row.SameAttempt attempt ∧ row.status ≠ .scheduled

section Writers

variable {strict : Prop} {h h' : LedgerHistory}

theorem LedgerHistory.Inv.of_writes (hinv : h.Inv) (w : Writes strict h h') : h'.Inv := by
  induction w with
  | refl => exact hinv
  | tail _ w ih => exact ih.of_wrote w

theorem LedgerHistory.Launched.of_writes {attempt : ToolExecutionAttempt}
    (hl : h.Launched attempt) (w : Writes strict h h') : h'.Launched attempt := by
  induction w with
  | refl => exact hl
  | tail _ w ih =>
    obtain ⟨row, hmem, hsame, hlaunched⟩ := ih
    obtain ⟨row', hmem', hsame', hlaunched'⟩ := w.keeps hmem
    exact ⟨row', hmem', ⟨hsame.key.trans hsame'.key.symm,
      hsame.toolRound.trans hsame'.toolRound.symm,
      hsame.replayPolicy.trans hsame'.replayPolicy.symm⟩, hlaunched' hlaunched⟩

/-- Rewriting some of the rows, one write each: no write touches the row of another. -/
theorem writes_foldl {p : ToolExecutionAttempt → Bool}
    {g : ToolExecutionAttempt → ToolExecutionAttempt} (hg : ∀ a, (g a).key = a.key)
    (hwrite : ∀ (h : LedgerHistory) (a), a ∈ h.ledger → p a = true →
      Wrote strict h { h with ledger := h.ledger.upsert (g a) })
    (h : LedgerHistory) (attempts : List ToolExecutionAttempt)
    (hmem : ∀ a ∈ attempts, a ∈ h.ledger)
    (hnodup : (attempts.map ToolExecutionAttempt.key).Nodup) :
    Writes strict h { h with
      ledger := attempts.foldl (fun ledger a => if p a then ledger.upsert (g a) else ledger)
        h.ledger } := by
  induction attempts generalizing h with
  | nil => exact .refl
  | cons a as ih =>
    rw [List.map_cons, List.nodup_cons] at hnodup
    rw [List.foldl_cons]
    by_cases hp : p a = true
    · rw [if_pos hp]
      refine .head (hwrite h a (hmem a (List.mem_cons_self ..)) hp) ?_
      refine ih { h with ledger := h.ledger.upsert (g a) } (fun b hb => ?_) hnodup.2
      refine Table.mem_upsert.mpr (Or.inr ⟨hmem b (List.mem_cons_of_mem _ hb), fun hkey => ?_⟩)
      exact hnodup.1 (List.mem_map.mpr ⟨b, hb, hkey.trans (hg a)⟩)
    · rw [if_neg hp]
      exact ih h (fun b hb => hmem b (List.mem_cons_of_mem _ hb)) hnodup.2

theorem Ledger.nodup_listAttempts (ledger : Ledger) :
    (ledger.listAttempts.map ToolExecutionAttempt.key).Nodup :=
  (((List.perm_insertionSort _ _).map _).nodup_iff).mpr ledger.nodup

/-- Recovery rewrites STARTED attempts only. -/
theorem writes_markStarted (h : LedgerHistory) {attempts : List ToolExecutionAttempt}
    (hsub : attempts.Sublist h.ledger.listAttempts) :
    Writes strict h { h with ledger := markStartedExecutionsUnknown attempts h.ledger } := by
  have hfold := @writes_foldl strict (fun a => a.status = .started)
    (fun a => { a with status := .unknown }) (fun _ => rfl)
    (fun h a hmem hstatus => by
      have hstarted : a.status = .started := by simpa using hstatus
      refine .rewrite hmem ⟨rfl, rfl, rfl⟩ (by rw [hstarted]; decide) (by simp)
        (fun hretry => ⟨hretry.1, Or.inl hstarted⟩) fun _ => ⟨by rw [hstarted]; decide, ?_⟩
      intro hcompleted
      cases hcompleted)
    h attempts (fun a ha => Ledger.mem_listAttempts.mp (hsub.subset ha))
    (h.ledger.nodup_listAttempts.sublist (hsub.map _))
  simpa only [markStartedExecutionsUnknown, decide_eq_true_eq] using hfold

theorem nodup_latestToolExecutionAttempts (attempts : List ToolExecutionAttempt) :
    ((latestToolExecutionAttempts attempts).map ToolExecutionAttempt.key).Nodup := by
  have hids : ∀ ids : List String, ids.Nodup →
      ((ids.filterMap fun id => latestToolExecutionAttempt id attempts).map
        ToolExecutionAttempt.key).Nodup := by
    intro ids hids
    induction ids with
    | nil => exact List.nodup_nil
    | cons id ids ih =>
      rw [List.nodup_cons] at hids
      cases hlatest : latestToolExecutionAttempt id attempts with
      | none => simpa only [List.filterMap_cons, hlatest] using ih hids.2
      | some a =>
        simp only [List.filterMap_cons, hlatest, List.map_cons, List.nodup_cons]
        refine ⟨fun hmem => hids.1 ?_, ih hids.2⟩
        obtain ⟨b, hb, hkey⟩ := List.mem_map.mp hmem
        obtain ⟨id', hid', hb⟩ := List.mem_filterMap.mp hb
        have haid := (latestToolExecutionAttempt_eq_some hlatest).2.1
        have hbid := (latestToolExecutionAttempt_eq_some hb).2.1
        rwa [← haid, show a.toolCallId = b.toolCallId from (congrArg Prod.fst hkey).symm, hbid]
  exact hids _ (List.nodup_dedup _)

theorem mem_of_mem_latestToolExecutionAttempts {attempts : List ToolExecutionAttempt}
    {a : ToolExecutionAttempt} (ha : a ∈ latestToolExecutionAttempts attempts) : a ∈ attempts := by
  obtain ⟨id, -, hlatest⟩ := List.mem_filterMap.mp ha
  exact (latestToolExecutionAttempt_eq_some hlatest).1

/-- A retry as a new run rewrites UNKNOWN attempts only, and makes none of them retryable. -/
theorem writes_abandon (h : LedgerHistory) {latest : List ToolExecutionAttempt}
    (hsub : latest.Sublist (latestToolExecutionAttempts h.ledger.listAttempts)) :
    Writes strict h { h with ledger := abandonUnrecoverableToolExecutions latest h.ledger } := by
  refine @writes_foldl strict shouldAbandonForRetry
    (fun execution => { execution with
      resolution := some .abandonAndRetryRun, resolutionReason := some "run_retried" })
    (fun _ => rfl) (fun h a hmem habandon => ?_)
    h latest (fun a ha => Ledger.mem_listAttempts.mp
      (mem_of_mem_latestToolExecutionAttempts (hsub.subset ha)))
    ((nodup_latestToolExecutionAttempts _).sublist (hsub.map _))
  have hunknown : a.status = .unknown := by
    simp only [shouldAbandonForRetry, Bool.and_eq_true, decide_eq_true_eq] at habandon
    exact habandon.1.1
  refine .rewrite hmem ⟨rfl, rfl, rfl⟩ (by rw [hunknown]; decide) (by rw [hunknown]; decide)
    (fun hretry => absurd hretry.1 (by simp)) fun _ => ⟨by rw [hunknown]; decide, ?_⟩
  intro hcompleted
  rw [hunknown] at hcompleted
  cases hcompleted

/-- The outcome of an invocation rewrites the attempt's row, whatever it holds by then. -/
theorem writes_finish {attempt : ToolExecutionAttempt} {outcome : ToolOutcome} {ledger : Ledger}
    (hl : h.Launched attempt)
    (hstrict : strict → h.ledger.MaySettle attempt.key outcome.completes)
    (hsave : h.ledger.saveAttempt (attempt.finish outcome) = .ok ledger) :
    Wrote strict h { h with ledger } := by
  obtain ⟨rfl, -⟩ := Ledger.saveAttempt_eq_ok hsave
  obtain ⟨row, hmem, hsame, hlaunched⟩ := hl
  have hstatus : (attempt.finish outcome).status = .completed ∧ outcome.completes = true ∨
      (attempt.finish outcome).status = .failed := by
    cases outcome with
    | returned => exact Or.inl ⟨rfl, rfl⟩
    | raised => exact Or.inr rfl
  have hfinish : attempt.SameAttempt (attempt.finish outcome) := by
    cases outcome <;> exact ⟨rfl, rfl, rfl⟩
  refine .rewrite hmem (hsame.trans hfinish) hlaunched ?_ ?_ fun hs => ?_
  · rcases hstatus with ⟨hstatus, -⟩ | hstatus <;> (rw [hstatus]; decide)
  · rintro ⟨-, hretry⟩
    rcases hstatus with ⟨hstatus, -⟩ | hstatus <;> simp [hstatus] at hretry
  · obtain ⟨hopen, hlatest⟩ := hstrict hs row hmem hsame.key.symm
    refine ⟨hopen, fun hcompleted => ?_⟩
    rcases hstatus with ⟨-, hcompletes⟩ | hstatus
    · exact hlatest hcompletes
    · rw [hstatus] at hcompleted
      cases hcompleted

/-- What `resolve_tool_execution` writes: a version of an UNKNOWN attempt. -/
theorem resolveAttempt_eq_ok {toolCallId : String} {attempt : Nat}
    {resolution : ToolExecutionResolution} {result : Option Dict} {reason : Option String}
    {ledger ledger' : Ledger}
    (hresolve : resolveAttempt toolCallId attempt resolution result reason ledger = .ok ledger') :
    resolution ≠ .abandonAndRetryRun ∧
      ∃ row ∈ ledger, row.key = (toolCallId, attempt) ∧ row.status = .unknown ∧
        ledger.getAttempt toolCallId attempt = .ok row ∧
        ledger' = ledger.upsert (row.resolve resolution result reason) := by
  unfold resolveAttempt at hresolve
  split at hresolve
  · cases hresolve
  next hne =>
  refine ⟨hne, ?_⟩
  split at hresolve
  · cases hresolve
  next row hrow =>
  split at hresolve
  · cases hresolve
  next hunknown =>
  split at hresolve
  · cases hresolve
  have hfound : ledger.find? (toolCallId, attempt) = some row := by
    unfold Ledger.getAttempt at hrow
    split at hrow
    · next row' hfind => cases hrow; exact hfind
    · cases hrow
  obtain ⟨hmem, hkey⟩ := Table.find?_eq_some.mp hfound
  exact ⟨row, hmem, hkey, not_not.mp hunknown, hrow, (Ledger.saveAttempt_eq_ok hresolve).1⟩

theorem ToolExecutionAttempt.sameAttempt_resolve (attempt : ToolExecutionAttempt)
    (resolution : ToolExecutionResolution) (result : Option Dict) (reason : Option String) :
    attempt.SameAttempt (attempt.resolve resolution result reason) := by
  cases resolution <;> exact ⟨rfl, rfl, rfl⟩

/-- What `resolve_tool_execution` does to the history. -/
theorem wrote_resolve {toolCallId : String} {attempt : Nat}
    {resolution : ToolExecutionResolution} {result : Option Dict} {reason : Option String}
    {row : ToolExecutionAttempt} (hresolution : resolution ≠ .abandonAndRetryRun)
    (hmem : row ∈ h.ledger) (hunknown : row.status = .unknown)
    (hkey : row.key = (toolCallId, attempt)) {round : Nat} (hround : row.toolRound = some round)
    (hstrict : strict → resolution = .confirmCompleted →
      h.ledger.MaySettle (toolCallId, attempt) true) :
    Wrote strict h { h with
      ledger := h.ledger.upsert (row.resolve resolution result reason)
      retries := h.retries ++ if resolution = .retry then [(round, toolCallId)] else [] } := by
  have hsame := row.sameAttempt_resolve resolution result reason
  have hid : row.toolCallId = toolCallId := congrArg Prod.fst hkey
  cases resolution with
  | abandonAndRetryRun => exact absurd rfl hresolution
  | retry => exact hid ▸ .retry hmem hsame hround hunknown hunknown
  | confirmCompleted =>
    rw [if_neg (by decide), List.append_nil]
    refine .rewrite hmem hsame (by rw [hunknown]; decide) (by simp [ToolExecutionAttempt.resolve])
      (fun hretry => absurd hretry.1 (by simp [ToolExecutionAttempt.resolve])) fun hs => ?_
    obtain ⟨hopen, hlatest⟩ := hstrict hs rfl row hmem hkey
    exact ⟨hopen, fun _ => hlatest rfl⟩

/-- The attempt an execution starts: stored, and the latest of its call. -/
theorem writes_open {toolCallId : String} {attempt : ToolExecutionAttempt} {created : Bool}
    {ledger : Ledger}
    (hstart : Startable h.round toolCallId h.ledger.listAttempts attempt created)
    (hopen : (if created then h.ledger.createAttempt attempt else .ok h.ledger) = .ok ledger) :
    Writes strict h { h with ledger } ∧ attempt ∈ ledger ∧ ledger.IsLatest attempt := by
  cases created with
  | false =>
    cases hopen
    obtain ⟨hmem, hmax⟩ := hstart.stored rfl
    refine ⟨.refl, Ledger.mem_listAttempts.mp hmem, fun b hb hid hround => ?_⟩
    exact hmax b (Ledger.mem_listAttempts.mpr hb) (hid.trans hstart.ofCall)
      (hround.trans hstart.ofRound)
  | true =>
    obtain ⟨rfl, -⟩ := Ledger.createAttempt_eq_ok hopen
    obtain ⟨hresolution, habove, hlatest⟩ := hstart.fresh rfl
    have habove' : ∀ b ∈ h.ledger, b.toolCallId = attempt.toolCallId → b.attempt < attempt.attempt :=
      fun b hb hid => habove b (Ledger.mem_listAttempts.mpr hb) (hid.trans hstart.ofCall)
    refine ⟨.single (.create hstart.ofRound hstart.scheduled hresolution habove' ?_),
      Table.mem_upsert.mpr (Or.inl rfl), fun b hb hid _ => ?_⟩
    · -- The latest attempt of the call is the one that was found able to resume.
      intro b hb hin hbl
      rw [hstart.ofCall] at hin
      obtain ⟨hstatus, hresume⟩ := hlatest b (Ledger.latestToolExecutionAttempt_eq hb hin hbl)
      refine ⟨by rcases hstatus with h | h <;> (rw [h]; decide), fun hpolicy => ⟨?_, hstatus⟩⟩
      rcases hstatus with h | h <;> simpa [toolCallCanResume, hpolicy, h] using hresume
    · rcases Table.mem_upsert.mp hb with rfl | ⟨hb, -⟩
      · exact le_refl _
      · exact (habove' b hb hid).le

end Writers

/-! ### Steps are chains of writes -/

namespace LedgerRun

variable {strict : Prop} {runId : String} {s s' : LedgerRun}

/-- Every attempt an executor waits on was launched. -/
def InflightLaunched (s : LedgerRun) : Prop :=
  ∀ attempt, s.session = some (some attempt) ∨ attempt ∈ s.stale →
    s.toLedgerHistory.Launched attempt

/-- The machine keeps its waiting attempts launched when it adds none that is not. -/
theorem InflightLaunched.of_writes (hl : s.InflightLaunched)
    (w : Writes strict s.toLedgerHistory s'.toLedgerHistory)
    (hnew : ∀ attempt, s'.session = some (some attempt) ∨ attempt ∈ s'.stale →
      s.session = some (some attempt) ∨ attempt ∈ s.stale ∨
        s'.toLedgerHistory.Launched attempt) : s'.InflightLaunched := by
  intro attempt h
  rcases hnew attempt h with h | h | h
  · exact (hl attempt (Or.inl h)).of_writes w
  · exact (hl attempt (Or.inr h)).of_writes w
  · exact h

theorem startAttempt_writes {toolCallId : String} {call : ToolCall}
    {attempt : ToolExecutionAttempt} {created : Bool} {crash : ExecutionCrash}
    (hstart : Startable s.round toolCallId s.ledger.listAttempts attempt created)
    (hs' : s.startAttempt call attempt created crash = some s') :
    Writes strict s.toLedgerHistory s'.toLedgerHistory ∧ s'.stale = s.stale ∧
      ∀ a, s'.session = some (some a) → s'.toLedgerHistory.Launched a := by
  have idle {s' : LedgerRun} (hw : Writes strict s.toLedgerHistory s'.toLedgerHistory)
      (hstale : s'.stale = s.stale) (hsession : s'.session = none) :
      Writes strict s.toLedgerHistory s'.toLedgerHistory ∧ s'.stale = s.stale ∧
        ∀ a, s'.session = some (some a) → s'.toLedgerHistory.Launched a :=
    ⟨hw, hstale, fun a ha => by rw [hsession] at ha; cases ha⟩
  unfold startAttempt at hs'
  split at hs'
  · cases hs'
    exact idle .refl rfl rfl
  next ledger hopen =>
  obtain ⟨hopened, hmem, hlatest⟩ : Writes strict s.toLedgerHistory _ ∧ _ :=
    writes_open hstart hopen
  split at hs'
  · cases hs'
    exact idle hopened rfl rfl
  split at hs'
  · cases hs'
    exact idle hopened rfl rfl
  next ledger' hsave =>
  obtain ⟨rfl, -⟩ := Ledger.saveAttempt_eq_ok hsave
  have hstarted (invoked : Bool) : Writes strict s.toLedgerHistory { s.toLedgerHistory with
      ledger := ledger.upsert (attempt.start call)
      started := s.started ++ [(attempt.start call).key]
      invocations := s.invocations ++
        if invoked then [(s.round, (attempt.start call).toolCallId)] else [] } :=
    hopened.tail (.start invoked hmem ⟨rfl, rfl, rfl⟩ hstart.ofRound hstart.scheduled rfl rfl hlatest)
  split at hs'
  · cases hs'
    have hnone := hstarted false
    simp only [Bool.false_eq_true, if_false, List.append_nil] at hnone
    exact idle hnone rfl rfl
  · cases hs'
    refine ⟨hstarted true, rfl, fun a ha => ?_⟩
    cases ha
    exact ⟨_, Table.mem_upsert.mpr (Or.inl rfl), .refl _, by simp [ToolExecutionAttempt.start]⟩

theorem record_writes {attempt : ToolExecutionAttempt} {outcome : ToolOutcome}
    (hl : s.toLedgerHistory.Launched attempt)
    (hstrict : strict → s.ledger.MaySettle attempt.key outcome.completes) :
    Writes strict s.toLedgerHistory (s.record attempt outcome).toLedgerHistory ∧
      (s.record attempt outcome).session = s.session ∧
      (s.record attempt outcome).stale = s.stale := by
  unfold record
  split
  · next ledger hsave => exact ⟨.single (writes_finish hl hstrict hsave), rfl, rfl⟩
  · exact ⟨.refl, rfl, rfl⟩

/-- **Every step is a chain of writes**, strict ones when outcomes are recorded on latest attempts
only; and what executors wait on stays launched. -/
theorem step_writes {event : LedgerEvent} (hinv : s.toLedgerHistory.Inv) (hl : s.InflightLaunched)
    (hstrict : strict → RecordsOnLatest s event) (hstep : step runId s event = some s') :
    Writes strict s.toLedgerHistory s'.toLedgerHistory ∧ s'.InflightLaunched := by
  have quiet {s' : LedgerRun} (hw : Writes strict s.toLedgerHistory s'.toLedgerHistory)
      (hstale : s'.stale = s.stale) (hsession : ∀ a, s'.session ≠ some (some a)) :
      Writes strict s.toLedgerHistory s'.toLedgerHistory ∧ s'.InflightLaunched :=
    ⟨hw, hl.of_writes hw fun a ha => by
      rcases ha with ha | ha
      · exact absurd ha (hsession a)
      · exact Or.inr (Or.inl (hstale ▸ ha))⟩
  cases event with
  | begin =>
    simp only [step] at hstep
    split at hstep <;> cases hstep
    exact quiet .refl rfl (by simp)
  | nextRound =>
    simp only [step] at hstep
    split at hstep
    · cases hstep
    · next hsession =>
      cases hstep
      exact quiet (.single .round) rfl hsession
  | execute call toolName tool crash =>
    simp only [step] at hstep
    split at hstep
    · cases hstep
    next hsession =>
    have hsession := not_not.mp hsession
    split at hstep
    · split at hstep <;> cases hstep
      · exact quiet .refl rfl (by simp)
      · exact quiet .refl rfl (by simp [hsession])
    · cases hstep
      exact quiet .refl rfl (by simp [hsession])
    · next attempt created hprepare =>
      obtain ⟨hw, hstale, hnew⟩ : Writes strict s.toLedgerHistory s'.toLedgerHistory ∧ _ :=
        startAttempt_writes (startable_of_prepareToolExecution hprepare) hstep
      refine ⟨hw, hl.of_writes hw fun a ha => ?_⟩
      rcases ha with ha | ha
      · exact Or.inr (Or.inr (hnew a ha))
      · exact Or.inr (Or.inl (hstale ▸ ha))
  | finish outcome =>
    simp only [step] at hstep
    split at hstep
    · next attempt hsession =>
      cases hstep
      obtain ⟨hw, -, hstale⟩ := record_writes (hl attempt (Or.inl hsession))
        fun hs => hstrict hs attempt (by simp [hsession])
      exact quiet hw hstale (by simp)
    · cases hstep
  | pause =>
    simp only [step] at hstep
    split at hstep <;> cases hstep
    exact quiet .refl rfl (by simp)
  | interrupt =>
    cases hstep
    exact quiet .refl rfl (by simp)
  | recover =>
    simp only [step] at hstep
    split at hstep <;> cases hstep
    have hw : Writes strict s.toLedgerHistory _ :=
      writes_markStarted s.toLedgerHistory (List.Sublist.refl _)
    refine ⟨hw, hl.of_writes hw fun a ha => ?_⟩
    rcases ha with ha | ha
    · cases ha
    · -- The executor that had the run may still be waiting on its tool.
      split at ha
      · next attempt hsession =>
        rcases List.mem_append.mp ha with ha | ha
        · exact Or.inr (Or.inl ha)
        · exact Or.inl (List.mem_singleton.mp ha ▸ hsession)
      · exact Or.inr (Or.inl ha)
  | markUnknown count =>
    cases hstep
    have hw : Writes strict s.toLedgerHistory _ :=
      writes_markStarted s.toLedgerHistory (List.take_sublist count _)
    exact ⟨hw, hl.of_writes hw fun a ha => ha.imp_right Or.inl⟩
  | finishStale index outcome =>
    simp only [step] at hstep
    split at hstep
    · next attempt hindex =>
      cases hstep
      have hmem : attempt ∈ s.stale := List.mem_of_getElem? hindex
      obtain ⟨hw, hsession, -⟩ := record_writes (hl attempt (Or.inr hmem))
        fun hs => hstrict hs attempt hindex
      refine ⟨hw, hl.of_writes hw fun a ha => ?_⟩
      rcases ha with ha | ha
      · exact Or.inl (hsession ▸ ha)
      · exact Or.inr (Or.inl (List.mem_of_mem_eraseIdx ha))
    · cases hstep
  | resolve toolCallId attempt resolution result reason =>
    simp only [step] at hstep
    split at hstep
    · split at hstep
      · cases hstep
        exact ⟨.refl, hl⟩
      · next ledger hresolve =>
        obtain ⟨hne, row, hmem, hkey, hunknown, hget, rfl⟩ := resolveAttempt_eq_ok hresolve
        obtain ⟨round, -, hround⟩ := hinv.ordered.inRound row hmem
        have hw : Wrote strict s.toLedgerHistory { s.toLedgerHistory with
            ledger := s.ledger.upsert (row.resolve resolution result reason)
            retries := s.retries ++ if resolution = .retry then [(round, toolCallId)] else [] } :=
          wrote_resolve hne hmem hunknown hkey hround fun hs hconfirm => by
            subst hconfirm
            exact hstrict hs
        cases resolution with
        | abandonAndRetryRun => exact absurd rfl hne
        | retry =>
          simp only [hget, hround, Option.getD_some] at hstep
          cases hstep
          exact ⟨.single hw, hl.of_writes (.single hw) fun a ha => ha.imp_right Or.inl⟩
        | confirmCompleted =>
          simp only [reduceCtorEq, if_false, List.append_nil] at hw
          cases hstep
          exact ⟨.single hw, hl.of_writes (.single hw) fun a ha => ha.imp_right Or.inl⟩
    · cases hstep
  | abandon count =>
    simp only [step] at hstep
    split at hstep <;> cases hstep
    have hw : Writes strict s.toLedgerHistory _ :=
      writes_abandon s.toLedgerHistory (List.take_sublist count _)
    exact ⟨hw, hl.of_writes hw fun a ha => ha.imp_right Or.inl⟩

/-! ### Runs -/

/-- The invariant of the machine. -/
structure Consistent (s : LedgerRun) : Prop where
  history : s.toLedgerHistory.Inv
  launched : s.InflightLaunched

theorem consistent_init : Consistent {} where
  history := LedgerHistory.inv_empty
  launched _ h := by simp at h

theorem Consistent.of_step {event : LedgerEvent} (hs : s.Consistent)
    (hstep : step runId s event = some s') : s'.Consistent := by
  obtain ⟨hw, hl⟩ : Writes False s.toLedgerHistory s'.toLedgerHistory ∧ _ :=
    step_writes hs.history hs.launched False.elim hstep
  exact ⟨hs.history.of_writes hw, hl⟩

theorem Consistent.of_run {events : List LedgerEvent} (hs : s.Consistent)
    (hrun : run (step runId) s events = some s') : s'.Consistent :=
  run_invariant (fun _ _ _ hs hstep => hs.of_step hstep) hs hrun

/-- The machine under `RecordsOnLatest`: COMPLETED attempts are latest attempts. -/
structure SettledRun (s : LedgerRun) : Prop extends Consistent s where
  settled : s.toLedgerHistory.Settled

end LedgerRun

section Strict

variable {h h' : LedgerHistory}

theorem LedgerHistory.Settled.of_writes (hs : h.Settled) (w : Writes True h h') : h'.Settled := by
  induction w with
  | refl => exact hs
  | tail _ w ih => exact ih.of_wrote trivial w

/-- A settled call stays settled along a chain of strict writes. -/
theorem LedgerHistory.Done.of_writes {round : Nat} {toolCallId : String} {result : ToolCallResult}
    (hdone : h.Done round toolCallId result) (hs : h.Settled) (w : Writes True h h') :
    h'.Done round toolCallId result ∧
      h'.invocationsOf round toolCallId = h.invocationsOf round toolCallId := by
  induction w with
  | refl => exact ⟨hdone, rfl⟩
  | tail w w' ih =>
    obtain ⟨hdone', hcount⟩ := ih
    obtain ⟨hdone'', hcount'⟩ := hdone'.of_wrote (hs.of_writes w) trivial w'
    exact ⟨hdone'', hcount'.trans hcount⟩

end Strict

namespace LedgerRun

variable {runId : String} {s s' : LedgerRun}

/-- A good step keeps COMPLETED attempts latest, and the settled calls settled. -/
theorem SettledRun.of_step {event : LedgerEvent} (hs : s.SettledRun)
    (hgood : RecordsOnLatest s event) (hstep : step runId s event = some s') :
    s'.SettledRun ∧ Writes True s.toLedgerHistory s'.toLedgerHistory := by
  obtain ⟨hw, hl⟩ : Writes True s.toLedgerHistory s'.toLedgerHistory ∧ _ :=
    step_writes hs.history hs.launched (fun _ => hgood) hstep
  exact ⟨⟨⟨hs.history.of_writes hw, hl⟩, hs.settled.of_writes hw⟩, hw⟩

/-- A good run is a chain of strict writes. -/
theorem SettledRun.of_run {events : List LedgerEvent} (hs : s.SettledRun)
    (hrun : run (step runId) s events = some s')
    (hgood : Along (step runId) RecordsOnLatest s events) :
    s'.SettledRun ∧ Writes True s.toLedgerHistory s'.toLedgerHistory := by
  refine run_invariant_of_along
    (I := fun t => t.SettledRun ∧ Writes True s.toLedgerHistory t.toLedgerHistory)
    (fun t event t' ht hgood hstep => ?_) ⟨hs, .refl⟩ hrun hgood
  obtain ⟨ht', hw⟩ := ht.1.of_step hgood hstep
  exact ⟨ht', ht.2.trans hw⟩

end LedgerRun

section Examples

private def call : ToolCall := { toolCallId := "c", toolCall := [] }

private def answer : ToolCallResult := { toolCallId := "c", toolCallResult := [] }

private def execute (policy : ToolReplayPolicy) : LedgerEvent :=
  .execute call "pay" (some { name := "pay", replayPolicy := policy }) .none

private def ledgerReached (events : List LedgerEvent)
    (h : (run (LedgerRun.step "r") {} events).isSome) : LedgerRun :=
  TransitionSystem.reached (LedgerRun.step "r") {} events h

/-- The executor dies while the tool runs, the operator asks for a RETRY, and the second attempt
completes. -/
private def retried : List LedgerEvent :=
  [.begin, execute .nonReplayable, .interrupt, .recover, .resolve "c" 1 .retry none none,
    .begin, execute .nonReplayable, .finish (.returned answer)]

/-- The executor dies again, and the call comes up once more. -/
private def resumed : List LedgerEvent :=
  [.interrupt, .recover, .begin, execute .nonReplayable]

/-- The lease of a live executor expires; its tool returns after the operator's RETRY was given and
taken. -/
private def lateOutcome : List LedgerEvent :=
  [.begin, execute .nonReplayable, .recover, .resolve "c" 1 .retry none none,
    .begin, execute .nonReplayable, .finishStale 0 (.returned answer)]

/-- Two attempts of a tool that may be replayed have unknown outcomes; the operator confirms the
first. -/
private def confirmedFirst : List LedgerEvent :=
  [.begin, execute .safe, .interrupt, .recover, .begin, execute .safe, .interrupt, .recover,
    .resolve "c" 1 .confirmCompleted none none]

end Examples

end EvernightAI

import EvernightAI.Agent.Schema
import EvernightAI.Lib.TransitionSystem
import Mathlib.Data.List.Sort

/-!
# The trace register

`agent_trace_events` keeps the journals of all runs. An appended event gets the next sequence of its
run, which is read off the rows that are there; pruning deletes rows by their age or their number.
A reader keeps the last sequence it saw, and asks for later ones.

Sequences only grow as long as the newest event of a run outlives every later append to that run:
this is exactly when readers are safe (`traceLaw_iff`).
-/

namespace EvernightAI

/-- A row of `agent_trace_events`. Event ids are assigned in order and never again; creation times
are compared as texts. -/
structure TraceRow where
  eventId : Nat
  runId : String
  sequence : Nat
  createdAt : String
  event : AgentTraceEvent
  deriving DecidableEq

/-- A subscriber to the trace of a run: `list_events` after its cursor, again and again. -/
structure TraceReader where
  runId : String
  cursor : Nat := 0
  seen : List TraceRow := []
  deriving DecidableEq

/-- The register, its readers, and every row it ever held. Rows are kept in the order of their event
ids. -/
structure TraceRegister where
  rows : List TraceRow := []
  appended : List TraceRow := []
  readers : List TraceReader := []
  deriving DecidableEq

inductive TraceOp
  | append (runId : String) (event : AgentTraceEvent) (now : String)
  | prune (olderThan : Option String) (keepLatest : Option Nat)
  | clear (runId : String)
  | subscribe (runId : String)
  | poll (reader : Nat) (limit : Option Nat)
  deriving DecidableEq

namespace TraceRegister

variable (register : TraceRegister)

/-- The rows of a run. -/
def ofRun (runId : String) (rows : List TraceRow) : List TraceRow := rows.filter (·.runId = runId)

/-- `SELECT COALESCE(MAX(sequence), 0) + 1 … WHERE run_id = ?` -/
def nextSequence (runId : String) : Nat :=
  ((ofRun runId register.rows).map (·.sequence)).foldl max 0 + 1

/-- The row `append_event` inserts. -/
def newRow (runId : String) (event : AgentTraceEvent) (now : String) : TraceRow where
  eventId := register.appended.length + 1
  runId
  sequence := register.nextSequence runId
  createdAt := now
  event := { event with sequence := some (register.nextSequence runId) }

/-- `append_event` -/
def appendEvent (runId : String) (event : AgentTraceEvent) (now : String) : TraceRegister :=
  { register with
    rows := register.rows ++ [register.newRow runId event now]
    appended := register.appended ++ [register.newRow runId event now] }

/-- `list_events` -/
def listEvents (runId : String) (afterSequence : Nat) (limit : Option Nat) : List TraceRow :=
  let rows := ((ofRun runId register.rows).filter (afterSequence < ·.sequence)).insertionSort
    (·.sequence ≤ ·.sequence)
  match limit with
  | some limit => rows.take limit
  | none => rows

/-- `prune_events` -/
def pruneEvents (olderThan : Option String) (keepLatest : Option Nat) : TraceRegister :=
  let rows := match olderThan with
    | some olderThan => register.rows.filter fun row => ¬row.createdAt < olderThan
    | none => register.rows
  { register with
    rows := match keepLatest with
      | some keepLatest => rows.drop (rows.length - keepLatest)
      | none => rows }

/-- `clear_events` -/
def clearEvents (runId : String) : TraceRegister :=
  { register with rows := register.rows.filter (·.runId ≠ runId) }

/-- A reader asks for the events after its cursor, and moves its cursor to the last one. -/
def poll (reader : TraceReader) (limit : Option Nat) : TraceReader :=
  let events := register.listEvents reader.runId reader.cursor limit
  { reader with
    cursor := (events.getLast?.map (·.sequence)).getD reader.cursor
    seen := reader.seen ++ events }

def step (register : TraceRegister) : TraceOp → Option TraceRegister
  | .append runId event now => some (register.appendEvent runId event now)
  | .prune olderThan keepLatest => some (register.pruneEvents olderThan keepLatest)
  | .clear runId => some (register.clearEvents runId)
  | .subscribe runId => some { register with readers := register.readers ++ [{ runId }] }
  | .poll reader limit => (register.readers[reader]?).map fun r =>
      { register with readers := register.readers.set reader (register.poll r limit) }

/-! ### The law -/

/-- Every event got a greater sequence than all events appended to its run before it. -/
def SequencesGrow : Prop :=
  register.appended.Pairwise fun a b => a.runId = b.runId → a.sequence < b.sequence

/-- **The law of a journal**: sequences grow; no reader has passed a stored event it did not see; no
reader saw two events under one sequence. -/
structure TraceLaw : Prop where
  grow : register.SequencesGrow
  notMissed : ∀ reader ∈ register.readers, ∀ row ∈ register.rows, row.runId = reader.runId →
    row ∉ reader.seen → reader.cursor < row.sequence
  notConfused : ∀ reader ∈ register.readers, ∀ a ∈ reader.seen, ∀ b ∈ reader.seen,
    a.sequence = b.sequence → a = b

/-- The event appended last to a run. -/
def newest? (runId : String) : Option TraceRow := (ofRun runId register.appended).getLast?

/-- **The newest event outlives the append**: the run has no event yet, or its newest one is still
stored. -/
def newestKept (register : TraceRegister) : TraceOp → Prop
  | .append runId _ _ => ∀ row ∈ register.newest? runId, row ∈ register.rows
  | _ => True

instance (register : TraceRegister) (op : TraceOp) : Decidable (newestKept register op) :=
  match op with
  | .append runId _ _ => inferInstanceAs (Decidable (∀ row ∈ register.newest? runId, _))
  | .prune _ _ | .clear _ | .subscribe _ | .poll _ _ => inferInstanceAs (Decidable True)

variable {register} {register' : TraceRegister} {op : TraceOp}

@[simp] theorem mem_ofRun {runId : String} {rows : List TraceRow} {row : TraceRow} :
    row ∈ ofRun runId rows ↔ row ∈ rows ∧ row.runId = runId := by
  simp only [ofRun, List.mem_filter, decide_eq_true_eq]

private theorem foldl_max_mem (l : List Nat) (m : Nat) : l.foldl max m = m ∨ l.foldl max m ∈ l := by
  induction l generalizing m with
  | nil => exact Or.inl rfl
  | cons k l ih =>
    rw [List.foldl_cons]
    rcases ih (max m k) with h | h
    · rw [h]
      rcases le_total m k with hle | hle
      · exact Or.inr (by rw [max_eq_right hle]; exact List.mem_cons_self ..)
      · exact Or.inl (max_eq_left hle)
    · exact Or.inr (List.mem_cons_of_mem _ h)

/-- The next sequence of a run is above every sequence stored for it. -/
theorem lt_nextSequence {runId : String} {row : TraceRow} (hrow : row ∈ register.rows)
    (hrun : row.runId = runId) : row.sequence < register.nextSequence runId :=
  Nat.lt_succ_of_le (le_foldl_max
    (Or.inr (List.mem_map.mpr ⟨row, mem_ofRun.mpr ⟨hrow, hrun⟩, rfl⟩)))

/-- It is no higher than it must be for that. -/
theorem nextSequence_le {runId : String} {bound : Nat}
    (h : ∀ row ∈ register.rows, row.runId = runId → row.sequence < bound) (hbound : 0 < bound) :
    register.nextSequence runId ≤ bound := by
  unfold nextSequence
  rcases foldl_max_mem ((ofRun runId register.rows).map (·.sequence)) 0 with hzero | hmem
  · omega
  · obtain ⟨row, hrow, hseq⟩ := List.mem_map.mp hmem
    have hlt := h row (mem_ofRun.mp hrow).1 (mem_ofRun.mp hrow).2
    omega

/-! ### Reading -/

theorem mem_listEvents {runId : String} {afterSequence : Nat} {limit : Option Nat} {row : TraceRow}
    (h : row ∈ register.listEvents runId afterSequence limit) :
    row ∈ register.rows ∧ row.runId = runId ∧ afterSequence < row.sequence := by
  unfold listEvents at h
  have hmem : row ∈ ((ofRun runId register.rows).filter (afterSequence < ·.sequence)).insertionSort
      (·.sequence ≤ ·.sequence) := by
    cases limit with
    | none => exact h
    | some limit => exact List.mem_of_mem_take h
  rw [List.mem_insertionSort, List.mem_filter, mem_ofRun] at hmem
  exact ⟨hmem.1.1, hmem.1.2, by simpa using hmem.2⟩

/-- What a reading leaves out comes after everything it returned. -/
theorem listEvents_initial {runId : String} {afterSequence : Nat} (limit : Option Nat)
    {row : TraceRow} (hrow : row ∈ register.rows) (hrun : row.runId = runId)
    (hafter : afterSequence < row.sequence) :
    row ∈ register.listEvents runId afterSequence limit ∨
      ∀ other ∈ register.listEvents runId afterSequence limit, other.sequence ≤ row.sequence := by
  unfold listEvents
  have hmem : row ∈ ((ofRun runId register.rows).filter (afterSequence < ·.sequence)).insertionSort
      (·.sequence ≤ ·.sequence) := by
    rw [List.mem_insertionSort, List.mem_filter, mem_ofRun]
    exact ⟨⟨hrow, hrun⟩, by simpa using hafter⟩
  cases limit with
  | none => exact Or.inl hmem
  | some limit =>
    have hsorted := List.pairwise_insertionSort (fun a b : TraceRow => a.sequence ≤ b.sequence)
      ((ofRun runId register.rows).filter (afterSequence < ·.sequence))
    rw [← List.take_append_drop limit (List.insertionSort _ _), List.mem_append] at hmem
    rw [← List.take_append_drop limit (List.insertionSort _ _), List.pairwise_append] at hsorted
    rcases hmem with hmem | hmem
    · exact Or.inl hmem
    · exact Or.inr fun other hother => hsorted.2.2 other hother row hmem

/-! ### Runs that keep the newest events -/

/-- What every step keeps as long as newest events are kept. -/
structure TraceInv (register : TraceRegister) : Prop where
  grow : register.SequencesGrow
  stored : ∀ row ∈ register.rows, row ∈ register.appended
  seen : ∀ reader ∈ register.readers, ∀ row ∈ reader.seen,
    row ∈ register.appended ∧ row.runId = reader.runId
  passed : ∀ reader ∈ register.readers, ∀ row ∈ register.rows, row.runId = reader.runId →
    row.sequence ≤ reader.cursor → row ∈ reader.seen
  cursor : ∀ reader ∈ register.readers, reader.cursor = 0 ∨
    ∃ row ∈ register.appended, row.runId = reader.runId ∧ row.sequence = reader.cursor
  positive : ∀ row ∈ register.appended, 0 < row.sequence

/-- Two rows of a run under one sequence are one row. -/
theorem SequencesGrow.unique (h : register.SequencesGrow) {a b : TraceRow}
    (ha : a ∈ register.appended) (hb : b ∈ register.appended) (hrun : a.runId = b.runId)
    (hsequence : a.sequence = b.sequence) : a = b := by
  by_contra hne
  have hlt : a.sequence < b.sequence ∨ b.sequence < a.sequence :=
    List.Pairwise.forall_of_forall_of_flip (R := fun a b => a.runId = b.runId → a ≠ b →
        a.sequence < b.sequence ∨ b.sequence < a.sequence)
      (fun _ _ _ hne => absurd rfl hne)
      (h.imp fun hlt hrun _ => Or.inl (hlt hrun))
      (h.imp fun hlt hrun _ => Or.inr (hlt hrun.symm)) ha hb hrun hne
  omega

/-- The newest event of a run has its highest sequence. -/
theorem SequencesGrow.le_newest (h : register.SequencesGrow) {row : TraceRow}
    (hrow : row ∈ register.appended) :
    ∃ newest, register.newest? row.runId = some newest ∧ row.sequence ≤ newest.sequence := by
  have hmem : row ∈ ofRun row.runId register.appended := mem_ofRun.mpr ⟨hrow, rfl⟩
  have hne : ofRun row.runId register.appended ≠ [] := List.ne_nil_of_mem hmem
  refine ⟨_, List.getLast?_eq_some_getLast hne, ?_⟩
  have hsublist : (ofRun row.runId register.appended).Pairwise
      fun a b => a.runId = b.runId → a.sequence < b.sequence := List.Pairwise.filter _ h
  have hlast := List.getLast_mem hne
  rw [← List.dropLast_append_getLast hne] at hmem hsublist
  rcases List.mem_append.mp hmem with hmem | hmem
  · have hlt := (List.pairwise_append.mp hsublist).2.2 row hmem _ (List.mem_singleton_self _)
    exact (hlt (mem_ofRun.mp hlast).2.symm).le
  · exact (congrArg TraceRow.sequence (List.mem_singleton.mp hmem)).le

/-- With its newest event stored, a run gets a sequence above all it ever had. -/
theorem TraceInv.lt_nextSequence (h : TraceInv register) {runId : String} {event : AgentTraceEvent}
    {now : String} (hkept : newestKept register (.append runId event now)) {row : TraceRow}
    (hrow : row ∈ register.appended) (hrun : row.runId = runId) :
    row.sequence < register.nextSequence runId := by
  obtain ⟨newest, hnewest, hle⟩ := h.grow.le_newest hrow
  rw [hrun] at hnewest
  have hmem := (mem_ofRun.mp (List.mem_of_getLast? hnewest)).2
  exact hle.trans_lt (TraceRegister.lt_nextSequence (hkept newest hnewest) hmem)

/-- Deleting rows keeps the invariant. -/
private theorem TraceInv.delete (h : TraceInv register) {rows : List TraceRow}
    (hrows : ∀ row ∈ rows, row ∈ register.rows) : TraceInv { register with rows } where
  grow := h.grow
  stored row hrow := h.stored row (hrows row hrow)
  seen := h.seen
  passed reader hreader row hrow := h.passed reader hreader row (hrows row hrow)
  cursor := h.cursor
  positive := h.positive

private theorem TraceInv.append (h : TraceInv register) {runId : String} {event : AgentTraceEvent}
    {now : String} (hkept : newestKept register (.append runId event now)) :
    TraceInv (register.appendEvent runId event now) where
  grow := by
    refine List.pairwise_append.mpr ⟨h.grow, List.pairwise_singleton _ _, fun row hrow new hnew => ?_⟩
    rw [List.mem_singleton.mp hnew]
    exact h.lt_nextSequence hkept hrow
  stored row hrow := by
    rcases List.mem_append.mp hrow with hrow | hrow
    · exact List.mem_append_left _ (h.stored row hrow)
    · exact List.mem_append_right _ hrow
  seen reader hreader row hrow :=
    ⟨List.mem_append_left _ (h.seen reader hreader row hrow).1, (h.seen reader hreader row hrow).2⟩
  passed reader hreader row hrow hrun hle := by
    rcases List.mem_append.mp hrow with hrow | hrow
    · exact h.passed reader hreader row hrow hrun hle
    · -- The new row is above the cursor, which some row of the run had.
      rw [List.mem_singleton] at hrow
      subst hrow
      have hnext : (register.newRow runId event now).sequence = register.nextSequence runId := rfl
      rw [hnext] at hle
      have hpos : 0 < register.nextSequence runId := Nat.succ_pos _
      rcases h.cursor reader hreader with hzero | ⟨last, hlast, hlastRun, hlastSeq⟩
      · omega
      · have hlt := h.lt_nextSequence hkept hlast (hlastRun.trans hrun.symm)
        omega
  cursor reader hreader := by
    rcases h.cursor reader hreader with hzero | ⟨last, hlast, hlastRun, hlastSeq⟩
    · exact Or.inl hzero
    · exact Or.inr ⟨last, List.mem_append_left _ hlast, hlastRun, hlastSeq⟩
  positive row hrow := by
    rcases List.mem_append.mp hrow with hrow | hrow
    · exact h.positive row hrow
    · rw [List.mem_singleton.mp hrow]
      exact Nat.succ_pos _

private theorem TraceInv.subscribe (h : TraceInv register) (runId : String) :
    TraceInv { register with readers := register.readers ++ [{ runId }] } where
  grow := h.grow
  stored := h.stored
  seen reader hreader row hrow := by
    rcases List.mem_append.mp hreader with hreader | hreader
    · exact h.seen reader hreader row hrow
    · rw [List.mem_singleton] at hreader
      subst hreader
      exact absurd hrow List.not_mem_nil
  passed reader hreader row hrow hrun hle := by
    rcases List.mem_append.mp hreader with hreader | hreader
    · exact h.passed reader hreader row hrow hrun hle
    · rw [List.mem_singleton] at hreader
      subst hreader
      exact absurd hle (by have := h.positive row (h.stored row hrow); simpa using this.ne')
  cursor reader hreader := by
    rcases List.mem_append.mp hreader with hreader | hreader
    · exact h.cursor reader hreader
    · rw [List.mem_singleton] at hreader
      subst hreader
      exact Or.inl rfl
  positive := h.positive

private theorem TraceInv.poll (h : TraceInv register) {index : Nat} {reader : TraceReader}
    (hreader : register.readers[index]? = some reader) (limit : Option Nat) :
    TraceInv { register with
      readers := register.readers.set index (register.poll reader limit) } := by
  have hmem : reader ∈ register.readers := List.mem_of_getElem? hreader
  have hcases : ∀ r ∈ register.readers.set index (register.poll reader limit),
      r ∈ register.readers ∨ r = register.poll reader limit := fun r hr =>
    List.mem_or_eq_of_mem_set hr
  refine ⟨h.grow, h.stored, fun r hr row hrow => ?_, fun r hr row hrow hrun hle => ?_,
    fun r hr => ?_, h.positive⟩
  · rcases hcases r hr with hr | rfl
    · exact h.seen r hr row hrow
    · rcases List.mem_append.mp hrow with hrow | hrow
      · exact h.seen reader hmem row hrow
      · obtain ⟨hstored, hrun, -⟩ := mem_listEvents hrow
        exact ⟨h.stored row hstored, hrun⟩
  · rcases hcases r hr with hr | rfl
    · exact h.passed r hr row hrow hrun hle
    · by_cases hold : row.sequence ≤ reader.cursor
      · exact List.mem_append_left _ (h.passed reader hmem row hrow hrun hold)
      · refine List.mem_append_right _ ?_
        rcases listEvents_initial limit hrow hrun (Nat.lt_of_not_le hold) with hin | hafter
        · exact hin
        · -- The row is not above the last one returned, so it is that one.
          cases hlast : (register.listEvents reader.runId reader.cursor limit).getLast? with
          | none =>
            simp only [TraceRegister.poll, hlast, Option.map_none, Option.getD_none] at hle
            exact absurd hle hold
          | some last =>
            have hlastMem := List.mem_of_getLast? hlast
            simp only [TraceRegister.poll, hlast, Option.map_some, Option.getD_some] at hle
            obtain ⟨hstored, hlastRun, -⟩ := mem_listEvents hlastMem
            have heq : row = last := h.grow.unique (h.stored row hrow) (h.stored last hstored)
              (hrun.trans hlastRun.symm) (le_antisymm hle (hafter last hlastMem))
            rw [heq]
            exact hlastMem
  · rcases hcases r hr with hr | rfl
    · exact h.cursor r hr
    · cases hlast : (register.listEvents reader.runId reader.cursor limit).getLast? with
      | none => simpa [TraceRegister.poll, hlast] using h.cursor reader hmem
      | some last =>
        obtain ⟨hstored, hlastRun, -⟩ := mem_listEvents (List.mem_of_getLast? hlast)
        exact Or.inr ⟨last, h.stored last hstored, hlastRun, by simp [TraceRegister.poll, hlast]⟩

theorem TraceInv.step (h : TraceInv register) (hkept : newestKept register op)
    (hstep : register.step op = some register') : TraceInv register' := by
  cases op with
  | append runId event now =>
    cases hstep
    exact h.append hkept
  | prune olderThan keepLatest =>
    cases hstep
    refine h.delete fun row hrow => ?_
    have hold : ∀ row ∈ (match olderThan with
        | some olderThan => register.rows.filter fun row : TraceRow => ¬row.createdAt < olderThan
        | none => register.rows), row ∈ register.rows := fun row hrow => by
      cases olderThan with
      | none => exact hrow
      | some olderThan => exact List.mem_of_mem_filter hrow
    cases keepLatest with
    | none => exact hold row hrow
    | some keepLatest => exact hold row (List.mem_of_mem_drop hrow)
  | clear runId =>
    cases hstep
    exact h.delete fun row hrow => List.mem_of_mem_filter hrow
  | subscribe runId =>
    cases hstep
    exact h.subscribe runId
  | poll index limit =>
    obtain ⟨reader, hreader, rfl⟩ := Option.map_eq_some_iff.mp hstep
    exact h.poll hreader limit

theorem TraceInv.law (h : TraceInv register) : TraceLaw register where
  grow := h.grow
  notMissed reader hreader row hrow hrun hunseen :=
    Nat.lt_of_not_le fun hle => hunseen (h.passed reader hreader row hrow hrun hle)
  notConfused reader hreader a ha b hb hsequence := by
    obtain ⟨ha, hrunA⟩ := h.seen reader hreader a ha
    obtain ⟨hb, hrunB⟩ := h.seen reader hreader b hb
    exact h.grow.unique ha hb (hrunA.trans hrunB.symm) hsequence

theorem traceInv_empty : TraceInv {} := by
  constructor <;> simp [SequencesGrow]

/-! ### Runs that do not -/

/-- Nothing appended is ever forgotten by the history. -/
private theorem appended_step (hstep : register.step op = some register') :
    register.appended <+: register'.appended := by
  cases op with
  | append runId event now =>
    cases hstep
    exact List.prefix_append _ _
  | poll index limit =>
    obtain ⟨reader, -, rfl⟩ := Option.map_eq_some_iff.mp hstep
    exact List.prefix_rfl
  | prune _ _ | clear _ | subscribe _ =>
    cases hstep
    exact List.prefix_rfl

private theorem appended_run {ops : List TraceOp}
    (hrun : TransitionSystem.run step register ops = some register') :
    register.appended <+: register'.appended :=
  TransitionSystem.run_rel (R := fun s t => s.appended <+: t.appended) (fun _ => List.prefix_rfl)
    List.IsPrefix.trans (fun _ _ _ hstep => appended_step hstep) hrun

/-- Without the newest event, the next sequence is one the run had already. -/
private theorem newestKept_of_grow (h : TraceInv register) {runId : String}
    {event : AgentTraceEvent} {now : String}
    (hgrow : (register.appendEvent runId event now).SequencesGrow) :
    newestKept register (.append runId event now) := by
  intro newest hnewest
  by_contra hgone
  have hmem := mem_ofRun.mp (List.mem_of_getLast? hnewest)
  have hnew := (List.pairwise_append.mp hgrow).2.2 newest hmem.1 _ (List.mem_singleton_self _) hmem.2
  have hle : register.nextSequence runId ≤ newest.sequence := by
    refine nextSequence_le (fun row hrow hrun => ?_) (h.positive newest hmem.1)
    obtain ⟨top, htop, hle⟩ := h.grow.le_newest (h.stored row hrow)
    rw [hrun] at htop
    obtain rfl : newest = top := Option.some.inj (hnewest.symm.trans htop)
    refine lt_of_le_of_ne hle fun heq => hgone ?_
    have hsame := h.grow.unique (h.stored row hrow) hmem.1 (hrun.trans hmem.2.symm) heq
    exact hsame ▸ hrow
  have hseq : (register.newRow runId event now).sequence = register.nextSequence runId := rfl
  omega

private theorem along_of_grow {ops : List TraceOp} (h : TraceInv register)
    (hrun : TransitionSystem.run step register ops = some register')
    (hgrow : register'.SequencesGrow) :
    TransitionSystem.Along step newestKept register ops := by
  induction ops generalizing register with
  | nil => trivial
  | cons op ops ih =>
    obtain ⟨middle, hstep, hrest⟩ := TransitionSystem.run_cons_eq_some.mp hrun
    have hmiddle : middle.SequencesGrow := hgrow.sublist (appended_run hrest).sublist
    have hkept : newestKept register op := by
      cases op with
      | append runId event now =>
        cases hstep
        exact newestKept_of_grow h hmiddle
      | prune _ _ | clear _ | subscribe _ | poll _ _ => trivial
    simp only [TransitionSystem.Along, hstep]
    exact ⟨hkept, ih (h.step hkept hstep) hrest⟩

/-- **Journals are safe to follow exactly when no newest event is pruned before an append.** -/
theorem traceLaw_iff {ops : List TraceOp}
    (hrun : TransitionSystem.run step {} ops = some register) :
    TraceLaw register ↔ TransitionSystem.Along step newestKept {} ops := by
  constructor
  · exact fun hlaw => along_of_grow traceInv_empty hrun hlaw.grow
  · exact fun hkept => (TransitionSystem.run_invariant_of_along
      (fun _ _ _ h hkept hstep => h.step hkept hstep) traceInv_empty hrun hkept).law

/-! ### A journal that starts again -/

private def traced (eventType : AgentTraceEventType) : AgentTraceEvent := { eventType }

/-- A reader has seen the first event; it is pruned by its age, and the next event comes under the
same sequence. -/
private def prunedRun : List TraceOp := [
  .append "run" (traced .runStarted) "2026-01-01", .subscribe "run", .poll 0 none,
  .prune (some "2026-02-01") none, .append "run" (traced .runPaused) "2026-02-02", .poll 0 none]

/-- An older event of the run is pruned while its newest one stays. -/
private def keptRun : List TraceOp := [
  .append "run" (traced .runStarted) "2026-01-01", .append "run" (traced .runPaused) "2026-02-02",
  .subscribe "run", .poll 0 (some 1), .prune (some "2026-02-01") none,
  .append "run" (traced .runStopped) "2026-02-03", .poll 0 none]

theorem traceLaw_keptRun :
    TraceLaw (TransitionSystem.reached step {} keptRun (by decide)) :=
  (traceLaw_iff (TransitionSystem.run_reached (by decide))).mpr (by decide)

theorem not_traceLaw_prunedRun : ¬∀ ops register,
    TransitionSystem.run step {} ops = some register → TraceLaw register := by
  intro h
  have hlaw := h prunedRun _ (TransitionSystem.run_reached (by decide))
  exact absurd hlaw.grow (by unfold SequencesGrow; decide)

end TraceRegister

end EvernightAI

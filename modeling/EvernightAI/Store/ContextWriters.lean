import EvernightAI.Store.Register
import EvernightAI.Lib.TransitionSystem
import Mathlib.Data.Finset.Basic

/-!
# Writers of one context

Several callers read and write one context, each register call being one transaction: appends that
may name the revision they expect, replacements of the whole history, and retry marking — which reads
the context in one call and replaces it in another.

Only an append moves the revision. A replacement stores the revision it is given, so that an append
can expect a revision under which the history has been rewritten; and a retry marking writes back the
list it read, without the messages appended in between.

* `AppendsAsRead`: an append that expected a revision found the messages its caller had read there.
* `NothingLost`: an appended message is stored, or a replacement was applied to a list that had it.
-/

namespace EvernightAI

/-- A row of `contexts`. The appended messages are told apart by marks, beside the messages; a
message a caller wrote has none. -/
structure ContextRow where
  context : Context
  marks : List (Option Nat) := []
  deriving DecidableEq

/-- A retry marking between its read and its write. -/
structure PendingRetry where
  row : ContextRow
  index : Nat
  deriving DecidableEq

/-- An append that named the revision it expected: what its caller had read at that revision, and
what was stored. -/
structure AcceptedAppend where
  read : List (List Content)
  stored : List Content
  deriving DecidableEq

/-- The context and those who write it. -/
structure ContextWorld where
  row : Option ContextRow := none
  reads : List (Nat × Context) := []
  retries : List PendingRetry := []
  accepted : List AcceptedAppend := []
  nextMark : Nat := 0
  replaced : List Nat := []
  deriving DecidableEq

inductive ContextOp
  /-- a caller gets the context -/
  | read (caller : Nat)
  /-- `append_message` -/
  | append (caller : Nat) (message : Content) (expectedRevision : Option Nat)
  /-- `register`, by `create` -/
  | register (context : Context)
  /-- `replace` -/
  | replace (context : Context)
  /-- `unregister` -/
  | unregister
  /-- `mark_retry_messages` up to its checks -/
  | retryRead (index : Nat)
  /-- the replacement of a retry marking -/
  | retryWrite (retry : Nat)
  deriving DecidableEq

/-- `_ensure_retry_target` -/
def retryTarget (message : Content) : Bool :=
  message.role = .assistant && (message.status = none || message.status = some .active)

/-- `_mark_context_retry_messages` -/
def markContextRetryMessages (context : Context) (retryFromIndex : Nat) : Context :=
  { context with
    messages := context.messages.mapIdx fun index message =>
      if index < retryFromIndex then message else { message with status := some .rejected } }

namespace ContextWorld

variable (world : ContextWorld)

/-- The marks of the messages that are stored. -/
def storedMarks : List Nat :=
  match world.row with
  | some row => row.marks.filterMap id
  | none => []

/-- The row of a history a caller wrote. -/
def written (context : Context) : ContextRow where
  context
  marks := context.messages.map fun _ => none

/-- An explicit replacement of whatever is stored. -/
def put (context : Context) : ContextWorld :=
  { world with row := some (written context), replaced := world.replaced ++ world.storedMarks }

def step (world : ContextWorld) : ContextOp → Option ContextWorld
  | .read caller => world.row.map fun row =>
      { world with reads := world.reads ++ [(caller, row.context)] }
  | .append caller message expectedRevision =>
    match world.row with
    | none => some world
    | some row =>
      if expectedRevision.any (· ≠ row.context.revision) then some world
      else some { world with
        row := some {
          context := row.context.withMessage message
          marks := row.marks ++ [some world.nextMark] }
        nextMark := world.nextMark + 1
        accepted := match expectedRevision with
          | some revision => world.accepted ++ [{
              read := (world.reads.filter fun read =>
                read.1 = caller && read.2.revision = revision).map (·.2.messages)
              stored := row.context.messages }]
          | none => world.accepted }
  | .register context => some (world.put context)
  | .replace context => world.row.map fun _ => world.put context
  | .unregister => world.row.map fun _ =>
      { world with row := none, replaced := world.replaced ++ world.storedMarks }
  | .retryRead index =>
    match world.row with
    | none => none
    | some row =>
      if (row.context.messages[index]?).any retryTarget then
        some { world with retries := world.retries ++ [{ row, index }] }
      else none
  | .retryWrite retry =>
    match world.retries[retry]?, world.row with
    | some pending, some _ => some { world with
        row := some { pending.row with
          context := markContextRetryMessages pending.row.context pending.index }
        retries := world.retries.eraseIdx retry
        replaced := world.replaced ++ pending.row.marks.filterMap id }
    | some _, none => some { world with retries := world.retries.eraseIdx retry }
    | none, _ => none

/-! ### The claims of a register -/

/-- An append that expected a revision found what its caller had read there. -/
def AppendsAsRead : Prop :=
  ∀ append ∈ world.accepted, ∀ messages ∈ append.read, append.stored = messages

/-- An appended message is stored, or was replaced with a list that had it. -/
def NothingLost : Prop :=
  ∀ mark < world.nextMark, mark ∈ world.storedMarks ∨ mark ∈ world.replaced

/-- **The optimistic register.** -/
structure OptimisticRegister : Prop where
  appendsAsRead : world.AppendsAsRead
  nothingLost : world.NothingLost

/-- No caller has read other messages at this revision, or read a later one. -/
def Unread (context : Context) : Prop :=
  ∀ read ∈ world.reads, read.2.revision ≤ context.revision ∧
    (read.2.revision = context.revision → read.2.messages = context.messages)

/-- **Replacements that are safe.** What is written was read by nobody under its revision as
anything else; and a retry marking writes back a list that has every message stored meanwhile. -/
def replacesSafely (world : ContextWorld) : ContextOp → Prop
  | .register context => world.Unread context
  | .replace context => world.Unread context
  | .retryWrite retry => ∀ pending ∈ world.retries[retry]?, world.row ≠ none →
      world.Unread (markContextRetryMessages pending.row.context pending.index) ∧
      ∀ mark ∈ world.storedMarks, some mark ∈ pending.row.marks
  | _ => True

instance (world : ContextWorld) (context : Context) : Decidable (world.Unread context) :=
  inferInstanceAs (Decidable (∀ read ∈ world.reads, _))

instance (world : ContextWorld) (op : ContextOp) : Decidable (world.replacesSafely op) :=
  match op with
  | .register context => inferInstanceAs (Decidable (world.Unread context))
  | .replace context => inferInstanceAs (Decidable (world.Unread context))
  | .retryWrite retry => inferInstanceAs (Decidable (∀ pending ∈ world.retries[retry]?, _ → _))
  | .read _ | .append _ _ _ | .unregister | .retryRead _ => inferInstanceAs (Decidable True)

/-! ### Safe replacements make an optimistic register -/

/-- What every safe step keeps. -/
structure ContextInv (world : ContextWorld) : Prop where
  optimistic : world.OptimisticRegister
  /-- What is stored was read by nobody under its revision as anything else. -/
  unread : ∀ row, world.row = some row → world.Unread row.context

variable {world} {world' : ContextWorld} {op : ContextOp}

@[simp] theorem storedMarks_some {row : ContextRow} (h : world.row = some row) :
    world.storedMarks = row.marks.filterMap id := by rw [storedMarks, h]

/-- A replacement of a list that had every stored message loses none. -/
private theorem NothingLost.replace (h : world.NothingLost) {row : Option ContextRow}
    {retries : List PendingRetry} {marks : List Nat}
    (hmarks : ∀ mark ∈ world.storedMarks, mark ∈ marks) :
    NothingLost { world with row, retries, replaced := world.replaced ++ marks } := by
  intro mark hmark
  refine Or.inr (List.mem_append.mpr ?_)
  rcases h mark hmark with hstored | hreplaced
  · exact Or.inr (hmarks mark hstored)
  · exact Or.inl hreplaced

private theorem ContextInv.put (h : ContextInv world) {context : Context}
    (hunread : world.Unread context) : ContextInv (world.put context) where
  optimistic := ⟨h.optimistic.appendsAsRead, h.optimistic.nothingLost.replace fun _ hmark => hmark⟩
  unread row hrow := by
    cases hrow
    exact hunread

private theorem ContextInv.append (h : ContextInv world) {row : ContextRow}
    (hrow : world.row = some row) (message : Content) (accepted : List AcceptedAppend)
    (haccepted : ∀ append ∈ accepted, ∀ messages ∈ append.read, append.stored = messages) :
    ContextInv { world with
      row := some {
        context := row.context.withMessage message, marks := row.marks ++ [some world.nextMark] }
      nextMark := world.nextMark + 1
      accepted } where
  optimistic := by
    refine ⟨haccepted, fun mark hmark => ?_⟩
    rw [storedMarks_some rfl, List.filterMap_append]
    rcases Nat.lt_succ_iff_lt_or_eq.mp hmark with hlt | rfl
    · rcases h.optimistic.nothingLost mark hlt with hstored | hreplaced
      · rw [storedMarks_some hrow] at hstored
        exact Or.inl (List.mem_append_left _ hstored)
      · exact Or.inr hreplaced
    · exact Or.inl (List.mem_append_right _ (by simp))
  unread new hnew read hread := by
    cases hnew
    -- Every read is at most as late as the row was; the new revision is later.
    obtain ⟨hle, -⟩ := h.unread row hrow read hread
    have hrevision : (row.context.withMessage message).revision = row.context.revision + 1 := rfl
    refine ⟨?_, fun heq => ?_⟩
    · rw [hrevision]
      omega
    · rw [hrevision] at heq
      omega

theorem ContextInv.step (h : ContextInv world) (hsafe : world.replacesSafely op)
    (hstep : world.step op = some world') : ContextInv world' := by
  cases op with
  | read caller =>
    obtain ⟨row, hrow, rfl⟩ := Option.map_eq_some_iff.mp hstep
    refine ⟨⟨h.optimistic.appendsAsRead, h.optimistic.nothingLost⟩,
      fun row' hrow' read hread => ?_⟩
    obtain rfl : row = row' := Option.some.inj (hrow.symm.trans hrow')
    rcases List.mem_append.mp hread with hread | hread
    · exact h.unread row hrow read hread
    · rw [List.mem_singleton.mp hread]
      exact ⟨le_refl _, fun _ => rfl⟩
  | append caller message expectedRevision =>
    simp only [ContextWorld.step] at hstep
    cases hrow : world.row with
    | none =>
      simp only [hrow] at hstep
      cases hstep
      exact h
    | some row =>
      simp only [hrow] at hstep
      split at hstep
      · cases hstep
        exact h
      next hexpected =>
      cases hstep
      refine h.append hrow message _ ?_
      cases expectedRevision with
      | none => exact h.optimistic.appendsAsRead
      | some revision =>
        have hrevision : revision = row.context.revision := by simpa using hexpected
        intro append happend messages hmessages
        rcases List.mem_append.mp happend with happend | happend
        · exact h.optimistic.appendsAsRead append happend messages hmessages
        · rw [List.mem_singleton] at happend
          subst happend
          obtain ⟨read, hread, rfl⟩ := List.mem_map.mp hmessages
          obtain ⟨hread, hcaller⟩ := List.mem_filter.mp hread
          have hat : read.2.revision = revision := by
            simpa using (Bool.and_eq_true_iff.mp hcaller).2
          exact ((h.unread row hrow read hread).2 (hat.trans hrevision)).symm
  | register context =>
    cases hstep
    exact h.put hsafe
  | replace context =>
    obtain ⟨row, -, rfl⟩ := Option.map_eq_some_iff.mp hstep
    exact h.put hsafe
  | unregister =>
    obtain ⟨row, -, rfl⟩ := Option.map_eq_some_iff.mp hstep
    exact ⟨⟨h.optimistic.appendsAsRead, h.optimistic.nothingLost.replace fun _ hmark => hmark⟩,
      fun _ hrow => by cases hrow⟩
  | retryRead index =>
    simp only [ContextWorld.step] at hstep
    split at hstep
    · cases hstep
    · split at hstep
      · cases hstep
        exact ⟨⟨h.optimistic.appendsAsRead, h.optimistic.nothingLost⟩, h.unread⟩
      · cases hstep
  | retryWrite retry =>
    simp only [ContextWorld.step] at hstep
    split at hstep
    · next pending row hpending hrow =>
      cases hstep
      obtain ⟨hunread, hmarks⟩ := hsafe pending hpending (by simp [hrow])
      refine ⟨⟨h.optimistic.appendsAsRead, h.optimistic.nothingLost.replace fun mark hmark => ?_⟩,
        fun new hnew => ?_⟩
      · exact List.mem_filterMap.mpr ⟨_, hmarks mark hmark, rfl⟩
      · cases hnew
        exact hunread
    · cases hstep
      exact ⟨⟨h.optimistic.appendsAsRead, h.optimistic.nothingLost⟩, h.unread⟩
    · cases hstep

theorem contextInv_empty : ContextInv {} where
  optimistic := ⟨fun _ h => absurd h List.not_mem_nil, fun _ h => absurd h (Nat.not_lt_zero _)⟩
  unread _ h := by cases h

/-- **A context is an optimistic register** in every run whose replacements are safe. -/
theorem optimisticRegister_of_replacesSafely {ops : List ContextOp}
    (hrun : TransitionSystem.run step {} ops = some world)
    (hsafe : TransitionSystem.Along step replacesSafely {} ops) : world.OptimisticRegister :=
  (TransitionSystem.run_invariant_of_along (fun _ _ _ h hgood hstep => h.step hgood hstep)
    contextInv_empty hrun hsafe).optimistic

/-! ### Retry markings -/

private def question : Content := { role := .user }

private def answer : Content := { role := .assistant }

private def opened : List ContextOp := [
  .register { contextId := "context" }, .append 0 question none, .append 0 answer (some 1)]

/-- A retry marking that nobody else read or wrote around, then an append at the revision read after
it. -/
private def retried : List ContextOp :=
  opened ++ [.retryRead 1, .retryWrite 0, .read 1, .append 1 question (some 2)]

/-- Caller 1 reads revision 2; the answer is marked as rejected, under the same revision; the append
that expects revision 2 goes through. -/
private def rewritten : List ContextOp :=
  opened ++ [.read 1, .retryRead 1, .retryWrite 0, .append 1 question (some 2)]

theorem optimisticRegister_retried :
    (TransitionSystem.reached step {} retried (by decide)).OptimisticRegister :=
  optimisticRegister_of_replacesSafely (TransitionSystem.run_reached (by decide)) (by decide)

theorem not_optimisticRegister : ¬∀ ops world,
    TransitionSystem.run step {} ops = some world → world.OptimisticRegister := by
  intro h
  have hrewritten := h rewritten _ (TransitionSystem.run_reached (by decide))
  exact absurd hrewritten.appendsAsRead (by unfold AppendsAsRead; decide)

-- A message appended while a retry is marked is lost without any revision being expected.
example :
    ¬(TransitionSystem.reached step {}
      (opened ++ [.retryRead 1, .append 1 question none, .retryWrite 0]) (by decide)).NothingLost := by
  unfold NothingLost
  decide

end ContextWorld

end EvernightAI

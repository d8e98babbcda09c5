import EvernightAI.Lib.StatefulProgram

/-!
# A database connection with savepoints

The documented meaning of the transaction statements of an embedded database, for contents of any
type `δ`. A connection sees the durable contents, or, in a transaction, a working copy with a
stack of savepoints.

* A statement that fails changes nothing, or, for some errors, rolls the whole transaction back.
* `ROLLBACK TO` restores a savepoint and keeps it; `RELEASE` forgets it and what was set after it. Both
  name the innermost savepoint of that name.
* A `COMMIT` that fails leaves the transaction open, to be tried again, or rolls it back.
* The driver's `commit` and `rollback` do nothing outside a transaction.
-/

namespace Savepoints

/-- A transaction: its working copy, and its savepoints from the innermost. -/
structure Transaction (δ : Type) where
  contents : δ
  savepoints : List (String × δ) := []
  deriving DecidableEq

structure Connection (δ : Type) where
  durable : δ
  transaction : Option (Transaction δ) := none
  deriving DecidableEq

variable {δ : Type}

/-- Whether a transaction is open. -/
def Connection.inTransaction (c : Connection δ) : Bool := c.transaction.isSome

/-- The contents that a statement sees. -/
def Connection.contents (c : Connection δ) : δ :=
  match c.transaction with
  | some t => t.contents
  | none => c.durable

/-- Why a database call raised. -/
inductive Fault
  | nestedBegin
  | noTransaction
  | noSavepoint
  | refused
  | statement
  | commit
  | body
  deriving DecidableEq, Repr

/-- A program on a connection. -/
abbrev SqlM (δ : Type) := EStateM Fault (Connection δ)

/-- What a statement does to the contents it sees. -/
inductive Outcome (δ : Type)
  | done (contents : δ)
  | aborts
  | rollsBack

/-- How a `COMMIT` ends. -/
inductive CommitOutcome
  | done
  | staysOpen
  | rollsBack
  deriving DecidableEq, Repr

/-! ### The statements -/

/-- A statement; outside a transaction it is one of its own. -/
def execute (statement : δ → Outcome δ) : SqlM δ Unit := fun c =>
  match c.transaction, statement c.contents with
  | none, .done d => .ok () { c with durable := d }
  | some t, .done d => .ok () { c with transaction := some { t with contents := d } }
  | _, .aborts => .error .statement c
  | _, .rollsBack => .error .statement { c with transaction := none }

/-- `BEGIN` -/
def begin : SqlM δ Unit := fun c =>
  match c.transaction with
  | some _ => .error .nestedBegin c
  | none => .ok () { c with transaction := some { contents := c.durable } }

/-- `SAVEPOINT`, inside a transaction. -/
def savepoint (name : String) : SqlM δ Unit := fun c =>
  match c.transaction with
  | none => .error .noTransaction c
  | some t =>
    .ok () { c with transaction := some { t with savepoints := (name, t.contents) :: t.savepoints } }

/-- The savepoints from the innermost one of a name on. -/
def savepointsFrom (name : String) (savepoints : List (String × δ)) : List (String × δ) :=
  savepoints.dropWhile fun s => s.1 != name

/-- `ROLLBACK TO` -/
def rollbackTo (name : String) : SqlM δ Unit := fun c =>
  match c.transaction with
  | none => .error .noSavepoint c
  | some t =>
    match savepointsFrom name t.savepoints with
    | [] => .error .noSavepoint c
    | s :: rest =>
      .ok () { c with transaction := some { contents := s.2, savepoints := s :: rest } }

/-- `RELEASE`, inside a transaction that `BEGIN` opened. -/
def release (name : String) : SqlM δ Unit := fun c =>
  match c.transaction with
  | none => .error .noSavepoint c
  | some t =>
    match savepointsFrom name t.savepoints with
    | [] => .error .noSavepoint c
    | _ :: rest => .ok () { c with transaction := some { t with savepoints := rest } }

/-- `connection.commit()` -/
def commit (outcome : CommitOutcome) : SqlM δ Unit := fun c =>
  match c.transaction, outcome with
  | none, _ => .ok () c
  | some t, .done => .ok () { durable := t.contents }
  | some _, .staysOpen => .error .commit c
  | some _, .rollsBack => .error .commit { c with transaction := none }

/-- `connection.rollback()` -/
def rollback : SqlM δ Unit := fun c => .ok () { c with transaction := none }

/-! ### The innermost savepoint -/

section Innermost

variable {durable d : δ} {name : String} {saved : δ} {rest : List (String × δ)}

theorem savepointsFrom_cons : savepointsFrom name ((name, saved) :: rest) = (name, saved) :: rest := by
  rw [savepointsFrom, List.dropWhile_cons]
  simp

/-- Rolling back to the innermost savepoint restores what it saved. -/
theorem rollbackTo_innermost :
    rollbackTo name ⟨durable, some ⟨d, (name, saved) :: rest⟩⟩ =
      .ok () ⟨durable, some ⟨saved, (name, saved) :: rest⟩⟩ := by
  simp only [rollbackTo, savepointsFrom_cons]

/-- Releasing the innermost savepoint keeps the contents. -/
theorem release_innermost :
    release name ⟨durable, some ⟨d, (name, saved) :: rest⟩⟩ = .ok () ⟨durable, some ⟨d, rest⟩⟩ := by
  simp only [release, savepointsFrom_cons]

end Innermost

end Savepoints

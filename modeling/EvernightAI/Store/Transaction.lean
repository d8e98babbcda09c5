import EvernightAI.Lib.Savepoints

/-!
# Nested transactions

`sqlite_transaction` runs a block in a transaction, or, when the connection is in one already, in
a savepoint of it. A body runs statements, may catch what they raise, and may open further
blocks; `Body` is the tree of what it does, with the failures that happen at each place.

* `Body.effect` is what a body is for: a block that raises leaves no changes.
* `atomicBlock_iff` : a block is atomic exactly if it is not the outermost one with a `COMMIT` that
  fails and stays open.
* `durable_of_inTransaction` : on a connection left in a transaction no later block is durable.
-/

namespace EvernightAI

open StatefulProgram Savepoints

variable {δ : Type}

/-! ### The block -/

/-- A block: the name of its savepoint, and how its first and its last statement end. `BEGIN` and
`BEGIN IMMEDIATE` differ only in when they are refused. -/
structure TransactionBlock where
  savepoint : String
  opens : Bool := true
  commits : CommitOutcome := .done
  deriving DecidableEq, Repr

/-- The first statement of a block. -/
def TransactionBlock.opening (block : TransactionBlock) (statement : SqlM δ Unit) : SqlM δ Unit :=
  if block.opens then statement else throw .refused

/-- `with sqlite_transaction(connection): body` -/
def sqliteTransaction (block : TransactionBlock) (body : SqlM δ Unit) : SqlM δ Unit := do
  if (← get).inTransaction then
    block.opening (savepoint block.savepoint)
    andFinally (onRaise body (rollbackTo block.savepoint)) (release block.savepoint)
  else
    block.opening begin
    onRaise body rollback
    commit block.commits

/-! ### Bodies -/

/-- What a body does. A statement says what it makes of the contents it finds, and what comes next
may depend on what it left; `attempt` goes on whether or not the inner part raised. -/
inductive Body (δ : Type)
  | finish
  | raise
  | execute (statement : δ → Outcome δ) (next : δ → Body δ)
  | nested (block : TransactionBlock) (inner next : Body δ)
  | attempt (inner : Body δ) (next : Bool → Body δ)

namespace Body

/-- The body as a program. -/
def run : Body δ → SqlM δ Unit
  | finish => pure ()
  | raise => throw .body
  | execute statement next => do
    Savepoints.execute statement
    (next (← get).contents).run
  | nested block inner next => do
    sqliteTransaction block inner.run
    next.run
  | attempt inner next => fun c =>
    match inner.run c with
    | .ok _ c' => (next false).run c'
    | .error _ c' => (next true).run c'

/-- **What a body is for**: whether it raises, and the contents it leaves. The changes of a nested
block that raises are undone. -/
def effect : Body δ → δ → Bool × δ
  | finish, d => (false, d)
  | raise, d => (true, d)
  | execute statement next, d =>
    match statement d with
    | .done d' => (next d').effect d'
    | .aborts | .rollsBack => (true, d)
  | nested block inner next, d =>
    if block.opens = false ∨ (inner.effect d).1 then (true, d)
    else next.effect (inner.effect d).2
  | attempt inner next, d => (next (inner.effect d).1).effect (inner.effect d).2

/-- No statement that is run rolls the transaction back, unless what it raises ends the outermost
block. -/
def Safe : Body δ → (outermost : Bool) → δ → Prop
  | finish, _, _ => True
  | raise, _, _ => True
  | execute statement next, outermost, d =>
    match statement d with
    | .done d' => (next d').Safe outermost d'
    | .aborts => True
    | .rollsBack => outermost
  | nested block inner next, outermost, d => block.opens = true → inner.Safe false d ∧
    ((inner.effect d).1 = false → next.Safe outermost (inner.effect d).2)
  | attempt inner next, outermost, d =>
    inner.Safe false d ∧ (next (inner.effect d).1).Safe outermost (inner.effect d).2

end Body

/-! ### Atomicity -/

/-- The connection after a block that ended normally: its changes are kept, durably if the block was
the outermost. -/
def keeping (c : Connection δ) (d : δ) : Connection δ :=
  match c.transaction with
  | some t => { c with transaction := some { t with contents := d } }
  | none => { durable := d }

/-- **An atomic block.** It leaves the connection in a transaction exactly if it found it in one; if
it ends with an exception its changes are undone, else they are kept, less those of the nested blocks
that ended with one. -/
structure AtomicBlock (block : TransactionBlock) (body : Body δ) (c : Connection δ) : Prop where
  state : (after (sqliteTransaction block body.run) c).inTransaction = c.inTransaction
  undone : ∀ {e c'}, sqliteTransaction block body.run c = .error e c' →
    c'.contents = c.contents ∧ c'.durable = c.durable ∧
      c'.transaction.map (·.savepoints) = c.transaction.map (·.savepoints)
  kept : ∀ {c'}, sqliteTransaction block body.run c = .ok () c' →
    (body.effect c.contents).1 = false ∧ c' = keeping c (body.effect c.contents).2

/-! ### Blocks in a transaction -/

/-- What a program does in a transaction whose contents it leaves as `effect`. -/
inductive Follows (program : SqlM δ Unit) (durable : δ) (t : Transaction δ) (outermost : Bool)
    (effect : Bool × δ) : Prop
  | ended (heffect : effect.1 = false)
    (h : program ⟨durable, some t⟩ = .ok () ⟨durable, some { t with contents := effect.2 }⟩)
  | raised (heffect : effect.1 = true)
    (h : ∃ e, program ⟨durable, some t⟩ = .error e ⟨durable, some { t with contents := effect.2 }⟩)
  | lost (houtermost : outermost = true) (heffect : effect.1 = true)
    (h : ∃ e, program ⟨durable, some t⟩ = .error e ⟨durable, none⟩)

theorem sqliteTransaction_in {block : TransactionBlock} {body : SqlM δ Unit} {durable : δ}
    {t : Transaction δ} : sqliteTransaction block body ⟨durable, some t⟩ =
      (do
        block.opening (savepoint block.savepoint)
        andFinally (onRaise body (rollbackTo block.savepoint)) (release block.savepoint) : SqlM δ Unit)
        ⟨durable, some t⟩ := rfl

theorem sqliteTransaction_out {block : TransactionBlock} {body : SqlM δ Unit} {durable : δ} :
    sqliteTransaction block body ⟨durable, none⟩ =
      (do
        block.opening begin
        onRaise body rollback
        commit block.commits : SqlM δ Unit) ⟨durable, none⟩ := rfl

/-- **A block in a transaction.** Its savepoint is the innermost when its body has ended, so rolling
back to it undoes the body and nothing else. -/
theorem sqliteTransaction_follows (block : TransactionBlock) {body : SqlM δ Unit} (durable : δ)
    (t : Transaction δ) (effect : Bool × δ)
    (hbody : block.opens = true → ∀ savepoints,
      Follows body durable { t with savepoints } false effect) :
    Follows (sqliteTransaction block body) durable t false
      (if block.opens = false ∨ effect.1 then (true, t.contents) else effect) := by
  by_cases hopens : block.opens
  · have hopening : block.opening (savepoint block.savepoint) ⟨durable, some t⟩ = .ok ()
        ⟨durable, some { t with savepoints := (block.savepoint, t.contents) :: t.savepoints }⟩ := by
      rw [TransactionBlock.opening, if_pos hopens]
      rfl
    rcases hbody hopens ((block.savepoint, t.contents) :: t.savepoints) with
      ⟨heffect, h⟩ | ⟨heffect, e, h⟩ | ⟨houtermost, -, -⟩
    · rw [if_neg (by simp [hopens, heffect])]
      refine .ended heffect ?_
      rw [sqliteTransaction_in, bind_of_ok hopening, andFinally, onRaise, h]
      simp only [release_innermost]
    · rw [if_pos (Or.inr heffect)]
      refine .raised rfl ⟨e, ?_⟩
      rw [sqliteTransaction_in, bind_of_ok hopening, andFinally, onRaise, h]
      simp only [rollbackTo_innermost, release_innermost]
    · exact absurd houtermost Bool.false_ne_true
  · rw [if_pos (Or.inl (by simpa using hopens))]
    refine .raised rfl ⟨.refused, ?_⟩
    have hopening : block.opening (savepoint block.savepoint) ⟨durable, some t⟩ =
        .error .refused ⟨durable, some t⟩ := by
      rw [TransactionBlock.opening, if_neg hopens]
      rfl
    rw [sqliteTransaction_in, bind_of_error hopening]

/-- What follows a program that ended as it should. -/
theorem Follows.of_eq {program program' : SqlM δ Unit} {durable : δ} {t t' : Transaction δ}
    {outermost : Bool} {effect : Bool × δ}
    (h : Follows program' durable t' outermost effect) (hsavepoints : t'.savepoints = t.savepoints)
    (hrun : program ⟨durable, some t⟩ = program' ⟨durable, some t'⟩) :
    Follows program durable t outermost effect := by
  rcases h with ⟨heffect, h⟩ | ⟨heffect, e, h⟩ | ⟨houtermost, heffect, e, h⟩
  · exact .ended heffect (by rw [hrun, h, hsavepoints])
  · exact .raised heffect ⟨e, by rw [hrun, h, hsavepoints]⟩
  · exact .lost houtermost heffect ⟨e, by rw [hrun, h]⟩

/-- **A body in a transaction.** -/
theorem Body.run_follows (body : Body δ) {durable : δ} {t : Transaction δ} {outermost : Bool}
    (hsafe : body.Safe outermost t.contents) :
    Follows body.run durable t outermost (body.effect t.contents) := by
  induction body generalizing t outermost with
  | finish => exact .ended rfl rfl
  | raise => exact .raised rfl ⟨.body, rfl⟩
  | execute statement next ih =>
    cases hstatement : statement t.contents with
    | done d =>
      have hexecute : Savepoints.execute statement ⟨durable, some t⟩ =
          .ok () ⟨durable, some { t with contents := d }⟩ := by
        simp only [Savepoints.execute, Connection.contents, hstatement]
      simp only [Safe, hstatement] at hsafe
      simp only [effect, hstatement]
      refine (ih d (t := { t with contents := d }) hsafe).of_eq rfl ?_
      rw [run, bind_of_ok hexecute]
      rfl
    | aborts =>
      have hexecute : Savepoints.execute statement ⟨durable, some t⟩ =
          .error .statement ⟨durable, some t⟩ := by
        simp only [Savepoints.execute, Connection.contents, hstatement]
      simp only [effect, hstatement]
      exact .raised rfl ⟨_, bind_of_error hexecute⟩
    | rollsBack =>
      have hexecute : Savepoints.execute statement ⟨durable, some t⟩ =
          .error .statement ⟨durable, none⟩ := by
        simp only [Savepoints.execute, Connection.contents, hstatement]
      simp only [Safe, hstatement] at hsafe
      simp only [effect, hstatement]
      exact .lost hsafe rfl ⟨_, bind_of_error hexecute⟩
  | nested block inner next ihInner ihNext =>
    have hblock := sqliteTransaction_follows block durable t (inner.effect t.contents)
      fun hopens savepoints => ihInner (t := { t with savepoints }) (hsafe hopens).1
    rw [effect]
    split_ifs at hblock ⊢ with hraises
    · rcases hblock with ⟨heffect, -⟩ | ⟨-, e, h⟩ | ⟨houtermost, -, -⟩
      · exact absurd heffect (by simp)
      · exact .raised rfl ⟨e, bind_of_error h⟩
      · exact absurd houtermost Bool.false_ne_true
    · simp only [not_or, Bool.not_eq_false, Bool.not_eq_true] at hraises
      rcases hblock with ⟨-, h⟩ | ⟨heffect, -⟩ | ⟨houtermost, -, -⟩
      · refine (ihNext (t := { t with contents := (inner.effect t.contents).2 })
          ((hsafe hraises.1).2 hraises.2)).of_eq rfl ?_
        rw [run, bind_of_ok h]
      · rw [hraises.2] at heffect
        exact absurd heffect Bool.false_ne_true
      · exact absurd houtermost Bool.false_ne_true
  | attempt inner next ihInner ihNext =>
    obtain ⟨hinner, hnext⟩ := hsafe
    have hafter := ihNext (inner.effect t.contents).1
      (t := { t with contents := (inner.effect t.contents).2 }) hnext
    rw [effect]
    refine hafter.of_eq rfl ?_
    rcases ihInner hinner with ⟨heffect, h⟩ | ⟨heffect, e, h⟩ | ⟨houtermost, -, -⟩
    · rw [heffect]
      simp only [run, h]
    · rw [heffect]
      simp only [run, h]
    · exact absurd houtermost Bool.false_ne_true

/-! ### Atomicity at every depth -/

/-- A block whose execution is known to raise is atomic if it leaves the connection as it was. -/
theorem AtomicBlock.of_error {block : TransactionBlock} {body : Body δ} {c : Connection δ} {e : Fault}
    (h : sqliteTransaction block body.run c = .error e c) : AtomicBlock block body c where
  state := by rw [after_of_error h]
  undone := by
    intro e' c' h'
    rw [h] at h'
    obtain ⟨-, rfl⟩ := EStateM.Result.error.inj h'
    exact ⟨rfl, rfl, rfl⟩
  kept := by
    intro c' h'
    rw [h] at h'
    exact absurd h' (by simp)

theorem AtomicBlock.of_ok {block : TransactionBlock} {body : Body δ} {c : Connection δ}
    (heffect : (body.effect c.contents).1 = false)
    (h : sqliteTransaction block body.run c = .ok () (keeping c (body.effect c.contents).2)) :
    AtomicBlock block body c where
  state := by
    rw [after_of_ok h, keeping]
    cases hc : c.transaction with
    | none => rw [Connection.inTransaction, Connection.inTransaction, hc]
    | some t => rw [Connection.inTransaction, Connection.inTransaction, hc]; rfl
  undone := by
    intro e' c' h'
    rw [h] at h'
    exact absurd h' (by simp)
  kept := by
    intro c' h'
    rw [h] at h'
    obtain ⟨-, rfl⟩ := EStateM.Result.ok.inj h'
    exact ⟨heffect, rfl⟩

/-- The block is the outermost, its body ends normally, and its `COMMIT` fails and stays open. -/
def LeftOpen (block : TransactionBlock) (body : Body δ) (c : Connection δ) : Prop :=
  c.inTransaction = false ∧ block.opens = true ∧ (body.effect c.contents).1 = false ∧
    block.commits = .staysOpen

/-- A nested block. -/
theorem atomic_in {block : TransactionBlock} {body : Body δ} {durable : δ} {t : Transaction δ}
    (hsafe : block.opens = true → body.Safe false t.contents) :
    AtomicBlock block body ⟨durable, some t⟩ := by
  have hblock := sqliteTransaction_follows block durable t (body.effect t.contents)
    fun hopens savepoints =>
      (body.run_follows (hsafe hopens) : Follows body.run durable { t with savepoints } _ _)
  split_ifs at hblock with hraises
  · rcases hblock with ⟨heffect, -⟩ | ⟨-, e, h⟩ | ⟨houtermost, -, -⟩
    · exact absurd heffect (by simp)
    · exact .of_error h
    · exact absurd houtermost Bool.false_ne_true
  · simp only [not_or, Bool.not_eq_true] at hraises
    rcases hblock with ⟨-, h⟩ | ⟨heffect, -⟩ | ⟨houtermost, -, -⟩
    · exact .of_ok hraises.2 h
    · rw [hraises.2] at heffect
      exact absurd heffect Bool.false_ne_true
    · exact absurd houtermost Bool.false_ne_true

/-- An outermost block. -/
theorem atomic_out_iff {block : TransactionBlock} {body : Body δ} {durable : δ}
    (hsafe : block.opens = true → body.Safe true durable) :
    AtomicBlock block body ⟨durable, none⟩ ↔ ¬LeftOpen block body ⟨durable, none⟩ := by
  by_cases hopens : block.opens
  · have hbegin : block.opening begin ⟨durable, none⟩ =
        .ok () ⟨durable, some { contents := durable }⟩ := by
      rw [TransactionBlock.opening, if_pos hopens]
      rfl
    have hrun : sqliteTransaction block body.run ⟨durable, none⟩ =
        (do onRaise body.run rollback; commit block.commits : SqlM δ Unit)
          ⟨durable, some { contents := durable }⟩ := by
      rw [sqliteTransaction_out, bind_of_ok hbegin]
    have hfollows : Follows body.run durable { contents := durable } true (body.effect durable) :=
      body.run_follows (hsafe hopens)
    rcases hfollows with
      ⟨heffect, h⟩ | ⟨heffect, e, h⟩ | ⟨-, heffect, e, h⟩
    · have hbody : onRaise body.run rollback ⟨durable, some { contents := durable }⟩ =
          .ok () ⟨durable, some { contents := (body.effect durable).2 }⟩ := by
        rw [onRaise, h]
      rw [bind_of_ok hbody] at hrun
      cases hcommits : block.commits with
      | done =>
        refine iff_of_true (.of_ok heffect ?_) fun hopen => ?_
        · rw [hrun, hcommits]
          rfl
        · exact absurd (hcommits.symm.trans hopen.2.2.2) (by simp)
      | staysOpen =>
        refine iff_of_false (fun hatomic => ?_) (not_not.mpr ⟨rfl, hopens, heffect, hcommits⟩)
        rw [hcommits] at hrun
        have hstate := hatomic.state
        rw [after_of_error hrun] at hstate
        exact Bool.noConfusion hstate
      | rollsBack =>
        refine iff_of_true (.of_error (e := .commit) ?_) fun hopen => ?_
        · rw [hrun, hcommits]
          rfl
        · exact absurd (hcommits.symm.trans hopen.2.2.2) (by simp)
    · have hbody : onRaise body.run rollback ⟨durable, some { contents := durable }⟩ =
          .error e ⟨durable, none⟩ := by
        rw [onRaise, h]
        rfl
      refine iff_of_true (.of_error (hrun.trans (bind_of_error hbody))) fun hopen => ?_
      exact absurd (heffect.symm.trans hopen.2.2.1) (by simp)
    · have hbody : onRaise body.run rollback ⟨durable, some { contents := durable }⟩ =
          .error e ⟨durable, none⟩ := by
        rw [onRaise, h]
        rfl
      refine iff_of_true (.of_error (hrun.trans (bind_of_error hbody))) fun hopen => ?_
      exact absurd (heffect.symm.trans hopen.2.2.1) (by simp)
  · refine iff_of_true (.of_error (e := .refused) ?_) fun hopen => hopens hopen.2.1
    have hbegin : block.opening begin ⟨durable, none⟩ = .error .refused ⟨durable, none⟩ := by
      rw [TransactionBlock.opening, if_neg hopens]
      rfl
    rw [sqliteTransaction_out, bind_of_error hbegin]

/-- **Atomic blocks.** On any connection, in a transaction of any depth or in none. -/
theorem atomicBlock_iff {block : TransactionBlock} {body : Body δ} {c : Connection δ}
    (hsafe : block.opens = true → body.Safe (!c.inTransaction) c.contents) :
    AtomicBlock block body c ↔ ¬LeftOpen block body c := by
  obtain ⟨durable, t | t⟩ := c
  · exact atomic_out_iff hsafe
  · exact iff_of_true (atomic_in hsafe) fun hopen => absurd hopen.1 (by simp [Connection.inTransaction])

/-- **What is left open.** On a connection in a transaction a block is a savepoint: nothing it does is
durable. -/
theorem durable_of_inTransaction {block : TransactionBlock} {body : Body δ} {c : Connection δ}
    (hc : c.inTransaction = true) (hsafe : block.opens = true → body.Safe false c.contents) :
    (after (sqliteTransaction block body.run) c).durable = c.durable := by
  have hatomic : AtomicBlock block body c := by
    refine (atomicBlock_iff (by rwa [hc])).mpr fun hopen => ?_
    exact absurd (hc.symm.trans hopen.1) (by simp)
  cases hrun : sqliteTransaction block body.run c with
  | ok _ c' =>
    obtain ⟨-, rfl⟩ := hatomic.kept hrun
    obtain ⟨t, ht⟩ := Option.isSome_iff_exists.mp hc
    rw [after_of_ok hrun, keeping, ht]
  | error e c' =>
    rw [after_of_error hrun]
    exact (hatomic.undone hrun).2.1

end EvernightAI

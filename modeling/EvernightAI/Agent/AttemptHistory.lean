import EvernightAI.Agent.Ledger
import Mathlib.Data.List.MinMax
import Mathlib.Logic.Relation

/-!
# The history of a ledger

What the writers of an attempt ledger can do to it, whoever they are and in whatever order they
come. `LedgerHistory` is a ledger with ghost records of the executions started, the invocations
made and the RETRY resolutions given; `Wrote` lists the single writes, each with what its writer
has checked.

* `Inv` holds in every history: the attempt numbers of a call increase in the order of the starts,
  and a NON_REPLAYABLE call is invoked at most once more often than it was given RETRY.
* `Settled` holds as long as the writes are `strict`: outcomes are recorded only on the latest
  attempt of a call, and never over a COMPLETED one. Then a COMPLETED attempt stays the latest of
  its call, keeps its result, and no invocation of the call follows it.
-/

namespace EvernightAI

/-- The ledger of a run with the history of its executions. -/
structure LedgerHistory where
  ledger : Ledger := ∅
  round : Nat := 1
  started : List (String × Nat) := []
  invocations : List (Nat × String) := []
  retries : List (Nat × String) := []

namespace ToolExecutionAttempt

/-- The attempt belongs to the call of this id in this round. -/
def inCall (round : Nat) (toolCallId : String) (attempt : ToolExecutionAttempt) : Bool :=
  attempt.toolRound = some round && attempt.toolCallId = toolCallId

/-- The attempt is unsettled, and the operator asked for another one. -/
def Retryable (attempt : ToolExecutionAttempt) : Prop :=
  attempt.resolution = some .retry ∧ (attempt.status = .started ∨ attempt.status = .unknown)

/-- `new` is a version of the attempt `row`: what identifies it is unchanged. -/
structure SameAttempt (row new : ToolExecutionAttempt) : Prop where
  key : new.key = row.key
  toolRound : new.toolRound = row.toolRound
  replayPolicy : new.replayPolicy = row.replayPolicy

theorem inCall_eq_true {round : Nat} {toolCallId : String} {attempt : ToolExecutionAttempt} :
    attempt.inCall round toolCallId = true ↔
      attempt.toolRound = some round ∧ attempt.toolCallId = toolCallId := by
  simp only [inCall, Bool.and_eq_true, decide_eq_true_eq]

section SameAttempt

variable {row new : ToolExecutionAttempt}

theorem SameAttempt.refl (row : ToolExecutionAttempt) : row.SameAttempt row := ⟨rfl, rfl, rfl⟩

theorem SameAttempt.trans {last : ToolExecutionAttempt} (h : row.SameAttempt new)
    (h' : new.SameAttempt last) : row.SameAttempt last :=
  ⟨h'.key.trans h.key, h'.toolRound.trans h.toolRound, h'.replayPolicy.trans h.replayPolicy⟩

theorem SameAttempt.toolCallId (h : row.SameAttempt new) : new.toolCallId = row.toolCallId :=
  congrArg Prod.fst h.key

theorem SameAttempt.attempt (h : row.SameAttempt new) : new.attempt = row.attempt :=
  congrArg Prod.snd h.key

theorem SameAttempt.inCall_eq (h : row.SameAttempt new) (round : Nat) (toolCallId : String) :
    new.inCall round toolCallId = row.inCall round toolCallId := by
  simp only [inCall, h.toolRound, h.toolCallId]

end SameAttempt

end ToolExecutionAttempt

/-- The attempt is the latest of its call in its round. -/
def Ledger.IsLatest (ledger : Ledger) (attempt : ToolExecutionAttempt) : Prop :=
  ∀ b ∈ ledger, b.toolCallId = attempt.toolCallId → b.toolRound = attempt.toolRound →
    b.attempt ≤ attempt.attempt

/-- **What a single write can do.** Under `strict`, outcomes are recorded only on the latest
attempt of their call, and never over a COMPLETED one. -/
inductive Wrote (strict : Prop) : LedgerHistory → LedgerHistory → Prop
  | round {h : LedgerHistory} : Wrote strict h { h with round := h.round + 1 }
  | create {h : LedgerHistory} {a : ToolExecutionAttempt}
      (toolRound : a.toolRound = some h.round) (status : a.status = .scheduled)
      (resolution : a.resolution = none)
      (above : ∀ b ∈ h.ledger, b.toolCallId = a.toolCallId → b.attempt < a.attempt)
      (latest : ∀ b ∈ h.ledger, b.inCall h.round a.toolCallId = true → h.ledger.IsLatest b →
        b.status ≠ .completed ∧ (b.replayPolicy = .nonReplayable → b.Retryable)) :
      Wrote strict h { h with ledger := h.ledger.upsert a }
  | start {h : LedgerHistory} {row new : ToolExecutionAttempt} (invoked : Bool)
      (mem : row ∈ h.ledger) (same : row.SameAttempt new) (toolRound : row.toolRound = some h.round)
      (scheduled : row.status = .scheduled) (started : new.status = .started)
      (resolution : new.resolution = row.resolution) (latest : h.ledger.IsLatest row) :
      Wrote strict h { h with
        ledger := h.ledger.upsert new
        started := h.started ++ [new.key]
        invocations := h.invocations ++ if invoked then [(h.round, new.toolCallId)] else [] }
  | rewrite {h : LedgerHistory} {row new : ToolExecutionAttempt}
      (mem : row ∈ h.ledger) (same : row.SameAttempt new) (launched : row.status ≠ .scheduled)
      (launched' : new.status ≠ .scheduled) (retryable : new.Retryable → row.Retryable)
      (onLatest : strict → row.status ≠ .completed ∧
        (new.status = .completed → h.ledger.IsLatest row)) :
      Wrote strict h { h with ledger := h.ledger.upsert new }
  | retry {h : LedgerHistory} {row new : ToolExecutionAttempt} {round : Nat}
      (mem : row ∈ h.ledger) (same : row.SameAttempt new) (toolRound : row.toolRound = some round)
      (unknown : row.status = .unknown) (unknown' : new.status = .unknown) :
      Wrote strict h { h with
        ledger := h.ledger.upsert new
        retries := h.retries ++ [(round, row.toolCallId)] }

/-! ### Writing a version of a stored attempt -/

namespace Ledger

variable {ledger : Ledger} {row new : ToolExecutionAttempt}

theorem ne_of_mem_of_key_ne {x : ToolExecutionAttempt} (hx : x ∈ ledger) (hrow : row ∈ ledger)
    (hne : x ≠ row) : x.key ≠ row.key := fun h => hne (Table.eq_of_key_eq hx hrow h)

/-- Every row after the write is a version of a row before it. -/
theorem exists_sameAttempt_of_mem_upsert (hrow : row ∈ ledger) (same : row.SameAttempt new)
    {x : ToolExecutionAttempt} (hx : x ∈ ledger.upsert new) :
    ∃ y ∈ ledger, y.SameAttempt x := by
  rcases Table.mem_upsert.mp hx with rfl | ⟨hx, -⟩
  · exact ⟨row, hrow, same⟩
  · exact ⟨x, hx, .refl x⟩

/-- Every row before the write has a version after it. -/
theorem exists_sameAttempt_mem_upsert (hrow : row ∈ ledger) (same : row.SameAttempt new)
    {x : ToolExecutionAttempt} (hx : x ∈ ledger) :
    ∃ y ∈ ledger.upsert new, x.SameAttempt y ∧ (x = row ∧ y = new ∨ y = x) := by
  by_cases h : x = row
  · exact ⟨new, Table.mem_upsert.mpr (Or.inl rfl), h ▸ same, Or.inl ⟨h, rfl⟩⟩
  · refine ⟨x, Table.mem_upsert.mpr (Or.inr ⟨hx, ?_⟩), .refl x, Or.inr rfl⟩
    rw [same.key]
    exact ne_of_mem_of_key_ne hx hrow h

theorem IsLatest.congr {a b : ToolExecutionAttempt} (h : a.SameAttempt b) :
    ledger.IsLatest b ↔ ledger.IsLatest a := by
  unfold IsLatest
  rw [h.toolCallId, h.toolRound, h.attempt]

/-- Which attempt is the latest of a call does not depend on the versions stored. -/
theorem isLatest_upsert (hrow : row ∈ ledger) (same : row.SameAttempt new)
    (a : ToolExecutionAttempt) : Ledger.IsLatest (ledger.upsert new) a ↔ ledger.IsLatest a := by
  constructor
  · intro h b hb hid hround
    obtain ⟨y, hy, hsame, -⟩ := exists_sameAttempt_mem_upsert hrow same hb
    rw [← hsame.attempt]
    exact h y hy (hsame.toolCallId.trans hid) (hsame.toolRound.trans hround)
  · intro h b hb hid hround
    obtain ⟨y, hy, hsame⟩ := exists_sameAttempt_of_mem_upsert hrow same hb
    rw [hsame.attempt]
    exact h y hy (hsame.toolCallId.symm.trans hid) (hsame.toolRound.symm.trans hround)

theorem countP_upsert_version (hrow : row ∈ ledger) (same : row.SameAttempt new)
    {p : ToolExecutionAttempt → Bool} (hp : p new = p row) :
    (ledger.upsert new).rows.countP p = ledger.rows.countP p := by
  have h := Table.countP_upsert_of_mem hrow same.key.symm p
  rw [hp] at h
  exact Nat.add_right_cancel h

/-- Two latest attempts of one call are one attempt. -/
theorem IsLatest.eq {a b : ToolExecutionAttempt} (ha : a ∈ ledger) (hb : b ∈ ledger)
    (hla : ledger.IsLatest a) (hlb : ledger.IsLatest b) (hid : a.toolCallId = b.toolCallId)
    (hround : a.toolRound = b.toolRound) : a = b :=
  Table.eq_of_key_eq ha hb (Prod.ext hid
    (Nat.le_antisymm (hlb a ha hid hround) (hla b hb hid.symm hround.symm)))

/-- The latest attempt of a call is the one the code finds. -/
theorem latestToolExecutionAttempt_eq {a : ToolExecutionAttempt} {round : Nat} {toolCallId : String}
    (ha : a ∈ ledger) (hin : a.inCall round toolCallId = true) (hlatest : ledger.IsLatest a) :
    latestToolExecutionAttempt toolCallId (roundToolExecutionAttempts round ledger.listAttempts) =
      some a := by
  obtain ⟨har, haid⟩ := ToolExecutionAttempt.inCall_eq_true.mp hin
  have hmem : a ∈ roundToolExecutionAttempts round ledger.listAttempts :=
    mem_roundToolExecutionAttempts.mpr ⟨mem_listAttempts.mpr ha, har⟩
  cases hfound : latestToolExecutionAttempt toolCallId
      (roundToolExecutionAttempts round ledger.listAttempts) with
  | none => exact absurd haid (latestToolExecutionAttempt_eq_none hfound a hmem)
  | some b =>
    obtain ⟨hb, hbid, hbmax⟩ := latestToolExecutionAttempt_eq_some hfound
    obtain ⟨hb, hbr⟩ := mem_roundToolExecutionAttempts.mp hb
    have hb := mem_listAttempts.mp hb
    have hle := hlatest b hb (hbid.trans haid.symm) (hbr.trans har.symm)
    have hge := hbmax a hmem haid
    rw [Table.eq_of_key_eq hb ha (Prod.ext (hbid.trans haid.symm) (Nat.le_antisymm hle hge))]

end Ledger

/-- An attempt stays stored, as itself, and stays launched. -/
theorem Wrote.keeps {strict : Prop} {h h' : LedgerHistory} (w : Wrote strict h h')
    {x : ToolExecutionAttempt} (hx : x ∈ h.ledger) :
    ∃ y ∈ h'.ledger, x.SameAttempt y ∧ (x.status ≠ .scheduled → y.status ≠ .scheduled) := by
  have version {row new : ToolExecutionAttempt} (mem : row ∈ h.ledger)
      (same : row.SameAttempt new) (launched : new.status ≠ .scheduled) :
      ∃ y ∈ h.ledger.upsert new, x.SameAttempt y ∧
        (x.status ≠ .scheduled → y.status ≠ .scheduled) := by
    obtain ⟨y, hy, hsame, ⟨rfl, rfl⟩ | rfl⟩ := Ledger.exists_sameAttempt_mem_upsert mem same hx
    · exact ⟨_, hy, hsame, fun _ => launched⟩
    · exact ⟨_, hy, hsame, id⟩
  cases w with
  | round => exact ⟨x, hx, .refl x, id⟩
  | create toolRound status resolution above latest =>
    refine ⟨x, Table.mem_upsert.mpr (Or.inr ⟨hx, fun hkey => ?_⟩), .refl x, id⟩
    have := above x hx (congrArg Prod.fst hkey)
    exact absurd (congrArg Prod.snd hkey) (Nat.ne_of_lt this)
  | start invoked mem same toolRound scheduled started resolution latest =>
    exact version mem same (by rw [started]; decide)
  | rewrite mem same launched launched' retryable onLatest => exact version mem same launched'
  | retry mem same toolRound unknown unknown' =>
    exact version mem same (by rw [unknown']; decide)

/-! ### The order of the attempts -/

namespace LedgerHistory

/-- **The attempt numbers of a call follow its rounds and its starts.** -/
structure Ordered (h : LedgerHistory) : Prop where
  inRound : ∀ a ∈ h.ledger, ∃ r ≤ h.round, a.toolRound = some r
  rounds : ∀ a ∈ h.ledger, ∀ b ∈ h.ledger, a.toolCallId = b.toolCallId →
    ∀ r q, a.toolRound = some r → b.toolRound = some q → r < q → a.attempt < b.attempt
  startedRows : ∀ p ∈ h.started, ∃ a ∈ h.ledger, a.key = p ∧ a.status ≠ .scheduled
  increasing : h.started.Pairwise fun p q => p.1 = q.1 → p.2 < q.2

variable {strict : Prop} {h h' : LedgerHistory}

private theorem Ordered.inRound_upsert (hord : h.Ordered) {row new : ToolExecutionAttempt}
    (mem : row ∈ h.ledger) (same : row.SameAttempt new) :
    ∀ a ∈ h.ledger.upsert new, ∃ r ≤ h.round, a.toolRound = some r := by
  intro a ha
  obtain ⟨b, hb, hsame⟩ := Ledger.exists_sameAttempt_of_mem_upsert mem same ha
  rw [hsame.toolRound]
  exact hord.inRound b hb

private theorem Ordered.rounds_upsert (hord : h.Ordered) {row new : ToolExecutionAttempt}
    (mem : row ∈ h.ledger) (same : row.SameAttempt new) :
    ∀ a ∈ h.ledger.upsert new, ∀ b ∈ h.ledger.upsert new, a.toolCallId = b.toolCallId →
      ∀ r q, a.toolRound = some r → b.toolRound = some q → r < q → a.attempt < b.attempt := by
  intro a ha b hb hid r q har hbq hlt
  obtain ⟨a₀, ha₀, hsa⟩ := Ledger.exists_sameAttempt_of_mem_upsert mem same ha
  obtain ⟨b₀, hb₀, hsb⟩ := Ledger.exists_sameAttempt_of_mem_upsert mem same hb
  rw [hsa.attempt, hsb.attempt]
  exact hord.rounds a₀ ha₀ b₀ hb₀ (by rw [← hsa.toolCallId, ← hsb.toolCallId, hid]) r q
    (hsa.toolRound ▸ har) (hsb.toolRound ▸ hbq) hlt

private theorem Ordered.startedRows_of_wrote (hord : h.Ordered) (w : Wrote strict h h')
    {p : String × Nat} (hp : p ∈ h.started) :
    ∃ a ∈ h'.ledger, a.key = p ∧ a.status ≠ .scheduled := by
  obtain ⟨a, ha, rfl, hlaunched⟩ := hord.startedRows p hp
  obtain ⟨b, hb, hsame, hb'⟩ := w.keeps ha
  exact ⟨b, hb, hsame.key, hb' hlaunched⟩

/-- A scheduled attempt of the current round is above every started attempt of its id. -/
theorem Ordered.lt_of_started (hord : h.Ordered) {row : ToolExecutionAttempt}
    (mem : row ∈ h.ledger) (toolRound : row.toolRound = some h.round)
    (scheduled : row.status = .scheduled) (latest : h.ledger.IsLatest row)
    {p : String × Nat} (hp : p ∈ h.started) (hid : p.1 = row.toolCallId) : p.2 < row.attempt := by
  obtain ⟨a, ha, rfl, hlaunched⟩ := hord.startedRows p hp
  obtain ⟨r, hr, har⟩ := hord.inRound a ha
  rcases Nat.lt_or_eq_of_le hr with hlt | rfl
  · exact hord.rounds a ha row mem hid r h.round har toolRound hlt
  · refine Nat.lt_of_le_of_ne (latest a ha hid (har.trans toolRound.symm)) fun heq => ?_
    exact hlaunched (Table.eq_of_key_eq ha mem (Prod.ext hid heq) ▸ scheduled)

theorem Ordered.of_wrote (hord : h.Ordered) (w : Wrote strict h h') : h'.Ordered := by
  have hrows := fun p => hord.startedRows_of_wrote w (p := p)
  cases w with
  | round =>
    exact ⟨fun a ha => (hord.inRound a ha).imp fun r hr => ⟨Nat.le_succ_of_le hr.1, hr.2⟩,
      hord.rounds, hord.startedRows, hord.increasing⟩
  | @create a toolRound status resolution above latest =>
    refine ⟨fun b hb => ?_, fun b hb c hc hid r q hbr hcq hlt => ?_, hrows, hord.increasing⟩
    · rcases Table.mem_upsert.mp hb with rfl | ⟨hb, -⟩
      · exact ⟨h.round, le_refl _, toolRound⟩
      · exact hord.inRound b hb
    · rcases Table.mem_upsert.mp hb with rfl | ⟨hb₀, -⟩
      · -- Nothing is stored for a round after the current one.
        obtain rfl : r = h.round := Option.some.inj (hbr.symm.trans toolRound)
        rcases Table.mem_upsert.mp hc with rfl | ⟨hc, -⟩
        · exact absurd (Option.some.inj (hcq.symm.trans toolRound)) (by omega)
        · obtain ⟨q', hq', hcq'⟩ := hord.inRound c hc
          have := Option.some.inj (hcq.symm.trans hcq')
          omega
      · rcases Table.mem_upsert.mp hc with rfl | ⟨hc, -⟩
        · exact above b hb₀ hid
        · exact hord.rounds b hb₀ c hc hid r q hbr hcq hlt
  | @start row new invoked mem same toolRound scheduled started resolution latest =>
    refine ⟨hord.inRound_upsert mem same, hord.rounds_upsert mem same, fun p hp => ?_, ?_⟩
    · rcases List.mem_append.mp hp with hp | hp
      · exact hrows p hp
      · rw [List.mem_singleton] at hp
        exact ⟨new, Table.mem_upsert.mpr (Or.inl rfl), hp.symm, by rw [started]; decide⟩
    · refine List.pairwise_append.mpr ⟨hord.increasing, List.pairwise_singleton _ _, ?_⟩
      intro p hp q hq hid
      rw [List.mem_singleton] at hq
      subst hq
      rw [show new.key.2 = row.attempt from same.attempt]
      exact hord.lt_of_started mem toolRound scheduled latest hp (hid.trans same.toolCallId)
  | rewrite mem same launched launched' retryable onLatest =>
    exact ⟨hord.inRound_upsert mem same, hord.rounds_upsert mem same, hrows, hord.increasing⟩
  | retry mem same toolRound unknown unknown' =>
    exact ⟨hord.inRound_upsert mem same, hord.rounds_upsert mem same, hrows, hord.increasing⟩

/-! ### Counting attempts, invocations and retries -/

/-- The attempts stored for a call. -/
def attemptsOf (h : LedgerHistory) (round : Nat) (toolCallId : String) : Nat :=
  h.ledger.rows.countP (·.inCall round toolCallId)

/-- The attempts of a call that were started. -/
def launchedOf (h : LedgerHistory) (round : Nat) (toolCallId : String) : Nat :=
  h.ledger.rows.countP fun a => a.inCall round toolCallId && a.status ≠ .scheduled

/-- How often the executor was invoked for a call. -/
def invocationsOf (h : LedgerHistory) (round : Nat) (toolCallId : String) : Nat :=
  h.invocations.count (round, toolCallId)

/-- How often the operator resolved an attempt of a call as RETRY. -/
def retriesOf (h : LedgerHistory) (round : Nat) (toolCallId : String) : Nat :=
  h.retries.count (round, toolCallId)

/-- Every attempt stored for the call was made of a tool that must not be replayed. -/
def NonReplayable (h : LedgerHistory) (round : Nat) (toolCallId : String) : Prop :=
  ∀ a ∈ h.ledger, a.inCall round toolCallId = true → a.replayPolicy = .nonReplayable

/-- **Attempts of a call are paid for.** The first one is free, each other one was asked for by
the operator; a retryable latest attempt has the next one in store. -/
structure Bounded (h : LedgerHistory) (round : Nat) (toolCallId : String) : Prop where
  scheduled : ∀ a ∈ h.ledger, a.status = .scheduled → a.resolution = none
  invoked : h.invocationsOf round toolCallId ≤ h.launchedOf round toolCallId
  attempts : h.NonReplayable round toolCallId →
    h.attemptsOf round toolCallId ≤ 1 + h.retriesOf round toolCallId
  inStore : h.NonReplayable round toolCallId → ∀ a ∈ h.ledger, a.inCall round toolCallId = true →
    h.ledger.IsLatest a → a.Retryable →
      h.attemptsOf round toolCallId ≤ h.retriesOf round toolCallId

section Counting

variable {round : Nat} {toolCallId : String} {row new : ToolExecutionAttempt}

private theorem attemptsOf_upsert_version (mem : row ∈ h.ledger) (same : row.SameAttempt new) :
    (h.ledger.upsert new).rows.countP (·.inCall round toolCallId) = h.attemptsOf round toolCallId :=
  Ledger.countP_upsert_version mem same (same.inCall_eq round toolCallId)

private theorem launchedOf_upsert_version (mem : row ∈ h.ledger) (same : row.SameAttempt new)
    (launched : row.status ≠ .scheduled) (launched' : new.status ≠ .scheduled) :
    ((h.ledger.upsert new).rows.countP fun a => a.inCall round toolCallId && a.status ≠ .scheduled) =
      h.launchedOf round toolCallId := by
  refine Ledger.countP_upsert_version mem same ?_
  simp only [same.inCall_eq, launched, launched', ne_eq, not_false_eq_true]

private theorem launchedOf_upsert_started (mem : row ∈ h.ledger) (same : row.SameAttempt new)
    (scheduled : row.status = .scheduled) (started : new.status = .started) :
    ((h.ledger.upsert new).rows.countP fun a => a.inCall round toolCallId && a.status ≠ .scheduled) =
      h.launchedOf round toolCallId + if new.inCall round toolCallId then 1 else 0 := by
  have hcount := Table.countP_upsert_of_mem mem same.key.symm
    fun a : ToolExecutionAttempt => a.inCall round toolCallId && a.status ≠ .scheduled
  simpa [launchedOf, scheduled, started] using hcount

private theorem not_retryable_of_scheduled (h : row.status = .scheduled) : ¬row.Retryable := by
  rintro ⟨-, hstatus | hstatus⟩ <;> simp [h] at hstatus

/-- A call without a stored attempt has none to count. -/
private theorem attemptsOf_eq_zero
    (hnone : ∀ a ∈ h.ledger, a.inCall round toolCallId = false) :
    h.attemptsOf round toolCallId = 0 :=
  List.countP_eq_zero.mpr fun a ha => by simp [hnone a ha]

/-- A call with a stored attempt has a latest one. -/
theorem exists_isLatest {a : ToolExecutionAttempt} (ha : a ∈ h.ledger)
    (hcall : a.inCall round toolCallId = true) :
    ∃ b ∈ h.ledger, b.inCall round toolCallId = true ∧ h.ledger.IsLatest b := by
  have hne : h.ledger.rows.filter (·.inCall round toolCallId) ≠ [] :=
    List.ne_nil_of_mem (List.mem_filter.mpr ⟨ha, hcall⟩)
  obtain ⟨b, hb⟩ := Option.ne_none_iff_exists'.mp
    (mt (List.argmax_eq_none (f := ToolExecutionAttempt.attempt)).mp hne)
  obtain ⟨hmem, hin⟩ := List.mem_filter.mp (List.argmax_mem hb)
  refine ⟨b, hmem, hin, fun c hc hid hround => ?_⟩
  obtain ⟨hbround, hbid⟩ := ToolExecutionAttempt.inCall_eq_true.mp hin
  have hcin : c.inCall round toolCallId = true :=
    ToolExecutionAttempt.inCall_eq_true.mpr ⟨hround.trans hbround, hid.trans hbid⟩
  exact List.le_of_mem_argmax (List.mem_filter.mpr ⟨hc, hcin⟩) hb

/-- A write keeps what a call's attempts are attempts of. -/
theorem NonReplayable.of_wrote (w : Wrote strict h h')
    (hcall : h'.NonReplayable round toolCallId) : h.NonReplayable round toolCallId := by
  intro a ha hin
  obtain ⟨b, hb, hsame, -⟩ := w.keeps ha
  rw [← hsame.replayPolicy]
  exact hcall b hb ((hsame.inCall_eq round toolCallId).trans hin)

private theorem Bounded.scheduled_upsert (hb : h.Bounded round toolCallId)
    (launched : new.status ≠ .scheduled) :
    ∀ a ∈ h.ledger.upsert new, a.status = .scheduled → a.resolution = none := by
  intro a ha hstatus
  rcases Table.mem_upsert.mp ha with rfl | ⟨ha, -⟩
  · exact absurd hstatus launched
  · exact hb.scheduled a ha hstatus

/-- A version that is no more retryable than the row leaves the latest attempt unpaid only where it
was. -/
private theorem Bounded.inStore_upsert (hb : h.Bounded round toolCallId) (mem : row ∈ h.ledger)
    (same : row.SameAttempt new) (retryable : new.Retryable → row.Retryable)
    (hcall : h.NonReplayable round toolCallId) {a : ToolExecutionAttempt}
    (ha : a ∈ h.ledger.upsert new) (hin : a.inCall round toolCallId = true)
    (hlatest : Ledger.IsLatest (h.ledger.upsert new) a) (hretry : a.Retryable) :
    h.attemptsOf round toolCallId ≤ h.retriesOf round toolCallId := by
  rw [Ledger.isLatest_upsert mem same] at hlatest
  rcases Table.mem_upsert.mp ha with rfl | ⟨ha, -⟩
  · exact hb.inStore hcall row mem ((same.inCall_eq round toolCallId).symm.trans hin)
      ((Ledger.IsLatest.congr same).mp hlatest) (retryable hretry)
  · exact hb.inStore hcall a ha hin hlatest hretry

/-- The room for a new attempt: there is none yet, or the latest one is retryable. -/
private theorem Bounded.room (hb : h.Bounded round toolCallId)
    (hcall : h.NonReplayable round toolCallId)
    (latest : ∀ b ∈ h.ledger, b.inCall round toolCallId = true → h.ledger.IsLatest b →
      b.replayPolicy = .nonReplayable → b.Retryable) :
    h.attemptsOf round toolCallId ≤ h.retriesOf round toolCallId := by
  by_cases hany : ∃ a ∈ h.ledger, a.inCall round toolCallId = true
  · obtain ⟨a, ha, hin⟩ := hany
    obtain ⟨b, hbmem, hbin, hlatest⟩ := exists_isLatest ha hin
    exact hb.inStore hcall b hbmem hbin hlatest (latest b hbmem hbin hlatest (hcall b hbmem hbin))
  · have hnone : ∀ a ∈ h.ledger, a.inCall round toolCallId = false := fun a ha =>
      Bool.eq_false_iff.mpr fun hin => hany ⟨a, ha, hin⟩
    rw [attemptsOf_eq_zero hnone]
    exact Nat.zero_le _

private theorem Bounded.create (hb : h.Bounded round toolCallId) {a : ToolExecutionAttempt}
    (toolRound : a.toolRound = some h.round) (status : a.status = .scheduled)
    (resolution : a.resolution = none)
    (above : ∀ b ∈ h.ledger, b.toolCallId = a.toolCallId → b.attempt < a.attempt)
    (latest : ∀ b ∈ h.ledger, b.inCall h.round a.toolCallId = true → h.ledger.IsLatest b →
      b.status ≠ .completed ∧ (b.replayPolicy = .nonReplayable → b.Retryable))
    (hkeep : LedgerHistory.NonReplayable { h with ledger := h.ledger.upsert a } round toolCallId →
      h.NonReplayable round toolCallId) :
    LedgerHistory.Bounded { h with ledger := h.ledger.upsert a } round toolCallId := by
  have hnew : ∀ b ∈ h.ledger, b.key ≠ a.key := fun b hbmem hkey =>
    Nat.ne_of_lt (above b hbmem (congrArg Prod.fst hkey)) (congrArg Prod.snd hkey)
  have hcount : LedgerHistory.attemptsOf { h with ledger := h.ledger.upsert a } round toolCallId =
      h.attemptsOf round toolCallId + if a.inCall round toolCallId then 1 else 0 :=
    Table.countP_upsert_of_new hnew _
  refine ⟨fun b hbmem hstatus => ?_, ?_, fun hcall => ?_, fun hcall b hbmem hin hlatest hretry => ?_⟩
  · rcases Table.mem_upsert.mp hbmem with rfl | ⟨hbmem, -⟩
    · exact resolution
    · exact hb.scheduled b hbmem hstatus
  · have hlaunched : LedgerHistory.launchedOf { h with ledger := h.ledger.upsert a } round toolCallId =
        h.launchedOf round toolCallId := by
      simpa [launchedOf, status] using Table.countP_upsert_of_new hnew
        fun b : ToolExecutionAttempt => b.inCall round toolCallId && b.status ≠ .scheduled
    rw [hlaunched]
    exact hb.invoked
  · rw [hcount]
    by_cases hin : a.inCall round toolCallId = true
    · obtain ⟨har, rfl⟩ := ToolExecutionAttempt.inCall_eq_true.mp hin
      obtain rfl : h.round = round := Option.some.inj (toolRound.symm.trans har)
      have hroom := hb.room (hkeep hcall) fun b hbmem hbin hlatest =>
        (latest b hbmem hbin hlatest).2
      rw [if_pos hin, Nat.add_comm]
      exact Nat.add_le_add_left hroom 1
    · rw [if_neg hin]
      exact hb.attempts (hkeep hcall)
  · have hbmem' := Table.mem_upsert.mp hbmem
    rcases hbmem' with rfl | ⟨hbmem₀, -⟩
    · exact absurd hretry (not_retryable_of_scheduled status)
    · -- A stored attempt of the new attempt's call is not the latest any more.
      have hnot : a.inCall round toolCallId ≠ true := by
        intro hain
        obtain ⟨har, hid⟩ := ToolExecutionAttempt.inCall_eq_true.mp hain
        obtain ⟨hbr, hbid⟩ := ToolExecutionAttempt.inCall_eq_true.mp hin
        have hle := hlatest a (Table.mem_upsert.mpr (Or.inl rfl)) (hid.trans hbid.symm)
          (har.trans hbr.symm)
        have hlt := above b hbmem₀ (hbid.trans hid.symm)
        omega
      rw [hcount, if_neg hnot]
      exact hb.inStore (hkeep hcall) b hbmem₀ hin
        (fun c hc => hlatest c (Table.mem_upsert.mpr (Or.inr ⟨hc, hnew c hc⟩))) hretry

theorem Bounded.of_wrote (hb : h.Bounded round toolCallId) (w : Wrote strict h h') :
    h'.Bounded round toolCallId := by
  have hkeep : h'.NonReplayable round toolCallId → h.NonReplayable round toolCallId :=
    NonReplayable.of_wrote w
  cases w with
  | round => exact ⟨hb.scheduled, hb.invoked, hb.attempts, hb.inStore⟩
  | create toolRound status resolution above latest =>
    exact hb.create toolRound status resolution above latest hkeep
  | @start row new invoked mem same toolRound scheduled started resolution latest =>
    have hlaunched : new.status ≠ .scheduled := by rw [started]; decide
    have hunpaid : ¬new.Retryable := fun hretry => by
      have := hretry.1
      rw [resolution, hb.scheduled row mem scheduled] at this
      cases this
    refine ⟨hb.scheduled_upsert hlaunched, ?_, fun hcall => ?_, fun hcall a ha hin hlatest hretry => ?_⟩
    · have hcount := @launchedOf_upsert_started _ round toolCallId _ _ mem same scheduled started
      refine (Nat.le_trans ?_ (Nat.add_le_add_right hb.invoked _)).trans_eq hcount.symm
      refine (List.count_append ..).trans_le (Nat.add_le_add_left ?_ _)
      have hcall : (h.round, new.toolCallId) = (round, toolCallId) →
          new.inCall round toolCallId = true := fun heq =>
        ToolExecutionAttempt.inCall_eq_true.mpr
          ⟨(same.toolRound.trans toolRound).trans (congrArg (some ∘ Prod.fst) heq),
            congrArg Prod.snd heq⟩
      cases invoked with
      | false => exact Nat.zero_le _
      | true =>
        rw [if_pos rfl, List.count_singleton]
        split
        · next heq => rw [if_pos (hcall (beq_iff_eq.mp heq))]
        · exact Nat.zero_le _
    · exact (attemptsOf_upsert_version mem same).trans_le (hb.attempts (hkeep hcall))
    · exact (attemptsOf_upsert_version mem same).trans_le
        (hb.inStore_upsert mem same (fun h => absurd h hunpaid) (hkeep hcall) ha hin hlatest hretry)
  | rewrite mem same launched launched' retryable onLatest =>
    refine ⟨hb.scheduled_upsert launched', ?_, fun hcall => ?_, fun hcall a ha hin hlatest hretry => ?_⟩
    · exact hb.invoked.trans_eq (launchedOf_upsert_version mem same launched launched').symm
    · exact (attemptsOf_upsert_version mem same).trans_le (hb.attempts (hkeep hcall))
    · exact (attemptsOf_upsert_version mem same).trans_le
        (hb.inStore_upsert mem same retryable (hkeep hcall) ha hin hlatest hretry)
  | @retry row new round' mem same toolRound unknown unknown' =>
    have hlaunched : row.status ≠ .scheduled := by rw [unknown]; decide
    have hlaunched' : new.status ≠ .scheduled := by rw [unknown']; decide
    have hcount : (h.retries ++ [(round', row.toolCallId)]).count (round, toolCallId) =
        h.retriesOf round toolCallId + if row.inCall round toolCallId then 1 else 0 := by
      rw [List.count_append, List.count_singleton]
      simp [retriesOf, ToolExecutionAttempt.inCall, toolRound]
    refine ⟨hb.scheduled_upsert hlaunched', ?_, fun hcall => ?_, fun hcall a ha hin hlatest hretry => ?_⟩
    · exact hb.invoked.trans_eq (launchedOf_upsert_version mem same hlaunched hlaunched').symm
    · refine (attemptsOf_upsert_version mem same).trans_le ((hb.attempts (hkeep hcall)).trans ?_)
      exact Nat.add_le_add_left ((Nat.le_add_right _ _).trans_eq hcount.symm) 1
    · refine (attemptsOf_upsert_version mem same).trans_le (Nat.le_trans ?_ hcount.symm.le)
      by_cases hrow : row.inCall round toolCallId = true
      · rw [if_pos hrow, Nat.add_comm]
        exact hb.attempts (hkeep hcall)
      · -- The resolution is given to another call.
        rw [if_neg hrow, Nat.add_zero]
        rcases Table.mem_upsert.mp ha with rfl | ⟨ha, -⟩
        · exact absurd ((same.inCall_eq round toolCallId).symm.trans hin) hrow
        · exact hb.inStore (hkeep hcall) a ha hin ((Ledger.isLatest_upsert mem same a).mp hlatest)
            hretry

/-- A call whose tool must not be replayed is invoked at most once more often than it was given
RETRY. -/
theorem Bounded.invocationsOf_le (hb : h.Bounded round toolCallId)
    (hcall : h.NonReplayable round toolCallId) :
    h.invocationsOf round toolCallId ≤ 1 + h.retriesOf round toolCallId := by
  have hle : h.launchedOf round toolCallId ≤ h.attemptsOf round toolCallId :=
    List.countP_mono_left fun a _ ha => (Bool.and_eq_true_iff.mp ha).1
  exact (hb.invoked.trans hle).trans (hb.attempts hcall)

end Counting

/-- **The invariant of every history.** -/
structure Inv (h : LedgerHistory) : Prop where
  ordered : h.Ordered
  bounded : ∀ round toolCallId, h.Bounded round toolCallId

theorem Inv.of_wrote (hinv : h.Inv) (w : Wrote strict h h') : h'.Inv :=
  ⟨hinv.ordered.of_wrote w, fun round toolCallId => (hinv.bounded round toolCallId).of_wrote w⟩

theorem inv_empty : LedgerHistory.Inv {} where
  ordered := ⟨fun _ h => absurd h (Table.not_mem_empty _), fun _ h => absurd h (Table.not_mem_empty _),
    fun _ h => absurd h List.not_mem_nil, List.Pairwise.nil⟩
  bounded _ _ := ⟨fun _ h => absurd h (Table.not_mem_empty _), le_refl _, fun _ => Nat.zero_le _,
    fun _ _ h => absurd h (Table.not_mem_empty _)⟩

/-! ### Settled calls -/

/-- **COMPLETED attempts settle their calls.** -/
def Settled (h : LedgerHistory) : Prop :=
  ∀ a ∈ h.ledger, a.status = .completed → h.ledger.IsLatest a

/-- An attempt of the call is COMPLETED with this result. -/
def Done (h : LedgerHistory) (round : Nat) (toolCallId : String) (result : ToolCallResult) : Prop :=
  ∃ a ∈ h.ledger, a.inCall round toolCallId = true ∧ a.status = .completed ∧
    a.result = some result

private theorem Settled.upsert (hs : h.Settled) {row new : ToolExecutionAttempt}
    (mem : row ∈ h.ledger) (same : row.SameAttempt new)
    (onLatest : new.status = .completed → h.ledger.IsLatest row) :
    ∀ a ∈ h.ledger.upsert new, a.status = .completed → Ledger.IsLatest (h.ledger.upsert new) a := by
  intro a ha hstatus
  rw [Ledger.isLatest_upsert mem same]
  rcases Table.mem_upsert.mp ha with rfl | ⟨ha, -⟩
  · exact (Ledger.IsLatest.congr same).mpr (onLatest hstatus)
  · exact hs a ha hstatus

/-- Only the latest attempt of a call is COMPLETED, as long as the writes are strict. -/
theorem Settled.of_wrote (hs : h.Settled) (hstrict : strict) (w : Wrote strict h h') :
    h'.Settled := by
  cases w with
  | round => exact hs
  | @create a toolRound status resolution above latest =>
    intro b hb hstatus c hc hid hround
    rcases Table.mem_upsert.mp hb with rfl | ⟨hb₀, -⟩
    · rw [status] at hstatus; cases hstatus
    · rcases Table.mem_upsert.mp hc with rfl | ⟨hc, -⟩
      · -- A call with a COMPLETED attempt gets no new one.
        refine absurd hstatus (latest b hb₀ ?_ (hs b hb₀ hstatus)).1
        exact ToolExecutionAttempt.inCall_eq_true.mpr ⟨hround.symm.trans toolRound, hid.symm⟩
      · exact hs b hb₀ hstatus c hc hid hround
  | start invoked mem same toolRound scheduled started resolution latest =>
    exact hs.upsert mem same fun _ => latest
  | rewrite mem same launched launched' retryable onLatest =>
    exact hs.upsert mem same (onLatest hstrict).2
  | retry mem same toolRound unknown unknown' =>
    exact hs.upsert mem same fun hstatus => by rw [unknown'] at hstatus; cases hstatus

private theorem Done.upsert {round : Nat} {toolCallId : String} {result : ToolCallResult}
    (hdone : h.Done round toolCallId result) {row new : ToolExecutionAttempt} (mem : row ∈ h.ledger)
    (same : row.SameAttempt new) (openRow : row.status ≠ .completed) :
    ∃ a ∈ h.ledger.upsert new, a.inCall round toolCallId = true ∧ a.status = .completed ∧
      a.result = some result := by
  obtain ⟨a, ha, hin, hstatus, hresult⟩ := hdone
  refine ⟨a, Table.mem_upsert.mpr (Or.inr ⟨ha, fun hkey => openRow ?_⟩), hin, hstatus, hresult⟩
  rw [← Table.eq_of_key_eq ha mem (hkey.trans same.key)]
  exact hstatus

/-- **A settled call stays settled.** Its result is kept, and no invocation of it follows. -/
theorem Done.of_wrote {round : Nat} {toolCallId : String} {result : ToolCallResult}
    (hdone : h.Done round toolCallId result) (hs : h.Settled) (hstrict : strict)
    (w : Wrote strict h h') : h'.Done round toolCallId result ∧
      h'.invocationsOf round toolCallId = h.invocationsOf round toolCallId := by
  cases w with
  | round => exact ⟨hdone, rfl⟩
  | create toolRound status resolution above latest =>
    refine ⟨?_, rfl⟩
    obtain ⟨a, ha, hrest⟩ := hdone
    refine ⟨a, Table.mem_upsert.mpr (Or.inr ⟨ha, fun hkey => ?_⟩), hrest⟩
    exact Nat.ne_of_lt (above a ha (congrArg Prod.fst hkey)) (congrArg Prod.snd hkey)
  | @start row new invoked mem same toolRound scheduled started resolution latest =>
    refine ⟨hdone.upsert mem same (by rw [scheduled]; decide), ?_⟩
    obtain ⟨a, ha, hin, hstatus, -⟩ := hdone
    have hne : (h.round, new.toolCallId) ≠ (round, toolCallId) := by
      intro heq
      obtain ⟨har, haid⟩ := ToolExecutionAttempt.inCall_eq_true.mp hin
      have hid : a.toolCallId = row.toolCallId :=
        haid.trans ((congrArg Prod.snd heq).symm.trans same.toolCallId)
      have hround : a.toolRound = row.toolRound := by
        rw [har, toolRound, show h.round = round from congrArg Prod.fst heq]
      rw [(hs a ha hstatus).eq ha mem latest hid hround, scheduled] at hstatus
      cases hstatus
    cases invoked with
    | false => simp [invocationsOf]
    | true => simp [invocationsOf, List.count_append, hne]
  | rewrite mem same launched launched' retryable onLatest =>
    exact ⟨hdone.upsert mem same (onLatest hstrict).1, rfl⟩
  | retry mem same toolRound unknown unknown' =>
    exact ⟨hdone.upsert mem same (by rw [unknown]; decide), rfl⟩

/-- A call that is done is answered from the ledger. -/
theorem Done.prepareToolExecution {round : Nat} {call : ToolCall} {result : ToolCallResult}
    (hdone : h.Done round call.toolCallId result) (hinv : h.Inv) (hs : h.Settled) (runId : String)
    (tool? : String → Option ToolDefinition) (toolName : String) :
    EvernightAI.prepareToolExecution runId round tool? toolName call h.ledger.listAttempts =
      .ok (.reuse result) := by
  obtain ⟨a, ha, hin, hstatus, hresult⟩ := hdone
  have hscoped : hasUnscopedToolExecution call.toolCallId h.ledger.listAttempts = false := by
    refine Bool.eq_false_iff.mpr fun hany => ?_
    obtain ⟨b, hb, hnone⟩ := List.any_eq_true.mp hany
    obtain ⟨r, -, hr⟩ := hinv.ordered.inRound b (Ledger.mem_listAttempts.mp hb)
    simp [hr] at hnone
  have hlatest := Ledger.latestToolExecutionAttempt_eq ha hin (hs a ha hstatus)
  simp only [EvernightAI.prepareToolExecution, hscoped, hlatest, hstatus, hresult, Bool.false_eq_true,
    if_false]

end LedgerHistory

end EvernightAI

import Mathlib.Data.List.Basic

/-!
# Journals and the snapshots taken from them

A journal is a list of events; its state is the fold of a step function over it. A snapshot stands
for a beginning of the journal, and its reader catches up with the events after it.

* `replay` is the fold; `Inert` events change nothing wherever they are replayed.
* `NumberedFrom` journals carry consecutive numbers on their events, so that the events after a
  number are the events after a position (`NumberedFrom.filter_lt`).
* `replay_take_of_inert` and `foldl_drop_replay_take` are the two ways a snapshot is up to date:
  nothing happened after it, or what happened is replayed on it.
-/

namespace Journal

variable {σ ε : Type*} {next : σ → ε → σ} {init : σ} {journal : List ε} {event : ε} {n : ℕ}

/-! ### Replaying -/

/-- The state after the events of a journal. -/
def replay (next : σ → ε → σ) (init : σ) (journal : List ε) : σ := journal.foldl next init

/-- The event changes nothing. -/
def Inert (next : σ → ε → σ) (event : ε) : Prop := ∀ s, next s event = s

@[simp] theorem replay_nil : replay next init [] = init := rfl

@[simp] theorem replay_append_singleton :
    replay next init (journal ++ [event]) = next (replay next init journal) event :=
  List.foldl_concat ..

theorem foldl_of_inert {s : σ} (h : ∀ e ∈ journal, Inert next e) : journal.foldl next s = s := by
  induction journal generalizing s with
  | nil => rfl
  | cons e journal ih =>
    rw [List.foldl_cons, h e List.mem_cons_self s]
    exact ih fun e he => h e (List.mem_cons_of_mem _ he)

/-- The events after a snapshot, replayed on it. -/
theorem foldl_drop_replay_take :
    (journal.drop n).foldl next (replay next init (journal.take n)) = replay next init journal := by
  rw [replay, replay, ← List.foldl_append, List.take_append_drop]

/-- A snapshot after which nothing happened. -/
theorem replay_take_of_inert (h : ∀ e ∈ journal.drop n, Inert next e) :
    replay next init (journal.take n) = replay next init journal := by
  calc replay next init (journal.take n)
      = (journal.drop n).foldl next (replay next init (journal.take n)) := (foldl_of_inert h).symm
    _ = replay next init journal := foldl_drop_replay_take

/-! ### Numbered journals -/

/-- The events are numbered upwards, from the number after `n`. -/
def NumberedFrom (number : ε → Option ℕ) : ℕ → List ε → Prop
  | _, [] => True
  | n, event :: journal => number event = some (n + 1) ∧ NumberedFrom number (n + 1) journal

variable {number : ε → Option ℕ} {k : ℕ}

theorem NumberedFrom.append (h : NumberedFrom number k journal)
    (hevent : number event = some (k + journal.length + 1)) :
    NumberedFrom number k (journal ++ [event]) := by
  induction journal generalizing k with
  | nil => exact ⟨hevent, trivial⟩
  | cons e journal ih =>
    refine ⟨h.1, ih h.2 ?_⟩
    rw [hevent, List.length_cons]
    congr 1
    omega

theorem NumberedFrom.drop (h : NumberedFrom number k journal) (n : ℕ) :
    NumberedFrom number (k + n) (journal.drop n) := by
  induction journal generalizing k n with
  | nil => simp [NumberedFrom]
  | cons e journal ih =>
    cases n with
    | zero => exact h
    | succ n =>
      have hdrop := ih h.2 n
      rwa [show k + 1 + n = k + (n + 1) by omega] at hdrop

theorem NumberedFrom.exists_number (h : NumberedFrom number k journal) (hmem : event ∈ journal) :
    ∃ i, number event = some i ∧ k < i ∧ i ≤ k + journal.length := by
  induction journal generalizing k with
  | nil => exact absurd hmem List.not_mem_nil
  | cons e journal ih =>
    rw [List.length_cons]
    rcases List.mem_cons.mp hmem with rfl | hmem
    · exact ⟨k + 1, h.1, by omega, by omega⟩
    · obtain ⟨i, hi, hlt, hle⟩ := ih h.2 hmem
      exact ⟨i, hi, by omega, by omega⟩

/-- A number is the number of one event. -/
theorem NumberedFrom.eq_of_number_eq {event' : ε} (h : NumberedFrom number k journal)
    (hmem : event ∈ journal) (hmem' : event' ∈ journal) (heq : number event = number event') :
    event = event' := by
  induction journal generalizing k with
  | nil => exact absurd hmem List.not_mem_nil
  | cons e journal ih =>
    have hlater : ∀ e' ∈ journal, number e' ≠ some (k + 1) := by
      intro e' he' hnumber
      obtain ⟨i, hi, hlt, -⟩ := h.2.exists_number he'
      rw [hnumber, Option.some.injEq] at hi
      omega
    rcases List.mem_cons.mp hmem with hhead | htail
    · rcases List.mem_cons.mp hmem' with hhead' | htail'
      · rw [hhead, hhead']
      · exact absurd (heq.symm.trans (hhead ▸ h.1)) (hlater _ htail')
    · rcases List.mem_cons.mp hmem' with hhead' | htail'
      · exact absurd (heq.trans (hhead' ▸ h.1)) (hlater _ htail)
      · exact ih h.2 htail htail'

/-- The greatest number is the number of the last event. -/
theorem NumberedFrom.foldl_max (h : NumberedFrom number k journal) :
    (journal.filterMap number).foldl max k = k + journal.length := by
  induction journal generalizing k with
  | nil => rfl
  | cons e journal ih =>
    rw [List.filterMap_cons, h.1, List.foldl_cons, Nat.max_eq_right (Nat.le_succ k), ih h.2,
      List.length_cons]
    omega

/-- The events after a number are those after a position. -/
theorem NumberedFrom.filter_lt (h : NumberedFrom number k journal) (hle : k ≤ n) :
    (journal.filter fun e => (number e).all (n < ·)) = journal.drop (n - k) := by
  induction journal generalizing k with
  | nil => simp
  | cons e journal ih =>
    rw [List.filter_cons, h.1, Option.all_some]
    rcases Nat.eq_or_lt_of_le hle with rfl | hlt
    · rw [if_pos (by simp), Nat.sub_self, List.drop_zero]
      congr 1
      refine List.filter_eq_self.mpr fun e' he' => ?_
      obtain ⟨i, hi, hlt, -⟩ := h.2.exists_number he'
      rw [hi, Option.all_some]
      exact decide_eq_true (by omega)
    · rw [if_neg (by simpa using Nat.succ_le_of_lt hlt), ih h.2 hlt, show n - k = n - (k + 1) + 1 by omega,
        List.drop_succ_cons]

end Journal

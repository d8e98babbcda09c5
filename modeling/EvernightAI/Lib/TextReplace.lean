import Mathlib.Data.List.Infix

/-!
# Replacing occurrences in a list

`replaceFirst old new n` replaces the first `n` occurrences of `old`, found from the left and
without overlaps, and `count old` says how many there are. `Replaced` says the same without a scan:
what lies before, between and after the occurrences is kept.

* `replaced_replaceFirst` : the scan does what `Replaced` says, for as many occurrences as there
  are.
* `Replaced.count_add` : how often an element occurs then.
-/

namespace TextReplace

variable {α : Type*} {old new : List α}

/-- The first `n` occurrences are replaced: each is the leftmost one in what is left. -/
inductive Replaced (old new : List α) : ℕ → List α → List α → Prop
  | zero (s : List α) : Replaced old new 0 s s
  | succ {n : ℕ} (before : List α) {rest rest' : List α}
      (leftmost : ∀ i < before.length, ¬old <+: (before ++ old ++ rest).drop i)
      (h : Replaced old new n rest rest') :
      Replaced old new (n + 1) (before ++ old ++ rest) (before ++ new ++ rest')

/-- What is not an occurrence can be put in front. -/
theorem Replaced.cons {a : α} {n : ℕ} {s s' : List α} (h : Replaced old new (n + 1) s s')
    (hnot : ¬old <+: a :: s) : Replaced old new (n + 1) (a :: s) (a :: s') := by
  cases h with
  | succ before leftmost h =>
    refine Replaced.succ (a :: before) (fun i hi => ?_) h
    cases i with
    | zero => exact hnot
    | succ i => exact leftmost i (Nat.lt_of_succ_lt_succ hi)

variable [DecidableEq α]

/-- The scan, with what may still be replaced and what is left of the last occurrence. -/
def replaceFrom (old new : List α) : ℕ → ℕ → List α → List α
  | _, _, [] => []
  | limit, skip + 1, _ :: s => replaceFrom old new limit skip s
  | 0, 0, a :: s => a :: replaceFrom old new 0 0 s
  | limit + 1, 0, a :: s =>
    if old <+: a :: s then new ++ replaceFrom old new limit (old.length - 1) s
    else a :: replaceFrom old new (limit + 1) 0 s

/-- `s.replace(old, new, limit)` -/
def replaceFirst (old new : List α) (limit : ℕ) (s : List α) : List α :=
  replaceFrom old new limit 0 s

def countFrom (old : List α) : ℕ → List α → ℕ
  | _, [] => 0
  | skip + 1, _ :: s => countFrom old skip s
  | 0, a :: s =>
    if old <+: a :: s then countFrom old (old.length - 1) s + 1 else countFrom old 0 s

/-- `s.count(old)` -/
def count (old s : List α) : ℕ := countFrom old 0 s

/-- `s.replace(old, new)` -/
def replaceAll (old new s : List α) : List α := replaceFirst old new (count old s) s

/-! ### The scan -/

theorem replaceFrom_eq_drop (limit skip : ℕ) (s : List α) :
    replaceFrom old new limit skip s = replaceFirst old new limit (s.drop skip) := by
  induction s generalizing skip with
  | nil => simp [replaceFirst, replaceFrom]
  | cons a s ih =>
    cases skip with
    | zero => rfl
    | succ skip => simpa [replaceFrom] using ih skip

theorem countFrom_eq_drop (skip : ℕ) (s : List α) :
    countFrom old skip s = count old (s.drop skip) := by
  induction s generalizing skip with
  | nil => simp [count, countFrom]
  | cons a s ih =>
    cases skip with
    | zero => rfl
    | succ skip => simpa [countFrom] using ih skip

theorem replaceFirst_zero (s : List α) : replaceFirst old new 0 s = s := by
  induction s with
  | nil => rfl
  | cons a s ih => exact congrArg (a :: ·) ih

/-- An occurrence at the start. -/
theorem scan_append (hold : old ≠ []) (limit : ℕ) (rest : List α) :
    replaceFirst old new (limit + 1) (old ++ rest) = new ++ replaceFirst old new limit rest ∧
      count old (old ++ rest) = count old rest + 1 := by
  obtain ⟨a, s, rfl⟩ := List.exists_cons_of_ne_nil hold
  have hpre : a :: s <+: a :: (s ++ rest) := List.prefix_append (a :: s) rest
  have hdrop : (s ++ rest).drop ((a :: s).length - 1) = rest := List.drop_left
  constructor
  · refine (if_pos hpre).trans ?_
    rw [replaceFrom_eq_drop]
    exact congrArg (new ++ replaceFirst (a :: s) new limit ·) hdrop
  · refine (if_pos hpre).trans ?_
    rw [countFrom_eq_drop]
    exact congrArg (count (a :: s) · + 1) hdrop

/-- No occurrence at the start. -/
theorem scan_cons {a : α} {s : List α} (h : ¬old <+: a :: s) (limit : ℕ) :
    replaceFirst old new (limit + 1) (a :: s) = a :: replaceFirst old new (limit + 1) s ∧
      count old (a :: s) = count old s :=
  ⟨if_neg h, if_neg h⟩

/-- **The scan replaces the leftmost occurrences**, as many of them as there are. -/
theorem replaced_replaceFirst (hold : old ≠ []) {n : ℕ} {s : List α} (h : n ≤ count old s) :
    Replaced old new n s (replaceFirst old new n s) := by
  induction hlength : s.length using Nat.strong_induction_on generalizing n s with
  | _ length ih =>
    cases n with
    | zero =>
      rw [replaceFirst_zero]
      exact .zero s
    | succ n =>
      cases s with
      | nil => exact absurd h (by simp [count, countFrom])
      | cons a s =>
        by_cases hoccurs : old <+: a :: s
        · obtain ⟨rest, hrest⟩ := hoccurs
          rw [← hrest] at h hlength ⊢
          have ⟨hreplace, hcount⟩ :=
            (scan_append hold n rest : replaceFirst old new _ _ = _ ∧ _)
          rw [hreplace]
          have hpos : 0 < old.length := List.length_pos_of_ne_nil hold
          have hshorter : rest.length < length := by
            rw [List.length_append] at hlength
            omega
          exact Replaced.succ [] (fun i hi => absurd hi (Nat.not_lt_zero i))
            (ih rest.length hshorter (by omega) rfl)
        · have ⟨hreplace, hcount⟩ :=
            (scan_cons hoccurs n : replaceFirst old new _ _ = _ ∧ _)
          rw [hreplace]
          rw [hcount] at h
          exact (ih s.length (by rw [← hlength, List.length_cons]; omega) h rfl).cons hoccurs

/-! ### How often an element occurs -/

theorem Replaced.count_add {n : ℕ} {s s' : List α} (h : Replaced old new n s s') (a : α) :
    s'.count a + n * old.count a = s.count a + n * new.count a := by
  induction h with
  | zero s => omega
  | succ before leftmost h ih =>
    simp only [List.count_append, Nat.succ_mul] at ih ⊢
    omega

end TextReplace

import Mathlib.Data.List.Basic

/-!
# Splitting a text that is still growing

`split` cuts a sequence at the separators found from left to right; a separator is given by a
`Matcher`, the length of its match at the head of a sequence. A reader that splits what has arrived,
keeps the last part and splits again when more arrives finds the parts of the whole, wherever the
pieces were cut, if the separator is `Prompt`.

* `split_append` : one step of such a reader; `split_append_of_settled` is the same step of one that
  holds back what may still change.
* `split_append_of_silent`, `split_separator` : how joined parts are split again.
-/

namespace SplitText

variable {α : Type*}

/-- The length of the separator at the head, `0` if there is none. -/
abbrev Matcher (α : Type*) := List α → ℕ

/-- Put elements in front of the first part. -/
def prepend (front : List α) : List (List α) → List (List α)
  | [] => [front]
  | part :: parts => (front ++ part) :: parts

/-- The parts between the separators, after `skip` elements that belong to one. -/
def splitFrom (m : Matcher α) : ℕ → List α → List (List α)
  | _, [] => [[]]
  | skip + 1, _ :: rest => splitFrom m skip rest
  | 0, a :: rest =>
    match m (a :: rest) with
    | 0 => prepend [a] (splitFrom m 0 rest)
    | n + 1 => [] :: splitFrom m n rest

/-- **The parts between the separators.** -/
def split (m : Matcher α) (s : List α) : List (List α) := splitFrom m 0 s

variable {m : Matcher α} {a : α} {s t u : List α}

theorem splitFrom_cons_of_zero (h : m (a :: s) = 0) :
    splitFrom m 0 (a :: s) = prepend [a] (splitFrom m 0 s) := by
  rw [splitFrom, h]

theorem splitFrom_cons_of_succ {n : ℕ} (h : m (a :: s) = n + 1) :
    splitFrom m 0 (a :: s) = [] :: splitFrom m n s := by
  rw [splitFrom, h]

theorem splitFrom_eq_drop (m : Matcher α) (n : ℕ) (s : List α) :
    splitFrom m n s = split m (s.drop n) := by
  induction n generalizing s with
  | zero => rfl
  | succ n ih =>
    cases s with
    | nil => rfl
    | cons a s =>
      rw [splitFrom, ih, List.drop_succ_cons]

theorem prepend_ne_nil (front : List α) (parts : List (List α)) : prepend front parts ≠ [] := by
  cases parts <;> exact List.cons_ne_nil _ _

theorem splitFrom_ne_nil (m : Matcher α) : ∀ n s, splitFrom m n s ≠ []
  | _, [] => List.cons_ne_nil _ _
  | n + 1, _ :: s => splitFrom_ne_nil m n s
  | 0, a :: s => by
    cases h : m (a :: s) with
    | zero =>
      rw [splitFrom_cons_of_zero h]
      exact prepend_ne_nil _ _
    | succ n =>
      rw [splitFrom_cons_of_succ h]
      exact List.cons_ne_nil _ _

theorem split_ne_nil (m : Matcher α) (s : List α) : split m s ≠ [] := splitFrom_ne_nil m 0 s

/-- No separator starts in a sequence that is followed by `t`. -/
def Silent (m : Matcher α) (t : List α) : List α → Prop
  | [] => True
  | a :: s => m (a :: (s ++ t)) = 0 ∧ Silent m t s

theorem silent_append (hs : Silent m (t ++ u) s) (ht : Silent m u t) : Silent m u (s ++ t) := by
  induction s with
  | nil => exact ht
  | cons a s ih =>
    refine ⟨?_, ih hs.2⟩
    have hhead := hs.1
    rw [← List.append_assoc] at hhead
    exact hhead

/-- Elements at which no separator starts belong to the first part. -/
theorem split_append_of_silent (h : Silent m t s) : split m (s ++ t) = prepend s (split m t) := by
  induction s with
  | nil =>
    obtain ⟨part, parts, hparts⟩ := List.exists_cons_of_ne_nil (split_ne_nil m t)
    rw [List.nil_append, hparts]
    rfl
  | cons a s ih =>
    rw [List.cons_append, split, splitFrom_cons_of_zero h.1, ← split, ih h.2]
    obtain ⟨part, parts, hparts⟩ := List.exists_cons_of_ne_nil (split_ne_nil m t)
    rw [hparts]
    rfl

/-- A sequence without separators is its only part. -/
theorem split_of_silent (h : Silent m [] s) : split m s = [s] := by
  have hsplit := split_append_of_silent h
  rw [List.append_nil] at hsplit
  rw [hsplit]
  exact congrArg (fun part => [part]) (List.append_nil s)

/-- An only part is everything. -/
theorem eq_of_split_eq_singleton {part : List α} (h : split m s = [part]) : part = s := by
  induction s generalizing part with
  | nil => exact (List.singleton_inj.mp h).symm
  | cons a s ih =>
    cases hmatch : m (a :: s) with
    | succ n =>
      rw [split, splitFrom_cons_of_succ hmatch] at h
      exact absurd (List.cons.inj h).2 (splitFrom_ne_nil m n s)
    | zero =>
      rw [split, splitFrom_cons_of_zero hmatch, ← split] at h
      obtain ⟨first, parts, hparts⟩ := List.exists_cons_of_ne_nil (split_ne_nil m s)
      rw [hparts, prepend, List.cons.injEq] at h
      obtain ⟨rfl, rfl⟩ := h
      rw [ih hparts, List.singleton_append]

/-- **A prompt separator**: it lies in what has arrived, more does not change it, and where more
completes one there was no other. -/
structure Prompt (m : Matcher α) : Prop where
  le : ∀ s, m s ≤ s.length
  stable : ∀ s t, m s ≠ 0 → m (s ++ t) = m s
  alone : ∀ s t, m s = 0 → m (s ++ t) ≠ 0 → Silent m [] s

/-- The last part, which is still growing. -/
def rest (m : Matcher α) (s : List α) : List α := (split m s).getLast (split_ne_nil m s)

theorem rest_of_singleton (h : split m s = [s]) : rest m s = s := by
  simp only [rest, h, List.getLast_singleton]

theorem split_eq_append_rest (m : Matcher α) (s : List α) :
    split m s = (split m s).dropLast ++ [rest m s] := (List.dropLast_append_getLast _).symm

/-- The last part ends the sequence. -/
theorem rest_suffix (m : Matcher α) (s : List α) : rest m s <:+ s := by
  induction hlength : s.length using Nat.strongRecOn generalizing s with
  | _ length ih =>
    subst hlength
    cases s with
    | nil => exact List.suffix_rfl
    | cons a s =>
      cases hmatch : m (a :: s) with
      | succ n =>
        have hsplit : split m (a :: s) = [] :: split m (s.drop n) := by
          rw [split, splitFrom_cons_of_succ hmatch, splitFrom_eq_drop]
        have hrest : rest m (a :: s) = rest m (s.drop n) := by
          simp only [rest, hsplit, List.getLast_cons (split_ne_nil m (s.drop n))]
        have hlength : (s.drop n).length < (a :: s).length := by
          rw [List.length_drop, List.length_cons]
          omega
        rw [hrest]
        exact ((ih _ hlength _ rfl).trans (List.drop_suffix n s)).trans (List.suffix_cons a s)
      | zero =>
        have hsplit : split m (a :: s) = prepend [a] (split m s) := by
          rw [split, splitFrom_cons_of_zero hmatch, ← split]
        obtain ⟨part, parts, hparts⟩ := List.exists_cons_of_ne_nil (split_ne_nil m s)
        by_cases hne : parts = []
        · subst hne
          simp only [rest, hsplit, hparts, prepend, eq_of_split_eq_singleton hparts]
          exact List.suffix_rfl
        · have hrest : rest m (a :: s) = rest m s := by
            simp only [rest, hsplit, hparts, prepend, List.getLast_cons hne]
          rw [hrest]
          exact (ih _ (Nat.lt_succ_self _) s rfl).trans (List.suffix_cons a s)

/-- **One step of a reader.** -/
theorem split_append (hm : Prompt m) (s t : List α) :
    split m (s ++ t) = (split m s).dropLast ++ split m (rest m s ++ t) := by
  induction hlength : s.length using Nat.strongRecOn generalizing s with
  | _ length ih =>
    subst hlength
    cases s with
    | nil => rfl
    | cons a s =>
      by_cases hsingle : split m (a :: s) = [a :: s]
      · rw [rest_of_singleton hsingle, hsingle]
        rfl
      · cases hmatch : m (a :: s) with
        | succ n =>
          have hlater : m (a :: (s ++ t)) = n + 1 := by
            rw [← List.cons_append, hm.stable _ _ (by omega), hmatch]
          have hn : n ≤ s.length := by
            have := hm.le (a :: s)
            rw [hmatch, List.length_cons] at this
            omega
          have hsplit : split m (a :: s) = [] :: split m (s.drop n) := by
            rw [split, splitFrom_cons_of_succ hmatch, splitFrom_eq_drop]
          have hrest : rest m (a :: s) = rest m (s.drop n) := by
            simp only [rest, hsplit, List.getLast_cons (split_ne_nil m (s.drop n))]
          have hlength : (s.drop n).length < (a :: s).length := by
            rw [List.length_drop, List.length_cons]
            omega
          rw [split, List.cons_append, splitFrom_cons_of_succ hlater, splitFrom_eq_drop,
            List.drop_append_of_le_length hn, ih _ hlength (s.drop n) rfl, hrest, hsplit,
            List.dropLast_cons_of_ne_nil (split_ne_nil m _), List.cons_append]
        | zero =>
          -- a separator that only more completes would be the first one
          have hlater : m (a :: (s ++ t)) = 0 := by
            by_contra hne
            exact hsingle (split_of_silent (hm.alone _ t hmatch hne))
          have hsplit : split m (a :: s) = prepend [a] (split m s) := by
            rw [split, splitFrom_cons_of_zero hmatch, ← split]
          rw [split, List.cons_append, splitFrom_cons_of_zero hlater, ← split,
            ih _ (Nat.lt_succ_self _) s rfl]
          obtain ⟨part, parts, hparts⟩ := List.exists_cons_of_ne_nil (split_ne_nil m s)
          have hne : parts ≠ [] := by
            rintro rfl
            refine hsingle ?_
            rw [hsplit, hparts, prepend, eq_of_split_eq_singleton hparts, List.singleton_append]
          simp only [rest, hsplit, hparts, prepend, List.dropLast_cons_of_ne_nil hne,
            List.cons_append, List.nil_append, List.getLast_cons hne]

/-- The rest has no separator. -/
theorem split_rest (hm : Prompt m) (s : List α) : split m (rest m s) = [rest m s] := by
  have hsplit := split_append hm s []
  rw [List.append_nil, List.append_nil] at hsplit
  exact (List.append_cancel_left ((split_eq_append_rest m s).symm.trans hsplit)).symm

/-- The parts that more completes, and the new rest. -/
theorem dropLast_split_append (hm : Prompt m) (s t : List α) : (split m (s ++ t)).dropLast =
    (split m s).dropLast ++ (split m (rest m s ++ t)).dropLast := by
  rw [split_append hm, List.dropLast_append_of_ne_nil (split_ne_nil m _)]

theorem rest_append (hm : Prompt m) (s t : List α) : rest m (s ++ t) = rest m (rest m s ++ t) := by
  simp only [rest, split_append hm s t]
  exact List.getLast_append_right (split_ne_nil m _)

/-! ### Pieces that settle -/

/-- **A sequence whose separators are settled**: what comes after it changes none of them. -/
def Settled (m : Matcher α) (s t : List α) : Prop := ∀ u, u <:+ s → u ≠ [] → m (u ++ t) = m u

theorem Settled.of_suffix (h : Settled m s t) (hu : u <:+ s) : Settled m u t :=
  fun v hv hne => h v (hv.trans hu) hne

/-- A settled sequence gives up its parts; the last one is still growing. -/
theorem split_append_of_settled (hle : ∀ s, m s ≤ s.length) (h : Settled m s t) :
    split m (s ++ t) = (split m s).dropLast ++ split m (rest m s ++ t) := by
  induction hlength : s.length using Nat.strongRecOn generalizing s with
  | _ length ih =>
    subst hlength
    cases s with
    | nil => rfl
    | cons a s =>
      have hhead := h (a :: s) List.suffix_rfl (List.cons_ne_nil a s)
      rw [List.cons_append] at hhead
      cases hmatch : m (a :: s) with
      | succ n =>
        rw [hmatch] at hhead
        have hn : n ≤ s.length := by
          have := hle (a :: s)
          rw [hmatch, List.length_cons] at this
          omega
        have hsplit : split m (a :: s) = [] :: split m (s.drop n) := by
          rw [split, splitFrom_cons_of_succ hmatch, splitFrom_eq_drop]
        have hrest : rest m (a :: s) = rest m (s.drop n) := by
          simp only [rest, hsplit, List.getLast_cons (split_ne_nil m (s.drop n))]
        have hlength : (s.drop n).length < (a :: s).length := by
          rw [List.length_drop, List.length_cons]
          omega
        have hsuffix : s.drop n <:+ a :: s := (List.drop_suffix n s).trans (List.suffix_cons a s)
        rw [split, List.cons_append, splitFrom_cons_of_succ hhead, splitFrom_eq_drop,
          List.drop_append_of_le_length hn, ih _ hlength (h.of_suffix hsuffix) rfl, hrest, hsplit,
          List.dropLast_cons_of_ne_nil (split_ne_nil m _), List.cons_append]
      | zero =>
        rw [hmatch] at hhead
        have hsplit : split m (a :: s) = prepend [a] (split m s) := by
          rw [split, splitFrom_cons_of_zero hmatch, ← split]
        have htail := ih _ (Nat.lt_succ_self _) (h.of_suffix (List.suffix_cons a s)) rfl
        obtain ⟨part, parts, hparts⟩ := List.exists_cons_of_ne_nil (split_ne_nil m s)
        by_cases hne : parts = []
        · -- there is no separator yet, so all of it is still growing
          subst hne
          have hpart : part = s := eq_of_split_eq_singleton hparts
          rw [hpart] at hparts
          have hsingle : split m (a :: s) = [a :: s] := by
            rw [hsplit, hparts]
            rfl
          rw [rest_of_singleton hsingle, hsingle]
          rfl
        · rw [split, List.cons_append, splitFrom_cons_of_zero hhead, ← split, htail]
          simp only [rest, hsplit, hparts, prepend, List.dropLast_cons_of_ne_nil hne,
            List.cons_append, List.nil_append, List.getLast_cons hne]

/-- The last part of a longer sequence. -/
theorem rest_append_of_settled (hle : ∀ s, m s ≤ s.length) (h : Settled m s t) :
    rest m (s ++ t) = rest m (rest m s ++ t) := by
  simp only [rest, split_append_of_settled hle h]
  exact List.getLast_append_right (split_ne_nil m _)

/-! ### Splitting what was joined -/

/-- A separator ends a part. -/
theorem split_separator {separator : List α} (hne : separator ≠ [])
    (h : m (separator ++ t) = separator.length) : split m (separator ++ t) = [] :: split m t := by
  obtain ⟨a, separator, rfl⟩ := List.exists_cons_of_ne_nil hne
  rw [List.cons_append] at h ⊢
  rw [split, splitFrom_cons_of_succ h, splitFrom_eq_drop, List.drop_left]

end SplitText

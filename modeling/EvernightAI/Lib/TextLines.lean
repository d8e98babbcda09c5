import EvernightAI.Lib.SplitText

/-!
# Line breaks

What ends a line differs from platform to platform. `newline` and `blankLine` are the separators
`/\r?\n/` and `/\r?\n\r?\n/`; `splitlines` is `str.splitlines`, which also breaks at the separators
of Unicode and does not return an empty last line.

* `prompt_blankLine` : a stream can be split at blank lines as it grows.
* `join_linesOrEmpty_eq_iff` : lines joined with a line feed are the text exactly if it has no other
  break.
-/

namespace TextLines

open SplitText

/-- A text as its characters. -/
abbrev Text := List Char

/-- `/\r?\n/` -/
def newline : Matcher Char
  | '\r' :: '\n' :: _ => 2
  | '\n' :: _ => 1
  | _ => 0

/-- `/\r?\n\r?\n/` -/
def blankLine : Matcher Char := fun s =>
  if newline s = 0 ∨ newline (s.drop (newline s)) = 0 then 0
  else newline s + newline (s.drop (newline s))

/-- Where `str.splitlines` breaks: LF, VT, FF, CR, FS, GS, RS, NEL, LS and PS. -/
def isLineBreak (c : Char) : Bool :=
  c.toNat ∈ [0x0A, 0x0B, 0x0C, 0x0D, 0x1C, 0x1D, 0x1E, 0x85, 0x2028, 0x2029]

/-- The separator of `str.splitlines`; CR LF is one break. -/
def lineBreak : Matcher Char
  | '\r' :: '\n' :: _ => 2
  | c :: _ => if isLineBreak c then 1 else 0
  | [] => 0

/-- `str.splitlines()` -/
def splitlines (s : Text) : List Text :=
  let parts := split lineBreak s
  if rest lineBreak s = [] then parts.dropLast else parts

/-- `"\n".join(lines)` -/
def join (lines : List Text) : Text := ['\n'].intercalate lines

/-! ### Newlines -/

/-- A line: no character of a newline. -/
def Plain (line : Text) : Prop := ∀ c ∈ line, c ≠ '\n' ∧ c ≠ '\r'

instance (line : Text) : Decidable (Plain line) := List.decidableBAll _ line

theorem newline_cons {c : Char} {s : Text} (hn : c ≠ '\n') (hr : c ≠ '\r') : newline (c :: s) = 0 := by
  unfold newline
  split <;> simp_all

/-- What a newline is. -/
theorem newline_cases (s : Text) : newline s = 0 ∨ (∃ t, s = '\n' :: t) ∨ ∃ t, s = '\r' :: '\n' :: t := by
  unfold newline
  split
  · exact Or.inr (Or.inr ⟨_, rfl⟩)
  · exact Or.inr (Or.inl ⟨_, rfl⟩)
  · exact Or.inl rfl

theorem newline_append {s t : Text} (h : newline s ≠ 0) : newline (s ++ t) = newline s := by
  rcases newline_cases s with h₀ | ⟨r, rfl⟩ | ⟨r, rfl⟩
  · exact absurd h₀ h
  · rfl
  · rfl

/-- Only a carriage return at the end can become a newline. -/
theorem eq_of_newline_append {s t : Text} (h : newline s = 0) (hlater : newline (s ++ t) ≠ 0) :
    s = [] ∨ s = ['\r'] := by
  match s with
  | [] => exact Or.inl rfl
  | [c] =>
    by_cases hn : c = '\n'
    · subst hn
      exact absurd h (by decide)
    · by_cases hr : c = '\r'
      · exact Or.inr (by rw [hr])
      · exact absurd (newline_cons hn hr) hlater
  | c :: d :: s =>
    refine absurd ?_ hlater
    rw [← h]
    unfold newline
    split <;> simp_all

theorem newline_le (s : Text) : newline s ≤ s.length := by
  rcases newline_cases s with h | ⟨r, rfl⟩ | ⟨r, rfl⟩
  · omega
  · simp [newline]
  · simp [newline]

/-- **Blank lines are prompt.** -/
theorem prompt_blankLine : Prompt blankLine where
  le s := by
    have hfirst := newline_le s
    have hsecond := newline_le (s.drop (newline s))
    rw [List.length_drop] at hsecond
    unfold blankLine
    split_ifs
    · omega
    · omega
  stable s t h := by
    have hne : newline s ≠ 0 ∧ newline (s.drop (newline s)) ≠ 0 := by
      by_contra hor
      exact h (if_pos (by tauto))
    have hdrop : (s ++ t).drop (newline s) = s.drop (newline s) ++ t :=
      List.drop_append_of_le_length (newline_le s)
    simp only [blankLine, newline_append hne.1, hdrop, newline_append hne.2]
  alone s t h hlater := by
    have hne : newline (s ++ t) ≠ 0 ∧ newline ((s ++ t).drop (newline (s ++ t))) ≠ 0 := by
      by_contra hor
      exact hlater (if_pos (by tauto))
    by_cases hfirst : newline s = 0
    · rcases eq_of_newline_append hfirst hne.1 with rfl | rfl
      · trivial
      · exact ⟨rfl, trivial⟩
    · have hsecond : newline (s.drop (newline s)) = 0 := by
        by_contra hsecond
        rw [blankLine, if_neg (by tauto)] at h
        omega
      rw [newline_append hfirst, List.drop_append_of_le_length (newline_le s)] at hne
      rcases newline_cases s with h₀ | ⟨r, rfl⟩ | ⟨r, rfl⟩
      · exact absurd h₀ hfirst
      · rcases eq_of_newline_append hsecond hne.2 with hr | hr <;> cases hr <;>
          exact ⟨rfl, by repeat constructor⟩
      · rcases eq_of_newline_append hsecond hne.2 with hr | hr <;> cases hr <;>
          exact ⟨rfl, by repeat constructor⟩

/-! ### Joined lines -/

theorem join_singleton (line : Text) : join [line] = line := by
  simp [join, List.intercalate]

theorem join_cons_cons (line next : Text) (lines : List Text) :
    join (line :: next :: lines) = line ++ ['\n'] ++ join (next :: lines) := by
  simp [join, List.intercalate]

theorem mem_join {lines : List Text} {c : Char} (h : c ∈ join lines) :
    c = '\n' ∨ ∃ line ∈ lines, c ∈ line := by
  induction lines with
  | nil => exact absurd h List.not_mem_nil
  | cons line lines ih =>
    cases lines with
    | nil => exact Or.inr ⟨line, List.mem_cons_self .., by rwa [join_singleton] at h⟩
    | cons next lines =>
      rw [join_cons_cons, List.mem_append, List.mem_append, List.mem_singleton] at h
      rcases h with (h | h) | h
      · exact Or.inr ⟨line, List.mem_cons_self .., h⟩
      · exact Or.inl h
      · rcases ih h with h | ⟨other, hother, h⟩
        · exact Or.inl h
        · exact Or.inr ⟨other, List.mem_cons_of_mem _ hother, h⟩

/-- In a line no newline starts, nor a blank line. -/
theorem silent_newline {line t : Text} (h : Plain line) : Silent newline t line := by
  induction line with
  | nil => trivial
  | cons c line ih =>
    obtain ⟨hhead, hrest⟩ := List.forall_mem_cons.mp h
    exact ⟨newline_cons hhead.1 hhead.2, ih hrest⟩

theorem silent_blankLine {line t : Text} (h : Plain line) : Silent blankLine t line := by
  induction line with
  | nil => trivial
  | cons c line ih =>
    obtain ⟨hhead, hrest⟩ := List.forall_mem_cons.mp h
    exact ⟨if_pos (Or.inl (newline_cons hhead.1 hhead.2)), ih hrest⟩

/-- **Joined lines are split again.** -/
theorem split_newline_join {lines : List Text} (hne : lines ≠ []) (hlines : ∀ line ∈ lines, Plain line) :
    split newline (join lines) = lines := by
  induction lines with
  | nil => exact absurd rfl hne
  | cons line lines ih =>
    obtain ⟨hline, hrest⟩ := List.forall_mem_cons.mp hlines
    cases lines with
    | nil =>
      rw [join_singleton]
      exact split_of_silent (silent_newline hline)
    | cons next lines =>
      rw [join_cons_cons, List.append_assoc, split_append_of_silent (silent_newline hline),
        split_separator (List.cons_ne_nil _ _) rfl, ih (List.cons_ne_nil _ _) hrest, prepend,
        List.append_nil]

/-- In a text whose lines are not empty no blank line starts. -/
theorem silent_blankLine_join {lines : List Text} {t : Text}
    (hlines : ∀ line ∈ lines, line ≠ [] ∧ Plain line) : Silent blankLine t (join lines) := by
  induction lines with
  | nil => trivial
  | cons line lines ih =>
    obtain ⟨hline, hrest⟩ := List.forall_mem_cons.mp hlines
    cases lines with
    | nil =>
      rw [join_singleton]
      exact silent_blankLine hline.2
    | cons next lines =>
      rw [join_cons_cons, List.append_assoc]
      refine silent_append (silent_blankLine hline.2) ⟨?_, ih hrest⟩
      -- the line after a line feed starts with another character
      obtain ⟨hnext, hplain⟩ := hrest next (List.mem_cons_self ..)
      obtain ⟨c, next, rfl⟩ := List.exists_cons_of_ne_nil hnext
      have hstart : ∃ s, join ((c :: next) :: lines) ++ t = c :: s := by
        cases lines with
        | nil => exact ⟨next ++ t, by rw [join_singleton]; rfl⟩
        | cons other lines => exact ⟨_, by rw [join_cons_cons]; rfl⟩
      obtain ⟨s, hs⟩ := hstart
      have hc := hplain c (List.mem_cons_self ..)
      have hsecond : newline (join ((c :: next) :: lines) ++ t) = 0 := by
        rw [hs, newline_cons hc.1 hc.2]
      exact if_pos (Or.inr hsecond)

/-! ### `str.splitlines` -/

theorem lineBreak_cons_eq_zero {c : Char} {s : Text} :
    lineBreak (c :: s) = 0 ↔ isLineBreak c = false := by
  unfold lineBreak
  split
  · simp_all [isLineBreak]
  · simp_all
  · simp_all

/-- No line has a break. -/
theorem not_isLineBreak_of_mem_splitFrom {n : ℕ} {s part : Text} {c : Char}
    (hpart : part ∈ splitFrom lineBreak n s) (hc : c ∈ part) : isLineBreak c = false := by
  induction s generalizing n part with
  | nil =>
    have hnil : part = [] := by
      cases n <;> simpa [splitFrom] using hpart
    subst hnil
    exact absurd hc (List.not_mem_nil)
  | cons d s ih =>
    cases n with
    | succ n => exact ih hpart hc
    | zero =>
      cases hmatch : lineBreak (d :: s) with
      | succ n =>
        rw [splitFrom_cons_of_succ hmatch, List.mem_cons] at hpart
        rcases hpart with rfl | hpart
        · exact absurd hc (List.not_mem_nil)
        · exact ih hpart hc
      | zero =>
        rw [splitFrom_cons_of_zero hmatch] at hpart
        obtain ⟨first, parts, hparts⟩ := List.exists_cons_of_ne_nil (splitFrom_ne_nil lineBreak 0 s)
        rw [hparts, prepend, List.mem_cons] at hpart
        rcases hpart with rfl | hpart
        · rcases List.mem_append.mp hc with hd | hfirst
          · rw [List.mem_singleton.mp hd]
            exact lineBreak_cons_eq_zero.mp hmatch
          · exact ih (hparts ▸ List.mem_cons_self ..) hfirst
        · exact ih (hparts ▸ List.mem_cons_of_mem _ hpart) hc

theorem not_isLineBreak_of_mem_splitlines {s line : Text} {c : Char} (hline : line ∈ splitlines s)
    (hc : c ∈ line) : isLineBreak c = false := by
  refine not_isLineBreak_of_mem_splitFrom (n := 0) (s := s) ?_ hc
  rw [splitlines] at hline
  split_ifs at hline
  · exact (List.dropLast_sublist _).subset hline
  · exact hline

theorem silent_lineBreak {s t : Text} (h : ∀ c ∈ s, isLineBreak c = false) : Silent lineBreak t s := by
  induction s with
  | nil => trivial
  | cons c s ih =>
    obtain ⟨hhead, hrest⟩ := List.forall_mem_cons.mp h
    exact ⟨lineBreak_cons_eq_zero.mpr hhead, ih hrest⟩

/-- `text.splitlines() or [""]` -/
def linesOrEmpty (s : Text) : List Text := if splitlines s = [] then [[]] else splitlines s

theorem not_isLineBreak_of_mem_linesOrEmpty {s line : Text} {c : Char}
    (hline : line ∈ linesOrEmpty s) (hc : c ∈ line) : isLineBreak c = false := by
  rw [linesOrEmpty] at hline
  split_ifs at hline
  · rw [List.mem_singleton.mp hline] at hc
    exact absurd hc List.not_mem_nil
  · exact not_isLineBreak_of_mem_splitlines hline hc

/-- The lines are plain. -/
theorem plain_of_mem_linesOrEmpty {s line : Text} (hline : line ∈ linesOrEmpty s) : Plain line := by
  intro c hc
  have hbreak := not_isLineBreak_of_mem_linesOrEmpty hline hc
  constructor
  · rintro rfl
    exact absurd hbreak (by decide)
  · rintro rfl
    exact absurd hbreak (by decide)

/-- **What the lines keep**: joined with line feeds they are the text exactly if it has no other
break. -/
theorem join_linesOrEmpty_eq_iff {s : Text} (hs : '\n' ∉ s) :
    join (linesOrEmpty s) = s ↔ ∀ c ∈ s, isLineBreak c = false := by
  constructor
  · intro hjoin c hc
    rw [← hjoin] at hc
    rcases mem_join hc with rfl | ⟨line, hline, hc⟩
    · rw [hjoin] at hc
      exact absurd hc hs
    · exact not_isLineBreak_of_mem_linesOrEmpty hline hc
  · intro h
    have hsplit := split_of_silent (silent_lineBreak (t := []) h)
    rw [linesOrEmpty, splitlines, rest_of_singleton hsplit, hsplit]
    cases s with
    | nil => rfl
    | cons c s => rw [if_neg (List.cons_ne_nil c s), if_neg (List.cons_ne_nil _ _), join_singleton]

end TextLines

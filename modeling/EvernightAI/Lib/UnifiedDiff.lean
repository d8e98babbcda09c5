import EvernightAI.Lib.TextLines
import Mathlib.Data.List.Induction

/-!
# Unified diffs

`difflib.unified_diff` writes the groups of an edit script as hunks, and `applyDiff` is how a diff
is read: its lines end at line feeds, a line of a text without one is followed by the note that
there is none, and a hunk says at which line of the old text it starts.

* `applyDiff_unifiedDiff` : a diff that is written from a correct edit script leads from the old
  text to the new one, if the lines that the script goes over are those that end at line feeds.
-/

namespace UnifiedDiff

open TextLines

/-! ### Lines with their ends -/

/-- Put a character in front of the first line. -/
def prepend (c : Char) : List Text → List Text
  | [] => [[c]]
  | line :: lines => (c :: line) :: lines

/-- The lines of a text, with their ends: `ends` says after which character, before what, one
ends. -/
def linesBy (ends : Char → Text → Bool) : Text → List Text
  | [] => []
  | c :: s => if ends c s then [c] :: linesBy ends s else prepend c (linesBy ends s)

/-- The lines that end at line feeds. -/
def lfLines (s : Text) : List Text := linesBy (fun c _ => c == '\n') s

/-- `str.splitlines(keepends=True)` -/
def keptLines (s : Text) : List Text :=
  linesBy (fun c s => isLineBreak c && !(c == '\r' && s.head? == some '\n')) s

theorem flatten_prepend (c : Char) (lines : List Text) :
    (prepend c lines).flatten = c :: lines.flatten := by
  cases lines with
  | nil => rfl
  | cons line lines => rfl

theorem flatten_linesBy (ends : Char → Text → Bool) (s : Text) :
    (linesBy ends s).flatten = s := by
  induction s with
  | nil => rfl
  | cons c s ih =>
    unfold linesBy
    split_ifs with h
    · rw [List.flatten_cons, ih]
      rfl
    · rw [flatten_prepend, ih]

theorem flatten_lfLines (s : Text) : (lfLines s).flatten = s := flatten_linesBy _ s

theorem flatten_keptLines (s : Text) : (keptLines s).flatten = s := flatten_linesBy _ s

/-- A line that ends at a line feed. -/
def Ended (line : Text) : Prop := ∃ body, '\n' ∉ body ∧ line = body ++ ['\n']

/-- A last line without a line feed. -/
def Open (line : Text) : Prop := '\n' ∉ line ∧ line ≠ []

/-- Lines of one text: all but the last end at line feeds. -/
def Lines : List Text → Prop
  | [] => True
  | line :: lines => (Ended line ∨ Open line ∧ lines = []) ∧ Lines lines

theorem lfLines_body {body : Text} (h : '\n' ∉ body) (s : Text) :
    lfLines (body ++ '\n' :: s) = (body ++ ['\n']) :: lfLines s := by
  induction body with
  | nil => rfl
  | cons c body ih =>
    have hc : (c == '\n') = false := beq_eq_false_iff_ne.mpr fun heq => h (heq ▸ List.mem_cons_self)
    have htail := ih fun hmem => h (List.mem_cons_of_mem _ hmem)
    unfold lfLines at htail ⊢
    rw [List.cons_append, linesBy, hc, if_neg Bool.false_ne_true, htail]
    rfl

theorem lfLines_open {body : Text} (h : '\n' ∉ body) (hne : body ≠ []) : lfLines body = [body] := by
  induction body with
  | nil => exact absurd rfl hne
  | cons c body ih =>
    have hc : (c == '\n') = false := beq_eq_false_iff_ne.mpr fun heq => h (heq ▸ List.mem_cons_self)
    unfold lfLines at ih ⊢
    rw [linesBy, hc, if_neg Bool.false_ne_true]
    by_cases hbody : body = []
    · rw [hbody]
      rfl
    · rw [ih (fun hmem => h (List.mem_cons_of_mem _ hmem)) hbody]
      rfl

theorem lfLines_ended {line : Text} (h : Ended line) (s : Text) :
    lfLines (line ++ s) = line :: lfLines s := by
  obtain ⟨body, hbody, rfl⟩ := h
  rw [List.append_assoc]
  exact lfLines_body hbody s

/-- Lines are read off their text again. -/
theorem lfLines_flatten {lines : List Text} (h : Lines lines) : lfLines lines.flatten = lines := by
  induction lines with
  | nil => rfl
  | cons line lines ih =>
    obtain ⟨hended | ⟨hopen, rfl⟩, hlines⟩ := h
    · rw [List.flatten_cons, lfLines_ended hended, ih hlines]
    · rw [List.flatten_singleton, lfLines_open hopen.1 hopen.2]

theorem lines_prepend {c : Char} {lines : List Text} (hc : c ≠ '\n') (h : Lines lines) :
    Lines (prepend c lines) := by
  cases lines with
  | nil => exact ⟨.inr ⟨⟨fun hmem => hc (List.mem_singleton.mp hmem).symm, List.cons_ne_nil _ _⟩,
      rfl⟩, trivial⟩
  | cons line lines =>
    refine ⟨h.1.imp ?_ ?_, h.2⟩
    · rintro ⟨body, hbody, rfl⟩
      exact ⟨c :: body, List.not_mem_cons_of_ne_of_not_mem hc.symm hbody, rfl⟩
    · rintro ⟨⟨hline, -⟩, hlast⟩
      exact ⟨⟨List.not_mem_cons_of_ne_of_not_mem hc.symm hline, List.cons_ne_nil _ _⟩, hlast⟩

theorem lines_lfLines (s : Text) : Lines (lfLines s) := by
  induction s with
  | nil => trivial
  | cons c s ih =>
    unfold lfLines at ih ⊢
    rw [linesBy]
    split_ifs with hc
    · exact ⟨.inl ⟨[], List.not_mem_nil, by rw [beq_iff_eq.mp hc]; rfl⟩, ih⟩
    · exact lines_prepend (fun heq => hc (beq_iff_eq.mpr heq)) ih

theorem Lines.drop {lines : List Text} (h : Lines lines) (k : ℕ) : Lines (lines.drop k) := by
  induction lines generalizing k with
  | nil =>
    rw [List.drop_nil]
    trivial
  | cons line lines ih =>
    cases k with
    | zero => exact h
    | succ k => exact ih h.2 k

theorem Lines.mem {lines : List Text} (h : Lines lines) {line : Text} (hline : line ∈ lines) :
    Ended line ∨ Open line := by
  induction lines with
  | nil => exact absurd hline List.not_mem_nil
  | cons first lines ih =>
    rcases List.mem_cons.mp hline with rfl | hline
    · exact h.1.imp_right And.left
    · exact ih h.2 hline

/-! ### The note that a line has no line feed -/

/-- `\ No newline at end of file` -/
def noNewline : Text := "\\ No newline at end of file\n".toList

/-- A line of a diff, followed by the note if it has no line feed. -/
def mark (line : Text) : Text :=
  if line.getLast? = some '\n' then line else line ++ '\n' :: noNewline

/-- The lines of a diff, without the notes. -/
def unmark : List Text → List Text
  | [] => []
  | [line] => [line]
  | line :: next :: lines =>
    if next = noNewline then line.dropLast :: unmark lines else line :: unmark (next :: lines)

/-- A line of a diff is none of a note. -/
def DiffLine (line : Text) : Prop := (Ended line ∨ Open line) ∧ line.head? ≠ some '\\'

theorem getLast?_ended {line : Text} (h : Ended line) : line.getLast? = some '\n' := by
  obtain ⟨body, -, rfl⟩ := h
  exact List.getLast?_concat

theorem getLast?_open {line : Text} (h : Open line) : line.getLast? ≠ some '\n' := by
  intro hlast
  exact h.1 (List.mem_of_getLast? hlast)

theorem ended_noNewline : Ended noNewline := ⟨"\\ No newline at end of file".toList, by decide, rfl⟩

theorem mark_ended {line : Text} (h : Ended line) : mark line = line := if_pos (getLast?_ended h)

theorem mark_open {line : Text} (h : Open line) : mark line = line ++ '\n' :: noNewline :=
  if_neg (getLast?_open h)

theorem lfLines_mark_append {line : Text} (h : Ended line ∨ Open line) (s : Text) :
    lfLines (mark line ++ s) = line :: lfLines s ∨
      line ≠ [] ∧ lfLines (mark line ++ s) = (line ++ ['\n']) :: noNewline :: lfLines s := by
  rcases h with hended | hopen
  · rw [mark_ended hended]
    exact .inl (lfLines_ended hended s)
  · rw [mark_open hopen, List.append_assoc, List.cons_append, lfLines_body hopen.1,
      lfLines_ended ended_noNewline]
    exact .inr ⟨hopen.2, rfl⟩

theorem ne_noNewline_of_head? {line : Text} (h : line.head? ≠ some '\\') : line ≠ noNewline := by
  rintro rfl
  exact h rfl

/-- The lines of a marked diff start with a line of the diff, or there are none. -/
theorem head_lfLines_marked {lines : List Text} (h : ∀ line ∈ lines, DiffLine line) :
    ∀ next ∈ (lfLines (lines.map mark).flatten).head?, next ≠ noNewline := by
  cases lines with
  | nil =>
    intro next hnext
    cases hnext
  | cons line lines =>
    have hline := h line List.mem_cons_self
    rw [List.map_cons, List.flatten_cons]
    intro next hnext
    rcases lfLines_mark_append hline.1 (lines.map mark).flatten with heq | ⟨hne, heq⟩
    · rw [heq] at hnext
      obtain rfl := Option.some.inj hnext
      exact ne_noNewline_of_head? hline.2
    · rw [heq] at hnext
      obtain rfl := Option.some.inj hnext
      refine ne_noNewline_of_head? ?_
      rw [List.head?_append_of_ne_nil _ hne]
      exact hline.2

theorem unmark_cons {line : Text} {lines : List Text}
    (h : ∀ next ∈ lines.head?, next ≠ noNewline) :
    unmark (line :: lines) = line :: unmark lines := by
  cases lines with
  | nil => rfl
  | cons next lines => exact if_neg (h next rfl)

/-- The lines of a diff are read off it again. -/
theorem unmark_lfLines_marked {lines : List Text} (h : ∀ line ∈ lines, DiffLine line) :
    unmark (lfLines (lines.map mark).flatten) = lines := by
  induction lines with
  | nil => rfl
  | cons line lines ih =>
    have htail : ∀ line ∈ lines, DiffLine line := fun line hline =>
      h line (List.mem_cons_of_mem _ hline)
    rw [List.map_cons, List.flatten_cons]
    rcases lfLines_mark_append (h line List.mem_cons_self).1 (lines.map mark).flatten with
      heq | ⟨-, heq⟩
    · rw [heq, unmark_cons (head_lfLines_marked htail), ih htail]
    · rw [heq, unmark, if_pos rfl, ih htail, List.dropLast_concat]

/-! ### Edit scripts -/

/-- `tag` of an opcode. -/
inductive Tag
  | equal | replace | delete | insert
  deriving DecidableEq, Repr

/-- An opcode of `difflib.SequenceMatcher`: what becomes of `a[i1:i2]` and `b[j1:j2]`. -/
structure Opcode where
  tag : Tag
  i1 : ℕ
  i2 : ℕ
  j1 : ℕ
  j2 : ℕ
  deriving DecidableEq, Repr

/-- `l[i:k]` -/
def slice (l : List Text) (i k : ℕ) : List Text := (l.take k).drop i

variable {a b : List Text}

/-- An opcode says what is so of its two blocks. -/
structure Opcode.Right (a b : List Text) (c : Opcode) : Prop where
  i_le : c.i1 ≤ c.i2
  j_le : c.j1 ≤ c.j2
  i_length : c.i2 ≤ a.length
  j_length : c.j2 ≤ b.length
  block : match c.tag with
    | .equal => slice a c.i1 c.i2 = slice b c.j1 c.j2
    | .replace => True
    | .delete => c.j1 = c.j2
    | .insert => c.i1 = c.i2

/-- The opcodes lead from one place of both texts to another. -/
def Chain (a b : List Text) : ℕ → ℕ → List Opcode → ℕ → ℕ → Prop
  | i, j, [], i', j' => i = i' ∧ j = j'
  | i, j, c :: codes, i', j' =>
    c.i1 = i ∧ c.j1 = j ∧ c.Right a b ∧ Chain a b c.i2 c.j2 codes i' j'

/-- What `difflib.SequenceMatcher(None, a, b).get_opcodes()` returns, assumed to be right. -/
structure SequenceMatcher where
  opcodes : List Text → List Text → List Opcode
  chain : ∀ a b, Chain a b 0 0 (opcodes a b) a.length b.length

/-! ### Groups of opcodes -/

/-- The number of lines around a change. -/
def context : ℕ := 3

def Opcode.trimStart (c : Opcode) : Opcode :=
  { c with i1 := max c.i1 (c.i2 - context), j1 := max c.j1 (c.j2 - context) }

def Opcode.trimEnd (c : Opcode) : Opcode :=
  { c with i2 := min c.i2 (c.i1 + context), j2 := min c.j2 (c.j1 + context) }

/-- The leading equal lines are cut down. -/
def trimFirst : List Opcode → List Opcode
  | [] => []
  | c :: codes => (if c.tag = .equal then c.trimStart else c) :: codes

/-- The trailing equal lines are cut down. -/
def trimLast : List Opcode → List Opcode
  | [] => []
  | [c] => [if c.tag = .equal then c.trimEnd else c]
  | c :: next :: codes => c :: trimLast (next :: codes)

/-- The loop over the opcodes, with the group so far. -/
def groupFrom : List Opcode → List Opcode → List (List Opcode)
  | group, [] =>
    if group = [] ∨ (group.map Opcode.tag = [.equal]) then [] else [group]
  | group, c :: codes =>
    if c.tag = .equal ∧ 2 * context < c.i2 - c.i1 then
      (group ++ [c.trimEnd]) :: groupFrom [c.trimStart] codes
    else groupFrom (group ++ [c]) codes

/-- `get_grouped_opcodes(3)` -/
def grouped (codes : List Opcode) : List (List Opcode) :=
  groupFrom [] (trimLast (trimFirst
    (if codes = [] then [{ tag := .equal, i1 := 0, i2 := 1, j1 := 0, j2 := 1 }] else codes)))

/-! ### What lies between two places -/

theorem slice_self (l : List Text) (i : ℕ) : slice l i i = [] :=
  List.drop_eq_nil_of_le (List.length_take_le i l)

theorem length_slice {l : List Text} {i k : ℕ} (h : k ≤ l.length) :
    (slice l i k).length = k - i := by
  rw [slice, List.length_drop, List.length_take, Nat.min_eq_left h]

theorem take_append_slice {l : List Text} {i k : ℕ} (h : i ≤ k) :
    l.take i ++ slice l i k = l.take k := by
  have hpre : (l.take k).take i = l.take i := by rw [List.take_take, Nat.min_eq_left h]
  rw [← hpre]
  exact List.take_append_drop i (l.take k)

theorem slice_append_slice {l : List Text} {i m k : ℕ} (him : i ≤ m) (hmk : m ≤ k) :
    slice l i m ++ slice l m k = slice l i k := by
  have hwhole : l.take i ++ (slice l i m ++ slice l m k) = l.take i ++ slice l i k := by
    rw [← List.append_assoc, take_append_slice him, take_append_slice hmk,
      take_append_slice (Nat.le_trans him hmk)]
  exact List.append_cancel_left hwhole

theorem slice_length (l : List Text) (i : ℕ) : slice l i l.length = l.drop i := by
  rw [slice, List.take_length]

/-- The texts agree from one place to another. -/
structure Same (a b : List Text) (i j i' j' : ℕ) : Prop where
  i_le : i ≤ i'
  j_le : j ≤ j'
  block : slice a i i' = slice b j j'

theorem Same.refl (i j : ℕ) : Same a b i j i j where
  i_le := Nat.le_refl i
  j_le := Nat.le_refl j
  block := (slice_self a i).trans (slice_self b j).symm

theorem Same.trans {i j m n i' j' : ℕ} (h : Same a b i j m n) (h' : Same a b m n i' j') :
    Same a b i j i' j' where
  i_le := Nat.le_trans h.i_le h'.i_le
  j_le := Nat.le_trans h.j_le h'.j_le
  block := by
    rw [← slice_append_slice h.i_le h'.i_le, ← slice_append_slice h.j_le h'.j_le, h.block,
      h'.block]

/-- Equal blocks are as long as each other. -/
theorem Same.length {i j i' j' : ℕ} (h : Same a b i j i' j') (ha : i' ≤ a.length)
    (hb : j' ≤ b.length) : i' - i = j' - j := by
  have hlength := congrArg List.length h.block
  rwa [length_slice ha, length_slice hb] at hlength

/-- Equal blocks can be cut at any place. -/
theorem Same.cut {i j i' j' : ℕ} (h : Same a b i j i' j') (ha : i' ≤ a.length)
    (hb : j' ≤ b.length) {d : ℕ} (hd : d ≤ i' - i) :
    Same a b i j (i + d) (j + d) ∧ Same a b (i + d) (j + d) i' j' := by
  have hlength := h.length ha hb
  have hi := h.i_le
  have hj := h.j_le
  have hblock := h.block
  rw [← slice_append_slice (m := i + d) (by omega) (by omega),
    ← slice_append_slice (l := b) (m := j + d) (by omega) (by omega)] at hblock
  have hequal : (slice a i (i + d)).length = (slice b j (j + d)).length := by
    rw [length_slice (by omega), length_slice (by omega)]
    omega
  obtain ⟨hfirst, hsecond⟩ := List.append_inj hblock hequal
  exact ⟨⟨by omega, by omega, hfirst⟩, ⟨by omega, by omega, hsecond⟩⟩

/-! ### The groups of a right script -/

namespace Opcode

variable {c : Opcode}

theorem Right.same (h : c.Right a b) (htag : c.tag = .equal) : Same a b c.i1 c.j1 c.i2 c.j2 where
  i_le := h.i_le
  j_le := h.j_le
  block := by
    have hblock := h.block
    rwa [htag] at hblock

theorem right_of_same {c : Opcode} (htag : c.tag = .equal) (h : Same a b c.i1 c.j1 c.i2 c.j2)
    (ha : c.i2 ≤ a.length) (hb : c.j2 ≤ b.length) : c.Right a b where
  i_le := h.i_le
  j_le := h.j_le
  i_length := ha
  j_length := hb
  block := by
    rw [htag]
    exact h.block

/-- What a cut takes off the start agrees. -/
theorem trimStart_right (h : c.Right a b) (htag : c.tag = .equal) :
    Same a b c.i1 c.j1 c.trimStart.i1 c.trimStart.j1 ∧ c.trimStart.Right a b := by
  have hsame := h.same htag
  have hlength := hsame.length h.i_length h.j_length
  have hi := h.i_le
  have hj := h.j_le
  obtain ⟨hfirst, hsecond⟩ := hsame.cut (d := c.i2 - c.i1 - context) h.i_length h.j_length
    (by omega)
  have hi1 : c.trimStart.i1 = c.i1 + (c.i2 - c.i1 - context) := by
    show max c.i1 (c.i2 - context) = _
    omega
  have hj1 : c.trimStart.j1 = c.j1 + (c.i2 - c.i1 - context) := by
    show max c.j1 (c.j2 - context) = _
    omega
  refine ⟨by rw [hi1, hj1]; exact hfirst, right_of_same htag ?_ h.i_length h.j_length⟩
  rw [hi1, hj1]
  exact hsecond

/-- What a cut takes off the end agrees. -/
theorem trimEnd_right (h : c.Right a b) (htag : c.tag = .equal) :
    c.trimEnd.Right a b ∧ Same a b c.trimEnd.i2 c.trimEnd.j2 c.i2 c.j2 := by
  have hsame := h.same htag
  have hlength := hsame.length h.i_length h.j_length
  have hi := h.i_le
  have hj := h.j_le
  have ha := h.i_length
  have hb := h.j_length
  obtain ⟨hfirst, hsecond⟩ := hsame.cut (d := min context (c.i2 - c.i1)) h.i_length h.j_length
    (by omega)
  have hi2 : c.trimEnd.i2 = c.i1 + min context (c.i2 - c.i1) := by
    show min c.i2 (c.i1 + context) = _
    omega
  have hj2 : c.trimEnd.j2 = c.j1 + min context (c.i2 - c.i1) := by
    show min c.j2 (c.j1 + context) = _
    omega
  refine ⟨right_of_same htag ?_ (by omega) (by omega), by rw [hi2, hj2]; exact hsecond⟩
  rw [hi2, hj2]
  exact hfirst

end Opcode

variable {i j i' j' m n : ℕ} {codes group : List Opcode} {c : Opcode}

theorem Chain.append (h : Chain a b i j codes m n) {more : List Opcode}
    (hmore : Chain a b m n more i' j') : Chain a b i j (codes ++ more) i' j' := by
  induction codes generalizing i j with
  | nil =>
    obtain ⟨rfl, rfl⟩ := h
    exact hmore
  | cons c codes ih =>
    obtain ⟨hi, hj, hright, hcodes⟩ := h
    exact ⟨hi, hj, hright, ih hcodes⟩

theorem chain_singleton (h : c.Right a b) : Chain a b c.i1 c.j1 [c] c.i2 c.j2 :=
  ⟨rfl, rfl, h, rfl, rfl⟩

theorem chain_trimFirst (h : Chain a b i j codes i' j') :
    ∃ m n, Same a b i j m n ∧ Chain a b m n (trimFirst codes) i' j' := by
  cases codes with
  | nil => exact ⟨i, j, .refl i j, h⟩
  | cons c codes =>
    obtain ⟨rfl, rfl, hright, hcodes⟩ := h
    rw [trimFirst]
    by_cases htag : c.tag = .equal
    · obtain ⟨hsame, htrimmed⟩ := Opcode.trimStart_right hright htag
      rw [if_pos htag]
      exact ⟨_, _, hsame, rfl, rfl, htrimmed, hcodes⟩
    · rw [if_neg htag]
      exact ⟨c.i1, c.j1, .refl _ _, rfl, rfl, hright, hcodes⟩

theorem chain_trimLast (h : Chain a b i j codes i' j') :
    ∃ m n, Chain a b i j (trimLast codes) m n ∧ Same a b m n i' j' := by
  induction codes generalizing i j with
  | nil => exact ⟨i', j', h, .refl i' j'⟩
  | cons c codes ih =>
    obtain ⟨rfl, rfl, hright, hcodes⟩ := h
    cases codes with
    | nil =>
      obtain ⟨rfl, rfl⟩ := hcodes
      rw [trimLast]
      by_cases htag : c.tag = .equal
      · obtain ⟨htrimmed, hsame⟩ := Opcode.trimEnd_right hright htag
        rw [if_pos htag]
        exact ⟨_, _, chain_singleton htrimmed, hsame⟩
      · rw [if_neg htag]
        exact ⟨_, _, chain_singleton hright, .refl _ _⟩
    | cons next codes =>
      obtain ⟨m, n, hchain, hsame⟩ := ih hcodes
      exact ⟨m, n, ⟨rfl, rfl, hright, hchain⟩, hsame⟩

/-- The groups lead from one place to another; the texts agree between them. -/
def Blocks (a b : List Text) : ℕ → ℕ → List (List Opcode) → ℕ → ℕ → Prop
  | i, j, [], i', j' => i = i' ∧ j = j'
  | i, j, group :: groups, i', j' =>
    ∃ i1 j1 i2 j2, Same a b i j i1 j1 ∧ group ≠ [] ∧ Chain a b i1 j1 group i2 j2 ∧
      Blocks a b i2 j2 groups i' j'

/-- What the loop yields, and what agrees after the last group. -/
theorem blocks_groupFrom {p q : ℕ} (hgap : Same a b p q m n) (hgroup : Chain a b m n group i j)
    (hcodes : Chain a b i j codes i' j') (hend : Same a b i' j' a.length b.length) :
    ∃ k l, Blocks a b p q (groupFrom group codes) k l ∧ Same a b k l a.length b.length := by
  induction codes generalizing p q m n group i j with
  | nil =>
    obtain ⟨rfl, rfl⟩ := hcodes
    unfold groupFrom
    split_ifs with hempty
    · refine ⟨p, q, ⟨rfl, rfl⟩, hgap.trans (Same.trans ?_ hend)⟩
      rcases hempty with rfl | hequal
      · obtain ⟨rfl, rfl⟩ := hgroup
        exact .refl _ _
      · obtain ⟨c, rfl, htag⟩ := List.map_eq_singleton_iff.mp hequal
        obtain ⟨rfl, rfl, hright, rfl, rfl⟩ := hgroup
        exact hright.same htag
    · exact ⟨i, j, ⟨m, n, i, j, hgap, fun hnil => hempty (.inl hnil), hgroup, rfl, rfl⟩, hend⟩
  | cons c codes ih =>
    obtain ⟨rfl, rfl, hright, hcodes⟩ := hcodes
    unfold groupFrom
    split_ifs with hsplit
    · -- The group ends in the equal lines, and the next one starts in them.
      obtain ⟨htag, hlong⟩ := hsplit
      obtain ⟨hendRight, -⟩ := Opcode.trimEnd_right hright htag
      obtain ⟨-, hstartRight⟩ := Opcode.trimStart_right hright htag
      have hsame := hright.same htag
      have hlength := hsame.length hright.i_length hright.j_length
      have hi2 : c.trimEnd.i2 = c.i1 + context := by
        show min c.i2 (c.i1 + context) = _
        omega
      have hj2 : c.trimEnd.j2 = c.j1 + context := by
        show min c.j2 (c.j1 + context) = _
        omega
      have hi1 : c.trimStart.i1 = c.i1 + context + (c.i2 - c.i1 - 2 * context) := by
        show max c.i1 (c.i2 - context) = _
        omega
      have hj1 : c.trimStart.j1 = c.j1 + context + (c.i2 - c.i1 - 2 * context) := by
        show max c.j1 (c.j2 - context) = _
        omega
      have hrest := (hsame.cut (d := context) hright.i_length hright.j_length (by omega)).2
      have hbetween := (hrest.cut (d := c.i2 - c.i1 - 2 * context) hright.i_length
        hright.j_length (by omega)).1
      rw [← hi1, ← hj1, ← hi2, ← hj2] at hbetween
      obtain ⟨k, l, hblocks, hlast⟩ := ih hbetween (chain_singleton hstartRight) hcodes
      refine ⟨k, l, ⟨m, n, _, _, hgap, List.append_ne_nil_of_right_ne_nil _ (List.cons_ne_nil _ _),
        hgroup.append (chain_singleton hendRight), hblocks⟩, hlast⟩
    · exact ih hgap (hgroup.append (chain_singleton hright)) hcodes

/-- The groups of a right script go over all that changes. -/
theorem blocks_grouped (h : Chain a b 0 0 codes a.length b.length) :
    ∃ i j, Blocks a b 0 0 (grouped codes) i j ∧ Same a b i j a.length b.length := by
  by_cases hnil : codes = []
  · subst hnil
    obtain ⟨ha, hb⟩ := h
    refine ⟨0, 0, ⟨rfl, rfl⟩, ?_⟩
    rw [← ha, ← hb]
    exact .refl 0 0
  · obtain ⟨m, n, hstart, hfirst⟩ := chain_trimFirst h
    obtain ⟨i', j', hlast, hend⟩ := chain_trimLast hfirst
    unfold grouped
    rw [if_neg hnil]
    exact blocks_groupFrom hstart ⟨rfl, rfl⟩ hlast hend

/-! ### Hunks -/

/-- `_format_range_unified` -/
def formatRange (start stop : ℕ) : Text :=
  if stop - start = 1 then Nat.toDigits 10 (start + 1)
  else if stop - start = 0 then Nat.toDigits 10 start ++ ",0".toList
  else Nat.toDigits 10 (start + 1) ++ ',' :: Nat.toDigits 10 (stop - start)

/-- `@@ -… +… @@` -/
def header (first last : Opcode) : Text :=
  "@@ -".toList ++ (formatRange first.i1 last.i2 ++ (" +".toList ++
    (formatRange first.j1 last.j2 ++ " @@\n".toList)))

/-- The lines of an opcode. -/
def Opcode.body (a b : List Text) (c : Opcode) : List Text :=
  match c.tag with
  | .equal => (slice a c.i1 c.i2).map (' ' :: ·)
  | .delete => (slice a c.i1 c.i2).map ('-' :: ·)
  | .insert => (slice b c.j1 c.j2).map ('+' :: ·)
  | .replace => (slice a c.i1 c.i2).map ('-' :: ·) ++ (slice b c.j1 c.j2).map ('+' :: ·)

/-- The lines of a group. -/
def hunk (a b : List Text) (group : List Opcode) : List Text :=
  match group.head?, group.getLast? with
  | some first, some last => header first last :: group.flatMap (Opcode.body a b)
  | _, _ => []

/-- `difflib.unified_diff(a, b, fromfile, tofile)` -/
def unifiedDiff (matcher : SequenceMatcher) (fromFile toFile : Text) (a b : List Text) :
    List Text :=
  match grouped (matcher.opcodes a b) with
  | [] => []
  | groups =>
    ("--- ".toList ++ fromFile ++ ['\n']) :: ("+++ ".toList ++ toFile ++ ['\n']) ::
      groups.flatMap (hunk a b)

/-! ### Reading a diff -/

def parseNumber (t : Text) : Option ℕ :=
  if t ≠ [] ∧ t.all Char.isDigit then some (Nat.ofDigitChars 10 t 0) else none

/-- Where a range starts, counted from zero, and how long it is. -/
def parseRange (t : Text) : Option (ℕ × ℕ) :=
  if ',' ∈ t then
    (parseNumber (t.takeWhile (· ≠ ','))).bind fun start =>
      (parseNumber (t.dropWhile (· ≠ ',')).tail).map fun length =>
        (if length = 0 then start else start - 1, length)
  else (parseNumber t).map fun start => (start - 1, 1)

/-- Where the hunk starts in the old text, and how many lines it has of each text. -/
def parseHeader (line : Text) : Option (ℕ × ℕ × ℕ) :=
  let oldRange := (line.drop 4).takeWhile (· ≠ ' ')
  let rest := (line.drop 4).dropWhile (· ≠ ' ')
  let newRange := (rest.drop 2).takeWhile (· ≠ ' ')
  if line.take 4 = "@@ -".toList ∧ rest.take 2 = " +".toList ∧
      (rest.drop 2).dropWhile (· ≠ ' ') = " @@\n".toList then
    (parseRange oldRange).bind fun old => (parseRange newRange).map fun new =>
      (old.1, old.2, new.2)
  else none

/-- What has been read: the lines left of the old text, how many lie before them, the lines that the
hunk still has of each text, and the lines of the new text. -/
structure Reading where
  old : List Text
  position : ℕ
  needOld : ℕ
  needNew : ℕ
  out : List Text

/-- The next line of the diff. -/
def readLine (r : Reading) (line : Text) : Option Reading :=
  if r.needOld = 0 ∧ r.needNew = 0 then
    (parseHeader line).bind fun hunk =>
      if r.position ≤ hunk.1 ∧ hunk.1 - r.position ≤ r.old.length then
        some {
          old := r.old.drop (hunk.1 - r.position)
          position := hunk.1
          needOld := hunk.2.1
          needNew := hunk.2.2
          out := r.out ++ r.old.take (hunk.1 - r.position) }
      else none
  else
    match line, r.old with
    | ' ' :: text, first :: old =>
      if first = text ∧ 0 < r.needOld ∧ 0 < r.needNew then
        some ⟨old, r.position + 1, r.needOld - 1, r.needNew - 1, r.out ++ [text]⟩
      else none
    | '-' :: text, first :: old =>
      if first = text ∧ 0 < r.needOld then
        some ⟨old, r.position + 1, r.needOld - 1, r.needNew, r.out⟩
      else none
    | '+' :: text, old =>
      if 0 < r.needNew then some ⟨old, r.position, r.needOld, r.needNew - 1, r.out ++ [text]⟩
      else none
    | _, _ => none

/-- The text that a diff leads to; no diff leads from a text to itself. -/
def applyDiff (diff old : Text) : Option Text :=
  if diff = [] then some old
  else match unmark (lfLines diff) with
    | fromLine :: toLine :: lines =>
      if "--- ".toList <+: fromLine ∧ "+++ ".toList <+: toLine then
        (lines.foldlM readLine ⟨lfLines old, 0, 0, 0, []⟩).bind fun r =>
          if r.needOld = 0 ∧ r.needNew = 0 ∧ lfLines (r.out ++ r.old).flatten = r.out ++ r.old then
            some (r.out ++ r.old).flatten
          else none
      else none
    | _ => none

/-! ### Reading what was written -/

theorem takeWhile_stop {p : Char → Bool} {t : Text} {c : Char} (h : ∀ d ∈ t, p d = true)
    (hc : p c = false) (rest : Text) :
    (t ++ c :: rest).takeWhile p = t ∧ (t ++ c :: rest).dropWhile p = c :: rest := by
  induction t with
  | nil => simp [hc]
  | cons d t ih =>
    obtain ⟨htake, hdrop⟩ := ih fun d hd => h d (List.mem_cons_of_mem _ hd)
    have hd := h d List.mem_cons_self
    simp only [List.cons_append, List.takeWhile_cons, List.dropWhile_cons, hd, if_true, htake,
      hdrop, and_self]

theorem isDigit_toDigits {n : ℕ} {c : Char} (hc : c ∈ Nat.toDigits 10 n) : c.isDigit = true :=
  Nat.isDigit_of_mem_toDigits (by omega) (by omega) hc

theorem parseNumber_toDigits (n : ℕ) : parseNumber (Nat.toDigits 10 n) = some n := by
  unfold parseNumber
  rw [if_pos ⟨Nat.toDigits_ne_nil, List.all_eq_true.mpr fun c hc => isDigit_toDigits hc⟩,
    Nat.ofDigitChars_ten_toDigits]

theorem ne_of_isDigit {c d : Char} (hc : c.isDigit = true) (hd : d.isDigit = false) : c ≠ d := by
  rintro rfl
  rw [hc] at hd
  cases hd

theorem comma_not_mem_toDigits (n : ℕ) : ',' ∉ Nat.toDigits 10 n := fun hmem =>
  ne_of_isDigit (isDigit_toDigits hmem) rfl rfl

theorem parseRange_count (start : ℕ) {t : Text} {length : ℕ} (h : parseNumber t = some length) :
    parseRange (Nat.toDigits 10 start ++ ',' :: t) =
      some (if length = 0 then start else start - 1, length) := by
  have hall : ∀ c ∈ Nat.toDigits 10 start, decide (c ≠ ',') = true := fun c hc =>
    decide_eq_true (ne_of_isDigit (isDigit_toDigits hc) rfl)
  obtain ⟨htake, hdrop⟩ := takeWhile_stop (c := ',') hall rfl t
  unfold parseRange
  rw [if_pos (List.mem_append_right _ List.mem_cons_self), htake, hdrop, parseNumber_toDigits,
    List.tail_cons, h]
  rfl

theorem parseRange_formatRange (start stop : ℕ) :
    parseRange (formatRange start stop) = some (start, stop - start) := by
  unfold formatRange
  split_ifs with hone hzero
  · unfold parseRange
    rw [if_neg (comma_not_mem_toDigits _), parseNumber_toDigits, hone]
    rfl
  · exact (@parseRange_count start ['0'] 0 rfl).trans (by rw [hzero]; rfl)
  · rw [parseRange_count _ (parseNumber_toDigits _), if_neg hzero]
    rfl

theorem mem_formatRange {start stop : ℕ} {c : Char} (hc : c ∈ formatRange start stop) :
    c.isDigit = true ∨ c = ',' := by
  unfold formatRange at hc
  split_ifs at hc
  · exact .inl (isDigit_toDigits hc)
  · rcases List.mem_append.mp hc with hc | hc
    · exact .inl (isDigit_toDigits hc)
    · rcases List.mem_cons.mp hc with rfl | hc
      · exact .inr rfl
      · exact .inl (List.mem_singleton.mp hc ▸ rfl)
  · rcases List.mem_append.mp hc with hc | hc
    · exact .inl (isDigit_toDigits hc)
    · rcases List.mem_cons.mp hc with rfl | hc
      · exact .inr rfl
      · exact .inl (isDigit_toDigits hc)

/-- A range has no blanks and no line feeds. -/
theorem ne_of_mem_formatRange {start stop : ℕ} {c d : Char} (hc : c ∈ formatRange start stop)
    (hd : d.isDigit = false) (hcomma : d ≠ ',') : c ≠ d := by
  rcases mem_formatRange hc with hdigit | rfl
  · exact ne_of_isDigit hdigit hd
  · exact hcomma.symm

theorem parseHeader_header (first last : Opcode) :
    parseHeader (header first last) =
      some (first.i1, last.i2 - first.i1, last.j2 - first.j1) := by
  have hblank : ∀ start stop, ∀ c ∈ formatRange start stop, decide (c ≠ ' ') = true :=
    fun _ _ c hc => decide_eq_true (ne_of_mem_formatRange hc rfl (by decide))
  obtain ⟨hnewTake, hnewDrop⟩ := takeWhile_stop (c := ' ') (hblank first.j1 last.j2) rfl
    "@@\n".toList
  obtain ⟨holdTake, holdDrop⟩ := takeWhile_stop (c := ' ') (hblank first.i1 last.i2) rfl
    ('+' :: (formatRange first.j1 last.j2 ++ ' ' :: "@@\n".toList))
  have hdrop : (header first last).drop 4 = formatRange first.i1 last.i2 ++
      ' ' :: '+' :: (formatRange first.j1 last.j2 ++ ' ' :: "@@\n".toList) := rfl
  unfold parseHeader
  dsimp only
  rw [hdrop, holdTake, holdDrop]
  simp only [List.drop_succ_cons, List.drop_zero]
  rw [if_pos ⟨rfl, rfl, hnewDrop⟩, hnewTake, parseRange_formatRange, parseRange_formatRange]
  rfl

/-! ### Reading the lines of a hunk -/

section

variable {old rest : List Text} {position x y : ℕ} {out : List Text}

theorem readLine_context (line : Text) :
    readLine ⟨line :: old, position, x + 1, y + 1, out⟩ (' ' :: line) =
      some ⟨old, position + 1, x, y, out ++ [line]⟩ := by
  simp [readLine]

theorem readLine_deleted (line : Text) :
    readLine ⟨line :: old, position, x + 1, y, out⟩ ('-' :: line) =
      some ⟨old, position + 1, x, y, out⟩ := by
  simp [readLine]

theorem readLine_inserted (line : Text) :
    readLine ⟨old, position, x, y + 1, out⟩ ('+' :: line) =
      some ⟨old, position, x, y, out ++ [line]⟩ := by
  simp [readLine]

theorem read_context (block : List Text) :
    (block.map (' ' :: ·)).foldlM readLine
        ⟨block ++ rest, position, block.length + x, block.length + y, out⟩ =
      some ⟨rest, position + block.length, x, y, out ++ block⟩ := by
  induction block generalizing position out with
  | nil => simp
  | cons line block ih =>
    rw [List.map_cons, List.foldlM_cons, List.length_cons, Nat.succ_add, Nat.succ_add]
    rw [List.cons_append, readLine_context]
    refine ih.trans ?_
    rw [List.append_assoc, List.singleton_append, Nat.add_assoc, Nat.add_comm 1]

theorem read_deleted (block : List Text) :
    (block.map ('-' :: ·)).foldlM readLine
        ⟨block ++ rest, position, block.length + x, y, out⟩ =
      some ⟨rest, position + block.length, x, y, out⟩ := by
  induction block generalizing position with
  | nil => simp
  | cons line block ih =>
    rw [List.map_cons, List.foldlM_cons, List.length_cons, Nat.succ_add]
    rw [List.cons_append, readLine_deleted]
    refine ih.trans ?_
    rw [Nat.add_assoc, Nat.add_comm 1]

theorem read_inserted (block : List Text) :
    (block.map ('+' :: ·)).foldlM readLine ⟨old, position, x, block.length + y, out⟩ =
      some ⟨old, position, x, y, out ++ block⟩ := by
  induction block generalizing out with
  | nil => simp
  | cons line block ih =>
    rw [List.map_cons, List.foldlM_cons, List.length_cons, Nat.succ_add]
    rw [readLine_inserted]
    refine ih.trans ?_
    rw [List.append_assoc, List.singleton_append]

theorem slice_append_drop {l : List Text} {i k : ℕ} (h : i ≤ k) :
    slice l i k ++ l.drop k = l.drop i := by
  have hwhole : l.take i ++ (slice l i k ++ l.drop k) = l.take i ++ l.drop i := by
    rw [← List.append_assoc, take_append_slice h, List.take_append_drop, List.take_append_drop]
  exact List.append_cancel_left hwhole

/-- The lines of an opcode are read as what the opcode says. -/
theorem read_body {c : Opcode} (h : c.Right a b) :
    (c.body a b).foldlM readLine
        ⟨a.drop c.i1, c.i1, c.i2 - c.i1 + x, c.j2 - c.j1 + y, out⟩ =
      some ⟨a.drop c.i2, c.i2, x, y, out ++ slice b c.j1 c.j2⟩ := by
  have hi := h.i_le
  have hold := slice_append_drop (l := a) hi
  have holdLength := length_slice (i := c.i1) h.i_length
  have hnewLength := length_slice (i := c.j1) h.j_length
  have hposition : c.i1 + (slice a c.i1 c.i2).length = c.i2 := by omega
  have hblock := h.block
  unfold Opcode.body
  rw [← hold, ← holdLength]
  cases htag : c.tag with
  | equal =>
    have hsame := h.same htag
    rw [← hsame.block, ← hsame.length h.i_length h.j_length, ← holdLength]
    refine (read_context _).trans ?_
    rw [hposition]
  | delete =>
    rw [htag] at hblock
    rw [hblock, Nat.sub_self, Nat.zero_add, slice_self, List.append_nil]
    refine (read_deleted _).trans ?_
    rw [hposition]
  | insert =>
    rw [htag] at hblock
    rw [← hnewLength]
    refine (read_inserted _).trans ?_
    rw [hblock, slice_self, List.nil_append, List.length_nil, Nat.zero_add]
  | replace =>
    rw [← hnewLength, List.foldlM_append, read_deleted, hposition]
    exact read_inserted _

theorem Chain.le {codes : List Opcode} {i j i' j' : ℕ} (h : Chain a b i j codes i' j') :
    i ≤ i' ∧ j ≤ j' := by
  induction codes generalizing i j with
  | nil =>
    obtain ⟨rfl, rfl⟩ := h
    exact ⟨Nat.le_refl _, Nat.le_refl _⟩
  | cons c codes ih =>
    obtain ⟨rfl, rfl, hright, hcodes⟩ := h
    obtain ⟨hi, hj⟩ := ih hcodes
    exact ⟨Nat.le_trans hright.i_le hi, Nat.le_trans hright.j_le hj⟩

/-- So are the lines of a chain of opcodes. -/
theorem read_chain {codes : List Opcode} {i j i' j' : ℕ} (h : Chain a b i j codes i' j') :
    (codes.flatMap (Opcode.body a b)).foldlM readLine ⟨a.drop i, i, i' - i + x, j' - j + y, out⟩ =
      some ⟨a.drop i', i', x, y, out ++ slice b j j'⟩ := by
  induction codes generalizing i j out with
  | nil =>
    obtain ⟨rfl, rfl⟩ := h
    rw [Nat.sub_self, Nat.sub_self, Nat.zero_add, Nat.zero_add, slice_self, List.append_nil]
    rfl
  | cons c codes ih =>
    obtain ⟨rfl, rfl, hright, hcodes⟩ := h
    obtain ⟨hi, hj⟩ := hcodes.le
    have hi1 := hright.i_le
    have hj1 := hright.j_le
    have hneedOld : i' - c.i1 + x = c.i2 - c.i1 + (i' - c.i2 + x) := by omega
    have hneedNew : j' - c.j1 + y = c.j2 - c.j1 + (j' - c.j2 + y) := by omega
    rw [List.flatMap_cons, List.foldlM_append, hneedOld, hneedNew, read_body hright]
    refine (ih hcodes).trans ?_
    rw [List.append_assoc, slice_append_slice hj1 hj]

end

/-- Where a chain starts and ends. -/
theorem Chain.ends {group : List Opcode} {i j i' j' : ℕ} (h : Chain a b i j group i' j')
    (hne : group ≠ []) :
    ∃ first last, group.head? = some first ∧ group.getLast? = some last ∧
      (first.i1, first.j1) = (i, j) ∧ (last.i2, last.j2) = (i', j') ∧
      i' ≤ a.length ∧ j' ≤ b.length := by
  induction group generalizing i j with
  | nil => exact absurd rfl hne
  | cons c codes ih =>
    obtain ⟨rfl, rfl, hright, hcodes⟩ := h
    cases codes with
    | nil =>
      obtain ⟨rfl, rfl⟩ := hcodes
      exact ⟨c, c, rfl, rfl, rfl, rfl, hright.i_length, hright.j_length⟩
    | cons next codes =>
      obtain ⟨-, last, -, hlast, -, hend⟩ := ih hcodes (List.cons_ne_nil _ _)
      exact ⟨c, last, rfl, by rw [List.getLast?_cons_cons]; exact hlast, rfl, hend⟩

/-- **A hunk is read** as the lines before it, which agree, and what its opcodes say. -/
theorem read_hunk {group : List Opcode} {i j m n i' j' : ℕ} (hgap : Same a b i j m n)
    (hne : group ≠ []) (h : Chain a b m n group i' j') :
    (hunk a b group).foldlM readLine ⟨a.drop i, i, 0, 0, b.take j⟩ =
      some ⟨a.drop i', i', 0, 0, b.take j'⟩ := by
  obtain ⟨first, last, hfirst, hlast, hstart, hend, hilength, -⟩ := h.ends hne
  obtain ⟨rfl, rfl⟩ := Prod.mk.inj hstart
  obtain ⟨rfl, rfl⟩ := Prod.mk.inj hend
  have hi := hgap.i_le
  have hmono := h.le
  have hold : (a.drop i).take (first.i1 - i) = slice a i first.i1 := by
    rw [slice, List.drop_take]
  have hheader : readLine ⟨a.drop i, i, 0, 0, b.take j⟩ (header first last) =
      some ⟨a.drop first.i1, first.i1, last.i2 - first.i1, last.j2 - first.j1,
        b.take first.j1⟩ := by
    unfold readLine
    rw [if_pos ⟨rfl, rfl⟩, parseHeader_header, Option.bind_some]
    dsimp only
    rw [if_pos ⟨hi, by rw [List.length_drop]; omega⟩, List.drop_drop, hold, hgap.block,
      take_append_slice hgap.j_le, Nat.add_sub_cancel' hi]
  unfold hunk
  rw [hfirst, hlast]
  dsimp only
  rw [List.foldlM_cons, hheader]
  refine (read_chain h (x := 0) (y := 0)).trans ?_
  rw [take_append_slice hmono.2]

theorem read_blocks {groups : List (List Opcode)} {i j i' j' : ℕ}
    (h : Blocks a b i j groups i' j') :
    (groups.flatMap (hunk a b)).foldlM readLine ⟨a.drop i, i, 0, 0, b.take j⟩ =
      some ⟨a.drop i', i', 0, 0, b.take j'⟩ := by
  induction groups generalizing i j with
  | nil =>
    obtain ⟨rfl, rfl⟩ := h
    rfl
  | cons group groups ih =>
    obtain ⟨m, n, i2, j2, hgap, hne, hgroup, hgroups⟩ := h
    rw [List.flatMap_cons, List.foldlM_append, read_hunk hgap hne hgroup]
    exact ih hgroups

/-! ### The lines that a script goes over -/

theorem Blocks.le {groups : List (List Opcode)} {i j i' j' : ℕ} (h : Blocks a b i j groups i' j') :
    i ≤ i' ∧ j ≤ j' := by
  induction groups generalizing i j with
  | nil =>
    obtain ⟨rfl, rfl⟩ := h
    exact ⟨Nat.le_refl _, Nat.le_refl _⟩
  | cons group groups ih =>
    obtain ⟨m, n, i2, j2, hgap, -, hgroup, hgroups⟩ := h
    have hfirst := hgap.i_le
    have hfirst' := hgap.j_le
    have hsecond := hgroup.le
    have hthird := ih hgroups
    omega

section

variable {L M : List Text} {k l : ℕ}

theorem slice_congr (h : a.take k = L.take k) {i m : ℕ} (hm : m ≤ k) :
    slice a i m = slice L i m := by
  have htake : a.take m = L.take m := by
    rw [← Nat.min_eq_left hm, ← List.take_take, h, List.take_take]
  rw [slice, slice, htake]

theorem le_length_of_take (h : a.take k = L.take k) {m : ℕ} (hm : m ≤ k) (ha : m ≤ a.length) :
    m ≤ L.length := by
  have hlength := congrArg List.length h
  rw [List.length_take, List.length_take] at hlength
  omega

variable (hL : a.take k = L.take k) (hM : b.take l = M.take l)

include hL hM

theorem Opcode.Right.congr {c : Opcode} (h : c.Right a b) (hi : c.i2 ≤ k) (hj : c.j2 ≤ l) :
    c.Right L M ∧ c.body a b = c.body L M := by
  constructor
  · refine ⟨h.i_le, h.j_le, le_length_of_take hL hi h.i_length, le_length_of_take hM hj h.j_length,
      ?_⟩
    have hblock := h.block
    rwa [slice_congr hL hi, slice_congr hM hj] at hblock
  · unfold Opcode.body
    rw [slice_congr hL hi, slice_congr hM hj]

theorem Chain.congr {codes : List Opcode} {i j i' j' : ℕ} (h : Chain a b i j codes i' j')
    (hi : i' ≤ k) (hj : j' ≤ l) :
    Chain L M i j codes i' j' ∧
      codes.flatMap (Opcode.body a b) = codes.flatMap (Opcode.body L M) := by
  induction codes generalizing i j with
  | nil => exact ⟨h, rfl⟩
  | cons c codes ih =>
    obtain ⟨rfl, rfl, hright, hcodes⟩ := h
    obtain ⟨hi2, hj2⟩ := hcodes.le
    obtain ⟨hright', hbody⟩ :=
      hright.congr hL hM (Nat.le_trans hi2 hi) (Nat.le_trans hj2 hj)
    obtain ⟨hcodes', hbodies⟩ := ih hcodes
    exact ⟨⟨rfl, rfl, hright', hcodes'⟩, by rw [List.flatMap_cons, List.flatMap_cons, hbody,
      hbodies]⟩

theorem Blocks.congr {groups : List (List Opcode)} {i j i' j' : ℕ}
    (h : Blocks a b i j groups i' j') (hi : i' ≤ k) (hj : j' ≤ l) :
    Blocks L M i j groups i' j' ∧ groups.flatMap (hunk a b) = groups.flatMap (hunk L M) := by
  induction groups generalizing i j with
  | nil => exact ⟨h, rfl⟩
  | cons group groups ih =>
    obtain ⟨m, n, i2, j2, hgap, hne, hgroup, hgroups⟩ := h
    obtain ⟨hi2, hj2⟩ := hgroups.le
    obtain ⟨him, hjn⟩ := hgroup.le
    obtain ⟨hgroup', hbody⟩ :=
      hgroup.congr hL hM (Nat.le_trans hi2 hi) (Nat.le_trans hj2 hj)
    obtain ⟨hgroups', hhunks⟩ := ih hgroups
    have hblock := hgap.block
    rw [slice_congr hL (by omega), slice_congr hM (by omega)] at hblock
    refine ⟨⟨m, n, i2, j2, ⟨hgap.i_le, hgap.j_le, hblock⟩, hne, hgroup', hgroups'⟩, ?_⟩
    rw [List.flatMap_cons, List.flatMap_cons, hhunks]
    unfold hunk
    rw [hbody]

end

/-- The lines of a diff over lines that end at line feeds. -/
theorem diffLine_hunk (ha : Lines a) (hb : Lines b) (group : List Opcode) :
    ∀ line ∈ hunk a b group, DiffLine line := by
  have hprefixed : ∀ {l : List Text} (c : Char), Lines l → c ≠ '\n' → c ≠ '\\' → ∀ i k,
      ∀ line ∈ (slice l i k).map (c :: ·), DiffLine line := by
    intro l c hl hnewline hslash i k line hline
    obtain ⟨text, htext, rfl⟩ := List.mem_map.mp hline
    refine ⟨?_, fun heq => hslash (Option.some.inj heq)⟩
    refine (hl.mem (List.mem_of_mem_take (List.mem_of_mem_drop htext))).imp ?_ ?_
    · rintro ⟨body, hbody, rfl⟩
      exact ⟨c :: body, List.not_mem_cons_of_ne_of_not_mem hnewline.symm hbody, rfl⟩
    · intro hopen
      exact ⟨List.not_mem_cons_of_ne_of_not_mem hnewline.symm hopen.1, List.cons_ne_nil _ _⟩
  have hbody : ∀ c : Opcode, ∀ line ∈ c.body a b, DiffLine line := by
    intro c line hline
    unfold Opcode.body at hline
    cases htag : c.tag with
    | equal =>
      rw [htag] at hline
      exact hprefixed ' ' ha (by decide) (by decide) _ _ line hline
    | delete =>
      rw [htag] at hline
      exact hprefixed '-' ha (by decide) (by decide) _ _ line hline
    | insert =>
      rw [htag] at hline
      exact hprefixed '+' hb (by decide) (by decide) _ _ line hline
    | replace =>
      rw [htag] at hline
      rcases List.mem_append.mp hline with hline | hline
      · exact hprefixed '-' ha (by decide) (by decide) _ _ line hline
      · exact hprefixed '+' hb (by decide) (by decide) _ _ line hline
  intro line hline
  unfold hunk at hline
  split at hline
  · rename_i first last _ _
    rcases List.mem_cons.mp hline with rfl | hline
    · have hrange : ∀ start stop, '\n' ∉ formatRange start stop := fun start stop hmem =>
        ne_of_mem_formatRange hmem rfl (by decide) rfl
      refine ⟨.inl ⟨"@@ -".toList ++ (formatRange first.i1 last.i2 ++ (" +".toList ++
        (formatRange first.j1 last.j2 ++ " @@".toList))), ?_, ?_⟩, ?_⟩
      · simp only [List.mem_append, not_or]
        exact ⟨by decide, hrange _ _, by decide, hrange _ _, by decide⟩
      · simp only [header, List.append_assoc]
        rfl
      · intro heq
        cases heq
    · obtain ⟨c, -, hline⟩ := List.mem_flatMap.mp hline
      exact hbody c line hline
  · exact absurd hline List.not_mem_nil

/-- Where the last group ends. -/
def lastLine (start : ℕ × ℕ) : List (List Opcode) → ℕ × ℕ
  | [] => start
  | group :: groups => lastLine (group.getLast?.elim start fun c => (c.i2, c.j2)) groups

theorem lastLine_eq {groups : List (List Opcode)} {i j i' j' : ℕ}
    (h : Blocks a b i j groups i' j') : lastLine (i, j) groups = (i', j') := by
  induction groups generalizing i j with
  | nil =>
    obtain ⟨rfl, rfl⟩ := h
    rfl
  | cons group groups ih =>
    obtain ⟨m, n, i2, j2, -, hne, hgroup, hgroups⟩ := h
    obtain ⟨-, last, -, hlast, -, hend, -⟩ := hgroup.ends hne
    unfold lastLine
    rw [hlast, Option.elim_some, hend]
    exact ih hgroups

/-- The lines of both texts up to the end of the last group are those that end at line feeds. -/
def Agrees (matcher : SequenceMatcher) (old new : Text) : Prop :=
  let shown := lastLine (0, 0) (grouped (matcher.opcodes (keptLines old) (keptLines new)))
  (keptLines old).take shown.1 = (lfLines old).take shown.1 ∧
    (keptLines new).take shown.2 = (lfLines new).take shown.2

/-- What follows is the same text, cut into whatever lines. -/
theorem flatten_drop_eq {l : List Text} {s : Text} (hl : l.flatten = s) {k : ℕ}
    (h : l.take k = (lfLines s).take k) : (l.drop k).flatten = ((lfLines s).drop k).flatten := by
  have hwhole : (l.take k ++ l.drop k).flatten =
      ((lfLines s).take k ++ (lfLines s).drop k).flatten := by
    rw [List.take_append_drop, List.take_append_drop, flatten_lfLines, hl]
  rw [List.flatten_append, List.flatten_append, h] at hwhole
  exact List.append_cancel_left hwhole

/-- **A unified diff leads from the old text to the new one.** -/
theorem applyDiff_unifiedDiff {matcher : SequenceMatcher} {old new fromFile toFile : Text}
    (h : Agrees matcher old new) (hfrom : '\n' ∉ fromFile) (hto : '\n' ∉ toFile) :
    applyDiff ((unifiedDiff matcher fromFile toFile (keptLines old) (keptLines new)).map
      mark).flatten old = some new := by
  obtain ⟨i, j, hblocks, hend⟩ := blocks_grouped (matcher.chain (keptLines old) (keptLines new))
  unfold Agrees at h
  rw [lastLine_eq hblocks] at h
  obtain ⟨hold, hnew⟩ := h
  obtain ⟨hblocks', hhunks⟩ := hblocks.congr hold hnew (Nat.le_refl _) (Nat.le_refl _)
  -- What follows the last group is the same in both texts, whatever its lines are.
  have hrest : (lfLines old).drop i = (lfLines new).drop j := by
    have hblock := hend.block
    rw [slice_length, slice_length] at hblock
    rw [← lfLines_flatten ((lines_lfLines old).drop i),
      ← lfLines_flatten ((lines_lfLines new).drop j), ← flatten_drop_eq (flatten_keptLines old) hold,
      ← flatten_drop_eq (flatten_keptLines new) hnew, hblock]
  cases hgroups : grouped (matcher.opcodes (keptLines old) (keptLines new)) with
  | nil =>
    rw [hgroups] at hblocks
    obtain ⟨rfl, rfl⟩ := hblocks
    unfold unifiedDiff
    rw [hgroups]
    show some old = some new
    rw [List.drop_zero, List.drop_zero] at hrest
    rw [← flatten_lfLines old, hrest, flatten_lfLines]
  | cons group groups =>
    rw [hgroups] at hblocks' hhunks
    have hdiff : unifiedDiff matcher fromFile toFile (keptLines old) (keptLines new) =
        ("--- ".toList ++ fromFile ++ ['\n']) :: ("+++ ".toList ++ toFile ++ ['\n']) ::
          (group :: groups).flatMap (hunk (lfLines old) (lfLines new)) := by
      unfold unifiedDiff
      rw [hgroups, ← hhunks]
    have hnames : ∀ {sign name : Text}, '\n' ∉ sign → '\n' ∉ name → sign.head? ≠ some '\\' →
        sign ≠ [] → DiffLine (sign ++ name ++ ['\n']) := by
      intro sign name hsign hname hhead hne
      refine ⟨.inl ⟨sign ++ name, ?_, rfl⟩, ?_⟩
      · rw [List.mem_append, not_or]
        exact ⟨hsign, hname⟩
      · rw [List.append_assoc, List.head?_append_of_ne_nil _ hne]
        exact hhead
    have hall : ∀ line ∈ unifiedDiff matcher fromFile toFile (keptLines old) (keptLines new),
        DiffLine line := by
      rw [hdiff]
      intro line hline
      rcases List.mem_cons.mp hline with rfl | hline
      · exact hnames (by decide) hfrom (by decide) (by decide)
      rcases List.mem_cons.mp hline with rfl | hline
      · exact hnames (by decide) hto (by decide) (by decide)
      obtain ⟨group, -, hline⟩ := List.mem_flatMap.mp hline
      exact diffLine_hunk (lines_lfLines old) (lines_lfLines new) group line hline
    have hread := read_blocks hblocks'
    rw [List.drop_zero, List.take_zero] at hread
    have hout : (lfLines new).take j ++ (lfLines old).drop i = lfLines new := by
      rw [hrest, List.take_append_drop]
    have hne : ((unifiedDiff matcher fromFile toFile (keptLines old) (keptLines new)).map
        mark).flatten ≠ [] := by
      rw [hdiff, List.map_cons, List.flatten_cons, mark_ended ⟨_, by
        simpa using hfrom, rfl⟩]
      simp
    unfold applyDiff
    rw [if_neg hne, unmark_lfLines_marked hall, hdiff]
    dsimp only
    rw [if_pos ⟨(List.prefix_append _ _).trans (List.prefix_append _ _),
      (List.prefix_append _ _).trans (List.prefix_append _ _)⟩, hread, Option.bind_some]
    dsimp only
    rw [hout, flatten_lfLines, if_pos ⟨rfl, rfl, rfl⟩]

end UnifiedDiff

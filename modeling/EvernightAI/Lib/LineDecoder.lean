import EvernightAI.Lib.TextLines

/-!
# Lines of a text that arrives in pieces

`LineDecoder` hands out the lines of a text as `str.splitlines` finds them, while the text arrives.
It holds back the line that is not ended, and a carriage return at the end of a piece, since a line
feed after it belongs to the same break.

* `run_eq` : however the text is cut, the lines are those of the whole.
* `splitlines_append_ending` : a line that is ended, with any breaks it has inside.
-/

namespace LineDecoder

open TextLines SplitText

/-- What is held back between two pieces. -/
structure State where
  buffer : Text := []
  trailingCr : Bool := false
  deriving DecidableEq, Repr

/-- One piece: the new state and the lines that are handed out. -/
def decode (s : State) (piece : Text) : State × List Text :=
  let text := if s.trailingCr then '\r' :: piece else piece
  let trailingCr : Bool := text.getLast? = some '\r'
  let text := if trailingCr then text.dropLast else text
  if text = [] then ({ s with trailingCr := trailingCr }, [])
  else
    let trailingNewline := text.getLast?.any isLineBreak
    let lines := splitlines text
    if lines.length = 1 ∧ !trailingNewline then
      ({ buffer := s.buffer ++ lines.headD [], trailingCr := trailingCr }, [])
    else
      let lines := if s.buffer = [] then lines else prepend s.buffer lines
      if trailingNewline then ({ buffer := [], trailingCr := trailingCr }, lines)
      else ({ buffer := lines.getLastD [], trailingCr := trailingCr }, lines.dropLast)

/-- The end of the text. -/
def flush (s : State) : List Text := if s.buffer = [] ∧ !s.trailingCr then [] else [s.buffer]

/-- **The lines** of the pieces. -/
def run (s : State) : List Text → List Text
  | [] => flush s
  | piece :: pieces => (decode s piece).2 ++ run (decode s piece).1 pieces

/-! ### Breaks that are settled -/

theorem lineBreak_le (s : Text) : lineBreak s ≤ s.length := by
  unfold lineBreak
  split
  · simp
  · split_ifs <;> simp
  · simp

theorem lineBreak_cons {c : Char} {s : Text} (h : ¬(c = '\r' ∧ s.head? = some '\n')) :
    lineBreak (c :: s) = if isLineBreak c then 1 else 0 := by
  unfold lineBreak
  split
  · rename_i heq
    obtain ⟨rfl, rfl⟩ := List.cons.inj heq
    exact absurd ⟨rfl, rfl⟩ h
  · rename_i heq
    obtain ⟨rfl, rfl⟩ := List.cons.inj heq
    rfl
  · rename_i heq
    cases heq

/-- Only a carriage return at the end can become another break. -/
theorem settled_of_not {s t : Text} (h : ¬(s.getLast? = some '\r' ∧ t.head? = some '\n')) :
    Settled lineBreak s t := by
  rintro u ⟨front, rfl⟩ hne
  obtain ⟨c, u, rfl⟩ := List.exists_cons_of_ne_nil hne
  cases u with
  | nil =>
    have hc : ¬(c = '\r' ∧ t.head? = some '\n') := by
      rintro ⟨rfl, ht⟩
      exact h ⟨by simp, ht⟩
    rw [List.singleton_append, lineBreak_cons hc, lineBreak_cons (by simp)]
  | cons d u =>
    by_cases hbreak : c = '\r' ∧ d = '\n'
    · obtain ⟨rfl, rfl⟩ := hbreak
      rfl
    · rw [lineBreak_cons (by simpa using hbreak), List.cons_append,
        lineBreak_cons (by simpa using hbreak)]

/-- A settled text gives up its lines; the last one is still growing. -/
theorem splitlines_append_of_settled {s t : Text} (h : Settled lineBreak s t) :
    splitlines (s ++ t) =
      (split lineBreak s).dropLast ++ splitlines (rest lineBreak s ++ t) := by
  simp only [splitlines, rest_append_of_settled lineBreak_le h,
    split_append_of_settled lineBreak_le h]
  split_ifs
  · rw [List.dropLast_append_of_ne_nil (split_ne_nil lineBreak _)]
  · rfl

/-- The last line has no break. -/
theorem not_isLineBreak_of_mem_rest {s : Text} {c : Char} (hc : c ∈ rest lineBreak s) :
    isLineBreak c = false :=
  not_isLineBreak_of_mem_splitFrom (List.getLast_mem (split_ne_nil lineBreak s)) hc

/-- An end of line. -/
def Ending (e : Text) : Prop := e = ['\n'] ∨ e = ['\r', '\n']

/-- A line with its end, whatever breaks it has inside. -/
theorem split_append_ending {line e t : Text} (hline : Plain line) (he : Ending e) :
    split lineBreak (line ++ (e ++ t)) = split lineBreak line ++ split lineBreak t := by
  have hlast : line.getLast? ≠ some '\r' := fun h =>
    (hline _ (List.mem_of_getLast? h)).2 rfl
  have hend : split lineBreak (e ++ t) = [] :: split lineBreak t := by
    rcases he with rfl | rfl
    · exact split_separator (List.cons_ne_nil _ _) rfl
    · exact split_separator (List.cons_ne_nil _ _) rfl
  rw [split_append_of_settled lineBreak_le (settled_of_not fun h => hlast h.1),
    split_append_of_silent (silent_lineBreak fun c hc => not_isLineBreak_of_mem_rest hc), hend,
    prepend, List.append_nil]
  rw [← List.singleton_append (x := rest lineBreak line), ← List.append_assoc,
    ← split_eq_append_rest]

theorem splitlines_append_ending {line e t : Text} (hline : Plain line) (he : Ending e) :
    splitlines (line ++ (e ++ t)) = split lineBreak line ++ splitlines t := by
  have hsplit := split_append_ending (t := t) hline he
  have hrest : rest lineBreak (line ++ (e ++ t)) = rest lineBreak t := by
    simp only [rest, hsplit]
    exact List.getLast_append_right (split_ne_nil lineBreak t)
  simp only [splitlines, hrest, hsplit]
  split_ifs
  · rw [List.dropLast_append_of_ne_nil (split_ne_nil lineBreak t)]
  · rfl

/-! ### Any pieces -/

/-- The text that is held back. -/
def State.held (s : State) : Text := s.buffer ++ if s.trailingCr then ['\r'] else []

/-- What is held back has no break, a carriage return at its end aside. -/
def State.Quiet (s : State) : Prop := ∀ c ∈ s.buffer, isLineBreak c = false

/-- A text without the carriage return at its end. -/
def trimCr (t : Text) : Text := if t.getLast? = some '\r' then t.dropLast else t

theorem trimCr_append {t : Text} :
    trimCr t ++ (if t.getLast? = some '\r' then ['\r'] else []) = t := by
  unfold trimCr
  split_ifs with h
  · obtain ⟨front, rfl⟩ := List.getLast?_eq_some_iff.mp h
    rw [List.dropLast_concat]
  · exact List.append_nil t

theorem rest_eq_self {s : Text} (h : ∀ c ∈ s, isLineBreak c = false) : rest lineBreak s = s :=
  rest_of_singleton (split_of_silent (silent_lineBreak h))

/-- The last line is empty exactly after a break. -/
theorem rest_eq_nil_iff {s : Text} (hne : s ≠ []) :
    rest lineBreak s = [] ↔ s.getLast?.any isLineBreak = true := by
  obtain ⟨front, c, rfl⟩ := (List.eq_nil_or_concat' s).resolve_left hne
  rw [List.getLast?_concat, Option.any_some]
  constructor
  · intro hrest
    by_contra hbreak
    rw [Bool.not_eq_true] at hbreak
    have hsettled : Settled lineBreak front [c] := settled_of_not fun h => by
      rw [List.head?_cons] at h
      rw [Option.some.inj h.2] at hbreak
      exact absurd hbreak (by decide)
    have hquiet : ∀ d ∈ rest lineBreak front ++ [c], isLineBreak d = false := by
      intro d hd
      rcases List.mem_append.mp hd with hd | hd
      · exact not_isLineBreak_of_mem_rest hd
      · rw [List.mem_singleton.mp hd]
        exact hbreak
    rw [rest_append_of_settled lineBreak_le hsettled, rest_eq_self hquiet] at hrest
    exact List.append_ne_nil_of_right_ne_nil _ (List.cons_ne_nil c []) hrest
  · intro hbreak
    obtain ⟨before, hbefore⟩ := rest_suffix lineBreak (front ++ [c])
    by_contra hrest
    have hlast : c ∈ rest lineBreak (front ++ [c]) := by
      have heq := congrArg List.getLast? hbefore
      rw [List.getLast?_append_of_ne_nil _ hrest, List.getLast?_concat] at heq
      exact List.mem_of_getLast? heq
    rw [not_isLineBreak_of_mem_rest hlast] at hbreak
    cases hbreak

/-- `decode` on the text of a piece, without the carriage return at its end. -/
def decodeTrimmed (buffer text : Text) : Text × List Text :=
  if text = [] then (buffer, [])
  else
    let trailingNewline := text.getLast?.any isLineBreak
    let lines := splitlines text
    if lines.length = 1 ∧ !trailingNewline then (buffer ++ lines.headD [], [])
    else
      let lines := if buffer = [] then lines else prepend buffer lines
      if trailingNewline then ([], lines) else (lines.getLastD [], lines.dropLast)

theorem decode_eq_decodeTrimmed (s : State) (piece : Text) :
    decode s piece =
      ({ buffer := (decodeTrimmed s.buffer
            (trimCr (if s.trailingCr then '\r' :: piece else piece))).1
         trailingCr := (if s.trailingCr then '\r' :: piece else piece).getLast? = some '\r' },
       (decodeTrimmed s.buffer (trimCr (if s.trailingCr then '\r' :: piece else piece))).2) := by
  unfold decode decodeTrimmed trimCr
  dsimp only
  simp only [decide_eq_true_eq]
  split_ifs <;> rfl

theorem decodeTrimmed_eq {buffer : Text} (hbuffer : ∀ c ∈ buffer, isLineBreak c = false)
    (text : Text) :
    decodeTrimmed buffer text =
      (rest lineBreak (buffer ++ text), (split lineBreak (buffer ++ text)).dropLast) := by
  have hsplit := split_append_of_silent (silent_lineBreak (t := text) hbuffer)
  obtain ⟨part, parts, hparts⟩ := List.exists_cons_of_ne_nil (split_ne_nil lineBreak text)
  rw [hparts, prepend] at hsplit
  have hrest : rest lineBreak (buffer ++ text) = ((buffer ++ part) :: parts).getLast
      (List.cons_ne_nil _ _) := by simp only [rest, hsplit]
  have hrest' : rest lineBreak text = (part :: parts).getLast (List.cons_ne_nil _ _) := by
    simp only [rest, hparts]
  rw [hrest, hsplit]
  unfold decodeTrimmed
  dsimp only
  by_cases hempty : text = []
  · subst hempty
    obtain ⟨rfl, rfl⟩ := List.cons.inj hparts.symm
    rw [if_pos rfl, List.append_nil]
    rfl
  · rw [if_neg hempty]
    have hprepend : ∀ lines : List Text, lines ≠ [] →
        (if buffer = [] then lines else prepend buffer lines) = prepend buffer lines := by
      intro lines hlines
      split_ifs with hnil
      · obtain ⟨line, lines, rfl⟩ := List.exists_cons_of_ne_nil hlines
        rw [hnil]
        rfl
      · rfl
    cases hnewline : text.getLast?.any isLineBreak with
    | true =>
      have hnil := (rest_eq_nil_iff hempty).mpr hnewline
      have hne : parts ≠ [] := by
        rintro rfl
        rw [hrest'] at hnil
        exact hempty ((eq_of_split_eq_singleton hparts).symm.trans hnil)
      have hlines : splitlines text = part :: parts.dropLast := by
        rw [splitlines, if_pos hnil, hparts, List.dropLast_cons_of_ne_nil hne]
      rw [if_neg (by simp), if_pos rfl, hlines, hprepend _ (List.cons_ne_nil _ _), prepend,
        List.dropLast_cons_of_ne_nil hne, List.getLast_cons hne]
      rw [hrest', List.getLast_cons hne] at hnil
      rw [hnil]
    | false =>
      have hnil : rest lineBreak text ≠ [] := by
        rw [ne_eq, rest_eq_nil_iff hempty, hnewline]
        exact Bool.false_ne_true
      have hlines : splitlines text = part :: parts := by
        rw [splitlines, if_neg hnil, hparts]
      rw [hlines, hprepend _ (List.cons_ne_nil _ _)]
      by_cases hsingle : parts = []
      · subst hsingle
        rw [if_pos ⟨rfl, rfl⟩]
        rfl
      · rw [if_neg (by simpa using hsingle), if_neg Bool.false_ne_true, prepend,
          List.getLastD_eq_getLast?, List.getLast?_eq_some_getLast (List.cons_ne_nil _ _),
          Option.getD_some]

/-- **One piece**, with what was held back in front of it. -/
theorem decode_eq {s : State} (hs : s.Quiet) (piece : Text) :
    decode s piece =
      ({ buffer := rest lineBreak (trimCr (s.held ++ piece))
         trailingCr := (s.held ++ piece).getLast? = some '\r' },
       (split lineBreak (trimCr (s.held ++ piece))).dropLast) := by
  have hheld : s.held ++ piece = s.buffer ++ if s.trailingCr then '\r' :: piece else piece := by
    unfold State.held
    split_ifs
    · rw [List.append_assoc, List.singleton_append]
    · rw [List.append_nil]
  rw [decode_eq_decodeTrimmed, decodeTrimmed_eq hs, hheld]
  generalize (if s.trailingCr then '\r' :: piece else piece) = text
  have hlast : (s.buffer ++ text).getLast? = some '\r' ↔ text.getLast? = some '\r' := by
    by_cases hempty : text = []
    · subst hempty
      rw [List.append_nil]
      refine iff_of_false (fun h => ?_) (by simp)
      exact absurd (hs _ (List.mem_of_getLast? h)) (by decide)
    · rw [List.getLast?_append_of_ne_nil _ hempty]
  have htrim : trimCr (s.buffer ++ text) = s.buffer ++ trimCr text := by
    unfold trimCr
    by_cases hcr : text.getLast? = some '\r'
    · rw [if_pos hcr, if_pos (hlast.mpr hcr), List.dropLast_append_of_ne_nil]
      rintro rfl
      cases hcr
    · rw [if_neg hcr, if_neg (hlast.not.mpr hcr)]
  rw [htrim]
  simp only [hlast]

/-- **The lines of the whole.** -/
theorem run_eq {s : State} (hs : s.Quiet) (pieces : List Text) :
    run s pieces = splitlines (s.held ++ pieces.flatten) := by
  induction pieces generalizing s with
  | nil =>
    rw [run, flush, List.flatten_nil, List.append_nil, State.held]
    cases hcr : s.trailingCr with
    | false =>
      rw [if_neg Bool.false_ne_true, List.append_nil, splitlines, rest_eq_self hs,
        split_of_silent (silent_lineBreak hs)]
      by_cases hempty : s.buffer = []
      · rw [if_pos ⟨hempty, rfl⟩, if_pos hempty]
        rfl
      · rw [if_neg fun h => hempty h.1, if_neg hempty]
    | true =>
      have hsplit : split lineBreak (s.buffer ++ ['\r']) = [s.buffer, []] := by
        rw [split_append_of_silent (silent_lineBreak hs)]
        show prepend s.buffer [[], []] = _
        rw [prepend, List.append_nil]
      have hrest : rest lineBreak (s.buffer ++ ['\r']) = [] := by
        simp only [rest, hsplit]
        rfl
      rw [if_neg (by simp), if_pos rfl, splitlines, hrest, hsplit, if_pos rfl]
      rfl
  | cons piece pieces ih =>
    have hdecode := decode_eq hs piece
    rw [run, hdecode]
    dsimp only
    rw [ih fun c hc => not_isLineBreak_of_mem_rest hc, List.flatten_cons, ← List.append_assoc]
    generalize s.held ++ piece = text
    have hsettled : Settled lineBreak (trimCr text)
        ((if text.getLast? = some '\r' then ['\r'] else []) ++ pieces.flatten) := by
      refine settled_of_not fun h => ?_
      by_cases hcr : text.getLast? = some '\r'
      · rw [if_pos hcr] at h
        exact absurd (Option.some.inj h.2) (by decide)
      · rw [trimCr, if_neg hcr] at h
        exact hcr h.1
    have hsplit := splitlines_append_of_settled hsettled
    rw [← List.append_assoc, trimCr_append, ← List.append_assoc] at hsplit
    rw [hsplit]
    simp only [State.held, decide_eq_true_eq]

end LineDecoder

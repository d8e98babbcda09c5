import EvernightAI.Lib.SpanMarkup

/-!
# The lines of a code block

`codeLines` of `frontend/src/components/common/markdownContent.ts` puts each line of a highlighted
code block into an element of its own. The spans of the highlighter that cross a line break are
closed at its end and opened again on the next line; `open` is the stack of the tags that the scan
of `/<span[^>]*>|<\/span>/g` has found open.

* `shown_codeLines_iff` : the elements are the lines of the code exactly if no tag has a line break
  in it and the line break that ends the code is not inside a span. The highlighter leaves it in a
  span where a comment or a string runs to the end of the block.
-/

namespace EvernightAI.CodeLines

open SpanMarkup

/-- The match of `/<span[^>]*>|<\/span>/` at the head. -/
def matchTag (s : Text) : Option Text :=
  if spanStart.isPrefixOf s then
    let rest := s.drop spanStart.length
    if '>' ∈ rest then some (openingTag (rest.takeWhile (· ≠ '>'))) else none
  else if closingTag.isPrefixOf s then some closingTag
  else none

/-- `matchAll`, after `skip` characters that belong to a match. -/
def matchAllFrom : ℕ → Text → List Text
  | _, [] => []
  | skip + 1, _ :: s => matchAllFrom skip s
  | 0, c :: s =>
    match matchTag (c :: s) with
    | some tag => tag :: matchAllFrom (tag.length - 1) s
    | none => matchAllFrom 0 s

/-- `line.matchAll(/<span[^>]*>|<\/span>/g)` -/
def matchAll (line : Text) : List Text := matchAllFrom 0 line

/-- `open.pop()` at a closing tag, `open.push(tag)` at another one. -/
def track (opened : List Text) (tag : Text) : List Text :=
  if tag = closingTag then opened.dropLast else opened ++ [tag]

/-- ` class="code-line"` -/
def codeLine : Text := " class=\"code-line\"".toList

/-- The elements of the lines, from the tags that are open before them. -/
def codeLinesFrom (opened : List Text) : List Text → Text
  | [] => []
  | line :: lines =>
    let after := (matchAll line).foldl track opened
    openingTag codeLine ++ opened.flatten ++ line ++ ['\n'] ++
      (List.replicate after.length closingTag).flatten ++ closingTag ++ codeLinesFrom after lines

/-- `.replace(/\n$/, '')` -/
def dropFinalBreak (s : Text) : Text := if s.getLast? = some '\n' then s.dropLast else s

/-- **`codeLines`**: one element for each line. -/
def codeLines (html : Text) : Text := codeLinesFrom [] ((dropFinalBreak html).splitOn '\n')

/-! ### What is shown -/

/-- The lines of a code, as the fence rule counts them. -/
def sourceLines (code : Text) : List Text := (dropFinalBreak code).splitOn '\n'

/-- One line break more, unless the text ends with one. -/
def endWithBreak {α : Type} (isBreak : α → Bool) (final : α) (xs : List α) : List α :=
  if (xs.getLast?.any isBreak) = true then xs else xs ++ [final]

/-- The element of a line. -/
def lineElement (element : List Piece) : List Piece :=
  .opening codeLine :: element ++ [.closing]

/-- **The lines are shown**: the text is read as one element for each line of the code, each nested;
the characters are enclosed as in the code, and the last line ends with a line break. -/
def Shown (html : Text) (code : List Piece) : Prop :=
  ∃ elements : List (List Piece),
    read? html = some (elements.flatMap lineElement) ∧
      elements.map shown = (sourceLines (shown code)).map (· ++ ['\n']) ∧
      (∀ element ∈ elements, Nested element) ∧
      elements.flatMap enclosed =
        endWithBreak (fun c => c.1 = '\n') ('\n', []) (enclosed code) ∧
      elements.flatMap shown = endWithBreak (· = '\n') '\n' (shown code)

variable {spans opened : List Text} {s html : Text} {pieces line code : List Piece}
  {lines : List (List Piece)}

/-! ### The scan of the tags -/

theorem matchTag_of_ne {c : Char} (hc : c ≠ '<') : matchTag (c :: s) = none := by
  have hne : ('<' == c) = false := beq_eq_false_iff_ne.mpr (Ne.symm hc)
  simp only [matchTag, spanStart, closingTag, List.isPrefixOf_cons_cons, hne, Bool.false_and,
    Bool.false_eq_true, if_false]

theorem matchTag_openingTag {attributes : Text} (h : '>' ∉ attributes) :
    matchTag (openingTag attributes ++ s) = some (openingTag attributes) := by
  have htake : (attributes ++ ['>'] ++ s).takeWhile (· ≠ '>') = attributes := by
    rw [List.append_assoc, List.takeWhile_append_of_pos]
    · exact List.append_nil attributes
    · intro c hc
      exact decide_eq_true fun he => h (he ▸ hc)
  have hmem : '>' ∈ attributes ++ ['>'] ++ s :=
    List.mem_append_left s (List.mem_append_right attributes List.mem_cons_self)
  have hdrop : (openingTag attributes ++ s).drop spanStart.length = attributes ++ ['>'] ++ s := rfl
  have hprefix : spanStart.isPrefixOf (openingTag attributes ++ s) = true := by
    rw [List.isPrefixOf_iff_prefix, openingTag, List.append_assoc, List.append_assoc]
    exact List.prefix_append spanStart _
  rw [matchTag, if_pos hprefix]
  dsimp only
  rw [hdrop, if_pos hmem, htake]

theorem matchTag_closingTag : matchTag (closingTag ++ s) = some closingTag := rfl

theorem matchAllFrom_eq_drop (n : ℕ) (s : Text) : matchAllFrom n s = matchAll (s.drop n) := by
  induction n generalizing s with
  | zero => rfl
  | succ n ih =>
    cases s with
    | nil => rfl
    | cons c s => rw [matchAllFrom, ih, List.drop_succ_cons]

theorem matchAll_append {tag : Text} (hne : tag ≠ []) (h : matchTag (tag ++ s) = some tag) :
    matchAll (tag ++ s) = tag :: matchAll s := by
  obtain ⟨c, rest, rfl⟩ := List.exists_cons_of_ne_nil hne
  rw [List.cons_append] at h
  rw [matchAll, List.cons_append, matchAllFrom, h]
  dsimp only
  rw [matchAllFrom_eq_drop, List.length_cons, Nat.add_sub_cancel, List.drop_left]

/-- The tag of a piece. -/
def tag? : Piece → Option Text
  | .text _ => none
  | .opening attributes => some (openingTag attributes)
  | .closing => some closingTag

theorem filterMap_text (c : Char) :
    (Piece.text c :: line).filterMap tag? = line.filterMap tag? := rfl

theorem filterMap_opening (attributes : Text) :
    (Piece.opening attributes :: line).filterMap tag? =
      openingTag attributes :: line.filterMap tag? := rfl

theorem filterMap_closing :
    (Piece.closing :: line).filterMap tag? = closingTag :: line.filterMap tag? := rfl

/-- **The scan finds the tags of a line.** -/
theorem matchAll_render (h : ∀ piece ∈ line, piece.Plain) :
    matchAll (render line) = line.filterMap tag? := by
  induction line with
  | nil => rfl
  | cons piece line ih =>
    have hhead := h piece List.mem_cons_self
    have htail := ih fun p hp => h p (List.mem_cons_of_mem piece hp)
    rw [render_cons]
    cases piece with
    | text c =>
      rw [filterMap_text, ← htail, matchAll, Piece.render, List.singleton_append,
        matchAllFrom, matchTag_of_ne hhead]
      rfl
    | opening attributes =>
      rw [filterMap_opening, ← htail, Piece.render]
      exact matchAll_append (List.cons_ne_nil _ _) (matchTag_openingTag hhead.2)
    | closing =>
      rw [filterMap_closing, ← htail, Piece.render]
      exact matchAll_append (List.cons_ne_nil _ _) matchTag_closingTag

/-- **The stack holds the tags of the open spans.** -/
theorem foldl_track {after : List Text} (h : spansFrom spans line = some after) :
    (line.filterMap tag?).foldl track (spans.map openingTag) = after.map openingTag := by
  induction line generalizing spans with
  | nil =>
    obtain rfl := Option.some.inj h
    rfl
  | cons piece line ih =>
    rw [spansFrom_cons] at h
    obtain ⟨mid, hmid, h⟩ := Option.bind_eq_some_iff.mp h
    cases piece with
    | text c =>
      obtain rfl := Option.some.inj hmid
      rw [filterMap_text, ih h]
    | opening attributes =>
      obtain rfl := Option.some.inj hmid
      have hne : openingTag attributes ≠ closingTag := by
        intro he
        exact absurd (List.cons.inj (List.cons.inj he).2).1 (by decide)
      rw [filterMap_opening, List.foldl_cons, track, if_neg hne, ← ih h,
        List.map_append]
      rfl
    | closing =>
      by_cases hnil : spans = []
      · rw [next?, if_pos hnil] at hmid
        exact absurd hmid.symm (Option.some_ne_none mid)
      · rw [next?, if_neg hnil] at hmid
        obtain rfl := Option.some.inj hmid
        rw [filterMap_closing, List.foldl_cons, track, if_pos rfl, ← ih h,
          List.map_dropLast]

/-! ### The elements -/

/-- A line break of the text. -/
def lineBreak : Piece := .text '\n'

/-- What the elements hold: the lines with their breaks, each on its own. -/
def elementsFrom : List Text → List (List Piece) → List (List Piece)
  | _, [] => []
  | spans, line :: lines =>
    let after := (spansFrom spans line).getD []
    cover spans (line ++ [lineBreak]) after :: elementsFrom after lines

/-- The lines with their breaks. -/
def ended (lines : List (List Piece)) : List Piece := lines.flatMap fun line => line ++ [lineBreak]

theorem spansFrom_lineBreak {after : List Text} (h : spansFrom spans line = some after) :
    spansFrom spans (line ++ [lineBreak]) = some after := by
  rw [spansFrom_append_of h]
  rfl

/-- The spans after the first of some lines. -/
theorem exists_spansFrom_ended (h : spansFrom spans (ended (line :: lines)) = some []) :
    ∃ after, spansFrom spans line = some after ∧ spansFrom after (ended lines) = some [] := by
  rw [ended, List.flatMap_cons, List.append_assoc, spansFrom_append] at h
  obtain ⟨after, hafter, h⟩ := Option.bind_eq_some_iff.mp h
  exact ⟨after, hafter, h⟩

theorem elementsFrom_cons {after : List Text} (h : spansFrom spans line = some after) :
    elementsFrom spans (line :: lines) =
      cover spans (line ++ [lineBreak]) after :: elementsFrom after lines := by
  rw [elementsFrom, h]
  rfl

theorem map_shown_elementsFrom : (elementsFrom spans lines).map shown =
    (lines.map shown).map (· ++ ['\n']) := by
  induction lines generalizing spans with
  | nil => rfl
  | cons line lines ih =>
    rw [elementsFrom, List.map_cons, ih, shown_cover, shown_append]
    rfl

theorem nested_of_mem_elementsFrom (h : spansFrom spans (ended lines) = some [])
    {element : List Piece} (hmem : element ∈ elementsFrom spans lines) : Nested element := by
  induction lines generalizing spans with
  | nil => exact absurd hmem List.not_mem_nil
  | cons line lines ih =>
    obtain ⟨after, hafter, h⟩ := exists_spansFrom_ended h
    rw [elementsFrom_cons hafter] at hmem
    rcases List.mem_cons.mp hmem with rfl | hmem
    · exact nested_cover (spansFrom_lineBreak hafter)
    · exact ih h hmem

theorem flatMap_enclosed_elementsFrom (h : spansFrom spans (ended lines) = some []) :
    (elementsFrom spans lines).flatMap enclosed = enclosedFrom spans (ended lines) := by
  induction lines generalizing spans with
  | nil => rfl
  | cons line lines ih =>
    obtain ⟨after, hafter, h⟩ := exists_spansFrom_ended h
    have hbreak := spansFrom_lineBreak hafter
    rw [elementsFrom_cons hafter, List.flatMap_cons, ih h, enclosed_cover hbreak, ended, ended,
      List.flatMap_cons, enclosedFrom_append_of hbreak]

theorem plain_codeLine : (Piece.opening codeLine).Plain := by
  constructor <;> decide +kernel

/-- The elements are read back. -/
theorem plain_of_mem_elementsFrom (h : spansFrom spans (ended lines) = some [])
    (hspans : ∀ attributes ∈ spans, (Piece.opening attributes).Plain)
    (hlines : ∀ line ∈ lines, ∀ piece ∈ line, piece.Plain) {piece : Piece}
    (hmem : piece ∈ (elementsFrom spans lines).flatMap lineElement) : piece.Plain := by
  induction lines generalizing spans with
  | nil => exact absurd hmem List.not_mem_nil
  | cons line lines ih =>
    obtain ⟨after, hafter, h⟩ := exists_spansFrom_ended h
    have hline := hlines line List.mem_cons_self
    have hafterPlain : ∀ attributes ∈ after, (Piece.opening attributes).Plain := by
      intro attributes hin
      rcases mem_of_spansFrom hafter hin with hin | hin
      · exact hspans attributes hin
      · exact hline _ hin
    rw [elementsFrom_cons hafter, List.flatMap_cons, List.mem_append] at hmem
    rcases hmem with hmem | hmem
    · simp only [lineElement, cover, reopening, closings, List.cons_append, List.mem_cons,
        List.mem_append, List.mem_map, List.mem_replicate, List.not_mem_nil, or_false] at hmem
      rcases hmem with rfl | (((⟨attributes, hin, rfl⟩ | hin | rfl) | ⟨-, rfl⟩) | rfl)
      · exact plain_codeLine
      · exact hspans attributes hin
      · exact hline piece hin
      · exact (by decide : '\n' ≠ '<')
      · trivial
      · trivial
    · exact ih h hafterPlain (fun l hl => hlines l (List.mem_cons_of_mem line hl)) hmem

theorem render_reopening (spans : List Text) :
    render (reopening spans) = (spans.map openingTag).flatten := by
  induction spans with
  | nil => rfl
  | cons attributes spans ih =>
    rw [List.map_cons, List.flatten_cons, ← ih]
    rfl

theorem render_closings (spans : List Text) :
    render (closings spans) = (List.replicate spans.length closingTag).flatten := by
  induction spans with
  | nil => rfl
  | cons attributes spans ih =>
    rw [List.length_cons, List.replicate_succ, List.flatten_cons, ← ih]
    rfl

/-- **The code writes these elements.** -/
theorem codeLinesFrom_render (h : spansFrom spans (ended lines) = some [])
    (hlines : ∀ line ∈ lines, ∀ piece ∈ line, piece.Plain) :
    codeLinesFrom (spans.map openingTag) (lines.map render) =
      render ((elementsFrom spans lines).flatMap lineElement) := by
  induction lines generalizing spans with
  | nil => rfl
  | cons line lines ih =>
    obtain ⟨after, hafter, h⟩ := exists_spansFrom_ended h
    have htrack : (matchAll (render line)).foldl track (spans.map openingTag) =
        after.map openingTag := by
      rw [matchAll_render (hlines line List.mem_cons_self), foldl_track hafter]
    rw [List.map_cons, codeLinesFrom, htrack, elementsFrom_cons hafter, List.flatMap_cons,
      render_append, ih h fun l hl => hlines l (List.mem_cons_of_mem line hl), List.length_map]
    rw [lineElement, cover, List.cons_append, render_cons, render_append, render_append,
      render_append, render_append, render_reopening, render_closings]
    simp only [List.append_assoc]
    rfl

/-! ### The final line break -/

theorem dropFinalBreak_concat_break : dropFinalBreak (s ++ ['\n']) = s := by
  rw [dropFinalBreak, List.getLast?_concat, if_pos rfl, List.dropLast_concat]

theorem dropFinalBreak_of_ne (h : s.getLast? ≠ some '\n') : dropFinalBreak s = s := if_neg h

/-- What comes before the last character stays. -/
theorem dropFinalBreak_append {t : Text} (ht : t ≠ []) :
    dropFinalBreak (s ++ t) = s ++ dropFinalBreak t := by
  rw [dropFinalBreak, dropFinalBreak, List.getLast?_append_of_ne_nil s ht]
  by_cases h : t.getLast? = some '\n'
  · rw [if_pos h, if_pos h, List.dropLast_append_of_ne_nil ht]
  · rw [if_neg h, if_neg h]

/-- A text ends with a line break if its last piece is one. -/
theorem eq_concat_of_getLast? (h : (render code).getLast? = some '\n') :
    ∃ body, code = body ++ [lineBreak] := by
  cases code using List.reverseRecOn with
  | nil => exact absurd h nofun
  | append_singleton body piece =>
    rw [render_append] at h
    cases piece with
    | text c =>
      have hlast : (render body ++ render [Piece.text c]).getLast? = some c :=
        List.getLast?_concat
      rw [hlast] at h
      rw [Option.some.inj h]
      exact ⟨body, rfl⟩
    | opening attributes =>
      have hlast : (render body ++ render [Piece.opening attributes]).getLast? = some '>' := by
        have hrender : render [Piece.opening attributes] = spanStart ++ attributes ++ ['>'] :=
          List.append_nil _
        rw [hrender, ← List.append_assoc, List.getLast?_concat]
      rw [hlast] at h
      exact absurd (Option.some.inj h) (by decide)
    | closing =>
      have hlast : (render body ++ render [Piece.closing]).getLast? = some '>' :=
        List.getLast?_append_of_ne_nil _ (List.cons_ne_nil _ _)
      rw [hlast] at h
      exact absurd (Option.some.inj h) (by decide)

theorem endWithBreak_concat {α : Type} {isBreak : α → Bool} {final last : α} {xs : List α}
    (h : isBreak last = true) :
    endWithBreak isBreak final (xs ++ [last]) = xs ++ [last] := by
  rw [endWithBreak, List.getLast?_concat]
  exact if_pos h

theorem endWithBreak_of_not {α : Type} {isBreak : α → Bool} {final : α} {xs : List α}
    (h : ∀ last, xs.getLast? = some last → isBreak last = false) :
    endWithBreak isBreak final xs = xs ++ [final] := by
  rw [endWithBreak]
  refine if_neg ?_
  rw [Option.any_eq_true]
  rintro ⟨last, hlast, hbreak⟩
  rw [h last hlast] at hbreak
  exact absurd hbreak (by decide)

/-! ### Lines with line breaks in tags -/

theorem exists_codeLinesFrom_append (opened : List Text) (lines more : List Text) :
    ∃ after, codeLinesFrom opened (lines ++ more) =
      codeLinesFrom opened lines ++ codeLinesFrom after more := by
  induction lines generalizing opened with
  | nil => exact ⟨opened, rfl⟩
  | cons line lines ih =>
    obtain ⟨after, hafter⟩ := ih ((matchAll line).foldl track opened)
    refine ⟨after, ?_⟩
    rw [List.cons_append, codeLinesFrom, codeLinesFrom, hafter]
    simp only [List.append_assoc]

/-- After the break of a line its element ends, and the next character is the `<` of a tag. -/
theorem exists_codeLines_append {t : Text} (hs : '\n' ∉ s) (ht : t ≠ []) (front : Text) :
    ∃ pre rest, codeLines (front ++ s ++ '\n' :: t) = pre ++ s ++ '\n' :: '<' :: rest := by
  have hdrop : dropFinalBreak (front ++ s ++ '\n' :: t) =
      (front ++ s) ++ '\n' :: dropFinalBreak t := by
    have happend := @dropFinalBreak_append (front ++ s ++ ['\n']) t ht
    rw [List.append_assoc, List.append_assoc (front ++ s)] at happend
    exact happend
  obtain ⟨before, line, hlines⟩ := exists_splitOn_append front hs
  obtain ⟨after, hafter⟩ := exists_codeLinesFrom_append [] before
    ([line ++ s] ++ (dropFinalBreak t).splitOn '\n')
  have hclosing : ∀ n, ∃ w, (List.replicate n closingTag).flatten ++ closingTag = '<' :: w := by
    intro n
    cases n with
    | zero => exact ⟨_, rfl⟩
    | succ n => exact ⟨_, rfl⟩
  obtain ⟨w, hw⟩ := hclosing ((matchAll (line ++ s)).foldl track after).length
  refine ⟨codeLinesFrom [] before ++ openingTag codeLine ++ after.flatten ++ line,
    w ++ codeLinesFrom ((matchAll (line ++ s)).foldl track after)
      ((dropFinalBreak t).splitOn '\n'), ?_⟩
  rw [codeLines, hdrop, List.splitOn_append_cons_self, hlines, List.append_assoc, hafter,
    List.singleton_append, codeLinesFrom, List.append_assoc _ _ closingTag, hw]
  simp only [List.append_assoc, List.cons_append, List.nil_append]

/-- **A line break in a tag** takes the tag apart. -/
theorem read?_codeLines_eq_none {attributes : Text} (hplain : (Piece.opening attributes).Plain)
    (hmem : .opening attributes ∈ code) (hbreak : '\n' ∈ attributes) :
    read? (codeLines (render code)) = none := by
  obtain ⟨before, after, rfl⟩ := List.append_of_mem hmem
  obtain ⟨first, more, rfl, hfirst⟩ := List.eq_append_cons_of_mem hbreak
  have hs : '\n' ∉ spanStart ++ first := by
    rw [List.mem_append, not_or]
    exact ⟨by decide, hfirst⟩
  have hhtml : render (before ++ .opening (first ++ '\n' :: more) :: after) =
      render before ++ (spanStart ++ first) ++ '\n' :: (more ++ '>' :: render after) := by
    rw [render_append, render_cons, Piece.render, openingTag]
    simp only [List.append_assoc, List.cons_append, List.nil_append]
  have hrest : more ++ '>' :: render after ≠ [] :=
    List.append_ne_nil_of_right_ne_nil more (List.cons_ne_nil _ _)
  obtain ⟨pre, rest, hcode⟩ := exists_codeLines_append hs hrest (render before)
  have hgt : '>' ∉ ['s', 'p', 'a', 'n'] ++ first ++ ['\n'] := by
    have hmore := hplain.2
    simp only [List.mem_append, List.mem_cons, not_or] at hmore ⊢
    exact ⟨⟨by decide, hmore.1⟩, by decide, List.not_mem_nil⟩
  have hnone := @readFrom_eq_none (['s', 'p', 'a', 'n'] ++ first ++ ['\n']) rest pre none hgt
  rw [hhtml, hcode, read?, ← hnone, spanStart]
  simp only [List.append_assoc, List.cons_append, List.nil_append]

/-! ### The lines that are shown -/

theorem shown_flatMap_lineElement (elements : List (List Piece)) :
    shown (elements.flatMap lineElement) = elements.flatMap shown := by
  induction elements with
  | nil => rfl
  | cons element elements ih =>
    rw [List.flatMap_cons, List.flatMap_cons, shown_append, ih, lineElement, List.cons_append,
      shown_cons, shown_append]
    exact congrArg (· ++ elements.flatMap shown) (List.append_nil _)

/-- A tag without a line break has none when it is written. -/
theorem break_not_mem_render (htags : ∀ attributes, .opening attributes ∈ code → '\n' ∉ attributes)
    {piece : Piece} (hmem : piece ∈ code) (hne : piece ≠ lineBreak) : '\n' ∉ piece.render := by
  cases piece with
  | text c =>
    rw [Piece.render, List.mem_singleton]
    exact fun he => hne (congrArg Piece.text he.symm)
  | opening attributes =>
    rw [Piece.render, openingTag, List.mem_append, List.mem_append, not_or, not_or]
    exact ⟨⟨by decide, htags attributes hmem⟩, by decide⟩
  | closing =>
    rw [Piece.render]
    decide

theorem break_not_mem_shown {piece : Piece} (hne : piece ≠ lineBreak) : '\n' ∉ piece.shown := by
  cases piece with
  | text c =>
    rw [Piece.shown, List.mem_singleton]
    exact fun he => hne (congrArg Piece.text he.symm)
  | opening attributes => exact List.not_mem_nil
  | closing => exact List.not_mem_nil

/-- **The elements of a code** whose final line break is not counted. -/
theorem exists_elements (hplain : ∀ piece ∈ code, piece.Plain) (hnested : Nested code)
    (htags : ∀ attributes, .opening attributes ∈ code → '\n' ∉ attributes) :
    ∃ elements : List (List Piece),
      read? (codeLinesFrom [] ((render code).splitOn '\n')) =
          some (elements.flatMap lineElement) ∧
        elements.map shown = ((shown code).splitOn '\n').map (· ++ ['\n']) ∧
        (∀ element ∈ elements, Nested element) ∧
        elements.flatMap enclosed = enclosed (code ++ [lineBreak]) ∧
        elements.flatMap shown = shown code ++ ['\n'] := by
  have hended : ended (code.splitOn lineBreak) = code ++ [lineBreak] := flatMap_splitOn _ _
  have hspans : spansFrom [] (ended (code.splitOn lineBreak)) = some [] := by
    rw [hended]
    exact spansFrom_lineBreak hnested
  have hlines : ∀ line ∈ code.splitOn lineBreak, ∀ piece ∈ line, piece.Plain := by
    intro line hline piece hpiece
    have hin : piece ∈ ended (code.splitOn lineBreak) :=
      List.mem_flatMap.mpr ⟨line, hline, List.mem_append_left _ hpiece⟩
    rw [hended, List.mem_append, List.mem_singleton] at hin
    rcases hin with hin | rfl
    · exact hplain piece hin
    · exact (by decide : '\n' ≠ '<')
  have hrender : (render code).splitOn '\n' = (code.splitOn lineBreak).map render :=
    splitOn_flatMap rfl fun piece hmem hne => break_not_mem_render htags hmem hne
  have hshown : (shown code).splitOn '\n' = (code.splitOn lineBreak).map shown :=
    splitOn_flatMap rfl fun piece _ hne => break_not_mem_shown hne
  have hmap : (elementsFrom [] (code.splitOn lineBreak)).map shown =
      ((shown code).splitOn '\n').map (· ++ ['\n']) := by
    rw [map_shown_elementsFrom, hshown]
  refine ⟨elementsFrom [] (code.splitOn lineBreak), ?_, hmap, ?_, ?_, ?_⟩
  · rw [hrender]
    have hcode := codeLinesFrom_render hspans hlines
    rw [List.map_nil] at hcode
    rw [hcode]
    exact read?_render fun piece hmem => plain_of_mem_elementsFrom hspans nofun hlines hmem
  · exact fun element hmem => nested_of_mem_elementsFrom hspans hmem
  · rw [flatMap_enclosed_elementsFrom hspans, hended, enclosed]
  · rw [List.flatMap_def, hmap, ← List.flatMap_def]
    exact flatMap_splitOn '\n' (shown code)

/-- A line break that ends the text ends the characters with what encloses them. -/
theorem eq_break_of_getLast?_enclosed {last : Char × List Text}
    (h : (enclosed code).getLast? = some last) : (shown code).getLast? = some last.1 := by
  rw [← @map_fst_enclosedFrom code [], List.getLast?_map]
  exact congrArg (Option.map Prod.fst) h

/-- **The lines are shown** if the tags have no line break and the final one ends the text. -/
theorem shown_codeLines (hplain : ∀ piece ∈ code, piece.Plain) (hnested : Nested code)
    (htags : ∀ attributes, .opening attributes ∈ code → '\n' ∉ attributes)
    (hfinal : (shown code).getLast? = some '\n' → (render code).getLast? = some '\n') :
    Shown (codeLines (render code)) code := by
  by_cases hbreak : (render code).getLast? = some '\n'
  · obtain ⟨body, rfl⟩ := eq_concat_of_getLast? hbreak
    have hbody : Nested body := by
      rw [Nested, spansFrom_append] at hnested
      obtain ⟨after, hafter, hnil⟩ := Option.bind_eq_some_iff.mp hnested
      obtain rfl := Option.some.inj hnil
      exact hafter
    obtain ⟨elements, hread, hmap, hnest, henclosed, hshown⟩ := exists_elements
      (fun p hp => hplain p (List.mem_append_left _ hp)) hbody
      (fun a ha => htags a (List.mem_append_left _ ha))
    have hhtml : dropFinalBreak (render (body ++ [lineBreak])) = render body := by
      rw [render_append]
      exact dropFinalBreak_concat_break
    have htext : shown (body ++ [lineBreak]) = shown body ++ ['\n'] := shown_append
    refine ⟨elements, ?_, ?_, hnest, ?_, ?_⟩
    · rw [codeLines, hhtml, hread]
    · rw [sourceLines, htext, dropFinalBreak_concat_break, hmap]
    · have hsplit : enclosed (body ++ [lineBreak]) = enclosed body ++ [('\n', [])] :=
        enclosedFrom_append_of hbody
      rw [henclosed, hsplit]
      exact (endWithBreak_concat rfl).symm
    · rw [hshown, htext]
      exact (endWithBreak_concat rfl).symm
  · obtain ⟨elements, hread, hmap, hnest, henclosed, hshown⟩ := exists_elements hplain hnested htags
    have hne : (shown code).getLast? ≠ some '\n' := fun h => hbreak (hfinal h)
    refine ⟨elements, ?_, ?_, hnest, ?_, ?_⟩
    · rw [codeLines, dropFinalBreak_of_ne hbreak, hread]
    · rw [sourceLines, dropFinalBreak_of_ne hne, hmap]
    · have hsplit : enclosed (code ++ [lineBreak]) = enclosed code ++ [('\n', [])] :=
        enclosedFrom_append_of hnested
      rw [henclosed, hsplit, endWithBreak_of_not]
      intro last hlast
      refine decide_eq_false fun he => hne ?_
      rw [eq_break_of_getLast?_enclosed hlast, he]
    · rw [hshown, endWithBreak_of_not]
      intro last hlast
      refine decide_eq_false fun he => hne ?_
      rw [hlast, he]

/-- **The elements are the lines of the code exactly if** no tag has a line break in it and a line
break that ends the text is not followed by a tag. -/
theorem shown_codeLines_iff (html : Text) (code : List Piece) (hread : read? html = some code)
    (hnested : Nested code) :
    Shown (codeLines html) code ↔
      (∀ attributes, .opening attributes ∈ code → '\n' ∉ attributes) ∧
        ((shown code).getLast? = some '\n' → html.getLast? = some '\n') := by
  obtain ⟨rfl, hplain⟩ := read?_eq_some_iff.mp hread
  constructor
  · rintro ⟨elements, helements, -, -, -, hshown⟩
    have htags : ∀ attributes, .opening attributes ∈ code → '\n' ∉ attributes := by
      intro attributes hmem hbreak
      rw [read?_codeLines_eq_none (hplain _ hmem) hmem hbreak] at helements
      exact absurd helements nofun
    refine ⟨htags, fun hlast => ?_⟩
    by_contra hne
    obtain ⟨others, hothers, -, -, -, htext⟩ := exists_elements hplain hnested htags
    rw [codeLines, dropFinalBreak_of_ne hne, hothers, Option.some.injEq] at helements
    -- the text of what is read has one line break more than the code
    have hsame := congrArg shown helements
    rw [shown_flatMap_lineElement, shown_flatMap_lineElement, htext, hshown, endWithBreak,
      hlast] at hsame
    have hlength := congrArg List.length hsame
    rw [if_pos (by decide), List.length_append, List.length_singleton] at hlength
    omega
  · rintro ⟨htags, hfinal⟩
    exact shown_codeLines hplain hnested htags hfinal

/-- A keyword over two lines. -/
def twoLines : Text := "<span class=\"hljs-string\">a\nb</span>\n".toList

theorem shown_codeLines_twoLines :
    Shown (codeLines twoLines) ((read? twoLines).getD []) :=
  (shown_codeLines_iff twoLines _ (by decide +kernel) (by decide +kernel)).mpr
    ⟨by
      intro attributes hmem
      have hone : attributes = " class=\"hljs-string\"".toList := by
        have hcode : (read? twoLines).getD [] = .opening " class=\"hljs-string\"".toList ::
            [.text 'a', .text '\n', .text 'b', .closing, .text '\n'] := by decide +kernel
        rw [hcode] at hmem
        simpa using hmem
      rw [hone]
      decide +kernel, by decide +kernel⟩

/-- A comment that runs to the end of a block: its span is closed after the final line break. -/
def openComment : Text := "<span class=\"hljs-comment\">/* a\n</span>".toList

/-- **The final line break is inside a span**: there is an element more than lines. -/
theorem openComment_not_shown :
    ∃ code, read? openComment = some code ∧ Nested code ∧ ¬Shown (codeLines openComment) code := by
  refine ⟨(read? openComment).getD [], by decide +kernel, by decide +kernel, ?_⟩
  rintro ⟨elements, helements, -, -, -, hshown⟩
  have htext : (read? (codeLines openComment)).map shown = some "/* a\n\n".toList := by
    decide +kernel
  have hcode : endWithBreak (· = '\n') '\n' (shown ((read? openComment).getD [])) =
      "/* a\n".toList := by decide +kernel
  rw [helements, Option.map_some, Option.some.injEq, shown_flatMap_lineElement, hshown,
    hcode] at htext
  exact absurd htext (by decide +kernel)

end EvernightAI.CodeLines

import Mathlib.Data.List.Basic
import Mathlib.Data.List.Induction

/-!
# Text with span tags

A markup in which spans of a text are marked by `<span …>` and `</span>`. `read?` takes a sequence
of characters apart into its `Piece`s, if each `<` of it starts such a tag; `Nested` says that every
span is closed, innermost first; `enclosed` lists the characters of the text, each with the spans
that are open where it stands.

* `read?_eq_some_iff` : what is read is what is written.
* `nested_cover`, `enclosed_cover` : a part of a text, with the spans that are open at its beginning
  opened again and the ones that are open at its end closed, is nested, and its characters are
  enclosed as they were.
-/

namespace SpanMarkup

/-- The characters of a text. -/
abbrev Text := List Char

/-- What a text with span tags is made of. -/
inductive Piece where
  | text (c : Char)
  | opening (attributes : Text)
  | closing
deriving DecidableEq

/-- `<span` -/
def spanStart : Text := ['<', 's', 'p', 'a', 'n']

/-- `</span>` -/
def closingTag : Text := ['<', '/', 's', 'p', 'a', 'n', '>']

/-- The tag that opens a span. -/
def openingTag (attributes : Text) : Text := spanStart ++ attributes ++ ['>']

def Piece.render : Piece → Text
  | .text c => [c]
  | .opening attributes => openingTag attributes
  | .closing => closingTag

/-- The pieces as they are written. -/
def render (pieces : List Piece) : Text := pieces.flatMap Piece.render

/-- The piece of the text, without the tags. -/
def Piece.shown : Piece → Text
  | .text c => [c]
  | .opening _ => []
  | .closing => []

/-- The text without the tags. -/
def shown (pieces : List Piece) : Text := pieces.flatMap Piece.shown

/-- The tag between two angle brackets. -/
def readTag : Text → Option Piece
  | ['/', 's', 'p', 'a', 'n'] => some .closing
  | 's' :: 'p' :: 'a' :: 'n' :: attributes => some (.opening attributes)
  | _ => none

/-- Read on, inside a tag of which some characters are read or outside of tags. -/
def readFrom : Option Text → Text → Option (List Piece)
  | none, [] => some []
  | some _, [] => none
  | none, c :: s =>
    if c = '<' then readFrom (some []) s else (readFrom none s).map (.text c :: ·)
  | some tag, c :: s =>
    if c = '<' then none
    else if c = '>' then (readTag tag).bind fun piece => (readFrom none s).map (piece :: ·)
    else readFrom (some (tag ++ [c])) s

/-- **The pieces of a text with span tags**; `none` if a `<` does not start one. -/
def read? (s : Text) : Option (List Piece) := readFrom none s

/-- A piece that is read back as it is. -/
def Piece.Plain : Piece → Prop
  | .text c => c ≠ '<'
  | .opening attributes => '<' ∉ attributes ∧ '>' ∉ attributes
  | .closing => True

variable {pieces more : List Piece} {s t pre tag : Text}

@[simp] theorem render_nil : render [] = [] := rfl

@[simp] theorem render_cons (piece : Piece) :
    render (piece :: pieces) = piece.render ++ render pieces := rfl

theorem render_append : render (pieces ++ more) = render pieces ++ render more :=
  List.flatMap_append

@[simp] theorem shown_nil : shown [] = [] := rfl

@[simp] theorem shown_cons (piece : Piece) :
    shown (piece :: pieces) = piece.shown ++ shown pieces := rfl

theorem shown_append : shown (pieces ++ more) = shown pieces ++ shown more :=
  List.flatMap_append

/-! ### Reading -/

/-- What is between two angle brackets is collected. -/
theorem readFrom_tag (hs : ∀ c ∈ s, c ≠ '<' ∧ c ≠ '>') :
    readFrom (some tag) (s ++ '>' :: t) =
      (readTag (tag ++ s)).bind fun piece => (readFrom none t).map (piece :: ·) := by
  induction s generalizing tag with
  | nil =>
    rw [List.nil_append, List.append_nil, readFrom, if_neg (by decide), if_pos rfl]
  | cons c s ih =>
    have hc := hs c List.mem_cons_self
    rw [List.cons_append, readFrom, if_neg hc.1, if_neg hc.2,
      ih fun d hd => hs d (List.mem_cons_of_mem c hd), List.append_assoc, List.singleton_append]

/-- A tag is read as what it is. -/
theorem readFrom_opening {attributes : Text} (h : (Piece.opening attributes).Plain) :
    readFrom none (openingTag attributes ++ s) =
      (readFrom none s).map (.opening attributes :: ·) := by
  have hplain : ∀ c ∈ ['s', 'p', 'a', 'n'] ++ attributes, c ≠ '<' ∧ c ≠ '>' := by
    intro c hc
    rw [List.mem_append] at hc
    rcases hc with hc | hc
    · simp only [List.mem_cons, List.not_mem_nil, or_false] at hc
      obtain rfl | rfl | rfl | rfl := hc <;> exact ⟨by decide, by decide⟩
    · exact ⟨fun he => h.1 (he ▸ hc), fun he => h.2 (he ▸ hc)⟩
  have hread := @readFrom_tag (['s', 'p', 'a', 'n'] ++ attributes) s [] hplain
  rw [openingTag, spanStart, List.append_assoc, List.append_assoc, List.cons_append, readFrom,
    if_pos rfl]
  rw [List.append_assoc, List.nil_append] at hread
  exact hread

theorem readFrom_closing :
    readFrom none (closingTag ++ s) = (readFrom none s).map (.closing :: ·) := rfl

/-- **What is written is read back.** -/
theorem read?_render (h : ∀ piece ∈ pieces, piece.Plain) : read? (render pieces) = some pieces := by
  rw [read?]
  induction pieces with
  | nil => rfl
  | cons piece pieces ih =>
    have hhead := h piece List.mem_cons_self
    have htail := ih fun p hp => h p (List.mem_cons_of_mem piece hp)
    rw [render_cons]
    cases piece with
    | text c =>
      rw [Piece.render, List.singleton_append, readFrom, if_neg hhead, htail, Option.map_some]
    | opening attributes =>
      rw [Piece.render, readFrom_opening hhead, htail, Option.map_some]
    | closing =>
      rw [Piece.render, readFrom_closing, htail, Option.map_some]

/-- A tag that is read is the one that is written. -/
theorem render_of_readTag {piece : Piece} (h : readTag tag = some piece)
    (htag : ∀ c ∈ tag, c ≠ '<' ∧ c ≠ '>') : piece.render = '<' :: tag ++ ['>'] ∧ piece.Plain := by
  rw [readTag.eq_def] at h
  split at h
  · obtain rfl := Option.some.inj h
    exact ⟨rfl, trivial⟩
  · rename_i attributes
    obtain rfl := Option.some.inj h
    refine ⟨rfl, fun hmem => ?_, fun hmem => ?_⟩
    · exact (htag '<' (by simp only [List.mem_cons, hmem, or_true])).1 rfl
    · exact (htag '>' (by simp only [List.mem_cons, hmem, or_true])).2 rfl
  · exact absurd h nofun

/-- What is read, inside and outside of tags. -/
theorem render_of_readFrom {inside : Option Text} (h : readFrom inside s = some pieces)
    (htag : ∀ c ∈ inside.getD [], c ≠ '<' ∧ c ≠ '>') :
    render pieces = (inside.elim [] fun tag => '<' :: tag) ++ s ∧
      ∀ piece ∈ pieces, piece.Plain := by
  induction s generalizing inside pieces with
  | nil =>
    cases inside with
    | none =>
      obtain rfl := Option.some.inj h
      exact ⟨rfl, nofun⟩
    | some tag => exact absurd h nofun
  | cons c s ih =>
    cases inside with
    | none =>
      rw [readFrom] at h
      by_cases hc : c = '<'
      · rw [if_pos hc] at h
        subst hc
        exact ih h nofun
      · rw [if_neg hc] at h
        obtain ⟨rest, hrest, rfl⟩ := Option.map_eq_some_iff.mp h
        obtain ⟨hrender, hplain⟩ := ih hrest nofun
        refine ⟨?_, List.forall_mem_cons.mpr ⟨hc, hplain⟩⟩
        rw [render_cons, hrender]
        rfl
    | some tag =>
      rw [readFrom] at h
      by_cases hlt : c = '<'
      · rw [if_pos hlt] at h
        exact absurd h nofun
      · rw [if_neg hlt] at h
        by_cases hgt : c = '>'
        · rw [if_pos hgt] at h
          obtain ⟨piece, hpiece, h⟩ := Option.bind_eq_some_iff.mp h
          obtain ⟨rest, hrest, rfl⟩ := Option.map_eq_some_iff.mp h
          obtain ⟨hrender, hplain⟩ := ih hrest nofun
          obtain ⟨htagged, hpiece⟩ := render_of_readTag hpiece htag
          refine ⟨?_, List.forall_mem_cons.mpr ⟨hpiece, hplain⟩⟩
          rw [render_cons, hrender, htagged, hgt, List.append_assoc]
          rfl
        · rw [if_neg hgt] at h
          have hmore : ∀ d ∈ tag ++ [c], d ≠ '<' ∧ d ≠ '>' := by
            intro d hd
            rcases List.mem_append.mp hd with hd | hd
            · exact htag d hd
            · rw [List.mem_singleton] at hd
              exact hd ▸ ⟨hlt, hgt⟩
          obtain ⟨hrender, hplain⟩ := ih h hmore
          refine ⟨?_, hplain⟩
          rw [hrender]
          simp only [Option.elim_some, List.cons_append, List.append_assoc, List.nil_append]

/-- **Reading is the inverse of writing.** -/
theorem read?_eq_some_iff :
    read? s = some pieces ↔ render pieces = s ∧ ∀ piece ∈ pieces, piece.Plain := by
  constructor
  · exact fun h => render_of_readFrom h nofun
  · rintro ⟨rfl, h⟩
    exact read?_render h

/-- A second `<` before the `>` of a tag is not read. -/
theorem readFrom_eq_none (inside : Option Text) (hs : '>' ∉ s) :
    readFrom inside (pre ++ '<' :: (s ++ '<' :: t)) = none := by
  have hin : ∀ tag, readFrom (some tag) (s ++ '<' :: t) = none := by
    induction s with
    | nil => exact fun tag => if_pos rfl
    | cons c s ih =>
      intro tag
      rw [List.cons_append, readFrom]
      rw [List.mem_cons, not_or] at hs
      rw [if_neg (Ne.symm hs.1), ih hs.2, ite_self]
  induction pre generalizing inside with
  | nil =>
    cases inside with
    | none => exact (if_pos rfl).trans (hin [])
    | some tag => exact if_pos rfl
  | cons c pre ih =>
    rw [List.cons_append]
    cases inside with
    | none => rw [readFrom, ih, ih, Option.map_none, ite_self]
    | some tag =>
      rw [readFrom, ih, ih]
      simp only [Option.map_none, Option.bind_fun_none, ite_self]

/-! ### Spans -/

/-- The open spans after a piece, outermost first; `none` if it closes a span that is not open. -/
def next? (spans : List Text) : Piece → Option (List Text)
  | .text _ => some spans
  | .opening attributes => some (spans ++ [attributes])
  | .closing => if spans = [] then none else some spans.dropLast

/-- The open spans after some pieces. -/
def spansFrom (spans : List Text) (pieces : List Piece) : Option (List Text) :=
  pieces.foldlM next? spans

/-- **The tags are properly nested.** -/
def Nested (pieces : List Piece) : Prop := spansFrom [] pieces = some []

instance (pieces : List Piece) : Decidable (Nested pieces) :=
  inferInstanceAs (Decidable (_ = _))

/-- The characters of the text, each with the spans that are open there. -/
def enclosedFrom : List Text → List Piece → List (Char × List Text)
  | _, [] => []
  | spans, .text c :: pieces => (c, spans) :: enclosedFrom spans pieces
  | spans, .opening attributes :: pieces => enclosedFrom (spans ++ [attributes]) pieces
  | spans, .closing :: pieces => enclosedFrom spans.dropLast pieces

/-- **The characters of the text, each with the spans that enclose it**, outermost first. -/
def enclosed (pieces : List Piece) : List (Char × List Text) := enclosedFrom [] pieces

variable {spans after : List Text}

theorem spansFrom_cons (piece : Piece) :
    spansFrom spans (piece :: pieces) =
      (next? spans piece).bind fun after => spansFrom after pieces := by
  rw [spansFrom, List.foldlM_cons]
  rfl

theorem spansFrom_append : spansFrom spans (pieces ++ more) =
    (spansFrom spans pieces).bind fun after => spansFrom after more := by
  rw [spansFrom, List.foldlM_append]
  rfl

theorem spansFrom_append_of (h : spansFrom spans pieces = some after) :
    spansFrom spans (pieces ++ more) = spansFrom after more := by
  rw [spansFrom_append, h, Option.bind_some]

theorem enclosedFrom_append_of (h : spansFrom spans pieces = some after) :
    enclosedFrom spans (pieces ++ more) =
      enclosedFrom spans pieces ++ enclosedFrom after more := by
  induction pieces generalizing spans with
  | nil =>
    obtain rfl := Option.some.inj h
    rfl
  | cons piece pieces ih =>
    rw [spansFrom_cons] at h
    obtain ⟨mid, hmid, h⟩ := Option.bind_eq_some_iff.mp h
    rw [List.cons_append]
    cases piece with
    | text c =>
      obtain rfl := Option.some.inj hmid
      rw [enclosedFrom, ih h, enclosedFrom, List.cons_append]
    | opening attributes =>
      obtain rfl := Option.some.inj hmid
      rw [enclosedFrom, ih h, enclosedFrom]
    | closing =>
      by_cases hne : spans = []
      · rw [next?, if_pos hne] at hmid
        exact absurd hmid nofun
      · rw [next?, if_neg hne] at hmid
        obtain rfl := Option.some.inj hmid
        rw [enclosedFrom, ih h, enclosedFrom]

/-- Characters and what encloses them tell the text. -/
theorem map_fst_enclosedFrom : (enclosedFrom spans pieces).map Prod.fst = shown pieces := by
  induction pieces generalizing spans with
  | nil => rfl
  | cons piece pieces ih =>
    rw [shown_cons]
    cases piece with
    | text c => rw [enclosedFrom, List.map_cons, ih, Piece.shown, List.singleton_append]
    | opening attributes => rw [enclosedFrom, ih, Piece.shown, List.nil_append]
    | closing => rw [enclosedFrom, ih, Piece.shown, List.nil_append]

/-! ### Parts of a text -/

/-- The tags that open some spans again. -/
def reopening (spans : List Text) : List Piece := spans.map .opening

/-- The tags that close some spans. -/
def closings (spans : List Text) : List Piece := List.replicate spans.length .closing

theorem spansFrom_reopening (again : List Text) :
    spansFrom spans (reopening again) = some (spans ++ again) := by
  induction again generalizing spans with
  | nil => exact congrArg some (List.append_nil spans).symm
  | cons attributes again ih =>
    rw [reopening, List.map_cons, spansFrom_cons, next?, Option.bind_some, ← reopening, ih,
      List.append_assoc, List.singleton_append]

theorem enclosedFrom_reopening (again : List Text) :
    enclosedFrom spans (reopening again) = [] := by
  induction again generalizing spans with
  | nil => rfl
  | cons attributes again ih =>
    rw [reopening, List.map_cons, enclosedFrom, ← reopening, ih]

theorem spansFrom_closings (spans : List Text) : spansFrom spans (closings spans) = some [] := by
  induction spans using List.reverseRecOn with
  | nil => rfl
  | append_singleton spans attributes ih =>
    rw [closings, List.length_append, List.length_singleton, List.replicate_succ, spansFrom_cons,
      next?, if_neg (List.append_ne_nil_of_right_ne_nil spans (List.cons_ne_nil _ _)),
      Option.bind_some, List.dropLast_concat]
    exact ih

theorem enclosedFrom_replicate_closing (n : ℕ) :
    enclosedFrom spans (List.replicate n .closing) = [] := by
  induction n generalizing spans with
  | zero => rfl
  | succ n ih => rw [List.replicate_succ, enclosedFrom, ih]

/-- **A part of a text on its own**, with the spans that are open at its beginning opened again and
the ones that are open at its end closed. -/
def cover (spans : List Text) (part : List Piece) (after : List Text) : List Piece :=
  reopening spans ++ part ++ closings after

theorem nested_cover {part : List Piece} (h : spansFrom spans part = some after) :
    Nested (cover spans part after) := by
  have hopen := @spansFrom_reopening [] spans
  rw [List.nil_append] at hopen
  rw [Nested, cover, List.append_assoc, spansFrom_append_of hopen, spansFrom_append_of h,
    spansFrom_closings]

theorem enclosed_cover {part : List Piece} (h : spansFrom spans part = some after) :
    enclosed (cover spans part after) = enclosedFrom spans part := by
  have hopen := @spansFrom_reopening [] spans
  rw [List.nil_append] at hopen
  rw [enclosed, cover, List.append_assoc, enclosedFrom_append_of hopen, enclosedFrom_reopening,
    enclosedFrom_append_of h, closings, enclosedFrom_replicate_closing, List.append_nil,
    List.nil_append]

theorem shown_reopening (spans : List Text) : shown (reopening spans) = [] := by
  induction spans with
  | nil => rfl
  | cons attributes spans ih => exact ih

theorem shown_replicate_closing (n : ℕ) : shown (List.replicate n .closing) = [] := by
  induction n with
  | zero => rfl
  | succ n ih => exact ih

theorem shown_cover (spans : List Text) (part : List Piece) (after : List Text) :
    shown (cover spans part after) = shown part := by
  rw [cover, shown_append, shown_append, shown_reopening, closings, shown_replicate_closing,
    List.nil_append, List.append_nil]

/-- The spans that are open belong to tags of the text. -/
theorem mem_of_spansFrom (h : spansFrom spans pieces = some after) {attributes : Text}
    (hmem : attributes ∈ after) : attributes ∈ spans ∨ .opening attributes ∈ pieces := by
  induction pieces generalizing spans with
  | nil =>
    obtain rfl := Option.some.inj h
    exact Or.inl hmem
  | cons piece pieces ih =>
    rw [spansFrom_cons] at h
    obtain ⟨mid, hmid, h⟩ := Option.bind_eq_some_iff.mp h
    rcases ih h with hin | hin
    · cases piece with
      | text c =>
        obtain rfl := Option.some.inj hmid
        exact Or.inl hin
      | opening tag =>
        obtain rfl := Option.some.inj hmid
        rcases List.mem_append.mp hin with hin | hin
        · exact Or.inl hin
        · rw [List.mem_singleton.mp hin]
          exact Or.inr List.mem_cons_self
      | closing =>
        by_cases hne : spans = []
        · rw [next?, if_pos hne] at hmid
          exact absurd hmid nofun
        · rw [next?, if_neg hne] at hmid
          obtain rfl := Option.some.inj hmid
          exact Or.inl (List.dropLast_subset spans hin)
    · exact Or.inr (List.mem_cons_of_mem piece hin)

/-! ### Lines -/

section Lines

variable {α β : Type} [BEq α] [LawfulBEq α] [BEq β] [LawfulBEq β] {a : α} {xs ys : List α}

theorem splitOn_append_of_not_mem (h : a ∉ xs) :
    (xs ++ ys).splitOn a = (ys.splitOn a).modifyHead (xs ++ ·) := by
  induction xs with
  | nil =>
    obtain ⟨line, lines, hlines⟩ := List.exists_cons_of_ne_nil (List.splitOn_ne_nil a ys)
    rw [List.nil_append, hlines]
    rfl
  | cons x xs ih =>
    rw [List.mem_cons, not_or] at h
    have hne : (x == a) = false := beq_eq_false_iff_ne.mpr (Ne.symm h.1)
    obtain ⟨line, lines, hlines⟩ := List.exists_cons_of_ne_nil (List.splitOn_ne_nil a ys)
    rw [List.cons_append, List.splitOn_cons_eq_if_modifyHead, hne, ih h.2, hlines]
    rfl

/-- The last line goes on to the end. -/
theorem exists_splitOn_append (xs : List α) (h : a ∉ ys) :
    ∃ lines line, (xs ++ ys).splitOn a = lines ++ [line ++ ys] := by
  induction xs with
  | nil => exact ⟨[], [], List.splitOn_eq_singleton h⟩
  | cons x xs ih =>
    obtain ⟨lines, line, hlines⟩ := ih
    rw [List.cons_append, List.splitOn_cons_eq_if_modifyHead, hlines]
    by_cases hx : (x == a) = true
    · rw [if_pos hx]
      exact ⟨[] :: lines, line, rfl⟩
    · rw [if_neg hx]
      cases lines with
      | nil => exact ⟨[], x :: line, rfl⟩
      | cons first lines => exact ⟨(x :: first) :: lines, line, rfl⟩

/-- Lines with their separators, and one at the end. -/
theorem flatMap_splitOn (a : α) (xs : List α) :
    ((xs.splitOn a).flatMap fun line => line ++ [a]) = xs ++ [a] := by
  induction xs with
  | nil => rfl
  | cons x xs ih =>
    rw [List.splitOn_cons_eq_if_modifyHead]
    by_cases hx : (x == a) = true
    · rw [if_pos hx, List.flatMap_cons, ih, eq_of_beq hx]
      rfl
    · obtain ⟨line, lines, hlines⟩ := List.exists_cons_of_ne_nil (List.splitOn_ne_nil a xs)
      rw [hlines] at ih
      rw [if_neg hx, hlines, List.modifyHead_cons, List.flatMap_cons, List.cons_append,
        List.cons_append, ← List.flatMap_cons (f := fun line => line ++ [a]), ih]
      rfl

/-- Lines that are written out are split where they were. -/
theorem splitOn_flatMap {f : α → List β} {b : β} (hbreak : f a = [b])
    (h : ∀ x ∈ xs, x ≠ a → b ∉ f x) :
    (xs.flatMap f).splitOn b = (xs.splitOn a).map fun line => line.flatMap f := by
  induction xs with
  | nil => rfl
  | cons x xs ih =>
    have ih := ih fun y hy => h y (List.mem_cons_of_mem x hy)
    rw [List.flatMap_cons, List.splitOn_cons_eq_if_modifyHead]
    by_cases hx : x = a
    · have hbeq : (x == a) = true := beq_iff_eq.mpr hx
      rw [if_pos hbeq, hx, hbreak, List.singleton_append, List.splitOn_cons_eq_if_modifyHead,
        if_pos (BEq.refl b), ih]
      rfl
    · have hbeq : ¬(x == a) = true := fun he => hx (eq_of_beq he)
      obtain ⟨line, lines, hlines⟩ := List.exists_cons_of_ne_nil (List.splitOn_ne_nil a xs)
      rw [if_neg hbeq, splitOn_append_of_not_mem (h x List.mem_cons_self hx), ih, hlines]
      rfl

end Lines

end SpanMarkup

import EvernightAI.Lib.TextLines
import EvernightAI.Lib.Utf8Decoder
import Mathlib.Algebra.GroupWithZero.Nat
import Mathlib.Data.List.Induction

/-!
# The output of a sandboxed command

Two loops read `stdout` and `stderr` while a command runs. Each text that is read goes to the end of
its stream and, as an event, to the end of a common list; a stream keeps `maxChars` characters, and
so do the events together.

* `kept_appendAll` : what is kept of the streams and of the events, whatever was read in which order.
* `collected_iff` : the flags tell of all that was dropped, exactly if the events are not filled up
  at the end of a text while more comes and no stream overflows.
-/

namespace EvernightAI.SandboxOutput

open TextLines

inductive SandboxOutputStream
  | stdout | stderr
  deriving DecidableEq, Repr

/-- `SandboxOutputEvent` -/
structure SandboxOutputEvent where
  stream : SandboxOutputStream
  text : Text
  truncated : Bool := false
  deriving DecidableEq, Repr

/-- `BoundedSandboxOutput` -/
structure BoundedSandboxOutput where
  maxChars : ℕ
  stdout : Text := []
  stderr : Text := []
  events : List SandboxOutputEvent := []
  truncated : Bool := false
  eventChars : ℕ := 0
  deriving DecidableEq, Repr

namespace BoundedSandboxOutput

/-- `getattr(self, stream.value)` -/
def get (o : BoundedSandboxOutput) : SandboxOutputStream → Text
  | .stdout => o.stdout
  | .stderr => o.stderr

/-- `setattr(self, stream.value, text)` -/
def set (o : BoundedSandboxOutput) (stream : SandboxOutputStream) (text : Text) :
    BoundedSandboxOutput :=
  match stream with
  | .stdout => { o with stdout := text }
  | .stderr => { o with stderr := text }

/-- `_append` -/
def append (o : BoundedSandboxOutput) (stream : SandboxOutputStream) (text : Text) :
    BoundedSandboxOutput :=
  if text = [] then o
  else
    let remaining := o.maxChars - (o.get stream).length
    let truncated := decide (remaining < text.length)
    let o := o.set stream (o.get stream ++ text.take remaining)
    let o := { o with truncated := o.truncated || truncated }
    let eventRemaining := o.maxChars - o.eventChars
    if 0 < eventRemaining then
      let visible := text.take eventRemaining
      { o with
        events := o.events ++
          [{ stream, text := visible, truncated := truncated || eventRemaining < text.length }]
        eventChars := o.eventChars + visible.length }
    else o

/-- What the events show of a stream. -/
def shown (o : BoundedSandboxOutput) (stream : SandboxOutputStream) : Text :=
  (o.events.filter (·.stream = stream)).flatMap (·.text)

end BoundedSandboxOutput

/-! ### The loops -/

/-- A turn of one of the loops of `collect`: a chunk was read, or the end. -/
inductive Turn
  | chunk (stream : SandboxOutputStream) (bytes : List UInt8)
  | eof (stream : SandboxOutputStream)
  deriving DecidableEq, Repr

def Turn.stream : Turn → SandboxOutputStream
  | .chunk stream _ => stream
  | .eof stream => stream

/-- The decoders of the streams. -/
abbrev Decoders := SandboxOutputStream → Utf8Decoder.State

/-- The text of a turn, and the decoder after it. -/
def decodeTurn (decoders : Decoders) : Turn → Utf8Decoder.State × Text
  | .chunk stream bytes => Utf8Decoder.run (decoders stream) bytes
  | .eof stream => (Utf8Decoder.idle, Utf8Decoder.flush (decoders stream))

/-- Both loops, each with its decoder. -/
structure Collection where
  output : BoundedSandboxOutput
  decoders : Decoders := fun _ => Utf8Decoder.idle

/-- One turn. -/
def Collection.step (c : Collection) (turn : Turn) : Collection where
  output := c.output.append turn.stream (decodeTurn c.decoders turn).2
  decoders := Function.update c.decoders turn.stream (decodeTurn c.decoders turn).1

/-- **`collect`**, for both streams, with its turns in any order. -/
def collect (maxChars : ℕ) (turns : List Turn) : BoundedSandboxOutput :=
  (turns.foldl Collection.step { output := { maxChars } }).output

/-! ### Texts in the order in which they were read -/

/-- A text that was read, with its stream. -/
abbrev Piece := SandboxOutputStream × Text

/-- All that was read. -/
def whole (pieces : List Piece) : Text := pieces.flatMap Prod.snd

/-- What was read of a stream. -/
def textOf (stream : SandboxOutputStream) (pieces : List Piece) : Text :=
  (pieces.filter (·.1 = stream)).flatMap Prod.snd

variable {maxChars : ℕ} {pieces before after : List Piece} {stream : SandboxOutputStream}
  {text : Text}

@[simp]
theorem whole_append : whole (pieces ++ after) = whole pieces ++ whole after :=
  List.flatMap_append

@[simp]
theorem whole_singleton (p : Piece) : whole [p] = p.2 := List.flatMap_singleton _ _

theorem textOf_append :
    textOf stream (pieces ++ after) = textOf stream pieces ++ textOf stream after := by
  rw [textOf, List.filter_append, List.flatMap_append]
  rfl

@[simp]
theorem textOf_concat_self :
    textOf stream (pieces ++ [(stream, text)]) = textOf stream pieces ++ text := by
  rw [textOf_append]
  simp [textOf]

theorem textOf_concat_of_ne {other : SandboxOutputStream} (h : other ≠ stream) :
    textOf other (pieces ++ [(stream, text)]) = textOf other pieces := by
  rw [textOf_append]
  simp [textOf, h.symm]

/-- Everything that was read is of one of the streams. -/
theorem length_whole (pieces : List Piece) :
    (whole pieces).length = (textOf .stdout pieces).length + (textOf .stderr pieces).length := by
  induction pieces using List.reverseRecOn with
  | nil => rfl
  | append_singleton pieces p ih =>
    obtain ⟨stream, text⟩ := p
    rw [whole_append, whole_singleton, List.length_append, ih]
    dsimp only
    cases stream with
    | stdout =>
      rw [textOf_concat_self, textOf_concat_of_ne (by decide), List.length_append]
      omega
    | stderr =>
      rw [textOf_concat_self, textOf_concat_of_ne (by decide), List.length_append]
      omega

theorem length_whole_le_of_prefix (h : before <+: pieces) :
    (whole before).length ≤ (whole pieces).length := by
  obtain ⟨after, rfl⟩ := h
  rw [whole_append, List.length_append]
  omega

/-- **A text that the budget cuts.** -/
def Crosses (maxChars : ℕ) (pieces : List Piece) : Prop :=
  ∃ before p, before ++ [p] <+: pieces ∧ (whole before).length < maxChars ∧
    maxChars < (whole (before ++ [p])).length

theorem crosses_concat_iff {p : Piece} : Crosses maxChars (pieces ++ [p]) ↔
    Crosses maxChars pieces ∨
      ((whole pieces).length < maxChars ∧ maxChars < (whole pieces).length + p.2.length) := by
  constructor
  · rintro ⟨before, q, hprefix, hlow, hhigh⟩
    rcases List.prefix_concat_iff.mp hprefix with heq | hprefix
    · obtain ⟨rfl, hq⟩ := List.append_inj' heq rfl
      obtain rfl := List.singleton_inj.mp hq
      rw [whole_append, whole_singleton, List.length_append] at hhigh
      exact .inr ⟨hlow, hhigh⟩
    · exact .inl ⟨before, q, hprefix, hlow, hhigh⟩
  · rintro (⟨before, q, hprefix, hcut⟩ | ⟨hlow, hhigh⟩)
    · exact ⟨before, q, hprefix.trans (List.prefix_append _ _), hcut⟩
    · refine ⟨pieces, p, List.prefix_rfl, hlow, ?_⟩
      rw [whole_append, whole_singleton, List.length_append]
      exact hhigh

/-- The budget is filled up at the end of a text, or it cuts one. -/
theorem crosses_of_forall_ne (h : ∀ before, before <+: pieces → (whole before).length ≠ maxChars)
    (hlong : maxChars < (whole pieces).length) : Crosses maxChars pieces := by
  induction pieces using List.reverseRecOn with
  | nil => exact absurd hlong (Nat.not_lt_zero _)
  | append_singleton pieces p ih =>
    have hne := h pieces (List.prefix_append pieces [p])
    by_cases hlater : maxChars < (whole pieces).length
    · obtain ⟨before, q, hprefix, hcut⟩ :=
        ih (fun before hbefore => h before (hbefore.trans (List.prefix_append _ _))) hlater
      exact ⟨before, q, hprefix.trans (List.prefix_append _ _), hcut⟩
    · exact ⟨pieces, p, List.prefix_rfl, by omega, hlong⟩

theorem not_crosses_of_eq (hbefore : before <+: pieces) (heq : (whole before).length = maxChars) :
    ¬Crosses maxChars pieces := by
  rintro ⟨other, p, hother, hlow, hhigh⟩
  rcases List.prefix_or_prefix_of_prefix hbefore hother with h | h
  · rcases List.prefix_concat_iff.mp h with rfl | h
    · omega
    · have := length_whole_le_of_prefix h
      omega
  · have := length_whole_le_of_prefix h
    omega

/-! ### What is kept -/

namespace BoundedSandboxOutput

/-- What an event adds to what is shown. -/
theorem shown_concat {o o' : BoundedSandboxOutput} {event : SandboxOutputEvent}
    (h : o'.events = o.events ++ [event]) (stream : SandboxOutputStream) :
    o'.shown stream = o.shown stream ++ if event.stream = stream then event.text else [] := by
  rw [shown, h, List.filter_append, List.flatMap_append, shown]
  split_ifs with hstream
  · simp [hstream]
  · simp [hstream]

/-- The texts and the flag after a text that is not empty. -/
theorem append_kept (o : BoundedSandboxOutput) (h : text ≠ []) :
    (o.append stream text).maxChars = o.maxChars ∧
      (o.append stream text).get stream =
        o.get stream ++ text.take (o.maxChars - (o.get stream).length) ∧
      (∀ other, other ≠ stream → (o.append stream text).get other = o.get other) ∧
      ((o.append stream text).truncated ↔
        o.truncated ∨ o.maxChars - (o.get stream).length < text.length) := by
  unfold append
  rw [if_neg h]
  dsimp only
  split_ifs
  all_goals
    cases stream with
    | stdout =>
      refine ⟨rfl, rfl, fun other hother => ?_, by simp [set]⟩
      cases other with
      | stdout => exact absurd rfl hother
      | stderr => rfl
    | stderr =>
      refine ⟨rfl, rfl, fun other hother => ?_, by simp [set]⟩
      cases other with
      | stdout => rfl
      | stderr => exact absurd rfl hother

/-- The event of a text that finds room. -/
theorem append_event (o : BoundedSandboxOutput) (h : text ≠ [])
    (hroom : o.eventChars < o.maxChars) :
    (o.append stream text).events = o.events ++
        [{ stream, text := text.take (o.maxChars - o.eventChars)
           truncated := decide (o.maxChars - (o.get stream).length < text.length) ||
             decide (o.maxChars - o.eventChars < text.length) }] ∧
      (o.append stream text).eventChars =
        o.eventChars + (text.take (o.maxChars - o.eventChars)).length := by
  unfold append
  rw [if_neg h]
  dsimp only
  cases stream <;>
    exact ⟨by rw [if_pos (by simpa [set] using Nat.sub_pos_of_lt hroom)]; rfl,
      by rw [if_pos (by simpa [set] using Nat.sub_pos_of_lt hroom)]; rfl⟩

/-- A text that finds no room makes no event. -/
theorem append_full (o : BoundedSandboxOutput) (hfull : o.maxChars ≤ o.eventChars) :
    (o.append stream text).events = o.events ∧
      (o.append stream text).eventChars = o.eventChars := by
  unfold append
  split_ifs
  · exact ⟨rfl, rfl⟩
  · dsimp only
    cases stream <;>
      exact ⟨by rw [if_neg (by simp only [set]; omega)]; rfl,
        by rw [if_neg (by simp only [set]; omega)]; rfl⟩

/-- Every event is of one of the streams. -/
theorem sum_length_events (o : BoundedSandboxOutput) :
    (o.events.map (·.text.length)).sum = (o.shown .stdout).length + (o.shown .stderr).length := by
  unfold shown
  generalize o.events = events
  induction events with
  | nil => rfl
  | cons event events ih =>
    rw [List.map_cons, List.sum_cons, ih]
    cases hstream : event.stream with
    | stdout =>
      rw [List.filter_cons_of_pos (by simp [hstream]), List.filter_cons_of_neg (by simp [hstream]),
        List.flatMap_cons, List.length_append]
      omega
    | stderr =>
      rw [List.filter_cons_of_neg (by simp [hstream]), List.filter_cons_of_pos (by simp [hstream]),
        List.flatMap_cons, List.length_append]
      omega

/-- **What is kept** of the texts that were read. -/
structure Kept (maxChars : ℕ) (pieces : List Piece) (o : BoundedSandboxOutput) : Prop where
  limit : o.maxChars = maxChars
  text : ∀ stream, o.get stream = (textOf stream pieces).take maxChars
  truncated : o.truncated ↔ ∃ stream, maxChars < (textOf stream pieces).length
  eventChars : o.eventChars = min (whole pieces).length maxChars
  length_shown : (o.shown .stdout).length + (o.shown .stderr).length = o.eventChars
  shown_prefix : ∀ stream, o.shown stream <+: textOf stream pieces
  shown_eq : (whole pieces).length ≤ maxChars → ∀ stream, o.shown stream = textOf stream pieces
  flagged : (∃ event ∈ o.events, event.truncated) →
    (∃ stream, maxChars < (textOf stream pieces).length) ∨ Crosses maxChars pieces
  crossed : Crosses maxChars pieces → ∃ event ∈ o.events, event.truncated


theorem kept_nil (maxChars : ℕ) : Kept maxChars [] { maxChars } where
  limit := rfl
  text stream := by cases stream <;> exact List.take_nil.symm
  truncated := iff_of_false Bool.false_ne_true (by rintro ⟨_, h⟩; exact Nat.not_lt_zero _ h)
  eventChars := (Nat.zero_min _).symm
  length_shown := rfl
  shown_prefix _ := List.prefix_rfl
  shown_eq _ _ := rfl
  flagged := by
    rintro ⟨_, h, -⟩
    cases h
  crossed := by
    rintro ⟨before, p, hprefix, -⟩
    have hnil := List.prefix_nil.mp hprefix
    exact absurd hnil (List.append_ne_nil_of_right_ne_nil _ (List.cons_ne_nil _ _))

/-- What overflowed stays so. -/
theorem overflows_concat (h : ∃ other, maxChars < (textOf other pieces).length)
    (stream : SandboxOutputStream) (text : Text) :
    ∃ other, maxChars < (textOf other (pieces ++ [(stream, text)])).length := by
  obtain ⟨other, hother⟩ := h
  refine ⟨other, ?_⟩
  rw [textOf_append, List.length_append]
  omega

/-- An empty text changes nothing. -/
theorem Kept.append_nil {o : BoundedSandboxOutput} (hkept : Kept maxChars pieces o)
    (stream : SandboxOutputStream) : Kept maxChars (pieces ++ [(stream, [])]) o := by
  have hwhole : whole (pieces ++ [(stream, [])]) = whole pieces := by
    rw [whole_append, whole_singleton, List.append_nil]
  have htextOf : ∀ other, textOf other (pieces ++ [(stream, [])]) = textOf other pieces := by
    intro other
    by_cases hother : other = stream
    · rw [hother, textOf_concat_self, List.append_nil]
    · exact textOf_concat_of_ne hother
  have hcrosses : Crosses maxChars (pieces ++ [(stream, [])]) ↔ Crosses maxChars pieces := by
    rw [crosses_concat_iff]
    refine or_iff_left ?_
    rintro ⟨hlow, hhigh⟩
    rw [List.length_nil] at hhigh
    omega
  constructor
  · exact hkept.limit
  · exact fun other => (htextOf other).symm ▸ hkept.text other
  · simp only [htextOf]
    exact hkept.truncated
  · rw [hwhole]
    exact hkept.eventChars
  · exact hkept.length_shown
  · exact fun other => (htextOf other).symm ▸ hkept.shown_prefix other
  · rw [hwhole]
    exact fun h other => (htextOf other).symm ▸ hkept.shown_eq h other
  · simp only [htextOf, hcrosses]
    exact hkept.flagged
  · rw [hcrosses]
    exact hkept.crossed

/-- The streams after a text that is not empty. -/
theorem Kept.append_streams {o : BoundedSandboxOutput} (hkept : Kept maxChars pieces o)
    (hempty : text ≠ []) :
    (o.append stream text).maxChars = maxChars ∧
      (∀ other, (o.append stream text).get other =
        (textOf other (pieces ++ [(stream, text)])).take maxChars) ∧
      ((o.append stream text).truncated ↔
        ∃ other, maxChars < (textOf other (pieces ++ [(stream, text)])).length) := by
  obtain ⟨hlimit, hself, hother, htruncated⟩ := @append_kept stream text o hempty
  have hlength : (o.get stream).length = min maxChars (textOf stream pieces).length := by
    rw [hkept.text, List.length_take]
  rw [hkept.limit, hlength] at hself htruncated
  refine ⟨hlimit.trans hkept.limit, fun other => ?_, ?_⟩
  · by_cases heq : other = stream
    · subst heq
      have hroom : maxChars - min maxChars (textOf other pieces).length =
          maxChars - (textOf other pieces).length := by omega
      rw [hself, textOf_concat_self, hkept.text, List.take_append, hroom]
    · rw [hother other heq, textOf_concat_of_ne heq, hkept.text]
  · rw [htruncated, hkept.truncated]
    constructor
    · rintro (h | h)
      · exact overflows_concat h stream text
      · refine ⟨stream, ?_⟩
        rw [textOf_concat_self, List.length_append]
        omega
    · rintro ⟨other, h⟩
      by_cases heq : other = stream
      · subst heq
        rw [textOf_concat_self, List.length_append] at h
        by_cases hold : maxChars < (textOf other pieces).length
        · exact .inl ⟨other, hold⟩
        · exact .inr (by omega)
      · rw [textOf_concat_of_ne heq] at h
        exact .inl ⟨other, h⟩

theorem Kept.append {o : BoundedSandboxOutput} (hkept : Kept maxChars pieces o)
    (stream : SandboxOutputStream) (text : Text) :
    Kept maxChars (pieces ++ [(stream, text)]) (o.append stream text) := by
  by_cases hempty : text = []
  · subst hempty
    exact hkept.append_nil stream
  have hpositive := List.length_pos_of_ne_nil hempty
  have hlength : (o.get stream).length = min maxChars (textOf stream pieces).length := by
    rw [hkept.text, List.length_take]
  have htextOf : textOf stream (pieces ++ [(stream, text)]) = textOf stream pieces ++ text :=
    textOf_concat_self
  have hwhole : (whole (pieces ++ [(stream, text)])).length =
      (whole pieces).length + text.length := by
    rw [whole_append, whole_singleton, List.length_append]
  have hcrosses := @crosses_concat_iff maxChars pieces (stream, text)
  have heventChars := hkept.eventChars
  by_cases hroom : o.eventChars < o.maxChars
  · obtain ⟨hevents, hchars⟩ := @append_event stream text o hempty hroom
    rw [hkept.limit] at hroom hevents hchars
    rw [hlength] at hevents
    have hle : (whole pieces).length < maxChars := by omega
    have hcount : o.eventChars = (whole pieces).length := by omega
    rw [hcount] at hevents hchars
    have hshown : ∀ other, (o.append stream text).shown other = textOf other pieces ++
        if stream = other then text.take (maxChars - (whole pieces).length) else [] := by
      intro other
      rw [shown_concat hevents, hkept.shown_eq (Nat.le_of_lt hle)]
    rw [List.length_take] at hchars
    constructor
    · exact (hkept.append_streams hempty).1
    · exact (hkept.append_streams hempty).2.1
    · exact (hkept.append_streams hempty).2.2
    · rw [hchars, hwhole]
      omega
    · rw [hshown, hshown, List.length_append, List.length_append, hchars]
      have hsum := length_whole pieces
      cases stream with
      | stdout =>
        rw [if_pos rfl, if_neg (by decide), List.length_take, List.length_nil]
        omega
      | stderr =>
        rw [if_neg (by decide), if_pos rfl, List.length_take, List.length_nil]
        omega
    · intro other
      rw [hshown]
      by_cases heq : stream = other
      · subst heq
        rw [if_pos rfl, htextOf, List.prefix_append_right_inj]
        exact List.take_prefix _ _
      · rw [if_neg heq, List.append_nil]
        have hother : textOf other (pieces ++ [(stream, text)]) = textOf other pieces :=
          textOf_concat_of_ne (Ne.symm heq)
        exact hother ▸ List.prefix_rfl
    · intro hshort other
      rw [hwhole] at hshort
      rw [hshown]
      by_cases heq : stream = other
      · subst heq
        rw [if_pos rfl, htextOf, List.take_of_length_le (by omega)]
      · rw [if_neg heq, List.append_nil, textOf_concat_of_ne (Ne.symm heq)]
    · rintro ⟨event, hevent, hmarked⟩
      rw [hcrosses]
      rw [hevents] at hevent
      rcases List.mem_append.mp hevent with hevent | hevent
      · rcases hkept.flagged ⟨event, hevent, hmarked⟩ with h | h
        · exact .inl (overflows_concat h stream text)
        · exact .inr (.inl h)
      · rw [List.mem_singleton.mp hevent] at hmarked
        rcases (Bool.or_eq_true _ _).mp hmarked with h | h
        · have hover := of_decide_eq_true h
          refine .inl ⟨stream, ?_⟩
          rw [htextOf, List.length_append]
          omega
        · have hcut := of_decide_eq_true h
          exact .inr (.inr ⟨hle, by dsimp only; omega⟩)
    · intro hcross
      rw [hevents]
      rcases hcrosses.mp hcross with h | ⟨-, hhigh⟩
      · obtain ⟨event, hevent, hmarked⟩ := hkept.crossed h
        exact ⟨event, List.mem_append_left _ hevent, hmarked⟩
      · refine ⟨_, List.mem_append_right _ (List.mem_singleton_self _), ?_⟩
        rw [Bool.or_eq_true]
        exact .inr (decide_eq_true (by dsimp only at hhigh; omega))
  · rw [Nat.not_lt] at hroom
    obtain ⟨hevents, hchars⟩ := @append_full stream text o hroom
    have hfull : maxChars ≤ (whole pieces).length := by
      rw [hkept.limit] at hroom
      omega
    have hshown : ∀ other, (o.append stream text).shown other = o.shown other := by
      intro other
      rw [shown, hevents]
      rfl
    constructor
    · exact (hkept.append_streams hempty).1
    · exact (hkept.append_streams hempty).2.1
    · exact (hkept.append_streams hempty).2.2
    · rw [hchars, hwhole]
      omega
    · rw [hshown, hshown, hchars]
      exact hkept.length_shown
    · intro other
      rw [hshown, textOf_append]
      exact (hkept.shown_prefix other).trans (List.prefix_append _ _)
    · intro hshort
      omega
    · rw [hevents]
      intro hmarked
      rcases hkept.flagged hmarked with h | h
      · exact .inl (overflows_concat h stream text)
      · exact .inr (hcrosses.mpr (.inl h))
    · rw [hevents]
      intro hcross
      rcases hcrosses.mp hcross with h | ⟨hlow, -⟩
      · exact hkept.crossed h
      · omega

/-- All texts that were read, one after the other. -/
def appendAll (o : BoundedSandboxOutput) (pieces : List Piece) : BoundedSandboxOutput :=
  pieces.foldl (fun o p => o.append p.1 p.2) o

/-- **What is kept**, whatever was read in which order. -/
theorem kept_appendAll (maxChars : ℕ) (pieces : List Piece) :
    Kept maxChars pieces (appendAll { maxChars } pieces) := by
  induction pieces using List.reverseRecOn with
  | nil => exact kept_nil maxChars
  | append_singleton pieces p ih =>
    rw [appendAll, List.foldl_append]
    exact ih.append p.1 p.2

/-- **The flags tell of all that was dropped**, exactly if the events are not filled up at the end
of a text while more comes and no stream overflows. -/
theorem Kept.flagged_iff {o : BoundedSandboxOutput} (hkept : Kept maxChars pieces o) :
    ((∃ stream, o.shown stream ≠ textOf stream pieces) →
        (∃ event ∈ o.events, event.truncated) ∨ o.truncated) ↔
      (whole pieces).length ≤ maxChars ∨ (∃ stream, maxChars < (textOf stream pieces).length) ∨
        ∀ before, before <+: pieces → (whole before).length ≠ maxChars := by
  have hsum := length_whole pieces
  have hlengths := hkept.length_shown
  have heventChars := hkept.eventChars
  constructor
  · intro h
    by_cases hshort : (whole pieces).length ≤ maxChars
    · exact .inl hshort
    · right
      have hlost : ∃ stream, o.shown stream ≠ textOf stream pieces := by
        by_contra hall
        push Not at hall
        rw [hall, hall] at hlengths
        omega
      rcases h hlost with hmarked | hoverflow
      · rcases hkept.flagged hmarked with hoverflow | hcrosses
        · exact .inl hoverflow
        · exact .inr fun before hbefore heq => not_crosses_of_eq hbefore heq hcrosses
      · exact .inl (hkept.truncated.mp hoverflow)
  · rintro (hshort | hoverflow | hexact)
    · rintro ⟨stream, hlost⟩
      exact absurd (hkept.shown_eq hshort stream) hlost
    · exact fun _ => .inr (hkept.truncated.mpr hoverflow)
    · rintro ⟨stream, hlost⟩
      have hlong : maxChars < (whole pieces).length := by
        by_contra hshort
        exact hlost (hkept.shown_eq (Nat.not_lt.mp hshort) stream)
      exact .inl (hkept.crossed (crosses_of_forall_ne hexact hlong))

end BoundedSandboxOutput

/-! ### Turns in any order -/

/-- The texts of the turns. -/
def texts (decoders : Decoders) : List Turn → List Piece
  | [] => []
  | turn :: turns =>
    (turn.stream, (decodeTurn decoders turn).2) ::
      texts (Function.update decoders turn.stream (decodeTurn decoders turn).1) turns

theorem foldl_step (c : Collection) (turns : List Turn) :
    (turns.foldl Collection.step c).output = c.output.appendAll (texts c.decoders turns) := by
  induction turns generalizing c with
  | nil => rfl
  | cons turn turns ih =>
    rw [List.foldl_cons, ih]
    rfl

/-- The texts of the turns of one loop. -/
def loopText (decoder : Utf8Decoder.State) : List Turn → Text
  | [] => []
  | .chunk _ bytes :: turns =>
    (Utf8Decoder.run decoder bytes).2 ++ loopText (Utf8Decoder.run decoder bytes).1 turns
  | .eof _ :: turns => Utf8Decoder.flush decoder ++ loopText Utf8Decoder.idle turns

/-- **The loops do not disturb each other**: a stream is decoded from its own turns. -/
theorem textOf_texts (stream : SandboxOutputStream) (decoders : Decoders) (turns : List Turn) :
    textOf stream (texts decoders turns) =
      loopText (decoders stream) (turns.filter (·.stream = stream)) := by
  induction turns generalizing decoders with
  | nil => rfl
  | cons turn turns ih =>
    rw [texts, List.filter_cons]
    by_cases hturn : turn.stream = stream
    · subst hturn
      have hhead : textOf turn.stream ((turn.stream, (decodeTurn decoders turn).2) ::
          texts (Function.update decoders turn.stream (decodeTurn decoders turn).1) turns) =
            (decodeTurn decoders turn).2 ++ textOf turn.stream
              (texts (Function.update decoders turn.stream (decodeTurn decoders turn).1)
                turns) := by
        simp [textOf]
      rw [if_pos (decide_eq_true rfl), hhead, ih, Function.update_self]
      cases turn with
      | chunk stream bytes => rfl
      | eof stream => rfl
    · rw [if_neg (by simpa using hturn), textOf, List.filter_cons_of_neg (by simpa using hturn),
        ← textOf, ih, Function.update_of_ne (Ne.symm hturn)]

/-- The bytes of a stream. -/
def bytesOf (stream : SandboxOutputStream) (turns : List Turn) : List UInt8 :=
  turns.flatMap fun turn =>
    match turn with
    | .chunk other bytes => if other = stream then bytes else []
    | .eof _ => []

/-- The decoded text of some bytes, with a replacement for what is not UTF-8. -/
def decodeReplacing (bytes : List UInt8) : Text :=
  (Utf8Decoder.run Utf8Decoder.idle bytes).2 ++
    Utf8Decoder.flush (Utf8Decoder.run Utf8Decoder.idle bytes).1

/-- **Both loops have ended**: each stream was read to its end, which came once. -/
def Complete (turns : List Turn) : Prop :=
  ∀ stream, ∃ chunks : List (List UInt8),
    turns.filter (·.stream = stream) = chunks.map (.chunk stream) ++ [.eof stream]

theorem bytesOf_eq_of_filter (stream : SandboxOutputStream) (turns : List Turn) :
    bytesOf stream (turns.filter (·.stream = stream)) = bytesOf stream turns := by
  induction turns with
  | nil => rfl
  | cons turn turns ih =>
    rw [List.filter_cons]
    by_cases hturn : turn.stream = stream
    · rw [if_pos (decide_eq_true hturn), bytesOf, bytesOf, List.flatMap_cons, List.flatMap_cons,
        ← bytesOf, ← bytesOf, ih]
    · rw [if_neg (by simpa using hturn), ih, bytesOf, bytesOf, List.flatMap_cons]
      cases turn with
      | chunk other bytes =>
        have hother : (if other = stream then bytes else []) = [] := if_neg hturn
        show _ = (if other = stream then bytes else []) ++ _
        rw [hother]
        rfl
      | eof other => rfl

/-- A loop that has ended has decoded all bytes of its stream. -/
theorem loopText_complete (decoder : Utf8Decoder.State) (stream : SandboxOutputStream)
    (chunks : List (List UInt8)) :
    loopText decoder (chunks.map (.chunk stream) ++ [.eof stream]) =
      (Utf8Decoder.run decoder chunks.flatten).2 ++
        Utf8Decoder.flush (Utf8Decoder.run decoder chunks.flatten).1 := by
  induction chunks generalizing decoder with
  | nil => exact List.append_nil _
  | cons chunk chunks ih =>
    rw [List.map_cons, List.cons_append, loopText, ih, List.flatten_cons, Utf8Decoder.run_append,
      List.append_assoc]

theorem bytesOf_chunks (stream : SandboxOutputStream) (chunks : List (List UInt8)) :
    bytesOf stream (chunks.map (.chunk stream) ++ [.eof stream]) = chunks.flatten := by
  induction chunks with
  | nil => rfl
  | cons chunk chunks ih =>
    rw [List.map_cons, List.cons_append, bytesOf, List.flatMap_cons, ← bytesOf, ih,
      List.flatten_cons]
    exact congrArg (· ++ chunks.flatten) (if_pos rfl)

theorem textOf_complete {turns : List Turn} (h : Complete turns) (stream : SandboxOutputStream) :
    textOf stream (texts (fun _ => Utf8Decoder.idle) turns) =
      decodeReplacing (bytesOf stream turns) := by
  obtain ⟨chunks, hchunks⟩ := h stream
  rw [textOf_texts, hchunks, loopText_complete, ← bytesOf_eq_of_filter, hchunks, bytesOf_chunks]
  rfl

end EvernightAI.SandboxOutput

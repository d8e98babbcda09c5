import EvernightAI.Lib.TextLines
import EvernightAI.Lib.Utf8Decoder
import Mathlib.Data.Bool.AllAny

/-!
# Server-sent events

`format_sse_event` writes an event as lines of fields and a blank line; the frontend decodes the bytes
as they arrive, splits at blank lines and reads the fields of each part.

* `requestSse_eq` : what the frontend reads does not depend on where the bytes are cut.
* `requestSse_formatSseEvent` : from what the server wrote it reads `received` of each event, once
  and in order.
* `requestSse_eq_sent_iff` : the data of each event is what was sent exactly if none has one of the
  breaks at which `str.splitlines` splits.
-/

namespace EvernightAI

open TextLines SplitText

/-! ### The server -/

/-- An event of the server, without its metadata. -/
structure SSEEvent where
  data : Text
  event : Option Text := none
  eventId : Option Text := none
  retry : Option ℕ := none
  deriving DecidableEq, Repr

def eventField : Text := ['e', 'v', 'e', 'n', 't']

def idField : Text := ['i', 'd']

def retryField : Text := ['r', 'e', 't', 'r', 'y']

def dataField : Text := ['d', 'a', 't', 'a']

/-- `f"{field}: {value}"` -/
def fieldLine (field value : Text) : Text := field ++ ':' :: ' ' :: value

/-- `_single_line_field` -/
def singleLineField (value : Text) : Text := (value.filter (· != '\r')).filter (· != '\n')

/-- The lines of an event. -/
def formatLines (event : SSEEvent) : List Text :=
  (event.event.map fun name => fieldLine eventField (singleLineField name)).toList ++
  (event.eventId.map fun id => fieldLine idField (singleLineField id)).toList ++
  (event.retry.map fun retry => fieldLine retryField (Nat.toDigits 10 retry)).toList ++
  (linesOrEmpty event.data).map (fieldLine dataField)

/-- `format_sse_event` -/
def formatSseEvent (event : SSEEvent) : Text := join (formatLines event) ++ ['\n', '\n']

/-! ### The frontend -/

/-- An event of the frontend. -/
structure SseEvent where
  event : Text
  data : Text
  id : Option Text := none
  deriving DecidableEq, Repr

/-- The name of an event that has none. -/
def messageName : Text := ['m', 'e', 's', 's', 'a', 'g', 'e']

/-- What has been read of a part. -/
structure PartState where
  event : Text := messageName
  id : Option Text := none
  dataLines : List Text := []

/-- One line of a part. -/
def emitLine (s : PartState) (line : Text) : PartState :=
  if line = [] ∨ line.head? = some ':' then s
  else
    let field := line.takeWhile (· != ':')
    let rawValue := (line.dropWhile (· != ':')).drop 1
    let value := if rawValue.head? = some ' ' then rawValue.drop 1 else rawValue
    if field = eventField then { s with event := value }
    else if field = idField then { s with id := some value }
    else if field = dataField then { s with dataLines := s.dataLines ++ [value] }
    else s

/-- `emitSsePart` -/
def emitSsePart (part : Text) : SseEvent :=
  let s := (split newline part).foldl emitLine {}
  { event := s.event, data := join s.dataLines, id := s.id }

/-- What `String.prototype.trim` removes. -/
def isTrimmed (c : Char) : Bool :=
  c.toNat ∈ [0x09, 0x0A, 0x0B, 0x0C, 0x0D, 0x20, 0xA0, 0x1680, 0x2000, 0x2001, 0x2002, 0x2003, 0x2004,
    0x2005, 0x2006, 0x2007, 0x2008, 0x2009, 0x200A, 0x2028, 0x2029, 0x202F, 0x205F, 0x3000, 0xFEFF]

/-- U+FEFF -/
def byteOrderMark : Char := Char.ofNat 0xFEFF

/-- A `TextDecoder`. -/
structure TextDecoder where
  state : Utf8Decoder.State := Utf8Decoder.idle
  started : Bool := false

/-- The start of a text, without its mark. -/
def dropMark (text : Text) : Text := if text.head? = some byteOrderMark then text.tail else text

/-- `decoder.decode(value, { stream: true })` -/
def TextDecoder.decode (decoder : TextDecoder) (value : List UInt8) : TextDecoder × Text :=
  let state := (Utf8Decoder.run decoder.state value).1
  let text := (Utf8Decoder.run decoder.state value).2
  if decoder.started ∨ text = [] then ({ decoder with state }, text)
  else ({ state, started := true }, dropMark text)

/-- The last part, which no blank line ends. -/
def emitRest (buffer : Text) : List SseEvent :=
  if buffer.all isTrimmed then [] else [emitSsePart buffer]

/-- The loop of `requestSse`. -/
def readLoop (decoder : TextDecoder) (buffer : Text) : List (List UInt8) → List SseEvent
  | [] => emitRest (buffer ++ Utf8Decoder.flush decoder.state)
  | value :: values =>
    let text := buffer ++ (decoder.decode value).2
    (split blankLine text).dropLast.map emitSsePart ++
      readLoop (decoder.decode value).1 (rest blankLine text) values

/-- `requestSse`: the events that `onEvent` is called with. -/
def requestSse (chunks : List (List UInt8)) : List SseEvent := readLoop {} [] chunks

/-! ### Any cut -/

section Decode

variable {state : Utf8Decoder.State} {value : List UInt8}

theorem TextDecoder.decode_started : decode ⟨state, true⟩ value =
    (⟨(Utf8Decoder.run state value).1, true⟩, (Utf8Decoder.run state value).2) := by
  simp only [decode, true_or, if_true]

theorem TextDecoder.decode_of_eq_nil (h : (Utf8Decoder.run state value).2 = []) :
    decode ⟨state, false⟩ value = (⟨(Utf8Decoder.run state value).1, false⟩, []) := by
  simp only [decode, h, or_true, if_true]

theorem TextDecoder.decode_of_ne_nil (h : (Utf8Decoder.run state value).2 ≠ []) :
    decode ⟨state, false⟩ value =
      (⟨(Utf8Decoder.run state value).1, true⟩, dropMark (Utf8Decoder.run state value).2) := by
  simp [decode, h]

theorem dropMark_append {text : Text} (more : Text) (h : text ≠ []) :
    dropMark (text ++ more) = dropMark text ++ more := by
  obtain ⟨c, text, rfl⟩ := List.exists_cons_of_ne_nil h
  by_cases hmark : c = byteOrderMark
  · simp [dropMark, hmark]
  · simp [dropMark, hmark]

/-- Two pieces are decoded as one. -/
theorem TextDecoder.decode_append (decoder : TextDecoder) (value more : List UInt8) :
    decoder.decode (value ++ more) = (((decoder.decode value).1.decode more).1,
      (decoder.decode value).2 ++ ((decoder.decode value).1.decode more).2) := by
  obtain ⟨state, started⟩ := decoder
  have happend := Utf8Decoder.run_append state value more
  cases started with
  | true => simp only [decode_started, happend]
  | false =>
    by_cases hfirst : (Utf8Decoder.run state value).2 = []
    · rw [decode_of_eq_nil hfirst]
      have htext : (Utf8Decoder.run state (value ++ more)).2 =
          (Utf8Decoder.run (Utf8Decoder.run state value).1 more).2 := by
        rw [happend, hfirst, List.nil_append]
      by_cases hsecond : (Utf8Decoder.run (Utf8Decoder.run state value).1 more).2 = []
      · rw [decode_of_eq_nil hsecond, decode_of_eq_nil (htext.trans hsecond), happend]
        rfl
      · rw [decode_of_ne_nil hsecond, decode_of_ne_nil (htext ▸ hsecond), htext, happend]
        rfl
    · have htext : (Utf8Decoder.run state (value ++ more)).2 ≠ [] := by
        rw [happend]
        exact List.append_ne_nil_of_left_ne_nil hfirst _
      rw [decode_of_ne_nil hfirst, decode_of_ne_nil htext, decode_started, happend,
        dropMark_append _ hfirst]

end Decode

/-- **Any cut.** The loop reads what the text of all its bytes holds. -/
theorem readLoop_eq (decoder : TextDecoder) {buffer : Text} (hbuffer : split blankLine buffer = [buffer])
    (chunks : List (List UInt8)) :
    readLoop decoder buffer chunks =
      (split blankLine (buffer ++ (decoder.decode chunks.flatten).2)).dropLast.map emitSsePart ++
      emitRest (rest blankLine (buffer ++ (decoder.decode chunks.flatten).2) ++
        Utf8Decoder.flush (decoder.decode chunks.flatten).1.state) := by
  induction chunks generalizing decoder buffer with
  | nil =>
    have hdecode : decoder.decode [] = (decoder, []) := by simp [TextDecoder.decode, Utf8Decoder.run]
    rw [List.flatten_nil, hdecode, List.append_nil, rest_of_singleton hbuffer, hbuffer]
    rfl
  | cons value values ih =>
    have hrest : split blankLine (rest blankLine (buffer ++ (decoder.decode value).2)) =
        [rest blankLine (buffer ++ (decoder.decode value).2)] := split_rest prompt_blankLine _
    rw [readLoop, ih _ hrest, List.flatten_cons, TextDecoder.decode_append, ← List.append_assoc,
      ← List.append_assoc, ← List.map_append]
    rw [dropLast_split_append prompt_blankLine (buffer ++ (decoder.decode value).2),
      rest_append prompt_blankLine (buffer ++ (decoder.decode value).2)]

/-- What the frontend reads depends on the bytes only. -/
theorem requestSse_eq (chunks : List (List UInt8)) :
    requestSse chunks = requestSse [chunks.flatten] := by
  rw [requestSse, requestSse, readLoop_eq _ rfl, readLoop_eq _ rfl]
  simp only [List.flatten_cons, List.flatten_nil, List.append_nil]

/-! ### What the server wrote -/

/-- The lines of an event are plain and not empty. -/
theorem plain_fieldLine {field value : Text} (hfield : Plain field) (hvalue : Plain value) :
    fieldLine field value ≠ [] ∧ Plain (fieldLine field value) := by
  refine ⟨fun h => ?_, fun c hc => ?_⟩
  · exact absurd (congrArg List.length h) (by simp [fieldLine])
  · rcases List.mem_append.mp hc with hc | hc
    · exact hfield c hc
    · rcases List.mem_cons.mp hc with rfl | hc
      · decide
      · rcases List.mem_cons.mp hc with rfl | hc
        · decide
        · exact hvalue c hc

theorem plain_singleLineField (value : Text) : Plain (singleLineField value) := by
  intro c hc
  simp only [singleLineField, List.mem_filter, bne_iff_ne] at hc
  exact ⟨hc.2, hc.1.2⟩

theorem plain_toDigits (n : ℕ) : Plain (Nat.toDigits 10 n) := by
  intro c hc
  have hdigit := Nat.isDigit_of_mem_toDigits (by omega) (by omega) hc
  constructor
  · rintro rfl
    exact absurd hdigit (by decide)
  · rintro rfl
    exact absurd hdigit (by decide)

theorem plain_of_mem_formatLines {event : SSEEvent} {line : Text} (h : line ∈ formatLines event) :
    line ≠ [] ∧ Plain line := by
  simp only [formatLines, List.mem_append, Option.mem_toList, Option.map_eq_some_iff,
    List.mem_map] at h
  rcases h with ((⟨name, -, rfl⟩ | ⟨id, -, rfl⟩) | ⟨retry, -, rfl⟩) | ⟨line, hline, rfl⟩
  · exact plain_fieldLine (by decide) (plain_singleLineField name)
  · exact plain_fieldLine (by decide) (plain_singleLineField id)
  · exact plain_fieldLine (by decide) (plain_toDigits retry)
  · exact plain_fieldLine (by decide) (plain_of_mem_linesOrEmpty hline)

theorem linesOrEmpty_ne_nil (s : Text) : linesOrEmpty s ≠ [] := by
  rw [linesOrEmpty]
  split_ifs with h
  · exact List.cons_ne_nil _ _
  · exact h

theorem formatLines_ne_nil (event : SSEEvent) : formatLines event ≠ [] := by
  intro h
  have hdata := (List.append_eq_nil_iff.mp h).2
  exact linesOrEmpty_ne_nil _ (List.map_eq_nil_iff.mp hdata)

/-- **The stream is split into the events.** -/
theorem split_formatSseEvents (events : List SSEEvent) :
    split blankLine (events.flatMap formatSseEvent) = events.map (fun e => join (formatLines e)) ++ [[]] := by
  induction events with
  | nil => rfl
  | cons event events ih =>
    rw [List.flatMap_cons, formatSseEvent, List.append_assoc,
      split_append_of_silent (silent_blankLine_join fun _ => plain_of_mem_formatLines),
      split_separator (List.cons_ne_nil _ _) rfl, ih, prepend, List.append_nil]
    rfl

/-- A field of a part. -/
theorem emitLine_fieldLine {s : PartState} {field value : Text} (hne : field ≠ []) (hcolon : ':' ∉ field) :
    emitLine s (fieldLine field value) =
      if field = eventField then { s with event := value }
      else if field = idField then { s with id := some value }
      else if field = dataField then { s with dataLines := s.dataLines ++ [value] }
      else s := by
  have hcolons : ∀ c ∈ field, (c != ':') = true := fun c hc =>
    bne_iff_ne.mpr fun h => hcolon (h ▸ hc)
  have htake : (fieldLine field value).takeWhile (· != ':') = field := by
    rw [fieldLine, List.takeWhile_append_of_pos hcolons, List.takeWhile_cons]
    simp
  have hdrop : (fieldLine field value).dropWhile (· != ':') = ':' :: ' ' :: value := by
    rw [fieldLine, List.dropWhile_append_of_pos hcolons, List.dropWhile_cons]
    simp
  have hline : ¬(fieldLine field value = [] ∨ (fieldLine field value).head? = some ':') := by
    obtain ⟨c, field, rfl⟩ := List.exists_cons_of_ne_nil hne
    rintro (h | h)
    · exact absurd h (List.cons_ne_nil _ _)
    · exact hcolon (Option.some.inj h ▸ List.mem_cons_self ..)
  simp only [emitLine, if_neg hline, htake, hdrop, List.drop_one, List.tail_cons, List.head?_cons,
    if_true]

/-- The fields of data. -/
theorem foldl_emitLine_data (s : PartState) (lines : List Text) :
    (lines.map (fieldLine dataField)).foldl emitLine s = { s with dataLines := s.dataLines ++ lines } := by
  induction lines generalizing s with
  | nil => simp
  | cons line lines ih =>
    rw [List.map_cons, List.foldl_cons, emitLine_fieldLine (by decide) (by decide), ih]
    simp [dataField, eventField, idField]

/-- What the frontend makes of an event. -/
def received (event : SSEEvent) : SseEvent where
  event := (event.event.map singleLineField).getD messageName
  data := join (linesOrEmpty event.data)
  id := event.eventId.map singleLineField

/-- **One event.** -/
theorem emitSsePart_join_formatLines (event : SSEEvent) :
    emitSsePart (join (formatLines event)) = received event := by
  have hlines : ∀ line ∈ formatLines event, Plain line := fun line h => (plain_of_mem_formatLines h).2
  have hevent : ∀ {s : PartState} {v}, emitLine s (fieldLine eventField v) = { s with event := v } :=
    emitLine_fieldLine (by decide) (by decide)
  have hid : ∀ {s : PartState} {v}, emitLine s (fieldLine idField v) = { s with id := some v } :=
    emitLine_fieldLine (by decide) (by decide)
  have hretry : ∀ {s : PartState} {v}, emitLine s (fieldLine retryField v) = s :=
    emitLine_fieldLine (by decide) (by decide)
  rw [emitSsePart, split_newline_join (formatLines_ne_nil event) hlines, formatLines, received]
  obtain ⟨data, name, id, retry⟩ := event
  simp only [List.foldl_append, foldl_emitLine_data]
  cases name <;> cases id <;> cases retry <;> simp [hevent, hid, hretry]

/-- A stream starts with the name of a field. -/
theorem head_formatLines {event : SSEEvent} {line : Text} (h : line ∈ formatLines event) :
    line.head? ≠ some byteOrderMark := by
  simp only [formatLines, List.mem_append, Option.mem_toList, Option.map_eq_some_iff,
    List.mem_map] at h
  rcases h with ((⟨_, -, rfl⟩ | ⟨_, -, rfl⟩) | ⟨_, -, rfl⟩) | ⟨_, -, rfl⟩
  all_goals exact fun h => absurd (Option.some.inj h) (by decide)

theorem dropMark_formatSseEvents (events : List SSEEvent) :
    dropMark (events.flatMap formatSseEvent) = events.flatMap formatSseEvent := by
  refine if_neg ?_
  cases events with
  | nil => exact fun h => nomatch h
  | cons event events =>
    obtain ⟨line, lines, hlines⟩ := List.exists_cons_of_ne_nil (formatLines_ne_nil event)
    have hmem : line ∈ formatLines event := hlines ▸ List.mem_cons_self ..
    obtain ⟨c, line, rfl⟩ := List.exists_cons_of_ne_nil (plain_of_mem_formatLines hmem).1
    have hstart : ∃ s, join (formatLines event) = c :: s := by
      rw [hlines]
      cases lines with
      | nil => exact ⟨line, join_singleton _⟩
      | cons next lines => exact ⟨_, join_cons_cons _ _ _⟩
    obtain ⟨s, hs⟩ := hstart
    rw [List.flatMap_cons, formatSseEvent, hs]
    exact fun hmark => head_formatLines hmem hmark

/-- **Once and in order.** -/
theorem requestSse_formatSseEvent {events : List SSEEvent} {chunks : List (List UInt8)}
    (hchunks : chunks.flatten = Utf8Decoder.encode (events.flatMap formatSseEvent)) :
    requestSse chunks = events.map received := by
  have hrun := Utf8Decoder.run_encode (events.flatMap formatSseEvent)
  have hdecode : ∃ started, ({} : TextDecoder).decode chunks.flatten =
      (⟨Utf8Decoder.idle, started⟩, events.flatMap formatSseEvent) := by
    by_cases htext : events.flatMap formatSseEvent = []
    · refine ⟨false, ?_⟩
      rw [hchunks, TextDecoder.decode_of_eq_nil (by rw [hrun, htext]), hrun, htext]
    · refine ⟨true, ?_⟩
      rw [hchunks, TextDecoder.decode_of_ne_nil (by rw [hrun]; exact htext), hrun,
        dropMark_formatSseEvents]
  obtain ⟨started, hdecode⟩ := hdecode
  have hrest : rest blankLine (events.flatMap formatSseEvent) = [] := by
    simp only [rest, split_formatSseEvents, List.getLast_concat]
  rw [requestSse, readLoop_eq _ rfl, hdecode, List.nil_append, hrest, split_formatSseEvents,
    List.dropLast_concat, List.map_map]
  have hevents : emitSsePart ∘ (fun e => join (formatLines e)) = received :=
    funext emitSsePart_join_formatLines
  rw [hevents]
  exact List.append_nil _

/-! ### The round trip -/

/-- What the server serialised: a name of one line that does not start with a space, and data whose
control characters are escaped. -/
structure SSEEvent.Serialised (event : SSEEvent) : Prop where
  name : ∀ v ∈ event.event, Plain v ∧ v.head? ≠ some ' '
  data : ∀ c ∈ event.data, 0x20 ≤ c.toNat

/-- The name and the data that the server sent. -/
def sent (event : SSEEvent) : Text × Text := (event.event.getD messageName, event.data)

theorem singleLineField_of_plain {value : Text} (h : Plain value) : singleLineField value = value := by
  rw [singleLineField, List.filter_eq_self.mpr fun c hc => bne_iff_ne.mpr (h c hc).2]
  exact List.filter_eq_self.mpr fun c hc => bne_iff_ne.mpr (h c hc).1

/-- **One event** is received as it was sent exactly if its data has no break. -/
theorem received_eq_sent_iff {event : SSEEvent} (h : event.Serialised) :
    ((received event).event, (received event).data) = sent event ↔
      ∀ c ∈ event.data, isLineBreak c = false := by
  have hname : (received event).event = event.event.getD messageName := by
    cases hevent : event.event with
    | none => simp only [received, hevent, Option.map_none, Option.getD_none]
    | some v =>
      have hplain := (h.name v hevent).1
      simp only [received, hevent, Option.map_some, Option.getD_some, singleLineField_of_plain hplain]
  have hdata : '\n' ∉ event.data := fun hmem => absurd (h.data _ hmem) (by decide)
  rw [sent, hname, Prod.mk.injEq, eq_self_iff_true, true_and]
  exact join_linesOrEmpty_eq_iff hdata

/-- **The round trip.** However the bytes are cut, the frontend reads every event as it was sent, once
and in order, exactly if no data has a break of `str.splitlines`. -/
theorem requestSse_eq_sent_iff {events : List SSEEvent} {chunks : List (List UInt8)}
    (hevents : ∀ event ∈ events, event.Serialised)
    (hchunks : chunks.flatten = Utf8Decoder.encode (events.flatMap formatSseEvent)) :
    (requestSse chunks).map (fun e => (e.event, e.data)) = events.map sent ↔
      ∀ event ∈ events, ∀ c ∈ event.data, isLineBreak c = false := by
  rw [requestSse_formatSseEvent hchunks, List.map_map, List.map_inj_left]
  exact forall₂_congr fun event hevent => received_eq_sent_iff (hevents event hevent)

/-- Two events, cut in the middle of a character. -/
theorem requestSse_eq_sent_two :
    (requestSse [[101, 118, 101, 110, 116, 58, 32, 97, 10, 100, 97, 116, 97, 58, 32, 34, 195],
      [169, 34, 10], [10, 100, 97, 116, 97, 58, 32, 49, 10, 10]]).map (fun e => (e.event, e.data)) =
    [{ data := ['"', 'é', '"'], event := some ['a'] }, { data := ['1'] }].map sent :=
  (requestSse_eq_sent_iff (by
    simp only [List.forall_mem_cons]
    exact ⟨⟨by decide, List.all_iff_forall_prop.mp (by decide)⟩,
      ⟨by decide, List.all_iff_forall_prop.mp (by decide)⟩, by simp⟩) (by decide)).mpr (by
    refine List.forall_mem_cons.mpr ⟨List.all_iff_forall_prop.mp (by decide), ?_⟩
    exact List.forall_mem_cons.mpr ⟨List.all_iff_forall_prop.mp (by decide), by simp⟩)

/-- A line separator in a string becomes a line feed. -/
theorem requestSse_ne_sent_lineSeparator :
    ¬∀ chunks : List (List UInt8), chunks.flatten = Utf8Decoder.encode
        ([{ data := ['"', Char.ofNat 0x2028, '"'] }].flatMap formatSseEvent) →
      (requestSse chunks).map (fun e => (e.event, e.data)) =
        [{ data := ['"', Char.ofNat 0x2028, '"'] }].map sent := by
  intro h
  have hreceived := h [_] (List.flatten_singleton)
  rw [requestSse_formatSseEvent List.flatten_singleton] at hreceived
  exact absurd hreceived (by decide +kernel)

end EvernightAI

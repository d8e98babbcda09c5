import EvernightAI.Lib.JsonText
import EvernightAI.Lib.LineDecoder
import EvernightAI.Lib.PyJson
import EvernightAI.Lib.Utf8Decoder
import EvernightAI.Schema.Base

/-!
# The events of a provider

`iter_sse_json` reads the lines of a response and yields the events with their JSON objects. The
lines come from the HTTP client, which decodes the bytes as they arrive and breaks the text where
`str.splitlines` does.

`value` is what the decoder of JSON makes of a document; it may raise for one that it cannot hold.

* `iterSseJson_eq` : what is read does not depend on where the bytes are cut.
* `iterSseJson_eq_iff` : the events are read as they were sent exactly if no name starts with a
  space and no name and no data has a break of `str.splitlines`.
-/

namespace EvernightAI.ProviderSse

open TextLines SplitText LineDecoder

/-! ### The lines of a response -/

/-- A piece of text, if there is any. -/
def pieceOf (text : Text) : List Text := if text = [] then [] else [text]

/-- `response.aiter_text()` -/
def aiterText (s : Utf8Decoder.State) : List (List UInt8) → List Text
  | [] => pieceOf (Utf8Decoder.flush s)
  | chunk :: chunks =>
    pieceOf (Utf8Decoder.run s chunk).2 ++ aiterText (Utf8Decoder.run s chunk).1 chunks

/-- `response.aiter_lines()` -/
def aiterLines (chunks : List (List UInt8)) : List Text :=
  LineDecoder.run {} (aiterText Utf8Decoder.idle chunks)

/-! ### The events -/

/-- An event that is yielded. -/
abbrev Event := Option Text × PyDict

variable (value : Text → Except Error PyJson)

def doneData : Text := ['[', 'D', 'O', 'N', 'E', ']']

/-- `_parse_data` -/
def parseData (lines : List Text) : Except Error (Option PyDict) :=
  let data := join lines
  if data = [] ∨ data = doneData then .ok none
  else if ¬JsonText.isDocument data then
    .error
      { errorType := .other "ProviderResponseError"
        message := "Provider stream contains invalid JSON" }
  else (value data).bind fun parsed =>
    match parsed.dict? with
    | some entries => .ok (some entries)
    | none =>
      .error
        { errorType := .other "ProviderResponseError"
          message := "Provider stream data must be a JSON object" }

/-- The event that a blank line, or the end, completes. -/
def completed (event : Option Text) (data : List Text) : Except Error (List Event) :=
  if data = [] then .ok []
  else (parseData value data).map fun parsed => (parsed.map fun entries => (event, entries)).toList

def eventField : Text := ['e', 'v', 'e', 'n', 't', ':']

def dataField : Text := ['d', 'a', 't', 'a', ':']

/-- `text.removeprefix(" ")` -/
def removeSpace (text : Text) : Text := if text.head? = some ' ' then text.tail else text

/-- The loop of `iter_sse_json`: what it yields, and what it raises. -/
def readLines (event : Option Text) (data : List Text) : List Text → List Event × Option Error
  | [] =>
    match completed value event data with
    | .ok events => (events, none)
    | .error e => ([], some e)
  | line :: lines =>
    if line = [] then
      match completed value event data with
      | .ok events => (events ++ (readLines none [] lines).1, (readLines none [] lines).2)
      | .error e => ([], some e)
    else if eventField.isPrefixOf line then
      readLines (some ((line.drop eventField.length).dropWhile (· = ' '))) data lines
    else if dataField.isPrefixOf line then
      readLines event (data ++ [removeSpace (line.drop dataField.length)]) lines
    else readLines event data lines

/-- **`iter_sse_json`** -/
def iterSseJson (chunks : List (List UInt8)) : List Event × Option Error :=
  readLines value none [] (aiterLines chunks)

/-! ### Any cut -/

theorem flatten_pieceOf (text : Text) : (pieceOf text).flatten = text := by
  unfold pieceOf
  split_ifs with h
  · rw [h]
    rfl
  · exact List.flatten_singleton

theorem flatten_aiterText (s : Utf8Decoder.State) (chunks : List (List UInt8)) :
    (aiterText s chunks).flatten =
      (Utf8Decoder.run s chunks.flatten).2 ++
        Utf8Decoder.flush (Utf8Decoder.run s chunks.flatten).1 := by
  induction chunks generalizing s with
  | nil => exact flatten_pieceOf _
  | cons chunk chunks ih =>
    rw [aiterText, List.flatten_append, flatten_pieceOf, ih, List.flatten_cons,
      Utf8Decoder.run_append, List.append_assoc]

/-- The lines depend on the bytes only. -/
theorem aiterLines_eq {chunks : List (List UInt8)} {text : Text}
    (h : chunks.flatten = Utf8Decoder.encode text) : aiterLines chunks = splitlines text := by
  have hquiet : ({} : LineDecoder.State).Quiet := by
    intro c hc
    cases hc
  rw [aiterLines, run_eq hquiet, flatten_aiterText, h, Utf8Decoder.run_encode]
  exact congrArg splitlines (List.append_nil text)

/-! ### What a provider sends -/

/-- An event that a provider sends, with the object that its data stands for. -/
structure SentEvent where
  name : Text
  data : Text
  object : PyDict
  crlf : Bool := false

namespace SentEvent

def ending (e : SentEvent) : Text := if e.crlf then ['\r', '\n'] else ['\n']

/-- The text of an event. -/
def encode (e : SentEvent) : Text :=
  (eventField ++ ' ' :: e.name) ++ (e.ending ++
    ((dataField ++ ' ' :: e.data) ++ (e.ending ++ ([] ++ (e.ending ++ [])))))

/-- **What providers send**: a name of one line, and data that is a JSON object on one line. -/
structure Serialised (e : SentEvent) : Prop where
  name : Plain e.name
  data : Plain e.data
  document : JsonText.isDocument e.data
  object : value e.data = .ok (.dict e.object)

/-- The lines that the client makes of an event. -/
def lines (e : SentEvent) : List Text :=
  split lineBreak (eventField ++ ' ' :: e.name) ++ (split lineBreak (dataField ++ ' ' :: e.data) ++
    [[]])

end SentEvent

variable {value} {e : SentEvent}

theorem ending_ending (e : SentEvent) : Ending e.ending := by
  unfold SentEvent.ending
  split_ifs
  · exact .inr rfl
  · exact .inl rfl

/-- A field is a line. -/
theorem plain_field {field text : Text} (hfield : Plain field) (htext : Plain text) :
    Plain (field ++ ' ' :: text) := by
  intro c hc
  rcases List.mem_append.mp hc with hc | hc
  · exact hfield c hc
  · rcases List.mem_cons.mp hc with rfl | hc
    · decide
    · exact htext c hc

theorem plain_eventField : Plain eventField := by decide

theorem plain_dataField : Plain dataField := by decide

/-- The lines of a stream. -/
theorem splitlines_flatMap_encode {events : List SentEvent}
    (h : ∀ e ∈ events, e.Serialised value) :
    splitlines (events.flatMap SentEvent.encode) = events.flatMap SentEvent.lines := by
  induction events with
  | nil => rfl
  | cons e events ih =>
    obtain ⟨he, hrest⟩ := List.forall_mem_cons.mp h
    have hnil : Plain [] := by
      intro c hc
      cases hc
    rw [List.flatMap_cons, List.flatMap_cons, SentEvent.encode, SentEvent.lines]
    simp only [List.append_assoc, List.nil_append]
    rw [← List.append_assoc eventField, splitlines_append_ending
      (plain_field plain_eventField he.name) (ending_ending e)]
    rw [← List.append_assoc dataField, splitlines_append_ending
      (plain_field plain_dataField he.data) (ending_ending e)]
    have hblank := splitlines_append_ending (t := events.flatMap SentEvent.encode) hnil
      (ending_ending e)
    rw [List.nil_append] at hblank
    rw [hblank, ih hrest]
    rfl

/-! ### Names -/

/-- A text without breaks. -/
def Unbroken (text : Text) : Prop := ∀ c ∈ text, isLineBreak c = false

/-- A name that can be read. -/
def Readable (name : Text) : Prop := name.head? ≠ some ' ' ∧ Unbroken name

theorem completed_eq_ok {event : Option Text} {data : List Text} {events : List Event}
    (h : completed value event data = .ok events) : ∀ found ∈ events, found.1 = event := by
  unfold completed at h
  split_ifs at h
  · obtain rfl := Except.ok.inj h
    intro found hfound
    cases hfound
  · obtain ⟨parsed, -, rfl⟩ := exists_of_map_eq_ok h
    intro found hfound
    obtain ⟨entries, -, rfl⟩ := Option.map_eq_some_iff.mp (Option.mem_toList.mp hfound)
    rfl

/-- Only readable names are read. -/
theorem readable_of_mem_readLines {lines : List Text} (hlines : ∀ line ∈ lines, Unbroken line)
    {event : Option Text} (hevent : ∀ name ∈ event, Readable name) {data : List Text} :
    ∀ found ∈ (readLines value event data lines).1, ∀ name ∈ found.1, Readable name := by
  induction lines generalizing event data with
  | nil =>
    intro found hfound
    unfold readLines at hfound
    split at hfound
    · rename_i events hevents
      rw [completed_eq_ok hevents found hfound]
      exact hevent
    · cases hfound
  | cons line lines ih =>
    obtain ⟨hline, hrest⟩ := List.forall_mem_cons.mp hlines
    intro found hfound
    unfold readLines at hfound
    split_ifs at hfound
    · split at hfound
      · rename_i events hevents
        rcases List.mem_append.mp hfound with hfound | hfound
        · rw [completed_eq_ok hevents found hfound]
          exact hevent
        · exact ih hrest (by intro name hname; cases hname) found hfound
      · cases hfound
    · refine ih hrest ?_ found hfound
      rintro name hname
      obtain rfl := Option.some.inj hname
      constructor
      · intro hhead
        have hspace := List.head?_dropWhile_not (· = ' ') (line.drop eventField.length)
        rw [hhead] at hspace
        cases hspace
      · intro c hc
        exact hline c (List.mem_of_mem_drop ((List.dropWhile_sublist _).subset hc))
    · exact ih hrest hevent found hfound
    · exact ih hrest hevent found hfound

/-! ### Data -/

/-- Data that is broken inside a string is not read: the event raises. -/
theorem exists_error_of_cut (value : Text → Except Error PyJson) {text : Text}
    {stack : List JsonText.Frame} {isKey : Bool}
    (htext : JsonText.run {} text = some ⟨stack, .text isKey⟩) (event : Option Text)
    (data : List Text) : ∃ e, completed value event (text :: data) = .error e := by
  have hjoin : ∃ more : Text, join (text :: data) = text ++ more ∧ more.head?.all (· = '\n') := by
    cases data with
    | nil => exact ⟨[], by rw [join_singleton, List.append_nil], rfl⟩
    | cons next data =>
      exact ⟨'\n' :: join (next :: data), by rw [join_cons_cons, List.append_assoc]; rfl, rfl⟩
  obtain ⟨more, hjoin, hmore⟩ := hjoin
  have hne : text ++ more ≠ [] := by
    intro h
    rw [(List.append_eq_nil_iff.mp h).1] at htext
    cases htext
  have hdone : text ++ more ≠ doneData := by
    intro h
    cases more with
    | nil =>
      rw [List.append_nil] at h
      rw [h] at htext
      cases htext
    | cons c more =>
      have hc : c = '\n' := by simpa using hmore
      have hmem : '\n' ∈ doneData := by
        rw [← h, hc]
        exact List.mem_append_right _ List.mem_cons_self
      exact absurd hmem (by decide)
  have hdocument : ¬JsonText.isDocument (text ++ more) = true := by
    rw [JsonText.isDocument_of_cut htext hmore]
    exact Bool.false_ne_true
  unfold completed parseData
  rw [if_neg (List.cons_ne_nil _ _)]
  dsimp only
  rw [hjoin, if_neg (not_or.mpr ⟨hne, hdone⟩), if_pos hdocument]
  exact ⟨_, rfl⟩

/-- ... whatever the lines up to the blank one are taken for. -/
theorem readLines_of_cut (value : Text → Except Error PyJson) {text : Text}
    {stack : List JsonText.Frame} {isKey : Bool}
    (htext : JsonText.run {} text = some ⟨stack, .text isKey⟩) (lines more : List Text)
    (event : Option Text) (data : List Text) :
    ∃ e, (readLines value event (text :: data) (lines ++ [] :: more)).2 = some e := by
  induction lines generalizing event data with
  | nil =>
    obtain ⟨e, he⟩ := exists_error_of_cut value htext event data
    refine ⟨e, ?_⟩
    rw [List.nil_append, readLines, if_pos rfl, he]
  | cons line lines ih =>
    rw [List.cons_append, readLines]
    split_ifs
    · obtain ⟨e, he⟩ := exists_error_of_cut value htext event data
      exact ⟨e, by rw [he]⟩
    · exact ih _ data
    · exact ih event (data ++ _)
    · exact ih event data

/-- The first break of a text. -/
theorem exists_first_break {text : Text} (h : ¬Unbroken text) :
    ∃ front c more, text = front ++ c :: more ∧ Unbroken front ∧ isLineBreak c = true := by
  induction text with
  | nil =>
    refine absurd (fun c hc => ?_) h
    cases hc
  | cons c text ih =>
    by_cases hc : isLineBreak c = true
    · exact ⟨[], c, text, rfl, (by intro d hd; cases hd), hc⟩
    · have hrest : ¬Unbroken text := fun hrest =>
        h (List.forall_mem_cons.mpr ⟨Bool.not_eq_true _ ▸ hc, hrest⟩)
      obtain ⟨front, d, more, rfl, hfront, hd⟩ := ih hrest
      exact ⟨c :: front, d, more, rfl,
        List.forall_mem_cons.mpr ⟨Bool.not_eq_true _ ▸ hc, hfront⟩, hd⟩

/-- A break that is no line end does not stand outside a string. -/
theorem not_token_of_isLineBreak {c : Char} (hbreak : isLineBreak c = true)
    (hc : c ≠ '\n' ∧ c ≠ '\r') : ¬JsonText.Token c := by
  have hne : c.toNat ≠ 0x0A ∧ c.toNat ≠ 0x0D :=
    ⟨fun h => hc.1 (Char.toNat_inj.mp h), fun h => hc.2 (Char.toNat_inj.mp h)⟩
  rintro ⟨hascii, hprintable | hspace⟩
  · simp only [isLineBreak, List.mem_cons, List.not_mem_nil, or_false, decide_eq_true_eq] at hbreak
    omega
  · simp only [JsonText.isSpace, Bool.or_eq_true, decide_eq_true_eq] at hspace
    rcases hspace with ((rfl | rfl) | hspace) | hspace
    · exact absurd hbreak (by decide)
    · exact absurd hbreak (by decide)
    · exact hc.1 hspace
    · exact hc.2 hspace

/-- The line of a name. -/
theorem readLines_name {name : Text} (hname : Readable name) (event : Option Text)
    (data lines : List Text) :
    readLines value event data ((eventField ++ ' ' :: name) :: lines) =
      readLines value (some name) data lines := by
  have hdrop : (eventField ++ ' ' :: name).drop eventField.length = ' ' :: name := rfl
  have hspaces : (' ' :: name).dropWhile (· = ' ') = name := by
    rw [List.dropWhile_cons_of_pos rfl]
    cases name with
    | nil => rfl
    | cons c name =>
      refine List.dropWhile_cons_of_neg ?_
      rw [decide_eq_true_eq]
      rintro rfl
      exact hname.1 rfl
  have hprefix : eventField.isPrefixOf (eventField ++ ' ' :: name) = true := rfl
  have hne : eventField ++ ' ' :: name ≠ [] := by
    intro h
    cases h
  rw [readLines, if_neg hne, if_pos hprefix, hdrop, hspaces]

/-- The line of the data. -/
theorem readLines_data (text : Text) (event : Option Text) (data lines : List Text) :
    readLines value event data ((dataField ++ ' ' :: text) :: lines) =
      readLines value event (data ++ [text]) lines := by
  have hevent : eventField.isPrefixOf (dataField ++ ' ' :: text) = false := rfl
  have hprefix : dataField.isPrefixOf (dataField ++ ' ' :: text) = true := rfl
  have hne : dataField ++ ' ' :: text ≠ [] := by
    intro h
    cases h
  rw [readLines, if_neg hne, if_neg (hevent ▸ Bool.false_ne_true), if_pos hprefix]
  rfl

theorem unbroken_field {field text : Text} (hfield : Unbroken field) (htext : Unbroken text) :
    Unbroken (field ++ ' ' :: text) := by
  intro c hc
  rcases List.mem_append.mp hc with hc | hc
  · exact hfield c hc
  · rcases List.mem_cons.mp hc with rfl | hc
    · decide
    · exact htext c hc

theorem unbroken_eventField : Unbroken eventField := List.all_iff_forall_prop.mp (by decide)

theorem unbroken_dataField : Unbroken dataField := List.all_iff_forall_prop.mp (by decide)

theorem split_of_unbroken {text : Text} (h : Unbroken text) : split lineBreak text = [text] :=
  split_of_silent (silent_lineBreak h)

/-- The data of an event is parsed. -/
theorem completed_eq (he : e.Serialised value) (event : Option Text) :
    completed value event [e.data] = .ok [(event, e.object)] := by
  have hne : e.data ≠ [] ∧ e.data ≠ doneData := by
    constructor <;> intro h
    · exact absurd (h ▸ he.document) (by decide)
    · exact absurd (h ▸ he.document) (by decide)
  unfold completed parseData
  rw [if_neg (List.cons_ne_nil _ _)]
  dsimp only
  rw [join_singleton, if_neg (not_or.mpr hne), if_neg (not_not_intro he.document), he.object]
  rfl

/-- **One event** with a readable name: it is yielded, or it raises. -/
theorem readLines_lines (he : e.Serialised value) (hname : Readable e.name) (more : List Text) :
    (Unbroken e.data ∧ readLines value none [] (e.lines ++ more) =
        ((some e.name, e.object) :: (readLines value none [] more).1,
          (readLines value none [] more).2)) ∨
      (¬Unbroken e.data ∧ ∃ err, (readLines value none [] (e.lines ++ more)).2 = some err) := by
  have hsplit := split_of_unbroken (unbroken_field unbroken_eventField hname.2)
  rw [SentEvent.lines, hsplit, List.append_assoc, List.singleton_append, readLines_name hname]
  by_cases hdata : Unbroken e.data
  · left
    have hsplit := split_of_unbroken (unbroken_field unbroken_dataField hdata)
    refine ⟨hdata, ?_⟩
    rw [hsplit, List.append_assoc, List.singleton_append, readLines_data, List.nil_append,
      List.singleton_append, readLines, if_pos rfl, completed_eq he]
    rfl
  · right
    refine ⟨hdata, ?_⟩
    obtain ⟨front, c, rest, htext, hfront, hc⟩ := exists_first_break hdata
    have hplain := he.data c (htext ▸ List.mem_append_right _ List.mem_cons_self)
    obtain ⟨stack, isKey, hrun, -⟩ := JsonText.mode_of_isDocument
      (not_token_of_isLineBreak hc hplain) (htext ▸ he.document)
    obtain ⟨parts, hparts⟩ : ∃ parts, split lineBreak (dataField ++ ' ' :: e.data) =
        (dataField ++ ' ' :: front) :: parts := by
      have hstart : ∃ parts, split lineBreak (c :: rest) = [] :: parts := by
        obtain ⟨n, hn⟩ := Nat.exists_eq_succ_of_ne_zero
          (fun h => Bool.false_ne_true ((lineBreak_cons_eq_zero.mp h).symm.trans hc))
        exact ⟨_, splitFrom_cons_of_succ hn⟩
      obtain ⟨parts, hparts⟩ := hstart
      refine ⟨parts, ?_⟩
      have hsilent := silent_lineBreak (t := c :: rest) (unbroken_field unbroken_dataField hfront)
      have hwhole := split_append_of_silent hsilent
      rw [hparts, prepend, List.append_nil, List.append_assoc, List.cons_append] at hwhole
      rw [htext, hwhole]
    obtain ⟨err, herr⟩ := readLines_of_cut value hrun parts more (some e.name) []
    refine ⟨err, ?_⟩
    rw [hparts, List.append_assoc, List.cons_append, readLines_data, List.nil_append,
      List.singleton_append]
    exact herr

/-! ### The round trip -/

/-- The events of a stream, as they were sent. -/
theorem readLines_events_iff {events : List SentEvent} (h : ∀ e ∈ events, e.Serialised value)
    (hnames : ∀ e ∈ events, Readable e.name) :
    readLines value none [] (events.flatMap SentEvent.lines) =
        (events.map fun e => (some e.name, e.object), none) ↔
      ∀ e ∈ events, Unbroken e.data := by
  induction events with
  | nil => exact iff_of_true rfl (by intro e he; cases he)
  | cons e events ih =>
    obtain ⟨he, hrest⟩ := List.forall_mem_cons.mp h
    obtain ⟨hname, hnames⟩ := List.forall_mem_cons.mp hnames
    rw [List.flatMap_cons, List.forall_mem_cons, ← ih hrest hnames]
    rcases readLines_lines he hname (events.flatMap SentEvent.lines) with
      ⟨hdata, hread⟩ | ⟨hdata, err, herr⟩
    · rw [hread, and_iff_right hdata, List.map_cons, Prod.mk.injEq, List.cons.injEq,
        and_iff_right rfl, ← Prod.mk.injEq]
    · refine iff_of_false (fun heq => ?_) fun hall => hdata hall.1
      rw [heq] at herr
      cases herr

/-- Every line of a stream is unbroken. -/
theorem unbroken_of_mem_lines {line : Text} (h : line ∈ e.lines) : Unbroken line := by
  unfold SentEvent.lines at h
  rcases List.mem_append.mp h with h | h
  · exact fun c hc => not_isLineBreak_of_mem_splitFrom h hc
  · rcases List.mem_append.mp h with h | h
    · exact fun c hc => not_isLineBreak_of_mem_splitFrom h hc
    · rw [List.mem_singleton.mp h]
      intro c hc
      cases hc

/-- **The round trip.** However the bytes are cut, the events are read as they were sent, in order
and with no error, exactly if no name starts with a space and no name and no data has a break of
`str.splitlines`. -/
theorem iterSseJson_eq_iff (value : Text → Except Error PyJson) {events : List SentEvent}
    {chunks : List (List UInt8)} (hevents : ∀ e ∈ events, e.Serialised value)
    (hchunks : chunks.flatten = Utf8Decoder.encode (events.flatMap SentEvent.encode)) :
    iterSseJson value chunks = (events.map fun e => (some e.name, e.object), none) ↔
      ∀ e ∈ events, e.name.head? ≠ some ' ' ∧ (∀ c ∈ e.name, isLineBreak c = false) ∧
        ∀ c ∈ e.data, isLineBreak c = false := by
  rw [iterSseJson, aiterLines_eq hchunks, splitlines_flatMap_encode hevents]
  constructor
  · intro heq
    have hnames : ∀ e ∈ events, Readable e.name := by
      intro e he
      have hlines : ∀ line ∈ events.flatMap SentEvent.lines, Unbroken line := by
        intro line hline
        obtain ⟨e', -, hline⟩ := List.mem_flatMap.mp hline
        exact unbroken_of_mem_lines hline
      have hread : ∀ found ∈ (readLines value none [] (events.flatMap SentEvent.lines)).1,
          ∀ name ∈ found.1, Readable name :=
        readable_of_mem_readLines hlines (by intro name hname; cases hname)
      rw [heq] at hread
      exact hread (some e.name, e.object) (List.mem_map_of_mem he) e.name rfl
    have hdata := (readLines_events_iff hevents hnames).mp heq
    exact fun e he => ⟨(hnames e he).1, (hnames e he).2, hdata e he⟩
  · intro hall
    exact (readLines_events_iff hevents fun e he => ⟨(hall e he).1, (hall e he).2.1⟩).mpr
      fun e he => (hall e he).2.2

/-- An event whose bytes are cut inside a character. -/
theorem iterSseJson_eq_two :
    iterSseJson (fun _ => .ok (.dict [])) [[101, 118, 101, 110, 116, 58, 32, 97, 13], [10, 100, 97,
        116, 97, 58, 32, 123, 34, 195], [169, 34, 58, 49, 125, 13, 10, 13, 10]] =
      ([(some ['a'], [])], none) :=
  (@iterSseJson_eq_iff (fun _ => .ok (.dict []))
    [{ name := ['a'], data := ['\x7b', '"', 'é', '"', ':', '1', '\x7d'], object := []
       crlf := true }] _ (by
      intro e he
      rw [List.mem_singleton.mp he]
      exact ⟨by decide, by decide, by decide, rfl⟩)
    (by decide)).mpr (by
      intro e he
      rw [List.mem_singleton.mp he]
      exact ⟨by decide, List.all_iff_forall_prop.mp (by decide),
        List.all_iff_forall_prop.mp (by decide)⟩)

/-- A line separator in a string ends the stream with an error. -/
theorem iterSseJson_ne_lineSeparator :
    ¬∀ (value : Text → Except Error PyJson) (events : List SentEvent) (chunks : List (List UInt8)),
      (∀ e ∈ events, e.Serialised value) →
      chunks.flatten = Utf8Decoder.encode (events.flatMap SentEvent.encode) →
      iterSseJson value chunks = (events.map fun e => (some e.name, e.object), none) := by
  intro h
  have hread := h (fun _ => .ok (.dict []))
    [{ name := ['a'], data := ['\x7b', '"', Char.ofNat 0x2028, '"', ':', '1', '\x7d']
       object := [] }] [_] (by
      intro e he
      rw [List.mem_singleton.mp he]
      exact ⟨by decide, by decide, by decide, rfl⟩) List.flatten_singleton
  have hnone := congrArg (fun read => read.2.isNone) hread
  exact absurd hnone (by decide +kernel)

end EvernightAI.ProviderSse

import EvernightAI.Lib.TextLines
import Mathlib.Data.List.Induction
import Mathlib.Data.List.Range

/-!
# The output of a background process

A process keeps its recent output in a buffer of events whose offsets go on counting when old text
is dropped. A read continues where the furthest read so far stopped, unless it is given an offset;
it waits first, so the output that came while it waited stands before it in a sequence of
operations.

* `Consistent` : what the buffer keeps of all that was appended, in every state.
* `returns_iff` : what a read returns.
* `accounted_iff` : reads account for the whole output exactly if none is given an offset beyond its
  end.
-/

namespace EvernightAI.ShellOutput

open TextLines

/-- An event of the buffer. -/
structure OutputEvent where
  offset : ℕ
  stream : String
  text : Text
  deriving DecidableEq, Repr

/-- `_OutputBuffer` -/
structure OutputBuffer where
  maxChars : ℕ
  events : List OutputEvent := []
  finish : ℕ := 0
  size : ℕ := 0
  deriving DecidableEq, Repr

namespace OutputBuffer

/-- `start` -/
def start (b : OutputBuffer) : ℕ :=
  match b.events with
  | event :: _ => event.offset
  | [] => b.finish

/-- The loop that drops whole events. -/
def dropEvents (maxChars : ℕ) : List OutputEvent → ℕ → List OutputEvent × ℕ
  | event :: next :: rest, size =>
    if maxChars < size then dropEvents maxChars (next :: rest) (size - event.text.length)
    else (event :: next :: rest, size)
  | events, size => (events, size)

/-- The first event is cut. -/
def cutFirst (maxChars : ℕ) (events : List OutputEvent) (size : ℕ) : List OutputEvent × ℕ :=
  if maxChars < size then
    match events with
    | event :: rest =>
      let excess := size - maxChars
      ({ event with offset := event.offset + excess, text := event.text.drop excess } :: rest,
        size - excess)
    | [] => ([], size)
  else (events, size)

/-- `append` -/
def append (b : OutputBuffer) (stream : String) (text : Text) : OutputBuffer :=
  let dropped := dropEvents b.maxChars (b.events ++ [{ offset := b.finish, stream, text }])
    (b.size + text.length)
  let cut := cutFirst b.maxChars dropped.1 dropped.2
  { b with events := cut.1, finish := b.finish + text.length, size := cut.2 }

/-- The loop of `read`: the texts with their streams, and the position after them. -/
def readLoop : List OutputEvent → ℕ → ℕ → List (String × Text) × ℕ
  | [], position, _ => ([], position)
  | event :: rest, position, remaining =>
    if event.offset + event.text.length ≤ position ∨ remaining = 0 then
      readLoop rest position remaining
    else
      let visible := (event.text.drop (position - event.offset)).take remaining
      ((event.stream, visible) ::
          (readLoop rest (position + visible.length) (remaining - visible.length)).1,
        (readLoop rest (position + visible.length) (remaining - visible.length)).2)

/-- `read` -/
def read (b : OutputBuffer) (since maxChars : ℕ) : List (String × Text) × ℕ :=
  readLoop b.events (max since b.start) maxChars

end OutputBuffer

/-- What is appended, and what is read. -/
inductive Operation
  | append (stream : String) (text : Text)
  | read (since : Option ℕ) (maxChars : ℕ)
  deriving DecidableEq, Repr

/-- `_ManagedProcess`, as far as its output goes. -/
structure ManagedProcess where
  output : OutputBuffer
  readOffset : ℕ := 0
  deriving DecidableEq, Repr

/-- The result of a read. -/
structure Answer where
  output : List (String × Text)
  nextOffset : ℕ
  outputDropped : Bool
  moreOutput : Bool
  deriving DecidableEq, Repr

namespace ManagedProcess

/-- Where a read starts. -/
def position (p : ManagedProcess) (since : Option ℕ) : ℕ := since.getD p.readOffset

/-- **`read`** -/
def answer (p : ManagedProcess) (since : Option ℕ) (maxChars : ℕ) : Answer where
  output := (p.output.read (p.position since) maxChars).1
  nextOffset := (p.output.read (p.position since) maxChars).2
  outputDropped := p.position since < p.output.start
  moreOutput := (p.output.read (p.position since) maxChars).2 < p.output.finish

/-- One operation. -/
def step (p : ManagedProcess) : Operation → ManagedProcess
  | .append stream text => { p with output := p.output.append stream text }
  | .read since maxChars =>
    { p with readOffset := max p.readOffset (p.answer since maxChars).nextOffset }

end ManagedProcess

/-- A process with its buffer, after some operations. -/
def after (maxChars : ℕ) (operations : List Operation) : ManagedProcess :=
  operations.foldl ManagedProcess.step { output := { maxChars } }

/-! ### Labelled characters -/

/-- A character with its stream. -/
abbrev Labelled := List (String × Char)

def label (stream : String) (text : Text) : Labelled := text.map fun c => (stream, c)

/-- The characters of some texts. -/
def labels (texts : List (String × Text)) : Labelled := texts.flatMap fun t => label t.1 t.2

/-- The characters that the buffer retains. -/
def retained (events : List OutputEvent) : Labelled := events.flatMap fun e => label e.stream e.text

/-- All that was appended. -/
def history (operations : List Operation) : Labelled :=
  operations.flatMap fun operation =>
    match operation with
    | .append stream text => label stream text
    | .read _ _ => []

@[simp]
theorem length_label (stream : String) (text : Text) : (label stream text).length = text.length :=
  List.length_map _

theorem label_drop (stream : String) (text : Text) (n : ℕ) :
    label stream (text.drop n) = (label stream text).drop n := List.map_drop

theorem label_take (stream : String) (text : Text) (n : ℕ) :
    label stream (text.take n) = (label stream text).take n := List.map_take

/-- **Events that follow one another**, from one offset to another. -/
def Chain : ℕ → List OutputEvent → ℕ → Prop
  | start, [], finish => start = finish
  | start, event :: rest, finish =>
    event.offset = start ∧ Chain (start + event.text.length) rest finish

theorem Chain.length {start finish : ℕ} {events : List OutputEvent}
    (h : Chain start events finish) :
    finish = start + (retained events).length := by
  induction events generalizing start with
  | nil => exact h.symm
  | cons event rest ih =>
    rw [retained, List.flatMap_cons, List.length_append, length_label, ← retained]
    have := ih h.2
    omega

theorem Chain.concat {start finish : ℕ} {events : List OutputEvent} (h : Chain start events finish)
    (stream : String) (text : Text) :
    Chain start (events ++ [{ offset := finish, stream, text }]) (finish + text.length) := by
  induction events generalizing start with
  | nil =>
    obtain rfl : start = finish := h
    exact ⟨rfl, rfl⟩
  | cons event rest ih => exact ⟨h.1, ih h.2⟩

theorem retained_cons (event : OutputEvent) (rest : List OutputEvent) :
    retained (event :: rest) = label event.stream event.text ++ retained rest := List.flatMap_cons

theorem labels_cons (t : String × Text) (texts : List (String × Text)) :
    labels (t :: texts) = label t.1 t.2 ++ labels texts := List.flatMap_cons

theorem start_eq_of_chain {b : OutputBuffer} {start : ℕ} (h : Chain start b.events b.finish) :
    b.start = start := by
  unfold OutputBuffer.start
  cases hevents : b.events with
  | nil =>
    rw [hevents] at h
    exact h.symm
  | cons event rest =>
    rw [hevents] at h
    exact h.1

/-! ### What the buffer keeps -/

/-- **What the buffer keeps** of all that was appended: its end, contiguous, within its size. -/
structure Consistent (appended : Labelled) (b : OutputBuffer) : Prop where
  chain : Chain b.start b.events b.finish
  finish : b.finish = appended.length
  size : b.size = (retained b.events).length
  total : b.size = b.finish - b.start
  size_le : b.size ≤ b.maxChars
  retained : retained b.events = appended.drop b.start

/-- Events from the `k`-th character of others on, with their size. -/
structure Cut (start finish k : ℕ) (events : List OutputEvent)
    (cut : List OutputEvent × ℕ) : Prop where
  ne_nil : cut.1 ≠ []
  chain : Chain (start + k) cut.1 finish
  size : cut.2 = (retained cut.1).length
  retained : retained cut.1 = (retained events).drop k

open OutputBuffer in
theorem exists_cut_dropEvents {start finish maxChars : ℕ} {events : List OutputEvent} {size : ℕ}
    (hne : events ≠ []) (h : Chain start events finish) (hsize : size = (retained events).length) :
    ∃ k, Cut start finish k events (dropEvents maxChars events size) ∧
      ((dropEvents maxChars events size).2 ≤ maxChars ∨
        (dropEvents maxChars events size).1.length = 1) := by
  induction events generalizing start size with
  | nil => exact absurd rfl hne
  | cons event rest ih =>
    cases rest with
    | nil => exact ⟨0, ⟨List.cons_ne_nil _ _, h, hsize, rfl⟩, .inr rfl⟩
    | cons next rest =>
      unfold dropEvents
      split_ifs with hlong
      · have hlength : size - event.text.length = (retained (next :: rest)).length := by
          rw [retained_cons, List.length_append, length_label] at hsize
          omega
        obtain ⟨k, hcut, hend⟩ := ih (List.cons_ne_nil _ _) h.2 hlength
        refine ⟨event.text.length + k, ⟨hcut.ne_nil, ?_, hcut.size, ?_⟩, hend⟩
        · rw [← Nat.add_assoc]
          exact hcut.chain
        · rw [hcut.retained, retained_cons event, ← List.drop_drop]
          rw [List.drop_left' (length_label _ _)]
      · exact ⟨0, ⟨List.cons_ne_nil _ _, h, hsize, rfl⟩, .inl (Nat.not_lt.mp hlong)⟩

open OutputBuffer in
theorem exists_cut_cutFirst {start finish maxChars : ℕ} {events : List OutputEvent} {size : ℕ}
    (hne : events ≠ []) (h : Chain start events finish) (hsize : size = (retained events).length)
    (hend : size ≤ maxChars ∨ events.length = 1) :
    ∃ k, Cut start finish k events (cutFirst maxChars events size) ∧
      (cutFirst maxChars events size).2 ≤ maxChars := by
  unfold cutFirst
  split_ifs with hlong
  · obtain ⟨event, rfl⟩ := List.length_eq_one_iff.mp (hend.resolve_left (Nat.not_le.mpr hlong))
    rw [retained_cons, List.length_append, length_label] at hsize
    have hnil : (retained []).length = 0 := rfl
    have hchain := h.2
    have hfinish : start + event.text.length = finish := hchain
    refine ⟨size - maxChars, ⟨List.cons_ne_nil _ _, ⟨?_, ?_⟩, ?_, ?_⟩, ?_⟩
    · show event.offset + (size - maxChars) = start + (size - maxChars)
      rw [h.1]
    · show start + (size - maxChars) + (event.text.drop (size - maxChars)).length = finish
      rw [List.length_drop]
      omega
    · dsimp only
      rw [retained_cons, List.length_append, length_label, List.length_drop]
      omega
    · dsimp only
      rw [retained_cons, retained_cons, label_drop]
      exact (List.append_nil _).trans (congrArg _ (List.append_nil _).symm)
    · show size - (size - maxChars) ≤ maxChars
      omega
  · exact ⟨0, ⟨hne, h, hsize, rfl⟩, Nat.not_lt.mp hlong⟩

theorem Consistent.start_le {appended : Labelled} {b : OutputBuffer} (h : Consistent appended b) :
    b.start ≤ appended.length := by
  have hlength := h.chain.length
  have hfinish := h.finish
  omega

theorem consistent_empty (maxChars : ℕ) : Consistent [] { maxChars } where
  chain := rfl
  finish := rfl
  size := rfl
  total := rfl
  size_le := Nat.zero_le _
  retained := rfl

/-- **Appending keeps the end** of what was appended. -/
theorem Consistent.append {appended : Labelled} {b : OutputBuffer} (h : Consistent appended b)
    (stream : String) (text : Text) :
    Consistent (appended ++ label stream text) (b.append stream text) := by
  have hchain := h.chain.concat stream text
  have hretained : ShellOutput.retained (b.events ++ [{ offset := b.finish, stream, text }]) =
      (appended ++ label stream text).drop b.start := by
    rw [ShellOutput.retained, List.flatMap_append, ← ShellOutput.retained, h.retained,
      List.drop_append_of_le_length h.start_le]
    exact congrArg _ (List.append_nil _)
  have hsize : b.size + text.length =
      (ShellOutput.retained (b.events ++ [{ offset := b.finish, stream, text }])).length := by
    rw [hretained, List.length_drop, List.length_append, length_label]
    have htotal := h.total
    have hfinish := h.finish
    have hstart := h.start_le
    omega
  have hne : b.events ++ [({ offset := b.finish, stream, text } : OutputEvent)] ≠ [] :=
    List.append_ne_nil_of_right_ne_nil _ (List.cons_ne_nil _ _)
  obtain ⟨k, hcut, hend⟩ := @exists_cut_dropEvents _ _ b.maxChars _ _ hne hchain hsize
  obtain ⟨l, hcut', hle⟩ := exists_cut_cutFirst hcut.ne_nil hcut.chain hcut.size hend
  have hstart : (b.append stream text).start = b.start + k + l := start_eq_of_chain hcut'.chain
  have hlength := hcut'.chain.length
  constructor
  · rw [hstart]
    exact hcut'.chain
  · show b.finish + text.length = _
    rw [List.length_append, length_label, h.finish]
  · exact hcut'.size
  · rw [hstart]
    show (b.append stream text).size = b.finish + text.length - _
    have hsize' : (b.append stream text).size = _ := hcut'.size
    omega
  · exact hle
  · rw [hstart]
    show ShellOutput.retained (b.append stream text).events = _
    have hevents : ShellOutput.retained (b.append stream text).events = _ := hcut'.retained
    rw [hevents, hcut.retained, hretained, List.drop_drop, List.drop_drop]
    congr 1
    omega

/-! ### What a read returns -/

namespace OutputBuffer

theorem readLoop_zero (events : List OutputEvent) (position : ℕ) :
    readLoop events position 0 = ([], position) := by
  induction events with
  | nil => rfl
  | cons event rest ih =>
    unfold readLoop
    rw [if_pos (.inr rfl)]
    exact ih

/-- The position advances over what is read. -/
theorem readLoop_snd (events : List OutputEvent) (position remaining : ℕ) :
    (readLoop events position remaining).2 =
      position + (labels (readLoop events position remaining).1).length := by
  induction events generalizing position remaining with
  | nil => rfl
  | cons event rest ih =>
    unfold readLoop
    split_ifs
    · exact ih position remaining
    · dsimp only
      rw [ih, labels_cons, List.length_append, length_label, Nat.add_assoc]

/-- **The characters from a position on.** -/
theorem labels_readLoop {start finish position : ℕ} {events : List OutputEvent}
    (h : Chain start events finish) (hposition : start ≤ position) (remaining : ℕ) :
    labels (readLoop events position remaining).1 =
      ((retained events).drop (position - start)).take remaining := by
  induction events generalizing start position remaining with
  | nil =>
    show [] = (([] : Labelled).drop _).take _
    rw [List.drop_nil, List.take_nil]
  | cons event rest ih =>
    obtain ⟨rfl, hrest⟩ := h
    rw [retained_cons, List.drop_append, length_label]
    unfold readLoop
    by_cases hskip : event.offset + event.text.length ≤ position
    · rw [if_pos (.inl hskip), ih hrest hskip]
      have hdropped : (label event.stream event.text).drop (position - event.offset) = [] :=
        List.drop_eq_nil_of_le (by rw [length_label]; omega)
      rw [hdropped, List.nil_append]
      congr 2
      omega
    · by_cases hzero : remaining = 0
      · subst hzero
        rw [if_pos (.inr rfl), readLoop_zero, List.take_zero]
        rfl
      · rw [if_neg (not_or.mpr ⟨hskip, hzero⟩)]
        have hlater : position - event.offset - event.text.length = 0 := by omega
        rw [hlater, List.drop_zero, labels_cons, label_take, label_drop, List.take_append,
          List.length_drop, length_label]
        congr 1
        rw [List.length_take, List.length_drop]
        by_cases hfull : remaining ≤ event.text.length - (position - event.offset)
        · rw [Nat.sub_eq_zero_of_le hfull, Nat.min_eq_left hfull, Nat.sub_self, readLoop_zero,
            List.take_zero]
          rfl
        · have hmin : min remaining (event.text.length - (position - event.offset)) =
              event.text.length - (position - event.offset) := by omega
          rw [hmin, ih hrest (by omega)]
          have hnext : position + (event.text.length - (position - event.offset)) -
              (event.offset + event.text.length) = 0 := by omega
          rw [hnext, List.drop_zero]

end OutputBuffer

/-- **What a read returns**: the retained characters from where it starts, where it stopped, whether
some had been dropped before it, and whether there are more. -/
structure Returns (p : ManagedProcess) (since : Option ℕ) (maxChars : ℕ) (answer : Answer) :
    Prop where
  output : labels answer.output =
    ((retained p.output.events).drop
      (max (p.position since) p.output.start - p.output.start)).take maxChars
  nextOffset : answer.nextOffset =
    max (p.position since) p.output.start + (labels answer.output).length
  nextOffset_le : answer.nextOffset ≤ p.output.finish
  moreOutput : answer.moreOutput ↔ answer.nextOffset < p.output.finish
  outputDropped : answer.outputDropped ↔ p.position since < p.output.start

variable {appended : Labelled} {p : ManagedProcess} {since : Option ℕ} {maxChars : ℕ}

theorem ManagedProcess.nextOffset_answer (p : ManagedProcess) (since : Option ℕ) (maxChars : ℕ) :
    (p.answer since maxChars).nextOffset = max (p.position since) p.output.start +
      (labels (p.answer since maxChars).output).length :=
  OutputBuffer.readLoop_snd _ _ _

/-- A read returns what it should exactly if it starts within the output. -/
theorem returns_iff (h : Consistent appended p.output) :
    Returns p since maxChars (p.answer since maxChars) ↔ p.position since ≤ p.output.finish := by
  have hnext := p.nextOffset_answer since maxChars
  have houtput : labels (p.answer since maxChars).output =
      ((retained p.output.events).drop
        (max (p.position since) p.output.start - p.output.start)).take maxChars :=
    OutputBuffer.labels_readLoop h.chain (Nat.le_max_right _ _) maxChars
  have hlength := congrArg List.length houtput
  rw [List.length_take, List.length_drop] at hlength
  have hchain := h.chain.length
  constructor
  · intro hreturns
    have hle := hreturns.nextOffset_le
    omega
  · intro hle
    exact ⟨houtput, hnext, by omega, decide_eq_true_iff, decide_eq_true_iff⟩

/-! ### Every operation -/

theorem after_concat (maxChars : ℕ) (operations : List Operation) (operation : Operation) :
    after maxChars (operations ++ [operation]) = (after maxChars operations).step operation := by
  rw [after, List.foldl_append]
  rfl

theorem history_concat (operations : List Operation) (operation : Operation) :
    history (operations ++ [operation]) = history operations ++ history [operation] :=
  List.flatMap_append

/-- **The buffer is consistent** after any operations. -/
theorem consistent_after (maxChars : ℕ) (operations : List Operation) :
    Consistent (history operations) (after maxChars operations).output := by
  induction operations using List.reverseRecOn with
  | nil => exact consistent_empty maxChars
  | append_singleton operations operation ih =>
    rw [after_concat, history_concat]
    cases operation with
    | append stream text =>
      have hone : history [.append stream text] = label stream text := List.append_nil _
      rw [hone]
      exact ih.append stream text
    | read since maxChars =>
      have hone : history [.read since maxChars] = [] := rfl
      rw [hone, List.append_nil]
      exact ih

/-- No read is given an offset beyond the end of the output. -/
def Within (maxChars : ℕ) (operations : List Operation) : Prop :=
  ∀ before since count, before ++ [.read (some since) count] <+: operations →
    since ≤ (after maxChars before).output.finish

theorem finish_append (b : OutputBuffer) (stream : String) (text : Text) :
    (b.append stream text).finish = b.finish + text.length := rfl

/-- The read position stays within the output. -/
theorem readOffset_le {operations : List Operation} (h : Within maxChars operations) :
    (after maxChars operations).readOffset ≤ (after maxChars operations).output.finish := by
  induction operations using List.reverseRecOn with
  | nil => exact Nat.le_refl _
  | append_singleton operations operation ih =>
    have hold := ih fun before since count hpre =>
      h before since count (hpre.trans (List.prefix_append _ _))
    rw [after_concat]
    cases operation with
    | append stream text =>
      show _ ≤ ((after maxChars operations).output.append stream text).finish
      rw [finish_append]
      exact Nat.le_add_right_of_le hold
    | read since count =>
      have hposition : (after maxChars operations).position since ≤
          (after maxChars operations).output.finish := by
        cases since with
        | none => exact hold
        | some since => exact h operations since count List.prefix_rfl
      have hreturns : Returns (after maxChars operations) since count
          ((after maxChars operations).answer since count) :=
        (returns_iff (consistent_after maxChars operations)).mpr hposition
      exact Nat.max_le.mpr ⟨hold, hreturns.nextOffset_le⟩

/-! ### Once -/

/-- A read without an offset, or an append. -/
def Implicit : Operation → Prop
  | .append _ _ => True
  | .read since _ => since = none

/-- The offsets of the characters that the reads deliver. -/
def delivered (p : ManagedProcess) : List Operation → List ℕ
  | [] => []
  | .append stream text :: operations => delivered (p.step (.append stream text)) operations
  | .read since count :: operations =>
    List.range' (max (p.position since) p.output.start)
        (labels (p.answer since count).output).length ++
      delivered (p.step (.read since count)) operations

/-- A read without an offset passes over a character that was dropped, and reports it. -/
def Reported (p : ManagedProcess) (operations : List Operation) (i : ℕ) : Prop :=
  ∃ before count, before ++ [.read none count] <+: operations ∧
    (before.foldl ManagedProcess.step p).readOffset ≤ i ∧
    i < (before.foldl ManagedProcess.step p).output.start ∧
    ((before.foldl ManagedProcess.step p).answer none count).outputDropped

theorem Reported.cons {operations : List Operation} {i : ℕ} {operation : Operation}
    (h : Reported (p.step operation) operations i) : Reported p (operation :: operations) i := by
  obtain ⟨before, count, hpre, hreported⟩ := h
  exact ⟨operation :: before, count, (List.prefix_cons_inj _).mpr hpre, hreported⟩

/-- **Each character once.** What lies between the positions before and after some reads was
delivered once, or was dropped and reported; nothing else was delivered. -/
theorem count_delivered {operations : List Operation} (h : ∀ operation ∈ operations,
    Implicit operation) (p : ManagedProcess) (i : ℕ) :
    (i < p.readOffset → (delivered p operations).count i = 0) ∧
    (p.readOffset ≤ i → i < (operations.foldl ManagedProcess.step p).readOffset →
      (delivered p operations).count i = 1 ∨
        ((delivered p operations).count i = 0 ∧ Reported p operations i)) ∧
    ((operations.foldl ManagedProcess.step p).readOffset ≤ i →
      (delivered p operations).count i = 0) ∧
    p.readOffset ≤ (operations.foldl ManagedProcess.step p).readOffset := by
  induction operations generalizing p with
  | nil =>
    exact ⟨fun _ => rfl, fun hlow hhigh => absurd hhigh (Nat.not_lt.mpr hlow), fun _ => rfl,
      Nat.le_refl _⟩
  | cons operation operations ih =>
    obtain ⟨himplicit, hrest⟩ := List.forall_mem_cons.mp h
    obtain ⟨hbelow, hbetween, habove, hmono⟩ := ih hrest (p.step operation)
    cases operation with
    | append stream text =>
      refine ⟨hbelow, fun hlow hhigh => ?_, habove, hmono⟩
      exact (hbetween hlow hhigh).imp_right fun h => ⟨h.1, h.2.cons⟩
    | read since count =>
      obtain rfl : since = none := himplicit
      have hnext := p.nextOffset_answer none count
      have hposition : p.position none = p.readOffset := rfl
      have hoffset : (p.step (.read none count)).readOffset =
          (p.answer none count).nextOffset := by
        show max p.readOffset (p.answer none count).nextOffset = _
        omega
      rw [hposition] at hnext
      rw [hoffset] at hbelow hbetween hmono
      have hcount : (delivered p (.read none count :: operations)).count i =
          (List.range' (max p.readOffset p.output.start)
            (labels (p.answer none count).output).length).count i +
          (delivered (p.step (.read none count)) operations).count i := List.count_append
      rw [hcount, List.count_range_1', ← hnext]
      have hfold : (Operation.read none count :: operations).foldl ManagedProcess.step p =
          operations.foldl ManagedProcess.step (p.step (.read none count)) := rfl
      rw [hfold]
      refine ⟨fun hlow => ?_, fun hlow hhigh => ?_, fun hhigh => ?_, by omega⟩
      · rw [if_neg (by omega), hbelow (by omega)]
      · by_cases hskipped : i < max p.readOffset p.output.start
        · -- dropped before it was read
          right
          rw [if_neg (by omega), hbelow (by omega)]
          refine ⟨rfl, [], count, ?_, hlow, ?_, ?_⟩
          · exact (List.prefix_cons_inj _).mpr (List.nil_prefix)
          · show i < p.output.start
            omega
          · show decide (p.position none < p.output.start) = true
            rw [decide_eq_true_iff, hposition]
            omega
        · by_cases hread : i < (p.answer none count).nextOffset
          · left
            rw [if_pos (by omega), hbelow hread]
          · rw [if_neg (by omega), Nat.zero_add]
            exact (hbetween (by omega) hhigh).imp_right fun h => ⟨h.1, h.2.cons⟩
      · rw [if_neg (by omega), habove hhigh]

/-- **Each character after an answered read** is delivered at most once by the reads without an
offset that follow: once it is behind the read position it was delivered, or it was dropped first
and a read reported it. -/
def DeliveredOnce (p : ManagedProcess) (operations : List Operation) : Prop :=
  ∀ i, p.output.finish ≤ i →
    (i < (operations.foldl ManagedProcess.step p).readOffset →
      (delivered p operations).count i = 1 ∨
        ((delivered p operations).count i = 0 ∧ Reported p operations i)) ∧
    ((operations.foldl ManagedProcess.step p).readOffset ≤ i →
      (delivered p operations).count i = 0)

/-- **The output is accounted for**: what the buffer keeps, what each read returns, and what the
reads after it deliver. -/
structure Accounted (maxChars : ℕ) (operations : List Operation) : Prop where
  consistent : ∀ before, before <+: operations →
    Consistent (history before) (after maxChars before).output
  returns : ∀ before since count, before ++ [.read since count] <+: operations →
    Returns (after maxChars before) since count ((after maxChars before).answer since count)
  once : ∀ before since count between, before ++ .read since count :: between <+: operations →
    (∀ operation ∈ between, Implicit operation) →
    DeliveredOnce (after maxChars (before ++ [.read since count])) between

/-- **Reads account for the output** exactly if none is given an offset beyond its end. -/
theorem accounted_iff (maxChars : ℕ) (operations : List Operation) :
    Accounted maxChars operations ↔
      ∀ before since count, before ++ [.read (some since) count] <+: operations →
        since ≤ (after maxChars before).output.finish := by
  constructor
  · intro h before since count hpre
    exact (returns_iff (consistent_after maxChars before)).mp
      (h.returns before (some since) count hpre)
  · intro h
    have hwithin : ∀ before, before <+: operations → Within maxChars before :=
      fun before hbefore earlier since count hpre =>
        h earlier since count (hpre.trans hbefore)
    refine ⟨fun before _ => consistent_after maxChars before, ?_, ?_⟩
    · intro before since count hpre
      refine (returns_iff (consistent_after maxChars before)).mpr ?_
      cases since with
      | none => exact readOffset_le (hwithin before ((List.prefix_append _ _).trans hpre))
      | some since => exact h before since count hpre
    · intro before since count between hpre himplicit i hi
      have hread : before ++ [.read since count] <+: operations := by
        refine List.IsPrefix.trans ?_ hpre
        exact (List.prefix_append_right_inj _).mpr ((List.prefix_cons_inj _).mpr List.nil_prefix)
      have hle := readOffset_le (hwithin _ hread)
      obtain ⟨-, hbetween, habove, -⟩ :=
        count_delivered himplicit (after maxChars (before ++ [.read since count])) i
      exact ⟨fun hlow => hbetween (hle.trans hi) hlow, habove⟩

/-- A read beyond the end stops beyond the end, and what is appended then is never read. -/
theorem not_accounted_beyond :
    ¬∀ (maxChars : ℕ) (operations : List Operation), Accounted maxChars operations := by
  intro h
  have hreturns := (h 9 [.read (some 2) 5]).returns [] (some 2) 5 List.prefix_rfl
  exact absurd hreturns.nextOffset_le (by decide)

example :
    ((after 9 [.read (some 2) 5, .append "stdout" ['a', 'b']]).answer none 5).output = [] := by
  decide

end EvernightAI.ShellOutput

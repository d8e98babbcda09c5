import Mathlib.Data.Bool.AllAny
import Mathlib.Data.List.Basic

/-!
# JSON documents as texts

`isDocument` decides whether a text is a JSON document as Python's decoder reads it: control
characters in strings are refused, and `NaN`, `Infinity` and `-Infinity` are taken for numbers. The
text is read once, from left to right, with a stack of the arrays and objects that are open.

* `mode_of_isDocument` : where a document has a character that is not ASCII, it is inside a string.
* `isDocument_of_cut` : what ends, or goes on after a line feed, inside a string is no document.
-/

namespace JsonText

/-- What is open. -/
inductive Frame
  | object | array
  deriving DecidableEq, Repr

/-- What may come next. -/
inductive Mode
  /-- a value, or for `item` the end of an array -/
  | value | item
  /-- a key; for `entry` also the end of an object -/
  | key | entry
  | colon
  /-- the end of a value -/
  | after
  /-- inside a string, which may be a key -/
  | text (isKey : Bool) | escape (isKey : Bool) | hex (isKey : Bool) (left : ℕ)
  /-- the rest of a name -/
  | word (rest : List Char)
  /-- inside a number -/
  | minus | zero | digits | point | fraction | exponent | sign | power
  deriving DecidableEq, Repr

/-- The reader: what is open, and what may come next. -/
structure State where
  stack : List Frame := []
  mode : Mode := .value
  deriving DecidableEq, Repr

def isSpace (c : Char) : Bool := c = ' ' || c = '\t' || c = '\n' || c = '\r'

def isHexDigit (c : Char) : Bool :=
  c.isDigit || ('a' ≤ c && c ≤ 'f') || ('A' ≤ c && c ≤ 'F')

/-- The rest of a name. -/
def nameRest : Char → List Char
  | 't' => ['r', 'u', 'e']
  | 'f' => ['a', 'l', 's', 'e']
  | 'n' => ['u', 'l', 'l']
  | 'N' => ['a', 'N']
  | 'I' => ['n', 'f', 'i', 'n', 'i', 't', 'y']
  | _ => []

/-- The start of a value. -/
def start (stack : List Frame) (c : Char) : Option State :=
  if c = '"' then some ⟨stack, .text false⟩
  else if c = '\x7b' then some ⟨.object :: stack, .entry⟩
  else if c = '[' then some ⟨.array :: stack, .item⟩
  else if c = '-' then some ⟨stack, .minus⟩
  else if c = '0' then some ⟨stack, .zero⟩
  else if c.isDigit then some ⟨stack, .digits⟩
  else if nameRest c ≠ [] then some ⟨stack, .word (nameRest c)⟩
  else none

/-- What follows a value. -/
def finish (stack : List Frame) (c : Char) : Option State :=
  if isSpace c then some ⟨stack, .after⟩
  else match stack with
    | .object :: rest =>
      if c = ',' then some ⟨stack, .key⟩
      else if c = '\x7d' then some ⟨rest, .after⟩
      else none
    | .array :: rest =>
      if c = ',' then some ⟨stack, .value⟩
      else if c = ']' then some ⟨rest, .after⟩
      else none
    | [] => none

/-- The end of a string. -/
def closed (stack : List Frame) (isKey : Bool) : State :=
  ⟨stack, if isKey then .colon else .after⟩

/-- One character. -/
def step (s : State) (c : Char) : Option State :=
  match s.mode with
  | .value => if isSpace c then some s else start s.stack c
  | .item =>
    if isSpace c then some s
    else if c = ']' then some ⟨s.stack.tail, .after⟩
    else start s.stack c
  | .key =>
    if isSpace c then some s
    else if c = '"' then some ⟨s.stack, .text true⟩
    else none
  | .entry =>
    if isSpace c then some s
    else if c = '"' then some ⟨s.stack, .text true⟩
    else if c = '\x7d' then some ⟨s.stack.tail, .after⟩
    else none
  | .colon =>
    if isSpace c then some s
    else if c = ':' then some ⟨s.stack, .value⟩
    else none
  | .after => finish s.stack c
  | .text isKey =>
    if c = '"' then some (closed s.stack isKey)
    else if c = '\\' then some ⟨s.stack, .escape isKey⟩
    else if c.toNat < 0x20 then none
    else some s
  | .escape isKey =>
    if c = 'u' then some ⟨s.stack, .hex isKey 3⟩
    else if c = '"' ∨ c = '\\' ∨ c = '/' ∨ c = 'b' ∨ c = 'f' ∨ c = 'n' ∨ c = 'r' ∨ c = 't' then
      some ⟨s.stack, .text isKey⟩
    else none
  | .hex isKey left =>
    if ¬isHexDigit c then none
    else if left = 0 then some ⟨s.stack, .text isKey⟩
    else some ⟨s.stack, .hex isKey (left - 1)⟩
  | .word rest =>
    match rest with
    | [] => none
    | d :: rest => if c ≠ d then none else some ⟨s.stack, if rest = [] then .after else .word rest⟩
  | .minus =>
    if c = '0' then some ⟨s.stack, .zero⟩
    else if c.isDigit then some ⟨s.stack, .digits⟩
    else if c = 'I' then some ⟨s.stack, .word (nameRest 'I')⟩
    else none
  | .zero => number s c
  | .digits => if c.isDigit then some s else number s c
  | .point => if c.isDigit then some ⟨s.stack, .fraction⟩ else none
  | .fraction =>
    if c.isDigit then some s
    else if c = 'e' ∨ c = 'E' then some ⟨s.stack, .exponent⟩
    else finish s.stack c
  | .exponent =>
    if c = '+' ∨ c = '-' then some ⟨s.stack, .sign⟩
    else if c.isDigit then some ⟨s.stack, .power⟩
    else none
  | .sign => if c.isDigit then some ⟨s.stack, .power⟩ else none
  | .power => if c.isDigit then some s else finish s.stack c
where
  /-- What follows the digits before the point. -/
  number (s : State) (c : Char) : Option State :=
    if c = '.' then some ⟨s.stack, .point⟩
    else if c = 'e' ∨ c = 'E' then some ⟨s.stack, .exponent⟩
    else finish s.stack c

/-- A text, from a state on. -/
def run : State → List Char → Option State
  | s, [] => some s
  | s, c :: text => (step s c).bind fun s => run s text

/-- The document may end here. -/
def State.ends (s : State) : Bool :=
  s.stack = [] && (s.mode = .after || s.mode = .zero || s.mode = .digits || s.mode = .fraction ||
    s.mode = .power)

/-- **A JSON document.** -/
def isDocument (text : List Char) : Bool := (run {} text).any State.ends

example : isDocument "\x7b\"a\": [1.5e-3, \"\\u00e9\", null], \"b\": \x7b\x7d\x7d ".toList := by
  decide +kernel

example : ¬isDocument "\x7b\"a\": 01\x7d".toList ∧ ¬isDocument "[1,]".toList := by decide +kernel

/-! ### Outside a string -/

/-- A character that a document may have outside its strings. -/
def Token (c : Char) : Prop := c.toNat < 0x80 ∧ (0x20 ≤ c.toNat ∨ isSpace c)

instance : DecidablePred Token := fun _ => inferInstanceAs (Decidable (_ ∧ _))

theorem token_of_isSpace {c : Char} (h : isSpace c) : Token c := by
  refine ⟨?_, .inr h⟩
  simp only [isSpace, Bool.or_eq_true, decide_eq_true_eq] at h
  rcases h with ((rfl | rfl) | rfl) | rfl <;> decide

theorem token_of_isDigit {c : Char} (h : c.isDigit) : Token c := by
  unfold Char.isDigit at h
  rw [Bool.and_eq_true, decide_eq_true_eq, decide_eq_true_eq] at h
  have hdigit : 0x30 ≤ c.toNat ∧ c.toNat ≤ 0x39 := h
  exact ⟨by omega, .inl (by omega)⟩

theorem token_of_isHexDigit {c : Char} (h : isHexDigit c) : Token c := by
  simp only [isHexDigit, Bool.or_eq_true, Bool.and_eq_true, decide_eq_true_eq] at h
  rcases h with (hdigit | hlower) | hupper
  · exact token_of_isDigit hdigit
  · have hlower : 0x61 ≤ c.toNat ∧ c.toNat ≤ 0x66 := hlower
    exact ⟨by omega, .inl (by omega)⟩
  · have hupper : 0x41 ≤ c.toNat ∧ c.toNat ≤ 0x46 := hupper
    exact ⟨by omega, .inl (by omega)⟩

/-- The rest of a name is made of tokens. -/
def State.Sound (s : State) : Prop := ∀ rest, s.mode = .word rest → ∀ c ∈ rest, Token c

theorem sound_of_ne_word {s : State} (h : ∀ rest, s.mode ≠ .word rest) : s.Sound :=
  fun rest hrest => absurd hrest (h rest)

theorem token_of_nameRest {c : Char} (h : nameRest c ≠ []) :
    Token c ∧ ∀ d ∈ nameRest c, Token d := by
  unfold nameRest at h ⊢
  split at h
  case h_6 => exact absurd rfl h
  all_goals exact ⟨by decide, List.all_iff_forall_prop.mp (by decide)⟩

theorem start_some {stack : List Frame} {c : Char} {t : State} (h : start stack c = some t) :
    Token c ∧ t.Sound := by
  unfold start at h
  split_ifs at h with hquote hobject harray hminus hzero hdigit hname
  all_goals obtain rfl := Option.some.inj h
  · exact ⟨hquote ▸ by decide, sound_of_ne_word nofun⟩
  · exact ⟨hobject ▸ by decide, sound_of_ne_word nofun⟩
  · exact ⟨harray ▸ by decide, sound_of_ne_word nofun⟩
  · exact ⟨hminus ▸ by decide, sound_of_ne_word nofun⟩
  · exact ⟨hzero ▸ by decide, sound_of_ne_word nofun⟩
  · exact ⟨token_of_isDigit hdigit, sound_of_ne_word nofun⟩
  · obtain ⟨htoken, hrest⟩ := token_of_nameRest hname
    exact ⟨htoken, fun rest hword => Mode.word.inj hword ▸ hrest⟩

theorem finish_some {stack : List Frame} {c : Char} {t : State} (h : finish stack c = some t) :
    Token c ∧ t.Sound := by
  unfold finish at h
  by_cases hspace : isSpace c
  · rw [if_pos hspace] at h
    obtain rfl := Option.some.inj h
    exact ⟨token_of_isSpace hspace, sound_of_ne_word nofun⟩
  · rw [if_neg hspace] at h
    split at h
    · split_ifs at h with hcomma hclose
      · obtain rfl := Option.some.inj h
        exact ⟨hcomma ▸ by decide, sound_of_ne_word nofun⟩
      · obtain rfl := Option.some.inj h
        exact ⟨hclose ▸ by decide, sound_of_ne_word nofun⟩
    · split_ifs at h with hcomma hclose
      · obtain rfl := Option.some.inj h
        exact ⟨hcomma ▸ by decide, sound_of_ne_word nofun⟩
      · obtain rfl := Option.some.inj h
        exact ⟨hclose ▸ by decide, sound_of_ne_word nofun⟩
    · cases h

theorem number_some {s t : State} {c : Char} (h : step.number s c = some t) :
    Token c ∧ t.Sound := by
  unfold step.number at h
  split_ifs at h with hpoint hexponent
  · obtain rfl := Option.some.inj h
    exact ⟨hpoint ▸ by decide, sound_of_ne_word nofun⟩
  · obtain rfl := Option.some.inj h
    rcases hexponent with rfl | rfl <;> exact ⟨by decide, sound_of_ne_word nofun⟩
  · exact finish_some h

/-- The end of a string, or of an empty array or object. -/
theorem sound_closed (stack : List Frame) (isKey : Bool) : (closed stack isKey).Sound := by
  cases isKey <;> exact sound_of_ne_word nofun

/-- **One character**: outside a string it is a token. -/
theorem step_some {s t : State} {c : Char} (hs : s.Sound) (h : step s c = some t) :
    ((∃ isKey, s.mode = .text isKey ∧ 0x20 ≤ c.toNat) ∨ Token c) ∧ t.Sound := by
  obtain ⟨stack, mode⟩ := s
  have hspaces : isSpace c → t = ⟨stack, mode⟩ → Token c ∧ t.Sound := fun hspace ht =>
    ⟨token_of_isSpace hspace, ht ▸ hs⟩
  have htoken : Token c ∧ t.Sound →
      ((∃ isKey, mode = .text isKey ∧ 0x20 ≤ c.toNat) ∨ Token c) ∧ t.Sound :=
    fun h => ⟨.inr h.1, h.2⟩
  cases mode with
  | value =>
    simp only [step] at h
    split_ifs at h with hspace
    · exact htoken (hspaces hspace (Option.some.inj h).symm)
    · exact htoken (start_some h)
  | item =>
    simp only [step] at h
    split_ifs at h with hspace hclose
    · exact htoken (hspaces hspace (Option.some.inj h).symm)
    · obtain rfl := Option.some.inj h
      exact htoken ⟨hclose ▸ by decide, sound_of_ne_word nofun⟩
    · exact htoken (start_some h)
  | key =>
    simp only [step] at h
    split_ifs at h with hspace hquote
    · exact htoken (hspaces hspace (Option.some.inj h).symm)
    · obtain rfl := Option.some.inj h
      exact htoken ⟨hquote ▸ by decide, sound_of_ne_word nofun⟩
  | entry =>
    simp only [step] at h
    split_ifs at h with hspace hquote hclose
    · exact htoken (hspaces hspace (Option.some.inj h).symm)
    · obtain rfl := Option.some.inj h
      exact htoken ⟨hquote ▸ by decide, sound_of_ne_word nofun⟩
    · obtain rfl := Option.some.inj h
      exact htoken ⟨hclose ▸ by decide, sound_of_ne_word nofun⟩
  | colon =>
    simp only [step] at h
    split_ifs at h with hspace hcolon
    · exact htoken (hspaces hspace (Option.some.inj h).symm)
    · obtain rfl := Option.some.inj h
      exact htoken ⟨hcolon ▸ by decide, sound_of_ne_word nofun⟩
  | after => exact htoken (finish_some h)
  | text isKey =>
    simp only [step] at h
    split_ifs at h with hquote hescape hcontrol
    · obtain rfl := Option.some.inj h
      exact ⟨.inr (hquote ▸ by decide), sound_closed _ _⟩
    · obtain rfl := Option.some.inj h
      exact ⟨.inr (hescape ▸ by decide), sound_of_ne_word nofun⟩
    · obtain rfl := Option.some.inj h
      exact ⟨.inl ⟨isKey, rfl, by omega⟩, hs⟩
  | escape isKey =>
    simp only [step] at h
    split_ifs at h with hunicode hother
    · obtain rfl := Option.some.inj h
      exact htoken ⟨hunicode ▸ by decide, sound_of_ne_word nofun⟩
    · obtain rfl := Option.some.inj h
      refine htoken ⟨?_, sound_of_ne_word nofun⟩
      rcases hother with rfl | rfl | rfl | rfl | rfl | rfl | rfl | rfl <;> decide
  | hex isKey left =>
    simp only [step] at h
    split_ifs at h with hdigit hlast
    · obtain rfl := Option.some.inj h
      exact htoken ⟨token_of_isHexDigit hdigit, sound_of_ne_word nofun⟩
    · obtain rfl := Option.some.inj h
      exact htoken ⟨token_of_isHexDigit hdigit, sound_of_ne_word nofun⟩
  | word rest =>
    cases rest with
    | nil => cases h
    | cons d rest =>
      simp only [step] at h
      obtain ⟨hd, hrest⟩ := List.forall_mem_cons.mp (hs _ rfl)
      split_ifs at h with hne hlast
      · obtain rfl := Option.some.inj h
        exact htoken ⟨not_not.mp hne ▸ hd, sound_of_ne_word nofun⟩
      · obtain rfl := Option.some.inj h
        exact htoken ⟨not_not.mp hne ▸ hd, fun other hother => Mode.word.inj hother ▸ hrest⟩
  | minus =>
    simp only [step] at h
    split_ifs at h with hzero hdigit hname
    · obtain rfl := Option.some.inj h
      exact htoken ⟨hzero ▸ by decide, sound_of_ne_word nofun⟩
    · obtain rfl := Option.some.inj h
      exact htoken ⟨token_of_isDigit hdigit, sound_of_ne_word nofun⟩
    · obtain rfl := Option.some.inj h
      have hrest := (token_of_nameRest (c := 'I') (by decide)).2
      exact htoken ⟨hname ▸ by decide, fun other hother => Mode.word.inj hother ▸ hrest⟩
  | zero => exact htoken (number_some h)
  | digits =>
    simp only [step] at h
    split_ifs at h with hdigit
    · obtain rfl := Option.some.inj h
      exact htoken ⟨token_of_isDigit hdigit, hs⟩
    · exact htoken (number_some h)
  | point =>
    simp only [step] at h
    split_ifs at h with hdigit
    obtain rfl := Option.some.inj h
    exact htoken ⟨token_of_isDigit hdigit, sound_of_ne_word nofun⟩
  | fraction =>
    simp only [step] at h
    split_ifs at h with hdigit hexponent
    · obtain rfl := Option.some.inj h
      exact htoken ⟨token_of_isDigit hdigit, hs⟩
    · obtain rfl := Option.some.inj h
      refine htoken ⟨?_, sound_of_ne_word nofun⟩
      rcases hexponent with rfl | rfl <;> decide
    · exact htoken (finish_some h)
  | exponent =>
    simp only [step] at h
    split_ifs at h with hsign hdigit
    · obtain rfl := Option.some.inj h
      refine htoken ⟨?_, sound_of_ne_word nofun⟩
      rcases hsign with rfl | rfl <;> decide
    · obtain rfl := Option.some.inj h
      exact htoken ⟨token_of_isDigit hdigit, sound_of_ne_word nofun⟩
  | sign =>
    simp only [step] at h
    split_ifs at h with hdigit
    obtain rfl := Option.some.inj h
    exact htoken ⟨token_of_isDigit hdigit, sound_of_ne_word nofun⟩
  | power =>
    simp only [step] at h
    split_ifs at h with hdigit
    · obtain rfl := Option.some.inj h
      exact htoken ⟨token_of_isDigit hdigit, hs⟩
    · exact htoken (finish_some h)

/-! ### Inside a string -/

theorem run_append (s : State) (text more : List Char) :
    run s (text ++ more) = (run s text).bind fun t => run t more := by
  induction text generalizing s with
  | nil => rfl
  | cons c text ih =>
    simp only [List.cons_append, run]
    cases step s c with
    | none => rfl
    | some t => exact ih t

theorem sound_run {s t : State} {text : List Char} (hs : s.Sound) (h : run s text = some t) :
    t.Sound := by
  induction text generalizing s with
  | nil => exact Option.some.inj h ▸ hs
  | cons c text ih =>
    obtain ⟨m, hm, hrest⟩ := Option.bind_eq_some_iff.mp h
    exact ih (step_some hs hm).2 hrest

/-- **Where a document has another character, it is inside a string.** -/
theorem mode_of_isDocument {text more : List Char} {c : Char} (hc : ¬Token c)
    (h : isDocument (text ++ c :: more)) :
    ∃ stack isKey, run {} text = some ⟨stack, .text isKey⟩ ∧ 0x20 ≤ c.toNat := by
  unfold isDocument at h
  rw [run_append] at h
  obtain ⟨last, hlast, -⟩ := (Option.any_eq_true _ _).mp h
  obtain ⟨s, hs, hrest⟩ := Option.bind_eq_some_iff.mp hlast
  obtain ⟨t, ht, -⟩ := Option.bind_eq_some_iff.mp hrest
  have hstart : State.Sound {} := sound_of_ne_word (by intro rest h; cases h)
  have hsound : s.Sound := sound_run hstart hs
  obtain ⟨⟨isKey, hmode, hle⟩ | htoken, -⟩ := step_some hsound ht
  · exact ⟨s.stack, isKey, by rw [hs, ← hmode], hle⟩
  · exact absurd htoken hc

/-- **What is cut inside a string is no document**, and none if it goes on after a line feed. -/
theorem isDocument_of_cut {text more : List Char} {stack : List Frame} {isKey : Bool}
    (h : run {} text = some ⟨stack, .text isKey⟩) (hmore : more.head?.all (· = '\n')) :
    isDocument (text ++ more) = false := by
  unfold isDocument
  rw [run_append, h]
  cases more with
  | nil =>
    cases isKey <;> cases stack <;> rfl
  | cons c more =>
    have hc : c = '\n' := by simpa using hmore
    subst hc
    rfl

end JsonText

import Mathlib.Data.List.Basic

/-!
# Reading an argument list

`read` reads the words of a command line as GNU `getopt_long` does when it permutes: options are
read wherever they stand, until `--`; what is no option is an operand. A word with one dash combines
short options, and the first of them that takes a value takes the rest of the word or, if there is
none, the next word. A word with two dashes is one long option, whose value follows `=` or is the
next word. Names are not abbreviated. Where an option is not in the grammar, has no value but needs
one, or has one but takes none, there is no reading.
-/

namespace GetoptLong

/-- The characters of a word. -/
abbrev Text := List Char

/-- The options there are, each with whether it takes a value. -/
structure Grammar where
  short : Char → Option Bool
  long : Text → Option Bool

inductive Name
  | short (letter : Char)
  | long (name : Text)
deriving DecidableEq

inductive Item
  | option (name : Name) (value : Option Text)
  | operand (word : Text)
deriving DecidableEq

/-- The letters of a word with one dash: the options, and the one that takes the next word. -/
def readShort (g : Grammar) : List Char → Option (List Item × Option Name)
  | [] => some ([], none)
  | letter :: letters =>
    (g.short letter).bind fun takesValue =>
      if takesValue = false then
        (readShort g letters).map fun read => (.option (.short letter) none :: read.1, read.2)
      else if letters = [] then some ([], some (.short letter))
      else some ([.option (.short letter) (some letters)], none)

/-- What follows two dashes: the option, or the one that takes the next word. -/
def readLong (g : Grammar) (word : Text) : Option (List Item × Option Name) :=
  let name := word.takeWhile (· != '=')
  (g.long name).bind fun takesValue =>
    if takesValue = false then
      if '=' ∈ word then none else some ([.option (.long name) none], none)
    else if '=' ∈ word then
      some ([.option (.long name) (some (word.drop (name.length + 1)))], none)
    else some ([], some (.long name))

/-- A word of options. -/
def readOption (g : Grammar) : Text → Option (List Item × Option Name)
  | '-' :: '-' :: word => readLong g word
  | '-' :: letters => readShort g letters
  | _ => none

/-- A word of options: a dash and something after it. -/
def isOption (word : Text) : Bool := word.head? = some '-' && word != ['-']

/-- Read on, where an option takes the next word or none does. -/
def readFrom (g : Grammar) : Option Name → List Text → Option (List Item)
  | none, [] => some []
  | some _, [] => none
  | some name, value :: words => (readFrom g none words).map (.option name (some value) :: ·)
  | none, word :: words =>
    if word = ['-', '-'] then some (words.map .operand)
    else if isOption word then
      (readOption g word).bind fun read => (readFrom g read.2 words).map (read.1 ++ ·)
    else (readFrom g none words).map (.operand word :: ·)

/-- **The reading of an argument list.** -/
def read (g : Grammar) (words : List Text) : Option (List Item) := readFrom g none words

def Item.operand? : Item → Option Text
  | .option _ _ => none
  | .operand word => some word

/-- The operands, in order. -/
def operands (items : List Item) : List Text := items.filterMap Item.operand?

variable {g : Grammar} {items : List Item} {pending : Option Name} {word : Text}

theorem operands_append (items more : List Item) :
    operands (items ++ more) = operands items ++ operands more := List.filterMap_append

theorem operands_map_operand (words : List Text) : operands (words.map .operand) = words := by
  induction words with
  | nil => rfl
  | cons word words ih => exact congrArg (word :: ·) ih

theorem operands_readShort {letters : List Char}
    (h : readShort g letters = some (items, pending)) : operands items = [] := by
  induction letters generalizing items pending with
  | nil =>
    obtain ⟨rfl, rfl⟩ := Prod.mk.inj (Option.some.inj h)
    rfl
  | cons letter letters ih =>
    rw [readShort] at h
    obtain ⟨takesValue, -, h⟩ := Option.bind_eq_some_iff.mp h
    by_cases hvalue : takesValue = false
    · rw [if_pos hvalue] at h
      obtain ⟨⟨options, next⟩, hread, h⟩ := Option.map_eq_some_iff.mp h
      obtain ⟨rfl, rfl⟩ := Prod.mk.inj h
      have hoptions : operands options = [] := ih hread
      exact hoptions
    · rw [if_neg hvalue] at h
      by_cases hletters : letters = []
      · rw [if_pos hletters] at h
        obtain ⟨rfl, rfl⟩ := Prod.mk.inj (Option.some.inj h)
        rfl
      · rw [if_neg hletters] at h
        obtain ⟨rfl, rfl⟩ := Prod.mk.inj (Option.some.inj h)
        rfl

theorem operands_readLong (h : readLong g word = some (items, pending)) :
    operands items = [] := by
  rw [readLong] at h
  obtain ⟨takesValue, -, h⟩ := Option.bind_eq_some_iff.mp h
  by_cases hvalue : takesValue = false
  · rw [if_pos hvalue] at h
    by_cases hequals : '=' ∈ word
    · rw [if_pos hequals] at h
      exact absurd h nofun
    · rw [if_neg hequals] at h
      obtain ⟨rfl, rfl⟩ := Prod.mk.inj (Option.some.inj h)
      rfl
  · rw [if_neg hvalue] at h
    by_cases hequals : '=' ∈ word
    · rw [if_pos hequals] at h
      obtain ⟨rfl, rfl⟩ := Prod.mk.inj (Option.some.inj h)
      rfl
    · rw [if_neg hequals] at h
      obtain ⟨rfl, rfl⟩ := Prod.mk.inj (Option.some.inj h)
      rfl

theorem readOption_of_ne {c : Char} {letters : List Char} (hc : c ≠ '-') :
    readOption g ('-' :: c :: letters) = readShort g (c :: letters) := by
  rw [readOption]
  rintro word he
  exact hc (List.cons.inj he).1

/-- Words of options have no operands. -/
theorem operands_readOption (h : readOption g word = some (items, pending)) :
    operands items = [] := by
  rw [readOption.eq_def] at h
  split at h
  · exact operands_readLong h
  · exact operands_readShort h
  · exact absurd h nofun

end GetoptLong

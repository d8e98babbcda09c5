import EvernightAI.Tool.ShellText

/-!
# Quotes, comments and here-documents of the shell

How `sh` reads the lines of a script, as far as it decides where a here-document is: quotes,
escapes, comments, joined lines, and the substitutions that open a place with quotes of its own.
`sh` answers `none` for what is not described here: here-strings, unquoted delimiters and ones that
are missing, a here-document on a line that goes on, and an operator that is split over two lines.
In a substitution `case` patterns are written with both parentheses.

`readsAlike` says where `parseQuotedHeredocs`, which reads line by line and knows two kinds of
quotes, sees what `sh` sees.
-/

namespace EvernightAI.ShellLexis

open Shell

/-! ### Places -/

/-- What a character stands in: quotes, `$(…)` with its open parentheses, backquotes, `${…}`. -/
inductive Context
  | single | double | substitution (parentheses : ℕ) | backquote | brace
  deriving DecidableEq, Repr

/-- What stands before a character: nothing, a blank or an operator; a redirection; digits only;
digits on the line before; or another part of a word. -/
inductive Last
  | start | redirect | digits | split | word
  deriving DecidableEq, Repr

/-- The contexts of a character, the innermost first. -/
structure Place where
  contexts : List Context := []
  last : Last := .start
  deriving DecidableEq, Repr

/-- A word starts here. -/
def Last.startsWord (last : Last) : Bool := last = .start || last = .redirect

/-- After a character of a command. -/
def Last.after (last : Last) (c : Char) : Last :=
  if c = '<' ∨ c = '>' ∨ c = '&' ∧ last = .redirect then .redirect
  else if isBreak c then .start
  else if isFdDigit c ∧ (last = .start ∨ last = .digits) then .digits
  else if isFdDigit c ∧ last = .split then .split
  else .word

/-- After a backslash at the end of the line. -/
def Last.join (last : Last) : Last := if last = .digits then .split else last

/-- What is done with a character: it is copied, alone or with the next one; it starts a comment; it
starts a here-document; or it is not described. -/
inductive Move
  | copy (count : ℕ) (place : Place)
  | comment
  | here
  | stuck
  deriving DecidableEq, Repr

variable (place : Place)

/-- A substitution that opens, or the end of one in backquotes. -/
def opens (c : Char) (rest : List Char) : Option Move :=
  if c = '\x60' then
    if .backquote ∈ place.contexts then
      some (.copy 1 ⟨(place.contexts.dropWhile (· ≠ .backquote)).tail, .word⟩)
    else some (.copy 1 ⟨.backquote :: place.contexts, .start⟩)
  else if c = '$' ∧ rest.head? = some '(' then
    some (.copy 2 ⟨.substitution 0 :: place.contexts, .start⟩)
  else if c = '$' ∧ rest.head? = some '\x7b' then
    some (.copy 2 ⟨.brace :: place.contexts, .word⟩)
  else none

def inSingle (c : Char) : Move :=
  .copy 1 ⟨if c = '\'' then place.contexts.tail else place.contexts, place.last⟩

def inDouble (c : Char) (rest : List Char) : Move :=
  if c = '\\' then .copy 2 place
  else if c = '"' then .copy 1 ⟨place.contexts.tail, .word⟩
  else (opens place c rest).getD (.copy 1 place)

/-- Within double quotes a single quote stands for itself in `${…}`. -/
def inBrace (c : Char) (rest : List Char) : Move :=
  if c = '\\' then .copy 2 place
  else if c = '\x7d' then .copy 1 ⟨place.contexts.tail, .word⟩
  else if c = '\'' ∧ .double ∉ place.contexts then .copy 1 ⟨.single :: place.contexts, .word⟩
  else if c = '"' then .copy 1 ⟨.double :: place.contexts, .word⟩
  else (opens place c rest).getD (.copy 1 place)

/-- A character of a command, which may close a substitution. -/
def plain (c : Char) : Place :=
  match place.contexts, decide (c = '('), decide (c = ')') with
  | .substitution 0 :: contexts, _, true => ⟨contexts, .word⟩
  | .substitution (n + 1) :: contexts, _, true => ⟨.substitution n :: contexts, .start⟩
  | .substitution n :: contexts, true, _ => ⟨.substitution (n + 1) :: contexts, .start⟩
  | contexts, _, _ => ⟨contexts, place.last.after c⟩

def inCommand (c : Char) (rest : List Char) : Move :=
  if c = '\\' then
    .copy 2 ⟨place.contexts, if rest = [] then place.last.join else .word⟩
  else if c = '\'' then .copy 1 ⟨.single :: place.contexts, .word⟩
  else if c = '"' then .copy 1 ⟨.double :: place.contexts, .word⟩
  else if c = '#' ∧ place.last.startsWord then .comment
  else if c = '<' ∧ place.last = .redirect then .stuck
  else if c = '<' ∧ rest.head? = some '<' then .here
  else (opens place c rest).getD (.copy 1 (plain place c))

def move (c : Char) (rest : List Char) : Move :=
  match place.contexts with
  | .single :: _ => inSingle place c
  | .double :: _ => inDouble place c rest
  | .brace :: _ => inBrace place c rest
  | _ => inCommand place c rest

/-! ### Lines -/

/-- The rest of the word that names a here-document: its value, and what follows. -/
def wordFrom : Bool → Option Char → List Char → Option (List Char × List Char)
  | true, _, [] | _, some _, [] => none
  | false, none, [] => some ([], [])
  | true, quote, c :: rest => (wordFrom false quote rest).map fun v => (c :: v.1, v.2)
  | false, none, c :: rest =>
    if isBreak c then some ([], c :: rest)
    else if c = '\\' then wordFrom true none rest
    else if Shlex.isQuote c then wordFrom false (some c) rest
    else (wordFrom false none rest).map fun v => (c :: v.1, v.2)
  | false, some quote, c :: rest =>
    if c = quote then wordFrom false none rest
    else if quote = '"' ∧ c = '\\' ∧ rest.head?.any escapable then wordFrom true (some quote) rest
    else (wordFrom false (some quote) rest).map fun v => (c :: v.1, v.2)

/-- A word of which any part is quoted. -/
def hereWord (text : List Char) : Option (List Char × List Char) :=
  if (text.takeWhile fun c => !isBreak c).any fun c => Shlex.isQuote c || c = '\\' then
    wordFrom false none text
  else none

/-- What was read of a line. -/
structure Lexed where
  place : Place
  text : List Char := []
  delimiters : List HereDelimiter := []
  /-- The line goes on in the next one. -/
  joined : Bool := false
  deriving DecidableEq, Repr

/-- The text before a here-document, without its descriptor: digits that are a word of their own. -/
def withoutDescriptor (last : Last) (text : List Char) : List Char :=
  if last = .digits then (text.reverse.dropWhile isFdDigit).reverse else text

namespace Lexed

def copy (l : Lexed) (count : ℕ) (place : Place) (c : Char) (rest : List Char) : Lexed :=
  { l with
    place
    text := l.text ++ (c :: rest).take count
    joined := if count = 2 ∧ c = '\\' then decide (rest = []) else l.joined }

/-- A here-document, after its first `<`. -/
def here (l : Lexed) (rest : List Char) : Option (Lexed × List Char) :=
  if rest.tail.head? = some '<' ∨ l.place.last = .split then none
  else
    let stripTabs := rest.tail.head? = some '-'
    let after := if stripTabs then rest.tail.tail else rest.tail
    (hereWord (after.dropWhile fun d => d = ' ' || d = '\t')).map fun v =>
      ({ l with
          place := { l.place with last := .word }
          text := withoutDescriptor l.place.last l.text ++ [' ']
          delimiters := l.delimiters ++ [⟨v.1, stripTabs⟩] }, v.2)

/-- The newline ends a command. -/
def endsCommand (l : Lexed) : Bool :=
  !l.joined && match l.place.contexts with
    | .single :: _ | .double :: _ | .brace :: _ => false
    | _ => true

/-- The place where the next line starts. -/
def next (l : Lexed) : Place :=
  if l.endsCommand then { l.place with last := .start } else l.place

end Lexed

/-- The rest of a line, with `fuel` for at least its length. -/
def lexFrom : ℕ → Lexed → List Char → Option Lexed
  | 0, l, _ => some l
  | _, l, [] => some l
  | fuel + 1, l, c :: rest =>
    match move l.place c rest with
    | .stuck => none
    | .comment => some { l with text := l.text ++ c :: rest }
    | .copy count place => lexFrom fuel (l.copy count place c rest) ((c :: rest).drop count)
    | .here => (l.here rest).bind fun v => lexFrom fuel v.1 v.2

/-- A line that starts at a place. -/
def lexLine (line : List Char) : Option Lexed := lexFrom line.length { place } line

/-! ### Scripts -/

/-- The body of a here-document, and the lines after its delimiter. -/
def bodyOf (here : HereDelimiter) (lines : List (List Char)) :
    Option (List (List Char) × List (List Char)) :=
  let body := (lines.map fun line => if here.stripTabs then line.dropWhile (· = '\t') else line)
    |>.takeWhile (· ≠ here.delimiter)
  if body.length < lines.length then some (body, lines.drop (body.length + 1)) else none

def bodiesOf : List HereDelimiter → List (List Char) →
    Option (List (List (List Char)) × List (List Char))
  | [], lines => some ([], lines)
  | here :: delimiters, lines => do
    let (body, lines) ← bodyOf here lines
    let (bodies, lines) ← bodiesOf delimiters lines
    return (body :: bodies, lines)

/-- The lines of the commands, where a body leaves empty lines, and the documents. -/
def scriptFrom : ℕ → Place → List (List Char) → Option (List (List Char) × List HereDocument)
  | 0, _, _ => some ([], [])
  | _, _, [] => some ([], [])
  | fuel + 1, place, line :: rest => do
    let l ← lexLine place line
    if l.delimiters ≠ [] ∧ l.endsCommand = false then none
    else
      let (bodies, after) ← bodiesOf l.delimiters rest
      let (output, documents) ← scriptFrom fuel l.next after
      return (l.text :: List.replicate (rest.length - after.length) [] ++ output,
        bodies.map (fun body => ⟨String.ofList l.text, joinLines body⟩) ++ documents)

/-- **What `sh` assigns to a script.** -/
def sh (script : String) : Option ShellScript :=
  let lines := script.toList.splitOn '\n'
  (scriptFrom lines.length {} lines).map fun v => ⟨joinLines v.1, v.2⟩

/-! ### Where the parser sees the same -/

/-- The quote that the parser is in. -/
def quoteOf (contexts : List Context) : Option Char :=
  if .double ∈ contexts then some '"'
  else if contexts.head? = some .single then some '\'' else none

/-- The parser takes what follows for the start of a word. -/
def startsAfter (quote : Option Char) (wordStart : Bool) (count : ℕ) (c : Char)
    (rest : List Char) : Bool :=
  if quote = some '\'' then wordStart
  else if c = '\\' then false
  else if quote = some '"' then wordStart
  else if Shlex.isQuote c then false
  else ((c :: rest).take count).getLast?.any isBreak

/-- **The parser sees the character as `sh` does.** In backquotes there is no backslash, and only
the quote that opened them closes them. In a substitution within double quotes there are no
double quotes, comments and here-documents, and no backslash in single quotes. Elsewhere a `#`
starts a comment exactly after what the parser takes for the end of a word, and `<<` is an
operator, with the descriptor that the parser finds. -/
def sameView (l : Lexed) (wordStart : Bool) (c : Char) (rest : List Char) : Bool :=
  let contexts := l.place.contexts
  let outer := contexts.head?
  (.backquote ∉ contexts || c ≠ '\\' && (c ≠ '\x60' || outer = some .backquote)) &&
    if .double ∈ contexts ∧ outer ≠ some .double then
      c ≠ '"' && (c ≠ '\\' || outer ≠ some .single) && move l.place c rest ≠ .comment &&
        move l.place c rest ≠ .here
    else if outer = some .single ∨ outer = some .double then true
    else
      (c ≠ '#' || (move l.place c rest = .comment) = wordStart) &&
        (c ≠ '<' || rest.head? ≠ some '<' || move l.place c rest = .here &&
          withoutDescriptor l.place.last l.text = dropDescriptor l.text)

/-- The rest of a line. -/
def alikeFrom : ℕ → Lexed → Bool → List Char → Bool
  | 0, _, _, _ => true
  | _, _, _, [] => true
  | fuel + 1, l, wordStart, c :: rest =>
    sameView l wordStart c rest &&
      match move l.place c rest with
      | .stuck => false
      | .comment => true
      | .copy count place =>
        alikeFrom fuel (l.copy count place c rest)
          (startsAfter (quoteOf l.place.contexts) wordStart count c rest) ((c :: rest).drop count)
      | .here => (l.here rest).any fun v => alikeFrom fuel v.1 false v.2

/-- The lines of a script. A line with a here-document ends its command. -/
def linesAlike : ℕ → Place → List (List Char) → Bool
  | 0, _, _ => true
  | _, _, [] => true
  | fuel + 1, place, line :: rest =>
    alikeFrom line.length { place } true line &&
      (lexLine place line).all fun l =>
        (l.delimiters = [] || l.endsCommand) &&
          (bodiesOf l.delimiters rest).all fun v => linesAlike fuel l.next v.2

/-- **The parser reads a script as `sh` does.** -/
def readsAlike (script : String) : Bool :=
  let lines := script.toList.splitOn '\n'
  linesAlike lines.length {} lines

end EvernightAI.ShellLexis

import EvernightAI.Schema.Base
import EvernightAI.Tool.RestrictedShell

/-!
# The texts of shell commands

What the command policy reads off the text of a script without a grammar: the tokens of `shlex`, the
quoted here-documents, and whether every path in it is literal. Each reader keeps its own account of
quotes, escapes, words and comments, from left to right.

* `parseQuotedHeredocs` takes the here-documents out of a script.
* `literalScriptReason` is the scanner that deletion depends on.
* `shellCommands` cuts a script into commands at the operators.
-/

/-! ### `shlex` in POSIX mode, splitting at whitespace -/

namespace Shlex

/-- The `state` of the reader. An escape goes back to the quotes it stands in, if to any. -/
inductive State
  | blank
  | word
  | operator
  | quoted (quote : Char)
  | escaped (back : Option Char)
  deriving DecidableEq, Repr

/-- `whitespace` -/
def isBlank (c : Char) : Bool := c = ' ' || c = '\t' || c = '\r' || c = '\n'

/-- `quotes` -/
def isQuote (c : Char) : Bool := c = '\'' || c = '"'

/-- The token to return at its end: an unquoted empty one is none. -/
def emit (token : List Char) (quoted : Bool) (tokens : List (List Char)) : List (List Char) :=
  if token = [] ∧ quoted = false then tokens else token :: tokens

variable (operators : List Char)

/-- The first character of a token, or a blank before it. -/
def begin (c : Char) : State × List Char :=
  if isBlank c then (.blank, [])
  else if c = '\\' then (.escaped none, [])
  else if c ∈ operators then (.operator, [c])
  else if isQuote c then (.quoted c, [])
  else (.word, [c])

/-- The tokens of the rest of a text, `token` being read. -/
def read : State → List Char → Bool → List Char → Except String (List (List Char))
  | .blank, _, _, [] => .ok []
  | .word, token, quoted, [] => .ok (emit token quoted [])
  | .operator, token, quoted, [] => .ok (emit token quoted [])
  | .quoted _, _, _, [] => .error "No closing quotation"
  | .escaped _, _, _, [] => .error "No escaped character"
  | .blank, _, _, c :: rest => read (begin operators c).1 (begin operators c).2 false rest
  | .word, token, quoted, c :: rest =>
    if isBlank c then (read .blank [] false rest).map (emit token quoted)
    else if isQuote c then read (.quoted c) token quoted rest
    else if c = '\\' then read (.escaped none) token quoted rest
    else if c ∈ operators then (read .operator [c] false rest).map (emit token quoted)
    else read .word (token ++ [c]) quoted rest
  | .operator, token, quoted, c :: rest =>
    if c ∈ operators then read .operator (token ++ [c]) quoted rest
    else
      (read (begin operators c).1 (begin operators c).2 false rest).map (emit token quoted)
  | .quoted quote, token, _, c :: rest =>
    if c = quote then read .word token true rest
    else if c = '\\' ∧ quote = '"' then read (.escaped (some quote)) token true rest
    else read (.quoted quote) (token ++ [c]) true rest
  | .escaped none, token, quoted, c :: rest => read .word (token ++ [c]) quoted rest
  | .escaped (some quote), token, quoted, c :: rest =>
    -- in quotes only the quote and the backslash are escaped
    read (.quoted quote) (token ++ if c = '\\' ∨ c = quote then [c] else ['\\', c]) quoted rest

/-- The tokens of a text. -/
def tokens (text : List Char) : Except String (List (List Char)) :=
  read operators .blank [] false text

/-- `shlex.split(text)` -/
def split (text : String) : Except String (List String) :=
  (tokens [] text.toList).map fun tokens => tokens.map String.ofList

end Shlex

namespace EvernightAI.Shell

/-- `ShellDialect` -/
inductive Dialect
  | posix | cmd | powershell
  deriving DecidableEq, Repr

/-- What the runtime knows about characters. -/
structure Tables extends UnicodeTables where
  isDecimal : Char → Bool
  /-- `str.lower` -/
  lower : String → String
  /-- `str.upper` -/
  upper : String → String
  /-- The same letter for `re.IGNORECASE`. -/
  sameLetter : Char → Char → Bool

/-! ### Here-documents -/

structure HereDocument where
  header : String
  body : String
  deriving DecidableEq, Repr

structure ShellScript where
  text : String
  hereDocuments : List HereDocument := []
  deriving DecidableEq, Repr

/-- A here-document that a line opens: its delimiter, and whether tabs are stripped. -/
structure HereDelimiter where
  delimiter : List Char
  stripTabs : Bool
  deriving DecidableEq, Repr

/-- What `_headers` finds in a line: the line with the operators of its here-documents cut out, the
here-documents, the quote that is left open, and whether the line is continued or compound. -/
structure Headers where
  text : List Char := []
  spans : List HereDelimiter := []
  quote : Option Char
  continued : Bool := false
  compound : Bool := false
  deriving DecidableEq, Repr

/-- ` \t;|&<>()` -/
def isBreak (c : Char) : Bool := c ∈ " \t;|&<>()".toList

/-- `"0123456789"` -/
def isFdDigit (c : Char) : Bool := c ∈ "0123456789".toList

/-- What a backslash escapes in double quotes. -/
def escapable (c : Char) : Bool := c ∈ "\"\\$\x60".toList

/-- `_delimiter` from its opening quote; `escaped` once a backslash was passed. -/
def delimiterFrom (quote : Char) : Bool → List Char → Except String (List Char × List Char)
  | _, [] => .error "Here-document delimiter quoting is incomplete"
  | true, c :: rest => (delimiterFrom quote false rest).map fun v => (c :: v.1, v.2)
  | false, c :: rest =>
    if c = quote then
      if rest.head?.all isBreak then .ok ([], rest)
      else .error "Here-document delimiters must be one quoted literal word"
    else if quote = '"' ∧ c = '\\' ∧ rest.head?.any escapable then delimiterFrom quote true rest
    else (delimiterFrom quote false rest).map fun v => (c :: v.1, v.2)

/-- `_delimiter` -/
def delimiter : List Char → Except String (List Char × List Char)
  | c :: rest =>
    if Shlex.isQuote c then delimiterFrom c false rest
    else .error "Here-document delimiters must be quoted to disable shell expansion"
  | [] => .error "Here-document delimiters must be quoted to disable shell expansion"

/-- The line up to a here-document, without the number of its descriptor. -/
def dropDescriptor (text : List Char) : List Char :=
  let before := (text.reverse.dropWhile isFdDigit).reverse
  if before.getLast?.all fun c => c = ' ' || c = '\t' then before else text

/-- The loop of `_headers`, with `fuel` for at least the rest of the line. The text so far ends in
the character before the rest. -/
def headersFrom : ℕ → Headers → Bool → List Char → Except String Headers
  | 0, found, _, _ => .ok found
  | _, found, _, [] => .ok found
  | fuel + 1, found, wordStart, c :: rest =>
    let passed := { found with text := found.text ++ [c] }
    if found.quote = some '\'' then
      headersFrom fuel (if c = '\'' then { passed with quote := none } else passed) wordStart rest
    else if c = '\\' then
      headersFrom fuel
        { passed with text := passed.text ++ rest.take 1, continued := rest = [] } false rest.tail
    else if found.quote = some '"' then
      headersFrom fuel (if c = '"' then { passed with quote := none } else passed) wordStart rest
    else if Shlex.isQuote c then headersFrom fuel { passed with quote := some c } false rest
    else if c = '#' ∧ wordStart then .ok { found with text := found.text ++ c :: rest }
    else
      let compound := found.compound || c ∈ ";|()".toList ||
        (c = '&' && found.text.getLast?.all fun d => d ≠ '<' && d ≠ '>')
      if c = '<' ∧ rest.head? = some '<' then
        if rest.tail.head? = some '<' then
          .error "Here-strings cannot be inspected; use a quoted here-document"
        else do
          let stripTabs := rest.tail.head? = some '-'
          let after := if stripTabs then rest.tail.tail else rest.tail
          let (value, after) ← delimiter (after.dropWhile fun d => d = ' ' || d = '\t')
          headersFrom fuel
            { found with
              text := dropDescriptor found.text ++ [' ']
              spans := found.spans ++ [⟨value, stripTabs⟩]
              compound := compound }
            false after
      else headersFrom fuel { passed with compound := compound } (isBreak c) rest

/-- `_headers` -/
def headers (line : List Char) (quote : Option Char) : Except String Headers :=
  headersFrom line.length { quote := quote } true line

/-- The lines of a here-document and the lines after its delimiter. -/
def takeBody (span : HereDelimiter) :
    List (List Char) → Except String (List (List Char) × List (List Char))
  | [] => .error "Here-document closing delimiter is missing"
  | line :: rest =>
    let content := if span.stripTabs then line.dropWhile (· = '\t') else line
    if content = span.delimiter then .ok ([], rest)
    else (takeBody span rest).map fun v => (content :: v.1, v.2)

/-- The bodies of the here-documents of a line, and the lines after them. -/
def takeBodies :
    List HereDelimiter → List (List Char) →
      Except String (List (List (List Char)) × List (List Char))
  | [], lines => .ok ([], lines)
  | span :: spans, lines => do
    let (body, lines) ← takeBody span lines
    let (bodies, lines) ← takeBodies spans lines
    return (body :: bodies, lines)

/-- `"\n".join(lines)` -/
def joinLines (lines : List (List Char)) : String := String.ofList (['\n'].intercalate lines)

/-- The loop of `parse_quoted_heredocs`, with `fuel` for at least the number of lines: the lines of
the text, and the documents. -/
def heredocsFrom : ℕ → Option Char → List (List Char) →
    Except String (List (List Char) × List HereDocument)
  | 0, _, _ => .ok ([], [])
  | _, _, [] => .ok ([], [])
  | fuel + 1, quote, line :: rest => do
    let found ← headers line quote
    if found.spans ≠ [] ∧ (found.quote.isSome ∨ found.continued ∨ found.compound) then
      .error "Here-document headers must contain one complete foreground command"
    else
      let (bodies, after) ← takeBodies found.spans rest
      let (output, documents) ← heredocsFrom fuel found.quote after
      return (found.text :: List.replicate (rest.length - after.length) [] ++ output,
        bodies.map (fun body => ⟨String.ofList found.text, joinLines body⟩) ++ documents)

/-- `parse_quoted_heredocs` -/
def parseQuotedHeredocs (script : String) : Except String ShellScript :=
  let lines := script.toList.splitOn '\n'
  (heredocsFrom lines.length none lines).map fun v => ⟨joinLines v.1, v.2⟩

/-! ### Literal scripts -/

variable (u : Tables)

/-- `_hidden` -/
def hidden (construct : String) (strict : Bool) : String :=
  if strict then construct ++ " is forbidden" else construct ++ " requires approval"

/-- The characters between two of `mark`, at the head of a text. -/
def enclosed (mark : Char) (text : List Char) : Bool :=
  let inner := text.takeWhile fun c => c ≠ mark && !u.isSpace c
  inner ≠ [] && (text.drop inner.length).head? = some mark

/-- `re.search(r"%[^%\s]+%|![^!\s]+!|%[0-9*]", script)` -/
def hasCmdVariable : List Char → Bool
  | [] => false
  | c :: rest =>
    (c = '%' && (enclosed u '%' rest || rest.head?.any fun d => d ∈ "0123456789*".toList)) ||
      (c = '!' && enclosed u '!' rest) || hasCmdVariable rest

/-- `re.match(r"\{[^{}\s]*(?:,|\.\.)[^{}\s]*\}", text)`, after the brace. -/
def isBraceExpansion (text : List Char) : Bool :=
  let inner := text.takeWhile fun c => c ≠ '\x7b' && c ≠ '\x7d' && !u.isSpace c
  (text.drop inner.length).head? = some '\x7d' &&
    (inner.contains ',' || isSubstring "..".toList inner)

/-- The state of the scanner: the quote it is in, whether a word may start, and whether it is in a
comment. -/
structure ScanState where
  quote : Option Char := none
  wordStart : Bool := true
  comment : Bool := false
  deriving DecidableEq, Repr

/-- `" \t…;|&()<>=:"`: what the scanner takes a word to start after. -/
def startsWord (c : Char) : Bool := u.isSpace c || c ∈ ";|&()<>=:".toList

/-- The escape character of a dialect. -/
def escapeChar : Dialect → Char
  | .cmd => '^'
  | .powershell => '\x60'
  | .posix => '\\'

/-- The checks of the scanner on a character that is neither quoted, escaped nor in a comment, or
that stands in double quotes. -/
def refused (dialect : Dialect) (strict : Bool) (s : ScanState) (c : Char) (rest : List Char) :
    Option String :=
  let following := rest.head?
  if dialect ≠ .cmd ∧ c = '$' ∧ following = some '(' then
    some (hidden "Command substitution" strict)
  else if dialect ≠ .cmd ∧ c = '$' ∧ strict then
    some "Environment and shell variable expansion is forbidden; quote or escape literal $"
  else if dialect = .posix ∧ c = '\x60' then some (hidden "Command substitution" strict)
  else if s.quote ≠ none then none
  else if c = '<' ∧ following = some '<' then
    some (if strict then "Here-documents and here-strings are forbidden; use literal paths"
      else "Here-strings and unquoted here-documents require approval")
  else if (c = '<' ∨ c = '>') ∧ following = some '(' then
    some (hidden "Process substitution" strict)
  else if strict ∧ c ∈ "*?[".toList then
    some "Wildcard expansion is forbidden; quote or escape literal filename characters"
  else if strict ∧ dialect ≠ .cmd ∧ c = '~' ∧ s.wordStart then
    some "Home-directory expansion is forbidden; use a literal relative or absolute path"
  else if strict ∧ c = '\x7b' ∧ isBraceExpansion u rest then
    some "Brace expansion is forbidden; use literal paths"
  else none

/-- The loop of `literal_script_reason`. -/
def literalFrom (dialect : Dialect) (strict : Bool) : ScanState → List Char → Option String
  | s, [] => if s.quote.isSome then some (hidden "Unterminated shell quoting" strict) else none
  | s, c :: rest =>
    if s.comment ∧ c ≠ '\n' then literalFrom dialect strict s rest
    else if s.quote = some '\'' then
      match decide (c = '\''), rest with
      | true, '\'' :: after =>
        if dialect = .powershell then literalFrom dialect strict s after
        else literalFrom dialect strict { s with quote := none } ('\'' :: after)
      | true, after => literalFrom dialect strict { s with quote := none } after
      | false, after => literalFrom dialect strict s after
    else if c = escapeChar dialect ∧ (s.quote = none ∨ dialect ≠ .cmd) then
      match rest with
      | [] => some (hidden "Incomplete shell escaping" strict)
      | d :: after =>
        if dialect = .posix ∧ s.quote = some '"' ∧ d ∉ "$\x60\"\\\n".toList then
          literalFrom dialect strict s (d :: after)
        else literalFrom dialect strict { s with wordStart := false, comment := false } after
    else if c = '"' ∨ (c = '\'' ∧ dialect ≠ .cmd) then
      let quote := if s.quote = none then some c else if s.quote = some c then none else s.quote
      literalFrom dialect strict ⟨quote, false, false⟩ rest
    else
      match refused u dialect strict s c rest with
      | some reason => some reason
      | none =>
        if s.quote ≠ none then literalFrom dialect strict s rest
        else if c = '#' ∧ s.wordStart ∧ dialect ≠ .cmd then
          literalFrom dialect strict ⟨none, true, true⟩ rest
        else literalFrom dialect strict ⟨none, startsWord u c, false⟩ rest

/-- `literal_script_reason` -/
def literalScriptReason (script : String) (dialect : Dialect) (strict : Bool) : Option String :=
  match dialect with
  | .posix =>
    match parseQuotedHeredocs script with
    | .error message => some message
    | .ok parsed =>
      if strict ∧ parsed.hereDocuments ≠ [] then
        some "Here-documents are forbidden for deletion commands; use literal paths"
      else literalFrom u dialect strict {} parsed.text.toList
  | _ =>
    if strict ∧ dialect = .cmd ∧ hasCmdVariable u script.toList then
      some "Environment variable expansion is forbidden"
    else literalFrom u dialect strict {} script.toList

end EvernightAI.Shell

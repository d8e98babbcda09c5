import EvernightAI.Tool.ShellText

/-!
# The syntax of a script

`parse_script` turns the tree that the grammar gives for a script into a `Syntax`: the commands with
their words, the operators between them, the redirections, and a reason for everything that it does
not know. The tree itself is taken as given (`Grammar`).

`Syntax.nodes` lists the nodes of a tree, each before its children.
-/

namespace EvernightAI.Shell

/-- A word of a command; `literal` is its value, if the text alone says what it is. -/
structure Word where
  literal : Option String
  raw : String
  hasGlob : Bool := false
  deriving DecidableEq, Repr

/-- `Syntax` -/
inductive Syntax
  | node (kind : String) (operators : List String) (body : Option String) (children : List Syntax)
      (argv : List Word) (assignments : List String) (redirects : List (String × Word))
      (stdin : Bool) (unknown : List String)

namespace Syntax

def kind : Syntax → String
  | node kind .. => kind

def operators : Syntax → List String
  | node _ operators .. => operators

def body : Syntax → Option String
  | node _ _ body .. => body

def children : Syntax → List Syntax
  | node _ _ _ children .. => children

def argv : Syntax → List Word
  | node _ _ _ _ argv .. => argv

def assignments : Syntax → List String
  | node _ _ _ _ _ assignments .. => assignments

def redirects : Syntax → List (String × Word)
  | node _ _ _ _ _ _ redirects .. => redirects

def stdin : Syntax → Bool
  | node _ _ _ _ _ _ _ stdin _ => stdin

/-- `opaque` -/
def unknown : Syntax → List String
  | node _ _ _ _ _ _ _ _ unknown => unknown

/-- A node that is a command. -/
def isCommand (syntx : Syntax) : Bool := syntx.argv ≠ [] || syntx.assignments ≠ []

mutual

/-- The nodes of a tree, each before its children. -/
def nodes : Syntax → List Syntax
  | node kind operators body children argv assignments redirects stdin unknown =>
    node kind operators body children argv assignments redirects stdin unknown :: nodesOf children

/-- The nodes of several trees. -/
def nodesOf : List Syntax → List Syntax
  | [] => []
  | child :: rest => child.nodes ++ nodesOf rest

end

/-- `Syntax.commands` -/
def commands (syntx : Syntax) : List Syntax := syntx.nodes.filter isCommand

/-- `Syntax.reasons` -/
def reasons (syntx : Syntax) : List String := syntx.nodes.flatMap unknown

/-- `Syntax.shell_bodies` -/
def shellBodies (syntx : Syntax) : List String :=
  if syntx.commands.any fun command => command.stdin && command.argv.head?.any fun word =>
      ["sh", "bash", "dash", "zsh", "/bin/sh", "/bin/bash"].any fun name =>
        word.literal = some name then
    syntx.nodes.filterMap body
  else []

mutual

/-- `cmd.stdin = True` for every command of a tree. -/
def feed : Syntax → Syntax
  | node kind operators body children argv assignments redirects stdin unknown =>
    node kind operators body (feedAll children) argv assignments redirects
      (stdin || argv ≠ [] || assignments ≠ []) unknown

def feedAll : List Syntax → List Syntax
  | [] => []
  | child :: rest => child.feed :: feedAll rest

end

end Syntax

/-- A node of the grammar's tree, with the name of the field it fills in its parent. -/
inductive Node
  | mk (type text : String) (field : Option String) (named : Bool) (children : List Node)

namespace Node

def type : Node → String
  | mk type .. => type

/-- `raw` -/
def text : Node → String
  | mk _ text .. => text

def field : Node → Option String
  | mk _ _ field .. => field

def named : Node → Bool
  | mk _ _ _ named _ => named

def children : Node → List Node
  | mk _ _ _ _ children => children

/-- `named_children` -/
def namedChildren (node : Node) : List Node := node.children.filter named

/-- `child_by_field_name` -/
def childByField (node : Node) (name : String) : Option Node :=
  node.children.find? fun child => child.field = some name

mutual

/-- `descendants` -/
def descendants : Node → List Node
  | mk type text field named children => mk type text field named children :: descendantsOf children

/-- The descendants among several nodes that are named and no bodies of here-documents. -/
def descendantsOf : List Node → List Node
  | [] => []
  | child :: rest =>
    (if child.named && child.type ≠ "heredoc_body" then child.descendants else []) ++
      descendantsOf rest

end

end Node

/-- The grammar of scripts: the root of the tree of a script, and whether it has an error. -/
abbrev Grammar := String → Node × Bool

/-! ### Words -/

/-- `_has_pattern` -/
def hasPatternFrom : Option Char → Bool → List Char → Bool
  | _, _, [] => false
  | quote, true, _ :: rest => hasPatternFrom quote false rest
  | quote, false, c :: rest =>
    if c = '\\' ∧ quote ≠ some '\'' then hasPatternFrom quote true rest
    else if Shlex.isQuote c then
      hasPatternFrom (if quote = some c then none else if quote = none then some c else quote) false
        rest
    else if quote = none ∧ c ∈ "*?[]\x7b\x7d~".toList then true
    else hasPatternFrom quote false rest

/-- The types of nodes that a word may be made of. -/
def knownTypes : List String :=
  ["word", "string", "raw_string", "concatenation", "number", "simple_expansion", "expansion",
    "variable_name", "special_variable_name", "string_content", "variable_assignment"]

/-- The types of nodes whose value is not in the text. -/
def expansionTypes : List String :=
  ["expansion", "simple_expansion", "command_substitution", "process_substitution",
    "arithmetic_expansion", "brace_expression"]

/-- `word` -/
def word (node : Node) : Word where
  literal :=
    let dynamic := node.descendants.any fun n => n.type ∉ knownTypes || n.type ∈ expansionTypes
    match Shlex.split node.text with
    | .ok [value] => if dynamic then none else some value
    | _ => none
  raw := node.text
  hasGlob := hasPatternFrom none false node.text.toList

/-! ### Statements -/

variable (u : Tables)

/-- `text.split(needle, 1)[0]` -/
def beforeFirst (needle : List Char) : List Char → List Char
  | [] => []
  | c :: rest => if needle.isPrefixOf (c :: rest) then [] else c :: beforeFirst needle rest

/-- What a redirection adds to its statement. -/
structure Redirection where
  redirects : List (String × Word) := []
  unknown : List String := []
  stdin : Bool := false
  body : Option String := none

/-- The branches of `visit` for redirections. -/
def redirection (node : Node) : Redirection :=
  if node.type = "file_redirect" then
    match node.childByField "destination" with
    | none => { unknown := ["Unsupported redirection"] }
    | some target =>
      let operator := u.strip (String.ofList (beforeFirst target.text.toList node.text.toList))
      if operator ∉ ["<", ">", ">>", "1>", "1>>", "2>", "2>>"] then
        { unknown := ["Unsupported redirection"] }
      else { redirects := [(operator, word target)], stdin := operator = "<" }
  else if node.type = "heredoc_redirect" then
    let start := node.namedChildren.find? fun n => n.type = "heredoc_start"
    { stdin := true
      unknown :=
        if start.any fun n => n.text.toList.head?.any Shlex.isQuote then []
        else ["Unquoted heredoc"]
      body := (node.namedChildren.find? fun n => n.type = "heredoc_body").map Node.text }
  else { unknown := ["Here-string"], stdin := true }

/-- The types of redirections. -/
def redirectTypes : List String := ["file_redirect", "heredoc_redirect", "herestring_redirect"]

/-- The types of nodes whose children are statements. -/
def statementTypes : List String :=
  ["program", "list", "subshell", "pipeline", "redirected_statement"]

/-- The types of nodes that are arguments. -/
def argumentTypes : List String :=
  ["word", "string", "raw_string", "concatenation", "number", "simple_expansion", "expansion"]

/-- The name that an assignment sets. -/
def assignedName (node : Node) : List String :=
  if node.type = "variable_assignment" then
    ((node.childByField "name").map Node.text).toList
  else []

/-- What every node is checked for at its end. -/
def substitutionReason (node : Node) : List String :=
  if node.descendants.any fun n =>
      n.type ∈ ["command_substitution", "process_substitution", "arithmetic_expansion"] then
    ["Substitution or arithmetic requires approval"]
  else []

/-- The branch of `visit` for a command. -/
def visitCommand (node : Node) (operators : List String) (stdin : Bool) : Syntax :=
  .node node.type operators none []
    (node.namedChildren.filterMap fun child =>
      if child.type = "command_name" then some (word (child.namedChildren.headD child))
      else if child.type ∈ argumentTypes then some (word child)
      else none)
    (node.namedChildren.flatMap assignedName) [] stdin
    ((node.namedChildren.filterMap fun child =>
      if child.type = "variable_assignment" ∨ child.type = "command_name" ∨
        child.type ∈ argumentTypes then none
      else some s!"Unsupported command node: {child.type}") ++ substitutionReason node)

/-- The branches of `visit` for a node without statements. -/
def visitLeaf (node : Node) (operators : List String) (stdin : Bool) : Syntax :=
  if node.type = "command" then visitCommand node operators stdin
  else if node.type = "variable_assignment" then
    .node node.type operators none [] [] (assignedName node) [] stdin
      ((if node.descendants.any fun n =>
          n.type ∈ ["array", "subscript", "arithmetic_expansion"] then
        ["Unsupported assignment syntax"] else []) ++ substitutionReason node)
  else
    let name := String.ofList
      ((node.text.toList.dropWhile u.isSpace).takeWhile fun c => !u.isSpace c)
    if node.type = "declaration_command" ∨ node.type = "unset_command" then
      .node node.type operators none [] (⟨some name, name, false⟩ :: node.namedChildren.map word)
        (node.namedChildren.flatMap assignedName) [] stdin (substitutionReason node)
    else .node node.type operators none [] [] [] [] stdin (substitutionReason node)

/-- The types of nodes that `visitLeaf` knows. -/
def leafTypes : List String :=
  ["command", "variable_assignment", "declaration_command", "unset_command", "comment"]

/-- A statement from its children and its redirections. -/
def visitStatement (node : Node) (operators : List String) (stdin : Bool) (children : List Syntax) :
    Syntax :=
  let found := (node.namedChildren.filter fun n => n.type ∈ redirectTypes).map (redirection u)
  let stdin := stdin || found.any (·.stdin)
  .node node.type operators none (if stdin then Syntax.feedAll children else children) [] []
    (found.flatMap (·.redirects)) stdin
    (found.flatMap (·.unknown) ++
      (if node.children.any fun n => n.type = "&" then ["Background shell syntax"] else []) ++
      substitutionReason node)

mutual

/-- `visit` -/
def visit : Node → Bool → Syntax
  | .mk type text field named children, stdin =>
    let node : Node := .mk type text field named children
    let operators := children.filterMap fun child =>
      if child.type ∈ ["&&", "||", "|", "|&", ";", "&"] then some child.type else none
    if type ∈ statementTypes then
      visitStatement u node operators stdin (visitChildren (type = "pipeline") stdin 0 children)
    else if type ∈ leafTypes then visitLeaf u node operators stdin
    else
      .node type operators none (visitAll stdin children) [] [] [] stdin
        (s!"Unsupported syntax: {type}" :: substitutionReason node)

/-- The named children of a statement, `index` of them passed: the bodies of here-documents stand
among them, and in a pipeline all but the first are fed. -/
def visitChildren (pipeline stdin : Bool) : ℕ → List Node → List Syntax
  | _, [] => []
  | index, child :: rest =>
    if child.named then
      (if child.type ∈ redirectTypes then
        ((redirection u child).body.map fun body =>
          Syntax.node "heredoc" [] (some body) [] [] [] [] false []).toList
      else [visit child (stdin || (pipeline && 0 < index))]) ++
        visitChildren pipeline stdin (index + 1) rest
    else visitChildren pipeline stdin index rest

def visitAll (stdin : Bool) : List Node → List Syntax
  | [] => []
  | child :: rest => (if child.named then [visit child stdin] else []) ++ visitAll stdin rest

end

/-- `parse_script` -/
def parseScript (grammar : Grammar) : ShellCommand → Syntax
  | .parts words =>
    .node "command" [] none [] (words.map fun part => ⟨some part, part, false⟩) [] [] false []
  | .script text =>
    match visit u (grammar text).1 false with
    | .node kind operators body children argv assignments redirects stdin unknown =>
      .node kind operators body children argv assignments redirects stdin
        (if (grammar text).2 then unknown ++ ["Shell parse error"] else unknown)

end EvernightAI.Shell

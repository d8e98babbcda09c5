import EvernightAI.Tool.FindEffect
import EvernightAI.Tool.ShellText

/-!
# What a command may run, by its text

The deny-side scanners of the command policy. They find the commands in a script or an argument
list, those handed to wrappers, to `find` and to shells included, and from them decide whether a
command may delete files, whether it hides what it runs, and whether a deletion is literal enough to
be put up for approval.

A scanner that recurses into nested commands has as much `fuel` as the interpreter has frames left;
`none` stands for a `ValueError` or a `RecursionError`, which the callers treat alike.
-/

namespace EvernightAI.Shell

/-! ### Names -/

/-- `DELETE_COMMANDS` -/
def deleteCommands : List String :=
  ["rm", "rmdir", "unlink", "shred", "del", "erase", "remove-item", "ri"]

/-- `WRAPPERS` -/
def wrappers : List String := ["sudo", "env", "command", "exec", "nohup", "nice", "xargs"]

/-- `SHELL_COMMANDS` -/
def shellNames : List String := ["bash", "sh", "dash", "zsh", "fish", "cmd", "powershell", "pwsh"]

/-- `SHELL_SCRIPT_FLAGS` -/
def scriptFlags : List String := ["-c", "-lc", "-command", "/c", "--command"]

/-- The parts of a Windows path after its drive and root. -/
def windowsTail (path : List Char) : List Char :=
  match path.map fun c => if c = '/' then '\\' else c with
  | '\\' :: '\\' :: rest =>
    -- `\\server\share\…` or `\\?\UNC\server\share\…`
    let rest := if ((rest.take 6).map Char.toUpper) = "?\\UNC\\".toList then rest.drop 6 else rest
    ((rest.dropWhile (· ≠ '\\')).drop 1).dropWhile (· ≠ '\\')
  | c :: ':' :: rest => if c = '\\' then ':' :: rest else rest
  | rest => rest

/-- `PureWindowsPath(value).name` -/
def windowsName (value : String) : String :=
  ((((windowsTail value.toList).splitOn '\\').filter fun part => part ≠ [] ∧ part ≠ ['.']).map
    String.ofList).getLast?.getD ""

/-- `value.removesuffix(".exe")` -/
def withoutExe (value : String) : String :=
  if ".exe".toList.reverse.isPrefixOf value.toList.reverse then
    String.ofList (value.toList.take (value.toList.length - 4))
  else value

variable (u : Tables)

/-- `executable_name` -/
def executableName (value : String) : String := withoutExe (u.lower (windowsName value))

/-- `re.match(r"^[A-Za-z_][A-Za-z_0-9]*=", text)` -/
def isAssignment (text : List Char) : Bool :=
  text.head?.any nameStart && ((text.tail.dropWhile nameChar).head? = some '=')

/-! ### Tokens and commands -/

/-- The operators of `_shell_tokens`. -/
def operators : List Char := ";|&<>()".toList

/-- What stands for a character that is quoted or escaped: an operator is protected. -/
def protectedChar (c : Char) : List Char :=
  match operators.findIdx? (· = c) with
  | some index => ['\x00', Char.ofNat ('0'.toNat + index)]
  | none => [c]

/-- The protected operators of a token. -/
def unprotected : List Char → List Char
  | [] => []
  | c :: rest =>
    match rest with
    | [] => [c]
    | d :: after =>
      if c = '\x00' then
        match operators[d.toNat - '0'.toNat]? with
        | some operator => if '0'.toNat ≤ d.toNat then operator :: unprotected after
            else c :: unprotected (d :: after)
        | none => c :: unprotected (d :: after)
      else c :: unprotected (d :: after)

/-- The loop of `_shell_tokens` over the script. -/
def protectFrom : Option Char → Bool → List Char → List Char
  | _, _, [] => []
  | quote, true, c :: rest => protectedChar c ++ protectFrom quote false rest
  | quote, false, c :: rest =>
    if c = '\\' ∧ quote ≠ some '\'' then c :: protectFrom quote true rest
    else
      let quote :=
        if Shlex.isQuote c ∧ (quote = none ∨ quote = some c) then
          if quote.isSome then none else some c
        else quote
      (if quote.isSome then protectedChar c else [c]) ++ protectFrom quote false rest

/-- `_shell_tokens` -/
def shellTokens (script : List Char) : Except String (List (String × Bool)) :=
  (Shlex.tokens operators (protectFrom none false script)).map fun tokens =>
    tokens.map fun token =>
      (String.ofList (unprotected token), token ≠ [] ∧ token.all fun c => c ∈ operators)

/-- `re.sub(r"\\\r?\n", "", script)` -/
def joinContinued : List Char → List Char
  | [] => []
  | '\\' :: '\n' :: rest => joinContinued rest
  | '\\' :: '\r' :: '\n' :: rest => joinContinued rest
  | c :: rest => c :: joinContinued rest

/-- The redirections that `shell_commands` passes over with their targets. -/
def passedRedirections : List String := ["<", ">", ">>", "<&", ">&", "&>", "&>>"]

/-- The loop of `shell_commands` with `ignore_redirections`. -/
def commandsFrom : List String → Bool → List (String × Bool) → List (List String)
  | current, _, [] => if current = [] then [] else [current]
  | current, true, _ :: rest => commandsFrom current false rest
  | current, false, (token, operator) :: rest =>
    if operator ∧ token ∈ passedRedirections then commandsFrom current true rest
    else if operator then
      (if current = [] then [] else [current]) ++ commandsFrom [] false rest
    else commandsFrom (current ++ [token]) false rest

/-- `shell_commands(script, ignore_redirections=True)` -/
def shellCommands (script : String) : Except String (List (List String)) := do
  let parsed ← parseQuotedHeredocs script
  let joined := joinContinued parsed.text.toList
  let tokens ← shellTokens (joined.flatMap fun c => if c = '\n' then " ; ".toList else [c])
  return commandsFrom [] false tokens

/-- The options of a wrapper that take a value. -/
def valuedOptions (wrapper : String) : List String :=
  if wrapper = "sudo" then ["-u", "--user", "-g", "--group", "-h", "--host", "-p", "--prompt"]
  else if wrapper = "env" then ["-u", "--unset", "-C", "--chdir"]
  else if wrapper = "nice" then ["-n", "--adjustment"]
  else []

/-- The inner loop of `unwrap_command`, after a wrapper with these options. -/
def dropOptions (valued : List String) : List String → List String
  | [] => []
  | [option] => if isDashed option ∨ '=' ∈ option.toList then [] else [option]
  | option :: value :: rest =>
    if isDashed option ∨ '=' ∈ option.toList then
      if option ∈ valued then dropOptions valued rest else dropOptions valued (value :: rest)
    else option :: value :: rest

/-- The outer loop of `unwrap_command`, with `fuel` for at least the words. -/
def unwrapFrom : ℕ → List String → List String
  | 0, command => command
  | _, [] => []
  | fuel + 1, name :: rest =>
    let wrapper := executableName u name
    if wrapper ∉ wrappers then name :: rest
    else if wrapper = "command" ∧ (rest.head? = some "-v" ∨ rest.head? = some "-V") then []
    else unwrapFrom fuel (dropOptions (valuedOptions wrapper) rest)

/-- `unwrap_command` -/
def unwrapCommand (command : List String) : List String :=
  let command := command.dropWhile fun part => isAssignment part.toList
  unwrapFrom u command.length command

/-- The word after the first script flag. -/
def flaggedScript : List String → Option String
  | flag :: script :: rest =>
    if u.lower flag ∈ scriptFlags then some script else flaggedScript (script :: rest)
  | _ => none

/-! ### Inspected commands -/

/-- The commands handed on by one command: its words without wrappers, and what `inspect` finds in
the commands of `find` and in the script of a shell. -/
def handedOn (inspect : ShellCommand → Option (List (List String))) (found : List (List String))
    (parts : List String) : Option (List (List String)) := do
  let found := if parts = [] then found else found ++ [parts]
  let unwrapped := unwrapCommand u parts
  if unwrapped = [] then return found
  let found := if unwrapped ∈ found then found else found ++ [unwrapped]
  let name := executableName u (unwrapped.headD "")
  let nested ←
    if name = "find" then
      ((findExecutionCommands unwrapped.tail).getD []).mapM fun command => inspect (.parts command)
    else pure []
  let script ←
    if name ∈ shellNames then
      (flaggedScript u unwrapped.tail).mapM fun text => inspect (.script text)
    else pure none
  return found ++ nested.flatten ++ script.getD []

/-- `_shell_heredoc_bodies` -/
def shellHeredocBodies (inspect : ShellCommand → Option (List (List String)))
    (documents : List HereDocument) : Option (List String) := do
  let bodies ← documents.mapM fun document => do
    let commands ← inspect (.script document.header)
    return if commands.any fun parts =>
        executableName u (parts.headD "") ∈ shellNames ||
          (executableName u (parts.headD "") ∈ ["uv", "busybox"] &&
            parts.tail.any fun part => executableName u part ∈ shellNames)
      then some document.body else none
  return bodies.reduceOption

/-- `inspected_commands(command, ignore_redirections=True)` -/
def inspectedCommands : ℕ → ShellCommand → Option (List (List String))
  | 0, _ => none
  | fuel + 1, .parts command => handedOn u (inspectedCommands fuel) [] command
  | fuel + 1, .script script => do
    let parsed ← (parseQuotedHeredocs script).toOption
    let commands ← (shellCommands parsed.text).toOption
    let found ← commands.foldlM (handedOn u (inspectedCommands fuel)) []
    let bodies ← shellHeredocBodies u (inspectedCommands fuel) parsed.hereDocuments
    let nested ← bodies.mapM fun body => inspectedCommands fuel (.script body)
    return found ++ nested.flatten

/-! ### Words in a text -/

/-- The rests of a text after the words, any blanks between them, letters compared by
`re.IGNORECASE`. -/
def afterWords : List (List Char) → List Char → List (List Char)
  | [], text => [text]
  | [word], text =>
    if word.length ≤ text.length ∧ (word.zip text).all fun c => u.sameLetter c.1 c.2 then
      [text.drop word.length]
    else []
  | word :: words, text =>
    if word.length ≤ text.length ∧ (word.zip text).all fun c => u.sameLetter c.1 c.2 then
      let rest := text.drop word.length
      let blanks := (rest.takeWhile u.isSpace).length
      (List.range blanks).flatMap fun n => afterWords words (rest.drop (n + 1))
    else []

/-- The search of `mention_command` for one rule, after the character `before`. -/
def mentionsFrom (rule : List (List Char)) : Option Char → List Char → Bool
  | before, text =>
    (before.all fun c => !(u.isWord c || c = '.' || c = '-')) &&
      (afterWords u rule text).any (fun rest => rest.head?.all fun c => !(u.isWord c || c = '-')) ||
    match text with
    | [] => false
    | c :: rest => mentionsFrom rule (some c) rest

/-- The raw text of a command. -/
def rawText : ShellCommand → String
  | .script text => text
  | .parts words => " ".intercalate words

/-- `mentions_command` -/
def mentionsCommand (command : ShellCommand) (rules : List (List String)) : Bool :=
  rules.any fun rule =>
    rule ≠ [] && mentionsFrom u (rule.map String.toList) none (rawText command).toList

/-- `_mentions_deletion` -/
def mentionsDeletion (command : ShellCommand) : Bool :=
  mentionsCommand u command (deleteCommands.map (fun name => [name]) ++ [["-delete"]])

/-! ### Deletion -/

/-- `re.search(r"%[^%]+%|![^!]+!", name)` -/
def hasDelayedVariable : List Char → Bool
  | [] => false
  | c :: rest =>
    ((c = '%' || c = '!') && (rest.takeWhile (· ≠ c) ≠ [] && rest.contains c)) ||
      hasDelayedVariable rest

/-- `re.match(r"^(?:\$(?:env:)?)?[A-Za-z_][A-Za-z_0-9]*=", name)` -/
def assignsVariable (name : List Char) : Bool :=
  isAssignment name || (name.head? = some '$' && (isAssignment name.tail ||
    ("env:".toList.isPrefixOf name.tail && isAssignment (name.tail.drop 4))))

/-- `_dynamic_name` -/
def dynamicName (name : String) (dialect : Dialect) : Bool :=
  ('$' ∈ name.toList || (dialect = .cmd && hasDelayedVariable name.toList)) &&
    !assignsVariable name.toList

/-- The dialect of the scripts of a shell. -/
def shellDialect (name : String) : Dialect :=
  if name = "cmd" then .cmd else if name = "powershell" ∨ name = "pwsh" then .powershell else .posix

/-- The scripts after the shells among the words. -/
def scriptsFrom : List String → List (String × Dialect)
  | [] => []
  | part :: rest =>
    (if executableName u part ∈ shellNames then
      ((flaggedScript u rest).map fun script =>
        (script, shellDialect (executableName u part))).toList
    else []) ++ scriptsFrom rest

/-- `_shell_scripts` -/
def shellScripts (parts : List String) : List (String × Dialect) :=
  if executableName u (parts.headD "") ∈ shellNames ++ wrappers ++ ["uv", "find", "busybox"] then
    scriptsFrom u parts
  else []

/-- `executable_name(part) in DELETE_COMMANDS` for one of the words. -/
def namesDeletion (parts : List String) : Bool :=
  parts.any fun part => executableName u part ∈ deleteCommands

variable (frames : ℕ)

/-- `contains_deletion`, with the levels of nesting that are left. -/
def containsDeletion : ℕ → ShellCommand → Bool
  | 0, _ => true
  | levels + 1, command =>
    match inspectedCommands u frames command with
    | none => true
    | some commands => commands.any fun parts =>
      let name := executableName u (parts.headD "")
      if name ∈ deleteCommands then true
      else if name = "command" ∧ (parts.tail.head? = some "-v" ∨ parts.tail.head? = some "-V") then
        false
      else if name ∈ ["uv", "busybox", "find", "xargs"] ∧
          ("-delete" ∈ parts ∨ namesDeletion u parts.tail) then true
      else (shellScripts u parts).any fun script => containsDeletion levels (.script script.1)

/-- `opaque_command_reason`, with the levels of nesting that are left. -/
def opaqueCommandReason : ℕ → Dialect → ShellCommand → Option String
  | 0, _, _ => some "Nested shell commands exceed the inspection limit; approval is required"
  | levels + 1, dialect, command =>
    let concealed :=
      match command with
      | .script text => literalScriptReason u text dialect false
      | .parts _ => none
    match concealed with
    | some reason => some reason
    | none =>
      match inspectedCommands u frames command with
      | none => some "Shell syntax could not be inspected; approval is required"
      | some commands =>
        if (command matches .script _) ∧ commands.any fun parts =>
            dynamicName (parts.headD "") dialect then
          some "Dynamic command names require approval"
        else
          let bodies :=
            match command with
            | .script text =>
              if dialect = .posix then
                (((parseQuotedHeredocs text).toOption.bind fun parsed =>
                  shellHeredocBodies u (inspectedCommands u frames)
                    parsed.hereDocuments).getD []).map
                    fun body => (body, Dialect.posix)
              else []
            | .parts _ => []
          (commands.flatMap (shellScripts u) ++ bodies).findSome? fun script =>
            opaqueCommandReason levels script.2 (.script script.1)

/-- The limit of nested inspections. -/
def inspectionLevels : ℕ := 17

/-- `may_delete` -/
def mayDelete (dialect : Dialect) (command : ShellCommand) : Bool :=
  match inspectedCommands u frames command with
  | none => mentionsDeletion u command
  | some _ => containsDeletion u frames inspectionLevels command ||
      ((opaqueCommandReason u frames inspectionLevels dialect command).isSome &&
        mentionsDeletion u command)

/-- The checks of `literal_command_reason` on one command. -/
def literalPartsReason (isScript : Bool) (dialect : Dialect) (parts : List String) :
    Option String :=
  let name := executableName u (parts.headD "")
  if isScript ∧ dynamicName (parts.headD "") dialect then
    some "Command names must be literal so deletion operations can be inspected"
  else if name ∈ wrappers ∧ parts.tail.any fun part => isAssignment part.toList then
    some "Environment variable assignments and overrides are forbidden"
  else if name ∈ ["find", "xargs"] ∧ ("-delete" ∈ parts ∨ namesDeletion u parts.tail ∨
      (name = "find" ∧ ((findExecutionCommands parts.tail).getD []).any fun nested =>
        containsDeletion u frames inspectionLevels (.parts nested))) then
    some "Deletion requires explicit literal paths, not discovered or piped targets"
  else if name ∈ deleteCommands ∧ ¬(if "--" ∈ parts then (parts.dropWhile (· ≠ "--")).tail
      else parts.tail.filter fun part => !isDashed part).any (· ≠ "") then
    some "Deletion requires an explicit relative or absolute path"
  else if name ∈ deleteCommands ∧ "" ∈ parts.tail then some "Deletion paths must not be empty"
  else if name ∈ ["env", "export", "set", "setenv", "unset"] ∨
      isAssignment (parts.headD "").toList then
    some "Environment variable assignments and overrides are forbidden"
  else if dialect = .cmd ∧ name ∈ deleteCommands ∧
      parts.tail.any fun part => '*' ∈ part.toList || '?' ∈ part.toList then
    some "Windows deletion requires literal paths; wildcard targets are forbidden"
  else if name ∈ ["remove-item", "ri"] ∧
      (parts.tail.any fun part => '*' ∈ part.toList || '?' ∈ part.toList) ∧
      "-literalpath" ∉ parts.tail.map u.lower then
    some "PowerShell deletion of special filenames requires -LiteralPath"
  else none

/-- `literal_command_reason`, with the levels of nesting that are left. -/
def literalCommandReason : ℕ → Dialect → ShellCommand → Option String
  | 0, _, _ => some "Nested shell commands exceed the inspection limit"
  | levels + 1, dialect, command =>
    if mayDelete u frames dialect command then
      let concealed :=
        match command with
        | .script text => literalScriptReason u text dialect true
        | .parts _ => none
      match concealed with
      | some reason => some reason
      | none =>
        match inspectedCommands u frames command with
        | none => some "Shell syntax could not be inspected"
        | some commands => commands.findSome? fun parts =>
          (literalPartsReason u frames (command matches .script _) dialect parts).or
            ((shellScripts u parts).findSome? fun script =>
              literalCommandReason levels script.2 (.script script.1))
    else none

end EvernightAI.Shell

import EvernightAI.Lib.HostTree
import EvernightAI.Tool.ShellScanners
import EvernightAI.Tool.ShellSyntax

/-!
# The shell command policy

`ShellCommandPolicy.evaluate` on a POSIX host: a command is rejected, put up for approval or
allowed. The early checks look at the text and at the environment; then every command of the script
adds the effects that its declaration grants, and a nested command those that a policy of its own
finds.

A check is a `Check` on the `Inspection` so far. What a nested command is found to do comes in as
`call`, the closure `child_effects`, so the policy of one level is written without the policies
below it; `evaluate` ties them together, with the levels of nesting that are left.
-/

namespace EvernightAI.Shell

open PosixPath

/-- `approval_level` -/
inductive ApprovalLevel
  | readOnly | workspaceWrite | trustedDev
  deriving DecidableEq, Repr

/-- `Decision` -/
structure Decision where
  kind : ShellPolicyKind
  reason : Option String := none
  stdinIsCode : Bool := true
  effects : Finset Effect := ∅
  deriving DecidableEq

/-- `ShellCommandPolicy`, with its rules in the order in which they are gone through. -/
structure ShellCommandPolicy where
  level : ApprovalLevel := .readOnly
  trusted : List String := []
  blocked : List String := []
  root : PurePath
  cwd : PurePath
  allowedEnvKeys : Option (List String) := none

/-- What the policy depends on. -/
structure PolicyHost where
  files : HostTree
  tables : Tables
  grammar : Grammar
  /-- The frames that the interpreter has left. -/
  frames : ℕ
  /-- `os.environ.get("PATH", os.defpath)` -/
  path : String

/-- `dangerous_env_key` -/
def dangerousEnvKey (u : Tables) (key : String) : Bool :=
  let key := u.upper key
  ["PATH", "BASH_ENV", "ENV", "IFS", "NODE_OPTIONS", "CDPATH", "SHELLOPTS", "BASHOPTS",
    "GLOBIGNORE", "PROMPT_COMMAND", "PS4", "RUBYOPT", "PERL5OPT", "ZDOTDIR", "HOME",
    "XDG_CONFIG_HOME", "SHELL", "PAGER", "EDITOR", "VISUAL", "LESSOPEN", "LESSCLOSE", "PERL5LIB", "RUBYLIB",
    "BASH_LOADABLES_PATH"].contains key ||
  ["LD_", "DYLD_", "PYTHON", "GIT_", "BASH_FUNC_", "NPM_CONFIG_", "CARGO_", "RUSTC_"].any
    (fun start => start.toList.isPrefixOf key.toList) ||
  "_CONFIG_PATH".toList.reverse.isPrefixOf key.toList.reverse

/-- The name of an effect. -/
def effectName : Effect → String
  | .read => "READ"
  | .workspaceWrite => "WORKSPACE_WRITE"
  | .network => "NETWORK"
  | .projectCode => "PROJECT_CODE"
  | .publish => "PUBLISH"
  | .delete => "DELETE"
  | .system => "SYSTEM"
  | .unknown => "UNKNOWN"

/-- `", ".join(sorted(effects))` -/
def effectNames (effects : Finset Effect) : String :=
  ", ".intercalate ((([.delete, .network, .projectCode, .publish, .read, .system, .unknown,
    .workspaceWrite] : List Effect).filter (· ∈ effects)).map effectName)

/-- The effects that a level allows. -/
def ApprovalLevel.allowed : ApprovalLevel → Finset Effect
  | .readOnly => {.read}
  | .workspaceWrite => {.read, .workspaceWrite}
  | .trustedDev => {.read, .workspaceWrite, .network, .projectCode}

/-- What has been found about a command so far. -/
structure Inspection where
  cwd : PurePath
  effects : Finset Effect := ∅
  rejections : List Decision := []
  inputCode : Bool := false

/-- A check. -/
abbrev Check := Inspection → Except String Inspection

/-- The effects that a nested command hands on. -/
def Decision.granted (child : Decision) : Finset Effect :=
  if child.effects ≠ ∅ then child.effects
  else if child.kind ≠ .allow then {.unknown} else {.read}

/-- A nested command was evaluated. -/
def Inspection.absorb (s : Inspection) (child : Decision) : Inspection :=
  { s with
    inputCode := s.inputCode || child.stdinIsCode
    rejections := if child.kind = .reject then s.rejections ++ [child] else s.rejections }

/-- `effects.update(effects)` -/
def Inspection.grant (s : Inspection) (effects : Finset Effect) : Inspection :=
  { s with effects := s.effects ∪ effects }

/-- The check that adds effects. -/
def addEffects (effects : Finset Effect) : Check := fun s => .ok (s.grant effects)

/-- Checks one after the other. -/
def inOrder : List Check → Check
  | [] => .ok
  | check :: checks => fun s => (check s).bind (inOrder checks)

namespace ShellCommandPolicy

variable (policy : ShellCommandPolicy) (host : PolicyHost)

/-! ### Commands -/

/-- The options of `uv run` that are passed over. -/
def uvRunOptions : List String :=
  ["--active", "--no-sync", "--no-project", "--frozen", "--locked", "--"]

/-- `_nested` -/
def nested (parts : List String) : Option ShellCommand :=
  let name := parts.headD ""
  match parts with
  | _ :: flag :: script :: _ =>
    if executableName host.tables name ∈ ["sh", "bash", "dash", "zsh"] ∧
        (flag = "-c" ∨ flag = "-lc") then
      some (.script script)
    else wrapped name parts
  | _ => wrapped name parts
where
  /-- The branches for wrappers. -/
  wrapped (name : String) (parts : List String) : Option ShellCommand :=
    if name ∈ ["env", "command", "exec", "nohup", "nice", "xargs"] then
      let nested := unwrapCommand host.tables parts
      if nested ≠ parts ∧ nested ≠ [] then some (.parts nested) else none
    else if parts.take 2 = ["uv", "run"] then
      let rest := (parts.drop 2).dropWhile (· ∈ uvRunOptions)
      if rest = [] then none else some (.parts rest)
    else none

/-- `[w.literal if w.literal is not None else w.raw for w in item.argv]` -/
def literalParts (item : Syntax) : List String := item.argv.map fun w => w.literal.getD w.raw

/-- `commands`, with the levels of nesting that are left. -/
def commands : ℕ → ShellCommand → List (List String)
  | 0, _ => []
  | levels + 1, command =>
    let tree := parseScript host.tables host.grammar command
    let found :=
      tree.shellBodies.flatMap (fun body => commands levels (.script body)) ++
        tree.commands.flatMap fun item =>
          if literalParts item = [] then []
          else literalParts item :: match nested host (literalParts item) with
            | some command => commands levels command
            | none => []
    ((inspectedCommands host.tables host.frames command).getD []).foldl
      (fun found parts => if parts ∈ found then found else found ++ [parts]) found

/-! ### The environment -/

/-- The variables that `env` sets and unsets. -/
def envKeys : List String → List String
  | [] => []
  | part :: rest =>
    (if isAssignment part.toList then [String.ofList (part.toList.takeWhile (· ≠ '='))]
    else if "--unset=".toList.isPrefixOf part.toList then
      [String.ofList (part.toList.drop "--unset=".toList.length)]
    else if part = "-u" ∨ part = "--unset" then rest.head?.toList
    else []) ++ envKeys rest

/-- The variables that a command changes. -/
def changedKeys (item : Syntax) : List String :=
  let parts := item.argv.map fun w => if w.literal.all (· = "") then w.raw else w.literal.getD ""
  item.assignments ++
    if parts.head?.any fun name => name ∈ ["export", "set", "unset"] then
      (parts.tail.filter fun p => !isDashed p).map fun p =>
        String.ofList (p.toList.takeWhile (· ≠ '='))
    else if parts.head? = some "env" then envKeys parts.tail
    else []

/-- `keys.issubset(allowed_env_keys)`, where there are any. -/
def allowsKeys (keys : List String) : Bool :=
  policy.allowedEnvKeys.all fun allowed => keys.all fun key => allowed.contains key

/-! ### Paths and programs -/

/-- A path that the sandbox sees below `/workspace`. -/
def mapped (path : PurePath) : PurePath :=
  if path.root = .slash ∧ path.parts.head? = some "workspace" then
    policy.root.join { root := .relative, parts := path.parts.tail }
  else path

/-- `writes` -/
def writes (cwd path : PurePath) : Bool :=
  (host.files.resolve (cwd.join (policy.mapped path))).IsRelativeTo policy.root

/-- `shutil.which(name, path=base)` -/
def which (name : String) : Option PurePath :=
  if host.path = "" then none
  else ((pieces ':' host.path).map fun dir => (PurePath.parse dir).join (.parse name)).find?
    fun file => host.files.pathExists (host.files.absolute file) &&
      host.files.isExecutable (host.files.absolute file) &&
        !host.files.isDir (host.files.absolute file)

/-- `_base_executable` -/
def baseExecutable (state : Option ShellSessionState) (shell : Bool) (cwd : PurePath)
    (name : String) : Bool :=
  if '/' ∈ name.toList ∨ '\\' ∈ name.toList then false
  else if shell ∧ name ∈ ["cd", "echo", "printf", "pwd", "true", "false", "command"] then true
  else
    let inProject := (cwd :: cwd.parents).takeWhile fun directory =>
      directory.IsRelativeTo policy.root
    if inProject.any fun directory =>
        let candidate := directory.join (.parse (".venv/bin/" ++ name))
        host.files.isFile candidate && host.files.isExecutable candidate then false
    else match which host name with
      | none => false
      | some resolved =>
        if resolved.root = .relative ∨ resolved.IsRelativeTo policy.root ∨
            (host.files.resolve (host.files.absolute resolved)).IsRelativeTo policy.root then false
        else match state.bind fun state => (state.env.get "PATH").map fun path => (state, path) with
          | none => true
          | some (state, path) =>
            let base := match state.basePath with
              | some (entry :: entries) => entry :: entries
              | _ => pieces ':' host.path
            !((pieces ':' path).any fun entry =>
              let directory :=
                if "/workspace/".toList.isPrefixOf entry.toList then
                  policy.root.join
                    (.parse (String.ofList (entry.toList.drop "/workspace/".toList.length)))
                else .parse entry
              entry ∉ base &&
                host.files.isFile (host.files.absolute (directory.join (.parse name))))

/-- `_wildcard` -/
def wildcard (argv : List String) : List String → Except String Bool
  | [] => .ok false
  | rule :: rules =>
    if " *".toList.reverse.isPrefixOf rule.toList.reverse then do
      let parts ← Shlex.split (String.ofList (rule.toList.take (rule.toList.length - 2)))
      if argv.take parts.length = parts then .ok true else wildcard argv rules
    else wildcard argv rules

/-! ### The check of one command -/

variable (call : ShellCommand → Inspection → Except String (Finset Effect × Inspection))

/-- `effects.update(child_effects(nested))` -/
def addChild (command : ShellCommand) : Check := fun s =>
  (call command s).map fun v => v.2.grant v.1

/-- The commands that `_find_effect` evaluates, in order, and whether it refuses the arguments after
them. -/
def findCalls : ℕ → List String → List (List String) × Bool
  | _, [] => ([], false)
  | skip + 1, _ :: rest => findCalls skip rest
  | 0, arg :: rest =>
    match effectItem arg rest with
    | .refused => ([], true)
    | .plain values => findCalls values rest
    | .action command =>
      ((findCalls (command.length + 1) rest).1.cons (discovered command),
        (findCalls (command.length + 1) rest).2)

/-- The calls of `_find_effect`, and what they grant together. -/
def findEffects : List (List String) → Finset Effect → Inspection →
    Except String (Finset Effect × Inspection)
  | [], granted, s => .ok (granted, s)
  | command :: rest, granted, s =>
    (call (.parts command) s).bind fun v => findEffects rest (granted ∪ v.1) v.2

/-- `effects.update(self._find_effect(argv, child_effects))` -/
def findCheck (args : List String) : Check := fun s =>
  (findEffects call (findCalls 0 args).1 {.read} s).map fun v =>
    v.2.grant (if (findCalls 0 args).2 then {.unknown} else v.1)

/-- `SPECS.get(name)` for the first two words or the first. -/
def capability (argv : List String) : Option Spec :=
  (stdinSpec (argv.headD "")).or
    ((spec? (" ".intercalate (argv.take 2))).or (spec? (argv.headD "")))

/-- The command reads code from its input. -/
def readsCode (argv : List String) : Bool :=
  match capability argv with
  | some spec => spec.stdinIsCode
  | none => argv.headD "" ∉ ["find", "command"]

/-- The arguments of `head` and `tail`, with a count for a number. -/
def countArguments (args : List String) : List String :=
  args.flatMap fun arg =>
    match arg.toList with
    | '-' :: digits =>
      if digits ≠ [] ∧ digits.all host.tables.isDecimal then ["-n", String.ofList digits] else [arg]
    | _ => [arg]

/-- `positions[position]`, where there is one. -/
def atPosition (positions : List String) (position : ℤ) : List String :=
  if 0 ≤ position then (positions[position.toNat]?).toList
  else if (-position).toNat ≤ positions.length then
    (positions[positions.length - (-position).toNat]?).toList
  else []

/-- The paths that a declared command writes. -/
def targets (spec : Spec) (name : String) (cwd : PurePath) (positions : List String) :
    List PurePath :=
  (spec.writePositions.flatMap fun position =>
    if position = -2 then positions else atPosition positions position).map .parse ++
  if (name = "cp" ∨ name = "mv") ∧ 1 < positions.length then
    let destination := cwd.join (.parse (positions.getLastD ""))
    if host.files.isDir destination then
      positions.dropLast.map fun source =>
        destination.join { root := .relative, parts := [(PurePath.parse source).name] }
    else []
  else []

/-- The effect of a declared command. -/
def declaredEffect (spec : Spec) (name : String) (cwd : PurePath) (positions : List String) :
    Effect :=
  let targets := targets host spec name cwd positions
  if targets = [] then spec.effect
  else if targets.all (policy.writes host cwd) then .workspaceWrite else .unknown

/-- The declared grammar of a command, and its positional arguments. -/
def declared (argv : List String) : Option (Spec × List String) :=
  let name := argv.headD ""
  let key :=
    if (spec? (" ".intercalate (argv.take 2))).isSome then " ".intercalate (argv.take 2) else name
  let args := if ' ' ∈ key.toList then argv.drop 2 else argv.drop 1
  let args := if name = "head" ∨ name = "tail" then countArguments host args else args
  (spec? key).bind fun spec => (arguments spec args).map fun positions => (spec, positions)

/-- The branch for a declared command. -/
def declaredCheck (name : String) (spec : Spec) (positions : List String) : Check := fun s =>
  let s := s.grant {policy.declaredEffect host spec name s.cwd positions}
  if name = "cd" then
    match positions with
    | [directory] =>
      if policy.writes host s.cwd (.parse directory) then
        .ok { s with cwd := host.files.resolve (s.cwd.join (.parse directory)) }
      else .ok (s.grant {.unknown})
    | _ => .ok (s.grant {.unknown})
  else .ok s

/-- The names that a trusted wildcard never covers. -/
def neverTrusted : List String :=
  deleteCommands ++ stdinCode.filter (· ≠ "uv") ++ ["sudo", "git", "npm", "pnpm"]

/-- The last branches: a trusted wildcard, or an unknown command. -/
def otherCheck (argv : List String) : Check := fun s =>
  (wildcard argv policy.trusted).bind fun trusted =>
    if trusted ∧ argv.headD "" ∉ neverTrusted ∧ ¬(argv.headD "" = "uv" ∧ "publish" ∈ argv) then
      addEffects {.read} s
    else
      (addEffects {.unknown} s).bind fun s =>
        match nested host argv with
        | some command => addChild call command s
        | none => .ok s

/-- The words before the nested command of `env`. -/
def envWords (argv : List String) : List String :=
  match nested host argv with
  | some (.parts command) => (argv.take (argv.length - command.length)).tail
  | _ => argv.tail

/-- The branches for a command that is no deletion, no system command and a program outside the
project. -/
def programCheck (fed : Bool) (argv : List String) : Check :=
  let name := argv.headD ""
  match declared host argv with
  | some (spec, positions) => policy.declaredCheck host name spec positions
  | none =>
    if argv.length = 2 ∧ argv.getLastD "" ∈ ["--version", "-V"] ∧ name ∈ stdinCode then
      addEffects {.read}
    else if name = "uv" ∧ (argv.drop 1).take 1 = ["run"] ∧ (nested host argv).isSome then
      inOrder [addEffects {.projectCode},
        addChild call ((nested host argv).getD (.parts []))]
    else if (name = "python" ∨ name = "python3") ∧ (argv.drop 1).take 2 = ["-m", "pytest"] then
      addChild call (.parts ("pytest" :: argv.drop 3))
    else if name = "env" ∧ (nested host argv).isSome ∧
        (envWords host argv).all fun arg => '=' ∈ arg.toList && !isDashed arg then
      addChild call ((nested host argv).getD (.parts []))
    else if name = "sh" ∧ argv.length = 3 ∧ argv.getD 1 "" = "-c" then
      addChild call (.script (argv.getD 2 ""))
    else if name = "find" then
      inOrder [findCheck call argv.tail,
        fun s => if fed ∧ s.inputCode then addEffects {.unknown} s else .ok s]
    else if name = "command" ∧ argv.length = 3 ∧ argv.getD 1 "" ∈ ["-v", "-V"] then
      addEffects {.read}
    else policy.otherCheck host call argv

/-- The branch for a command whose words are all literal. -/
def wordsCheck (state : Option ShellSessionState) (shell fed : Bool) (argv : List String) : Check :=
  let name := argv.headD ""
  inOrder [
    fun s => .ok { s with inputCode := s.inputCode || readsCode argv },
    if fed ∧ readsCode argv then addEffects {.unknown} else .ok,
    fun s =>
      if name ∈ deleteCommands then addEffects {.delete} s
      else if name ∈ systemCommands then addEffects {.system} s
      else if ¬policy.baseExecutable host state shell s.cwd name then addEffects {.unknown} s
      else policy.programCheck host call fed argv s,
    if '/' ∈ name.toList then
      match nested host argv with
      | some command => addChild call command
      | none => .ok
    else .ok]

local instance : LawfulBEq (Option String) := inferInstance

/-- `inspect`, for the words of a node. -/
def argvCheck (state : Option ShellSessionState) (shell : Bool) (node : Syntax) : Check :=
  let parts := node.argv.map Word.literal
  if node.argv = [] then .ok
  else if parts.head? = some (some "export") ∧
      node.argv.tail.all fun w => isAssignment w.raw.toList then
    addEffects {.read}
  else if parts.head? = some (some "echo") ∧ shell ∧ none ∈ parts.tail then addEffects {.read}
  else if none ∈ parts ∨ node.argv.any fun w =>
      w.hasGlob && !(parts.head? = some (some "find") && w.literal = some "\x7b\x7d") then
    addEffects {.unknown}
  else policy.wordsCheck host call state shell node.stdin parts.reduceOption

/-- `inspect`, for the redirections of a node. -/
def redirectCheck (redirect : String × Word) : Check := fun s =>
  if redirect.1 = "<" then .ok s
  else match redirect.2.literal with
    | some target =>
      addEffects
        (if redirect.2.hasGlob = false ∧ policy.writes host s.cwd (.parse target) then
          {.workspaceWrite} else {.unknown}) s
    | none => addEffects {.unknown} s

/-- `inspect`, before the children of a node. -/
def nodeCheck (state : Option ShellSessionState) (shell : Bool) (node : Syntax) : Check :=
  inOrder [
    if "||" ∈ node.operators ∧ node.commands.any fun command =>
        command.argv.head?.any fun w => w.literal = some "cd" then
      addEffects {.unknown}
    else .ok,
    inOrder (node.redirects.map (policy.redirectCheck host)),
    policy.argvCheck host call state shell node]

mutual

/-- `inspect` -/
def inspect (state : Option ShellSessionState) (shell : Bool) : Syntax → Check
  | .node kind operators body children argv assignments redirects stdin unknown => fun s =>
    (policy.nodeCheck host call state shell
        (.node kind operators body children argv assignments redirects stdin unknown) s).bind
      fun t => (inspectAll state shell children t).map fun t =>
        if kind = "subshell" ∨ kind = "pipeline" then { t with cwd := s.cwd } else t

def inspectAll (state : Option ShellSessionState) (shell : Bool) : List Syntax → Check
  | [] => .ok
  | child :: rest => fun s => (inspect state shell child s).bind (inspectAll state shell rest)

end

/-! ### Decisions -/

private def reject (reason : String) : Decision := { kind := .reject, reason := some reason }

private def ask (reason : String) : Decision := { kind := .ask, reason := some reason }

/-- The text that is searched for deletions. -/
def deletionText : ShellCommand → ShellCommand
  | .parts words => .parts words
  | .script text =>
    match parseQuotedHeredocs text with
    | .ok parsed => .script parsed.text
    | .error _ => .script text

/-- A command that the rules block, by what is found in it or by its text. -/
def isBlocked (levels : ℕ) (rules : List (List String)) (command : ShellCommand) : Bool :=
  (commands host levels command).any (fun parts => rules.any fun rule =>
    rule ≠ [] && parts.take rule.length = rule) ||
  (((parseScript host.tables host.grammar command).reasons ≠ [] ||
      (opaqueCommandReason host.tables host.frames inspectionLevels .posix command).isSome) &&
    mentionsCommand host.tables command rules)

/-- The keys that the command and its environment change. -/
def keys (command : ShellCommand) (env : Environment) : List String :=
  env.rows.map Prod.fst ++
    (parseScript host.tables host.grammar command).commands.flatMap changedKeys

/-- `evaluate`, up to the rules: deletions that are not literal. -/
def deletionDecision (command : ShellCommand) : Option Decision :=
  if (parseScript host.tables host.grammar command).reasons ≠ [] ∧
      mentionsDeletion host.tables (deletionText command) then
    some (reject "Opaque deletion cannot guarantee explicit literal paths")
  else
    (literalCommandReason host.tables host.frames inspectionLevels .posix command).map reject

/-- `evaluate`, from the rules to the syntax. -/
def earlyDecision (rules : List (List String)) (levels : ℕ) (command : ShellCommand)
    (env : Environment) (state : Option ShellSessionState) : Option Decision :=
  let tree := parseScript host.tables host.grammar command
  let deletes := mayDelete host.tables host.frames .posix command
  let stateKeys := (state.map fun state => state.env.rows.map Prod.fst).getD []
  if isBlocked host levels rules command then
    some (reject "The command is blocked by a configured command rule")
  else if ¬policy.allowsKeys (env.rows.map Prod.fst) then
    some (reject "Environment keys are outside the configured allowed_env_keys")
  else if env.rows ≠ [] ∧ deletes then
    some (reject "Environment variable overrides are forbidden for deletion commands")
  else if (env.rows.map Prod.fst).any (dangerousEnvKey host.tables) then
    some (ask "Environment changes command loading or interpretation; approval is required")
  else if ¬policy.allowsKeys (keys host command env) then
    some (reject "Environment keys are outside the configured allowed_env_keys")
  else if deletes ∧ (keys host command env ≠ [] ∨ stateKeys ≠ []) then
    some (reject "Environment variable overrides are forbidden for deletion commands")
  else if (keys host command env ++ stateKeys).any (dangerousEnvKey host.tables) then
    some (ask "Environment changes command loading or interpretation; approval is required")
  else tree.reasons.head?.map fun reason => ask (reason ++ "; approval is required")

/-- `child_effects`, given what the policy for a directory makes of a command. -/
def childEffects (run : PurePath → ShellCommand → Except String Decision) (command : ShellCommand)
    (s : Inspection) : Except String (Finset Effect × Inspection) :=
  (run s.cwd command).map fun child => (child.granted, s.absorb child)

/-- The checks of `evaluate` on the syntax. -/
def syntaxCheck (state : Option ShellSessionState) (command : ShellCommand) : Check :=
  let tree := parseScript host.tables host.grammar command
  inOrder [
    policy.inspect host call state (command matches .script _) tree,
    inOrder (tree.shellBodies.map fun body => addChild call (.script body))]

/-- `evaluate`, from `if rejections`. -/
def decide (s : Inspection) : Decision :=
  match s.rejections with
  | rejection :: _ => rejection
  | [] =>
    if s.effects \ policy.level.allowed ≠ ∅ then
      { kind := .ask
        reason := some
          ("Shell effects require approval: " ++ effectNames (s.effects \ policy.level.allowed))
        stdinIsCode := s.inputCode
        effects := s.effects }
    else { kind := .allow, stdinIsCode := s.inputCode, effects := s.effects }

/-- **`evaluate`**, with the levels of nesting that are left. It raises for a rule that cannot be
split into words. -/
def evaluate : ℕ → ShellCommandPolicy → ShellCommand → Environment → Option ShellSessionState →
    Except String Decision
  | 0, _, _, _, _ => .ok (ask "Nested shell commands exceed the inspection limit")
  | levels + 1, policy, command, env, state =>
    match deletionDecision host command with
    | some decision => .ok decision
    | none => do
      let rules ← policy.blocked.mapM Shlex.split
      match policy.earlyDecision host rules (levels + 1) command env state with
      | some decision => return decision
      | none =>
        let s ← policy.syntaxCheck host
          (childEffects fun cwd command =>
            evaluate levels { policy with cwd := cwd } command ∅ state)
          state command { cwd := policy.cwd }
        return policy.decide s

end ShellCommandPolicy

end EvernightAI.Shell

import Mathlib.Data.Finset.Basic

/-!
# Declared argument grammars

`SPECS` declares the programs that the shell policy knows: which flags they have, which of them take
a value, how many other arguments are allowed, and what running them may do. `arguments` reads an
argument list by a declaration and gives its positional arguments; what it refuses is `UNKNOWN`.
-/

namespace EvernightAI

inductive Effect
  | read
  | workspaceWrite
  | network
  | projectCode
  | publish
  | delete
  | system
  | unknown
  deriving DecidableEq, Repr

/-- A declaration. -/
structure Spec where
  flags : List String := []
  valued : List String := []
  maxArgs : Option ℕ := none
  effect : Effect := .read
  writePositions : List ℤ := []
  stdinIsCode : Bool := false
  deriving DecidableEq, Repr

/-- `arg.startswith("-")` -/
def isDashed (arg : String) : Bool := arg.toList.head? = some '-'

/-- Short options that are combined: how many arguments are taken as a value, `none` if a letter is
not declared. -/
def combinedOptions (spec : Spec) : List Char → Option ℕ
  | [] => some 0
  | letter :: letters =>
    if String.ofList ['-', letter] ∈ spec.valued then some (if letters = [] then 1 else 0)
    else if String.ofList ['-', letter] ∈ spec.flags then combinedOptions spec letters
    else none

/-- An option: how many arguments it takes as a value, `none` if it is not declared. -/
def optionValues (spec : Spec) (arg : String) : Option ℕ :=
  let flag := String.ofList (arg.toList.takeWhile (· != '='))
  let equals := '=' ∈ arg.toList
  if flag ∈ spec.valued then some (if equals then 0 else 1)
  else if ¬equals ∧ flag ∈ spec.flags then some 0
  else if ['-', '-'].isPrefixOf arg.toList then none
  else combinedOptions spec arg.toList.tail

/-- The loop of `arguments`: whether options are still read, and the arguments to pass over. -/
def positionsFrom (spec : Spec) : Bool → ℕ → List String → Option (List String)
  | _, _, [] => some []
  | options, skip + 1, _ :: rest => positionsFrom spec options skip rest
  | options, 0, arg :: rest =>
    if arg = "--" ∧ options then positionsFrom spec false 0 rest
    else if options ∧ isDashed arg ∧ arg ≠ "-" then
      match optionValues spec arg with
      | none => none
      | some values => if rest.length < values then none else positionsFrom spec options values rest
    else (positionsFrom spec options 0 rest).map (arg :: ·)

/-- `arguments` -/
def arguments (spec : Spec) (args : List String) : Option (List String) :=
  (positionsFrom spec true 0 args).filter fun positions =>
    match spec.maxArgs with
    | some maxArgs => positions.length ≤ maxArgs
    | none => true

/-- `SPECS` -/
def specs : List (String × Spec) := [
  ("pwd", { flags := ["-L", "-P"], maxArgs := some 0 }),
  ("whoami", { flags := ["--help", "--version"], maxArgs := some 0 }),
  ("true", { maxArgs := some 0 }),
  ("false", { maxArgs := some 0 }),
  ("cd", { flags := ["-L", "-P"], maxArgs := some 1 }),
  ("echo", { flags := ["-n", "-e", "-E"] }),
  ("printf", {}),
  ("ls", { flags := ["-a", "-A", "-l", "-h", "-d", "-R", "-r", "-t", "-S", "-1", "-F", "-p", "-i",
      "-s", "-n", "--all", "--almost-all", "--human-readable", "--directory", "--recursive",
      "--color"]
           valued := ["--sort", "--time", "--color"] }),
  ("cat", { flags := ["-n", "-b", "-s", "-v", "-e", "-t", "-A", "-E", "-T", "--number",
      "--show-all"] }),
  ("head", { flags := ["-q", "-v"], valued := ["-n", "-c", "--lines", "--bytes"] }),
  ("tail", { flags := ["-q", "-v", "-f", "-F"]
             valued := ["-n", "-c", "--lines", "--bytes", "--pid"] }),
  ("wc", { flags := ["-c", "-m", "-l", "-w", "-L", "--bytes", "--chars", "--lines", "--words",
      "--max-line-length"] }),
  ("cut", { flags := ["-s", "--complement", "--only-delimited"]
            valued := ["-b", "-c", "-f", "-d", "--bytes", "--characters", "--fields", "--delimiter",
              "--output-delimiter"] }),
  ("grep", { flags := ["-i", "-v", "-n", "-r", "-R", "-l", "-L", "-c", "-w", "-x", "-F", "-E", "-G",
      "-P", "-o", "-h", "-H", "-s", "-q", "-a", "-I", "--ignore-case", "--invert-match",
      "--line-number", "--files-with-matches", "--count", "--fixed-strings"]
             valued := ["-e", "-f", "-m", "-A", "-B", "-C", "--regexp", "--file", "--max-count",
               "--include", "--exclude", "--exclude-dir"] }),
  ("rg", { flags := ["-i", "-n", "-l", "-L", "-c", "-w", "-x", "-F", "-o", "-v", "-s", "-S", "-a",
      "-u", "--files", "--hidden", "--no-ignore", "--count", "--fixed-strings", "--line-number",
      "--no-heading", "--heading", "--stats"]
           valued := ["-e", "-f", "-g", "-t", "-T", "-m", "-A", "-B", "-C", "--glob", "--type",
             "--type-not", "--max-count", "--max-depth", "--encoding", "--color"] }),
  ("sort", { flags := ["-r", "-n", "-g", "-h", "-V", "-M", "-f", "-b", "-d", "-i", "-s", "-u", "-c",
      "-C", "-z", "--reverse", "--numeric-sort", "--unique", "--stable", "--check"]
             valued := ["-k", "-t", "-S", "--key", "--field-separator", "--buffer-size"] }),
  ("uniq", { flags := ["-c", "-d", "-D", "-u", "-i", "-z", "--count", "--repeated", "--unique"]
             valued := ["-f", "-s", "-w", "--skip-fields", "--skip-chars", "--check-chars"]
             maxArgs := some 2
             writePositions := [1] }),
  ("which", { flags := ["-a"] }),
  ("touch", { flags := ["-c", "-a", "-m", "--no-create"]
              valued := ["-t", "-d", "-r", "--date", "--reference"]
              effect := .workspaceWrite
              writePositions := [-2] }),
  ("mkdir", { flags := ["-p", "-v", "--parents", "--verbose"]
              valued := ["-m", "--mode"]
              effect := .workspaceWrite
              writePositions := [-2] }),
  ("tee", { flags := ["-a", "-i", "--append", "--ignore-interrupts"]
            effect := .workspaceWrite
            writePositions := [-2] }),
  ("cp", { flags := ["-p", "-f", "-n", "-v", "--preserve"]
           effect := .workspaceWrite
           writePositions := [-1] }),
  ("mv", { flags := ["-f", "-n", "-v"], effect := .workspaceWrite, writePositions := [-2] }),
  ("git status", { flags := ["--short", "--branch", "--porcelain", "-s", "-b", "--untracked-files"]
                   valued := ["--untracked-files"]
                   maxArgs := some 0
                   effect := .projectCode }),
  ("git diff", { flags := ["--stat", "--name-only", "--name-status", "--cached", "--staged",
      "--no-ext-diff", "--no-textconv"]
                 effect := .projectCode }),
  ("git log", { flags := ["--oneline", "--stat", "--all", "--decorate"]
                valued := ["-n", "--max-count"]
                effect := .projectCode }),
  ("git ls-files", { flags := ["--cached", "--others", "--exclude-standard", "-z"] }),
  ("git rev-parse", { flags := ["--show-toplevel", "--is-inside-work-tree", "--show-prefix",
      "--verify"] }),
  ("git fetch", { flags := ["--all", "--prune", "--tags"], effect := .network }),
  ("git push", { effect := .publish }),
  ("uv --version", { maxArgs := some 0 }),
  ("uv version", { maxArgs := some 0 }),
  ("uv sync", { flags := ["--frozen", "--locked", "--no-dev", "--all-extras"]
                effect := .projectCode }),
  ("uv publish", { effect := .publish }),
  ("npm publish", { effect := .publish }),
  ("npm test", { effect := .projectCode }),
  ("npm run", { maxArgs := some 1, effect := .projectCode }),
  ("pnpm run", { maxArgs := some 1, effect := .projectCode }),
  ("pytest", { flags := ["-q", "-v", "-s", "-x", "--collect-only", "--disable-warnings"]
               valued := ["-k", "-m", "--maxfail"]
               effect := .projectCode }),
  ("curl", { flags := ["-I", "-s", "-S", "-L", "-f", "--head", "--silent", "--show-error",
      "--location", "--fail"]
             valued := ["--max-time", "--connect-timeout"]
             effect := .network })]

/-- `STDIN_CODE` -/
def stdinCode : List String :=
  ["sh", "bash", "dash", "zsh", "fish", "python", "python3", "node", "perl", "ruby", "xargs", "env",
    "uv"]

/-- `STDIN_SPECS.get(name)` -/
def stdinSpec (name : String) : Option Spec :=
  if name ∈ stdinCode then some { effect := .unknown, stdinIsCode := true } else none

/-- `SYSTEM_COMMANDS` -/
def systemCommands : List String :=
  ["sudo", "su", "doas", "kill", "pkill", "killall", "systemctl", "service", "chmod", "chown",
    "chgrp", "apt", "apt-get", "dnf", "yum", "pacman", "mount", "umount", "reboot", "shutdown"]

/-- `SPECS.get(key)` -/
def spec? (key : String) : Option Spec := (specs.find? fun entry => entry.1 = key).map Prod.snd

end EvernightAI

import EvernightAI.Lib.PosixPath
import EvernightAI.Lib.Table
import EvernightAI.Schema.Base
import Mathlib.Data.List.Sort

/-!
# Shell sessions

A shell session is what one shell command leaves to the next: the directory it ended in and the
variables it exported. A wrapper around the script writes both to a side channel, in NUL-separated
records: `S` and the environment at the start, `E`, the directory and the environment at the end.
The script can write to the same channel. `applyCapture` validates what was captured and records
it.
-/

namespace EvernightAI

open PosixPath

/-- The variables of a process, at most one of each name. -/
abbrev Environment := Table (Prod.fst : String × String → String)

namespace Environment

/-- `env.get(key)` -/
def get (env : Environment) (key : String) : Option String := (env.find? key).map Prod.snd

/-- `env[key] = value` -/
def set (env : Environment) (key value : String) : Environment := env.upsert (key, value)

/-- `env.pop(key, None)` -/
def pop (env : Environment) (key : String) : Environment := env.deleteWhere fun v => v.1 = key

end Environment

/-- `ShellSessionState`. The directory `cwd` is relative to the root; it has no parts for `.`. -/
structure ShellSessionState where
  sessionKey : String
  ownerId : Option String := none
  root : List String
  cwd : List String := []
  env : Environment := ∅
  /-- `PATH` entries present before the session changed `PATH`. -/
  basePath : Option (List String) := none

/-- `ShellSessionKey` -/
structure ShellSessionKey where
  ownerId : Option String
  key : String
  deriving DecidableEq, Repr

/-- The state of a session of which nothing is recorded. -/
def ShellSessionKey.fresh (key : ShellSessionKey) (root : List String) : ShellSessionState where
  sessionKey := key.key
  ownerId := key.ownerId
  root := root

structure ShellSessionUpdate where
  state : ShellSessionState
  ignored : List String := []

/-- `SANDBOX_ROOT` -/
def sandboxRoot : List String := ["workspace"]

/-- `_TRANSIENT_ENV` -/
def transientEnv : List String := ["PWD", "OLDPWD", "SHLVL", "_", "EVERNIGHT_SIDE_CHANNEL_FD"]

/-- `_DENIED_ENV` -/
def deniedEnv : List String :=
  ["BASH_ENV", "BASHOPTS", "CDPATH", "ENV", "GLOBIGNORE", "IFS", "PROMPT_COMMAND", "PS4",
    "SHELLOPTS"]

/-- `_DENIED_ENV_PREFIXES` -/
def deniedEnvPrefixes : List String := ["LD_", "DYLD_", "BASH_FUNC_"]

/-- The variable changes how every later command is loaded or interpreted. -/
def deniedVariable (key : String) : Bool :=
  deniedEnv.contains key || deniedEnvPrefixes.any fun start => start.toList.isPrefixOf key.toList

/-- `[A-Za-z_]` -/
def nameStart (c : Char) : Bool :=
  'A' ≤ c && c ≤ 'Z' || 'a' ≤ c && c ≤ 'z' || c = '_'

/-- `[A-Za-z_0-9]` -/
def nameChar (c : Char) : Bool := nameStart c || '0' ≤ c && c ≤ '9'

/-- `[A-Za-z_0-9]*$`: the end of a text is also before a newline that ends it. -/
def matchesNameEnd : List Char → Bool
  | [] => true
  | ['\n'] => true
  | c :: rest => nameChar c && matchesNameEnd rest

/-- `_ENV_KEY.match` -/
def matchesEnvKey (key : String) : Bool :=
  match key.toList with
  | [] => false
  | c :: rest => nameStart c && matchesNameEnd rest

/-! ### Captures -/

/-- A record of `env -0`: what is before and after its first `=`. -/
def envRecord (record : String) : Option (String × String) :=
  match record.toList.span (· ≠ '=') with
  | (c :: key, _ :: value) => some (String.ofList (c :: key), String.ofList value)
  | _ => none

/-- `_env` -/
def envOfRecords (records : List String) : Environment :=
  records.foldl (fun env record =>
    match envRecord record with
    | some (key, value) => env.set key value
    | none => env) ∅

/-- What a capture says. -/
structure ShellCapture where
  startEnv : Environment
  cwd : String
  endEnv : Environment

/-- `parse_capture` -/
def parseCapture : Option String → Option ShellCapture
  | none => none
  | some capture =>
    match pieces '\x00' capture with
    | "S" :: records =>
      match records.span (· ≠ "E") with
      | (start, _ :: cwd :: rest) => some {
          startEnv := envOfRecords start
          cwd := cwd
          endEnv := envOfRecords rest }
      | _ => none
    | _ => none

/-- `sandbox_relative`: a path as seen in the sandbox or on the host, relative to the root. -/
def sandboxRelative (fs : FileSystem) (path : String) (root : List String) :
    Option (List String) :=
  let candidate := PurePath.parse path
  if candidate.root = .relative then none
  else if candidate.root = .slash ∧ sandboxRoot <+: candidate.parts then
    let relative := candidate.parts.drop sandboxRoot.length
    if ".." ∈ relative then none else some relative
  else relativeTo root (fs.realpath candidate.parts)

/-! ### Recording -/

/-- `ShellSessionTracker`, by its setting. -/
structure ShellSessionTracker where
  allowedEnvKeys : Option (List String) := none
  deriving DecidableEq, Repr

namespace ShellSessionTracker

variable (tracker : ShellSessionTracker) (fs : FileSystem)

/-- `_env_rejection` -/
def envRejection (key : String) : Option String :=
  if !matchesEnvKey key then some "not a portable variable name"
  else if deniedVariable key then some "this variable changes how every later command runs"
  else if tracker.allowedEnvKeys.any fun allowed => !allowed.contains key then
    some "outside the configured allowed_env_keys"
  else none

/-- `load`, given what the store holds for the key. -/
def load (key : ShellSessionKey) (root : List String) (stored : Option ShellSessionState) :
    ShellSessionState :=
  match stored with
  | none => key.fresh root
  | some state =>
    if state.root ≠ root then key.fresh root
    else
      let env := state.env.deleteWhere fun v => (tracker.envRejection v.1).isSome
      { state with
        env := env
        basePath := if (env.find? "PATH").isSome then state.basePath else none }

/-- The `PATH` entries a change of `PATH` is compared with. -/
def base (state : ShellSessionState) (startEnv : Environment) : List String :=
  state.basePath.getD (pieces ':' ((startEnv.get "PATH").getD ""))

/-- The entries that a value of `PATH` adds to the base. -/
def added (base : List String) (value : String) : List String :=
  (pieces ':' value).filter fun entry => entry ≠ "" ∧ entry ∉ base

/-- `_apply_path` -/
def applyPath (state : ShellSessionState) (startEnv : Environment) (value : String)
    (root : List String) : Except String ShellSessionState :=
  let base := base state startEnv
  let added := added base value
  if added.any fun entry => (sandboxRelative fs entry root).isNone then
    .error "PATH may only add directories inside the project root"
  else if added ≠ [] then
    .ok { state with env := state.env.set "PATH" value, basePath := some base }
  else .ok { state with env := state.env.pop "PATH", basePath := none }

/-- The loop of `apply_capture` for one variable: the state, or why the variable is ignored. -/
def recordVariable (capture : ShellCapture) (root : List String) (state : ShellSessionState)
    (key : String) : Except String ShellSessionState :=
  if key ∈ transientEnv ∨ capture.startEnv.get key = capture.endEnv.get key then .ok state
  else
    match tracker.envRejection key with
    | some reason => .error reason
    | none =>
      match capture.endEnv.get key with
      | some value =>
        if key = "PATH" then applyPath fs state capture.startEnv value root
        else .ok { state with env := state.env.set key value }
      | none =>
        if (state.env.find? key).isSome then
          .ok { state with
            env := state.env.pop key
            basePath := if key = "PATH" then none else state.basePath }
        else .error "inherited variables cannot be unset"

/-- An update with one more variable. -/
def applyVariable (capture : ShellCapture) (root : List String) (update : ShellSessionUpdate)
    (key : String) : ShellSessionUpdate :=
  match tracker.recordVariable fs capture root update.state key with
  | .ok state => { update with state := state }
  | .error reason => { update with ignored := update.ignored ++ [key ++ ": " ++ reason] }

/-- The variables that a capture names, in order. -/
def capturedKeys (capture : ShellCapture) : List String :=
  ((capture.startEnv.rows ++ capture.endEnv.rows).map Prod.fst).dedup.insertionSort (· ≤ ·)

/-- The directory that a capture records. -/
def recordedCwd (capture : ShellCapture) (root : List String) : Option (List String) :=
  (sandboxRelative fs capture.cwd root).filter fun relative => fs.isDir (root ++ relative)

/-- `apply_capture` -/
def applyCapture (state : ShellSessionState) (capture : Option String) (root : List String) :
    ShellSessionUpdate :=
  match parseCapture capture with
  | none => {
      state := state
      ignored := if capture.isSome then ["The shell state record was incomplete"] else [] }
  | some parsed =>
    let update : ShellSessionUpdate :=
      match recordedCwd fs parsed root with
      | none => { state := state, ignored := ["cwd: the directory is outside the project root"] }
      | some relative => { state := { state with cwd := relative } }
    (capturedKeys parsed).foldl (tracker.applyVariable fs parsed root) update

end ShellSessionTracker

end EvernightAI

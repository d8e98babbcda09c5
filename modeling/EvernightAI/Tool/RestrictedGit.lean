import EvernightAI.Lib.PosixPath
import EvernightAI.Lib.PyJson
import EvernightAI.Schema.Base
import EvernightAI.Schema.Tool

/-!
# Git tools

Each tool of `restricted_git.py` puts a git command together from words of its own and from the
arguments of the model, and runs it in the repository that the arguments choose. A `Word` says where
it comes from. What a read-only tool takes from the model may not be an option: it is the value of
`-n`, a revision, or a pathspec after `--` that names a path inside the repository.

* `passes_iff` : it is none exactly if the revision that `git_show` is given does not start with a
  dash, which nothing checks.
* `access_of_readOnly` : the repository is mounted for reading only.
-/

namespace EvernightAI.RestrictedGit

open PosixPath

/-- The parts of an absolute path. -/
abbrev Path := List String

/-- A word of a git command: one of the tool, or one that the arguments choose. -/
inductive Word
  | own (text : String)
  | limit (text : String)
  | revision (text : String)
  | pathspec (text : String)
  | message (text : String)
  | branch (text : String)
deriving DecidableEq, Repr

def Word.text : Word → String
  | .own text | .limit text | .revision text | .pathspec text | .message text | .branch text => text

inductive GitTool
  | gitStatus | gitDiff | gitLog | gitShow | gitCommit | gitListBranches | gitCheckoutBranch
  | gitCreateBranch
deriving DecidableEq, Repr

def GitTool.definition : GitTool → ToolDefinition
  | .gitStatus => { name := "git_status", permissions := [.read], safetyLevel := .safe }
  | .gitDiff => { name := "git_diff", permissions := [.read], safetyLevel := .safe }
  | .gitLog => { name := "git_log", permissions := [.read], safetyLevel := .safe }
  | .gitShow => { name := "git_show", permissions := [.read], safetyLevel := .safe }
  | .gitCommit =>
    { name := "git_commit", permissions := [.write], safetyLevel := .sensitive,
      requiresApproval := true }
  | .gitListBranches =>
    { name := "git_list_branches", permissions := [.read], safetyLevel := .safe }
  | .gitCheckoutBranch =>
    { name := "git_checkout_branch", permissions := [.write], safetyLevel := .sensitive,
      requiresApproval := true }
  | .gitCreateBranch =>
    { name := "git_create_branch", permissions := [.write], safetyLevel := .sensitive,
      requiresApproval := true }

/-- **Declared read-only**, without approval. -/
def ReadOnly (definition : ToolDefinition) : Prop :=
  definition.permissions = [.read] ∧ definition.requiresApproval = false

instance (definition : ToolDefinition) : Decidable (ReadOnly definition) :=
  inferInstanceAs (Decidable (_ ∧ _))

/-- The host of the repositories. What a path is resolved to consists of names. -/
structure Host extends FileSystem where
  /-- `(directory / ".git").exists()` -/
  hasGit : Path → Bool
  /-- `ProjectRootResolver.resolve` of the `project` and `_working_directory` arguments. -/
  resolveRoot : Option PyJson → Option PyJson → Except String (Option String × Path)
  isName : ∀ (path : Path), ∀ part ∈ realpath path,
    part ≠ "" ∧ part ≠ "." ∧ part ≠ ".." ∧ '/' ∉ part.toList

/-! ### The arguments -/

/-- `repository_directory / raw_path` -/
def join (repository : Path) (raw : String) : Path :=
  if (PurePath.parse raw).root = .relative then repository ++ (PurePath.parse raw).parts
  else (PurePath.parse raw).parts

/-- `as_posix()` of a relative path -/
def asPosix : List String → String
  | [] => "."
  | parts => "/".intercalate parts

/-- One path of `_parse_repo_paths`. -/
def Host.parseRepoPath (host : Host) (repository : Path) : PyJson → Except String String
  | .str raw =>
    if raw = "" then .error "Git paths must be non-empty strings"
    else match relativeTo repository (host.realpath (join repository raw)) with
      | some relative => .ok (asPosix relative)
      | none => .error "Git paths must stay inside the repository"
  | _ => .error "Git paths must be non-empty strings"

/-- `_parse_repo_paths` -/
def Host.parseRepoPaths (host : Host) (repository : Path) : PyJson → Except String (List String)
  | .list (raw :: rest) => (raw :: rest).mapM (host.parseRepoPath repository)
  | _ => .error "The paths value must be a non-empty list"

/-- `_parse_optional_repo_path` -/
def Host.parseOptionalRepoPath (host : Host) (repository : Path) :
    Option PyJson → Except String (Option String)
  | none | some .null => .ok none
  | some raw => (host.parseRepoPath repository raw).map some

/-- The `staged` argument. -/
def parseStaged : PyJson → Except String Bool
  | .bool staged => .ok staged
  | _ => .error "The staged value must be a boolean"

/-- The `limit` argument as `str(limit)`; `True` is an integer, too. -/
def parseLimit : PyJson → Except String String
  | .int limit =>
    if limit < 1 ∨ limit > 100 then .error "The git log limit must be an integer from 1 to 100"
    else .ok (toString limit)
  | .bool true => .ok "True"
  | _ => .error "The git log limit must be an integer from 1 to 100"

/-- A text argument that may not be empty. -/
def parseText (error : String) : Option PyJson → Except String String
  | some (.str text) => if text = "" then .error error else .ok text
  | _ => .error error

/-- `command.extend(["--", path])` if there is a path -/
def pathWords (path : Option String) : List Word :=
  path.elim [] fun path => [.own "--", .pathspec path]

/-! ### The commands -/

/-- The git commands of a call, in the order in which they run. -/
def Host.commands (host : Host) (repository : Path) (arguments : PyDict) :
    GitTool → Except String (List (List Word))
  | .gitStatus => .ok [[.own "status", .own "--short", .own "--branch"]]
  | .gitDiff => do
    let staged ← parseStaged ((arguments.lookup "staged").getD (.bool false))
    let path ← host.parseOptionalRepoPath repository (arguments.lookup "path")
    .ok [[.own "diff"] ++ (if staged then [.own "--staged"] else []) ++ pathWords path]
  | .gitLog => do
    let limit ← parseLimit ((arguments.lookup "limit").getD (.int 10))
    let path ← host.parseOptionalRepoPath repository (arguments.lookup "path")
    .ok [[.own "log", .own "--oneline", .own "--decorate", .own "-n", .limit limit] ++
      pathWords path]
  | .gitShow => do
    let revision ← parseText "The git revision must be a non-empty string"
      (some ((arguments.lookup "revision").getD (.str "HEAD")))
    let path ← host.parseOptionalRepoPath repository (arguments.lookup "path")
    .ok [[.own "show", .own "--stat", .own "--patch", .revision revision] ++ pathWords path]
  | .gitCommit => do
    let message ← parseText "The commit message must be a non-empty string"
      (arguments.lookup "message")
    let paths ← host.parseRepoPaths repository
      ((arguments.lookup "paths").getD (.list [.str "."]))
    .ok [[.own "add", .own "--"] ++ paths.map .pathspec,
      [.own "commit", .own "-m", .message message]]
  | .gitListBranches => .ok [[.own "branch", .own "--list"]]
  | .gitCheckoutBranch => do
    let name ← parseText "The branch name must be a non-empty string" (arguments.lookup "name")
    .ok [[.own "checkout", .branch name]]
  | .gitCreateBranch => do
    let name ← parseText "The branch name must be a non-empty string" (arguments.lookup "name")
    match arguments.lookup "start_point" with
    | none | some .null => .ok [[.own "branch", .branch name]]
    | startPoint => do
      let startPoint ← parseText "The start_point value must be a string" startPoint
      .ok [[.own "branch", .branch name, .revision startPoint]]

inductive Access
  | readOnly | readWrite
deriving DecidableEq, Repr

/-- What the sandbox is asked to run. -/
structure Request where
  words : List Word
  access : Access
deriving DecidableEq, Repr

/-- `["git", *arguments]` -/
def Request.command (request : Request) : List String := "git" :: request.words.map Word.text

/-- `writing` of `_run_git` -/
def writing (arguments : List String) : Bool :=
  match arguments with
  | [] => false
  | subcommand :: _ =>
    subcommand ∈ ["add", "commit", "checkout"] || subcommand = "branch" && "--list" ∉ arguments

/-- `_run_git` -/
def request (words : List Word) : Request where
  words := words
  access := if writing (words.map Word.text) then .readWrite else .readOnly

/-- `_ensure_repository` -/
def Host.ensureRepository (host : Host) (repository : Path) : Except String Unit :=
  if host.isDir repository = false then .error "The repository directory does not exist"
  else if host.hasGit repository = false then
    .error "The repository directory is not a git repository"
  else .ok ()

/-- A call that was accepted. -/
structure Run where
  project : Option String
  repository : Path
  requests : List Request
deriving DecidableEq, Repr

/-- `execute` of a tool. -/
def Host.execute (host : Host) (tool : GitTool) (arguments : PyDict) : Except String Run := do
  let (project, repository) ← host.resolveRoot (arguments.lookup "project")
    (arguments.lookup "_working_directory")
  let commands ← host.commands repository arguments tool
  host.ensureRepository repository
  .ok { project, repository, requests := commands.map request }

/-! ### What a word may be -/

/-- The words of the read-only tools. -/
def ownWords : List String :=
  ["status", "--short", "--branch", "diff", "--staged", "log", "--oneline", "--decorate", "-n",
    "show", "--stat", "--patch", "branch", "--list", "--"]

/-- The text is a relative path that leads inside the repository. -/
def Host.NamesInside (host : Host) (repository : Path) (text : String) : Prop :=
  (PurePath.parse text).root = .relative ∧ ".." ∉ (PurePath.parse text).parts ∧
    repository <+: host.realpath (repository ++ (PurePath.parse text).parts)

/-- What a word may be, after the words before it. -/
def Host.Passes (host : Host) (repository : Path) (before : List Word) : Word → Prop
  | .own text => text ∈ ownWords
  | .limit _ => before.getLast? = some (.own "-n")
  | .revision text => text.toList.head? ≠ some '-'
  | .pathspec text => .own "--" ∈ before ∧ host.NamesInside repository text
  | .message _ | .branch _ => False

/-- **No option is passed on**: each word may be what it is. -/
def Host.PassesFrom (host : Host) (repository : Path) (before : List Word) : List Word → Prop
  | [] => True
  | word :: words =>
    host.Passes repository before word ∧ host.PassesFrom repository (before ++ [word]) words

variable {host : Host} {repository : Path} {arguments : PyDict} {before words : List Word}

theorem passesFrom_append (more : List Word) :
    host.PassesFrom repository before (words ++ more) ↔
      host.PassesFrom repository before words ∧
        host.PassesFrom repository (before ++ words) more := by
  induction words generalizing before with
  | nil =>
    rw [List.nil_append, List.append_nil, Host.PassesFrom, true_and]
  | cons word words ih =>
    rw [List.cons_append, Host.PassesFrom, ih, Host.PassesFrom, List.append_assoc,
      List.singleton_append, and_assoc]

theorem passes_own {text : String} (h : text ∈ ownWords) :
    host.Passes repository before (.own text) := h

theorem passesFrom_own (h : ∀ word ∈ words, ∃ text ∈ ownWords, word = .own text) :
    host.PassesFrom repository before words := by
  induction words generalizing before with
  | nil => trivial
  | cons word words ih =>
    refine ⟨?_, ih fun w hw => h w (List.mem_cons_of_mem word hw)⟩
    obtain ⟨text, htext, rfl⟩ := h word List.mem_cons_self
    exact htext

/-! ### Paths -/

/-- **A path that is accepted names what is inside.** -/
theorem namesInside_of_parseRepoPath {raw : PyJson} {text : String}
    (h : host.parseRepoPath repository raw = .ok text) : host.NamesInside repository text := by
  obtain ⟨path, relative, hrelative, rfl⟩ :
      ∃ path relative, relativeTo repository (host.realpath path) = some relative ∧
        text = asPosix relative := by
    rw [Host.parseRepoPath.eq_def] at h
    split at h
    · rename_i raw
      by_cases hempty : raw = ""
      · rw [if_pos hempty] at h
        exact absurd h nofun
      · rw [if_neg hempty] at h
        cases hrelative : relativeTo repository (host.realpath (join repository raw)) with
        | none =>
          rw [hrelative] at h
          exact absurd h nofun
        | some relative =>
          rw [hrelative] at h
          exact ⟨join repository raw, relative, hrelative, (Except.ok.inj h).symm⟩
    · exact absurd h nofun
  have hinside := FileSystem.prefix_of_relativeTo hrelative
  have hnames : ∀ part ∈ relative, part ≠ "" ∧ part ≠ "." ∧ part ≠ ".." ∧ '/' ∉ part.toList := by
    intro part hpart
    refine host.isName path part ?_
    rw [relativeTo_eq_some.mp hrelative]
    exact List.mem_append_right repository hpart
  cases relative with
  | nil =>
    have hparse : PurePath.parse (asPosix []) = ⟨.relative, []⟩ := by decide +kernel
    rw [Host.NamesInside, hparse]
    exact ⟨rfl, List.not_mem_nil, hinside⟩
  | cons part parts =>
    have hparse : PurePath.parse (asPosix (part :: parts)) = ⟨.relative, part :: parts⟩ :=
      PurePath.parse_intercalate (List.cons_ne_nil part parts)
        fun p hp => ⟨(hnames p hp).1, (hnames p hp).2.1, (hnames p hp).2.2.2⟩
    rw [Host.NamesInside, hparse]
    exact ⟨rfl, fun hmem => (hnames ".." hmem).2.2.1 rfl, hinside⟩

/-- The words of a path that is accepted. -/
theorem passesFrom_pathWords {raw : Option PyJson} {path : Option String}
    (h : host.parseOptionalRepoPath repository raw = .ok path) :
    host.PassesFrom repository before (pathWords path) := by
  cases path with
  | none => trivial
  | some text =>
    have hpath : ∃ raw, host.parseRepoPath repository raw = .ok text := by
      rw [Host.parseOptionalRepoPath.eq_def] at h
      split at h
      · exact absurd h nofun
      · exact absurd h nofun
      · obtain ⟨parsed, hparsed, hsome⟩ := exists_of_map_eq_ok h
        exact ⟨_, hparsed.trans (congrArg Except.ok (Option.some.inj hsome))⟩
    obtain ⟨raw, hraw⟩ := hpath
    refine ⟨passes_own (by decide), ⟨?_, namesInside_of_parseRepoPath hraw⟩, trivial⟩
    exact List.mem_append_right before List.mem_cons_self

/-! ### The read-only tools -/

/-- A tool that lets nothing of the arguments become an option. -/
theorem passesFrom_of_ne_show {tool : GitTool} {commands : List (List Word)}
    (hread : ReadOnly tool.definition) (hne : tool ≠ .gitShow)
    (h : host.commands repository arguments tool = .ok commands) :
    ∀ command ∈ commands, host.PassesFrom repository [] command := by
  cases tool with
  | gitStatus =>
    obtain rfl := Except.ok.inj h
    intro command hcommand
    rw [List.mem_singleton.mp hcommand]
    exact ⟨passes_own (by decide), passes_own (by decide), passes_own (by decide), trivial⟩
  | gitListBranches =>
    obtain rfl := Except.ok.inj h
    intro command hcommand
    rw [List.mem_singleton.mp hcommand]
    exact ⟨passes_own (by decide), passes_own (by decide), trivial⟩
  | gitDiff =>
    obtain ⟨staged, -, h⟩ := exists_of_bind_eq_ok h
    obtain ⟨path, hpath, h⟩ := exists_of_bind_eq_ok h
    obtain rfl := Except.ok.inj h
    intro command hcommand
    rw [List.mem_singleton.mp hcommand, passesFrom_append]
    refine ⟨passesFrom_own ?_, passesFrom_pathWords hpath⟩
    cases staged with
    | true =>
      intro word hword
      have hcases : word = .own "diff" ∨ word = .own "--staged" := by simpa using hword
      rcases hcases with rfl | rfl
      · exact ⟨"diff", by decide, rfl⟩
      · exact ⟨"--staged", by decide, rfl⟩
    | false =>
      intro word hword
      have hword : word = .own "diff" := by simpa using hword
      exact ⟨"diff", by decide, hword⟩
  | gitLog =>
    obtain ⟨limit, -, h⟩ := exists_of_bind_eq_ok h
    obtain ⟨path, hpath, h⟩ := exists_of_bind_eq_ok h
    obtain rfl := Except.ok.inj h
    intro command hcommand
    rw [List.mem_singleton.mp hcommand, passesFrom_append]
    exact ⟨⟨passes_own (by decide), passes_own (by decide), passes_own (by decide),
      passes_own (by decide), rfl, trivial⟩, passesFrom_pathWords hpath⟩
  | gitShow => exact absurd rfl hne
  | gitCommit => exact absurd hread (by decide)
  | gitCheckoutBranch => exact absurd hread (by decide)
  | gitCreateBranch => exact absurd hread (by decide)

/-- `git_show` passes on no option exactly if its revision is none. -/
theorem passesFrom_show_iff {commands : List (List Word)}
    (h : host.commands repository arguments .gitShow = .ok commands) :
    (∀ command ∈ commands, host.PassesFrom repository [] command) ↔
      ∀ revision, arguments.lookup "revision" = some (.str revision) →
        revision.toList.head? ≠ some '-' := by
  obtain ⟨revision, hrevision, h⟩ := exists_of_bind_eq_ok h
  obtain ⟨path, hpath, h⟩ := exists_of_bind_eq_ok h
  obtain rfl := Except.ok.inj h
  have hpasses : (∀ command ∈ [[Word.own "show", .own "--stat", .own "--patch",
      .revision revision] ++ pathWords path], host.PassesFrom repository [] command) ↔
      revision.toList.head? ≠ some '-' := by
    rw [List.forall_mem_singleton, passesFrom_append]
    constructor
    · exact fun hpasses => hpasses.1.2.2.2.1
    · exact fun hdash =>
        ⟨⟨passes_own (by decide), passes_own (by decide), passes_own (by decide), hdash, trivial⟩,
          passesFrom_pathWords hpath⟩
  rw [hpasses]
  cases hlookup : arguments.lookup "revision" with
  | none =>
    rw [hlookup] at hrevision
    have hhead : revision = "HEAD" := (Except.ok.inj hrevision).symm
    rw [hhead]
    exact iff_of_true (by decide) nofun
  | some value =>
    rw [hlookup, Option.getD_some] at hrevision
    have hvalue : value = .str revision := by
      rw [parseText.eq_def] at hrevision
      split at hrevision
      · rename_i text hsome
        by_cases hempty : text = ""
        · rw [if_pos hempty] at hrevision
          exact absurd hrevision nofun
        · rw [if_neg hempty] at hrevision
          rw [← Except.ok.inj hrevision]
          exact Option.some.inj hsome
      · exact absurd hrevision nofun
    rw [hvalue]
    constructor
    · intro hdash other hother
      rw [← PyJson.str.inj (Option.some.inj hother)]
      exact hdash
    · exact fun hall => hall revision rfl

/-- What a call that is accepted runs. -/
theorem exists_commands_of_execute {tool : GitTool} {run : Run}
    (h : host.execute tool arguments = .ok run) :
    ∃ commands, host.commands run.repository arguments tool = .ok commands ∧
      run.requests = commands.map request := by
  obtain ⟨⟨project, repository⟩, -, h⟩ := exists_of_bind_eq_ok h
  obtain ⟨commands, hcommands, h⟩ := exists_of_bind_eq_ok h
  obtain ⟨checked, -, h⟩ := exists_of_bind_eq_ok h
  obtain rfl := Except.ok.inj h
  exact ⟨commands, hcommands, rfl⟩

/-- **A read-only tool passes on no option of the model exactly if** it is not `git_show` or its
revision does not start with a dash. -/
theorem passes_iff (host : Host) (tool : GitTool) (arguments : PyDict) (run : Run)
    (hread : ReadOnly tool.definition) (h : host.execute tool arguments = .ok run) :
    (∀ request ∈ run.requests, host.PassesFrom run.repository [] request.words) ↔
      (tool = .gitShow → ∀ revision, arguments.lookup "revision" = some (.str revision) →
        revision.toList.head? ≠ some '-') := by
  obtain ⟨commands, hcommands, hrequests⟩ := exists_commands_of_execute h
  rw [hrequests, List.forall_mem_map]
  by_cases htool : tool = .gitShow
  · subst htool
    have hshow := passesFrom_show_iff hcommands
    constructor
    · exact fun hpasses _ => hshow.mp hpasses
    · exact fun hrevision => hshow.mpr (hrevision rfl)
  · exact iff_of_true (passesFrom_of_ne_show hread htool hcommands) fun he => absurd he htool

/-- **The repository is only read**: a read-only tool does not ask for more. -/
theorem access_of_readOnly {tool : GitTool} {run : Run} (hread : ReadOnly tool.definition)
    (h : host.execute tool arguments = .ok run) :
    ∀ request ∈ run.requests, request.access = .readOnly := by
  obtain ⟨commands, hcommands, hrequests⟩ := exists_commands_of_execute h
  rw [hrequests, List.forall_mem_map]
  have hsubcommand : ∀ command ∈ commands, ∃ subcommand rest,
      command = .own subcommand :: rest ∧ subcommand ∉ ["add", "commit", "checkout"] ∧
        (subcommand = "branch" → Word.own "--list" ∈ rest) := by
    cases tool with
    | gitStatus =>
      obtain rfl := Except.ok.inj hcommands
      exact List.forall_mem_singleton.mpr ⟨"status", _, rfl, by decide, by decide⟩
    | gitListBranches =>
      obtain rfl := Except.ok.inj hcommands
      exact List.forall_mem_singleton.mpr ⟨"branch", _, rfl, by decide, by decide⟩
    | gitDiff =>
      obtain ⟨staged, -, hcommands⟩ := exists_of_bind_eq_ok hcommands
      obtain ⟨path, -, hcommands⟩ := exists_of_bind_eq_ok hcommands
      obtain rfl := Except.ok.inj hcommands
      exact List.forall_mem_singleton.mpr
        ⟨"diff", _, rfl, by decide, fun he => absurd he (by decide)⟩
    | gitLog =>
      obtain ⟨limit, -, hcommands⟩ := exists_of_bind_eq_ok hcommands
      obtain ⟨path, -, hcommands⟩ := exists_of_bind_eq_ok hcommands
      obtain rfl := Except.ok.inj hcommands
      exact List.forall_mem_singleton.mpr
        ⟨"log", _, rfl, by decide, fun he => absurd he (by decide)⟩
    | gitShow =>
      obtain ⟨revision, -, hcommands⟩ := exists_of_bind_eq_ok hcommands
      obtain ⟨path, -, hcommands⟩ := exists_of_bind_eq_ok hcommands
      obtain rfl := Except.ok.inj hcommands
      exact List.forall_mem_singleton.mpr
        ⟨"show", _, rfl, by decide, fun he => absurd he (by decide)⟩
    | gitCommit => exact absurd hread (by decide)
    | gitCheckoutBranch => exact absurd hread (by decide)
    | gitCreateBranch => exact absurd hread (by decide)
  intro command hcommand
  obtain ⟨subcommand, rest, rfl, hwrites, hlist⟩ := hsubcommand command hcommand
  refine if_neg ?_
  rw [List.map_cons, writing, Bool.or_eq_true, Bool.and_eq_true, decide_eq_true_iff,
    decide_eq_true_iff, decide_eq_true_iff]
  rintro (hin | ⟨hbranch, hnot⟩)
  · exact hwrites hin
  · exact hnot (List.mem_cons_of_mem _ (List.mem_map_of_mem (hlist hbranch)))

/-- A host with one repository and without links. -/
def plainHost : Host where
  realpath path := path.filter fun part =>
    part ≠ "" ∧ part ≠ "." ∧ part ≠ ".." ∧ '/' ∉ part.toList
  isDir _ := true
  realpath_realpath path := by simp only [List.filter_filter, Bool.and_self]
  hasGit _ := true
  resolveRoot _ _ := .ok (none, ["srv", "repo"])
  isName path part hpart := of_decide_eq_true (List.mem_filter.mp hpart).2

theorem passes_show_head : ∃ run,
    plainHost.execute .gitShow [("revision", .str "HEAD"), ("path", .str "a/b")] = .ok run ∧
      ∀ request ∈ run.requests, plainHost.PassesFrom run.repository [] request.words := by
  refine ⟨_, rfl, (passes_iff plainHost .gitShow
    [("revision", .str "HEAD"), ("path", .str "a/b")] _ (by decide) rfl).mpr ?_⟩
  intro _ revision hrevision
  have htext : revision = "HEAD" := (PyJson.str.inj (Option.some.inj hrevision)).symm
  rw [htext]
  decide

/-- **The revision is an option** that makes git write a file. -/
theorem show_passes_output : ∃ run,
    plainHost.execute .gitShow [("revision", .str "--output=notes.txt")] = .ok run ∧
      ReadOnly GitTool.gitShow.definition ∧
        ∃ request ∈ run.requests, ¬plainHost.PassesFrom run.repository [] request.words := by
  refine ⟨_, rfl, by decide, _, List.mem_cons_self, ?_⟩
  intro hpasses
  exact hpasses.2.2.2.1 (by decide +kernel)

end EvernightAI.RestrictedGit

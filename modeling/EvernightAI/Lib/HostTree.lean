import EvernightAI.Lib.PosixPath

/-!
# A host's file tree

A `HostTree` is what a program can ask about the paths of a host at one moment: what a path denotes
with all links resolved, whether something is there, what a link points to, what a file holds.
The operations on paths themselves (`parent`, `join`, `abspath`) do not look at it.

Two paths overlap if one of them is inside the other; `Apart` is that no path of a list overlaps a
given one with its links resolved.
-/

namespace PosixPath

namespace PurePath

/-- `str(path)` -/
def str (path : PurePath) : String :=
  match path.root with
  | .relative => if path.parts = [] then "." else "/".intercalate path.parts
  | .slash => "/" ++ "/".intercalate path.parts
  | .slashes => "//" ++ "/".intercalate path.parts

/-- `path.name` -/
def name (path : PurePath) : String := path.parts.getLast?.getD ""

/-- `path.parent` -/
def parent (path : PurePath) : PurePath := { path with parts := path.parts.dropLast }

/-- `path.parents`, the nearest first. -/
def parents (path : PurePath) : List PurePath :=
  path.parts.inits.dropLast.reverse.map fun parts => { path with parts := parts }

/-- `path / other` -/
def join (path other : PurePath) : PurePath :=
  if other.root = .relative then { path with parts := path.parts ++ other.parts } else other

/-- The parts of a path without `..`; at the root it has no effect. -/
def normalized (parts : List String) : List String :=
  parts.foldl (fun kept part => if part = ".." then kept.dropLast else kept ++ [part]) []

/-- `os.path.abspath(path)` of an absolute path. -/
def abspath (path : PurePath) : PurePath := { path with parts := normalized path.parts }

/-- `path.is_relative_to(other)` -/
def IsRelativeTo (path other : PurePath) : Prop :=
  path.root = other.root ∧ other.parts <+: path.parts

instance (path other : PurePath) : Decidable (path.IsRelativeTo other) :=
  inferInstanceAs (Decidable (_ ∧ _))

/-- One of the paths is the other one or inside it. -/
def Overlaps (path other : PurePath) : Prop := path.IsRelativeTo other ∨ other.IsRelativeTo path

instance (path other : PurePath) : Decidable (path.Overlaps other) :=
  inferInstanceAs (Decidable (_ ∨ _))

theorem isRelativeTo_refl (path : PurePath) : path.IsRelativeTo path := ⟨rfl, List.prefix_refl _⟩

theorem overlaps_comm {path other : PurePath} : path.Overlaps other ↔ other.Overlaps path := or_comm

end PurePath

/-- A host's files at one moment. -/
structure HostTree where
  /-- `Path.resolve()` -/
  resolve : PurePath → PurePath
  /-- The working directory of the program that asks. -/
  cwd : PurePath
  pathExists : PurePath → Bool
  isDir : PurePath → Bool
  isFile : PurePath → Bool
  /-- Whether the file may be executed. -/
  isExecutable : PurePath → Bool
  /-- The target of a link. -/
  readlink : PurePath → Option PurePath
  /-- The size of a file, if it can be asked for. -/
  size : PurePath → Option ℕ
  /-- The text of a file, if it can be read and is one. -/
  readText : PurePath → Option (List Char)
  /-- A path without links is its own. -/
  resolve_resolve : ∀ path, resolve (resolve path) = resolve path

namespace HostTree

variable (host : HostTree)

/-- `path.absolute()` -/
def absolute (path : PurePath) : PurePath := host.cwd.join path

/-- `path.is_symlink()` -/
def isSymlink (path : PurePath) : Bool := (host.readlink path).isSome

/-- **Apart**: with its links resolved, the path overlaps none of the given ones. -/
def Apart (path : PurePath) (others : List PurePath) : Prop :=
  ∀ other ∈ others, ¬ (host.resolve path).Overlaps other

instance (path : PurePath) (others : List PurePath) : Decidable (host.Apart path others) :=
  inferInstanceAs (Decidable (∀ _ ∈ _, _))

variable {host} {path : PurePath} {others : List PurePath}

theorem apart_resolve_iff : host.Apart (host.resolve path) others ↔ host.Apart path others := by
  rw [Apart, Apart, host.resolve_resolve]

end HostTree

end PosixPath

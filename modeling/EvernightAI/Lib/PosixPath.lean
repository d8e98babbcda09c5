import Mathlib.Data.List.Infix
import Mathlib.Data.String.Basic

/-!
# POSIX paths and what they denote

A `PurePath` is a path as a text names it: its leading slashes and its parts, without empty and
`.` parts. A `FileSystem` says what an absolute path denotes at one moment: `realpath` follows the
links and `..` parts, `isDir` asks for an existing directory. `FileSystem.Inside` is confinement
with all links resolved.
-/

namespace PosixPath

/-- `text.split(sep)` -/
def pieces (sep : Char) (text : String) : List String :=
  (text.toList.splitOn sep).map String.ofList

/-- Where a path starts; exactly two leading slashes are kept. -/
inductive Root
  | relative
  | slash
  | slashes
  deriving DecidableEq, Repr

/-- `PurePosixPath` -/
structure PurePath where
  root : Root
  parts : List String
  deriving DecidableEq, Repr

def PurePath.parse (path : String) : PurePath where
  root :=
    match path.toList with
    | '/' :: '/' :: '/' :: _ => .slash
    | '/' :: '/' :: _ => .slashes
    | '/' :: _ => .slash
    | _ => .relative
  parts := (pieces '/' path).filter fun part => part ≠ "" ∧ part ≠ "."

/-- A text that does not start with a slash is a relative path. -/
theorem PurePath.root_parse {path : String} (h : path.toList.head? ≠ some '/') :
    (PurePath.parse path).root = .relative := by
  rw [PurePath.parse]
  dsimp only
  split
  · rename_i hpath
    exact absurd (congrArg List.head? hpath) h
  · rename_i hpath
    exact absurd (congrArg List.head? hpath) h
  · rename_i hpath
    exact absurd (congrArg List.head? hpath) h
  · rfl

/-- **Names that are joined are parsed back.** -/
theorem PurePath.parse_intercalate {parts : List String} (hne : parts ≠ [])
    (h : ∀ part ∈ parts, part ≠ "" ∧ part ≠ "." ∧ '/' ∉ part.toList) :
    PurePath.parse ("/".intercalate parts) = ⟨.relative, parts⟩ := by
  have htext : ("/".intercalate parts).toList = ['/'].intercalate (parts.map String.toList) := by
    rw [String.toList_intercalate]
    rfl
  have hroot : (PurePath.parse ("/".intercalate parts)).root = .relative := by
    refine PurePath.root_parse ?_
    obtain ⟨part, rest, rfl⟩ := List.exists_cons_of_ne_nil hne
    obtain ⟨hpart, -, hslash⟩ := h part List.mem_cons_self
    have hchars : part.toList ≠ [] := fun he => hpart (String.toList_eq_nil_iff.mp he)
    obtain ⟨c, chars, hc⟩ := List.exists_cons_of_ne_nil hchars
    have hhead : (['/'].intercalate (part.toList :: rest.map String.toList)).head? = some c := by
      rw [hc]
      cases rest with
      | nil => rfl
      | cons next rest => rfl
    rw [htext, List.map_cons, hhead]
    intro he
    rw [hc, Option.some.inj he] at hslash
    exact hslash List.mem_cons_self
  have hpieces : pieces '/' ("/".intercalate parts) = parts := by
    rw [pieces, htext, List.splitOn_intercalate, List.map_map]
    · exact (List.map_congr_left fun part _ => String.ofList_toList).trans (List.map_id parts)
    · intro chars hchars
      obtain ⟨part, hpart, rfl⟩ := List.mem_map.mp hchars
      exact (h part hpart).2.2
    · exact fun he => hne (List.map_eq_nil_iff.mp he)
  have hparts : (PurePath.parse ("/".intercalate parts)).parts = parts := by
    have hfilter : (pieces '/' ("/".intercalate parts)).filter
        (fun part => part ≠ "" ∧ part ≠ ".") = parts := by
      rw [hpieces, List.filter_eq_self]
      exact fun part hpart => decide_eq_true ⟨(h part hpart).1, (h part hpart).2.1⟩
    exact hfilter
  exact congrArg₂ PurePath.mk hroot hparts

/-- `path.relative_to(root)` for absolute paths, by their parts. -/
def relativeTo (root path : List String) : Option (List String) :=
  if root <+: path then some (path.drop root.length) else none

theorem relativeTo_eq_some {root path relative : List String} :
    relativeTo root path = some relative ↔ path = root ++ relative := by
  unfold relativeTo
  constructor
  · intro h
    split_ifs at h with hprefix
    · obtain ⟨rest, rfl⟩ := hprefix
      rw [← Option.some.inj h, List.drop_left]
  · rintro rfl
    rw [if_pos (List.prefix_append _ _), List.drop_left]

/-- A file system at one moment: what the absolute path with these parts denotes. -/
structure FileSystem where
  realpath : List String → List String
  isDir : List String → Bool
  /-- A path without links is its own. -/
  realpath_realpath : ∀ path, realpath (realpath path) = realpath path

namespace FileSystem

variable {fs : FileSystem} {root path : List String}

/-- The path denotes an existing directory inside the root, links resolved. -/
def Inside (fs : FileSystem) (root path : List String) : Prop :=
  fs.isDir path = true ∧ root <+: fs.realpath path

/-- What is found below the root after all links are resolved leads inside it. -/
theorem prefix_of_relativeTo {relative : List String}
    (h : relativeTo root (fs.realpath path) = some relative) :
    root <+: fs.realpath (root ++ relative) := by
  rw [relativeTo_eq_some] at h
  rw [← h, fs.realpath_realpath path, h]
  exact List.prefix_append _ _

end FileSystem

end PosixPath

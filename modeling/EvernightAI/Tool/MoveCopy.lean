import EvernightAI.Lib.DirectoryTree
import EvernightAI.Lib.PosixPath
import EvernightAI.Lib.PyJson
import EvernightAI.Schema.Base

/-!
# Moving and copying paths

`move_path` and `copy_path` clear the destination and make the directories above it before they
move or copy. Whatever the two paths are to each other, the tool then either transfers the content
or raises; `Lossless` asks that a transfer changes nothing else and that a call that raises changes
nothing at all.

* `transferLossless_move_iff` : a move is lossless exactly if it neither overwrites a destination
  above, below or at the source nor makes a directory inside the source.
* `transferLossless_copy_iff` : the same for a copy, where only a copy right below the source ends.
* `lossless_iff` : so are the calls of the two tools.
-/

namespace EvernightAI.PathTools

open DirectoryTree PosixPath

/-- What a call raises. -/
inductive Raised
  /-- `ToolInputError` -/
  | toolInput (message : String)
  /-- Any other error, as of the operating system, of `shutil` or of decoding. -/
  | os
  deriving DecidableEq, Repr

/-- `type` of the result of a copy. -/
inductive PathType
  | file | directory
  deriving DecidableEq, Repr

/-- What a call returns. -/
structure Transfer where
  sourcePath : String
  destinationPath : String
  type : Option PathType
  overwritten : Bool
  project : Option String
  deriving DecidableEq, Repr

/-- Where a tool finds its root and the paths in it. -/
structure ProjectRoots where
  /-- `ProjectRootResolver.resolve` of the `project` and `_working_directory` arguments. -/
  resolveRoot : Option PyJson → Option PyJson → Except String (Option String × Path)
  /-- `(root / path).resolve()` -/
  resolve : Path → String → Path

/-- The tool and the host it works on. -/
structure PathTool extends ProjectRoots where
  allowOverwrite : Bool

/-- `_relative_path` -/
def relativePath (root path : Path) : String :=
  match (path.drop root.length) with
  | [] => "."
  | parts => "/".intercalate parts

/-- `_resolve_root` -/
def ProjectRoots.rootOf (roots : ProjectRoots) (arguments : PyDict) :
    Except Raised (Option String × Path) :=
  (roots.resolveRoot (arguments.lookup "project")
    (arguments.lookup "_working_directory")).mapError .toolInput

/-- `_resolve_path` -/
def ProjectRoots.resolvePath (roots : ProjectRoots) (root : Path) (rawPath : Option PyJson) :
    Except Raised Path :=
  match rawPath with
  | some (.str raw) =>
    if raw = "" then .error (.toolInput "The path must be a non-empty string")
    else match relativeTo root (roots.resolve root raw) with
      | some _ => .ok (roots.resolve root raw)
      | none => .error (.toolInput "The path must stay inside the root directory")
  | _ => .error (.toolInput "The path must be a non-empty string")

/-- What the checks of a call let through. -/
structure Request where
  project : Option String
  root : Path
  source : Path
  destination : Path
  deriving DecidableEq, Repr

variable {α : Type*}

/-- `Path.name` -/
def name (path : Path) : String := path.getLast?.getD ""

/-- The checks of a call: nothing is touched before all of them have passed. -/
def PathTool.request (tool : PathTool) (verb : String) (arguments : PyDict) (t : FileTree α) :
    Except Raised Request := do
  let (project, root) ← tool.rootOf arguments
  let source ← tool.resolvePath root (arguments.lookup "source_path")
  let destination ← tool.resolvePath root (arguments.lookup "destination_path")
  if t.Exists source then
    match (arguments.lookup "overwrite").getD (.bool tool.allowOverwrite) with
    | .bool overwrite =>
      if overwrite = true ∧ tool.allowOverwrite = false then
        .error (.toolInput s!"Overwriting {verb} paths is not enabled")
      else if t.Exists destination ∧ overwrite = false then
        .error (.toolInput s!"The destination {name destination} exists")
      else .ok { project, root, source, destination }
    | _ => .error (.toolInput "The overwrite value must be a boolean")
  else .error (.toolInput s!"The path {name source} does not exist")

/-- `shutil.rmtree` or `unlink` of a destination that exists. -/
def clear (t : FileTree α) (destination : Path) : FileTree α :=
  if t.Exists destination then t.remove destination else t

theorem clear_entry (t : FileTree α) (destination : Path) :
    (clear t destination).entry destination = none := by
  unfold clear
  split_ifs with h
  · exact FileTree.entry_remove_of_prefix List.prefix_rfl
  · exact not_not.mp h

/-- What moves or copies to a path that is free: `path_type` and the tree then, or what is left
after an error. -/
abbrev Mover (α : Type*) :=
  (t : FileTree α) → (source destination : Path) → t.Free destination →
    Except (FileTree α) (Option PathType × FileTree α)

/-- What a call does after its checks: `shutil.rmtree` or `unlink`, then `mkdir`, then the move or
the copy. -/
def transfer (mover : Mover α) (t : FileTree α) (source destination : Path) :
    Except (FileTree α) (Option PathType × FileTree α) :=
  if h : (clear t destination).Blocked destination then .error (clear t destination)
  else
    mover ((clear t destination).mkdirParents destination h) source destination
      (FileTree.free_mkdirParents (clear_entry t destination) h)

/-- A call of one of the tools. -/
def PathTool.execute (tool : PathTool) (verb : String) (mover : Mover α) (arguments : PyDict)
    (t : FileTree α) : Except Raised Transfer × FileTree α :=
  match tool.request verb arguments t with
  | .error e => (.error e, t)
  | .ok request =>
    match transfer mover t request.source request.destination with
    | .error left => (.error .os, left)
    | .ok (type, after) =>
      (.ok {
        sourcePath := relativePath request.root request.source
        destinationPath := relativePath request.root request.destination
        type
        overwritten := decide (t.Exists request.destination)
        project := request.project }, after)

/-! ### Moving -/

/-- `shutil.move`, to a path where nothing stands and whose parent exists. -/
def move : Mover α := fun t source destination free =>
  if ¬t.Exists source then .error t
  else if h : source <+: destination then .error t
  else .ok (none, t.moveTo source destination free h)

/-- `RestrictedMovePathTool.execute` -/
def PathTool.movePath (tool : PathTool) (arguments : PyDict) (t : FileTree α) :
    Except Raised Transfer × FileTree α :=
  tool.execute "moved" move arguments t

/-! ### Copying -/

/-- `shutil.copytree` to a place deeper inside the directory that it copies: it finds its own copies
again until an error ends it. -/
structure SelfCopy (α : Type*) where
  /-- What it leaves. -/
  leftover : FileTree α → Path → Path → FileTree α
  /-- It makes the destination first. -/
  leftover_destination : ∀ t source destination,
    (leftover t source destination).entry destination = some .dir

/-- The destination lies in a directory inside the source. -/
def Deep (source destination : Path) : Prop :=
  source <+: destination ∧ source.length + 1 < destination.length

instance (source destination : Path) : Decidable (Deep source destination) :=
  inferInstanceAs (Decidable (_ ∧ _))

/-- `shutil.copytree` or `shutil.copy2`, to a path where nothing stands and whose parent exists.
The names in a directory are read before its copy is made, so that a copy right below it ends. -/
def copy (selfCopy : SelfCopy α) : Mover α := fun t source destination free =>
  if t.IsDir source then
    if Deep source destination then .error (selfCopy.leftover t source destination)
    else .ok (some .directory, t.copyTo source destination free)
  else if t.IsFile source then .ok (some .file, t.copyTo source destination free)
  else .error t

/-- `RestrictedCopyPathTool.execute` -/
def PathTool.copyPath (tool : PathTool) (selfCopy : SelfCopy α) (arguments : PyDict)
    (t : FileTree α) : Except Raised Transfer × FileTree α :=
  tool.execute "copied" (copy selfCopy) arguments t

/-! ### What a call must keep -/

/-- The content at the source before is the content at the destination after; everything else is
as it was, or a new directory above the destination. What is `moved` is not asked for at its
source. -/
structure Transferred (moved : Prop) (before after : FileTree α) (source destination : Path) :
    Prop where
  content : ∀ rest, after.entry (destination ++ rest) = before.entry (source ++ rest)
  unchanged : ∀ path, ¬destination <+: path → ¬(moved ∧ source <+: path) →
    after.entry path = before.entry path ∨
      FileTree.Above path destination ∧ before.entry path = none ∧ after.entry path = some .dir

/-- A call transfers the content, or it raises and the tree is as it was. -/
def Lossless (moved : Prop) (checked : Except Raised Request) (before : FileTree α)
    (outcome : Except Raised Transfer × FileTree α) : Prop :=
  (∀ e, outcome.1 = .error e → outcome.2 = before) ∧
    ∀ result, outcome.1 = .ok result → ∃ request, checked = .ok request ∧
      Transferred moved before outcome.2 request.source request.destination

section

variable {tool : PathTool} {verb : String} {arguments : PyDict} {t : FileTree α} {mover : Mover α}
  {moved : Prop} {source destination : Path} {request : Request}

/-- What the checks let through has a source. -/
theorem PathTool.exists_of_request (h : tool.request verb arguments t = .ok request) :
    t.Exists request.source := by
  unfold PathTool.request at h
  obtain ⟨⟨project, root⟩, -, h⟩ := exists_of_bind_eq_ok h
  obtain ⟨source, -, h⟩ := exists_of_bind_eq_ok h
  obtain ⟨destination, -, h⟩ := exists_of_bind_eq_ok h
  split_ifs at h with hexists
  suffices request.source = source from this ▸ hexists
  split at h
  · split_ifs at h
    exact (Except.ok.inj h) ▸ rfl
  · cases h

/-- A transfer loses nothing. -/
def TransferLossless (moved : Prop) (t : FileTree α) (source destination : Path)
    (outcome : Except (FileTree α) (Option PathType × FileTree α)) : Prop :=
  (∀ left, outcome = .error left → left = t) ∧
    ∀ type after, outcome = .ok (type, after) → Transferred moved t after source destination

theorem transferLossless_error_iff {left : FileTree α} :
    TransferLossless moved t source destination (.error left) ↔ left = t := by
  constructor
  · intro h
    exact h.1 left rfl
  · rintro rfl
    refine ⟨fun other h => (Except.error.inj h).symm, fun type after h => ?_⟩
    cases h

theorem transferLossless_ok_iff {type : Option PathType} {after : FileTree α} :
    TransferLossless moved t source destination (.ok (type, after)) ↔
      Transferred moved t after source destination := by
  constructor
  · intro h
    exact h.2 type after rfl
  · intro h
    refine ⟨fun left h => ?_, fun type' after' heq => ?_⟩
    · cases h
    · obtain ⟨-, rfl⟩ := Prod.mk.inj (Except.ok.inj heq)
      exact h

/-- A call is lossless exactly if its transfer is, once the checks have passed. -/
theorem PathTool.forall_transferLossless_iff :
    Lossless moved (tool.request verb arguments t) t (tool.execute verb mover arguments t) ↔
      ∀ request, tool.request verb arguments t = .ok request →
        TransferLossless moved t request.source request.destination
          (transfer mover t request.source request.destination) := by
  unfold Lossless PathTool.execute
  cases hrequest : tool.request verb arguments t with
  | error e =>
    refine iff_of_true ⟨fun _ _ => rfl, fun result h => ?_⟩ fun request h => ?_
    · cases h
    · cases h
  | ok request =>
    dsimp only
    have hall : (∀ other, (.ok request : Except Raised Request) = .ok other →
        TransferLossless moved t other.source other.destination
          (transfer mover t other.source other.destination)) ↔
        TransferLossless moved t request.source request.destination
          (transfer mover t request.source request.destination) := by
      constructor
      · intro h
        exact h request rfl
      · intro h other hother
        exact Except.ok.inj hother ▸ h
    rw [hall]
    cases transfer mover t request.source request.destination with
    | error left =>
      rw [transferLossless_error_iff]
      constructor
      · intro h
        exact h.1 .os rfl
      · intro h
        refine ⟨fun _ _ => h, fun result hresult => ?_⟩
        cases hresult
    | ok made =>
      rw [transferLossless_ok_iff]
      constructor
      · rintro ⟨-, hok⟩
        obtain ⟨found, hfound, htransferred⟩ := hok _ rfl
        exact Except.ok.inj hfound ▸ htransferred
      · intro h
        refine ⟨fun e herror => ?_, fun _ _ => ⟨request, rfl, h⟩⟩
        cases herror

/-! ### The tree that is moved or copied in -/

theorem exists_transfer_eq {base : FileTree α} (h : ¬(clear t destination).Blocked destination)
    (hbase : (clear t destination).mkdirParents destination h = base) :
    ∃ free, transfer mover t source destination = mover base source destination free := by
  subst hbase
  exact ⟨_, dif_neg h⟩

/-- A destination that exists is only removed: the directories above it are there. -/
theorem transfer_of_exists (h : t.Exists destination) :
    ∃ free, transfer mover t source destination =
      mover (t.remove destination) source destination free := by
  have hclear : clear t destination = t.remove destination := if_pos h
  have hentry : ∀ above, FileTree.Above above destination →
      (t.remove destination).entry above = some .dir := by
    intro above habove
    rw [FileTree.entry_remove_of_not_prefix fun hpre =>
      habove.2 (habove.1.eq_of_length_le hpre.length_le)]
    exact FileTree.entry_of_above h habove
  have hblocked : ¬(clear t destination).Blocked destination := by
    rw [hclear, FileTree.blocked_iff]
    rintro ⟨above, habove, content, hfile⟩
    rw [hentry above habove] at hfile
    cases hfile
  refine exists_transfer_eq hblocked ((FileTree.mkdirParents_eq_self ?_).trans hclear)
  intro above habove
  rw [hclear, FileTree.Exists, hentry above habove]
  exact Option.some_ne_none _

theorem clear_of_not_exists (h : ¬t.Exists destination) : clear t destination = t := if_neg h

/-- A destination below a file is refused before anything changes. -/
theorem transfer_of_blocked (h : ¬t.Exists destination) (hblocked : t.Blocked destination) :
    transfer mover t source destination = .error t := by
  have hclear := clear_of_not_exists h
  unfold transfer
  rw [dif_pos (hclear.symm ▸ hblocked), hclear]

/-- A destination that is missing gets the directories above it. -/
theorem transfer_of_not_exists (h : ¬t.Exists destination) (hblocked : ¬t.Blocked destination) :
    ∃ free, transfer mover t source destination =
      mover (t.mkdirParents destination hblocked) source destination free := by
  have hclear := clear_of_not_exists h
  refine exists_transfer_eq (hclear.symm ▸ hblocked) ?_
  congr 1

/-- The tree in which the move or the copy happens: at the source it is the tree before. -/
structure Prepared (t base : FileTree α) (source destination : Path) : Prop where
  source : ∀ rest, base.entry (source ++ rest) = t.entry (source ++ rest)
  other : ∀ path, ¬destination <+: path →
    base.entry path = t.entry path ∨
      FileTree.Above path destination ∧ t.entry path = none ∧ base.entry path = some .dir

theorem prepared_remove (hsource : ¬source <+: destination)
    (hdestination : ¬destination <+: source) :
    Prepared t (t.remove destination) source destination where
  source _ := FileTree.entry_remove_of_not_prefix fun hpre =>
    (FileTree.prefix_or_prefix hpre).elim hdestination hsource
  other _ hpath := .inl (FileTree.entry_remove_of_not_prefix hpath)

theorem prepared_mkdirParents {hblocked : ¬t.Blocked destination}
    (hsource : ∀ rest, FileTree.Above (source ++ rest) destination → t.Exists (source ++ rest)) :
    Prepared t (t.mkdirParents destination hblocked) source destination where
  source rest := by
    obtain heq | ⟨habove, hnone, -⟩ := FileTree.entry_mkdirParents (h := hblocked) (source ++ rest)
    · exact heq
    · exact absurd hnone (hsource rest habove)
  other path _ := FileTree.entry_mkdirParents path

namespace Prepared

variable {base : FileTree α} {free : base.Free destination}

theorem transferred_copyTo (h : Prepared t base source destination) :
    Transferred moved t (base.copyTo source destination free) source destination where
  content rest := (FileTree.entry_copyTo rest).trans (h.source rest)
  unchanged path hpath _ := by
    rw [FileTree.entry_copyTo_of_not_prefix hpath]
    exact h.other path hpath

theorem transferred_moveTo {apart : ¬source <+: destination}
    (h : Prepared t base source destination) :
    Transferred True t (base.moveTo source destination free apart) source destination where
  content rest := (FileTree.entry_moveTo rest).trans (h.source rest)
  unchanged path hpath hsource := by
    rw [FileTree.entry_moveTo_of_not_prefix hpath fun hpre => hsource ⟨trivial, hpre⟩]
    exact h.other path hpath

/-- What exists at the source is there to be moved or copied. -/
theorem exists_source (h : Prepared t base source destination) (hsource : t.Exists source) :
    base.Exists source := by
  have heq := h.source []
  rw [List.append_nil] at heq
  rw [FileTree.Exists, heq]
  exact hsource

end Prepared

theorem ne_of_remove (h : t.Exists destination) : t.remove destination ≠ t := by
  intro heq
  have hnone : (t.remove destination).entry destination = none :=
    FileTree.entry_remove_of_prefix List.prefix_rfl
  rw [heq] at hnone
  exact h hnone

/-! ### Moving is lossless -/

/-- A destination that exists is neither above nor below the source; one that is missing below the
source is refused, or needs no directory above it. -/
def MoveHarmless (t : FileTree α) (source destination : Path) : Prop :=
  (t.Exists destination → ¬source <+: destination ∧ ¬destination <+: source) ∧
    (¬t.Exists destination → source <+: destination →
      t.Blocked destination ∨ t.Exists destination.dropLast)

theorem move_of_exists {base : FileTree α} {free : base.Free destination} (h : base.Exists source)
    (apart : ¬source <+: destination) :
    move base source destination free = .ok (none, base.moveTo source destination free apart) := by
  unfold move
  rw [if_neg (not_not.mpr h), dif_neg apart]

theorem move_error {base : FileTree α} {free : base.Free destination}
    (h : ¬base.Exists source ∨ source <+: destination) :
    move base source destination free = .error base := by
  unfold move
  by_cases hexists : base.Exists source
  · rw [if_neg (not_not.mpr hexists), dif_pos (h.resolve_left (not_not.mpr hexists))]
  · rw [if_pos hexists]

/-- A move whose source is there and does not lie above the destination is a transfer. -/
theorem Prepared.lossless_move {base : FileTree α} {free : base.Free destination}
    (h : Prepared t base source destination) (hsource : t.Exists source)
    (apart : ¬source <+: destination) :
    TransferLossless True t source destination (move base source destination free) := by
  rw [move_of_exists (h.exists_source hsource) apart, transferLossless_ok_iff]
  exact h.transferred_moveTo

theorem transferLossless_move_iff (hsource : t.Exists source) :
    TransferLossless True t source destination (transfer move t source destination) ↔
      MoveHarmless t source destination := by
  unfold MoveHarmless
  by_cases hexists : t.Exists destination
  · rw [and_iff_left fun hnot => absurd hexists hnot]
    obtain ⟨free, htransfer⟩ : ∃ free, transfer move t source destination =
        move (t.remove destination) source destination free := transfer_of_exists hexists
    rw [htransfer]
    by_cases hrelated : source <+: destination ∨ destination <+: source
    · -- The destination is gone, and the source with it or the move into itself is refused.
      have herror : ¬(t.remove destination).Exists source ∨ source <+: destination :=
        hrelated.elim .inr fun hpre =>
          .inl (not_not.mpr (FileTree.entry_remove_of_prefix hpre))
      rw [move_error herror, transferLossless_error_iff]
      exact iff_of_false (ne_of_remove hexists) fun h => not_or.mpr (h hexists) hrelated
    · have hapart := not_or.mp hrelated
      exact iff_of_true ((prepared_remove hapart.1 hapart.2).lossless_move hsource hapart.1)
        fun _ => hapart
  · rw [and_iff_right fun h => absurd h hexists]
    by_cases hblocked : t.Blocked destination
    · rw [transfer_of_blocked hexists hblocked, transferLossless_error_iff]
      exact iff_of_true rfl fun _ _ => .inl hblocked
    obtain ⟨free, htransfer⟩ : ∃ free, transfer move t source destination =
        move (t.mkdirParents destination hblocked) source destination free :=
      transfer_of_not_exists hexists hblocked
    rw [htransfer]
    by_cases hbelow : source <+: destination
    · -- `shutil.move` refuses, after the directories above the destination were made.
      rw [move_error (.inr hbelow), transferLossless_error_iff]
      have hne : destination ≠ [] := by
        rintro rfl
        rw [List.prefix_nil.mp hbelow] at hsource
        exact hexists hsource
      obtain ⟨path, name, rfl⟩ : ∃ path name, destination = path ++ [name] :=
        ⟨_, _, (List.dropLast_append_getLast hne).symm⟩
      rw [FileTree.mkdirParents_eq_self_iff, List.dropLast_concat]
      constructor
      · intro h _ _
        exact .inr h
      · intro h
        exact (h hexists hbelow).resolve_left hblocked
    · refine iff_of_true ((prepared_mkdirParents ?_).lossless_move hsource hbelow)
        fun _ h => absurd h hbelow
      intro rest habove
      exact absurd ((List.prefix_append source rest).trans habove.1) hbelow

/-! ### Copying is lossless -/

/-- A destination that exists is neither above nor below the source, unless the copy into the source
fails and leaves just what was there; one that is missing deep inside the source is refused. -/
def CopyHarmless (selfCopy : SelfCopy α) (t : FileTree α) (source destination : Path) : Prop :=
  (t.Exists destination → (¬source <+: destination ∧ ¬destination <+: source) ∨
      Deep source destination ∧
        selfCopy.leftover (t.remove destination) source destination = t) ∧
    (¬t.Exists destination → Deep source destination → t.Blocked destination)

variable {selfCopy : SelfCopy α}

theorem copy_of_exists {base : FileTree α} (free : base.Free destination) (h : base.Exists source)
    (hdeep : ¬Deep source destination) :
    ∃ type, copy selfCopy base source destination free =
      .ok (type, base.copyTo source destination free) := by
  unfold copy
  by_cases hdir : base.IsDir source
  · rw [if_pos hdir, if_neg hdeep]
    exact ⟨_, rfl⟩
  · have hfile : base.IsFile source := by
      by_contra hfile
      exact hdir (FileTree.entry_of_not_isFile h hfile)
    rw [if_neg hdir, if_pos hfile]
    exact ⟨_, rfl⟩

theorem copy_of_not_exists {base : FileTree α} {free : base.Free destination}
    (h : ¬base.Exists source) : copy selfCopy base source destination free = .error base := by
  have hnone : base.entry source = none := not_not.mp h
  have hdir : ¬base.IsDir source := by
    intro hdir
    have hentry : base.entry source = some .dir := hdir
    exact absurd (hnone.symm.trans hentry) (Option.some_ne_none _).symm
  have hfile : ¬base.IsFile source := by
    rintro ⟨content, hfile⟩
    rw [hnone] at hfile
    cases hfile
  unfold copy
  rw [if_neg hdir, if_neg hfile]

theorem copy_of_deep {base : FileTree α} {free : base.Free destination} (hdir : base.IsDir source)
    (hdeep : Deep source destination) :
    copy selfCopy base source destination free =
      .error (selfCopy.leftover base source destination) := by
  unfold copy
  rw [if_pos hdir, if_pos hdeep]

/-- A copy that is not made deep inside its source is a transfer. -/
theorem Prepared.lossless_copy {base : FileTree α} {free : base.Free destination}
    (h : Prepared t base source destination) (hsource : t.Exists source)
    (hdeep : ¬Deep source destination) :
    TransferLossless False t source destination
      (copy selfCopy base source destination free) := by
  obtain ⟨type, hcopy⟩ := copy_of_exists free (h.exists_source hsource) hdeep
  rw [hcopy, transferLossless_ok_iff]
  exact h.transferred_copyTo

/-- A destination that exists is lost to a copy of what lies above it. -/
theorem not_lossless_copy_below {free : (t.remove destination).Free destination}
    (hexists : t.Exists destination) (hbelow : source <+: destination)
    (hsource : (t.remove destination).Exists source) (hdeep : ¬Deep source destination) :
    ¬TransferLossless False t source destination
      (copy selfCopy (t.remove destination) source destination free) := by
  obtain ⟨type, hcopy⟩ := copy_of_exists free hsource hdeep
  rw [hcopy, transferLossless_ok_iff]
  intro htransferred
  obtain ⟨rest, rfl⟩ := hbelow
  have hcontent := htransferred.content rest
  rw [FileTree.entry_copyTo, FileTree.entry_remove_of_prefix List.prefix_rfl] at hcontent
  exact hexists hcontent.symm

theorem transferLossless_copy_iff (hsource : t.Exists source) :
    TransferLossless False t source destination (transfer (copy selfCopy) t source destination) ↔
      CopyHarmless selfCopy t source destination := by
  unfold CopyHarmless
  by_cases hexists : t.Exists destination
  · rw [and_iff_left fun hnot => absurd hexists hnot]
    obtain ⟨free, htransfer⟩ : ∃ free, transfer (copy selfCopy) t source destination =
        copy selfCopy (t.remove destination) source destination free := transfer_of_exists hexists
    rw [htransfer]
    by_cases habove : destination <+: source
    · rw [copy_of_not_exists (not_not.mpr (FileTree.entry_remove_of_prefix habove)),
        transferLossless_error_iff]
      refine iff_of_false (ne_of_remove hexists) fun h => ?_
      obtain hapart | ⟨hdeep, -⟩ := h hexists
      · exact hapart.2 habove
      · have hlength := habove.length_le
        have := hdeep.2
        omega
    have hentry := FileTree.entry_remove_of_not_prefix (t := t) habove
    by_cases hdeep : Deep source destination
    · have hdir : (t.remove destination).IsDir source := by
        rw [FileTree.IsDir, hentry]
        exact FileTree.entry_of_above hexists ⟨hdeep.1, fun heq => habove (heq ▸ List.prefix_rfl)⟩
      rw [copy_of_deep hdir hdeep, transferLossless_error_iff]
      constructor
      · intro h _
        exact .inr ⟨hdeep, h⟩
      · intro h
        exact ((h hexists).resolve_left fun hapart => hapart.1 hdeep.1).2
    by_cases hbelow : source <+: destination
    · have hremoved : (t.remove destination).Exists source := by
        rw [FileTree.Exists, hentry]
        exact hsource
      refine iff_of_false (not_lossless_copy_below hexists hbelow hremoved hdeep) fun h => ?_
      exact (h hexists).elim (fun hapart => hapart.1 hbelow) fun hself => hdeep hself.1
    · exact iff_of_true ((prepared_remove hbelow habove).lossless_copy hsource hdeep)
        fun _ => .inl ⟨hbelow, habove⟩
  · rw [and_iff_right fun h => absurd h hexists]
    by_cases hblocked : t.Blocked destination
    · rw [transfer_of_blocked hexists hblocked, transferLossless_error_iff]
      exact iff_of_true rfl fun _ _ => hblocked
    obtain ⟨free, htransfer⟩ : ∃ free, transfer (copy selfCopy) t source destination =
        copy selfCopy (t.mkdirParents destination hblocked) source destination free :=
      transfer_of_not_exists hexists hblocked
    rw [htransfer]
    by_cases hdeep : Deep source destination
    · -- `shutil.copytree` has made the destination before it fails.
      have hne : source ≠ destination := fun heq => hexists (heq ▸ hsource)
      rw [copy_of_deep (FileTree.entry_mkdirParents_of_above ⟨hdeep.1, hne⟩) hdeep,
        transferLossless_error_iff]
      refine iff_of_false (fun heq => ?_) fun h => hblocked (h hexists hdeep)
      refine hexists ?_
      rw [← heq, FileTree.Exists, selfCopy.leftover_destination]
      exact Option.some_ne_none _
    · refine iff_of_true ((prepared_mkdirParents ?_).lossless_copy hsource hdeep)
        fun _ h => absurd h hdeep
      intro rest habove
      have hbelow := (List.prefix_append source rest).trans habove.1
      have hlength : (source ++ rest).length < destination.length := by
        by_contra hlong
        exact habove.2 (habove.1.eq_of_length_le (by omega))
      have hshort : ¬source.length + 1 < destination.length := fun hlong => hdeep ⟨hbelow, hlong⟩
      rw [List.length_append] at hlength
      have hnil : rest = [] := List.eq_nil_of_length_eq_zero (by omega)
      rw [hnil, List.append_nil]
      exact hsource

end

/-! ### Both tools -/

private def draftTree : FileTree String where
  entry path :=
    if path = [] ∨ path = ["work"] then some .dir
    else if path = ["work", "draft"] then some (.file "text") else none
  entry_parent path name h := by
    have hcases : path ++ [name] = ["work"] ∨ path ++ [name] = ["work", "draft"] := by
      by_contra hnot
      rw [not_or] at hnot
      rw [if_neg (by simp [hnot.1]), if_neg hnot.2] at h
      exact h rfl
    rcases hcases with heq | heq
    · rw [(List.append_inj' (heq.trans (List.nil_append _).symm) rfl).1]
      rfl
    · rw [(List.append_inj' (heq.trans (List.singleton_append (x := "work")).symm) rfl).1]
      rfl

private def overwritingTool : PathTool where
  allowOverwrite := true
  resolveRoot _ _ := .ok (none, ["work"])
  resolve root raw := root ++ [raw]

private def bareCopy : SelfCopy String where
  leftover _ _ destination :=
    { entry := fun path => if path <+: destination then some .dir else none
      entry_parent := fun path name h => by
        by_cases hchild : path ++ [name] <+: destination
        · exact if_pos ((List.prefix_append path [name]).trans hchild)
        · rw [if_neg hchild] at h
          exact absurd rfl h }
  leftover_destination _ _ _ := if_pos List.prefix_rfl

end EvernightAI.PathTools

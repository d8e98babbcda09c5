import Mathlib.Data.List.Infix
import Mathlib.Data.List.Induction

/-!
# Trees of files and directories

A `FileTree` says what stands at each path; what exists stands in a directory, so that a tree is
closed under taking parents. A subtree can be removed, the directories above a path can be made, and the
subtree of one path can be copied or moved to a `Free` path, where nothing stands and whose parent
is a directory. Each operation gives a tree again and has one equation for what it leaves at a path.
-/

namespace DirectoryTree

/-- What stands at a path. -/
inductive Node (α : Type*)
  | file (content : α)
  | dir
  deriving DecidableEq, Repr

abbrev Path := List String

@[ext]
structure FileTree (α : Type*) where
  entry : Path → Option (Node α)
  /-- What exists stands in a directory. -/
  entry_parent : ∀ path name, entry (path ++ [name]) ≠ none → entry path = some .dir

namespace FileTree

variable {α : Type*} {t : FileTree α} {source destination path above : Path}

/-! ### Paths -/

/-- The path `above` is one of the directories above `path`. -/
def Above (above path : Path) : Prop := above <+: path ∧ above ≠ path

theorem above_append_singleton_iff {name : String} :
    Above above (path ++ [name]) ↔ above <+: path := by
  unfold Above
  rw [List.prefix_concat_iff]
  constructor
  · rintro ⟨rfl | h, hne⟩
    · exact absurd rfl hne
    · exact h
  · intro h
    refine ⟨.inr h, fun heq => ?_⟩
    have hlength := h.length_le
    rw [heq, List.length_append, List.length_singleton] at hlength
    omega

/-- Paths with a path below both of them are one below the other. -/
theorem prefix_or_prefix {rest : Path} (h : destination <+: source ++ rest) :
    destination <+: source ∨ source <+: destination :=
  List.prefix_or_prefix_of_prefix h (List.prefix_append source rest)

theorem append_drop_of_prefix (h : destination <+: path) (name : String) :
    (path ++ [name]).drop destination.length = path.drop destination.length ++ [name] :=
  List.drop_append_of_le_length h.length_le

/-! ### What exists -/

def Exists (t : FileTree α) (path : Path) : Prop := t.entry path ≠ none

instance : DecidablePred t.Exists := fun path =>
  decidable_of_iff ((t.entry path).isSome = true) (by
    rw [Option.isSome_iff_ne_none]
    exact Iff.rfl)

def IsFile (t : FileTree α) (path : Path) : Prop := ∃ content, t.entry path = some (.file content)

instance : DecidablePred t.IsFile := fun path =>
  match h : t.entry path with
  | some (.file content) => .isTrue ⟨content, h⟩
  | some .dir => .isFalse fun ⟨_, hfile⟩ => by
      rw [h] at hfile
      cases hfile
  | none => .isFalse fun ⟨_, hfile⟩ => by
      rw [h] at hfile
      cases hfile

def IsDir (t : FileTree α) (path : Path) : Prop := t.entry path = some .dir

instance : DecidablePred t.IsDir := fun path =>
  match h : t.entry path with
  | some .dir => .isTrue h
  | some (.file _) => .isFalse fun hdir => by
      rw [IsDir, h] at hdir
      cases hdir
  | none => .isFalse fun hdir => by
      rw [IsDir, h] at hdir
      cases hdir

/-- A path is missing, a file or a directory. -/
theorem entry_of_not_isFile (hexists : t.Exists path) (hfile : ¬t.IsFile path) :
    t.entry path = some .dir := by
  obtain ⟨node, hnode⟩ := Option.ne_none_iff_exists'.mp hexists
  match node, hnode with
  | .dir, hnode => exact hnode
  | .file content, hnode => exact absurd ⟨content, hnode⟩ hfile

/-- Everything above what exists is a directory. -/
theorem entry_of_above (h : t.Exists path) (habove : Above above path) :
    t.entry above = some .dir := by
  induction path using List.reverseRecOn with
  | nil => exact absurd (List.prefix_nil.mp habove.1) habove.2
  | append_singleton path name ih =>
    have hdir := t.entry_parent path name h
    have hpre := above_append_singleton_iff.mp habove
    by_cases heq : above = path
    · exact heq ▸ hdir
    · refine ih ?_ ⟨hpre, heq⟩
      rw [Exists, hdir]
      exact Option.some_ne_none _

theorem exists_of_prefix (h : t.Exists path) (hpre : above <+: path) : t.Exists above := by
  by_cases heq : above = path
  · exact heq ▸ h
  · rw [Exists, entry_of_above h ⟨hpre, heq⟩]
    exact Option.some_ne_none _

/-! ### Removing a subtree -/

/-- The tree without what stands at the path and below it. -/
def remove (t : FileTree α) (destination : Path) : FileTree α where
  entry path := if destination <+: path then none else t.entry path
  entry_parent path name h := by
    split_ifs at h with hbelow
    · exact absurd rfl h
    · rw [if_neg fun hpre => hbelow (hpre.trans (List.prefix_append _ _))]
      exact t.entry_parent path name h

theorem entry_remove_of_prefix (h : destination <+: path) :
    (t.remove destination).entry path = none := if_pos h

theorem entry_remove_of_not_prefix (h : ¬destination <+: path) :
    (t.remove destination).entry path = t.entry path := if_neg h

/-! ### Making the directories above a path -/

/-- One of the directories that a path needs above it is a file. -/
def Blocked (t : FileTree α) (destination : Path) : Prop :=
  ∃ above ∈ destination.inits, above ≠ destination ∧ t.IsFile above

instance : DecidablePred t.Blocked := fun destination =>
  inferInstanceAs (Decidable (∃ above ∈ destination.inits, above ≠ destination ∧ t.IsFile above))

theorem blocked_iff :
    t.Blocked destination ↔ ∃ above, Above above destination ∧ t.IsFile above := by
  unfold Blocked Above
  simp only [List.mem_inits, and_assoc]

instance : Decidable (Above above path) := inferInstanceAs (Decidable (_ ∧ _))

/-- The tree with the missing directories above the path. -/
def mkdirParents (t : FileTree α) (destination : Path) (h : ¬t.Blocked destination) :
    FileTree α where
  entry path := if Above path destination ∧ t.entry path = none then some .dir else t.entry path
  entry_parent path name hexists := by
    have hblocked : ¬∃ above, Above above destination ∧ t.IsFile above := blocked_iff.not.mp h
    by_cases hnew : Above path destination ∧ t.entry path = none
    · rw [if_pos hnew]
    rw [if_neg hnew]
    split_ifs at hexists with hchild
    · have habove : Above path destination := by
        refine ⟨(List.prefix_append path [name]).trans hchild.1.1, fun heq => ?_⟩
        have hlength := hchild.1.1.length_le
        rw [heq, List.length_append, List.length_singleton] at hlength
        omega
      exact entry_of_not_isFile (fun hnone => hnew ⟨habove, hnone⟩)
        fun hfile => hblocked ⟨path, habove, hfile⟩
    · exact t.entry_parent path name hexists

section

variable {h : ¬t.Blocked destination}

theorem entry_mkdirParents_of_not_above (habove : ¬Above path destination) :
    (t.mkdirParents destination h).entry path = t.entry path :=
  if_neg fun hnew => habove hnew.1

theorem entry_mkdirParents_of_exists (hexists : t.Exists path) :
    (t.mkdirParents destination h).entry path = t.entry path :=
  if_neg fun hnew => hexists hnew.2

/-- What is new is a directory above the path. -/
theorem entry_mkdirParents (path : Path) :
    (t.mkdirParents destination h).entry path = t.entry path ∨
      Above path destination ∧ t.entry path = none ∧
        (t.mkdirParents destination h).entry path = some .dir := by
  by_cases hnew : Above path destination ∧ t.entry path = none
  · exact .inr ⟨hnew.1, hnew.2, if_pos hnew⟩
  · exact .inl (if_neg hnew)

theorem entry_mkdirParents_of_above (habove : Above path destination) :
    (t.mkdirParents destination h).entry path = some .dir := by
  by_cases hexists : t.Exists path
  · rw [entry_mkdirParents_of_exists hexists]
    exact entry_of_not_isFile hexists fun hfile => h (blocked_iff.mpr ⟨path, habove, hfile⟩)
  · exact if_pos ⟨habove, not_not.mp hexists⟩

/-- Nothing is new if every directory above the path is there. -/
theorem mkdirParents_eq_self (hexists : ∀ above, Above above destination → t.Exists above) :
    t.mkdirParents destination h = t := by
  refine FileTree.ext (funext fun other => ?_)
  by_cases habove : Above other destination
  · exact entry_mkdirParents_of_exists (hexists other habove)
  · exact entry_mkdirParents_of_not_above habove

/-- Nothing is new exactly if the parent was there. -/
theorem mkdirParents_eq_self_iff {name : String} {h : ¬t.Blocked (path ++ [name])} :
    t.mkdirParents (path ++ [name]) h = t ↔ t.Exists path := by
  have hparent : Above path (path ++ [name]) := above_append_singleton_iff.mpr List.prefix_rfl
  constructor
  · intro heq
    rw [← heq, Exists, entry_mkdirParents_of_above hparent]
    exact Option.some_ne_none _
  · intro hexists
    exact mkdirParents_eq_self fun above habove =>
      exists_of_prefix hexists (above_append_singleton_iff.mp habove)

end

/-! ### Copying and moving to a free path -/

/-- Nothing stands at the path, and its parent is a directory. -/
structure Free (t : FileTree α) (destination : Path) : Prop where
  entry : t.entry destination = none
  parent : ∀ path name, destination = path ++ [name] → t.entry path = some .dir

theorem free_mkdirParents (hnone : t.entry destination = none) (h : ¬t.Blocked destination) :
    (t.mkdirParents destination h).Free destination where
  entry := by
    rw [entry_mkdirParents_of_not_above fun habove => habove.2 rfl]
    exact hnone
  parent path name heq := by
    subst heq
    exact entry_mkdirParents_of_above (above_append_singleton_iff.mpr List.prefix_rfl)

/-- The tree with the subtree of `source` also at `destination`. -/
def copyTo (t : FileTree α) (source destination : Path) (free : t.Free destination) :
    FileTree α where
  entry path :=
    if destination <+: path then t.entry (source ++ path.drop destination.length)
    else t.entry path
  entry_parent path name h := by
    by_cases hbelow : destination <+: path
    · rw [if_pos hbelow]
      rw [if_pos (hbelow.trans (List.prefix_append _ _)), append_drop_of_prefix hbelow,
        ← List.append_assoc] at h
      exact t.entry_parent _ name h
    · rw [if_neg hbelow]
      by_cases hself : destination = path ++ [name]
      · exact free.parent path name hself
      · rw [if_neg fun hpre => (List.prefix_concat_iff.mp hpre).elim hself hbelow] at h
        exact t.entry_parent path name h

theorem entry_copyTo {free : t.Free destination} (rest : Path) :
    (t.copyTo source destination free).entry (destination ++ rest) =
      t.entry (source ++ rest) := by
  show (if _ then _ else _) = _
  rw [if_pos (List.prefix_append _ _), List.drop_left]

theorem entry_copyTo_of_not_prefix {free : t.Free destination} (h : ¬destination <+: path) :
    (t.copyTo source destination free).entry path = t.entry path := if_neg h

/-- The tree with the subtree of `source` at `destination` instead. -/
def moveTo (t : FileTree α) (source destination : Path) (free : t.Free destination)
    (apart : ¬source <+: destination) : FileTree α where
  entry path :=
    if destination <+: path then t.entry (source ++ path.drop destination.length)
    else if source <+: path then none else t.entry path
  entry_parent path name h := by
    by_cases hbelow : destination <+: path
    · rw [if_pos hbelow]
      rw [if_pos (hbelow.trans (List.prefix_append _ _)), append_drop_of_prefix hbelow,
        ← List.append_assoc] at h
      exact t.entry_parent _ name h
    · rw [if_neg hbelow]
      by_cases hself : destination = path ++ [name]
      · rw [if_neg fun hpre => apart (hself ▸ hpre.trans (List.prefix_append _ _))]
        exact free.parent path name hself
      · rw [if_neg fun hpre => (List.prefix_concat_iff.mp hpre).elim hself hbelow] at h
        split_ifs at h with hsource
        · exact absurd rfl h
        · rw [if_neg fun hpre => hsource (hpre.trans (List.prefix_append _ _))]
          exact t.entry_parent path name h

section

variable {free : t.Free destination} {apart : ¬source <+: destination}

theorem entry_moveTo (rest : Path) :
    (t.moveTo source destination free apart).entry (destination ++ rest) =
      t.entry (source ++ rest) := by
  show (if _ then _ else _) = _
  rw [if_pos (List.prefix_append _ _), List.drop_left]

theorem entry_moveTo_of_not_prefix (hdestination : ¬destination <+: path)
    (hsource : ¬source <+: path) :
    (t.moveTo source destination free apart).entry path = t.entry path := by
  show (if _ then _ else _) = _
  rw [if_neg hdestination, if_neg hsource]

end

end FileTree

end DirectoryTree

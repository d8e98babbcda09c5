import EvernightAI.Lib.TextReplace
import EvernightAI.Lib.UnifiedDiff
import EvernightAI.Lib.Utf8Decoder
import EvernightAI.Tool.MoveCopy

/-!
# Text patches

`apply_text_patch` reads a file through the newlines of Python, which makes one line feed of every
`\r\n` and `\r`, replaces a text in it and writes it back as it is. The diff it returns compares the
contents by the lines of `str.splitlines`, which end at more than line feeds.

* `replaced_iff` : the bytes written are those read with the occurrences replaced, exactly if the
  file has no carriage return.
* `applyDiff_fileDiff` : the diff leads to the new content if the lines that it goes over end at
  line feeds.
-/

namespace EvernightAI.PathTools

open DirectoryTree (Path)
open TextLines TextReplace UnifiedDiff Utf8Decoder

/-! ### The diff of a file -/

def maxSourceChars : ℕ := 64000
def maxSourceLines : ℕ := 2000
def maxDiffChars : ℕ := 12000

/-- `text_snapshot` of a file that exists. -/
def textSnapshot (bytes : List UInt8) : Option Text :=
  (decode? bytes).bind fun text =>
    if maxSourceChars < text.length ∨ maxSourceLines < (splitlines text).length ∨ '\x00' ∈ text then
      none
    else some text

/-- What `file_diff` returns. -/
structure FileDiff where
  diff : Option Text
  diffTruncated : Bool
  diffUnavailableReason : Option String
  deriving DecidableEq, Repr

/-- The chunks of a diff until they get too long, and whether they do. -/
def collect (length : ℕ) : List Text → Text × Bool
  | [] => ([], false)
  | line :: lines =>
    if maxDiffChars < length + (mark line).length then ([], true)
    else
      (mark line ++ (collect (length + (mark line).length) lines).1,
        (collect (length + (mark line).length) lines).2)

/-- The name of a file in a diff. -/
def diffName (relativePath : String) : Text :=
  if relativePath.toList.any fun c => c = '\n' ∨ c = '\r' ∨ c = '\t' then
    (PyJson.dumps (fun _ => "") (.str relativePath)).toList
  else relativePath.toList

/-- `file_diff` -/
def fileDiff (matcher : SequenceMatcher) (before : Option Text) (bytes : List UInt8)
    (relativePath : String) (created : Bool) : FileDiff :=
  match before, textSnapshot bytes with
  | some before, some after =>
    let collected := collect 0 (unifiedDiff matcher
      (if created then "/dev/null".toList else "a/".toList ++ diffName relativePath)
      ("b/".toList ++ diffName relativePath) (keptLines before) (keptLines after))
    { diff := some collected.1, diffTruncated := collected.2, diffUnavailableReason := none }
  | _, _ =>
    { diff := none
      diffTruncated := false
      diffUnavailableReason := some "File is too large or is not readable UTF-8 text" }

/-! ### The patch -/

/-- The newlines of Python's text files, for reading. -/
def universalNewlines : Text → Text
  | [] => []
  | '\r' :: '\n' :: s => '\n' :: universalNewlines s
  | '\r' :: s => '\n' :: universalNewlines s
  | c :: s => c :: universalNewlines s

/-- What the checks of a call let through. -/
structure Patch where
  project : Option String
  root : Path
  path : Path
  bytes : List UInt8
  content : Text
  oldText : Text
  newText : Text
  replaceAll : Bool

/-- The bytes of the files. -/
abbrev Files := Path → Option (List UInt8)

/-- `text.count(old_text)`, of the text as it is read. -/
def Patch.occurrences (patch : Patch) : ℕ :=
  count patch.oldText (universalNewlines patch.content)

/-- The checks of a call. -/
def ProjectRoots.patch (roots : ProjectRoots) (arguments : PyDict) (files : Files) :
    Except Raised Patch := do
  let (project, root) ← roots.rootOf arguments
  let path ← roots.resolvePath root (arguments.lookup "path")
  match files path with
  | none => .error (.toolInput s!"The file {name path} does not exist")
  | some bytes =>
    match arguments.lookup "old_text", arguments.lookup "new_text" with
    | some (.str oldText), some (.str newText) =>
      if oldText = "" then
        .error (.toolInput "The old_text value must be a non-empty string")
      else match (arguments.lookup "replace_all").getD (.bool false) with
        | .bool replaceAll =>
          match decode? bytes with
          | none => .error .os
          | some content =>
            let patch := {
              project, root, path, bytes, content, oldText := oldText.toList,
              newText := newText.toList, replaceAll }
            if patch.occurrences = 0 then
              .error (.toolInput "The old_text value was not found")
            else .ok patch
        | _ => .error (.toolInput "The replace_all value must be a boolean")
    | some (.str oldText), _ =>
      if oldText = "" then
        .error (.toolInput "The old_text value must be a non-empty string")
      else .error (.toolInput "The new_text value must be a string")
    | _, _ => .error (.toolInput "The old_text value must be a non-empty string")

/-- `replacements` -/
def Patch.replacements (patch : Patch) : ℕ := if patch.replaceAll then patch.occurrences else 1

/-- `text.replace(old_text, new_text)`, or of one occurrence. -/
def Patch.replaceIn (patch : Patch) (text : Text) : Text :=
  if patch.replaceAll then TextReplace.replaceAll patch.oldText patch.newText text
  else replaceFirst patch.oldText patch.newText 1 text

/-- `next_text` -/
def Patch.nextText (patch : Patch) : Text := patch.replaceIn (universalNewlines patch.content)

/-- What a call returns. -/
structure PatchResult extends FileDiff where
  path : String
  replacements : ℕ
  bytesWritten : ℕ
  project : Option String
  deriving DecidableEq, Repr

/-- `RestrictedApplyTextPatchTool.execute` -/
def ProjectRoots.applyTextPatch (roots : ProjectRoots) (matcher : SequenceMatcher)
    (arguments : PyDict) (files : Files) : Except Raised PatchResult × Files :=
  match roots.patch arguments files with
  | .error e => (.error e, files)
  | .ok patch =>
    let bytes := encode patch.nextText
    let written : Files := fun path => if path = patch.path then some bytes else files path
    (.ok {
      toFileDiff := fileDiff matcher (textSnapshot patch.bytes) bytes
        (relativePath patch.root patch.path) false
      path := relativePath patch.root patch.path
      replacements := patch.replacements
      bytesWritten := bytes.length
      project := patch.project }, written)

/-! ### Occurrences in bytes -/

theorem encode_take_le {text : Text} {k l : ℕ} (h : k ≤ l) :
    (encode (text.take k)).length ≤ (encode (text.take l)).length := by
  have hprefix : text.take k <+: text.take l := by
    rw [← Nat.min_eq_left h, ← List.take_take]
    exact List.take_prefix k _
  obtain ⟨rest, hrest⟩ := hprefix
  rw [← hrest, encode_append, List.length_append]
  omega

/-- What is replaced in a text is replaced in its bytes. -/
theorem replaced_encode {old new : Text} (hold : old ≠ []) {n : ℕ} {s s' : Text}
    (h : Replaced old new n s s') :
    Replaced (encode old) (encode new) n (encode s) (encode s') := by
  induction h with
  | zero s => exact .zero _
  | succ before leftmost h ih =>
    rename_i rest rest'
    simp only [encode_append]
    refine Replaced.succ (encode before) (fun i hi hprefix => ?_) ih
    rw [← encode_append, ← encode_append] at hprefix
    obtain ⟨k, hk, hfound⟩ := exists_of_prefix_drop hold hprefix
    refine leftmost k ?_ hfound
    by_contra hlong
    have hle := @encode_take_le (before ++ old ++ rest) before.length k (by omega)
    rw [List.append_assoc, List.take_left, ← List.append_assoc, hk] at hle
    omega

/-! ### What is written -/

theorem universalNewlines_eq_self {text : Text} (h : '\r' ∉ text) :
    universalNewlines text = text := by
  fun_induction universalNewlines text with
  | case1 => rfl
  | case2 s ih => exact absurd List.mem_cons_self h
  | case3 s hs ih => exact absurd List.mem_cons_self h
  | case4 c s _ _ ih => rw [ih fun hmem => h (List.mem_cons_of_mem _ hmem)]

theorem not_mem_universalNewlines (text : Text) : '\r' ∉ universalNewlines text := by
  fun_induction universalNewlines text with
  | case1 => exact List.not_mem_nil
  | case2 s ih => exact List.not_mem_cons_of_ne_of_not_mem (by decide) ih
  | case3 s hs ih => exact List.not_mem_cons_of_ne_of_not_mem (by decide) ih
  | case4 c s hcrlf hcr ih =>
    exact List.not_mem_cons_of_ne_of_not_mem (fun heq => hcr heq.symm) ih

/-- What the checks let through. -/
structure Patch.Checked (patch : Patch) (files : Files) : Prop where
  file : files patch.path = some patch.bytes
  content : encode patch.content = patch.bytes
  oldText : patch.oldText ≠ []
  occurs : patch.occurrences ≠ 0

theorem ProjectRoots.checked_of_patch {roots : ProjectRoots} {arguments : PyDict} {files : Files}
    {patch : Patch} (h : roots.patch arguments files = .ok patch) : patch.Checked files := by
  unfold ProjectRoots.patch at h
  obtain ⟨⟨project, root⟩, -, h⟩ := exists_of_bind_eq_ok h
  obtain ⟨path, -, h⟩ := exists_of_bind_eq_ok h
  split at h
  · cases h
  rename_i bytes hfile
  split at h
  · rename_i oldText newText _ _
    split_ifs at h with hempty
    split at h
    · split at h
      · cases h
      · rename_i content hcontent
        dsimp only at h
        split_ifs at h with hnone
        obtain rfl := Except.ok.inj h
        refine ⟨hfile, decode?_eq_some_iff.mp hcontent, fun hnil => hempty ?_, hnone⟩
        exact String.toList_eq_nil_iff.mp hnil
    · cases h
  · split_ifs at h
  · cases h

theorem Patch.Checked.replaced {patch : Patch} {files : Files} (h : patch.Checked files) :
    Replaced patch.oldText patch.newText patch.replacements (universalNewlines patch.content)
      patch.nextText := by
  unfold Patch.replacements Patch.nextText Patch.replaceIn
  cases patch.replaceAll with
  | true => exact replaced_replaceFirst h.oldText (Nat.le_refl _)
  | false => exact replaced_replaceFirst h.oldText (Nat.one_le_iff_ne_zero.mpr h.occurs)

/-- A call that the checks let through returns. -/
theorem ProjectRoots.applyTextPatch_of_patch {roots : ProjectRoots} (matcher : SequenceMatcher)
    {arguments : PyDict} {files : Files} {patch : Patch}
    (h : roots.patch arguments files = .ok patch) :
    roots.applyTextPatch matcher arguments files =
      (.ok {
        toFileDiff := fileDiff matcher (textSnapshot patch.bytes) (encode patch.nextText)
          (relativePath patch.root patch.path) false
        path := relativePath patch.root patch.path
        replacements := patch.replacements
        bytesWritten := (encode patch.nextText).length
        project := patch.project },
      fun path => if path = patch.path then some (encode patch.nextText) else files path) := by
  unfold ProjectRoots.applyTextPatch
  rw [h]

/-! ### What a patch must do -/

/-- The new bytes of the file are the old ones with the occurrences replaced, as many as are
reported; the other files are as they were. -/
structure Local (patch : Patch) (result : PatchResult) (before after : Files) : Prop where
  written : ∃ bytes, after patch.path = some bytes ∧
    Replaced (encode patch.oldText) (encode patch.newText) result.replacements patch.bytes bytes
  others : ∀ path, path ≠ patch.path → after path = before path

/-- A diff that is there and not cut leads from the old content to the new one. -/
def DiffExact (patch : Patch) (result : PatchResult) (after : Files) : Prop :=
  ∀ diff bytes new, result.diff = some diff → result.diffTruncated = false →
    after patch.path = some bytes → decode? bytes = some new →
      applyDiff diff patch.content = some new

/-- **A patch is local exactly if the file has no carriage return.** -/
theorem replaced_iff {patch : Patch} {files : Files} (h : patch.Checked files) :
    Replaced (encode patch.oldText) (encode patch.newText) patch.replacements patch.bytes
        (encode patch.nextText) ↔ '\r' ∉ patch.content := by
  have hreplaced := h.replaced
  constructor
  · -- The text that is read has no carriage return, so none of the file is written again.
    intro hbytes
    have hcr : ('\r').toNat < 0x80 := by decide
    have hwritten := hbytes.count_add (UInt8.ofNat ('\r').toNat)
    rw [← h.content, count_encode _ hcr, count_encode _ hcr, count_encode _ hcr,
      count_encode _ hcr] at hwritten
    have hread := hreplaced.count_add '\r'
    rw [List.count_eq_zero_of_not_mem (not_mem_universalNewlines patch.content)] at hread
    exact List.count_eq_zero.mp (by omega)
  · intro hcontent
    rw [universalNewlines_eq_self hcontent] at hreplaced
    rw [← h.content]
    exact replaced_encode h.oldText hreplaced

/-! ### The diff of a patch -/

theorem collect_eq {lines : List Text} {length : ℕ} (h : (collect length lines).2 = false) :
    (collect length lines).1 = (lines.map mark).flatten := by
  induction lines generalizing length with
  | nil => rfl
  | cons line lines ih =>
    unfold collect at h ⊢
    split_ifs at h ⊢
    rw [List.map_cons, List.flatten_cons, ih h]

theorem newline_not_mem_diffName (relativePath : String) : '\n' ∉ diffName relativePath := by
  unfold diffName
  split_ifs with h
  · exact PyJson.newline_not_mem_dumps _ _
  · intro hmem
    exact h (List.any_eq_true.mpr ⟨'\n', hmem, by decide⟩)

theorem textSnapshot_eq_some {bytes : List UInt8} {text : Text}
    (h : textSnapshot bytes = some text) : decode? bytes = some text := by
  unfold textSnapshot at h
  obtain ⟨decoded, hdecoded, h⟩ := Option.bind_eq_some_iff.mp h
  split_ifs at h
  exact Option.some.inj h ▸ hdecoded

/-- **The diff leads to the new content**, if the lines that it goes over end at line feeds. -/
theorem applyDiff_fileDiff {matcher : SequenceMatcher} {oldBytes newBytes : List UInt8}
    {old new diff : Text} {relativePath : String} (hold : decode? oldBytes = some old)
    (hnew : decode? newBytes = some new) (hagrees : Agrees matcher old new)
    (hdiff : (fileDiff matcher (textSnapshot oldBytes) newBytes relativePath false).diff =
      some diff)
    (hwhole : (fileDiff matcher (textSnapshot oldBytes) newBytes relativePath
      false).diffTruncated = false) :
    applyDiff diff old = some new := by
  unfold fileDiff at hdiff hwhole
  split at hdiff
  · rename_i before after hbefore hafter
    obtain rfl := Option.some.inj (hold.symm.trans (textSnapshot_eq_some hbefore))
    obtain rfl := Option.some.inj (hnew.symm.trans (textSnapshot_eq_some hafter))
    rw [hbefore, hafter] at hwhole
    dsimp only at hdiff hwhole
    rw [← Option.some.inj hdiff, collect_eq hwhole]
    have hname := newline_not_mem_diffName relativePath
    refine applyDiff_unifiedDiff hagrees ?_ ?_
    · rw [if_neg Bool.false_ne_true, List.mem_append, not_or]
      exact ⟨by decide, hname⟩
    · rw [List.mem_append, not_or]
      exact ⟨by decide, hname⟩
  · cases hdiff

private def wholeMatcher : SequenceMatcher where
  opcodes a b := [{ tag := .replace, i1 := 0, i2 := a.length, j1 := 0, j2 := b.length }]
  chain _ _ := ⟨rfl, rfl, ⟨Nat.zero_le _, Nat.zero_le _, Nat.le_refl _, Nat.le_refl _, trivial⟩,
    rfl, rfl⟩

private def workRoots : ProjectRoots where
  resolveRoot _ _ := .ok (none, ["work"])
  resolve root raw := root ++ [raw]

private def dosFiles : Files := fun path =>
  if path = ["work", "notes"] then some (encode ['x', '\r', '\n', 'y']) else none

end EvernightAI.PathTools

import EvernightAI.Image.Archive
import EvernightAI.Image.Bitmap
import EvernightAI.Lib.BudgetedPass
import EvernightAI.Schema.Auth
import EvernightAI.Schema.Content

/-!
# Uploaded images and the requests that show them

`core/domain/file.py` keeps displayed files, `create_image_artifact` of
`application/image_attachments.py` puts uploaded images there, and `resolve_image_references` puts
their bytes into a chat request in place of the references to them, counting images and bytes.

* `resolveImageReferences_eq_ok_iff`: when a request is resolved, and to what.
* `resolveImageReferences_of_uploads`: after any run of uploads and other saves, what was uploaded
  is what a request shows.
-/

namespace EvernightAI

namespace Attachments

open Bitmap

/-! ### Files -/

/-- `preview_kind` -/
inductive PreviewKind
  | image | html | none
  deriving DecidableEq, Repr

/-- `FileArtifactInfo` -/
structure FileArtifactInfo where
  artifactId : String
  name : String
  title : Option String := none
  mimeType : String
  sizeBytes : Nat
  previewKind : PreviewKind := .none
  deriving DecidableEq, Repr

/-- `FileArtifact` -/
structure FileArtifact extends FileArtifactInfo where
  ownerId : Option String := none
  deriving DecidableEq, Repr

/-- `FileArtifact.info` -/
def FileArtifact.info (artifact : FileArtifact) : FileArtifactInfo := artifact.toFileArtifactInfo

/-- `_files` of `FileArtifactStore`: each file under its `artifact_id`. -/
abbrev FileArtifactStore := List (FileArtifact × List UInt8)

/-- `MAX_FILE_ARTIFACT_BYTES` -/
def maxFileArtifactBytes : Nat := 20 * 1024 * 1024

namespace FileArtifactStore

/-- `self._files.get(artifact_id)` -/
def files (store : FileArtifactStore) (artifactId : String) : Option (FileArtifact × List UInt8) :=
  store.find? fun file => decide (file.1.artifactId = artifactId)

/-- `save`, with `validate_file_content`. -/
def save (store : FileArtifactStore) (artifact : FileArtifact) (content : List UInt8) :
    Except AttachmentError FileArtifactStore :=
  if content.length ≠ artifact.sizeBytes ∨ maxFileArtifactBytes < content.length then
    .error (.validation "展示文件大小无效，最多支持 20 MiB")
  else if (store.files artifact.artifactId).isSome then .error (.conflict "展示文件已存在")
  else .ok (store ++ [(artifact, content)])

/-- `_get` -/
def find (store : FileArtifactStore) (artifactId : String) (scope : Option PrincipalScope) :
    Except AttachmentError (FileArtifact × List UInt8) :=
  match store.files artifactId with
  | none => .error (.notFound "展示文件不存在")
  | some file =>
    if scopePermits scope file.1.ownerId then .ok file else .error (.notFound "展示文件不存在")

/-- `get` -/
def get (store : FileArtifactStore) (artifactId : String) (scope : Option PrincipalScope) :
    Except AttachmentError FileArtifact := (store.find artifactId scope).map (·.1)

/-- `read` -/
def read (store : FileArtifactStore) (artifactId : String) (scope : Option PrincipalScope) :
    Except AttachmentError (List UInt8) := (store.find artifactId scope).map (·.2)

end FileArtifactStore

/-- `create_image_artifact`, with the id that is made for the file. -/
def createImageArtifact (u : UnicodeTables) (store : FileArtifactStore)
    (artifactId filename : String) (content : List UInt8) (scope : Option PrincipalScope) :
    Except AttachmentError (FileArtifactInfo × FileArtifactStore) := do
  if content = [] ∨ maxUploadBytes < content.length then
    .error (.validation "图片大小必须大于 0 且不超过 20 MiB")
  else
    let mimeType ← bitmapMime content
    let name ← cleanImageFilename u filename
    let artifact : FileArtifact :=
      { artifactId, name, mimeType, sizeBytes := content.length, previewKind := .image
        ownerId := scope.bind (·.ownerId) }
    let store ← store.save artifact content
    .ok (artifact.info, store)

/-! ### References in a request -/

/-- The parts of a request that refer to an uploaded image. -/
def isReference (part : ContentPart) : Bool :=
  decide (part.type = .image) && part.artifactId.isSome

/-- `{"image/png", "image/jpeg", "image/webp"}` -/
def imageMimes : List String := ["image/png", "image/jpeg", "image/webp"]

/-- `part` with the image in it. -/
def embed (part : ContentPart) (mimeType : String) (content : List UInt8) : ContentPart :=
  { part with
    data := some ("data:" ++ mimeType ++ ";base64," ++ ImageArchive.b64encode content)
    mimeType := some mimeType
    artifactId := none }

/-- One reference: the file's record is tested, then its bytes. -/
def resolveReference (store : FileArtifactStore) (scope : Option PrincipalScope) (total : Nat)
    (part : ContentPart) (artifactId : String) : Except AttachmentError (Nat × ContentPart) := do
  let artifact ← (store.get artifactId scope).mapError fun _ =>
    .chatInput "图片附件不存在或无权访问"
  if artifact.previewKind ≠ .image ∨ artifact.mimeType ∉ imageMimes then
    .error (.chatInput "引用的文件不是受支持的图片")
  else if maxUploadBytes < artifact.sizeBytes then .error (.chatInput "图片附件大小无效")
  else if maxRequestImageBytes < total + artifact.sizeBytes then
    .error (.chatInput "每个请求引用图片总大小不能超过 50 MiB")
  else
    let content ← (store.read artifactId scope).mapError fun _ =>
      .chatInput "图片附件不存在或无权访问"
    if content.length ≠ artifact.sizeBytes then .error (.chatInput "图片附件大小无效")
    else
      let detectedMime ← (bitmapMime content).mapError fun _ => .chatInput "图片附件格式无效"
      if detectedMime ≠ artifact.mimeType then
        .error (.chatInput "图片附件格式与文件记录不匹配")
      else .ok (total + artifact.sizeBytes, embed part artifact.mimeType content)

/-- One part; only a reference is replaced. -/
def resolvePart (store : FileArtifactStore) (scope : Option PrincipalScope) (total : Nat)
    (part : ContentPart) : Except AttachmentError (Nat × ContentPart) :=
  if isReference part then
    match part.artifactId with
    | none => .error (.chatInput "图片附件引用无效")
    | some artifactId => resolveReference store scope total part artifactId
  else .ok (total, part)

/-- The parts of one message, `message.content or []`. -/
def resolveMessage (store : FileArtifactStore) (scope : Option PrincipalScope) (total : Nat)
    (message : Content) : Except AttachmentError (Nat × Content) :=
  match message.content with
  | none => .ok (total, message)
  | some parts => (BudgetedPass.pass (resolvePart store scope) total parts).map fun found =>
      (found.1, { message with content := some found.2 })

/-- `referenced` -/
def references (messages : List Content) : List ContentPart :=
  messages.flatMap fun message => (message.content.getD []).filter isReference

/-- `resolve_image_references`, on the messages of the request. -/
def resolveImageReferences (store : FileArtifactStore) (scope : Option PrincipalScope)
    (messages : List Content) : Except AttachmentError (List Content) :=
  if maxRequestImages < (references messages).length then
    .error (.chatInput "每个请求最多引用 10 张图片")
  else (BudgetedPass.pass (resolveMessage store scope) 0 messages).map (·.2)

/-! ### What a resolved request shows -/

/-- The file a part refers to. -/
def fileOf (store : FileArtifactStore) (part : ContentPart) : Option (FileArtifact × List UInt8) :=
  if isReference part then part.artifactId.bind store.files else none

/-- The bytes a part takes of the limit. -/
def weight (store : FileArtifactStore) (part : ContentPart) : Nat :=
  ((fileOf store part).map fun file => file.1.sizeBytes).getD 0

/-- A part with its file in it. -/
def shown (store : FileArtifactStore) (part : ContentPart) : ContentPart :=
  ((fileOf store part).map fun file => embed part file.1.mimeType file.2).getD part

/-- A message with every file in it. -/
def shownMessage (store : FileArtifactStore) (message : Content) : Content :=
  { message with content := message.content.map (List.map (shown store)) }

/-- **A file that may be shown** to a scope: an image of its owner, of the size and the format its
record states. -/
structure Showable (scope : Option PrincipalScope) (file : FileArtifact × List UInt8) : Prop where
  permitted : scopePermits scope file.1.ownerId = true
  kind : file.1.previewKind = .image
  size : file.2.length = file.1.sizeBytes
  size_le : file.1.sizeBytes ≤ maxUploadBytes
  bitmap : IsBitmap file.1.mimeType file.2

/-- What is asked of each part. -/
def Resolvable (store : FileArtifactStore) (scope : Option PrincipalScope) (part : ContentPart) :
    Prop :=
  isReference part = true → ∃ file, fileOf store part = some file ∧ Showable scope file

theorem mem_imageMimes_of_isBitmap {mime : String} {data : List UInt8} (h : IsBitmap mime data) :
    mime ∈ imageMimes := by
  cases h with
  | png => simp [imageMimes]
  | jpeg => simp [imageMimes]
  | webp => simp [imageMimes]

/-- `_get` -/
theorem FileArtifactStore.find_eq_ok {store : FileArtifactStore} {artifactId : String}
    {scope : Option PrincipalScope} {file : FileArtifact × List UInt8} :
    store.find artifactId scope = .ok file ↔
      store.files artifactId = some file ∧ scopePermits scope file.1.ownerId = true := by
  rw [FileArtifactStore.find]
  cases hfile : store.files artifactId with
  | none => simp
  | some found =>
    simp only [Option.some.injEq]
    split
    · next hpermits =>
      constructor
      · intro h
        obtain rfl := Except.ok.inj h
        exact ⟨rfl, hpermits⟩
      · rintro ⟨rfl, -⟩
        rfl
    · next hpermits =>
      constructor
      · intro h
        exact absurd h (by simp)
      · rintro ⟨rfl, hpermits'⟩
        exact absurd hpermits' hpermits

/-- **One reference**: its file is showable and fits the limit. -/
theorem resolveReference_eq_ok {store : FileArtifactStore} {scope : Option PrincipalScope}
    {total total' : Nat} {part part' : ContentPart} {artifactId : String} :
    resolveReference store scope total part artifactId = .ok (total', part') ↔
      ∃ file, store.files artifactId = some file ∧ Showable scope file ∧
        total + file.1.sizeBytes ≤ maxRequestImageBytes ∧
        total' = total + file.1.sizeBytes ∧ part' = embed part file.1.mimeType file.2 := by
  cases hfind : store.find artifactId scope with
  | error err =>
    simp only [resolveReference, FileArtifactStore.get, hfind, Except.map, Except.mapError, bind,
      Except.bind]
    constructor
    · intro h
      exact absurd h (by simp)
    · rintro ⟨file, hfile, hshow, -⟩
      have hfound := FileArtifactStore.find_eq_ok.mpr ⟨hfile, hshow.permitted⟩
      exact absurd (hfound.symm.trans hfind) (by simp)
  | ok file =>
    obtain ⟨hfile, hpermits⟩ := FileArtifactStore.find_eq_ok.mp hfind
    simp only [resolveReference, FileArtifactStore.get, FileArtifactStore.read, hfind, Except.map,
      Except.mapError, bind, Except.bind, hfile, Option.some.injEq, exists_eq_left']
    constructor
    · intro h
      split at h
      · exact absurd h (by simp)
      · next hkind =>
        split at h
        · exact absurd h (by simp)
        · next hsize =>
          split at h
          · exact absurd h (by simp)
          · next htotal =>
            split at h
            · exact absurd h (by simp)
            · next hlength =>
              cases hmime : bitmapMime file.2 with
              | error err => simp [hmime] at h
              | ok mime =>
                simp only [hmime] at h
                split at h
                · exact absurd h (by simp)
                · next hsame =>
                  obtain ⟨rfl, rfl⟩ := Prod.mk.inj (Except.ok.inj h)
                  rw [not_or, not_not, not_not] at hkind
                  rw [not_not] at hsame hlength
                  rw [hsame] at hmime
                  exact ⟨⟨hpermits, hkind.1, hlength, not_lt.mp hsize,
                    (bitmapMime_eq_ok_iff _ _).mp hmime⟩, not_lt.mp htotal, rfl, rfl⟩
    · rintro ⟨hshow, hlimit, rfl, rfl⟩
      have hkind : ¬(file.1.previewKind ≠ .image ∨ file.1.mimeType ∉ imageMimes) := by
        rw [not_or, not_not, not_not]
        exact ⟨hshow.kind, mem_imageMimes_of_isBitmap hshow.bitmap⟩
      have hmime := (bitmapMime_eq_ok_iff _ _).mpr hshow.bitmap
      rw [if_neg hkind, if_neg (not_lt.mpr hshow.size_le), if_neg (not_lt.mpr hlimit),
        if_neg (not_not.mpr hshow.size)]
      simp only [hmime]
      rw [if_neg (not_not.mpr rfl)]

/-- Without references, or with one, a part is a metered item. -/
theorem metered_resolvePart (store : FileArtifactStore) (scope : Option PrincipalScope) :
    BudgetedPass.Metered maxRequestImageBytes (Resolvable store scope) (weight store) (shown store)
      (resolvePart store scope) := by
  intro total part total' part' htotal
  rw [resolvePart]
  by_cases href : isReference part = true
  · have hid : part.artifactId.isSome = true := (Bool.and_eq_true_iff.mp href).2
    obtain ⟨artifactId, hid⟩ := Option.isSome_iff_exists.mp hid
    have hfile : fileOf store part = store.files artifactId := by
      rw [fileOf, if_pos href, hid]
      rfl
    rw [if_pos href, Resolvable, weight, shown, hfile]
    simp only [hid, resolveReference_eq_ok, href, forall_const]
    constructor
    · rintro ⟨file, hfound, hshow, hlimit, rfl, rfl⟩
      rw [hfound]
      exact ⟨⟨file, rfl, hshow⟩, hlimit, rfl, rfl⟩
    · rintro ⟨⟨file, hfound, hshow⟩, hlimit, rfl, rfl⟩
      rw [hfound] at hlimit ⊢
      exact ⟨file, rfl, hshow, hlimit, rfl, rfl⟩
  · have hfile : fileOf store part = none := by rw [fileOf, if_neg href]
    rw [if_neg href, Resolvable, weight, shown, hfile]
    constructor
    · intro h
      obtain ⟨rfl, rfl⟩ := Prod.mk.inj (Except.ok.inj h)
      exact ⟨fun h => absurd h href, htotal, rfl, rfl⟩
    · rintro ⟨-, -, rfl, rfl⟩
      rfl

/-- The bytes a message takes of the limit. -/
def messageWeight (store : FileArtifactStore) (message : Content) : Nat :=
  ((message.content.getD []).map (weight store)).sum

theorem metered_resolveMessage (store : FileArtifactStore) (scope : Option PrincipalScope) :
    BudgetedPass.Metered maxRequestImageBytes
      (fun message => ∀ part ∈ message.content.getD [], Resolvable store scope part)
      (messageWeight store) (shownMessage store) (resolveMessage store scope) := by
  intro total message total' message' htotal
  obtain ⟨role, content, status, name, toolCallId, toolCalls, metadata⟩ := message
  rw [resolveMessage.eq_def, messageWeight, shownMessage]
  cases content with
  | none =>
    constructor
    · intro h
      obtain ⟨rfl, rfl⟩ := Prod.mk.inj (Except.ok.inj h)
      exact ⟨fun part hpart => absurd hpart List.not_mem_nil, htotal, rfl, rfl⟩
    · rintro ⟨-, -, rfl, rfl⟩
      rfl
  | some parts =>
    have hparts := BudgetedPass.metered_pass (metered_resolvePart store scope) total parts
    constructor
    · intro h
      obtain ⟨found, hfound, h⟩ := exists_of_map_eq_ok h
      obtain ⟨rfl, rfl⟩ := Prod.mk.inj h
      obtain ⟨hall, hsum, hlast, himages⟩ := (hparts found.1 found.2 htotal).mp hfound
      refine ⟨hall, hsum, hlast, ?_⟩
      rw [himages]
      rfl
    · rintro ⟨hall, hsum, rfl, rfl⟩
      have hfound := (hparts _ _ htotal).mpr ⟨hall, hsum, rfl, rfl⟩
      simp only [hfound]
      rfl

theorem sum_weight_filter (store : FileArtifactStore) (parts : List ContentPart) :
    ((parts.filter isReference).map (weight store)).sum = (parts.map (weight store)).sum := by
  induction parts with
  | nil => rfl
  | cons part parts ih =>
    by_cases href : isReference part = true
    · rw [List.filter_cons_of_pos href, List.map_cons, List.sum_cons, ih, List.map_cons,
        List.sum_cons]
    · have hzero : weight store part = 0 := by
        rw [weight, fileOf, if_neg href]
        rfl
      rw [List.filter_cons_of_neg href, ih, List.map_cons, List.sum_cons, hzero, Nat.zero_add]

theorem sum_messageWeight (store : FileArtifactStore) (messages : List Content) :
    (messages.map (messageWeight store)).sum = ((references messages).map (weight store)).sum := by
  induction messages with
  | nil => rfl
  | cons message messages ih =>
    have hcons : references (message :: messages) =
        (message.content.getD []).filter isReference ++ references messages := List.flatMap_cons
    rw [List.map_cons, List.sum_cons, ih, hcons, List.map_append, List.sum_append,
      sum_weight_filter]
    rfl

theorem forall_mem_references {messages : List Content} {P : ContentPart → Prop} :
    (∀ part ∈ references messages, P part) ↔
      ∀ message ∈ messages, ∀ part ∈ message.content.getD [], isReference part = true → P part := by
  constructor
  · intro h message hmessage part hpart href
    exact h part (List.mem_flatMap.mpr ⟨message, hmessage, List.mem_filter.mpr ⟨hpart, href⟩⟩)
  · intro h part hpart
    obtain ⟨message, hmessage, hpart⟩ := List.mem_flatMap.mp hpart
    obtain ⟨hpart, href⟩ := List.mem_filter.mp hpart
    exact h message hmessage part hpart href

/-- **When a request is resolved, and to what**: at most ten references, each to an image that may
be shown to the caller, and together at most 50 MiB; then every reference holds its image, and
nothing else changes. -/
theorem resolveImageReferences_eq_ok_iff (store : FileArtifactStore)
    (scope : Option PrincipalScope) (messages resolved : List Content) :
    resolveImageReferences store scope messages = .ok resolved ↔
      (references messages).length ≤ maxRequestImages ∧
      (∀ part ∈ references messages, ∃ file, fileOf store part = some file ∧ Showable scope file) ∧
      ((references messages).map (weight store)).sum ≤ maxRequestImageBytes ∧
      resolved = messages.map (shownMessage store) := by
  have hpass := BudgetedPass.metered_pass (metered_resolveMessage store scope) 0 messages
  rw [forall_mem_references, ← sum_messageWeight, resolveImageReferences]
  constructor
  · intro h
    split at h
    · exact absurd h (by simp)
    · next hcount =>
      obtain ⟨found, hfound, rfl⟩ := exists_of_map_eq_ok h
      obtain ⟨hall, hsum, -, himages⟩ := (hpass found.1 found.2 (Nat.zero_le _)).mp hfound
      rw [Nat.zero_add] at hsum
      exact ⟨not_lt.mp hcount, hall, hsum, himages⟩
  · rintro ⟨hcount, hall, hsum, rfl⟩
    rw [← Nat.zero_add (List.sum _)] at hsum
    have hfound := (hpass _ _ (Nat.zero_le _)).mpr ⟨hall, hsum, rfl, rfl⟩
    rw [if_neg (not_lt.mpr hcount), hfound]
    rfl

/-! ### From uploads to requests -/

/-- What is asked of the store of files: an upload, with the id made for it, or the save of any
file by another part of the program. -/
inductive Command
  | upload (artifactId filename : String) (content : List UInt8) (scope : Option PrincipalScope)
  | save (artifact : FileArtifact) (content : List UInt8)

/-- The store after a command; one that fails leaves it as it was. -/
def Command.run (u : UnicodeTables) (store : FileArtifactStore) : Command → FileArtifactStore
  | .upload artifactId filename content scope =>
    ((createImageArtifact u store artifactId filename content scope).toOption.map (·.2)).getD store
  | .save artifact content => (store.save artifact content).toOption.getD store

/-- The file an upload made, from what the caller gave and was answered. -/
def Command.uploaded (u : UnicodeTables) (store : FileArtifactStore) :
    Command → Option (FileArtifact × List UInt8)
  | .upload artifactId filename content scope =>
    (createImageArtifact u store artifactId filename content scope).toOption.map fun made =>
      ({ toFileArtifactInfo := made.1, ownerId := scope.bind (·.ownerId) }, content)
  | .save .. => none

/-- The store after some commands. -/
def runAll (u : UnicodeTables) (store : FileArtifactStore) (commands : List Command) :
    FileArtifactStore := commands.foldl (Command.run u) store

/-- The files uploaded by some commands. -/
def uploads (u : UnicodeTables) : FileArtifactStore → List Command → FileArtifactStore
  | _, [] => []
  | store, command :: commands =>
    (command.uploaded u store).toList ++ uploads u (command.run u store) commands

theorem FileArtifactStore.save_eq_ok {store store' : FileArtifactStore} {artifact : FileArtifact}
    {content : List UInt8} (h : store.save artifact content = .ok store') :
    content.length = artifact.sizeBytes ∧ store.files artifact.artifactId = none ∧
      store' = store ++ [(artifact, content)] := by
  rw [FileArtifactStore.save] at h
  split at h
  · exact absurd h (by simp)
  · next hsize =>
    split at h
    · exact absurd h (by simp)
    · next hnew =>
      rw [not_or, not_not] at hsize
      exact ⟨hsize.1, by simpa using hnew, (Except.ok.inj h).symm⟩

theorem FileArtifactStore.artifactId_of_files {store : FileArtifactStore} {artifactId : String}
    {file : FileArtifact × List UInt8} (h : store.files artifactId = some file) :
    file.1.artifactId = artifactId := by
  have hfound := List.find?_some h
  exact of_decide_eq_true hfound

/-- What is in the store stays there. -/
theorem FileArtifactStore.files_append {store : FileArtifactStore} {artifactId : String}
    {file new : FileArtifact × List UInt8} (h : store.files artifactId = some file) :
    FileArtifactStore.files (store ++ [new]) artifactId = some file := by
  rw [FileArtifactStore.files, List.find?_append, ← FileArtifactStore.files, h]
  rfl

/-- An uploaded file: it is in the store under its id, and may be shown to its owner. -/
structure Kept (store : FileArtifactStore) (file : FileArtifact × List UInt8) : Prop where
  found : store.files file.1.artifactId = some file
  kind : file.1.previewKind = .image
  size : file.2.length = file.1.sizeBytes
  size_le : file.1.sizeBytes ≤ maxUploadBytes
  bitmap : IsBitmap file.1.mimeType file.2

theorem kept_of_createImageArtifact {u : UnicodeTables} {store store' : FileArtifactStore}
    {artifactId filename : String} {content : List UInt8} {scope : Option PrincipalScope}
    {info : FileArtifactInfo}
    (h : createImageArtifact u store artifactId filename content scope = .ok (info, store')) :
    Kept store' ({ toFileArtifactInfo := info, ownerId := scope.bind (·.ownerId) }, content) ∧
      info.artifactId = artifactId ∧ ∃ new, store' = store ++ [new] := by
  rw [createImageArtifact] at h
  split at h
  · exact absurd h (by simp)
  · next hsize =>
    obtain ⟨mimeType, hmime, h⟩ := exists_of_bind_eq_ok h
    obtain ⟨name, hname, h⟩ := exists_of_bind_eq_ok h
    obtain ⟨saved, hsave, h⟩ := exists_of_bind_eq_ok h
    obtain ⟨rfl, rfl⟩ := Prod.mk.inj (Except.ok.inj h)
    obtain ⟨hlength, hnew, rfl⟩ := FileArtifactStore.save_eq_ok hsave
    rw [not_or, not_lt] at hsize
    refine ⟨⟨?_, rfl, rfl, hsize.2, (bitmapMime_eq_ok_iff _ _).mp hmime⟩, rfl, _, rfl⟩
    rw [FileArtifactStore.files, List.find?_append, ← FileArtifactStore.files]
    simp only [FileArtifact.info] at hnew ⊢
    rw [hnew]
    simp

/-- A command keeps every file of the store. -/
theorem files_run {u : UnicodeTables} {store : FileArtifactStore} {artifactId : String}
    {file : FileArtifact × List UInt8} (h : store.files artifactId = some file)
    (command : Command) : (command.run u store).files artifactId = some file := by
  cases command with
  | upload made filename content scope =>
    rw [Command.run]
    cases hmade : createImageArtifact u store made filename content scope with
    | error err => exact h
    | ok answer =>
      have hanswer : createImageArtifact u store made filename content scope =
          .ok (answer.1, answer.2) := hmade
      obtain ⟨-, -, new, hnew⟩ := kept_of_createImageArtifact hanswer
      change FileArtifactStore.files answer.2 artifactId = some file
      rw [hnew]
      exact FileArtifactStore.files_append h
  | save artifact content =>
    rw [Command.run]
    cases hsave : store.save artifact content with
    | error err => exact h
    | ok saved =>
      obtain ⟨-, -, rfl⟩ := FileArtifactStore.save_eq_ok hsave
      exact FileArtifactStore.files_append h

theorem Kept.run {u : UnicodeTables} {store : FileArtifactStore}
    {file : FileArtifact × List UInt8} (h : Kept store file) (command : Command) :
    Kept (command.run u store) file := { h with found := files_run h.found command }

theorem kept_of_uploaded {u : UnicodeTables} {store : FileArtifactStore} {command : Command}
    {file : FileArtifact × List UInt8} (h : command.uploaded u store = some file) :
    Kept (command.run u store) file := by
  cases command with
  | upload artifactId filename content scope =>
    rw [Command.uploaded] at h
    cases hmade : createImageArtifact u store artifactId filename content scope with
    | error err => simp [hmade, Except.toOption] at h
    | ok answer =>
      have hanswer : createImageArtifact u store artifactId filename content scope =
          .ok (answer.1, answer.2) := hmade
      rw [hmade] at h
      rw [Command.run, hmade, ← Option.some.inj h]
      exact (kept_of_createImageArtifact hanswer).1
  | save artifact content => exact absurd h (by simp [Command.uploaded])

theorem Kept.runAll {u : UnicodeTables} {store : FileArtifactStore}
    {file : FileArtifact × List UInt8} (h : Kept store file) (commands : List Command) :
    Kept (runAll u store commands) file := by
  induction commands generalizing store with
  | nil => exact h
  | cons command commands ih => exact ih (h.run command)

/-- **Every uploaded file is kept**, whatever was asked of the store before and after. -/
theorem kept_of_mem_uploads {u : UnicodeTables} {store : FileArtifactStore}
    {commands : List Command} {file : FileArtifact × List UInt8}
    (h : file ∈ uploads u store commands) : Kept (runAll u store commands) file := by
  induction commands generalizing store with
  | nil => exact absurd h List.not_mem_nil
  | cons command commands ih =>
    rcases List.mem_append.mp h with h | h
    · exact (kept_of_uploaded (Option.mem_toList.mp h)).runAll commands
    · exact ih h

/-- **What was uploaded is what a request shows**: after any commands, a request whose references
are to uploaded images that the caller may see, at most ten and at most 50 MiB of them, is resolved
to the very bytes of the uploads. -/
theorem resolveImageReferences_of_uploads (u : UnicodeTables) (commands : List Command)
    (reader : Option PrincipalScope) (messages : List Content)
    (hcount : (references messages).length ≤ maxRequestImages)
    (huploaded : ∀ part ∈ references messages, ∃ file,
      fileOf (uploads u [] commands) part = some file ∧ scopePermits reader file.1.ownerId = true)
    (hbytes : ((references messages).map (weight (uploads u [] commands))).sum ≤
      maxRequestImageBytes) :
    resolveImageReferences (runAll u [] commands) reader messages =
      .ok (messages.map (shownMessage (uploads u [] commands))) := by
  -- a reference to an upload finds the same file in the store
  have hsame : ∀ part ∈ references messages,
      fileOf (runAll u [] commands) part = fileOf (uploads u [] commands) part ∧
      ∃ file, fileOf (runAll u [] commands) part = some file ∧ Showable reader file := by
    intro part hpart
    obtain ⟨file, hfile, hpermits⟩ := huploaded part hpart
    have href : isReference part = true :=
      forall_mem_references.mpr (fun _ _ _ _ href => href) part hpart
    rw [hfile]
    rw [fileOf, if_pos href] at hfile ⊢
    obtain ⟨artifactId, hid, hfound⟩ := Option.bind_eq_some_iff.mp hfile
    have hkept := kept_of_mem_uploads (List.mem_of_find?_eq_some hfound)
    have hartifactId := FileArtifactStore.artifactId_of_files hfound
    have hstore : (runAll u [] commands).files artifactId = some file := hartifactId ▸ hkept.found
    rw [hid, Option.bind_some, hstore]
    exact ⟨rfl, file, rfl, hpermits, hkept.kind, hkept.size, hkept.size_le, hkept.bitmap⟩
  refine (resolveImageReferences_eq_ok_iff _ _ _ _).mpr
    ⟨hcount, fun part hpart => (hsame part hpart).2, ?_, ?_⟩
  · have hweights : (references messages).map (weight (runAll u [] commands)) =
        (references messages).map (weight (uploads u [] commands)) := by
      refine List.map_congr_left fun part hpart => ?_
      rw [weight, weight, (hsame part hpart).1]
    rw [hweights]
    exact hbytes
  · refine List.map_congr_left fun message hmessage => ?_
    rw [shownMessage, shownMessage]
    congr 1
    cases hcontent : message.content with
    | none => rfl
    | some parts =>
      refine congrArg some (List.map_congr_left fun part hpart => ?_)
      by_cases href : isReference part = true
      · have hmem : part ∈ references messages := by
          refine List.mem_flatMap.mpr ⟨message, hmessage, List.mem_filter.mpr ⟨?_, href⟩⟩
          rw [hcontent]
          exact hpart
        rw [shown, shown, (hsame part hmem).1]
      · rw [shown, shown, fileOf, fileOf, if_neg href, if_neg href]

/-- A lossless picture of one pixel. -/
private def pixel : List UInt8 :=
  [0x52, 0x49, 0x46, 0x46, 0x12, 0, 0, 0, 0x57, 0x45, 0x42, 0x50, 0x56, 0x50, 0x38, 0x4C,
    5, 0, 0, 0, 0x2F, 0, 0, 0, 0, 0]

private theorem isBitmap_pixel : IsBitmap "image/webp" pixel := by
  refine .webp ⟨[⟨WebP.vp8l, [0x2F, 0, 0, 0, 0], [0]⟩], ?_, ⟨_, List.mem_singleton_self _, ?_⟩, ?_,
    ?_⟩
  · intro chunk hchunk
    rw [List.mem_singleton.mp hchunk]
    exact ⟨rfl, by decide, rfl⟩
  · decide
  · decide
  · decide

private def asciiSpaces : UnicodeTables := ⟨fun c => decide (c = ' '), fun _ => true, id⟩

private def alice : Option PrincipalScope := some ⟨some "alice"⟩

private def pixelFile : FileArtifact :=
  { artifactId := "1f", name := "pixel.webp", mimeType := "image/webp", sizeBytes := 26
    previewKind := .image, ownerId := some "alice" }

/-- Another file comes behind the upload. -/
private def pixelCommands : List Command :=
  [.upload "1f" "../pixel.webp" pixel alice,
    .save { artifactId := "2e", name := "page.html", mimeType := "text/html", sizeBytes := 0 } []]

private def pixelRequest : List Content :=
  [{ role := .user, content := some [{ type := .image, artifactId := some "1f" }] }]

private theorem uploads_pixelCommands :
    uploads asciiSpaces [] pixelCommands = [(pixelFile, pixel)] := by
  have hmime := (bitmapMime_eq_ok_iff _ _).mpr isBitmap_pixel
  have hname : cleanImageFilename asciiSpaces "../pixel.webp" = .ok "pixel.webp" := by decide
  have hmade : createImageArtifact asciiSpaces [] "1f" "../pixel.webp" pixel alice =
      .ok (pixelFile.info, [(pixelFile, pixel)]) := by
    rw [createImageArtifact, if_neg (by decide), hmime, hname]
    rfl
  simp only [uploads, pixelCommands, Command.uploaded, hmade]
  rfl

theorem resolveImageReferences_of_uploads_pixel :
    resolveImageReferences (runAll asciiSpaces [] pixelCommands) alice pixelRequest =
      .ok (pixelRequest.map (shownMessage (uploads asciiSpaces [] pixelCommands))) := by
  refine resolveImageReferences_of_uploads asciiSpaces pixelCommands alice pixelRequest
    (by decide) ?_ ?_
  · rw [uploads_pixelCommands]
    intro part hpart
    rw [List.mem_singleton.mp hpart]
    exact ⟨(pixelFile, pixel), by decide, by decide⟩
  · rw [uploads_pixelCommands]
    decide

end Attachments

end EvernightAI

import EvernightAI.Image.Jpeg
import EvernightAI.Image.Png
import EvernightAI.Image.WebP
import EvernightAI.Schema.Base

/-!
# Bitmap attachments

The rest of `core/domain/image_attachment.py`: `bitmap_mime` tries the three formats in order, and
`clean_image_filename` makes a name for the file of what the user supplied.

`bitmapMime_eq_ok_iff`: the media type found is the one format whose grammar the file meets.
-/

namespace EvernightAI

namespace Bitmap

/-- The errors of attachments, with their messages. -/
inductive AttachmentError
  | validation (message : String)
  | conflict (message : String)
  | notFound (message : String)
  | chatInput (message : String)
  deriving DecidableEq, Repr

/-- `MAX_UPLOAD_BYTES` -/
def maxUploadBytes : Nat := 20 * 1024 * 1024

/-- `MAX_REQUEST_IMAGE_BYTES` -/
def maxRequestImageBytes : Nat := 50 * 1024 * 1024

/-- `MAX_REQUEST_IMAGES` -/
def maxRequestImages : Nat := 10

/-! ### The format of a file -/

/-- `bitmap_mime` -/
def bitmapMime (data : List UInt8) : Except AttachmentError String :=
  if Png.validPng data then .ok "image/png"
  else if Jpeg.validJpeg data then .ok "image/jpeg"
  else if WebP.validWebP data then .ok "image/webp"
  else .error (.validation "仅支持有效的 PNG、JPEG 或 WebP 图片")

/-- **A file of a format**, by the grammar of the format. -/
inductive IsBitmap : String → List UInt8 → Prop
  | png {data : List UInt8} (h : Png.IsPng data) : IsBitmap "image/png" data
  | jpeg {data : List UInt8} (h : Jpeg.IsJpeg data) : IsBitmap "image/jpeg" data
  | webp {data : List UInt8} (h : WebP.IsWebP data) : IsBitmap "image/webp" data

theorem head?_of_isPng {data : List UInt8} (h : Png.IsPng data) : data.head? = some 0x89 := by
  obtain ⟨header, body, -, -, -, rfl⟩ := h
  rfl

theorem head?_of_isJpeg {data : List UInt8} (h : Jpeg.IsJpeg data) : data.head? = some 0xFF := by
  obtain ⟨body, scan, entropy, -, -, -, -, -, rfl⟩ := h
  rfl

theorem head?_of_isWebP {data : List UInt8} (h : WebP.IsWebP data) : data.head? = some 0x52 := by
  obtain ⟨body, -, -, -, rfl⟩ := h
  rfl

/-- **The media type of a file**: the checks accept exactly the files of the three grammars, and
a file is of one format only. -/
theorem bitmapMime_eq_ok_iff (data : List UInt8) (mime : String) :
    bitmapMime data = .ok mime ↔ IsBitmap mime data := by
  rw [bitmapMime]
  constructor
  · intro h
    split at h
    · next hpng => exact Except.ok.inj h ▸ .png (Png.validPng_iff.mp hpng)
    · split at h
      · next hjpeg => exact Except.ok.inj h ▸ .jpeg (Jpeg.validJpeg_iff.mp hjpeg)
      · split at h
        · next hwebp => exact Except.ok.inj h ▸ .webp (WebP.validWebP_iff.mp hwebp)
        · exact absurd h (by simp)
  · intro h
    -- the formats differ in their first byte, so that the order of the checks does not matter
    have hfirst : ∀ {first second : UInt8}, data.head? = some first → data.head? = some second →
        first ≠ second → False := fun h h' hne => hne (Option.some.inj (h.symm.trans h'))
    cases h with
    | png hpng => rw [if_pos (Png.validPng_iff.mpr hpng)]
    | jpeg hjpeg =>
      rw [if_neg, if_pos (Jpeg.validJpeg_iff.mpr hjpeg)]
      intro hpng
      exact hfirst (head?_of_isPng (Png.validPng_iff.mp hpng)) (head?_of_isJpeg hjpeg) (by decide)
    | webp hwebp =>
      rw [if_neg, if_neg, if_pos (WebP.validWebP_iff.mpr hwebp)]
      · intro hjpeg
        exact hfirst (head?_of_isJpeg (Jpeg.validJpeg_iff.mp hjpeg)) (head?_of_isWebP hwebp)
          (by decide)
      · intro hpng
        exact hfirst (head?_of_isPng (Png.validPng_iff.mp hpng)) (head?_of_isWebP hwebp) (by decide)

/-! ### The name of a file -/

/-- The general category of a control character, `Cc`. -/
def isControl (c : Char) : Bool := decide (c.toNat < 32 ∨ 127 ≤ c.toNat ∧ c.toNat ≤ 159)

/-- `text.strip(chars)` -/
def stripChars (p : Char → Bool) (text : List Char) : List Char :=
  ((text.dropWhile p).reverse.dropWhile p).reverse

/-- `text.rsplit("/", 1)[-1]` -/
def lastComponent (text : List Char) : List Char :=
  (text.reverse.takeWhile fun c => decide (c ≠ '/')).reverse

/-- `clean_image_filename` -/
def cleanImageFilename (u : UnicodeTables) (filename : String) : Except AttachmentError String :=
  let forward := filename.toList.map fun c => if c = '\\' then '/' else c
  let name := (lastComponent forward).filter fun c => !isControl c
  let name := (stripChars (fun c => decide (c = '.')) (stripChars u.isSpace name)).take 200
  if name = [] then .error (.validation "图片文件名无效") else .ok (String.ofList name)

end Bitmap

end EvernightAI

import EvernightAI.Lib.RecordScan

/-!
# WebP files

`_valid_webp` of `core/domain/image_attachment.py`: a RIFF header whose size is the rest of the
file, and a loop over chunks that looks for one holding a picture. The data is a list of bytes;
where the source keeps an offset, the model keeps the bytes from it on.

`validWebP_iff` says which files it lets through, by a grammar: the header, and chunks that fill the
file, each padded to an even length, one of them with the marks of a picture.
-/

namespace EvernightAI

open ByteField RecordFormat

namespace WebP

/-- A chunk, with the padding byte of an odd payload. -/
structure Chunk where
  kind : List UInt8
  payload : List UInt8
  pad : List UInt8

/-- `b"RIFF"` -/
def riff : List UInt8 := [0x52, 0x49, 0x46, 0x46]

/-- `b"WEBP"` -/
def webp : List UInt8 := [0x57, 0x45, 0x42, 0x50]

/-- `b"VP8 "` -/
def vp8 : List UInt8 := [0x56, 0x50, 0x38, 0x20]

/-- `b"VP8L"` -/
def vp8l : List UInt8 := [0x56, 0x50, 0x38, 0x4C]

/-- `b"ANMF"` -/
def anmf : List UInt8 := [0x41, 0x4E, 0x4D, 0x46]

def Chunk.write (chunk : Chunk) : List UInt8 :=
  chunk.kind ++ (toLE 4 chunk.payload.length ++ (chunk.payload ++ chunk.pad))

/-- The chunk at the front of the data. -/
def Chunk.read (data : List UInt8) : Option (Chunk × List UInt8) :=
  let size := ofLE (slice data 4 8)
  let stop := 8 + size + (size &&& 1)
  if data.length < stop then none
  else some (⟨slice data 0 4, slice data 8 (8 + size), slice data (8 + size) stop⟩, data.drop stop)

/-- A kind of four bytes, a length that fits its field, and a padding byte if it is odd. -/
structure Chunk.Valid (chunk : Chunk) : Prop where
  kind : chunk.kind.length = 4
  payload : chunk.payload.length < 256 ^ 4
  pad : chunk.pad.length = chunk.payload.length &&& 1

theorem Chunk.read_eq_some {data rest : List UInt8} {chunk : Chunk} :
    Chunk.read data = some (chunk, rest) ↔ chunk.Valid ∧ data = chunk.write ++ rest := by
  constructor
  · intro h
    rw [Chunk.read] at h
    split at h
    · exact absurd h (by simp)
    · next hlength =>
      obtain ⟨rfl, rfl⟩ := Prod.mk.inj (Option.some.inj h)
      rw [not_lt] at hlength
      have hkind : (slice data 0 4).length = 4 := length_slice (by omega)
      have hsize : (slice data 4 8).length = 4 := length_slice (by omega)
      have hpayload : (slice data 8 (8 + ofLE (slice data 4 8))).length = ofLE (slice data 4 8) := by
        rw [length_slice (by omega)]
        omega
      have hpad : (slice data (8 + ofLE (slice data 4 8))
          (8 + ofLE (slice data 4 8) + (ofLE (slice data 4 8) &&& 1))).length =
          ofLE (slice data 4 8) &&& 1 := by
        rw [length_slice hlength]
        omega
      refine ⟨⟨hkind, ?_, ?_⟩, ?_⟩
      · rw [hpayload]
        exact (ofLE_lt _).trans_eq (by rw [hsize])
      · rw [hpayload]
        exact hpad
      · have hwritten := toLE_ofLE (slice data 4 8)
        rw [hsize] at hwritten
        rw [Chunk.write, hpayload, hwritten]
        simp only [List.append_assoc]
        rw [slice_append_drop (by omega), slice_append_drop (by omega),
          slice_append_drop (by omega), slice_append_drop (by omega), List.drop_zero]
  · rintro ⟨⟨hkind, hpayload, hpad⟩, rfl⟩
    -- each field is the slice behind the fields before it
    have hkind' : slice (chunk.write ++ rest) 0 4 = chunk.kind := by
      rw [Chunk.write, List.append_assoc, slice, List.take_left' hkind, List.drop_zero]
    have hsize : slice (chunk.write ++ rest) 4 8 = toLE 4 chunk.payload.length := by
      rw [Chunk.write, List.append_assoc, List.append_assoc]
      exact slice_append hkind (by rw [hkind, length_toLE])
    have hpayload' : slice (chunk.write ++ rest) 8 (8 + chunk.payload.length) = chunk.payload := by
      rw [Chunk.write, ← List.append_assoc chunk.kind, List.append_assoc,
        List.append_assoc chunk.payload]
      refine slice_append ?_ ?_
      · rw [List.length_append, length_toLE, hkind]
      · rw [List.length_append, length_toLE, hkind]
    have hpad' : slice (chunk.write ++ rest) (8 + chunk.payload.length)
        (8 + chunk.payload.length + (chunk.payload.length &&& 1)) = chunk.pad := by
      rw [Chunk.write, ← List.append_assoc chunk.kind, ← List.append_assoc (_ ++ _),
        List.append_assoc]
      refine slice_append ?_ ?_
      · simp only [List.length_append, length_toLE, hkind]
      · simp only [List.length_append, length_toLE, hkind, hpad]
    have hwritten : chunk.write.length =
        8 + chunk.payload.length + (chunk.payload.length &&& 1) := by
      simp only [Chunk.write, List.length_append, length_toLE, hkind, hpad]
      omega
    rw [Chunk.read, hsize, ofLE_toLE hpayload, hkind', hpayload', hpad', if_neg,
      List.drop_left' hwritten]
    rw [List.length_append, hwritten]
    omega

/-- The chunks of a WebP file as a format of records. -/
def chunks : RecordFormat UInt8 Chunk where
  Valid := Chunk.Valid
  write := Chunk.write
  read := Chunk.read
  exact := Chunk.read_eq_some
  write_ne_nil chunk h := by
    have hlength := congrArg List.length h
    simp only [Chunk.write, List.length_append, length_toLE, List.length_nil] at hlength
    omega

/-- The marks of a picture: a lossy or a lossless one, or a frame of an animation. -/
def Chunk.isImage (chunk : Chunk) : Bool :=
  let size := chunk.payload.length
  let frameSize := ofLE (slice chunk.payload 20 24)
  decide (chunk.kind = vp8 ∧ 10 ≤ size ∧ slice chunk.payload 3 6 = [0x9D, 0x01, 0x2A]) ||
    decide (chunk.kind = vp8l ∧ 5 ≤ size ∧ chunk.payload.head? = some 0x2F) ||
    decide (chunk.kind = anmf ∧ 24 ≤ size ∧
      (slice chunk.payload 16 20 = vp8 ∨ slice chunk.payload 16 20 = vp8l) ∧
      24 + frameSize + (frameSize &&& 1) ≤ size)

/-- One round of the WebP loop. -/
def webpStep (sawImageChunk : Bool) (chunk : Chunk) : Outcome UInt8 Bool :=
  .next (sawImageChunk || chunk.isImage)

def webpGuard (rest : List UInt8) : Bool := decide (8 ≤ rest.length)

/-- Every byte is part of a chunk. -/
def webpEnd (sawImageChunk : Bool) (rest : List UInt8) : Bool := sawImageChunk && rest.isEmpty

/-- `_valid_webp` -/
def validWebP (data : List UInt8) : Bool :=
  decide (20 ≤ data.length ∧ slice data 0 4 = riff ∧ slice data 8 12 = webp) &&
    decide (ofLE (slice data 4 8) = data.length - 8) &&
    chunks.scan webpGuard webpStep webpEnd false (data.drop 12)

/-- **A WebP file**: a header that states the size of what follows, and chunks, one of them a
picture. -/
def IsWebP (data : List UInt8) : Prop :=
  ∃ body : List Chunk, (∀ chunk ∈ body, chunk.Valid) ∧ (∃ chunk ∈ body, chunk.isImage = true) ∧
    4 + (body.flatMap Chunk.write).length < 256 ^ 4 ∧
    data = riff ++ (toLE 4 (4 + (body.flatMap Chunk.write).length) ++
      (webp ++ body.flatMap Chunk.write))

theorem accepts_webp {text : List UInt8} :
    chunks.Accepts webpGuard webpStep webpEnd false text ↔
      ∃ body : List Chunk, (∀ chunk ∈ body, chunk.Valid) ∧
        (∃ chunk ∈ body, chunk.isImage = true) ∧ text = body.flatMap Chunk.write := by
  have hgoes : ∀ (saw : Bool) (chunk : Chunk) (saw' : Bool), True →
      (webpStep saw chunk = .next saw' ↔ True ∧ saw' = (saw || chunk.isImage)) := by
    intro saw chunk saw' _
    rw [webpStep, true_and]
    exact ⟨fun h => (Outcome.next.inj h).symm, fun h => h ▸ rfl⟩
  have hguard : ∀ (saw : Bool) (chunk : Chunk) (text : List UInt8), chunks.Valid chunk →
      chunks.Accepts webpGuard webpStep webpEnd saw text →
      webpGuard (chunks.write chunk ++ text) = true := by
    intro saw chunk text hvalid _
    refine decide_eq_true ?_
    change 8 ≤ (chunk.write ++ text).length
    simp only [Chunk.write, List.length_append, length_toLE, hvalid.kind]
    omega
  have hsaw : ∀ (body : List Chunk) (saw : Bool),
      body.foldl (fun saw chunk => saw || chunk.isImage) saw = true ↔
        saw = true ∨ ∃ chunk ∈ body, chunk.isImage = true := by
    intro body
    induction body with
    | nil => simp
    | cons chunk body ih =>
      intro saw
      rw [List.foldl_cons, ih, Bool.or_eq_true, or_assoc]
      simp only [List.mem_cons, exists_eq_or_imp]
  refine (accepts_iff hgoes (fun _ _ _ _ => trivial) hguard trivial).trans ?_
  constructor
  · rintro ⟨body, rest, hbody, rfl, ⟨-, hend⟩ | ⟨chunk, tail, check, -, -, -, hfinish, -⟩⟩
    · rw [webpEnd, Bool.and_eq_true, List.isEmpty_iff] at hend
      obtain ⟨hsaw', rfl⟩ := hend
      have himage := ((hsaw body false).mp hsaw').resolve_left (by simp)
      exact ⟨body, fun chunk hchunk => (hbody chunk hchunk).1, himage, List.append_nil _⟩
    · exact absurd hfinish (by simp [webpStep])
  · rintro ⟨body, hbody, himage, rfl⟩
    refine ⟨body, [], fun chunk hchunk => ⟨hbody chunk hchunk, trivial⟩, (List.append_nil _).symm,
      .inl ⟨rfl, ?_⟩⟩
    rw [webpEnd, (hsaw body false).mpr (.inr himage)]
    rfl

/-- **The WebP loop accepts the WebP files.** -/
theorem validWebP_iff {data : List UInt8} : validWebP data = true ↔ IsWebP data := by
  rw [validWebP, Bool.and_eq_true, Bool.and_eq_true, scan_eq_true, accepts_webp, decide_eq_true_eq,
    decide_eq_true_eq]
  constructor
  · rintro ⟨⟨⟨hlength, hriff, hwebp⟩, hsize⟩, body, hbody, himage, htail⟩
    have hfield : (slice data 4 8).length = 4 := length_slice (by omega)
    have hrest : 4 + (body.flatMap Chunk.write).length = ofLE (slice data 4 8) := by
      rw [hsize, ← htail, List.length_drop]
      omega
    have hbound := ofLE_lt (slice data 4 8)
    have hwritten := toLE_ofLE (slice data 4 8)
    rw [hfield] at hbound hwritten
    refine ⟨body, hbody, himage, hrest.trans_lt hbound, ?_⟩
    rw [hrest, hwritten, ← htail, ← hriff, ← hwebp, slice_append_drop (by omega),
      slice_append_drop (by omega), slice_append_drop (by omega), List.drop_zero]
  · rintro ⟨body, hbody, himage, hbound, rfl⟩
    have hriff : riff.length = 4 := rfl
    have hwebp : webp.length = 4 := rfl
    have hbody' : 8 ≤ (body.flatMap Chunk.write).length := by
      obtain ⟨chunk, hchunk, -⟩ := himage
      obtain ⟨before, after, rfl⟩ := List.append_of_mem hchunk
      simp only [List.flatMap_append, List.flatMap_cons, List.length_append, Chunk.write,
        length_toLE, (hbody chunk hchunk).kind]
      omega
    generalize htail : body.flatMap Chunk.write = tail at hbody' hbound ⊢
    have hfirst : slice (riff ++ (toLE 4 (4 + tail.length) ++ (webp ++ tail))) 0 4 = riff := by
      rw [slice, List.take_left' hriff, List.drop_zero]
    have hsize : slice (riff ++ (toLE 4 (4 + tail.length) ++ (webp ++ tail))) 4 8 =
        toLE 4 (4 + tail.length) := slice_append hriff (by rw [hriff, length_toLE])
    have hthird : slice (riff ++ (toLE 4 (4 + tail.length) ++ (webp ++ tail))) 8 12 = webp := by
      rw [← List.append_assoc riff]
      refine slice_append ?_ ?_
      · rw [List.length_append, hriff, length_toLE]
      · rw [List.length_append, hriff, hwebp, length_toLE]
    have hlength : (riff ++ (toLE 4 (4 + tail.length) ++ (webp ++ tail))).length =
        12 + tail.length := by
      simp only [List.length_append, hriff, hwebp, length_toLE]
      omega
    rw [hfirst, hsize, hthird, hlength, ofLE_toLE hbound]
    refine ⟨⟨⟨by omega, rfl, rfl⟩, by omega⟩, body, hbody, himage, ?_⟩
    rw [htail, ← List.append_assoc, ← List.append_assoc]
    refine List.drop_left' ?_
    rw [List.length_append, List.length_append, hriff, hwebp, length_toLE]

end WebP

end EvernightAI

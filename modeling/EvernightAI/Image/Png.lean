import EvernightAI.Lib.RecordScan

/-!
# PNG files

`_valid_png` of `core/domain/image_attachment.py`: a loop over chunks, each with its length and its
checksum, and flags for what it saw. The data is a list of bytes; where the source keeps an offset,
the model keeps the bytes from it on.

`validPng_iff` says which files the loop lets through, by a grammar: a header with a width and a
height, chunks with picture data among them, and an empty end chunk that nothing follows, with every
checksum right.
-/

namespace EvernightAI

open ByteField RecordFormat

namespace Png

/-! ### The checksum of a chunk -/

/-- The remainder after one more bit, least significant bit first. -/
def crcBit (crc : UInt32) : UInt32 :=
  if crc &&& 1 = 1 then (crc >>> 1) ^^^ 0xEDB88320 else crc >>> 1

def crcByte (crc : UInt32) (byte : UInt8) : UInt32 := crcBit^[8] (crc ^^^ byte.toUInt32)

/-- `zlib.crc32`. -/
def crc32 (data : List UInt8) : UInt32 := data.foldl crcByte 0xFFFFFFFF ^^^ 0xFFFFFFFF

example : crc32 [0x49, 0x45, 0x4E, 0x44] = 0xAE426082 := by decide +kernel

/-! ### PNG -/

/-- A chunk of a PNG file; its length and its checksum are not kept, they follow. -/
structure Chunk where
  kind : List UInt8
  payload : List UInt8

/-- `b"\x89PNG\r\n\x1a\n"` -/
def pngSignature : List UInt8 := [0x89, 0x50, 0x4E, 0x47, 0x0D, 0x0A, 0x1A, 0x0A]

/-- `b"IHDR"` -/
def ihdr : List UInt8 := [0x49, 0x48, 0x44, 0x52]

/-- `b"IDAT"` -/
def idat : List UInt8 := [0x49, 0x44, 0x41, 0x54]

/-- `b"IEND"` -/
def iend : List UInt8 := [0x49, 0x45, 0x4E, 0x44]

def Chunk.write (chunk : Chunk) : List UInt8 :=
  toBE 4 chunk.payload.length ++ (chunk.kind ++ (chunk.payload ++
    toBE 4 (crc32 (chunk.kind ++ chunk.payload)).toNat))

/-- The chunk at the front of the data, with its length and its checksum tested. -/
def Chunk.read (data : List UInt8) : Option (Chunk × List UInt8) :=
  let length := ofBE (slice data 0 4)
  let kind := slice data 4 8
  let stop := 12 + length
  let payload := slice data 8 (8 + length)
  if data.length < stop then none
  else if (crc32 (kind ++ payload)).toNat ≠ ofBE (slice data (8 + length) stop) then none
  else some (⟨kind, payload⟩, data.drop stop)

/-- A kind of four bytes and a length that fits its field. -/
structure Chunk.Valid (chunk : Chunk) : Prop where
  kind : chunk.kind.length = 4
  payload : chunk.payload.length < 256 ^ 4

theorem toNat_crc32_lt (data : List UInt8) : (crc32 data).toNat < 256 ^ 4 := (crc32 data).toNat_lt

theorem Chunk.read_eq_some {data rest : List UInt8} {chunk : Chunk} :
    Chunk.read data = some (chunk, rest) ↔ chunk.Valid ∧ data = chunk.write ++ rest := by
  constructor
  · intro h
    rw [Chunk.read] at h
    split at h
    · exact absurd h (by simp)
    · next hlength =>
      split at h
      · exact absurd h (by simp)
      · next hcrc =>
        obtain ⟨rfl, rfl⟩ := Prod.mk.inj (Option.some.inj h)
        rw [not_lt] at hlength
        have hfield : (slice data 0 4).length = 4 := length_slice (by omega)
        have hkind : (slice data 4 8).length = 4 := length_slice (by omega)
        have hpayload : (slice data 8 (8 + ofBE (slice data 0 4))).length =
            ofBE (slice data 0 4) := by
          rw [length_slice (by omega)]
          omega
        have hsum : (slice data (8 + ofBE (slice data 0 4)) (12 + ofBE (slice data 0 4))).length =
            4 := by
          rw [length_slice hlength]
          omega
        refine ⟨⟨hkind, ?_⟩, ?_⟩
        · rw [hpayload]
          exact (ofBE_lt _).trans_eq (by rw [hfield])
        · have hfirst := toBE_ofBE (slice data 0 4)
          have hlast := toBE_ofBE
            (slice data (8 + ofBE (slice data 0 4)) (12 + ofBE (slice data 0 4)))
          rw [hfield] at hfirst
          rw [hsum, ← not_not.mp hcrc] at hlast
          rw [Chunk.write, hpayload, hfirst, hlast]
          simp only [List.append_assoc]
          rw [slice_append_drop (by omega), slice_append_drop (by omega),
            slice_append_drop (by omega), slice_append_drop (by omega), List.drop_zero]
  · rintro ⟨⟨hkind, hpayload⟩, rfl⟩
    -- each field is the slice behind the fields before it
    have hlength : slice (chunk.write ++ rest) 0 4 = toBE 4 chunk.payload.length := by
      rw [Chunk.write, List.append_assoc, slice, List.take_left' (length_toBE 4 _), List.drop_zero]
    have hkind' : slice (chunk.write ++ rest) 4 8 = chunk.kind := by
      rw [Chunk.write, List.append_assoc, List.append_assoc]
      exact slice_append (length_toBE 4 _) (by rw [length_toBE, hkind])
    have hpayload' : slice (chunk.write ++ rest) 8 (8 + chunk.payload.length) = chunk.payload := by
      rw [Chunk.write, ← List.append_assoc (toBE _ _), List.append_assoc,
        List.append_assoc chunk.payload]
      refine slice_append ?_ ?_
      · rw [List.length_append, length_toBE, hkind]
      · rw [List.length_append, length_toBE, hkind]
    have hsum : slice (chunk.write ++ rest) (8 + chunk.payload.length)
        (12 + chunk.payload.length) = toBE 4 (crc32 (chunk.kind ++ chunk.payload)).toNat := by
      rw [Chunk.write, ← List.append_assoc (toBE _ _), ← List.append_assoc (_ ++ _),
        List.append_assoc]
      refine slice_append ?_ ?_
      · simp only [List.length_append, length_toBE, hkind]
      · simp only [List.length_append, length_toBE, hkind]
        omega
    have hwritten : chunk.write.length = 12 + chunk.payload.length := by
      simp only [Chunk.write, List.length_append, length_toBE, hkind]
      omega
    rw [Chunk.read, hlength, ofBE_toBE hpayload, hkind', hpayload', hsum,
      ofBE_toBE (toNat_crc32_lt _), if_neg, if_neg (not_not.mpr rfl), List.drop_left' hwritten]
    rw [List.length_append, hwritten]
    omega

/-- The chunks of a PNG file as a format of records. -/
def chunks : RecordFormat UInt8 Chunk where
  Valid := Chunk.Valid
  write := Chunk.write
  read := Chunk.read
  exact := Chunk.read_eq_some
  write_ne_nil chunk h := by
    have hlength := congrArg List.length h
    simp only [Chunk.write, List.length_append, length_toBE, List.length_nil] at hlength
    omega

/-- The flags of the PNG loop. -/
structure PngScan where
  sawHeader : Bool
  sawData : Bool

/-- One round of the PNG loop. -/
def pngStep (state : PngScan) (chunk : Chunk) : Outcome UInt8 PngScan :=
  if state.sawHeader = false then
    if chunk.kind ≠ ihdr ∨ chunk.payload.length ≠ 13 then .finish fun _ => false
    else if ofBE (slice chunk.payload 0 4) = 0 ∨ ofBE (slice chunk.payload 4 8) = 0 then
      .finish fun _ => false
    else .next { state with sawHeader := true }
  else if chunk.kind = idat then .next { state with sawData := true }
  else if chunk.kind = iend then
    .finish fun rest => decide (chunk.payload.length = 0) && state.sawData && rest.isEmpty
  else .next state

def pngGuard (rest : List UInt8) : Bool := decide (12 ≤ rest.length)

/-- `_valid_png`: without an end chunk nothing is accepted. -/
def validPng (data : List UInt8) : Bool :=
  pngSignature.isPrefixOf data &&
    chunks.scan pngGuard pngStep (fun _ _ => false) ⟨false, false⟩ (data.drop 8)

/-- **The header of a picture**: thirteen bytes, with a width and a height. -/
structure Chunk.IsHeader (chunk : Chunk) : Prop where
  valid : chunk.Valid
  kind : chunk.kind = ihdr
  length : chunk.payload.length = 13
  width : ofBE (slice chunk.payload 0 4) ≠ 0
  height : ofBE (slice chunk.payload 4 8) ≠ 0

/-- **A PNG file**: a header, chunks with picture data among them, and an empty end chunk. -/
def IsPng (data : List UInt8) : Prop :=
  ∃ (header : Chunk) (body : List Chunk), header.IsHeader ∧
    (∀ chunk ∈ body, chunk.Valid ∧ chunk.kind ≠ iend) ∧ (∃ chunk ∈ body, chunk.kind = idat) ∧
    data = pngSignature ++ (header.write ++ (body.flatMap Chunk.write ++ Chunk.write ⟨iend, []⟩))

/-- The flags after a chunk that is neither the first nor the last. -/
def pngSaw (state : PngScan) (chunk : Chunk) : PngScan :=
  if chunk.kind = idat then { state with sawData := true } else state

theorem pngStep_header {state : PngScan} {chunk : Chunk} {state' : PngScan}
    (h : state.sawHeader = false) (hvalid : chunk.Valid) :
    pngStep state chunk = .next state' ↔
      chunk.IsHeader ∧ state' = { state with sawHeader := true } := by
  rw [pngStep, if_pos h]
  constructor
  · intro hstep
    split at hstep
    · exact absurd hstep (by simp)
    · next hkind =>
      split at hstep
      · exact absurd hstep (by simp)
      · next hsize =>
        rw [not_or, not_not, not_not] at hkind
        rw [not_or] at hsize
        exact ⟨⟨hvalid, hkind.1, hkind.2, hsize.1, hsize.2⟩, (Outcome.next.inj hstep).symm⟩
  · rintro ⟨hheader, rfl⟩
    rw [if_neg, if_neg]
    · exact not_or.mpr ⟨hheader.width, hheader.height⟩
    · exact not_or.mpr ⟨not_not.mpr hheader.kind, not_not.mpr hheader.length⟩

theorem pngStep_header_finish {state : PngScan} {chunk : Chunk} {check : List UInt8 → Bool}
    (h : state.sawHeader = false) (hstep : pngStep state chunk = .finish check)
    (rest : List UInt8) : check rest = false := by
  rw [pngStep, if_pos h] at hstep
  split at hstep
  · exact (congrFun (Outcome.finish.inj hstep) rest).symm
  · split at hstep
    · exact (congrFun (Outcome.finish.inj hstep) rest).symm
    · exact absurd hstep (by simp)

theorem pngStep_eq_next (state : PngScan) (chunk : Chunk) (state' : PngScan)
    (h : state.sawHeader = true) :
    pngStep state chunk = .next state' ↔ chunk.kind ≠ iend ∧ state' = pngSaw state chunk := by
  have hdiffer : idat ≠ iend := by decide
  rw [pngStep, if_neg (by simp [h]), pngSaw]
  by_cases hdata : chunk.kind = idat
  · rw [if_pos hdata, if_pos hdata, hdata]
    exact ⟨fun hstep => ⟨hdiffer, (Outcome.next.inj hstep).symm⟩, fun hstep => hstep.2 ▸ rfl⟩
  · rw [if_neg hdata, if_neg hdata]
    by_cases hend : chunk.kind = iend
    · rw [if_pos hend]
      exact ⟨fun hstep => absurd hstep (by simp), fun hstep => absurd hend hstep.1⟩
    · rw [if_neg hend]
      exact ⟨fun hstep => ⟨hend, (Outcome.next.inj hstep).symm⟩, fun hstep => hstep.2 ▸ rfl⟩

/-- The flags remember whether there was picture data. -/
theorem foldl_pngSaw (body : List Chunk) (state : PngScan) :
    body.foldl pngSaw state = { state with
      sawData := state.sawData || body.any fun chunk => decide (chunk.kind = idat) } := by
  induction body generalizing state with
  | nil => rw [List.foldl_nil, List.any_nil, Bool.or_false]
  | cons chunk body ih =>
    rw [List.foldl_cons, ih, List.any_cons, pngSaw]
    by_cases hdata : chunk.kind = idat
    · simp [hdata]
    · simp [hdata]

theorem pngGuard_write (chunk : Chunk) (hvalid : chunk.Valid) (rest : List UInt8) :
    pngGuard (chunk.write ++ rest) = true := by
  simp only [pngGuard, Chunk.write, List.length_append, length_toBE, hvalid.kind, decide_eq_true_eq]
  omega

/-- The loop ends well at an empty end chunk with nothing behind it. -/
theorem ends_png {state : PngScan} {rest : List UInt8} (h : state.sawHeader = true) :
    Ends chunks pngGuard pngStep (fun _ _ => false) state rest ↔
      state.sawData = true ∧ rest = Chunk.write ⟨iend, []⟩ := by
  have hstep : ∀ chunk check, pngStep state chunk = .finish check ↔ chunk.kind = iend ∧
      check = fun rest => decide (chunk.payload.length = 0) && state.sawData && rest.isEmpty := by
    intro chunk check
    rw [pngStep, if_neg (by simp [h])]
    split
    · next hdata => simp [hdata, idat, iend]
    · split
      · next hend => simp [hend, eq_comm]
      · next hend => simp [hend]
  constructor
  · rintro (⟨-, hend⟩ | ⟨⟨kind, payload⟩, tail, check, rfl, -, hvalid, hfinish, hcheck⟩)
    · exact absurd hend (by simp)
    · obtain ⟨rfl, rfl⟩ := (hstep _ _).mp hfinish
      simp only [Bool.and_eq_true, decide_eq_true_eq, List.isEmpty_iff,
        List.length_eq_zero_iff] at hcheck
      obtain ⟨⟨rfl, hdata⟩, rfl⟩ := hcheck
      exact ⟨hdata, List.append_nil _⟩
  · rintro ⟨hdata, rfl⟩
    have hvalid : Chunk.Valid ⟨iend, []⟩ := ⟨rfl, by decide⟩
    refine .inr ⟨⟨iend, []⟩, [], _, (List.append_nil _).symm, ?_, hvalid,
      (hstep _ _).mpr ⟨rfl, rfl⟩, ?_⟩
    · have := pngGuard_write _ hvalid []
      rwa [List.append_nil] at this
    · simp [hdata]

/-- Behind its header, the loop accepts chunks with picture data and an end chunk. -/
theorem accepts_png {state : PngScan} {text : List UInt8} (h : state.sawHeader = true) :
    chunks.Accepts pngGuard pngStep (fun _ _ => false) state text ↔
      ∃ body : List Chunk, (∀ chunk ∈ body, chunk.Valid ∧ chunk.kind ≠ iend) ∧
        (state.sawData = true ∨ ∃ chunk ∈ body, chunk.kind = idat) ∧
        text = body.flatMap Chunk.write ++ Chunk.write ⟨iend, []⟩ := by
  have hinside : ∀ (state : PngScan) (chunk : Chunk), state.sawHeader = true →
      chunk.kind ≠ iend → (pngSaw state chunk).sawHeader = true := by
    intro state chunk hin _
    rw [pngSaw]
    split
    · exact hin
    · exact hin
  have hguard : ∀ (state : PngScan) (chunk : Chunk) (text : List UInt8), chunks.Valid chunk →
      chunks.Accepts pngGuard pngStep (fun _ _ => false) state text →
      pngGuard (chunks.write chunk ++ text) = true :=
    fun _ chunk text hvalid _ => pngGuard_write chunk hvalid text
  refine (accepts_iff pngStep_eq_next hinside hguard h).trans ?_
  have hsaw : ∀ body : List Chunk, (body.foldl pngSaw state).sawData = true ↔
      state.sawData = true ∨ ∃ chunk ∈ body, chunk.kind = idat := by
    intro body
    rw [foldl_pngSaw, Bool.or_eq_true, List.any_eq_true]
    simp only [decide_eq_true_eq]
  have hin : ∀ body : List Chunk, (body.foldl pngSaw state).sawHeader = true := by
    intro body
    rw [foldl_pngSaw]
    exact h
  constructor
  · rintro ⟨body, rest, hbody, rfl, hends⟩
    obtain ⟨hdata, rfl⟩ := (ends_png (hin body)).mp hends
    exact ⟨body, hbody, (hsaw body).mp hdata, rfl⟩
  · rintro ⟨body, hbody, hdata, rfl⟩
    exact ⟨body, _, hbody, rfl, (ends_png (hin body)).mpr ⟨(hsaw body).mpr hdata, rfl⟩⟩

/-- **The PNG loop accepts the PNG files.** -/
theorem validPng_iff {data : List UInt8} : validPng data = true ↔ IsPng data := by
  have hsignature : pngSignature.length = 8 := rfl
  rw [validPng, Bool.and_eq_true, scan_eq_true, List.isPrefixOf_iff_prefix]
  constructor
  · rintro ⟨⟨rest, rfl⟩, haccepts⟩
    rw [List.drop_left' hsignature] at haccepts
    generalize hstate : (⟨false, false⟩ : PngScan) = state at haccepts
    cases haccepts with
    | ended hguard hend => exact absurd hend (by simp)
    | finished hguard hvalid hstep hcheck =>
      rw [pngStep_header_finish (by rw [← hstate]) hstep] at hcheck
      exact absurd hcheck (by simp)
    | @went _ state' header rest hguard hvalid hstep hrest =>
      obtain ⟨hheader, rfl⟩ := (pngStep_header (by rw [← hstate]) hvalid).mp hstep
      obtain ⟨body, hbody, hdata, rfl⟩ := (accepts_png rfl).mp hrest
      rw [← hstate] at hdata
      exact ⟨header, body, hheader, hbody, hdata.resolve_left (by simp), rfl⟩
  · rintro ⟨header, body, hheader, hbody, hdata, rfl⟩
    refine ⟨List.prefix_append _ _, ?_⟩
    rw [List.drop_left' hsignature]
    refine .went (pngGuard_write _ hheader.valid _) hheader.valid
      ((pngStep_header rfl hheader.valid).mpr ⟨hheader, rfl⟩) ?_
    exact (accepts_png rfl).mpr ⟨body, hbody, .inr hdata, rfl⟩

end Png

end EvernightAI

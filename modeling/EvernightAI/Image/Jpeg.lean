import EvernightAI.Lib.RecordScan
import Mathlib.Data.List.Induction

/-!
# JPEG files

`_valid_jpeg` of `core/domain/image_attachment.py`: a loop over marker segments up to the start of
the scan, from which the end mark is searched. The data is a list of bytes; where the source keeps
an offset, the model keeps the bytes from it on.

`validJpeg_iff` says which files it lets through, by a grammar: segments of which the last frame
header is long enough, one scan segment, and entropy coded data up to the first end mark, which ends
the file. The branch for an end mark between segments never accepts: the scan flag it asks for is
set only where the loop returns.
-/

namespace EvernightAI

open ByteField RecordFormat

namespace Jpeg

/-- A segment: fill bytes, a marker, and what stands behind the length field. -/
structure Segment where
  fill : Nat
  marker : UInt8
  payload : List UInt8

/-- Markers without a length field, the end mark among them. -/
def alone (marker : UInt8) : Bool :=
  decide (marker = 0xD9) || decide (marker = 0xD8 ∨ marker = 0x01) ||
    decide (0xD0 ≤ marker ∧ marker ≤ 0xD7)

/-- The markers of frame headers. -/
def frameMarkers : List UInt8 :=
  [0xC0, 0xC1, 0xC2, 0xC3, 0xC5, 0xC6, 0xC7, 0xC9, 0xCA, 0xCB, 0xCD, 0xCE, 0xCF]

/-- `b"\xff\xd8"` -/
def startMark : List UInt8 := [0xFF, 0xD8]

/-- `b"\xff\xd9"` -/
def endMark : List UInt8 := [0xFF, 0xD9]

def writePayload (marker : UInt8) (payload : List UInt8) : List UInt8 :=
  if alone marker then [] else toBE 2 (payload.length + 2) ++ payload

def Segment.write (segment : Segment) : List UInt8 :=
  List.replicate segment.fill 0xFF ++ segment.marker :: writePayload segment.marker segment.payload

/-- What stands behind a marker. -/
def readPayload (marker : UInt8) (data : List UInt8) : Option (List UInt8 × List UInt8) :=
  let length := ofBE (slice data 0 2)
  if alone marker then some ([], data)
  else if data.length < 2 then none
  else if length < 2 ∨ data.length < length then none
  else some (slice data 2 length, data.drop length)

/-- The segment at the front of the data. -/
def Segment.read (data : List UInt8) : Option (Segment × List UInt8) :=
  let fill := data.takeWhile fun byte => byte == 0xFF
  if fill = [] then none
  else
    match data.dropWhile fun byte => byte == 0xFF with
    | [] => none
    | marker :: rest =>
      (readPayload marker rest).map fun read => (⟨fill.length, marker, read.1⟩, read.2)

/-- At least one fill byte, a marker that is none, and a payload that fits its length field. -/
structure Segment.Valid (segment : Segment) : Prop where
  fill : 0 < segment.fill
  marker : segment.marker ≠ 0xFF
  alone : alone segment.marker = true → segment.payload = []
  payload : segment.payload.length + 2 < 256 ^ 2

theorem readPayload_eq_some {marker : UInt8} {data payload rest : List UInt8} :
    readPayload marker data = some (payload, rest) ↔ (alone marker = true → payload = []) ∧
      payload.length + 2 < 256 ^ 2 ∧ data = writePayload marker payload ++ rest := by
  rw [readPayload, writePayload]
  by_cases halone : alone marker = true
  · rw [if_pos halone, if_pos halone, List.nil_append]
    constructor
    · intro h
      obtain ⟨rfl, rfl⟩ := Prod.mk.inj (Option.some.inj h)
      exact ⟨fun _ => rfl, by decide, rfl⟩
    · rintro ⟨hpayload, -, rfl⟩
      rw [hpayload halone]
  · rw [if_neg halone, if_neg halone]
    constructor
    · intro h
      split at h
      · exact absurd h (by simp)
      · next hfield =>
        split at h
        · exact absurd h (by simp)
        · next hlength =>
          obtain ⟨rfl, rfl⟩ := Prod.mk.inj (Option.some.inj h)
          rw [not_or, not_lt, not_lt] at hlength
          have htwo : (slice data 0 2).length = 2 := length_slice (by omega)
          have hbound := ofBE_lt (slice data 0 2)
          rw [htwo] at hbound
          have hpayload : (slice data 2 (ofBE (slice data 0 2))).length + 2 =
              ofBE (slice data 0 2) := by
            rw [length_slice hlength.2]
            omega
          have hwritten := toBE_ofBE (slice data 0 2)
          rw [htwo] at hwritten
          rw [hpayload]
          refine ⟨fun h => absurd h halone, hbound, ?_⟩
          rw [hwritten, List.append_assoc, slice_append_drop hlength.1,
            slice_append_drop (by omega), List.drop_zero]
    · rintro ⟨-, hbound, rfl⟩
      have hfield : slice ((toBE 2 (payload.length + 2) ++ payload) ++ rest) 0 2 =
          toBE 2 (payload.length + 2) := by
        rw [List.append_assoc, slice, List.take_left' (length_toBE 2 _), List.drop_zero]
      have hpayload : slice ((toBE 2 (payload.length + 2) ++ payload) ++ rest) 2
          (payload.length + 2) = payload := by
        rw [List.append_assoc]
        refine slice_append (length_toBE 2 _) ?_
        rw [length_toBE]
        omega
      have hlength : (toBE 2 (payload.length + 2) ++ payload).length = payload.length + 2 := by
        rw [List.length_append, length_toBE]
        omega
      rw [hfield, ofBE_toBE hbound, hpayload, List.drop_left' hlength, if_neg, if_neg]
      · rw [not_or, List.length_append, hlength]
        omega
      · rw [List.length_append, hlength]
        omega

/-- Fill bytes are read up to a marker that is none. -/
theorem span_fill {marker : UInt8} (hmarker : marker ≠ 0xFF) (n : Nat) (rest : List UInt8) :
    (List.replicate n (0xFF : UInt8) ++ marker :: rest).takeWhile (fun byte => byte == 0xFF) =
        List.replicate n 0xFF ∧
      (List.replicate n (0xFF : UInt8) ++ marker :: rest).dropWhile (fun byte => byte == 0xFF) =
        marker :: rest := by
  have hstop : (marker == 0xFF) = false := beq_eq_false_iff_ne.mpr hmarker
  induction n with
  | zero => simp [hstop]
  | succ n ih => simpa [List.replicate_succ] using ih

/-- What stands in front of the first byte that is no fill byte. -/
theorem eq_replicate_fill {data rest : List UInt8} {marker : UInt8}
    (h : data.dropWhile (fun byte => byte == 0xFF) = marker :: rest) :
    marker ≠ 0xFF ∧ data = List.replicate (data.takeWhile fun byte => byte == 0xFF).length 0xFF ++
      marker :: rest := by
  constructor
  · intro heq
    have hstop := List.head?_dropWhile_not (fun byte => byte == 0xFF) data
    rw [h, List.head?_cons, heq] at hstop
    exact absurd hstop (by simp)
  · have hfill : data.takeWhile (fun byte => byte == 0xFF) =
        List.replicate (data.takeWhile fun byte => byte == 0xFF).length 0xFF :=
      List.eq_replicate_of_mem fun byte hbyte =>
        eq_of_beq (List.all_eq_true.mp List.all_takeWhile byte hbyte)
    rw [← hfill, ← h, List.takeWhile_append_dropWhile]

theorem Segment.read_eq_some {data rest : List UInt8} {segment : Segment} :
    Segment.read data = some (segment, rest) ↔ segment.Valid ∧ data = segment.write ++ rest := by
  rw [Segment.read]
  constructor
  · intro h
    split at h
    · exact absurd h (by simp)
    · next hfill =>
      split at h
      · exact absurd h (by simp)
      · next marker tail hdrop =>
        obtain ⟨hmarker, hdata⟩ := eq_replicate_fill hdrop
        obtain ⟨⟨payload, rest'⟩, hpayload, hread⟩ := Option.map_eq_some_iff.mp h
        obtain ⟨rfl, rfl⟩ := Prod.mk.inj hread
        obtain ⟨halone, hbound, rfl⟩ := readPayload_eq_some.mp hpayload
        refine ⟨⟨List.length_pos_iff.mpr hfill, hmarker, halone, hbound⟩, hdata.trans ?_⟩
        rw [Segment.write, List.append_assoc, List.cons_append]
  · obtain ⟨fill, marker, payload⟩ := segment
    rintro ⟨⟨hfill, hmarker, halone, hbound⟩, rfl⟩
    have hne : ¬List.replicate fill (0xFF : UInt8) = [] := by
      rw [List.replicate_eq_nil_iff]
      exact Nat.pos_iff_ne_zero.mp hfill
    obtain ⟨htake, hdrop⟩ := span_fill hmarker fill (writePayload marker payload ++ rest)
    rw [Segment.write, List.append_assoc, List.cons_append, htake, hdrop, if_neg hne]
    have hpayload : readPayload marker (writePayload marker payload ++ rest) =
        some (payload, rest) := readPayload_eq_some.mpr ⟨halone, hbound, rfl⟩
    simp only [hpayload, Option.map_some, List.length_replicate]

/-- The segments of a JPEG file as a format of records. -/
def segments : RecordFormat UInt8 Segment where
  Valid := Segment.Valid
  write := Segment.write
  read := Segment.read
  exact := Segment.read_eq_some
  write_ne_nil segment h := by
    have hlength := congrArg List.length h
    rw [Segment.write, List.length_append, List.length_cons, List.length_nil] at hlength
    omega

/-- The flags of the JPEG loop. -/
structure JpegScan where
  sawFrame : Bool
  sawScan : Bool

/-- The frame flag after a segment with a length field. -/
def frameAfter (sawFrame : Bool) (segment : Segment) : Bool :=
  if segment.marker ∈ frameMarkers then decide (8 ≤ segment.payload.length + 2) else sawFrame

/-- One round of the JPEG loop; the scan segment ends it, with a search for the end mark. -/
def jpegStep (state : JpegScan) (segment : Segment) : Outcome UInt8 JpegScan :=
  if segment.marker = 0xD9 then
    .finish fun rest => state.sawFrame && state.sawScan && rest.isEmpty
  else if alone segment.marker then .next state
  else if segment.marker = 0xDA then
    .finish fun rest => frameAfter state.sawFrame segment &&
      (find endMark rest).any fun i => decide (i + 2 = rest.length)
  else .next { state with sawFrame := frameAfter state.sawFrame segment }

def jpegGuard (rest : List UInt8) : Bool := decide (2 < rest.length)

/-- `_valid_jpeg` -/
def validJpeg (data : List UInt8) : Bool :=
  decide (12 ≤ data.length) && startMark.isPrefixOf data && endMark.isSuffixOf data &&
    segments.scan jpegGuard jpegStep (fun _ _ => false) ⟨false, false⟩ (data.drop 2)

/-- **The last frame header is long enough**, and there is one. -/
def LastFrameLong (body : List Segment) : Prop :=
  ∃ frame : Segment, 6 ≤ frame.payload.length ∧
    (body.filter fun segment => decide (segment.marker ∈ frameMarkers)).getLast? = some frame

/-- **A JPEG file**: segments, one scan segment, and entropy coded data up to an end mark that no
earlier one hides. -/
def IsJpeg (data : List UInt8) : Prop :=
  ∃ (body : List Segment) (scan : Segment) (entropy : List UInt8),
    (∀ segment ∈ body, segment.Valid ∧ segment.marker ≠ 0xD9 ∧ segment.marker ≠ 0xDA) ∧
    LastFrameLong body ∧ scan.Valid ∧ scan.marker = 0xDA ∧ ¬endMark <:+: entropy ∧
    data = startMark ++ (body.flatMap Segment.write ++ (scan.write ++ (entropy ++ endMark)))

/-- The flags after a segment that does not end the loop. -/
def jpegSaw (state : JpegScan) (segment : Segment) : JpegScan :=
  { state with sawFrame := frameAfter state.sawFrame segment }

theorem not_mem_frameMarkers_of_alone {marker : UInt8} (h : alone marker = true) :
    marker ∉ frameMarkers := by
  intro hmem
  have hall : (frameMarkers.all fun marker => !alone marker) = true := by decide
  have hnot := List.all_eq_true.mp hall marker hmem
  rw [h] at hnot
  exact absurd hnot (by decide)

theorem jpegStep_eq_next (state : JpegScan) (segment : Segment) (state' : JpegScan) (_ : True) :
    jpegStep state segment = .next state' ↔
      (segment.marker ≠ 0xD9 ∧ segment.marker ≠ 0xDA) ∧ state' = jpegSaw state segment := by
  rw [jpegStep, jpegSaw]
  by_cases hend : segment.marker = 0xD9
  · rw [if_pos hend]
    exact ⟨fun h => absurd h (by simp), fun h => absurd hend h.1.1⟩
  · rw [if_neg hend]
    by_cases halone : alone segment.marker = true
    · have hscan : segment.marker ≠ 0xDA := by
        intro heq
        rw [heq] at halone
        exact absurd halone (by decide)
      rw [if_pos halone, frameAfter, if_neg (not_mem_frameMarkers_of_alone halone)]
      exact ⟨fun h => ⟨⟨hend, hscan⟩, (Outcome.next.inj h).symm⟩, fun h => h.2 ▸ rfl⟩
    · rw [if_neg halone]
      by_cases hscan : segment.marker = 0xDA
      · rw [if_pos hscan]
        exact ⟨fun h => absurd h (by simp), fun h => absurd hscan h.1.2⟩
      · rw [if_neg hscan]
        exact ⟨fun h => ⟨⟨hend, hscan⟩, (Outcome.next.inj h).symm⟩, fun h => h.2 ▸ rfl⟩

/-- The scan flag is never set while the loop goes on, and the frame flag speaks of the last
frame header. -/
theorem foldl_jpegSaw (body : List Segment) :
    (body.foldl jpegSaw ⟨false, false⟩).sawScan = false ∧
      ((body.foldl jpegSaw ⟨false, false⟩).sawFrame = true ↔ LastFrameLong body) := by
  induction body using List.reverseRecOn with
  | nil =>
    refine ⟨rfl, fun h => absurd h (by simp), ?_⟩
    rintro ⟨frame, -, hframe⟩
    exact absurd hframe (by simp)
  | append_singleton body segment ih =>
    rw [List.foldl_append, List.foldl_cons, List.foldl_nil, LastFrameLong, List.filter_append]
    refine ⟨ih.1, ?_⟩
    rw [jpegSaw, frameAfter]
    by_cases hframe : segment.marker ∈ frameMarkers
    · simp [hframe]
    · rw [if_neg hframe, ih.2, LastFrameLong]
      simp [hframe]

/-- The end mark stands first where the data ends. -/
theorem find_endMark {rest : List UInt8} :
    ((find endMark rest).any fun i => decide (i + 2 = rest.length)) = true ↔
      ∃ entropy, rest = entropy ++ endMark ∧ ¬endMark <:+: entropy := by
  rw [Option.any_eq_true]
  simp only [decide_eq_true_eq]
  constructor
  · rintro ⟨i, hfind, hlast⟩
    obtain ⟨hi, hthere, hfirst⟩ := find_eq_some.mp hfind
    have hmark : endMark = rest.drop i := hthere.eq_of_length (by
      rw [List.length_drop, ← hlast, Nat.add_sub_cancel_left]
      rfl)
    refine ⟨rest.take i, by rw [hmark, List.take_append_drop], ?_⟩
    rintro ⟨before, after, hsplit⟩
    have htaken := congrArg List.length hsplit
    rw [List.length_append, List.length_append, List.length_take, Nat.min_eq_left hi] at htaken
    have htwo : endMark.length = 2 := rfl
    refine hfirst before.length (by omega) ⟨after ++ rest.drop i, ?_⟩
    have hwhole : rest = before ++ (endMark ++ (after ++ rest.drop i)) := by
      rw [← List.append_assoc, ← List.append_assoc, hsplit, List.take_append_drop]
    have hdrop := congrArg (List.drop before.length) hwhole
    rw [List.drop_left] at hdrop
    rw [hdrop, ← List.append_assoc]
  · rintro ⟨entropy, rfl, hnone⟩
    have htwo : endMark.length = 2 := rfl
    have hthere : endMark <+: (entropy ++ endMark).drop entropy.length :=
      ⟨[], (List.append_nil _).trans List.drop_left.symm⟩
    refine ⟨entropy.length, find_eq_some.mpr ⟨by simp, hthere, ?_⟩, by simp [htwo]⟩
    rintro j hj ⟨after, hafter⟩
    rw [List.drop_append_of_le_length hj.le] at hafter
    have hsplit := List.take_append_drop j entropy
    -- an earlier end mark would stand within the entropy coded data, or begin with its last byte
    match htail : entropy.drop j with
    | [] => exact absurd (List.drop_eq_nil_iff.mp htail) (by omega)
    | [last] =>
      rw [htail] at hafter
      injection hafter with _ hmark
      injection hmark with hbyte _
      exact absurd hbyte (by decide)
    | first :: second :: tail =>
      rw [htail] at hafter hsplit
      injection hafter with hfirst hmark
      injection hmark with hsecond _
      rw [← hfirst, ← hsecond] at hsplit
      refine hnone ⟨entropy.take j, tail, ?_⟩
      rw [List.append_assoc]
      exact hsplit

theorem two_lt_of_accepts {state : JpegScan} {text : List UInt8}
    (h : segments.Accepts jpegGuard jpegStep (fun _ _ => false) state text) : 2 < text.length := by
  cases h with
  | ended hguard hend => exact absurd hend (by simp)
  | finished hguard => exact of_decide_eq_true hguard
  | went hguard => exact of_decide_eq_true hguard

/-- The loop ends well at a scan segment behind a long enough frame header. -/
theorem ends_jpeg {state : JpegScan} {rest : List UInt8} (h : state.sawScan = false) :
    Ends segments jpegGuard jpegStep (fun _ _ => false) state rest ↔
      state.sawFrame = true ∧ ∃ (scan : Segment) (entropy : List UInt8), scan.Valid ∧
        scan.marker = 0xDA ∧ ¬endMark <:+: entropy ∧ rest = scan.write ++ (entropy ++ endMark) := by
  have hscan : ∀ scan : Segment, scan.marker = 0xDA → jpegStep state scan =
      .finish fun rest => state.sawFrame &&
        (find endMark rest).any fun i => decide (i + 2 = rest.length) := by
    intro scan hmarker
    rw [jpegStep, frameAfter, hmarker]
    rfl
  constructor
  · rintro (⟨-, hend⟩ | ⟨segment, tail, check, rfl, -, hvalid, hfinish, hcheck⟩)
    · exact absurd hend (by simp)
    · by_cases hmarker : segment.marker = 0xDA
      · obtain rfl := Outcome.finish.inj ((hscan segment hmarker).symm.trans hfinish)
        rw [Bool.and_eq_true] at hcheck
        obtain ⟨entropy, rfl, hnone⟩ := find_endMark.mp hcheck.2
        exact ⟨hcheck.1, segment, entropy, hvalid, hmarker, hnone, rfl⟩
      · by_cases hmark : segment.marker = 0xD9
        · rw [jpegStep, if_pos hmark] at hfinish
          obtain rfl := Outcome.finish.inj hfinish
          simp [h] at hcheck
        · have hnext := (jpegStep_eq_next state segment _ trivial).mpr ⟨⟨hmark, hmarker⟩, rfl⟩
          exact absurd (hnext.symm.trans hfinish) (by simp)
  · rintro ⟨hframe, scan, entropy, hvalid, hmarker, hnone, rfl⟩
    refine .inr ⟨scan, entropy ++ endMark, _, rfl, decide_eq_true ?_, hvalid, hscan scan hmarker, ?_⟩
    · have hfill := hvalid.fill
      have htwo : endMark.length = 2 := rfl
      change 2 < (scan.write ++ (entropy ++ endMark)).length
      simp only [Segment.write, List.length_append, List.length_replicate, List.length_cons, htwo]
      omega
    · rw [hframe, Bool.true_and]
      exact find_endMark.mpr ⟨entropy, rfl, hnone⟩

/-- A file with a long enough frame header has the twelve bytes that are asked for. -/
theorem ten_le_of_lastFrameLong {body : List Segment} (hvalid : ∀ segment ∈ body, segment.Valid)
    (h : LastFrameLong body) : 10 ≤ (body.flatMap Segment.write).length := by
  obtain ⟨frame, hlong, hframe⟩ := h
  have hmem := List.mem_filter.mp (List.mem_of_getLast? hframe)
  have hmarker : frame.marker ∈ frameMarkers := of_decide_eq_true hmem.2
  have hfill := (hvalid frame hmem.1).fill
  have hpart : frame.write.length ≤ (body.flatMap Segment.write).length := by
    obtain ⟨before, after, rfl⟩ := List.append_of_mem hmem.1
    rw [List.flatMap_append, List.flatMap_cons, List.length_append, List.length_append]
    omega
  have hwritten : frame.write.length = frame.fill + 1 + (2 + frame.payload.length) := by
    rw [Segment.write, writePayload, if_neg fun h => not_mem_frameMarkers_of_alone h hmarker,
      List.length_append, List.length_replicate, List.length_cons, List.length_append, length_toBE]
    omega
  omega

/-- **The JPEG loop accepts the JPEG files.** -/
theorem validJpeg_iff {data : List UInt8} : validJpeg data = true ↔ IsJpeg data := by
  have hmark : startMark.length = 2 := rfl
  have hguard : ∀ (state : JpegScan) (segment : Segment) (text : List UInt8),
      segments.Valid segment →
      segments.Accepts jpegGuard jpegStep (fun _ _ => false) state text →
      jpegGuard (segments.write segment ++ text) = true := by
    intro state segment text _ haccepts
    have := two_lt_of_accepts haccepts
    refine decide_eq_true ?_
    rw [List.length_append]
    omega
  have hloop : ∀ text,
      segments.Accepts jpegGuard jpegStep (fun _ _ => false) ⟨false, false⟩ text ↔ _ := fun text =>
    accepts_iff jpegStep_eq_next (fun _ _ _ _ => trivial) hguard trivial
  rw [validJpeg, Bool.and_eq_true, Bool.and_eq_true, Bool.and_eq_true, scan_eq_true,
    List.isPrefixOf_iff_prefix, List.isSuffixOf_iff_suffix, decide_eq_true_eq]
  constructor
  · rintro ⟨⟨⟨-, rest, rfl⟩, -⟩, haccepts⟩
    rw [List.drop_left' hmark] at haccepts
    obtain ⟨body, rest, hbody, rfl, hends⟩ := (hloop _).mp haccepts
    obtain ⟨hframe, scan, entropy, hvalid, hmarker, hnone, rfl⟩ :=
      (ends_jpeg (foldl_jpegSaw body).1).mp hends
    exact ⟨body, scan, entropy, hbody, (foldl_jpegSaw body).2.mp hframe, hvalid, hmarker, hnone, rfl⟩
  · rintro ⟨body, scan, entropy, hbody, hframe, hvalid, hmarker, hnone, rfl⟩
    refine ⟨⟨⟨?_, List.prefix_append _ _⟩, ?_⟩, ?_⟩
    · have hsegments := fun segment hsegment => (hbody segment hsegment).1
      have hlong := ten_le_of_lastFrameLong hsegments hframe
      rw [List.length_append, List.length_append, hmark]
      omega
    · exact ⟨startMark ++ (body.flatMap Segment.write ++ (scan.write ++ entropy)), by simp⟩
    · rw [List.drop_left' hmark]
      refine (hloop _).mpr ⟨body, _, hbody, rfl, (ends_jpeg (foldl_jpegSaw body).1).mpr ?_⟩
      exact ⟨(foldl_jpegSaw body).2.mpr hframe, scan, entropy, hvalid, hmarker, hnone, rfl⟩

end Jpeg

end EvernightAI

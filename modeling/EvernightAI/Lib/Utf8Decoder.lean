import Mathlib.Data.List.Basic

/-!
# Decoding UTF-8 as it arrives

The decoder of the web platform reads one byte at a time and keeps what it has of an unfinished
character, so the text of a stream does not depend on where its bytes are cut. Bytes that are not
UTF-8 give the replacement character, and a byte order mark at the start is dropped.

* `run_append` : decoding two pieces in turn is decoding them together.
* `decode_encode` : what was encoded is decoded.
-/

namespace Utf8Decoder

/-- What the decoder has of a character: how many bytes are missing, the bits read, and the range of
the next byte. -/
structure State where
  remaining : ℕ := 0
  codePoint : ℕ := 0
  lower : ℕ := 0x80
  upper : ℕ := 0xBF
  deriving DecidableEq, Repr

/-- Between two characters. -/
def idle : State := {}

/-- U+FFFD -/
def replacement : Char := Char.ofNat 0xFFFD

/-- The first byte of a character. -/
def lead (b : ℕ) : State × List Char :=
  if b ≤ 0x7F then (idle, [Char.ofNat b])
  else if 0xC2 ≤ b ∧ b ≤ 0xDF then ({ remaining := 1, codePoint := b % 0x20 }, [])
  else if 0xE0 ≤ b ∧ b ≤ 0xEF then
    ({ remaining := 2, codePoint := b % 0x10, lower := if b = 0xE0 then 0xA0 else 0x80,
       upper := if b = 0xED then 0x9F else 0xBF }, [])
  else if 0xF0 ≤ b ∧ b ≤ 0xF4 then
    ({ remaining := 3, codePoint := b % 0x08, lower := if b = 0xF0 then 0x90 else 0x80,
       upper := if b = 0xF4 then 0x8F else 0xBF }, [])
  else (idle, [replacement])

/-- One byte. A byte that does not continue the character ends it and is read again. -/
def step (s : State) (b : ℕ) : State × List Char :=
  if s.remaining = 0 then lead b
  else if s.lower ≤ b ∧ b ≤ s.upper then
    let codePoint := s.codePoint * 0x40 + b % 0x40
    if s.remaining = 1 then (idle, [Char.ofNat codePoint])
    else ({ remaining := s.remaining - 1, codePoint }, [])
  else ((lead b).1, replacement :: (lead b).2)

/-- A piece of the stream: the state after it and its text. -/
def run : State → List UInt8 → State × List Char
  | s, [] => (s, [])
  | s, b :: bytes =>
    let rest := run (step s b.toNat).1 bytes
    (rest.1, (step s b.toNat).2 ++ rest.2)

/-- The end of the stream. -/
def flush (s : State) : List Char := if s.remaining = 0 then [] else [replacement]

/-- **Pieces.** -/
theorem run_append (s : State) (bytes more : List UInt8) :
    run s (bytes ++ more) =
      ((run (run s bytes).1 more).1, (run s bytes).2 ++ (run (run s bytes).1 more).2) := by
  induction bytes generalizing s with
  | nil => rfl
  | cons b bytes ih =>
    simp only [List.cons_append, run, ih, List.append_assoc]

theorem run_cons_of_step {s s' : State} {b : UInt8} {text : List Char} (bytes : List UInt8)
    (h : step s b.toNat = (s', text)) :
    run s (b :: bytes) = ((run s' bytes).1, text ++ (run s' bytes).2) := by
  rw [run, h]

/-! ### What was encoded -/

/-- The UTF-8 bytes of a text. -/
def encode (text : List Char) : List UInt8 := text.flatMap String.utf8EncodeChar

theorem toNat_ofNat_of_lt {n : ℕ} (h : n < 0x100) : (UInt8.ofNat n).toNat = n := by
  rw [UInt8.toNat_ofNat']
  omega

theorem step_idle (b : ℕ) : step idle b = lead b := rfl

/-- A byte that continues a character. -/
theorem step_continues {s : State} {b n : ℕ} (hremaining : s.remaining = n + 2)
    (hlower : s.lower ≤ b) (hupper : b ≤ s.upper) :
    step s b = ({ remaining := n + 1, codePoint := s.codePoint * 0x40 + b % 0x40 }, []) := by
  rw [step, if_neg (by omega), if_pos ⟨hlower, hupper⟩, if_neg (by omega), hremaining]
  rfl

/-- A byte that ends a character. -/
theorem step_ends {s : State} {b : ℕ} (hremaining : s.remaining = 1) (hlower : s.lower ≤ b)
    (hupper : b ≤ s.upper) : step s b = (idle, [Char.ofNat (s.codePoint * 0x40 + b % 0x40)]) := by
  rw [step, if_neg (by omega), if_pos ⟨hlower, hupper⟩, if_pos hremaining]

/-- Two bytes. -/
theorem run_two {v : ℕ} (hlow : 0x7f < v) (hhigh : v ≤ 0x7ff) :
    run idle [.ofNat (v / 64 % 0x20 + 0xc0), .ofNat (v % 0x40 + 0x80)] = (idle, [Char.ofNat v]) := by
  have hfirst : step idle (UInt8.ofNat (v / 64 % 0x20 + 0xc0)).toNat =
      ({ remaining := 1, codePoint := v / 64 }, []) := by
    rw [toNat_ofNat_of_lt (by omega), step_idle, lead, if_neg (by omega), if_pos (by omega)]
    rw [show (v / 64 % 0x20 + 0xc0) % 0x20 = v / 64 by omega]
  have hsecond : step { remaining := 1, codePoint := v / 64 } (UInt8.ofNat (v % 0x40 + 0x80)).toNat =
      (idle, [Char.ofNat v]) := by
    rw [toNat_ofNat_of_lt (by omega), step_ends rfl (by simp) (by simp; omega)]
    rw [show v / 64 * 0x40 + (v % 0x40 + 0x80) % 0x40 = v by omega]
  rw [run_cons_of_step _ hfirst, run_cons_of_step _ hsecond]
  rfl

/-- Three bytes; the range of the second excludes the surrogates. -/
theorem run_three {v : ℕ} (hlow : 0x7ff < v) (hhigh : v ≤ 0xffff) (hvalid : v.isValidChar) :
    run idle [.ofNat (v / 4096 % 0x10 + 0xe0), .ofNat (v / 64 % 0x40 + 0x80),
      .ofNat (v % 0x40 + 0x80)] = (idle, [Char.ofNat v]) := by
  have hfirst : step idle (UInt8.ofNat (v / 4096 % 0x10 + 0xe0)).toNat =
      ({ remaining := 2, codePoint := v / 4096,
         lower := if v / 4096 % 0x10 + 0xe0 = 0xE0 then 0xA0 else 0x80,
         upper := if v / 4096 % 0x10 + 0xe0 = 0xED then 0x9F else 0xBF }, []) := by
    rw [toNat_ofNat_of_lt (by omega), step_idle, lead, if_neg (by omega), if_neg (by omega),
      if_pos (by omega)]
    rw [show (v / 4096 % 0x10 + 0xe0) % 0x10 = v / 4096 by omega]
  have hsecond : ∀ lower upper, lower ≤ v / 64 % 0x40 + 0x80 → v / 64 % 0x40 + 0x80 ≤ upper →
      step { remaining := 2, codePoint := v / 4096, lower, upper }
        (UInt8.ofNat (v / 64 % 0x40 + 0x80)).toNat = ({ remaining := 1, codePoint := v / 64 }, []) := by
    intro lower upper hlower hupper
    rw [toNat_ofNat_of_lt (by omega), step_continues (n := 0) rfl hlower hupper]
    rw [show v / 4096 * 0x40 + (v / 64 % 0x40 + 0x80) % 0x40 = v / 64 by omega]
  have hthird : step { remaining := 1, codePoint := v / 64 } (UInt8.ofNat (v % 0x40 + 0x80)).toNat =
      (idle, [Char.ofNat v]) := by
    rw [toNat_ofNat_of_lt (by omega), step_ends rfl (by simp) (by simp; omega)]
    rw [show v / 64 * 0x40 + (v % 0x40 + 0x80) % 0x40 = v by omega]
  rw [run_cons_of_step _ hfirst,
    run_cons_of_step _ (hsecond _ _ (by split_ifs <;> omega) (by split_ifs <;> omega)),
    run_cons_of_step _ hthird]
  rfl

/-- Four bytes; the range of the second ends at U+10FFFF. -/
theorem run_four {v : ℕ} (hlow : 0xffff < v) (hhigh : v < 0x110000) :
    run idle [.ofNat (v / 262144 % 0x08 + 0xf0), .ofNat (v / 4096 % 0x40 + 0x80),
      .ofNat (v / 64 % 0x40 + 0x80), .ofNat (v % 0x40 + 0x80)] = (idle, [Char.ofNat v]) := by
  have hfirst : step idle (UInt8.ofNat (v / 262144 % 0x08 + 0xf0)).toNat =
      ({ remaining := 3, codePoint := v / 262144,
         lower := if v / 262144 % 0x08 + 0xf0 = 0xF0 then 0x90 else 0x80,
         upper := if v / 262144 % 0x08 + 0xf0 = 0xF4 then 0x8F else 0xBF }, []) := by
    rw [toNat_ofNat_of_lt (by omega), step_idle, lead, if_neg (by omega), if_neg (by omega),
      if_neg (by omega), if_pos (by omega)]
    rw [show (v / 262144 % 0x08 + 0xf0) % 0x08 = v / 262144 by omega]
  have hsecond : ∀ lower upper, lower ≤ v / 4096 % 0x40 + 0x80 → v / 4096 % 0x40 + 0x80 ≤ upper →
      step { remaining := 3, codePoint := v / 262144, lower, upper }
        (UInt8.ofNat (v / 4096 % 0x40 + 0x80)).toNat =
        ({ remaining := 2, codePoint := v / 4096 }, []) := by
    intro lower upper hlower hupper
    rw [toNat_ofNat_of_lt (by omega), step_continues (n := 1) rfl hlower hupper]
    rw [show v / 262144 * 0x40 + (v / 4096 % 0x40 + 0x80) % 0x40 = v / 4096 by omega]
  have hthird : step { remaining := 2, codePoint := v / 4096 }
      (UInt8.ofNat (v / 64 % 0x40 + 0x80)).toNat = ({ remaining := 1, codePoint := v / 64 }, []) := by
    rw [toNat_ofNat_of_lt (by omega), step_continues (n := 0) rfl (by simp) (by simp; omega)]
    rw [show v / 4096 * 0x40 + (v / 64 % 0x40 + 0x80) % 0x40 = v / 64 by omega]
  have hfourth : step { remaining := 1, codePoint := v / 64 } (UInt8.ofNat (v % 0x40 + 0x80)).toNat =
      (idle, [Char.ofNat v]) := by
    rw [toNat_ofNat_of_lt (by omega), step_ends rfl (by simp) (by simp; omega)]
    rw [show v / 64 * 0x40 + (v % 0x40 + 0x80) % 0x40 = v by omega]
  rw [run_cons_of_step _ hfirst,
    run_cons_of_step _ (hsecond _ _ (by split_ifs <;> omega) (by split_ifs <;> omega)),
    run_cons_of_step _ hthird, run_cons_of_step _ hfourth]
  rfl

/-- **One character.** -/
theorem run_utf8EncodeChar (c : Char) : run idle (String.utf8EncodeChar c) = (idle, [c]) := by
  have hvalid : c.toNat.isValidChar := c.valid
  obtain ⟨v, hv⟩ : ∃ v, c.toNat = v := ⟨_, rfl⟩
  have hvalue : c = Char.ofNat v := by rw [← hv, Char.ofNat_toNat]
  simp only [String.utf8EncodeChar, Char.toNat_val]
  rw [hv] at hvalid ⊢
  rw [hvalue]
  split_ifs with h₁ h₂ h₃
  · have hbyte : step idle (UInt8.ofNat v).toNat = (idle, [Char.ofNat v]) := by
      rw [toNat_ofNat_of_lt (by omega), step_idle, lead, if_pos h₁]
    rw [run_cons_of_step [] hbyte]
    rfl
  · exact run_two (by omega) h₂
  · exact run_three (by omega) h₃ hvalid
  · exact run_four (by omega) (by omega)

/-- **The round trip.** -/
theorem run_encode (text : List Char) : run idle (encode text) = (idle, text) := by
  induction text with
  | nil => rfl
  | cons c text ih =>
    rw [encode, List.flatMap_cons, run_append, run_utf8EncodeChar, ← encode, ih]
    rfl

/-! ### Strict decoding, and texts in texts -/

/-- The text with these bytes, if they are UTF-8. -/
def decode? (bytes : List UInt8) : Option (List Char) :=
  if encode (run idle bytes).2 = bytes then some (run idle bytes).2 else none

theorem decode?_eq_some_iff {bytes : List UInt8} {text : List Char} :
    decode? bytes = some text ↔ encode text = bytes := by
  unfold decode?
  constructor
  · intro h
    split_ifs at h with hencode
    exact Option.some.inj h ▸ hencode
  · rintro rfl
    rw [run_encode, if_pos rfl]

theorem encode_append (s t : List Char) : encode (s ++ t) = encode s ++ encode t :=
  List.flatMap_append

theorem prefix_of_encode {old s : List Char} (h : encode old <+: encode s) : old <+: s := by
  obtain ⟨rest, hrest⟩ := h
  have hrun := run_encode s
  rw [← hrest, run_append, run_encode] at hrun
  exact ⟨_, (Prod.mk.inj hrun).2⟩

/-- The bytes of a text start with a first byte. -/
theorem exists_first_byte {old : List Char} (hold : old ≠ []) :
    ∃ b bytes, encode old = b :: bytes ∧ b.IsUTF8FirstByte := by
  obtain ⟨c, text, rfl⟩ := List.exists_cons_of_ne_nil hold
  obtain ⟨b, bytes, hbytes⟩ := List.exists_cons_of_ne_nil (String.utf8EncodeChar_ne_nil (c := c))
  refine ⟨b, bytes ++ encode text, ?_, ?_⟩
  · rw [encode, List.flatMap_cons, hbytes]
    rfl
  · have hfirst := (@UInt8.isUTF8FirstByte_getElem_utf8EncodeChar c 0
      (by rw [hbytes]; exact Nat.zero_lt_succ _)).mpr rfl
    simpa only [hbytes, List.getElem_cons_zero] using hfirst

/-- A text is found in the bytes of a text only where a character starts. -/
theorem exists_of_prefix_drop {old s : List Char} (hold : old ≠ []) {i : ℕ}
    (h : encode old <+: (encode s).drop i) :
    ∃ k, (encode (s.take k)).length = i ∧ old <+: s.drop k := by
  obtain ⟨b, bytes, hbytes, hfirst⟩ := exists_first_byte hold
  induction s generalizing i with
  | nil =>
    rw [hbytes, encode, List.flatMap_nil, List.drop_nil] at h
    exact absurd (List.prefix_nil.mp h) (List.cons_ne_nil _ _)
  | cons c s ih =>
    have hsplit : encode (c :: s) = String.utf8EncodeChar c ++ encode s := List.flatMap_cons
    by_cases hstart : i = 0
    · subst hstart
      exact ⟨0, rfl, prefix_of_encode h⟩
    by_cases hinside : i < (String.utf8EncodeChar c).length
    · -- Inside the bytes of a character none starts one.
      exfalso
      rw [hsplit, List.drop_append_of_le_length (Nat.le_of_lt hinside), hbytes,
        List.drop_eq_getElem_cons hinside, List.cons_append] at h
      obtain ⟨rest, hrest⟩ := h
      have hbyte : b = (String.utf8EncodeChar c)[i] := (List.cons.inj hrest).1
      rw [hbyte] at hfirst
      exact hstart (UInt8.isUTF8FirstByte_getElem_utf8EncodeChar.mp hfirst)
    · have hle : (String.utf8EncodeChar c).length ≤ i := Nat.le_of_not_lt hinside
      rw [hsplit, List.drop_append, List.drop_eq_nil_of_le hle, List.nil_append] at h
      obtain ⟨k, hk, hprefix⟩ := ih h
      refine ⟨k + 1, ?_, hprefix⟩
      rw [List.take_succ_cons, encode, List.flatMap_cons, List.length_append, ← encode, hk]
      omega

/-- A byte above those of ASCII is none of them. -/
theorem count_ascii_of_le {n k : ℕ} (hn : n < 0x80) (hk : 0x80 ≤ k) (hk' : k < 0x100) :
    ((UInt8.ofNat k) == UInt8.ofNat n) = false := by
  refine beq_eq_false_iff_ne.mpr fun heq => ?_
  have hnat := congrArg UInt8.toNat heq
  rw [toNat_ofNat_of_lt hk', toNat_ofNat_of_lt (by omega)] at hnat
  omega

theorem count_utf8EncodeChar (c : Char) {d : Char} (hd : d.toNat < 0x80) :
    (String.utf8EncodeChar c).count (UInt8.ofNat d.toNat) = if c = d then 1 else 0 := by
  have hvalid : c.toNat.isValidChar := c.valid
  have hbound : c.toNat < 0x110000 := by
    rcases hvalid with h | ⟨-, h⟩ <;> omega
  simp only [String.utf8EncodeChar, Char.toNat_val]
  by_cases heq : c = d
  · rw [if_pos heq, heq, if_pos (by omega), List.count_singleton_self]
  rw [if_neg heq]
  split_ifs with h₁ h₂ h₃
  · rw [List.count_singleton, if_neg]
    rw [beq_iff_eq]
    intro hbyte
    have hnat := congrArg UInt8.toNat hbyte
    rw [toNat_ofNat_of_lt (by omega), toNat_ofNat_of_lt (by omega)] at hnat
    exact heq (Char.toNat_inj.mp hnat)
  all_goals simp only [List.count_cons, List.count_nil]
  · rw [count_ascii_of_le hd (by omega) (by omega), count_ascii_of_le hd (by omega) (by omega)]
    rfl
  · rw [count_ascii_of_le hd (by omega) (by omega), count_ascii_of_le hd (by omega) (by omega),
      count_ascii_of_le hd (by omega) (by omega)]
    rfl
  · rw [count_ascii_of_le hd (by omega) (by omega), count_ascii_of_le hd (by omega) (by omega),
      count_ascii_of_le hd (by omega) (by omega), count_ascii_of_le hd (by omega) (by omega)]
    rfl

/-- A character of ASCII occurs in a text as often as its byte does. -/
theorem count_encode (text : List Char) {d : Char} (hd : d.toNat < 0x80) :
    (encode text).count (UInt8.ofNat d.toNat) = text.count d := by
  induction text with
  | nil => rfl
  | cons c text ih =>
    rw [encode, List.flatMap_cons, ← encode, List.count_append, count_utf8EncodeChar c hd, ih,
      List.count_cons, Nat.add_comm]
    simp only [beq_iff_eq]

end Utf8Decoder

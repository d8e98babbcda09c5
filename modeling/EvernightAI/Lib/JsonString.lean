import Mathlib.Data.List.Basic

/-!
# Strings in JSON documents

`quote` writes a text as `JSON.stringify` does: between quotation marks, with an escape for each
quotation mark, backslash and control character. `unquote?` reads such a string at the head of a
document.

* `unquote?_quote` : what is written is read back, whatever comes after it; so a document tells the
  texts that were written.
* `lineFeed_not_mem_quote` : a string is on one line.
-/

namespace JsonString

/-- The characters of a text. -/
abbrev Text := List Char

/-- A hexadecimal digit. -/
def hexDigit (n : ℕ) : Char := if n < 10 then Char.ofNat (48 + n) else Char.ofNat (87 + n)

/-- The number of a hexadecimal digit. -/
def hexValue (c : Char) : ℕ := if c.toNat < 58 then c.toNat - 48 else c.toNat - 87

/-- A character as it is written in a string. -/
def escape (c : Char) : Text :=
  if c = '"' then ['\\', '"']
  else if c = '\\' then ['\\', '\\']
  else if c = '\n' then ['\\', 'n']
  else if c = '\r' then ['\\', 'r']
  else if c = '\t' then ['\\', 't']
  else if c.toNat = 8 then ['\\', 'b']
  else if c.toNat = 12 then ['\\', 'f']
  else if c.toNat < 32 then
    ['\\', 'u', '0', '0', hexDigit (c.toNat / 16), hexDigit (c.toNat % 16)]
  else [c]

/-- The escapes and the end of a string. -/
def body (s : Text) : Text := s.flatMap escape ++ ['"']

/-- **A text as a string of a document.** -/
def quote (s : Text) : Text := '"' :: body s

/-- The character of a short escape. -/
def unescape (c : Char) : Char :=
  if c = 'n' then '\n' else if c = 'r' then '\r' else if c = 't' then '\t'
  else if c = 'b' then Char.ofNat 8 else if c = 'f' then Char.ofNat 12 else c

/-- The rest of a string: its text, and what comes after it. -/
def read? : Text → Option (Text × Text)
  | [] => none
  | '"' :: rest => some ([], rest)
  | '\\' :: 'u' :: _ :: _ :: high :: low :: rest =>
    (read? rest).map fun read =>
      (Char.ofNat (16 * hexValue high + hexValue low) :: read.1, read.2)
  | '\\' :: c :: rest => (read? rest).map fun read => (unescape c :: read.1, read.2)
  | c :: rest => (read? rest).map fun read => (c :: read.1, read.2)

/-- The string at the head of a document, and what comes after it. -/
def unquote? : Text → Option (Text × Text)
  | '"' :: rest => read? rest
  | _ => none

variable {s t rest more : Text} {c : Char}

theorem read?_short (c : Char) (hc : c ≠ 'u') :
    read? ('\\' :: c :: rest) = (read? rest).map fun read => (unescape c :: read.1, read.2) := by
  rw [read?.eq_def]
  split
  · rename_i h
    exact absurd h (by simp)
  · rename_i h
    exact absurd (List.cons.inj h).1 (by decide)
  · rename_i h
    exact absurd (List.cons.inj (List.cons.inj h).2).1 hc
  · rename_i h
    obtain ⟨rfl, rfl⟩ := List.cons.inj (List.cons.inj h).2
    rfl
  · rename_i hnot h
    exact absurd (List.cons.inj h).1.symm fun he => hnot c rest he (List.cons.inj h).2.symm

theorem read?_plain (hquote : c ≠ '"') (hslash : c ≠ '\\') :
    read? (c :: rest) = (read? rest).map fun read => (c :: read.1, read.2) := by
  rw [read?.eq_def]
  split
  · rename_i h
    exact absurd h (by simp)
  · rename_i h
    exact absurd (List.cons.inj h).1 hquote
  · rename_i h
    exact absurd (List.cons.inj h).1 hslash
  · rename_i h
    exact absurd (List.cons.inj h).1 hslash
  · rename_i h
    obtain ⟨rfl, rfl⟩ := List.cons.inj h
    rfl

theorem hexValue_hexDigit : ∀ n < 16, hexValue (hexDigit n) = n := by decide

/-- **A character is read back.** -/
theorem read?_escape (c : Char) (rest : Text) :
    read? (escape c ++ rest) = (read? rest).map fun read => (c :: read.1, read.2) := by
  rw [escape]
  by_cases hquote : c = '"'
  · rw [if_pos hquote, hquote]
    exact read?_short '"' (by decide)
  rw [if_neg hquote]
  by_cases hslash : c = '\\'
  · rw [if_pos hslash, hslash]
    exact read?_short '\\' (by decide)
  rw [if_neg hslash]
  by_cases hn : c = '\n'
  · rw [if_pos hn, hn]
    exact read?_short 'n' (by decide)
  rw [if_neg hn]
  by_cases hr : c = '\r'
  · rw [if_pos hr, hr]
    exact read?_short 'r' (by decide)
  rw [if_neg hr]
  by_cases ht : c = '\t'
  · rw [if_pos ht, ht]
    exact read?_short 't' (by decide)
  rw [if_neg ht]
  by_cases hb : c.toNat = 8
  · rw [if_pos hb, ← Char.ofNat_toNat c, hb]
    exact read?_short 'b' (by decide)
  rw [if_neg hb]
  by_cases hf : c.toNat = 12
  · rw [if_pos hf, ← Char.ofNat_toNat c, hf]
    exact read?_short 'f' (by decide)
  rw [if_neg hf]
  by_cases hcontrol : c.toNat < 32
  · have hchar : Char.ofNat (16 * (c.toNat / 16) + c.toNat % 16) = c := by
      rw [Nat.div_add_mod, Char.ofNat_toNat]
    rw [if_pos hcontrol]
    simp only [List.cons_append, List.nil_append, read?,
      hexValue_hexDigit (c.toNat / 16) (by omega), hexValue_hexDigit (c.toNat % 16) (by omega),
      hchar]
  · rw [if_neg hcontrol]
    exact read?_plain hquote hslash

theorem read?_body (s rest : Text) : read? (body s ++ rest) = some (s, rest) := by
  induction s with
  | nil => rfl
  | cons c s ih =>
    have hbody : body (c :: s) ++ rest = escape c ++ (body s ++ rest) := by
      simp only [body, List.flatMap_cons, List.append_assoc]
    rw [hbody, read?_escape, ih, Option.map_some]

/-- **What is written is read back.** -/
theorem unquote?_quote (s rest : Text) : unquote? (quote s ++ rest) = some (s, rest) :=
  read?_body s rest

/-- A document tells the text at its head and what comes after it. -/
theorem quote_append_inj (h : quote s ++ rest = quote t ++ more) : s = t ∧ rest = more := by
  have hread := congrArg unquote? h
  rw [unquote?_quote, unquote?_quote, Option.some.injEq, Prod.mk.injEq] at hread
  exact hread

theorem lineFeed_not_mem_escape (c : Char) : '\n' ∉ escape c := by
  have hhex : ∀ n < 16, '\n' ≠ hexDigit n := by decide
  rw [escape]
  split_ifs with hquote hslash hn hr ht hb hf hcontrol
  · decide
  · decide
  · decide
  · decide
  · decide
  · decide
  · decide
  · have hhigh := hhex (c.toNat / 16) (by omega)
    have hlow := hhex (c.toNat % 16) (by omega)
    simp [hhigh, hlow]
  · rw [List.mem_singleton]
    exact Ne.symm hn

/-- **A string is on one line.** -/
theorem lineFeed_not_mem_quote (s : Text) : '\n' ∉ quote s := by
  rw [quote, body, List.mem_cons, List.mem_append, not_or, not_or]
  refine ⟨by decide, fun hmem => ?_, by decide⟩
  obtain ⟨c, -, hc⟩ := List.mem_flatMap.mp hmem
  exact lineFeed_not_mem_escape c hc

end JsonString

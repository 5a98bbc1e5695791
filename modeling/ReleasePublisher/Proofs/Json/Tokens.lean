import ReleasePublisher.Json.Parser
import ReleasePublisher.Json.Printer
import ReleasePublisher.Proofs.Text.Utf8Reading
import Mathlib.Data.List.Forall2

/-!
# Strings and numbers that were written

Each character of a string is read in whatever way it is spelled: as it stands, or by one of its escapes.
The digits of a number are read again as far as they fit 64 bits.

## Main definitions

* `Json.Spells c cs`, `Json.IsSpelling s token`: the ways to spell a character and a string
* `Json.Ends rest`: no number goes on in `rest`

## Main results

* `Json.IsSpelling.exists_bytes`: a string is read in whatever way it is spelled
* `Json.isSpelling_textToken`: what is written for a string spells it
* `Json.numeral_toDigits`: the digits of a number are read again
-/

namespace ReleasePublisher.Json

open Utf8

variable {rest r more : Bytes}

/-! ### Characters in strings -/

/-- The letters of the short escapes, with the characters that they stand for. -/
def shortEscapes : List (Char × Char) :=
  [('"', '"'), ('\\', '\\'), ('/', '/'), ('b', '\x08'), ('f', '\x0c'), ('n', '\n'), ('r', '\r'),
    ('t', '\t')]

/-- A hexadecimal digit of either case. -/
def IsHexDigit (c : Char) (n : Nat) : Prop :=
  n < 16 ∧ (c = Hex.lowerDigit n ∨ c = Hex.upperDigit n)

/-- A numbered escape: four hexadecimal digits behind `\u`. -/
def IsNumbered (n : Nat) (cs : List Char) : Prop :=
  ∃ a b c d, cs = ['\\', 'u', a, b, c, d] ∧ IsHexDigit a (n / 4096) ∧ IsHexDigit b (n / 256 % 16) ∧
    IsHexDigit c (n / 16 % 16) ∧ IsHexDigit d (n % 16)

/-- **The ways to spell a character** in a string: as it is, by a letter, by its number, or by the two
halves of a surrogate pair. -/
inductive Spells (c : Char) : List Char → Prop
  | plain (hquote : c ≠ '"') (hbackslash : c ≠ '\\') (hcontrol : 0x20 ≤ c.toNat) : Spells c [c]
  | short {letter : Char} (h : (letter, c) ∈ shortEscapes) : Spells c ['\\', letter]
  | numbered {cs : List Char} (h : IsNumbered c.toNat cs) : Spells c cs
  | pair {high low : List Char} (hlarge : 0x10000 ≤ c.toNat)
      (hhigh : IsNumbered (0xD800 + (c.toNat - 0x10000) / 0x400) high)
      (hlow : IsNumbered (0xDC00 + (c.toNat - 0x10000) % 0x400) low) : Spells c (high ++ low)

/-- Bytes that are neither a quote nor a backslash nor a control stand for themselves. -/
theorem textBytes_plain {bs : Bytes} (h : ∀ b ∈ bs, b ≠ 0x22 ∧ b ≠ 0x5C ∧ ¬ b < 0x20)
    (hrest : textBytes rest = .ok (more, r)) : textBytes (bs ++ rest) = .ok (bs ++ more, r) := by
  induction bs with
  | nil => exact hrest
  | cons b bs ih =>
    obtain ⟨⟨hquote, hbackslash, hcontrol⟩, hbs⟩ := List.forall_mem_cons.mp h
    rw [List.cons_append, textBytes, ih hbs]
    simp [hquote, hbackslash, hcontrol, Except.map]

/-- A short escape stands for its character. -/
theorem textBytes_simpleEscape {b d : UInt8} (h : simpleEscape? b = some d)
    (hrest : textBytes rest = .ok (more, r)) :
    textBytes (0x5C :: b :: rest) = .ok (d :: more, r) := by
  rw [textBytes]
  simp [escape, h, hrest, Except.map]

/-- The letters are read as the characters that they stand for. -/
theorem simpleEscape?_shortEscapes : ∀ e ∈ shortEscapes,
    ∃ b d, encodeChar e.1 = [b] ∧ encodeChar e.2 = [d] ∧ simpleEscape? b = some d := by
  have hread : ∀ e ∈ shortEscapes,
      encodeChar e.1 = [UInt8.ofNat e.1.toNat] ∧ encodeChar e.2 = [UInt8.ofNat e.2.toNat] ∧
        simpleEscape? (UInt8.ofNat e.1.toNat) = some (UInt8.ofNat e.2.toNat) := by decide
  exact fun e he => ⟨_, _, hread e he⟩

/-- A hexadecimal digit is one byte, which is read as its number. -/
theorem IsHexDigit.exists_byte {c : Char} {n : Nat} (h : IsHexDigit c n) :
    ∃ b, encodeChar c = [b] ∧ Hex.value? (Char.ofNat b.toNat) = some n := by
  have hlower : ∀ n < 16, encodeChar (Hex.lowerDigit n) = [UInt8.ofNat (Hex.lowerDigit n).toNat] ∧
      Hex.value? (Char.ofNat (UInt8.ofNat (Hex.lowerDigit n).toNat).toNat) = some n := by
    decide
  have hupper : ∀ n < 16, encodeChar (Hex.upperDigit n) = [UInt8.ofNat (Hex.upperDigit n).toNat] ∧
      Hex.value? (Char.ofNat (UInt8.ofNat (Hex.upperDigit n).toNat).toNat) = some n := by
    decide
  obtain ⟨hn, rfl | rfl⟩ := h
  · exact ⟨_, hlower n hn⟩
  · exact ⟨_, hupper n hn⟩

/-- The number is read from four digits. -/
theorem IsNumbered.exists_bytes {n : Nat} {cs : List Char} (h : IsNumbered n cs) :
    ∃ ds, encodeChars cs = 0x5C :: 0x75 :: ds ∧ ds.length = 4 ∧
      ∀ rest, fourDigits (ds ++ rest) = .ok n := by
  obtain ⟨a, b, c, d, rfl, ha, hb, hc, hd⟩ := h
  have hsum : ((n / 4096 * 16 + n / 256 % 16) * 16 + n / 16 % 16) * 16 + n % 16 = n := by omega
  obtain ⟨w, hw, hw'⟩ := ha.exists_byte
  obtain ⟨x, hx, hx'⟩ := hb.exists_byte
  obtain ⟨y, hy, hy'⟩ := hc.exists_byte
  obtain ⟨z, hz, hz'⟩ := hd.exists_byte
  refine ⟨[w, x, y, z], ?_, rfl, fun rest => ?_⟩
  · simp only [encodeChars, List.flatMap_cons, List.flatMap_nil, hw, hx, hy, hz]
    rfl
  · simp [fourDigits, hw', hx', hy', hz', hsum]

/-- A numbered escape stands for what its digits say. -/
theorem textBytes_unicodeEscape {s bs : Bytes} {k : Nat}
    (h : unicodeEscape s = .ok (bs, k)) (hrest : textBytes (s.drop k) = .ok (more, r)) :
    textBytes (0x5C :: 0x75 :: s) = .ok (bs ++ more, r) := by
  have hletter : simpleEscape? 0x75 = none := by decide
  rw [textBytes]
  simp [escape, hletter, h, hrest, Except.map]

/-- A character is read from its number. -/
theorem unicodeEscape_numbered {c : Char} {s : Bytes} (h : fourDigits s = .ok c.toNat) :
    unicodeEscape s = .ok (encodeChar c, 4) := by
  -- No character's number is that of a surrogate.
  have hnot : ¬ (0xDC00 ≤ c.toNat ∧ c.toNat ≤ 0xDFFF) ∧ (c.toNat < 0xD800 ∨ 0xDBFF < c.toNat) := by
    have := toNat_bounds c
    omega
  rw [unicodeEscape, h]
  simp [bind, Except.bind, hnot]
  rfl

/-- The two halves of a surrogate pair are read as one number. -/
theorem unicodeEscape_halves {c : Char} {n m : Nat} {ds s : Bytes} (hlength : ds.length = 4)
    (hhigh : fourDigits (ds ++ 0x5C :: 0x75 :: s) = .ok n) (hlow : fourDigits s = .ok m)
    (hn : 0xD800 ≤ n ∧ n < 0xDC00) (hm : 0xDC00 ≤ m ∧ m ≤ 0xDFFF)
    (hc : 0x10000 + (n - 0xD800) * 0x400 + (m - 0xDC00) = c.toNat) :
    unicodeEscape (ds ++ 0x5C :: 0x75 :: s) = .ok (encodeChar c, 10) := by
  have hafter : (ds ++ 0x5C :: 0x75 :: s).drop 4 = 0x5C :: 0x75 :: s := by
    rw [← hlength, List.drop_left]
  have hn' : ¬ 0xDC00 ≤ n ∧ ¬ (n < 0xD800 ∨ 0xDBFF < n) := by omega
  have hm' : ¬ (m < 0xDC00 ∨ 0xDFFF < m) := by omega
  rw [unicodeEscape, hhigh]
  simp only [bind, Except.bind, hafter, hlow]
  simp [hn', hm', hc]
  rfl

/-- **A character is read** in whatever way it is spelled. -/
theorem Spells.textBytes_eq {c : Char} {cs : List Char} (h : Spells c cs)
    (hrest : textBytes rest = .ok (more, r)) :
    textBytes (encodeChars cs ++ rest) = .ok (encodeChar c ++ more, r) := by
  cases h with
  | plain hquote hbackslash hcontrol =>
    have hc : encodeChars [c] = encodeChar c := List.append_nil _
    rw [hc]
    refine textBytes_plain (fun b hb => ?_) hrest
    -- A byte below `0x80` is the whole character, which is none of those that are escaped.
    have hascii : ∀ d : Char, b = UInt8.ofNat d.toNat → d.toNat < 0x80 → c = d := by
      rintro d rfl hd
      have hn := toNat_ofNat_of_lt (show d.toNat < 256 by omega)
      have hlt : UInt8.ofNat d.toNat < 0x80 := by
        rw [UInt8.lt_iff_toNat_lt, hn]
        exact hd
      exact Char.toNat_inj.mp ((encodeChar_of_mem hb hlt).2.trans hn)
    refine ⟨fun h => hquote (hascii '"' h (by decide)),
      fun h => hbackslash (hascii '\\' h (by decide)), fun h => ?_⟩
    have h' : b.toNat < 0x20 := UInt8.lt_iff_toNat_lt.mp h
    have hlt : b < 0x80 := UInt8.lt_iff_toNat_lt.mpr (Nat.lt_trans h' (by decide))
    have hnumber := (encodeChar_of_mem hb hlt).2
    omega
  | @short letter h =>
    obtain ⟨b, d, hb, hd, hread⟩ := simpleEscape?_shortEscapes _ h
    have hbytes : encodeChars ['\\', letter] = [0x5C, b] := by
      simp only [encodeChars, List.flatMap_cons, List.flatMap_nil, hb]
      rfl
    rw [hbytes, hd]
    exact textBytes_simpleEscape hread hrest
  | numbered h =>
    obtain ⟨ds, hbytes, hlength, hdigits⟩ := h.exists_bytes
    rw [hbytes]
    refine textBytes_unicodeEscape (unicodeEscape_numbered (hdigits rest)) ?_
    show textBytes ((ds ++ rest).drop 4) = _
    rwa [← hlength, List.drop_left]
  | @pair high low hlarge hhigh hlow =>
    have hbound := toNat_bounds c
    generalize hn : 0xD800 + (c.toNat - 0x10000) / 0x400 = n at hhigh
    generalize hm : 0xDC00 + (c.toNat - 0x10000) % 0x400 = m at hlow
    obtain ⟨ds, hbytes, hlength, hdigits⟩ := hhigh.exists_bytes
    obtain ⟨ds', hbytes', hlength', hdigits'⟩ := hlow.exists_bytes
    have hall : encodeChars (high ++ low) ++ rest =
        0x5C :: 0x75 :: (ds ++ 0x5C :: 0x75 :: (ds' ++ rest)) := by
      simp [encodeChars_append, hbytes, hbytes']
    rw [hall]
    refine textBytes_unicodeEscape
      (unicodeEscape_halves hlength (hdigits _) (hdigits' rest) (by omega) (by omega) (by omega)) ?_
    show textBytes ((ds ++ 0x5C :: 0x75 :: (ds' ++ rest)).drop 10) = _
    have hsplit : ds ++ 0x5C :: 0x75 :: (ds' ++ rest) = (ds ++ [0x5C, 0x75] ++ ds') ++ rest := by simp
    have hten : (ds ++ [0x5C, 0x75] ++ ds').length = 10 := by simp [hlength, hlength']
    rw [hsplit, List.drop_left' hten]
    exact hrest

/-- **What is written for a character** spells it. -/
theorem spells_escapeChar (c : Char) : Spells c (escapeChar c) := by
  unfold escapeChar
  iterate 7
    split
    · rename_i hc
      rw [eq_of_beq hc]
      exact .short (by decide)
  split
  · rename_i hc
    refine .numbered ⟨'0', '0', _, _, rfl, ?_, ?_, ⟨by omega, .inl ?_⟩, ⟨by omega, .inl rfl⟩⟩
    · rw [Nat.div_eq_of_lt (by omega)]
      exact ⟨by decide, .inl rfl⟩
    · rw [Nat.div_eq_of_lt (by omega)]
      exact ⟨by decide, .inl rfl⟩
    · rw [Nat.mod_eq_of_lt (show c.toNat / 16 < 16 by omega)]
  · rename_i hquote hbackslash _ _ _ _ _ hcontrol
    exact .plain (by simpa using hquote) (by simpa using hbackslash) (by omega)

/-! ### Strings -/

/-- **The ways to spell a string**, with its quotes: each character in any way of its own. -/
def IsSpelling (s : String) (token : List Char) : Prop :=
  ∃ pieces, List.Forall₂ Spells s.toList pieces ∧ token = '"' :: (pieces.flatten ++ ['"'])

/-- What is written for a string spells it. -/
theorem isSpelling_textToken (s : String) : IsSpelling s (textToken s) := by
  refine ⟨s.toList.map escapeChar, ?_, ?_⟩
  · rw [List.forall₂_map_right_iff, List.forall₂_same]
    exact fun c _ => spells_escapeChar c
  · rw [textToken, List.flatMap_def, List.cons_append]

/-- **A string is read** in whatever way it is spelled. -/
theorem IsSpelling.exists_bytes {s : String} {token : List Char} (h : IsSpelling s token) :
    ∃ q, encodeChars token = 0x22 :: q ∧ ∀ rest, textBody (q ++ rest) = .ok (s, rest) := by
  obtain ⟨pieces, hpieces, rfl⟩ := h
  refine ⟨encodeChars pieces.flatten ++ [0x22], ?_, fun rest => ?_⟩
  · rw [← List.singleton_append, encodeChars_append, encodeChars_append]
    rfl
  have hbytes : textBytes (encodeChars pieces.flatten ++ 0x22 :: rest) =
      .ok (encodeChars s.toList, rest) := by
    generalize s.toList = l at hpieces
    induction hpieces with
    | nil =>
      show textBytes (0x22 :: rest) = _
      rw [textBytes]
      rfl
    | cons hc _ ih =>
      rw [List.flatten_cons, encodeChars_append, List.append_assoc]
      exact hc.textBytes_eq ih
  rw [List.append_assoc, List.singleton_append, textBody, hbytes]
  simp [decode?, decodeChars?_encodeChars]

/-! ### Numbers -/

/-- **No number goes on** at the start of a text: it begins with no digit, no point and no letter of an
exponent. -/
def Ends (rest : Bytes) : Prop :=
  ∀ b ∈ rest.head?, isDigit b = false ∧ b ≠ 0x2E ∧ b ≠ 0x65 ∧ b ≠ 0x45

/-- The digit of a number below ten is one byte. -/
theorem isDigit_digitChar : ∀ d < 10,
    encodeChar (Nat.digitChar d) = [UInt8.ofNat (48 + d)] ∧ isDigit (UInt8.ofNat (48 + d)) = true ∧
      (UInt8.ofNat (48 + d)).toNat - 48 = d := by
  decide

/-- **The digits of a number**: the first one is no zero unless it is the only one, and the others are read
into the number. -/
theorem digitsInto_toDigits {n : Nat} (h : n ≤ maxSignificand) :
    ∃ b bs, encodeChars (Nat.toDigits 10 n) = b :: bs ∧ isDigit b = true ∧
      (b = 0x30 → n = 0 ∧ bs = []) ∧
      ∀ count rest, digitsInto (b.toNat - 48) count (bs ++ rest) =
        digitsInto n (count + bs.length) rest := by
  induction n using Nat.strongRecOn with
  | ind n ih =>
    by_cases hn : n < 10
    · obtain ⟨hbytes, hdigit, hvalue⟩ := isDigit_digitChar n hn
      refine ⟨UInt8.ofNat (48 + n), [], ?_, hdigit, ?_, ?_⟩
      · rw [Nat.toDigits_of_lt_base hn]
        simp [encodeChars, hbytes]
      · intro hzero
        rw [hzero] at hvalue
        exact ⟨hvalue.symm, rfl⟩
      · intro count rest
        rw [hvalue]
        rfl
    · -- The last digit stands behind those of a tenth of the number.
      obtain ⟨b, bs, hbytes, hdigit, hzero, hinto⟩ := ih (n / 10) (by omega) (by omega)
      obtain ⟨hlast, hlast', hvalue⟩ := isDigit_digitChar (n % 10) (by omega)
      generalize UInt8.ofNat (48 + n % 10) = d at hlast hlast' hvalue
      refine ⟨b, bs ++ [d], ?_, hdigit, ?_, ?_⟩
      · rw [Nat.toDigits_of_base_le (by decide) (by omega), encodeChars_append, hbytes]
        simp [encodeChars, hlast]
      · intro hb
        have := (hzero hb).1
        omega
      · intro count rest
        have hnext : n / 10 * 10 + n % 10 = n := by omega
        rw [List.append_assoc, hinto, List.singleton_append, digitsInto, if_pos hlast']
        simp [hvalue, hnext, h, Nat.add_assoc]

/-- **The digits of a number are read again**, behind its sign if it has one. -/
theorem numeral_toDigits {n : Nat} (h : n ≤ maxSignificand) (positive : Bool) (hrest : Ends rest) :
    numeral positive (encodeChars (Nat.toDigits 10 n) ++ rest) = .ok (integer positive n, rest) := by
  obtain ⟨b, bs, hbytes, hdigit, hzero, hinto⟩ := digitsInto_toDigits h
  rw [hbytes, List.cons_append, numeral]
  have hlead : (b == 0x30 && startsDigit (bs ++ rest)) = false := by
    by_cases hb : b = 0x30
    · rw [(hzero hb).2]
      cases rest with
      | nil => simp [startsDigit]
      | cons c rest => simp [startsDigit, (hrest c rfl).1]
    · simp [hb]
  have hend : ∀ m count, digitsInto m count rest = (m, count, rest) := by
    intro m count
    cases rest with
    | nil => rfl
    | cons c rest => simp [digitsInto, (hrest c rfl).1]
  simp only [hdigit, hlead, hinto, hend]
  cases rest with
  | nil => simp
  | cons c rest =>
    obtain ⟨hc, hpoint, he, hE⟩ := hrest c rfl
    simp [hc, hpoint, startsExponent, he, hE]

end ReleasePublisher.Json

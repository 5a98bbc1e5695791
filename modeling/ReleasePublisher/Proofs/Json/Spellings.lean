import ReleasePublisher.Proofs.Json.Rendering

/-!
# Strings that were read

Whatever is read as a string spells it: each of its characters stands there as it is, or as one of its escapes.
Thus a string and its spellings determine each other, although the bytes of a character are read one by one.

## Main results

* `Json.textBody_eq_ok_iff`: a string is read exactly from its spellings
-/

namespace ReleasePublisher.Json

open Utf8

variable {s rest more bs : Bytes} {k n : Nat}

/-! ### Escapes -/

/-- A hexadecimal digit that is read is one of either case, and it is one byte. -/
theorem isHexDigit_of_value? {b : UInt8} (h : Hex.value? (Char.ofNat b.toNat) = some n) :
    IsHexDigit (Char.ofNat b.toNat) n ∧ encodeChar (Char.ofNat b.toNat) = [b] := by
  have hall : (Hex.value? (Char.ofNat b.toNat)).all (fun n =>
      decide (n < 16 ∧ (Char.ofNat b.toNat = Hex.lowerDigit n ∨ Char.ofNat b.toNat = Hex.upperDigit n)) &&
        encodeChar (Char.ofNat b.toNat) == [b]) = true := by
    refine forall_byte (P := fun b => (Hex.value? (Char.ofNat b.toNat)).all (fun n =>
      decide (n < 16 ∧ (Char.ofNat b.toNat = Hex.lowerDigit n ∨ Char.ofNat b.toNat = Hex.upperDigit n)) &&
        encodeChar (Char.ofNat b.toNat) == [b]) = true) ?_ b
    decide +kernel
  rw [h] at hall
  simp only [Option.all_some, Bool.and_eq_true, decide_eq_true_eq, beq_iff_eq] at hall
  exact hall

/-- Four digits state a number. -/
theorem exists_isNumbered_of_fourDigits (h : fourDigits s = .ok n) :
    ∃ cs, IsNumbered n cs ∧ 0x5C :: 0x75 :: s = encodeChars cs ++ s.drop 4 := by
  unfold fourDigits at h
  split at h
  · rename_i a b c d rest
    split at h
    · rename_i ds hds
      simp only [List.mapM_cons, List.mapM_nil, Option.bind_eq_bind, Option.bind_eq_some_iff] at hds
      obtain ⟨w, hw, _, ⟨x, hx, _, ⟨y, hy, _, ⟨z, hz, _, ⟨⟩, ⟨⟩⟩, ⟨⟩⟩, ⟨⟩⟩, ⟨⟩⟩ := hds
      obtain ⟨hw, hwb⟩ := isHexDigit_of_value? hw
      obtain ⟨hx, hxb⟩ := isHexDigit_of_value? hx
      obtain ⟨hy, hyb⟩ := isHexDigit_of_value? hy
      obtain ⟨hz, hzb⟩ := isHexDigit_of_value? hz
      have hn : ((w * 16 + x) * 16 + y) * 16 + z = n := by simpa using h
      have hbounds : w < 16 ∧ x < 16 ∧ y < 16 ∧ z < 16 := ⟨hw.1, hx.1, hy.1, hz.1⟩
      refine ⟨['\\', 'u', Char.ofNat a.toNat, Char.ofNat b.toNat, Char.ofNat c.toNat, Char.ofNat d.toNat],
        ⟨_, _, _, _, rfl, ?_, ?_, ?_, ?_⟩, ?_⟩
      · rwa [show n / 4096 = w by omega]
      · rwa [show n / 256 % 16 = x by omega]
      · rwa [show n / 16 % 16 = y by omega]
      · rwa [show n % 16 = z by omega]
      · simp only [encodeChars, List.flatMap_cons, List.flatMap_nil, hwb, hxb, hyb, hzb]
        rfl
    · cases h
  · cases h

theorem IsNumbered.lt {cs : List Char} (h : IsNumbered n cs) : n < 0x10000 := by
  obtain ⟨_, _, _, _, -, ha, -, -, -⟩ := h
  have := ha.1
  omega

/-- A number that is no half of a surrogate pair spells its character. -/
theorem spells_single {cs : List Char} (h : IsNumbered n cs) (hn : n < 0xD800 ∨ 0xDFFF < n) :
    Spells (Char.ofNat n) cs := by
  have hlt := h.lt
  have hc := toNat_ofNat_of_valid (n := n) (by omega)
  exact .numbered (by rwa [hc])

/-- The halves of a surrogate pair spell their character. -/
theorem spells_halves {m : Nat} {high low : List Char} (hhigh : IsNumbered n high) (hlow : IsNumbered m low)
    (hn : 0xD800 ≤ n ∧ n ≤ 0xDBFF) (hm : 0xDC00 ≤ m ∧ m ≤ 0xDFFF) :
    Spells (Char.ofNat (0x10000 + (n - 0xD800) * 0x400 + (m - 0xDC00))) (high ++ low) := by
  have hc := toNat_ofNat_of_valid (n := 0x10000 + (n - 0xD800) * 0x400 + (m - 0xDC00)) (by omega)
  refine .pair ?_ ?_ ?_
  · omega
  · rwa [hc, show 0xD800 + (0x10000 + (n - 0xD800) * 0x400 + (m - 0xDC00) - 0x10000) / 0x400 = n by omega]
  · rwa [hc, show 0xDC00 + (0x10000 + (n - 0xD800) * 0x400 + (m - 0xDC00) - 0x10000) % 0x400 = m by omega]

/-- **A numbered escape** stands for a character. -/
theorem exists_spells_of_unicodeEscape (h : unicodeEscape s = .ok (bs, k)) :
    ∃ c cs, bs = encodeChar c ∧ Spells c cs ∧ 0x5C :: 0x75 :: s = encodeChars cs ++ s.drop k := by
  obtain ⟨n, hn, h⟩ := bind_eq_ok.mp h
  obtain ⟨high, hhigh, hs⟩ := exists_isNumbered_of_fourDigits hn
  dsimp only at h
  -- A low half on its own stands for nothing.
  split at h
  · cases h
  rename_i hlone
  have hlone : ¬ (0xDC00 ≤ n ∧ n ≤ 0xDFFF) := by simpa using hlone
  split at h
  · rename_i hsingle
    cases h
    have hsingle : n < 0xD800 ∨ 0xDBFF < n := by simpa using hsingle
    exact ⟨_, high, rfl, spells_single hhigh (by omega), hs⟩
  -- A high half is left, and the escape of a low half must follow it.
  rename_i hpair
  have hpair : 0xD800 ≤ n ∧ n ≤ 0xDBFF := by simpa using hpair
  split at h
  · cases h
  rename_i b after hafter
  split at h
  · cases h
  rename_i hb
  split at h
  · cases h
  rename_i b' after'
  split at h
  · cases h
  rename_i hb'
  obtain ⟨m, hm, h⟩ := bind_eq_ok.mp h
  obtain ⟨low, hlow, hs'⟩ := exists_isNumbered_of_fourDigits hm
  split at h
  · cases h
  rename_i hbounds
  have hbounds : 0xDC00 ≤ m ∧ m ≤ 0xDFFF := by simpa using hbounds
  obtain ⟨rfl, rfl⟩ := Prod.mk.inj (Except.ok.inj h)
  refine ⟨_, high ++ low, rfl, spells_halves hhigh hlow hpair hbounds, ?_⟩
  simp only [bne_iff_ne, ne_eq, Decidable.not_not] at hb hb'
  have hdrop : s.drop 10 = after'.drop 4 := by
    rw [show s.drop 10 = (s.drop 4).drop 6 by rw [List.drop_drop], hafter]
    rfl
  rw [hs, hafter, hb, hb', hs', hdrop, encodeChars_append, List.append_assoc]

/-- The letters of the short escapes, with what is read of them. -/
theorem shortEscapes_of_simpleEscape? {b d : UInt8} (h : simpleEscape? b = some d) :
    ∃ letter c, (letter, c) ∈ shortEscapes ∧ encodeChar letter = [b] ∧ encodeChar c = [d] := by
  have hall : (simpleEscape? b).all (fun d =>
      decide ((Char.ofNat b.toNat, Char.ofNat d.toNat) ∈ shortEscapes) &&
        encodeChar (Char.ofNat b.toNat) == [b] && encodeChar (Char.ofNat d.toNat) == [d]) = true := by
    refine forall_byte (P := fun b => (simpleEscape? b).all (fun d =>
      decide ((Char.ofNat b.toNat, Char.ofNat d.toNat) ∈ shortEscapes) &&
        encodeChar (Char.ofNat b.toNat) == [b] && encodeChar (Char.ofNat d.toNat) == [d]) = true) ?_ b
    decide +kernel
  rw [h] at hall
  simp only [Option.all_some, Bool.and_eq_true, decide_eq_true_eq, beq_iff_eq] at hall
  exact ⟨_, _, hall.1.1, hall.1.2, hall.2⟩

/-- **An escape** stands for a character. -/
theorem exists_spells_of_escape (h : escape s = .ok (bs, k)) :
    ∃ c cs, bs = encodeChar c ∧ Spells c cs ∧ 0x5C :: s = encodeChars cs ++ s.drop k := by
  unfold escape at h
  split at h
  · cases h
  rename_i b rest
  split at h
  · rename_i d hd
    cases h
    obtain ⟨letter, c, hmem, hletter, hc⟩ := shortEscapes_of_simpleEscape? hd
    refine ⟨c, ['\\', letter], hc.symm, .short hmem, ?_⟩
    simp only [encodeChars, List.flatMap_cons, List.flatMap_nil, hletter]
    rfl
  · split at h
    · rename_i hb
      obtain rfl := eq_of_beq hb
      obtain ⟨⟨bs', m⟩, hm, he⟩ := map_eq_ok.mp h
      cases he
      exact exists_spells_of_unicodeEscape hm
    · cases h

/-! ### Characters of several bytes -/

/-- What can be read first of a string. -/
theorem textBytes_cases (h : textBytes s = .ok (bs, rest)) :
    (s = 0x22 :: rest ∧ bs = []) ∨
    (∃ c cs u more, Spells c cs ∧ s = encodeChars cs ++ u ∧ u.length < s.length ∧
      textBytes u = .ok (more, rest) ∧ bs = encodeChar c ++ more) ∨
    ∃ b u more, b ≠ 0x22 ∧ b ≠ 0x5C ∧ 0x20 ≤ b ∧ s = b :: u ∧ textBytes u = .ok (more, rest) ∧
      bs = b :: more := by
  cases s with
  | nil => simp [textBytes] at h
  | cons b s =>
    rw [textBytes] at h
    split at h
    · rename_i hb
      cases h
      exact .inl ⟨by rw [eq_of_beq hb], rfl⟩
    rename_i hquote
    split at h
    · rename_i hb
      obtain rfl := eq_of_beq hb
      split at h
      · cases h
      rename_i bs' m he
      obtain ⟨⟨more, r⟩, hm, hr⟩ := map_eq_ok.mp h
      cases hr
      obtain ⟨c, cs, rfl, hcs, hs⟩ := exists_spells_of_escape he
      refine .inr (.inl ⟨c, cs, s.drop m, more, hcs, hs, ?_, hm, rfl⟩)
      rw [List.length_drop, List.length_cons]
      omega
    rename_i hbackslash
    split at h
    · cases h
    rename_i hcontrol
    obtain ⟨⟨more, r⟩, hm, hr⟩ := map_eq_ok.mp h
    cases hr
    refine .inr (.inr ⟨b, s, more, ?_, ?_, UInt8.not_lt.mp hcontrol, rfl, hm, rfl⟩)
    · simpa using hquote
    · simpa using hbackslash

/-- **Bytes that continue a character** stand in the text as they are: no escape begins with one. -/
theorem exists_eq_append_of_tails {tails : Bytes} (htails : ∀ x ∈ tails, isTail x = true)
    (h : textBytes s = .ok (tails ++ more, rest)) :
    ∃ u, s = tails ++ u ∧ textBytes u = .ok (more, rest) := by
  induction tails generalizing s with
  | nil => exact ⟨s, rfl, h⟩
  | cons x tails ih =>
    obtain ⟨hx, htails⟩ := List.forall_mem_cons.mp htails
    rcases textBytes_cases h with ⟨-, hnil⟩ | ⟨c, cs, u, more', -, -, -, -, hbs⟩ |
      ⟨b, u, more', -, -, -, rfl, hu, hbs⟩
    · cases hnil
    · obtain ⟨b, bs, hc, -⟩ := step_encodeChar c
      rw [hc] at hbs
      obtain ⟨rfl, -⟩ := List.cons.inj hbs
      exact absurd hc (encodeChar_ne_cons_of_isTail hx c bs)
    · obtain ⟨rfl, rfl⟩ := List.cons.inj hbs
      obtain ⟨u', rfl, hu'⟩ := ih htails hu
      exact ⟨u', rfl, hu'⟩

/-- A byte that is neither a quote nor a backslash nor a control begins a character that is none. -/
theorem spells_plain {b : UInt8} {c : Char} {tails : Bytes} (hc : encodeChar c = b :: tails)
    (hquote : b ≠ 0x22) (hbackslash : b ≠ 0x5C) (hcontrol : 0x20 ≤ b) : Spells c [c] := by
  refine .plain ?_ ?_ ?_
  · rintro rfl
    exact hquote (List.cons.inj hc).1.symm
  · rintro rfl
    exact hbackslash (List.cons.inj hc).1.symm
  · by_contra hlt
    have hone : encodeChar c = [UInt8.ofNat c.toNat] := by
      simp only [encodeChar]
      rw [if_pos (by omega)]
    rw [hone] at hc
    have hb := (List.cons.inj hc).1
    rw [← hb, UInt8.le_iff_toNat_le, toNat_ofNat_of_lt (by omega)] at hcontrol
    exact hlt hcontrol

/-- **Bytes that were read** are spelled by the text. -/
theorem exists_pieces_of_textBytes {cs : List Char} (h : textBytes s = .ok (bs, rest))
    (hcs : decodeChars? bs = some cs) :
    ∃ pieces, List.Forall₂ Spells cs pieces ∧ s = encodeChars pieces.flatten ++ 0x22 :: rest := by
  -- By the length of the text: the first character may take several of its bytes.
  induction hlen : s.length using Nat.strongRecOn generalizing s bs cs with
  | ind len ih =>
    subst hlen
    have hcons : ∀ {c : Char} {piece : List Char} {u more : Bytes}, Spells c piece →
        s = encodeChars piece ++ u → u.length < s.length → textBytes u = .ok (more, rest) →
        bs = encodeChar c ++ more →
        ∃ pieces, List.Forall₂ Spells cs pieces ∧ s = encodeChars pieces.flatten ++ 0x22 :: rest := by
      intro c piece u more hpiece hs hlt hu hbs
      rw [hbs, decodeChars?_encodeChar_append] at hcs
      obtain ⟨ds, hds, rfl⟩ := Option.map_eq_some_iff.mp hcs
      obtain ⟨pieces, hpieces, hu'⟩ := ih u.length hlt hu hds rfl
      refine ⟨piece :: pieces, .cons hpiece hpieces, ?_⟩
      rw [hs, hu', List.flatten_cons, encodeChars_append, List.append_assoc]
    rcases textBytes_cases h with ⟨rfl, rfl⟩ | ⟨c, piece, u, more, hpiece, hs, hlt, hu, hbs⟩ |
      ⟨b, u, more, hquote, hbackslash, hcontrol, hs, hu, hbs⟩
    · rw [decodeChars?] at hcs
      cases hcs
      exact ⟨[], .nil, rfl⟩
    · exact hcons hpiece hs hlt hu hbs
    · rw [hbs, decodeChars?] at hcs
      split at hcs
      · rename_i c m hstep
        obtain ⟨tails, more', rfl, -, htails, hc⟩ := exists_tails_of_step hstep
        obtain ⟨w, rfl, hw⟩ := exists_eq_append_of_tails htails hu
        refine hcons (spells_plain hc hquote hbackslash hcontrol) ?_ ?_ hw ?_
        · rw [hs, encodeChars, List.flatMap_cons, List.flatMap_nil, hc]
          simp
        · rw [hs, List.length_cons, List.length_append]
          omega
        · rw [hbs, hc]
          rfl
      · cases hcs

/-! ### Strings -/

/-- **A string is read exactly from its spellings.** -/
theorem textBody_eq_ok_iff {t : String} :
    textBody s = .ok (t, rest) ↔
      ∃ token, IsSpelling t token ∧ 0x22 :: s = encodeChars token ++ rest := by
  constructor
  · intro h
    unfold textBody at h
    split at h
    · cases h
    rename_i bs r hr
    split at h
    · rename_i t' ht'
      cases h
      obtain ⟨cs, hcs, rfl⟩ := Option.map_eq_some_iff.mp ht'
      obtain ⟨pieces, hpieces, rfl⟩ := exists_pieces_of_textBytes hr hcs
      refine ⟨_, ⟨pieces, ?_, rfl⟩, ?_⟩
      · rwa [String.toList_ofList]
      · have htoken : encodeChars ('"' :: (pieces.flatten ++ ['"'])) =
            0x22 :: (encodeChars pieces.flatten ++ [0x22]) := by
          rw [← List.singleton_append, encodeChars_append, encodeChars_append]
          rfl
        rw [htoken]
        simp
    · cases h
  · rintro ⟨token, htoken, hs⟩
    obtain ⟨q, hq, hread⟩ := htoken.exists_bytes
    rw [hq] at hs
    rw [(List.cons.inj hs).2]
    exact hread rest

end ReleasePublisher.Json

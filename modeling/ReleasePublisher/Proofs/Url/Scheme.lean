import ReleasePublisher.Proofs.Text.Utf8Reading
import ReleasePublisher.Url.Parser

/-!
# Cleaned texts and schemes

An address is read from its cleaned text: its scheme up to the first colon, then what belongs to the
scheme. Cleaning leaves visible characters alone, and so an address keeps the scheme with which it was
written.

## Main definitions

* `Url.cleanStart`, `Url.cleanEnd`: what cleaning leaves of a text before and behind a visible character
* `Url.IsScheme s`: a scheme in its canonical text

## Main results

* `Url.clean_append_cons`: cleaning on both sides of a visible character
* `Url.splitScheme?_eq_some`, `Url.splitScheme?_colon`: where a scheme ends
* `Url.parse_eq_ok`: an address is read behind its scheme, which it keeps
* `Url.parse_text_scheme`: an address that is written and read keeps its scheme
-/

namespace ReleasePublisher.Url

open Text

/-! ### Cleaning -/

/-- A character that cleaning drops at the ends of a text. -/
def isEdge (c : Char) : Bool :=
  c.toNat ≤ 0x20

/-- A character that cleaning keeps within a text. -/
def isKept (c : Char) : Bool :=
  c != '\t' && c != '\n' && c != '\r'

/-- What cleaning leaves of a text that a visible character follows. -/
def cleanStart (cs : List Char) : List Char :=
  (cs.dropWhile isEdge).filter isKept

/-- What cleaning leaves of a text behind a visible character. -/
def cleanEnd (cs : List Char) : List Char :=
  (dropEndWhile isEdge cs).filter isKept

theorem isKept_of_not_isEdge {c : Char} (h : isEdge c = false) : isKept c = true := by
  have hall : ['\t', '\n', '\r'].all isEdge = true := by decide
  have hne : ∀ d ∈ ['\t', '\n', '\r'], c ≠ d := by
    rintro d hd rfl
    rw [List.all_eq_true.mp hall c hd] at h
    cases h
  simp only [List.forall_mem_cons] at hne
  simp [isKept, hne]

theorem dropWhile_append_cons {p : Char → Bool} {c : Char} (h : p c = false) (cs rest : List Char) :
    (cs ++ c :: rest).dropWhile p = cs.dropWhile p ++ c :: rest := by
  rw [List.dropWhile_append]
  split <;> simp_all

/-- **Cleaning on both sides** of a visible character. -/
theorem clean_append_cons {c : Char} (h : isEdge c = false) (cs rest : List Char) :
    clean (cs ++ c :: rest) = cleanStart cs ++ c :: cleanEnd rest := by
  have hclean : clean (cs ++ c :: rest) =
      (dropEndWhile isEdge ((cs ++ c :: rest).dropWhile isEdge)).filter isKept := rfl
  rw [hclean, dropWhile_append_cons h, dropEndWhile_append_cons h, List.filter_append,
    List.filter_cons_of_pos (isKept_of_not_isEdge h)]
  rfl

theorem cleanEnd_append_cons {c : Char} (h : isEdge c = false) (cs rest : List Char) :
    cleanEnd (cs ++ c :: rest) = cs.filter isKept ++ c :: cleanEnd rest := by
  rw [cleanEnd, dropEndWhile_append_cons h, List.filter_append,
    List.filter_cons_of_pos (isKept_of_not_isEdge h)]
  rfl

/-- What cleaning drops at the end alone, blanks and control characters, may stay before more text. -/
theorem cleanStart_eq_clean_append (cs : List Char) :
    ∃ blanks, cleanStart cs = clean cs ++ blanks ∧ ∀ c ∈ blanks, c.toNat ≤ 0x20 := by
  obtain ⟨dropped, hstart, hedge⟩ := dropEndWhile_append_dropped isEdge (cs.dropWhile isEdge)
  refine ⟨dropped.filter isKept, ?_, fun c hc => ?_⟩
  · show (cs.dropWhile isEdge).filter isKept =
      (dropEndWhile isEdge (cs.dropWhile isEdge)).filter isKept ++ _
    rw [← List.filter_append, ← hstart]
  · exact of_decide_eq_true (hedge c (List.mem_filter.mp hc).1)

/-- A text that ends in a visible character loses nothing at its end. -/
theorem dropEndWhile_isEdge {cs : List Char} (h : ∀ c ∈ cs.getLast?, isEdge c = false) :
    dropEndWhile isEdge cs = cs := by
  rcases List.eq_nil_or_concat cs with rfl | ⟨init, c, rfl⟩
  · rfl
  · rw [List.concat_eq_append] at h ⊢
    rw [dropEndWhile_append_cons (h c (by simp))]
    rfl

theorem cleanStart_eq_clean {cs : List Char} (h : ∀ c ∈ cs.getLast?, isEdge c = false) :
    cleanStart cs = clean cs := by
  have hdrop : ∀ c ∈ (cs.dropWhile isEdge).getLast?, isEdge c = false := by
    intro c hc
    obtain ⟨taken, htaken⟩ := List.dropWhile_suffix (p := isEdge) (l := cs)
    refine h c ?_
    rw [← htaken, List.getLast?_append, Option.mem_def.mp hc]
    rfl
  show (cs.dropWhile isEdge).filter isKept =
    (dropEndWhile isEdge (cs.dropWhile isEdge)).filter isKept
  rw [dropEndWhile_isEdge hdrop]

section Visible

variable {cs : List Char} (h : ∀ c ∈ cs, isEdge c = false)

include h

theorem filter_isKept : cs.filter isKept = cs :=
  List.filter_eq_self.mpr fun c hc => isKept_of_not_isEdge (h c hc)

theorem dropWhile_isEdge : cs.dropWhile isEdge = cs := by
  cases cs with
  | nil => rfl
  | cons c cs => exact List.dropWhile_cons_of_neg (by simp [h c List.mem_cons_self])

theorem cleanStart_of_visible : cleanStart cs = cs := by
  rw [cleanStart, dropWhile_isEdge h, filter_isKept h]

theorem cleanEnd_of_visible : cleanEnd cs = cs := by
  have hrev : ∀ c ∈ cs.reverse, isEdge c = false := fun c hc => h c (List.mem_reverse.mp hc)
  rw [cleanEnd, dropEndWhile, dropWhile_isEdge hrev, List.reverse_reverse, filter_isKept h]

end Visible

/-! ### Schemes -/

/-- **A scheme in its canonical text.** -/
structure IsScheme (s : List Char) : Prop where
  head : s.head?.any Char.isAlpha = true
  chars : ∀ c ∈ s, isSchemeChar c = true ∧ c.toLower = c

theorem toNat_lt_of_isSchemeChar {c : Char} (h : isSchemeChar c = true) : c.toNat < 0x80 := by
  simp only [isSchemeChar, Bool.or_eq_true, beq_iff_eq] at h
  rcases h with ((h | rfl) | rfl) | rfl
  · rcases Bool.or_eq_true _ _ ▸ h with h | h
    · rcases Bool.or_eq_true _ _ ▸ h with h | h
      · have hle : c.val ≤ 'Z'.val := (of_decide_eq_true h).2
        exact Nat.lt_of_le_of_lt (UInt32.le_iff_toNat_le.mp hle) (by decide)
      · have hle : c.val ≤ 'z'.val := of_decide_eq_true (Bool.and_eq_true _ _ ▸ h).2
        exact Nat.lt_of_le_of_lt (UInt32.le_iff_toNat_le.mp hle) (by decide)
    · exact Nat.lt_of_le_of_lt (Char.isDigit_iff_toNat.mp h).2 (by decide)
  · decide
  · decide
  · decide

/-- Characters of schemes are visible, and remain some in lower case. -/
theorem isSchemeChar_facts {c : Char} (h : isSchemeChar c = true) :
    isEdge c = false ∧ isSchemeChar c.toLower = true ∧ c.toLower.toLower = c.toLower ∧
      (c.isAlpha = true → c.toLower.isAlpha = true) := by
  refine Utf8.forall_char (P := fun c => isSchemeChar c = true → isEdge c = false ∧
    isSchemeChar c.toLower = true ∧ c.toLower.toLower = c.toLower ∧
      (c.isAlpha = true → c.toLower.isAlpha = true)) ?_ c (toNat_lt_of_isSchemeChar h) h
  decide

/-- **Where a scheme ends**: at the first colon, behind nothing but its own characters. -/
theorem splitScheme?_eq_some {cs scheme rest : List Char} (h : splitScheme? cs = some (scheme, rest)) :
    ∃ written, cs = written ++ ':' :: rest ∧ scheme = written.map Char.toLower ∧
      (∀ c ∈ written, isSchemeChar c = true) ∧ written.head?.any Char.isAlpha = true := by
  unfold splitScheme? at h
  split at h
  · rename_i rest' hdrop
    split at h
    · rename_i hhead
      obtain ⟨rfl, rfl⟩ := Prod.mk.inj (Option.some.inj h)
      have hcs := List.takeWhile_append_dropWhile (p := isSchemeChar) (l := cs)
      refine ⟨cs.takeWhile isSchemeChar, by rw [← hdrop, hcs], rfl,
        fun c hc => List.all_eq_true.mp List.all_takeWhile c hc, ?_⟩
      cases cs with
      | nil => cases hdrop
      | cons c cs =>
        rw [List.takeWhile_cons_of_pos]
        · exact hhead
        · have halpha : c.isAlpha = true := by simpa using hhead
          simp [isSchemeChar, Char.isAlphanum, halpha]
    · cases h
  · cases h

theorem splitScheme?_append {written : List Char} (hw : ∀ c ∈ written, isSchemeChar c = true)
    (hh : written.head?.any Char.isAlpha = true) (rest : List Char) :
    splitScheme? (written ++ ':' :: rest) = some (written.map Char.toLower, rest) := by
  have hstop : isSchemeChar ':' = false := by decide
  have hhead : (written ++ ':' :: rest).head?.any Char.isAlpha = true := by
    cases written with
    | nil => cases hh
    | cons c written => exact hh
  unfold splitScheme?
  rw [List.dropWhile_append_of_pos hw, List.takeWhile_append_of_pos hw,
    List.dropWhile_cons_of_neg (by simp [hstop]), List.takeWhile_cons_of_neg (by simp [hstop]),
    List.append_nil]
  exact if_pos hhead

theorem isScheme_of_splitScheme? {cs scheme rest : List Char}
    (h : splitScheme? cs = some (scheme, rest)) : IsScheme scheme := by
  obtain ⟨written, -, rfl, hw, hh⟩ := splitScheme?_eq_some h
  constructor
  · cases written with
    | nil => cases hh
    | cons c written =>
      have halpha : c.isAlpha = true := by simpa using hh
      simpa using (isSchemeChar_facts (hw c List.mem_cons_self)).2.2.2 halpha
  · intro c hc
    obtain ⟨d, hd, rfl⟩ := List.mem_map.mp hc
    obtain ⟨-, hchar, hlower, -⟩ := isSchemeChar_facts (hw d hd)
    exact ⟨hchar, hlower⟩

theorem IsScheme.splitScheme?_colon {scheme : List Char} (h : IsScheme scheme) (rest : List Char) :
    splitScheme? (scheme ++ ':' :: rest) = some (scheme, rest) := by
  have hlower : scheme.map Char.toLower = scheme := by
    refine (List.map_congr_left fun c hc => (h.chars c hc).2).trans (List.map_id' _)
  rw [splitScheme?_append (fun c hc => (h.chars c hc).1) h.head, hlower]

theorem IsScheme.isEdge_eq {scheme : List Char} (h : IsScheme scheme) :
    ∀ c ∈ scheme, isEdge c = false :=
  fun c hc => (isSchemeChar_facts (h.chars c hc).1).1

/-! ### What follows a scheme -/

theorem parseAuthority_scheme {scheme cs : List Char} {u : Url}
    (h : parseAuthority scheme cs = .ok u) : u.scheme = scheme := by
  unfold parseAuthority at h
  extract_lets special authority after parts at h
  split at h
  · cases h
  split at h
  · cases h
  split at h
  · cases h
  split at h
  · cases h
  split at h
  extract_lets tail at h
  split at h
  · cases h
  · exact congrArg Url.scheme (Except.ok.inj h).symm

theorem parseFile_scheme {scheme cs : List Char} {u : Url} (h : parseFile scheme cs = .ok u) :
    u.scheme = scheme := by
  unfold parseFile at h
  split at h
  · split at h
    · extract_lets isEnd hostText at h
      split at h
      · cases h
        rfl
      · cases hh : parseHost hostText with
        | error e => rw [hh] at h; cases h
        | ok host => rw [hh] at h; cases h; rfl
    · cases h
      rfl
  · cases h
    rfl

/-- An address has the scheme that it was read behind. -/
theorem parseAfterScheme_scheme {scheme cs : List Char} {u : Url}
    (h : parseAfterScheme scheme cs = .ok u) : u.scheme = scheme := by
  unfold parseAfterScheme at h
  split at h
  · exact parseFile_scheme h
  · split at h
    · exact parseAuthority_scheme h
    · unfold parseOther at h
      split at h
      · exact parseAuthority_scheme h
      · cases h
        rfl

/-- **An address is read behind its scheme**, which it keeps. -/
theorem parse_eq_ok {s : String} {u : Url} (h : parse s = .ok u) :
    ∃ rest, splitScheme? (clean s.toList) = some (u.scheme, rest) ∧
      parseAfterScheme u.scheme rest = .ok u := by
  unfold parse at h
  split at h
  · rename_i scheme rest hs
    rw [parseAfterScheme_scheme h]
    exact ⟨rest, hs, h⟩
  · cases h

theorem isScheme_of_parse {s : String} {u : Url} (h : parse s = .ok u) : IsScheme u.scheme := by
  obtain ⟨rest, hs, -⟩ := parse_eq_ok h
  exact isScheme_of_splitScheme? hs

/-- A text behind a scheme and a colon is read as what belongs to the scheme. -/
theorem IsScheme.splitScheme?_clean {scheme : List Char} (h : IsScheme scheme) (rest : List Char) :
    splitScheme? (clean (scheme ++ ':' :: rest)) = some (scheme, cleanEnd rest) := by
  rw [clean_append_cons (by decide), cleanStart_of_visible h.isEdge_eq, h.splitScheme?_colon]

theorem characters_eq (u : Url) : ∃ rest, u.characters = u.scheme ++ ':' :: rest :=
  ⟨_, by simp only [characters, List.append_assoc, List.cons_append]; rfl⟩

/-- **An address that is written and read keeps its scheme.** -/
theorem parse_text_scheme {u v : Url} (hu : IsScheme u.scheme) (h : parse u.text = .ok v) :
    v.scheme = u.scheme := by
  obtain ⟨rest, hs, -⟩ := parse_eq_ok h
  obtain ⟨tail, htext⟩ := characters_eq u
  rw [text, String.toList_ofList, htext, hu.splitScheme?_clean] at hs
  exact (Prod.mk.inj (Option.some.inj hs)).1.symm

end ReleasePublisher.Url

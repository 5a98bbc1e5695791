import ReleasePublisher.Proofs.Url.Encoding
import ReleasePublisher.Url.Parser

/-!
# Paths, queries and fragments, written and read

What follows the authority is read into encoded parts: a path with at least one segment, none of them a
dot segment, and a query and a fragment, if they are stated. Written and read again, they are the same.

## Main definitions

* `Url.IsSegment s`: a segment in its canonical text
* `Url.Tail.IsNormal`, `Url.Tail.written`: what follows an authority in its canonical parts, and its text

## Main results

* `Url.isDot_percentEncode`: encoding a segment does not make a dot segment of it
* `Url.isNormal_parseTail`: what follows an authority is read into canonical parts
* `Url.Tail.IsNormal.parseTail_written`: canonical parts are read as they were written
-/

namespace ReleasePublisher.Url

/-! ### Splitting -/

/-- The longest start of a text whose characters satisfy `p`, where it is known. -/
theorem takeWhile_append_stop {p : Char → Bool} {cs rest : List Char} (h : ∀ c ∈ cs, p c = true)
    (hr : ∀ c ∈ rest.head?, p c = false) :
    (cs ++ rest).takeWhile p = cs ∧ (cs ++ rest).dropWhile p = rest := by
  rw [List.takeWhile_append_of_pos h, List.dropWhile_append_of_pos h]
  cases rest with
  | nil => simp
  | cons c rest =>
    have hc := hr c rfl
    simp [hc]

theorem splitAll_cons (p : Char → Bool) (c : Char) (cs : List Char) :
    splitAll p (c :: cs) =
      if p c then [] :: splitAll p cs
      else match splitAll p cs with
        | [] => [[c]]
        | part :: parts => (c :: part) :: parts := rfl

theorem splitAll_ne_nil (p : Char → Bool) (cs : List Char) : splitAll p cs ≠ [] := by
  cases cs with
  | nil => exact List.cons_ne_nil _ _
  | cons c cs =>
    rw [splitAll_cons]
    split
    · simp
    · split <;> simp

theorem splitAll_of_forall {p : Char → Bool} {cs : List Char} (h : ∀ c ∈ cs, p c = false) :
    splitAll p cs = [cs] := by
  induction cs with
  | nil => rfl
  | cons c cs ih =>
    obtain ⟨hc, hcs⟩ := List.forall_mem_cons.mp h
    rw [splitAll_cons, hc, if_neg (by decide), ih hcs]

theorem splitAll_append_cons {p : Char → Bool} {c : Char} (hc : p c = true) (cs ds : List Char) :
    splitAll p (cs ++ c :: ds) = splitAll p cs ++ splitAll p ds := by
  induction cs with
  | nil =>
    rw [List.nil_append, splitAll_cons, hc]
    rfl
  | cons d cs ih =>
    rw [List.cons_append, splitAll_cons, splitAll_cons, ih]
    split
    · rfl
    · obtain ⟨part, parts, hs⟩ := List.exists_cons_of_ne_nil (splitAll_ne_nil p cs)
      rw [hs]
      rfl

theorem forall_of_mem_splitAll {p : Char → Bool} {cs part : List Char} (h : part ∈ splitAll p cs) :
    ∀ c ∈ part, p c = false := by
  induction cs generalizing part with
  | nil =>
    obtain rfl := List.mem_singleton.mp h
    simp
  | cons d cs ih =>
    rw [splitAll_cons] at h
    split at h
    · rcases List.mem_cons.mp h with rfl | h
      · simp
      · exact ih h
    · rename_i hd
      obtain ⟨first, more, hs⟩ := List.exists_cons_of_ne_nil (splitAll_ne_nil p cs)
      rw [hs] at h ih
      rcases List.mem_cons.mp h with rfl | h
      · exact List.forall_mem_cons.mpr ⟨eq_false_of_ne_true hd, ih List.mem_cons_self⟩
      · exact ih (List.mem_cons_of_mem _ h)

/-! ### Dot segments -/

theorem leavesEscapes_pathSet : LeavesEscapes pathSet := by decide

/-- What a character is encoded to is not taken for a dot. -/
theorem percentChar_cases {c : Char} (h : percentChar pathSet c ≠ [c]) :
    ∃ hi lo more, percentChar pathSet c = '%' :: hi :: lo :: more ∧ lo ≠ 'e' ∧
      (hi = '2' → lo ≠ 'E') := by
  have hlo : ∀ n < 16, Hex.upperDigit n ≠ 'e' := by decide
  have hdot : ∀ k < 256, Hex.upperDigit (k / 16) = '2' → Hex.upperDigit (k % 16) = 'E' → k = 0x2E := by
    decide +kernel
  have hnot : ¬ (decide (c.toNat < 0x80) && !pathSet c) = true := by
    intro hp
    exact h (by rw [percentChar, if_pos hp])
  obtain ⟨b, bs, hc, hstep⟩ := Utf8.step_encodeChar c
  refine ⟨_, _, bs.flatMap percentByte, by rw [percentChar, if_neg hnot, hc]; rfl,
    hlo _ (toNat_mod_lt b), fun hhi hE => ?_⟩
  -- Only a full stop has this byte, and it is not encoded.
  have hb := hdot b.toNat b.toNat_lt hhi hE
  have hmem : b ∈ Utf8.encodeChar c := by rw [hc]; exact List.mem_cons_self
  obtain ⟨-, hcb⟩ := Utf8.encodeChar_of_mem hmem (UInt8.lt_iff_toNat_lt.mpr (by rw [hb]; decide))
  obtain rfl : c = '.' := Char.toNat_inj.mp (hcb.trans hb)
  exact hnot (by decide)

theorem decodeDots_escape (e : Char) (rest : List Char) :
    decodeDots ('%' :: '2' :: e :: rest) =
      if e == 'e' || e == 'E' then '.' :: decodeDots rest else '%' :: '2' :: e :: rest := rfl

theorem decodeDots_percent {a b : Char} (rest : List Char) (h : a = '2' → b ≠ 'e' ∧ b ≠ 'E') :
    ∃ ds, decodeDots ('%' :: a :: b :: rest) = '%' :: ds := by
  by_cases ha : a = '2'
  · subst ha
    obtain ⟨he, hE⟩ := h rfl
    rw [decodeDots_escape, if_neg (by simp [he, hE])]
    exact ⟨_, rfl⟩
  · rw [decodeDots]
    · exact ⟨_, rfl⟩
    · rintro e rest' - h
      exact ha (List.cons.inj h).1

theorem decodeDots_cons_of_ne {c : Char} (h : c ≠ '%') (rest : List Char) :
    decodeDots (c :: rest) = c :: decodeDots rest := by
  rw [decodeDots]
  rintro e rest' hc -
  exact h hc

theorem percentEncode_cons (set : Char → Bool) (c : Char) (cs : List Char) :
    percentEncode set (c :: cs) = percentChar set c ++ percentEncode set cs := rfl

/-- An encoded text that begins with an encoded dot was written with one. -/
theorem percentEncode_eq_cons {cs rest : List Char} {c : Char} (hc : c ≠ '%')
    (h : percentEncode pathSet cs = c :: rest) :
    ∃ cs', cs = c :: cs' ∧ percentEncode pathSet cs' = rest := by
  cases cs with
  | nil => cases h
  | cons d cs =>
    rw [percentEncode_cons] at h
    by_cases hd : percentChar pathSet d = [d]
    · rw [hd] at h
      obtain ⟨rfl, hrest⟩ := List.cons.inj h
      exact ⟨cs, rfl, hrest⟩
    · obtain ⟨hi, lo, more, hchar, -⟩ := percentChar_cases hd
      rw [hchar] at h
      exact absurd (List.cons.inj h).1.symm hc

/-- A percent sign with no encoded dot behind it has none behind it either once that is encoded. -/
theorem decodeDots_percent_percentEncode {rest : List Char}
    (h : ∀ e rest', rest = '2' :: e :: rest' → e ≠ 'e' ∧ e ≠ 'E') :
    ∃ ds, decodeDots ('%' :: percentEncode pathSet rest) = '%' :: ds := by
  rcases hr : percentEncode pathSet rest with _ | ⟨a, _ | ⟨b, more⟩⟩
  · exact ⟨_, rfl⟩
  · exact ⟨_, by rw [decodeDots]; simp⟩
  · refine decodeDots_percent more fun ha => ?_
    subst ha
    obtain ⟨rest', rfl, hrest'⟩ := percentEncode_eq_cons (by decide) hr
    by_cases hb : b = '%'
    · subst hb
      decide
    · obtain ⟨rest'', rfl, -⟩ := percentEncode_eq_cons hb hrest'
      exact h b rest'' rfl

theorem ne_percent_of_dots {ds : List Char} (h : ∀ d ∈ ds, d = '.') (ds' : List Char) :
    ds ≠ '%' :: ds' := by
  rintro rfl
  exact absurd (h '%' List.mem_cons_self) (by decide)

/-- **Encoding does not make dots**: if an encoded segment stands for dots only, so does the segment. -/
theorem decodeDots_of_percentEncode {s ds : List Char}
    (h : decodeDots (percentEncode pathSet s) = ds) (hd : ∀ d ∈ ds, d = '.') : decodeDots s = ds := by
  -- The cases are those of the reader: an encoded dot, a percent sign with no dot behind it, and any
  -- other character. A percent sign that stays is in no text of dots.
  induction s using decodeDots.induct generalizing ds with
  | case1 e rest he ih =>
    have hchar : percentChar pathSet e = [e] := by
      rcases Bool.or_eq_true _ _ ▸ he with he | he <;> rw [eq_of_beq he] <;> rfl
    have hcons : percentEncode pathSet ('%' :: '2' :: e :: rest) =
        '%' :: '2' :: e :: percentEncode pathSet rest := by
      show '%' :: '2' :: (percentChar pathSet e ++ _) = _
      rw [hchar]
      rfl
    rw [hcons, decodeDots_escape, if_pos he] at h
    subst h
    rw [decodeDots_escape, if_pos he, ih rfl (List.forall_mem_cons.mp hd).2]
  | case2 e rest he =>
    have hne : e ≠ 'e' ∧ e ≠ 'E' := by simpa using he
    have hdigits : ∀ e' rest', '2' :: e :: rest = '2' :: e' :: rest' → e' ≠ 'e' ∧ e' ≠ 'E' := by
      intro e' rest' heq
      obtain ⟨rfl, -⟩ := List.cons.inj (List.cons.inj heq).2
      exact hne
    obtain ⟨ds', hds'⟩ := decodeDots_percent_percentEncode hdigits
    exact absurd (h.symm.trans hds') (ne_percent_of_dots hd ds')
  | case3 c rest hnot ih =>
    by_cases hc : percentChar pathSet c = [c]
    · rw [percentEncode_cons, hc, List.singleton_append] at h
      by_cases hp : c = '%'
      · subst hp
        obtain ⟨ds', hds'⟩ := decodeDots_percent_percentEncode fun e rest' hrest =>
          (hnot e rest' rfl hrest).elim
        exact absurd (h.symm.trans hds') (ne_percent_of_dots hd ds')
      · rw [decodeDots_cons_of_ne hp] at h
        subst h
        rw [decodeDots_cons_of_ne hp, ih rfl (List.forall_mem_cons.mp hd).2]
    · obtain ⟨hi, lo, more, hchar, he, hE⟩ := percentChar_cases hc
      obtain ⟨ds', hds'⟩ := decodeDots_percent (more ++ percentEncode pathSet rest) (a := hi) (b := lo)
        fun hhi => ⟨he, hE hhi⟩
      rw [percentEncode_cons, hchar] at h
      exact absurd (h.symm.trans hds') (ne_percent_of_dots hd ds')
  | case4 => exact h

/-! ### Segments -/

/-- **A segment in its canonical text.** -/
structure IsSegment (s : List Char) : Prop where
  isEncoded : IsEncoded pathSet s
  noSlash : ∀ c ∈ s, isSlash true c = false
  noSingleDot : isSingleDot s = false
  noDoubleDot : isDoubleDot s = false

theorem isSegment_nil : IsSegment [] := by
  constructor
  · simp [IsEncoded]
  · simp
  · decide
  · decide

theorem isSegment_percentEncode {s : List Char} (hs : ∀ c ∈ s, isSlash true c = false)
    (h₁ : isSingleDot s = false) (h₂ : isDoubleDot s = false) :
    IsSegment (percentEncode pathSet s) := by
  have hdigit : ∀ n < 16, isSlash true (Hex.upperDigit n) = false := by decide
  constructor
  · exact isEncoded_percentEncode leavesEscapes_pathSet s
  · intro c hc
    rcases mem_percentEncode hc with hc | rfl | ⟨n, hn, rfl⟩
    · exact hs c hc
    · decide
    · exact hdigit n hn
  · cases h : isSingleDot (percentEncode pathSet s) with
    | false => rfl
    | true =>
      have hs := decodeDots_of_percentEncode (eq_of_beq h) (by simp)
      rw [isSingleDot, hs] at h₁
      cases h₁
  · cases h : isDoubleDot (percentEncode pathSet s) with
    | false => rfl
    | true =>
      have hs := decodeDots_of_percentEncode (eq_of_beq h) (by simp)
      rw [isDoubleDot, hs] at h₂
      cases h₂

/-- **Dots are resolved into segments** in their canonical text. -/
theorem isSegment_of_mem_resolveDots {done parts : List (List Char)}
    (hd : ∀ s ∈ done, IsSegment s) (hp : ∀ s ∈ parts, ∀ c ∈ s, isSlash true c = false) :
    ∀ s ∈ resolveDots false done parts, IsSegment s := by
  induction parts generalizing done with
  | nil => exact hd
  | cons part parts ih =>
    obtain ⟨hpart, hparts⟩ := List.forall_mem_cons.mp hp
    have hd' : ∀ s ∈ (if isDoubleDot part then above false done
        else if isSingleDot part then done else done ++ [segmentText false part]), IsSegment s := by
      split
      · intro s hs
        exact hd s (List.dropLast_subset done hs)
      split
      · exact hd
      · intro s hs
        rcases List.mem_append.mp hs with hs | hs
        · exact hd s hs
        · obtain rfl := List.mem_singleton.mp hs
          exact isSegment_percentEncode hpart (eq_false_of_ne_true ‹_›) (eq_false_of_ne_true ‹_›)
    rw [resolveDots]
    split
    · intro s hs
      rcases List.mem_append.mp hs with hs | hs
      · exact hd' s hs
      · obtain rfl := List.mem_singleton.mp hs
        exact isSegment_nil
    · exact ih hd' hparts

theorem resolveDots_ne_nil {done parts : List (List Char)} (h : parts ≠ []) :
    resolveDots false done parts ≠ [] := by
  induction parts generalizing done with
  | nil => exact absurd rfl h
  | cons part parts ih =>
    rw [resolveDots]
    split
    · simp
    · rename_i hlast
      cases parts with
      | cons next parts => exact ih (by simp)
      | nil =>
        -- The last part is no dot segment, so that it stands at the end.
        simp only [List.isEmpty_nil, Bool.true_and, Bool.or_eq_true, not_or] at hlast
        rw [resolveDots, if_neg hlast.1, if_neg hlast.2]
        simp

/-- **Canonical segments stay as they are**, before others too. -/
theorem resolveDots_append {done before parts : List (List Char)} (h : ∀ s ∈ before, IsSegment s) :
    resolveDots false done (before ++ parts) = resolveDots false (done ++ before) parts := by
  induction before generalizing done with
  | nil => simp
  | cons part before ih =>
    obtain ⟨hpart, hbefore⟩ := List.forall_mem_cons.mp h
    have htext : segmentText false part = part := hpart.isEncoded.percentEncode_eq
    simp only [List.cons_append, resolveDots, hpart.noSingleDot, hpart.noDoubleDot, Bool.or_self,
      Bool.and_false, Bool.false_eq_true, if_false, htext, ih hbefore, List.append_assoc,
      List.nil_append]

theorem resolveDots_of_isSegment {done parts : List (List Char)} (h : ∀ s ∈ parts, IsSegment s) :
    resolveDots false done parts = done ++ parts := by
  have hparts : resolveDots false done (parts ++ []) = resolveDots false (done ++ parts) [] :=
    resolveDots_append h
  rwa [List.append_nil] at hparts

/-! ### What follows an authority -/

/-- What stands behind a mark, if it is stated. -/
def marked (mark : Char) : Option (List Char) → List Char
  | some cs => mark :: cs
  | none => []

/-- What follows an authority, as it is written. -/
def Tail.written (t : Tail) : List Char :=
  pathText t.path ++ (marked '?' t.query ++ marked '#' t.fragment)

/-- **What follows an authority, in its canonical parts.** -/
structure Tail.IsNormal (t : Tail) : Prop where
  path : ∃ parts, t.path = .segments parts ∧ parts ≠ [] ∧ ∀ s ∈ parts, IsSegment s
  query : ∀ q ∈ t.query, IsEncoded specialQuerySet q
  fragment : ∀ f ∈ t.fragment, IsEncoded fragmentSet f

theorem isEncoded_parseQuery (path : UrlPath) (cs : List Char) :
    (parseQuery true path cs).path = path ∧
      (∀ q ∈ (parseQuery true path cs).query, IsEncoded specialQuerySet q) ∧
      ∀ f ∈ (parseQuery true path cs).fragment, IsEncoded fragmentSet f := by
  have hfragment : ∀ cs : List Char, ∀ f ∈ parseFragment cs, IsEncoded fragmentSet f := by
    intro cs f hf
    unfold parseFragment at hf
    split at hf
    · cases hf
      exact isEncoded_percentEncode (by decide) _
    · cases hf
  unfold parseQuery
  split
  · refine ⟨rfl, ?_, hfragment _⟩
    rintro q ⟨⟩
    exact isEncoded_percentEncode (by decide) _
  · refine ⟨rfl, ?_, hfragment _⟩
    rintro q ⟨⟩

/-- **What follows an authority is read into canonical parts.** -/
theorem isNormal_parseTail (cs : List Char) : (parseTail true cs).IsNormal := by
  have htail : parseTail true cs = parseSegments true [] (dropSlash true cs) := rfl
  rw [htail, parseSegments]
  obtain ⟨hpath, hquery, hfragment⟩ := isEncoded_parseQuery
    (.segments (resolveDots false [] (splitAll (isSlash true)
      ((dropSlash true cs).takeWhile (!endsPath ·))))) ((dropSlash true cs).dropWhile (!endsPath ·))
  refine ⟨⟨_, hpath, resolveDots_ne_nil (splitAll_ne_nil _ _), ?_⟩, hquery, hfragment⟩
  exact isSegment_of_mem_resolveDots (by simp) fun s hs => forall_of_mem_splitAll hs

namespace Tail.IsNormal

variable {t : Tail}

theorem parseQuery_marked (h : t.IsNormal) :
    parseQuery true t.path (marked '?' t.query ++ marked '#' t.fragment) = t := by
  rcases t with ⟨path, query, fragment⟩
  obtain ⟨-, hquery, hfragment⟩ := h
  have hmark : parseFragment (marked '#' fragment) = fragment := by
    cases fragment with
    | none => rfl
    | some f => exact congrArg some (hfragment f rfl).percentEncode_eq
  cases query with
  | none =>
    have hstart : parseQuery true path (marked '#' fragment) =
        ⟨path, none, parseFragment (marked '#' fragment)⟩ := by
      cases fragment <;> rfl
    rw [marked, List.nil_append, hstart, hmark]
  | some q =>
    have hq := hquery q rfl
    have hstop : ∀ c ∈ q, (c != '#') = true := by
      intro c hc
      have hne : c ≠ '#' := by
        rintro rfl
        exact hq.not_mem (by decide) hc
      simpa using hne
    have hnext : ∀ c ∈ (marked '#' fragment).head?, (c != '#') = false := by
      cases fragment <;> simp [marked]
    obtain ⟨htake, hdrop⟩ := takeWhile_append_stop hstop hnext
    show (⟨path, some (percentEncode specialQuerySet
        ((q ++ marked '#' fragment).takeWhile (· != '#'))),
      parseFragment ((q ++ marked '#' fragment).dropWhile (· != '#'))⟩ : Tail) = _
    rw [htake, hdrop, hmark, hq.percentEncode_eq]

theorem not_endsPath_of_isSegment {s : List Char} (h : IsSegment s) : ∀ c ∈ s, endsPath c = false := by
  intro c hc
  have hquery : c ≠ '?' := by
    rintro rfl
    exact h.isEncoded.not_mem (by decide) hc
  have hfragment : c ≠ '#' := by
    rintro rfl
    exact h.isEncoded.not_mem (by decide) hc
  simp [endsPath, hquery, hfragment]

/-- The text of segments, behind its first slash. -/
theorem pathText_cons {s : List Char} {parts : List (List Char)}
    (h : ∀ part ∈ s :: parts, IsSegment part) :
    ∃ text, pathText (.segments (s :: parts)) = '/' :: text ∧ (∀ c ∈ text, endsPath c = false) ∧
      splitAll (isSlash true) text = s :: parts := by
  induction parts generalizing s with
  | nil =>
    have hs := h s List.mem_cons_self
    exact ⟨s, by simp [pathText], not_endsPath_of_isSegment hs, splitAll_of_forall hs.noSlash⟩
  | cons next parts ih =>
    obtain ⟨hs, hparts⟩ := List.forall_mem_cons.mp h
    obtain ⟨text, htext, hend, hsplit⟩ := ih hparts
    refine ⟨s ++ '/' :: text, ?_, ?_, ?_⟩
    · show '/' :: s ++ pathText (.segments (next :: parts)) = _
      rw [htext]
      rfl
    · intro c hc
      rcases List.mem_append.mp hc with hc | hc
      · exact not_endsPath_of_isSegment hs c hc
      · rcases List.mem_cons.mp hc with rfl | hc
        · decide
        · exact hend c hc
    · rw [splitAll_append_cons (by decide), hsplit, splitAll_of_forall hs.noSlash]
      rfl

/-- **Canonical parts are read as they were written.** -/
theorem parseTail_written (h : t.IsNormal) : parseTail true t.written = t := by
  obtain ⟨parts, hpath, hne, hparts⟩ := h.path
  obtain ⟨s, parts, rfl⟩ := List.exists_cons_of_ne_nil hne
  obtain ⟨text, htext, hend, hsplit⟩ := pathText_cons hparts
  have hstop : ∀ c ∈ text, (!endsPath c) = true := fun c hc => by rw [hend c hc]; rfl
  have hnext : ∀ c ∈ (marked '?' t.query ++ marked '#' t.fragment).head?, (!endsPath c) = false := by
    cases t.query <;> cases t.fragment <;> simp [marked, endsPath]
  obtain ⟨htake, hdrop⟩ := takeWhile_append_stop hstop hnext
  have htail : parseTail true t.written =
      parseSegments true [] (text ++ (marked '?' t.query ++ marked '#' t.fragment)) := by
    rw [Tail.written, hpath, htext]
    rfl
  rw [htail, parseSegments, htake, hdrop, hsplit, resolveDots_of_isSegment hparts, List.nil_append, ← hpath,
    h.parseQuery_marked]

/-- What follows an authority begins with a slash. -/
theorem written_eq_cons (h : t.IsNormal) : ∃ rest, t.written = '/' :: rest := by
  obtain ⟨parts, hpath, hne, hparts⟩ := h.path
  obtain ⟨s, parts, rfl⟩ := List.exists_cons_of_ne_nil hne
  exact ⟨_, by rw [Tail.written, hpath]; rfl⟩

end Tail.IsNormal

end ReleasePublisher.Url

import ReleasePublisher.Proofs.Url.Base
import ReleasePublisher.Proofs.Url.Escapes

/-!
# Endpoints below a host

An endpoint with a name in it is asked for below a base address that is a host alone. The path of its
address has the segments of the endpoint, and the name is one of them, exactly where the name has none of
the characters that mean something else in an address, and states no escape.

## Main definitions

* `Url.IsHostBase base`: a base address without path, query and fragment
* `Url.withName before name after`: the text of segments around a name
* `Url.Tail.Names`: the name is one segment of a path, and there is no query
* `Url.arriving name after`: what cleaning leaves of a name in an address

## Main results

* `Url.IsHostBase.tail_of_parse_append`: what follows the authority of an endpoint's address
* `Url.names_iff`, `Url.IsHostBase.names_iff`: where a name is one segment of a path
* `Url.Tail.Names.injective`: different names are different segments
-/

namespace ReleasePublisher.Url

open Text Utf8

/-! ### Addresses below a host -/

/-- **A base address that is a host alone**, as `http://host:port` is. -/
structure IsHostBase (base : String) : Prop where
  text : ∃ authority, base.toList = "http://".toList ++ authority ∧
    ∀ c ∈ authority, isEdge c = false ∧ endsAuthority true c = false
  read : ∃ u, parse base = .ok u

theorem isScheme_http : IsScheme ['h', 't', 't', 'p'] where
  head := by decide
  chars := by
    intro c hc
    obtain rfl | rfl | rfl : c = 'h' ∨ c = 't' ∨ c = 'p' := by simpa using hc
    all_goals decide

/-- What follows a port that is read begins with a backslash that stands in its text. -/
theorem parsePort_rest {scheme cs more : List Char} {port : Option Nat} (hcs : BeginsPort cs)
    (hback : '\\' ∉ cs) (h : parsePort scheme cs = .ok (port, more)) : more = [] := by
  rcases hcs with rfl | ⟨digits, rfl⟩
  · exact (Prod.mk.inj (Except.ok.inj h)).2.symm
  · have hmore : digits.dropWhile Char.isDigit = more := by
      simp only [parsePort] at h
      split at h
      · cases h
      · exact (Prod.mk.inj (Except.ok.inj h)).2
    rcases parsePort_colon h with hnil | hhead
    · exact hmore.symm.trans hnil
    · refine absurd (List.mem_cons_of_mem _ ?_) hback
      exact (List.dropWhile_suffix _).subset (List.mem_of_mem_head? hhead)

/-- The slashes before an authority are not part of it. -/
theorem dropWhile_slashes {cs rest : List Char} (hne : cs ≠ [])
    (hcs : ∀ c ∈ cs, endsAuthority true c = false) :
    ('/' :: '/' :: (cs ++ rest)).dropWhile (isSlash true) = cs ++ rest := by
  obtain ⟨c, cs, rfl⟩ := List.exists_cons_of_ne_nil hne
  have hc : isSlash true c = false := (Bool.or_eq_false_iff.mp (hcs c List.mem_cons_self)).1
  have hslash : isSlash true '/' = true := rfl
  rw [List.dropWhile_cons_of_pos hslash, List.dropWhile_cons_of_pos hslash, List.cons_append,
    List.dropWhile_cons_of_neg (by rw [hc]; decide)]

namespace IsHostBase

variable {base : String}

/-- The authority of a host alone is not empty. -/
theorem exists_authority (h : IsHostBase base) :
    ∃ authority, base.toList = "http://".toList ++ authority ∧ authority ≠ [] ∧
      ∀ c ∈ authority, isEdge c = false ∧ endsAuthority true c = false := by
  obtain ⟨⟨authority, htext, hchars⟩, u, hu⟩ := h
  refine ⟨authority, htext, ?_, hchars⟩
  rintro rfl
  have herror : parse "http://" = .error .emptyHost := by decide
  rw [← String.toList_inj.mp (htext.trans (List.append_nil _)), hu] at herror
  cases herror

/-- It ends in no slash, and in no blank. -/
theorem trimEndChar_eq (h : IsHostBase base) :
    trimEndChar '/' base = base ∧ ∀ c ∈ base.toList.getLast?, isEdge c = false := by
  obtain ⟨authority, htext, hne, hchars⟩ := h.exists_authority
  obtain ⟨init, c, rfl⟩ := (List.eq_nil_or_concat authority).resolve_left hne
  rw [List.concat_eq_append] at htext hchars
  obtain ⟨hedge, hend⟩ := hchars c (by simp)
  have hslash : (c == '/') = false := by
    cases hc : c == '/' with
    | false => rfl
    | true =>
      rw [eq_of_beq hc] at hend
      cases hend
  constructor
  · rw [← String.toList_inj, trimEndChar, String.toList_ofList, htext, ← List.append_assoc,
      dropEndWhile_append_cons (p := (· == '/')) hslash]
    rfl
  · rw [htext, ← List.append_assoc, List.getLast?_concat]
    rintro _ ⟨⟩
    exact hedge

/-- **What follows the authority** of an endpoint's address is the endpoint. -/
theorem tail_of_parse_append (h : IsHostBase base) {endpoint : String} {more : List Char} {v : Url}
    (hend : endpoint.toList = '/' :: more) (hv : parse (trimEndChar '/' base ++ endpoint) = .ok v) :
    v.tail = parseTail true ('/' :: cleanEnd more) := by
  obtain ⟨authority, htext, hne, hchars⟩ := h.exists_authority
  have hends : ∀ c ∈ authority, endsAuthority true c = false := fun c hc => (hchars c hc).2
  -- Cleaning leaves the base alone.
  have hclean : cleanEnd ('/' :: '/' :: (authority ++ '/' :: more)) =
      '/' :: '/' :: (authority ++ '/' :: cleanEnd more) := by
    have hvisible : ∀ c ∈ '/' :: '/' :: authority, isEdge c = false := by
      simp only [List.forall_mem_cons]
      exact ⟨by decide, by decide, fun c hc => (hchars c hc).1⟩
    have happend := cleanEnd_append_cons (c := '/') (by decide) ('/' :: '/' :: authority) more
    rwa [filter_isKept hvisible] at happend
  have hwhole : (trimEndChar '/' base ++ endpoint).toList =
      ['h', 't', 't', 'p'] ++ ':' :: '/' :: '/' :: (authority ++ '/' :: more) := by
    rw [h.trimEndChar_eq.1, String.toList_append, htext, hend, List.append_assoc]
    rfl
  obtain ⟨rest, hsplit, hrest⟩ := parse_eq_ok hv
  rw [hwhole, isScheme_http.splitScheme?_clean, hclean] at hsplit
  obtain ⟨hscheme, rfl⟩ := Prod.mk.inj (Option.some.inj hsplit)
  have hauth : HasAuthority v.scheme := by
    rw [← hscheme]
    exact ⟨by decide, by decide⟩
  rw [parseAfterScheme_of_hasAuthority hauth, dropWhile_slashes hne hends] at hrest
  -- The authority ends at the slash, and its port where it ends.
  have hstop : ∀ c ∈ ('/' :: cleanEnd more).head?, (!endsAuthority true c) = false := by
    rintro c ⟨⟩
    rfl
  obtain ⟨htake, hdrop⟩ := takeWhile_append_stop
    (fun c hc => by rw [hends c hc]; rfl : ∀ c ∈ authority, (!endsAuthority true c) = true) hstop
  obtain ⟨host, port, more', -, hport, heq⟩ := parseAuthority_ok hauth.1 hrest
  rw [authorityOf, htake] at hport
  obtain ⟨before, hsuffix, hbegins⟩ := partsOf_suffix authority
  have hback : '\\' ∉ (partsOf authority).portText := by
    intro hmem
    have hin : '\\' ∈ authority := by
      rw [hsuffix]
      simp [hmem]
    cases hends _ hin
  obtain rfl := parsePort_rest hbegins hback hport
  rw [hdrop] at heq
  rw [heq]
  rfl

end IsHostBase

/-! ### A name in a path -/

/-- The text of segments around a name, behind the first slash. -/
def withName (before : List (List Char)) (name : List Char) (after : List (List Char)) : List Char :=
  before.flatMap (· ++ ['/']) ++ (name ++ after.flatMap ('/' :: ·))

/-- **The name is one segment** of the path, between these others, and there is no query. -/
structure Tail.Names (t : Tail) (before : List (List Char)) (name : List Char)
    (after : List (List Char)) : Prop where
  path : ∃ segment, t.path = .segments (before ++ segment :: after) ∧ '/' ∉ segment ∧
    percentDecode segment = encodeChars name
  query : t.query = none

section Splitting

variable {before after : List (List Char)}

theorem splitAll_before (h : ∀ s ∈ before, IsSegment s) (rest : List Char) :
    splitAll (isSlash true) (before.flatMap (· ++ ['/']) ++ rest) =
      before ++ splitAll (isSlash true) rest := by
  induction before with
  | nil => rfl
  | cons s before ih =>
    obtain ⟨hs, hbefore⟩ := List.forall_mem_cons.mp h
    rw [List.flatMap_cons, List.append_assoc, List.append_assoc, List.singleton_append,
      splitAll_append_cons (by decide), splitAll_of_forall hs.noSlash, ih hbefore]
    rfl

theorem splitAll_after (h : ∀ s ∈ after, IsSegment s) {name : List Char}
    (hname : ∀ c ∈ name, isSlash true c = false) :
    splitAll (isSlash true) (name ++ after.flatMap ('/' :: ·)) = name :: after := by
  induction after generalizing name with
  | nil =>
    rw [List.flatMap_nil, List.append_nil]
    exact splitAll_of_forall hname
  | cons s after ih =>
    obtain ⟨hs, hafter⟩ := List.forall_mem_cons.mp h
    rw [List.flatMap_cons, List.cons_append, splitAll_append_cons (by decide),
      splitAll_of_forall hname, ih hafter hs.noSlash]
    rfl

/-- Segments and the slashes between them end no path. -/
theorem not_endsPath_flatMap {segments : List (List Char)} (h : ∀ s ∈ segments, IsSegment s)
    {join : List Char → List Char} (hjoin : ∀ s, ∀ c ∈ join s, c = '/' ∨ c ∈ s) :
    ∀ c ∈ segments.flatMap join, endsPath c = false := by
  intro c hc
  obtain ⟨s, hs, hc⟩ := List.mem_flatMap.mp hc
  rcases hjoin s c hc with rfl | hc
  · decide
  · exact Tail.IsNormal.not_endsPath_of_isSegment (h s hs) c hc

/-- A path is read up to the mark that ends it. -/
theorem parseTail_before (hbefore : ∀ s ∈ before, IsSegment s) {text rest : List Char}
    (htext : ∀ c ∈ text, endsPath c = false) (hrest : ∀ c ∈ rest.head?, endsPath c = true) :
    parseTail true ('/' :: (before.flatMap (· ++ ['/']) ++ (text ++ rest))) =
      parseQuery true (.segments (resolveDots false before (splitAll (isSlash true) text))) rest := by
  have hstart : ∀ c ∈ before.flatMap (· ++ ['/']), endsPath c = false :=
    not_endsPath_flatMap hbefore fun s c hc => (List.mem_append.mp hc).symm.imp_left
      List.mem_singleton.mp
  have hpath : ∀ c ∈ before.flatMap (· ++ ['/']) ++ text, (!endsPath c) = true := by
    intro c hc
    rw [(List.mem_append.mp hc).elim (hstart c) (htext c)]
    rfl
  have hstop : ∀ c ∈ rest.head?, (!endsPath c) = false := by
    intro c hc
    rw [hrest c hc]
    rfl
  obtain ⟨htake, hdrop⟩ := takeWhile_append_stop hpath hstop
  have htail : parseTail true ('/' :: (before.flatMap (· ++ ['/']) ++ (text ++ rest))) =
      parseSegments true [] (before.flatMap (· ++ ['/']) ++ text ++ rest) := by
    rw [List.append_assoc]
    rfl
  rw [htail, parseSegments, htake, hdrop, splitAll_before hbefore, resolveDots_append hbefore]
  rfl

/-- **A name is read** up to a mark that ends the path, or with all that follows it. -/
theorem parseTail_withName (hbefore : ∀ s ∈ before, IsSegment s) (hafter : ∀ s ∈ after, IsSegment s)
    {name : List Char} (hname : ∀ c ∈ name, isSlash true c = false) :
    ((∀ c ∈ name, endsPath c = false) ∧ parseTail true ('/' :: withName before name after) =
      ⟨.segments (resolveDots false before (name :: after)), none, none⟩) ∨
    ∃ start c more, name = start ++ c :: more ∧ endsPath c = true ∧
      (parseTail true ('/' :: withName before name after)).path =
        .segments (resolveDots false before [start]) := by
  -- The first mark in the name, if there is one, is the first mark of all.
  cases hfind : name.find? endsPath with
  | none =>
    have hmarks : ∀ c ∈ name, endsPath c = false := by simpa using List.find?_eq_none.mp hfind
    have hrest : ∀ c ∈ after.flatMap ('/' :: ·), endsPath c = false :=
      not_endsPath_flatMap hafter fun s c hc => List.mem_cons.mp hc
    have htext : ∀ c ∈ name ++ after.flatMap ('/' :: ·), endsPath c = false := by
      intro c hc
      exact (List.mem_append.mp hc).elim (hmarks c) (hrest c)
    have hread := parseTail_before hbefore htext (by simp : ∀ c ∈ [].head?, endsPath c = true)
    rw [List.append_nil, splitAll_after hafter hname] at hread
    exact .inl ⟨hmarks, hread⟩
  | some c =>
    obtain ⟨hc, start, more, rfl, hstart⟩ := List.find?_eq_some_iff_append.mp hfind
    have hmarks : ∀ d ∈ start, endsPath d = false := by simpa using hstart
    have hsegment : ∀ d ∈ start, isSlash true d = false := fun d hd =>
      hname d (List.mem_append_left _ hd)
    have hread := parseTail_before hbefore hmarks
      (by simpa using hc : ∀ d ∈ (c :: (more ++ after.flatMap ('/' :: ·))).head?, endsPath d = true)
    rw [splitAll_of_forall hsegment] at hread
    refine .inr ⟨start, c, more, rfl, hc, ?_⟩
    rw [withName, List.append_assoc, List.cons_append, hread, (isEncoded_parseQuery _ _).1]

end Splitting

/-- Dots add no segment, and take at most some away. -/
theorem exists_resolveDots_of_dots {done rest : List (List Char)} {name : List Char}
    (hrest : ∀ s ∈ rest, IsSegment s) (hdots : (isDoubleDot name || isSingleDot name) = true) :
    ∃ kept : List (List Char), kept.length ≤ done.length ∧
      resolveDots false done (name :: rest) =
        if rest.isEmpty then kept ++ [[]] else kept ++ rest := by
  refine ⟨if isDoubleDot name then above false done else done, ?_, ?_⟩
  · split
    · rw [above, Bool.false_and, if_neg (by decide), List.length_dropLast]
      exact Nat.sub_le _ _
    · exact Nat.le_refl _
  · have hsingle : isDoubleDot name = false → isSingleDot name = true := by
      intro hdouble
      rwa [hdouble, Bool.false_or] at hdots
    rw [resolveDots, hdots, Bool.and_true, ← resolveDots_of_isSegment hrest]
    cases hdouble : isDoubleDot name with
    | true => rfl
    | false =>
      rw [hsingle hdouble]
      rfl

/-- Another name is one more segment. -/
theorem resolveDots_of_not_dots {done rest : List (List Char)} {name : List Char}
    (hrest : ∀ s ∈ rest, IsSegment s) (hdouble : isDoubleDot name = false)
    (hsingle : isSingleDot name = false) :
    resolveDots false done (name :: rest) = done ++ percentEncode pathSet name :: rest := by
  simp only [resolveDots, hdouble, hsingle, Bool.or_self, Bool.and_false, Bool.false_eq_true,
    if_false, resolveDots_of_isSegment hrest, List.append_assoc, List.singleton_append]
  rfl

/-- A segment that stands in the place of a name is that of the name, or is left by its dots. -/
theorem resolveDots_cons_eq {done rest after : List (List Char)} {name segment : List Char}
    (hrest : ∀ s ∈ rest, IsSegment s) (hlen : rest.length ≤ after.length)
    (h : resolveDots false done (name :: rest) = done ++ segment :: after) :
    segment = [] ∨ segment = percentEncode pathSet name := by
  by_cases hdots : (isDoubleDot name || isSingleDot name) = true
  · refine .inl ?_
    obtain ⟨kept, hkept, hresolved⟩ := exists_resolveDots_of_dots hrest hdots
    rw [hresolved] at h
    have hlength := congrArg List.length h
    cases rest with
    | nil =>
      have hafter : after = [] := by
        refine List.eq_nil_of_length_eq_zero ?_
        simp at hlength
        omega
      subst hafter
      exact (List.cons.inj (List.append_inj' h rfl).2).1.symm
    | cons s rest =>
      simp at hlength hlen
      omega
  · refine .inr ?_
    obtain ⟨hdouble, hsingle⟩ := Bool.or_eq_false_iff.mp (eq_false_of_ne_true hdots)
    rw [resolveDots_of_not_dots hrest hdouble hsingle] at h
    exact (List.cons.inj (List.append_cancel_left h)).1.symm

/-- A part of a name is the whole name if its segment stands for it. What is encoded has no more bytes than
the part, and fewer where that states an escape. -/
theorem eq_of_percentDecode_segment {start name : List Char} (hstart : start.Sublist name)
    (h : percentDecode (percentEncode pathSet start) = encodeChars name) :
    start = name ∧ statesEscape name = false := by
  rw [percentDecode_percentEncode] at h
  obtain ⟨hle, hlt⟩ := length_percentDecode_le start
  rw [h] at hle hlt
  obtain rfl := eq_of_sublist_of_length_le hstart hle
  refine ⟨rfl, ?_⟩
  cases hescape : statesEscape start with
  | false => rfl
  | true => exact absurd (hlt hescape) (Nat.lt_irrefl _)

/-- A name without marks, escapes and dots is read as one segment. -/
theorem names_of_plain {before after : List (List Char)} {name : List Char}
    (hbefore : ∀ s ∈ before, IsSegment s) (hafter : ∀ s ∈ after, IsSegment s)
    (hslash : ∀ c ∈ name, isSlash true c = false) (hdots : name ≠ ['.'] ∧ name ≠ ['.', '.'])
    (hmarks : ∀ c ∈ name, endsPath c = false) (hescape : statesEscape name = false) :
    (parseTail true ('/' :: withName before name after)).Names before name after := by
  have hdecode : decodeDots name = name := decodeDots_of_not_statesEscape hescape
  have hsingle : isSingleDot name = false := by
    rw [isSingleDot, hdecode]
    simpa using hdots.1
  have hdouble : isDoubleDot name = false := by
    rw [isDoubleDot, hdecode]
    simpa using hdots.2
  have hsegment := isSegment_percentEncode hslash hsingle hdouble
  rcases parseTail_withName hbefore hafter hslash with
    ⟨-, htail⟩ | ⟨start, c, more, hstart, hc, -⟩
  · rw [htail]
    refine ⟨⟨percentEncode pathSet name, ?_, fun hin => ?_, ?_⟩, rfl⟩
    · exact congrArg UrlPath.segments (resolveDots_of_not_dots hafter hdouble hsingle)
    · have hin := hsegment.noSlash _ hin
      cases hin
    · rw [percentDecode_percentEncode, percentDecode_of_not_statesEscape hescape]
  · rw [hmarks c (by rw [hstart]; simp)] at hc
    cases hc

/-- **Where a name is one segment of a path.** What arrives of it in an address is the name itself, none
of its characters ends a path, and it states no escape. -/
theorem names_iff {before after : List (List Char)} {name arrived : List Char}
    (hbefore : ∀ s ∈ before, IsSegment s) (hafter : ∀ s ∈ after, IsSegment s)
    (hslash : ∀ c ∈ name, isSlash true c = false) (hne : name ≠ [])
    (hdots : name ≠ ['.'] ∧ name ≠ ['.', '.']) (harrived : arrived.Sublist name) :
    (parseTail true ('/' :: withName before arrived after)).Names before name after ↔
      arrived = name ∧ (∀ c ∈ name, endsPath c = false) ∧ statesEscape name = false := by
  constructor
  · rintro ⟨⟨segment, hpath, -, hdecode⟩, -⟩
    -- What stands before a mark is a part of the name too, so it would be all of it.
    have hwhole : ∀ {start : List Char}, start.Sublist name →
        segment = [] ∨ segment = percentEncode pathSet start →
        start = name ∧ statesEscape name = false := by
      rintro start hstart (rfl | rfl)
      · exact absurd (encodeChars_eq_nil hdecode.symm) hne
      · exact eq_of_percentDecode_segment hstart hdecode
    have harrivedSlash : ∀ c ∈ arrived, isSlash true c = false := fun c hc =>
      hslash c (harrived.subset hc)
    rcases parseTail_withName hbefore hafter harrivedSlash with
      ⟨hmarks, htail⟩ | ⟨start, c, more, hstart, -, hcut⟩
    · rw [htail] at hpath
      obtain ⟨rfl, hescape⟩ := hwhole harrived
        (resolveDots_cons_eq hafter (Nat.le_refl _) (UrlPath.segments.inj hpath))
      exact ⟨rfl, hmarks, hescape⟩
    · rw [hcut] at hpath
      have hsub : (start ++ c :: more).Sublist name := hstart ▸ harrived
      obtain ⟨rfl, -⟩ := hwhole ((List.sublist_append_left start (c :: more)).trans hsub)
        (resolveDots_cons_eq (by simp) (Nat.zero_le _) (UrlPath.segments.inj hpath))
      have hlength := hsub.length_le
      simp only [List.length_append, List.length_cons] at hlength
      omega
  · rintro ⟨rfl, hmarks, hescape⟩
    exact names_of_plain hbefore hafter hslash hdots hmarks hescape

/-! ### A name in the address of an endpoint -/

/-- What arrives of a name: blanks at its end are dropped where nothing follows it. -/
def arriving (name : List Char) (after : List (List Char)) : List Char :=
  if after.isEmpty then cleanEnd name else name.filter isKept

theorem sublist_arriving (name : List Char) (after : List (List Char)) :
    (arriving name after).Sublist name := by
  unfold arriving
  split
  · obtain ⟨dropped, hname, -⟩ := dropEndWhile_append_dropped isEdge name
    refine List.filter_sublist.trans ?_
    conv => rhs; rw [hname]
    exact List.sublist_append_left _ _
  · exact List.filter_sublist

/-- **A name arrives as it is** if it has no tabs and line ends, and no blank at its end where nothing
follows it. -/
theorem arriving_eq_iff (name : List Char) (after : List (List Char)) :
    arriving name after = name ↔
      (∀ c ∈ name, isKept c = true) ∧ (after = [] → ∀ c ∈ name.getLast?, isEdge c = false) := by
  unfold arriving
  split
  · rename_i hafter
    have hnil : after = [] := List.isEmpty_iff.mp hafter
    constructor
    · intro h
      -- Nothing is left out, so that nothing is dropped at the end.
      have hdrop : dropEndWhile isEdge name = name := by
        obtain ⟨dropped, hname, -⟩ := dropEndWhile_append_dropped isEdge name
        have hprefix : dropEndWhile isEdge name <+: name := ⟨dropped, hname.symm⟩
        refine hprefix.eq_of_length_le ?_
        calc name.length = (cleanEnd name).length := by rw [h]
          _ ≤ (dropEndWhile isEdge name).length := List.filter_sublist.length_le
      rw [cleanEnd, hdrop] at h
      refine ⟨List.filter_eq_self.mp h, fun _ c hc => ?_⟩
      rw [← hdrop, dropEndWhile, List.getLast?_reverse] at hc
      have hhead := List.head?_dropWhile_not isEdge name.reverse
      rw [Option.mem_def.mp hc] at hhead
      simpa using hhead
    · rintro ⟨hkept, hlast⟩
      rw [cleanEnd, dropEndWhile_isEdge (hlast hnil)]
      exact List.filter_eq_self.mpr hkept
  · rename_i hafter
    have hne : after ≠ [] := fun hnil => hafter (by rw [hnil]; rfl)
    rw [List.filter_eq_self]
    exact ⟨fun h => ⟨h, fun hnil => absurd hnil hne⟩, fun h => h.1⟩

/-- Segments are visible. -/
theorem IsSegment.isEdge_eq {s : List Char} (h : IsSegment s) : ∀ c ∈ s, isEdge c = false :=
  isEdge_of_isEncoded (by decide) h.isEncoded

theorem cleanEnd_withName {before after : List (List Char)} {name : List Char}
    (hbefore : ∀ s ∈ before, IsSegment s) (hafter : ∀ s ∈ after, IsSegment s) :
    cleanEnd (withName before name after) = withName before (arriving name after) after := by
  have hstart : ∀ rest, cleanEnd (before.flatMap (· ++ ['/']) ++ rest) =
      before.flatMap (· ++ ['/']) ++ cleanEnd rest := by
    intro rest
    induction before with
    | nil => rfl
    | cons s before ih =>
      obtain ⟨hs, hbefore⟩ := List.forall_mem_cons.mp hbefore
      rw [List.flatMap_cons, List.append_assoc, List.append_assoc, List.singleton_append,
        cleanEnd_append_cons (by decide), filter_isKept hs.isEdge_eq, ih hbefore, List.append_assoc,
        List.append_assoc]
      rfl
  have hend : ∀ name, cleanEnd (name ++ after.flatMap ('/' :: ·)) =
      arriving name after ++ after.flatMap ('/' :: ·) := by
    intro name
    induction after generalizing name with
    | nil =>
      rw [List.flatMap_nil, List.append_nil, List.append_nil]
      rfl
    | cons s after ih =>
      obtain ⟨hs, hafter⟩ := List.forall_mem_cons.mp hafter
      have harrives : arriving s after = s :=
        (arriving_eq_iff s after).mpr ⟨fun c hc => isKept_of_not_isEdge (hs.isEdge_eq c hc),
          fun _ c hc => hs.isEdge_eq c (List.mem_of_getLast? hc)⟩
      rw [List.flatMap_cons, List.cons_append, cleanEnd_append_cons (by decide), ih hafter, harrives]
      rfl
  rw [withName, hstart, hend]
  rfl

/-- **Where a name is one segment of the path** of an endpoint's address. -/
theorem IsHostBase.names_iff {base endpoint : String} {before after : List (List Char)}
    {name : List Char} {v : Url} (h : IsHostBase base) (hbefore : ∀ s ∈ before, IsSegment s)
    (hafter : ∀ s ∈ after, IsSegment s) (hslash : ∀ c ∈ name, isSlash true c = false)
    (hne : name ≠ []) (hdots : name ≠ ['.'] ∧ name ≠ ['.', '.'])
    (hend : endpoint.toList = '/' :: withName before name after)
    (hv : parse (trimEndChar '/' base ++ endpoint) = .ok v) :
    v.tail.Names before name after ↔
      ((∀ c ∈ name, isKept c = true) ∧ (after = [] → ∀ c ∈ name.getLast?, isEdge c = false)) ∧
        (∀ c ∈ name, endsPath c = false) ∧ statesEscape name = false := by
  rw [h.tail_of_parse_append hend hv, cleanEnd_withName hbefore hafter,
    Url.names_iff hbefore hafter hslash hne hdots (sublist_arriving name after),
    arriving_eq_iff]

/-- There is an address for each endpoint below a host. -/
theorem IsHostBase.exists_parse_append {base endpoint : String} {more : List Char}
    (h : IsHostBase base) (hend : endpoint.toList = '/' :: more) :
    ∃ v, parse (trimEndChar '/' base ++ endpoint) = .ok v ∧ v.scheme = ['h', 't', 't', 'p'] := by
  obtain ⟨u, hu⟩ := h.read
  obtain ⟨authority, htext, -⟩ := h.exists_authority
  have hscheme : u.scheme = ['h', 't', 't', 'p'] := by
    obtain ⟨rest, hsplit, -⟩ := parse_eq_ok hu
    have hwhole : base.toList = ['h', 't', 't', 'p'] ++ ':' :: '/' :: '/' :: authority := htext
    rw [hwhole, isScheme_http.splitScheme?_clean] at hsplit
    exact (Prod.mk.inj (Option.some.inj hsplit)).1.symm
  have hweb : isWebScheme u = true := by
    rw [isWebScheme, hscheme]
    rfl
  obtain ⟨v, hv, hsame⟩ := Url.exists_parse_append hend hu hweb h.trimEndChar_eq.2
  exact ⟨v, hv, hsame.scheme.symm.trans hscheme⟩

/-- **Different names are different segments.** -/
theorem Tail.Names.injective {t t' : Tail} {before before' after after' : List (List Char)}
    {name name' : List Char} (h : t.Names before name after) (h' : t'.Names before' name' after')
    (hbefore : before.length = before'.length) (hpath : t.path = t'.path) : name = name' := by
  obtain ⟨segment, heq, -, hname⟩ := h.path
  obtain ⟨segment', heq', -, hname'⟩ := h'.path
  have hsegments := UrlPath.segments.inj (heq.symm.trans (hpath.trans heq'))
  obtain ⟨rfl, -⟩ := List.cons.inj (List.append_inj hsegments hbefore).2
  have hdecoded := congrArg decodeChars? (hname.symm.trans hname')
  rw [decodeChars?_encodeChars, decodeChars?_encodeChars] at hdecoded
  exact Option.some.inj hdecoded

end ReleasePublisher.Url

import ReleasePublisher.Proofs.Url.Written

/-!
# Base addresses

An endpoint is asked for at a base address without its slashes, followed by the endpoint. If the base is
an address itself, the text names the same authority: what follows the slashes does not reach into
the authority, and blanks that would be dropped at the end of the base cannot stand within one.

## Main definitions

* `Url.SameAuthority u v`: the addresses have the same scheme, user info, host and port

## Main results

* `Url.authorityOf_append`: slashes, and then anything, do not change the authority
* `Url.sameAuthority_of_parse_append`: the addresses of endpoints have the authority of the base
* `Url.exists_parse_append`: there is an address for each endpoint
-/

namespace ReleasePublisher.Url

open Text

/-! ### Parts of an authority -/

theorem beginsPort_drop_hostLength (b : Bool) (cs : List Char) :
    BeginsPort (cs.drop (hostLength b cs)) := by
  induction cs generalizing b with
  | nil => exact .inl rfl
  | cons c cs ih =>
    rw [hostLength]
    split
    · rename_i hcolon
      obtain ⟨hc, -⟩ := Bool.and_eq_true _ _ ▸ hcolon
      exact .inr ⟨cs, by rw [List.drop_zero, eq_of_beq hc]⟩
    · exact ih _

/-- Host and port stand at the end of an authority. -/
theorem partsOf_suffix (authority : List Char) :
    ∃ before, authority = before ++ ((partsOf authority).hostText ++ (partsOf authority).portText) ∧
      BeginsPort (partsOf authority).portText := by
  have hsuffix : ∃ before, authority = before ++ ((splitLast? '@' authority).getD ([], authority)).2 := by
    unfold splitLast?
    split
    · refine ⟨(authority.reverse.dropWhile (· != '@')).reverse, ?_⟩
      show authority = _ ++ (authority.reverse.takeWhile (· != '@')).reverse
      rw [← List.reverse_append, List.takeWhile_append_dropWhile, List.reverse_reverse]
    · exact ⟨[], rfl⟩
  obtain ⟨before, hbefore⟩ := hsuffix
  refine ⟨before, ?_, beginsPort_drop_hostLength false _⟩
  show authority = before ++ (List.take _ _ ++ List.drop _ _)
  rw [List.take_append_drop]
  exact hbefore

/-- Nothing but a backslash follows the digits of a port. -/
theorem parsePort_colon {scheme digits more : List Char} {port : Option Nat}
    (h : parsePort scheme (':' :: digits) = .ok (port, more)) :
    digits.dropWhile Char.isDigit = [] ∨ (digits.dropWhile Char.isDigit).head? = some '\\' := by
  simp only [parsePort] at h
  split at h
  · cases h
  · rename_i hbounds
    simp only [Bool.or_eq_true, decide_eq_true_eq, not_or, Bool.not_eq_true', Bool.not_eq_false,
      List.isEmpty_iff, beq_iff_eq] at hbounds
    exact hbounds.2

theorem not_isDigit_of_le {c : Char} (h : c.toNat ≤ 0x20) : c.isDigit = false := by
  cases hd : c.isDigit with
  | false => rfl
  | true =>
    have hedge := (visible_of_isDigit hd).1
    rw [isEdge, decide_eq_false_iff_not] at hedge
    exact absurd h hedge

/-- A text that ends in a character and in a part: the part ends in the character. -/
theorem concat_of_append_eq {cs before part : List Char} {c : Char}
    (h : cs ++ [c] = before ++ part) (hne : part ≠ []) : ∃ init, part = init ++ [c] := by
  obtain ⟨init, last, rfl⟩ := (List.eq_nil_or_concat part).resolve_left hne
  rw [List.concat_eq_append, ← List.append_assoc] at h
  exact ⟨init, by rw [List.concat_eq_append, (List.append_inj' h rfl).2]⟩

theorem parseHost_nil : parseHost [] = .error .emptyHost := by decide +kernel

/-- **A blank or a control character ends no authority.** -/
theorem not_isEdge_of_parse {scheme cs : List Char} {c : Char} {host : List Char}
    {read : Option Nat × List Char} (hc : c.toNat ≤ 0x20) (hcs : '\\' ∉ cs)
    (hhost : parseHost (partsOf (cs ++ [c])).hostText = .ok host)
    (hport : parsePort scheme (partsOf (cs ++ [c])).portText = .ok read) : False := by
  obtain ⟨before, heq, hbegins⟩ := partsOf_suffix (cs ++ [c])
  rcases hbegins with hnone | ⟨digits, hdigits⟩
  · -- The host would end in it.
    rw [hnone, List.append_nil] at heq
    have hne : (partsOf (cs ++ [c])).hostText ≠ [] := by
      intro hnil
      rw [hnil, parseHost_nil] at hhost
      cases hhost
    obtain ⟨init, hlast⟩ := concat_of_append_eq heq hne
    rw [hlast] at hhost
    exact parseHost_append_blanks (by simp) (by simpa using hc) hhost
  · -- The port would end in it.
    rw [hdigits] at heq hport
    have hmem : c ∈ digits := by
      rw [← List.append_assoc] at heq
      obtain ⟨init, hlast⟩ := concat_of_append_eq heq (List.cons_ne_nil ':' digits)
      have hin : c ∈ ':' :: digits := by
        rw [hlast]
        simp
      refine (List.mem_cons.mp hin).resolve_left ?_
      rintro rfl
      exact absurd hc (by decide)
    rcases parsePort_colon hport with hnil | hhead
    · have hall : digits.takeWhile Char.isDigit = digits := by
        have hsplit := List.takeWhile_append_dropWhile (p := Char.isDigit) (l := digits)
        rwa [hnil, List.append_nil] at hsplit
      have hdigit : c.isDigit = true := List.all_eq_true.mp List.all_takeWhile c (hall.symm ▸ hmem)
      rw [not_isDigit_of_le hc] at hdigit
      cases hdigit
    · have hback : '\\' ∈ digits :=
        (List.dropWhile_suffix _).subset (List.mem_of_mem_head? hhead)
      have hin : '\\' ∈ cs ++ [c] := by
        rw [heq]
        simp [hback]
      rcases List.mem_append.mp hin with hin | hin
      · exact hcs hin
      · obtain rfl := List.mem_singleton.mp hin
        exact absurd hc (by decide)

theorem endsAuthority_of_le {c : Char} (h : c.toNat ≤ 0x20) : endsAuthority true c = false := by
  refine endsAuthority_eq_false fun hmark => ?_
  have hall : ['/', '\\', '?', '#'].all (!isEdge ·) = true := by decide
  have hedge : isEdge c = true := decide_eq_true h
  have hc := List.all_eq_true.mp hall c hmark
  rw [hedge] at hc
  cases hc

theorem authorityOf_slashes {slashes : List Char} (h : ∀ c ∈ slashes, c = '/') :
    authorityOf slashes = [] := by
  cases slashes with
  | nil => rfl
  | cons c slashes =>
    obtain rfl := h c List.mem_cons_self
    rfl

/-- An authority goes on behind a text, or ends within it. -/
theorem authorityOf_append_cases (cs : List Char) :
    ((∀ c ∈ cs, endsAuthority true c = false) ∧
        ∀ rest, authorityOf (cs ++ rest) = cs ++ authorityOf rest) ∨
      ∀ rest, authorityOf (cs ++ rest) = authorityOf cs := by
  by_cases hlen : (authorityOf cs).length = cs.length
  · have hall : authorityOf cs = cs := (List.takeWhile_prefix _).eq_of_length hlen
    have hcs : ∀ c ∈ cs, (!endsAuthority true c) = true := by
      rw [← hall]
      exact List.all_eq_true.mp List.all_takeWhile
    refine .inl ⟨fun c hc => by simpa using hcs c hc, fun rest => ?_⟩
    exact List.takeWhile_append_of_pos hcs
  · refine .inr fun rest => ?_
    show (cs ++ rest).takeWhile _ = _
    rw [List.takeWhile_append]
    exact if_neg hlen

theorem parseAuthority_nil {scheme : List Char} {u : Url} (hs : isSpecial scheme = true) :
    parseAuthority scheme [] ≠ .ok u := by
  intro h
  obtain ⟨host, port, more, hhost, -⟩ := parseAuthority_ok hs h
  have hnil : (partsOf (authorityOf [])).hostText = [] := rfl
  rw [hnil, parseHost_nil] at hhost
  cases hhost

/-- **Slashes, and then anything, do not change the authority.** Blanks before them would have to stand
in it. -/
theorem authorityOf_append {scheme cs slashes blanks more : List Char} {v : Url}
    (hs : isSpecial scheme = true) (hslashes : ∀ c ∈ slashes, c = '/')
    (hblanks : ∀ c ∈ blanks, c.toNat ≤ 0x20)
    (hv : parseAuthority scheme (cs ++ (blanks ++ '/' :: more)) = .ok v) :
    authorityOf (cs ++ (blanks ++ '/' :: more)) = authorityOf (cs ++ slashes) := by
  obtain ⟨host, port, rest, hhost, hport, -⟩ := parseAuthority_ok hs hv
  have hblank : authorityOf (blanks ++ '/' :: more) = blanks := by
    refine (takeWhile_append_stop (fun c hc => ?_) (by simp [endsAuthority, isSlash])).1
    rw [endsAuthority_of_le (hblanks c hc)]
    rfl
  rcases authorityOf_append_cases cs with ⟨hcs, happ⟩ | happ
  · rw [happ, hblank] at hhost hport
    rw [happ, happ, authorityOf_slashes hslashes, hblank]
    -- The authority would end in the last blank.
    rcases List.eq_nil_or_concat blanks with rfl | ⟨init, c, rfl⟩
    · rfl
    rw [List.concat_eq_append] at hblanks hhost hport
    rw [← List.append_assoc] at hhost hport
    refine (not_isEdge_of_parse (hblanks c (by simp)) (fun hback => ?_) hhost hport).elim
    rcases List.mem_append.mp hback with hback | hback
    · exact absurd (hcs _ hback) (by decide)
    · exact absurd (hblanks _ (List.mem_append_left _ hback)) (by decide)
  · rw [happ, happ]

/-! ### What an authority is read as -/

/-- **The addresses have the same authority**: scheme, user info, host and port. -/
structure SameAuthority (u v : Url) : Prop where
  scheme : u.scheme = v.scheme
  username : u.username = v.username
  password : u.password = v.password
  host : u.host = v.host
  port : u.port = v.port

theorem SameAuthority.sameOrigin {u v : Url} (h : SameAuthority u v) : u.sameOrigin v = true := by
  simp [Url.sameOrigin, effectivePort, h.scheme, h.host, h.port]

/-- An authority can be read if its host and its port can. -/
theorem exists_parseAuthority {scheme cs host more : List Char} {port : Option Nat}
    (hs : isSpecial scheme = true)
    (hhost : parseHost (partsOf (authorityOf cs)).hostText = .ok host)
    (hport : parsePort scheme (partsOf (authorityOf cs)).portText = .ok (port, more)) :
    ∃ u, parseAuthority scheme cs = .ok u := by
  have hne : host.isEmpty = false := by simpa using (isHost_of_parseHost hhost).ne_nil
  have hauthority : cs.takeWhile (!endsAuthority true ·) = authorityOf cs := rfl
  unfold parseAuthority
  rw [hs]
  extract_lets special authority after parts
  have hfirst : ((authority == ['@'] && !after.isEmpty) ||
      (parts.hostText.isEmpty && special)) = false := by
    have htext : parts.hostText.isEmpty = false := by
      cases hempty : parts.hostText with
      | cons c text => rfl
      | nil =>
        rw [← hauthority] at hhost
        rw [show partsOf (cs.takeWhile (!endsAuthority true ·)) = parts from rfl, hempty,
          parseHost_nil] at hhost
        cases hhost
    have hat : (authority == ['@']) = false := by
      cases hat : authority == ['@'] with
      | false => rfl
      | true =>
        have hparts : parts = partsOf ['@'] := congrArg partsOf (eq_of_beq hat)
        rw [hparts] at htext
        cases htext
    rw [hat, htext]
    rfl
  rw [hfirst]
  simp only [special, parts, authority, hauthority, hhost, hport, hne, Bool.false_eq_true, if_false,
    if_true, Bool.false_and]
  exact ⟨_, rfl⟩

/-- **An authority is read alike** whatever follows it. -/
theorem sameAuthority_of_authorityOf_eq {scheme cs ds : List Char} {u v : Url}
    (hs : isSpecial scheme = true) (h : authorityOf ds = authorityOf cs)
    (hu : parseAuthority scheme cs = .ok u) (hv : parseAuthority scheme ds = .ok v) :
    SameAuthority u v := by
  obtain ⟨host, port, more, hhost, hport, hu⟩ := parseAuthority_ok hs hu
  obtain ⟨host', port', more', hhost', hport', hv⟩ := parseAuthority_ok hs hv
  rw [h] at hhost' hport' hv
  have hhosts := Except.ok.inj (hhost.symm.trans hhost')
  have hports := Except.ok.inj (hport.symm.trans hport')
  rw [hu, hv]
  exact ⟨rfl, rfl, rfl, congrArg some hhosts, (Prod.mk.inj hports).1⟩

/-- **Whether an authority can be read** does not depend on what follows it. -/
theorem exists_of_authorityOf_eq {scheme cs ds : List Char} {u : Url}
    (hs : isSpecial scheme = true) (h : authorityOf ds = authorityOf cs)
    (hu : parseAuthority scheme cs = .ok u) : ∃ v, parseAuthority scheme ds = .ok v := by
  obtain ⟨host, port, more, hhost, hport, -⟩ := parseAuthority_ok hs hu
  exact exists_parseAuthority hs (h ▸ hhost) (h ▸ hport)

/-! ### Whole addresses -/

/-- A base address and that of an endpoint, cleaned. Only blanks at the end of the base stay before the
endpoint. -/
theorem clean_base (start : List Char) {slashes : List Char} (hslashes : ∀ c ∈ slashes, c = '/')
    (more : List Char) :
    ∃ cs blanks more', clean (start ++ slashes) = cs ++ slashes ∧
      clean (start ++ '/' :: more) = cs ++ (blanks ++ '/' :: more') ∧
      (∀ c ∈ blanks, c.toNat ≤ 0x20) ∧
      ((∀ c ∈ (start ++ slashes).getLast?, isEdge c = false) → blanks = []) := by
  have hmore := clean_append_cons (c := '/') (by decide) start more
  cases slashes with
  | nil =>
    obtain ⟨blanks, hstart, hblanks⟩ := cleanStart_eq_clean_append start
    rw [List.append_nil]
    by_cases hlast : ∀ c ∈ start.getLast?, isEdge c = false
    · refine ⟨clean start, [], cleanEnd more, by simp, ?_, by simp, fun _ => rfl⟩
      rw [hmore, cleanStart_eq_clean hlast]
      rfl
    · refine ⟨clean start, blanks, cleanEnd more, by simp, ?_, hblanks, fun h => absurd h hlast⟩
      rw [hmore, hstart, List.append_assoc]
  | cons c slashes =>
    obtain ⟨rfl, hrest⟩ := List.forall_mem_cons.mp hslashes
    have hvisible : ∀ c ∈ slashes, isEdge c = false := by
      intro c hc
      rw [hrest c hc]
      decide
    refine ⟨cleanStart start, [], cleanEnd more, ?_, hmore, by simp, fun _ => rfl⟩
    rw [clean_append_cons (by decide), cleanEnd_of_visible hvisible]

/-- A colon in a text that ends in slashes stands before them. -/
theorem colon_before_slashes {cs slashes written rest : List Char}
    (hslashes : ∀ c ∈ slashes, c = '/') (h : cs ++ slashes = written ++ ':' :: rest) :
    ∃ more, cs = written ++ ':' :: more ∧ rest = more ++ slashes := by
  have hcolon : ':' ∉ slashes := fun hin => absurd (hslashes _ hin) (by decide)
  rcases List.append_eq_append_iff.mp h with ⟨gap, -, hs⟩ | ⟨gap, hw, hs⟩
  · refine absurd ?_ hcolon
    rw [hs]
    simp
  · cases gap with
    | nil =>
      refine absurd ?_ hcolon
      rw [← List.nil_append slashes, ← hs]
      exact List.mem_cons_self
    | cons c more =>
      obtain ⟨rfl, hrest⟩ := List.cons.inj hs
      exact ⟨more, hw, hrest⟩

/-- **The address of an endpoint** is read behind the scheme of the base, from a text that goes on where
the slashes of the base stand. -/
theorem parse_append_endpoint {base endpoint : String} {more : List Char} {u : Url}
    (hend : endpoint.toList = '/' :: more) (hu : parse base = .ok u) :
    ∃ cs slashes blanks more', (∀ c ∈ slashes, c = '/') ∧ (∀ c ∈ blanks, c.toNat ≤ 0x20) ∧
      parseAfterScheme u.scheme (cs ++ slashes) = .ok u ∧
      parse (trimEndChar '/' base ++ endpoint) =
        parseAfterScheme u.scheme (cs ++ (blanks ++ '/' :: more')) ∧
      ((∀ c ∈ base.toList.getLast?, isEdge c = false) → blanks = []) := by
  obtain ⟨slashes, hbase, hslash⟩ := dropEndWhile_append_dropped (· == '/') base.toList
  have hslashes : ∀ c ∈ slashes, c = '/' := fun c hc => eq_of_beq (hslash c hc)
  obtain ⟨cs, blanks, more', hcs, hcs', hblanks, hnone⟩ :=
    clean_base (dropEndWhile (· == '/') base.toList) hslashes more
  rw [← hbase] at hcs hnone
  -- Cleaned, both addresses begin with the same text, which has the scheme and its colon.
  obtain ⟨rest, hsplit, hrest⟩ := parse_eq_ok hu
  have htext : (trimEndChar '/' base ++ endpoint).toList =
      dropEndWhile (· == '/') base.toList ++ '/' :: more := by
    rw [String.toList_append, trimEndChar, String.toList_ofList, hend]
  rw [hcs] at hsplit
  obtain ⟨written, heq, hscheme, hchars, hhead⟩ := splitScheme?_eq_some hsplit
  obtain ⟨more'', hleft, hright⟩ := colon_before_slashes hslashes heq
  refine ⟨more'', slashes, blanks, more', hslashes, hblanks, hright ▸ hrest, ?_, hnone⟩
  unfold parse
  rw [htext, hcs', hleft, List.append_assoc, List.cons_append, splitScheme?_append hchars hhead,
    ← hscheme]

/-- The slashes before an authority end before those of the base. -/
theorem dropWhile_slashes_append {cs slashes : List Char} {scheme : List Char} {u : Url}
    (hs : isSpecial scheme = true) (hslashes : ∀ c ∈ slashes, c = '/')
    (h : parseAuthority scheme ((cs ++ slashes).dropWhile (isSlash true)) = .ok u) :
    ∀ rest, (cs ++ rest).dropWhile (isSlash true) = cs.dropWhile (isSlash true) ++ rest := by
  intro rest
  rw [List.dropWhile_append]
  split
  · -- A base of slashes only would have no host.
    rename_i hempty
    have hnil : (cs ++ slashes).dropWhile (isSlash true) = [] := by
      rw [List.dropWhile_append, if_pos hempty, ← List.append_nil slashes]
      refine List.dropWhile_append_of_pos fun c hc => ?_
      rw [hslashes c hc]
      rfl
    rw [hnil] at h
    exact absurd h (parseAuthority_nil hs)
  · rfl

/-- **The address of an endpoint** at a base that is an address has the authority of the base. -/
theorem sameAuthority_of_parse_append {base endpoint : String} {more : List Char} {u v : Url}
    (hend : endpoint.toList = '/' :: more) (hu : parse base = .ok u)
    (hv : parse (trimEndChar '/' base ++ endpoint) = .ok v) (hweb : isWebScheme v = true) :
    SameAuthority u v := by
  obtain ⟨cs, slashes, blanks, more', hslashes, hblanks, hrest, htext, -⟩ :=
    parse_append_endpoint hend hu
  rw [htext] at hv
  have hauth : HasAuthority u.scheme :=
    parseAfterScheme_scheme hv ▸ hasAuthority_of_isWebScheme hweb
  rw [parseAfterScheme_of_hasAuthority hauth] at hrest hv
  have hdrop := dropWhile_slashes_append hauth.1 hslashes hrest
  rw [hdrop] at hrest hv
  exact sameAuthority_of_authorityOf_eq hauth.1 (authorityOf_append hauth.1 hslashes hblanks hv)
    hrest hv

/-- So it has the same host and port. -/
theorem sameOrigin_of_parse_append {base endpoint : String} {more : List Char} {u v : Url}
    (hend : endpoint.toList = '/' :: more) (hu : parse base = .ok u)
    (hv : parse (trimEndChar '/' base ++ endpoint) = .ok v) (hweb : isWebScheme v = true) :
    u.sameOrigin v = true :=
  (sameAuthority_of_parse_append hend hu hv hweb).sameOrigin

/-- **There is an address for each endpoint** at a base that is an address and does not end in a blank. -/
theorem exists_parse_append {base endpoint : String} {more : List Char} {u : Url}
    (hend : endpoint.toList = '/' :: more) (hu : parse base = .ok u) (hweb : isWebScheme u = true)
    (hblank : ∀ c ∈ base.toList.getLast?, isEdge c = false) :
    ∃ v, parse (trimEndChar '/' base ++ endpoint) = .ok v ∧ SameAuthority u v := by
  obtain ⟨cs, slashes, blanks, more', hslashes, -, hrest, htext, hnone⟩ :=
    parse_append_endpoint hend hu
  obtain rfl := hnone hblank
  have hauth : HasAuthority u.scheme := hasAuthority_of_isWebScheme hweb
  rw [parseAfterScheme_of_hasAuthority hauth] at hrest htext
  have hdrop := dropWhile_slashes_append hauth.1 hslashes hrest
  rw [hdrop] at hrest htext
  have hsame : authorityOf (cs.dropWhile (isSlash true) ++ ([] ++ '/' :: more')) =
      authorityOf (cs.dropWhile (isSlash true) ++ slashes) := by
    rcases authorityOf_append_cases (cs.dropWhile (isSlash true)) with ⟨-, happ⟩ | happ
    · rw [happ, happ, authorityOf_slashes hslashes, List.nil_append]
      rfl
    · rw [happ, happ]
  obtain ⟨v, hv⟩ := exists_of_authorityOf_eq hauth.1 hsame hrest
  exact ⟨v, htext.trans hv, sameAuthority_of_authorityOf_eq hauth.1 hsame hrest hv⟩

end ReleasePublisher.Url

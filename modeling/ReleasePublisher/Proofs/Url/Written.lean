import ReleasePublisher.Http.Client
import ReleasePublisher.Proofs.Url.Authority
import ReleasePublisher.Proofs.Url.Query
import ReleasePublisher.Proofs.Url.Scheme

/-!
# Addresses, written and read

An address whose scheme stands for a host is read into canonical parts. Where the text of such an address
is read, it is the same address: nothing of one part is taken for another, and no part is encoded twice.
A pair that is added to the query does not change that.

## Main definitions

* `Url.IsNormal u`: an address in its canonical parts

## Main results

* `Url.isNormal_of_parse`: addresses are read into canonical parts
* `Url.IsNormal.eq_of_parse_text`: the text of an address in canonical parts states no other address
* `Url.eq_of_parse_text_addPair`: nor does that of an address with one more pair
-/

namespace ReleasePublisher.Url

/-! ### Addresses with a host -/

/-- The schemes of addresses that begin with an authority. -/
def HasAuthority (scheme : List Char) : Prop :=
  isSpecial scheme = true ∧ scheme ≠ ['f', 'i', 'l', 'e']

theorem hasAuthority_of_isWebScheme {u : Url} (h : isWebScheme u = true) : HasAuthority u.scheme := by
  unfold isWebScheme at h
  rcases Bool.or_eq_true _ _ ▸ h with h | h
  · rw [eq_of_beq h]
    exact ⟨by decide, by decide⟩
  · rw [eq_of_beq h]
    exact ⟨by decide, by decide⟩

theorem parseAfterScheme_of_hasAuthority {scheme : List Char} (h : HasAuthority scheme)
    (cs : List Char) :
    parseAfterScheme scheme cs = parseAuthority scheme (cs.dropWhile (isSlash true)) := by
  rw [parseAfterScheme, if_neg (by simpa using h.2), if_pos h.1]

/-- The parts of an address behind its authority. -/
def tail (u : Url) : Tail :=
  ⟨u.path, u.query, u.fragment⟩

/-- **An address in its canonical parts.** -/
structure IsNormal (u : Url) : Prop where
  isScheme : IsScheme u.scheme
  hasAuthority : HasAuthority u.scheme
  username : IsEncoded userInfoSet u.username
  password : ∀ p ∈ u.password, p ≠ [] ∧ IsEncoded userInfoSet p
  host : ∃ host, u.host = some host ∧ IsHost host
  port : ∀ n ∈ u.port, n ≤ 65535 ∧ defaultPort? u.scheme ≠ some n
  tail : u.tail.IsNormal

/-- **Addresses are read into canonical parts.** -/
theorem isNormal_of_parse {s : String} {u : Url} (h : parse s = .ok u)
    (hu : HasAuthority u.scheme) : u.IsNormal := by
  obtain ⟨rest, -, hrest⟩ := parse_eq_ok h
  rw [parseAfterScheme_of_hasAuthority hu] at hrest
  obtain ⟨host, port, more, hhost, hport, heq⟩ := parseAuthority_ok hu.1 hrest
  have hinfo := isEncoded_parseUserInfo
    (partsOf (authorityOf (rest.dropWhile (isSlash true)))).userInfo
  constructor
  · exact isScheme_of_parse h
  · exact hu
  · rw [heq]
    exact hinfo.1
  · rw [heq]
    exact hinfo.2
  · exact ⟨host, by rw [heq], isHost_of_parseHost hhost⟩
  · have hbounds := parsePort_ok hport
    rw [heq]
    exact hbounds
  · rw [heq]
    exact isNormal_parseTail _

/-- **One more pair** leaves the parts canonical. -/
theorem IsNormal.addPair {u : Url} (h : u.IsNormal) (name value : String) :
    (u.addPair name value).IsNormal := by
  have hpart (s : String) : IsEncoded specialQuerySet (Form.encode s) :=
    (Form.isEncoded_encode s).mono fun c hc => by simp [hc]
  have hsign (c : Char) (hc : c.toNat < 0x80 ∧ specialQuerySet c = false) :
      IsEncoded specialQuerySet [c] := by
    rintro d hd
    obtain rfl := List.mem_singleton.mp hd
    exact hc
  obtain ⟨isScheme, hasAuthority, username, password, host, port, hpath, hquery, hfragment⟩ := h
  refine ⟨isScheme, hasAuthority, username, password, host, port, hpath, ?_, hfragment⟩
  rintro q ⟨⟩
  have hold : IsEncoded specialQuerySet (u.query.getD []) := by
    cases hq : u.query with
    | none => simp [IsEncoded]
    | some q => exact hquery q hq
  refine (hold.append ?_).append ((hpart name).append ?_)
  · split
    · simp [IsEncoded]
    · exact hsign '&' (by decide)
  · exact (hsign '=' (by decide)).append (hpart value)

/-! ### The text of an address -/

variable {u : Url}

/-- The authority of an address, as it is written. -/
theorem authorityText_eq {host : List Char} (hhost : u.host = some host) :
    authorityText u = '/' :: '/' :: (userInfoText u ++ (host ++ portOf u.port)) := by
  unfold authorityText
  rw [hhost]
  simp only [List.cons_append, List.append_assoc]
  cases u.port <;> rfl

theorem characters_eq_tail (u : Url) :
    u.characters = u.scheme ++ ':' :: (authorityText u ++ u.tail.written) := by
  unfold characters Tail.written tail
  simp only [List.cons_append, List.append_assoc]
  cases u.query <;> cases u.fragment <;> rfl

/-- User info is written with its sign, or not at all. -/
theorem userInfoText_cases (u : Url) :
    (userInfoText u = [] ∧ u.username = [] ∧ u.password = none) ∨
      userInfoText u = userInfoOf u.username u.password ++ ['@'] := by
  unfold userInfoText
  split
  · rename_i hempty
    obtain ⟨hname, hpass⟩ := Bool.and_eq_true _ _ ▸ hempty
    exact .inl ⟨rfl, List.isEmpty_iff.mp hname, Option.isNone_iff_eq_none.mp hpass⟩
  · refine .inr ?_
    unfold userInfoOf
    cases u.password <;> rfl

/-- Blanks and control characters are encoded in every part. -/
theorem isEdge_of_isEncoded {set : Char → Bool} {cs : List Char}
    (hset : ∀ n < 0x21, set (Char.ofNat n) = true) (h : IsEncoded set cs) :
    ∀ c ∈ cs, isEdge c = false := by
  intro c hc
  cases hedge : isEdge c with
  | false => rfl
  | true =>
    have hle : c.toNat ≤ 0x20 := of_decide_eq_true hedge
    have hc' : set c = true :=
      Utf8.forall_char (P := fun c => set c = true) hset c (Nat.lt_succ_of_le hle)
    exact absurd hc (h.not_mem hc')

theorem endsAuthority_eq_false {c : Char} (h : c ∉ ['/', '\\', '?', '#']) :
    endsAuthority true c = false := by
  simp only [List.mem_cons, List.not_mem_nil, or_false, not_or] at h
  simp [endsAuthority, isSlash, endsPath, h]

theorem visible_of_isDigit {c : Char} (h : c.isDigit = true) :
    isEdge c = false ∧ endsAuthority true c = false := by
  have hhost := (isDomainChar_of_isDigit h).1.isHostChar.1
  refine ⟨by simpa [isEdge] using hhost.1, endsAuthority_eq_false fun hin => hhost.2.2 ?_⟩
  exact List.mem_append_left ['@'] hin

namespace IsNormal

/-- The characters of a written authority are visible, and none of them ends it. -/
theorem endsAuthority_eq (h : u.IsNormal) {host : List Char} (hh : IsHost host) :
    ∀ c ∈ userInfoText u ++ (host ++ portOf u.port),
      isEdge c = false ∧ endsAuthority true c = false := by
  have hencoded : ∀ {cs : List Char}, IsEncoded userInfoSet cs → ∀ c ∈ cs,
      isEdge c = false ∧ endsAuthority true c = false := by
    intro cs hcs c hc
    refine ⟨isEdge_of_isEncoded (by decide) hcs c hc, endsAuthority_eq_false ?_⟩
    intro hmark
    have hset : ['/', '\\', '?', '#'].all userInfoSet = true := by decide
    exact hcs.not_mem (List.all_eq_true.mp hset c hmark) hc
  intro c hc
  rcases List.mem_append.mp hc with hc | hc
  · rcases userInfoText_cases u with ⟨htext, -⟩ | htext
    · rw [htext] at hc
      cases hc
    rw [htext, userInfoOf] at hc
    rcases List.mem_append.mp hc with hc | hc
    · rcases List.mem_append.mp hc with hc | hc
      · exact hencoded h.username c hc
      · cases hp : u.password with
        | none =>
          rw [hp] at hc
          cases hc
        | some p =>
          rw [hp] at hc
          rcases List.mem_cons.mp hc with rfl | hc
          · decide
          · exact hencoded (h.password p hp).2 c hc
    · obtain rfl := List.mem_singleton.mp hc
      decide
  rcases List.mem_append.mp hc with hc | hc
  · obtain ⟨hlow, -, hmark⟩ := hh.isHostChar c hc
    refine ⟨by simpa [isEdge] using hlow, endsAuthority_eq_false fun hin => hmark ?_⟩
    exact List.mem_append_left ['@'] hin
  · cases hn : u.port with
    | none =>
      rw [hn] at hc
      cases hc
    | some n =>
      rw [hn] at hc
      rcases List.mem_cons.mp hc with rfl | hc
      · decide
      · exact visible_of_isDigit (isDigit_of_mem_toDigits hc)

/-- **The parts of a written authority** are read as they were. -/
theorem partsOf_eq (h : u.IsNormal) {host : List Char} (hh : IsHost host) :
    ∃ info, partsOf (userInfoText u ++ (host ++ portOf u.port)) = ⟨info, host, portOf u.port⟩ ∧
      parseUserInfo info = (u.username, u.password) := by
  obtain ⟨hplain, hinfo⟩ := partsOf_written hh u.port
  rcases userInfoText_cases u with ⟨htext, hname, hpass⟩ | htext
  · exact ⟨[], by rw [htext]; exact hplain, by rw [hname, hpass]; rfl⟩
  · refine ⟨userInfoOf u.username u.password, ?_,
      parseUserInfo_userInfoOf h.username h.password⟩
    rw [htext, List.append_assoc, List.singleton_append]
    exact hinfo _

/-- What follows the authority is visible. -/
theorem isEdge_written (h : u.IsNormal) : ∀ c ∈ u.tail.written, isEdge c = false := by
  have hmarked : ∀ {mark : Char} {part : Option (List Char)}, isEdge mark = false →
      (∀ cs ∈ part, ∀ c ∈ cs, isEdge c = false) → ∀ c ∈ marked mark part, isEdge c = false := by
    intro mark part hmark hpart c hc
    cases part with
    | none => cases hc
    | some cs =>
      rcases List.mem_cons.mp hc with rfl | hc
      · exact hmark
      · exact hpart cs rfl c hc
  obtain ⟨⟨parts, hpath, -, hparts⟩, hquery, hfragment⟩ := h.tail
  intro c hc
  rw [Tail.written, hpath] at hc
  rcases List.mem_append.mp hc with hc | hc
  · obtain ⟨part, hpart, hc⟩ := List.mem_flatMap.mp hc
    rcases List.mem_cons.mp hc with rfl | hc
    · decide
    · exact isEdge_of_isEncoded (by decide) (hparts part hpart).isEncoded c hc
  rcases List.mem_append.mp hc with hc | hc
  · exact hmarked (by decide) (fun q hq => isEdge_of_isEncoded (by decide) (hquery q hq)) c hc
  · exact hmarked (by decide) (fun f hf => isEdge_of_isEncoded (by decide) (hfragment f hf)) c hc

/-- **An authority and what follows it** are those of no other address. -/
theorem eq_of_parseAuthority {v : Url} (h : u.IsNormal) {host : List Char}
    (hhost : u.host = some host) (hh : IsHost host)
    (hv : parseAuthority u.scheme
      (userInfoText u ++ (host ++ portOf u.port) ++ u.tail.written) = .ok v) : v = u := by
  have hstop : ∀ c ∈ userInfoText u ++ (host ++ portOf u.port), (!endsAuthority true c) = true := by
    intro c hc
    rw [(h.endsAuthority_eq hh c hc).2]
    rfl
  have hnext : ∀ c ∈ u.tail.written.head?, (!endsAuthority true c) = false := by
    obtain ⟨more, hmore⟩ := h.tail.written_eq_cons
    rw [hmore]
    rintro c ⟨⟩
    rfl
  obtain ⟨htake, hdrop⟩ := takeWhile_append_stop hstop hnext
  obtain ⟨host', port, more, hhost', hport, heq⟩ := parseAuthority_ok h.hasAuthority.1 hv
  obtain ⟨info, hparts, hinfo⟩ := h.partsOf_eq hh
  rw [authorityOf, htake, hparts] at hhost' hport heq
  rw [parsePort_portOf h.port] at hport
  obtain ⟨rfl, rfl⟩ := Prod.mk.inj (Except.ok.inj hport)
  obtain rfl := hh.reread host' hhost'
  rw [hdrop, List.nil_append, h.tail.parseTail_written, hinfo] at heq
  rw [heq, ← hhost]
  rfl

/-- **The text of an address in canonical parts** states no other address. -/
theorem eq_of_parse_text {v : Url} (h : u.IsNormal) (hv : parse u.text = .ok v) : v = u := by
  obtain ⟨host, hhost, hh⟩ := h.host
  let authority := userInfoText u ++ (host ++ portOf u.port)
  have hchars : u.characters = u.scheme ++ ':' :: '/' :: '/' :: (authority ++ u.tail.written) := by
    rw [characters_eq_tail, authorityText_eq hhost]
    rfl
  have hends : ∀ c ∈ authority, isEdge c = false ∧ endsAuthority true c = false :=
    h.endsAuthority_eq hh
  have hne : authority ≠ [] := by
    intro hnil
    exact hh.ne_nil (List.append_eq_nil_iff.mp (List.append_eq_nil_iff.mp hnil).2).1
  -- The text is visible, so that cleaning leaves it alone.
  have hvisible : ∀ c ∈ '/' :: '/' :: (authority ++ u.tail.written), isEdge c = false := by
    simp only [List.forall_mem_cons]
    refine ⟨by decide, by decide, fun c hc => ?_⟩
    rcases List.mem_append.mp hc with hc | hc
    · exact (hends c hc).1
    · exact h.isEdge_written c hc
  obtain ⟨rest, hsplit, hrest⟩ := parse_eq_ok hv
  rw [text, String.toList_ofList, hchars, h.isScheme.splitScheme?_clean,
    cleanEnd_of_visible hvisible] at hsplit
  obtain ⟨-, rfl⟩ := Prod.mk.inj (Option.some.inj hsplit)
  rw [parse_text_scheme h.isScheme hv, parseAfterScheme_of_hasAuthority h.hasAuthority] at hrest
  have hstart : ('/' :: '/' :: (authority ++ u.tail.written)).dropWhile (isSlash true) =
      authority ++ u.tail.written := by
    obtain ⟨c, more, heq⟩ := List.exists_cons_of_ne_nil hne
    have hc : isSlash true c = false := by
      have hend := (hends c (heq ▸ List.mem_cons_self)).2
      exact (Bool.or_eq_false_iff.mp hend).1
    rw [heq]
    simp [hc, show isSlash true '/' = true from rfl]
  rw [hstart] at hrest
  exact h.eq_of_parseAuthority hhost hh hrest

end IsNormal

/-- **An address with one more pair** is read as it was written. -/
theorem eq_of_parse_text_addPair {s name value : String} {u v : Url} (hu : parse s = .ok u)
    (hv : parse (u.addPair name value).text = .ok v) (hweb : isWebScheme v = true) :
    v = u.addPair name value := by
  have hs : IsScheme u.scheme := isScheme_of_parse hu
  have hscheme : v.scheme = u.scheme := parse_text_scheme (u := u.addPair name value) hs hv
  have hnormal := isNormal_of_parse hu (hscheme ▸ hasAuthority_of_isWebScheme hweb)
  exact (hnormal.addPair name value).eq_of_parse_text hv

end ReleasePublisher.Url

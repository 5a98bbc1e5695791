import ReleasePublisher.Proofs.Http.Authorization
import ReleasePublisher.Proofs.Publish.Errands
import ReleasePublisher.Proofs.Publish.UploadRequest
import ReleasePublisher.Proofs.Url.Base

/-!
# How the client presents itself to the release host

Each errand to the release host begins with a request that carries the token, names the form and the
version of the answer that is wanted, and names the client. User info in the address is taken out of it,
and stands before the token: such a request is authorized twice.

## Main definitions

* `Url.StatesCredentials u`: the address states a user name or a password
* `HostErrand.base apiUrl k`: the address from which that of an errand is made
* `Request.Presents q base token`: how a request presents the client
* `HostErrand.IsReady`: an errand whose first request can be made

## Main results

* `takeCredentials_eq_none_iff`: credentials are taken out of exactly the addresses that state some
* `HostErrand.presents_client`: the first request of every errand presents the client, and is sent if it can be
* `HostErrand.credentials_precede_token`: user info stands before the token
-/

namespace ReleasePublisher

/-! ### User info -/

/-- The text that percent-encoded characters stand for. -/
def Url.textOf? (cs : List Char) : Option String :=
  Utf8.decode? (Url.percentDecode cs)

/-- **The address states a user name or a password**, as text. -/
def Url.StatesCredentials (u : Url) : Prop :=
  ∃ username, Url.textOf? u.username = some username ∧
    (username ≠ "" ∨ ∃ p ∈ u.password, (Url.textOf? p).isSome = true)

/-- User info is taken as it is read. -/
theorem takeCredentials_eq (u : Url) :
    takeCredentials u = match Url.textOf? u.username with
      | none => (u, none)
      | some username =>
        if username.isEmpty && (u.password.bind Url.textOf?).isNone then (u, none)
        else (u.hidden, some (basicValue username (u.password.bind Url.textOf?))) := rfl

theorem takeCredentials_snd_eq (u : Url) :
    (takeCredentials u).2 = (Url.textOf? u.username).bind fun username =>
      if username.isEmpty && (u.password.bind Url.textOf?).isNone then none
      else some (basicValue username (u.password.bind Url.textOf?)) := by
  rw [takeCredentials_eq]
  cases Url.textOf? u.username with
  | none => rfl
  | some username => exact apply_ite Prod.snd _ _ _

/-- **Credentials are taken** out of exactly the addresses that state some. -/
theorem takeCredentials_eq_none_iff (u : Url) :
    (takeCredentials u).2 = none ↔ ¬ u.StatesCredentials := by
  rw [takeCredentials_snd_eq]
  unfold Url.StatesCredentials
  cases Url.textOf? u.username with
  | none => simp
  | some username =>
    cases hpass : u.password with
    | none => simp
    | some p => cases hp : Url.textOf? p <;> simp [hp]

/-- The credentials of an address are those of its authority. -/
theorem Url.SameAuthority.takeCredentials_eq {u v : Url} (h : u.SameAuthority v) :
    (takeCredentials v).2 = (takeCredentials u).2 := by
  rw [takeCredentials_snd_eq, takeCredentials_snd_eq, h.username, h.password]

/-! ### Addresses -/

namespace HostErrand

/-- The address from which that of an errand is made: an upload goes where the release says. -/
def base (apiUrl : String) : HostErrand → String
  | upload release _ _ _ => beforeTemplate release.uploadUrl
  | _ => apiUrl

variable {apiUrl : String} {token : DeployToken} {k : HostErrand} {base u : Url}

/-- **The address of an errand** has the authority of its base. -/
theorem sameAuthority_of_draft {t : FileTree} {d : Draft}
    (hbase : Url.parse (k.base apiUrl) = .ok base)
    (hd : k.draft (HostClient.ofBase apiUrl token) t = .ok d) (hu : Url.parse d.address = .ok u)
    (hweb : isWebScheme u = true) : base.SameAuthority u := by
  cases k with
  | repository owner name =>
    obtain rfl := Except.ok.inj hd
    exact Url.sameAuthority_of_parse_append (HostClient.repositoryEndpoint_eq_cons owner name)
      hbase hu hweb
  | latestRelease found =>
    obtain rfl := Except.ok.inj hd
    exact Url.sameAuthority_of_parse_append (HostClient.latestEndpoint_eq_cons found.fullName)
      hbase hu hweb
  | upload release archive contentType showsProgress =>
    obtain ⟨url, node, hurl, -, rfl⟩ := draft_upload_eq_ok_iff.mp hd
    obtain ⟨base', hbase', rfl⟩ := uploadEndpoint_eq_ok hurl
    obtain rfl := Except.ok.inj (hbase.symm.trans hbase')
    -- The client reads the address from its text again, and one more pair is no part of the authority.
    rw [Url.eq_of_parse_text_addPair hbase hu hweb]
    exact ⟨rfl, rfl, rfl, rfl, rfl⟩

/-- The headers of every draft to the release host. -/
theorem values_of_draft {t : FileTree} {d : Draft}
    (hd : k.draft (HostClient.ofBase apiUrl token) t = .ok d) :
    d.headers.values "authorization" = ["Bearer " ++ token.value] ∧
      d.headers.values "accept" = ["application/vnd.github+json"] ∧
      d.headers.values "x-github-api-version" = ["2022-11-28"] ∧
      d.headers.values "user-agent" = [] := by
  cases k with
  | repository owner name =>
    obtain rfl := Except.ok.inj hd
    exact ⟨rfl, rfl, rfl, rfl⟩
  | latestRelease found =>
    obtain rfl := Except.ok.inj hd
    exact ⟨rfl, rfl, rfl, rfl⟩
  | upload release archive contentType showsProgress =>
    obtain ⟨url, node, -, -, rfl⟩ := draft_upload_eq_ok_iff.mp hd
    exact ⟨rfl, rfl, rfl, rfl⟩

end HostErrand

/-! ### The first request -/

/-- **The request presents the client**, at an address that is made from `base`. -/
structure Request.Presents (q : Request) (base : Url) (token : DeployToken) : Prop where
  /-- What the base address states of a user comes first. -/
  authorizations : q.authorizations =
    (takeCredentials base).2.toList ++ ["Bearer " ++ token.value]
  /-- So the token is the only authorization exactly where the base address states none. -/
  authorizations_iff : q.authorizations = ["Bearer " ++ token.value] ↔ ¬ base.StatesCredentials
  accept : q.headers.values "accept" = ["application/vnd.github+json"]
  version : q.headers.values "x-github-api-version" = ["2022-11-28"]
  agent : q.headers.values "user-agent" = ["relup/0.1.0"]

namespace HostErrand

variable {apiUrl : String} {token : DeployToken} {k : HostErrand} {base : Url}

/-- **A request that the draft of an errand makes** presents the client. -/
theorem presents_of_makes {t : FileTree} {d : Draft} {q : Request}
    (hbase : Url.parse (k.base apiUrl) = .ok base)
    (hd : k.draft (HostClient.ofBase apiUrl token) t = .ok d) (hq : d.Makes q) :
    q.Presents base token := by
  obtain ⟨u, hu, hweb, -, hheaders⟩ := hq.eq
  obtain ⟨hauth, haccept, hversion, hagent⟩ := values_of_draft hd
  obtain ⟨hdefault, haccepts⟩ := d.values_allHeaders_default (takeCredentials u).2
  have hcredentials := (sameAuthority_of_draft hbase hd hu hweb).takeCredentials_eq
  have hauthorizations : q.authorizations =
      (takeCredentials base).2.toList ++ ["Bearer " ++ token.value] := by
    rw [Request.authorizations, hheaders, Draft.values_allHeaders _ _ (by decide) (by decide),
      if_pos rfl, if_neg (by decide), hauth, hcredentials, List.append_nil]
  constructor
  · exact hauthorizations
  · rw [hauthorizations, ← takeCredentials_eq_none_iff]
    cases (takeCredentials base).2 <;> simp
  · rw [hheaders, haccepts, haccept]
    rfl
  · rw [hheaders, Draft.values_allHeaders _ _ (by decide) (by decide), if_neg (by decide),
      if_neg (by decide), hversion]
    rfl
  · rw [hheaders, hdefault, hagent]
    rfl

/-- **The errand has an address and a body.** The address of an endpoint is that of the base up to the
endpoint, and the file of an upload can be read and has the length that is told. -/
def IsReady (apiUrl : String) (t : FileTree) : HostErrand → Prop
  | upload release archive contentType _ =>
    isHeaderValue contentType = true ∧
      (∃ url u, uploadEndpoint release.uploadUrl archive.fileName = .ok url ∧
        Url.parse url.text = .ok u) ∧
      ∃ contents, t.read archive.path = .ok contents ∧ archive.size = contents.length
  | _ => ∀ c ∈ apiUrl.toList.getLast?, Url.isEdge c = false

/-- The headers of every request can be sent if the token can. -/
theorem headers_ofBase (apiUrl : String) (htoken : isHeaderValue token.value = true) :
    (HostClient.ofBase apiUrl token).headers.all (isHeaderValue ·.2) = true := by
  have hbearer : isHeaderValue ("Bearer " ++ token.value) = true := by
    rw [isHeaderValue_append, htoken]
    rfl
  simp only [HostClient.headers, HostClient.ofBase, List.all_cons, hbearer]
  decide

/-- **A draft for an errand that is ready** has an address, headers and a body that can be sent. -/
theorem draft_of_isReady {t : FileTree} (hbase : Url.parse (k.base apiUrl) = .ok base)
    (hweb : isWebScheme base = true) (htoken : isHeaderValue token.value = true)
    (hk : k.IsReady apiUrl t) :
    ∃ d u, k.draft (HostClient.ofBase apiUrl token) t = .ok d ∧ Url.parse d.address = .ok u ∧
      u.scheme = base.scheme ∧ d.headers.all (isHeaderValue ·.2) = true ∧
      ∀ p ∈ d.payload, ∃ pieces, p.pieces = .ok pieces ∧ p.length ≤ pieces.flatten.length := by
  have hheaders := headers_ofBase apiUrl htoken
  cases k with
  | repository owner name =>
    obtain ⟨u, hu, hsame⟩ := Url.exists_parse_append
      (HostClient.repositoryEndpoint_eq_cons owner name) hbase hweb hk
    exact ⟨_, u, rfl, hu, hsame.scheme.symm, hheaders, by rintro p ⟨⟩⟩
  | latestRelease found =>
    obtain ⟨u, hu, hsame⟩ := Url.exists_parse_append
      (HostClient.latestEndpoint_eq_cons found.fullName) hbase hweb hk
    exact ⟨_, u, rfl, hu, hsame.scheme.symm, hheaders, by rintro p ⟨⟩⟩
  | upload release archive contentType showsProgress =>
    obtain ⟨htype, ⟨url, u, hurl, hu⟩, contents, hread, hsize⟩ := hk
    obtain ⟨base', hbase', rfl⟩ := uploadEndpoint_eq_ok hurl
    obtain rfl := Except.ok.inj (hbase.symm.trans hbase')
    obtain ⟨node, hopen, hcontents⟩ := FileTree.read_eq_ok hread
    have hasset : HostClient.openAsset archive.path t = .ok node := by
      rw [HostClient.openAsset, hopen]
      rfl
    obtain ⟨pieces, hpieces, hflat⟩ := uploadBody_pieces hcontents showsProgress
    refine ⟨_, u, draft_upload_eq_ok_iff.mpr ⟨_, node, hurl, hasset, rfl⟩, hu, ?_, ?_, ?_⟩
    · -- The address is read from its text again, and has the scheme with which it was written.
      have hwritten : Url.IsScheme base.scheme := Url.isScheme_of_parse hbase
      exact Url.parse_text_scheme (u := base.addPair "name" archive.fileName) hwritten hu
    · show List.all (_ ++ [("content-type", contentType)]) _ = true
      rw [List.all_append, hheaders]
      simp [htype]
    · rintro p ⟨⟩
      rw [hsize, uploadBody_length]
      exact ⟨pieces, hpieces, Nat.le_of_eq (congrArg List.length hflat.symm)⟩

/-- **The first request of an errand presents the client.** Whatever the base address that can be read,
the token, the files and the answers are, it is authorized with the token behind the credentials that
the base address states, if any. It is sent where the host can be reached, the errand is ready and its
address not too long, and the token has no control characters. -/
theorem presents_client (hbase : Url.parse (k.base apiUrl) = .ok base) (token : DeployToken)
    (s : Surroundings) :
    (∀ q, ((Errand.host (.ofBase apiUrl token) k).requests s).head? = some q →
      q.Presents base token) ∧
    (s.network.connects base = true → isHeaderValue token.value = true →
      k.IsReady apiUrl s.files →
      (∀ d u, k.draft (.ofBase apiUrl token) s.files = .ok d → Url.parse d.address = .ok u →
        isSendable u = true) →
      ∃ q, ((Errand.host (.ofBase apiUrl token) k).requests s).head? = some q) := by
  constructor
  · intro q hq
    obtain ⟨d, hd, hmakes, -⟩ := Errand.makes_of_head? hq
    exact presents_of_makes hbase hd hmakes
  · intro hc htoken hk hfits
    have hweb := Network.isWebScheme_of_connects hc
    obtain ⟨d, u, hd, hu, hscheme, hheaders, hbody⟩ := draft_of_isReady hbase hweb htoken hk
    rw [← Network.connects_congr _ hscheme] at hc
    exact Errand.exists_head? hd hu hc hheaders (hfits d u hd hu) hbody

/-- An upload to an address with a port, a path, a query and a template presents the client. -/
theorem presents_client_sample :
    ∃ base k, k = .upload ⟨1, "v", none, "http://h:81/x?y\x7b?name\x7d", none, []⟩
        ⟨.ofText "b/a", "a", "a", 1, ""⟩ octetStream true ∧
      Url.parse (k.base "http://h") = .ok base ∧
      (∀ q, ((Errand.host (.ofBase "http://h" ⟨"t"⟩) k).requests (Sample.surroundings [])).head? =
        some q → q.Presents base ⟨"t"⟩) ∧
      ∃ q, ((Errand.host (.ofBase "http://h" ⟨"t"⟩) k).requests (Sample.surroundings [])).head? =
        some q := by
  generalize hk : HostErrand.upload ⟨1, "v", none, "http://h:81/x?y\x7b?name\x7d", none, []⟩
    ⟨.ofText "b/a", "a", "a", 1, ""⟩ octetStream true = k
  have hbase : Url.parse (k.base "http://h") = .ok ⟨['h', 't', 't', 'p'], [], none, some ['h'],
      some 81, .segments [['x']], some ['y'], none⟩ := by
    subst hk
    decide +kernel
  have hurl : uploadEndpoint "http://h:81/x?y\x7b?name\x7d" "a" = .ok ⟨['h', 't', 't', 'p'], [],
      none, some ['h'], some 81, .segments [['x']], some "y&name=a".toList, none⟩ := by
    decide +kernel
  have hread : Url.parse (Url.text ⟨['h', 't', 't', 'p'], [], none, some ['h'], some 81,
      .segments [['x']], some "y&name=a".toList, none⟩) = .ok ⟨['h', 't', 't', 'p'], [],
      none, some ['h'], some 81, .segments [['x']], some "y&name=a".toList, none⟩ := by
    decide +kernel
  obtain ⟨hpresents, hsent⟩ := presents_client hbase ⟨"t"⟩ (Sample.surroundings [])
  refine ⟨_, k, rfl, hbase, hpresents, hsent rfl (by decide) ?_ ?_⟩
  · subst hk
    exact ⟨by decide, ⟨_, _, hurl, hread⟩, [1], by decide, rfl⟩
  · intro d u hd hu
    subst hk
    obtain ⟨url, node, hurl', -, rfl⟩ := draft_upload_eq_ok_iff.mp hd
    obtain rfl := Except.ok.inj (hurl.symm.trans hurl')
    obtain rfl := Except.ok.inj (hread.symm.trans hu)
    decide

/-- **User info stands before the token**: a request to a base address with a user name and a password is
authorized twice. -/
theorem credentials_precede_token :
    ((Errand.host (.ofBase "http://u:p@h" ⟨"t"⟩) (.repository "o" "a")).requests
      (Sample.surroundings [])).map (·.authorizations) = [["Basic dTpw", "Bearer t"]] := by
  decide +kernel

end HostErrand

end ReleasePublisher

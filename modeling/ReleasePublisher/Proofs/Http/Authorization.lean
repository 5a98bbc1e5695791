import ReleasePublisher.Proofs.Http.Requests

/-!
# Where an authorization travels

Along a chain of redirects, a request keeps the authorization of the one before if host and port stay
the same, and otherwise has none. So what the first request is authorized with travels only as long as no
hop has left its host and port, and it is not taken up again where the chain returns.

## Main definitions

* `Request.authorizations r`, `Request.CarriesBearer r`: what a request is authorized with
* `IsConfined may rs`: a token travels to addresses with `may` only, and not beyond the first hop that
  leaves the host and port of the first request

## Main results

* `authorizations_nextHop`: one hop keeps the authorization, or drops it
* `Asked.authorizations_eq`: an authorized request is authorized as the first one, and no request up to it
  has left the host and port of that
* `send_isConfined`: the token of a draft goes to the host and port of its address
-/

namespace ReleasePublisher

namespace Url

theorem sameOrigin_iff {u v : Url} :
    u.sameOrigin v = true ↔ u.host = v.host ∧ u.effectivePort = v.effectivePort := by
  simp [sameOrigin]

theorem sameOrigin_refl (u : Url) : u.sameOrigin u = true :=
  sameOrigin_iff.mpr ⟨rfl, rfl⟩

theorem sameOrigin_trans {u v w : Url} (h : u.sameOrigin v = true) (h' : v.sameOrigin w = true) :
    u.sameOrigin w = true := by
  obtain ⟨hhost, hport⟩ := sameOrigin_iff.mp h
  obtain ⟨hhost', hport'⟩ := sameOrigin_iff.mp h'
  exact sameOrigin_iff.mpr ⟨hhost.trans hhost', hport.trans hport'⟩

end Url

/-! ### One hop -/

namespace Request

/-- What a request is authorized with. -/
def authorizations (r : Request) : List String :=
  r.headers.values "authorization"

/-- **The request carries a bearer token** in its authorization. -/
def CarriesBearer (r : Request) : Prop :=
  ∃ token, "Bearer " ++ token ∈ r.authorizations

theorem CarriesBearer.ne_nil {r : Request} (h : r.CarriesBearer) : r.authorizations ≠ [] := by
  obtain ⟨token, ht⟩ := h
  exact List.ne_nil_of_mem ht

end Request

theorem authorization_hopHeaders (hs : Headers) (source next : Url) :
    Headers.values (hopHeaders hs source next) "authorization" =
      if source.sameOrigin next = true then hs.values "authorization" else [] := by
  have hreferer : Headers.values (hs.without "referer" ++ [("referer", source.target.text)])
      "authorization" = hs.values "authorization" := by
    rw [Headers.values_append, Headers.values_without_of_ne (by decide), Headers.values_singleton,
      if_neg (by decide), List.append_nil]
  unfold hopHeaders
  by_cases hinsecure : (next.scheme == ['h', 't', 't', 'p'] &&
      source.scheme == ['h', 't', 't', 'p', 's']) = true
  · simp only [hinsecure, if_true]
    split
    · rfl
    · exact Headers.values_without _ _
  · simp only [hinsecure]
    split
    · exact hreferer
    · exact Headers.values_without _ _

/-- **One hop** keeps the authorization where host and port stay the same, and drops it elsewhere. -/
theorem authorizations_nextHop {r next : Request} {st : Bool} {a : Response}
    (h : nextHop r st a = some next) :
    next.authorizations =
      if r.url.sameOrigin next.url = true then r.authorizations else [] := by
  unfold nextHop at h
  split at h
  · cases h
  · obtain ⟨u, -, rfl⟩ := Option.map_eq_some_iff.mp h
    split
    · exact authorization_hopHeaders _ _ _
    · -- The other headers that are dropped are not the authorization.
      refine (authorization_hopHeaders _ _ _).trans ?_
      rw [Headers.values_without_of_ne (by decide), Headers.values_without_of_ne (by decide)]
      rfl

/-! ### Chains of redirects -/

/-- **An authorized request is authorized as the first one**, and no request up to it has left the host and
port of the first one. -/
theorem Asked.authorizations_eq {first : String} {n : Network} {r : Request} {st : Bool}
    {rs : List Request} {out : Except HttpFailure Response} (h : Asked first n r st rs out)
    {i j : Nat} {p q : Request} (hp : rs[i]? = some p) (hq : rs[j]? = some q) (hij : i ≤ j)
    (hne : q.authorizations ≠ []) :
    q.authorizations = r.authorizations ∧ r.url.sameOrigin p.url = true := by
  -- By induction on the chain. An authorized request further on makes the next one authorized, and so
  -- that one has the host and port of this one.
  induction h generalizing i j p with
  | @hop n r st a next rs out hc hd hn hw h ih =>
    cases j with
    | zero =>
      obtain rfl : i = 0 := Nat.le_zero.mp hij
      obtain rfl : r = q := by simpa using hq
      obtain rfl : r = p := by simpa using hp
      exact ⟨rfl, r.url.sameOrigin_refl⟩
    | succ j =>
      have hq : rs[j]? = some q := hq
      obtain ⟨hnext, -⟩ := ih hq hq (Nat.le_refl j)
      have hkept := authorizations_nextHop hn
      have hsame : r.url.sameOrigin next.url = true := by
        by_cases hs : r.url.sameOrigin next.url = true
        · exact hs
        · rw [if_neg hs] at hkept
          exact absurd (hnext.trans hkept) hne
      rw [if_pos hsame] at hkept
      refine ⟨hnext.trans hkept, ?_⟩
      cases i with
      | zero =>
        obtain rfl : r = p := by simpa using hp
        exact r.url.sameOrigin_refl
      | succ i =>
        have hp : rs[i]? = some p := hp
        exact Url.sameOrigin_trans hsame (ih hp hq (Nat.le_of_succ_le_succ hij)).2
  | unreached => cases hp
  | _ =>
    obtain rfl := List.mem_singleton.mp (List.mem_of_getElem? hp)
    obtain rfl := List.mem_singleton.mp (List.mem_of_getElem? hq)
    exact ⟨rfl, Url.sameOrigin_refl _⟩

/-! ### Tokens -/

/-- **A bearer token is confined** in the requests of a call: it travels to addresses with `may` only, and
it is not told any more from the first request on that has left the host and port of the first one. -/
structure IsConfined (may : Url → Prop) (rs : List Request) : Prop where
  addresses : ∀ q ∈ rs, q.CarriesBearer → may q.url
  stays : ∀ (first p q : Request) (i j : Nat), rs[0]? = some first → rs[i]? = some p →
    rs[j]? = some q → i ≤ j → first.url.sameOrigin p.url = false → ¬ q.CarriesBearer

theorem IsConfined.nil (may : Url → Prop) : IsConfined may [] where
  addresses := by simp
  stays := by simp

theorem IsConfined.mono {may may' : Url → Prop} {rs : List Request} (h : IsConfined may rs)
    (hmay : ∀ u, may u → may' u) : IsConfined may' rs where
  addresses q hq hb := hmay _ (h.addresses q hq hb)
  stays := h.stays

/-- Credentials that an address states are no bearer token. -/
theorem basicValue_ne_bearer (username : String) (password : Option String) (token : String) :
    basicValue username password ≠ "Bearer " ++ token := by
  intro h
  have hlist := congrArg String.toList h
  rw [basicValue, String.toList_append, String.toList_append] at hlist
  exact absurd (List.cons.inj (List.cons.inj hlist).2).1 (by decide)

/-- A request carries no other bearer token than its draft. -/
theorem Draft.Makes.bearer {d : Draft} {r : Request} (h : d.Makes r) (hr : r.CarriesBearer) :
    ∃ token, "Bearer " ++ token ∈ d.headers.values "authorization" := by
  obtain ⟨u, -, -, -, hheaders⟩ := h.eq
  obtain ⟨token, ht⟩ := hr
  unfold Request.authorizations at ht
  rw [hheaders, Draft.values_allHeaders _ _ (by decide) (by decide), if_pos rfl, if_neg (by decide),
    List.append_nil] at ht
  rcases List.mem_append.mp ht with ht | ht
  · obtain ⟨username, password, hbasic⟩ := takeCredentials_snd (Option.mem_toList.mp ht)
    exact absurd hbasic.symm (basicValue_ne_bearer username password token)
  · exact ⟨token, ht⟩

/-- **The token of a draft** goes to the host and port of its address. -/
theorem send_isConfined {d : Draft} {may : Url → Prop} (n : Network)
    (hmay : ∀ token u v, "Bearer " ++ token ∈ d.headers.values "authorization" →
      Url.parse d.address = .ok u → isWebScheme u = true → u.sameOrigin v = true → may v) :
    ∃ rs, IsConfined may rs ∧ (send d n).2 = n.after rs := by
  rcases hs : send d n with ⟨out, n'⟩
  rcases send_cases hs with ⟨e, -, rfl⟩ | ⟨r, rs, hr, -, rfl, ha⟩
  · -- Nothing was sent.
    exact ⟨[], .nil may, n'.after_nil.symm⟩
  · refine ⟨rs, ⟨fun q hq hb => ?_, fun first p q i j hfirst hp hq hij hleft hb => ?_⟩, rfl⟩
    · obtain ⟨k, hk⟩ := List.mem_iff_getElem?.mp hq
      obtain ⟨hsame, horigin⟩ := ha.authorizations_eq hk hk (Nat.le_refl k) hb.ne_nil
      have hbearer : r.CarriesBearer := by
        obtain ⟨token, ht⟩ := hb
        exact ⟨token, hsame ▸ ht⟩
      obtain ⟨token, ht⟩ := hr.bearer hbearer
      obtain ⟨u, hu, hweb, hurl, -⟩ := hr.eq
      have hu' : u.sameOrigin r.url = true := by
        rw [hurl]
        exact (takeCredentials_fst u).1
      exact hmay token u q.url ht hu hweb (Url.sameOrigin_trans hu' horigin)
    · obtain ⟨-, horigin⟩ := ha.authorizations_eq hp hq hij hb.ne_nil
      obtain ⟨qs, rfl⟩ := ha.eq_cons (by rintro rfl; cases hfirst)
      obtain rfl : r = first := by simpa using hfirst
      rw [horigin] at hleft
      cases hleft

end ReleasePublisher

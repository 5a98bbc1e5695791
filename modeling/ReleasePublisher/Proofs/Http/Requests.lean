import ReleasePublisher.Proofs.Http.Redirects

/-!
# What a request is made of

A request goes to the address of its draft, without the user info that this address may state, and it
has the headers of the draft, those of the client, and the length of the body.

## Main results

* `takeCredentials_fst`: user info is all that is taken out of an address
* `Draft.build_eq_ok`, `Draft.Makes.eq`: the address and the headers of a request
* `Draft.values_allHeaders`, `Draft.values_allHeaders_default`: the values of a header that a draft sends
* `head?_of_send`, `send_of_makes`: the first request is the one that the draft makes, where it can be
* `after_of_send_ok`: where there was an answer, there was a request
-/

namespace ReleasePublisher

/-! ### Values of headers -/

namespace Headers

theorem values_append (hs ks : Headers) (name : String) :
    Headers.values (hs ++ ks) name = hs.values name ++ ks.values name := by
  unfold values
  rw [List.filter_append, List.map_append]

theorem values_singleton (name value other : String) :
    Headers.values [(name, value)] other = if name = other then [value] else [] := by
  unfold values
  by_cases h : name = other <;> simp [h]

theorem values_withDefault_of_ne {name other : String} (h : name ≠ other) (hs : Headers)
    (value : String) : Headers.values (hs.withDefault name value) other = hs.values other := by
  unfold withDefault
  split
  · rw [values_append, values_singleton, if_neg h, List.append_nil]
  · rfl

/-- A header that is set keeps its values; else it has the default. -/
theorem values_withDefault (hs : Headers) (name value : String) :
    Headers.values (hs.withDefault name value) name =
      if (hs.values name).isEmpty then [value] else hs.values name := by
  unfold withDefault
  split
  · rename_i hempty
    rw [values_append, values_singleton, if_pos rfl, List.isEmpty_iff.mp hempty, List.nil_append]
  · rfl

theorem values_without_of_ne {name other : String} (h : name ≠ other) (hs : Headers) :
    Headers.values (hs.without name) other = hs.values other := by
  unfold values without
  rw [List.filter_filter]
  congr 1
  refine List.filter_congr fun x _ => ?_
  by_cases hx : x.1 = other
  · simp [hx, h.symm]
  · simp [hx]

theorem values_without (hs : Headers) (name : String) :
    Headers.values (hs.without name) name = [] := by
  unfold values without
  rw [List.filter_filter]
  simp

end Headers

/-! ### Addresses and headers -/

/-- User name and password stay in an address, or are told in the basic form. -/
theorem takeCredentials_cases (u : Url) :
    takeCredentials u = (u, none) ∨
      ∃ username password, takeCredentials u = (u.hidden, some (basicValue username password)) := by
  unfold takeCredentials
  extract_lets plain
  split
  · exact .inl rfl
  · split
    · exact .inl rfl
    · exact .inr ⟨_, _, rfl⟩

/-- **Taking user name and password out of an address** leaves its other parts as they are. -/
theorem takeCredentials_fst (u : Url) :
    u.sameOrigin (takeCredentials u).1 = true ∧ (takeCredentials u).1.query = u.query ∧
      isWebScheme (takeCredentials u).1 = isWebScheme u := by
  have hself : u.sameOrigin u = true := by simp [Url.sameOrigin]
  rcases takeCredentials_cases u with h | ⟨username, password, h⟩
  · rw [h]
    exact ⟨hself, rfl, rfl⟩
  · rw [h]
    exact ⟨hself, rfl, rfl⟩

theorem scheme_takeCredentials (u : Url) : (takeCredentials u).1.scheme = u.scheme := by
  rcases takeCredentials_cases u with h | ⟨username, password, h⟩
  · rw [h]
  · rw [h]
    rfl

theorem takeCredentials_snd {u : Url} {v : String} (h : v ∈ (takeCredentials u).2) :
    ∃ username password, v = basicValue username password := by
  rcases takeCredentials_cases u with heq | ⟨username, password, heq⟩
  · rw [heq] at h
    cases h
  · rw [heq] at h
    exact ⟨username, password, (Option.some.inj h).symm⟩

theorem isHeaderValue_append (s t : String) :
    isHeaderValue (s ++ t) = (isHeaderValue s && isHeaderValue t) := by
  simp [isHeaderValue]

namespace Draft

variable {d : Draft} {r : Request}

/-- **A request that is built** goes to the address of its draft. -/
theorem build_eq_ok (h : d.build = .ok r) :
    ∃ u, Url.parse d.address = .ok u ∧ isWebScheme u = true ∧ r.url = (takeCredentials u).1 ∧
      r.headers = d.allHeaders (takeCredentials u).2 := by
  unfold build at h
  split at h
  · cases h
  · rename_i u hu
    split at h
    · cases h
    split at h
    · cases h
    dsimp only at h
    split at h
    · rename_i hweb
      obtain rfl := Except.ok.inj h
      refine ⟨u, hu, ?_, rfl, rfl⟩
      rw [← (takeCredentials_fst u).2.2]
      exact (Bool.and_eq_true _ _ ▸ hweb).1
    · cases h

/-- **A request that is made** goes to the address of its draft. -/
theorem Makes.eq (h : d.Makes r) :
    ∃ u, Url.parse d.address = .ok u ∧ isWebScheme u = true ∧ r.url = (takeCredentials u).1 ∧
      r.headers = d.allHeaders (takeCredentials u).2 := by
  unfold Makes at h
  split at h
  · exact build_eq_ok h
  · obtain ⟨q, pieces, hq, -, rfl⟩ := h
    obtain ⟨u, hu, hweb, hurl, hheaders⟩ := build_eq_ok hq
    exact ⟨u, hu, hweb, hurl, hheaders⟩

/-- **The values of a header** are those of the draft, where the client does not add the header. -/
theorem values_allHeaders (d : Draft) (credentials : Option String) {name : String}
    (hagent : "user-agent" ≠ name) (haccept : "accept" ≠ name) :
    Headers.values (d.allHeaders credentials) name =
      (if "authorization" = name then credentials.toList else []) ++ d.headers.values name ++
        if "content-length" = name then d.payload.toList.map fun p => toString p.length else [] := by
  have hfull : ∀ hs : Headers, Headers.values
      ((hs.withDefault "user-agent" agentName).withDefault "accept" "*/*") name =
        hs.values name := by
    intro hs
    rw [Headers.values_withDefault_of_ne haccept, Headers.values_withDefault_of_ne hagent]
  have hcredentials : Headers.values (credentials.toList.map fun v => ("authorization", v)) name =
      if "authorization" = name then credentials.toList else [] := by
    cases credentials with
    | none =>
      split <;> rfl
    | some v => exact Headers.values_singleton _ _ _
  unfold allHeaders
  cases d.payload with
  | none =>
    dsimp only
    rw [hfull, Headers.values_append, hcredentials]
    simp
  | some p =>
    dsimp only
    rw [Headers.values_append, hfull, Headers.values_append, hcredentials, Headers.values_singleton]
    rfl

/-- **What the client adds by itself**: its name and what it accepts, unless the draft says so. -/
theorem values_allHeaders_default (d : Draft) (credentials : Option String) :
    Headers.values (d.allHeaders credentials) "user-agent" =
        (if (d.headers.values "user-agent").isEmpty then [agentName]
          else d.headers.values "user-agent") ∧
      Headers.values (d.allHeaders credentials) "accept" =
        if (d.headers.values "accept").isEmpty then ["*/*"] else d.headers.values "accept" := by
  have hown (name : String) (hname : "authorization" ≠ name) : Headers.values
      ((credentials.toList.map fun v => ("authorization", v)) ++ d.headers) name =
        d.headers.values name := by
    rw [Headers.values_append]
    cases credentials with
    | none => rfl
    | some v =>
      show Headers.values [("authorization", v)] name ++ _ = _
      rw [Headers.values_singleton, if_neg hname]
      rfl
  have hfull (name : String) (hname : "content-length" ≠ name) :
      Headers.values (d.allHeaders credentials) name = Headers.values ((Headers.withDefault
        ((credentials.toList.map fun v => ("authorization", v)) ++ d.headers)
          "user-agent" agentName).withDefault "accept" "*/*") name := by
    unfold allHeaders
    cases d.payload with
    | none => rfl
    | some p =>
      dsimp only
      rw [Headers.values_append, Headers.values_singleton, if_neg hname, List.append_nil]
  constructor
  · rw [hfull _ (by decide), Headers.values_withDefault_of_ne (by decide),
      Headers.values_withDefault, hown _ (by decide)]
  · rw [hfull _ (by decide), Headers.values_withDefault,
      Headers.values_withDefault_of_ne (by decide), hown _ (by decide)]

/-- The length of an address does not count its user info. -/
theorem isSendable_takeCredentials (u : Url) : isSendable (takeCredentials u).1 = isSendable u := by
  rcases takeCredentials_cases u with h | ⟨username, password, h⟩
  · rw [h]
  · rw [h]
    rfl

/-- **A request can be built** for an address that is read, names a host and is not too long, from
headers that can be sent. -/
theorem build_of_parse {u : Url} (hu : Url.parse d.address = .ok u) (hhost : u.hasHost = true)
    (hheaders : d.headers.all (isHeaderValue ·.2) = true) (hweb : isWebScheme u = true)
    (hfits : isSendable u = true) : ∃ r, d.build = .ok r := by
  have hsend : (isWebScheme (takeCredentials u).1 && isSendable (takeCredentials u).1) = true := by
    rw [(takeCredentials_fst u).2.2, isSendable_takeCredentials, hweb, hfits]
    rfl
  unfold build
  rw [hu]
  simp only [hhost, hheaders, hsend, Bool.not_true, Bool.false_eq_true, if_false, if_true]
  exact ⟨_, rfl⟩

/-- A request that is built is made with its body, if that can be read and is as long as promised. -/
theorem exists_makes (hr : d.build = .ok r)
    (hbody : ∀ p ∈ d.payload, ∃ pieces, p.pieces = .ok pieces ∧ p.length ≤ pieces.flatten.length) :
    ∃ q, d.Makes q ∧ q.url = r.url ∧ ∀ p ∈ d.payload, p.length ≤ q.body.length := by
  cases hp : d.payload with
  | none => exact ⟨r, by simpa [Makes, hp] using hr, rfl, by simp⟩
  | some p =>
    obtain ⟨pieces, hpieces, hle⟩ := hbody p hp
    refine ⟨{ r with body := pieces.flatten.take p.length }, ?_, rfl, ?_⟩
    · simp only [Makes, hp]
      exact ⟨r, pieces, hr, hpieces, rfl⟩
    · rintro _ ⟨⟩
      rw [List.length_take]
      exact Nat.le_min.mpr ⟨Nat.le_refl _, hle⟩

end Draft

/-! ### The first request -/

/-- **What is sent first** is the request that the draft makes. -/
theorem head?_of_send {d : Draft} {n n' : Network} {out : Except HttpFailure Response} {q : Request}
    (h : send d n = (out, n')) (hq : (n'.sent.drop n.sent.length).head? = some q) :
    d.Makes q ∧ n.connects q.url = true := by
  rcases send_cases h with ⟨e, -, rfl⟩ | ⟨r, rs, hr, -, rfl, ha⟩
  · rw [List.drop_length] at hq
    cases hq
  · rw [Network.sent_after, List.drop_left] at hq
    obtain ⟨qs, rfl⟩ := ha.eq_cons (by rintro rfl; cases hq)
    obtain rfl : r = q := by simpa using hq
    refine ⟨hr, ?_⟩
    cases ha <;> assumption

/-- **An answer is an answer to a request**: where there is one in the end, something was sent. -/
theorem after_of_send_ok {d : Draft} {n n' : Network} {a : Response} (h : send d n = (.ok a, n')) :
    ∃ rs, rs ≠ [] ∧ n' = n.after rs := by
  rcases send_cases h with ⟨e, he, -⟩ | ⟨r, rs, -, -, hn, ha⟩
  · cases he
  · obtain ⟨qs, q, rfl, -⟩ := ha.of_ok
    exact ⟨_, by simp, hn⟩

/-- **The request that a draft makes is sent** where it can be: the other side can be reached, and the
body has the promised length. -/
theorem send_of_makes {d : Draft} {n : Network} {r : Request} (hr : d.Makes r)
    (hc : n.connects r.url = true) (hbody : ∀ p ∈ d.payload, p.length ≤ r.body.length) :
    ∃ rs, (send d n).2 = n.after (r :: rs) := by
  have hfollow : ∀ first r st, n.connects r.url = true →
      ∃ rs, (follow first maxRedirects r st n).2 = n.after (r :: rs) := by
    intro first r st hc
    obtain ⟨rs, -, hn, ha⟩ := follow_asked first maxRedirects r st n
    obtain ⟨qs, rfl⟩ := ha.exists_eq_cons hc
    exact ⟨qs, hn⟩
  unfold Draft.Makes at hr
  unfold send
  cases hp : d.payload with
  | none =>
    simp only [hp] at hr
    simp only [hr]
    exact hfollow _ _ _ hc
  | some p =>
    simp only [hp] at hr
    obtain ⟨q, pieces, hq, hpieces, rfl⟩ := hr
    have hcq : n.connects q.url = true := hc
    have hlong : ¬ pieces.flatten.length < p.length := by
      have hle := hbody p hp
      rw [List.length_take] at hle
      omega
    simp only [hq, hpieces, hcq, Bool.not_true, Bool.false_and, Bool.false_eq_true, if_false,
      Bool.true_and, decide_eq_true_eq, if_neg hlong]
    exact hfollow _ _ _ hc

end ReleasePublisher

import ReleasePublisher.Proofs.Http.Redirects

/-!
# Requests without their authorization

What the client does depends on the names of headers, and never on what an authorization says. Thus
two drafts that differ in their authorization only lead to the same answer, and to requests that are
the same but for it.

## Main definitions

* `Headers.masked`, `Request.masked`, `Network.masked`: without what authorizations say
* `Draft.Alike d d'`: the drafts are the same but for what authorizations say

## Main results

* `nextHop_masked`, `follow_masked`: masking changes nothing else in a redirected request
* `Draft.Alike.send_eq`: alike drafts lead to the same outcome and to alike networks
-/

namespace ReleasePublisher

/-! ### Headers -/

/-- A header; of an authorization only the name. -/
def maskHeader (h : String × String) : String × String :=
  if h.1 == "authorization" then (h.1, "") else h

@[simp] theorem maskHeader_fst (h : String × String) : (maskHeader h).1 = h.1 := by
  unfold maskHeader
  split <;> rfl

namespace Headers

/-- The headers without what authorizations say. -/
def masked (hs : Headers) : Headers :=
  hs.map maskHeader

@[simp] theorem masked_append (hs ks : Headers) : masked (hs ++ ks) = masked hs ++ masked ks :=
  List.map_append

theorem masked_without (hs : Headers) (name : String) :
    masked (hs.without name) = (masked hs).without name := by
  unfold masked without
  rw [List.filter_map]
  congr 1
  refine List.filter_congr fun h _ => ?_
  simp

/-- Masking keeps the names. -/
theorem isEmpty_values_masked (hs : Headers) (name : String) :
    ((masked hs).values name).isEmpty = (hs.values name).isEmpty := by
  simp only [values, masked, List.isEmpty_map, List.filter_map]
  congr 2
  funext h
  simp

theorem masked_withDefault {hs ks : Headers} (h : masked hs = masked ks) (name value : String) :
    masked (hs.withDefault name value) = masked (ks.withDefault name value) := by
  have hv : (hs.values name).isEmpty = (ks.values name).isEmpty := by
    rw [← isEmpty_values_masked, h, isEmpty_values_masked]
  unfold withDefault
  rw [hv]
  split
  · rw [masked_append, masked_append, h]
  · exact h

end Headers

/-! ### Requests and networks -/

/-- The request without what its authorizations say. -/
def Request.masked (r : Request) : Request :=
  { r with headers := Headers.masked r.headers }

@[simp] theorem Request.masked_url (r : Request) : r.masked.url = r.url := rfl

/-- The network; of the requests, all but what authorizations say. -/
def Network.masked (n : Network) : Network :=
  { n with sent := n.sent.map Request.masked }

@[simp] theorem Network.connects_masked (n : Network) (u : Url) :
    n.masked.connects u = n.connects u := rfl

theorem hopHeaders_masked (hs : Headers) (source next : Url) :
    hopHeaders (Headers.masked hs) source next = Headers.masked (hopHeaders hs source next) := by
  have hreferer : ∀ v : String, Headers.masked [("referer", v)] = [("referer", v)] := fun _ => rfl
  unfold hopHeaders
  split <;> split <;>
    simp only [Headers.masked_without, Headers.masked_append, hreferer]

/-- **Masking a request masks the one that it is redirected to**, and nothing else. -/
theorem nextHop_masked (r : Request) (st : Bool) (a : Response) :
    nextHop r.masked st a = (nextHop r st a).map Request.masked := by
  unfold nextHop
  split
  · rfl
  · rw [Option.map_map, Request.masked_url]
    refine Option.map_congr fun next _ => ?_
    cases hk : keepsBody a.status with
    | true => simp [Request.masked, hopHeaders_masked]
    | false => simp [Request.masked, ← hopHeaders_masked, Headers.masked_without]

theorem exchange_masked (n : Network) (r : Request) :
    n.masked.exchange r.masked = ((n.exchange r).1, (n.exchange r).2.masked) := by
  cases hc : n.connects r.url with
  | false =>
    rw [Network.exchange_of_not_connects hc, Network.exchange_of_not_connects (by exact hc)]
  | true =>
    rw [Network.exchange_of_connects hc, Network.exchange_of_connects (by exact hc)]
    simp [Network.masked, Network.after, Network.delivery]

/-- **Masking commutes with following redirects.** -/
theorem follow_masked (first : String) (allowed : Nat) (r : Request) (st : Bool) (n : Network) :
    follow first allowed r.masked st n.masked =
      ((follow first allowed r st n).1, (follow first allowed r st n).2.masked) := by
  rw [follow, follow, exchange_masked]
  rcases n.exchange r with ⟨_ | a, n₁⟩
  · rfl
  · dsimp only
    rw [nextHop_masked]
    cases nextHop r st a with
    | none => rfl
    | some next =>
      dsimp only [Option.map_some]
      cases allowed with
      | zero => rfl
      | succ allowed =>
        dsimp only
        rw [Request.masked_url]
        split
        · exact follow_masked first allowed next _ n₁
        · rfl
termination_by allowed

/-- Requests that are the same but for what authorizations say are redirected alike. -/
theorem follow_congr (first : String) (allowed : Nat) (st : Bool) {r r' : Request} {n n' : Network}
    (hr : r.masked = r'.masked) (hn : n.masked = n'.masked) :
    (follow first allowed r st n).1 = (follow first allowed r' st n').1 ∧
      (follow first allowed r st n).2.masked = (follow first allowed r' st n').2.masked := by
  have h := follow_masked first allowed r st n
  rw [hr, hn, follow_masked] at h
  exact ⟨(Prod.mk.inj h).1.symm, (Prod.mk.inj h).2.symm⟩

/-! ### Drafts -/

/-- **The drafts are the same** but for what authorizations say, which can stand in a header in both or
in neither. -/
structure Draft.Alike (d d' : Draft) : Prop where
  method_eq : d.method = d'.method
  address_eq : d.address = d'.address
  payload_eq : d.payload = d'.payload
  masked_eq : Headers.masked d.headers = Headers.masked d'.headers
  valid_eq : d.headers.all (isHeaderValue ·.2) = d'.headers.all (isHeaderValue ·.2)

namespace Draft.Alike

variable {d d' : Draft}

theorem refl (d : Draft) : d.Alike d := ⟨rfl, rfl, rfl, rfl, rfl⟩

theorem allHeaders_masked (h : d.Alike d') (credentials : Option String) :
    Headers.masked (d.allHeaders credentials) = Headers.masked (d'.allHeaders credentials) := by
  have hown : Headers.masked ((credentials.toList.map fun v => ("authorization", v)) ++ d.headers) =
      Headers.masked ((credentials.toList.map fun v => ("authorization", v)) ++ d'.headers) := by
    rw [Headers.masked_append, Headers.masked_append, h.masked_eq]
  have hfull := Headers.masked_withDefault (Headers.masked_withDefault hown "user-agent" agentName)
    "accept" "*/*"
  unfold allHeaders
  rw [h.payload_eq]
  cases d'.payload with
  | none => exact hfull
  | some p => exact (Headers.masked_append _ _).trans (by rw [hfull, Headers.masked_append])

/-- Alike drafts are refused for the same reason, or make requests that are alike. -/
theorem build_cases (h : d.Alike d') :
    (∃ e, d.build = .error e ∧ d'.build = .error e) ∨
      ∃ r r', d.build = .ok r ∧ d'.build = .ok r' ∧ r.masked = r'.masked := by
  unfold build
  rw [h.address_eq, h.valid_eq]
  cases Url.parse d'.address with
  | error e => exact .inl ⟨_, rfl, rfl⟩
  | ok u =>
    dsimp only
    split
    · exact .inl ⟨_, rfl, rfl⟩
    · split
      · exact .inl ⟨_, rfl, rfl⟩
      · rcases takeCredentials u with ⟨v, credentials⟩
        dsimp only
        split
        · refine .inr ⟨_, _, rfl, rfl, ?_⟩
          simp only [Request.masked, h.method_eq, h.allHeaders_masked]
        · exact .inl ⟨_, rfl, rfl⟩

/-- **Sending alike drafts** leads to the same outcome, and to networks that are alike. -/
theorem send_eq (h : d.Alike d') {n n' : Network} (hn : n.masked = n'.masked) :
    (send d n).1 = (send d' n').1 ∧ (send d n).2.masked = (send d' n').2.masked := by
  rcases h.build_cases with ⟨e, he, he'⟩ | ⟨r, r', hr, hr', hm⟩
  · simp only [send, he, he']
    exact ⟨trivial, hn⟩
  · obtain ⟨hmethod, hurl, hheaders, -⟩ : r.method = r'.method ∧ r.url = r'.url ∧
        Headers.masked r.headers = Headers.masked r'.headers ∧ r.body = r'.body := by
      simpa only [Request.masked, Request.mk.injEq] using hm
    have hconn : n.connects r'.url = n'.connects r'.url := by
      rw [← Network.connects_masked n, hn, Network.connects_masked]
    simp only [send, hr, hr', h.payload_eq, hurl, hconn]
    cases d'.payload with
    | none => exact follow_congr _ _ _ hm hn
    | some p =>
      dsimp only
      cases p.pieces with
      | error e => exact ⟨rfl, hn⟩
      | ok pieces =>
        dsimp only
        split
        · exact ⟨rfl, hn⟩
        · split
          · exact ⟨rfl, hn⟩
          · refine follow_congr _ _ _ ?_ hn
            simp only [Request.masked, hmethod, hheaders]

end Draft.Alike

end ReleasePublisher

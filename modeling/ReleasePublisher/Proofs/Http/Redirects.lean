import ReleasePublisher.Http.Client

/-!
# Asking and being redirected

What one draft does to the network: it sends a list of requests, each later one because the answer to
the one before leads there, and it ends with an answer or a failure.

## Main definitions

* `Network.delivery n k`, `Network.after n rs`: what arrives for the `k`-th next request, and the
  network after some requests
* `Asked first n r isStreamed rs out`: asking for `r` sends `rs` and ends with `out`
* `Draft.Makes d r`: the draft makes the request `r`
* `IsCall m n rs`: the requests of one call with the method `m`

## Main results

* `follow_asked`, `send_cases`: everything that following redirects, and sending a draft, can do
* `Asked.leads`: each request but the first is where the answer to the one before leads
* `Asked.tail_isPlain`: all requests but the first are plain, where the first is plain or its body is
  read while it is sent
* `send_isCall`: a draft makes one call
-/

namespace ReleasePublisher

namespace Network

/-- What arrives for the `k`-th of the next requests: nothing if the connection is closed. -/
def delivery (n : Network) (k : Nat) : Option Response :=
  match n.script[k]? with
  | none => some unscripted
  | some .dropped => none
  | some (.response a) => some (delivered a)

/-- The network after it was sent some requests. -/
def after (n : Network) (rs : List Request) : Network :=
  { n with script := n.script.drop rs.length, sent := n.sent ++ rs }

@[simp] theorem after_nil (n : Network) : n.after [] = n := by
  simp [after]

@[simp] theorem after_after (n : Network) (qs rs : List Request) :
    (n.after qs).after rs = n.after (qs ++ rs) := by
  simp [after]

@[simp] theorem sent_after (n : Network) (rs : List Request) :
    (n.after rs).sent = n.sent ++ rs := rfl

@[simp] theorem connects_after (n : Network) (rs : List Request) (u : Url) :
    (n.after rs).connects u = n.connects u := rfl

@[simp] theorem delivery_after (n : Network) (rs : List Request) (k : Nat) :
    (n.after rs).delivery k = n.delivery (rs.length + k) := by
  simp [delivery, after]

/-- Whether an address can be reached depends on its scheme. -/
theorem connects_congr (n : Network) {u v : Url} (h : u.scheme = v.scheme) :
    n.connects u = n.connects v := by
  rw [connects, connects, h]

/-- Only addresses with a scheme that the client speaks are reached. -/
theorem isWebScheme_of_connects {n : Network} {u : Url} (h : n.connects u = true) :
    isWebScheme u = true := by
  simp only [connects, Bool.and_eq_true, Bool.or_eq_true] at h
  simp only [isWebScheme, Bool.or_eq_true]
  exact h.2.imp_right And.right

theorem exchange_of_connects {n : Network} {r : Request} (h : n.connects r.url = true) :
    n.exchange r = (n.delivery 0, n.after [r]) := by
  rcases hs : n.script with _ | ⟨(_ | a), script⟩ <;> simp [exchange, delivery, after, h, hs]

theorem exchange_of_not_connects {n : Network} {r : Request} (h : n.connects r.url = false) :
    n.exchange r = (none, n) := by
  simp [exchange, h]

end Network

/-! ### Hops -/

/-- A request without a body that changes nothing on the other side. -/
def Request.IsPlain (r : Request) : Prop :=
  r.method = .get ∧ r.body = []

/-- An answer that tells of success leads nowhere. -/
theorem nextHop_of_isSuccess {r : Request} {st : Bool} {a : Response} (h : a.isSuccess = true) :
    nextHop r st a = none := by
  have hr : isRedirect a.status = false := by
    simp only [Response.isSuccess, Bool.and_eq_true, decide_eq_true_eq] at h
    simp [isRedirect]
    omega
  simp [nextHop, hr]

theorem isPlain_of_nextHop {r next : Request} {st : Bool} {a : Response}
    (h : nextHop r st a = some next) (hr : r.IsPlain ∨ st = true) : next.IsPlain := by
  unfold nextHop at h
  split at h
  · cases h
  · rename_i hs
    obtain ⟨u, -, rfl⟩ := Option.map_eq_some_iff.mp h
    cases hk : keepsBody a.status with
    | false => exact ⟨by simp, by simp⟩
    | true =>
      obtain ⟨hm, hb⟩ := hr.resolve_right (by rintro rfl; simp [hk] at hs)
      exact ⟨by simpa using hm, by simpa using hb⟩

/-- **Asking for `r`** on the network `n` sends the requests `rs` and ends with `out`. The body of `r`
may be read while it is sent; failures name the address `first`. -/
inductive Asked (first : String) :
    Network → Request → Bool → List Request → Except HttpFailure Response → Prop
  | unreached {n r st} : n.connects r.url = false → Asked first n r st [] (.error (.notSent first))
  | dropped {n r st} : n.connects r.url = true → n.delivery 0 = none →
      Asked first n r st [r] (.error (.notSent first))
  | answered {n r st a} : n.connects r.url = true → n.delivery 0 = some a →
      nextHop r st a = none → Asked first n r st [r] (.ok a)
  | tooMany {n r st a next} : n.connects r.url = true → n.delivery 0 = some a →
      nextHop r st a = some next → Asked first n r st [r] (.error (.tooManyRedirects first))
  | unspoken {n r st a next} : n.connects r.url = true → n.delivery 0 = some a →
      nextHop r st a = some next → isWebScheme next.url = false →
      Asked first n r st [r] (.error (.notBuilt (some first)))
  | hop {n r st a next rs out} : n.connects r.url = true → n.delivery 0 = some a →
      nextHop r st a = some next → isWebScheme next.url = true →
      Asked first (n.after [r]) next (st && keepsBody a.status) rs out →
      Asked first n r st (r :: rs) out

/-- **Following redirects** asks for a request, and for at most `allowed` others. -/
theorem follow_asked (first : String) (allowed : Nat) (r : Request) (st : Bool) (n : Network) :
    ∃ rs, rs.length ≤ allowed + 1 ∧ (follow first allowed r st n).2 = n.after rs ∧
      Asked first n r st rs (follow first allowed r st n).1 := by
  rw [follow]
  cases hc : n.connects r.url with
  | false =>
    rw [Network.exchange_of_not_connects hc]
    exact ⟨[], by simp, n.after_nil.symm, .unreached hc⟩
  | true =>
    rw [Network.exchange_of_connects hc]
    cases hd : n.delivery 0 with
    | none => exact ⟨[r], by simp, rfl, .dropped hc hd⟩
    | some a =>
      cases hn : nextHop r st a with
      | none => exact ⟨[r], by simp, by simpa only [hn] using ⟨trivial, .answered hc hd hn⟩⟩
      | some next =>
        cases allowed with
        | zero => exact ⟨[r], by simp, by simpa only [hn] using ⟨trivial, .tooMany hc hd hn⟩⟩
        | succ allowed =>
          cases hw : isWebScheme next.url with
          | false => exact ⟨[r], by simp, by simpa [hn, hw] using .unspoken hc hd hn hw⟩
          | true =>
            obtain ⟨rs, hl, he, ha⟩ :=
              follow_asked first allowed next (st && keepsBody a.status) (n.after [r])
            refine ⟨r :: rs, by simpa using hl, ?_⟩
            simp only [hn, hw, if_true]
            exact ⟨by rw [he, Network.after_after, List.singleton_append], .hop hc hd hn hw ha⟩
termination_by allowed

namespace Asked

variable {first : String} {n : Network} {r : Request} {st : Bool} {rs : List Request}
  {out : Except HttpFailure Response}

/-- The first request is the one that is asked for. -/
theorem eq_cons (h : Asked first n r st rs out) (hne : rs ≠ []) : ∃ qs, rs = r :: qs := by
  cases h with
  | unreached => exact absurd rfl hne
  | hop => exact ⟨_, rfl⟩
  | _ => exact ⟨[], rfl⟩

/-- The request that is asked for is sent where it can be. -/
theorem exists_eq_cons (h : Asked first n r st rs out) (hc : n.connects r.url = true) :
    ∃ qs, rs = r :: qs := by
  cases h with
  | unreached hc' =>
    rw [hc] at hc'
    cases hc'
  | hop => exact ⟨_, rfl⟩
  | _ => exact ⟨[], rfl⟩

/-- **Each request but the first** is where the answer to the one before leads. -/
theorem leads (h : Asked first n r st rs out) {k : Nat} {p q : Request} (hp : rs[k]? = some p)
    (hq : rs[k + 1]? = some q) :
    ∃ st' a, n.delivery k = some a ∧ nextHop p st' a = some q := by
  induction h generalizing k with
  | @hop n r st a next rs out hc hd hn hw h ih =>
    cases k with
    | zero =>
      obtain rfl : r = p := by simpa using hp
      obtain ⟨qs, rfl⟩ := h.eq_cons (by rintro rfl; simp at hq)
      obtain rfl : next = q := by simpa using hq
      exact ⟨st, a, hd, hn⟩
    | succ k =>
      obtain ⟨st', a', hd', hn'⟩ := ih hp hq
      exact ⟨st', a', by simpa [Nat.add_comm] using hd', hn'⟩
  | _ => simp at hq

/-- An answer that tells of success is the last one. -/
theorem of_isSuccess {qs : List Request} {a : Response} (h : Asked first n r st (r :: qs) out)
    (hd : n.delivery 0 = some a) (ha : a.isSuccess = true) : qs = [] ∧ out = .ok a := by
  have hn : nextHop r st a = none := nextHop_of_isSuccess ha
  cases h with
  | dropped _ hd' => cases hd.symm.trans hd'
  | answered _ hd' _ => exact ⟨rfl, congrArg Except.ok (Option.some.inj (hd'.symm.trans hd))⟩
  | tooMany _ hd' hn' | unspoken _ hd' hn' | hop _ hd' hn' =>
    obtain rfl := Option.some.inj (hd'.symm.trans hd)
    cases hn.symm.trans hn'

/-- The answer is the one to the last request. -/
theorem of_ok {a : Response} (h : Asked first n r st rs (.ok a)) :
    ∃ qs q, rs = qs ++ [q] ∧ n.delivery qs.length = some a := by
  generalize ho : Except.ok a = out at h
  induction h with
  | @answered n r st a' hc hd hn =>
    cases ho
    exact ⟨[], r, rfl, hd⟩
  | @hop n r st a' next rs out hc hd hn hw h ih =>
    obtain ⟨qs, q, rfl, hd'⟩ := ih ho
    exact ⟨r :: qs, q, rfl, by simpa [Nat.add_comm] using hd'⟩
  | _ => cases ho

/-- Where there is an answer in the end, there is one to the first request. -/
theorem delivery_zero {a : Response} (h : Asked first n r st rs (.ok a)) :
    ∃ b, n.delivery 0 = some b := by
  cases h with
  | answered _ hd _ | hop _ hd => exact ⟨_, hd⟩

theorem isPlain (h : Asked first n r st rs out) (hr : r.IsPlain) : ∀ q ∈ rs, q.IsPlain := by
  induction h with
  | unreached => simp
  | hop _ _ hn _ _ ih => exact List.forall_mem_cons.mpr ⟨hr, ih (isPlain_of_nextHop hn (.inl hr))⟩
  | _ => simpa using hr

/-- **All requests but the first are plain**, where the first is plain or its body is read while it is
sent: such a body is sent once. -/
theorem tail_isPlain (h : Asked first n r st rs out) (hr : r.IsPlain ∨ st = true) :
    ∀ q ∈ rs.tail, q.IsPlain := by
  cases h with
  | hop _ _ hn _ h => exact h.isPlain (isPlain_of_nextHop hn hr)
  | _ => simp

/-- Other requests follow exactly where the first answer leads to one. -/
theorem nextHop_eq_none_iff {qs : List Request} {a b : Response}
    (h : Asked first n r st (r :: qs) (.ok b)) (hd : n.delivery 0 = some a) :
    nextHop r st a = none ↔ qs = [] := by
  cases h with
  | answered _ hd' hn' =>
    obtain rfl := Option.some.inj (hd'.symm.trans hd)
    simp [hn']
  | hop _ hd' hn' _ h =>
    obtain rfl := Option.some.inj (hd'.symm.trans hd)
    obtain ⟨ps, q, rfl, -⟩ := h.of_ok
    simp [hn']

/-- If the last answer tells of success, the first one does exactly where no other request follows. -/
theorem isSuccess_iff {qs : List Request} {a b : Response}
    (h : Asked first n r st (r :: qs) (.ok b)) (hb : b.isSuccess = true)
    (hd : n.delivery 0 = some a) : a.isSuccess = true ↔ qs = [] := by
  refine ⟨fun ha => (h.of_isSuccess hd ha).1, ?_⟩
  rintro rfl
  obtain ⟨qs, q, hq, hd'⟩ := h.of_ok
  obtain ⟨rfl, -⟩ : qs = [] ∧ q = r := by
    cases qs <;> simp_all
  obtain rfl := Option.some.inj (hd.symm.trans hd')
  exact hb

end Asked

/-! ### Calls -/

/-- The request that a draft makes, with its body up to the promised length. -/
def Draft.Makes (d : Draft) (r : Request) : Prop :=
  match d.payload with
  | none => d.build = .ok r
  | some p => ∃ q pieces, d.build = .ok q ∧ p.pieces = .ok pieces ∧
      r = { q with body := pieces.flatten.take p.length }

theorem Draft.build_ok {d : Draft} {r : Request} (h : d.build = .ok r) :
    r.method = d.method ∧ r.body = [] := by
  unfold build at h
  split at h
  · cases h
  · split at h
    · cases h
    · split at h
      · cases h
      · dsimp only at h
        split at h
        · cases h
          exact ⟨rfl, rfl⟩
        · cases h

namespace Draft.Makes

variable {d : Draft} {r : Request}

theorem method_eq (h : d.Makes r) : r.method = d.method := by
  unfold Makes at h
  split at h
  · exact (build_ok h).1
  · obtain ⟨q, pieces, hq, -, rfl⟩ := h
    exact (build_ok hq).1

theorem isPlain (h : d.Makes r) (hp : d.payload = none) (hm : d.method = .get) : r.IsPlain := by
  simp only [Makes, hp] at h
  exact ⟨(build_ok h).1.trans hm, (build_ok h).2⟩

end Draft.Makes

/-- **Sending a draft** fails without a request, or asks for the request that the draft makes. -/
theorem send_cases {d : Draft} {n n' : Network} {out : Except HttpFailure Response}
    (h : send d n = (out, n')) :
    (∃ e, out = .error e ∧ n' = n) ∨
      ∃ r rs, d.Makes r ∧ rs.length ≤ maxRedirects + 1 ∧ n' = n.after rs ∧
        Asked r.url.text n r d.payload.isSome rs out := by
  unfold send at h
  cases hb : d.build with
  | error e =>
    simp only [hb, Prod.mk.injEq] at h
    exact .inl ⟨e, h.1.symm, h.2.symm⟩
  | ok r =>
    cases hp : d.payload with
    | none =>
      obtain ⟨rs, hl, hn, ha⟩ := follow_asked r.url.text maxRedirects r false n
      simp only [hb, hp] at h
      rw [h] at hn ha
      exact .inr ⟨r, rs, by simpa [Draft.Makes, hp] using hb, hl, hn, ha⟩
    | some p =>
      cases hs : p.pieces with
      | error e =>
        simp only [hb, hp, hs, Prod.mk.injEq] at h
        exact .inl ⟨_, h.1.symm, h.2.symm⟩
      | ok pieces =>
        simp only [hb, hp, hs] at h
        split at h
        · exact .inl ⟨_, (Prod.mk.inj h).1.symm, (Prod.mk.inj h).2.symm⟩
        · split at h
          · exact .inl ⟨_, (Prod.mk.inj h).1.symm, (Prod.mk.inj h).2.symm⟩
          · obtain ⟨rs, hl, hn, ha⟩ := follow_asked r.url.text maxRedirects
              { r with body := pieces.flatten.take p.length } true n
            rw [h] at hn ha
            exact .inr ⟨_, rs, by simpa [Draft.Makes, hp] using ⟨r, hb, pieces, hs, rfl⟩, hl, hn, ha⟩

/-- **The requests of one call** with the method `m`: at most eleven, the first with the method of the
call, the others plain and each where the answer to the one before leads. -/
structure IsCall (m : Method) (n : Network) (rs : List Request) : Prop where
  atMost : rs.length ≤ maxRedirects + 1
  asks : ∀ q ∈ rs.head?, q.method = m
  hops : ∀ q ∈ rs.tail, q.IsPlain
  leads : ∀ k p q, rs[k]? = some p → rs[k + 1]? = some q →
    ∃ st a, n.delivery k = some a ∧ nextHop p st a = some q

theorem IsCall.nil (m : Method) (n : Network) : IsCall m n [] where
  atMost := by simp
  asks := by simp
  hops := by simp
  leads := by simp

/-- All requests of a call that reads do so. -/
theorem IsCall.method_get {n : Network} {rs : List Request} (h : IsCall .get n rs) :
    ∀ q ∈ rs, q.method = .get := by
  cases rs with
  | nil => simp
  | cons q qs => exact List.forall_mem_cons.mpr ⟨h.asks q rfl, fun p hp => (h.hops p hp).1⟩

/-- Asking once for the request of a draft is one call. -/
theorem Asked.isCall {first : String} {n : Network} {d : Draft} {r : Request} {rs : List Request}
    {out : Except HttpFailure Response} (h : Asked first n r d.payload.isSome rs out)
    (hr : d.Makes r) (hl : rs.length ≤ maxRedirects + 1)
    (hd : d.payload.isSome = true ∨ d.method = .get) : IsCall d.method n rs where
  atMost := hl
  asks q hq := by
    obtain ⟨qs, rfl⟩ := h.eq_cons (by rintro rfl; simp at hq)
    obtain rfl : r = q := by simpa using hq
    exact hr.method_eq
  hops := by
    refine h.tail_isPlain ?_
    cases hp : d.payload with
    | some p => exact .inr rfl
    | none => exact .inl (hr.isPlain hp (hd.resolve_left (by simp [hp])))
  leads _ _ _ hp hq := h.leads hp hq

/-- **A draft makes one call.** -/
theorem send_isCall {d : Draft} (n : Network) (hd : d.payload.isSome = true ∨ d.method = .get) :
    ∃ rs, IsCall d.method n rs ∧ (send d n).2 = n.after rs := by
  rcases hs : send d n with ⟨out, n'⟩
  rcases send_cases hs with ⟨e, -, rfl⟩ | ⟨r, rs, hr, hl, rfl, ha⟩
  · exact ⟨[], .nil _ _, n'.after_nil.symm⟩
  · exact ⟨rs, ha.isCall hr hl hd, rfl⟩

end ReleasePublisher

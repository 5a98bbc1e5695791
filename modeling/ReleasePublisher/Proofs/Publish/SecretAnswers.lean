import ReleasePublisher.Proofs.Run.SideBySide
import ReleasePublisher.Release.Secret

/-!
# Scripts that state different tokens

Two scripts that are the same but for one answer, which states one token here and another token there.
No answer before it tells of success, so that the secret is never read from another one. The call for
the secret, made side by side on both, fails in the same way or gives the two tokens; from then on both
scripts answer the same.

## Main definitions

* `Response.States a t`: the body of the answer is a secret with the token `t`
* `SecretAnswers t t' a a'`, `SecretScripts t t' xs ys`: answers, and scripts, that are the same but for
  the token
* `DeployToken.Fits t t'`: two tokens that can stand in the same places

## Main results

* `follow_pending`: following redirects leads to the same answer, or to the two secrets
* `fetchConfiguredToken_sideBySide`: the call for the secret, side by side
-/

namespace ReleasePublisher

/-- The body of the answer is a secret with the token `t`. -/
def Response.States (a : Response) (t : String) : Prop :=
  ∃ v, Json.parse (Utf8.encode (Utf8.lossy a.body)) = .ok v ∧
    v.pointer? ["github", "token"] = some (.text t)

/-- A text with at least one character and without control characters, which can stand in a header. -/
def IsPlainToken (t : String) : Prop :=
  t ≠ "" ∧ isHeaderValue t = true

/-- **The answers are the same but for the secret**, which has the token `t` in one of them and `t'` in
the other. -/
structure SecretAnswers (t t' : String) (a a' : Response) : Prop where
  status_eq : a.status = a'.status
  headers_eq : a.headers = a'.headers
  isComplete_eq : a.isComplete = a'.isComplete
  left : a.States t
  right : a'.States t'

/-- **The scripts are the same but for the secret.** No answer before the two secrets tells of
success: one that does would end the call for the secret. -/
inductive SecretScripts (t t' : String) : List Answer → List Answer → Prop
  | secret {a a' rest} : SecretAnswers t t' a a' →
      SecretScripts t t' (.response a :: rest) (.response a' :: rest)
  | dropped {xs ys} : SecretScripts t t' xs ys → SecretScripts t t' (.dropped :: xs) (.dropped :: ys)
  | refused {b xs ys} : b.isSuccess = false → SecretScripts t t' xs ys →
      SecretScripts t t' (.response b :: xs) (.response b :: ys)

/-- The networks were sent the same, and their scripts are the same but for the secret. -/
structure Network.Pending (t t' : String) (n n' : Network) : Prop where
  isReachable_eq : n.isReachable = n'.isReachable
  isSecure_eq : n.isSecure = n'.isSecure
  sameSent : n.SameSent n'
  script : SecretScripts t t' n.script n'.script

/-- What comes with two networks whose answers are the same, or the two secrets. -/
def AnswersAlike (t t' : String) (b b' : Response) : Prop :=
  b = b' ∨ SecretAnswers t t' b b'

variable {t t' : String}

theorem AnswersAlike.status_eq {b b' : Response} (h : AnswersAlike t t' b b') :
    b.status = b'.status := by
  rcases h with rfl | h
  · rfl
  · exact h.status_eq

theorem AnswersAlike.isSuccess_eq {b b' : Response} (h : AnswersAlike t t' b b') :
    b.isSuccess = b'.isSuccess := by
  simp only [Response.isSuccess, h.status_eq]

/-- Answers without a body are the same. -/
theorem SecretAnswers.delivered {a a' : Response} (h : SecretAnswers t t' a a') :
    AnswersAlike t t' (Network.delivered a) (Network.delivered a') := by
  unfold Network.delivered
  rw [← h.status_eq]
  split
  · refine .inl ?_
    rw [Response.mk.injEq]
    exact ⟨rfl, h.headers_eq, rfl, rfl⟩
  · exact .inr h

theorem isSuccess_delivered (b : Response) : (Network.delivered b).isSuccess = b.isSuccess := by
  unfold Network.delivered
  split <;> rfl

/-- Where an answer leads does not depend on its body. -/
theorem nextHop_answersAlike {b b' : Response} (h : AnswersAlike t t' b b') (r : Request)
    (st : Bool) : nextHop r st b = nextHop r st b' := by
  rcases h with rfl | h
  · rfl
  · unfold nextHop locationOf?
    rw [h.status_eq, h.headers_eq]

/-! ### The call for the secret -/

/-- **How a request ends on two such networks**: in the same failure, with the same answer that tells of
no success, or with the secrets, if they came, and networks that answer the same from then on. -/
inductive EndPending (t t' : String) :
    Except HttpFailure Response × Network → Except HttpFailure Response × Network → Prop
  | failed {e n n'} : n.SameSent n' → EndPending t t' (.error e, n) (.error e, n')
  | refused {b n n'} : b.isSuccess = false → n.SameSent n' → EndPending t t' (.ok b, n) (.ok b, n')
  | answered {b b' n n'} : AnswersAlike t t' b b' → n.SameAhead n' →
      EndPending t t' (.ok b, n) (.ok b', n')

theorem Network.SameSent.concat {n n' : Network} (h : n.SameSent n') (r : Request)
    (script script' : List Answer) :
    Network.SameSent { n with script := script, sent := n.sent ++ [r] }
      { n' with script := script', sent := n'.sent ++ [r] } := by
  have hs : n.sent.map Request.masked = n'.sent.map Request.masked := h
  show (n.sent ++ [r]).map Request.masked = (n'.sent ++ [r]).map Request.masked
  rw [List.map_append, List.map_append, hs]

/-- A request that goes on with the same answers ahead ends alike. -/
theorem EndPending.of_sameAhead {n n' : Network} (h : n.SameAhead n') (first : String)
    (allowed : Nat) (r : Request) (st : Bool) :
    EndPending t t' (follow first allowed r st n) (follow first allowed r st n') := by
  obtain ⟨hout, hnet⟩ := follow_congr first allowed st (rfl : r.masked = _) h
  generalize follow first allowed r st n = x at hout hnet
  generalize follow first allowed r st n' = x' at hout hnet
  rcases x with ⟨out, m⟩
  rcases x' with ⟨out', m'⟩
  obtain rfl : out = out' := hout
  cases out with
  | error e => exact .failed (Network.SameAhead.sameSent hnet)
  | ok b => exact .answered (.inl rfl) hnet

/-- What an exchange on two such networks leaves: nothing was answered, the same answer that tells of no
success with the secrets still ahead, or the secrets themselves. -/
theorem exchange_pending {n n' : Network} (h : n.Pending t t' n') (r : Request) :
    (∃ m m', n.exchange r = (none, m) ∧ n'.exchange r = (none, m') ∧ m.SameSent m') ∨
    (∃ b m m', n.exchange r = (some b, m) ∧ n'.exchange r = (some b, m') ∧ b.isSuccess = false ∧
      m.Pending t t' m') ∨
    ∃ b b' m m', n.exchange r = (some b, m) ∧ n'.exchange r = (some b', m') ∧
      AnswersAlike t t' b b' ∧ m.SameAhead m' := by
  have hc : n'.connects r.url = n.connects r.url := by
    rw [Network.connects, Network.connects, h.isReachable_eq, h.isSecure_eq]
  rcases n with ⟨reachable, secure, script, sent⟩
  rcases n' with ⟨reachable', secure', script', sent'⟩
  obtain ⟨hreach, hsecure, hsent, hscript⟩ := h
  dsimp only at hreach hsecure hscript
  subst hreach hsecure
  unfold Network.exchange
  rw [hc]
  split
  · cases hscript with
    | secret ha =>
      refine .inr (.inr ⟨_, _, _, _, rfl, rfl, ha.delivered, ?_⟩)
      have hs := hsent.concat r [] []
      simp only [Network.SameSent] at hs
      simp only [Network.SameAhead, Network.masked, hs]
    | dropped hxs => exact .inl ⟨_, _, rfl, rfl, hsent.concat r _ _⟩
    | refused hb hxs =>
      refine .inr (.inl ⟨_, _, _, rfl, rfl, ?_, rfl, rfl, hsent.concat r _ _, hxs⟩)
      rw [isSuccess_delivered]
      exact hb
  · exact .inl ⟨_, _, rfl, rfl, hsent⟩

/-- **Following redirects on two such networks** leads to the same answer, or to the two secrets. -/
theorem follow_pending (first : String) (allowed : Nat) (r : Request) (st : Bool) {n n' : Network}
    (h : n.Pending t t' n') :
    EndPending t t' (follow first allowed r st n) (follow first allowed r st n') := by
  rw [follow, follow]
  rcases exchange_pending h r with ⟨m, m', he, he', hs⟩ | ⟨b, m, m', he, he', hb, hp⟩ |
    ⟨b, b', m, m', he, he', hb, hs⟩
  · simp only [he, he']
    exact .failed hs
  · -- The secrets are still ahead: the chain goes on in the same way, or ends with a refusal.
    simp only [he, he']
    cases nextHop r st b with
    | none => exact .refused hb hp.sameSent
    | some next =>
      cases allowed with
      | zero => exact .failed hp.sameSent
      | succ allowed =>
        dsimp only
        split
        · exact follow_pending first allowed next _ hp
        · exact .failed hp.sameSent
  · -- They have come: the same hops follow, and the same answers.
    simp only [he, he']
    rw [nextHop_answersAlike hb]
    cases nextHop r st b' with
    | none => exact .answered hb hs
    | some next =>
      cases allowed with
      | zero => exact .failed hs.sameSent
      | succ allowed =>
        dsimp only
        rw [hb.status_eq]
        split
        · exact .of_sameAhead hs first allowed next _
        · exact .failed hs.sameSent
termination_by allowed

theorem send_pending {d : Draft} (hd : d.payload = none) {n n' : Network}
    (h : n.Pending t t' n') : EndPending t t' (send d n) (send d n') := by
  unfold send
  rw [hd]
  cases d.build with
  | error e => exact .failed h.sameSent
  | ok r => exact follow_pending _ _ _ _ h

/-! ### The tokens -/

/-- Two tokens that can stand in the same places: both in a header, or neither. -/
def DeployToken.Fits (t t' : DeployToken) : Prop :=
  isHeaderValue t.value = isHeaderValue t'.value

/-- A token is read exactly where the body is a secret with that token, which is not empty. -/
theorem DeployToken.ofText_eq_ok_iff {a : Response} :
    DeployToken.ofText (Utf8.encode (Utf8.lossy a.body)) = .ok ⟨t⟩ ↔ a.States t ∧ t ≠ "" := by
  constructor
  · intro h
    unfold ofText at h
    split at h
    · cases h
    · rename_i v hv
      split at h
      · cases h
      · rename_i token hp
        split at h
        · cases h
        · rename_i hne
          cases h
          exact ⟨⟨v, hv, hp⟩, by simpa using hne⟩
      · cases h
  · rintro ⟨⟨v, hv, hp⟩, ht⟩
    have hne : t.isEmpty = false := by simpa using ht
    simp [ofText, hv, hp, hne]

/-- **What is made of answers that are alike**: the same failure, or tokens that fit. -/
theorem DeployToken.ofResponse_cases {b b' : Response} (url : String)
    (h : AnswersAlike t t' b b') (ht : IsPlainToken t) (ht' : IsPlainToken t') :
    (∃ e, ofResponse url b = .error e ∧ ofResponse url b' = .error e) ∨
      ∃ x x', ofResponse url b = .ok x ∧ ofResponse url b' = .ok x' ∧ x.Fits x' := by
  rcases h with rfl | h
  · cases ofResponse url b with
    | error e => exact .inl ⟨e, rfl, rfl⟩
    | ok x => exact .inr ⟨x, x, rfl, rfl, rfl⟩
  · have hs : b.isSuccess = b'.isSuccess := AnswersAlike.isSuccess_eq (.inr h)
    unfold ofResponse
    rw [hs, h.status_eq]
    split
    · exact .inl ⟨_, rfl, rfl⟩
    · unfold Response.text Response.document
      rw [h.isComplete_eq]
      cases b'.isComplete with
      | false => exact .inl ⟨_, rfl, rfl⟩
      | true =>
        refine .inr ⟨⟨t⟩, ⟨t'⟩, ?_, ?_, ht.2.trans ht'.2.symm⟩
        · exact congrArg (Except.mapError _) (ofText_eq_ok_iff.mpr ⟨h.left, ht.1⟩)
        · exact congrArg (Except.mapError _) (ofText_eq_ok_iff.mpr ⟨h.right, ht'.1⟩)

/-- An answer that tells of no success gives no token. -/
theorem DeployToken.ofResponse_of_refused {b : Response} (url : String) (h : b.isSuccess = false) :
    ofResponse url b = .error (.secret (.status url b.status)) := by
  simp [ofResponse, h]

open Run

/-- **The call for the secret, side by side**: the same failure, or tokens that fit and networks that
answer the same from then on. -/
theorem fetchToken_sideBySide (ht : IsPlainToken t) (ht' : IsPlainToken t')
    (proxy project : String) :
    SideBySide (Network.Pending t t') Network.SameAhead DeployToken.Fits (fetchToken proxy project)
      (fetchToken proxy project) := by
  unfold fetchToken
  refine .bind (.note _) fun _ _ _ => ?_
  -- The answer is judged together with the request: what it is worth depends on how that ended.
  rw [← Run.bind_assoc]
  refine .bind (?_ : SideBySide _ Network.SameAhead DeployToken.Fits _ _) fun x x' hx =>
    .bind (.note _) fun _ _ _ => .pure hx
  intro s s' hs
  rw [Run.ask_apply, Run.ask_apply]
  have he := send_pending (d := ⟨.get, secretUrl proxy project, [], none⟩) rfl hs.network
  generalize send _ s.network = x at he ⊢
  generalize send _ s'.network = x' at he ⊢
  cases he with
  | failed hn => exact .failed ⟨hs.files_eq, hs.log_eq, hn⟩
  | refused hb hn =>
    simp only [mapError_ok, Except.bind, DeployToken.ofResponse_of_refused _ hb]
    exact .failed ⟨hs.files_eq, hs.log_eq, hn⟩
  | answered hb hn =>
    simp only [mapError_ok, Except.bind]
    rcases DeployToken.ofResponse_cases (secretUrl proxy project) hb ht ht' with
      ⟨e, h, h'⟩ | ⟨y, y', h, h', hy⟩
    · rw [h, h']
      exact .failed ⟨hs.files_eq, hs.log_eq, hn.sameSent⟩
    · rw [h, h']
      exact .succeeded hy ⟨hs.files_eq, hs.log_eq, hn⟩

theorem fetchConfiguredToken_sideBySide (ht : IsPlainToken t) (ht' : IsPlainToken t') (c : Config) :
    SideBySide (Network.Pending t t') Network.SameAhead DeployToken.Fits (fetchConfiguredToken c)
      (fetchConfiguredToken c) := by
  unfold fetchConfiguredToken
  refine .bind (.ofExcept (fun _ _ h => h.sameSent) _) fun proxy proxy' hp => ?_
  subst hp
  exact fetchToken_sideBySide ht ht' proxy c.project

end ReleasePublisher

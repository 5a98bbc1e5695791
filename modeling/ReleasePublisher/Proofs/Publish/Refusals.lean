import ReleasePublisher.Proofs.Publish.Payloads

/-!
# Refusals

A final answer with a status of 300 or more refuses what was asked for. Which failure that is, the call and
the status tell. The body is read for the message of the host's failures only, and where it cannot be read,
a message is made up from the status.

## Main definitions

* `Errand.Refuses k status f`: a failure is the one that refuses an errand with a status
* `Failure.withMessage message f`: the failure, with a message in place of the host's

## Main results

* `Errand.Refuses.exitCode`: a refusal exits with 3 where there is no release, and else with 2
* `Errand.Refuses.withMessage_eq`: an errand and a status tell the failure up to the host's message
* `Errand.run_of_refused`: what comes of an answer that refuses
-/

namespace ReleasePublisher

/-! ### What refuses an errand -/

/-- **The failure that refuses an errand** with a status. The message of the host is open. -/
inductive Errand.Refuses : Errand → Nat → Failure → Prop
  /-- The secret is refused with the address that was asked for. -/
  | secret (proxy project : String) (status : Nat) :
    Refuses (.secret proxy project) status (.secret (.status (secretUrl proxy project) status))
  | repositoryMissing (c : HostClient) (owner name : String) :
    Refuses (.host c (.repository owner name)) 404
      (.host (.repositoryNotFound (owner ++ "/" ++ name)))
  | releaseMissing (c : HostClient) (found : Repository) :
    Refuses (.host c (.latestRelease found)) 404 (.host (.noRelease found.fullName))
  /-- Every call to the host may find that the token is rejected. -/
  | unauthorized (c : HostClient) (errand : HostErrand) (message : String) :
    Refuses (.host c errand) 401 (.host (.unauthorized message))
  | repository (c : HostClient) (owner name : String) {status : Nat} (message : String)
      (hmissing : status ≠ 404) (hunauthorized : status ≠ 401) :
    Refuses (.host c (.repository owner name)) status
      (.host (.refused ("/repos/" ++ owner ++ "/" ++ name) status message))
  | latestRelease (c : HostClient) (found : Repository) {status : Nat} (message : String)
      (hmissing : status ≠ 404) (hunauthorized : status ≠ 401) :
    Refuses (.host c (.latestRelease found)) status
      (.host (.refused ("/repos/" ++ found.fullName ++ "/releases/latest") status message))
  /-- An upload has no status of its own but 401. -/
  | upload (c : HostClient) (release : Release) (archive : PackagedArchive) (contentType : String)
      (showsProgress : Bool) {status : Nat} (message : String) (hunauthorized : status ≠ 401) :
    Refuses (.host c (.upload release archive contentType showsProgress)) status
      (.host (.uploadRejected archive.fileName status message))

/-- A refusal by the host, with a message in place of the host's. -/
def HostFailure.withMessage (message : String) : HostFailure → HostFailure
  | unauthorized _ => unauthorized message
  | uploadRejected asset status _ => uploadRejected asset status message
  | refused endpoint status _ => refused endpoint status message
  | repositoryNotFound repository => repositoryNotFound repository
  | noRelease repository => noRelease repository

/-- A failure, with a message in place of the host's. -/
def Failure.withMessage (message : String) : Failure → Failure
  | host f => host (f.withMessage message)
  | f => f

namespace Errand.Refuses

variable {k : Errand} {status : Nat} {f g : Failure}

/-- A refusal is no failure of the transport. -/
theorem ne_http (h : k.Refuses status f) (x : HttpFailure) : f ≠ .http x := by
  cases h <;> exact nofun

/-- **A refusal's exit code** tells that there is no release, or that a host refused. -/
theorem exitCode (h : k.Refuses status f) :
    ((∃ name, f = .host (.noRelease name)) → f.exitCode = 3) ∧
      ((¬ ∃ name, f = .host (.noRelease name)) → f.exitCode = 2) := by
  constructor
  · rintro ⟨name, rfl⟩
    rfl
  · intro hother
    cases h with
    | releaseMissing c found => exact absurd ⟨found.fullName, rfl⟩ hother
    | _ => rfl

/-- **An errand and a status tell the failure** up to the host's message. -/
theorem withMessage_eq (h : k.Refuses status f) (h' : k.Refuses status g) (message : String) :
    f.withMessage message = g.withMessage message := by
  cases h with
  | secret =>
    cases h'
    rfl
  | repositoryMissing =>
    cases h' with
    | repositoryMissing => rfl
    | repository _ _ _ _ hmissing => exact absurd rfl hmissing
  | releaseMissing =>
    cases h' with
    | releaseMissing => rfl
    | latestRelease _ _ _ hmissing => exact absurd rfl hmissing
  | unauthorized =>
    cases h' with
    | unauthorized => rfl
    | repository _ _ _ _ _ hunauthorized => exact absurd rfl hunauthorized
    | latestRelease _ _ _ _ hunauthorized => exact absurd rfl hunauthorized
    | upload _ _ _ _ _ _ hunauthorized => exact absurd rfl hunauthorized
  | repository _ _ _ _ hmissing hunauthorized =>
    cases h' with
    | repository => rfl
    | repositoryMissing => exact absurd rfl hmissing
    | unauthorized => exact absurd rfl hunauthorized
  | latestRelease _ _ _ hmissing hunauthorized =>
    cases h' with
    | latestRelease => rfl
    | releaseMissing => exact absurd rfl hmissing
    | unauthorized => exact absurd rfl hunauthorized
  | upload _ _ _ _ _ _ hunauthorized =>
    cases h' with
    | upload => rfl
    | unauthorized => exact absurd rfl hunauthorized

end Errand.Refuses

/-! ### Answers that refuse -/

/-- A status of 300 or more does not tell of success. -/
theorem Response.isSuccess_of_le {a : Response} (h : 300 ≤ a.status) : a.isSuccess = false := by
  have hlt : ¬ a.status < 300 := Nat.not_lt.mpr h
  simp [isSuccess, hlt]

/-- What the look-ups make of a status without a meaning of its own. -/
theorem refusal_cases (endpoint : String) (a : Response) :
    (a.status = 401 ∧ refusal endpoint a = .unauthorized (refusalText a)) ∨
      (a.status ≠ 401 ∧ refusal endpoint a = .refused endpoint a.status (refusalText a)) := by
  unfold refusal
  by_cases h : a.status = 401 <;> simp [h]

namespace Errand

/-- **An errand whose answer refuses** fails by the call and the status, whatever the body is. -/
theorem refuses_judge (k : Errand) {a : Response} (hrefused : 300 ≤ a.status) :
    ∃ f, k.judge a = .error f ∧ k.Refuses a.status f := by
  have hfailed : a.isSuccess = false := Response.isSuccess_of_le hrefused
  rcases k with ⟨proxy, project⟩ | ⟨c, ⟨owner, name⟩ | found | ⟨release, archive, type, shows⟩⟩
  · have hjudge : DeployToken.ofResponse (secretUrl proxy project) a =
        .error (.secret (.status (secretUrl proxy project) a.status)) := by
      simp [DeployToken.ofResponse, hfailed]
    exact ⟨_, hjudge, .secret proxy project a.status⟩
  · show ∃ f, HostClient.repositoryOf owner name a = .error f ∧ _
    rw [HostClient.repositoryOf, hfailed, if_neg Bool.false_ne_true]
    by_cases hmissing : a.status = 404
    · rw [if_pos (beq_iff_eq.mpr hmissing), hmissing]
      exact ⟨_, rfl, .repositoryMissing c owner name⟩
    · rw [if_neg (mt beq_iff_eq.mp hmissing)]
      refine ⟨_, rfl, ?_⟩
      rcases refusal_cases (HostClient.repositoryEndpoint owner name) a with ⟨hst, hr⟩ | ⟨hst, hr⟩
      · rw [hr, hst]
        exact .unauthorized c _ (refusalText a)
      · rw [hr]
        exact .repository c owner name (refusalText a) hmissing hst
  · show ∃ f, HostClient.releaseOf found a = .error f ∧ _
    rw [HostClient.releaseOf, hfailed, if_neg Bool.false_ne_true]
    by_cases hmissing : a.status = 404
    · rw [if_pos (beq_iff_eq.mpr hmissing), hmissing]
      exact ⟨_, rfl, .releaseMissing c found⟩
    · rw [if_neg (mt beq_iff_eq.mp hmissing)]
      refine ⟨_, rfl, ?_⟩
      rcases refusal_cases (HostClient.latestEndpoint found.fullName) a with ⟨hst, hr⟩ | ⟨hst, hr⟩
      · rw [hr, hst]
        exact .unauthorized c _ (refusalText a)
      · rw [hr]
        exact .latestRelease c found (refusalText a) hmissing hst
  · show ∃ f, HostClient.assetOf archive.fileName a = .error f ∧ _
    rw [HostClient.assetOf, hfailed, if_neg Bool.false_ne_true]
    by_cases hunauthorized : a.status = 401
    · rw [if_pos (beq_iff_eq.mpr hunauthorized), hunauthorized]
      exact ⟨_, rfl, .unauthorized c _ (refusalText a)⟩
    · rw [if_neg (mt beq_iff_eq.mp hunauthorized)]
      exact ⟨_, rfl, .upload c release archive type shows (refusalText a) hunauthorized⟩

variable {k : Errand} {s : Surroundings} {d : Draft} {a : Response} {n : Network}

/-- **What comes of an answer that refuses**, for every call and every final answer with a status of 300 or
more, whether or not its body could be received, and whatever it is. The failure is told by the call and the
status, and is none of the transport. Its exit code is 3 where there is no release and else 2. Wherever the
same errand is refused with the same status, it fails in the same way up to the host's message. -/
theorem run_of_refused (hd : k.draft s.files = .ok d) (hsend : send d s.network = (.ok a, n))
    (hrefused : 300 ≤ a.status) :
    ∃ f, (k.run s).1 = .error f ∧ k.Refuses a.status f ∧ (∀ x, f ≠ .http x) ∧
      ((∃ name, f = .host (.noRelease name)) → f.exitCode = 3) ∧
      ((¬ ∃ name, f = .host (.noRelease name)) → f.exitCode = 2) ∧
      ∀ s' d' a' n', k.draft s'.files = .ok d' → send d' s'.network = (.ok a', n') →
        a'.status = a.status → ∃ f', (k.run s').1 = .error f' ∧
          ∀ message, f'.withMessage message = f.withMessage message := by
  obtain ⟨f, hf, hr⟩ := k.refuses_judge hrefused
  refine ⟨f, (run_eq_judge hd hsend).trans hf, hr, hr.ne_http, hr.exitCode.1, hr.exitCode.2, ?_⟩
  intro s' d' a' n' hd' hsend' hstatus
  obtain ⟨f', hf', hr'⟩ := k.refuses_judge (hstatus ▸ hrefused)
  exact ⟨f', (run_eq_judge hd' hsend').trans hf', (hstatus ▸ hr').withMessage_eq hr⟩

end Errand

/-- The latest release is not found, and the end of the answer is not received. -/
theorem run_of_refused_sample :
    ∃ s d a n, Sample.latestRelease.draft s.files = .ok d ∧ send d s.network = (.ok a, n) ∧
      a.status = 404 ∧ a.isComplete = false ∧
      (Sample.latestRelease.run s).1 = .error (.host (.noRelease "o/a")) := by
  let cut : Response := { status := 404, headers := [], body := [0xff], isComplete := false }
  let s : Surroundings := { Sample.surroundings [] with
    network := { (Sample.surroundings []).network with script := [.response cut] } }
  obtain ⟨d, hd⟩ : ∃ d, Sample.latestRelease.draft s.files = .ok d := ⟨_, rfl⟩
  have hanswer : (send d s.network).1.toOption = some cut := by
    obtain rfl := Except.ok.inj hd
    decide +kernel
  obtain ⟨n, hsend⟩ := exists_send_eq_ok hanswer
  obtain ⟨f, hf, hr, -⟩ := Errand.run_of_refused hd hsend (by decide)
  refine ⟨s, d, cut, n, hd, hsend, rfl, rfl, hf.trans ?_⟩
  -- Among the failures only the missing release has this call and this status.
  cases hr with
  | releaseMissing => rfl
  | latestRelease _ _ _ hmissing => exact absurd rfl hmissing

end ReleasePublisher

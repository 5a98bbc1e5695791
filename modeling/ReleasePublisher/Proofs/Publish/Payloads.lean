import ReleasePublisher.Proofs.Publish.Errands
import ReleasePublisher.Proofs.Publish.Upload
import ReleasePublisher.Proofs.Release.RecordShapes

/-!
# The payloads of answers

An answer that tells of success and was received completely brings a call what it needs exactly if its body
has the shape of that. If not, the call fails; but only the secret's failure says that the payload was
wrong, and those of the host's records say that the transport failed.

## Main definitions

* `Errand.payload k body`: the text in which the answer to an errand is looked for
* `Errand.IsFit k text`: a text has the shape that an errand needs

## Main results

* `Errand.IsFit.isDocument`: what a call needs is a JSON document
* `Errand.run_of_payload`: whether a call succeeds is told by the payload, and its failure by the call
* `unreadable_repository_is_transport_failure`: a repository that is no JSON
-/

namespace ReleasePublisher

/-- A secret is a document in which the member `token` of the member `github` is a text that is not
empty. -/
def IsSecretText (text : Bytes) : Prop :=
  ∃ v t, Json.parse text = .ok v ∧ v.pointer? ["github", "token"] = some (.text t) ∧ t ≠ ""

namespace DeployToken

/-- **What a token is read from.** -/
theorem exists_ofText_iff {text : Bytes} : (∃ x, ofText text = .ok x) ↔ IsSecretText text := by
  unfold ofText IsSecretText
  cases hv : Json.parse text with
  | error f => simp
  | ok v =>
    cases hp : v.pointer? ["github", "token"] with
    | none => simp [hp]
    | some w =>
      cases w with
      | text t => by_cases ht : t = "" <;> simp [hp, ht]
      | _ => simp [hp]

/-- Whatever is wrong with a secret, the payload is. -/
theorem exitCode_of_ofText {text : Bytes} {f : SecretFailure}
    (h : ofText text = .error f) : (Failure.secret f).exitCode = 3 := by
  unfold ofText at h
  split at h
  · cases h
    rfl
  · split at h
    · cases h
      rfl
    · split at h
      · cases h
        rfl
      · cases h
    · cases h
      rfl

/-- How an answer that tells of success is taken. -/
theorem ofResponse_eq {a : Response} (hsuccess : a.isSuccess = true) (hcomplete : a.isComplete = true)
    (url : String) :
    ofResponse url a = (ofText (Utf8.encode (Utf8.lossy a.body))).mapError .secret := by
  simp [ofResponse, Response.text, Response.document, hsuccess, hcomplete]

end DeployToken

/-- A record is decoded exactly where the decoder takes the body. -/
theorem exists_decoded_iff {α : Type} {decode : Bytes → Except Json.Fault α} {a : Response}
    (h : a.isComplete = true) : (∃ x, decoded decode a = .ok x) ↔ ∃ x, decode a.body = .ok x := by
  unfold decoded Response.document
  rw [if_pos h]
  cases hd : decode a.body <;> simp [hd]

theorem exitCode_of_decoded {α : Type} {decode : Bytes → Except Json.Fault α} {a : Response}
    {f : Failure} (h : decoded decode a = .error f) : f.exitCode = 2 := by
  unfold decoded at h
  split at h
  · cases h
  · cases h
    rfl

namespace Errand

/-- The text in which the answer to an errand is looked for: a secret is read as text, in which what is not
UTF-8 is replaced; a record is read as it comes. -/
def payload : Errand → Bytes → Bytes
  | secret _ _, body => Utf8.encode (Utf8.lossy body)
  | host _ _, body => body

/-- **A text has the shape that an errand needs.** -/
def IsFit : Errand → Bytes → Prop
  | secret _ _ => IsSecretText
  | host _ (.repository _ _) => Json.IsRecordText Repository.slots
  | host _ (.latestRelease _) => Json.IsRecordText Release.slots
  | host _ (.upload _ _ _ _) => Json.IsRecordText Asset.slots

/-- **What a call needs is a JSON document.** -/
theorem IsFit.isDocument {k : Errand} {text : Bytes} (h : k.IsFit text) : Json.IsDocument text := by
  rcases k with ⟨proxy, project⟩ | ⟨c, ⟨owner, name⟩ | found | ⟨release, archive, type, shows⟩⟩
  · obtain ⟨v, -, hv, -⟩ := h
    exact Json.isDocument_of_parse hv
  · exact Json.IsRecordText.isDocument h
  · exact Json.IsRecordText.isDocument h
  · exact Json.IsRecordText.isDocument h

variable {k : Errand} {a : Response}

/-- An errand takes an answer exactly if its payload is fit. -/
theorem exists_judge_iff (hsuccess : a.isSuccess = true) (hcomplete : a.isComplete = true) :
    (∃ x, k.judge a = .ok x) ↔ k.IsFit (k.payload a.body) := by
  rcases k with ⟨proxy, project⟩ | ⟨c, ⟨owner, name⟩ | found | ⟨release, archive, type, shows⟩⟩
  · show (∃ x, DeployToken.ofResponse (secretUrl proxy project) a = .ok x) ↔ _
    rw [DeployToken.ofResponse_eq hsuccess hcomplete]
    refine Iff.trans ?_ DeployToken.exists_ofText_iff
    show _ ↔ ∃ x, DeployToken.ofText (Utf8.encode (Utf8.lossy a.body)) = .ok x
    cases DeployToken.ofText (Utf8.encode (Utf8.lossy a.body)) <;> simp
  · have hjudge : HostClient.repositoryOf owner name a = decoded Repository.decode a := if_pos hsuccess
    show (∃ x, HostClient.repositoryOf owner name a = .ok x) ↔ _
    rw [hjudge, exists_decoded_iff hcomplete]
    exact Repository.exists_decode_iff
  · have hjudge : HostClient.releaseOf found a = decoded Release.decode a := if_pos hsuccess
    show (∃ x, HostClient.releaseOf found a = .ok x) ↔ _
    rw [hjudge, exists_decoded_iff hcomplete]
    exact Release.exists_decode_iff
  · have hjudge : HostClient.assetOf archive.fileName a = decoded Asset.decode a := if_pos hsuccess
    show (∃ x, HostClient.assetOf archive.fileName a = .ok x) ↔ _
    rw [hjudge, exists_decoded_iff hcomplete]
    exact Asset.exists_decode_iff

/-- The failure over an answer that tells of success is told by the call. -/
theorem exitCode_of_judge {f : Failure} (hsuccess : a.isSuccess = true)
    (hcomplete : a.isComplete = true) (h : k.judge a = .error f) :
    f.exitCode = if k.call = .secret then 3 else 2 := by
  rcases k with ⟨proxy, project⟩ | ⟨c, ⟨owner, name⟩ | found | ⟨release, archive, type, shows⟩⟩
  · have hjudge := DeployToken.ofResponse_eq hsuccess hcomplete (secretUrl proxy project)
    replace h := hjudge.symm.trans h
    cases hx : DeployToken.ofText (Utf8.encode (Utf8.lossy a.body)) with
    | error e =>
      rw [hx] at h
      cases h
      exact DeployToken.exitCode_of_ofText hx
    | ok x =>
      rw [hx] at h
      cases h
  · have hjudge : HostClient.repositoryOf owner name a = decoded Repository.decode a := if_pos hsuccess
    exact exitCode_of_decoded (hjudge.symm.trans h)
  · have hjudge : HostClient.releaseOf found a = decoded Release.decode a := if_pos hsuccess
    exact exitCode_of_decoded (hjudge.symm.trans h)
  · have hjudge : HostClient.assetOf archive.fileName a = decoded Asset.decode a := if_pos hsuccess
    exact exitCode_of_decoded (hjudge.symm.trans h)

/-- **Whether a call succeeds is told by the payload**, for every answer that tells of success and was
received completely, at whatever end of redirects it came. What a call needs is a JSON document. A call
whose payload is not fit fails, with the exit code 3 for the secret and with 2 for all calls to the host. -/
theorem run_of_payload {s : Surroundings} {d : Draft} {n : Network}
    (hd : k.draft s.files = .ok d) (hsend : send d s.network = (.ok a, n))
    (hsuccess : a.isSuccess = true) (hcomplete : a.isComplete = true) :
    (k.IsFit (k.payload a.body) →
      Json.IsDocument (k.payload a.body) ∧ ∃ x, (k.run s).1 = .ok x) ∧
    (¬ k.IsFit (k.payload a.body) →
      ∃ f, (k.run s).1 = .error f ∧ f.exitCode = if k.call = .secret then 3 else 2) := by
  -- The answer is all that decides on the outcome.
  rw [run_eq_judge hd hsend, ← exists_judge_iff hsuccess hcomplete]
  constructor
  · intro hx
    exact ⟨((exists_judge_iff hsuccess hcomplete).mp hx).isDocument, hx⟩
  · intro hx
    cases hf : k.judge a with
    | ok x => exact absurd ⟨x, hf⟩ hx
    | error f => exact ⟨f, rfl, exitCode_of_judge hsuccess hcomplete hf⟩

end Errand

/-- A request that ends in an answer was answered. -/
theorem exists_send_eq_ok {d : Draft} {n : Network} {a : Response} (h : (send d n).1.toOption = some a) :
    ∃ n', send d n = (.ok a, n') := by
  rcases hsend : send d n with ⟨e | b, n'⟩
  · rw [hsend] at h
    cases h
  · rw [hsend] at h
    obtain rfl := Option.some.inj h
    exact ⟨n', rfl⟩

namespace Sample

/-- The sample network, where all that comes is one answer that tells of success. -/
def surroundingsOnly (body : String) : Surroundings :=
  { surroundings [] with
    network := { (surroundings []).network with script := [answer 200 [] body] } }

/-- The release host asks for the latest release of a repository. -/
def latestRelease : Errand :=
  .host (.ofBase "http://h" ⟨"t"⟩) (.latestRelease ⟨1, "o/a", none⟩)

end Sample

/-- A release without its tag is not fit. -/
theorem run_of_payload_sample :
    ∃ d a n, Sample.latestRelease.draft (Sample.surroundingsOnly "\x7b\"id\":1\x7d").files = .ok d ∧
      send d (Sample.surroundingsOnly "\x7b\"id\":1\x7d").network = (.ok a, n) ∧
      a.isSuccess = true ∧ a.isComplete = true ∧
      ∃ f, (Sample.latestRelease.run (Sample.surroundingsOnly "\x7b\"id\":1\x7d")).1 = .error f ∧
        f.exitCode = 2 := by
  generalize hs : Sample.surroundingsOnly "\x7b\"id\":1\x7d" = s
  obtain ⟨d, hd⟩ : ∃ d, Sample.latestRelease.draft s.files = .ok d := ⟨_, rfl⟩
  have hanswer : (send d s.network).1.toOption.map (fun a => (a.isSuccess, a.isComplete, a.body)) =
      some (true, true, Utf8.encode "\x7b\"id\":1\x7d") := by
    subst hs
    obtain rfl := Except.ok.inj hd
    decide +kernel
  rcases hsend : send d s.network with ⟨e | a, n⟩
  · rw [hsend] at hanswer
    cases hanswer
  · rw [hsend] at hanswer
    obtain ⟨hsuccess, hcomplete, hbody⟩ : a.isSuccess = true ∧ a.isComplete = true ∧
        a.body = Utf8.encode "\x7b\"id\":1\x7d" := by
      simpa [Except.toOption] using hanswer
    have hunfit : ¬ Sample.latestRelease.IsFit (Sample.latestRelease.payload a.body) := by
      rintro hfit
      obtain ⟨r, hr⟩ := Release.exists_decode_iff.mpr hfit
      have herror : (Release.decode (Utf8.encode "\x7b\"id\":1\x7d")).isOk = false := by decide +kernel
      rw [← hbody] at herror
      rw [show Release.decode a.body = .ok r from hr] at herror
      cases herror
    exact ⟨d, a, n, hd, hsend, hsuccess, hcomplete,
      (Errand.run_of_payload hd hsend hsuccess hcomplete).2 hunfit⟩

/-- **A repository that is no JSON** is taken for a failure of the transport. -/
theorem unreadable_repository_is_transport_failure :
    ¬ Json.IsDocument (Utf8.encode "x") ∧
      ∃ f, ((HostClient.ofBase "http://h" ⟨"t"⟩).repository "o" "a"
        (Sample.surroundingsOnly "x")).1 = .error f ∧ f.exitCode = 2 := by
  constructor
  · rw [Json.isDocument_iff]
    rintro ⟨rest, h, -⟩
    have herror : (Json.skipValue (Utf8.encode "x")).isOk = false := by decide
    rw [h] at herror
    cases herror
  · have hcode : (match ((HostClient.ofBase "http://h" ⟨"t"⟩).repository "o" "a"
        (Sample.surroundingsOnly "x")).1 with
      | .error f => some f.exitCode
      | .ok _ => none) = some 2 := by decide +kernel
    split at hcode
    · rename_i f hf
      exact ⟨f, hf, Option.some.inj hcode⟩
    · cases hcode

end ReleasePublisher

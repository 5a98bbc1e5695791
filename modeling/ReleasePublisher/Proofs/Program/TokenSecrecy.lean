import ReleasePublisher.Proofs.Http.Requests
import ReleasePublisher.Proofs.Program.AcceptedUpload
import ReleasePublisher.Proofs.Publish.SecretAnswers

/-!
# The deploy token stays secret

Two runs of the program that differ in the deploy token only look the same: the same exit code, the same
reports and messages, the same log, the same files, and requests that are the same but for what their
authorizations say. The token goes into that header of the requests to the release host and nowhere
else.

## Main definitions

* `HostClient.Fits c c'`: clients for one address whose tokens can stand in the same places

## Main results

* `publish_sideBySide`: publishing with two tokens, side by side
* `carryOut_sideBySide`, `perform_sideBySide`: any command, and any invocation
* `run_hides_token`: the program does not show the token
-/

namespace ReleasePublisher

open Run

variable {t t' : String}

/-! ### Clients with different tokens -/

/-- The clients ask one address, with tokens that can stand in the same places. -/
structure HostClient.Fits (c c' : HostClient) : Prop where
  apiUrl_eq : c.apiUrl = c'.apiUrl
  token_fits : c.token.Fits c'.token

theorem HostClient.fits_ofBase (apiUrl : String) {x x' : DeployToken} (h : x.Fits x') :
    (HostClient.ofBase apiUrl x).Fits (HostClient.ofBase apiUrl x') :=
  ⟨rfl, h⟩

namespace HostClient.Fits

variable {c c' : HostClient}

/-- What the clients send is the same but for the token. -/
theorem headers_masked (h : c.Fits c') (more : Headers) :
    Headers.masked (c.headers ++ more) = Headers.masked (c'.headers ++ more) ∧
      (c.headers ++ more).all (isHeaderValue ·.2) = (c'.headers ++ more).all (isHeaderValue ·.2) := by
  have ht : isHeaderValue c.token.value = isHeaderValue c'.token.value := h.token_fits
  constructor
  · rfl
  · simp only [headers, List.cons_append, List.nil_append, List.all_cons, isHeaderValue_append, ht]

theorem lookup (h : c.Fits c') (endpoint : String) :
    (c.lookup endpoint).Alike (c'.lookup endpoint) where
  method_eq := rfl
  address_eq := congrArg (· ++ endpoint) h.apiUrl_eq
  payload_eq := rfl
  masked_eq := by simpa [HostClient.lookup] using (h.headers_masked []).1
  valid_eq := by simpa [HostClient.lookup] using (h.headers_masked []).2

theorem uploadDraft (h : c.Fits c') (url : Url) (node : FileNode) (size : Nat)
    (contentType : String) (showsProgress : Bool) :
    (c.uploadDraft url node size contentType showsProgress).Alike
      (c'.uploadDraft url node size contentType showsProgress) where
  method_eq := rfl
  address_eq := rfl
  payload_eq := rfl
  masked_eq := (h.headers_masked _).1
  valid_eq := (h.headers_masked _).2

/-- A call of the clients, side by side, is judged in the same way. -/
theorem ask {α : Type} {d d' : Draft} (h : d.Alike d') (judge : Response → Except Failure α) :
    SideBySide Network.SameAhead Network.SameAhead Eq
      (Run.request d >>= fun a => Run.ofExcept (judge a))
      (Run.request d' >>= fun a => Run.ofExcept (judge a)) := by
  refine .bind (.request h) fun a a' ha => ?_
  subst ha
  exact .ofExcept (fun _ _ => Network.SameAhead.sameSent) _

theorem repository (h : c.Fits c') (owner name : String) :
    SideBySide Network.SameAhead Network.SameAhead Eq (c.repository owner name)
      (c'.repository owner name) :=
  ask (h.lookup _) _

theorem latestRelease (h : c.Fits c') (repository : Repository) :
    SideBySide Network.SameAhead Network.SameAhead Eq (c.latestRelease repository)
      (c'.latestRelease repository) :=
  ask (h.lookup _) _

theorem uploadAsset (h : c.Fits c') (release : Release) (archive : PackagedArchive)
    (contentType : String) (showsProgress : Bool) :
    SideBySide Network.SameAhead Network.SameAhead Eq
      (c.uploadAsset release archive contentType showsProgress)
      (c'.uploadAsset release archive contentType showsProgress) := by
  have hsent : ∀ n n' : Network, n.SameAhead n' → n.SameSent n' := fun _ _ => Network.SameAhead.sameSent
  unfold HostClient.uploadAsset
  refine .bind (.ofExcept hsent _) fun url _ hu => ?_
  subst hu
  refine .bind .files fun files _ hf => ?_
  subst hf
  refine .bind (.ofExcept hsent _) fun node _ hn => ?_
  subst hn
  refine .bind (.note _) fun _ _ _ => ?_
  exact ask (h.uploadDraft url node archive.size contentType showsProgress) _

theorem uploadUnlessDry (h : c.Fits c') (release : Release) (archive : PackagedArchive)
    (o : PublishOptions) :
    SideBySide Network.SameAhead Network.SameAhead Eq (uploadUnlessDry c release archive o)
      (uploadUnlessDry c' release archive o) := by
  unfold ReleasePublisher.uploadUnlessDry
  split
  · exact .bind (.note _) fun _ _ _ => .pure rfl
  · refine .bind (h.uploadAsset release archive octetStream o.showsProgress) fun asset _ ha => ?_
    subst ha
    exact .bind (.note _) fun _ _ _ => .pure rfl

end HostClient.Fits

/-! ### Publishing, side by side -/

section

variable {N : Network → Network → Prop} (hN : ∀ n n', N n n' → n.SameSent n')

include hN

/-- Packing does not look at the network. -/
theorem package_sideBySide [Gzip.Writer] (c : Config) :
    SideBySide N N Eq (package c) (package c) := by
  unfold package
  refine .bind .files fun files _ hf => ?_
  subst hf
  dsimp only
  split
  · exact .fail hN _
  · refine .bind (.note _) fun _ _ _ => ?_
    refine .bind (.changeFiles hN _) fun _ _ _ => ?_
    refine .bind (.changeFiles hN _) fun _ _ _ => ?_
    refine .bind .files fun files _ hf => ?_
    subst hf
    refine .bind (.ofExcept hN _) fun told _ ht => ?_
    subst ht
    exact .bind (.note _) fun _ _ _ => .pure rfl

/-- Resolving the configuration does not look at the network. -/
theorem resolveIn_sideBySide (root : Path) (overrides : Overrides) (env : Environment) :
    SideBySide N N Eq (resolveIn root overrides env) (resolveIn root overrides env) := by
  unfold resolveIn
  refine .bind .files fun files _ hf => ?_
  subst hf
  refine .bind (.ofExcept hN _) fun c _ hc => ?_
  subst hc
  exact .bind (.note _) fun _ _ _ => .pure rfl

end

theorem Network.Pending.same (n n' : Network) (h : n.Pending t t' n') : n.SameSent n' :=
  h.sameSent

section

variable (ht : IsPlainToken t) (ht' : IsPlainToken t')

include ht ht'

/-- **Publishing with two tokens, side by side.** -/
theorem publish_sideBySide [Gzip.Writer] (c : Config) (o : PublishOptions) :
    SideBySide (Network.Pending t t') Network.SameAhead Eq (publish c o) (publish c o) := by
  unfold publish
  refine .bind (.ofExcept Network.Pending.same _) fun _ _ _ => ?_
  refine .bind (package_sideBySide Network.Pending.same c) fun archive _ ha => ?_
  subst ha
  refine .bind (fetchConfiguredToken_sideBySide ht ht' c) fun token token' htoken => ?_
  -- From here on the two runs have different tokens.
  have hclient := HostClient.fits_ofBase c.apiUrl htoken
  refine .bind (hclient.repository c.owner c.project) fun repository _ hr => ?_
  subst hr
  refine .bind (hclient.latestRelease repository) fun release _ hl => ?_
  subst hl
  refine .bind (.note _) fun _ _ _ => ?_
  refine .bind (hclient.uploadUnlessDry release archive o) fun asset _ ha => ?_
  subst ha
  exact .pure rfl

/-- **Any command, side by side.** -/
theorem carryOut_sideBySide [Gzip.Writer] (c : Config) (root : Path) (isWatched : Bool)
    (command : CommandLine.Command) :
    SideBySide (Network.Pending t t') Network.SameSent Eq (carryOut c root isWatched command)
      (carryOut c root isWatched command) := by
  -- Only publishing asks for the secret; after the other commands it is still ahead.
  cases command with
  | publish dryRun json =>
    refine .bind (publish_sideBySide ht ht' c _) fun r _ hr => ?_
    subst hr
    exact .weaken (fun _ _ => Network.SameAhead.sameSent)
      (.ofExcept (fun _ _ => Network.SameAhead.sameSent) _)
  | package json =>
    refine .bind (package_sideBySide Network.Pending.same c) fun a _ ha => ?_
    subst ha
    exact .weaken Network.Pending.same (.ofExcept Network.Pending.same _)
  | config json => exact .weaken Network.Pending.same (.ofExcept Network.Pending.same _)

theorem perform_sideBySide [Gzip.Writer] (i : CommandLine.Invocation) (root : Path)
    (env : Environment) (isWatched : Bool) :
    SideBySide (Network.Pending t t') Network.SameSent Eq (perform i root env isWatched)
      (perform i root env isWatched) := by
  unfold perform
  refine .bind (resolveIn_sideBySide Network.Pending.same root i.overrides env) fun c _ hc => ?_
  subst hc
  exact carryOut_sideBySide ht ht' c root isWatched i.command

/-! ### The program -/

/-- An invocation leaves the same behind, and surroundings that look the same. -/
theorem invoke_pending [Gzip.Writer] (i : CommandLine.Invocation) (start : Start)
    {s s' : Surroundings} (hs : s.Alike (Network.Pending t t') s') :
    (invoke i start s).1 = (invoke i start s').1 ∧
      (invoke i start s).2.Alike Network.SameSent (invoke i start s').2 := by
  unfold invoke
  rw [← hs.files_eq]
  cases s.files.workingDirectory with
  | error e => exact ⟨rfl, hs.files_eq, hs.log_eq, hs.network.sameSent⟩
  | ok root =>
    have h := (perform_sideBySide ht ht' i root start.environment start.isWatched s s' hs).eq
      fun _ _ => id
    rcases hp : perform i root start.environment start.isWatched s with ⟨r, s₁⟩
    rcases hp' : perform i root start.environment start.isWatched s' with ⟨r', s₁'⟩
    rw [hp, hp'] at h
    obtain ⟨hr, hfiles, hlog, hnet⟩ := h
    dsimp only at hr hfiles hlog hnet
    subst hr
    cases r with
    | error e =>
      simp only [hp, hp', hlog]
      exact ⟨trivial, hfiles, rfl, hnet⟩
    | ok report =>
      simp only [hp, hp', hlog]
      exact ⟨trivial, hfiles, hlog, hnet⟩

end

/-- **The program does not show the token.** Whatever the words, the environment and the files are: two
runs whose scripts are the same, but that the secret states one token here and another one there, leave
the same exit code, output, messages and log behind, the same files, and requests that are the same but
for what their authorizations say. -/
theorem run_hides_token [Gzip.Writer] (start : Start) (s : Surroundings) {xs ys : List Answer}
    (hscripts : SecretScripts t t' xs ys) (ht : IsPlainToken t) (ht' : IsPlainToken t') :
    let one := run start { s with network := { s.network with script := xs } }
    let other := run start { s with network := { s.network with script := ys } }
    one.1 = other.1 ∧ one.2.files = other.2.files ∧ one.2.log = other.2.log ∧
      one.2.network.sent.map Request.masked = other.2.network.sent.map Request.masked := by
  intro one other
  have hs : ({ s with network := { s.network with script := xs } } : Surroundings).Alike
      (Network.Pending t t') { s with network := { s.network with script := ys } } :=
    ⟨rfl, rfl, rfl, rfl, rfl, hscripts⟩
  simp only [one, other, run]
  cases CommandLine.parse start.words with
  | error r => exact ⟨rfl, rfl, rfl, rfl⟩
  | ok i =>
    obtain ⟨hout, hfiles, hlog, hnet⟩ := invoke_pending ht ht' i start hs
    exact ⟨hout, hfiles, hlog, hnet⟩

namespace Sample

/-- The answers of a network that has this token and accepts the archive. -/
def scriptWith (token : String) : List Answer :=
  answer 200 [] ("\x7b\"github\":\x7b\"token\":\"" ++ token ++ "\"\x7d\x7d") ::
    (surroundings [assetAnswer]).network.script.tail

/-- The sample program on this network. -/
def outcomeWith (token : String) : Outcome × Surroundings :=
  run (start []) { surroundings [] with
    network := { (surroundings []).network with script := scriptWith token } }

end Sample

/-- The sample program publishes with the token `t` and with the token `u`, and shows neither. -/
theorem run_hides_token_sample :
    SecretScripts "t" "u" (Sample.scriptWith "t") (Sample.scriptWith "u") ∧
      IsPlainToken "t" ∧ IsPlainToken "u" ∧ (Sample.outcomeWith "t").1.exitCode = 0 ∧
      (Sample.outcomeWith "t").1 = (Sample.outcomeWith "u").1 ∧
      (Sample.outcomeWith "t").2.files = (Sample.outcomeWith "u").2.files ∧
      (Sample.outcomeWith "t").2.log = (Sample.outcomeWith "u").2.log ∧
      (Sample.outcomeWith "t").2.network.sent.map Request.masked =
        (Sample.outcomeWith "u").2.network.sent.map Request.masked := by
  have hscripts : SecretScripts "t" "u" (Sample.scriptWith "t") (Sample.scriptWith "u") :=
    .secret
      { status_eq := rfl
        headers_eq := rfl
        isComplete_eq := rfl
        left := (DeployToken.ofText_eq_ok_iff.mp (by decide +kernel)).1
        right := (DeployToken.ofText_eq_ok_iff.mp (by decide +kernel)).1 }
  have ht : IsPlainToken "t" := ⟨by decide, by decide⟩
  have hu : IsPlainToken "u" := ⟨by decide, by decide⟩
  exact ⟨hscripts, ht, hu, by decide +kernel,
    run_hides_token (Sample.start []) (Sample.surroundings []) hscripts ht hu⟩

end ReleasePublisher

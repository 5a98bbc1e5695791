import ReleasePublisher.Archive.Stored
import ReleasePublisher.Proofs.Files.Reading
import ReleasePublisher.Proofs.Publish.Rehearsal
import ReleasePublisher.Proofs.Release.Packaging

/-!
# The upload

A run that is not dry ends before the upload and has only asked, or it goes on to the upload, whose
first request holds the archive on the disk. The upload is judged by the last answer: where the first
one leads elsewhere, that is another answer than the one to the archive.

## Main definitions

* `ReachesUpload c o s x before post rs out`: the run from `s` goes on to the upload
* `IsAccepted n n' archive`, `IsAnswered n n' asset`: what the answer to an upload says of the archive

## Main results

* `HostClient.uploadAsset_cases`: everything that an upload can do
* `publish_upload_cases`: a run only asks, or goes on to the upload
* `publish_isAccepted_iff`: in a run that succeeds, the archive was accepted exactly where the answer
  to it leads nowhere
* `publish_of_isAnswered`: a run succeeds if the answer to the upload describes an asset
-/

namespace ReleasePublisher

namespace HostClient

/-- **The body of an upload** is the contents of the file. -/
theorem body_of_makes {c : HostClient} {url : Url} {node : FileNode} {bs : Bytes}
    {contentType : String} {showsProgress : Bool} {r : Request}
    (h : (c.uploadDraft url node bs.length contentType showsProgress).Makes r)
    (hb : FileTree.contents node = .ok bs) : r.body = bs := by
  obtain ⟨ps, hps, hflat⟩ := uploadBody_pieces hb showsProgress
  obtain ⟨q, pieces, -, hp, rfl⟩ := h
  obtain rfl : ps = pieces := by simpa [hps] using hp
  simp [hflat, uploadBody_length]

theorem uploadAsset_keeps_files (c : HostClient) (release : Release) (archive : PackagedArchive)
    (contentType : String) (showsProgress : Bool) :
    Run.Keeps Surroundings.files (c.uploadAsset release archive contentType showsProgress) :=
  .bind (.ofExcept _) fun _ => .bind .files fun _ => .bind (.ofExcept _) fun _ =>
    .bind (.note_files _) fun _ => .bind (.request_files _) fun _ => .ofExcept _

/-- **An upload** fails before its first request, or asks for the request with the opened file and is
judged by the answer. -/
theorem uploadAsset_cases (c : HostClient) (release : Release) (archive : PackagedArchive)
    (contentType : String) (showsProgress : Bool) (s : Surroundings) :
    (∃ e s', c.uploadAsset release archive contentType showsProgress s = (.error e, s') ∧
      s'.network = s.network) ∨
    ∃ url node r rs out s',
      uploadEndpoint release.uploadUrl archive.fileName = .ok url ∧
      s.files.openRead archive.path = .ok node ∧
      (c.uploadDraft url node archive.size contentType showsProgress).Makes r ∧
      Asked r.url.text s.network r true rs out ∧ s'.network = s.network.after rs ∧
      c.uploadAsset release archive contentType showsProgress s =
        ((out.mapError .http).bind (assetOf archive.fileName), s') := by
  rw [uploadAsset, Run.bind_apply, Run.ofExcept_apply]
  cases hu : uploadEndpoint release.uploadUrl archive.fileName with
  | error e => exact .inl ⟨e, s, rfl, rfl⟩
  | ok url =>
    simp only
    rw [Run.bind_of_ok (Run.files_apply s), Run.bind_apply, Run.ofExcept_apply, openAsset]
    cases hn : s.files.openRead archive.path with
    | error e => exact .inl ⟨_, s, rfl, rfl⟩
    | ok node =>
      simp only [mapError_ok]
      rw [Run.bind_of_ok (Run.note_apply _ s), Run.ask_apply]
      rcases hs : send (c.uploadDraft url node archive.size contentType showsProgress) s.network
        with ⟨out, n'⟩
      dsimp only
      rcases send_cases hs with ⟨e, rfl, rfl⟩ | ⟨r, rs, hr, -, rfl, ha⟩
      · exact .inl ⟨.http e, _, rfl, rfl⟩
      · exact .inr ⟨url, node, r, rs, out, _, rfl, rfl, hr, ha, rfl, rfl⟩

end HostClient

/-- **The run from `s` goes on to the upload**: it knew `x` before, and had sent `before`; the upload
sends `rs`, of which the first is `post`, and ends with `out`. -/
structure ReachesUpload [Gzip.Writer] (c : Config) (o : PublishOptions) (s : Surroundings)
    (x : Rehearsal) (before : List Request) (post : Request) (rs : List Request)
    (out : Except HttpFailure Response) : Prop where
  rehearsed : ∃ s₁, rehearse c s = (.ok x, s₁)
  packs : Packs c s.files (publish c o s).2.files x.archive
  before_get : ∀ q ∈ before, q.method = .get
  /-- The first request of the upload is made for the address that the release states. -/
  made : ∃ url node, uploadEndpoint x.release.uploadUrl x.archive.fileName = .ok url ∧
    (publish c o s).2.files.openRead x.archive.path = .ok node ∧
    ((HostClient.ofBase c.apiUrl x.token).uploadDraft url node x.archive.size octetStream
      o.showsProgress).Makes post
  post_method : post.method = .post
  /-- The first request of the upload holds the archive that is on the disk. -/
  post_body : (publish c o s).2.files.read x.archive.path = .ok post.body
  asked : Asked post.url.text (s.network.after before) post true rs out
  network_eq : (publish c o s).2.network = s.network.after (before ++ rs)
  outcome_eq : (publish c o s).1 =
    ((out.mapError .http).bind (HostClient.assetOf x.archive.fileName)).map
      fun asset => x.report c o (some asset)

theorem conclude_of_ok {c : Config} {o : PublishOptions} {x : Rehearsal} {s s' : Surroundings}
    {r : Except Failure Asset} (hd : o.dryRun = false)
    (h : (HostClient.ofBase c.apiUrl x.token).uploadAsset x.release x.archive octetStream
      o.showsProgress s = (r, s')) :
    (conclude c o x s).1 = r.map (fun asset => x.report c o (some asset)) ∧
      (conclude c o x s).2.network = s'.network ∧ (conclude c o x s).2.files = s'.files := by
  rw [conclude, uploadUnlessDry]
  simp only [hd, Bool.false_eq_true, if_false]
  rw [Run.bind_assoc]
  cases r with
  | error e =>
    rw [Run.bind_of_error h]
    exact ⟨rfl, rfl, rfl⟩
  | ok asset =>
    rw [Run.bind_of_ok h]
    exact ⟨rfl, rfl, rfl⟩

/-- **A run that is not dry** fails and has only asked, or goes on to the upload. -/
theorem publish_upload_cases [Gzip.Writer] (c : Config) (o : PublishOptions) (s : Surroundings)
    (hd : o.dryRun = false) :
    (∃ e rs, (publish c o s).1 = .error e ∧ (∀ q ∈ rs, q.method = .get) ∧
      (publish c o s).2.network = s.network.after rs) ∨
    ∃ x before post rs out, ReachesUpload c o s x before post rs out := by
  obtain ⟨before, hb, hn⟩ := rehearse_reads c s
  rcases hr : rehearse c s with ⟨e | x, s₁⟩
  · have hp : publish c o s = (.error e, s₁) := by rw [publish_eq_rehearse, Run.bind_of_error hr]
    exact .inl ⟨e, before, by rw [hp], hb, by rw [hp]; simpa [hr] using hn⟩
  · have hp : publish c o s = conclude c o x s₁ := by rw [publish_eq_rehearse, Run.bind_of_ok hr]
    have hn : s₁.network = s.network.after before := by simpa [hr] using hn
    obtain ⟨s₀, hpack, hfiles⟩ := rehearse_ok hr
    rcases (HostClient.ofBase c.apiUrl x.token).uploadAsset_cases x.release x.archive octetStream
      o.showsProgress s₁ with ⟨e, s', hu, hn'⟩ | ⟨url, node, post, rs, out, s', hurl, hnode, hm, ha,
      hn', hu⟩
    · obtain ⟨h₁, h₂, -⟩ := conclude_of_ok (x := x) hd hu
      exact .inl ⟨e, before, by rw [hp, h₁]; rfl, hb, by rw [hp, h₂, hn', hn]⟩
    · obtain ⟨h₁, h₂, h₃⟩ := conclude_of_ok (x := x) hd hu
      have hs' : s'.files = s₀.files := by
        rw [← hfiles]
        exact (HostClient.uploadAsset_keeps_files _ _ _ _ _).eq hu
      have hpacks := package_ok hpack
      obtain ⟨node', bs, hopen, hbytes, hsize, -⟩ := hpacks.contents
      rw [hfiles] at hnode
      obtain rfl : node' = node := Except.ok.inj (hopen.symm.trans hnode)
      refine .inr ⟨x, before, post, rs, out, ⟨s₁, hr⟩, ?_, hb,
        ⟨url, node', hurl, ?_, hm⟩, hm.method_eq, ?_, hn ▸ ha, ?_, by rw [hp, h₁]⟩
      · rw [hp, h₃, hs']
        exact hpacks
      · rw [hp, h₃, hs']
        exact hopen
      · rw [hp, h₃, hs', FileTree.read, hopen, HostClient.body_of_makes (hsize ▸ hm) hbytes]
        exact hbytes
      · rw [hp, h₂, hn', hn, Network.after_after]

/-! ### Accepted archives -/

/-- The answer tells of success, and its body was received completely and describes the asset. -/
def Response.Describes (a : Response) (asset : Asset) : Prop :=
  a.isSuccess = true ∧ ∃ body, a.document = some body ∧ Asset.decode body = .ok asset

theorem HostClient.assetOf_eq_ok_iff {fileName : String} {a : Response} {asset : Asset} :
    assetOf fileName a = .ok asset ↔ a.Describes asset := by
  unfold assetOf Response.Describes
  cases hs : a.isSuccess with
  | false => by_cases h : a.status = 401 <;> simp [h]
  | true =>
    cases hb : a.document with
    | none => simp [decoded, hb]
    | some body => cases hd : Asset.decode body <;> simp [decoded, hb, hd]

/-- **The archive was accepted** between two states of the network: a request with these bytes as its
body changed something on the other side, and the answer to it told of success. -/
def IsAccepted (n n' : Network) (archive : Bytes) : Prop :=
  ∃ k q a, n'.sent[n.sent.length + k]? = some q ∧ q.method = .post ∧ q.body = archive ∧
    n.delivery k = some a ∧ a.isSuccess = true

/-- **The upload was answered with an asset** between two states of the network: the answer to a
request that changed something on the other side describes it. -/
def IsAnswered (n n' : Network) (asset : Asset) : Prop :=
  ∃ k q a, n'.sent[n.sent.length + k]? = some q ∧ q.method = .post ∧
    n.delivery k = some a ∧ a.Describes asset

namespace ReachesUpload

variable [Gzip.Writer] {c : Config} {o : PublishOptions} {s : Surroundings} {x : Rehearsal}
  {before rs : List Request} {post : Request} {out : Except HttpFailure Response}

/-- The run succeeds exactly where the last answer describes an asset, and reports it. -/
theorem of_ok {r : PublishReport} (h : ReachesUpload c o s x before post rs out)
    (hr : (publish c o s).1 = .ok r) :
    ∃ a asset, out = .ok a ∧ a.Describes asset ∧ r = x.report c o (some asset) := by
  have ho := h.outcome_eq
  rw [hr] at ho
  cases out with
  | error e => cases ho
  | ok a =>
    cases ha : HostClient.assetOf x.archive.fileName a with
    | error e => simp [Except.bind, Except.map, ha] at ho
    | ok asset =>
      refine ⟨a, asset, rfl, HostClient.assetOf_eq_ok_iff.mp ha, ?_⟩
      simpa [Except.bind, Except.map, ha] using ho

/-- **Only the first request of the upload** changes something on the other side. -/
theorem eq_post (h : ReachesUpload c o s x before post rs out) {k : Nat} {q : Request}
    (hq : (before ++ rs)[k]? = some q) (hm : q.method = .post) :
    k = before.length ∧ q = post ∧ rs = post :: rs.tail := by
  have hget : ∀ p, p.method = .get → q ≠ p := by
    rintro p hp rfl
    cases hm.symm.trans hp
  by_cases hk : k < before.length
  · rw [List.getElem?_append_left hk] at hq
    exact absurd rfl (hget q (h.before_get q (List.mem_of_getElem? hq)))
  · rw [List.getElem?_append_right (Nat.le_of_not_lt hk)] at hq
    obtain ⟨hops, rfl⟩ := h.asked.eq_cons (by rintro rfl; simp at hq)
    rcases hi : k - before.length with _ | i
    · rw [hi] at hq
      obtain rfl : post = q := by simpa using hq
      exact ⟨by omega, rfl, rfl⟩
    · rw [hi] at hq
      have hplain := h.asked.tail_isPlain (.inr rfl) q (List.mem_of_getElem? hq)
      exact absurd rfl (hget q hplain.1)

theorem sent_getElem? (h : ReachesUpload c o s x before post rs out) (k : Nat) :
    (publish c o s).2.network.sent[s.network.sent.length + k]? = (before ++ rs)[k]? := by
  rw [h.network_eq, Network.sent_after, List.getElem?_append_right (Nat.le_add_right _ _),
    Nat.add_sub_cancel_left]

/-- **In a run that succeeds, the archive was accepted** exactly where no request follows the upload. -/
theorem isAccepted_iff {b : Response} (h : ReachesUpload c o s x before post rs (.ok b))
    (hb : b.isSuccess = true) :
    IsAccepted s.network (publish c o s).2.network post.body ↔ rs = [post] := by
  constructor
  · rintro ⟨k, q, a, hq, hm, -, ha, hs⟩
    rw [h.sent_getElem?] at hq
    obtain ⟨rfl, rfl, hrs⟩ := h.eq_post hq hm
    have hasked := h.asked
    rw [hrs] at hasked
    rw [hrs, (hasked.isSuccess_iff hb (by simpa using ha)).mp hs]
  · rintro rfl
    obtain ⟨qs, q, hq, hd⟩ := h.asked.of_ok
    obtain rfl : qs = [] := by cases qs <;> simp_all
    refine ⟨before.length, post, b, ?_, h.post_method, rfl, by simpa using hd, hb⟩
    rw [h.sent_getElem?]
    simp

/-- An upload whose answer describes an asset ends the run with success. -/
theorem of_isAnswered {asset : Asset} (h : ReachesUpload c o s x before post rs out)
    (ha : IsAnswered s.network (publish c o s).2.network asset) :
    (publish c o s).1 = .ok (x.report c o (some asset)) := by
  obtain ⟨k, q, a, hq, hm, hk, hd⟩ := ha
  rw [h.sent_getElem?] at hq
  obtain ⟨rfl, rfl, hrs⟩ := h.eq_post hq hm
  have hasked := h.asked
  rw [hrs] at hasked
  obtain ⟨-, rfl⟩ := hasked.of_isSuccess (by simpa using hk) hd.1
  rw [h.outcome_eq, mapError_ok, Except.bind, HostClient.assetOf_eq_ok_iff.mpr hd]
  rfl

end ReachesUpload

/-- **An upload that is reported was accepted exactly where it was not redirected.** In every run that is
not dry and succeeds, one request holds the archive that is on the disk; all others only ask. That
request was accepted exactly where no other one follows it, and none does exactly where the answer to
it leads nowhere. What is reported is the answer to the last request. -/
theorem publish_isAccepted_iff [Gzip.Writer] {c : Config} {o : PublishOptions} {s s' : Surroundings}
    {r : PublishReport} (h : publish c o s = (.ok r, s')) (hd : o.dryRun = false) :
    ∃ before post hops a b asset,
      s'.network.sent = s.network.sent ++ (before ++ post :: hops) ∧
      (∀ q ∈ before ++ hops, q.method = .get) ∧ post.method = .post ∧
      s'.files.read r.archive.path = .ok post.body ∧
      (IsAccepted s.network s'.network post.body ↔ hops = []) ∧
      s.network.delivery before.length = some a ∧ (nextHop post true a = none ↔ hops = []) ∧
      s.network.delivery (before ++ hops).length = some b ∧ b.Describes asset ∧
      r.asset = some asset := by
  have hr : (publish c o s).1 = .ok r := by rw [h]
  have hs' : (publish c o s).2 = s' := by rw [h]
  rcases publish_upload_cases c o s hd with ⟨e, rs, he, -⟩ | ⟨x, before, post, rs, out, hu⟩
  · cases he.symm.trans hr
  · obtain ⟨b, asset, rfl, hb, rfl⟩ := hu.of_ok hr
    obtain ⟨qs, q, hqs, hlast⟩ := hu.asked.of_ok
    obtain ⟨a, ha⟩ := hu.asked.delivery_zero
    obtain ⟨hops, rfl⟩ := hu.asked.eq_cons (by rw [hqs]; simp)
    have hl : hops.length = qs.length := by simpa using congrArg List.length hqs
    refine ⟨before, post, hops, a, b, asset, ?_, fun p hp => ?_, hu.post_method, hs' ▸ hu.post_body,
      ?_, by simpa using ha, hu.asked.nextHop_eq_none_iff ha, ?_, hb, rfl⟩
    · rw [← hs', hu.network_eq, Network.sent_after]
    · rcases List.mem_append.mp hp with hp | hp
      · exact hu.before_get p hp
      · exact (hu.asked.tail_isPlain (.inr rfl) p hp).1
    · rw [← hs', hu.isAccepted_iff hb.1]
      simp
    · rw [List.length_append, hl]
      simpa using hlast

theorem not_isAnswered_self (n : Network) (asset : Asset) : ¬ IsAnswered n n asset := by
  rintro ⟨k, q, a, hq, -⟩
  rw [List.getElem?_eq_none (Nat.le_add_right _ _)] at hq
  cases hq

/-- A run that is not dry succeeds if the answer to the upload describes an asset, and reports it. -/
theorem publish_of_isAnswered [Gzip.Writer] {c : Config} {o : PublishOptions} {s : Surroundings}
    {asset : Asset}
    (hd : o.dryRun = false) (ha : IsAnswered s.network (publish c o s).2.network asset) :
    ∃ r, (publish c o s).1 = .ok r ∧ r.asset = some asset ∧
      r.archive.path = (Layout.ofConfig c).output := by
  rcases publish_upload_cases c o s hd with ⟨e, rs, -, hget, hn⟩ | ⟨x, before, post, rs, out, hu⟩
  · obtain ⟨k, q, a, hq, hm, -⟩ := ha
    rw [hn, Network.sent_after, List.getElem?_append_right (Nat.le_add_right _ _),
      Nat.add_sub_cancel_left] at hq
    cases hm.symm.trans (hget q (List.mem_of_getElem? hq))
  · exact ⟨_, hu.of_isAnswered ha, rfl, congrArg PackagedArchive.path hu.packs.told⟩

/-! ### A release where the upload is redirected -/

namespace Sample

/-- The project `a`, built in the directory `b`. -/
def config : Config :=
  { project := "a", owner := "o", platform := "p", buildDir := .ofText "b", outputDir := .ofText ""
    apiUrl := "http://h", proxyUrl := some "http://s", configFile := none }

/-- The working directory `w` with the binary. -/
def files : FileTree :=
  { nodes := [([[0x77]], .folder), ([[0x77], [0x62]], .folder),
      ([[0x77], [0x62], [0x61]], .file ⟨[1], 0o755, 0⟩)]
    current := some [[0x77]]
    now := 1 }

/-- A complete answer. -/
def answer (status : Nat) (headers : Headers) (body : String) : Answer :=
  .response { status := status, headers := headers, body := Utf8.encode body, isComplete := true }

/-- The answer that describes an asset. -/
def assetAnswer : Answer := answer 201 [] "\x7b\"id\":1,\"name\":\"n\"\x7d"

/-- A reachable network with a token, the repository and a release; then it gives these answers. -/
def surroundings (answers : List Answer) : Surroundings :=
  { files := files
    network :=
      { isReachable := true
        script := [answer 200 [] "\x7b\"github\":\x7b\"token\":\"t\"\x7d\x7d",
          answer 200 [] "\x7b\"id\":1,\"full_name\":\"o/a\"\x7d",
          answer 200 [] "\x7b\"id\":1,\"tag_name\":\"v\",\"upload_url\":\"http://h/u\"\x7d"] ++ answers
        sent := [] }
    log := [] }

end Sample

/-- The archive of the sample release is accepted where the answer to it describes an asset. -/
theorem publish_isAccepted_iff_sample :
    ∃ r s', publish Sample.config ⟨false, false⟩ (Sample.surroundings [Sample.assetAnswer]) =
        (.ok r, s') ∧
      ∃ before post hops a b asset,
        s'.network.sent = before ++ post :: hops ∧
        (∀ q ∈ before ++ hops, q.method = .get) ∧ post.method = .post ∧
        s'.files.read r.archive.path = .ok post.body ∧
        (IsAccepted (Sample.surroundings [Sample.assetAnswer]).network s'.network post.body ↔
          hops = []) ∧
        (Sample.surroundings [Sample.assetAnswer]).network.delivery before.length = some a ∧
        (nextHop post true a = none ↔ hops = []) ∧
        (Sample.surroundings [Sample.assetAnswer]).network.delivery (before ++ hops).length =
          some b ∧ b.Describes asset ∧ r.asset = some asset := by
  have hok : (publish Sample.config ⟨false, false⟩
      (Sample.surroundings [Sample.assetAnswer])).1.isOk = true := by decide +kernel
  rcases h : publish Sample.config ⟨false, false⟩ (Sample.surroundings [Sample.assetAnswer]) with
    ⟨e | r, s'⟩
  · rw [h] at hok
    cases hok
  · exact ⟨r, s', rfl, publish_isAccepted_iff h rfl⟩

/-- **A redirected upload is reported although no archive was accepted**: the host answers the archive
with 302, and the plain request that follows with an asset. -/
theorem not_isAccepted_of_redirected :
    ∃ r s' archive,
      publish Sample.config ⟨false, false⟩
        (Sample.surroundings [Sample.answer 302 [("location", "/x")] "", Sample.assetAnswer]) =
          (.ok r, s') ∧
      r.asset.isSome = true ∧ s'.files.read r.archive.path = .ok archive ∧
      ¬ IsAccepted (Sample.surroundings
        [Sample.answer 302 [("location", "/x")] "", Sample.assetAnswer]).network s'.network
          archive := by
  generalize hs : Sample.surroundings [Sample.answer 302 [("location", "/x")] "",
    Sample.assetAnswer] = s
  have hrun : ((publish Sample.config ⟨false, false⟩ s).1.isOk,
      (publish Sample.config ⟨false, false⟩ s).2.network.sent.map (·.method)) =
      (true, [.get, .get, .get, .post, .get]) := by
    subst hs
    decide +kernel
  obtain ⟨hok, hsent⟩ := Prod.mk.inj hrun
  have hs₀ : s.network.sent = [] := by rw [← hs]; rfl
  rcases publish_upload_cases Sample.config ⟨false, false⟩ s rfl with
    ⟨e, rs, he, -⟩ | ⟨x, before, post, rs, out, hu⟩
  · rw [he] at hok
    cases hok
  · rcases h : publish Sample.config ⟨false, false⟩ s with ⟨e | r, s'⟩
    · rw [h] at hok
      cases hok
    · have hs' : (publish Sample.config ⟨false, false⟩ s).2 = s' := by rw [h]
      obtain ⟨b, asset, rfl, hb, rfl⟩ := hu.of_ok (r := r) (by rw [h])
      refine ⟨_, s', post.body, rfl, rfl, hs' ▸ hu.post_body, ?_⟩
      rw [← hs', hu.isAccepted_iff hb.1]
      rintro rfl
      rw [hu.network_eq, Network.sent_after, hs₀, List.nil_append] at hsent
      -- The last request only asks, so that it is not the upload.
      have hlast := congrArg List.getLast? hsent
      simp [hu.post_method] at hlast

end ReleasePublisher

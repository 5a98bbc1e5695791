import ReleasePublisher.Proofs.Http.Requests
import ReleasePublisher.Proofs.Publish.Calls
import ReleasePublisher.Proofs.Publish.Upload
import ReleasePublisher.Proofs.Url.Written

/-!
# What an upload holds

The archive is written, copied to its digest in pieces, and read once more while it is sent. What is sent
is what was packed, in a request that tells its length and its name; and what is reported of it is the
size and the digest of these bytes.

## Main definitions

* `beforeTemplate uploadUrl`: the address for uploads without its template
* `Request.Uploads q archive contents base`: the request uploads an archive to an address

## Main results

* `HostClient.uploads_of_makes`: the request of an upload
* `publish_uploads_packed_archive`: what is uploaded is what was packed and is reported
* `name_of_upload_with_query`: an address for uploads may state another name before
-/

namespace ReleasePublisher

/-- The address for uploads that a release states, without its template. -/
def beforeTemplate (uploadUrl : String) : String :=
  String.ofList (uploadUrl.toList.takeWhile (· != '{'))

theorem uploadEndpoint_eq_ok {uploadUrl fileName : String} {url : Url}
    (h : uploadEndpoint uploadUrl fileName = .ok url) :
    ∃ base, Url.parse (beforeTemplate uploadUrl) = .ok base ∧ url = base.addPair "name" fileName := by
  unfold uploadEndpoint at h
  split at h
  · rename_i base hbase
    exact ⟨base, hbase, (Except.ok.inj h).symm⟩
  · cases h

/-- **The request uploads an archive** with these contents, to the address `base`. -/
structure Request.Uploads (q : Request) (archive : PackagedArchive) (contents : Bytes)
    (base : Url) : Prop where
  body : q.body = contents
  contentLength : q.headers.values "content-length" = [toString contents.length]
  contentType : q.headers.values "content-type" = ["application/octet-stream"]
  /-- The query states what that of the address states, and the name of the archive behind it. -/
  pairs : Form.pairs (q.url.query.getD []) =
    Form.pairs (base.query.getD []) ++ [("name", archive.fileName)]

namespace HostClient

variable {c : HostClient} {url : Url} {node : FileNode} {showsProgress : Bool}

theorem values_uploadDraft (c : HostClient) (url : Url) (node : FileNode) (size : Nat)
    (contentType : String) (showsProgress : Bool) :
    (c.uploadDraft url node size contentType showsProgress).headers.values "content-length" = [] ∧
      (c.uploadDraft url node size contentType showsProgress).headers.values "content-type" =
        [contentType] := by
  constructor
  · simp [uploadDraft, headers, Headers.values]
  · simp [uploadDraft, headers, Headers.values]

/-- **The request of an upload** holds the contents of the file, and tells its length and its name. -/
theorem uploads_of_makes {release : Release} {archive : PackagedArchive} {contents : Bytes}
    {q : Request}
    (hurl : uploadEndpoint release.uploadUrl archive.fileName = .ok url)
    (hq : (c.uploadDraft url node contents.length octetStream showsProgress).Makes q)
    (hnode : FileTree.contents node = .ok contents) :
    ∃ base, Url.parse (beforeTemplate release.uploadUrl) = .ok base ∧
      q.Uploads archive contents base := by
  obtain ⟨base, hbase, rfl⟩ := uploadEndpoint_eq_ok hurl
  obtain ⟨u, hu, hweb, hqurl, hqheaders⟩ := hq.eq
  obtain ⟨hlength, htype⟩ := c.values_uploadDraft (base.addPair "name" archive.fileName) node
    contents.length octetStream showsProgress
  have hread : u = base.addPair "name" archive.fileName :=
    Url.eq_of_parse_text_addPair hbase hu hweb
  refine ⟨base, hbase, body_of_makes hq hnode, ?_, ?_, ?_⟩
  · rw [hqheaders, Draft.values_allHeaders _ _ (by decide) (by decide), hlength, if_neg (by decide),
      if_pos rfl]
    show [toString (uploadBody node contents.length showsProgress).length] = _
    rw [uploadBody_length]
  · rw [hqheaders, Draft.values_allHeaders _ _ (by decide) (by decide), htype, if_neg (by decide),
      if_neg (by decide)]
    rfl
  · obtain ⟨query, hquery, hpairs⟩ := Form.pairs_addPair base "name" archive.fileName
    rw [hqurl, (takeCredentials_fst u).2.1, hread, hquery]
    exact hpairs

end HostClient

/-- A dry run changes nothing on the other side. -/
theorem method_of_dryRun [Gzip.Writer] {c : Config} {o : PublishOptions} {s : Surroundings}
    (hd : o.dryRun = true) :
    ∀ q ∈ (publish c o s).2.network.sent.drop s.network.sent.length, q.method ≠ .post := by
  intro q hq hm
  obtain ⟨records, -, h⟩ := publish_isOrderly c o s
  have hle := h.posts_le
  rw [h.sent, List.drop_left] at hq
  rw [hd, if_pos rfl, Nat.le_zero] at hle
  exact List.countP_eq_zero.mp hle q hq (by simp [hm])

/-- **What is uploaded is what was packed**, and what is reported. Whatever the configuration, the files
and the answers are, a request of a run that changes something on the other side holds, byte for byte,
the file that packing left at the path of the archive. It tells its length and its type, and its query
states what the release's own address for uploads states and then the name of the archive. A run that
succeeds reports the length and the digest of these bytes. -/
theorem publish_uploads_packed_archive [Gzip.Writer] {c : Config} {o : PublishOptions}
    {s : Surroundings}
    {q : Request} (hq : q ∈ (publish c o s).2.network.sent.drop s.network.sent.length)
    (hm : q.method = .post) :
    ∃ x s₁ s₂ contents base,
      package c s = (.ok x.archive, s₁) ∧ rehearse c s = (.ok x, s₂) ∧
      x.archive.path = (Layout.ofConfig c).output ∧
      x.archive.fileName = (Layout.ofConfig c).archiveName ∧
      s₁.files.read x.archive.path = .ok contents ∧
      x.archive.size = contents.length ∧ x.archive.sha256 = Sha256.hexDigest contents ∧
      Url.parse (beforeTemplate x.release.uploadUrl) = .ok base ∧
      q.Uploads x.archive contents base ∧
      ∀ report, (publish c o s).1 = .ok report → report.archive = x.archive := by
  cases hd : o.dryRun with
  | true => exact absurd hm (method_of_dryRun hd q hq)
  | false =>
    rcases publish_upload_cases c o s hd with ⟨e, rs, -, hget, hn⟩ | ⟨x, before, post, rs, out, hu⟩
    · rw [hn, Network.sent_after, List.drop_left] at hq
      cases hm.symm.trans (hget q hq)
    · rw [hu.network_eq, Network.sent_after, List.drop_left] at hq
      obtain ⟨k, hk⟩ := List.mem_iff_getElem?.mp hq
      obtain ⟨-, rfl, -⟩ := hu.eq_post hk hm
      obtain ⟨s₂, hrehearse⟩ := hu.rehearsed
      obtain ⟨s₁, hpackage, -⟩ := rehearse_ok hrehearse
      have hfiles : s₁.files = (publish c o s).2.files := by
        have hpacked := (package_of_packs hu.packs).2
        rwa [hpackage] at hpacked
      obtain ⟨node, contents, hopen, hcontents, hsize, hsha⟩ := hu.packs.contents
      obtain ⟨url, node', hurl, hopen', hmakes⟩ := hu.made
      obtain rfl := Except.ok.inj (hopen.symm.trans hopen')
      rw [hsize] at hmakes
      obtain ⟨base, hbase, hq⟩ := HostClient.uploads_of_makes hurl hmakes hcontents
      refine ⟨x, s₁, s₂, contents, base, hpackage, hrehearse, ?_, ?_, ?_, hsize, hsha, hbase, hq, ?_⟩
      · rw [hu.packs.told]
      · rw [hu.packs.told]
      · rw [hfiles, FileTree.read, hopen]
        exact hcontents
      · intro report hreport
        obtain ⟨a, asset, -, -, rfl⟩ := hu.of_ok hreport
        rfl

namespace Sample

/-- The sample network, where the release states this address for uploads. -/
def surroundingsWith (uploadUrl : String) (answers : List Answer) : Surroundings :=
  let release := answer 200 []
    ("\x7b\"id\":1,\"tag_name\":\"v\",\"upload_url\":\"" ++ uploadUrl ++ "\"\x7d")
  { surroundings [] with
    network :=
      { (surroundings []).network with
        script := (surroundings []).network.script.take 2 ++ release :: answers } }

end Sample

/-- The sample release uploads what was packed, while its progress is shown. -/
theorem publish_uploads_packed_archive_sample :
    ∃ s q, s = Sample.surroundingsWith "http://h/u\x7b?name,label\x7d" [Sample.assetAnswer] ∧
      q ∈ (publish Sample.config ⟨false, true⟩ s).2.network.sent.drop s.network.sent.length ∧
      q.method = .post ∧
      ∃ x s₁ s₂ contents base,
        package Sample.config s = (.ok x.archive, s₁) ∧
        rehearse Sample.config s = (.ok x, s₂) ∧
        x.archive.path = (Layout.ofConfig Sample.config).output ∧
        x.archive.fileName = (Layout.ofConfig Sample.config).archiveName ∧
        s₁.files.read x.archive.path = .ok contents ∧
        x.archive.size = contents.length ∧ x.archive.sha256 = Sha256.hexDigest contents ∧
        Url.parse (beforeTemplate x.release.uploadUrl) = .ok base ∧
        q.Uploads x.archive contents base ∧
        ∀ report, (publish Sample.config ⟨false, true⟩ s).1 = .ok report →
          report.archive = x.archive := by
  generalize hs : Sample.surroundingsWith "http://h/u\x7b?name,label\x7d" [Sample.assetAnswer] = s
  have hsent : ((publish Sample.config ⟨false, true⟩ s).2.network.sent.drop
      s.network.sent.length).any (·.method == .post) = true := by
    subst hs
    decide +kernel
  obtain ⟨q, hq, hpost⟩ := List.any_eq_true.mp hsent
  have hm : q.method = .post := eq_of_beq hpost
  exact ⟨s, q, rfl, hq, hm, publish_uploads_packed_archive hq hm⟩

/-- **Another name may come first**: where the release's address for uploads states a name itself, that is
the one that is found in the query. -/
theorem name_of_upload_with_query :
    ∃ q ∈ (publish Sample.config ⟨false, false⟩
        (Sample.surroundingsWith "http://h/u?name=x" [Sample.assetAnswer])).2.network.sent,
      q.method = .post ∧ (Layout.ofConfig Sample.config).archiveName = "a-p.tar.gz" ∧
      (Form.pairs (q.url.query.getD [])).lookup "name" = some "x" := by
  decide +kernel

end ReleasePublisher

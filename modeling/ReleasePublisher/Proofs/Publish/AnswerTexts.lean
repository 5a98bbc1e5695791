import ReleasePublisher.Proofs.Publish.SecretPlaces
import ReleasePublisher.Proofs.Url.Domain

/-!
# The texts of answers

Whatever strings a call brings back are those that the answer states in their places. The release host's
records are read of the bytes that came, so each of these places is UTF-8. The secret is read of a text in
which ill-formed pieces are replaced: there the token is the string that its place states after this
replacement, which is the one that came exactly if the place is UTF-8.

## Main definitions

* `Repository.IsStatedIn`, `Release.IsStatedIn`, `Asset.IsStatedIn`: a text states the strings of a record
* `Errand.StatesAs read k body x`: an answer states the strings that an errand brings back
* `Errand.IsIllegible k body`: the bytes of a string that an errand asks for are not UTF-8
* `Errand.ReadsTexts k body out`: how an outcome goes with the strings of an answer

## Main results

* `Repository.isStatedIn_of_decode`, `Release.isStatedIn_of_decode`, `Asset.isStatedIn_of_decode`: records
  that are read are stated
* `DeployToken.isStatedIn_of_ofText`: tokens that are read are stated after replacement
* `Errand.run_readsTexts`: how the outcome of an errand goes with the strings of the answer
* `replaced_token_is_not_stated`: a token that is brought back is not the one that came
-/

namespace ReleasePublisher

open Json Utf8

variable {t x : Bytes}

/-! ### Records that are stated -/

/-- The data of a record that is read. -/
theorem exists_readRecord_of_decodeRecord {α : Type} {name : String} {fields : List Field}
    {ofData : List Datum → Option α} {a : α} (h : decodeRecord name fields ofData t = .ok a) :
    ∃ ds rest, readRecord name fields t = .ok (ds, rest) ∧ skipBlank rest = [] ∧ ofData ds = some a := by
  unfold decodeRecord at h
  split at h
  · cases h
  · rename_i ds hds
    obtain ⟨rest, hread, hrest⟩ := wholeText_eq_ok_iff.mp hds
    split at h
    · rename_i b hb
      obtain rfl := Except.ok.inj h
      exact ⟨ds, rest, hread, hrest, hb⟩
    · cases h

/-- A whole text opens with itself. -/
theorem Json.Opens.refl (t : Bytes) : Opens t t :=
  ⟨[], [], .nil, .nil, by simp⟩

/-- **Bytes that are not UTF-8** stand in the place of a string, in a record with these names. -/
def Json.HasIllegible (names texts : List String) (t : Bytes) : Prop :=
  ∃ name ∈ texts, ∃ p, IsInPlace names name t p ∧ ¬ IsValid p

/-- Where strings are stated, their places are UTF-8. -/
theorem Json.StatesTexts.not_hasIllegible {names : List String} {es : List (String × Option String)}
    (h : StatesTexts verbatim names t es) : ¬ HasIllegible names (es.map (·.1)) t := by
  rintro ⟨name, hname, p, hp, hvalid⟩
  obtain ⟨e, he, rfl⟩ := List.mem_map.mp hname
  exact hvalid (h.isRendering e he p hp).isValid

namespace Asset

/-- The strings of an asset, under their names. -/
def texts (a : Asset) : List (String × Option String) :=
  [("name", some a.name), ("content_type", a.contentType), ("browser_download_url", a.downloadUrl)]

/-- The names of the strings. -/
def textNames : List String :=
  ["name", "content_type", "browser_download_url"]

/-- **The text states the strings of the asset**, where each piece is read in the given way. -/
def IsStatedIn (read : Bytes → Bytes) (a : Asset) (t : Bytes) : Prop :=
  StatesTexts read (fields.map (·.name)) t a.texts

/-- The bytes of a string of an asset are not UTF-8. -/
def IsIllegible (t : Bytes) : Prop :=
  HasIllegible (fields.map (·.name)) textNames t

/-- **An asset that is read is stated**, wherever it stands. -/
theorem isStatedIn_of_gives {a : Asset} {ds : List Datum} (ht : IsWellFormed t) (hx : Opens t x)
    (h : Gives (readRecord "ReleaseAsset" fields) x ds) (ha : ofData ds = some a) :
    a.IsStatedIn verbatim t := by
  unfold ofData at ha
  split at ha
  · obtain rfl := Option.some.inj ha
    refine statesTexts_of_gives (reads_of_fits fits_fields) nodup_fields ht hx h ?_
    simp only [texts, List.forall_mem_cons]
    exact ⟨⟨1, _, _, rfl, rfl, rfl, Field.holdsText_text _ _⟩,
      ⟨3, _, _, rfl, rfl, rfl, Field.holdsText_optionalText _ _ _⟩,
      ⟨4, _, _, rfl, rfl, rfl, Field.holdsText_optionalText _ _ _⟩, nofun⟩
  · cases ha

theorem isStatedIn_of_decode {a : Asset} (h : decode t = .ok a) : a.IsStatedIn verbatim t := by
  obtain ⟨ds, rest, hread, hrest, ha⟩ := exists_readRecord_of_decodeRecord h
  have ht : IsDocument t := ⟨rest, reads_record _ _ _ hread, hrest⟩
  exact isStatedIn_of_gives ht.isWellFormed (.refl t) ⟨rest, hread⟩ ha

theorem IsStatedIn.not_isIllegible {a : Asset} (h : a.IsStatedIn verbatim t) : ¬ IsIllegible t :=
  StatesTexts.not_hasIllegible h

end Asset

namespace Repository

/-- The strings of a repository, under their names. -/
def texts (r : Repository) : List (String × Option String) :=
  [("full_name", some r.fullName), ("html_url", r.pageUrl)]

/-- The names of the strings. -/
def textNames : List String :=
  ["full_name", "html_url"]

/-- **The text states the strings of the repository**, where each piece is read in the given way. -/
def IsStatedIn (read : Bytes → Bytes) (r : Repository) (t : Bytes) : Prop :=
  StatesTexts read (fields.map (·.name)) t r.texts

/-- The bytes of a string of a repository are not UTF-8. -/
def IsIllegible (t : Bytes) : Prop :=
  HasIllegible (fields.map (·.name)) textNames t

/-- **A repository that is read is stated.** -/
theorem isStatedIn_of_decode {r : Repository} (h : decode t = .ok r) : r.IsStatedIn verbatim t := by
  obtain ⟨ds, rest, hread, hrest, hr⟩ := exists_readRecord_of_decodeRecord h
  have hreads := reads_of_fits fits_fields
  have ht : IsDocument t := ⟨rest, reads_readRecord hreads (by decide) _ _ _ hread, hrest⟩
  unfold ofData at hr
  split at hr
  · obtain rfl := Option.some.inj hr
    refine statesTexts_of_gives hreads (by decide) ht.isWellFormed (.refl t) ⟨rest, hread⟩ ?_
    simp only [texts, List.forall_mem_cons]
    exact ⟨⟨1, _, _, rfl, rfl, rfl, Field.holdsText_text _ _⟩,
      ⟨2, _, _, rfl, rfl, rfl, Field.holdsText_optionalText _ _ _⟩, nofun⟩
  · cases hr

theorem IsStatedIn.not_isIllegible {r : Repository} (h : r.IsStatedIn verbatim t) : ¬ IsIllegible t :=
  StatesTexts.not_hasIllegible h

end Repository

namespace Release

/-- The strings of a release, under their names. -/
def texts (r : Release) : List (String × Option String) :=
  [("tag_name", some r.tag), ("name", r.name), ("upload_url", some r.uploadUrl), ("html_url", r.pageUrl)]

/-- The names of the strings. -/
def textNames : List String :=
  ["tag_name", "name", "upload_url", "html_url"]

/-- The piece is where the assets of a release are. -/
def HasAssetsAt (t p : Bytes) : Prop :=
  IsInPlace (fields.map (·.name)) "assets" t p

/-- **The text states the strings of the release**, and as many assets as there are, each with its strings. -/
structure IsStatedIn (read : Bytes → Bytes) (r : Release) (t : Bytes) : Prop where
  statesTexts : StatesTexts read (fields.map (·.name)) t r.texts
  exists_list : ∀ p, HasAssetsAt t p → ∃ ps, Padded IsList p ps
  assets : ∀ p ps, HasAssetsAt t p → Padded IsList p ps →
    List.Forall₂ (fun q a => Asset.IsStatedIn read a q) ps r.assets
  exists_place : r.assets ≠ [] → ∃ p, HasAssetsAt t p

/-- The bytes of a string of a release, or of one of its assets, are not UTF-8. -/
def IsIllegible (t : Bytes) : Prop :=
  HasIllegible (fields.map (·.name)) textNames t ∨
    ∃ p ps, HasAssetsAt t p ∧ Padded IsList p ps ∧ ∃ q ∈ ps, Asset.IsIllegible q

/-- Assets that are read are stated. -/
theorem assets_stated {ps ts : List Bytes} {records : List (List Datum)} {assets : List Asset}
    (hps : ∀ p ∈ ps, IsWellFormed p) (hts : List.Forall₂ Opens ps ts)
    (hrecords : List.Forall₂ (Gives (readRecord "ReleaseAsset" Asset.fields)) ts records)
    (hassets : records.mapM Asset.ofData = some assets) :
    List.Forall₂ (fun q a => Asset.IsStatedIn verbatim a q) ps assets := by
  rw [mapM_eq_some_iff] at hassets
  induction hts generalizing records assets with
  | nil =>
    cases hrecords
    cases assets with
    | nil => exact .nil
    | cons => cases hassets
  | cons hx _ ih =>
    obtain _ | ⟨hds, hrecords⟩ := hrecords
    cases assets with
    | nil => cases hassets
    | cons a assets =>
      obtain ⟨hp, hps⟩ := List.forall_mem_cons.mp hps
      obtain ⟨ha, hassets⟩ := List.cons.inj hassets
      exact .cons (Asset.isStatedIn_of_gives hp hx hds ha) (ih hps hrecords hassets)

/-- What is read as the assets. -/
theorem assetsField_read_eq_ok_iff {s rest : Bytes} {records : List (List Datum)} :
    assetsField.read s = .ok (.many records, rest) ↔
      ∃ u ts, skipBlank s = 0x5B :: u ∧ Elements true u ts rest ∧
        List.Forall₂ (Gives (readRecord "ReleaseAsset" Asset.fields)) ts records := by
  rw [← readMany_eq_ok_iff Asset.reads_record]
  show Except.map _ _ = _ ↔ _
  rw [map_eq_ok]
  simp

/-- **A release that is read is stated.** -/
theorem isStatedIn_of_decode {r : Release} (h : decode t = .ok r) : r.IsStatedIn verbatim t := by
  obtain ⟨ds, rest, hread, hrest, hr⟩ := exists_readRecord_of_decodeRecord h
  have hreads := reads_of_fits fits_fields
  have ht : IsWellFormed t :=
    IsDocument.isWellFormed ⟨rest, reads_readRecord hreads (by decide) _ _ _ hread, hrest⟩
  unfold ofData at hr
  split at hr
  · rename_i id tag name uploadUrl pageUrl records
    obtain ⟨assets, hassets, rfl⟩ := Option.map_eq_some_iff.mp hr
    -- The assets are read by the last of the six fields.
    have hgives : ∀ p, HasAssetsAt t p → ∃ y, Opens p y ∧ Gives assetsField.read y (.many records) :=
      fun p hp => gives_of_isInPlace (k := 5) hreads (by decide) (.refl t) ⟨rest, hread⟩ rfl rfl hp
    refine ⟨?_, fun p hp => ?_, fun p ps hp hps => ?_, fun hne => ?_⟩
    · refine statesTexts_of_gives hreads (by decide) ht (.refl t) ⟨rest, hread⟩ ?_
      simp only [texts, List.forall_mem_cons]
      exact ⟨⟨1, _, _, rfl, rfl, rfl, Field.holdsText_text _ _⟩,
        ⟨2, _, _, rfl, rfl, rfl, Field.holdsText_optionalText _ _ _⟩,
        ⟨3, _, _, rfl, rfl, rfl, Field.holdsText_text _ _⟩,
        ⟨4, _, _, rfl, rfl, rfl, Field.holdsText_optionalText _ _ _⟩, nofun⟩
    · obtain ⟨y, hy, r, hr⟩ := hgives p hp
      obtain ⟨u, ts, hu, -, -⟩ := assetsField_read_eq_ok_iff.mp hr
      obtain ⟨v, hv⟩ := hy.exists_skipBlank_eq hp.isWellFormed hu
      exact hp.isWellFormed.exists_encloses (show skipBlank p = Bracket.list.opening :: v from hv)
        fun _ => exists_element_of_isItem
    · obtain ⟨y, hy, r, hr⟩ := hgives p hp
      obtain ⟨u, ts, hu, hts, hrecords⟩ := assetsField_read_eq_ok_iff.mp hr
      have hopens := IsList.opens_elements hps hy hu hts
      obtain ⟨_, _, _, -, -, -, hlist⟩ := hps
      exact assets_stated (fun q hq => (hlist.isElement hq).1) hopens hrecords hassets
    · -- Without a place, there are as many assets as are assumed: none.
      rcases exists_isInPlace_or (k := 5) hreads (by decide) ht (.refl t) ⟨rest, hread⟩ rfl rfl with
        hplace | hfallback
      · exact hplace
      · obtain rfl : [] = records := Datum.many.inj (Option.some.inj hfallback)
        obtain rfl : [] = assets := Option.some.inj hassets
        exact absurd rfl hne
  · cases hr

theorem IsStatedIn.not_isIllegible {r : Release} (h : r.IsStatedIn verbatim t) : ¬ IsIllegible t := by
  rintro (htexts | ⟨p, ps, hp, hps, q, hq, hillegible⟩)
  · exact h.statesTexts.not_hasIllegible htexts
  · obtain ⟨a, -, ha⟩ := exists_counterpart (h.assets p ps hp hps) hq
    exact ha.not_isIllegible hillegible

end Release

/-! ### Tokens that are stated -/

namespace DeployToken

/-- The piece is where the token of a secret is. -/
def HasTokenAt (t p : Bytes) : Prop :=
  StandsAt ["github", "token"] t p

/-- **The text states the token**, where its piece is read in the given way. -/
structure IsStatedIn (read : Bytes → Bytes) (token : DeployToken) (t : Bytes) : Prop where
  exists_place : ∃ p, HasTokenAt t p
  isRendering : ∀ p, HasTokenAt t p → IsRendering (.text token.value) (read p)

/-- The bytes of the token are not UTF-8. -/
def IsIllegible (t : Bytes) : Prop :=
  ∃ p, HasTokenAt t p ∧ ¬ IsValid p

/-- **A token that is read is stated**, once ill-formed pieces are replaced. -/
theorem isStatedIn_of_ofText {token : DeployToken} (h : ofText (encode (lossy t)) = .ok token) :
    token.IsStatedIn (fun p => encode (lossy p)) t := by
  -- The text of the token is found at the end of the path.
  obtain ⟨v, value, hparse, hpath, rfl⟩ : ∃ v value, parse (encode (lossy t)) = .ok v ∧
      v.pointer? ["github", "token"] = some (.text value) ∧ token = ⟨value⟩ := by
    unfold ofText at h
    split at h
    · cases h
    rename_i v hv
    split at h
    · cases h
    · rename_i value hvalue
      split at h
      · cases h
      · exact ⟨v, value, hv, hvalue, (Except.ok.inj h).symm⟩
    · cases h
  obtain ⟨ht, hread⟩ := isLooselyRead_of_parse hparse
  have hnames : ∀ name ∈ ["github", "token"], IsPlain name := by
    simp only [isPlain_iff, List.forall_mem_cons]
    exact ⟨by decide, by decide, nofun⟩
  obtain ⟨hplace, hall⟩ := hread.standsAt ht hnames hpath
  refine ⟨hplace, fun p hp => ?_⟩
  obtain ⟨hwell, hloose⟩ := hall p hp
  exact hloose.isRendering hwell

/-- **The token is the one that came** exactly if its bytes are UTF-8. -/
theorem IsStatedIn.isStatedIn_verbatim_iff {token : DeployToken}
    (h : token.IsStatedIn (fun p => encode (lossy p)) t) : token.IsStatedIn verbatim t ↔ ¬ IsIllegible t := by
  constructor
  · rintro hid ⟨p, hp, hvalid⟩
    exact hvalid (hid.isRendering p hp).isValid
  · intro hlegible
    refine ⟨h.exists_place, fun p hp => ?_⟩
    have hvalid : IsValid p := Classical.not_not.mp fun hnot => hlegible ⟨p, hp, hnot⟩
    have hrendering := h.isRendering p hp
    rwa [(Alike.refl p).encode_lossy hvalid] at hrendering

end DeployToken

/-! ### The texts of errands -/

/-- What was received completely is the body. -/
theorem Response.eq_body_of_document (a : Response) {body : Bytes} (h : a.document = some body) :
    body = a.body := by
  unfold document at h
  split at h
  · exact (Option.some.inj h).symm
  · cases h

namespace Errand

/-- **The answer states the strings** that the errand brings back, where each piece is read in the given
way. -/
def StatesAs (read : Bytes → Bytes) : (k : Errand) → Bytes → k.Outcome → Prop
  | secret _ _, body, token => DeployToken.IsStatedIn read token body
  | host _ (.repository _ _), body, r => Repository.IsStatedIn read r body
  | host _ (.latestRelease _), body, r => Release.IsStatedIn read r body
  | host _ (.upload _ _ _ _), body, a => Asset.IsStatedIn read a body

/-- **The bytes of a string** that the errand asks for are not UTF-8. -/
def IsIllegible : Errand → Bytes → Prop
  | secret _ _ => DeployToken.IsIllegible
  | host _ (.repository _ _) => Repository.IsIllegible
  | host _ (.latestRelease _) => Release.IsIllegible
  | host _ (.upload _ _ _ _) => Asset.IsIllegible

/-- **How an outcome goes with the strings of an answer.** -/
structure ReadsTexts (k : Errand) (body : Bytes) (out : Except Failure k.Outcome) : Prop where
  /-- What is brought back is stated, if its places are read as the payload is. -/
  stated : ∀ x, out = .ok x → k.StatesAs k.payload body x
  /-- It is what came exactly if the bytes of all strings are UTF-8. -/
  exact_iff : ∀ x, out = .ok x → (k.StatesAs verbatim body x ↔ ¬ k.IsIllegible body)
  /-- Of the release host, nothing is taken that is not UTF-8. -/
  fails : k.IsIllegible body → k.call ≠ .secret → ∃ f, out = .error f

/-- A record that an answer brings is read of its body. -/
theorem decode_of_judged {α : Type} {decode : Bytes → Except Fault α} {a : Response} {c : Bool}
    {f g : Failure} {x : α}
    (h : (if a.isSuccess then decoded decode a else if c then .error f else .error g) = .ok x) :
    decode a.body = .ok x := by
  split at h
  · unfold decoded at h
    split at h
    · rename_i y hy
      obtain ⟨body, hbody, hdecode⟩ := Option.map_eq_some_iff.mp hy
      rw [← a.eq_body_of_document hbody, hdecode, Except.ok.inj h]
    · cases h
  · split at h <;> cases h

/-- Where records are stated as they came, the outcome goes with them. -/
theorem ReadsTexts.of_exact {k : Errand} {body : Bytes} {out : Except Failure k.Outcome}
    (hpayload : k.payload = verbatim)
    (h : ∀ x, out = .ok x → k.StatesAs verbatim body x ∧ ¬ k.IsIllegible body) :
    k.ReadsTexts body out where
  stated x hx := hpayload ▸ (h x hx).1
  exact_iff x hx := iff_of_true (h x hx).1 (h x hx).2
  fails hillegible _ := by
    cases out with
    | error f => exact ⟨f, rfl⟩
    | ok x => exact absurd hillegible (h x rfl).2

/-- **How an answer is taken.** -/
theorem readsTexts_judge (k : Errand) (a : Response) : k.ReadsTexts a.body (k.judge a) := by
  rcases k with ⟨proxy, project⟩ | ⟨c, ⟨owner, name⟩ | found | ⟨release, archive, type, shows⟩⟩
  · have hstated : ∀ token, DeployToken.ofResponse (secretUrl proxy project) a = .ok token →
        token.IsStatedIn (fun p => encode (lossy p)) a.body := by
      intro token h
      obtain ⟨text, htext, hread⟩ := DeployToken.exists_text_of_ofResponse h
      obtain ⟨body, hbody, rfl⟩ := Option.map_eq_some_iff.mp htext
      obtain rfl := a.eq_body_of_document hbody
      exact DeployToken.isStatedIn_of_ofText hread
    exact ⟨hstated, fun token h => (hstated token h).isStatedIn_verbatim_iff, fun _ hcall => absurd rfl hcall⟩
  · refine .of_exact rfl fun r h => ?_
    have hstated := Repository.isStatedIn_of_decode (decode_of_judged h)
    exact ⟨hstated, hstated.not_isIllegible⟩
  · refine .of_exact rfl fun r h => ?_
    have hstated := Release.isStatedIn_of_decode (decode_of_judged h)
    exact ⟨hstated, hstated.not_isIllegible⟩
  · refine .of_exact rfl fun asset h => ?_
    have hstated := Asset.isStatedIn_of_decode (decode_of_judged h)
    exact ⟨hstated, hstated.not_isIllegible⟩

/-- **The strings that a call brings back** are those that the final answer states in their places, whatever
its bytes are: for the release host's records as they came, so that a call whose strings are not UTF-8 there
fails; for the token once ill-formed pieces are replaced, so that it is the one that came exactly if it is
UTF-8. And something is brought back of every complete answer that tells of success, if its payload has the
shape that the call needs. -/
theorem run_readsTexts {k : Errand} {s : Surroundings} {d : Draft} {a : Response} {n : Network}
    (hd : k.draft s.files = .ok d) (hsend : send d s.network = (.ok a, n)) :
    k.ReadsTexts a.body (k.run s).1 ∧
      (a.isSuccess = true → a.isComplete = true → k.IsFit (k.payload a.body) →
        ∃ x, (k.run s).1 = .ok x) := by
  rw [run_eq_judge hd hsend]
  refine ⟨k.readsTexts_judge a, fun hsuccess hcomplete hfit => ?_⟩
  exact (exists_judge_iff hsuccess hcomplete).mpr hfit

end Errand

namespace Sample

/-- A repository in whose name a letter takes two bytes. -/
def accentedRepository : String :=
  "\x7b\"id\":1,\"full_name\":\"\u00f6/a\"\x7d"

/-- An object with one member. -/
def objectOf (name : String) (value : Bytes) : Bytes :=
  0x7B :: (encodeChars (textToken name) ++ 0x3A :: (value ++ [0x7D]))

/-- A token with a byte that is not UTF-8. -/
def brokenToken : Bytes :=
  [0x22, 0x61, 0xFF, 0x22]

/-- The secret that has this token. -/
def brokenSecret : Bytes :=
  objectOf "github" (objectOf "token" brokenToken)

/-- The sample network, where all that comes is this secret. -/
def surroundingsBroken : Surroundings :=
  { surroundings [] with
    network :=
      { (surroundings []).network with
        script := [.response { status := 200, headers := [], body := brokenSecret, isComplete := true }] } }

theorem isObject_objectOf {name : String} {value : Bytes} (hvalue : IsWellFormed value) :
    IsObject (objectOf name value) [⟨encodeChars (textToken name), value⟩] := by
  have hname := isString_of_isSpelling (isSpelling_textToken name)
  refine ⟨[_], [], .cons (.of_piece ⟨[], [], hname, hvalue, .nil, .nil, rfl⟩) .nil, .nil, ?_⟩
  simp [objectOf, Bracket.opening, Bracket.closing]

/-- Paths lead into objects with one member. -/
theorem standsAt_objectOf {name : String} {names : List String} {value p : Bytes} (hvalue : IsWellFormed value)
    (hp : StandsAt names value p) : StandsAt (name :: names) (objectOf name value) p :=
  ⟨_, _, .of_piece (isObject_objectOf hvalue), ⟨[], [], rfl, ⟨_, isSpelling_textToken name, rfl⟩, nofun⟩, hp⟩

theorem hasTokenAt_brokenSecret : DeployToken.HasTokenAt brokenSecret brokenToken := by
  have hstring : IsString brokenToken := by
    refine ⟨[[0x61], [0xFF]], ?_, rfl⟩
    intro p hp
    rcases List.mem_pair.mp hp with rfl | rfl
    · exact .plain (by decide) (by decide) (by decide)
    · exact .plain (by decide) (by decide) (by decide)
  have hsecret : IsObject (objectOf "token" brokenToken) _ := isObject_objectOf (.string hstring)
  exact standsAt_objectOf hsecret.isWellFormed (standsAt_objectOf (.string hstring) rfl)

end Sample

/-- A name with a letter of two bytes is brought back as it came. -/
theorem run_readsTexts_sample :
    ∃ r, ((HostClient.ofBase "http://h" ⟨"t"⟩).repository "o" "a"
        (Sample.surroundingsOnly Sample.accentedRepository)).1 = .ok r ∧
      r.fullName = "\u00f6/a" ∧ Repository.IsStatedIn verbatim r (encode Sample.accentedRepository) := by
  generalize hs : Sample.surroundingsOnly Sample.accentedRepository = s
  let k : Errand := .host (.ofBase "http://h" ⟨"t"⟩) (.repository "o" "a")
  let whole : Response :=
    { status := 200, headers := [], body := encode Sample.accentedRepository, isComplete := true }
  obtain ⟨d, hd⟩ : ∃ d, k.draft s.files = .ok d := ⟨_, rfl⟩
  have hanswer : (send d s.network).1.toOption = some whole := by
    subst hs
    obtain rfl := Except.ok.inj hd
    decide +kernel
  obtain ⟨n, hsend⟩ := exists_send_eq_ok hanswer
  have hrun : ((HostClient.ofBase "http://h" ⟨"t"⟩).repository "o" "a" s).1.toOption.map (·.fullName) =
      some "\u00f6/a" := by
    subst hs
    decide +kernel
  have hreads : k.ReadsTexts whole.body ((HostClient.ofBase "http://h" ⟨"t"⟩).repository "o" "a" s).1 :=
    (Errand.run_readsTexts hd hsend).1
  cases hout : ((HostClient.ofBase "http://h" ⟨"t"⟩).repository "o" "a" s).1 with
  | error f =>
    rw [hout] at hrun
    cases hrun
  | ok r =>
    rw [hout] at hrun
    exact ⟨r, rfl, Option.some.inj hrun, hreads.stated r hout⟩

/-- **A token in which a byte is not UTF-8** is brought back with another character in its place. -/
theorem replaced_token_is_not_stated :
    (fetchToken "http://s" "a" Sample.surroundingsBroken).1 = .ok ⟨"a\uFFFD"⟩ ∧
      ∀ token, ¬ DeployToken.IsStatedIn verbatim token Sample.brokenSecret := by
  constructor
  · have htoken : (fetchToken "http://s" "a" Sample.surroundingsBroken).1.toOption = some ⟨"a\uFFFD"⟩ := by
      decide +kernel
    cases hrun : (fetchToken "http://s" "a" Sample.surroundingsBroken).1 with
    | error f =>
      rw [hrun] at htoken
      cases htoken
    | ok token =>
      rw [hrun] at htoken
      rw [Option.some.inj htoken]
  · intro token h
    have hvalid := (h.isRendering _ Sample.hasTokenAt_brokenSecret).isValid
    rw [isValid_iff] at hvalid
    obtain ⟨text, htext⟩ := hvalid
    have hnone : decodeChars? Sample.brokenToken = none := by decide +kernel
    cases hnone.symm.trans htext

end ReleasePublisher

import ReleasePublisher.Json.Record

/-!
# Records of the release host

The release host describes repositories, releases and their assets by JSON objects. Each record is
read from such a text and written as one.

## Main definitions

* `Repository`, `Release`, `Asset`: what the host answers with
* `HostMessage`: the message that the host gives with a refusal
* `Repository.decode`, `Release.decode`, `Asset.decode`, `HostMessage.decode`: reading a whole text
* `Repository.toJson`, `Release.toJson`, `Asset.toJson`: the objects that are written
-/

namespace ReleasePublisher

open Json (Datum Field)

/-- A file that is attached to a release. -/
structure Asset where
  id : Nat
  name : String
  size : Nat
  contentType : Option String
  downloadUrl : Option String
  deriving DecidableEq, Repr

/-- A repository. -/
structure Repository where
  id : Nat
  /-- Owner and name, with a slash between them. -/
  fullName : String
  pageUrl : Option String
  deriving DecidableEq, Repr

/-- A published release. -/
structure Release where
  id : Nat
  tag : String
  name : Option String
  /-- Where assets are uploaded: an address, possibly with a template behind it. -/
  uploadUrl : String
  pageUrl : Option String
  assets : List Asset
  deriving DecidableEq, Repr

/-- The message that the host gives with a refusal. -/
structure HostMessage where
  message : String
  deriving DecidableEq, Repr

/-- Reads a whole text as a record with these fields. -/
def decodeRecord {α : Type} (name : String) (fields : List Field) (ofData : List Datum → Option α)
    (text : Bytes) : Except Json.Fault α :=
  match Json.wholeText (Json.readRecord name fields) text with
  | .error f => .error f
  | .ok ds =>
    match ofData ds with
    | some a => .ok a
    | none => .error ⟨.expectedValue, text.length⟩

namespace Asset

/-- The fields, in the order of their declaration. -/
def fields : List Field :=
  [.natural "id" none, .text "name", .natural "size" (some 0),
    .optionalText "content_type" "a string", .optionalText "browser_download_url" "a string"]

/-- The asset that these data describe. -/
def ofData : List Datum → Option Asset
  | [.count id, .text name, .count size, contentType, downloadUrl] =>
    some ⟨id, name, size, contentType.text?, downloadUrl.text?⟩
  | _ => none

/-- Reads a whole text as an asset. -/
def decode : Bytes → Except Json.Fault Asset :=
  decodeRecord "ReleaseAsset" fields ofData

/-- The object that describes an asset. -/
def toJson (a : Asset) : Json :=
  .object [("id", .ofNat a.id), ("name", .text a.name), ("size", .ofNat a.size),
    ("content_type", .ofOption .text a.contentType),
    ("browser_download_url", .ofOption .text a.downloadUrl)]

end Asset

namespace Repository

/-- The fields, in the order of their declaration. -/
def fields : List Field :=
  [.natural "id" none, .text "full_name", .optionalText "html_url" "a string"]

/-- The repository that these data describe. -/
def ofData : List Datum → Option Repository
  | [.count id, .text fullName, pageUrl] => some ⟨id, fullName, pageUrl.text?⟩
  | _ => none

/-- Reads a whole text as a repository. -/
def decode : Bytes → Except Json.Fault Repository :=
  decodeRecord "Repository" fields ofData

/-- The object that describes a repository. -/
def toJson (r : Repository) : Json :=
  .object [("id", .ofNat r.id), ("full_name", .text r.fullName),
    ("html_url", .ofOption .text r.pageUrl)]

end Repository

namespace Release

/-- The field that holds the assets. -/
def assetsField : Field :=
  { name := "assets"
    read := fun s =>
      (Json.readMany (Json.readRecord "ReleaseAsset" Asset.fields) s).map fun (l, s) => (.many l, s)
    fallback := some (.many []) }

/-- The fields, in the order of their declaration. -/
def fields : List Field :=
  [.natural "id" none, .text "tag_name", .optionalText "name" "a string", .text "upload_url",
    .optionalText "html_url" "a string", assetsField]

/-- The release that these data describe. -/
def ofData : List Datum → Option Release
  | [.count id, .text tag, name, .text uploadUrl, pageUrl, .many assets] =>
    (assets.mapM Asset.ofData).map fun assets =>
      ⟨id, tag, name.text?, uploadUrl, pageUrl.text?, assets⟩
  | _ => none

/-- Reads a whole text as a release. -/
def decode : Bytes → Except Json.Fault Release :=
  decodeRecord "Release" fields ofData

/-- The object that describes a release. -/
def toJson (r : Release) : Json :=
  .object [("id", .ofNat r.id), ("tag_name", .text r.tag), ("name", .ofOption .text r.name),
    ("upload_url", .text r.uploadUrl), ("html_url", .ofOption .text r.pageUrl),
    ("assets", .array (r.assets.map Asset.toJson))]

end Release

namespace HostMessage

/-- The fields, in the order of their declaration. -/
def fields : List Field := [.text "message"]

/-- The message that these data describe. -/
def ofData : List Datum → Option HostMessage
  | [.text message] => some ⟨message⟩
  | _ => none

/-- Reads a whole text as a message. -/
def decode : Bytes → Except Json.Fault HostMessage :=
  decodeRecord "ApiMessage" fields ofData

end HostMessage

end ReleasePublisher

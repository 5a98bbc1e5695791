import ReleasePublisher.Proofs.Publish.UploadRequest

/-!
# Endpoints of uploads

A release states where its assets are uploaded to by an address with a template behind it. An upload goes to
the address, whatever the template is, with the name of the asset as one more pair in the query. Only an
address that cannot be read leaves an upload without an endpoint.

## Main definitions

* `IsTemplate suffix`: what may stand behind an address
* `Url.StatesMore u v name value`: an address is another one with one more pair in its query

## Main results

* `uploadEndpoint_of_template`: where uploads go to
-/

namespace ReleasePublisher

/-- What may stand behind the address for uploads: nothing, or a text that begins with a brace. -/
def IsTemplate (suffix : String) : Prop :=
  suffix = "" ∨ ∃ rest, suffix.toList = '{' :: rest

/-- **The address `v` states one more pair** than `u`, in the last place of its query. It has the parts of
`u` in all else. -/
structure Url.StatesMore (u v : Url) (name value : String) : Prop where
  scheme : v.scheme = u.scheme
  username : v.username = u.username
  password : v.password = u.password
  host : v.host = u.host
  port : v.port = u.port
  path : v.path = u.path
  fragment : v.fragment = u.fragment
  pairs : Form.pairs (v.query.getD []) = Form.pairs (u.query.getD []) ++ [(name, value)]

theorem Url.statesMore_addPair (u : Url) (name value : String) :
    u.StatesMore (u.addPair name value) name value := by
  obtain ⟨query, hquery, hpairs⟩ := Form.pairs_addPair u name value
  refine ⟨rfl, rfl, rfl, rfl, rfl, rfl, rfl, ?_⟩
  rw [hquery]
  exact hpairs

/-- The template is what stands from the first brace on. -/
theorem beforeTemplate_append {base suffix : String} (hbase : '{' ∉ base.toList)
    (hsuffix : IsTemplate suffix) : beforeTemplate (base ++ suffix) = base := by
  have hkept : ∀ c ∈ base.toList, (c != '{') = true := by
    intro c hc
    rw [bne_iff_ne]
    rintro rfl
    exact hbase hc
  have htail : suffix.toList.takeWhile (· != '{') = [] := by
    rcases hsuffix with rfl | ⟨rest, hrest⟩
    · rfl
    · rw [hrest]
      rfl
  rw [beforeTemplate, String.toList_append, List.takeWhile_append_of_pos hkept, htail, List.append_nil,
    String.ofList_toList]

theorem uploadEndpoint_of_parse {uploadUrl : String} {u : Url}
    (h : Url.parse (beforeTemplate uploadUrl) = .ok u) (fileName : String) :
    uploadEndpoint uploadUrl fileName = .ok (u.addPair "name" fileName) := by
  unfold uploadEndpoint
  rw [← beforeTemplate, h]

/-- **Where uploads go to.** Whatever template stands behind an address that can be read, and whatever the
name of the asset is, there is an endpoint, and the template does not matter. It states the pairs of the
address and then the name, and it is the address in all else; where it is sent as a web address, it is read
as it was written. There is no endpoint exactly where the text before the first brace is no address. -/
theorem uploadEndpoint_of_template (fileName : String) :
    (∀ base u, '{' ∉ base.toList → Url.parse base = .ok u →
      ∃ v, u.StatesMore v "name" fileName ∧
        (∀ suffix, IsTemplate suffix → uploadEndpoint (base ++ suffix) fileName = .ok v) ∧
        ∀ w, Url.parse v.text = .ok w → isWebScheme w = true → w = v) ∧
    ∀ uploadUrl, (∃ f, uploadEndpoint uploadUrl fileName = .error f) ↔
      ∀ u, Url.parse (beforeTemplate uploadUrl) ≠ .ok u := by
  constructor
  · intro base u hbase hu
    refine ⟨u.addPair "name" fileName, u.statesMore_addPair "name" fileName, ?_, ?_⟩
    · intro suffix hsuffix
      refine uploadEndpoint_of_parse ?_ fileName
      rw [beforeTemplate_append hbase hsuffix, hu]
    · intro w hw hweb
      exact Url.eq_of_parse_text_addPair hu hw hweb
  · intro uploadUrl
    constructor
    · rintro ⟨f, hf⟩ u hu
      cases hf.symm.trans (uploadEndpoint_of_parse hu fileName)
    · intro hnone
      cases h : uploadEndpoint uploadUrl fileName with
      | error f => exact ⟨f, rfl⟩
      | ok v =>
        obtain ⟨u, hu, -⟩ := uploadEndpoint_eq_ok h
        exact absurd hu (hnone u)

/-- An address with a user, a query and a fragment keeps them, and the name stands in its query behind the
pairs that were there. A template alone is no endpoint. -/
theorem uploadEndpoint_of_template_sample :
    ∃ u v, Url.parse "http://u:p@h:81/a?x=1&y#f" = .ok u ∧ u.StatesMore v "name" "a&b=é +%.gz" ∧
      uploadEndpoint "http://u:p@h:81/a?x=1&y#f\x7b?name,label\x7d" "a&b=é +%.gz" = .ok v ∧
      ∃ f, uploadEndpoint "\x7b?name,label\x7d" "a&b=é +%.gz" = .error f := by
  have hread : Url.parse "http://u:p@h:81/a?x=1&y#f" =
      .ok ⟨['h', 't', 't', 'p'], ['u'], some ['p'], some ['h'], some 81, .segments [['a']],
        some "x=1&y".toList, some ['f']⟩ := by
    decide +kernel
  have hnone : Url.parse (beforeTemplate "\x7b?name,label\x7d") = .error .relativeWithoutBase := by
    decide
  have hlaw := uploadEndpoint_of_template "a&b=é +%.gz"
  obtain ⟨v, hv, huploads, -⟩ := hlaw.1 "http://u:p@h:81/a?x=1&y#f" _ (by decide) hread
  refine ⟨_, v, hread, hv, ?_, ?_⟩
  · exact huploads "\x7b?name,label\x7d" (.inr ⟨"?name,label\x7d".toList, rfl⟩)
  · refine (hlaw.2 "\x7b?name,label\x7d").mpr ?_
    intro u hu
    cases hnone.symm.trans hu

end ReleasePublisher

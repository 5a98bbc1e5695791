import ReleasePublisher.Proofs.Json.Syntax
import ReleasePublisher.Proofs.Json.Writing
import ReleasePublisher.Proofs.Publish.Payloads

/-!
# The shapes of secrets

The token stands at one place of the secret: as the member `token` of the member `github`. It is found there
however the secret is rendered. A text at this place that is not empty is the token; where there is none, the
failure tells whether the text is empty, another value stands there, or the place is missing. What is no JSON
text gives no token.

## Main definitions

* `Json.HasMember v name w`: the member of an object that counts
* `Json.HoldsAtToken v w`: a value stands at the place of the token
* `Json.IsWorth v x`: the token, or the failure, that a secret is worth

## Main results

* `Json.isWorth_iff`: what the text of a secret gives is what the secret is worth
* `fetchToken_of_answer`: what the answer of the proxy gives
-/

namespace ReleasePublisher

/-! ### The place of the token -/

/-- **The member of an object** with this name: where several have it, the last of them. -/
def Json.HasMember (v : Json) (name : String) (w : Json) : Prop :=
  ∃ before after, v = .object (before ++ (name, w) :: after) ∧ ∀ m ∈ after, m.1 ≠ name

/-- A value stands at the place of the token. -/
def Json.HoldsAtToken (v w : Json) : Prop :=
  ∃ g, v.HasMember "github" g ∧ g.HasMember "token" w

/-- **What a secret is worth.** -/
inductive Json.IsWorth (v : Json) : Except SecretFailure DeployToken → Prop
  | token {t : String} (h : v.HoldsAtToken (.text t)) (hne : t ≠ "") : IsWorth v (.ok ⟨t⟩)
  | empty (h : v.HoldsAtToken (.text "")) :
    IsWorth v (.error (.malformed "github.token is empty"))
  | mistyped {w : Json} (h : v.HoldsAtToken w) (hw : ∀ t, w ≠ .text t) :
    IsWorth v (.error (.malformed "github.token is not a string"))
  | missing (h : ∀ w, ¬ v.HoldsAtToken w) :
    IsWorth v (.error (.malformed "missing field github.token"))

namespace Json

/-- The last member with a name is the one that is looked up. -/
theorem lookup_eq_some_iff {name : String} {ms : List (String × Json)} {w : Json} :
    lookup name ms = some w ↔
      ∃ before after, ms = before ++ (name, w) :: after ∧ ∀ m ∈ after, m.1 ≠ name := by
  unfold lookup
  rw [Option.map_eq_some_iff]
  constructor
  · rintro ⟨m, hm, rfl⟩
    obtain ⟨hname, pre, post, hms, hpre⟩ := List.find?_eq_some_iff_append.mp hm
    obtain rfl := eq_of_beq hname
    refine ⟨post.reverse, pre.reverse, ?_, ?_⟩
    · rw [← List.reverse_reverse ms, hms]
      simp
    · intro m' hm'
      simpa using hpre m' (List.mem_reverse.mp hm')
  · rintro ⟨before, after, rfl, hafter⟩
    refine ⟨(name, w), List.find?_eq_some_iff_append.mpr ⟨beq_self_eq_true _, after.reverse,
      before.reverse, by simp, ?_⟩, rfl⟩
    intro m hm
    simpa using hafter m (List.mem_reverse.mp hm)

theorem member?_eq_some_iff {name : String} {v w : Json} :
    v.member? name = some w ↔ v.HasMember name w := by
  unfold HasMember
  cases v with
  | object ms =>
    refine lookup_eq_some_iff.trans ?_
    simp only [Json.object.injEq]
  | _ => simp [member?]

/-- What is found at the end of the path to the token stands at its place. -/
theorem pointer?_eq_some_iff {v w : Json} :
    v.pointer? ["github", "token"] = some w ↔ v.HoldsAtToken w := by
  have hpath : v.pointer? ["github", "token"] = (v.member? "github").bind (·.member? "token") := by
    simp [pointer?]
  rw [hpath, Option.bind_eq_some_iff]
  simp only [member?_eq_some_iff]
  rfl

/-- **What the text of a secret gives** is what the secret is worth, and nothing else. -/
theorem isWorth_iff {v : Json} {text : Bytes} (h : parse text = .ok v)
    {x : Except SecretFailure DeployToken} : v.IsWorth x ↔ x = DeployToken.ofText text := by
  constructor
  · intro hx
    cases hx with
    | @token t ht hne =>
      have hempty : t.isEmpty = false := by simpa using hne
      simp [DeployToken.ofText, h, pointer?_eq_some_iff.mpr ht, hempty]
    | empty ht => simp [DeployToken.ofText, h, pointer?_eq_some_iff.mpr ht]
    | @mistyped w hw htext =>
      cases w with
      | text t => exact absurd rfl (htext t)
      | _ => simp [DeployToken.ofText, h, pointer?_eq_some_iff.mpr hw]
    | missing hnone =>
      have hpath : v.pointer? ["github", "token"] = none :=
        Option.eq_none_iff_forall_not_mem.mpr fun w hw => hnone w (pointer?_eq_some_iff.mp hw)
      simp [DeployToken.ofText, h, hpath]
  · rintro rfl
    unfold DeployToken.ofText
    rw [h]
    dsimp only
    split
    · rename_i hpath
      refine .missing fun w hw => ?_
      cases hpath.symm.trans (pointer?_eq_some_iff.mpr hw)
    · rename_i t hpath
      have ht := pointer?_eq_some_iff.mp hpath
      split
      · rename_i hempty
        obtain rfl : t = "" := by simpa using hempty
        exact .empty ht
      · rename_i hempty
        exact .token ht (by simpa using hempty)
    · rename_i w htext hpath
      exact .mistyped (pointer?_eq_some_iff.mp hpath) fun t hw => htext t hw

end Json

/-! ### The answer of the proxy -/

/-- A token is read from JSON texts only. -/
theorem DeployToken.isWellFormed_of_ofText {text : Bytes} {token : DeployToken}
    (h : ofText text = .ok token) : Json.IsWellFormed text := by
  obtain ⟨v, -, hv, -⟩ := exists_ofText_iff.mp ⟨token, h⟩
  exact (Json.isDocument_of_parse hv).isWellFormed

theorem DeployToken.exists_text_of_ofResponse {url : String} {a : Response} {token : DeployToken}
    (h : ofResponse url a = .ok token) :
    ∃ text, a.text = some text ∧ ofText (Utf8.encode text) = .ok token := by
  unfold ofResponse at h
  split at h
  · cases h
  · split at h
    · cases h
    · rename_i text htext
      refine ⟨text, htext, ?_⟩
      cases hx : ofText (Utf8.encode text) with
      | error e =>
        rw [hx] at h
        cases h
      | ok x =>
        rw [hx] at h
        cases h
        rfl

/-- **What the answer of the proxy gives.** Where it tells of success, and its text renders a value with at
most 127 brackets inside each other and with integers of 64 bits only, blanks standing anywhere between the
pieces and the characters of strings being escaped in any way, the outcome is what the value is worth, and
nothing else. Whatever the answer is: what is no JSON text gives no token. -/
theorem fetchToken_of_answer {proxy project : String} {s : Surroundings} {a : Response} {n : Network}
    (hsend : send ⟨.get, secretUrl proxy project, [], none⟩ s.network = (.ok a, n)) :
    (∀ v text, Json.Fits 127 v → Json.Renders v text → a.isSuccess = true → a.isComplete = true →
      a.body = Utf8.encodeChars text →
        ∃ x, (fetchToken proxy project s).1 = x.mapError .secret ∧ ∀ y, v.IsWorth y ↔ y = x) ∧
    ∀ token, (fetchToken proxy project s).1 = .ok token →
      ∃ text, a.text = some text ∧ Json.IsWellFormed (Utf8.encode text) := by
  have hrun : (fetchToken proxy project s).1 = DeployToken.ofResponse (secretUrl proxy project) a :=
    Errand.run_eq_judge (k := .secret proxy project) rfl hsend
  rw [hrun]
  constructor
  · intro v text hfits hrenders hsuccess hcomplete hbody
    have htext : Utf8.encode (Utf8.lossy a.body) = Utf8.encodeChars text := by
      have hencode : Utf8.encodeChars text = Utf8.encode (String.ofList text) := by
        rw [Utf8.encode, String.toList_ofList]
      rw [hbody, hencode, Utf8.lossy_encode]
    refine ⟨DeployToken.ofText (Utf8.encodeChars text), ?_, fun y => ?_⟩
    · rw [DeployToken.ofResponse_eq hsuccess hcomplete, htext]
    · exact Json.isWorth_iff (Json.parse_rendered hrenders hfits)
  · intro token htoken
    obtain ⟨text, htext, hread⟩ := DeployToken.exists_text_of_ofResponse htoken
    exact ⟨text, htext, DeployToken.isWellFormed_of_ofText hread⟩

namespace Sample

/-- A secret that states two tokens, the last of which counts. -/
def secret : Json :=
  .object [("github", .object [("token", .text "a"), ("token", .text "t")])]

/-- A rendering of the secret, where a letter is escaped and a line break stands before the end. -/
def secretText : List Char :=
  "\x7b\"github\":\x7b\"token\":\"a\",\"token\":\"\\u0074\"\x7d\n\x7d".toList

theorem fits_secret : Json.Fits 127 secret := by
  refine .object (List.forall_mem_singleton.mpr (.object ?_))
  intro m hm
  rcases List.mem_pair.mp hm with rfl | rfl
  · exact .text "a"
  · exact .text "t"

theorem renders_secret : Json.Renders secret secretText := by
  have hletter : Json.IsSpelling "t" "\"\\u0074\"".toList := by
    refine ⟨["\\u0074".toList], .cons (.numbered ⟨'0', '0', '7', '4', rfl, ?_⟩) .nil, rfl⟩
    unfold Json.IsHexDigit
    decide
  let members : List Json.LabelledMember :=
    [⟨"token", .text "a", Json.textToken "token" ++ [':'], Json.textToken "a"⟩,
      ⟨"token", .text "t", Json.textToken "token" ++ [':'], "\"\\u0074\"".toList⟩]
  have hlabels : ∀ i ∈ members, Json.IsLabel i.name i.label := by
    intro i hi
    rcases List.mem_pair.mp hi with rfl | rfl
    · exact Json.isLabel_textToken "token"
    · exact Json.isLabel_textToken "token"
  have htexts : ∀ i ∈ members, Json.Renders i.value i.text := by
    intro i hi
    rcases List.mem_pair.mp hi with rfl | rfl
    · exact .text (Json.isSpelling_textToken "a")
    · exact .text hletter
  have hbreak : Json.IsGap ['\n'] := List.forall_mem_singleton.mpr (by decide)
  have hinner := Json.Renders.object .nil hlabels htexts
  exact @Json.Renders.object [⟨"github", _, Json.textToken "github" ++ [':'], _⟩] ['\n'] hbreak
    (List.forall_mem_singleton.mpr (Json.isLabel_textToken "github"))
    (List.forall_mem_singleton.mpr hinner)

end Sample

/-- The last token of the sample secret is handed out. -/
theorem fetchToken_of_answer_sample :
    (fetchToken "http://s" "a" (Sample.surroundingsOnly (String.ofList Sample.secretText))).1 =
      .ok ⟨"t"⟩ := by
  generalize hs : Sample.surroundingsOnly (String.ofList Sample.secretText) = s
  let whole : Response :=
    { status := 200, headers := [], body := Utf8.encodeChars Sample.secretText, isComplete := true }
  have hanswer : (send ⟨.get, secretUrl "http://s" "a", [], none⟩ s.network).1.toOption = some whole := by
    subst hs
    decide +kernel
  obtain ⟨n, hsend⟩ := exists_send_eq_ok hanswer
  obtain ⟨x, hx, hworth⟩ := (fetchToken_of_answer hsend).1 _ _ Sample.fits_secret
    Sample.renders_secret rfl rfl rfl
  have htoken : Sample.secret.IsWorth (.ok ⟨"t"⟩) :=
    .token ⟨_, ⟨[], [], rfl, nofun⟩, ⟨[("token", .text "a")], [], rfl, nofun⟩⟩ (by decide)
  rw [hx, ← (hworth _).mp htoken]
  rfl

end ReleasePublisher

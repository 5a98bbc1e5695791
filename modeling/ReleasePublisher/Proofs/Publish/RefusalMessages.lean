import ReleasePublisher.Proofs.Json.Places
import ReleasePublisher.Proofs.Publish.Refusals
import ReleasePublisher.Proofs.Release.RecordShapes
import ReleasePublisher.Proofs.Text.Trimming

/-!
# Messages of refusals

What the host says about a refusal is the message that the body states, as the one member `message` of an
object; of any other body the start is shown, and of an empty one the reason of the status. The host's message
is read as a record with one field, however, and a record may be a list as well: of a list with one string, the
string is shown. And an object with a member whose name is no text is no record: of this its start is shown,
whatever message it states.

## Main definitions

* `Json.StatesMessage t message`: an object states a message
* `IsStart status body message`: what is shown of a body without a message
* `IsDue status body message`: the message that is due
* `IsMisread status body`: bodies of which another message is shown

## Main results

* `HostMessage.decode_eq_ok_iff`: what messages are read from
* `Errand.message_isDue_iff`: the message of a refusal is the one that is due, unless the body is misread
* `message_of_list_is_not_due`: a list of one string is misread
-/

namespace ReleasePublisher

open Json Utf8

section

variable {t rest : Bytes} {message : String}

/-! ### What messages are read from -/

/-- **An object states a message**, in the one member of this name. -/
def Json.StatesMessage (t : Bytes) (message : String) : Prop :=
  ∃ ms m, Padded IsObject t ms ∧ IsSole "message" ms m ∧ IsRendering (.text message) m.value

/-- An object has a member whose name is no text. -/
def Json.HasNameless (t : Bytes) : Prop :=
  ∃ ms, Padded IsObject t ms ∧ ∃ m ∈ ms, ∀ name, ¬ m.IsNamed name

/-- The text spells the string. -/
def Json.SpellsText (p : Bytes) (s : String) : Prop :=
  ∃ token, IsSpelling s token ∧ p = encodeChars token

/-- **A list of one string.** -/
def Json.IsListOfOne (t : Bytes) (message : String) : Prop :=
  Padded (Bracket.list.Encloses SpellsText) t [message]

theorem Json.SpellsText.isElement {s : String} (h : SpellsText t s) : IsElement t := by
  obtain ⟨token, htoken, rfl⟩ := h
  have hstring := isString_of_isSpelling htoken
  refine ⟨.string hstring, ?_⟩
  obtain ⟨q, hq, -⟩ := hstring.exists_tail
  rw [hq]
  intro b hb
  obtain rfl := Option.some.inj hb
  rfl

namespace HostMessage

/-- What a message is read from. -/
def slots : List Slot :=
  [⟨"message", true, IsText⟩]

theorem fits_fields : List.Forall₂ Field.Fits fields slots :=
  .cons Field.fits_text .nil

theorem decode_eq_ok_iff_data {m : HostMessage} :
    decode t = .ok m ↔
      ∃ rest, readRecord "ApiMessage" fields t = .ok ([.text m.message], rest) ∧ skipBlank rest = [] := by
  unfold decode decodeRecord
  constructor
  · intro h
    split at h
    · cases h
    rename_i ds hds
    obtain ⟨rest, hread, hrest⟩ := wholeText_eq_ok_iff.mp hds
    split at h
    · rename_i a ha
      obtain rfl := Except.ok.inj h
      unfold ofData at ha
      split at ha
      · cases ha
        exact ⟨rest, hread, hrest⟩
      · cases ha
    · cases h
  · rintro ⟨rest, hread, hrest⟩
    rw [wholeText_eq_ok_iff.mpr ⟨rest, hread, hrest⟩]
    rfl

/-- **A message is read from an object** in which all members have names. -/
theorem decode_of_statesMessage (h : StatesMessage t message) (hnamed : ¬ HasNameless t) :
    decode t = .ok ⟨message⟩ := by
  obtain ⟨ms, m, hms, hsole, hm⟩ := h
  have hnames : ∀ w ∈ ms, ∃ name, w.IsNamed name := by
    intro w hw
    by_contra hnone
    exact hnamed ⟨ms, hms, w, hw, not_exists.mp hnone⟩
  obtain ⟨before, p, after, hbefore, hafter, rfl, hp⟩ := hms
  have htells : Tells [.text "message" message] p := by
    refine ⟨ms, hp, hnames, ?_⟩
    simpa using .inl ⟨m, hsole, hm⟩
  have hread : readRecord "ApiMessage" fields (before ++ (p ++ after)) = .ok ([.text message], after) :=
    htells.readRecord_eq (.cons (Field.finds_text message) .nil) (reads_of_fits fits_fields) (by decide)
      hbefore after
  exact decode_eq_ok_iff_data.mpr ⟨after, hread, skipBlank_of_areBlank hafter⟩

/-- **A message is read from a list** of one string. -/
theorem decode_of_isListOfOne (h : IsListOfOne t message) : decode t = .ok ⟨message⟩ := by
  obtain ⟨before, p, after, hbefore, hafter, rfl, hp⟩ := h
  obtain ⟨u, ts, hu, hts, hstands⟩ := hp.exists_elements (fun _ _ => SpellsText.isElement) after
  obtain _ | ⟨⟨x, rest, ⟨token, htoken, rfl⟩, hrest, rfl⟩, _ | _⟩ := hstands
  have hstart : skipBlank (before ++ (p ++ after)) = 0x5B :: u := by
    rw [skipBlank_append hbefore, hu]
    exact skipBlank_cons (by decide) u
  have hgiven : given (Field.text "message").read (encodeChars token ++ rest) = some (.text message) :=
    given_eq_some_iff.mpr ⟨rest, (text_read_eq_ok_iff 0).mpr
      ⟨message, rfl, (States.text htoken).value_eq rest hrest⟩⟩
  have hfill : fill? fields [encodeChars token ++ rest] = some [.text message] := by
    rw [fields, fill?_cons_cons, hgiven]
    rfl
  have hread : readRecord "ApiMessage" fields (before ++ (p ++ after)) = .ok ([.text message], after) :=
    (readRecord_eq_ok_iff (reads_of_fits fits_fields) (by decide)).mpr (.inl ⟨u, _, hstart, hts, hfill⟩)
  exact decode_eq_ok_iff_data.mpr ⟨after, hread, skipBlank_of_areBlank hafter⟩

/-- What is read as the message is a string. -/
theorem gives_of_given (h : given (Field.text "message").read t = some (.text message)) :
    Gives (value maxDepth) t (.text message) := by
  obtain ⟨r, hr⟩ := given_eq_some_iff.mp h
  obtain ⟨s, hs, hr⟩ := (text_read_eq_ok_iff maxDepth).mp hr
  cases hs
  exact ⟨r, hr⟩

/-- Where a message is read from a list, it is the only element. -/
theorem isListOfOne_of_elements {u : Bytes} {ts : List Bytes} (hu : skipBlank t = 0x5B :: u)
    (hts : Elements true u ts rest) (hrest : skipBlank rest = [])
    (hfill : fill? fields ts = some [.text message]) : IsListOfOne t message := by
  obtain ⟨before, hbefore, ht⟩ := exists_eq_append_skipBlank t
  obtain ⟨gap, hgap, hu'⟩ := exists_eq_append_skipBlank u
  cases hts with
  | nil => cases hfill
  | @cons _ x v _ _ ts hnext hv htail =>
    cases htail with
    | cons => simp [fields, fill?] at hfill
    | nil hclose =>
      obtain ⟨gapEnd, hgapEnd, hv'⟩ := exists_eq_append_skipBlank v
      have hx : skipBlank u = x := by
        rcases hnext with ⟨-, hx⟩ | ⟨hfirst, -⟩
        · exact hx
        · cases hfirst
      have hgives : Gives (value maxDepth) x (.text message) := by
        rw [fields, fill?_cons_cons] at hfill
        obtain ⟨d, hd, hfill⟩ := Option.bind_eq_some_iff.mp hfill
        obtain ⟨ds, -, hds⟩ := Option.map_eq_some_iff.mp hfill
        obtain ⟨rfl, -⟩ := List.cons.inj hds
        exact gives_of_given hd
      obtain ⟨r, hr⟩ := hgives
      obtain rfl := hv.unique (reads_value _ _ _ _ hr)
      obtain ⟨q, hq, hbody⟩ := value_eq_text_iff.mp hr
      obtain ⟨token, htoken, hbytes⟩ := textBody_eq_ok_iff.mp hbody
      have hx' : x = encodeChars token ++ v := by
        rw [← hbytes, ← hq, ← hx, skipBlank_skipBlank]
      refine ⟨before, _, rest, hbefore, areBlank_of_skipBlank hrest, ?_,
        ⟨[gap ++ (encodeChars token ++ gapEnd)], [], .cons ⟨gap, _, gapEnd, hgap, hgapEnd, rfl, token,
          htoken, rfl⟩ .nil, .nil, rfl⟩⟩
      rw [ht, hu, hu', hx, hx', hv', hclose]
      simp [Bracket.opening, Bracket.closing]

/-- Where a message is read from an object, the object states it, and all members have names. -/
theorem statesMessage_of_members {u : Bytes} {ms' : List (String × Bytes)}
    (hu : skipBlank t = 0x7B :: u) (hms' : Members true u ms' rest) (hrest : skipBlank rest = [])
    (hdata : data? fields ms' = some [.text message]) : StatesMessage t message ∧ ¬ HasNameless t := by
  have hread : ∀ {ms}, Padded IsObject t ms → List.Forall₂ WrittenMember.IsRead ms ms' := by
    rintro ms ⟨before, p, after, hbefore, -, rfl, hp⟩
    rw [hp.skipBlank_append hbefore] at hu
    exact (hp.reads_members hu hms').1
  constructor
  · obtain ⟨es, hes, -⟩ := hms'.exists_entries
    obtain ⟨before, p, ms, hbefore, ht, hp⟩ := hes.exists_isObject hu
    have hms : Padded IsObject t ms := ⟨before, p, rest, hbefore, areBlank_of_skipBlank hrest, ht, hp⟩
    rw [fields, data?_cons] at hdata
    obtain ⟨d, hd, hdata⟩ := Option.bind_eq_some_iff.mp hdata
    obtain ⟨ds, -, hds⟩ := Option.map_eq_some_iff.mp hdata
    obtain ⟨rfl, -⟩ := List.cons.inj hds
    unfold Field.datum? Field.taken? at hd
    split at hd
    · cases hd
    · rename_i m' hfilter
      obtain ⟨m, hsole, hm⟩ := exists_sole_of_filter (fun _ _ h => h.isNamed_iff) (hread hms) hfilter
      refine ⟨ms, m, hms, hsole, ?_⟩
      have hgiven : given (Field.text "message").read m'.2 = some (.text message) := by
        cases hg : given (Field.text "message").read m'.2 with
        | none => simp [hg] at hd
        | some d => simpa [hg] using hd
      have hwell : IsWellFormed m.value := by
        obtain ⟨front, back, rfl, -⟩ := hsole
        exact hp.isWellFormed_value (by simp)
      exact isRendering_of_gives hwell hm.2 (gives_of_given hgiven)
    · cases hd
  · rintro ⟨ms, hms, m, hm, hnone⟩
    obtain ⟨m', -, hm'⟩ := exists_counterpart (hread hms) hm
    exact hnone m'.1 hm'.1

/-- **What messages are read from**: objects that state them, if all members have names, and lists of one
string. -/
theorem decode_eq_ok_iff : decode t = .ok ⟨message⟩ ↔
    StatesMessage t message ∧ ¬ HasNameless t ∨ IsListOfOne t message := by
  constructor
  · intro h
    obtain ⟨rest, hread, hrest⟩ := decode_eq_ok_iff_data.mp h
    rcases (readRecord_eq_ok_iff (reads_of_fits fits_fields) (by decide)).mp hread with
      ⟨u, ts, hu, hts, hfill⟩ | ⟨u, ms, hu, hms, hdata⟩
    · exact .inr (isListOfOne_of_elements hu hts hrest hfill)
    · exact .inl (statesMessage_of_members hu hms hrest hdata)
  · rintro (⟨h, hnamed⟩ | h)
    · exact decode_of_statesMessage h hnamed
    · exact decode_of_isListOfOne h

end HostMessage

/-- **An object states one message** at most. -/
theorem Json.StatesMessage.unique {message' : String} (h : StatesMessage t message)
    (h' : StatesMessage t message') : message = message' := by
  obtain ⟨ms, m, ⟨before, p, after, hbefore, -, rfl, hp⟩, hsole, hm⟩ := h
  obtain ⟨ms', m', ⟨before', p', after', hbefore', -, ht, hp'⟩, hsole', hm'⟩ := h'
  obtain ⟨u, es, hu, hes, hall⟩ := hp.exists_entries after
  obtain ⟨u', es', hu', hes', hall'⟩ := hp'.exists_entries after'
  have hsame : p ++ after = p' ++ after' := by
    rw [← hp.skipBlank_append hbefore, ht, hp'.skipBlank_append hbefore']
  obtain ⟨-, rfl⟩ := List.cons.inj (hu.symm.trans (hsame.trans hu'))
  obtain ⟨rfl, -⟩ := hes.unique hes'
  -- Both members are the one entry that has the name.
  obtain ⟨e, he, hme⟩ := hsole.exists_filter (fun _ _ h => h.isNamed_iff) hall
  obtain ⟨e', he', hme'⟩ := hsole'.exists_filter (fun _ _ h => h.isNamed_iff) hall'
  obtain ⟨rfl, -⟩ := List.cons.inj (he.symm.trans he')
  have hgives : Gives (value 0) _ (.text message) := hm.gives (.text message) hme.2
  have hgives' : Gives (value 0) _ (.text message') := hm'.gives (.text message') hme'.2
  exact Json.text.inj (hgives.unique hgives')

theorem Json.StatesMessage.exists_brace (h : StatesMessage t message) : ∃ u, skipBlank t = 0x7B :: u := by
  obtain ⟨ms, m, ⟨before, p, after, hbefore, -, rfl, hp⟩, -⟩ := h
  obtain ⟨u, -, hu, -⟩ := hp.exists_entries after
  exact ⟨u, (hp.skipBlank_append hbefore after).trans hu⟩

theorem Json.IsListOfOne.exists_bracket (h : IsListOfOne t message) : ∃ u, skipBlank t = 0x5B :: u := by
  obtain ⟨before, p, after, hbefore, -, rfl, _, _, -, -, rfl⟩ := h
  exact ⟨_, (skipBlank_append hbefore _).trans (skipBlank_cons (by decide) _)⟩

/-- A list states no message. -/
theorem Json.IsListOfOne.not_statesMessage {message' : String} (h : IsListOfOne t message) :
    ¬ StatesMessage t message' := by
  intro h'
  obtain ⟨u, hu⟩ := h.exists_bracket
  obtain ⟨u', hu'⟩ := h'.exists_brace
  cases hu.symm.trans hu'

end

/-! ### The message that is due -/

/-- **What is shown of a body without a message**: the first 200 characters that are left without the blanks
at both ends, or the reason of the status where nothing is left. -/
def IsStart (status : Nat) (body message : String) : Prop :=
  ∃ before kept after : List Char, body.toList = before ++ kept ++ after ∧
    (∀ c ∈ before, Text.isBlank c = true) ∧ (∀ c ∈ after, Text.isBlank c = true) ∧
    (∀ c ∈ kept.head?, Text.isBlank c = false) ∧ (∀ c ∈ kept.getLast?, Text.isBlank c = false) ∧
    (kept ≠ [] ∧ message.toList = kept.take 200 ∨
      kept = [] ∧ message = (reason? status).getD "unknown error")

/-- **The message that is due**: the one that the body states, and what is shown of it if it states none. -/
inductive IsDue (status : Nat) (body : String) : String → Prop
  | stated {message : String} (h : StatesMessage (Utf8.encode body) message) : IsDue status body message
  | start {message : String} (hnone : ∀ other, ¬ StatesMessage (Utf8.encode body) other)
      (h : IsStart status body message) : IsDue status body message

/-- **Bodies of which another message is shown**: lists of one string, and objects that state a message beside
a member whose name is no text; unless, by chance, the string is what is shown of the body. -/
def IsMisread (status : Nat) (body : String) : Prop :=
  ∃ message, (IsListOfOne (Utf8.encode body) message ∨
      StatesMessage (Utf8.encode body) message ∧ HasNameless (Utf8.encode body)) ∧
    ¬ IsStart status body message

variable {status : Nat} {body message : String}

/-- The start of a body, as it is shown. -/
def startOf (status : Nat) (body : String) : String :=
  if (Text.trim body).isEmpty then (reason? status).getD "unknown error"
  else String.ofList ((Text.trim body).toList.take 200)

theorem isStart_iff : IsStart status body message ↔ message = startOf status body := by
  have htrim : (Text.trim body).toList = Text.trimChars body.toList := String.toList_ofList
  have hempty : (Text.trim body).isEmpty = true ↔ Text.trimChars body.toList = [] := by
    rw [String.isEmpty_iff, ← String.toList_eq_nil_iff, htrim]
  have hstart : IsStart status body message ↔
      (Text.trimChars body.toList ≠ [] ∧ message.toList = (Text.trimChars body.toList).take 200 ∨
        Text.trimChars body.toList = [] ∧ message = (reason? status).getD "unknown error") := by
    constructor
    · rintro ⟨before, kept, after, hbody, hbefore, hafter, hhead, hlast, h⟩
      rw [Text.trimChars_eq_iff.mpr ⟨before, after, hbody, hbefore, hafter, hhead, hlast⟩]
      exact h
    · intro h
      obtain ⟨before, after, hbody, hbefore, hafter, hhead, hlast⟩ :=
        Text.trimChars_eq_iff.mp (rfl : Text.trimChars body.toList = _)
      exact ⟨before, _, after, hbody, hbefore, hafter, hhead, hlast, h⟩
  rw [hstart, startOf, htrim]
  by_cases h : Text.trimChars body.toList = []
  · simp [hempty.mpr h, h]
  · have hnot : ¬ (Text.trim body).isEmpty = true := mt hempty.mp h
    rw [if_neg hnot]
    constructor
    · rintro (⟨-, hmessage⟩ | ⟨hnil, -⟩)
      · rw [← hmessage, String.ofList_toList]
      · exact absurd hnil h
    · rintro rfl
      exact .inl ⟨h, String.toList_ofList⟩

/-- **What is said about a refusal** is what is read as the host's message, and else the start of the body. -/
theorem refusalText_eq {a : Response} (hbody : a.text = some body) :
    (∃ message, HostMessage.decode (Utf8.encode body) = .ok ⟨message⟩ ∧ refusalText a = message) ∨
      (∀ message, HostMessage.decode (Utf8.encode body) ≠ .ok ⟨message⟩) ∧
        refusalText a = startOf a.status body := by
  cases h : HostMessage.decode (Utf8.encode body) with
  | ok m =>
    refine .inl ⟨m.message, rfl, ?_⟩
    simp only [refusalText, hbody, Option.getD_some, h]
  | error f =>
    refine .inr ⟨nofun, ?_⟩
    simp only [refusalText, hbody, Option.getD_some, h, startOf]

/-- Where a body states a message, only that one is due. -/
theorem isDue_iff_of_statesMessage {other : String} (h : StatesMessage (Utf8.encode body) message) :
    IsDue status body other ↔ other = message := by
  constructor
  · rintro (hother | ⟨hnone, -⟩)
    · exact hother.unique h
    · exact absurd h (hnone message)
  · rintro rfl
    exact .stated h

/-- Where a body states no message, its start is due. -/
theorem isDue_iff_isStart (h : ∀ other, ¬ StatesMessage (Utf8.encode body) other) :
    IsDue status body message ↔ IsStart status body message := by
  constructor
  · rintro (hstates | ⟨-, hstart⟩)
    · exact absurd hstates (h message)
    · exact hstart
  · exact .start h

/-- An object that states a message is misread if it has a member whose name is no text. -/
theorem isMisread_iff_of_statesMessage (h : StatesMessage (Utf8.encode body) message) :
    IsMisread status body ↔ HasNameless (Utf8.encode body) ∧ ¬ IsStart status body message := by
  constructor
  · rintro ⟨other, hlist | ⟨hother, hnameless⟩, hnot⟩
    · exact absurd h hlist.not_statesMessage
    · rw [hother.unique h] at hnot
      exact ⟨hnameless, hnot⟩
  · rintro ⟨hnameless, hnot⟩
    exact ⟨message, .inr ⟨h, hnameless⟩, hnot⟩

/-- A list of one string is misread. -/
theorem isMisread_iff_of_isListOfOne (h : IsListOfOne (Utf8.encode body) message) :
    IsMisread status body ↔ ¬ IsStart status body message := by
  constructor
  · rintro ⟨other, hlist | ⟨hstates, -⟩, hnot⟩
    · cases (HostMessage.decode_of_isListOfOne h).symm.trans (HostMessage.decode_of_isListOfOne hlist)
      exact hnot
    · exact absurd hstates h.not_statesMessage
  · exact fun hnot => ⟨message, .inl h, hnot⟩

/-- **What is said about a refusal** is what is due, unless the body is misread. -/
theorem isDue_refusalText_iff {a : Response} (hbody : a.text = some body) :
    IsDue a.status body (refusalText a) ↔ ¬ IsMisread a.status body := by
  rcases refusalText_eq hbody with ⟨message, hdecode, htext⟩ | ⟨hnone, htext⟩
  · -- A message is read: from an object that states it, or from a list.
    rw [htext]
    rcases HostMessage.decode_eq_ok_iff.mp hdecode with ⟨hstates, hnamed⟩ | hlist
    · rw [isDue_iff_of_statesMessage hstates, isMisread_iff_of_statesMessage hstates]
      exact iff_of_true rfl fun h => hnamed h.1
    · rw [isDue_iff_isStart fun _ => hlist.not_statesMessage, isMisread_iff_of_isListOfOne hlist, not_not]
  · -- None is read, and the start of the body is shown.
    rw [htext]
    by_cases hstates : ∃ message, StatesMessage (Utf8.encode body) message
    · obtain ⟨message, hstates⟩ := hstates
      have hnameless : HasNameless (Utf8.encode body) := by
        by_contra hnamed
        exact hnone message (HostMessage.decode_of_statesMessage hstates hnamed)
      rw [isDue_iff_of_statesMessage hstates, isMisread_iff_of_statesMessage hstates, isStart_iff]
      simp [hnameless, eq_comm]
    · rw [isDue_iff_isStart (not_exists.mp hstates)]
      refine iff_of_true (isStart_iff.mpr rfl) ?_
      rintro ⟨other, hlist | ⟨hother, -⟩, -⟩
      · exact hnone other (HostMessage.decode_of_isListOfOne hlist)
      · exact hstates ⟨other, hother⟩

/-! ### Refusals -/

/-- **The failure carries a message** of the host. -/
inductive Failure.Carries (message : String) : Failure → Prop
  | unauthorized : Carries message (.host (.unauthorized message))
  | refused (endpoint : String) (status : Nat) : Carries message (.host (.refused endpoint status message))
  | uploadRejected (asset : String) (status : Nat) :
    Carries message (.host (.uploadRejected asset status message))

/-- The message of a refusal is what is said about it. -/
theorem carries_refusal {endpoint : String} {a : Response}
    (h : (Failure.host (refusal endpoint a)).Carries message) : message = refusalText a := by
  rcases refusal_cases endpoint a with ⟨-, hr⟩ | ⟨-, hr⟩
  · rw [hr] at h
    cases h
    rfl
  · rw [hr] at h
    cases h
    rfl

namespace Errand

/-- **A message that a refused errand fails with** is what is said about the refusal. -/
theorem eq_refusalText_of_carries {k : Errand} {a : Response} {f : Failure} (hrefused : 300 ≤ a.status)
    (hf : k.judge a = .error f) (h : f.Carries message) : message = refusalText a := by
  have hfailed : a.isSuccess = false := Response.isSuccess_of_le hrefused
  rcases k with ⟨proxy, project⟩ | ⟨c, ⟨owner, name⟩ | found | ⟨release, archive, type, shows⟩⟩
  · obtain ⟨g, hg, hr⟩ := (Errand.secret proxy project).refuses_judge hrefused
    obtain rfl := Except.error.inj (hg.symm.trans hf)
    cases hr
    cases h
  · have hjudge : HostClient.repositoryOf owner name a = .error f := hf
    rw [HostClient.repositoryOf, hfailed, if_neg Bool.false_ne_true] at hjudge
    split at hjudge
    · cases hjudge
      cases h
    · cases hjudge
      exact carries_refusal h
  · have hjudge : HostClient.releaseOf found a = .error f := hf
    rw [HostClient.releaseOf, hfailed, if_neg Bool.false_ne_true] at hjudge
    split at hjudge
    · cases hjudge
      cases h
    · cases hjudge
      exact carries_refusal h
  · have hjudge : HostClient.assetOf archive.fileName a = .error f := hf
    rw [HostClient.assetOf, hfailed, if_neg Bool.false_ne_true] at hjudge
    split at hjudge
    · cases hjudge
      cases h
      rfl
    · cases hjudge
      cases h
      rfl

variable {k : Errand} {s : Surroundings} {d : Draft} {a : Response} {n : Network}

/-- **The message of a refusal**, for every call and every final answer with a status of 300 or more whose body
was received and is text: where the failure carries a message, it is the one that is due exactly if the body is
not misread. -/
theorem message_isDue_iff (hd : k.draft s.files = .ok d) (hsend : send d s.network = (.ok a, n))
    (hrefused : 300 ≤ a.status) (hcomplete : a.isComplete = true) (hbody : a.body = Utf8.encode body) :
    ∃ f, (k.run s).1 = .error f ∧
      ∀ message, f.Carries message → (IsDue a.status body message ↔ ¬ IsMisread a.status body) := by
  obtain ⟨f, hf, -⟩ := k.refuses_judge hrefused
  refine ⟨f, (run_eq_judge hd hsend).trans hf, ?_⟩
  intro message hmessage
  have htext : a.text = some body := by
    rw [Response.text, Response.document, if_pos hcomplete, hbody, Option.map_some, Utf8.lossy_encode]
  rw [eq_refusalText_of_carries hrefused hf hmessage]
  exact isDue_refusalText_iff htext

end Errand

namespace Sample

/-- The sample network, where all that comes is one answer that refuses. -/
def refusing (status : Nat) (body : String) : Surroundings :=
  { surroundings [] with
    network := { (surroundings []).network with script := [answer status [] body] } }

/-- The body is a list, and no object. -/
theorem isListOfOne_list : IsListOfOne (Utf8.encode "[\"x\"]") "x" := by
  have hdecode : HostMessage.decode (Utf8.encode "[\"x\"]") = .ok ⟨"x"⟩ := by decide +kernel
  rcases HostMessage.decode_eq_ok_iff.mp hdecode with ⟨hstates, -⟩ | hlist
  · obtain ⟨u, hu⟩ := hstates.exists_brace
    have hhead : (skipBlank (Utf8.encode "[\"x\"]")).head? = some 0x5B := by decide
    rw [hu] at hhead
    cases hhead
  · exact hlist

end Sample

/-- **A list of one string is misread**: the string is shown, and not the body. -/
theorem message_of_list_is_not_due :
    (∃ f, (Sample.latestRelease.run (Sample.refusing 500 "[\"x\"]")).1 = .error f ∧ f.Carries "x") ∧
      ¬ IsDue 500 "[\"x\"]" "x" := by
  constructor
  · have hrun : (match (Sample.latestRelease.run (Sample.refusing 500 "[\"x\"]")).1 with
        | .error f => decide (f = .host (.refused (HostClient.latestEndpoint "o/a") 500 "x"))
        | .ok _ => false) = true := by decide +kernel
    split at hrun
    · rename_i f hf
      obtain rfl := of_decide_eq_true hrun
      exact ⟨_, hf, .refused _ _⟩
    · cases hrun
  · rintro (hstates | ⟨-, hstart⟩)
    · exact Sample.isListOfOne_list.not_statesMessage hstates
    · exact absurd (isStart_iff.mp hstart) (by decide)

/-- A page that is no JSON text, answered with a status that has no reason, is shown without its blanks. -/
theorem message_isDue_sample :
    ∃ d a n, Sample.latestRelease.draft (Sample.refusing 599 "\n é ").files = .ok d ∧
      send d (Sample.refusing 599 "\n é ").network = (.ok a, n) ∧ a.status = 599 ∧
      (∃ f, (Sample.latestRelease.run (Sample.refusing 599 "\n é ")).1 = .error f ∧ f.Carries "é") ∧
      IsDue 599 "\n é " "é" := by
  generalize hs : Sample.refusing 599 "\n é " = s
  obtain ⟨d, hd⟩ : ∃ d, Sample.latestRelease.draft s.files = .ok d := ⟨_, rfl⟩
  have hanswer : (send d s.network).1.toOption = some ⟨599, [], Utf8.encode "\n é ", true⟩ := by
    subst hs
    obtain rfl := Except.ok.inj hd
    decide +kernel
  obtain ⟨n, hsend⟩ := exists_send_eq_ok hanswer
  obtain ⟨f, hf, hlaw⟩ := Errand.message_isDue_iff hd hsend (by decide) rfl rfl
  have hcarries : f.Carries "é" := by
    have hrun : (match (Sample.latestRelease.run s).1 with
        | .error f => decide (f = .host (.refused (HostClient.latestEndpoint "o/a") 599 "é"))
        | .ok _ => false) = true := by
      subst hs
      decide +kernel
    rw [hf] at hrun
    obtain rfl := of_decide_eq_true hrun
    exact .refused _ _
  refine ⟨d, _, n, hd, hsend, rfl, ⟨f, hf, hcarries⟩, (hlaw "é" hcarries).mpr ?_⟩
  -- The body begins with no bracket.
  have hhead : (skipBlank (Utf8.encode "\n é ")).head? = some 0xC3 := by decide
  rintro ⟨message, hlist | ⟨hstates, -⟩, -⟩
  · obtain ⟨u, hu⟩ := hlist.exists_bracket
    rw [hu] at hhead
    cases hhead
  · obtain ⟨u, hu⟩ := hstates.exists_brace
    rw [hu] at hhead
    cases hhead

end ReleasePublisher

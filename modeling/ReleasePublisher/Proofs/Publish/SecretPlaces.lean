import ReleasePublisher.Proofs.Json.AlikeTexts
import ReleasePublisher.Proofs.Json.Places
import ReleasePublisher.Proofs.Publish.SecretShapes

/-!
# The places of secrets

A secret is read as a text in which ill-formed pieces are replaced. What is found there at the end of a path
has its place in the bytes that came: at each name of the path, the value of the last member that has the name.
So the string that is read is the one in this place, once the ill-formed pieces in it are replaced.

## Main definitions

* `Json.IsLast name ms m`: the last member with a name
* `Json.StandsAt names t p`: a piece stands at the end of a path of names
* `Json.IsLooselyRead t v`: a value is read of a text, ill-formed pieces being replaced

## Main results

* `Json.isLooselyRead_of_parse`: what is read of a text with replacements is loosely read of its bytes
* `Json.IsLooselyRead.exists_members`: members are loosely read
* `Json.IsLooselyRead.standsAt`: what is found at the end of a path is loosely read of the piece there
* `Json.IsLooselyRead.isRendering`: which string is loosely read
-/

namespace ReleasePublisher.Json

open Utf8

variable {t p x y : Bytes} {name : String} {v w : Json}

/-! ### Names of bytes below `0x80` -/

/-- All characters of the name are made of one byte. -/
def IsPlain (name : String) : Prop :=
  ∀ c ∈ name.toList, c.toNat < 0x80

theorem isPlain_iff : IsPlain name ↔ name.toList.all (·.toNat < 0x80) = true := by
  simp [IsPlain]

theorem not_isHigh_of_mem_encodeChar {c : Char} (hc : c.toNat < 0x80) :
    ∀ b ∈ encodeChar c, isHigh b = false := by
  have hall : ∀ n < 0x80, (encodeChar (Char.ofNat n)).all (!isHigh ·) = true := by decide
  have hchar := forall_char (P := fun c => (encodeChar c).all (!isHigh ·) = true) hall c hc
  simpa using hchar

theorem IsHexDigit.toNat_lt {c : Char} {n : Nat} (h : IsHexDigit c n) : c.toNat < 0x80 := by
  have hlower : ∀ n < 16, (Hex.lowerDigit n).toNat < 0x80 := by decide
  have hupper : ∀ n < 16, (Hex.upperDigit n).toNat < 0x80 := by decide
  obtain ⟨hn, rfl | rfl⟩ := h
  · exact hlower n hn
  · exact hupper n hn

/-- The characters that spell one below `0x80` are below `0x80`. -/
theorem Spells.toNat_lt {c : Char} {cs : List Char} (h : Spells c cs) (hc : c.toNat < 0x80) :
    ∀ d ∈ cs, d.toNat < 0x80 := by
  have hshort : ∀ e ∈ shortEscapes, e.1.toNat < 0x80 := by decide
  cases h with
  | plain => exact List.forall_mem_singleton.mpr hc
  | short h => exact List.forall_mem_cons.mpr ⟨by decide, List.forall_mem_singleton.mpr (hshort _ h)⟩
  | numbered h =>
    obtain ⟨e, f, g, h, rfl, he, hf, hg, hh⟩ := h
    simp [he.toNat_lt, hf.toNat_lt, hg.toNat_lt, hh.toNat_lt]
  | pair hlarge => omega

/-- **A plain name is spelled by bytes below `0x80`.** -/
theorem IsSpelling.not_isHigh {token : List Char} (h : IsSpelling name token) (hname : IsPlain name) :
    ∀ b ∈ encodeChars token, isHigh b = false := by
  obtain ⟨pieces, hpieces, rfl⟩ := h
  have hchars : ∀ d ∈ pieces.flatten, d.toNat < 0x80 := by
    intro d hd
    obtain ⟨cs, hcs, hdcs⟩ := List.mem_flatten.mp hd
    obtain ⟨c, hmem, hc⟩ := exists_counterpart hpieces.flip hcs
    exact Spells.toNat_lt hc (hname c hmem) d hdcs
  intro b hb
  obtain ⟨d, hd, hb⟩ := List.mem_flatMap.mp hb
  refine not_isHigh_of_mem_encodeChar ?_ b hb
  rcases List.mem_cons.mp hd with rfl | hd
  · decide
  · rcases List.mem_append.mp hd with hd | hd
    · exact hchars d hd
    · rw [List.mem_singleton.mp hd]
      decide

/-- Alike texts begin with the same plain names. -/
theorem exists_textBody_of_alike {r : Bytes} (hname : IsPlain name) (h : Alike x y)
    (hx : textBody x = .ok (name, r)) : ∃ r', textBody y = .ok (name, r') := by
  obtain ⟨token, htoken, hbytes⟩ := textBody_eq_ok_iff.mp hx
  have hquoted := h.cons (show isHigh 0x22 = false by decide)
  rw [hbytes] at hquoted
  obtain ⟨r', hr', -⟩ := hquoted.exists_append (htoken.not_isHigh hname)
  exact ⟨r', textBody_eq_ok_iff.mpr ⟨token, htoken, hr'⟩⟩

/-- **A member has a plain name** exactly if this is read in an alike text. -/
theorem WrittenMember.IsEntry.isNamed_iff_of_alike {m : WrittenMember} {e e' : Bytes × Bytes}
    {m' : String × Bytes} (hm : m.IsEntry e) (h : AreAlike e e') (hm' : Entries.IsMember e' m')
    (hname : IsPlain name) : m.IsNamed name ↔ m'.1 = name := by
  obtain ⟨⟨r, hr⟩, -⟩ := hm'
  constructor
  · intro hnamed
    have hread : m.IsRead (name, e.2) := ⟨hnamed, hm.2⟩
    obtain ⟨⟨_, hbody⟩, -⟩ := hm.isRead_iff.mpr ⟨hread, rfl⟩
    obtain ⟨_, hbody'⟩ := exists_textBody_of_alike hname h.1 hbody
    exact (Prod.mk.inj (Except.ok.inj (hr.symm.trans hbody'))).1
  · rintro rfl
    obtain ⟨_, hbody⟩ := exists_textBody_of_alike hname h.1.symm hr
    have hentry : Entries.IsMember e (m'.1, e.2) := ⟨⟨_, hbody⟩, rfl⟩
    exact (hm.isRead_iff.mp hentry).1.1

/-! ### Paths -/

/-- **The last member with a name.** -/
def IsLast (name : String) (ms : List WrittenMember) (m : WrittenMember) : Prop :=
  ∃ before after, ms = before ++ m :: after ∧ m.IsNamed name ∧ ∀ m' ∈ after, ¬ m'.IsNamed name

/-- **A piece stands at the end of a path** in a text: in the value, named next on the path, of the last member
that has the name. -/
def StandsAt : List String → Bytes → Bytes → Prop
  | [], t, p => p = t
  | name :: names, t, p => ∃ ms m, Padded IsObject t ms ∧ IsLast name ms m ∧ StandsAt names m.value p

/-- No two members are the last one. -/
theorem IsLast.unique {ms : List WrittenMember} {m m' : WrittenMember} (h : IsLast name ms m)
    (h' : IsLast name ms m') : m = m' := by
  obtain ⟨before, after, rfl, hm, hafter⟩ := h
  obtain ⟨before', after', hms, hm', hafter'⟩ := h'
  rcases List.append_eq_append_iff.mp hms with ⟨between, rfl, h⟩ | ⟨between, rfl, h⟩
  · cases between with
    | nil => exact (List.cons.inj h).1
    | cons c between =>
      obtain ⟨rfl, rfl⟩ := List.cons.inj h
      exact absurd hm' (hafter m' (by simp))
  · cases between with
    | nil => exact (List.cons.inj h).1.symm
    | cons c between =>
      obtain ⟨rfl, rfl⟩ := List.cons.inj h
      exact absurd hm (hafter' m (by simp))

/-! ### Values that are loosely read -/

/-- **The value is read of the text**, ill-formed pieces being replaced: where the text stands in another one,
the value is read of what is alike to this. -/
def IsLooselyRead (t : Bytes) (v : Json) : Prop :=
  ∃ x y depth, Opens t x ∧ Alike x y ∧ Gives (value depth) y v

/-- A member is loosely read: its value is, and its name is the same if it is plain. -/
def WrittenMember.IsLooselyRead (m : WrittenMember) (a : String × Json) : Prop :=
  (∀ name, IsPlain name → (m.IsNamed name ↔ a.1 = name)) ∧ Json.IsLooselyRead m.value a.2

/-- **What is read of a text with replacements** is loosely read of its bytes, which are a JSON text. -/
theorem isLooselyRead_of_parse (h : parse (encode (lossy t)) = .ok v) :
    IsWellFormed t ∧ IsLooselyRead t v := by
  obtain ⟨rest, hv, hrest⟩ := wholeText_eq_ok_iff.mp h
  obtain ⟨r, hspans, halike⟩ := (reads_value _ _ _ _ hv).exists_alike (alike_lossy t).symm
  have hr := alike_skipBlank halike
  rw [hrest] at hr
  exact ⟨IsDocument.isWellFormed ⟨r, hspans, hr.eq_nil⟩, t, _, _,
    ⟨[], [], .nil, .nil, by simp⟩, alike_lossy t, rest, hv⟩

/-- From the members that are written to those that are read: by the entries of both texts. -/
theorem areLooselyRead {ms : List WrittenMember} {es es' : List (Bytes × Bytes)} {ms' : List (String × Bytes)}
    {as : List (String × Json)} {depth : Nat} (hwritten : List.Forall₂ WrittenMember.IsEntry ms es)
    (halike : List.Forall₂ AreAlike es es') (hmembers : List.Forall₂ Entries.IsMember es' ms')
    (hgives : List.Forall₂ (GivesMember (value depth)) ms' as) :
    List.Forall₂ WrittenMember.IsLooselyRead ms as := by
  induction hwritten generalizing es' ms' as with
  | nil =>
    cases halike
    cases hmembers
    cases hgives
    exact .nil
  | cons hm _ ih =>
    obtain _ | ⟨he, halike⟩ := halike
    obtain _ | ⟨hm', hmembers⟩ := hmembers
    obtain _ | ⟨ha, hgives⟩ := hgives
    refine .cons ⟨fun name hname => ?_, _, _, depth, hm.2, he.2, ?_⟩ (ih halike hmembers hgives)
    · rw [hm.isNamed_iff_of_alike he hm' hname, ha.1]
    · rw [hm'.2]
      exact ha.2

/-- A value that holds no other is no object. -/
theorem scalar_ne_object {b : UInt8} {s rest : Bytes} {ms : List (String × Json)} :
    scalar b s ≠ .ok (.object ms, rest) := by
  fun_cases scalar b s <;> simp [map_eq_ok]

namespace IsLooselyRead

/-- Where an object is loosely read, one is written. -/
theorem exists_isObject {as : List (String × Json)} (h : IsLooselyRead t (.object as)) (ht : IsWellFormed t) :
    ∃ ms, Padded IsObject t ms := by
  obtain ⟨x, y, depth, hx, hxy, rest, hv⟩ := h
  rcases value_cases hv with ⟨_, _, -, hscalar⟩ | ⟨_, _, _, -, -, -, hlist⟩ | ⟨_, _, _, -, hy, -⟩
  · exact absurd hscalar scalar_ne_object
  · cases hlist
  · obtain ⟨u, hu, -⟩ := exists_skipBlank_eq hxy.symm hy (by decide)
    obtain ⟨r, hr⟩ := hx.exists_skipBlank_eq ht hu
    exact ht.exists_encloses (show skipBlank t = Bracket.object.opening :: r from hr)
      fun _ => exists_member_of_isItem

/-- **Members are loosely read** where their object is. -/
theorem exists_members {ms : List WrittenMember} (h : IsLooselyRead t v) (hms : Padded IsObject t ms) :
    ∃ as, v = .object as ∧ List.Forall₂ WrittenMember.IsLooselyRead ms as := by
  obtain ⟨x, y, depth, hx, hxy, rest, hv⟩ := h
  obtain ⟨o, after, ho, hskip⟩ := hx.exists_object hms
  obtain ⟨u, es, hu, hes, hwritten⟩ := ho.exists_entries after
  obtain ⟨u', hu', huu⟩ := exists_skipBlank_eq hxy (hskip.trans hu) (by decide)
  obtain ⟨es', _, hes', halike, -⟩ := hes.exists_alike huu
  rcases value_cases hv with ⟨b, _, hb, hscalar⟩ | ⟨_, _, _, -, hb, -⟩ | ⟨d, _, as, -, hb, hbody, rfl⟩
  · obtain ⟨rfl, -⟩ := List.cons.inj (hu'.symm.trans hb)
    have hopening := skipScalar_of_scalar hscalar
    rw [show (0x7B : UInt8) = Bracket.object.opening from rfl, skipScalar_opening] at hopening
    cases hopening
  · cases hu'.symm.trans hb
  · obtain ⟨-, rfl⟩ := List.cons.inj (hu'.symm.trans hb)
    obtain ⟨ms', hms', hgives⟩ := (objectBody_eq_ok_iff (reads_value d)).mp hbody
    obtain ⟨es'', hes'', hmembers⟩ := hms'.exists_entries
    obtain ⟨rfl, -⟩ := hes'.unique hes''
    exact ⟨as, rfl, areLooselyRead hwritten halike hmembers hgives⟩

/-- The member that counts is loosely read of the last one that has its name. -/
theorem exists_isLast (h : IsLooselyRead t v) (ht : IsWellFormed t) (hname : IsPlain name)
    (hw : v.HasMember name w) :
    (∃ ms m, Padded IsObject t ms ∧ IsLast name ms m) ∧
      ∀ ms m, Padded IsObject t ms → IsLast name ms m → IsWellFormed m.value ∧ IsLooselyRead m.value w := by
  obtain ⟨before, after, rfl, hafter⟩ := hw
  -- The members go together with those that are read, and so do the last ones with the name.
  have hlast : ∀ ms, Padded IsObject t ms → ∃ m, IsLast name ms m ∧ IsLooselyRead m.value w := by
    intro ms hms
    obtain ⟨as, has, hall⟩ := h.exists_members hms
    obtain rfl := Json.object.inj has
    obtain ⟨before', m, after', rfl, -, hm, hall⟩ := exists_split hall.flip
    refine ⟨m, ⟨before', after', rfl, (hm.1 name hname).mpr rfl, fun m' hm' hnamed => ?_⟩, hm.2⟩
    obtain ⟨a, hmem, ha⟩ := exists_counterpart hall.flip hm'
    exact hafter a hmem ((ha.1 name hname).mp hnamed)
  constructor
  · obtain ⟨ms, hms⟩ := h.exists_isObject ht
    obtain ⟨m, hm, -⟩ := hlast ms hms
    exact ⟨ms, m, hms, hm⟩
  · intro ms m hms hm
    obtain ⟨m', hm', hread⟩ := hlast ms hms
    obtain rfl := hm.unique hm'
    obtain ⟨_, _, _, -, -, -, ho⟩ := hms
    obtain ⟨_, _, rfl, -⟩ := hm
    exact ⟨ho.isWellFormed_value (by simp), hread⟩

/-- **What is found at the end of a path** is loosely read of the piece that stands there. -/
theorem standsAt {names : List String} (h : IsLooselyRead t v) (ht : IsWellFormed t)
    (hnames : ∀ name ∈ names, IsPlain name) (hw : v.pointer? names = some w) :
    (∃ p, StandsAt names t p) ∧ ∀ p, StandsAt names t p → IsWellFormed p ∧ IsLooselyRead p w := by
  induction names generalizing t v with
  | nil =>
    obtain rfl := Option.some.inj hw
    refine ⟨⟨t, rfl⟩, ?_⟩
    rintro p rfl
    exact ⟨ht, h⟩
  | cons name names ih =>
    obtain ⟨hname, hnames⟩ := List.forall_mem_cons.mp hnames
    obtain ⟨u, hu, hw⟩ := Option.bind_eq_some_iff.mp hw
    obtain ⟨⟨ms, m, hms, hm⟩, hall⟩ := h.exists_isLast ht hname (member?_eq_some_iff.mp hu)
    constructor
    · obtain ⟨hvalue, hread⟩ := hall ms m hms hm
      obtain ⟨⟨p, hp⟩, -⟩ := ih hread hvalue hnames hw
      exact ⟨p, ms, m, hms, hm, hp⟩
    · rintro p ⟨ms, m, hms, hm, hp⟩
      obtain ⟨hvalue, hread⟩ := hall ms m hms hm
      exact (ih hread hvalue hnames hw).2 p hp

/-- **The string that is loosely read** is rendered once the ill-formed pieces are replaced. -/
theorem isRendering {s : String} (h : IsLooselyRead p (.text s)) (hp : IsWellFormed p) :
    IsRendering (.text s) (encode (lossy p)) := by
  obtain ⟨x, y, depth, hx, hxy, r, hv⟩ := h
  obtain ⟨before, q, after, rest, hbefore, hafter, rfl, hskip, hspans⟩ := hx.exists_stands hp
  obtain ⟨y', hy, hbody⟩ := value_eq_text_iff.mp hv
  obtain ⟨token, ⟨pieces', hpieces', htoken'⟩, hbytes⟩ := textBody_eq_ok_iff.mp hbody
  -- The string that is read ends where the piece does.
  obtain ⟨x', hx', halike⟩ := exists_skipBlank_eq hxy.symm hy (by decide)
  obtain ⟨r', hr', hrr⟩ := keepsAlike_skipText halike (skipText_of_textBody hbody)
  obtain rfl := hspans.unique (.scalar hx' hr')
  obtain ⟨u, ⟨pieces, -, hu⟩, hxu⟩ := isString_of_skipText hr'
  obtain rfl : q = 0x22 :: u := by
    rw [hx', hxu] at hskip
    exact (List.append_cancel_right hskip).symm
  -- Between the quotes, both strings are alike.
  have hquotes : encodeChars token = 0x22 :: (encodeChars pieces'.flatten ++ [0x22]) := by
    rw [htoken', ← List.singleton_append, encodeChars_append, encodeChars_append]
    rfl
  obtain ⟨-, rfl⟩ := List.cons.inj hu
  rw [hquotes, List.cons_append, List.append_assoc] at hbytes
  rw [(List.cons.inj hbytes).2, hxu, List.append_assoc] at halike
  have hinner : Alike pieces.flatten (encodeChars pieces'.flatten) :=
    halike.symm.cancel (by decide) hrr.symm
  have hrenders := (Renders.text ⟨pieces', hpieces', htoken'⟩).isRendering hbefore hafter
  have hpiece : Alike (before ++ (0x22 :: (pieces.flatten ++ [0x22]) ++ after))
      (before ++ (encodeChars token ++ after)) := by
    rw [hquotes]
    simp only [List.cons_append, List.append_assoc, List.nil_append]
    exact .append_cons (by decide) (.refl before) (.append_cons (by decide) hinner (.refl after))
  rwa [hpiece.encode_lossy hrenders.isValid]

end IsLooselyRead

end ReleasePublisher.Json

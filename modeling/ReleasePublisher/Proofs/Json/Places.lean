import ReleasePublisher.Proofs.Json.Tellings

/-!
# The places of a record

Each name of a record has places in a text that is one: the values of the members that have the name, or the
element of a list at the index of the name. What a field reads is read in its places, and strings are rendered
there.

## Main definitions

* `Json.IsList t ps`: a text is a list with these elements
* `Json.IsInPlace names name t p`: a piece stands in a place of a name
* `Json.StatesTexts read names t es`: a text states strings in the places of their names

## Main results

* `Json.isRendering_of_gives`: where a string is read, it is rendered
* `Json.IsWellFormed.exists_encloses`: a JSON text that begins with a bracket is a bracket around pieces
* `Json.gives_of_isInPlace`, `Json.exists_isInPlace_or`: a field is read in its places
* `Json.statesTexts_of_gives`: where a record is read, its strings are stated
-/

namespace ReleasePublisher.Json

open Utf8

variable {depth : Nat} {s t u p x rest gap : Bytes} {name : String}

/-! ### Strings in texts -/

/-- Blanks are characters that may stand between the pieces of a text. -/
theorem AreBlank.exists_isGap (h : AreBlank gap) : ∃ cs, IsGap cs ∧ encodeChars cs = gap := by
  induction gap with
  | nil => exact ⟨[], nofun, rfl⟩
  | cons b gap ih =>
    obtain ⟨hb, hgap⟩ := List.forall_mem_cons.mp h
    obtain ⟨cs, hcs, rfl⟩ := ih hgap
    have hchar : ∃ c ∈ [' ', '\t', '\n', '\r'], encodeChar c = [b] := by
      rcases isSpace_iff.mp hb with rfl | rfl | rfl | rfl
      · exact ⟨' ', by simp, rfl⟩
      · exact ⟨'\t', by simp, rfl⟩
      · exact ⟨'\n', by simp, rfl⟩
      · exact ⟨'\r', by simp, rfl⟩
    obtain ⟨c, hc, hbyte⟩ := hchar
    refine ⟨c :: cs, List.forall_mem_cons.mpr ⟨hc, hcs⟩, ?_⟩
    rw [encodeChars, List.flatMap_cons, hbyte]
    rfl

/-- Where all that is left is blank, it is a gap. -/
theorem areBlank_of_skipBlank (h : skipBlank t = []) : AreBlank t := by
  obtain ⟨gap, hgap, ht⟩ := exists_eq_append_skipBlank t
  rw [h, List.append_nil] at ht
  exact ht ▸ hgap

theorem skipBlank_of_areBlank (h : AreBlank t) : skipBlank t = [] := by
  rw [← List.append_nil t, skipBlank_append h]
  rfl

theorem Renders.isRendering {v : Json} {cs : List Char} (h : Renders v cs) {before after : Bytes}
    (hbefore : AreBlank before) (hafter : AreBlank after) :
    IsRendering v (before ++ (encodeChars cs ++ after)) := by
  obtain ⟨ds, hds, rfl⟩ := hbefore.exists_isGap
  obtain ⟨es, hes, rfl⟩ := hafter.exists_isGap
  refine ⟨ds ++ (cs ++ es), .padded hds hes h, ?_⟩
  rw [encodeChars_append, encodeChars_append]

theorem IsRendering.isValid {v : Json} (h : IsRendering v t) : IsValid t := by
  obtain ⟨cs, -, rfl⟩ := h
  exact ⟨cs, rfl⟩

/-- **A text that goes on from a JSON text**: behind blanks, the value in it stands at the start. -/
theorem Opens.exists_stands (hx : Opens p x) (hp : IsWellFormed p) :
    ∃ before q after rest, AreBlank before ∧ AreBlank after ∧ p = before ++ (q ++ after) ∧
      skipBlank x = q ++ (after ++ rest) ∧ Spans .value x (after ++ rest) := by
  obtain ⟨before, q, after, hbefore, hafter, rfl, hq⟩ := hp.padded_stands
  obtain ⟨gap, rest, hgap, hrest, rfl⟩ := hx
  refine ⟨before, q, after, rest, hbefore, hafter, rfl, ?_, ?_⟩
  · rw [skipBlank_append hgap, List.append_assoc, List.append_assoc, skipBlank_append hbefore, hq.skipBlank_eq]
  · rw [List.append_assoc, List.append_assoc]
    exact ((hq.spans _ (.append hafter hrest)).append hbefore).append hgap

/-- **Where a string is read, it is rendered.** -/
theorem isRendering_of_gives {message : String} (hp : IsWellFormed p) (hx : Opens p x)
    (h : Gives (value depth) x (.text message)) : IsRendering (.text message) p := by
  obtain ⟨before, q, after, rest, hbefore, hafter, rfl, hskip, hspans⟩ := hx.exists_stands hp
  obtain ⟨r, hr⟩ := h
  obtain rfl := hspans.unique (reads_value _ _ _ _ hr)
  obtain ⟨q', hq', hbody⟩ := value_eq_text_iff.mp hr
  obtain ⟨token, htoken, hbytes⟩ := textBody_eq_ok_iff.mp hbody
  rw [← hq', hskip] at hbytes
  obtain rfl := List.append_cancel_right hbytes
  exact (Renders.text htoken).isRendering hbefore hafter

/-- Where `null` is read, it is rendered. -/
theorem isRendering_null_of_gives (hp : IsWellFormed p) (hx : Opens p x) (h : Gives (value depth) x .null) :
    IsRendering .null p := by
  obtain ⟨before, q, after, rest, hbefore, hafter, rfl, hskip, hspans⟩ := hx.exists_stands hp
  obtain ⟨r, hr⟩ := h
  obtain rfl := hspans.unique (reads_value _ _ _ _ hr)
  obtain ⟨w, hw, hword⟩ := value_eq_null_iff.mp hr
  rw [eq_append_of_word hword, hskip] at hw
  obtain rfl : q = [0x6E, 0x75, 0x6C, 0x6C] := List.append_cancel_right hw
  exact Renders.null.isRendering hbefore hafter

/-! ### Brackets around pieces -/

theorem opening_injective {top other : Bracket} (h : top.opening = other.opening) : top = other := by
  cases top <;> cases other <;> first | rfl | cases h

/-- **A JSON text that begins with a bracket** is a bracket around pieces, if each item in it is one. -/
theorem IsWellFormed.exists_encloses {β : Type} {Piece : Bytes → β → Prop} {top : Bracket} (h : IsWellFormed t)
    (hs : skipBlank t = top.opening :: u) (hpiece : ∀ p, top.IsItem p → ∃ b, Padded Piece p b) :
    ∃ bs, Padded (top.Encloses Piece) t bs := by
  obtain ⟨after, hafter, hspans⟩ := h.exists_spans .nil
  rw [List.append_nil, List.append_nil] at hspans
  obtain ⟨before, hbefore, ht⟩ := exists_eq_append_skipBlank t
  cases hspans with
  | scalar hb hscalar =>
    obtain ⟨rfl, -⟩ := List.cons.inj (hs.symm.trans hb)
    rw [skipScalar_opening] at hscalar
    cases hscalar
  | bracket other hb htail =>
    obtain ⟨hopening, rfl⟩ := List.cons.inj (hs.symm.trans hb)
    obtain rfl := opening_injective hopening
    obtain ⟨ts, gap, hts, hgap, rfl⟩ := htail.makes
    obtain ⟨bs, hbs⟩ := exists_forall₂ fun p hp => hpiece p (hts p hp)
    refine ⟨bs, before, _, after, hbefore, hafter, ?_, ts, gap, hbs, hgap, rfl⟩
    rw [ht, hs]
    simp

/-- A member is an item of its object. -/
theorem exists_member_of_isItem (h : Bracket.object.IsItem p) : ∃ m, Padded WrittenMember.IsText p m := by
  obtain ⟨label, v, ⟨before, n, after, hbefore, hafter, hn, rfl⟩, hv, rfl⟩ := h
  exact ⟨⟨n, v⟩, before, n ++ (after ++ 0x3A :: ([] ++ v)), [], hbefore, .nil, by simp, after, [], hn, hv,
    hafter, .nil, rfl⟩

/-- **The text is a list** with these elements. -/
def IsList (t : Bytes) (ps : List Bytes) : Prop :=
  Bracket.list.Encloses (fun p i => p = i ∧ IsElement i) t ps

/-- A JSON text is an element with blanks around it. -/
theorem exists_element_of_isItem (h : Bracket.list.IsItem p) :
    ∃ i, Padded (fun p i => p = i ∧ IsElement i) p i := by
  obtain ⟨label, v, rfl, hv, rfl⟩ := h
  obtain ⟨before, q, after, hbefore, hafter, rfl, hq⟩ := hv.padded_stands
  refine ⟨q, before, q, after, hbefore, hafter, rfl, rfl, ?_, ?_⟩
  · obtain ⟨r, hr, hq'⟩ := (hq.spans [] .nil).makes
    rw [List.append_nil, List.append_nil] at hq'
    exact hq' ▸ hr
  · intro b hb
    obtain ⟨w, rfl⟩ := List.head?_eq_some_iff.mp hb
    have hskip := hq.skipBlank_eq []
    rw [List.append_nil] at hskip
    exact isSpace_of_skipBlank hskip

/-! ### Places -/

/-- **A piece stands in a place of a name**, in a record with these names: it is the value of a member with the
name, or the element of a list at the index of the name. -/
inductive IsInPlace (names : List String) (name : String) (t p : Bytes) : Prop
  | member {ms : List WrittenMember} {m : WrittenMember} (hms : Padded IsObject t ms) (hm : m ∈ ms)
      (hname : m.IsNamed name) (hp : m.value = p)
  | element {ps : List Bytes} {k : Nat} (hps : Padded IsList t ps) (hk : names[k]? = some name)
      (hp : ps[k]? = some p)

theorem IsObject.isWellFormed_value {ms : List WrittenMember} (h : IsObject t ms) {m : WrittenMember}
    (hm : m ∈ ms) : IsWellFormed m.value := by
  obtain ⟨ps, gap, hps, -, -⟩ := h
  obtain ⟨_, -, _, _, _, -, -, -, _, _, -, hvalue, -⟩ := exists_counterpart hps.flip hm
  exact hvalue

theorem IsList.isElement {ps : List Bytes} (h : IsList t ps) (hp : p ∈ ps) : IsElement p := by
  obtain ⟨qs, gap, hqs, -, -⟩ := h
  obtain ⟨_, -, _, _, _, -, -, -, rfl, hq⟩ := exists_counterpart hqs.flip hp
  exact hq

/-- What stands in a place is a JSON text. -/
theorem IsInPlace.isWellFormed {names : List String} (h : IsInPlace names name t p) : IsWellFormed p := by
  cases h with
  | member hms hm _ hp =>
    obtain ⟨_, _, _, -, -, -, hobject⟩ := hms
    exact hp ▸ hobject.isWellFormed_value hm
  | element hps _ hp =>
    obtain ⟨_, _, _, -, -, -, hlist⟩ := hps
    exact (hlist.isElement (List.mem_of_getElem? hp)).1

/-! ### What fields read in their places -/

section Fields

variable {fields : List Field} {field : Field} {ds : List Datum} {d : Datum} {k : Nat}

/-- What a field holds is read of each member that has its name. -/
theorem Field.gives_of_datum? {ms : List (String × Bytes)} {m : String × Bytes} (h : field.datum? ms = some d)
    (hm : m ∈ ms) (hname : (m.1 == field.name) = true) : Gives field.read m.2 d := by
  have hmem : m ∈ ms.filter (·.1 == field.name) := List.mem_filter.mpr ⟨hm, hname⟩
  unfold datum? taken? at h
  split at h
  · rename_i hnone
    rw [hnone] at hmem
    cases hmem
  · rename_i m' hone
    rw [hone] at hmem
    obtain rfl := List.mem_singleton.mp hmem
    cases hg : given field.read m.2 with
    | none => simp [hg] at h
    | some d' =>
      obtain rfl : d' = d := by simpa [hg] using h
      exact given_eq_some_iff.mp hg
  · cases h

/-- Where no member has its name, a field holds its default. -/
theorem Field.fallback_of_datum? {ms : List (String × Bytes)} (h : field.datum? ms = some d)
    (hnone : ms.filter (·.1 == field.name) = []) : field.fallback = some d := by
  unfold datum? taken? at h
  rw [hnone] at h
  simpa using h

theorem datum?_of_data? {ms : List (String × Bytes)} (h : data? fields ms = some ds)
    (hk : fields[k]? = some field) (hd : ds[k]? = some d) : field.datum? ms = some d := by
  induction fields generalizing ds k with
  | nil => cases hk
  | cons f fields ih =>
    rw [data?_cons] at h
    obtain ⟨d', hd', h⟩ := Option.bind_eq_some_iff.mp h
    obtain ⟨ds, hds, rfl⟩ := Option.map_eq_some_iff.mp h
    cases k with
    | zero =>
      cases hk
      cases hd
      exact hd'
    | succ k => exact ih (k := k) hds hk hd

theorem given_of_fill? {ts : List Bytes} (h : fill? fields ts = some ds) (hk : fields[k]? = some field)
    (hd : ds[k]? = some d) :
    ts[k]? = none ∧ field.fallback = some d ∨ ∃ t, ts[k]? = some t ∧ Gives field.read t d := by
  induction fields generalizing ds k ts with
  | nil => cases hk
  | cons f fields ih =>
    cases ts with
    | nil =>
      rw [fill?_cons_nil] at h
      obtain ⟨d', hd', h⟩ := Option.bind_eq_some_iff.mp h
      obtain ⟨ds, hds, rfl⟩ := Option.map_eq_some_iff.mp h
      cases k with
      | zero =>
        cases hk
        cases hd
        exact .inl ⟨rfl, hd'⟩
      | succ k =>
        rcases ih (k := k) hds hk hd with ⟨-, hd⟩ | ⟨t, ht, -⟩
        · exact .inl ⟨rfl, hd⟩
        · cases ht
    | cons t ts =>
      rw [fill?_cons_cons] at h
      obtain ⟨d', hd', h⟩ := Option.bind_eq_some_iff.mp h
      obtain ⟨ds, hds, rfl⟩ := Option.map_eq_some_iff.mp h
      cases k with
      | zero =>
        cases hk
        cases hd
        exact .inr ⟨t, rfl, given_eq_some_iff.mp hd'⟩
      | succ k => exact ih (k := k) hds hk hd

variable {record : String}

/-- The counterpart of what stands at an index stands there. -/
theorem exists_getElem? {α β : Type} {R : α → β → Prop} {l : List α} {l' : List β} (h : List.Forall₂ R l l')
    {k : Nat} {a : α} (ha : l[k]? = some a) : ∃ b, l'[k]? = some b ∧ R a b := by
  induction h generalizing k with
  | nil => cases ha
  | @cons _ b _ _ hab _ ih =>
    cases k with
    | zero =>
      cases ha
      exact ⟨b, rfl, hab⟩
    | succ k => exact ih (k := k) ha

/-- **The elements of a list** are read from where they stand. -/
theorem IsList.opens_elements {ps ts : List Bytes} (hps : Padded IsList t ps) (hx : Opens t x)
    (hu : skipBlank x = 0x5B :: u) (hts : Elements true u ts rest) : List.Forall₂ Opens ps ts := by
  obtain ⟨u', ts', rest', hu', hts', hall⟩ :=
    exists_elements_of_opens hps (by rintro q _ ⟨rfl, hq⟩; exact hq) hx
  obtain ⟨-, rfl⟩ := List.cons.inj (hu.symm.trans hu')
  obtain ⟨rfl, -⟩ := hts.unique hts'
  refine hall.imp ?_
  rintro q _ ⟨_, rest, ⟨rfl, -⟩, hrest, rfl⟩
  exact ⟨[], rest, .nil, hrest, rfl⟩

theorem Opens.exists_object {ms : List WrittenMember} (hx : Opens t x) (hms : Padded IsObject t ms) :
    ∃ o rest, IsObject o ms ∧ skipBlank x = o ++ rest := by
  obtain ⟨before, o, after, hbefore, -, rfl, ho⟩ := hms
  obtain ⟨gap, rest, hgap, -, rfl⟩ := hx
  refine ⟨o, after ++ rest, ho, ?_⟩
  rw [skipBlank_append hgap, List.append_assoc, List.append_assoc, ho.skipBlank_append hbefore]

/-- **A field is read in its places**, wherever the record stands. -/
theorem gives_of_isInPlace (hfields : ∀ f ∈ fields, Reads f.read) (hnames : (fields.map (·.name)).Nodup)
    (hx : Opens t x) (h : Gives (readRecord record fields) x ds) (hk : fields[k]? = some field)
    (hd : ds[k]? = some d) (hp : IsInPlace (fields.map (·.name)) field.name t p) :
    ∃ y, Opens p y ∧ Gives field.read y d := by
  obtain ⟨r, hr⟩ := h
  cases hp with
  | @member ms m hms hm hname hp =>
    obtain ⟨o, rest, ho, hskip⟩ := hx.exists_object hms
    rcases (readRecord_eq_ok_iff hfields hnames).mp hr with ⟨u, ts, hu, -, -⟩ | ⟨u, ms', hu, hms', hdata⟩
    · obtain ⟨w, es, hw, -⟩ := ho.exists_entries rest
      cases hw.symm.trans (hskip.symm.trans hu)
    · obtain ⟨hread, -⟩ := ho.reads_members (hskip.symm.trans hu) hms'
      obtain ⟨m', hmem, hm'⟩ := exists_counterpart hread hm
      have hgives := Field.gives_of_datum? (datum?_of_data? hdata hk hd) hmem (hm'.isNamed_iff.mp hname)
      exact ⟨m'.2, hp ▸ hm'.2, hgives⟩
  | @element ps j hps hj hp =>
    rcases (readRecord_eq_ok_iff hfields hnames).mp hr with ⟨u, ts, hu, hts, hfill⟩ | ⟨u, ms', hu, -, -⟩
    · -- No other field has the name.
      have hkname : (fields.map (·.name))[k]? = some field.name := by rw [List.getElem?_map, hk]; rfl
      obtain ⟨hlt, -⟩ := List.getElem?_eq_some_iff.mp hj
      obtain rfl := (List.getElem?_inj hlt hnames).mp (hj.trans hkname.symm)
      obtain ⟨y, hy, hpy⟩ := exists_getElem? (IsList.opens_elements hps hx hu hts) hp
      rcases given_of_fill? hfill hk hd with ⟨hnone, -⟩ | ⟨y', hy', hgives⟩
      · cases hnone.symm.trans hy
      · obtain rfl := Option.some.inj (hy.symm.trans hy')
        exact ⟨y, hpy, hgives⟩
    · obtain ⟨u', ts, rest, hu', -⟩ :=
        exists_elements_of_opens hps (by rintro q _ ⟨rfl, hq⟩; exact hq) hx
      cases hu.symm.trans hu'

/-- A text begins as the JSON text does that it goes on from. -/
theorem Opens.exists_skipBlank_eq (hx : Opens t x) (ht : IsWellFormed t) {b : UInt8}
    (hs : skipBlank x = b :: u) : ∃ v, skipBlank t = b :: v := by
  obtain ⟨before, q, after, hbefore, -, rfl, hq⟩ := ht.padded_stands
  obtain ⟨gap, rest, hgap, -, rfl⟩ := hx
  rw [skipBlank_append hgap, List.append_assoc, List.append_assoc, skipBlank_append hbefore,
    hq.skipBlank_eq] at hs
  rw [skipBlank_append hbefore, hq.skipBlank_eq]
  cases q with
  | nil => exact absurd (hq.spans [] .nil).length_lt (by simp)
  | cons c q =>
    obtain ⟨rfl, -⟩ := List.cons.inj hs
    exact ⟨_, rfl⟩

/-- **A field without a place** holds its default. -/
theorem exists_isInPlace_or (hfields : ∀ f ∈ fields, Reads f.read) (hnames : (fields.map (·.name)).Nodup)
    (ht : IsWellFormed t) (hx : Opens t x) (h : Gives (readRecord record fields) x ds)
    (hk : fields[k]? = some field) (hd : ds[k]? = some d) :
    (∃ p, IsInPlace (fields.map (·.name)) field.name t p) ∨ field.fallback = some d := by
  obtain ⟨r, hr⟩ := h
  rcases (readRecord_eq_ok_iff hfields hnames).mp hr with ⟨u, ts, hu, hts, hfill⟩ | ⟨u, ms', hu, hms', hdata⟩
  · obtain ⟨v, hv⟩ := hx.exists_skipBlank_eq ht hu
    obtain ⟨ps, hps⟩ := ht.exists_encloses (show skipBlank t = Bracket.list.opening :: v from hv)
      fun _ => exists_element_of_isItem
    rcases given_of_fill? hfill hk hd with ⟨-, hfallback⟩ | ⟨y, hy, -⟩
    · exact .inr hfallback
    · obtain ⟨p, hp, -⟩ := exists_getElem? (IsList.opens_elements hps hx hu hts).flip hy
      have hkname : (fields.map (·.name))[k]? = some field.name := by rw [List.getElem?_map, hk]; rfl
      exact .inl ⟨p, .element hps hkname hp⟩
  · obtain ⟨v, hv⟩ := hx.exists_skipBlank_eq ht hu
    obtain ⟨ms, hms⟩ := ht.exists_encloses (show skipBlank t = Bracket.object.opening :: v from hv)
      fun _ => exists_member_of_isItem
    obtain ⟨o, rest, ho, hskip⟩ := hx.exists_object hms
    obtain ⟨hread, -⟩ := ho.reads_members (hskip.symm.trans hu) hms'
    cases hfilter : ms'.filter (·.1 == field.name) with
    | nil => exact .inr (Field.fallback_of_datum? (datum?_of_data? hdata hk hd) hfilter)
    | cons m' _ =>
      obtain ⟨hmem, hname⟩ := List.mem_filter.mp (hfilter ▸ List.mem_cons_self)
      obtain ⟨m, hm, hread⟩ := exists_counterpart hread.flip hmem
      have hread : m.IsRead m' := hread
      exact .inl ⟨m.value, .member hms hm (hread.isNamed_iff.mpr hname) rfl⟩

end Fields

/-! ### Strings that are stated -/

/-- A field holds a string, or none, where it is rendered. -/
structure Field.HoldsText (field : Field) (d : Datum) (s : Option String) : Prop where
  isRendering : ∀ p y, IsWellFormed p → Opens p y → Gives field.read y d → IsRendering (.ofOption .text s) p
  eq_none : field.fallback = some d → s = none

theorem Field.holdsText_text (name s : String) : (Field.text name).HoldsText (.text s) (some s) where
  isRendering p y hp hy h := by
    obtain ⟨r, hr⟩ := h
    obtain ⟨s', hs, hv⟩ := (text_read_eq_ok_iff 0).mp hr
    obtain rfl := Datum.text.inj hs
    exact isRendering_of_gives hp hy ⟨r, hv⟩
  eq_none h := by cases h

theorem Field.holdsText_optionalText (name expected : String) (d : Datum) :
    (Field.optionalText name expected).HoldsText d d.text? where
  isRendering p y hp hy h := by
    obtain ⟨r, hr⟩ := h
    rcases (optionalText_read_eq_ok_iff 0).mp hr with ⟨rfl, hv⟩ | ⟨s, rfl, hv⟩
    · exact isRendering_null_of_gives hp hy ⟨r, hv⟩
    · exact isRendering_of_gives hp hy ⟨r, hv⟩
  eq_none h := by
    obtain rfl := Option.some.inj h
    rfl

/-- A piece is read as it stands. -/
def verbatim (p : Bytes) : Bytes :=
  p

/-- **The text states the strings** in the places of their names, in a record with these names, where each
piece is read in the given way; a string that is there has a place. -/
structure StatesTexts (read : Bytes → Bytes) (names : List String) (t : Bytes)
    (es : List (String × Option String)) : Prop where
  isRendering : ∀ e ∈ es, ∀ p, IsInPlace names e.1 t p → IsRendering (.ofOption .text e.2) (read p)
  exists_place : ∀ e ∈ es, e.2 ≠ none → ∃ p, IsInPlace names e.1 t p

/-- **Where a record is read, its strings are stated.** -/
theorem statesTexts_of_gives {fields : List Field} {ds : List Datum} {record : String}
    {es : List (String × Option String)} (hfields : ∀ f ∈ fields, Reads f.read)
    (hnames : (fields.map (·.name)).Nodup) (ht : IsWellFormed t) (hx : Opens t x)
    (h : Gives (readRecord record fields) x ds)
    (hes : ∀ e ∈ es, ∃ (k : Nat) (field : Field) (d : Datum), fields[k]? = some field ∧ ds[k]? = some d ∧
      field.name = e.1 ∧ field.HoldsText d e.2) :
    StatesTexts verbatim (fields.map (·.name)) t es where
  isRendering e he p hp := by
    obtain ⟨k, field, d, hk, hd, hname, hholds⟩ := hes e he
    rw [← hname] at hp
    obtain ⟨y, hy, hgives⟩ := gives_of_isInPlace hfields hnames hx h hk hd hp
    exact hholds.isRendering p y hp.isWellFormed hy hgives
  exists_place e he hsome := by
    obtain ⟨k, field, d, hk, hd, hname, hholds⟩ := hes e he
    rcases exists_isInPlace_or hfields hnames ht hx h hk hd with hplace | hfallback
    · rwa [hname] at hplace
    · exact absurd (hholds.eq_none hfallback) hsome

end ReleasePublisher.Json

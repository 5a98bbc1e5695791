import ReleasePublisher.Proofs.Text.Utf8Reading
import ReleasePublisher.Url.Domain

/-!
# Domain names, read again

The ASCII form of a domain name consists of folded characters that may stand in one, so that reading it
again changes nothing: no character is folded any further, and a label with the marker of Punycode stays
as it is.

## Main definitions

* `Url.IsDomainChar c`: a folded ASCII character that may stand in a domain name

## Main results

* `Punycode.isDomainChar_encode`: the ASCII form of a label
* `Url.isDomainChar_of_domainToAscii?`: the ASCII form of a domain name
* `Url.domainToAscii?_encodeChars`: reading it again
-/

namespace ReleasePublisher

open Utf8

/-- Where a function is defined on all elements of a list. -/
theorem mapM_eq_some_iff {α β : Type} {f : α → Option β} {l : List α} {r : List β} :
    l.mapM f = some r ↔ l.map f = r.map some := by
  induction l generalizing r with
  | nil => cases r <;> simp
  | cons a l ih =>
    simp only [List.mapM_cons, Option.bind_eq_bind, Option.bind_eq_some_iff, Option.pure_def,
      Option.some.injEq]
    constructor
    · rintro ⟨b, hb, r', hr, rfl⟩
      rw [List.map_cons, List.map_cons, hb, ih.mp hr]
    · intro h
      cases r with
      | nil => cases h
      | cons b r =>
        obtain ⟨hb, hr⟩ := List.cons.inj h
        exact ⟨b, hb, r, ih.mpr hr, rfl⟩

theorem exists_of_mem_mapM {α β : Type} {f : α → Option β} {l : List α} {r : List β} {b : β}
    (h : l.mapM f = some r) (hb : b ∈ r) : ∃ a ∈ l, f a = some b := by
  have hsome : some b ∈ l.map f := by
    rw [mapM_eq_some_iff.mp h]
    exact List.mem_map_of_mem hb
  exact List.mem_map.mp hsome

theorem exists_mem_of_mapM {α β : Type} {f : α → Option β} {l : List α} {r : List β} {a : α}
    (h : l.mapM f = some r) (ha : a ∈ l) : ∃ b ∈ r, f a = some b := by
  have hsome : f a ∈ r.map some := by
    rw [← mapM_eq_some_iff.mp h]
    exact List.mem_map_of_mem ha
  obtain ⟨b, hb, heq⟩ := List.mem_map.mp hsome
  exact ⟨b, hb, heq.symm⟩

namespace Url

/-! ### Characters -/

/-- **A folded ASCII character** that may stand in a domain name. -/
def IsDomainChar (c : Char) : Prop :=
  c.toNat < 0x80 ∧ foldChar? c = some [c] ∧ isForbidden c = false

instance (c : Char) : Decidable (IsDomainChar c) :=
  inferInstanceAs (Decidable (_ ∧ _ ∧ _))

theorem foldChar?_of_lt {c : Char} (h : c.toNat < 0x80) : foldChar? c = some [smallLetter c] :=
  Utf8.forall_char (P := fun c => foldChar? c = some [smallLetter c]) (by decide +kernel) c h

theorem smallLetter_smallLetter_of_lt {c : Char} (h : c.toNat < 0x80) :
    smallLetter (smallLetter c) = smallLetter c :=
  Utf8.forall_char (P := fun c => smallLetter (smallLetter c) = smallLetter c)
    (by decide) c h

theorem le_toNat_ite {p : Bool} {a b : Char} (ha : p = true → 0x80 ≤ a.toNat)
    (hb : 0x80 ≤ b.toNat) : 0x80 ≤ (if p = true then a else b).toNat := by
  split
  · exact ha ‹_›
  · exact hb

/-- A letter outside ASCII has no small form in it. -/
theorem le_toNat_smallLetter {c : Char} (h : 0x80 ≤ c.toNat) : 0x80 ≤ (smallLetter c).toNat := by
  have hshift : ∀ k < 0x80, c.toNat < 0x2000 → 0x80 ≤ (Char.ofNat (c.toNat + k)).toNat := by
    intro k hk hc
    rw [toNat_char_ofNat (by omega)]
    omega
  unfold smallLetter
  -- Each range of letters with small forms lies below `0x2000`.
  refine le_toNat_ite (fun hp => hshift 32 (by decide) ?_) ?_
  · simp only [Bool.and_eq_true, decide_eq_true_eq] at hp
    omega
  refine le_toNat_ite (fun hp => hshift 32 (by decide) ?_) ?_
  · simp only [Bool.and_eq_true, decide_eq_true_eq] at hp
    omega
  refine le_toNat_ite (fun hp => le_toNat_ite (fun _ => hshift 1 (by decide) ?_) h) ?_
  · simp only [Bool.and_eq_true, Bool.or_eq_true, decide_eq_true_eq] at hp
    omega
  refine le_toNat_ite (fun hp => le_toNat_ite (fun _ => hshift 1 (by decide) ?_) h) ?_
  · simp only [Bool.and_eq_true, Bool.or_eq_true, decide_eq_true_eq] at hp
    omega
  refine le_toNat_ite (fun _ => by decide) (le_toNat_ite (fun _ => by decide) ?_)
  refine le_toNat_ite (fun hp => hshift 37 (by decide) ?_) ?_
  · simp only [Bool.and_eq_true, decide_eq_true_eq] at hp
    omega
  refine le_toNat_ite (fun _ => by decide) ?_
  refine le_toNat_ite (fun hp => hshift 63 (by decide) ?_) ?_
  · simp only [Bool.or_eq_true, beq_iff_eq] at hp
    omega
  refine le_toNat_ite (fun hp => hshift 32 (by decide) ?_) ?_
  · simp only [Bool.and_eq_true, decide_eq_true_eq] at hp
    omega
  refine le_toNat_ite (fun hp => hshift 80 (by decide) ?_) ?_
  · simp only [Bool.and_eq_true, decide_eq_true_eq] at hp
    omega
  refine le_toNat_ite (fun hp => hshift 32 (by decide) ?_) ?_
  · simp only [Bool.and_eq_true, decide_eq_true_eq] at hp
    omega
  refine le_toNat_ite (fun hp => hshift 48 (by decide) ?_) h
  simp only [Bool.and_eq_true, decide_eq_true_eq] at hp
  omega

/-- A small letter of ASCII is the small form of an ASCII letter. -/
theorem smallLetter_eq_self {c : Char} (h : (smallLetter c).toNat < 0x80) :
    smallLetter (smallLetter c) = smallLetter c := by
  by_cases hc : c.toNat < 0x80
  · exact smallLetter_smallLetter_of_lt hc
  · have hle := le_toNat_smallLetter (Nat.le_of_not_lt hc)
    omega

/-- **What a character becomes is folded**, as far as it is ASCII. -/
theorem foldChar?_folded {c o : Char} {outs : List Char} (h : foldChar? c = some outs) (ho : o ∈ outs)
    (hlt : o.toNat < 0x80) : smallLetter o = o := by
  have hite : ∀ {p : Bool} {x y : Option (List Char)}, (x = some outs → smallLetter o = o) →
      (y = some outs → smallLetter o = o) → (if p = true then x else y) = some outs →
      smallLetter o = o := by
    intro p x y hx hy
    cases p with
    | true => exact hx
    | false => exact hy
  have hsmall : ∀ d, some [smallLetter d] = some outs → smallLetter o = o := by
    rintro d ⟨⟩
    obtain rfl := List.mem_singleton.mp ho
    exact smallLetter_eq_self hlt
  have hlit : ∀ d, (0x80 ≤ d.toNat ∨ smallLetter d = d) → some [d] = some outs → smallLetter o = o := by
    rintro d hd ⟨⟩
    obtain rfl := List.mem_singleton.mp ho
    exact hd.resolve_left (Nat.not_le.mpr hlt)
  -- A character is dropped, becomes one that is given, or becomes its small form.
  refine hite ?_ ?_ h
  · rintro ⟨⟩
    cases ho
  refine hite (hlit '.' (by decide)) (hite (hsmall _) ?_)
  refine hite (hlit 'a' (by decide)) (hite (hlit 'o' (by decide)) ?_)
  refine hite (hlit '2' (by decide)) (hite (hlit '3' (by decide)) (hite (hlit '1' (by decide)) ?_))
  refine hite (hlit 'μ' (by decide)) (hite (hlit 's' (by decide)) (hite ?_ (hsmall _)))
  rintro ⟨⟩

theorem isDomainChar_of_foldChar? {c o : Char} {outs : List Char} (h : foldChar? c = some outs)
    (ho : o ∈ outs) (hlt : o.toNat < 0x80) (hf : isForbidden o = false) : IsDomainChar o := by
  refine ⟨hlt, ?_, hf⟩
  rw [foldChar?_of_lt hlt, foldChar?_folded h ho hlt]

end Url

/-! ### Labels in Punycode -/

namespace Punycode

open Url

theorem isDomainChar_digit : ∀ n < 36, IsDomainChar (digit n) := by decide

theorem threshold_bounds (k bias : Nat) : 1 ≤ threshold k bias ∧ threshold k bias ≤ 26 := by
  unfold threshold
  split <;> omega

/-- The step itself is fuel enough. -/
theorem isDomainChar_stepDigits {fuel q : Nat} (h : q ≤ fuel) (k bias : Nat) :
    ∀ c ∈ stepDigits fuel q k bias, IsDomainChar c := by
  induction fuel generalizing q k with
  | zero =>
    obtain rfl : q = 0 := Nat.le_zero.mp h
    simpa [stepDigits] using isDomainChar_digit 0 (by decide)
  | succ fuel ih =>
    -- A threshold of at least one makes the step smaller, one of at most 26 keeps digits below 36.
    obtain ⟨hpos, hmax⟩ := threshold_bounds k bias
    rw [stepDigits]
    split
    · simpa using isDomainChar_digit q (by omega)
    · have hmod : (q - threshold k bias) % (36 - threshold k bias) < 36 - threshold k bias :=
        Nat.mod_lt _ (by omega)
      have hdiv : (q - threshold k bias) / (36 - threshold k bias) ≤ q - threshold k bias :=
        Nat.div_le_self _ _
      exact List.forall_mem_cons.mpr ⟨isDomainChar_digit _ (by omega), ih (by omega) _⟩

theorem isDomainChar_writeChars (n basic : Nat) (label : List Char) {w : Writing}
    (h : ∀ c ∈ w.digits, IsDomainChar c) :
    ∀ c ∈ (writeChars n basic label w).digits, IsDomainChar c := by
  induction label generalizing w with
  | nil => exact h
  | cons d label ih =>
    rw [writeChars]
    split
    · exact ih h
    split
    · refine ih fun c hc => ?_
      rcases List.mem_append.mp hc with hc | hc
      · exact h c hc
      · exact isDomainChar_stepDigits (Nat.le_refl _) _ _ c hc
    · exact ih h

theorem isDomainChar_writeNumbers (label : List Char) (basic n : Nat) (ms : List Nat) {w : Writing}
    (h : ∀ c ∈ w.digits, IsDomainChar c) :
    ∀ c ∈ writeNumbers label basic n ms w, IsDomainChar c := by
  induction ms generalizing n w with
  | nil => exact h
  | cons m ms ih => exact ih _ (isDomainChar_writeChars _ _ _ h)

/-- **The ASCII form of a label** can stand in a domain name if its ASCII characters can. -/
theorem isDomainChar_encode {label : List Char} (h : ∀ c ∈ label, c.toNat < 0x80 → IsDomainChar c) :
    ∀ c ∈ encode label, IsDomainChar c := by
  refine isDomainChar_writeNumbers _ _ _ _ fun c hc => ?_
  have hplain : ∀ c ∈ label.filter (·.toNat < 0x80), IsDomainChar c := by
    intro c hc
    obtain ⟨hmem, hlt⟩ := List.mem_filter.mp hc
    exact h c hmem (of_decide_eq_true hlt)
  split at hc
  · cases hc
  · rcases List.mem_append.mp hc with hc | hc
    · exact hplain c hc
    · obtain rfl := List.mem_singleton.mp hc
      decide

theorem lt_of_decode? {cs ds : List Char} (h : decode? cs = some ds) : ∀ c ∈ cs, c.toNat < 0x80 := by
  unfold decode? at h
  dsimp only at h
  split at h
  · rename_i hall
    simpa using hall
  · cases h

end Punycode

namespace Url

/-! ### Labels -/

theorem splitDots_cons (c : Char) (cs : List Char) :
    splitDots (c :: cs) =
      if c == '.' then [] :: splitDots cs
      else match splitDots cs with
        | [] => [[c]]
        | label :: more => (c :: label) :: more := rfl

theorem splitDots_ne_nil (cs : List Char) : splitDots cs ≠ [] := by
  cases cs with
  | nil => exact List.cons_ne_nil _ _
  | cons c cs =>
    rw [splitDots_cons]
    split
    · simp
    · split <;> simp

theorem mem_of_mem_splitDots {cs label : List Char} (h : label ∈ splitDots cs) {c : Char}
    (hc : c ∈ label) : c ∈ cs := by
  induction cs generalizing label with
  | nil =>
    obtain rfl := List.mem_singleton.mp h
    exact hc
  | cons d cs ih =>
    rw [splitDots_cons] at h
    split at h
    · rcases List.mem_cons.mp h with rfl | h
      · cases hc
      · exact List.mem_cons_of_mem _ (ih h hc)
    · obtain ⟨first, more, hs⟩ := List.exists_cons_of_ne_nil (splitDots_ne_nil cs)
      rw [hs] at h ih
      rcases List.mem_cons.mp h with rfl | h
      · rcases List.mem_cons.mp hc with rfl | hc
        · exact List.mem_cons_self
        · exact List.mem_cons_of_mem _ (ih List.mem_cons_self hc)
      · exact List.mem_cons_of_mem _ (ih (List.mem_cons_of_mem _ h) hc)

/-- A domain name is its labels with dots between them. -/
theorem intercalate_splitDots (cs : List Char) : List.intercalate ['.'] (splitDots cs) = cs := by
  induction cs with
  | nil => rfl
  | cons c cs ih =>
    obtain ⟨first, more, hs⟩ := List.exists_cons_of_ne_nil (splitDots_ne_nil cs)
    rw [hs] at ih
    rw [splitDots_cons, hs]
    split
    · rename_i hc
      rw [eq_of_beq hc, ← ih]
      cases more <;> simp [List.intercalate, List.intersperse]
    · rw [← ih]
      cases more <;> simp [List.intercalate, List.intersperse]

theorem splitDots_of_not_mem {cs : List Char} (h : '.' ∉ cs) : splitDots cs = [cs] := by
  induction cs with
  | nil => rfl
  | cons c cs ih =>
    obtain ⟨hc, hcs⟩ := List.ne_and_not_mem_of_not_mem_cons h
    rw [splitDots_cons, if_neg (by simpa using hc.symm), ih hcs]

theorem splitDots_append (cs ds : List Char) :
    splitDots (cs ++ '.' :: ds) = splitDots cs ++ splitDots ds := by
  induction cs with
  | nil => rfl
  | cons c cs ih =>
    rw [List.cons_append, splitDots_cons, splitDots_cons, ih]
    split
    · rfl
    · obtain ⟨first, more, hs⟩ := List.exists_cons_of_ne_nil (splitDots_ne_nil cs)
      rw [hs]
      rfl

/-- Labels with dots between them are the labels. -/
theorem splitDots_intercalate {labels : List (List Char)} (hne : labels ≠ [])
    (h : ∀ label ∈ labels, '.' ∉ label) : splitDots (List.intercalate ['.'] labels) = labels := by
  induction labels with
  | nil => exact absurd rfl hne
  | cons label labels ih =>
    obtain ⟨hl, hls⟩ := List.forall_mem_cons.mp h
    cases labels with
    | nil => simpa [List.intercalate] using splitDots_of_not_mem hl
    | cons next more =>
      have hcons : List.intercalate ['.'] (label :: next :: more) =
          label ++ '.' :: List.intercalate ['.'] (next :: more) := by
        simp [List.intercalate, List.intersperse]
      rw [hcons, splitDots_append, splitDots_of_not_mem hl, ih (by simp) hls]
      rfl

theorem mem_intercalate_dots {labels : List (List Char)} {c : Char}
    (h : c ∈ List.intercalate ['.'] labels) : c = '.' ∨ ∃ label ∈ labels, c ∈ label := by
  induction labels with
  | nil => simp [List.intercalate] at h
  | cons label labels ih =>
    cases labels with
    | nil => exact .inr ⟨label, by simp, by simpa [List.intercalate] using h⟩
    | cons next more =>
      have h : c ∈ label ++ '.' :: List.intercalate ['.'] (next :: more) := by
        simpa [List.intercalate, List.intersperse] using h
      rcases List.mem_append.mp h with h | h
      · exact .inr ⟨label, by simp, h⟩
      · rcases List.mem_cons.mp h with h | h
        · exact .inl h
        · rcases ih h with h | ⟨l, hl, hc⟩
          · exact .inl h
          · exact .inr ⟨l, List.mem_cons_of_mem _ hl, hc⟩

theorem isDomainChar_of_mem_punycodeMark : ∀ c ∈ punycodeMark, IsDomainChar c := by
  have hall : punycodeMark.all (fun c => decide (IsDomainChar c)) = true := by decide
  intro c hc
  exact of_decide_eq_true (List.all_eq_true.mp hall c hc)

/-- **What a label becomes**: the label itself, if it is ASCII, else its form in Punycode. -/
theorem labelToAscii?_cases {label l : List Char} (h : labelToAscii? label = some l) :
    (l = label ∧ ∀ c ∈ label, c.toNat < 0x80) ∨
      (l = punycodeMark ++ Punycode.encode label ∧ ¬ ∀ c ∈ label, c.toNat < 0x80) := by
  unfold labelToAscii? at h
  split at h
  · rename_i hmark
    split at h
    · cases h
    · rename_i cs hcs
      split at h
      · cases h
        -- A label that is marked is ASCII: the mark, and behind it what Punycode was read from.
        refine .inl ⟨rfl, fun c hc => ?_⟩
        rw [← List.take_append_drop 4 label, eq_of_beq hmark] at hc
        rcases List.mem_append.mp hc with hc | hc
        · exact (isDomainChar_of_mem_punycodeMark c hc).1
        · exact Punycode.lt_of_decode? hcs c hc
      · cases h
  split at h
  · cases h
  split at h
  · rename_i hall
    cases h
    exact .inl ⟨rfl, by simpa using hall⟩
  · rename_i hall
    cases h
    exact .inr ⟨rfl, by simpa using hall⟩

theorem isDomainChar_of_labelToAscii? {label l : List Char} (h : labelToAscii? label = some l)
    (hf : ∀ c ∈ label, c.toNat < 0x80 → IsDomainChar c) : ∀ c ∈ l, IsDomainChar c := by
  rcases labelToAscii?_cases h with ⟨rfl, hlt⟩ | ⟨rfl, -⟩
  · intro c hc
    exact hf c hc (hlt c hc)
  · intro c hc
    rcases List.mem_append.mp hc with hc | hc
    · exact isDomainChar_of_mem_punycodeMark c hc
    · exact Punycode.isDomainChar_encode hf c hc

/-! ### Domain names -/

/-- How a domain name is brought to its ASCII form. -/
theorem domainToAscii?_eq_some_iff {bs : Bytes} {domain : List Char} :
    domainToAscii? bs = some domain ↔ ∃ cs outs labels, decodeChars? bs = some cs ∧
      cs.mapM foldChar? = some outs ∧ (∀ c ∈ outs.flatten, isForbidden c = false) ∧
      (splitDots outs.flatten).mapM labelToAscii? = some labels ∧
      domain = List.intercalate ['.'] labels := by
  have hany : ∀ l : List Char, l.any isForbidden = false ↔ ∀ c ∈ l, isForbidden c = false := by simp
  unfold domainToAscii?
  simp only [Option.bind_eq_bind, Option.bind_eq_some_iff]
  constructor
  · rintro ⟨cs, hcs, outs, houts, h⟩
    split at h
    · cases h
    · rename_i hf
      obtain ⟨labels, hl, hd⟩ := Option.bind_eq_some_iff.mp h
      exact ⟨cs, outs, labels, hcs, houts, (hany _).mp (by simpa using hf), hl,
        (Option.some.inj hd).symm⟩
  · rintro ⟨cs, outs, labels, hcs, houts, hf, hl, rfl⟩
    refine ⟨cs, hcs, outs, houts, ?_⟩
    rw [if_neg (by rw [(hany _).mpr hf]; decide)]
    exact Option.bind_eq_some_iff.mpr ⟨labels, hl, rfl⟩

/-- **The ASCII form of a domain name** has folded characters only that may stand in one. -/
theorem isDomainChar_of_domainToAscii? {bs : Bytes} {domain : List Char}
    (h : domainToAscii? bs = some domain) : ∀ c ∈ domain, IsDomainChar c := by
  obtain ⟨cs, outs, labels, -, houts, hf, hl, rfl⟩ := domainToAscii?_eq_some_iff.mp h
  have hfolded : ∀ c ∈ outs.flatten, c.toNat < 0x80 → IsDomainChar c := by
    intro c hc hlt
    obtain ⟨out, hout, hmem⟩ := List.mem_flatten.mp hc
    obtain ⟨d, -, hd⟩ := exists_of_mem_mapM houts hout
    exact isDomainChar_of_foldChar? hd hmem hlt (hf c hc)
  intro c hc
  rcases mem_intercalate_dots hc with rfl | ⟨l, hmem, hc⟩
  · decide
  · obtain ⟨label, hlabel, hd⟩ := exists_of_mem_mapM hl hmem
    exact isDomainChar_of_labelToAscii? hd
      (fun d hd => hfolded d (mem_of_mem_splitDots hlabel hd)) c hc

/-- **Reading an ASCII form again** changes nothing. -/
theorem domainToAscii?_encodeChars {cs domain : List Char} (h : ∀ c ∈ cs, IsDomainChar c)
    (hd : domainToAscii? (encodeChars cs) = some domain) : domain = cs := by
  obtain ⟨cs', outs, labels, hcs, houts, -, hl, rfl⟩ := domainToAscii?_eq_some_iff.mp hd
  obtain rfl : cs = cs' := Option.some.inj ((decodeChars?_encodeChars cs).symm.trans hcs)
  have hfold : cs.map foldChar? = (cs.map fun c => [c]).map some := by
    rw [List.map_map]
    exact List.map_congr_left fun c hc => (h c hc).2.1
  obtain rfl : outs = cs.map fun c => [c] :=
    Option.some.inj (houts.symm.trans (mapM_eq_some_iff.mpr hfold))
  have hflat : (cs.map fun c => [c]).flatten = cs := List.flatMap_singleton' cs
  rw [hflat] at hl
  -- Its labels are ASCII, and such a label has no form in Punycode.
  have hlabels : (splitDots cs).map some = labels.map some := by
    rw [← mapM_eq_some_iff.mp hl]
    refine List.map_congr_left fun label hlabel => ?_
    obtain ⟨l, -, hl⟩ := exists_mem_of_mapM hl hlabel
    rcases labelToAscii?_cases hl with ⟨rfl, -⟩ | ⟨-, hnot⟩
    · exact hl.symm
    · exact absurd (fun c hc => (h c (mem_of_mem_splitDots hlabel hc)).1) hnot
  rw [← (List.map_inj_right fun _ _ => Option.some.inj).mp hlabels, intercalate_splitDots]

end Url

end ReleasePublisher

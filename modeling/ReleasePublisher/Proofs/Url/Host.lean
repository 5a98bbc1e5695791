import ReleasePublisher.Proofs.Url.Encoding
import ReleasePublisher.Proofs.Url.NumberHosts
import ReleasePublisher.Url.Parser

/-!
# Hosts, read again

A host is kept in its canonical text. Where that text is read as a host again, it is the same host; and
in an address nothing of it is taken for what stands before or behind a host.

## Main definitions

* `Url.IsHostChar c`: a character that ends no authority and no user info
* `Url.IsHost host`: a host in its canonical text

## Main results

* `Url.parseHost_cases`: what a host is read as
* `Url.isHost_of_parseHost`: it is one in its canonical text
* `Url.parseHost_append_blanks`: blanks and control characters stand in no host
-/

namespace ReleasePublisher.Url

open Utf8

/-! ### Characters of hosts -/

/-- **A character that ends no authority** and no user info, and is not dropped anywhere. -/
def IsHostChar (c : Char) : Prop :=
  0x20 < c.toNat ∧ c.toNat < 0x80 ∧ c ∉ ['/', '\\', '?', '#', '@']

instance (c : Char) : Decidable (IsHostChar c) :=
  inferInstanceAs (Decidable (_ ∧ _ ∧ _))

/-- What may stand in a domain name begins no port, no brackets and no encoded byte. -/
theorem IsDomainChar.isHostChar {c : Char} (h : IsDomainChar c) :
    IsHostChar c ∧ c ∉ [':', '[', ']', '%'] := by
  refine forall_char (P := fun c => isForbidden c = false → IsHostChar c ∧ c ∉ [':', '[', ']', '%'])
    ?_ c h.1 h.2.2
  decide

theorem isHostChar_lowerDigit :
    ∀ k < 16, IsHostChar (Hex.lowerDigit k) ∧ Hex.lowerDigit k ∉ ['[', ']'] := by
  decide

/-! ### Where a host ends -/

theorem hostLength_append {b : Bool} {cs : List Char} (rest : List Char)
    (h : ∀ c ∈ cs, c ∉ ['[', ']'] ∧ (b = false → c ≠ ':')) :
    hostLength b (cs ++ rest) = cs.length + hostLength b rest := by
  induction cs with
  | nil => simp
  | cons c cs ih =>
    obtain ⟨⟨hbracket, hcolon⟩, hcs⟩ := List.forall_mem_cons.mp h
    simp only [List.mem_cons, List.not_mem_nil, or_false, not_or] at hbracket
    have hstop : (c == ':' && !b) = false := by
      cases b with
      | true => simp
      | false => simpa using hcolon rfl
    have hnext : (if c == '[' then true else if c == ']' then false else b) = b := by
      simp [hbracket.1, hbracket.2]
    rw [List.cons_append, hostLength, hstop, hnext, ih hcs, if_neg (by decide), List.length_cons]
    omega

/-- Between brackets a colon does not end a host. -/
theorem hostLength_brackets {inner : List Char} (rest : List Char) (h : ∀ c ∈ inner, c ∉ ['[', ']']) :
    hostLength false ('[' :: inner ++ [']'] ++ rest) =
      ('[' :: inner ++ [']']).length + hostLength false rest := by
  have hclose : hostLength true (']' :: rest) = hostLength false rest + 1 := by simp [hostLength]
  have hinner := hostLength_append (b := true) (']' :: rest) fun c hc => ⟨h c hc, by simp⟩
  rw [List.append_assoc, List.cons_append, hostLength, if_neg (by decide), if_pos (by decide),
    List.singleton_append, hinner, hclose]
  simp only [List.length_append, List.length_cons, List.length_nil]
  omega

/-- What stands behind a host. -/
def BeginsPort (rest : List Char) : Prop :=
  rest = [] ∨ ∃ digits, rest = ':' :: digits

theorem BeginsPort.hostLength_eq {rest : List Char} (h : BeginsPort rest) :
    hostLength false rest = 0 := by
  rcases h with rfl | ⟨digits, rfl⟩
  · rfl
  · simp [hostLength]

/-- **A host in its canonical text.** -/
structure IsHost (host : List Char) : Prop where
  ne_nil : host ≠ []
  isHostChar : ∀ c ∈ host, IsHostChar c
  /-- It is not taken for a port, nor a port for it. -/
  length_eq : ∀ rest, BeginsPort rest → hostLength false (host ++ rest) = host.length
  /-- It is not read as another host. -/
  reread : ∀ host', parseHost host = .ok host' → host' = host

/-! ### Domain names and four numbers -/

/-- The domain name that characters state is the one that they are. -/
theorem parseHost_of_isDomainChar {cs host : List Char} (h : ∀ c ∈ cs, IsDomainChar c)
    (hh : parseHost cs = .ok host) :
    (endsInNumber cs = false ∧ host = cs) ∨
      (endsInNumber cs = true ∧ (ipv4 cs).map ipv4Text = .ok host) := by
  have hpercent : '%' ∉ cs := fun hc => absurd (h _ hc).2.2 (by decide)
  unfold parseHost at hh
  split at hh
  · rename_i hhead
    obtain ⟨rest, rfl⟩ : ∃ rest, cs = '[' :: rest := by
      cases cs with
      | nil => cases hhead
      | cons c rest => exact ⟨rest, by rw [Option.some.inj (eq_of_beq hhead)]⟩
    exact absurd (h '[' List.mem_cons_self).2.2 (by decide)
  · rw [percentDecode_of_not_mem hpercent] at hh
    split at hh
    · cases hh
    · rename_i domain hd
      obtain rfl := domainToAscii?_encodeChars h hd
      split at hh
      · cases hh
      · split at hh
        · exact .inr ⟨‹_›, hh⟩
        · cases hh
          exact .inl ⟨eq_false_of_ne_true ‹_›, rfl⟩

theorem isDomainChar_ipv4Text (n : Nat) : ∀ c ∈ ipv4Text n, IsDomainChar c := by
  intro c hc
  rcases mem_intercalate_dots hc with rfl | ⟨label, hlabel, hc⟩
  · decide
  · obtain ⟨b, -, rfl⟩ := List.mem_map.mp hlabel
    exact (isDomainChar_of_isDigit (isDigit_of_mem_toDigits hc)).1

theorem isHost_of_isDomainChar {host : List Char} (hne : host ≠ []) (h : ∀ c ∈ host, IsDomainChar c)
    (hr : ∀ host', parseHost host = .ok host' → host' = host) : IsHost host where
  ne_nil := hne
  isHostChar c hc := (h c hc).isHostChar.1
  length_eq rest hrest := by
    rw [hostLength_append rest, hrest.hostLength_eq, Nat.add_zero]
    intro c hc
    have hnot := (h c hc).isHostChar.2
    simp only [List.mem_cons, List.not_mem_nil, or_false, not_or] at hnot ⊢
    exact ⟨⟨hnot.2.1, hnot.2.2.1⟩, fun _ => hnot.1⟩
  reread := hr

/-! ### Groups in brackets -/

theorem mem_shownGroups {gs : List Nat} {c : Char} (h : c ∈ shownGroups gs) :
    c = ':' ∨ ∃ k < 16, c = Hex.lowerDigit k := by
  induction gs with
  | nil => cases h
  | cons g gs ih =>
    cases gs with
    | nil =>
      rw [shownGroups_singleton] at h
      exact .inr (mem_ofNat h)
    | cons g' gs =>
      rw [shownGroups_cons] at h
      rcases List.mem_append.mp h with h | h
      · exact .inr (mem_ofNat h)
      · rcases List.mem_cons.mp h with rfl | h
        · exact .inl rfl
        · exact ih h

theorem ipv6Text_eq (gs : List Nat) : ∃ inner, ipv6Text gs = '[' :: inner ++ [']'] ∧
    ∀ c ∈ inner, c = ':' ∨ ∃ k < 16, c = Hex.lowerDigit k := by
  cases hz : longestZeros gs with
  | none => exact ⟨shownGroups gs, by simp only [ipv6Text, hz, shownGroups], fun c => mem_shownGroups⟩
  | some run =>
    refine ⟨shownGroups (gs.take run.1) ++ ':' :: ':' :: shownGroups (gs.drop (run.1 + run.2)),
      by simp only [ipv6Text, hz, shownGroups], fun c hc => ?_⟩
    simp only [List.mem_append, List.mem_cons] at hc
    rcases hc with hc | rfl | rfl | hc
    · exact mem_shownGroups hc
    · exact .inl rfl
    · exact .inl rfl
    · exact mem_shownGroups hc

theorem isHost_ipv6Text {gs : List Nat} (hlen : gs.length = 8) (hgs : AreGroups gs) :
    IsHost (ipv6Text gs) := by
  obtain ⟨inner, htext, hinner⟩ := ipv6Text_eq gs
  have hchars : ∀ c ∈ inner, IsHostChar c ∧ c ∉ ['[', ']'] := by
    intro c hc
    rcases hinner c hc with rfl | ⟨k, hk, rfl⟩
    · decide
    · exact isHostChar_lowerDigit k hk
  constructor
  · rw [htext]
    simp
  · rw [htext]
    intro c hc
    simp only [List.cons_append, List.mem_cons, List.mem_append, List.not_mem_nil, or_false] at hc
    rcases hc with rfl | hc | rfl
    · decide
    · exact (hchars c hc).1
    · decide
  · intro rest hrest
    rw [htext, hostLength_brackets rest fun c hc => (hchars c hc).2, hrest.hostLength_eq,
      Nat.add_zero]
  · intro host' h
    unfold parseHost at h
    rw [if_pos (by rw [htext]; rfl), bracketHost_ipv6Text hlen hgs] at h
    exact (Except.ok.inj h).symm

/-! ### Hosts -/

/-- **What a host is read as**: groups, four numbers, or a domain name that is no number. -/
theorem parseHost_cases {cs host : List Char} (h : parseHost cs = .ok host) :
    (∃ gs, gs.length = 8 ∧ AreGroups gs ∧ host = ipv6Text gs) ∨
      (∃ n < 4294967296, host = ipv4Text n) ∨
      (host ≠ [] ∧ (∀ c ∈ host, IsDomainChar c) ∧ endsInNumber host = false) := by
  unfold parseHost at h
  split at h
  · unfold bracketHost at h
    split at h
    · cases hg : ipv6 (cs.drop 1).dropLast with
      | error e => rw [hg] at h; cases h
      | ok gs =>
        rw [hg] at h
        cases h
        obtain ⟨hlen, hgs⟩ := ipv6_bounds hg
        exact .inl ⟨gs, hlen, hgs, rfl⟩
    · cases h
  · split at h
    · cases h
    · rename_i domain hd
      split at h
      · cases h
      · rename_i hne
        split at h
        · cases hn : ipv4 domain with
          | error e => rw [hn] at h; cases h
          | ok n =>
            rw [hn] at h
            cases h
            exact .inr (.inl ⟨n, ipv4_lt hn, rfl⟩)
        · cases h
          exact .inr (.inr ⟨by simpa using hne, isDomainChar_of_domainToAscii? hd,
            eq_false_of_ne_true ‹_›⟩)

/-- **A host is read as one in its canonical text.** -/
theorem isHost_of_parseHost {cs host : List Char} (h : parseHost cs = .ok host) : IsHost host := by
  -- Four numbers and a domain name are both read as a domain name first.
  rcases parseHost_cases h with ⟨gs, hlen, hgs, rfl⟩ | ⟨n, hn, rfl⟩ | ⟨hne, hchars, hnumber⟩
  · exact isHost_ipv6Text hlen hgs
  · refine isHost_of_isDomainChar ?_ (isDomainChar_ipv4Text n) fun host' hh => ?_
    · simp [ipv4Text, List.intercalate, Nat.toDigits_ne_nil]
    · rcases parseHost_of_isDomainChar (isDomainChar_ipv4Text n) hh with ⟨-, rfl⟩ | ⟨-, hh⟩
      · rfl
      · rw [ipv4_ipv4Text hn] at hh
        exact (Except.ok.inj hh).symm
  · refine isHost_of_isDomainChar hne hchars fun host' hh => ?_
    rcases parseHost_of_isDomainChar hchars hh with ⟨-, rfl⟩ | ⟨hn, -⟩
    · rfl
    · rw [hnumber] at hn
      cases hn

/-! ### Characters that stand in no host -/

/-- A blank or a control character is not encoded, is not folded, and may not stand in a domain name. -/
theorem blank_facts {c : Char} (h : c.toNat ≤ 0x20) :
    Hex.value? c = none ∧ c ≠ ']' ∧ c ≠ '[' ∧ c ≠ '%' ∧ foldChar? c = some [c] ∧
      isForbidden c = true :=
  forall_char (P := fun c => Hex.value? c = none ∧ c ≠ ']' ∧ c ≠ '[' ∧ c ≠ '%' ∧
    foldChar? c = some [c] ∧ isForbidden c = true) (by decide +kernel) c (Nat.lt_succ_of_le h)

theorem domainToAscii?_of_blank {bs : Bytes} {c : Char} (hc : c.toNat ≤ 0x20)
    (h : UInt8.ofNat c.toNat ∈ bs) : domainToAscii? bs = none := by
  cases hd : domainToAscii? bs with
  | none => rfl
  | some domain =>
    obtain ⟨cs, outs, labels, hcs, houts, hf, -⟩ := domainToAscii?_eq_some_iff.mp hd
    have hbyte : (UInt8.ofNat c.toNat).toNat = c.toNat := toNat_ofNat_of_lt (by omega)
    obtain ⟨d, hmem, hdc⟩ := mem_of_decodeChars? hcs h
      (UInt8.lt_iff_toNat_lt.mpr (by rw [hbyte]; show _ < 0x80; omega))
    obtain rfl : d = c := Char.toNat_inj.mp (hdc.trans hbyte)
    obtain ⟨out, hout, heq⟩ := exists_mem_of_mapM houts hmem
    obtain rfl := Option.some.inj ((blank_facts hc).2.2.2.2.1.symm.trans heq)
    have hnot := hf d (List.mem_flatten_of_mem hout List.mem_cons_self)
    rw [(blank_facts hc).2.2.2.2.2] at hnot
    cases hnot

/-- **Blanks and control characters stand in no host**: not behind one, either. -/
theorem parseHost_append_blanks {cs blanks host : List Char} (hne : blanks ≠ [])
    (h : ∀ c ∈ blanks, c.toNat ≤ 0x20) : parseHost (cs ++ blanks) ≠ .ok host := by
  intro hh
  unfold parseHost at hh
  split at hh
  · -- In brackets, the last blank would have to be the one that closes them.
    unfold bracketHost at hh
    split at hh
    · rename_i hlast
      obtain ⟨init, last, rfl⟩ := List.eq_nil_or_concat blanks |>.resolve_left hne
      rw [List.concat_eq_append, ← List.append_assoc, List.getLast?_concat] at hlast
      obtain rfl := Option.some.inj (eq_of_beq hlast)
      exact (blank_facts (h ']' (by simp))).2.1 rfl
    · cases hh
  · -- Elsewhere, the first blank stays a byte of its own, which no domain name has.
    obtain ⟨c, rest, rfl⟩ := List.exists_cons_of_ne_nil hne
    have hc := h c List.mem_cons_self
    obtain ⟨hvalue, -, -, hpercent, -⟩ := blank_facts hc
    have hchar : encodeChar c = [UInt8.ofNat c.toNat] := by
      unfold encodeChar
      rw [if_pos (by omega)]
    rw [percentDecode_append hvalue, percentDecode_cons_of_ne hpercent, hchar,
      domainToAscii?_of_blank hc (by simp)] at hh
    cases hh

end ReleasePublisher.Url

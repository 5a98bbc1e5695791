import ReleasePublisher.Toml.Scalar
import Mathlib.Data.List.TakeWhile

/-!
# Tokens of a text that is put together

A text that is put together from pieces is cut into tokens where the pieces meet, provided that none of them
goes on into the next: blanks end before what is no blank, a bare token before what ends it, a comment at the
end of its line.

## Main definitions

* `Toml.AreBlanks t`, `Toml.IsFlush rest`: spaces and tabs, and a text that begins with neither
* `Toml.Ends rest`: no name goes on in `rest`
* `Toml.IsToken kind p rest`: before `rest`, the piece `p` is one token
* `Toml.Cuts p rest`: before `rest`, the piece `p` is cut into tokens of its own

## Main results

* `Toml.IsToken.tokensFrom_eq`: a piece that is a token is the first token
* `Toml.skipBlanks_tokensFrom`: blanks are passed over
* `Toml.Cuts.append`: pieces are cut one after the other
-/

namespace ReleasePublisher.Toml

variable {c : Char} {p q b cs rest : List Char} {kind : TokenKind} {start : Nat}

/-- A space or a tab. -/
def isBlank (c : Char) : Bool :=
  c == ' ' || c == '\t'

/-- Spaces and tabs. -/
def AreBlanks (t : List Char) : Prop :=
  ∀ c ∈ t, isBlank c = true

/-- The text begins with no blank. -/
def IsFlush (rest : List Char) : Prop :=
  ∀ c ∈ rest.head?, isBlank c = false

/-- **No name goes on** in the text, and no string either. -/
def Ends (rest : List Char) : Prop :=
  ∀ c ∈ rest.head?, endsBare c = true

/-- **The piece is one token** where `rest` follows. -/
def IsToken (kind : TokenKind) (p rest : List Char) : Prop :=
  ∃ c cs, p = c :: cs ∧ tokenShape c (cs ++ rest) = (kind, cs.length)

/-- **The piece is cut** into tokens of its own where `rest` follows. -/
def Cuts (p rest : List Char) : Prop :=
  ∀ start, ∃ ts, tokensFrom start (p ++ rest) = ts ++ tokensFrom (start + p.length) rest ∧ (ts = [] → p = [])

theorem AreBlanks.nil : AreBlanks [] :=
  List.forall_mem_nil _

/-! ### Single tokens -/

theorem tokensFrom_cons (start : Nat) (c : Char) (rest : List Char) :
    tokensFrom start (c :: rest) =
      ⟨(tokenShape c rest).1, c :: rest.take (tokenShape c rest).2, start⟩ ::
        tokensFrom (start + 1 + (tokenShape c rest).2) (rest.drop (tokenShape c rest).2) := by
  rw [tokensFrom]

theorem tokensFrom_nil (start : Nat) : tokensFrom start [] = [⟨.endOfText, [], start⟩] := by
  rw [tokensFrom]

/-- **A piece that is a token is the first token**, and the tokens of what follows come behind it. -/
theorem IsToken.tokensFrom_eq (h : IsToken kind p rest) (start : Nat) :
    tokensFrom start (p ++ rest) = ⟨kind, p, start⟩ :: tokensFrom (start + p.length) rest := by
  obtain ⟨c, cs, rfl, hshape⟩ := h
  rw [List.cons_append, tokensFrom_cons, hshape, List.take_left, List.drop_left, List.length_cons,
    Nat.add_assoc, Nat.add_comm 1]

theorem IsToken.cuts (h : IsToken kind p rest) : Cuts p rest := fun start =>
  ⟨[⟨kind, p, start⟩], h.tokensFrom_eq start, nofun⟩

theorem Cuts.nil (rest : List Char) : Cuts [] rest := fun _ =>
  ⟨[], rfl, fun _ => rfl⟩

/-- **Pieces are cut one after the other.** -/
theorem Cuts.append (hp : Cuts p (q ++ rest)) (hq : Cuts q rest) : Cuts (p ++ q) rest := by
  intro start
  obtain ⟨ts, hts, hp'⟩ := hp start
  obtain ⟨us, hus, hq'⟩ := hq (start + p.length)
  refine ⟨ts ++ us, ?_, ?_⟩
  · rw [List.append_assoc, hts, hus, List.append_assoc, List.length_append, Nat.add_assoc]
  · intro h
    obtain ⟨hts, hus⟩ := List.append_eq_nil_iff.mp h
    rw [hp' hts, hq' hus]
    rfl

theorem Cuts.cons (h : IsToken kind [c] (p ++ rest)) (hp : Cuts p rest) : Cuts (c :: p) rest :=
  h.cuts.append hp

theorem Cuts.length_le (h : Cuts p rest) (start : Nat) :
    (tokensFrom (start + p.length) rest).length ≤ (tokensFrom start (p ++ rest)).length := by
  obtain ⟨ts, hts, -⟩ := h start
  rw [hts, List.length_append]
  omega

/-- A piece that is not empty leaves fewer tokens behind it. -/
theorem Cuts.length_lt (h : Cuts p rest) (hp : p ≠ []) (start : Nat) :
    (tokensFrom (start + p.length) rest).length < (tokensFrom start (p ++ rest)).length := by
  obtain ⟨ts, hts, hnil⟩ := h start
  have hpos : 0 < ts.length := List.length_pos_iff.mpr fun h => hp (hnil h)
  rw [hts, List.length_append]
  omega

theorem length_tokensFrom_pos (start : Nat) (cs : List Char) : 0 < (tokensFrom start cs).length := by
  cases cs with
  | nil => simp [tokensFrom_nil]
  | cons c cs => simp [tokensFrom_cons]

/-! ### Kinds of token -/

/-- The characters of blanks are taken as far as they go. -/
theorem length_takeWhile_append {f : Char → Bool} (hcs : ∀ c ∈ cs, f c = true)
    (hrest : ∀ c ∈ rest.head?, f c = false) : ((cs ++ rest).takeWhile f).length = cs.length := by
  rw [List.takeWhile_append_of_pos hcs]
  cases rest with
  | nil => simp
  | cons d rest => simp [List.takeWhile_cons_of_neg, hrest d rfl]

theorem isToken_blanks (hne : b ≠ []) (hb : AreBlanks b) (hrest : IsFlush rest) : IsToken .blank b rest := by
  obtain ⟨c, cs, rfl⟩ := List.exists_cons_of_ne_nil hne
  obtain ⟨hc, hcs⟩ := List.forall_mem_cons.mp hb
  refine ⟨c, cs, rfl, ?_⟩
  have hlength := length_takeWhile_append hcs hrest
  obtain rfl | rfl : c = ' ' ∨ c = '\t' := by simpa [isBlank] using hc
  · exact Prod.ext rfl hlength
  · exact Prod.ext rfl hlength

/-- Only blanks are a token of blanks. -/
theorem isBlank_of_tokenShape (h : (tokenShape c rest).1 = .blank) : isBlank c = true := by
  unfold tokenShape at h
  extract_lets run at h
  split at h
  case h_8 => rfl
  case h_9 => rfl
  all_goals try split at h
  all_goals cases h

@[simp] theorem nextToken_cons (t : Token) (ts : List Token) : nextToken (t :: ts) = t := rfl

theorem kind_nextToken_cons (start : Nat) (c : Char) (rest : List Char) :
    (nextToken (tokensFrom start (c :: rest))).kind = (tokenShape c rest).1 := by
  rw [tokensFrom_cons]
  rfl

theorem kind_nextToken_nil (start : Nat) : (nextToken (tokensFrom start [])).kind = .endOfText := by
  rw [tokensFrom_nil]
  rfl

theorem kind_nextToken_ne_blank (h : IsFlush rest) (start : Nat) :
    (nextToken (tokensFrom start rest)).kind ≠ .blank := by
  intro hkind
  cases rest with
  | nil =>
    rw [kind_nextToken_nil] at hkind
    cases hkind
  | cons c rest =>
    rw [kind_nextToken_cons] at hkind
    exact absurd (isBlank_of_tokenShape hkind) (by simp [h c rfl])

/-- Nothing is passed over where no blank stands first. -/
theorem skipBlanks_of_isFlush (h : IsFlush rest) (start : Nat) :
    skipBlanks (tokensFrom start rest) = tokensFrom start rest := by
  have hkind := kind_nextToken_ne_blank h start
  obtain ⟨t, ts, hts⟩ := List.exists_cons_of_length_pos (length_tokensFrom_pos start rest)
  rw [hts] at hkind ⊢
  exact List.dropWhile_cons_of_neg (by simpa [nextToken] using hkind)

/-- **Blanks are passed over.** -/
theorem skipBlanks_tokensFrom (hb : AreBlanks b) (hrest : IsFlush rest) (start : Nat) :
    skipBlanks (tokensFrom start (b ++ rest)) = tokensFrom (start + b.length) rest := by
  by_cases hne : b = []
  · subst hne
    exact skipBlanks_of_isFlush hrest start
  · rw [(isToken_blanks hne hb hrest).tokensFrom_eq, skipBlanks, List.dropWhile_cons_of_pos (by rfl)]
    exact skipBlanks_of_isFlush hrest _

theorem cuts_blanks (hb : AreBlanks b) (hrest : IsFlush rest) : Cuts b rest := by
  by_cases hne : b = []
  · subst hne
    exact .nil rest
  · exact (isToken_blanks hne hb hrest).cuts

/-- A token of one character takes nothing of what follows. -/
theorem isToken_single (h : ∀ rest, tokenShape c rest = (kind, 0)) (rest : List Char) :
    IsToken kind [c] rest :=
  ⟨c, [], rfl, h rest⟩

theorem isToken_dot (rest : List Char) : IsToken .dot ['.'] rest :=
  isToken_single (fun _ => rfl) rest

theorem isToken_equals (rest : List Char) : IsToken .equals ['='] rest :=
  isToken_single (fun _ => rfl) rest

theorem isToken_comma (rest : List Char) : IsToken .comma [','] rest :=
  isToken_single (fun _ => rfl) rest

theorem isToken_openBracket (rest : List Char) : IsToken .openBracket ['['] rest :=
  isToken_single (fun _ => rfl) rest

theorem isToken_closeBracket (rest : List Char) : IsToken .closeBracket [']'] rest :=
  isToken_single (fun _ => rfl) rest

theorem isToken_openBrace (rest : List Char) : IsToken .openBrace ['{'] rest :=
  isToken_single (fun _ => rfl) rest

theorem isToken_closeBrace (rest : List Char) : IsToken .closeBrace ['}'] rest :=
  isToken_single (fun _ => rfl) rest

/-- A character of a name without quotes has no meaning of its own. -/
theorem tokenShape_of_isBareChar (h : isBareChar c = true) (rest : List Char) :
    tokenShape c rest = (.bare, (rest.takeWhile fun c => !endsBare c).length) := by
  unfold tokenShape
  split
  case h_15 => rfl
  all_goals exact absurd h (by decide)

theorem endsBare_of_isBareChar (h : isBareChar c = true) : endsBare c = false := by
  have hnone : ['.', '=', ',', '[', ']', '{', '}', ' ', '\t', '#', '\r', '\n'].all (!isBareChar ·) = true := by
    decide
  by_contra hends
  have hmem : c ∈ ['.', '=', ',', '[', ']', '{', '}', ' ', '\t', '#', '\r', '\n'] := by
    simpa [endsBare, or_assoc] using eq_true_of_ne_false hends
  simpa [h] using List.all_eq_true.mp hnone c hmem

/-- **A name without quotes is one token.** -/
theorem isToken_bare (hne : p ≠ []) (hp : ∀ c ∈ p, isBareChar c = true) (hrest : Ends rest) :
    IsToken .bare p rest := by
  obtain ⟨c, cs, rfl⟩ := List.exists_cons_of_ne_nil hne
  obtain ⟨hc, hcs⟩ := List.forall_mem_cons.mp hp
  refine ⟨c, cs, rfl, ?_⟩
  rw [tokenShape_of_isBareChar hc, length_takeWhile_append]
  · intro d hd
    simp [endsBare_of_isBareChar (hcs d hd)]
  · intro d hd
    simp [hrest d hd]

end ReleasePublisher.Toml

import ReleasePublisher.Proofs.Json.Grammar
import ReleasePublisher.Proofs.Toml.Assignments
import ReleasePublisher.Toml.Document

/-!
# Values that begin no string

Only what stands between quotes is read as a string. A value that begins with anything else is read as something
else, however it goes on: a number, a boolean, a date, an array or a table.

## Main definitions

* `Toml.RawValue.IsQuoted`: the value is a token between quotes
* `Toml.BeginsNoString rest`: the text begins no string

## Main results

* `Toml.exists_array`, `Toml.exists_inline`: what is grouped behind an opening bracket and an opening brace
* `Toml.not_isQuoted_of_rawValue`: a text that begins no string is grouped to no token between quotes
* `Toml.ne_text_of_readValue`: what is not between quotes is not read as a string
-/

namespace ReleasePublisher.Toml

open Json (bind_eq_ok map_eq_ok)

variable {names : List String} {name s : String} {b p u x gap after rest : List Char} {c : Char}
  {start opening depth fuel : Nat} {t : Token} {ts us : List Token} {v : RawValue} {inside wanted : Bool}
  {comma : Option Token} {entries : List (List Token × RawValue)} {es : List (String × String)}

/-! ### What is no string -/

/-- The token stands between quotes. -/
def TokenKind.isQuoted (kind : TokenKind) : Bool :=
  kind == .basic || kind == .literal || kind == .longBasic || kind == .longLiteral

/-- The value is a token between quotes. -/
def RawValue.IsQuoted : RawValue → Prop
  | .scalar t => t.kind.isQuoted = true
  | _ => False

/-- **The text begins no string**, and no blank either. -/
def BeginsNoString (rest : List Char) : Prop :=
  ∀ c ∈ rest.head?, isBlank c = false ∧ c ≠ '"' ∧ c ≠ '\''

theorem BeginsNoString.isFlush (h : BeginsNoString rest) : IsFlush rest := fun c hc => (h c hc).1

theorem quote_of_tokenShape (h : (tokenShape c rest).1.isQuoted = true) : c = '"' ∨ c = '\'' := by
  unfold tokenShape at h
  extract_lets run at h
  split at h
  case h_13 => exact .inr rfl
  case h_14 => exact .inl rfl
  all_goals cases h

theorem BeginsNoString.isQuoted_nextToken (h : BeginsNoString rest) (start : Nat) :
    (nextToken (tokensFrom start rest)).kind.isQuoted = false := by
  cases rest with
  | nil =>
    rw [kind_nextToken_nil]
    rfl
  | cons c rest =>
    rw [kind_nextToken_cons]
    obtain ⟨-, hquote, happos⟩ := h c rfl
    by_contra hquoted
    rcases quote_of_tokenShape (eq_true_of_ne_false hquoted) with rfl | rfl
    · exact hquote rfl
    · exact happos rfl

/-- Names and dots are grouped to a token without quotes. -/
theorem isQuoted_bareScalar (h : t.kind.isQuoted = false) (ts : List Token) :
    (bareScalar t ts).1.kind.isQuoted = false := by
  fun_induction bareScalar t ts with
  | case1 => exact h
  | case2 _ _ _ _ ih => exact ih rfl
  | case3 => exact h
  | case4 _ _ _ _ _ _ _ ih => exact ih rfl
  | case5 => exact h
  | case6 => exact h

/-- The items of an array are grouped to an array. -/
theorem exists_array {items : List RawValue}
    (h : arrayItems fuel depth opening wanted items ts = .ok (v, us)) :
    ∃ stop items, v = .array opening stop items := by
  induction fuel generalizing wanted items ts with
  | zero =>
    rw [arrayItems] at h
    cases h
  | succ fuel ih =>
    rw [arrayItems] at h
    split at h
    · exact ih h
    · obtain ⟨_, -, h⟩ := bind_eq_ok.mp h
      exact ih h
    · obtain ⟨_, -, h⟩ := bind_eq_ok.mp h
      exact ih h
    · cases h
    · obtain ⟨rfl, -⟩ := Prod.mk.inj (Except.ok.inj h)
      exact ⟨_, _, rfl⟩
    · split at h
      · cases h
      · exact ih h
    · cases h
    · cases h
    · split at h
      · cases h
      · obtain ⟨_, -, h⟩ := bind_eq_ok.mp h
        exact ih h

/-- **The entries of an inline table are added** to those that were grouped before. -/
theorem exists_inline (h : inlineEntries fuel depth opening wanted comma entries ts = .ok (v, us)) :
    ∃ stop more, v = .inline opening stop (entries.reverse ++ more) := by
  induction fuel generalizing wanted comma entries ts with
  | zero =>
    rw [inlineEntries] at h
    cases h
  | succ fuel ih =>
    rw [inlineEntries.eq_def] at h
    dsimp only at h
    split at h
    · exact ih h
    · cases h
    · cases h
    · cases h
    · split at h
      · cases h
      · obtain ⟨rfl, -⟩ := Prod.mk.inj (Except.ok.inj h)
        exact ⟨_, [], by rw [List.append_nil]⟩
    · split at h
      · cases h
      · exact ih h
    · split at h
      · cases h
      · cases h
    · split at h
      · cases h
      · cases h
    · split at h
      · cases h
      · cases h
    · split at h
      · cases h
      · split at h
        · obtain ⟨_, -, h⟩ := bind_eq_ok.mp h
          obtain ⟨stop, more, rfl⟩ := ih h
          exact ⟨stop, _ :: more, by rw [List.reverse_cons, List.append_assoc]; rfl⟩
        all_goals cases h

/-- **What begins no string is grouped to no string.** -/
theorem not_isQuoted_of_rawValue (h : rawValue fuel depth inside ts = .ok (v, us))
    (hts : (nextToken ts).kind.isQuoted = false) : ¬ v.IsQuoted := by
  cases fuel with
  | zero =>
    rw [rawValue] at h
    cases h
  | succ fuel =>
    rw [rawValue.eq_def] at h
    dsimp only at h
    split at h
    case h_1 | h_2 | h_3 | h_4 =>
      obtain ⟨rfl, -⟩ := Prod.mk.inj (Except.ok.inj h)
      exact Bool.false_ne_true
    case h_5 | h_9 => cases h
    case h_6 =>
      split at h
      · obtain ⟨stop, more, rfl⟩ := exists_inline h
        exact id
      · cases h
    case h_7 =>
      split at h
      · obtain ⟨rfl, -⟩ := Prod.mk.inj (Except.ok.inj h)
        exact Bool.false_ne_true
      · cases h
    case h_8 =>
      split at h
      · obtain ⟨stop, items, rfl⟩ := exists_array h
        exact id
      · cases h
    case h_10 | h_11 | h_12 | h_13 =>
      rename_i hkind
      rw [hkind] at hts
      cases hts
    case h_14 | h_15 | h_16 =>
      obtain ⟨rfl, -⟩ := Prod.mk.inj (Except.ok.inj h)
      have hbare := isQuoted_bareScalar hts (ts.drop 1)
      simpa [RawValue.IsQuoted] using hbare

theorem readBare_ne_text (t : Token) (s : String) : readBare t ≠ .ok (.text s) := by
  unfold readBare
  extract_lets cs wrong
  intro h
  split at h
  · cases h
  split at h
  · cases h
  split at h
  · cases h
  split at h
  · cases h
  split at h
  · split at h
    · cases h
    split at h
    · cases h
    · cases h
    split at h
    · cases h
    · cases h
  · cases h

/-- **A value that is no string is read as none.** -/
theorem ne_text_of_readValue {node : Node} (hv : ¬ v.IsQuoted) (h : readValue v = .ok node) (s : String)
    (span : Span) : node ≠ .scalar (.text s) span := by
  rintro rfl
  cases v with
  | scalar t =>
    rw [readValue] at h
    obtain ⟨x, hx, hscalar⟩ := map_eq_ok.mp h
    obtain ⟨rfl, -⟩ := Node.scalar.inj hscalar
    unfold readScalar at hx
    split at hx
    case h_5 => exact readBare_ne_text t s hx
    all_goals
      rename_i hkind
      exact hv (by rw [RawValue.IsQuoted, hkind]; rfl)
  | array start stop items =>
    rw [readValue] at h
    obtain ⟨nodes, -, hnode⟩ := map_eq_ok.mp h
    cases hnode
  | inline start stop entries =>
    rw [readValue] at h
    obtain ⟨inner, -, hnode⟩ := map_eq_ok.mp h
    cases hnode

end ReleasePublisher.Toml

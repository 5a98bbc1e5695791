/-!
# Tokens of a TOML text

The text is cut into tokens without looking at what they mean: an unfinished string ends at the end
of its line or of the text, and any run of other characters is a bare token. The tokens of a text
lie end to end.

## Main definitions

* `Toml.Token`: a token, with its characters and its place
* `Toml.tokens text`: the tokens of a text
-/

namespace ReleasePublisher.Toml

/-- The kinds of token. -/
inductive TokenKind where
  | dot
  | equals
  | comma
  | openBracket
  | closeBracket
  | openBrace
  | closeBrace
  | blank
  | comment
  | newline
  /-- A string between single quotes. -/
  | literal
  /-- A string between double quotes. -/
  | basic
  /-- A string between three single quotes. -/
  | longLiteral
  /-- A string between three double quotes. -/
  | longBasic
  | bare
  | endOfText
  deriving DecidableEq, Repr

/-- A token: its characters, and the place of the first one. -/
structure Token where
  kind : TokenKind
  chars : List Char
  start : Nat
  deriving DecidableEq, Repr

/-- The place behind a token. -/
def Token.stop (t : Token) : Nat :=
  t.start + t.chars.length

/-- The characters that end a bare token. -/
def endsBare (c : Char) : Bool :=
  c == '.' || c == '=' || c == ',' || c == '[' || c == ']' || c == '{' || c == '}' || c == ' ' ||
    c == '\t' || c == '#' || c == '\r' || c == '\n'

/-- How many characters belong to a string, from behind its opening single quote. -/
def literalLength : List Char → Nat
  | [] => 0
  | c :: rest => if c == '\'' then 1 else if c == '\n' then 0 else literalLength rest + 1

/-- How many characters belong to a string, from behind its opening double quote. A backslash takes
a quote or backslash behind it along. -/
def basicLength : List Char → Nat
  | [] => 0
  | '\\' :: '\\' :: rest => basicLength rest + 2
  | '\\' :: '"' :: rest => basicLength rest + 2
  | c :: rest => if c == '"' then 1 else if c == '\n' then 0 else basicLength rest + 1

/-- How many of the next two characters are the quote `q`, counted up to the first that is not. -/
def extraQuotes (q : Char) (cs : List Char) : Nat :=
  ((cs.take 2).takeWhile (· == q)).length

/-- How many characters belong to a string, from behind its three opening single quotes. The last
three of up to five quotes close it. -/
def longLiteralLength : List Char → Nat
  | [] => 0
  | '\'' :: '\'' :: '\'' :: rest => 3 + extraQuotes '\'' rest
  | _ :: rest => longLiteralLength rest + 1

/-- How many characters belong to a string, from behind its three opening double quotes. -/
def longBasicLength : List Char → Nat
  | [] => 0
  | '"' :: '"' :: '"' :: rest => 3 + extraQuotes '"' rest
  | '\\' :: '\\' :: rest => longBasicLength rest + 2
  | '\\' :: '"' :: rest => longBasicLength rest + 2
  | _ :: rest => longBasicLength rest + 1

/-- The kind of the token that starts with the character `c`, and how many characters of `rest`
belong to it. -/
def tokenShape (c : Char) (rest : List Char) : TokenKind × Nat :=
  let run (p : Char → Bool) : Nat := (rest.takeWhile p).length
  match c with
  | '.' => (.dot, 0)
  | '=' => (.equals, 0)
  | ',' => (.comma, 0)
  | '[' => (.openBracket, 0)
  | ']' => (.closeBracket, 0)
  | '{' => (.openBrace, 0)
  | '}' => (.closeBrace, 0)
  | ' ' | '\t' => (.blank, run fun c => c == ' ' || c == '\t')
  | '#' => (.comment, run fun c => c != '\r' && c != '\n')
  | '\n' => (.newline, 0)
  | '\r' => (.newline, if rest.head? == some '\n' then 1 else 0)
  | '\'' =>
    -- Three quotes open a string of several lines, even where two of them would close one.
    if rest.take 2 == ['\'', '\''] then (.longLiteral, 2 + longLiteralLength (rest.drop 2))
    else (.literal, literalLength rest)
  | '"' =>
    if rest.take 2 == ['"', '"'] then (.longBasic, 2 + longBasicLength (rest.drop 2))
    else (.basic, basicLength rest)
  | _ => (.bare, run fun c => !endsBare c)

/-- The tokens of characters that stand at `start`. -/
def tokensFrom (start : Nat) : List Char → List Token
  | [] => [⟨.endOfText, [], start⟩]
  | c :: rest =>
    let (kind, n) := tokenShape c rest
    ⟨kind, c :: rest.take n, start⟩ :: tokensFrom (start + 1 + n) (rest.drop n)
termination_by cs => cs.length
decreasing_by (simp only [List.length_drop, List.length_cons]; omega)

/-- The tokens of a text. A byte order mark at its start is passed over. -/
def tokens : List Char → List Token
  | '\uFEFF' :: rest => tokensFrom 1 rest
  | cs => tokensFrom 0 cs

end ReleasePublisher.Toml

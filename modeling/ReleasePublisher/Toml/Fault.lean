import ReleasePublisher.Text.Utf8

/-!
# Why a TOML text is refused

A fault has a description and a span of characters. Its report shows the line in which the span
starts and marks the span below it.

## Main definitions

* `Toml.Fault`: a description and a span
* `Toml.position text i`: line and column of the character at `i`, from zero
* `Toml.Fault.report text f`: the report of a fault in `text`
-/

namespace ReleasePublisher.Toml

/-- A description, and the span of characters from `start` up to, not including, `stop`. -/
structure Fault where
  description : String
  start : Nat
  stop : Nat
  deriving DecidableEq, Repr

/-- The size of characters in bytes. -/
def byteSize (cs : List Char) : Nat :=
  (Utf8.encodeChars cs).length

/-- The characters of the line that ends where `cs` ends. -/
def lastLine (cs : List Char) : List Char :=
  (cs.reverse.takeWhile (· != '\n')).reverse

/-- Line and column of the character at `i`, from zero. Columns count characters; the column of a
character that has more than one byte counts the bytes before it. The end of the text counts as the
place behind its last character. -/
def position (text : List Char) (i : Nat) : Nat × Nat :=
  let lines (cs : List Char) : Nat := cs.count '\n'
  match text[i]? with
  | some c =>
    let before := text.take i
    let line := lastLine before
    (lines before, if c.toNat < 0x80 then line.length else byteSize line)
  | none =>
    let before := text.dropLast
    if text.isEmpty then (0, i) else (lines before, (lastLine before).length + 1)

/-- The report of a fault: its place, the line with a mark below it, and the description. -/
def Fault.report (text : List Char) (f : Fault) : String :=
  let (line, column) := position text f.start
  let number := toString (line + 1)
  let content := ((String.ofList text).splitOn "\n").getD line ""
  let width := byteSize ((text.drop f.start).take (f.stop - f.start))
  -- At least one mark, and none behind the end of the line.
  let marks := max 1 (min width (content.utf8ByteSize - column))
  let gutter := String.ofList (List.replicate (number.length + 1) ' ')
  "TOML parse error at line " ++ number ++ ", column " ++ toString (column + 1) ++ "\n" ++
    gutter ++ "|\n" ++
    number ++ " | " ++ content ++ "\n" ++
    gutter ++ "|" ++ String.ofList (List.replicate (column + 1) ' ' ++ List.replicate marks '^') ++
    "\n" ++ f.description ++ "\n"

end ReleasePublisher.Toml

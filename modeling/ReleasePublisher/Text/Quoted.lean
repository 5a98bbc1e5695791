import ReleasePublisher.Text.Hex
import ReleasePublisher.Text.Shown

/-!
# Quoted text

A text is quoted with double quotes. Inside them a quote, a backslash and the common controls have
a short escape, and a character that would not be seen is written by its number.

## Main definitions

* `escapeChar c`: a character as it stands inside the quotes
* `quoted s`: the quoted text
-/

namespace ReleasePublisher.Text

/-- A character by its number, in braces. -/
def numberEscape (c : Char) : List Char :=
  ['\\', 'u', '{'] ++ Hex.ofNat c.toNat ++ ['}']

/-- A character as it stands inside the quotes. -/
def escapeChar (c : Char) : List Char :=
  if c == '\x00' then ['\\', '0']
  else if c == '\t' then ['\\', 't']
  else if c == '\r' then ['\\', 'r']
  else if c == '\n' then ['\\', 'n']
  else if c == '"' || c == '\\' then ['\\', c]
  else if isShown c then [c]
  else numberEscape c

/-- The quoted text. -/
def quoted (s : String) : String :=
  String.ofList ('"' :: s.toList.flatMap escapeChar ++ ['"'])

end ReleasePublisher.Text

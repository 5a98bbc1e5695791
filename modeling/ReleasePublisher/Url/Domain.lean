import ReleasePublisher.Url.Percent
import ReleasePublisher.Url.Punycode

/-!
# Domain names

A domain name is brought to one ASCII form: letters become small, characters that only look
different are folded, and labels with other characters are written in Punycode. Some characters may
not stand in a domain name at all.

The folding covers the letters of the Latin, Greek, Cyrillic and Armenian scripts, the wide forms of
ASCII, the other full stops, and characters that are ignored.

## Main definitions

* `Url.foldChar? c`: what a character becomes
* `Url.domainToAscii? bs`: the ASCII form of a domain name
-/

namespace ReleasePublisher.Url

/-- The small form of a letter. -/
def smallLetter (c : Char) : Char :=
  let n := c.toNat
  let shifted (k : Nat) : Char := Char.ofNat (n + k)
  if 0x41 ≤ n && n ≤ 0x5A then shifted 32
  else if 0xC0 ≤ n && n ≤ 0xDE && n != 0xD7 then shifted 32
  else if (0x100 ≤ n && n ≤ 0x12F) || (0x132 ≤ n && n ≤ 0x137) || (0x14A ≤ n && n ≤ 0x177) ||
      (0x1E00 ≤ n && n ≤ 0x1E95) || (0x1EA0 ≤ n && n ≤ 0x1EFF) || (0x460 ≤ n && n ≤ 0x481) ||
      (0x48A ≤ n && n ≤ 0x4BF) || (0x4D0 ≤ n && n ≤ 0x52F) || (0x218 ≤ n && n ≤ 0x21F) then
    if n % 2 == 0 then shifted 1 else c
  else if (0x139 ≤ n && n ≤ 0x148) || (0x179 ≤ n && n ≤ 0x17E) || (0x4C1 ≤ n && n ≤ 0x4CE) then
    if n % 2 == 1 then shifted 1 else c
  else if n == 0x178 then 'ÿ'
  else if n == 0x386 then 'ά'
  else if 0x388 ≤ n && n ≤ 0x38A then shifted 37
  else if n == 0x38C then 'ό'
  else if n == 0x38E || n == 0x38F then shifted 63
  else if 0x391 ≤ n && n ≤ 0x3AB && n != 0x3A2 then shifted 32
  else if 0x400 ≤ n && n ≤ 0x40F then shifted 80
  else if 0x410 ≤ n && n ≤ 0x42F then shifted 32
  else if 0x531 ≤ n && n ≤ 0x556 then shifted 48
  else c

/-- A character that leaves no trace: soft hyphens, joining marks of width zero, and selectors of
variants. -/
def isIgnored (c : Char) : Bool :=
  let n := c.toNat
  n == 0xAD || n == 0x34F || n == 0x200B || n == 0x2060 || n == 0x2064 || n == 0xFEFF ||
    (0xFE00 ≤ n && n ≤ 0xFE0F) || (0xE0100 ≤ n && n ≤ 0xE01EF) || (0x180B ≤ n && n ≤ 0x180D)

/-- A character outside ASCII that may not stand in a domain name: controls, spaces, joiners,
marks of direction, private characters and those that are none. -/
def isRefused (c : Char) : Bool :=
  let n := c.toNat
  (0x80 ≤ n && n ≤ 0xA0) || n == 0xA8 || n == 0xAF || n == 0xB4 || n == 0xB8 ||
    (0x2000 ≤ n && n ≤ 0x200F) || (0x2028 ≤ n && n ≤ 0x202F) || (0x205F ≤ n && n ≤ 0x206F) ||
    n == 0x1680 || n == 0x3000 || (0xE000 ≤ n && n ≤ 0xF8FF) || (0xFFF0 ≤ n && n ≤ 0xFFFF) ||
    0xE0000 ≤ n

/-- What a character of a domain name becomes, if it may stand there. -/
def foldChar? (c : Char) : Option (List Char) :=
  let n := c.toNat
  if isIgnored c then some []
  else if n == 0x3002 || n == 0xFF0E || n == 0xFF61 then some ['.']
  else if 0xFF01 ≤ n && n ≤ 0xFF5E then some [smallLetter (Char.ofNat (n - 0xFEE0))]
  else if n == 0xAA then some ['a']
  else if n == 0xBA then some ['o']
  else if n == 0xB2 then some ['2']
  else if n == 0xB3 then some ['3']
  else if n == 0xB9 then some ['1']
  else if n == 0xB5 then some ['μ']
  else if n == 0x17F then some ['s']
  else if isRefused c then none
  else some [smallLetter c]

/-- An ASCII character that may not stand in a domain name. -/
def isForbidden (c : Char) : Bool :=
  let n := c.toNat
  n ≤ 0x20 || n == 0x7F ||
    ['"', '#', '%', '/', ':', '<', '>', '?', '@', '[', '\\', ']', '^', '\x60', '{', '|',
      '}'].contains c

/-- A mark that combines with the character before it, so that no label starts with it. -/
def isCombining (c : Char) : Bool :=
  let n := c.toNat
  (0x300 ≤ n && n ≤ 0x36F) || (0x483 ≤ n && n ≤ 0x489) || (0x20D0 ≤ n && n ≤ 0x20FF)

/-- The pieces between dots. -/
def splitDots : List Char → List (List Char)
  | [] => [[]]
  | c :: rest =>
    if c == '.' then [] :: splitDots rest
    else match splitDots rest with
      | [] => [[c]]
      | label :: more => (c :: label) :: more

/-- The marker of a label in Punycode. -/
def punycodeMark : List Char := ['x', 'n', '-', '-']

/-- The ASCII form of a label whose characters are folded. -/
def labelToAscii? (label : List Char) : Option (List Char) :=
  if label.take 4 == punycodeMark then
    match Punycode.decode? (label.drop 4) with
    | none => none
    | some cs =>
      -- The marker must be needed, and the label folded already.
      if cs.any (0x80 ≤ ·.toNat) && cs.all (fun c => foldChar? c == some [c]) &&
          !(cs.head?.any isCombining) then some label
      else none
  else if label.head?.any isCombining then none
  else if label.all (·.toNat < 0x80) then some label
  else some (punycodeMark ++ Punycode.encode label)

/-- The ASCII form of a domain name given by its bytes. -/
def domainToAscii? (bs : Bytes) : Option (List Char) := do
  let cs ← Utf8.decodeChars? bs
  let folded := (← cs.mapM foldChar?).flatten
  if folded.any isForbidden then none
  let labels ← (splitDots folded).mapM labelToAscii?
  return List.intercalate ['.'] labels

end ReleasePublisher.Url

/-!
# Bytes and UTF-8

Texts travel as bytes. Writing is `encode`. Reading comes in two forms over one step: `decode?`
accepts well-formed input only, and `lossy` puts U+FFFD in the place of each maximal ill-formed
piece.

## Main definitions

* `Bytes`: a byte string
* `Utf8.encode s`: the bytes of a text
* `Utf8.step b rest`: the character that starts with the byte `b`, and how many bytes of `rest`
  belong to it
* `Utf8.decode? bs`: the text with these bytes, if they are well formed
* `Utf8.lossy bs`: the text with these bytes, ill-formed pieces replaced
-/

namespace ReleasePublisher

/-- A byte string. -/
abbrev Bytes := List UInt8

namespace Utf8

/-- The bytes of one character. -/
def encodeChar (c : Char) : Bytes :=
  let n := c.toNat
  let tail (k : Nat) : UInt8 := UInt8.ofNat (0x80 + n / k % 64)
  if n < 0x80 then [UInt8.ofNat n]
  else if n < 0x800 then [UInt8.ofNat (0xC0 + n / 64), tail 1]
  else if n < 0x10000 then [UInt8.ofNat (0xE0 + n / 4096), tail 64, tail 1]
  else [UInt8.ofNat (0xF0 + n / 262144), tail 4096, tail 64, tail 1]

/-- The bytes of a list of characters. -/
def encodeChars (l : List Char) : Bytes :=
  l.flatMap encodeChar

/-- The bytes of a text. -/
def encode (s : String) : Bytes :=
  encodeChars s.toList

/-- A byte that continues a character. -/
def isTail (b : UInt8) : Bool :=
  0x80 ≤ b && b ≤ 0xBF

/-- The second byte that may follow the first byte `b` of a character of three or four bytes:
overlong forms, surrogates and numbers above U+10FFFF are excluded by it. -/
def isSecond (b second : UInt8) : Bool :=
  if b == 0xE0 then 0xA0 ≤ second && second ≤ 0xBF
  else if b == 0xED then 0x80 ≤ second && second ≤ 0x9F
  else if b == 0xF0 then 0x90 ≤ second && second ≤ 0xBF
  else if b == 0xF4 then 0x80 ≤ second && second ≤ 0x8F
  else isTail second

/-- The number a byte that continues a character contributes. -/
def tailValue (b : UInt8) : Nat :=
  b.toNat % 64

/-- One step of reading: the character that starts with the byte `b`, or nothing if `b` starts an
ill-formed piece, and how many bytes of `rest` belong to the character or to the piece. -/
def step (b : UInt8) (rest : Bytes) : Option Char × Nat :=
  if b < 0x80 then (some (Char.ofNat b.toNat), 0)
  -- These bytes start no character: tails, overlong forms, and numbers that are too large.
  else if b < 0xC2 || 0xF4 < b then (none, 0)
  else match rest with
    | [] => (none, 0)
    | b₁ :: rest =>
      if b < 0xE0 then
        if isTail b₁ then (some (Char.ofNat (b.toNat % 32 * 64 + tailValue b₁)), 1) else (none, 0)
      else if !isSecond b b₁ then (none, 0)
      else match rest with
        | [] => (none, 1)
        | b₂ :: rest =>
          if !isTail b₂ then (none, 1)
          else if b < 0xF0 then
            (some (Char.ofNat (b.toNat % 16 * 4096 + tailValue b₁ * 64 + tailValue b₂)), 2)
          else match rest with
            | [] => (none, 2)
            | b₃ :: _ =>
              if isTail b₃ then
                (some (Char.ofNat (b.toNat % 8 * 262144 + tailValue b₁ * 4096 + tailValue b₂ * 64
                  + tailValue b₃)), 3)
              else (none, 2)

/-- The characters with these bytes, if the bytes are well formed. -/
def decodeChars? : Bytes → Option (List Char)
  | [] => some []
  | b :: rest =>
    match step b rest with
    | (some c, n) => (decodeChars? (rest.drop n)).map (c :: ·)
    | (none, _) => none
termination_by bs => bs.length
decreasing_by (simp only [List.length_drop, List.length_cons]; omega)

/-- The text with these bytes, if the bytes are well formed. -/
def decode? (bs : Bytes) : Option String :=
  (decodeChars? bs).map String.ofList

/-- The characters with these bytes; U+FFFD stands for each maximal ill-formed piece. -/
def lossyChars : Bytes → List Char
  | [] => []
  | b :: rest =>
    let (c, n) := step b rest
    c.getD '\uFFFD' :: lossyChars (rest.drop n)
termination_by bs => bs.length
decreasing_by (simp only [List.length_drop, List.length_cons]; omega)

/-- The text with these bytes; U+FFFD stands for each maximal ill-formed piece. -/
def lossy (bs : Bytes) : String :=
  String.ofList (lossyChars bs)

end Utf8

end ReleasePublisher

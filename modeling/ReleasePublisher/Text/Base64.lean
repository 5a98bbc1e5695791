import ReleasePublisher.Text.Utf8

/-!
# Base64

Three bytes are written as four characters of six bits each; what is left over is filled up with
equals signs.

## Main definitions

* `Base64.encode bs`: the characters for these bytes
-/

namespace ReleasePublisher.Base64

/-- The character for six bits. -/
def character (n : Nat) : Char :=
  if n < 26 then Char.ofNat (0x41 + n)
  else if n < 52 then Char.ofNat (0x61 + (n - 26))
  else if n < 62 then Char.ofNat (0x30 + (n - 52))
  else if n == 62 then '+' else '/'

/-- The characters for these bytes. -/
def encode : Bytes → List Char
  | a :: b :: c :: rest =>
    let n := a.toNat * 65536 + b.toNat * 256 + c.toNat
    character (n / 262144) :: character (n / 4096 % 64) :: character (n / 64 % 64) ::
      character (n % 64) :: encode rest
  | [a, b] =>
    let n := a.toNat * 256 + b.toNat
    [character (n / 1024), character (n / 16 % 64), character (n % 16 * 4), '=']
  | [a] => [character (a.toNat / 4), character (a.toNat % 4 * 16), '=', '=']
  | [] => []

end ReleasePublisher.Base64

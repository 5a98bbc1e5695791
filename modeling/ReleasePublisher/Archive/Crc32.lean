import ReleasePublisher.Text.Utf8

/-!
# Cyclic redundancy checks

The remainder of a message, taken as a polynomial over two elements with the lowest power first,
divided by the polynomial of Ethernet and of compressed files.

## Main definitions

* `Crc32.checksum bs`: the check value of a message
-/

namespace ReleasePublisher.Crc32

/-- The polynomial, with its powers in reverse. -/
def polynomial : UInt32 := 0xEDB88320

/-- The remainder after one more bit. -/
def shift (r : UInt32) : UInt32 :=
  if r &&& 1 == 1 then (r >>> 1) ^^^ polynomial else r >>> 1

/-- The remainder after one more byte. -/
def update (r : UInt32) (b : UInt8) : UInt32 :=
  let r := r ^^^ b.toUInt32
  shift (shift (shift (shift (shift (shift (shift (shift r)))))))

/-- The check value of a message. -/
def checksum (bs : Bytes) : UInt32 :=
  bs.foldl update 0xFFFFFFFF ^^^ 0xFFFFFFFF

end ReleasePublisher.Crc32

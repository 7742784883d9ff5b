/-!
The checksum CRC-32 with the reflected polynomial `0xEDB88320`.
-/

namespace Chip8VM.Zip.Crc32

def polynomial : UInt32 := 0xEDB88320

def shift (register : UInt32) : Nat → UInt32
  | 0 => register
  | count + 1 =>
      shift (if register &&& 1 = 1 then (register >>> 1) ^^^ polynomial else register >>> 1)
        count

def update (register : UInt32) (byte : UInt8) : UInt32 :=
  shift (register ^^^ byte.toUInt32) 8

def checksum (bytes : List UInt8) : UInt32 :=
  bytes.foldl update 0xFFFFFFFF ^^^ 0xFFFFFFFF

end Chip8VM.Zip.Crc32

import Chip8VM.Fault

/-!
A program with the name it goes by, and what can go wrong on the way from a file
or an archive into memory.
-/

namespace Chip8VM

structure Rom where
  name : String
  bytes : List UInt8
  deriving DecidableEq, Repr

inductive ReadError where
  | notFound
  | notDirectory
  | isDirectory
  | nameTooLong
  | zeroInPath
  | endOfData
  | wrongChecksum
  | corruptDeflate
  | incompleteDeflate
  deriving DecidableEq, Repr

inductive ArchiveDefect where
  | tooShort
  | endRecordMissing
  | directoryPlace
  | noRoomForEndRecord64
  | endRecord64Missing
  | directoryHeader
  | localHeader
  | headerPlace
  | aesVendor
  | aesVendorVersion
  | aesStrength
  | aesFieldMissing
  deriving DecidableEq, Repr

inductive ArchiveFeature where
  | severalDisks
  | compression
  | encryption
  | aesFieldLength
  deriving DecidableEq, Repr

inductive ArchiveError where
  | entryNotFound
  | invalid (defect : ArchiveDefect)
  | unsupported (feature : ArchiveFeature)
  | read (cause : ReadError)
  deriving DecidableEq, Repr

inductive LoadError where
  | size (cause : SizeError)
  | read (cause : ReadError)
  | archive (cause : ArchiveError)
  deriving DecidableEq, Repr

/-! ## Messages -/

def ReadError.message : ReadError → String
  | .notFound => "No such file or directory (os error 2)"
  | .notDirectory => "Not a directory (os error 20)"
  | .isDirectory => "Is a directory (os error 21)"
  | .nameTooLong => "File name too long (os error 36)"
  | .zeroInPath => "file name contained an unexpected NUL byte"
  | .endOfData => "failed to fill whole buffer"
  | .wrongChecksum => "Invalid checksum"
  | .corruptDeflate => "corrupt deflate stream"
  | .incompleteDeflate => "incomplete deflate stream"

def ArchiveDefect.message : ArchiveDefect → String
  | .tooShort => "Invalid zip header"
  | .endRecordMissing => "Could not find central directory end"
  | .directoryPlace => "Invalid central directory size or offset"
  | .noRoomForEndRecord64 => "File cannot contain ZIP64 central directory end"
  | .endRecord64Missing => "Could not find ZIP64 central directory end"
  | .directoryHeader => "Invalid Central Directory header"
  | .localHeader => "Invalid local file header"
  | .headerPlace => "Archive header is too large"
  | .aesVendor => "Invalid AES vendor"
  | .aesVendorVersion => "Invalid AES vendor version"
  | .aesStrength => "Invalid AES encryption strength"
  | .aesFieldMissing => "AES encryption without AES extra data field"

def ArchiveFeature.message : ArchiveFeature → String
  | .severalDisks => "Support for multi-disk files is not implemented"
  | .compression => "Compression method not supported"
  | .encryption => "Password required to decrypt file"
  | .aesFieldLength => "AES extra data field has an unsupported length"

def ArchiveError.message : ArchiveError → String
  | .entryNotFound => "specified file not found in archive"
  | .invalid defect => "invalid Zip archive: " ++ defect.message
  | .unsupported feature => "unsupported Zip archive: " ++ feature.message
  | .read cause => cause.message

def LoadError.message : LoadError → String
  | .size cause => cause.message
  | .read cause => "Unable to read the rom '" ++ cause.message ++ "'."
  | .archive cause => "Unable to read the rom archive '" ++ cause.message ++ "'."

end Chip8VM

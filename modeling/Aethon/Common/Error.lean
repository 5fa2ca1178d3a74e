import Mathlib.Tactic.Common

/-!
# Byte strings and errors

The shared vocabulary of every subsystem, after `common/bytes.hpp` and `common/error.hpp`.
A fallible function of the library returns `Except Error`.
-/

namespace Aethon

/-- `std::vector<std::uint8_t>`, and every `std::string` that is read as raw bytes. -/
abbrev Bytes := List UInt8

/-- The stable error codes of the library. -/
inductive ErrorCode where
  | eof
  | invalidArgument
  | malformedPacket
  | checksumMismatch
  | unsupportedVersion
  | archiveCorrupt
  | routingFailed
  | pluginError
  | invariantViolation
  deriving DecidableEq, Repr

/-- An exception of the library: its code and the text of `what()`. -/
structure Error where
  code : ErrorCode
  message : String
  deriving DecidableEq, Repr

end Aethon

import Mathlib.Logic.Basic
/-!
# Text — characters and short identities

Character classes as the standard library of the source has them, text limits in UTF-8 bytes, and the shape of a SHA-256
identity.
-/
namespace Iteron.Text

/-- `char::is_control`, the category `Cc`. -/
def isControl (c : Char) : Bool := decide (c.toNat < 32) || (decide (127 ≤ c.toNat) && decide (c.toNat ≤ 159))

/-- `char::is_whitespace`, the property `White_Space`. -/
def isWhitespace (c : Char) : Bool :=
  (decide (9 ≤ c.toNat) && decide (c.toNat ≤ 13)) || c.toNat == 32 || c.toNat == 133 || c.toNat == 160 ||
    c.toNat == 5760 || (decide (8192 ≤ c.toNat) && decide (c.toNat ≤ 8202)) || c.toNat == 8232 || c.toNat == 8233 ||
    c.toNat == 8239 || c.toNat == 8287 || c.toNat == 12288

def isBidiOverride (c : Char) : Bool := decide (8234 ≤ c.toNat) && decide (c.toNat ≤ 8238)

def isHexDigit (c : Char) : Bool :=
  (decide ('0' ≤ c) && decide (c ≤ '9')) || (decide ('a' ≤ c) && decide (c ≤ 'f')) ||
    (decide ('A' ≤ c) && decide (c ≤ 'F'))

/-- `str::bytes`. -/
def bytes (value : String) : List UInt8 := value.toByteArray.data.toList

theorem bytes_ofList (cs : List Char) : bytes (String.ofList cs) = cs.flatMap String.utf8EncodeChar := by
  simp [bytes, List.utf8Encode]

theorem bytes_append (a b : String) : bytes (a ++ b) = bytes a ++ bytes b := by
  simp [bytes]

def isLowerHexByte (b : UInt8) : Bool := (decide (48 ≤ b) && decide (b ≤ 57)) || (decide (97 ≤ b) && decide (b ≤ 102))

def isHexByte (b : UInt8) : Bool := isLowerHexByte b || (decide (65 ≤ b) && decide (b ≤ 70))

/-- Nonempty, within its bytes and free of control characters. -/
def plain (maxBytes : Nat) (value : String) : Bool :=
  !value.isEmpty && decide (value.utf8ByteSize ≤ maxBytes) && !value.toList.any isControl

def lowerHex64 (value : String) : Bool := value.utf8ByteSize == 64 && (bytes value).all isLowerHexByte

/-- `sha256:` and 64 lower-case hexadecimal bytes. -/
def shaIdentity (value : String) : Bool :=
  value.utf8ByteSize == 71 && (bytes "sha256:").isPrefixOf (bytes value) && ((bytes value).drop 7).all isLowerHexByte

end Iteron.Text

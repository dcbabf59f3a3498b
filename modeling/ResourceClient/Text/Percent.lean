/-
Percent-encoding of one component of a URI: the unreserved characters stand for themselves, every
other character is written as its UTF-8 bytes, each as a percent sign and two capital hex digits.
-/
namespace ResourceClient.Text.Percent

/-- The characters that a component keeps. -/
def isUnreserved (c : Char) : Bool :=
  c.isAlphanum || ['-', '_', '.', '!', '~', '*', '\x27', '(', ')'].contains c

/-- A hexadecimal digit in capitals. -/
def hexDigit (n : Nat) : Char :=
  (Nat.digitChar n).toUpper

def encodeByte (b : UInt8) : List Char :=
  ['%', hexDigit (b.toNat / 16), hexDigit (b.toNat % 16)]

def encodeChar (c : Char) : List Char :=
  if isUnreserved c then [c] else (String.utf8EncodeChar c).flatMap encodeByte

/-- The written form of a component. -/
def encode (cs : List Char) : List Char :=
  cs.flatMap encodeChar

@[simp] theorem encode_nil : encode [] = [] := rfl

@[simp] theorem encode_append (a b : List Char) : encode (a ++ b) = encode a ++ encode b :=
  List.flatMap_append

end ResourceClient.Text.Percent

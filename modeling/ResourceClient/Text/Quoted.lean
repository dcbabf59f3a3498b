/-
Double-quoted literals as JSON writes them: the quote, the backslash and the characters below U+0020
are escaped, all others stand for themselves.
-/
namespace ResourceClient.Text.Quoted

/-- How a literal writes one character. -/
def encodeChar (c : Char) : List Char :=
  if c = '\x22' then ['\\', '\x22']
  else if c = '\\' then ['\\', '\\']
  else if c = '\x08' then ['\\', 'b']
  else if c = '\x0c' then ['\\', 'f']
  else if c = '\n' then ['\\', 'n']
  else if c = '\r' then ['\\', 'r']
  else if c = '\t' then ['\\', 't']
  else if c.toNat < 0x20 then
    ['\\', 'u', '0', '0', Nat.digitChar (c.toNat / 16), Nat.digitChar (c.toNat % 16)]
  else [c]

/-- The text between the quotes. -/
def body (cs : List Char) : List Char :=
  cs.flatMap encodeChar

/-- The literal of a text. -/
def encode (s : String) : String :=
  String.ofList ('\x22' :: (body s.toList ++ ['\x22']))

@[simp] theorem body_nil : body [] = [] := rfl

@[simp] theorem body_append (a b : List Char) : body (a ++ b) = body a ++ body b :=
  List.flatMap_append

end ResourceClient.Text.Quoted

/-
Names in the generated TypeScript: which texts are identifiers, how any text is made one, and how a
property is named after any text.
-/
import ResourceClient.Path

namespace ResourceClient.TypeScript

/-- The words of the language that no declaration may take as its name. -/
def reserved : List String := [
  "any", "boolean", "break", "case", "catch", "class", "const", "continue", "debugger", "default",
  "delete", "do", "else", "enum", "export", "extends", "false", "finally", "for", "function", "if",
  "implements", "import", "in", "instanceof", "interface", "let", "never", "new", "null", "number",
  "object", "package", "private", "protected", "public", "return", "static", "string", "super", "switch",
  "symbol", "this", "throw", "true", "try", "typeof", "undefined", "unknown", "var", "void", "while",
  "with", "yield"]

/-- The names that the generated files declare for themselves. -/
def generated : List String :=
  ["constructor", "transport", "TaffyHttpClientProvider", "TaffyResource", "TaffyResourceFactory"]

def isNameStart (c : Char) : Bool :=
  c.isAlpha || c == '_' || c == '$'

def isNameChar (c : Char) : Bool :=
  c.isAlphanum || c == '_' || c == '$'

/-- Whether a text has the shape of an identifier, reserved or not. -/
def isShaped : List Char → Bool
  | [] => false
  | c :: cs => isNameStart c && cs.all isNameChar

def isIdentifier (s : String) : Bool :=
  isShaped s.toList && !reserved.contains s

/-! ## Making names -/

/-- The characters of a name, with an underscore in front when it would be empty or begin with a digit. -/
def shape (cs : List Char) : List Char :=
  match cs.map fun c => if isNameChar c then c else '_' with
  | [] => ['_']
  | c :: more => if c.isDigit then '_' :: c :: more else c :: more

/-- An underscore after a text that is on a list. -/
def avoid (words : List String) (s : String) : String :=
  if words.contains s then s ++ "_" else s

/-- The identifier for a text. -/
def sanitize (s : String) : String :=
  avoid reserved (String.ofList (shape s.toList))

/-- The name of the endpoint in the component at a path. -/
def endpointName (path : String) : String :=
  avoid generated (sanitize ((Path.stem? path).getD ""))

/-! ## Property names -/

/-- How a single-quoted literal writes a character. -/
def quoteChar (c : Char) : List Char :=
  if c = '\\' ∨ c = '\x27' then ['\\', c] else [c]

/-- The key of a property: the name itself when it has the shape of an identifier, and otherwise a
literal of it. -/
def propertyName (name : String) : String :=
  if isShaped name.toList then name
  else String.ofList ('\x27' :: (name.toList.flatMap quoteChar ++ ['\x27']))

end ResourceClient.TypeScript

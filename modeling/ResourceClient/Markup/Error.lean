/-
Why markup is refused, and the wording of each refusal. Positions are byte offsets in UTF-8.
-/
import ResourceClient.Text.Digits

namespace ResourceClient.Markup

/-- A piece of markup that is not closed, or begins like nothing known. -/
inductive ReadFault
  | openReference
  | openTag
  | unknownMarkup
  | openComment
  | openCharacterData
  | openDoctype
  | namelessDoctype
  | openInstruction
  deriving DecidableEq, Repr

/-- A value that is missing after its equals sign, or lacks its closing quote. -/
inductive AttributeFault
  | missingValue (position : Nat)
  | openQuote (position : Nat) (quote : Char)
  deriving DecidableEq, Repr

/-- A tag that does not fit the elements open around it. -/
inductive NestingFault
  | mismatched (expected found : String)
  | unexpectedClose (name : String)
  | unclosed (name : String)
  deriving DecidableEq, Repr

/-- Why markup is no forest of elements. -/
inductive ParseError
  | read (position : Nat) (fault : ReadFault)
  | attribute (position : Nat) (fault : AttributeFault)
  | nesting (fault : NestingFault)
  deriving DecidableEq, Repr

def ReadFault.message : ReadFault → String
  | .openReference =>
    "ill-formed document: entity or character reference not closed: `;` not found before end of input"
  | .openTag => "syntax error: tag not closed: `>` not found before end of input"
  | .unknownMarkup => "syntax error: unknown or missed symbol in markup"
  | .openComment => "syntax error: comment not closed: `-->` not found before end of input"
  | .openCharacterData => "syntax error: CDATA not closed: `]]>` not found before end of input"
  | .openDoctype => "syntax error: DOCTYPE not closed: `>` not found before end of input"
  | .namelessDoctype =>
    "ill-formed document: `<!DOCTYPE>` declaration does not contain a name of a document type"
  | .openInstruction =>
    "syntax error: processing instruction or xml declaration not closed: `?>` not found before end of input"

def AttributeFault.message : AttributeFault → String
  | .missingValue position =>
    "position " ++ Text.decimal position ++ ": `=` must be followed by an attribute value"
  | .openQuote position quote =>
    "position " ++ Text.decimal position ++ ": missing closing quote `" ++ quote.toString ++ "` in attribute value"

def NestingFault.message : NestingFault → String
  | .mismatched expected found =>
    "closing tag `</" ++ found ++ ">` does not match open element `<" ++ expected ++ ">`"
  | .unexpectedClose name => "closing tag `</" ++ name ++ ">` has no matching open element"
  | .unclosed name => "element `<" ++ name ++ ">` is never closed"

def ParseError.message : ParseError → String
  | .read position fault => "malformed markup at byte " ++ Text.decimal position ++ ": " ++ fault.message
  | .attribute position fault =>
    "malformed attribute at byte " ++ Text.decimal position ++ ": " ++ fault.message
  | .nesting fault => fault.message

end ResourceClient.Markup

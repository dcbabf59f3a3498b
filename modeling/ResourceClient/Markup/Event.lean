/-
Markup as a sequence of events: elements that open, close, or do both at once. Names are in lower case
and attributes are decoded. A sequence ends with its text, or at the first fault in it.
-/
import ResourceClient.Markup.AttributeText
import ResourceClient.Markup.Attributes
import ResourceClient.Markup.Tag

namespace ResourceClient.Markup

open Text

/-- What a tag does to the elements around it. -/
inductive Event
  | opening (name : String) (attributes : Attributes)
  | empty (name : String) (attributes : Attributes)
  | closing (name : String)
  deriving DecidableEq, Repr

/-- The size of a text in bytes. -/
def byteSize : List Char → Nat
  | [] => 0
  | c :: cs => c.utf8Size + byteSize cs

/-- The name in an opening tag: all before the first blank. -/
def tagName (content : List Char) : String :=
  String.ofList (foldChars (content.takeWhile fun c => !isMarkupBlank c))

/-- The attributes in an opening tag. -/
def tagAttributes (content : List Char) : Except AttributeFault Attributes :=
  (readAttributes (byteSize content) (content.dropWhile fun c => !isMarkupBlank c)).map
    fun as => .ofList (as.map RawAttribute.entry)

/-- The name in a closing tag: all but the blanks at its end, or all of it when there are only blanks. -/
def closingName (content : List Char) : String :=
  let name := dropEndWhile isMarkupBlank content
  String.ofList (foldChars (if name.isEmpty then content else name))

/-- The event of a tag. -/
def Event.ofTag : Tag → Except AttributeFault Event
  | .opening content => (tagAttributes content).map (.opening (tagName content))
  | .empty content => (tagAttributes content).map (.empty (tagName content))
  | .closing content => .ok (.closing (closingName content))

/-- The events of a text and the fault that ends them. Positions count from the start of a text of
`size` bytes of which `cs` is the end; a faulty attribute is placed after its tag. -/
def readEvents (size : Nat) (cs : List Char) : List Event × Option ParseError :=
  match h : step cs with
  | .finished => ([], none)
  | .fault fault rest => ([], some (.read (size - byteSize rest) fault))
  | .skip rest =>
    have : rest.length < cs.length := step_length (by rw [h]; rfl)
    readEvents size rest
  | .tag tag rest =>
    have : rest.length < cs.length := step_length (by rw [h]; rfl)
    match Event.ofTag tag with
    | .error fault => ([], some (.attribute (size - byteSize rest) fault))
    | .ok event =>
      let more := readEvents size rest
      (event :: more.1, more.2)
termination_by cs.length

/-- A text without the byte order mark at its start. -/
def dropMark : List Char → List Char
  | '\ufeff' :: cs => cs
  | cs => cs

/-- The events of markup. -/
def events (markup : String) : List Event × Option ParseError :=
  readEvents (byteSize (dropMark markup.toList)) (dropMark markup.toList)

end ResourceClient.Markup

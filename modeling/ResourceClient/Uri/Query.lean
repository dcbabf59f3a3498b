/-
Query strings. An object becomes the list of its entries, each a percent-encoded key and value; any
other value gives no query.
-/
import ResourceClient.Data
import ResourceClient.Decimal.Shortest
import ResourceClient.Text.Digits
import ResourceClient.Text.Percent

namespace ResourceClient.Query

open Text

/-- An integer in decimal. -/
def integerText (n : Int) : List Char :=
  (if n < 0 then ['-'] else []) ++ decimalChars n.natAbs

/-- A double in a query: integers below `10 ^ 21` have all their digits and no point, and zero has no
sign. -/
def numberText (x : Double) : List Char :=
  match x.magnitude? with
  | some n =>
    if n < Nat.pow 10 21 then integerText (if x.negative then -(n : Int) else n) else x.text.toList
  | none => x.text.toList

mutual
/-- The text of a value before encoding: a list joins its items by commas, and an object says only that
it is one. -/
def valueText : Data → List Char
  | .null => "null".toList
  | .flag true => "true".toList
  | .flag false => "false".toList
  | .integer n => integerText n
  | .number x => numberText x
  | .text s => s.toList
  | .list items => [','].intercalate (itemTexts items)
  | .object _ => "[object Object]".toList

/-- The texts of the items of a list; a null is an empty one. -/
def itemTexts : List Data → List (List Char)
  | [] => []
  | .null :: items => [] :: itemTexts items
  | item :: items => valueText item :: itemTexts items
end

/-- One entry, written as a key and a value. -/
def entryText (entry : String × Data) : List Char :=
  Percent.encode entry.1.toList ++ '=' :: Percent.encode (valueText entry.2)

/-- The query of an object, with its question mark; nothing for an object without entries. -/
def encode : Data → String
  | .object (entry :: entries) =>
    String.ofList ('?' :: ['&'].intercalate ((entry :: entries).map entryText))
  | _ => ""

end ResourceClient.Query

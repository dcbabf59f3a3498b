/-
JSON data as callers hand it to a resource: integers and doubles are told apart, and an object keeps
the order of its entries.
-/
import ResourceClient.Decimal.Double

namespace ResourceClient

/-- A JSON value. -/
inductive Data
  | null
  | flag (value : Bool)
  | integer (value : Int)
  | number (value : Double)
  | text (value : String)
  | list (items : List Data)
  | object (entries : List (String × Data))
  deriving Inhabited

end ResourceClient

/-! JSON values. -/
namespace NixHomeServer.Library

/-- A number; a float is the text it is printed as. -/
inductive Number
  | int (n : Int)
  | float (text : String)
  deriving DecidableEq, Repr

/-- The keys of an object are distinct. -/
inductive Json
  | null
  | bool (b : Bool)
  | number (n : Number)
  | string (text : String)
  | array (items : List Json)
  | object (members : List (String × Json))
  deriving Repr

def Number.print : Number → String
  | .int n => toString n
  | .float text => text

def Json.get (value : Json) (key : String) : Option Json :=
  match value with
  | .object members => (members.find? fun member => member.1 == key).map Prod.snd
  | _ => none

def Json.asStr : Json → Option String
  | .string text => some text
  | _ => none

end NixHomeServer.Library

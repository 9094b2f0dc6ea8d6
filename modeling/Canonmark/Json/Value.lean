import Canonmark.Decimal.Binary64

/-! JSON values. Objects keep the order of their members, and no name occurs twice in one. -/
namespace Canonmark

inductive Json where
  | null
  | bool (b : Bool)
  | int (i : Int)
  | float (x : Binary64)
  | str (s : String)
  | arr (items : List Json)
  | obj (members : List (String × Json))
  deriving Inhabited, Repr

abbrev Members := List (String × Json)

namespace Members

def get? (ms : Members) (name : String) : Option Json := ms.lookup name

def has (ms : Members) (name : String) : Bool := (ms.get? name).isSome

/-- Gives a member a value: at its place if it is there already, else at the end. -/
def set : Members → String → Json → Members
  | [], name, value => [(name, value)]
  | (n, v) :: ms, name, value => if n == name then (n, value) :: ms else (n, v) :: set ms name value

def erase (ms : Members) (name : String) : Members := ms.filter (·.1 != name)

def ofList (ms : List (String × Json)) : Members := ms.foldl (fun ms (n, v) => set ms n v) []

/-- A member's value, where null counts as missing. -/
def given? (ms : Members) (name : String) : Option Json :=
  match ms.get? name with
  | some .null | none => none
  | some v => some v

def names (ms : Members) : List String := ms.map Prod.fst

end Members

namespace Json

/-- The value of a member; nothing for a missing one and for values that are not objects. -/
def get? : Json → String → Option Json
  | .obj ms, name => Members.get? ms name
  | _, _ => none

/-- Values that count as true: all but null, false, zero and what is empty. -/
def truthy : Json → Bool
  | .null => false
  | .bool b => b
  | .int i => i != 0
  | .float x => !x.isZero
  | .str s => s != ""
  | .arr items => !items.isEmpty
  | .obj members => !members.isEmpty

def typeName : Json → String
  | .null => "NoneType"
  | .bool _ => "bool"
  | .int _ => "int"
  | .float _ => "float"
  | .str _ => "str"
  | .arr _ => "list"
  | .obj _ => "dict"

/-- Lists and objects cannot be looked up in a table of names. -/
def isComposite : Json → Bool
  | .arr _ | .obj _ => true
  | _ => false

def isText (v : Json) (s : String) : Bool :=
  match v with
  | .str t => t == s
  | _ => false

end Json
end Canonmark

import Canonmark.Json.Value
import Canonmark.Decimal.Shortest
import Canonmark.Text.Numeral
import Canonmark.Text.Quoted

/-! Values as messages show them. -/
namespace Canonmark.Json

mutual

def literal : Json → Chars
  | .null => "None".toList
  | .bool true => "True".toList
  | .bool false => "False".toList
  | .int i => Text.Numeral.ofInt i
  | .float x => Decimal.text x
  | .str s => Text.Quoted.encode s.toList
  | .arr items => '[' :: literalItems items ++ [']']
  | .obj members => '\x7b' :: literalMembers members ++ ['\x7d']

def literalItems : List Json → Chars
  | [] => []
  | [v] => literal v
  | v :: w :: vs => literal v ++ ", ".toList ++ literalItems (w :: vs)

def literalMembers : List (String × Json) → Chars
  | [] => []
  | [(n, v)] => Text.Quoted.encode n.toList ++ ": ".toList ++ literal v
  | (n, v) :: m :: ms =>
    Text.Quoted.encode n.toList ++ ": ".toList ++ literal v ++ ", ".toList ++
      literalMembers (m :: ms)

end

mutual

/-- Whether a number is too long for the value to be shown. -/
def holdsLong : Json → Bool
  | .int i => Text.Numeral.isLong i
  | .arr items => itemsHoldLong items
  | .obj members => membersHoldLong members
  | _ => false

def itemsHoldLong : List Json → Bool
  | [] => false
  | v :: vs => holdsLong v || itemsHoldLong vs

def membersHoldLong : List (String × Json) → Bool
  | [] => false
  | (_, v) :: ms => holdsLong v || membersHoldLong ms

end

def shown (v : Json) : String := String.ofList v.literal

/-- A value as plain text: texts as they are, the others as they are shown. -/
def plain : Json → String
  | .str s => s
  | v => v.shown

end Canonmark.Json

import Canonmark.Json.Value
import Canonmark.Decimal.Shortest
import Canonmark.Text.Numeral
import Canonmark.Text.Quoted

/-! JSON text of a value, on one line or indented. -/
namespace Canonmark.Json

def escapeChar (c : Char) : Chars :=
  if c == '"' then ['\\', '"']
  else if c == '\\' then ['\\', '\\']
  else if c == '\n' then ['\\', 'n']
  else if c == '\r' then ['\\', 'r']
  else if c == '\t' then ['\\', 't']
  else if c == '\x08' then ['\\', 'b']
  else if c == '\x0c' then ['\\', 'f']
  else if c.toNat < 0x20 then '\\' :: 'u' :: Text.Quoted.hexadecimal 4 c.toNat
  else [c]

def printString (s : String) : Chars := '"' :: s.toList.flatMap escapeChar ++ ['"']

def printFloat : Binary64 → Chars
  | .notANumber => "NaN".toList
  | .infinite negative => if negative then "-Infinity".toList else "Infinity".toList
  | x => Decimal.text x

/-- How far the members of lists and objects are indented per level, or that all is on one line. -/
abbrev Indent := Option Nat

def Indent.break (indent : Indent) (depth : Nat) : Chars :=
  match indent with
  | none => []
  | some width => '\n' :: List.replicate (width * depth) ' '

def Indent.separator (indent : Indent) (depth : Nat) : Chars :=
  match indent with
  | none => [',', ' ']
  | some _ => ',' :: indent.break depth

mutual

def print (indent : Indent) (depth : Nat) : Json → Chars
  | .null => "null".toList
  | .bool true => "true".toList
  | .bool false => "false".toList
  | .int i => Text.Numeral.ofInt i
  | .float x => printFloat x
  | .str s => printString s
  | .arr [] => "[]".toList
  | .arr (v :: vs) =>
    '[' :: indent.break (depth + 1) ++ print indent (depth + 1) v ++
      printItems indent (depth + 1) vs ++ indent.break depth ++ [']']
  | .obj [] => ['\x7b', '\x7d']
  | .obj ((n, v) :: ms) =>
    '\x7b' :: indent.break (depth + 1) ++ printString n ++ ": ".toList ++ print indent (depth + 1)
      v ++ printMembers indent (depth + 1) ms ++ indent.break depth ++ ['\x7d']

def printItems (indent : Indent) (depth : Nat) : List Json → Chars
  | [] => []
  | v :: vs => indent.separator depth ++ print indent depth v ++ printItems indent depth vs

def printMembers (indent : Indent) (depth : Nat) : List (String × Json) → Chars
  | [] => []
  | (n, v) :: ms =>
    indent.separator depth ++ printString n ++ ": ".toList ++ print indent depth v ++
      printMembers indent depth ms

end

def toText (v : Json) (indent : Indent) : String := String.ofList (print indent 0 v)

end Canonmark.Json

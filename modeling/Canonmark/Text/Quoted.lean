import Canonmark.Text.Printable
import Canonmark.Text.Blank

/-! Quoted text, as messages show it. -/
namespace Canonmark.Text.Quoted

private def digit (n : Nat) : Char :=
  Char.ofNat (if n < 10 then 0x30 + n else 0x57 + n)

def hexadecimal (width n : Nat) : Chars :=
  (List.range width).reverse.map fun i => digit (n / Nat.pow 16 i % 16)

/-- A character that is not printable is written by its number, in the fewest of two, four or eight
hexadecimal digits. -/
def escape (quote c : Char) : Chars :=
  if c == quote || c == '\\' then ['\\', c]
  else if c == '\n' then ['\\', 'n']
  else if c == '\r' then ['\\', 'r']
  else if c == '\t' then ['\\', 't']
  else if isPrintable c then [c]
  else if c.toNat < 0x100 then '\\' :: 'x' :: hexadecimal 2 c.toNat
  else if c.toNat < 0x10000 then '\\' :: 'u' :: hexadecimal 4 c.toNat
  else '\\' :: 'U' :: hexadecimal 8 c.toNat

/-- Double quotes are taken only for a text that holds single quotes and no double ones. -/
def mark (s : Chars) : Char :=
  if s.contains '\'' && !s.contains '"' then '"' else '\''

def encode (s : Chars) : Chars :=
  mark s :: s.flatMap (escape (mark s)) ++ [mark s]

def quoted (s : String) : String := String.ofList (encode s.toList)

end Canonmark.Text.Quoted

import Canonmark.Text.Blank
import Canonmark.Text.DecimalDigit

/-! Whole numbers as text: how they are written and which texts are read as one. -/
namespace Canonmark.Text.Numeral

/-- The most digits that a numeral may have, when it is read or written. -/
def maxDigits : Nat := 4300

def ofNat (n : Nat) : Chars := Nat.toDigits 10 n

def ofInt (i : Int) : Chars :=
  if i < 0 then '-' :: ofNat i.natAbs else ofNat i.natAbs

def isLong (i : Int) : Bool := maxDigits < (ofNat i.natAbs).length

def longMessage : String :=
  "Exceeds the limit (" ++ String.ofList (ofNat maxDigits) ++
    " digits) for integer string conversion; use sys.set_int_max_str_digits() to increase the limit"

/-- The values of digits that single underscores may separate; `afterDigit` tells whether one may
stand here. -/
def digitsOf? : (afterDigit : Bool) → Chars → Option (List Nat)
  | afterDigit, [] => if afterDigit then some [] else none
  | afterDigit, c :: cs =>
    match digitValue? c with
    | some d => (digitsOf? true cs).map (d :: ·)
    | none => if afterDigit && c == '_' then digitsOf? false cs else none

def valueOf (digits : List Nat) : Nat := digits.foldl (fun n d => 10 * n + d) 0

inductive Refusal where
  | malformed
  | tooLong (digits : Nat)
  deriving DecidableEq, Repr

def unsigned (cs : Chars) : Except Refusal Nat :=
  match digitsOf? false cs with
  | none => .error .malformed
  | some digits =>
    if digits.length > maxDigits then .error (.tooLong digits.length)
    else .ok (valueOf digits)

/-- White space that may stand around a number. The separators below U+0020 may not. -/
def isPadding (c : Char) : Bool := isBlank c && !(0x1C ≤ c.toNat && c.toNat ≤ 0x1F)

def trimPadding (s : Chars) : Chars := dropEndWhile isPadding (s.dropWhile isPadding)

/-- Reads a whole number: white space around it, a sign, digits of any script, and single
underscores between digits are allowed. -/
def toInt (s : Chars) : Except Refusal Int :=
  match trimPadding s with
  | '-' :: cs => (unsigned cs).map fun n => -(n : Int)
  | '+' :: cs => (unsigned cs).map fun n => (n : Int)
  | cs => (unsigned cs).map fun n => (n : Int)

end Canonmark.Text.Numeral

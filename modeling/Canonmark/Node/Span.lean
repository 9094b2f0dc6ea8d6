import Canonmark.Text.Numeral
import Canonmark.Text.Quoted

/-! The span of a node in its source, written `line:column-line:column`. -/
namespace Canonmark

structure Span where
  startLine : Nat
  startColumn : Nat
  endLine : Nat
  endColumn : Nat
  deriving DecidableEq, Repr

namespace Span

inductive Refusal where
  | malformed (text : String)
  | tooLong (digits : Nat)
  deriving DecidableEq, Repr

def tooLongMessage (digits : Nat) : String :=
  let limit := String.ofList (Text.Numeral.ofNat Text.Numeral.maxDigits)
  let found := String.ofList (Text.Numeral.ofNat digits)
  "Exceeds the limit (" ++ limit ++ " digits) for integer string conversion: value has " ++ found ++
    " digits; use sys.set_int_max_str_digits() to increase the limit"

def Refusal.message : Refusal → String
  | .malformed text =>
    "Invalid sourcepos " ++ Text.Quoted.quoted text ++ ", expected 'line:column-line:column'"
  | .tooLong digits => tooLongMessage digits

def toText (s : Span) : String :=
  String.ofList (Text.Numeral.ofNat s.startLine ++ ':' :: Text.Numeral.ofNat s.startColumn ++
    '-' :: Text.Numeral.ofNat s.endLine ++ ':' :: Text.Numeral.ofNat s.endColumn)

def leadingDigits : Chars → List Nat × Chars
  | [] => ([], [])
  | c :: cs =>
    match Text.digitValue? c with
    | some d => let (ds, rest) := leadingDigits cs; (d :: ds, rest)
    | none => ([], c :: cs)

/-- The digits of a number with the given sign after it, and the text that follows. -/
def digitsUpTo? (sign : Char) (s : Chars) : Option (List Nat × Chars) :=
  match leadingDigits s with
  | (d :: ds, c :: rest) => if c == sign then some (d :: ds, rest) else none
  | _ => none

def numbers? (s : Chars) : Option (List Nat × List Nat × List Nat × List Nat) := do
  let (a, s) ← digitsUpTo? ':' s
  let (b, s) ← digitsUpTo? '-' s
  let (c, s) ← digitsUpTo? ':' s
  match leadingDigits s with
  | (d :: ds, []) => some (a, b, c, d :: ds)
  | _ => none

def number (digits : List Nat) : Except Refusal Nat :=
  if digits.length > Text.Numeral.maxDigits then .error (.tooLong digits.length)
  else .ok (Text.Numeral.valueOf digits)

/-- Reads a span; white space around it is allowed, and digits of any script. -/
def ofText (text : String) : Except Refusal Span :=
  match numbers? (Text.trim text.toList) with
  | none => .error (.malformed text)
  | some (a, b, c, d) => do
    let startLine ← number a
    let startColumn ← number b
    let endLine ← number c
    let endColumn ← number d
    .ok ⟨startLine, startColumn, endLine, endColumn⟩

end Span
end Canonmark

/-! Binary floating-point numbers of double precision, and the nearest one to a decimal. -/
namespace Canonmark

def twoTo (n : Nat) : Nat := Nat.pow 2 n

def tenTo (n : Nat) : Nat := Nat.pow 10 n

/-- `finite s m e` is `m * 2 ^ e`, negated if `s`. The mantissa stays below `2 ^ 53` and the
exponent from `-1074` on; smaller mantissas than `2 ^ 52` have the least exponent. -/
inductive Binary64 where
  | notANumber
  | infinite (negative : Bool)
  | finite (negative : Bool) (mantissa : Nat) (exponent : Int)
  deriving DecidableEq, Repr, Inhabited

namespace Binary64

def minExponent : Int := -1074

def maxExponent : Int := 971

def zero (negative : Bool) : Binary64 := .finite negative 0 minExponent

/-- The quotient rounded to the nearest whole number, a half to the even one. -/
def roundDiv (num den : Nat) : Nat :=
  let q := num / den
  let r := num % den
  if 2 * r < den then q
  else if den < 2 * r then q + 1
  else if q % 2 == 0 then q else q + 1

/-- `num / (den * 2 ^ e)` as a fraction. -/
def scale (num den : Nat) (e : Int) : Nat × Nat :=
  if 0 ≤ e then (num, den * twoTo e.toNat) else (num * twoTo (-e).toNat, den)

/-- The number nearest to the positive fraction `num / den`. -/
def ofFraction (negative : Bool) (num den : Nat) : Binary64 :=
  let guess : Int := (num.log2 : Int) - den.log2 - 52
  let (n, d) := scale num den guess
  let e := max minExponent (if n / d < twoTo 52 then guess - 1 else guess)
  let (n, d) := scale num den e
  let m := roundDiv n d
  let (m, e) := if m == twoTo 53 then (twoTo 52, e + 1) else (m, e)
  if maxExponent < e then .infinite negative else .finite negative m e

def ofDecimal (negative : Bool) (digits : Nat) (power : Int) : Binary64 :=
  let magnitude := power + (Nat.toDigits 10 digits).length
  if digits == 0 || magnitude < -330 then zero negative
  else if 320 < magnitude then .infinite negative
  else if 0 ≤ power then ofFraction negative (digits * tenTo power.toNat) 1
  else ofFraction negative digits (tenTo (-power).toNat)

def isZero : Binary64 → Bool
  | .finite _ m _ => m == 0
  | _ => false

def lessScaled (a p b q : Int) : Bool :=
  let e := min p q
  a * twoTo (p - e).toNat < b * twoTo (q - e).toNat

private def signed (negative : Bool) (m : Nat) : Int := if negative then -m else m

/-- Strict order; nothing is below or above what is not a number. -/
def less : Binary64 → Binary64 → Bool
  | .notANumber, _ | _, .notANumber => false
  | .infinite s, .infinite t => s && !t
  | .infinite s, .finite .. => s
  | .finite .., .infinite t => !t
  | .finite s m e, .finite t n f => lessScaled (signed s m) e (signed t n) f

def lessThanInt : Binary64 → Int → Bool
  | .notANumber, _ => false
  | .infinite s, _ => s
  | .finite s m e, i => lessScaled (signed s m) e i 0

def intLessThan (i : Int) : Binary64 → Bool
  | .notANumber => false
  | .infinite s => !s
  | .finite s m e => lessScaled i 0 (signed s m) e

end Binary64
end Canonmark

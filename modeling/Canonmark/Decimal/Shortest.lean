import Canonmark.Decimal.Binary64
import Canonmark.Text.Blank

/-! The shortest decimal that reads back as a given number, and how it is written. -/
namespace Canonmark.Decimal

def compareScaled (a : Nat) (p : Int) (d : Nat) (k : Int) : Ordering :=
  compare (a * twoTo p.toNat * tenTo (-k).toNat) (d * tenTo k.toNat * twoTo (-p).toNat)

/-- The numbers that round to `m * 2 ^ e`, in units of `2 ^ (e - 2)`. -/
structure Interval where
  low : Nat
  value : Nat
  high : Nat
  unit : Int
  closed : Bool

def Interval.of (m : Nat) (e : Int) : Interval where
  low := if m == twoTo 52 && Binary64.minExponent < e then 4 * m - 1 else 4 * m - 2
  value := 4 * m
  high := 4 * m + 2
  unit := e - 2
  closed := m % 2 == 0

def Interval.contains (i : Interval) (d : Nat) (k : Int) : Bool :=
  let low := compareScaled i.low i.unit d k
  let high := compareScaled i.high i.unit d k
  (low == .lt || (i.closed && low == .eq)) && (high == .gt || (i.closed && high == .eq))

/-- The number of digits before the point of `m * 2 ^ e`; for a number below one, less the zeros
after the point. -/
def pointPosition (m : Nat) (e : Int) : Int :=
  let whole := m * twoTo e.toNat / twoTo (-e).toNat
  if whole != 0 then (Nat.toDigits 10 whole).length
  else
    let zeros := (List.range 330).find? fun j => twoTo (-e).toNat ≤ m * tenTo (j + 1)
    0 - (zeros.getD 330 : Nat)

/-- Of the two neighbours of the value on the grid of `10 ^ k`, the nearest in the interval; a tie
goes to the even one. -/
def Interval.nearest? (i : Interval) (k : Int) : Option Nat :=
  let num := i.value * twoTo i.unit.toNat * tenTo (-k).toNat
  let den := tenTo k.toNat * twoTo (-i.unit).toNat
  let d := num / den
  let twice := compare (2 * (num % den)) den
  let lowerFirst := twice == .lt || (twice == .eq && d % 2 == 0)
  let (first, second) := if lowerFirst then (d, d + 1) else (d + 1, d)
  if i.contains first k then some first
  else if i.contains second k then some second
  else none

def shortest (m : Nat) (e : Int) : Nat × Int :=
  let i := Interval.of m e
  let point := pointPosition m e
  ((List.range 17).findSome? fun n =>
    (i.nearest? (point - (n + 1 : Nat))).map fun d => (d, point - (n + 1 : Nat))).getD (0, 0)

private def significant (d : Nat) : Chars :=
  Text.dropEndWhile (· == '0') (Nat.toDigits 10 d)

private def exponentText (e : Int) : Chars :=
  let digits := Nat.toDigits 10 e.natAbs
  'e' :: (if e < 0 then '-' else '+') :: (if digits.length < 2 then '0' :: digits else digits)

/-- Numbers from 0.0001 to below 10 ^ 16 are written positionally, with at least one digit after the
point; the others with an exponent of at least two digits. -/
def layout (digits : Chars) (point : Int) : Chars :=
  if -4 < point && point ≤ 16 then
    if point ≤ 0 then '0' :: '.' :: List.replicate (-point).toNat '0' ++ digits
    else
      let n := point.toNat
      let whole := digits.take n ++ List.replicate (n - digits.length) '0'
      let rest := digits.drop n
      whole ++ '.' :: (if rest.isEmpty then ['0'] else rest)
  else
    match digits with
    | [] => ['0']
    | c :: [] => c :: exponentText (point - 1)
    | c :: cs => c :: '.' :: cs ++ exponentText (point - 1)

def text : Binary64 → Chars
  | .notANumber => "nan".toList
  | .infinite negative => if negative then "-inf".toList else "inf".toList
  | .finite negative m e =>
    let sign : Chars := if negative then ['-'] else []
    if m == 0 then sign ++ "0.0".toList
    else
      let (d, k) := shortest m e
      sign ++ layout (significant d) (k + (Nat.toDigits 10 d).length)

end Canonmark.Decimal

/-! White space, the trimming that removes it, and the division of a text into lines. -/
namespace Canonmark

/-- A text under construction or analysis. -/
abbrev Chars := List Char

namespace Text

/-- White space of Unicode and the four separators below U+0020. -/
def isBlank (c : Char) : Bool :=
  let n := c.toNat
  n == 0x20 || (0x09 ≤ n && n ≤ 0x0D) || (0x1C ≤ n && n ≤ 0x1F) || n == 0x85 || n == 0xA0 ||
    n == 0x1680 || (0x2000 ≤ n && n ≤ 0x200A) || n == 0x2028 || n == 0x2029 || n == 0x202F ||
    n == 0x205F || n == 0x3000

def dropEndWhile (p : Char → Bool) (s : Chars) : Chars :=
  (s.reverse.dropWhile p).reverse

def takeEndWhile (p : Char → Bool) (s : Chars) : Chars :=
  (s.reverse.takeWhile p).reverse

def trimStart (s : Chars) : Chars := s.dropWhile isBlank

def trimEnd (s : Chars) : Chars := dropEndWhile isBlank s

def trim (s : Chars) : Chars := trimEnd (trimStart s)

def trimString (s : String) : String := String.ofList (trim s.toList)

/-- The pieces between the places where `p` holds; always at least one. -/
def splitWhere (p : Char → Bool) : Chars → List Chars
  | [] => [[]]
  | c :: cs =>
    if p c then [] :: splitWhere p cs
    else match splitWhere p cs with
      | [] => [[c]]
      | piece :: pieces => (c :: piece) :: pieces

def lines (s : Chars) : List Chars := splitWhere (· == '\n') s

def unlines (ls : List Chars) : Chars := List.intercalate ['\n'] ls

def words (s : Chars) : List Chars := (splitWhere isBlank s).filter (!·.isEmpty)

/-- What is left of `s` after `start`, if it starts so. -/
def dropStart? : (start s : Chars) → Option Chars
  | [], s => some s
  | _ :: _, [] => none
  | c :: start, d :: s => if c == d then dropStart? start s else none

theorem dropEndWhile_append_takeEndWhile (p : Char → Bool) (s : Chars) :
    dropEndWhile p s ++ takeEndWhile p s = s := by
  rw [dropEndWhile, takeEndWhile, ← List.reverse_append, List.takeWhile_append_dropWhile,
    List.reverse_reverse]

end Text
end Canonmark

import Canonmark.Text.CharacterReference
import Canonmark.Text.LetterCase

/-! Texts read from bytes. -/
namespace Canonmark.Text

abbrev Bytes := List UInt8

namespace Encoding

def tail? (b : UInt8) : Option Nat :=
  if 0x80 ≤ b.toNat && b.toNat ≤ 0xBF then some (b.toNat - 0x80) else none

/-- The character of a number that took more bytes than the numbers below `least`. -/
def scalar? (least n : Nat) : Option Char :=
  if n < least || 0x10FFFF < n || (0xD800 ≤ n && n ≤ 0xDFFF) then none else some (Char.ofNat n)

/-- Reads UTF-8, refusing what is not the one encoding of a character. -/
def utf8? : Bytes → Option Chars
  | [] => some []
  | a :: bs =>
    let n := a.toNat
    if n < 0x80 then (utf8? bs).map (Char.ofNat n :: ·)
    else if 0xC0 ≤ n && n < 0xE0 then
      match bs with
      | b :: rest => do
        let x ← tail? b
        let c ← scalar? 0x80 ((n - 0xC0) * 0x40 + x)
        (utf8? rest).map (c :: ·)
      | _ => none
    else if 0xE0 ≤ n && n < 0xF0 then
      match bs with
      | b :: c :: rest => do
        let x ← tail? b
        let y ← tail? c
        let c ← scalar? 0x800 (((n - 0xE0) * 0x40 + x) * 0x40 + y)
        (utf8? rest).map (c :: ·)
      | _ => none
    else if 0xF0 ≤ n && n < 0xF8 then
      match bs with
      | b :: c :: d :: rest => do
        let x ← tail? b
        let y ← tail? c
        let z ← tail? d
        let c ← scalar? 0x10000 ((((n - 0xF0) * 0x40 + x) * 0x40 + y) * 0x40 + z)
        (utf8? rest).map (c :: ·)
      | _ => none
    else none

def byteOrderMark : Char := '\uFEFF'

def dropMark : Chars → Chars
  | [] => []
  | c :: cs => if c == byteOrderMark then cs else c :: cs

def latin1 (bs : Bytes) : Chars := bs.map fun b => Char.ofNat b.toNat

def ascii? (bs : Bytes) : Option Chars :=
  if bs.all fun b => b.toNat < 0x80 then some (latin1 bs) else none

private def windowsChar? (b : UInt8) : Option Char :=
  let n := b.toNat
  if 0x80 ≤ n && n ≤ 0x9F then
    let m := windowsCharacters.getD (n - 0x80) 0
    if m == n then none else some (Char.ofNat m)
  else some (Char.ofNat n)

/-- Windows-1252, which leaves five bytes undefined. -/
def windows1252? (bs : Bytes) : Option Chars := bs.mapM windowsChar?

def units? (bigEndian : Bool) : Bytes → Option (List Nat)
  | [] => some []
  | [_] => none
  | a :: b :: rest =>
    let n := if bigEndian then a.toNat * 0x100 + b.toNat else b.toNat * 0x100 + a.toNat
    (units? bigEndian rest).map (n :: ·)

def ofUnits? : List Nat → Option Chars
  | [] => some []
  | n :: ns =>
    if 0xD800 ≤ n && n ≤ 0xDBFF then
      match ns with
      | m :: ms =>
        if 0xDC00 ≤ m && m ≤ 0xDFFF then
          (ofUnits? ms).map (Char.ofNat (0x10000 + (n - 0xD800) * 0x400 + (m - 0xDC00)) :: ·)
        else none
      | [] => none
    else if 0xDC00 ≤ n && n ≤ 0xDFFF then none
    else (ofUnits? ns).map (Char.ofNat n :: ·)

/-- UTF-16 in the order that its mark tells, and little end first without one. -/
def utf16? (bs : Bytes) : Option Chars :=
  match bs with
  | 0xFF :: 0xFE :: rest => units? false rest >>= ofUnits?
  | 0xFE :: 0xFF :: rest => units? true rest >>= ofUnits?
  | _ => units? false bs >>= ofUnits?

/-- Reads bytes in the encoding of a name; nothing for an unknown name. -/
def named? (name : String) (bs : Bytes) : Option Chars :=
  let key := String.ofList ((toLower name.toList).map fun c => if c == '_' then '-' else c)
  if key == "utf-8" || key == "utf8" then utf8? bs
  else if key == "utf-8-sig" then (utf8? bs).map dropMark
  else if key == "utf-16" then utf16? bs
  else if key == "ascii" || key == "us-ascii" then ascii? bs
  else if key == "windows-1252" || key == "cp1252" then windows1252? bs
  else if key == "iso-8859-1" || key == "latin-1" || key == "latin1" then some (latin1 bs)
  else none

end Encoding
end Canonmark.Text

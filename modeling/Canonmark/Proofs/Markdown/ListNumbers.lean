import Canonmark.Proofs.Markdown.FirstLine
import Canonmark.Proofs.Markdown.ListLines

/-! The marks that the items of a list are written with, and the list that is told from them. -/
namespace Canonmark.Markdown

variable {style : Style} {count : Nat} {data : ListData} {tight : Bool}

/-- What is said of a list of so many items that are numbered on. No item has a number of more than
nine digits. -/
inductive IsListData (count : Nat) (tight : Bool) : ListData → Prop
  | bullet : IsListData count tight
      { listType := "bullet", tight := some (if tight then "true" else "false") }
  | ordered (start : Nat) (paren : Bool) (bounded : start + count ≤ 1000000000) :
      IsListData count tight {
        listType := "ordered"
        start := some (String.ofList (Text.Numeral.ofNat start))
        tight := some (if tight then "true" else "false")
        delimiter := some (if paren then "paren" else "period") }

theorem Numbers.exists_isListData (h : Numbers count data) :
    ∃ tight, IsListData count tight data ∧ (tight = false → 2 ≤ count) := by
  cases h with
  | bullet parted => exact ⟨_, .bullet, parted⟩
  | ordered start paren bounded parted => exact ⟨_, .ordered start paren bounded, parted⟩

/-- A list whose items are written with the given marks, from which its properties are read back. -/
structure IsNumbered (style : Style) (count : Nat) (data : ListData) (tight : Bool) (start : Nat)
    (mark : Nat → Chars) (marker : Nat → Marker) : Prop where
  begins : ∀ l, Writer.startNumber data l = .ok (start : Int) l
  marks : Writer.Marks style data mark start count
  marking : IsMarking style.bullet (start + count) mark marker
  isTight : data.isTight = tight
  read : listDataOf (Reader.numbering? (marker start)) tight = data
  interrupts : ∀ item items, canInterrupt style data (item :: items) →
    ∀ n paren, marker start = .ordered n paren → n = 1

theorem startNumber_ofNat {n : Nat} (short : (Text.Numeral.ofNat n).length ≤ Text.Numeral.maxDigits)
    (ordered : data.ordered) (start : data.start = some (String.ofList (Text.Numeral.ofNat n)))
    (l : Layout) : Writer.startNumber data l = .ok (n : Int) l := by
  -- an empty start would stand for one
  have hsome : String.ofList (Text.Numeral.ofNat n) ≠ "" := by
    intro hempty
    have hnil := congrArg String.toList hempty
    rw [String.toList_ofList] at hnil
    exact (Text.Numeral.isDigits_ofNat n).1 hnil
  simp only [Writer.startNumber, start, ordered, if_true, String.toList_ofList,
    Text.Numeral.toInt_ofNat short]
  rfl

theorem marker_ofNat {n : Nat} (short : (Text.Numeral.ofNat n).length ≤ Text.Numeral.maxDigits)
    (ordered : data.ordered) (indexed : style.noIndex = false) :
    Writer.marker style data n = .ok (numberMark (data.delimiter == some "paren") n) := by
  have hshown : Text.Numeral.ofInt n = Text.Numeral.ofNat n := rfl
  have hfits : ¬ Text.Numeral.isLong (n : Int) := by
    rw [Text.Numeral.isLong, decide_eq_true_eq]
    exact Nat.not_lt.mpr short
  rw [Writer.marker, if_pos ordered, indexed]
  simp only [Bool.false_eq_true, if_false]
  rw [if_neg hfits, hshown]
  rfl

theorem IsListData.isNumbered (h : IsListData count tight data)
    (bullet : style.bullet ∈ ['-', '*', '+']) (indexed : style.noIndex = false) :
    ∃ start mark marker, IsNumbered style count data tight start mark marker := by
  cases h with
  | bullet =>
    exact ⟨1, bulletMark style.bullet, fun _ => .bullet style.bullet, {
      begins := fun _ => rfl
      marks := fun _ _ => rfl
      marking := isMarking_bullet bullet _
      isTight := by cases tight <;> rfl
      read := rfl
      interrupts := nofun }⟩
  | ordered start paren bounded =>
    have short : ∀ n ≤ 1000000000, (Text.Numeral.ofNat n).length ≤ Text.Numeral.maxDigits := by
      intro n hn
      have hten : (Text.Numeral.ofNat n).length ≤ 10 :=
        (Nat.length_toDigits_le_iff (by decide) (by decide)).mpr (Nat.lt_of_le_of_lt hn (by decide))
      exact hten.trans (by decide)
    have begins : ∀ l, Writer.startNumber {
        listType := "ordered"
        start := some (String.ofList (Text.Numeral.ofNat start))
        tight := some (if tight then "true" else "false")
        delimiter := some (if paren then "paren" else "period") } l = .ok (start : Int) l :=
      startNumber_ofNat (short start (by omega)) rfl rfl
    exact ⟨start, numberMark paren, fun n => .ordered n paren, {
      begins
      marks := fun i hi => by
        rw [marker_ofNat (short _ (by omega)) rfl indexed]
        cases paren <;> rfl
      marking := isMarking_number bounded paren _
      isTight := by cases tight <;> rfl
      read := rfl
      interrupts := by
        rintro item items can n _ ⟨⟩
        have hone := Writer.start_of_canInterrupt rfl can (funext begins)
        rw [indexed, if_neg Bool.false_ne_true] at hone
        exact Int.ofNat_inj.mp hone }⟩

end Canonmark.Markdown

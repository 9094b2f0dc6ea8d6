import Canonmark.Proofs.Markdown.PlainRoundTrip

/-! A block of code is read back as it was written, whatever its text holds. -/
namespace Canonmark.Markdown

variable {options : Option Options} {overrides : Members} {style : Style} {t : String}
    {info : Option String} {n : Nat}

/-- A document of one block of code. -/
def codeDocument (t : String) (info : Option String) : Node :=
  documentOf [.leaf (.codeBlock t info none) none]

/-- Code that ends with its last line, if it has one, and its info, which is a word, if there is
any. -/
structure IsCodeText (t : String) (info : Option String) : Prop where
  ends : t.toList = [] ∨ t.toList.getLast? = some '\n'
  clean : '\r' ∉ t.toList
  word : ∀ i ∈ info, i ≠ "" ∧ ∀ c ∈ i.toList, c.isAlphanum

theorem IsCodeText.word_getD (code : IsCodeText t info) :
    ∀ c ∈ (info.getD "").toList, c.isAlphanum := by
  cases info with
  | none => simp
  | some i => exact (code.word i rfl).2

theorem staysApart_code (t : String) (info : Option String) :
    StaysApart (.leaf (.codeBlock t info none) none) := by
  intro siblings
  rw [Merge.push]
  all_goals simp

/-- The fence that code needs in a style, if it can be written. -/
structure NeedsFence (style : Style) (t : String) (n : Nat) : Prop where
  fits : style.fenceMin.lengthFor? (longestRun 0 t.toList + 1) = some n
  room : n ≤ Writer.maxLength

theorem NeedsFence.fenceAround (h : NeedsFence style t n) :
    Writer.fenceAround style t.toList = .ok (Writer.fence n) := by
  rw [Writer.fenceAround, h.fits]
  exact if_neg (Nat.not_lt.mpr h.room)

/-- A fence is longer than each run of backticks in its code. -/
theorem NeedsFence.longestRun_lt (h : NeedsFence style t n) : longestRun 0 t.toList < n := by
  have hfits := h.fits
  cases hmin : style.fenceMin with
  | whole k =>
    rw [hmin] at hfits
    obtain rfl := Option.some.inj hfits
    exact Nat.lt_of_succ_le (Nat.le_max_right ..)
  | float x =>
    rw [hmin] at hfits
    obtain rfl := Option.some.inj (Option.ite_none_right_eq_some.mp hfits).2
    exact Nat.lt_succ_self _

theorem ComesTo.three_le_fence (h : ComesTo options overrides style)
    (checked : ∀ o ∈ options, o.check = .ok o) (fence : NeedsFence style t n) : 3 ≤ n := by
  obtain ⟨o, hmerge, rfl⟩ := h.exists_merged
  exact Options.three_le_fence (Options.check_of_merge checked hmerge) fence.fits

/-- Code is read back as it was written, and none of its lines closes the fence that stands before
it. -/
theorem fromMarkdown_toMarkdown_code (hstyle : ComesTo options overrides style)
    (checked : ∀ o ∈ options, o.check = .ok o) (code : IsCodeText t info)
    (fence : NeedsFence style t n) :
    (do let text ← toMarkdown (.tree (codeDocument t info)) options overrides
        fromMarkdown (.text text) none []) = .ok (codeDocument t info) ∧
    ∃ f, Start.find? .free true ⟨0, Writer.fence n ++ (info.getD "").toList⟩ = some (.fence f) ∧
      ∀ line ∈ Text.lines t.toList, ∀ column, Start.closes f ⟨column, line⟩ = false := by
  have hlong := hstyle.three_le_fence checked fence
  have hshort := fence.longestRun_lt
  constructor
  · have hkept : IsKeptIn style maxDepth (.leaf (.codeBlock t info none) none) ((Writer.fence n ++
          (info.getD "").toList) :: Writer.codeLines t.toList ++ [Writer.fence n]) :=
      { written := Writer.isWritten_fenced code.ends fence.fenceAround
        framed := isFramed_fenced code.clean code.word_getD hlong
        reads := readsApart_fenced code.ends code.word hlong hshort }
    have happart : ∀ m ∈ [.leaf (.codeBlock t info none) none], StaysApart m := by
      simpa using staysApart_code t info
    obtain ⟨text, hwrite, hread⟩ := exists_text_of_kept happart (by simpa using ⟨_, hkept⟩)
    rw [codeDocument, toMarkdown_of_write hstyle hwrite]
    exact hread
  · refine ⟨_, find?_fence hlong code.word_getD .free true 0, fun line hline column => ?_⟩
    exact closes_of_infix hshort (Text.infix_of_mem_lines hline).2 _ column

/-- Lines that look like fences, blank lines and a line of white space. -/
def fencedText : String := "\x60\x60\x60\n  ~~~\n\n \t\n\x60\x60\x60\x60 \n"

theorem fromMarkdown_toMarkdown_fencedText :
    ComesTo none [] {} ∧ IsCodeText fencedText (some "py3") ∧
    NeedsFence {} fencedText 5 ∧
    (do let text ← toMarkdown (.tree (codeDocument fencedText (some "py3"))) none []
        fromMarkdown (.text text) none []) = .ok (codeDocument fencedText (some "py3")) := by
  have hcode : IsCodeText fencedText (some "py3") :=
    { ends := .inr (by decide)
      clean := by decide
      word := by simp [Char.isAlphanum] }
  have hfence : NeedsFence {} fencedText 5 := ⟨by decide, by decide⟩
  exact ⟨comesTo_default, hcode, hfence,
    (fromMarkdown_toMarkdown_code comesTo_default (by simp) hcode hfence).1⟩

theorem write_of_fenceAround {f : WriteFault} (h : Writer.fenceAround style t.toList = .error f) :
    write style (codeDocument t info) = .error f := by
  have hnode : Finds (Writer.node style (.leaf (.codeBlock t info none) none)) [f] := by
    rw [Writer.node]
    refine finds_get.after fun l => ?_
    rw [h]
    exact finds_throw f
  have hblocks : Finds (Writer.blocks style [.leaf (.codeBlock t info none) none]) [f] := by
    have hnone : Finds (Writer.blocks style []) [] := by
      rw [Writer.blocks]
      exact finds_pure ()
    rw [Writer.blocks, if_neg (by simp [isInline]), Writer.block_leaf, bind_assoc]
    exact Writer.finds_startBlock.after fun _ => hnode.before fun _ => hnone
  have hdocument : Finds (Writer.node style (merged (codeDocument t info))) [f] := by
    rw [codeDocument, merged_documentOf (by simpa using staysApart_code t info),
      documentOf, Writer.node]
    exact hblocks
  exact write_of_finds (Writer.finds_document_of_node hdocument)

/-- Three and a half. -/
def threeAndAHalf : Binary64 := .ofDecimal false 35 (-1)

theorem comesTo_threeAndAHalf : ComesTo none [("code_fence_min", .float threeAndAHalf)]
    { fenceMin := .float threeAndAHalf } where
  sound := by simp
  merged := ⟨⟨.markdownRenderer, [("no_index", .bool false), ("escape_special", .bool true),
    ("bullet_symbol", .str "-"), ("code_fence_min", .float threeAndAHalf)]⟩, by rfl, rfl⟩

/-- A line of code has no fence if fences have to be longer than a text can be, or three and a half
backticks long. -/
theorem toMarkdown_of_uncountableFence :
    IsCodeText "a\n" none ∧
      (ComesTo none [("code_fence_min", .int (0x8000000000000000 : Nat))]
          { fenceMin := .whole 0x8000000000000000 } ∧
        toMarkdown (.tree (codeDocument "a\n" none)) none
            [("code_fence_min", .int (0x8000000000000000 : Nat))] =
          .error (.write .endlessFence)) ∧
      ComesTo none [("code_fence_min", .float threeAndAHalf)]
        { fenceMin := .float threeAndAHalf } ∧
      toMarkdown (.tree (codeDocument "a\n" none)) none [("code_fence_min", .float threeAndAHalf)] =
        .error (.write .uncountableFence) := by
  have hcode : IsCodeText "a\n" none :=
    { ends := .inr (by decide)
      clean := by decide
      word := by simp }
  have hlong := comesTo_fenceMin (k := 0x8000000000000000) (by decide)
  refine ⟨hcode, ⟨hlong, ?_⟩, comesTo_threeAndAHalf, ?_⟩
  · have hfence : Writer.fenceAround { fenceMin := .whole 0x8000000000000000 } "a\n".toList =
        .error .endlessFence := by
      decide
    rw [toMarkdown_eq hlong, write_of_fenceAround hfence]
    rfl
  · have hfence : Writer.fenceAround { fenceMin := .float threeAndAHalf } "a\n".toList =
        .error .uncountableFence := by
      decide
    rw [toMarkdown_eq comesTo_threeAndAHalf, write_of_fenceAround hfence]
    rfl

end Canonmark.Markdown

import Canonmark.Markdown.Inline
import Canonmark.Proofs.Text.Lines
import Mathlib.Data.List.TakeWhile

/-! How inline content is read: what a piece at the start of a text does to what has been read, and
what is left. -/
namespace Canonmark.Markdown.Inline

variable {ds : List Definition} {c : Char} {s rest : Chars} {st st' : Reading}

theorem readFrom_nil (n : Nat) : readFrom ds n [] st = st := by
  cases n <;> rfl

theorem readFrom_drop {n : Nat} (h : n ≤ s.length) :
    readFrom ds n s st = readFrom ds 0 (s.drop n) st := by
  induction n generalizing s with
  | zero => rfl
  | succ n ih =>
    cases s with
    | nil => cases h
    | cons c s =>
      rw [readFrom, List.drop_succ_cons]
      exact ih (by simpa using h)

/-- A step that leaves an end of the text is followed by the reading of this end. -/
theorem readFrom_of_step (h : step ds c s st = (st', rest)) (left : rest <:+ s) :
    readFrom ds 0 (c :: s) st = readFrom ds 0 rest st' := by
  rw [readFrom, h]
  obtain ⟨done, rfl⟩ := left
  have hlength : (done ++ rest).length - rest.length = done.length := by simp
  dsimp only
  rw [hlength, readFrom_drop (by simp), List.drop_left]

theorem step_of_isOrdinary (h : isOrdinary c) : step ds c s st = plainRun (c :: s) st := by
  unfold step
  split <;> first | rfl | cases h

/-- Plain text up to the end of what is read. -/
theorem readFrom_plain (some : s ≠ []) (plain : ∀ c ∈ s, isOrdinary c) :
    readFrom ds 0 s st = st.push (.plain s) := by
  obtain ⟨c, s, rfl⟩ := List.exists_cons_of_ne_nil some
  have hrun : (c :: s).takeWhile isOrdinary = c :: s := List.takeWhile_eq_self_iff.mpr plain
  have hstep : step ds c s st = (st.push (.plain (c :: s)), []) := by
    rw [step_of_isOrdinary (plain c (by simp)), plainRun, hrun, List.drop_length]
    rfl
  rw [readFrom_of_step hstep (List.nil_suffix), readFrom_nil]

/-- Plain text up to a sign that may begin something. -/
theorem readFrom_plain_append (some : s ≠ []) (plain : ∀ c ∈ s, isOrdinary c)
    (special : isOrdinary c = false) (other : c ≠ '\n') :
    readFrom ds 0 (s ++ c :: rest) st = readFrom ds 0 (c :: rest) (st.push (.plain s)) := by
  obtain ⟨d, s, rfl⟩ := List.exists_cons_of_ne_nil some
  have hrun : (d :: (s ++ c :: rest)).takeWhile isOrdinary = d :: s := by
    rw [← List.cons_append, List.takeWhile_append_of_pos plain,
      List.takeWhile_cons_of_neg (by simp [special]), List.append_nil]
  have hdrop : (d :: (s ++ c :: rest)).drop (d :: s).length = c :: rest := by
    rw [← List.cons_append, List.drop_left]
  have hstep : step ds d (s ++ c :: rest) st = (st.push (.plain (d :: s)), c :: rest) := by
    rw [step_of_isOrdinary (plain d (by simp)), plainRun, hrun, hdrop]
    split
    · rename_i heq
      cases heq
      exact absurd rfl other
    · rfl
  exact readFrom_of_step hstep (List.suffix_append s _)

/-- Plain text up to the end of a line, no white space being around the end. -/
theorem readFrom_line (ends : ∃ t d, s = t ++ [d] ∧ d ≠ ' ') (plain : ∀ c ∈ s, isOrdinary c)
    (begins : ∃ d t, rest = d :: t ∧ isSpace d = false) :
    readFrom ds 0 (s ++ '\n' :: rest) st =
      readFrom ds 0 rest ((st.push (.plain s)).push (.sign .softbreak)) := by
  have hrest : rest.dropWhile isSpace = rest := by
    obtain ⟨d, t, rfl, hd⟩ := begins
    exact Text.dropWhile_of_head hd
  have htrim : Text.dropEndWhile (· == ' ') s = s := by
    obtain ⟨t, d, rfl, hd⟩ := ends
    exact Text.dropEndWhile_of_getLast (by simpa using hd) t
  have hrun : (s ++ '\n' :: rest).takeWhile isOrdinary = s := by
    rw [List.takeWhile_append_of_pos plain, List.takeWhile_cons_of_neg (by decide), List.append_nil]
  obtain ⟨d, t, rfl⟩ : ∃ d t, s = d :: t := by
    obtain ⟨t, d, rfl, _⟩ := ends
    exact List.exists_cons_of_ne_nil (by simp)
  have hstep : step ds d (t ++ '\n' :: rest) st =
      ((st.push (.plain (d :: t))).push (.sign .softbreak), rest) := by
    rw [step_of_isOrdinary (plain d (by simp)), plainRun, ← List.cons_append, hrun, List.drop_left]
    have hshort : ¬ (d :: t).length + 2 ≤ (d :: t).length := by omega
    simp only [htrim, hrest, if_neg hshort]
    rfl
  exact readFrom_of_step hstep ((List.suffix_cons _ _).trans (List.suffix_append t _))

/-- Without an open bracket, the pieces of a text are those that were read. -/
theorem pieces_of_readFrom {ps : List Piece} (h : readFrom ds 0 s {} = { base := ps }) :
    pieces ds s = ps.reverse := by
  rw [pieces, h]
  rfl

end Canonmark.Markdown.Inline

namespace Canonmark.Markdown.Emphasis

/-- Where no part holds a sign of emphasis, the parts stay as they are. -/
theorem tokensOf_of_plain {ps : List Part} (h : ∀ p ∈ ps, holdsSigns p = false) (limit : Nat) :
    tokensOf limit ps = ps.map plainToken := by
  have hany : ps.any holdsSigns = false := by simpa using h
  rw [tokensOf, hany]
  rfl

end Canonmark.Markdown.Emphasis

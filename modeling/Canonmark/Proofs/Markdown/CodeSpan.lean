import Canonmark.Proofs.Markdown.PlainRoundTrip
import Canonmark.Proofs.Markdown.Scan

/-! A code span is read back as it was written, whatever backticks and spaces its text holds. -/
namespace Canonmark.Markdown

variable {s t : Chars} {n current : Nat} {c : Char}

/-- Whether the text of a code span is padded with a space at each end. -/
def isPadded (t : Chars) : Bool :=
  t.head? == some '\x60' || t.getLast? == some '\x60' ||
    t.head? == some ' ' && t.getLast? == some ' ' && !(Text.trim t).isEmpty

/-- What stands between the backticks of a code span. -/
def spanBody (t : Chars) : Chars := if isPadded t then ' ' :: t ++ [' '] else t

theorem codeSpan_eq (t : Chars) :
    Writer.codeSpan t =
      Writer.fence (longestRun 0 t + 1) ++ (spanBody t ++ Writer.fence (longestRun 0 t + 1)) := by
  have hspan : Writer.codeSpan t = if isPadded t then
      Writer.fence (longestRun 0 t + 1) ++ ' ' :: t ++ ' ' :: Writer.fence (longestRun 0 t + 1)
    else Writer.fence (longestRun 0 t + 1) ++ t ++ Writer.fence (longestRun 0 t + 1) := rfl
  rw [hspan, spanBody]
  split <;> simp

theorem codeSpan_cons (t : Chars) :
    Writer.codeSpan t = '\x60' :: (Writer.fence (longestRun 0 t) ++
      (spanBody t ++ Writer.fence (longestRun 0 t + 1))) := codeSpan_eq t

theorem longestRun_cons (other : c ≠ '\x60') (s : Chars) :
    longestRun 0 (c :: s) = longestRun 0 s := by
  rw [longestRun, if_neg (by simpa using other), Nat.zero_max]

theorem longestRun_concat (other : c ≠ '\x60') (current : Nat) (s : Chars) :
    longestRun current (s ++ [c]) = longestRun current s := by
  induction s generalizing current with
  | nil => simp [longestRun, other]
  | cons d s ih => rw [List.cons_append, longestRun, longestRun, ih, ih]

theorem longestRun_spanBody (t : Chars) : longestRun 0 (spanBody t) = longestRun 0 t := by
  unfold spanBody
  split
  · rw [List.cons_append, longestRun_cons (by decide), longestRun_concat (by decide)]
  · rfl

theorem spanBody_ne_nil (some : t ≠ []) : spanBody t ≠ [] := by
  unfold spanBody
  split
  · simp
  · exact some

/-- No backtick stands at an end, where it would lengthen the run there. -/
theorem ends_spanBody (t : Chars) :
    (spanBody t).head? ≠ some '\x60' ∧ (spanBody t).getLast? ≠ some '\x60' := by
  unfold spanBody
  split
  · rw [List.getLast?_concat]
    simp
  · rename_i hplain
    rw [isPadded] at hplain
    constructor <;> intro hend <;> simp [hend] at hplain

/-- The backticks at the start of a code span are those before its text. -/
theorem takeWhile_spanBody (some : t ≠ []) (n : Nat) (after : Chars) :
    (Writer.fence n ++ (spanBody t ++ after)).takeWhile (· == '\x60') = Writer.fence n := by
  obtain ⟨d, ds, hcons⟩ := List.exists_cons_of_ne_nil (spanBody_ne_nil some)
  have hother : d ≠ '\x60' := by
    have hhead := (ends_spanBody t).1
    rw [hcons] at hhead
    simpa using hhead
  rw [hcons, List.takeWhile_append_of_pos fun c hc => by simp [List.eq_of_mem_replicate hc],
    List.cons_append, List.takeWhile_cons_of_neg (by simpa using hother), List.append_nil]

theorem mem_spanBody (h : c ∈ spanBody t) : c = ' ' ∨ c ∈ t := by
  unfold spanBody at h
  split at h
  · simpa [or_comm, or_left_comm] using h
  · exact .inr h

/-- Where all white space is spaces, trimming leaves something just if there is more than spaces. -/
theorem exists_ink_iff (blanks : ∀ c ∈ t, Text.isBlank c → c = ' ') :
    (∃ c ∈ t, c ≠ ' ') ↔ Text.trim t ≠ [] := by
  constructor
  · rintro ⟨c, hc, hother⟩ hnil
    exact hother (blanks c hc (Text.isBlank_of_trim_eq_nil hnil c hc))
  · intro hsome
    by_contra hspaces
    push Not at hspaces
    have hblank : ∀ c ∈ t, Text.isBlank c := by
      intro c hc
      rw [hspaces c hc]
      rfl
    have hstart : Text.trimStart t = [] := List.dropWhile_eq_nil_iff.mpr hblank
    exact hsome (by rw [Text.trim, hstart]; rfl)

/-- A text that is nothing but spaces is not padded. -/
theorem exists_ink_of_isPadded (blanks : ∀ c ∈ t, Text.isBlank c → c = ' ') (h : isPadded t) :
    ∃ c ∈ t, c ≠ ' ' := by
  simp only [isPadded, Bool.or_eq_true, Bool.and_eq_true, beq_iff_eq, Bool.not_eq_true',
    List.isEmpty_eq_false_iff] at h
  obtain (hhead | hlast) | ⟨-, hink⟩ := h
  · exact ⟨'\x60', List.mem_of_head? hhead, by decide⟩
  · exact ⟨'\x60', List.mem_of_getLast? hlast, by decide⟩
  · exact (exists_ink_iff blanks).mpr hink

/-- No line end is left to be read as a space. -/
theorem map_space_spanBody (blanks : ∀ c ∈ t, Text.isBlank c → c = ' ') :
    (spanBody t).map (fun c => if c == '\n' then ' ' else c) = spanBody t := by
  refine (List.map_congr_left fun c hc => if_neg ?_).trans (List.map_id _)
  intro hbreak
  obtain rfl := beq_iff_eq.mp hbreak
  obtain h | h := mem_spanBody hc
  · cases h
  · exact absurd (blanks '\n' h rfl) (by decide)

/-- What is padded loses its padding, and what is not padded loses no space of its own. -/
theorem codeText_spanBody (blanks : ∀ c ∈ t, Text.isBlank c → c = ' ') :
    Inline.codeText (spanBody t) = t := by
  rw [Inline.codeText, map_space_spanBody blanks, spanBody]
  split
  · rename_i hpadded
    have hany := exists_ink_of_isPadded blanks hpadded
    rw [if_pos]
    · simp
    · rw [List.getLast?_concat]
      simpa using hany
  · rename_i hplain
    refine if_neg fun hspaces => hplain ?_
    simp only [Bool.and_eq_true, List.any_eq_true, bne_iff_ne] at hspaces
    obtain ⟨⟨hhead, hlast⟩, hany⟩ := hspaces
    simp [isPadded, hhead, hlast, (exists_ink_iff blanks).mp hany]

theorem codeBody?_fence {rest : Chars} (ends : rest.head? ≠ some '\x60') (n current : Nat) :
    Inline.codeBody? (current + n) current (Writer.fence n ++ rest) =
    some (Writer.fence n, rest) := by
  induction n generalizing current with
  | zero =>
    obtain _ | ⟨c, rest⟩ := rest
    · simp [Writer.fence, Inline.codeBody?]
    · have hother : c ≠ '\x60' := by simpa using ends
      simp [Writer.fence, Inline.codeBody?, hother]
  | succ n ih =>
    have hrest := ih (current + 1)
    rw [Nat.add_right_comm, Nat.add_assoc] at hrest
    have hfence : Writer.fence (n + 1) ++ rest = '\x60' :: (Writer.fence n ++ rest) := rfl
    rw [hfence, Inline.codeBody?, beq_self_eq_true, if_pos rfl, hrest]
    rfl

/-- A text whose runs of backticks are all shorter than the closing one goes up to that one. -/
theorem codeBody?_append {rest : Chars} (ends : rest.head? ≠ some '\x60')
    (short : longestRun current s < n) (first : s = [] → current = 0)
    (last : s.getLast? ≠ some '\x60') :
    Inline.codeBody? n current (s ++ (Writer.fence n ++ rest)) =
      some (s ++ Writer.fence n, rest) := by
  induction s generalizing current with
  | nil =>
    obtain rfl := first rfl
    have hfence := codeBody?_fence ends n 0
    rwa [Nat.zero_add] at hfence
  | cons c s ih =>
    rw [List.cons_append, Inline.codeBody?]
    by_cases hc : c = '\x60'
    · subst hc
      have hsome : s ≠ [] := by
        rintro rfl
        exact last rfl
      rw [longestRun, beq_self_eq_true, if_pos rfl] at short
      rw [beq_self_eq_true, if_pos rfl, ih short (fun hnil => absurd hnil hsome)
        (by rwa [List.getLast?_cons_of_ne_nil hsome] at last)]
      rfl
    · rw [longestRun, if_neg (by simpa using hc)] at short
      have hother : ¬(current == n) := by
        have hlt := (Nat.le_max_left current (longestRun 0 s)).trans_lt short
        simpa using hlt.ne
      have hlast : s.getLast? ≠ some '\x60' := by
        cases s with
        | nil => simp
        | cons d s => exact last
      rw [if_neg (by simpa using hc), if_neg hother,
        ih ((Nat.le_max_right ..).trans_lt short) (fun _ => rfl) hlast]
      rfl

theorem code?_spanBody {rest : Chars} (ends : rest.head? ≠ some '\x60')
    (blanks : ∀ c ∈ t, Text.isBlank c → c = ' ') :
    Inline.code? (longestRun 0 t + 1)
      (spanBody t ++ (Writer.fence (longestRun 0 t + 1) ++ rest)) = some (t, rest) := by
  have hshort : longestRun 0 (spanBody t) < longestRun 0 t + 1 := by
    rw [longestRun_spanBody]
    exact Nat.lt_succ_self _
  have hlength : (Writer.fence (longestRun 0 t + 1)).length = longestRun 0 t + 1 :=
    List.length_replicate
  rw [Inline.code?, codeBody?_append ends hshort (fun _ => rfl) (ends_spanBody t).2,
    Option.map_some]
  dsimp only
  rw [List.length_append, hlength, Nat.add_sub_cancel, List.take_left, codeText_spanBody blanks]

/-- A code span is read as one piece, if no backtick follows it. -/
theorem readFrom_codeSpan (some : t ≠ []) (blanks : ∀ c ∈ t, Text.isBlank c → c = ' ')
    {rest : Chars} (ends : rest.head? ≠ .some '\x60') (ds : List Definition) (st : Inline.Reading) :
    Inline.readFrom ds 0 (Writer.codeSpan t ++ rest) st =
    Inline.readFrom ds 0 rest (st.push (.verbatim .code t)) := by
  have hlength : (Writer.fence (longestRun 0 t)).length = longestRun 0 t := List.length_replicate
  have hsplit : Writer.codeSpan t ++ rest = '\x60' :: (Writer.fence (longestRun 0 t) ++
      (spanBody t ++ (Writer.fence (longestRun 0 t + 1) ++ rest))) := by
    rw [codeSpan_cons]
    simp
  have hstep : Inline.step ds '\x60'
      (Writer.fence (longestRun 0 t) ++ (spanBody t ++ (Writer.fence (longestRun 0 t + 1) ++ rest)))
      st = (st.push (.verbatim .code t), rest) := by
    rw [Inline.step, takeWhile_spanBody some, hlength, List.drop_left' hlength,
      code?_spanBody ends blanks]
  have hleft : rest <:+ Writer.fence (longestRun 0 t) ++
      (spanBody t ++ (Writer.fence (longestRun 0 t + 1) ++ rest)) :=
    ⟨_, by rw [← List.append_assoc, ← List.append_assoc]⟩
  rw [hsplit, Inline.readFrom_of_step hstep hleft]

/-- A code span is read as one token. -/
theorem tokens_codeSpan (some : t ≠ []) (blanks : ∀ c ∈ t, Text.isBlank c → c = ' ')
    (ds : List Definition) :
    Inline.tokens ds (Writer.codeSpan t) = [.verbatim .code (String.ofList t)] := by
  have hread : Inline.readFrom ds 0 (Writer.codeSpan t ++ []) {} =
      Inline.readFrom ds 0 [] { base := [.verbatim .code t] } :=
    readFrom_codeSpan some blanks (by simp) ds {}
  rw [List.append_nil, Inline.readFrom_nil] at hread
  rw [Inline.tokens, Inline.pieces_of_readFrom hread]
  rfl

theorem mem_trimSpaces (ink : isSpace c = false) (h : c ∈ s) : c ∈ trimSpaces s := by
  have hfirst : c ∈ s.dropWhile isSpace := by
    rw [← List.takeWhile_append_dropWhile (p := isSpace) (l := s)] at h
    refine (List.mem_append.mp h).resolve_left fun hmem => ?_
    rw [List.mem_takeWhile_imp hmem] at ink
    cases ink
  rw [← Text.dropEndWhile_append_takeEndWhile isSpace (s.dropWhile isSpace)] at hfirst
  refine (List.mem_append.mp hfirst).resolve_right fun hmem => ?_
  rw [Text.takeEndWhile, List.mem_reverse] at hmem
  rw [List.mem_takeWhile_imp hmem] at ink
  cases ink

/-- A code span opens no fence, however long its runs are, since backticks stand behind its text. -/
theorem fence?_codeSpan (some : t ≠ []) : Start.fence? 0 (Writer.codeSpan t) = none := by
  have hrun := takeWhile_spanBody some (longestRun 0 t + 1) (Writer.fence (longestRun 0 t + 1))
  have hlength : (Writer.fence (longestRun 0 t + 1)).length = longestRun 0 t + 1 :=
    List.length_replicate
  have hdrop : (Writer.codeSpan t).drop (longestRun 0 t + 1) =
      spanBody t ++ Writer.fence (longestRun 0 t + 1) := by
    rw [codeSpan_eq, List.drop_left' hlength]
  have hbehind : '\x60' ∈ trimSpaces (spanBody t ++ Writer.fence (longestRun 0 t + 1)) :=
    mem_trimSpaces rfl (List.mem_append_right _ List.mem_cons_self)
  rw [← codeSpan_eq] at hrun
  rw [codeSpan_cons] at hrun hdrop ⊢
  rw [Start.fence?, hrun, hlength, hdrop]
  simp [hbehind]

theorem find?_codeSpan (some : t ≠ []) (context : Context) (nests : Bool) (column : Nat) :
    Start.find? context nests ⟨column, Writer.codeSpan t⟩ = none := by
  have hfence := fence?_codeSpan some
  rw [codeSpan_cons] at hfence ⊢
  refine find?_of_head rfl (by simp) hfence ?_ context nests
  rw [Start.item?, atContent_of_head rfl]
  rfl

theorem blanks_codeSpan (blanks : ∀ c ∈ t, Text.isBlank c → c = ' ') :
    ∀ c ∈ Writer.codeSpan t, Text.isBlank c → c = ' ' := by
  have hfence : ∀ c ∈ Writer.fence (longestRun 0 t + 1), Text.isBlank c → c = ' ' := by
    intro c hmem hblank
    obtain rfl := List.eq_of_mem_replicate hmem
    cases hblank
  rw [codeSpan_eq]
  refine List.forall_mem_append.mpr
    ⟨hfence, List.forall_mem_append.mpr ⟨fun c hmem hblank => ?_, hfence⟩⟩
  exact (mem_spanBody hmem).elim id fun hc => blanks c hc hblank

theorem isFramed_codeSpan (blanks : ∀ c ∈ t, Text.isBlank c → c = ' ') :
    IsFramed [Writer.codeSpan t] := by
  have hbreak : ∀ c, Text.isBlank c → c ≠ ' ' → c ∉ Writer.codeSpan t :=
    fun c hblank hspace hmem => hspace (blanks_codeSpan blanks c hmem hblank)
  have hlast : (Writer.codeSpan t).getLast? = some '\x60' := by
    rw [codeSpan_eq, Writer.fence, List.replicate_succ', ← List.append_assoc, ← List.append_assoc,
      List.getLast?_concat]
  exact isFramed_singleton ⟨hbreak '\n' rfl (by decide), hbreak '\r' rfl (by decide)⟩
    ⟨⟨'\x60', by rw [codeSpan_cons]; rfl, rfl⟩, '\x60', hlast, rfl⟩

/-- A paragraph of one code span. -/
def codeParagraph (text : String) : Node := .branch .paragraph none [.leaf (.code text) none]

theorem staysApart_codeParagraph (text : String) : StaysApart (codeParagraph text) :=
  staysApart_branch rfl (by simp) (by simp) (by simp [Container.kind])

theorem isKeptIn_codeSpan {style : Style} {levels : Nat} {text : String} (some : text ≠ "")
    (blanks : ∀ c ∈ text.toList, Text.isBlank c → c = ' ') :
    IsKeptIn style levels (codeParagraph text) [Writer.codeSpan text.toList] := by
  have hsome : text.toList ≠ [] := by simpa using some
  have hframed := isFramed_codeSpan blanks
  refine { written := Writer.isWritten_single rfl fun l _ => ?_, framed := hframed, reads := ?_ }
  · rw [Writer.node]
    exact Writer.writes_emit _ l
  · refine readsApart_line hframed (fun o column => ?_) fun ds => ?_
    · have hfind := find?_codeSpan hsome .free (decide (0 < levels)) column
      rw [codeSpan_cons] at hfind ⊢
      exact advance_idle_of_none rfl (by decide) hfind o
    · rw [tokens_codeSpan hsome blanks, String.ofList_toList]
      exact (gives_verbatim .code text).token

/-- A code span is read back as it was written. -/
theorem fromMarkdown_toMarkdown_codeSpan {options : Option Options} {overrides : Members}
    {style : Style} (hstyle : ComesTo options overrides style) {text : String} (some : text ≠ "")
    (blanks : ∀ c ∈ text.toList, Text.isBlank c → c = ' ') :
    (do let written ← toMarkdown (.tree (documentOf [codeParagraph text])) options overrides
        fromMarkdown (.text written) none []) = .ok (documentOf [codeParagraph text]) := by
  have happart : ∀ n ∈ [codeParagraph text], StaysApart n := by
    simpa using staysApart_codeParagraph text
  have hkept : ∀ n ∈ [codeParagraph text], ∃ ls, IsKeptIn style maxDepth n ls := by
    simpa using ⟨_, isKeptIn_codeSpan some blanks⟩
  obtain ⟨written, hwrite, hread⟩ := exists_text_of_kept happart hkept
  rw [toMarkdown_of_write hstyle hwrite]
  exact hread

/-- A text with a space at its start, two runs of backticks, and backticks at its end. -/
def tickedText : String := " a\x60\x60\x60b \x60\x60"

theorem fromMarkdown_toMarkdown_tickedText :
    ComesTo none [] {} ∧ tickedText ≠ "" ∧
      (∀ c ∈ tickedText.toList, Text.isBlank c → c = ' ') ∧
      (do let written ← toMarkdown (.tree (documentOf [codeParagraph tickedText])) none []
          fromMarkdown (.text written) none []) = .ok (documentOf [codeParagraph tickedText]) := by
  have hsome : tickedText ≠ "" := by decide
  have hblanks : ∀ c ∈ tickedText.toList, Text.isBlank c → c = ' ' := by
    simp [tickedText, Text.isBlank]
  exact ⟨comesTo_default, hsome, hblanks,
    fromMarkdown_toMarkdown_codeSpan comesTo_default hsome hblanks⟩

end Canonmark.Markdown

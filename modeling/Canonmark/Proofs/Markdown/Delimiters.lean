import Canonmark.Proofs.Markdown.Levels
import Canonmark.Proofs.Outcome
import Canonmark.Proofs.Text.Lines

/-! What the delimiters of emphasis enclose. White space at the ends is outside, and so is a hard
break at the end, unless white space stands before it. -/
namespace Canonmark.Markdown.Writer

open Text (isBlank Bounded)

/-- The text of inline content as emphasis, where its nodes are visited one by one. -/
def emphasized (visit : Node → Writing Unit) (delimiter : Chars) (children : List Node) :
    Writing Chars :=
  do
  let inner ← inlineText visit children
  pure (delimited delimiter inner)

/-- The delimiter of an emphasis. -/
def delimiterOf? : Container → Option Chars
  | .emph => some ['*']
  | .strong => some ['*', '*']
  | _ => none

/-- What may follow the closing delimiter: white space, or a hard break, the backslash of which is
not escaped by the content before it. -/
inductive IsTrail (content : Chars) : Chars → Prop
  | blank {trail : Chars} (blank : ∀ c ∈ trail, isBlank c) : IsTrail content trail
  | hardBreak {trail : Chars} (unescaped : (Text.takeEndWhile (· == '\\') content).length % 2 = 0)
      (blank : ∀ c ∈ trail, isBlank c) : IsTrail content ('\\' :: '\n' :: trail)

/-- A text with delimiters around all of it that can be emphasized, or the text itself if that is
nothing. -/
inductive Encloses (delimiter inner : Chars) : Chars → Prop
  | blank (h : ∀ c ∈ inner, isBlank c) : Encloses delimiter inner inner
  | hardBreak {lead trail : Chars} (parts : inner = lead ++ '\\' :: '\n' :: trail)
      (before : ∀ c ∈ lead, isBlank c) (after : ∀ c ∈ trail, isBlank c) :
      Encloses delimiter inner inner
  | content {lead content trail : Chars} (parts : inner = lead ++ content ++ trail)
      (before : ∀ c ∈ lead, isBlank c) (bounded : Bounded isBlank content)
      (after : IsTrail content trail) :
      Encloses delimiter inner (lead ++ delimiter ++ content ++ delimiter ++ trail)

/-- A text that ends in a hard break with white space before it, or with nothing. -/
structure EndsInLooseBreak (inner before trail : Chars) : Prop where
  parts : inner = before ++ '\\' :: '\n' :: trail
  loose : ∀ c ∈ before.getLast?, isBlank c
  blank : ∀ c ∈ trail, isBlank c

variable {delimiter inner before trail s : Chars}

/-- An odd number of backslashes ends in one that is not escaped. -/
theorem exists_unescaped_backslash (odd : (Text.takeEndWhile (· == '\\') s).length % 2 = 1) :
    ∃ t, s = t ++ ['\\'] ∧ (Text.takeEndWhile (· == '\\') t).length % 2 = 0 := by
  obtain rfl | ⟨t, c, rfl⟩ := s.eq_nil_or_concat'
  · cases odd
  · rw [Text.takeEndWhile_concat] at odd
    split at odd
    · rename_i hc
      rw [beq_iff_eq] at hc
      subst hc
      refine ⟨t, rfl, ?_⟩
      rw [List.length_append, List.length_singleton] at odd
      omega
    · cases odd

theorem delimited_of_ink (h : Text.trim inner ≠ []) :
    delimited delimiter inner =
      if (Text.takeEndWhile isBlank inner).head? == some '\n' &&
          (Text.takeEndWhile (· == '\\') (Text.trim inner)).length % 2 == 1 then
        inner.takeWhile isBlank ++ delimiter ++ (Text.trim inner).dropLast ++ delimiter ++
          '\\' :: Text.takeEndWhile isBlank inner
      else
        inner.takeWhile isBlank ++ delimiter ++ Text.trim inner ++ delimiter ++
          Text.takeEndWhile isBlank inner := by
  have hsome : (Text.trim inner).isEmpty = false := by simpa using h
  rw [delimited, hsome]
  rfl

/-- Unless a text ends in a loose hard break, its delimiters enclose what can be emphasized. -/
theorem encloses_delimited (firm : ∀ before trail, ¬EndsInLooseBreak inner before trail) :
    Encloses delimiter inner (delimited delimiter inner) := by
  by_cases hnil : Text.trim inner = []
  · rw [delimited, hnil]
    exact .blank (Text.isBlank_of_trim_eq_nil hnil)
  obtain ⟨hparts, hbounded⟩ := Text.trim_parts hnil
  have hlead : ∀ c ∈ inner.takeWhile isBlank, isBlank c := fun _ => Text.isBlank_of_mem_takeWhile
  have htrail : ∀ c ∈ Text.takeEndWhile isBlank inner, isBlank c :=
    fun _ => Text.isBlank_of_mem_takeEndWhile
  rw [delimited_of_ink hnil]
  split
  · rename_i hbreak
    simp only [Bool.and_eq_true, beq_iff_eq] at hbreak
    obtain ⟨hnewline, hodd⟩ := hbreak
    obtain ⟨trail, htrail'⟩ := List.head?_eq_some_iff.mp hnewline
    obtain ⟨content, hcontent, heven⟩ := exists_unescaped_backslash hodd
    rw [htrail', hcontent] at hparts
    have hblank : ∀ c ∈ trail, isBlank c :=
      fun c hc => htrail c (htrail' ▸ List.mem_cons_of_mem _ hc)
    have hinner : inner = inner.takeWhile isBlank ++ content ++ '\\' :: '\n' :: trail := by
      conv => lhs; rw [hparts]
      simp
    -- The content that is left has ink at its end: the break is not a loose one.
    have hlast : ∃ c ∈ content.getLast?, isBlank c = false := by
      by_contra hnone
      push Not at hnone
      refine firm (inner.takeWhile isBlank ++ content) trail ⟨hinner, fun c hc => ?_, hblank⟩
      rw [Option.mem_def, List.getLast?_append, Option.or_eq_some_iff] at hc
      obtain hc | ⟨-, hc⟩ := hc
      · simpa using hnone c hc
      · exact hlead c (List.mem_of_getLast? hc)
    have hfirst : ∃ c ∈ content.head?, isBlank c = false := by
      obtain ⟨c, hc, hink⟩ := hbounded.1
      obtain ⟨d, hd, -⟩ := hlast
      have hsome : content ≠ [] := by
        rintro rfl
        cases hd
      rw [hcontent, List.head?_append_of_ne_nil _ hsome] at hc
      exact ⟨c, hc, hink⟩
    rw [hcontent, List.dropLast_concat, htrail']
    exact .content hinner hlead ⟨hfirst, hlast⟩ (.hardBreak heven hblank)
  · exact .content hparts hlead hbounded (.blank htrail)

/-- The delimiters around a text that ends in a loose hard break: the closing one follows white
space or the opening one. -/
theorem delimited_of_looseBreak (h : EndsInLooseBreak inner before trail) :
    delimited delimiter
      inner = before.takeWhile isBlank ++ delimiter ++ before.dropWhile isBlank ++ delimiter ++
        '\\' :: '\n' :: trail := by
  obtain ⟨rfl, hloose, hblank⟩ := h
  have hink : isBlank '\\' = false := rfl
  have hrest : ∀ c ∈ '\n' :: trail, isBlank c := List.forall_mem_cons.mpr ⟨rfl, hblank⟩
  have hlead : (before ++ '\\' :: '\n' :: trail).takeWhile isBlank = before.takeWhile isBlank := by
    rw [List.takeWhile_append, List.takeWhile_cons_of_neg (by simp [hink])]
    split
    · rename_i hlength
      rw [List.append_nil, (List.takeWhile_prefix isBlank).eq_of_length hlength]
    · rfl
  have hstart : Text.trimStart (before ++ '\\' :: '\n' :: trail) = before.dropWhile isBlank ++
      '\\' :: '\n' :: trail := by
    rw [Text.trimStart, List.dropWhile_append, Text.dropWhile_of_head hink]
    split
    · rename_i hempty
      rw [List.isEmpty_iff.mp hempty, List.nil_append]
    · rfl
  have htrim : Text.trim (before ++ '\\' :: '\n' :: trail) =
      before.dropWhile isBlank ++ ['\\'] := by
    rw [Text.trim, hstart, Text.trimEnd, (Text.takeEndWhile_of_forall hink _ hrest).2]
  -- The one backslash at the end is not escaped.
  have hone : Text.takeEndWhile (· == '\\') (before.dropWhile isBlank ++ ['\\']) = ['\\'] := by
    rw [Text.takeEndWhile_concat, if_pos (beq_self_eq_true _)]
    obtain hnil | ⟨t, c, hconcat⟩ := (before.dropWhile isBlank).eq_nil_or_concat'
    · rw [hnil]
      rfl
    · have hc : isBlank c := by
        refine hloose c ?_
        rw [← List.takeWhile_append_dropWhile (p := isBlank) (l := before), hconcat]
        simp
      have hother : (c == '\\') = false := by
        rw [beq_eq_false_iff_ne]
        rintro rfl
        cases hc
      rw [hconcat, Text.takeEndWhile_concat, hother]
      rfl
  rw [delimited_of_ink (by simp [htrim]), hlead, htrim,
    (Text.takeEndWhile_of_forall hink _ hrest).1, hone]
  simp

/-- Emphasis is written with its own delimiter. -/
theorem node_emphasis {c : Container} (hc : delimiterOf? c = some delimiter) (style : Style)
    (span : Option Span) (children : List Node) :
    node style (merged (.branch c span children)) =
      (emphasized (fun n => node style (merged n)) delimiter children >>= emit) := by
  rw [node_merged]
  cases c with
  | emph | strong =>
    cases hc
    rw [step, emphasized, bind_assoc]
    simp only [pure_bind]
  | _ => cases hc

/-- Emphasis encloses what can be emphasized in its content, unless the content ends in a hard break
with white space or nothing before it: then the closing delimiter follows that. -/
theorem emphasized_encloses {style : Style} {children : List Node} {l l' : Layout}
    (h : inlineText (fun n => node style (merged n)) children l = .ok inner l')
    (delimiter : Chars) :
    ∃ t, emphasized (fun n => node style (merged n)) delimiter children l = .ok t l' ∧
      (∀ c span, delimiterOf? c = some delimiter →
        node style (merged (.branch c span children)) l = .ok () { l' with out := t :: l'.out }) ∧
      ((∀ before trail, ¬EndsInLooseBreak inner before trail) → Encloses delimiter inner t) ∧
      ∀ before trail, EndsInLooseBreak inner before trail →
        t = before.takeWhile isBlank ++ delimiter ++
          before.dropWhile isBlank ++ delimiter ++ '\\' :: '\n' :: trail := by
  have hrun : emphasized (fun n => node style (merged n)) delimiter children l =
      .ok (delimited delimiter inner) l' := by
    rw [emphasized, run_bind_of_ok h]
    rfl
  refine ⟨_, hrun, fun c span hc => ?_, encloses_delimited, fun _ _ => delimited_of_looseBreak⟩
  rw [node_emphasis hc, run_bind_of_ok hrun]
  rfl

/-- White space and a text before a hard break. -/
def brokenText : List Node :=
  [.leaf (.text " a") none, .leaf .linebreak none, .leaf (.text "\t") none]

theorem emphasized_brokenText :
    inlineText (fun n => node {} (merged n)) brokenText { indent := 2 } =
        .ok [' ', 'a', '\\', '\n', ' ', ' ', '\t'] { indent := 2 } ∧
      ∃ t, emphasized (fun n => node {} (merged n)) ['*'] brokenText { indent := 2 } =
        .ok t { indent := 2 } ∧
        (∀ c span, delimiterOf? c = some ['*'] →
          node {} (merged (.branch c span brokenText)) { indent := 2 } =
          .ok () { indent := 2, out := [t] }) ∧
        Encloses ['*'] [' ', 'a', '\\', '\n', ' ', ' ', '\t'] t := by
  have h : inlineText (fun n => node {} (merged n)) brokenText { indent := 2 } =
      .ok [' ', 'a', '\\', '\n', ' ', ' ', '\t'] { indent := 2 } := by
    have hmerge : mergeAdjacent brokenText = brokenText := rfl
    rw [inlineText, hmerge]
    simp only [brokenText, List.forM_cons, List.forM_nil, merged_leaf, node]
    rfl
  obtain ⟨t, hrun, hnode, hencloses, -⟩ := emphasized_encloses h ['*']
  refine ⟨h, t, hrun, hnode, hencloses ?_⟩
  rintro before trail ⟨parts, loose, -⟩
  obtain _ | ⟨x, _ | ⟨y, _ | ⟨z, rest⟩⟩⟩ := before
  · cases parts
  · cases parts
  · obtain rfl : 'a' = y := (List.cons.inj (List.cons.inj parts).2).1
    cases loose 'a' rfl
  · have hmem : '\\' ∈ ['\n', ' ', ' ', '\t'] := by
      rw [(List.cons.inj (List.cons.inj (List.cons.inj parts).2).2).2]
      simp
    simp at hmem

/-- Around nothing but a hard break, the delimiters enclose nothing. -/
theorem emphasized_of_linebreak :
    inlineText (fun n => node {} (merged n)) [.leaf .linebreak none] {} = .ok ['\\', '\n'] {} ∧
      emphasized (fun n => node {} (merged n)) ['*'] [.leaf .linebreak none] {} =
        .ok ['*', '*', '\\', '\n'] {} ∧
      ¬Encloses ['*'] ['\\', '\n'] ['*', '*', '\\', '\n'] := by
  have hmerge : mergeAdjacent [.leaf .linebreak none] = [.leaf .linebreak none] := rfl
  have hrun : inlineText (fun n => node {} (merged n)) [.leaf .linebreak none] {} =
      .ok ['\\', '\n'] {} := by
    rw [inlineText, hmerge]
    simp only [List.forM_cons, List.forM_nil, merged_leaf, node]
    rfl
  refine ⟨hrun, run_bind_of_ok hrun, fun h => ?_⟩
  generalize ht : ['*', '*', '\\', '\n'] = t at h
  generalize hs : ['\\', '\n'] = s at h
  cases h with
  | blank | hardBreak => rw [← hs] at ht; cases ht
  | @content lead content trail parts before bounded after =>
    subst hs
    obtain ⟨⟨c, hc, -⟩, -⟩ := bounded
    obtain ⟨cs, rfl⟩ := List.head?_eq_some_iff.mp hc
    cases lead with
    | nil =>
      obtain rfl : '\\' = c := (List.cons.inj parts).1
      cases ht
    | cons d lead =>
      obtain rfl : '\\' = d := (List.cons.inj parts).1
      cases before '\\' List.mem_cons_self

end Canonmark.Markdown.Writer

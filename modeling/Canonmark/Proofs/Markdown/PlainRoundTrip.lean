import Canonmark.Proofs.Markdown.PlainLines
import Canonmark.Proofs.Options

/-! Documents of plain blocks are read back as they were written. -/
namespace Canonmark.Markdown

open Writer (IsWritten)

theorem isFramed_singleton {l : Chars} (single : '\n' ∉ l ∧ '\r' ∉ l)
    (bounded : Text.Bounded Text.isBlank l) : IsFramed [l] where
  single := by simpa using single
  first := by
    obtain ⟨⟨c, hc, hcb⟩, _⟩ := bounded
    obtain ⟨cs, rfl⟩ := List.head?_eq_some_iff.mp hc
    exact ⟨c, cs, [], rfl, hcb⟩
  last := by
    obtain ⟨_, d, hd, hdb⟩ := bounded
    obtain ⟨cs, rfl⟩ := List.getLast?_eq_some_iff.mp hd
    exact ⟨[], cs, d, rfl, hdb⟩

theorem isFramed_heading {s : Chars} (words : IsWords s) (level : Level) :
    IsFramed [List.replicate level.number '#' ++ ' ' :: s] := by
  have hn := words.not_mem '\n' (by decide)
  have hr := words.not_mem '\r' (by decide)
  obtain ⟨cs, c, rfl, hc⟩ := words.last
  refine isFramed_singleton (by simp_all) ⟨⟨'#', ?_, rfl⟩, c, ?_, isBlank_of_isAlphanum hc⟩
  · cases level <;> rfl
  · rw [List.getLast?_append_of_ne_nil _ (by simp), ← List.cons_append, List.getLast?_concat]
    rfl

/-- The lines of code between its fences can be taken for a text. -/
theorem isFramed_fenced {s info : Chars} {n : Nat} (clean : '\r' ∉ s)
    (word : ∀ c ∈ info, c.isAlphanum) (long : 3 ≤ n) :
    IsFramed ((Writer.fence n ++ info) :: Writer.codeLines s ++ [Writer.fence n]) where
  single := by
    have hfence : '\n' ∉ Writer.fence n ∧ '\r' ∉ Writer.fence n := by simp [Writer.fence]
    have hinfo : '\n' ∉ info ∧ '\r' ∉ info :=
      ⟨fun hmem => absurd (word _ hmem) (by decide), fun hmem => absurd (word _ hmem) (by decide)⟩
    intro l hl
    simp only [List.cons_append, List.mem_cons, List.mem_append, List.not_mem_nil, or_false] at hl
    obtain rfl | hl | rfl := hl
    · simp [hfence, hinfo]
    · obtain ⟨hline, hwithin⟩ := Writer.infix_of_mem_codeLines hl
      exact ⟨hline, fun hmem => clean (hwithin.subset hmem)⟩
    · exact hfence
  first := by
    obtain ⟨cs, hcs⟩ := fence_eq_cons long
    exact ⟨'\x60', cs ++ info, _, by rw [hcs]; rfl, rfl⟩
  last := by
    obtain ⟨m, rfl⟩ := Nat.exists_eq_add_of_le' long
    exact ⟨(Writer.fence (m + 3) ++ info) :: Writer.codeLines s, List.replicate (m + 2) '\x60',
      '\x60', by rw [Writer.fence, ← List.replicate_succ'], rfl⟩

theorem isFramed_code {s : Chars} (code : IsCode s) {n : Nat} (long : 3 ≤ n) :
    IsFramed (Writer.fence n :: Writer.codeLines s ++ [Writer.fence n]) := by
  have hclean : '\r' ∉ s := fun hmem => (code.signs '\r' hmem).elim (by decide) (by decide)
  have hframed : IsFramed ((Writer.fence n ++ []) :: Writer.codeLines s ++ [Writer.fence n]) :=
    isFramed_fenced hclean (by simp) long
  rwa [List.append_nil] at hframed

/-- A block that is written with lines from which it is read back. -/
structure IsKeptIn (style : Style) (levels : Nat) (n : Node) (ls : List Chars) : Prop where
  written : IsWritten style n ls
  framed : IsFramed ls
  reads : ReadsApart levels ls [n]

variable {style : Style} {k levels : Nat}

/-- Blocks that are kept one by one are kept under each other. -/
theorem framed_stacked {ns : List Node} {lss : List (List Chars)} (some : ns ≠ [])
    (h : List.Forall₂ (IsKeptIn style levels) ns lss) : IsFramed (stacked [[]] lss) := by
  refine .stacked ?_ ?_ (by simp)
  · rintro rfl
    cases h
    exact some rfl
  · exact forall_right_of_forall₂ h fun _ _ hn => hn.framed

/-- Every plain block is written with lines from which it is read back, if its code has room between
fences. -/
theorem IsPlain.isKeptIn {depth : Nat} {n : Node} (h : IsPlain depth n) (room : depth ≤ levels)
    (hfence : style.fenceMin = .whole k) (long : 3 ≤ k)
    (fits : ∀ m ∈ preorder n, ¬NeedsEndlessFence k m) : ∃ ls, IsKeptIn style levels n ls := by
  induction h generalizing levels with
  | heading level words =>
    exact ⟨_, Writer.isWritten_heading_words words level, isFramed_heading words level,
      readsApart_heading_words words level⟩
  | paragraph prose =>
    exact ⟨_, Writer.isWritten_paragraph prose, isFramed_prose prose, readsApart_prose prose⟩
  | thematicBreak =>
    exact ⟨_, Writer.isWritten_thematicBreak,
      isFramed_singleton (by decide) ⟨⟨'*', rfl, rfl⟩, '*', rfl, rfl⟩, readsApart_thematicBreak⟩
  | @code _ text code =>
    have hroom : Writer.fenceLength k text.toList ≤ Writer.maxLength :=
      Nat.not_lt.mp fun hlong => fits _ (List.mem_singleton.mpr rfl) (.mk hlong)
    exact ⟨_, Writer.isWritten_code code hfence hroom,
      isFramed_code code (long.trans (Nat.le_max_left ..)), readsApart_code code long⟩
  | @quote depth children some _ ih =>
    obtain ⟨levels, rfl⟩ := Nat.exists_eq_add_of_le' (Nat.one_le_of_lt room)
    have hchildren : ∀ n ∈ children, ∃ ls, IsKeptIn style levels n ls := by
      intro n hn
      refine ih n hn (Nat.le_of_succ_le_succ room) fun m hm => fits m ?_
      rw [preorder, preorderAll_eq_flatMap]
      exact List.mem_cons_of_mem _ (List.mem_flatMap.mpr ⟨n, hn, hm⟩)
    obtain ⟨lss, hlss⟩ := exists_forall₂ hchildren
    have hframed := framed_stacked some hlss
    exact ⟨_, Writer.isWritten_quote (hlss.imp fun _ _ h => h.written) hframed, hframed.quoted,
      (ReadsApart.stacked (hlss.imp fun _ _ h => h.reads) some).readsAs.quoted hframed.ne_nil⟩

/-- Sound options and overrides that come to a style. -/
structure ComesTo (options : Option Options) (overrides : Members) (style : Style) : Prop where
  sound : ∀ o ∈ options, o.Sound
  merged : ∃ o, mergeOptions .markdownRenderer options overrides = .ok o ∧
    styleOf (some o) = .ok style

variable {options : Option Options} {overrides : Members}

theorem ComesTo.exists_merged (h : ComesTo options overrides style) :
    ∃ o : Options, Options.merge .markdownRenderer options overrides = .ok o ∧ o.style = style := by
  obtain ⟨o, hmerge, hstyle⟩ := h.merged
  unfold mergeOptions at hmerge
  cases hresult : Options.merge .markdownRenderer options overrides with
  | error f =>
    rw [hresult] at hmerge
    cases hmerge
  | ok merged =>
    rw [hresult] at hmerge
    cases hmerge
    obtain ⟨checked, hcls, hchecked⟩ := bind_eq_ok hstyle
    unfold expectOptions at hcls
    split at hcls
    · cases hcls
      exact ⟨_, rfl, Except.ok.inj hchecked⟩
    · cases hcls

theorem ComesTo.exists_sound (h : ComesTo options overrides style) :
    ∃ o : Options, o.Sound ∧ o.style = style := by
  obtain ⟨o, hmerge, hstyle⟩ := h.exists_merged
  exact ⟨o, Options.sound_of_merge h.sound hmerge, hstyle⟩

/-- Without options, markdown is written in the default style. -/
theorem comesTo_default : ComesTo none [] {} where
  sound := by simp
  merged := ⟨_, rfl, rfl⟩

/-- Every whole number from three on can be the least length of a fence. -/
theorem comesTo_fenceMin {k : Nat} (long : 3 ≤ k) :
    ComesTo none [("code_fence_min", .int k)] { fenceMin := .whole k } where
  sound := by simp
  merged := by
    have hlow : ¬(k : Int) < 3 := Int.not_lt.mpr (Int.ofNat_le.mpr long)
    refine ⟨⟨.markdownRenderer, [("no_index", .bool false), ("escape_special", .bool true),
      ("bullet_symbol", .str "-"), ("code_fence_min", .int k)]⟩, ?_, rfl⟩
    change (if (k : Int) < 3 then _ else _ : Except Options.Fault Options).mapError _ = _
    rw [if_neg hlow]
    rfl

theorem toMarkdown_eq (hstyle : ComesTo options overrides style) (n : Node) :
    toMarkdown (.tree n) options overrides = (write style n).mapError .write := by
  obtain ⟨o, ho, hs⟩ := hstyle.merged
  rw [toMarkdown, ho]
  change (do let style ← styleOf (some o); _) = _
  rw [hs]
  rfl

theorem toMarkdown_of_write (hstyle : ComesTo options overrides style) {n : Node} {text : String}
    (h : write style n = .ok text) : toMarkdown (.tree n) options overrides = .ok text := by
  rw [toMarkdown_eq hstyle, h]
  rfl

/-- A document of kept blocks is written as a text from which it is read back. -/
theorem exists_text_of_kept {blocks : List Node} (apart : ∀ n ∈ blocks, StaysApart n)
    (kept : ∀ n ∈ blocks, ∃ ls, IsKeptIn style maxDepth n ls) :
    ∃ text, write style (documentOf blocks) = .ok text ∧
      fromMarkdown (.text text) none [] = .ok (documentOf blocks) := by
  obtain ⟨lss, hlss⟩ := exists_forall₂ kept
  have hwritten : List.Forall₂ (IsWritten style) blocks lss := hlss.imp fun _ _ h => h.written
  by_cases some : blocks = []
  · subst some
    cases hlss
    exact ⟨_, write_of_written apart hwritten (.inl rfl),
      fromMarkdown_of_readsAs ⟨[], .idle, .nil _, standFor_nil⟩ (.inl rfl)⟩
  · have hframed := framed_stacked some hlss
    exact ⟨_, write_of_written apart hwritten (.inr hframed), fromMarkdown_of_readsAs
      (ReadsApart.stacked (hlss.imp fun _ _ h => h.reads) some).readsAs (.inr hframed)⟩

/-- A plain block holds no lists, and nothing that is no node. -/
theorem IsPlain.of_mem_preorder {depth : Nat} {n : Node} (plain : IsPlain depth n) :
    ∀ m ∈ preorder n, obstaclesAt m = [] ∧ ¬HasBadStart m := by
  induction plain with
  | heading level words =>
    intro m hm
    obtain rfl | ⟨l, hl, hm⟩ := mem_preorder_branch.mp hm
    · exact ⟨rfl, nofun⟩
    · obtain rfl := List.mem_singleton.mp hl
      obtain rfl := List.mem_singleton.mp hm
      exact ⟨rfl, nofun⟩
  | paragraph prose =>
    intro m hm
    obtain rfl | ⟨l, hl, hm⟩ := mem_preorder_branch.mp hm
    · exact ⟨rfl, nofun⟩
    · obtain ⟨t, _, rfl⟩ | rfl := mem_lined _ _ hl
      all_goals
        obtain rfl := List.mem_singleton.mp hm
        exact ⟨rfl, nofun⟩
  | thematicBreak | code =>
    intro m hm
    obtain rfl := List.mem_singleton.mp hm
    exact ⟨rfl, nofun⟩
  | quote some below ih =>
    intro m hm
    obtain rfl | ⟨child, hchild, hm⟩ := mem_preorder_branch.mp hm
    · exact ⟨rfl, nofun⟩
    · exact ih child hchild m hm

/-- Of what can be wrong with a document, only a fence beyond all bounds can be wrong with plain
blocks. -/
theorem write_of_needsEndlessFence {depth : Nat} {blocks : List Node}
    (hfence : style.fenceMin = .whole k) (plain : ∀ n ∈ blocks, IsPlain depth n)
    (endless : ∃ m ∈ preorder (documentOf blocks), NeedsEndlessFence k m) :
    write style (documentOf blocks) = .error .endlessFence := by
  have hnodes : ∀ m ∈ preorder (documentOf blocks), obstaclesAt m = [] ∧ ¬HasBadStart m := by
    intro m hm
    obtain rfl | ⟨block, hblock, hm⟩ := mem_preorder_branch.mp hm
    · exact ⟨rfl, nofun⟩
    · exact (plain block hblock).of_mem_preorder m hm
  have hends := write_ends hfence (n := documentOf blocks) rfl
    ((gather_eq_nil_iff _).mpr fun m hm => (hnodes m hm).1)
  cases hfirst : (preorder (documentOf blocks)).findSome? (faultAt? k) with
  | none =>
    obtain ⟨m, hm, hlong⟩ := endless
    exact absurd hlong (findSome?_eq_none_iff.mp hfirst m hm).2
  | some f =>
    rw [hfirst] at hends
    obtain ⟨before, m, after, hsplit, _, ⟨hbad, _⟩ | ⟨_, rfl⟩⟩ := fault_of_findSome? hfirst
    · exact absurd hbad (hnodes m (by simp [hsplit])).2
    · exact hends

/-- Plain blocks are read back as they were written, if their code has room between fences. Code
that has none is the only thing that they are refused for. -/
theorem fromMarkdown_toMarkdown_blocks {blocks : List Node}
    (hstyle : ComesTo options overrides style) (hfence : style.fenceMin = .whole k)
    (plain : ∀ n ∈ blocks, IsPlain maxDepth n) :
    ((∀ m ∈ preorder (documentOf blocks), ¬NeedsEndlessFence k m) →
      (do let text ← toMarkdown (.tree (documentOf blocks)) options overrides
          fromMarkdown (.text text) none []) = .ok (documentOf blocks)) ∧
    ((∃ m ∈ preorder (documentOf blocks), NeedsEndlessFence k m) →
      toMarkdown (.tree (documentOf blocks)) options overrides = .error (.write .endlessFence) ∧
        (Fault.write .endlessFence).report.family = .overflow) := by
  constructor
  · intro fits
    have long : 3 ≤ k := by
      obtain ⟨o, hsound, rfl⟩ := hstyle.exists_sound
      exact hsound.style_fenceMin hfence
    have kept : ∀ n ∈ blocks, ∃ ls, IsKeptIn style maxDepth n ls := by
      intro n hn
      refine (plain n hn).isKeptIn (Nat.le_refl _) hfence long fun m hm => fits m ?_
      exact mem_preorder_branch.mpr (.inr ⟨n, hn, hm⟩)
    obtain ⟨text, hwrite, hread⟩ := exists_text_of_kept (fun n hn => (plain n hn).staysApart) kept
    rw [toMarkdown_of_write hstyle hwrite]
    exact hread
  · intro endless
    rw [toMarkdown_eq hstyle, write_of_needsEndlessFence hfence plain endless]
    exact ⟨rfl, rfl⟩

/-- A heading, and a quote of code that holds a fence. -/
def headingAndQuote : List Node :=
  [.branch (.heading .two) none [.leaf (.text "one 2") none],
    .branch .blockQuote none [.leaf (.codeBlock "\x60\x60\x60\x60\n\n> a\n" none none) none]]

theorem fromMarkdown_toMarkdown_headingAndQuote :
    ComesTo none [("code_fence_min", .int (3 : Nat))] { fenceMin := .whole 3 } ∧
      (∀ n ∈ headingAndQuote, IsPlain maxDepth n) ∧
      (∀ m ∈ preorder (documentOf headingAndQuote), ¬NeedsEndlessFence 3 m) ∧
      (do let text ← toMarkdown (.tree (documentOf headingAndQuote)) none
            [("code_fence_min", .int (3 : Nat))]
          fromMarkdown (.text text) none []) = .ok (documentOf headingAndQuote) := by
  have hstyle := comesTo_fenceMin (Nat.le_refl 3)
  have hplain : ∀ n ∈ headingAndQuote, IsPlain maxDepth n := by
    have hheading : IsWords "one 2".toList :=
      .space (w := ['o', 'n', 'e']) (by simp) (by simp) (.word (w := ['2']) (by simp) (by simp))
    have hcode : IsCode "\x60\x60\x60\x60\n\n> a\n".toList := ⟨.inr (by decide), by simp⟩
    simp only [headingAndQuote, List.forall_mem_cons]
    exact ⟨.heading .two hheading, .quote (by simp) (by simpa using .code hcode), by simp⟩
  have hfits : ∀ m ∈ preorder (documentOf headingAndQuote), ¬NeedsEndlessFence 3 m :=
    fun m hm => (findSome?_eq_none_iff.mp (by decide) m hm).2
  exact ⟨hstyle, hplain, hfits, (fromMarkdown_toMarkdown_blocks hstyle rfl hplain).1 hfits⟩

/-- An empty code block is plain, but the longest fences are longer than a text can be. -/
theorem toMarkdown_of_endlessFence :
    ComesTo none [("code_fence_min", .int (0x8000000000000000 : Nat))]
        { fenceMin := .whole 0x8000000000000000 } ∧
      IsPlain 0 (.leaf (.codeBlock "" none none) none) ∧
      (do let text ← toMarkdown (.tree (documentOf [.leaf (.codeBlock "" none none) none])) none
            [("code_fence_min", .int (0x8000000000000000 : Nat))]
          fromMarkdown (.text text) none []) = .error (.write .endlessFence) := by
  have hstyle := comesTo_fenceMin (k := 0x8000000000000000) (by decide)
  have hplain : IsPlain 0 (.leaf (.codeBlock "" none none) none) := .code ⟨.inl rfl, by simp⟩
  have hlong : NeedsEndlessFence 0x8000000000000000 (.leaf (.codeBlock "" none none) none) :=
    .mk (by decide)
  refine ⟨hstyle, hplain, ?_⟩
  rw [toMarkdown_eq hstyle, write_of_needsEndlessFence rfl (by simpa using hplain)
    ⟨_, mem_preorder_branch.mpr (.inr ⟨_, by simp, mem_preorder_self _⟩), hlong⟩]
  rfl

end Canonmark.Markdown

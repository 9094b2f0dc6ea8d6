import Canonmark.Proofs.Markdown.Escaping
import Canonmark.Proofs.Markdown.PlainRoundTrip
import Canonmark.Proofs.Markdown.Visits
import Canonmark.Proofs.Text.Hanging
import Canonmark.Proofs.Text.Numeral

/-! What a node is written as stays within its list item and its block quote: further lines are
indented, and the lines of a quote have its sign before them. -/
namespace Canonmark.Markdown

open Text (Hangs IsInk isInk_of_isBlank hangs_of_not_mem)

variable {w : Nat} {s t : Chars}

theorem newline_not_mem_escape (h : '\n' ∉ s) : '\n' ∉ escape s := by
  rw [escape_eq]
  intro hmem
  obtain ⟨m, hm, hnewline⟩ := List.mem_flatMap.mp hmem
  have hsign : m.sign ∈ s := by
    have hsigns := List.mem_map_of_mem (f := Mark.sign) hm
    rwa [marks, map_sign_marksFrom] at hsigns
  have hne : '\n' ≠ m.sign := fun heq => h (heq ▸ hsign)
  rw [Mark.text] at hnewline
  split at hnewline <;> simp [hne] at hnewline

theorem newline_not_mem_plainText (style : Style) {text : String} (h : '\n' ∉ text.toList) :
    '\n' ∉ Writer.plainText style text := by
  rw [Writer.plainText]
  split
  · exact newline_not_mem_escape h
  · exact h

theorem newline_not_mem_escapeReferences (h : '\n' ∉ s) : '\n' ∉ escapeReferences s := by
  induction s with
  | nil => exact nofun
  | cons c s ih =>
    rw [List.mem_cons, not_or] at h
    rw [escapeReferences]
    split <;> simp [h.1, ih h.2]

theorem newline_not_mem_flatMap {f : Char → Chars} (hf : ∀ c, '\n' ∈ f c → c = '\n')
    (h : '\n' ∉ s) : '\n' ∉ s.flatMap f := by
  intro hmem
  obtain ⟨c, hc, hf'⟩ := List.mem_flatMap.mp hmem
  exact h (hf c hf' ▸ hc)

theorem newline_not_mem_linkTarget (hs : '\n' ∉ s) (ht : '\n' ∉ t) : '\n' ∉ linkTarget s t := by
  have hangle : ∀ c : Char, '\n' ∈
      (if c == '<' then ['%', '3', 'C'] else if c == '>' then ['%', '3', 'E'] else [c]) →
      c = '\n' := by
    intro c hc
    split at hc
    · simp at hc
    · split at hc
      · simp at hc
      · exact (List.mem_singleton.mp hc).symm
  have hquote : ∀ c : Char, '\n' ∈ (if c == '\\' || c == '"' then ['\\', c] else [c]) →
      c = '\n' := by
    intro c hc
    split at hc <;> simpa [eq_comm] using hc
  have henclosed : ∀ {t u : Chars} {c d : Char}, '\n' ∉ u → '\n' ∉ t → '\n' ≠ c → '\n' ≠ d →
      '\n' ∉ u ++ c :: t ++ [d] := by
    intro t u c d hu ht hc hd
    simp [hu, ht, hc, hd]
  have hdest : '\n' ∉ destination s := by
    rw [destination]
    split
    · exact henclosed (u := []) (c := '<') (d := '>') List.not_mem_nil
        (newline_not_mem_flatMap hangle hs) (by decide) (by decide)
    · exact hs
  rw [linkTarget]
  split
  · exact hdest
  · have htitle := newline_not_mem_escapeReferences (newline_not_mem_flatMap hquote ht)
    have hquoted : '\n' ∉ '"' :: escapeReferences _ :=
      List.not_mem_cons_of_ne_of_not_mem (by decide) htitle
    exact henclosed (c := ' ') (d := '"') hdest hquoted (by decide) (by decide)

theorem newline_not_mem_codeSpan (h : '\n' ∉ s) : '\n' ∉ Writer.codeSpan s := by
  rw [Writer.codeSpan]
  split <;> simp [Writer.fence, h]

/-- A marker is a bullet, or a number and its delimiter. -/
theorem marker_cases {style : Style} {data : ListData} {number : Int} {mark : Chars}
    (h : Writer.marker style data number = .ok mark) :
    (data.ordered = false ∧ mark = [style.bullet, ' ']) ∨
      (data.ordered ∧ mark = Text.Numeral.ofInt (if style.noIndex then 1 else number) ++
        [if data.delimiter == some "paren" then ')' else '.', ' ']) := by
  cases hordered : data.ordered with
  | false =>
    rw [Writer.marker, hordered] at h
    exact .inl ⟨rfl, (Except.ok.inj h).symm⟩
  | true =>
    rw [Writer.marker, hordered, if_pos rfl] at h
    by_cases hlong : Text.Numeral.isLong (if style.noIndex then 1 else number)
    · rw [if_pos hlong] at h
      cases h
    · rw [if_neg hlong] at h
      exact .inr ⟨rfl, (Except.ok.inj h).symm⟩

theorem newline_not_mem_marker {style : Style} (hbullet : style.bullet ≠ '\n') {data : ListData}
    {number : Int} {mark : Chars} (h : Writer.marker style data number = .ok mark) :
    '\n' ∉ mark := by
  have hdigits : ∀ n : Nat, '\n' ∉ Text.Numeral.ofNat n :=
    fun n hmem => absurd (Text.Numeral.isDigit_of_mem_ofNat hmem) (by decide)
  have hnumber : ∀ i : Int, '\n' ∉ Text.Numeral.ofInt i := by
    intro i
    rw [Text.Numeral.ofInt]
    split <;> simp [hdigits]
  obtain ⟨-, rfl⟩ | ⟨-, rfl⟩ := marker_cases h
  · simp [hbullet.symm]
  · rw [List.mem_append, not_or]
    refine ⟨hnumber _, ?_⟩
    split <;> decide

namespace Writer

theorem hangs_newline (w : Nat) : Hangs w (newline w) :=
  ⟨fun _ => .inr (List.prefix_refl _), hangs_of_not_mem (by simp)⟩

theorem hangs_separator (tight : Bool) (w : Nat) : Hangs w (separator tight w) := by
  cases tight with
  | true => exact hangs_newline w
  | false => exact ⟨fun _ => .inl rfl, hangs_newline w⟩

theorem Guarded.hangs {t t' : Chars} (h : Guarded t t') (ht : Hangs w t) : Hangs w t' := by
  obtain rfl | ⟨before, n, rfl, rfl⟩ := h
  · exact ht
  · rw [List.append_assoc]
    refine ht.insert (by decide) fun c hc => ?_
    rw [List.eq_of_mem_replicate hc]
    decide

theorem Strung.hangs {α : Type} {P : α → Chars → Prop} {as : List α}
    (h : ∀ a ∈ as, ∀ t, P a t → Hangs w t) {t : Chars} (strung : Strung P as t) : Hangs w t := by
  induction strung with
  | nil => trivial
  | cons first guarded _ ih =>
    obtain ⟨ha, has⟩ := List.forall_mem_cons.mp h
    exact (guarded.hangs (ha _ first)).append (ih has)

/-- Indented lines hang if the last one is not empty. -/
theorem hangs_unlines {line : Chars} {ls : List Chars} (hline : '\n' ∉ line)
    (hls : ∀ l ∈ ls, '\n' ∉ l) (last : ∀ l ∈ ls.getLast?, l ≠ []) :
    Hangs w (Text.unlines
      (line :: ls.map fun l => if l.isEmpty then [] else List.replicate w ' ' ++ l)) := by
  induction ls generalizing line with
  | nil => simpa using hangs_of_not_mem hline
  | cons l ls ih =>
    obtain ⟨hl, hls⟩ := List.forall_mem_cons.mp hls
    have hlast : ∀ m ∈ ls.getLast?, m ≠ [] := by
      intro m hm
      exact last m (by rw [List.getLast?_cons, hm]; rfl)
    rw [List.map_cons, Text.unlines_cons _ (by simp)]
    refine (hangs_of_not_mem hline).append ⟨fun _ => ?_, ih ?_ hls hlast⟩
    · cases l with
      | nil =>
        cases ls with
        | nil => exact absurd rfl (last [] rfl)
        | cons m ls => exact .inl (by simp [Text.unlines_cons])
      | cons c l =>
        refine .inr ?_
        rw [List.isEmpty_cons, if_neg Bool.false_ne_true]
        cases ls with
        | nil => simp
        | cons m ls => simp [Text.unlines_cons]
    · split <;> simp [hl]

theorem hangs_indentLines (h : s.getLast? ≠ some '\n') : Hangs w (indentLines w s) := by
  obtain ⟨line, ls, hlines⟩ := List.exists_cons_of_ne_nil (Text.lines_ne_nil s)
  have hsingle : ∀ l ∈ line :: ls, '\n' ∉ l := fun l hl => (Text.infix_of_mem_lines (hlines ▸ hl)).1
  obtain ⟨hline, hls⟩ := List.forall_mem_cons.mp hsingle
  rw [indentLines, hlines]
  refine hangs_unlines hline hls ?_
  rintro _ hlast rfl
  -- An empty last line comes after the end of another one.
  obtain ⟨init, rfl⟩ := List.getLast?_eq_some_iff.mp hlast
  refine h ?_
  rw [← Text.unlines_lines s, hlines, ← List.cons_append, Text.unlines_append _ (by simp),
    Text.flatMap_end (by simp), Text.unlines_singleton, List.append_nil, List.getLast?_concat]

theorem hangs_delimited {delimiter : Chars} (ink : ∀ c ∈ delimiter, IsInk c) (h : Hangs w s) :
    Hangs w (delimited delimiter s) := by
  have hfree : '\n' ∉ delimiter := fun hmem => (ink _ hmem).2 rfl
  rw [delimited]
  split
  · exact h
  · rename_i hsome
    obtain ⟨hparts, ⟨c, hc, hcblank⟩, d, hd, hdblank⟩ :=
      Text.trim_parts (s := s) (by simpa [List.isEmpty_iff] using hsome)
    generalize s.takeWhile Text.isBlank = leading, Text.takeEndWhile Text.isBlank s = trailing,
      Text.trim s = content at hparts hc hd
    -- The first delimiter comes before the ink that the content begins with.
    have hopened : Hangs w (leading ++ delimiter ++ content ++ trailing) := by
      obtain ⟨rest, rfl⟩ := List.head?_eq_some_iff.mp hc
      rw [hparts, List.append_assoc] at h
      simpa using h.insert (isInk_of_isBlank hcblank) ink
    dsimp only
    split
    · rename_i hbreak
      rw [Bool.and_eq_true] at hbreak
      have hcontent := dropLast_append_backslash hbreak.2
      rw [← hcontent, ← List.append_assoc, List.append_assoc _ ['\\']] at hopened
      simpa using hopened.insert (by decide) ink
    · obtain ⟨init, rfl⟩ := List.getLast?_eq_some_iff.mp hd
      rw [← List.append_assoc, List.append_assoc _ [d]] at hopened
      simpa using hopened.insert_after (isInk_of_isBlank hdblank) hfree

theorem hangs_escapeClosingHashes (h : Hangs w s) : Hangs w (escapeClosingHashes s) := by
  have hescaped :
      Hangs w (Text.dropEndWhile (· == '#') s ++ '\\' :: Text.takeEndWhile (· == '#') s) := by
    have hparts := Text.dropEndWhile_append_takeEndWhile (· == '#') s
    have hhashes : ∀ c ∈ Text.takeEndWhile (· == '#') s, c = '#' := by
      intro c hc
      rw [Text.takeEndWhile, List.mem_reverse] at hc
      exact beq_iff_eq.mp (List.all_eq_true.mp List.all_takeWhile c hc)
    cases hends : Text.takeEndWhile (· == '#') s with
    | nil =>
      rw [hends, List.append_nil] at hparts
      rw [hparts]
      exact h.append (hangs_of_not_mem (by decide))
    | cons c hashes =>
      obtain rfl : c = '#' := hhashes c (by simp [hends])
      rw [← hparts, hends] at h
      have hslash : ∀ c ∈ ['\\'], IsInk c := by simp [IsInk]
      exact h.insert (by decide) hslash
  have heither : ∀ b : Bool, Hangs w (if b then
      Text.dropEndWhile (· == '#') s ++ '\\' :: Text.takeEndWhile (· == '#') s else s) := by
    rintro (_ | _)
    · exact h
    · exact hescaped
  exact heither _

theorem hangs_headingText (style : Style) (level : Level) (h : Hangs w s) :
    Hangs w (headingText style level s) := by
  have hcontent : Hangs w (if style.escape then headingContent s else s) := by
    split
    · by_cases hw : w = 0
      · rw [hw]
        exact Text.hangs_zero _
      · rw [headingContent, if_neg (by simpa using h.getLast?_ne hw)]
        exact hangs_escapeClosingHashes h
    · exact h
  have hheading : ∀ content, Hangs w content → Hangs w (if content.isEmpty then List.replicate
        level.number '#' else List.replicate level.number '#' ++ ' ' :: content) := by
    intro content hcontent
    have hhashes : Hangs w (List.replicate level.number '#') := hangs_of_not_mem (by simp)
    split
    · exact hhashes
    · exact hhashes.append (show Hangs w (' ' :: content) from ⟨by simp, hcontent⟩)
  exact hheading _ hcontent

theorem hangs_quoteText (w : Nat) (s : Chars) : Hangs w (quoteText w s) := by
  refine Text.hangs_intercalate fun l hl => ?_
  obtain ⟨line, hline, rfl⟩ := List.mem_map.mp hl
  rw [quoteLine]
  split
  · decide
  · simp [(Text.infix_of_mem_lines hline).1]

theorem hangs_itemText {mark : Chars} (hmark : '\n' ∉ mark) (h : Hangs w s) :
    Hangs w (itemText mark s) := by
  rw [itemText]
  split
  · exact hangs_of_not_mem fun hmem => hmark ((Text.dropEndWhile_append_takeEndWhile _ mark) ▸
      List.mem_append_left _ hmem)
  · exact (hangs_of_not_mem hmark).append h

/-- A fence is longer than any run of backticks in the text. -/
theorem exists_fence {style : Style} {mark : Chars} (h : fenceAround style s = .ok mark) :
    ∃ n, mark = fence (n + 1) ∧ longestRun 0 s ≤ n := by
  unfold fenceAround at h
  split at h
  · cases h
  · rename_i n hlength
    split at h
    · cases h
    · obtain rfl := Except.ok.inj h
      have hlong : longestRun 0 s < n := by
        unfold FenceMin.lengthFor? at hlength
        split at hlength
        · cases hlength
          omega
        · split at hlength
          · cases hlength
            omega
          · cases hlength
      exact ⟨n - 1, by rw [Nat.sub_add_cancel (Nat.zero_lt_of_lt hlong)], by omega⟩

theorem getLast?_codeBlock {style : Style} {text info mark : Chars}
    (h : fenceAround style text = .ok mark) : (codeBlock mark text info).getLast? ≠ some '\n' := by
  obtain ⟨n, rfl, -⟩ := exists_fence h
  have hlast : ∀ ls, (Text.unlines (ls ++ [fence (n + 1)])).getLast? = some '\x60' := by
    intro ls
    rw [Text.getLast?_unlines ls (by simp [fence]), fence, List.replicate_succ',
      List.getLast?_concat]
  have heither : ∀ (b : Bool) (body : Chars),
    (Text.unlines (if b then [fence (n + 1) ++ info, fence (n + 1)] else
      [fence (n + 1) ++ info, body, fence (n + 1)])).getLast? = some '\x60' := by
    rintro (_ | _) body
    · exact hlast [_, _]
    · exact hlast [_]
  exact fun hnewline => absurd ((heither _ _).symm.trans hnewline) (by decide)

/-- What a node says in a line: its text, the value of a variable, where a link leads and its
title. -/
def lineText : Node → Chars
  | .leaf (.text t) _ | .leaf (.code t) _ | .leaf (.htmlInline t _) _ => t.toList
  | .branch (.templateVariable _ value) .. | .branch (.computedVariable value) .. => value.toList
  | .branch (.link dest title) .. | .branch (.image dest title) .. => dest.toList ++ title.toList
  | _ => []

theorem hangs_leafText {style : Style} {x : Leaf} {span : Option Span}
    (line : '\n' ∉ lineText (.leaf x span)) (h : leafText style w x = .ok s) : Hangs w s := by
  cases x with
  | codeBlock text info tag =>
    obtain ⟨mark, hmark, rfl⟩ := map_eq_ok h
    exact hangs_indentLines (getLast?_codeBlock hmark)
  | htmlBlock text tag =>
    cases h
    refine hangs_indentLines fun hlast => ?_
    have hnewline := Text.dropEndWhile_getLast _ hlast
    exact absurd hnewline (by decide)
  | thematicBreak =>
    cases h
    exact hangs_of_not_mem (by decide)
  | text text =>
    cases h
    exact hangs_of_not_mem (newline_not_mem_plainText style line)
  | code text =>
    cases h
    exact hangs_of_not_mem (newline_not_mem_codeSpan line)
  | htmlInline text tag =>
    cases h
    exact hangs_of_not_mem line
  | softbreak =>
    cases h
    exact hangs_newline w
  | linebreak =>
    cases h
    exact (hangs_of_not_mem (s := ['\\']) (by decide)).append (hangs_newline w)

theorem hangs_linkTarget {dest title : String} (line : '\n' ∉ dest.toList ++ title.toList) :
    Hangs w (']' :: '(' :: linkTarget dest.toList title.toList ++ [')']) := by
  rw [List.mem_append, not_or] at line
  exact hangs_of_not_mem (by simp [newline_not_mem_linkTarget line.1 line.2])

/-- How far the further lines of a node are indented that is visited on a layout. -/
def hangOf (n : Node) (l : Layout) : Nat :=
  if n.kind? = some .item then l.indent + (itemMarker l).length else l.indent

theorem le_hangOf (n : Node) (l : Layout) : l.indent ≤ hangOf n l := by
  unfold hangOf
  split <;> omega

/-- What is kept by visits: the text of a tree without ends of lines in its lines hangs. -/
def HangsBelow (n : Node) (l : Layout) (t : Chars) : Prop :=
  '\n' ∉ gather lineText n → '\n' ∉ itemMarker l → Hangs (hangOf n l) t

section Below

variable {style : Style} {l : Layout} {ns : List Node}

theorem hangs_of_visit {n : Node} (line : '\n' ∉ gather lineText n) (marked : '\n' ∉ itemMarker l)
    {t : Chars} (h : VisitOf HangsBelow l n t) : Hangs l.indent t := by
  obtain ⟨l', hsettles, ht⟩ := h
  have hmarker : itemMarker l' = itemMarker l := by rw [itemMarker, hsettles.markers, ← itemMarker]
  rw [← hsettles.indent]
  exact (ht line (hmarker ▸ marked)).mono (le_hangOf n l')

theorem hangs_of_content (line : '\n' ∉ gatherAll lineText ns) (marked : '\n' ∉ itemMarker l)
    {t : Chars} (h : ContentOf HangsBelow l ns t) : Hangs l.indent t := by
  refine h.hangs fun n hn t ht => hangs_of_visit (fun hmem => line ?_) marked ht
  exact List.mem_flatMap.mpr ⟨n, hn, hmem⟩

theorem hangs_of_blocks {us : List BlockUnit}
    (line : ∀ u ∈ us, ∀ n ∈ u.nodes, '\n' ∉ gather lineText n) (marked : '\n' ∉ itemMarker l)
    {t : Chars} (h : BlocksOf HangsBelow l us t) : Hangs l.indent t := by
  have hunit : ∀ u ∈ us, ∀ t, UnitOf HangsBelow { l with first := false } u t →
      Hangs l.indent t := by
    intro u hu t ht
    cases u with
    | run content =>
      refine hangs_of_content (l := { l with first := false }) (fun hmem => ?_) marked ht
      obtain ⟨n, hn, hmem⟩ := List.mem_flatMap.mp hmem
      exact line _ hu n hn hmem
    | single n =>
      exact hangs_of_visit (l := { l with first := false })
        (line _ hu n (by simp [BlockUnit.nodes])) marked ht
  have hpiece : ∀ sep, Hangs l.indent sep → ∀ u ∈ us, ∀ t, PieceOf HangsBelow l (sep, u) t →
      Hangs l.indent t := by
    rintro sep hsep u hu t ⟨body, rfl, hbody⟩
    exact hsep.append (hunit u hu body hbody)
  have hsep := hangs_separator l.tight l.indent
  cases us with
  | nil =>
    obtain rfl := h
    trivial
  | cons u us =>
    refine Strung.hangs (fun piece hpieces t ht => ?_) h
    rw [List.mem_cons] at hpieces
    obtain rfl | hpieces := hpieces
    · refine hpiece _ ?_ u (by simp) t ht
      split
      · trivial
      · exact hsep
    · obtain ⟨v, hv, rfl⟩ := List.mem_map.mp hpieces
      exact hpiece _ hsep v (by simp [hv]) t ht

theorem hangs_of_items (hbullet : style.bullet ≠ '\n') {data : ListData} {tight : Bool}
    {number : Int} {first : Bool} (line : '\n' ∉ gatherAll lineText ns) {t : Chars}
    (h : ItemsOf HangsBelow style data tight l number first ns t) : Hangs l.indent t := by
  induction ns generalizing number first t with
  | nil =>
    obtain rfl := h
    trivial
  | cons n ns ih =>
    obtain ⟨mark, body, body', rest, hmark, hbody, hguarded, hrest, rfl⟩ := h
    rw [gatherAll_cons, List.mem_append, not_or] at line
    have hmarked := newline_not_mem_marker hbullet hmark
    have hsep : Hangs l.indent (if first then [] else separator tight l.indent) := by
      split
      · trivial
      · exact hangs_separator tight l.indent
    have hitem : Hangs l.indent body :=
      hangs_of_visit (l := { l with markers := (mark, tight) :: l.markers }) line.1 hmarked hbody
    exact (hsep.append (hguarded.hangs hitem)).append (ih line.2 hrest)

theorem newline_not_mem_units (line : '\n' ∉ gatherAll lineText ns) :
    ∀ u ∈ BlockUnit.ofChildren ns, ∀ n ∈ u.nodes, '\n' ∉ gather lineText n := by
  intro u hu n hn hmem
  obtain ⟨k, hk, hbelow⟩ | hforeign := mem_nodes_ofChildren hu hn
  · exact line (List.mem_flatMap.mpr ⟨k, hk, mem_gather_of_mem_preorder lineText hbelow hmem⟩)
  · cases n with
    | foreign v => simp [lineText] at hmem
    | _ => cases hforeign

/-- Texts that hang below a node hang in its own text. -/
theorem hangsBelow_of_visitText (hbullet : style.bullet ≠ '\n') (n : Node) (l : Layout) (t : Chars)
    (h : VisitText HangsBelow style n l t) : HangsBelow n l t := by
  intro line marked
  cases n with
  | foreign v => exact h.elim
  | leaf x span =>
    rw [gather_leaf] at line
    have hindent : hangOf (.leaf x span) l = l.indent := by cases x <;> rfl
    rw [hindent]
    exact hangs_leafText line h
  | branch c span children =>
    rw [gather_branch, List.mem_append, not_or] at line
    obtain ⟨own, line⟩ := line
    have hunits := newline_not_mem_units line
    cases c with
    | document xmlns | clause clauseid src clauseText => exact hangs_of_blocks hunits marked h
    | paragraph => exact hangs_of_content line marked h
    | heading level =>
      obtain ⟨content, hcontent, rfl⟩ := h
      exact hangs_headingText style level (hangs_of_content line marked hcontent)
    | blockQuote =>
      obtain ⟨quoted, -, rfl⟩ := h
      exact hangs_quoteText l.indent quoted
    | list data =>
      obtain ⟨start, -, hitems⟩ := h
      exact hangs_of_items hbullet line hitems
    | item =>
      obtain ⟨content, hcontent, rfl⟩ := h
      exact hangs_itemText marked (hangs_of_blocks (l := insideItem l) hunits marked hcontent)
    | emph | strong =>
      obtain ⟨content, hcontent, rfl⟩ := h
      exact hangs_delimited (by simp [IsInk]) (hangs_of_content line marked hcontent)
    | link dest title =>
      obtain ⟨content, hcontent, rfl⟩ := h
      have hopening : Hangs l.indent ['['] := hangs_of_not_mem (by decide)
      have hall :=
        (hopening.append (hangs_of_content line marked hcontent)).append (hangs_linkTarget own)
      rwa [← List.append_assoc] at hall
    | image dest title =>
      obtain ⟨content, hcontent, rfl⟩ := h
      have hopening : Hangs l.indent ['!', '['] := hangs_of_not_mem (by decide)
      have hall :=
        (hopening.append (hangs_of_content line marked hcontent)).append (hangs_linkTarget own)
      rwa [← List.append_assoc] at hall
    | templateVariable id value | computedVariable value =>
      cases hempty : children.isEmpty with
      | true =>
        obtain rfl : t = plainText style value := by simpa [VisitText, hempty] using h
        exact hangs_of_not_mem (newline_not_mem_plainText style own)
      | false => exact hangs_of_content line marked (by simpa [VisitText, hempty] using h)

end Below

/-- The lines of a quote have its sign before them, and all but the first the indentation before
that. -/
def IsQuoted (indent : Nat) (t : Chars) : Prop :=
  ∃ first rest, Text.lines t = first :: rest.map (List.replicate indent ' ' ++ ·) ∧
    ∀ line ∈ first :: rest, line = ['>'] ∨ ['>', ' '] <+: line

theorem isQuoted_quoteText (indent : Nat) (s : Chars) : IsQuoted indent (quoteText indent s) := by
  obtain ⟨first, rest, hlines⟩ := List.exists_cons_of_ne_nil (Text.lines_ne_nil s)
  have hsingle : ∀ l ∈ first :: rest, '\n' ∉ quoteLine l := by
    intro l hl
    have hl' := (Text.infix_of_mem_lines (hlines ▸ hl)).1
    unfold quoteLine
    split
    · decide
    · simp [hl']
  obtain ⟨hfirst, hrest⟩ := List.forall_mem_cons.mp hsingle
  have htext : quoteText indent s = Text.unlines
      (quoteLine first :: (rest.map quoteLine).map (List.replicate indent ' ' ++ ·)) := by
    rw [quoteText, hlines, List.map_cons, Text.intercalate_cons, Text.unlines,
      Text.intercalate_cons, List.flatMap_map, List.flatMap_map, List.flatMap_map]
    rfl
  refine ⟨quoteLine first, rest.map quoteLine, ?_, fun line hline => ?_⟩
  · rw [htext, Text.lines_unlines (by simp)]
    simpa [hfirst] using hrest
  · rw [← List.map_cons, List.mem_map] at hline
    obtain ⟨l, -, rfl⟩ := hline
    unfold quoteLine
    split
    · exact .inl rfl
    · exact .inr (List.prefix_append ['>', ' '] l)

theorem isSteady_lineText : IsSteady lineText where
  text s t _ _ _ := by simp [lineText]
  code s t _ _ _ := by simp [lineText]
  emph _ _ := rfl
  strong _ _ := rfl
  container c _ _ _ _ _ := by cases c <;> rfl

/-- Whatever the options, nothing that is written for a node falls out of what the node stands in.
In a tree without ends of lines in its texts, every line after the first is empty or indented as far
as the layout is on which the node is visited, and for an item by the length of its marker further.
Every line of a block quote has the sign of quotes before it, whatever the texts in it. -/
theorem lines_of_visit {options : Option Options} {overrides : Members}
    {style : Style} (comes : ComesTo options overrides style) (n m : Node)
    (below : m ∈ preorder (merged n)) (l l' : Layout) (visit : node style m l = .ok () l') :
    ('\n' ∉ gather lineText n → '\n' ∉ itemMarker l →
      ∀ line ∈ (Text.lines (appended l l')).tail,
        line = [] ∨ List.replicate (hangOf m l) ' ' <+: line) ∧
    (m.kind? = some .blockQuote → IsQuoted l.indent (appended l l')) := by
  obtain ⟨o, hsound, rfl⟩ := comes.exists_sound
  have hbullet : o.style.bullet ≠ '\n' := by
    intro hnewline
    have hmem := hsound.style_bullet
    rw [hnewline] at hmem
    exact absurd hmem (by decide)
  have hclosed := hangsBelow_of_visitText hbullet
  obtain ⟨chunks, happends, htext⟩ := writesAt_visitText hclosed m l l' visit
  rw [happends.appended_eq]
  constructor
  · intro line marked
    have hline : '\n' ∉ gather lineText m := by
      intro hmem
      have habove := mem_gather_of_mem_preorder lineText below hmem
      rw [gather_merged isSteady_lineText] at habove
      exact line habove
    exact (hclosed m l _ htext hline marked).lines
  · intro hquote
    cases m with
    | branch c span children =>
      cases c with
      | blockQuote =>
        obtain ⟨quoted, -, hquoted⟩ := htext
        rw [hquoted]
        exact isQuoted_quoteText l.indent quoted
      | _ => cases hquote
    | leaf x span => cases x <;> cases hquote
    | foreign v => cases hquote

/-- An item that holds a quote of two lines. -/
def quotedItem : Node :=
  .branch .item none [.branch .blockQuote none [.branch .paragraph none [.leaf (.text "a") none,
    .leaf .softbreak none, .leaf (.text "b") none]]]

/-- A layout on which the tenth item of a list is visited. -/
def tenth : Layout where
  markers := [("10. ".toList, true)]

theorem node_quotedItem :
    node {} quotedItem tenth = .ok () { tenth with out := ["10. > a\n    > b".toList] } := by
  rw [quotedItem, node, blocks, if_neg (by decide), block, if_neg (by decide), blocks, node, blocks,
    if_neg (by decide), block, if_neg (by decide), blocks, node, inlines, each, each, each, each,
    node, node, node]
  rfl

theorem lines_of_quotedItem :
    '\n' ∉ gather lineText quotedItem ∧ quotedItem ∈ preorder (merged quotedItem) ∧
      ∃ l', node {} quotedItem tenth = .ok () l' ∧ appended tenth l' = "10. > a\n    > b".toList ∧
        ∀ line ∈ (Text.lines (appended tenth l')).tail,
          line = [] ∨ List.replicate 4 ' ' <+: line := by
  have hline : '\n' ∉ gather lineText quotedItem := by decide
  have hself : quotedItem ∈ preorder (merged quotedItem) := mem_preorder_self _
  have hlines := (lines_of_visit comesTo_default _ _ hself _ _ node_quotedItem).1 hline (by decide)
  exact ⟨hline, hself, _, node_quotedItem, rfl, hlines⟩

end Writer
end Canonmark.Markdown

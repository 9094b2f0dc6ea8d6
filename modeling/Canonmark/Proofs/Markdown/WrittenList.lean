import Canonmark.Proofs.Markdown.HungLines

/-! What is written for lists: markers, items and the lines between them. -/
namespace Canonmark.Markdown

/-- The lines of an item: its marker stands before the first, and the others are indented by as
much. -/
def markedLines (mark : Chars) : List Chars → List Chars
  | [] => []
  | l :: ls => (mark ++ l) :: ls.map (hang mark.length)

/-- The lines of items whose markers are numbered. -/
def numberedLines (mark : Nat → Chars) (number : Nat) : List (List Chars) → List (List Chars)
  | [] => []
  | ls :: lss => markedLines (mark number) ls :: numberedLines mark (number + 1) lss

variable {w : Nat} {mark : Chars} {ls ms : List Chars} {lss : List (List Chars)}

theorem markedLines_append (some : ls ≠ []) :
    markedLines mark (ls ++ ms) = markedLines mark ls ++ ms.map (hang mark.length) := by
  obtain ⟨l, ls, rfl⟩ := List.exists_cons_of_ne_nil some
  simp [markedLines]

theorem headed_markedLines (h : Headed ls) : Headed (markedLines mark ls) := by
  obtain ⟨c, cs, rest, rfl⟩ := h
  obtain ⟨d, ds, hd⟩ :=
    List.exists_cons_of_ne_nil (List.append_ne_nil_of_right_ne_nil mark (List.cons_ne_nil c cs))
  exact ⟨d, ds, _, by rw [markedLines, hd]⟩

/-- The lines of an item are indented as one. -/
theorem unlines_hung_markedLines (some : ls ≠ []) :
    Text.unlines (hung w (markedLines mark ls)) =
      mark ++ Text.unlines (hung (w + mark.length) ls) := by
  obtain ⟨l, ls, rfl⟩ := List.exists_cons_of_ne_nil some
  rw [markedLines, unlines_hung_cons, unlines_hung_cons, List.append_assoc, under, under,
    List.flatMap_map]
  simp only [hang_hang]

variable {tight : Bool} {number : Nat}

theorem map_hang_gapOf (w : Nat) (tight : Bool) : (gapOf tight).map (hang w) = gapOf tight := by
  cases tight <;> rfl

theorem stacked_cons (gap : List Chars) (some : lss ≠ []) :
    stacked gap (ls :: lss) = ls ++ gap ++ stacked gap lss := by
  obtain ⟨ms, lss, rfl⟩ := List.exists_cons_of_ne_nil some
  rw [stacked, stacked, List.flatMap_cons, List.append_assoc, List.append_assoc]

/-- The lines between two items belong to the first. -/
theorem stacked_numberedLines {mark : Nat → Chars} (some : ∀ ls ∈ lss, ls ≠ [])
    (last : List Chars) :
    stacked (gapOf tight) (numberedLines mark number (lss ++ [last])) =
      (numberedLines mark number (lss.map (· ++ gapOf tight) ++ [last])).flatten := by
  induction lss generalizing number with
  | nil =>
    rw [List.map_nil, List.nil_append, numberedLines, numberedLines, stacked, List.flatMap_nil,
      List.append_nil, List.flatten_singleton]
  | cons ls lss ih =>
    obtain ⟨hls, hlss⟩ := List.forall_mem_cons.mp some
    have hrest : numberedLines mark (number + 1) (lss ++ [last]) ≠ [] := by
      cases lss <;> exact List.cons_ne_nil _ _
    rw [List.cons_append, numberedLines, stacked_cons _ hrest, ih hlss, List.map_cons,
      List.cons_append, numberedLines, List.flatten_cons, markedLines_append hls, map_hang_gapOf]

theorem stacked_blank (gap : List Chars) (lss : List (List Chars)) (ls : List Chars) :
    stacked gap (lss ++ [ls ++ [[]]]) = stacked gap (lss ++ [ls]) ++ [[]] := by
  cases lss with
  | nil => simp [stacked]
  | cons ms lss => simp [stacked]

theorem numberedLines_append (mark : Nat → Chars) (number : Nat) (lss mss : List (List Chars)) :
    numberedLines mark number (lss ++ mss) = numberedLines mark number lss ++
    numberedLines mark (number + lss.length) mss := by
  induction lss generalizing number with
  | nil => rfl
  | cons ls lss ih =>
    rw [List.cons_append, numberedLines, numberedLines, ih, List.length_cons, Nat.add_right_comm,
      Nat.add_assoc]
    rfl

/-- An empty line after the last item is one after the list. -/
theorem stacked_numberedLines_blank {mark : Nat → Chars} (some : ls ≠ []) (gap : List Chars)
    (lss : List (List Chars)) :
    stacked gap (numberedLines mark number (lss ++ [ls ++ [[]]])) =
      stacked gap (numberedLines mark number (lss ++ [ls])) ++ [[]] := by
  rw [numberedLines_append, numberedLines_append, numberedLines, numberedLines, numberedLines,
    markedLines_append some]
  exact stacked_blank _ _ _

namespace Writer

variable {style : Style} {data : ListData} {l : Layout} {n : Node} {ns : List Node}

/-- A node that is written with the given lines as an item, at every indentation. -/
structure IsHungItem (style : Style) (tight : Bool) (n : Node) (ls : List Chars) : Prop where
  headed : Headed ls
  writes : ∀ (l : Layout) mark others, l.markers = (mark, tight) :: others →
    Writes (node style n) (Text.unlines (hung l.indent (markedLines mark ls))) l

/-- An item is written after its marker, and its blocks are indented. -/
theorem isHungItem (h : List.Forall₂ (IsHung style) ns lss) (some : ns ≠ []) :
    IsHungItem style tight (.branch .item none ns) (stacked (gapOf tight) lss) where
  headed := headed_stacked h some _
  writes l mark others marked := by
    obtain ⟨out, hblocks, hout⟩ := blocks_hung
      (l := { l with out := [], indent := l.indent + mark.length, first := true, tight }) h some rfl
    have hcontent : out.reverse.flatten =
        Text.unlines (hung (l.indent + mark.length) (stacked (gapOf tight) lss)) :=
      hout
    have hheaded := headed_stacked h some (gapOf tight)
    have hsome : (out.reverse.flatten).isEmpty = false := by
      obtain ⟨c, cs, rest, hlines⟩ := hheaded
      rw [hcontent, hlines, unlines_hung_cons]
      rfl
    rw [node]
    refine .after (a := l) rfl ?_
    rw [marked]
    refine ⟨(mark ++ out.reverse.flatten) :: l.out, ?_, ?_⟩
    · have hset :
          (set { l with out := [], indent := l.indent + mark.length, first := true, tight } :
            Writing PUnit) l = .ok PUnit.unit _ :=
        rfl
      dsimp only [List.headD_cons]
      rw [marked] at hset hblocks
      rw [run_bind_of_ok hset, run_bind_of_ok hblocks]
      change emit (if (out.reverse.flatten).isEmpty then _ else _) _ = _
      rw [hsome, marked]
      rfl
    · rw [unlines_hung_markedLines hheaded.ne_nil, ← hcontent]
      simp [Layout.text]

/-- An item is written after its number, and is followed by what is left of the list. -/
theorem writes_numbered (h : IsHungItem style tight n ls) {number : Int} {mark text : Chars}
    (marks : marker style data number = .ok mark) {rest : Writing Unit}
    (hrest : ∀ out, Writes rest text { l with out }) :
    Writes (writeItem style data tight number n rest)
      (Text.unlines (hung l.indent (markedLines mark ls)) ++ text) l := by
  obtain ⟨out, hitem, hout⟩ :=
    h.writes { l with markers := (mark, tight) :: l.markers } mark l.markers rfl
  obtain ⟨out', hlast, hout'⟩ := hrest out
  have hpush : (modify fun l => { l with markers := (mark, tight) :: l.markers } : Writing PUnit)
      l = .ok PUnit.unit { l with markers := (mark, tight) :: l.markers } :=
    rfl
  rw [writeItem, marks]
  refine ⟨out', ?_, ?_⟩
  · dsimp only
    rw [run_bind_of_ok hpush, run_bind_of_ok hitem]
    exact hlast
  · rw [hout', Layout.text, hout, List.append_assoc]
    rfl

variable {mark : Nat → Chars}

/-- Each of so many numbers is written as its mark. -/
def Marks (style : Style) (data : ListData) (mark : Nat → Chars) (number count : Nat) : Prop :=
  ∀ i < count, marker style data (number + i : Nat) = .ok (mark (number + i))

theorem Marks.first {count : Nat} (h : Marks style data mark number (count + 1)) :
    marker style data (number : Int) = .ok (mark number) := h 0 (Nat.succ_pos count)

theorem Marks.others {count : Nat} (h : Marks style data mark number (count + 1)) :
    Marks style data mark (number + 1) count := by
  intro i hi
  have hmark := h (i + 1) (Nat.succ_lt_succ hi)
  rwa [← Nat.add_assoc, Nat.add_right_comm] at hmark

/-- What stands between two items. -/
theorem writes_gap (tight : Bool) (l : Layout) :
    Writes (do
      emit (if tight then ['\n'] else ['\n', '\n'])
      emit (List.replicate l.indent ' ')) (separator tight l.indent) l :=
  (writes_emit _ l).bind fun _ => writes_emit _ _

theorem writes_items_further (h : List.Forall₂ (IsHungItem style tight) ns lss)
    (marks : Marks style data mark number lss.length) :
    Writes (items style data tight number false ns)
      (under l.indent ((numberedLines mark number lss).flatMap (gapOf tight ++ ·))) l := by
  induction h generalizing number l with
  | nil =>
    rw [items]
    exact writes_pure l
  | @cons n ls ns lss hn _ ih =>
    have hrest : ∀ out, Writes (items style data tight (number + 1 : Int) false ns)
        (under l.indent ((numberedLines mark (number + 1) lss).flatMap (gapOf tight ++ ·)))
        { l with out } :=
      fun out => ih (l := { l with out }) marks.others
    have hitem : ∀ out, Writes _ (Text.unlines (hung l.indent (markedLines (mark number) ls)) ++
          under l.indent ((numberedLines mark (number + 1) lss).flatMap (gapOf tight ++ ·)))
        { l with out } :=
      fun out => writes_numbered (l := { l with out }) hn marks.first hrest
    have hboth := (writes_gap tight l).bind hitem
    have hheaded : Headed (markedLines (mark number) ls) := headed_markedLines hn.headed
    rw [bind_assoc, ← List.append_assoc, ← under_gapOf hheaded, ← under_append] at hboth
    rw [items_cons, numberedLines, List.flatMap_cons]
    exact .after (a := l) rfl hboth

/-- The items of a list stand under each other. -/
theorem writes_items (h : List.Forall₂ (IsHungItem style tight) ns lss) (some : ns ≠ [])
    (marks : Marks style data mark number lss.length) :
    Writes (items style data tight number true ns)
      (Text.unlines (hung l.indent (stacked (gapOf tight) (numberedLines mark number lss)))) l := by
  cases h with
  | nil => exact absurd rfl some
  | @cons n ls ns lss hn hns =>
    have hrest : ∀ out, Writes (items style data tight (number + 1 : Int) false ns)
        (under l.indent ((numberedLines mark (number + 1) lss).flatMap (gapOf tight ++ ·)))
        { l with out } :=
      fun out => writes_items_further (l := { l with out }) hns marks.others
    have hheaded : Headed (markedLines (mark number) ls) := headed_markedLines hn.headed
    rw [items_cons, numberedLines, stacked, unlines_hung_append hheaded.ne_nil]
    exact writes_numbered hn marks.first hrest

/-- A list is written as its items. -/
theorem isHung_list (h : List.Forall₂ (IsHungItem style tight) ns lss)
    (some : ns ≠ []) (isTight : isWrittenTight style data ns = tight)
    (begins : ∀ l, startNumber data l = .ok (number : Int) l)
    (marks : Marks style data mark number lss.length) : IsHung style (.branch (.list data) none ns)
    (stacked (gapOf tight) (numberedLines mark number lss)) where
  inline := rfl
  block := block_branch rfl style
  unit := ofBlock_single rfl rfl
  headed := by
    cases h with
    | nil => exact absurd rfl some
    | cons hn _ => exact (headed_markedLines hn.headed).stacked _
  writes l := by
    rw [node, isTight]
    exact .after (begins l) (writes_items h some marks)

theorem ofChildren_hung (h : List.Forall₂ (IsHung style) ns lss) :
    BlockUnit.ofChildren ns = ns.map .single := by
  have hnone : BlockUnit.ofChildrenAfter [] [] = [] := by
    rw [BlockUnit.ofChildrenAfter]
    rfl
  rw [BlockUnit.ofChildren]
  induction h with
  | nil => exact hnone
  | cons hn _ ih =>
    rw [BlockUnit.ofChildrenAfter, hn.inline, if_neg Bool.false_ne_true, hn.unit, ih, List.map_cons]
    rfl

/-- Blocks none of which needs a blank line before the next one. -/
theorem anyNeedsBlankLine_of_isChain
    (h : ns.IsChain fun a b => needsBlankLine style (.single a) (.single b) = false) :
    anyNeedsBlankLine style (ns.map .single) = false := by
  induction ns with
  | nil => rfl
  | cons n ns ih =>
    cases ns with
    | nil => rfl
    | cons next ns =>
      obtain ⟨hclose, hchain⟩ := List.isChain_cons_cons.mp h
      rw [List.map_cons, List.map_cons, anyNeedsBlankLine, hclose, ← List.map_cons, ih hchain]
      rfl

end Writer
end Canonmark.Markdown

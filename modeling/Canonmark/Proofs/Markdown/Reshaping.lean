import Canonmark.Markdown.Unit
import Canonmark.Proofs.Node.Walk
import Mathlib.Data.List.Basic

/-! Changes of a tree that leave its blocks as they are: what block containers are written as, and
where blank lines stand between blocks, does not depend on them. -/
namespace Canonmark.Markdown

/-- A change of nodes, and with it of children, that keeps kinds and that may fold inline nodes. -/
structure IsReshaping (f : Node → Node) (g : List Node → List Node) : Prop where
  foreign : ∀ v, f (.foreign v) = .foreign v
  leaf : ∀ l span, ∃ span', f (.leaf l span) = .leaf l span'
  branch : ∀ c span children, ∃ span', f (.branch c span children) =
    .branch c span' (if c.kind = .list then children.map f else g children)
  apart : ∀ before n after, ¬isInline n → g (before ++ n :: after) = g before ++ f n :: g after
  inline : ∀ ns, (∀ n ∈ ns, isInline n) → ∀ n ∈ g ns, isInline n
  isEmpty : ∀ ns, (g ns).isEmpty = ns.isEmpty
  foreigns : ∀ values : List Json, g (values.map .foreign) = values.map .foreign

/-- A unit with its nodes changed. -/
def BlockUnit.reshaped (f : Node → Node) (g : List Node → List Node) : BlockUnit → BlockUnit
  | .run nodes => .run (g nodes)
  | .single n => .single (f n)

/-- A list that is not read as one after a paragraph. -/
def BlockUnit.cannotInterrupt (style : Style) : BlockUnit → Bool
  | .single (.branch (.list data) _ children) => !canInterrupt style data children
  | _ => false

theorem needsBlankLine_eq (style : Style) (previous next : BlockUnit) :
    needsBlankLine style previous next =
      if previous.isHtml then true
      else if next.isParagraphLike || next.isHtml then !previous.endsItself
      else if previous.isParagraphLike then next.cannotInterrupt style
      else false := by
  unfold needsBlankLine
  rfl

theorem isInline_congr {n m : Node} (h : n.kind? = m.kind?) : isInline n = isInline m := by
  cases n with
  | leaf l span =>
    cases m with
    | leaf l' span' => cases l <;> cases l' <;> first | rfl | cases h
    | branch c span' children => cases l <;> cases c <;> cases h
    | foreign v => cases h
  | branch c span children =>
    cases m with
    | leaf l span' => cases c <;> cases l <;> cases h
    | branch c' span' children' => cases c <;> cases c' <;> first | rfl | cases h
    | foreign v => cases h
  | foreign v =>
    cases m with
    | foreign v' => rfl
    | _ => cases h

/-- Children are inline nodes, or inline nodes before a block and further children. -/
theorem inductionOnBlocks {motive : List Node → Prop}
    (inline : ∀ run, (∀ n ∈ run, isInline n) → motive run)
    (block : ∀ run n ns, (∀ m ∈ run, isInline m) → ¬isInline n → motive ns →
      motive (run ++ n :: ns)) (ns : List Node) : motive ns := by
  have hrun : ∀ run, (∀ n ∈ run, isInline n) → motive (run ++ ns) := by
    induction ns with
    | nil =>
      intro run hrun
      rw [List.append_nil]
      exact inline run hrun
    | cons n ns ih =>
      intro run hrun
      by_cases hn : isInline n
      · have hmore : ∀ m ∈ run ++ [n], isInline m := by simpa [or_imp, forall_and] using ⟨hrun, hn⟩
        have hmotive := ih (run ++ [n]) hmore
        rwa [List.append_assoc, List.singleton_append] at hmotive
      · exact block run n ns hrun hn (ih [] (by simp))
  exact hrun [] (by simp)

namespace BlockUnit

theorem ofChildrenAfter_append {run : List Node} (h : ∀ n ∈ run, isInline n)
    (before ns : List Node) :
    ofChildrenAfter before (run ++ ns) = ofChildrenAfter (before ++ run) ns := by
  induction run generalizing before with
  | nil => simp
  | cons n run ih =>
    obtain ⟨hn, hrun⟩ := List.forall_mem_cons.mp h
    rw [List.cons_append, ofChildrenAfter, if_pos hn, ih hrun, List.append_assoc,
      List.singleton_append]

/-- Inline nodes are one unit. -/
theorem ofChildren_inline {run : List Node} (h : ∀ n ∈ run, isInline n) :
    ofChildren run = if run.isEmpty then [] else [.run run] := by
  have happend := ofChildrenAfter_append h [] []
  rw [List.append_nil, List.nil_append] at happend
  rw [ofChildren, happend]
  cases run <;> rfl

/-- A block stands between the units before it and the units after it. -/
theorem ofChildren_block {run : List Node} (h : ∀ n ∈ run, isInline n)
    {n : Node} (block : ¬isInline n) (ns : List Node) :
    ofChildren (run ++ n :: ns) = ofChildren run ++ (ofBlock n ++ ofChildren ns) := by
  have happend := ofChildrenAfter_append h [] []
  rw [List.append_nil, List.nil_append] at happend
  have hstep : ofChildrenAfter run (n :: ns) =
      ofChildrenAfter run [] ++ (ofBlock n ++ ofChildrenAfter [] ns) := by
    rw [ofChildrenAfter.eq_2, if_neg block, List.append_assoc]
    rfl
  rw [ofChildren, ofChildren, ofChildren, ofChildrenAfter_append h, List.nil_append, happend, hstep]

end BlockUnit

namespace IsReshaping

variable {f : Node → Node} {g : List Node → List Node}

theorem kind? (h : IsReshaping f g) (n : Node) : (f n).kind? = n.kind? := by
  cases n with
  | leaf l span =>
    obtain ⟨span', hleaf⟩ := h.leaf l span
    rw [hleaf]
    rfl
  | branch c span children =>
    obtain ⟨span', hbranch⟩ := h.branch c span children
    rw [hbranch]
    rfl
  | foreign v => rw [h.foreign]

theorem isInline (h : IsReshaping f g) (n : Node) : isInline (f n) = isInline n :=
  isInline_congr (h.kind? n)

theorem any_block (h : IsReshaping f g) (ns : List Node) :
    (g ns).any (!Markdown.isInline ·) = ns.any (!Markdown.isInline ·) := by
  induction ns using inductionOnBlocks with
  | inline run hrun =>
    have hnone : ∀ ms : List Node, (∀ m ∈ ms, Markdown.isInline m) →
        ms.any (!Markdown.isInline ·) = false := by
      intro ms hms
      simpa using hms
    rw [hnone run hrun, hnone _ (h.inline run hrun)]
  | block run n ns hrun hn ih =>
    rw [h.apart run n ns hn]
    simp [h.isInline, hn]

theorem isTransparent (h : IsReshaping f g) (n : Node) : isTransparent (f n) = isTransparent n := by
  cases n with
  | leaf l span =>
    obtain ⟨span', hleaf⟩ := h.leaf l span
    rw [hleaf]
    rfl
  | branch c span children =>
    obtain ⟨span', hbranch⟩ := h.branch c span children
    rw [hbranch]
    cases c with
    | paragraph => exact h.any_block children
    | _ => rfl
  | foreign v => rw [h.foreign]

theorem ofChildren_of_blocks (h : IsReshaping f g) {ns : List Node}
    (blocks : ∀ n ∈ ns, ¬Markdown.isInline n →
      BlockUnit.ofBlock (f n) = (BlockUnit.ofBlock n).map (BlockUnit.reshaped f g)) :
    BlockUnit.ofChildren (g ns) = (BlockUnit.ofChildren ns).map (BlockUnit.reshaped f g) := by
  have hinline : ∀ run : List Node, (∀ n ∈ run, Markdown.isInline n) →
      BlockUnit.ofChildren (g run) = (BlockUnit.ofChildren run).map (BlockUnit.reshaped f g) := by
    intro run hrun
    rw [BlockUnit.ofChildren_inline hrun,
      BlockUnit.ofChildren_inline (h.inline run hrun), h.isEmpty]
    split <;> rfl
  induction ns using inductionOnBlocks with
  | inline run hrun => exact hinline run hrun
  | block run n ns hrun hn ih =>
    have hf : ¬Markdown.isInline (f n) := by rwa [h.isInline]
    rw [h.apart run n ns hn, BlockUnit.ofChildren_block (h.inline run hrun) hf,
      BlockUnit.ofChildren_block hrun hn, hinline run hrun, blocks n (by simp) hn,
      ih fun m hm => blocks m (by simp [hm]), List.map_append, List.map_append]

theorem ofBlock (h : IsReshaping f g) (n : Node) :
    BlockUnit.ofBlock (f n) = (BlockUnit.ofBlock n).map (BlockUnit.reshaped f g) := by
  induction n using Node.inductionOnChildren with
  | leaf l span =>
    obtain ⟨span', hleaf⟩ := h.leaf l span
    rw [hleaf, BlockUnit.ofBlock, BlockUnit.ofBlock, List.map_singleton, BlockUnit.reshaped, hleaf]
    all_goals simp
  | branch c span children ih =>
    obtain ⟨span', hbranch⟩ := h.branch c span children
    have htransparent := h.isTransparent (.branch c span children)
    rw [hbranch] at htransparent
    rw [hbranch, BlockUnit.ofBlock, BlockUnit.ofBlock, htransparent]
    split
    · rename_i hc
      have hlist : c.kind ≠ .list := by
        intro hlist
        cases c <;> cases hlist
        cases hc
      rw [if_neg hlist]
      exact h.ofChildren_of_blocks fun n hn _ => ih n hn
    · rw [List.map_singleton, BlockUnit.reshaped, hbranch]
  | foreign v =>
    rw [h.foreign]
    cases v with
    | arr values => rw [BlockUnit.ofBlock, List.map_singleton, BlockUnit.reshaped, h.foreigns]
    | _ =>
      rw [BlockUnit.ofBlock, List.map_singleton, BlockUnit.reshaped, h.foreign]
      all_goals simp

theorem ofChildren (h : IsReshaping f g) (ns : List Node) :
    BlockUnit.ofChildren (g ns) = (BlockUnit.ofChildren ns).map (BlockUnit.reshaped f g) :=
  h.ofChildren_of_blocks fun n _ _ => h.ofBlock n

theorem itemUnits (h : IsReshaping f g) (n : Node) :
    itemUnits (f n) = (itemUnits n).map (BlockUnit.reshaped f g) := by
  cases n with
  | leaf l span =>
    obtain ⟨span', hleaf⟩ := h.leaf l span
    rw [hleaf]
    rfl
  | branch c span children =>
    obtain ⟨span', hbranch⟩ := h.branch c span children
    rw [hbranch]
    cases c with
    | item => exact h.ofChildren children
    | _ => rfl
  | foreign v => rw [h.foreign]; rfl

theorem isEmpty_children (h : IsReshaping f g) (c : Container) (children : List Node) :
    (if c.kind = .list then children.map f else g children).isEmpty = children.isEmpty := by
  split
  · exact List.isEmpty_map
  · exact h.isEmpty children

/-- What is told from a unit but not from the content of its nodes. -/
theorem unit (h : IsReshaping f g) (u : BlockUnit) :
    (u.reshaped f g).isParagraphLike = u.isParagraphLike ∧
      (u.reshaped f g).isEmptyParagraph = u.isEmptyParagraph ∧
      (u.reshaped f g).isHtml = u.isHtml ∧ (u.reshaped f g).endsItself = u.endsItself := by
  cases u with
  | run nodes => exact ⟨rfl, rfl, rfl, rfl⟩
  | single n =>
    rw [BlockUnit.reshaped]
    cases n with
    | leaf l span =>
      obtain ⟨span', hleaf⟩ := h.leaf l span
      rw [hleaf]
      cases l <;> exact ⟨rfl, rfl, rfl, rfl⟩
    | branch c span children =>
      obtain ⟨span', hbranch⟩ := h.branch c span children
      rw [hbranch]
      cases c with
      | paragraph =>
        refine ⟨rfl, ?_, rfl, rfl⟩
        have hempty := h.isEmpty_children .paragraph children
        generalize (if Container.paragraph.kind = .list then children.map f else g children) =
          others at hempty
        cases children <;> cases others <;> first | rfl | cases hempty
      | _ => exact ⟨rfl, rfl, rfl, rfl⟩
    | foreign v => rw [h.foreign]; exact ⟨rfl, rfl, rfl, rfl⟩

theorem canInterrupt (h : IsReshaping f g) (style : Style) (data : ListData)
    (children : List Node) :
    canInterrupt style data (children.map f) = canInterrupt style data children := by
  cases children with
  | nil => rfl
  | cons item items =>
    have hall : (Markdown.itemUnits (f item)).all BlockUnit.isEmptyParagraph =
        (Markdown.itemUnits item).all BlockUnit.isEmptyParagraph := by
      rw [h.itemUnits, List.all_map]
      exact congrArg (List.all _) (funext fun u => (h.unit u).2.1)
    rw [List.map_cons, Markdown.canInterrupt, Markdown.canInterrupt, hall]

theorem cannotInterrupt (h : IsReshaping f g) (style : Style) (u : BlockUnit) :
    (u.reshaped f g).cannotInterrupt style = u.cannotInterrupt style := by
  cases u with
  | run nodes => rfl
  | single n =>
    rw [BlockUnit.reshaped]
    cases n with
    | leaf l span =>
      obtain ⟨span', hleaf⟩ := h.leaf l span
      rw [hleaf]
      rfl
    | branch c span children =>
      obtain ⟨span', hbranch⟩ := h.branch c span children
      rw [hbranch]
      cases c with
      | list data => exact congrArg (!·) (h.canInterrupt style data children)
      | _ => rfl
    | foreign v => rw [h.foreign]

theorem needsBlankLine (h : IsReshaping f g) (style : Style) (previous next : BlockUnit) :
    needsBlankLine style (previous.reshaped f g) (next.reshaped f g) =
    needsBlankLine style previous next := by
  obtain ⟨hlike, -, hhtml, hends⟩ := h.unit previous
  obtain ⟨hlikeNext, -, hhtmlNext, -⟩ := h.unit next
  rw [needsBlankLine_eq, needsBlankLine_eq, hlike, hhtml, hends, hlikeNext, hhtmlNext,
    h.cannotInterrupt]

theorem anyNeedsBlankLine (h : IsReshaping f g) (style : Style) (units : List BlockUnit) :
    anyNeedsBlankLine style (units.map (BlockUnit.reshaped f g)) =
    anyNeedsBlankLine style units := by
  induction units with
  | nil => rfl
  | cons u units ih =>
    cases units with
    | nil => rfl
    | cons v units =>
      rw [List.map_cons, List.map_cons, Markdown.anyNeedsBlankLine, Markdown.anyNeedsBlankLine,
        h.needsBlankLine, ← List.map_cons, ih]

theorem isWrittenTight (h : IsReshaping f g) (style : Style) (data : ListData)
    (children : List Node) :
    isWrittenTight style data (children.map f) = isWrittenTight style data children := by
  rw [Markdown.isWrittenTight, Markdown.isWrittenTight, List.any_map]
  refine congrArg (fun any => data.isTight && !any)
    (congrArg (List.any children) (funext fun item => ?_))
  rw [Function.comp_apply, h.itemUnits, h.anyNeedsBlankLine]

end IsReshaping
end Canonmark.Markdown

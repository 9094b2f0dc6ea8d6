import Canonmark.Markdown.Writer
import Canonmark.Proofs.Markdown.DeepMerge
import Canonmark.Proofs.Markdown.Reshaping

/-! The writer merges a whole tree before it writes the first node. It writes what a writer does
that folds neighbours only where it comes to them, one level of the tree after the other. -/
namespace Canonmark.Markdown

theorem folds_of_block {n : Node} (block : ¬isInline n) (m : Node) :
    folds n m = false ∧ folds m n = false := by
  have hblock : ∀ k : Node, k.kind? = n.kind? → k.kind?.any isFolded = false := by
    intro k hk
    rw [isInline_congr hk.symm] at block
    cases k with
    | leaf l span => cases l <;> first | rfl | exact absurd rfl block
    | branch c span children => cases c <;> first | rfl | exact absurd rfl block
    | foreign v => rfl
  constructor
  · rw [folds, hblock n rfl, Bool.and_false]
  · by_cases h : m.kind? = n.kind?
    · rw [folds, hblock m h, Bool.and_false]
    · rw [folds, beq_eq_false_iff_ne.mpr h, Bool.false_and]

/-- Blocks are not folded, and nothing is folded across them. -/
theorem mergeAdjacent_block {n : Node} (block : ¬isInline n) (before after : List Node) :
    mergeAdjacent (before ++ n :: after) = mergeAdjacent before ++ n :: mergeAdjacent after := by
  have hsingle : [n].splitBy folds = [[n]] :=
    List.splitBy_of_isChain (by simp) (List.isChain_singleton n)
  have hafter : ([n] ++ after).splitBy folds = [[n]] ++ after.splitBy folds := by
    rw [List.splitBy_append (fun m hm k _ => ?_), hsingle]
    obtain rfl : n = m := by simpa using hm
    exact (folds_of_block block k).1
  rw [mergeAdjacent_eq, mergeAdjacent_eq, mergeAdjacent_eq, foldRuns, foldRuns,
    foldRuns, List.splitBy_append_cons _ fun m _ => (folds_of_block block m).2,
    ← List.singleton_append, hafter]
  simp [foldRun]

theorem exists_kind?_of_mem_mergeAdjacent {n : Node} {ns : List Node} (h : n ∈ mergeAdjacent ns) :
    ∃ m ∈ ns, m.kind? = n.kind? := by
  induction ns using List.reverseRecOn generalizing n with
  | nil => cases h
  | append_singleton ns k ih =>
    have hbefore : ∀ m ∈ mergeAdjacent ns, ∃ x ∈ ns ++ [k], x.kind? = m.kind? := by
      intro m hm
      obtain ⟨x, hx, hkind⟩ := ih hm
      exact ⟨x, by simp [hx], hkind⟩
    rw [mergeAdjacent_concat] at h
    obtain ⟨before, m, hconcat, hfolds, hadjoin⟩ | hadjoin := adjoin_cases (mergeAdjacent ns) k
    · rw [hadjoin, List.mem_append, List.mem_singleton] at h
      obtain h | rfl := h
      · exact hbefore n (by simp [hconcat, h])
      · obtain ⟨x, hx, hkind⟩ := hbefore m (by simp [hconcat])
        exact ⟨x, hx, hkind.trans (kind?_joined hfolds).symm⟩
    · rw [hadjoin, List.mem_append, List.mem_singleton] at h
      obtain h | rfl := h
      · exact hbefore n h
      · exact ⟨n, by simp, rfl⟩

theorem isEmpty_mergeAdjacent (ns : List Node) : (mergeAdjacent ns).isEmpty = ns.isEmpty := by
  have hempty := Merge.isEmpty_pushAll [] ns
  rwa [pushAll_nil_eq, List.isEmpty_map, List.isEmpty_nil, Bool.true_and] at hempty

/-- The nodes that are no nodes stay as they are. -/
theorem filter_mergeAdjacent (ns : List Node) :
    (mergeAdjacent ns).filter (·.kind?.isNone) = ns.filter (·.kind?.isNone) := by
  induction ns using List.reverseRecOn with
  | nil => rfl
  | append_singleton ns n ih =>
    rw [mergeAdjacent_concat, List.filter_append, ← ih]
    obtain ⟨before, m, hconcat, hfolds, hadjoin⟩ | hadjoin := adjoin_cases (mergeAdjacent ns) n
    · have hsome : ∀ k : Node, k.kind? = m.kind? → [k].filter (·.kind?.isNone) = [] := by
        intro k hk
        have hfolded : m.kind?.any isFolded := by
          rw [folds, Bool.and_eq_true, beq_iff_eq] at hfolds
          exact hfolds.1 ▸ hfolds.2
        rw [List.filter_singleton, hk]
        cases hkind : m.kind? with
        | none => rw [hkind] at hfolded; cases hfolded
        | some kind => rfl
      rw [hadjoin, hconcat, List.filter_append, List.filter_append, hsome _ (kind?_joined hfolds),
        hsome _ rfl, hsome _ (kind?_eq_of_folds hfolds).symm, List.append_nil, List.append_nil]
    · rw [hadjoin, List.filter_append]

theorem mergeAdjacent_foreign (values : List Json) :
    mergeAdjacent (values.map .foreign) = values.map .foreign := by
  induction values using List.reverseRecOn with
  | nil => rfl
  | append_singleton values v ih =>
    rw [List.map_append, List.map_singleton, mergeAdjacent_concat, ih,
      adjoin_of_apart fun m _ => (folds_of_block (by simp [isInline]) m).2]

theorem isReshaping_merged : IsReshaping merged fun ns => (mergeAdjacent ns).map merged where
  foreign _ := rfl
  leaf _ span := ⟨span, rfl⟩
  branch c span children := ⟨span, by
    rw [merged_eq, foldedIn, mergeAdjacent_eq]
    split <;> rfl⟩
  apart before n after block := by
    rw [mergeAdjacent_block block, List.map_append, List.map_cons]
  inline ns inline n hn := by
    obtain ⟨m, hm, rfl⟩ := List.mem_map.mp hn
    obtain ⟨k, hk, hkind⟩ := exists_kind?_of_mem_mergeAdjacent hm
    rw [isInline_congr ((kind?_merged m).trans hkind.symm)]
    exact inline k hk
  isEmpty ns := by rw [List.isEmpty_map, isEmpty_mergeAdjacent]
  foreigns values := by
    rw [mergeAdjacent_foreign, List.map_map]
    rfl

namespace Writer

/-- The text of inline content: neighbours are folded, and then each node is visited. -/
def inlineText (visit : Node → Writing Unit) (content : List Node) : Writing Chars := do
  refuseForeign content
  let saved ← beginCapture
  forM (mergeAdjacent content) visit
  endCapture saved

def writeUnit (inline : List Node → Writing Chars) (visit : Node → Writing Unit) :
    BlockUnit → Writing Unit
  | .run content => do
    startBlock
    emit (← inline content)
  | .single n => do
    startBlock
    visit n

/-- Writes units one after the other. -/
def writeUnits (inline : List Node → Writing Chars) (visit : Node → Writing Unit)
    (us : List BlockUnit) : Writing Unit :=
  forM us (writeUnit inline visit)

/-- Visits the items of a list, counting from `number`. -/
def visitItems (visit : Node → Writing Unit) (style : Style) (data : ListData) (tight : Bool) :
    (number : Int) → (first : Bool) → List Node → Writing Unit
  | _, _, [] => pure ()
  | number, first, n :: ns => do
    let l ← get
    if !first then
      emit (if tight then ['\n'] else ['\n', '\n'])
      emit (List.replicate l.indent ' ')
    match marker style data number with
    | .error f => throw f
    | .ok mark =>
      modify fun l => { l with markers := (mark, tight) :: l.markers }
      visit n
      modify fun l => { l with markers := l.markers.tail }
      visitItems visit style data tight (number + 1) false ns

/-- Writes one node of a tree in which nothing has been folded yet, and visits what it is written
with. -/
def step (style : Style) (visit : Node → Writing Unit) : Node → Writing Unit
  | .foreign v => throw (.foreignBlock v.typeName)
  | .leaf l _ => leaf style l
  | .branch (.document _) _ children | .branch (.clause ..) _ children =>
    writeUnits (inlineText visit) visit (BlockUnit.ofChildren children)
  | .branch .paragraph _ children => do emit (← inlineText visit children)
  | .branch (.heading level) _ children => do
    let content ← inlineText visit children
    let content := if style.escape then headingContent content else content
    let hashes := List.replicate level.number '#'
    emit (if content.isEmpty then hashes else hashes ++ ' ' :: content)
  | .branch .blockQuote _ children => do
    let saved ← get
    set ({} : Layout)
    writeUnits (inlineText visit) visit (BlockUnit.ofChildren children)
    let quoted := Layout.text (← get)
    set saved
    emit (List.intercalate (newline saved.indent) ((Text.lines quoted).map quoteLine))
  | .branch (.list data) _ children => do
    let tight := isWrittenTight style data children
    let start ← startNumber data
    visitItems visit style data tight start true children
  | .branch .item _ children => do
    let saved ← get
    let (mark, tight) := saved.markers.headD (['-', ' '], true)
    set { saved with out := [], indent := saved.indent + mark.length, first := true, tight }
    writeUnits (inlineText visit) visit (BlockUnit.ofChildren children)
    let l ← get
    let content := Layout.text l
    set { l with
      out := saved.out, indent := saved.indent, first := saved.first, tight := saved.tight }
    emit (if content.isEmpty then Text.trimEnd mark else mark ++ content)
  | .branch .emph _ children => do emit (delimited ['*'] (← inlineText visit children))
  | .branch .strong _ children => do emit (delimited ['*', '*'] (← inlineText visit children))
  | .branch (.link dest title) _ children => do
    guardLink style
    let content ← inlineText visit children
    emit ('[' :: content ++ ']' :: '(' :: linkTarget dest.toList title.toList ++ [')'])
  | .branch (.image dest title) _ children => do
    let content ← inlineText visit children
    emit ('!' :: '[' :: content ++ ']' :: '(' :: linkTarget dest.toList title.toList ++ [')'])
  | .branch (.templateVariable _ value) _ children | .branch (.computedVariable value) _ children =>
    if children.isEmpty then emit (plainText style value)
    else do emit (← inlineText visit children)

variable {style : Style} {f : Node → Node}

theorem refuseForeign_eq (ns : List Node) :
    refuseForeign ns =
      match (ns.filter (·.kind?.isNone)).head? with
      | some n => throw (.foreignInline n.typeName)
      | none => pure () := by
  rw [List.head?_filter]
  rfl

theorem refuseForeign_map (keeps : ∀ n, (f n).kind? = n.kind?)
    (foreign : ∀ v, f (.foreign v) = .foreign v) (ns : List Node) :
    refuseForeign (ns.map f) = refuseForeign ns := by
  have hfilter : (ns.map f).filter (·.kind?.isNone) = ns.filter (·.kind?.isNone) := by
    induction ns with
    | nil => rfl
    | cons n ns ih =>
      rw [List.map_cons, List.filter_cons, List.filter_cons, keeps, ih]
      cases n with
      | foreign v => rw [foreign]
      | _ => rfl
  rw [refuseForeign_eq, refuseForeign_eq, hfilter]

theorem each_eq (ns : List Node) : each style ns = forM ns (node style) := by
  induction ns with
  | nil => rw [each]; rfl
  | cons n ns ih => rw [each, ih]; rfl

theorem items_eq (data : ListData) (tight : Bool) (number : Int) (first : Bool) (ns : List Node) :
    items style data tight number first ns =
    visitItems (node style) style data tight number first ns := by
  induction ns generalizing number first with
  | nil => rw [items, visitItems]
  | cons n ns ih =>
    rw [items]
    simp only [ih]
    rfl

theorem inlines_merged (content : List Node) :
    inlines style ((mergeAdjacent content).map merged) =
      inlineText (fun n => node style (merged n)) content := by
  have hrefuse : refuseForeign ((mergeAdjacent content).map merged) = refuseForeign content := by
    rw [refuseForeign_map kind?_merged fun _ => rfl, refuseForeign_eq, refuseForeign_eq,
      filter_mergeAdjacent]
  rw [inlines, inlineText, hrefuse, each_eq, List.forM_map]

theorem refuseForeign_inline {run : List Node} (h : ∀ n ∈ run, isInline n) :
    refuseForeign run = pure () := by
  have hnone : run.filter (·.kind?.isNone) = [] := by
    rw [List.filter_eq_nil_iff]
    intro n hn
    have hinline := h n hn
    cases n with
    | foreign v => cases hinline
    | _ => nofun
  rw [refuseForeign_eq, hnone]
  rfl

theorem inlines_foreign (values : List Json) :
    inlines style (values.map .foreign) = (do
      refuseForeign (values.map .foreign)
      pure []) := by
  funext l
  cases values with
  | nil =>
    rw [List.map_nil, inlines, each]
    rfl
  | cons v values =>
    rw [List.map_cons, inlines]
    rfl

/-- Where a run of inline nodes ends, the blocks after it are written. -/
theorem run_append {inline : List Node} (h : ∀ n ∈ inline, isInline n) {ns : List Node}
    (block : ∀ n ∈ ns.head?, ¬isInline n) (saved : List Chars) :
    run style saved (inline ++ ns) = (do
      each style inline
      emit (← endCapture saved)
      blocks style ns) := by
  induction inline with
  | nil =>
    rw [List.nil_append, each, pure_bind]
    cases ns with
    | nil => simp [run, blocks]
    | cons n ns =>
      have hn : ¬isInline n := block n rfl
      rw [run, if_neg hn, blocks, if_neg hn]
  | cons n inline ih =>
    obtain ⟨hn, hinline⟩ := List.forall_mem_cons.mp h
    rw [List.cons_append, run, if_pos hn, each, ih hinline, bind_assoc]

theorem blocks_append {inline : List Node} (h : ∀ n ∈ inline, isInline n) {ns : List Node}
    (block : ∀ n ∈ ns.head?, ¬isInline n) :
    blocks style (inline ++ ns) = (do
      writeUnits (inlines style) (node style) (BlockUnit.ofChildren inline)
      blocks style ns) := by
  rw [BlockUnit.ofChildren_inline h]
  cases inline with
  | nil => simp [writeUnits]
  | cons n inline =>
    obtain ⟨hn, hinline⟩ := List.forall_mem_cons.mp h
    rw [List.cons_append, blocks, if_pos hn]
    simp only [List.isEmpty_cons, Bool.false_eq_true, if_false, writeUnits, List.forM_cons,
      List.forM_nil, writeUnit, run_append hinline block, inlines, refuseForeign_inline h, each,
      pure_bind, bind_assoc]

theorem blocks_of_block {ns : List Node} (h : ∀ n ∈ ns, ¬isInline n →
      block style n = writeUnits (inlines style) (node style) (BlockUnit.ofBlock n)) :
    blocks style ns = writeUnits (inlines style) (node style) (BlockUnit.ofChildren ns) := by
  induction ns using inductionOnBlocks with
  | inline run hrun =>
    have happend : blocks style (run ++ []) = _ := blocks_append hrun (by simp)
    rwa [List.append_nil, blocks, bind_pure] at happend
  | block run n ns hrun hn ih =>
    rw [blocks_append hrun (by simpa using hn), BlockUnit.ofChildren_block hrun hn, blocks,
      if_neg hn, h n (by simp) hn, ih fun m hm => h m (by simp [hm])]
    simp only [writeUnits, List.forM_append]

theorem block_eq (n : Node) :
    block style n = writeUnits (inlines style) (node style) (BlockUnit.ofBlock n) := by
  induction n using Node.inductionOnChildren with
  | leaf l span =>
    rw [block, BlockUnit.ofBlock]
    · simp [writeUnits, writeUnit]
    all_goals simp
  | branch c span children ih =>
    rw [block, BlockUnit.ofBlock]
    split
    · exact blocks_of_block fun n hn _ => ih n hn
    · simp [writeUnits, writeUnit]
  | foreign v =>
    cases v with
    | arr values =>
      rw [block, BlockUnit.ofBlock]
      simp [writeUnits, writeUnit, inlines_foreign]
    | _ =>
      rw [block, BlockUnit.ofBlock]
      · simp [writeUnits, writeUnit]
      all_goals simp

/-- Blocks are written unit by unit. -/
theorem blocks_eq (ns : List Node) :
    blocks style ns = writeUnits (inlines style) (node style) (BlockUnit.ofChildren ns) :=
  blocks_of_block fun n _ _ => block_eq n

theorem writeUnits_merged (us : List BlockUnit) :
    writeUnits (inlines style) (node style)
        (us.map (BlockUnit.reshaped merged fun ns => (mergeAdjacent ns).map merged)) =
      writeUnits (inlineText fun n => node style (merged n))
      (fun n => node style (merged n)) us := by
  rw [writeUnits, writeUnits, List.forM_map]
  refine congrArg (forM us) (funext fun u => ?_)
  cases u with
  | run content => simp only [BlockUnit.reshaped, writeUnit, inlines_merged]
  | single n => rfl

theorem blocks_merged (children : List Node) :
    blocks style ((mergeAdjacent children).map merged) =
      writeUnits (inlineText fun n => node style (merged n)) (fun n => node style (merged n))
        (BlockUnit.ofChildren children) := by
  rw [blocks_eq, isReshaping_merged.ofChildren, writeUnits_merged]

theorem visitItems_map (visit : Node → Writing Unit) (data : ListData) (tight : Bool) (number : Int)
    (first : Bool) (ns : List Node) :
    visitItems visit style data tight number first (ns.map f) =
      visitItems (fun n => visit (f n)) style data tight number first ns := by
  induction ns generalizing number first with
  | nil => rw [List.map_nil, visitItems, visitItems]
  | cons n ns ih =>
    rw [List.map_cons, visitItems, visitItems]
    simp only [ih]

/-- Merging a tree before it is written is folding neighbours wherever the writer comes to them:
blocks are grouped, and lists found to be tight, before anything below them is folded. -/
theorem node_merged (style : Style) (n : Node) :
    node style (merged n) = step style (fun m => node style (merged m)) n := by
  cases n with
  | leaf l span => rw [merged_leaf, node, step]
  | foreign v => rw [merged_foreign, node, step]
  | branch c span children =>
    have hchildren : c.kind ≠ .list → merged (.branch c span children) =
        .branch c span ((mergeAdjacent children).map merged) :=
      fun hc => by rw [merged_eq, foldedIn, if_neg hc, mergeAdjacent_eq]
    cases c with
    | document xmlns => rw [hchildren (by simp [Container.kind]), node, step, blocks_merged]
    | clause clauseid src clauseText =>
      rw [hchildren (by simp [Container.kind]), node, step, blocks_merged]
    | paragraph => rw [hchildren (by simp [Container.kind]), node, step, inlines_merged]
    | heading level => rw [hchildren (by simp [Container.kind]), node, step, inlines_merged]
    | blockQuote => rw [hchildren (by simp [Container.kind]), node, step, blocks_merged]
    | item => rw [hchildren (by simp [Container.kind]), node, step, blocks_merged]
    | emph => rw [hchildren (by simp [Container.kind]), node, step, inlines_merged]
    | strong => rw [hchildren (by simp [Container.kind]), node, step, inlines_merged]
    | link dest title => rw [hchildren (by simp [Container.kind]), node, step, inlines_merged]
    | image dest title => rw [hchildren (by simp [Container.kind]), node, step, inlines_merged]
    | templateVariable id value =>
      rw [hchildren (by simp [Container.kind]), node, step, inlines_merged, List.isEmpty_map,
        isEmpty_mergeAdjacent]
    | computedVariable value =>
      rw [hchildren (by simp [Container.kind]), node, step, inlines_merged, List.isEmpty_map,
        isEmpty_mergeAdjacent]
    | list data =>
      rw [merged, apart_eq, node, step, isReshaping_merged.isWrittenTight]
      simp only [items_eq, visitItems_map]

end Writer
end Canonmark.Markdown

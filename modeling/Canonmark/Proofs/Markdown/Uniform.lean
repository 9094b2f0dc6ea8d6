import Canonmark.Proofs.Markdown.Ink
import Canonmark.Proofs.Markdown.ReadTree
import Canonmark.Proofs.Markdown.Visits

/-! A block that has been read is written alike wherever it stands: on all layouts of one
indentation. -/
namespace Canonmark.Markdown.Writer

variable {style : Style} {α β : Type}

/-- Work for which the markers of the outer lists make no difference, while one list is open. -/
def Frames (work : Writing α) : Prop :=
  ∀ (l : Layout) (pre base base' : List (Chars × Bool)), pre ≠ [] → l.markers = pre ++ base →
    ∀ a l₁, work l = .ok a l₁ →
      l₁.markers = pre ++ base ∧
      work { l with markers := pre ++ base' } = .ok a { l₁ with markers := pre ++ base' }

theorem frames_pure (a : α) : Frames (pure a) := by
  intro l pre base base' some hmarkers b l₁ hrun
  cases hrun
  exact ⟨hmarkers, rfl⟩

theorem frames_throw (f : WriteFault) : Frames (throw f : Writing α) := nofun

theorem Frames.bind {work : Writing α} {next : α → Writing β} (h : Frames work)
    (hnext : ∀ a, Frames (next a)) : Frames (work >>= next) := by
  intro l pre base base' some hmarkers b l₂ hrun
  obtain ⟨a, l₁, hwork, hrest⟩ := run_bind_eq_ok hrun
  obtain ⟨hmarkers₁, hwork'⟩ := h l pre base base' some hmarkers a l₁ hwork
  obtain ⟨hmarkers₂, hrest'⟩ := hnext a l₁ pre base base' some hmarkers₁ b l₂ hrest
  exact ⟨hmarkers₂, by rw [run_bind_of_ok hwork', hrest']⟩

/-- Work that looks at the layout, but not at the markers. -/
theorem frames_get {next : Layout → Writing α}
    (blind : ∀ l markers, next { l with markers } = next l) (hnext : ∀ l, Frames (next l)) :
    Frames (get >>= next) := by
  intro l pre base base' some hmarkers a l₁ hrun
  have hget : ∀ l : Layout, (get >>= next) l = next l l := fun _ => rfl
  rw [hget] at hrun
  obtain ⟨hmarkers₁, hrun'⟩ := hnext l l pre base base' some hmarkers a l₁ hrun
  refine ⟨hmarkers₁, ?_⟩
  rw [hget, blind]
  exact hrun'

theorem frames_modify {f : Layout → Layout} (keeps : ∀ l, (f l).markers = l.markers)
    (blind : ∀ l markers, f { l with markers } = { f l with markers }) :
    Frames (modify f : Writing PUnit) := by
  intro l pre base base' some hmarkers a l₁ hrun
  cases hrun
  refine ⟨(keeps l).trans hmarkers, ?_⟩
  change EStateM.Result.ok _ (f { l with markers := pre ++ base' }) = _
  rw [blind]

theorem frames_emit (chunk : Chars) : Frames (emit chunk) :=
  frames_modify (fun _ => rfl) fun _ _ => rfl

theorem frames_startBlock : Frames startBlock := by
  intro l pre base base' some hmarkers a l₁ hrun
  rw [startBlock_eq] at hrun ⊢
  cases hrun
  exact ⟨hmarkers, rfl⟩

theorem frames_guardLink (style : Style) : Frames (guardLink style) := by
  unfold guardLink
  split
  · refine frames_modify (fun l => ?_) fun l markers => ?_
    · split
      · split <;> rfl
      · rfl
    · dsimp only
      split
      · split <;> rfl
      · rfl
  · exact frames_pure ()

theorem frames_leaf (x : Leaf) : Frames (leaf style x) := by
  cases x with
  | codeBlock text info tag =>
    refine frames_get (fun _ _ => rfl) fun l => ?_
    split
    · exact frames_throw _
    · exact frames_emit _
  | htmlBlock text tag | softbreak | linebreak =>
    exact frames_get (fun _ _ => rfl) fun l => frames_emit _
  | thematicBreak | text text | code text | htmlInline text tag => exact frames_emit _

theorem frames_marked {work : Writing Unit} (h : Frames work) (entry : Chars × Bool) :
    Frames (do
      modify fun l => { l with markers := entry :: l.markers }
      work
      modify fun l => { l with markers := l.markers.tail }) := by
  intro l pre base base' some hmarkers a l₁ hrun
  obtain ⟨_, l₂, hpush, hrun⟩ := run_bind_eq_ok hrun
  cases hpush
  obtain ⟨_, l₃, hwork, hpop⟩ := run_bind_eq_ok hrun
  obtain ⟨hmarkers₃, hwork'⟩ := h _ (entry :: pre) base base' (List.cons_ne_nil _ _)
    (by rw [List.cons_append, ← hmarkers]) _ l₃ hwork
  cases hpop
  refine ⟨by simp [hmarkers₃], ?_⟩
  have hpush' : (modify fun l => { l with markers := entry :: l.markers } : Writing PUnit)
      { l with markers := pre ++ base' } = .ok ⟨⟩ { l with markers := entry :: pre ++ base' } := rfl
  rw [run_bind_of_ok hpush']
  have hwork'' : work { l with markers := entry :: pre ++ base' } = _ := hwork'
  rw [run_bind_of_ok hwork'']
  rfl

theorem frames_refuseForeign (ns : List Node) : Frames (refuseForeign ns) := by
  unfold refuseForeign
  split
  · exact frames_throw _
  · exact frames_pure ()

theorem frames_endCapture (saved : List Chars) {next : Chars → Writing α}
    (h : ∀ t, Frames (next t)) : Frames (endCapture saved >>= next) := by
  intro l pre base base' some hmarkers a l₁ hrun
  obtain ⟨t, l₂, hend, hrun⟩ := run_bind_eq_ok hrun
  cases hend
  exact h _ { l with out := saved } pre base base' some hmarkers a l₁ hrun

theorem frames_captured {work : Writing Unit} {next : List Chars → Writing α} (h : Frames work)
    (hnext : ∀ saved, Frames (next saved)) :
    Frames (do
      let saved ← beginCapture
      work
      next saved) := by
  intro l pre base base' some hmarkers a l₁ hrun
  obtain ⟨saved, l₂, hbegin, hrun⟩ := run_bind_eq_ok hrun
  cases hbegin
  exact (h.bind fun _ => hnext l.out) { l with out := [] } pre base base' some hmarkers a l₁ hrun

/-- The blocks of an item, after the marker of the innermost list. -/
theorem frames_item {children : List Node} {span : Option Span}
    (h : Frames (blocks style children)) : Frames (node style (.branch .item span children)) := by
  intro l pre base base' some hmarkers a l₁ hrun
  obtain ⟨l₂, hblocks⟩ := exists_of_node_item hrun
  have hinside : insideItem { l with markers := pre ++ base' } =
      { insideItem l with markers := pre ++ base' } := by
    obtain ⟨entry, pre, rfl⟩ := List.exists_cons_of_ne_nil some
    simp [insideItem, itemMarker, hmarkers]
  have hmarker : itemMarker { l with markers := pre ++ base' } = itemMarker l := by
    obtain ⟨entry, pre, rfl⟩ := List.exists_cons_of_ne_nil some
    simp [itemMarker, hmarkers]
  obtain ⟨hmarkers₂, hblocks'⟩ := h (insideItem l) pre base base' some hmarkers _ l₂ hblocks
  rw [node_item hblocks] at hrun
  cases hrun
  refine ⟨hmarkers₂, ?_⟩
  rw [← hinside] at hblocks'
  rw [node_item hblocks', hmarker]
  rfl

/-- What a quote holds is written on a layout of its own. -/
theorem frames_quote {children : List Node} {span : Option Span} :
    Frames (node style (.branch .blockQuote span children)) := by
  intro l pre base base' some hmarkers a l₁ hrun
  obtain ⟨l₂, hblocks⟩ := exists_of_node_quote hrun
  rw [node_quote hblocks] at hrun ⊢
  cases hrun
  exact ⟨hmarkers, rfl⟩

theorem frames_startNumber (data : ListData) : Frames (startNumber data) := by
  unfold startNumber
  split
  · exact frames_pure 1
  · exact frames_pure 1
  · split
    · split
      · exact frames_pure _
      · exact frames_throw _
    · exact frames_pure 1

mutual

theorem frames_node : ∀ n : Node, Frames (node style n)
  | .foreign v => by
    rw [node]
    exact frames_throw _
  | .leaf x span => by
    rw [node]
    exact frames_leaf x
  | .branch (.document xmlns) span children | .branch (.clause a b c) span children => by
    rw [node]
    exact frames_blocks children
  | .branch .paragraph span children => by
    rw [node]
    exact (frames_inlines children).bind fun t => frames_emit t
  | .branch (.heading level) span children => by
    rw [node]
    exact (frames_inlines children).bind fun t => frames_emit _
  | .branch .blockQuote span children => frames_quote
  | .branch (.list data) span children => by
    rw [node]
    exact (frames_startNumber data).bind fun start => frames_items data _ start true children
  | .branch .item span children => frames_item (frames_blocks children)
  | .branch .emph span children | .branch .strong span children => by
    rw [node]
    exact (frames_inlines children).bind fun t => frames_emit _
  | .branch (.link dest title) span children => by
    rw [node]
    exact (frames_guardLink style).bind fun _ =>
      (frames_inlines children).bind fun t => frames_emit _
  | .branch (.image dest title) span children => by
    rw [node]
    exact (frames_inlines children).bind fun t => frames_emit _
  | .branch (.templateVariable id value) span children
      | .branch (.computedVariable value) span children => by
    rw [node]
    split
    · exact frames_emit _
    · exact (frames_inlines children).bind fun t => frames_emit _

theorem frames_inlines (ns : List Node) : Frames (inlines style ns) := by
  rw [inlines]
  exact (frames_refuseForeign ns).bind fun _ => frames_captured (frames_each ns) fun saved =>
    frames_endCapture saved frames_pure

theorem frames_each : ∀ ns : List Node, Frames (each style ns)
  | [] => by
    rw [each]
    exact frames_pure ()
  | n :: ns => by
    rw [each]
    exact (frames_node n).bind fun _ => frames_each ns

theorem frames_items (data : ListData) (tight : Bool) :
    ∀ (number : Int) (first : Bool) (ns : List Node),
    Frames (items style data tight number first ns)
  | _, _, [] => by
    rw [items]
    exact frames_pure ()
  | number, first, n :: ns => by
    rw [items_cons]
    refine frames_get (fun _ _ => rfl) fun l => ?_
    have hrest : Frames (writeItem style data tight number n
        (items style data tight (number + 1) false ns)) := by
      unfold writeItem
      cases marker style data number with
      | error f => exact frames_throw f
      | ok mark =>
        have hmarked := (frames_marked (frames_node n) (mark, tight)).bind fun _ =>
          frames_items data tight (number + 1) false ns
        simpa only [bind_assoc] using hmarked
    cases first with
    | true => exact hrest
    | false => exact (frames_emit _).bind fun _ => (frames_emit _).bind fun _ => hrest

theorem frames_blocks : ∀ ns : List Node, Frames (blocks style ns)
  | [] => by
    rw [blocks]
    exact frames_pure ()
  | n :: ns => by
    rw [blocks]
    split
    · exact frames_startBlock.bind fun _ => frames_captured (frames_node n) fun saved =>
        frames_run saved ns
    · exact (frames_block n).bind fun _ => frames_blocks ns

theorem frames_run (saved : List Chars) : ∀ ns : List Node, Frames (run style saved ns)
  | [] => by
    rw [run]
    exact frames_endCapture saved fun t => frames_emit t
  | n :: ns => by
    rw [run]
    split
    · exact (frames_node n).bind fun _ => frames_run saved ns
    · exact frames_endCapture saved fun t => (frames_emit t).bind fun _ =>
        (frames_block n).bind fun _ => frames_blocks ns

theorem frames_block : ∀ n : Node, Frames (block style n)
  | .branch c span children => by
    rw [block]
    split
    · exact frames_blocks children
    · exact frames_startBlock.bind fun _ => frames_node (.branch c span children)
  | .foreign (.arr values) => by
    rw [block]
    exact frames_startBlock.bind fun _ => (frames_refuseForeign _).bind fun _ => frames_emit []
  | .leaf x span => by
    rw [block]
    · exact frames_startBlock.bind fun _ => frames_node (.leaf x span)
    all_goals simp
  | .foreign .null | .foreign (.bool _) | .foreign (.int _) | .foreign (.float _)
      | .foreign (.str _) | .foreign (.obj _) => by
    rw [block]
    · exact frames_startBlock.bind fun _ => frames_node _
    all_goals simp

end

/-- Work that, where it is done, writes one text on all layouts of an indentation. -/
def IsUniform (work : Writing Unit) : Prop :=
  ∀ l l₁, work l = .ok () l₁ → ∃ t, ∀ l', l'.indent = l.indent → Writes work t l'

theorem writes_of_eq {work : Writing Unit} {t : Chars} {l : Layout}
    (h : work l = .ok () { l with out := t :: l.out }) : Writes work t l :=
  ⟨_, h, by simp [Layout.text]⟩

theorem isUniform_leaf (x : Leaf) : IsUniform (leaf style x) := by
  intro l l₁ hrun
  rw [leaf_eq] at hrun
  cases ht : leafText style l.indent x with
  | error f =>
    rw [ht] at hrun
    cases hrun
  | ok t =>
    refine ⟨t, fun l' hindent => writes_of_eq ?_⟩
    rw [leaf_eq, hindent, ht]

theorem isUniform_text {c : Container} (text : c = .paragraph ∨ ∃ level, c = .heading level)
    {ns : List Node} (h : ∀ n ∈ ns, IsMadeOf isInlineKind n) (span : Option Span) :
    IsUniform (node style (.branch c span ns)) := by
  intro l _ _
  obtain ⟨content, hinlines⟩ : ∃ content, ∀ l' : Layout, l'.indent = l.indent →
      inlines style ns l' = .ok content l' :=
    ⟨_, fun l' hindent => hindent ▸ inlines_inked h l' false⟩
  obtain rfl | ⟨level, rfl⟩ := text
  · refine ⟨content, fun l' hindent => writes_of_eq ?_⟩
    rw [node, run_bind_of_ok (hinlines l' hindent)]
    rfl
  · refine ⟨headingText style level content, fun l' hindent => writes_of_eq ?_⟩
    rw [node, run_bind_of_ok (hinlines l' hindent)]
    rfl

theorem isUniform_quote (ns : List Node) (span : Option Span) :
    IsUniform (node style (.branch .blockQuote span ns)) := by
  intro l l₁ hrun
  obtain ⟨l₂, hblocks⟩ := exists_of_node_quote hrun
  refine ⟨quoteText l.indent (Layout.text l₂), fun l' hindent => writes_of_eq ?_⟩
  rw [node_quote hblocks, hindent]

theorem exists_branch_of_item {n : Node} (h : n.kind? = some .item) :
    ∃ span children, n = .branch .item span children := by
  cases n with
  | branch c span children =>
    cases c <;> first | exact ⟨span, children, rfl⟩ | cases h
  | leaf x span => cases x <;> cases h
  | foreign v => cases h

variable (style) in
/-- An item with its marker. -/
theorem isUniform_marked {n : Node} (h : n.kind? = some .item) (entry : Chars × Bool) :
    IsUniform (do
    modify fun l => { l with markers := entry :: l.markers }
    node style n
    modify fun l => { l with markers := l.markers.tail }) := by
  obtain ⟨span, children, rfl⟩ := exists_branch_of_item h
  intro l l₁ hrun
  obtain ⟨_, l₂, hpush, hrun⟩ := run_bind_eq_ok hrun
  cases hpush
  obtain ⟨_, l₃, hitem, -⟩ := run_bind_eq_ok hrun
  obtain ⟨l₄, hblocks⟩ := exists_of_node_item hitem
  refine ⟨itemText entry.1 (Layout.text l₄), fun l' hindent => writes_of_eq ?_⟩
  have hinside : insideItem { l' with markers := entry :: l'.markers } =
      { insideItem { l with markers := entry :: l.markers } with
        markers := [entry] ++ l'.markers } := by
    simp [insideItem, itemMarker, hindent]
  obtain ⟨hmarkers, hblocks'⟩ :=
    frames_blocks children _ [entry] l.markers l'.markers (by simp) rfl _ l₄ hblocks
  rw [← hinside] at hblocks'
  have hpush : (modify fun l => { l with markers := entry :: l.markers } : Writing PUnit) l' =
      .ok ⟨⟩ { l' with markers := entry :: l'.markers } := rfl
  rw [run_bind_of_ok hpush, run_bind_of_ok (node_item hblocks')]
  rfl

theorem IsUniform.bind {work next : Writing Unit} (h : IsUniform work)
    (hnext : IsUniform next) : IsUniform (work >>= fun _ => next) := by
  intro l l₂ hrun
  obtain ⟨_, l₁, hwork, hrest⟩ := run_bind_eq_ok hrun
  obtain ⟨t, ht⟩ := h l l₁ hwork
  obtain ⟨out, hout, -⟩ := ht l rfl
  rw [hwork] at hout
  cases hout
  obtain ⟨t', ht'⟩ := hnext _ l₂ hrest
  exact ⟨t ++ t', fun l' hindent => (ht l' hindent).bind fun out => ht' _ hindent⟩

/-- Work that looks at the indentation of the layout only. -/
theorem isUniform_get {next : Layout → Writing Unit}
    (blind : ∀ l l', l'.indent = l.indent → next l' = next l) (hnext : ∀ l, IsUniform (next l)) :
    IsUniform (get >>= next) := by
  have hget : ∀ l : Layout, (get >>= next) l = next l l := fun _ => rfl
  intro l l₁ hrun
  rw [hget] at hrun
  obtain ⟨t, ht⟩ := hnext l l l₁ hrun
  refine ⟨t, fun l' hindent => ?_⟩
  rw [Writes, hget, blind l l' hindent]
  exact ht l' hindent

theorem isUniform_emit (chunk : Chars) : IsUniform (emit chunk) :=
  fun _ _ _ => ⟨chunk, fun l' _ => writes_emit chunk l'⟩

theorem isUniform_pure : IsUniform (pure ()) := fun _ _ _ => ⟨[], fun l' _ => writes_pure l'⟩

theorem isUniform_throw (f : WriteFault) : IsUniform (throw f) := nofun

theorem isUniform_items (data : ListData) (tight : Bool) {ns : List Node}
    (h : ∀ n ∈ ns, n.kind? = some .item) (number : Int) (first : Bool) :
    IsUniform (items style data tight number first ns) := by
  induction ns generalizing number first with
  | nil =>
    rw [items]
    exact isUniform_pure
  | cons n ns ih =>
    obtain ⟨hn, hns⟩ := List.forall_mem_cons.mp h
    have hrest : IsUniform (writeItem style data tight number n
        (items style data tight (number + 1) false ns)) := by
      unfold writeItem
      cases marker style data number with
      | error f => exact isUniform_throw f
      | ok mark =>
        have hmarked := (isUniform_marked style hn (mark, tight)).bind (ih hns (number + 1) false)
        simpa only [bind_assoc] using hmarked
    rw [items_cons]
    refine isUniform_get (fun l l' hindent => by simp only [hindent]) fun l => ?_
    cases first with
    | true => exact hrest
    | false => exact (isUniform_emit _).bind ((isUniform_emit _).bind hrest)

theorem isUniform_list (data : ListData) (span : Option Span)
    {ns : List Node} (h : ∀ n ∈ ns, n.kind? = some .item) :
    IsUniform (node style (.branch (.list data) span ns)) := by
  rw [node]
  obtain ⟨start, hstart⟩ | ⟨f, hstart⟩ := startNumber_cases data
  · rw [hstart]
    exact isUniform_items data _ h start true
  · rw [hstart]
    exact isUniform_throw f

/-- A block that has been read is written as one text wherever it stands at an indentation. -/
theorem isUniform_of_isReadBlock {n : Node} (h : Block.IsReadBlock n) :
    IsUniform (node style (merged n)) := by
  cases h with
  | @leaf x inline =>
    rw [merged_leaf, node]
    exact isUniform_leaf x
  | text text inline =>
    rw [Merge.merged_branch _ (by obtain rfl | ⟨level, rfl⟩ := text <;> simp [Container.kind])]
    exact isUniform_text text (isInline_pushAll inline) none
  | quote children =>
    rw [Merge.merged_branch .blockQuote (by simp [Container.kind])]
    exact isUniform_quote _ none
  | list marker tight isItem =>
    rw [merged, apart_eq]
    refine isUniform_list _ none fun n hn => ?_
    obtain ⟨m, hm, rfl⟩ := List.mem_map.mp hn
    rw [kind?_merged]
    exact isItem m hm

end Canonmark.Markdown.Writer

import Canonmark.Proofs.Markdown.Refusal
import Canonmark.Proofs.Markdown.Solid

/-! Nothing that a tree says is lost when it is written, and nothing changes its place: the
characters of its texts, white space aside, stand in the markdown in document order. -/
namespace Canonmark.Markdown

/-- What a node itself says, without white space. A variable speaks for itself where it has no
children. -/
def contentAt : Node → Chars
  | .leaf (.text t) _ | .leaf (.code t) _ | .leaf (.codeBlock t ..) _ | .leaf (.htmlBlock t _) _
  | .leaf (.htmlInline t _) _ => solid t.toList
  | .branch (.templateVariable _ value) _ [] | .branch (.computedVariable value) _ [] =>
    solid value.toList
  | _ => []

theorem isSteady_contentAt : IsSteady contentAt where
  text s t _ _ _ := by simp [contentAt]
  code s t _ _ _ := by simp [contentAt]
  emph _ _ := rfl
  strong _ _ := rfl
  container c _ children others hempty _ := by
    cases c with
    | templateVariable id value | computedVariable value =>
      cases children <;> cases others <;> first | rfl | cases hempty
    | _ => rfl

namespace Writer

section Adds

variable {α β : Type} {work : Writing α} {next : α → Writing β} {content others : Chars}

/-- Work that, if it is done, leaves what has been written and adds the given content. -/
def Adds (work : Writing α) (content : Chars) : Prop :=
  ∀ l a l', work l = .ok a l' → (solid (Layout.text l) ++ content).Sublist (solid (Layout.text l'))

theorem adds_throw (f : WriteFault) : Adds (throw f : Writing α) content := nofun

/-- Work that does not write adds nothing. -/
theorem adds_of_text_eq (h : ∀ l a l', work l = .ok a l' → Layout.text l' = Layout.text l) :
    Adds work [] := by
  intro l a l' hwork
  rw [List.append_nil, h l a l' hwork]

theorem adds_pure (a : α) : Adds (pure a : Writing α) [] := by
  refine adds_of_text_eq fun l b l' h => ?_
  cases h
  rfl

theorem adds_modify {f : Layout → Layout}
    (h : ∀ l, (solid (Layout.text l)).Sublist (solid (Layout.text (f l)))) :
    Adds (modify f : Writing PUnit) [] := by
  intro l a l' hmodify
  cases hmodify
  rw [List.append_nil]
  exact h l

/-- Work that begins with a look at the layout. -/
theorem adds_get {next : Layout → Writing β}
    (h : ∀ l b l', next l l = .ok b l' →
      (solid (Layout.text l) ++ content).Sublist (solid (Layout.text l'))) :
    Adds (get >>= next) content := fun l b l' hrun => h l b l' hrun

theorem Adds.bind (h : Adds work content) (hnext : ∀ a, Adds (next a) others) :
    Adds (work >>= next) (content ++ others) := by
  intro l b l'' hrun
  obtain ⟨a, l', hwork, hrest⟩ := run_bind_eq_ok hrun
  have hfirst := h l a l' hwork
  rw [← List.append_assoc]
  exact (hfirst.append (List.Sublist.refl others)).trans (hnext a l' b l'' hrest)

theorem Adds.after (h : Adds work []) (hnext : ∀ a, Adds (next a) others) :
    Adds (work >>= next) others := h.bind hnext

/-- Work with a text for its outcome that holds the given content, and with nothing written. -/
def Yields (work : Writing Chars) (content : Chars) : Prop :=
  ∀ l t l', work l = .ok t l' → l'.out = l.out ∧ content.Sublist (solid t)

theorem Yields.bind {work : Writing Chars} {next : Chars → Writing β} (h : Yields work content)
    (hnext : ∀ t, content.Sublist (solid t) → Adds (next t) content) :
    Adds (work >>= next) content := by
  intro l b l'' hrun
  obtain ⟨t, l', hwork, hrest⟩ := run_bind_eq_ok hrun
  obtain ⟨hout, ht⟩ := h l t l' hwork
  have hlast := hnext t ht l' b l'' hrest
  rwa [Layout.text, hout] at hlast

end Adds

theorem adds_markers (f : Layout → List (Chars × Bool)) :
    Adds (modify fun l => { l with markers := f l } : Writing PUnit) [] :=
  adds_modify fun _ => List.Sublist.refl _

theorem text_emit (l : Layout) (chunk : Chars) :
    Layout.text { l with out := chunk :: l.out } = Layout.text l ++ chunk := by
  simp [Layout.text]

theorem adds_emit {chunk content : Chars} (h : content.Sublist (solid chunk)) :
    Adds (emit chunk) content := by
  intro l a l' hemit
  cases hemit
  rw [text_emit, solid_append]
  exact (List.Sublist.refl _).append h

theorem adds_emit_nil (chunk : Chars) : Adds (emit chunk) [] := adds_emit (List.nil_sublist _)

theorem adds_startBlock : Adds startBlock [] := by
  refine adds_get fun l a l' h => ?_
  split at h
  · cases h
    rw [List.append_nil]
    exact List.Sublist.refl _
  · exact (adds_emit_nil _).after (fun _ => adds_emit_nil _) l a l' h

/-- The mark before a link stays where it is; only a backslash comes before it. -/
theorem adds_guardLink (style : Style) : Adds (guardLink style) [] := by
  unfold guardLink
  split
  · refine adds_modify fun l => ?_
    cases hout : l.out with
    | nil => exact List.Sublist.refl _
    | cons chunk rest =>
      dsimp only
      split
      · rename_i hmark
        have hchunk := List.dropLast_append_getLast? '!' (beq_iff_eq.mp hmark)
        have hguarded : chunk.Sublist (chunk.dropLast ++ ['\\', '!']) := by
          conv => lhs; rw [← hchunk]
          exact (List.Sublist.refl _).append ((List.Sublist.refl _).cons _)
        simp only [Layout.text, hout, List.reverse_cons, List.flatten_append,
          List.flatten_singleton]
        exact solid_mono ((List.Sublist.refl _).append hguarded)
      · exact List.Sublist.refl _
  · exact adds_pure _

variable {style : Style}

theorem adds_leaf (l : Leaf) (span : Option Span) :
    Adds (leaf style l) (contentAt (.leaf l span)) := by
  cases l with
  | codeBlock text info tag =>
    refine adds_get fun l a l' h => ?_
    cases hfence : fenceAround style text.toList with
    | error f =>
      simp only [hfence] at h
      cases h
    | ok mark =>
      simp only [hfence] at h
      refine adds_emit ?_ l a l' h
      rw [solid_indentLines]
      exact sublist_codeBlock _ _ _
  | htmlBlock text tag =>
    refine adds_get fun l a l' h => adds_emit ?_ l a l' h
    rw [solid_indentLines, solid_dropEndWhile fun _ => isBlank_of_newline]
    exact List.Sublist.refl _
  | thematicBreak => exact adds_emit_nil _
  | text text => exact adds_emit (solid_mono (sublist_plainText style text))
  | code text => exact adds_emit (solid_mono (sublist_codeSpan _))
  | htmlInline text tag => exact adds_emit (List.Sublist.refl _)
  | softbreak | linebreak => exact adds_get fun l a l' h => adds_emit_nil _ l a l' h

variable {ns : List Node} {g : Node → Chars}

theorem adds_each (h : ∀ n ∈ ns, Adds (node style n) (gather g n)) :
    Adds (each style ns) (gatherAll g ns) := by
  induction ns with
  | nil =>
    rw [each]
    exact adds_pure _
  | cons n ns ih =>
    obtain ⟨hn, hns⟩ := List.forall_mem_cons.mp h
    rw [each, gatherAll_cons]
    exact hn.bind fun _ => ih hns

theorem refuseForeign_eq_ok {l l' : Layout} {a : Unit}
    (h : refuseForeign ns l = .ok a l') : l' = l := by
  unfold refuseForeign at h
  cases hfind : ns.find? (fun n => n.kind?.isNone) with
  | none =>
    simp only [hfind] at h
    cases h
    rfl
  | some n =>
    simp only [hfind] at h
    cases h

theorem yields_inlines (h : ∀ n ∈ ns, Adds (node style n) (gather g n)) :
    Yields (inlines style ns) (gatherAll g ns) := by
  intro l t l' hrun
  rw [inlines] at hrun
  obtain ⟨_, l₁, hforeign, hrun⟩ := run_bind_eq_ok hrun
  obtain ⟨saved, l₂, hbegin, hrun⟩ := run_bind_eq_ok hrun
  obtain ⟨_, l₃, heach, hend⟩ := run_bind_eq_ok hrun
  cases refuseForeign_eq_ok hforeign
  cases hbegin
  cases hend
  exact ⟨rfl, adds_each h _ _ _ heach⟩

/-- An item adds what is in it, and what is left of the list follows. -/
theorem adds_numbered {n : Node} {rest : Writing Unit} {others : Chars}
    (h : Adds (node style n) content)
    (hrest : Adds rest others) (data : ListData) (tight : Bool) (number : Int) :
    Adds (writeItem style data tight number n rest) (content ++ others) := by
  unfold writeItem
  split
  · exact adds_throw _
  · exact (adds_markers _).after fun _ => h.bind fun _ => (adds_markers _).after fun _ => hrest

theorem adds_items (h : ∀ n ∈ ns, Adds (node style n) (gather g n)) (data : ListData)
    (tight : Bool) (number : Int) (first : Bool) :
    Adds (items style data tight number first ns) (gatherAll g ns) := by
  induction ns generalizing number first with
  | nil =>
    rw [items]
    exact adds_pure _
  | cons n ns ih =>
    obtain ⟨hn, hns⟩ := List.forall_mem_cons.mp h
    have hitem := adds_numbered hn (ih hns (number + 1) false) data tight number
    rw [items_cons, gatherAll_cons]
    refine adds_get fun l a l' hrun => ?_
    dsimp only at hrun
    split at hrun
    · exact ((adds_emit_nil _).after fun _ => (adds_emit_nil _).after fun _ => hitem) l a l' hrun
    · exact hitem l a l' hrun

/-- A run ends with its text written after what stood before the run. -/
def AddsRun (style : Style) (ns : List Node) (content : Chars) : Prop :=
  ∀ saved l a l', run style saved ns l = .ok a l' →
    (solid saved.reverse.flatten ++ (solid (Layout.text l) ++ content)).Sublist
    (solid (Layout.text l'))

theorem adds_blocks (hnode : ∀ n ∈ ns, isInline n → Adds (node style n) (gather g n))
    (hblock : ∀ n ∈ ns, ¬isInline n → Adds (block style n) (gather g n)) :
    Adds (blocks style ns) (gatherAll g ns) ∧ AddsRun style ns (gatherAll g ns) := by
  induction ns with
  | nil =>
    refine ⟨?_, fun saved l a l' h => ?_⟩
    · rw [blocks]
      exact adds_pure _
    · rw [run] at h
      cases h
      simp [Layout.text]
  | cons n ns ih =>
    obtain ⟨hn, hns⟩ := List.forall_mem_cons.mp hnode
    obtain ⟨hb, hbs⟩ := List.forall_mem_cons.mp hblock
    obtain ⟨hblocks, hrun⟩ := ih hns hbs
    rw [gatherAll_cons]
    -- While a run is captured, the output holds the run alone; what stood before it is saved.
    by_cases hinline : isInline n
    · refine ⟨?_, fun saved l a l' h => ?_⟩
      · rw [blocks, if_pos hinline]
        refine adds_startBlock.after fun _ => fun l a l' h => ?_
        obtain ⟨saved, l₁, hbegin, hrest⟩ := run_bind_eq_ok h
        cases hbegin
        obtain ⟨_, l₂, hfirst, hrest⟩ := run_bind_eq_ok hrest
        exact ((List.Sublist.refl _).append
          ((hn hinline _ _ _ hfirst).append (List.Sublist.refl _))).trans (hrun _ _ _ _ hrest)
      · rw [run, if_pos hinline] at h
        obtain ⟨_, l₁, hfirst, hrest⟩ := run_bind_eq_ok h
        rw [← List.append_assoc (solid (Layout.text l))]
        exact ((List.Sublist.refl _).append
          ((hn hinline _ _ _ hfirst).append (List.Sublist.refl _))).trans (hrun _ _ _ _ hrest)
    · have hboth : Adds (do block style n; blocks style ns) (gather g n ++ gatherAll g ns) :=
        (hb hinline).bind fun _ => hblocks
      refine ⟨?_, fun saved l a l' h => ?_⟩
      · rw [blocks, if_neg hinline]
        exact hboth
      · rw [run, if_neg hinline] at h
        obtain ⟨_, l₁, hend, hrest⟩ := run_bind_eq_ok h
        cases hend
        obtain ⟨_, l₂, hemit, hrest⟩ := run_bind_eq_ok hrest
        cases hemit
        have hlast := hboth _ _ _ hrest
        rw [text_emit, solid_append, List.append_assoc] at hlast
        exact hlast

/-- A node whose content is added wherever the node stands. -/
structure IsKept (style : Style) (n : Node) : Prop where
  node : Adds (node style n) (gather contentAt n)
  block : Adds (block style n) (gather contentAt n)

theorem adds_startNumber (data : ListData) : Adds (startNumber data) [] := by
  unfold startNumber
  split
  · exact adds_pure _
  · exact adds_pure _
  · split
    · split
      · exact adds_pure _
      · exact adds_throw _
    · exact adds_pure _

variable {children : List Node}

theorem sublist_of_isEmpty {s t : Chars} (h : s.Sublist t) (other : Chars) :
    s.Sublist (if s.isEmpty then other else t) := by
  split
  · rename_i hempty
    rw [List.isEmpty_iff.mp hempty]
    exact List.nil_sublist _
  · exact h

/-- A quote is written on a layout of its own, and then line by line. -/
theorem adds_blockQuote {content : Chars} (h : Adds (blocks style children) content)
    (span : Option Span) : Adds (node style (.branch .blockQuote span children)) content := by
  rw [node]
  refine adds_get fun saved a l' hrun => ?_
  obtain ⟨_, l₁, hset, hrun⟩ := run_bind_eq_ok hrun
  cases hset
  obtain ⟨_, l₂, hblocks, hrun⟩ := run_bind_eq_ok hrun
  have hquoted : content.Sublist (solid (Layout.text l₂)) := h _ _ _ hblocks
  cases hrun
  rw [text_emit, solid_append]
  exact (List.Sublist.refl _).append (hquoted.trans (sublist_quoted _ _))

/-- An item is written after its marker. -/
theorem adds_item {content : Chars} (h : Adds (blocks style children) content)
    (span : Option Span) : Adds (node style (.branch .item span children)) content := by
  rw [node]
  refine adds_get fun saved a l' hrun => ?_
  obtain ⟨_, l₁, hset, hrun⟩ := run_bind_eq_ok hrun
  cases hset
  obtain ⟨_, l₂, hblocks, hrun⟩ := run_bind_eq_ok hrun
  have hcontent : content.Sublist (solid (Layout.text l₂)) := h _ _ _ hblocks
  cases hrun
  rw [text_emit, solid_append]
  have hchunk := sublist_of_isEmpty
    (List.sublist_append_right (saved.markers.headD (['-', ' '], true)).1 (Layout.text l₂))
  exact (List.Sublist.refl _).append (hcontent.trans (solid_mono (hchunk _)))

theorem adds_branch (h : ∀ n ∈ children, IsKept style n) (c : Container) (span : Option Span) :
    Adds (node style (.branch c span children)) (gather contentAt (.branch c span children)) := by
  have hblocks : Adds (blocks style children) (gatherAll contentAt children) :=
    (adds_blocks (fun n hn _ => (h n hn).node) fun n hn _ => (h n hn).block).1
  have hinlines : Yields (inlines style children) (gatherAll contentAt children) :=
    yields_inlines fun n hn => (h n hn).node
  rw [gather_branch]
  cases c with
  | document xmlns | clause clauseid src clauseText =>
    rw [node]
    exact hblocks
  | paragraph =>
    rw [node]
    exact hinlines.bind fun _ ht => adds_emit ht
  | heading level =>
    rw [node]
    refine hinlines.bind fun t ht => adds_emit (ht.trans (solid_mono ?_))
    have hescaped : t.Sublist (if style.escape then headingContent t else t) := by
      split
      · exact sublist_headingContent t
      · exact List.Sublist.refl t
    exact hescaped.trans (sublist_of_isEmpty
      (((List.Sublist.refl _).cons _).trans (List.sublist_append_right _ _)) _)
  | blockQuote => exact adds_blockQuote hblocks span
  | list data =>
    rw [node]
    exact (adds_startNumber data).after fun _ => adds_items (fun n hn => (h n hn).node) data _ _ _
  | item => exact adds_item hblocks span
  | emph | strong =>
    rw [node]
    exact hinlines.bind fun t ht => adds_emit (ht.trans (sublist_delimited _ _))
  | link dest title =>
    rw [node]
    exact (adds_guardLink style).after fun _ => hinlines.bind fun t ht => adds_emit (ht.trans
      (solid_mono ((List.infix_append ['['] t _).sublist.trans (List.sublist_append_left _ _))))
  | image dest title =>
    rw [node]
    exact hinlines.bind fun t ht => adds_emit (ht.trans (solid_mono
      ((List.infix_append ['!', '['] t _).sublist.trans (List.sublist_append_left _ _))))
  | templateVariable id value | computedVariable value =>
    rw [node]
    cases children with
    | nil =>
      rw [gatherAll_nil, List.append_nil]
      exact adds_emit (solid_mono (sublist_plainText style value))
    | cons n ns => exact hinlines.bind fun _ ht => adds_emit ht

theorem isKept_leaf (l : Leaf) (span : Option Span) : IsKept style (.leaf l span) := by
  have hleaf : Adds (node style (.leaf l span)) (gather contentAt (.leaf l span)) := by
    rw [node, gather_leaf]
    exact adds_leaf l span
  refine ⟨hleaf, ?_⟩
  rw [block_leaf]
  exact adds_startBlock.after fun _ => hleaf

theorem contentAt_of_isTransparent {n : Node} (h : isTransparent n) : contentAt n = [] := by
  cases n with
  | branch c span children => cases c <;> first | rfl | cases h
  | _ => cases h

theorem isKept_branch (h : ∀ n ∈ children, IsKept style n) (c : Container) (span : Option Span) :
    IsKept style (.branch c span children) := by
  have hbranch := adds_branch h c span
  refine ⟨hbranch, ?_⟩
  rw [block]
  split
  · rename_i htransparent
    rw [gather_branch, contentAt_of_isTransparent htransparent]
    exact (adds_blocks (fun n hn _ => (h n hn).node) fun n hn _ => (h n hn).block).1
  · exact adds_startBlock.after fun _ => hbranch

theorem isKept_foreign (v : Json) : IsKept style (.foreign v) := by
  have hforeign : Adds (node style (.foreign v)) [] := by
    rw [node]
    exact adds_throw _
  refine ⟨hforeign, ?_⟩
  cases v with
  | arr vs =>
    rw [block]
    refine adds_startBlock.after fun _ => Adds.after (adds_of_text_eq ?_) fun _ => adds_emit_nil _
    intro l a l' h
    rw [refuseForeign_eq_ok h]
  | _ =>
    rw [block]
    · exact adds_startBlock.after fun _ => hforeign
    all_goals simp

theorem isKept (style : Style) (n : Node) : IsKept style n := by
  induction n using Node.inductionOnChildren with
  | leaf l span => exact isKept_leaf l span
  | branch c span children ih => exact isKept_branch ih c span
  | foreign v => exact isKept_foreign v

end Writer

/-- Only documents are written, from an empty layout on, and what is written is trimmed. -/
theorem write_eq_ok {style : Style} {n : Node} {text : String} (h : write style n = .ok text) :
    ∃ l, Writer.node style (merged n) {} = .ok () l ∧
      text = String.ofList (Text.trim (Writer.Layout.text l)) := by
  unfold write at h
  cases hrun : Writer.document style n {} with
  | error f l =>
    rw [hrun] at h
    cases h
  | ok t l =>
    rw [hrun] at h
    cases h
    cases n with
    | branch c span children =>
      cases c with
      | document xmlns =>
        obtain ⟨_, l₁, hset, hrun⟩ := run_bind_eq_ok hrun
        cases hset
        obtain ⟨_, l₂, hnode, hrun⟩ := run_bind_eq_ok hrun
        cases hrun
        exact ⟨l₂, hnode, rfl⟩
      | _ => cases hrun
    | _ => cases hrun

/-- What is written holds the characters of all texts, white space aside, in document order. -/
theorem write_keeps_content {style : Style} {n : Node} {text : String}
    (written : write style n = .ok text) : (gather contentAt n).Sublist text.toList := by
  obtain ⟨l, hnode, rfl⟩ := write_eq_ok written
  have hadded : (gather contentAt (merged n)).Sublist (solid (Writer.Layout.text l)) :=
    (Writer.isKept style (merged n)).node _ _ _ hnode
  rw [gather_merged isSteady_contentAt, ← solid_trim] at hadded
  rw [String.toList_ofList]
  exact hadded.trans (solid_sublist _)

/-- A quote of an emphasized text and a variable. -/
def quotedVariable : Node :=
  .branch (.document defaultNamespace) none [.branch .blockQuote none [.branch .emph none
    [.leaf (.text " a b") none], .branch (.templateVariable "id" "c\n") none []]]

theorem write_keeps_quotedVariable :
    ∃ text, write {} quotedVariable = .ok text ∧ ['a', 'b', 'c'].Sublist text.toList := by
  have numbered : ∀ m ∈ preorder quotedVariable, isNumbered m := by decide
  have hfirst : (preorder quotedVariable).findSome? (faultAt? 3) = none := by rfl
  have hfence : ({} : Style).fenceMin = .whole 3 := rfl
  have hends := write_ends hfence rfl (gather_obstaclesAt rfl numbered)
  rw [hfirst] at hends
  obtain ⟨text, htext⟩ := hends
  exact ⟨text, htext, write_keeps_content htext⟩

end Canonmark.Markdown

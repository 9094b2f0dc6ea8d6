import Canonmark.Proofs.Markdown.Content
import Canonmark.Proofs.Markdown.Levels

/-! What the visit of a node appends to the output, told from what the visits below it append. -/
namespace Canonmark.Markdown

def BlockUnit.nodes : BlockUnit → List Node
  | .run content => content
  | .single n => [n]

theorem mem_nodes_ofChildren_of_blocks {ns : List Node} {u : BlockUnit} {m : Node}
    (h : ∀ n ∈ ns, u ∈ BlockUnit.ofBlock n → m ∈ preorder n ∨ m.kind? = none)
    (hu : u ∈ BlockUnit.ofChildren ns) (hm : m ∈ u.nodes) :
    (∃ n ∈ ns, m ∈ preorder n) ∨ m.kind? = none := by
  have hinline : ∀ run : List Node, (∀ k ∈ run, isInline k) →
      u ∈ BlockUnit.ofChildren run → m ∈ run := by
    intro run hrun hmem
    rw [BlockUnit.ofChildren_inline hrun] at hmem
    split at hmem
    · cases hmem
    · rw [List.mem_singleton] at hmem
      rwa [hmem] at hm
  induction ns using inductionOnBlocks with
  | inline run hrun => exact .inl ⟨m, hinline run hrun hu, mem_preorder_self m⟩
  | block run n ns hrun hn ih =>
    rw [BlockUnit.ofChildren_block hrun hn, List.mem_append, List.mem_append] at hu
    obtain hu | hu | hu := hu
    · exact .inl ⟨m, List.mem_append_left _ (hinline run hrun hu), mem_preorder_self m⟩
    · exact (h n (by simp) hu).imp_left fun hmem => ⟨n, by simp, hmem⟩
    · refine (ih (fun k hk => h k (by simp [hk])) hu).imp_left ?_
      rintro ⟨k, hk, hmem⟩
      exact ⟨k, by simp [hk], hmem⟩

/-- The nodes of units come from the tree, but for foreign values. -/
theorem mem_nodes_ofBlock {n m : Node} {u : BlockUnit} (hu : u ∈ BlockUnit.ofBlock n)
    (hm : m ∈ u.nodes) : m ∈ preorder n ∨ m.kind? = none := by
  have hsingle : ∀ k : Node, u ∈ [BlockUnit.single k] → m = k := by
    intro k hmem
    rw [List.mem_singleton.mp hmem] at hm
    exact List.mem_singleton.mp hm
  induction n using Node.inductionOnChildren with
  | leaf l span =>
    rw [BlockUnit.ofBlock] at hu
    · exact .inl (hsingle _ hu ▸ mem_preorder_self _)
    all_goals simp
  | branch c span children ih =>
    rw [BlockUnit.ofBlock] at hu
    split at hu
    · exact (mem_nodes_ofChildren_of_blocks ih hu hm).imp_left fun hmem =>
        mem_preorder_branch.mpr (.inr hmem)
    · exact .inl (hsingle _ hu ▸ mem_preorder_self _)
  | foreign v =>
    cases v with
    | arr values =>
      rw [BlockUnit.ofBlock, List.mem_singleton] at hu
      rw [hu, BlockUnit.nodes] at hm
      obtain ⟨value, -, rfl⟩ := List.mem_map.mp hm
      exact .inr rfl
    | _ =>
      rw [BlockUnit.ofBlock] at hu
      · exact .inl (hsingle _ hu ▸ mem_preorder_self _)
      all_goals simp

theorem mem_nodes_ofChildren {ns : List Node} {u : BlockUnit} (hu : u ∈ BlockUnit.ofChildren ns)
    {m : Node} (hm : m ∈ u.nodes) : (∃ n ∈ ns, m ∈ preorder n) ∨ m.kind? = none :=
  mem_nodes_ofChildren_of_blocks (fun _ _ hu => mem_nodes_ofBlock hu hm) hu hm

/-- Induction over a tree along the visits of a writer, which visits the units of what holds blocks
and the children of everything else. -/
theorem inductionOnVisits {motive : Node → Prop} (leaf : ∀ l span, motive (.leaf l span))
    (branch : ∀ c span children, (∀ n ∈ children, motive n) →
      (∀ u ∈ BlockUnit.ofChildren children, ∀ n ∈ u.nodes, motive n) →
      motive (.branch c span children))
    (foreign : ∀ v, motive (.foreign v)) (n : Node) : motive n := by
  suffices h : ∀ m ∈ preorder n, motive m from h n (mem_preorder_self n)
  induction n using Node.inductionOnChildren with
  | leaf l span =>
    intro m hm
    obtain rfl := List.mem_singleton.mp hm
    exact leaf l span
  | branch c span children ih =>
    intro m hm
    obtain rfl | ⟨k, hk, hm⟩ := mem_preorder_branch.mp hm
    · refine branch c span children (fun k hk => ih k hk k (mem_preorder_self k))
        fun u hu m hm => ?_
      obtain ⟨k, hk, hm⟩ | hforeign := mem_nodes_ofChildren hu hm
      · exact ih k hk m hm
      · cases m with
        | foreign v => exact foreign v
        | _ => cases hforeign
    · exact ih k hk m hm
  | foreign v =>
    intro m hm
    obtain rfl := List.mem_singleton.mp hm
    exact foreign v

namespace Writer

/-- Nothing but the output differs; the next block may be the first one no longer. -/
structure Settles (l l' : Layout) : Prop where
  indent : l'.indent = l.indent
  tight : l'.tight = l.tight
  markers : l'.markers = l.markers
  first : l'.first → l.first

theorem Settles.refl (l : Layout) : Settles l l := ⟨rfl, rfl, rfl, id⟩

theorem Settles.trans {l l' l'' : Layout} (h : Settles l l') (h' : Settles l' l'') :
    Settles l l'' :=
  ⟨h'.indent.trans h.indent, h'.tight.trans h.tight, h'.markers.trans h.markers, h.first ∘ h'.first⟩

/-- A text in which backslashes may have come before an exclamation mark at its end. -/
def Guarded (t t' : Chars) : Prop :=
  t' = t ∨ ∃ before n, t = before ++ ['!'] ∧ t' = before ++ List.replicate n '\\' ++ ['!']

theorem Guarded.refl (t : Chars) : Guarded t t := .inl rfl

theorem Guarded.trans {t t' t'' : Chars} (h : Guarded t t') (h' : Guarded t' t'') :
    Guarded t t'' := by
  obtain rfl | ⟨before, n, rfl, rfl⟩ := h
  · exact h'
  · obtain rfl | ⟨before', n', hsame, rfl⟩ := h'
    · exact .inr ⟨before, n, rfl, rfl⟩
    · obtain ⟨hbefore, -⟩ := List.append_inj' hsame rfl
      refine .inr ⟨before, n + n', rfl, ?_⟩
      rw [← hbefore, List.append_assoc before, List.replicate_append_replicate]

theorem Guarded.eq_of_not_mem {t t' : Chars} (h : Guarded t t') (none : '!' ∉ t) : t' = t := by
  obtain rfl | ⟨before, n, rfl, rfl⟩ := h
  · rfl
  · simp at none

theorem Guarded.append {t t' : Chars} (h : Guarded t t') (before : Chars) :
    Guarded (before ++ t) (before ++ t') := by
  obtain rfl | ⟨start, n, rfl, rfl⟩ := h
  · exact .refl _
  · exact .inr ⟨before ++ start, n, by simp, by simp⟩

/-- Chunks, the last one first, of which the last one is guarded. -/
def GuardedOut : List Chars → List Chars → Prop
  | [], out => out = []
  | chunk :: rest, out => ∃ chunk', out = chunk' :: rest ∧ Guarded chunk chunk'

theorem GuardedOut.refl (out : List Chars) : GuardedOut out out := by
  cases out with
  | nil => rfl
  | cons chunk rest => exact ⟨chunk, rfl, .refl chunk⟩

theorem GuardedOut.trans {out out' out'' : List Chars} (h : GuardedOut out out')
    (h' : GuardedOut out' out'') : GuardedOut out out'' := by
  cases out with
  | nil =>
    cases h
    exact h'
  | cons chunk rest =>
    obtain ⟨chunk', rfl, hchunk⟩ := h
    obtain ⟨chunk'', rfl, hchunk'⟩ := h'
    exact ⟨chunk'', rfl, hchunk.trans hchunk'⟩

theorem GuardedOut.length_eq {out out' : List Chars} (h : GuardedOut out out') :
    out'.length = out.length := by
  cases out with
  | nil => cases h; rfl
  | cons chunk rest =>
    obtain ⟨chunk', rfl, -⟩ := h
    rfl

theorem GuardedOut.guarded {out out' : List Chars} (h : GuardedOut out out') :
    Guarded out.reverse.flatten out'.reverse.flatten := by
  cases out with
  | nil =>
    cases h
    exact .refl _
  | cons chunk rest =>
    obtain ⟨chunk', rfl, hchunk⟩ := h
    simpa using hchunk.append rest.reverse.flatten

theorem GuardedOut.of_append {chunks base out : List Chars} (h : GuardedOut (chunks ++ base) out) :
    ∃ chunks' base', out = chunks' ++ base' ∧ GuardedOut chunks chunks' ∧
    GuardedOut base base' := by
  cases chunks with
  | nil => exact ⟨[], out, rfl, rfl, h⟩
  | cons chunk chunks =>
    obtain ⟨chunk', rfl, hchunk⟩ := h
    exact ⟨chunk' :: chunks, base, rfl, ⟨chunk', rfl, hchunk⟩, .refl base⟩

/-- Chunks have come after the former output, of which the last one may have been guarded. -/
structure Appends (l l' : Layout) (chunks : List Chars) : Prop where
  settles : Settles l l'
  out : ∃ base, l'.out = chunks ++ base ∧ GuardedOut l.out base

/-- What comes after the former output. -/
def appended (l l' : Layout) : Chars := (l'.out.take (l'.out.length - l.out.length)).reverse.flatten

theorem Appends.appended_eq {l l' : Layout} {chunks : List Chars} (h : Appends l l' chunks) :
    appended l l' = chunks.reverse.flatten := by
  obtain ⟨base, hout, hbase⟩ := h.out
  have hlength := hbase.length_eq
  rw [appended, hout, List.length_append, hlength, Nat.add_sub_cancel, List.take_left]

theorem Appends.trans {l l' l'' : Layout} {chunks others : List Chars}
    (h : Appends l l' chunks) (h' : Appends l' l'' others) :
    ∃ chunks', GuardedOut chunks chunks' ∧ Appends l l'' (others ++ chunks') := by
  obtain ⟨base, hout, hbase⟩ := h.out
  obtain ⟨base', hout', hbase'⟩ := h'.out
  rw [hout] at hbase'
  obtain ⟨chunks', base'', rfl, hchunks, hlast⟩ := hbase'.of_append
  exact ⟨chunks', hchunks, h.settles.trans h'.settles, base'', by rw [hout', List.append_assoc],
    hbase.trans hlast⟩

/-- Work that, if it is done on the layout, appends a text with the property. -/
def WritesAt (l : Layout) (work : Writing Unit) (P : Chars → Prop) : Prop :=
  ∀ l', work l = .ok () l' → ∃ chunks, Appends l l' chunks ∧ P chunks.reverse.flatten

/-- Work that, if it is done on the layout, has a text with the property for its outcome and writes
nothing. -/
def YieldsAt (l : Layout) (work : Writing Chars) (P : Chars → Prop) : Prop :=
  ∀ t l', work l = .ok t l' → Settles l l' ∧ l'.out = l.out ∧ P t

variable {l : Layout} {work : Writing Unit} {P R : Chars → Prop}

theorem WritesAt.mono (h : WritesAt l work P) (hP : ∀ t, P t → R t) : WritesAt l work R := by
  intro l' hwork
  obtain ⟨chunks, happends, ht⟩ := h l' hwork
  exact ⟨chunks, happends, hP _ ht⟩

theorem writesAt_throw (f : WriteFault) : WritesAt l (throw f) P := nofun

theorem writesAt_pure (h : P []) : WritesAt l (pure ()) P := by
  intro l' hpure
  cases hpure
  exact ⟨[], ⟨.refl l, l.out, rfl, .refl l.out⟩, h⟩

theorem writesAt_emit {chunk : Chars} (h : P chunk) : WritesAt l (emit chunk) P := by
  intro l' hemit
  cases hemit
  exact ⟨[chunk], ⟨⟨rfl, rfl, rfl, id⟩, l.out, rfl, .refl l.out⟩, by simpa using h⟩

theorem WritesAt.bind {next : Writing Unit} {P' : Chars → Prop} (h : WritesAt l work P)
    (hnext : ∀ l', Settles l l' → WritesAt l' next P')
    (hR : ∀ t t' rest, P t → Guarded t t' → P' rest → R (t' ++ rest)) :
    WritesAt l (work >>= fun _ => next) R := by
  intro l'' hrun
  obtain ⟨_, l', hwork, hrest⟩ := run_bind_eq_ok hrun
  obtain ⟨chunks, happends, ht⟩ := h l' hwork
  obtain ⟨others, happends', hrest⟩ := hnext l' happends.settles l'' hrest
  obtain ⟨chunks', hguarded, hall⟩ := happends.trans happends'
  refine ⟨others ++ chunks', hall, ?_⟩
  rw [List.reverse_append, List.flatten_append]
  exact hR _ _ _ ht hguarded.guarded hrest

theorem YieldsAt.bind {work : Writing Chars} {next : Chars → Writing Unit}
    (h : YieldsAt l work P) (hnext : ∀ t l', P t → Settles l l' → WritesAt l' (next t) R) :
    WritesAt l (work >>= next) R := by
  intro l'' hrun
  obtain ⟨t, l', hwork, hrest⟩ := run_bind_eq_ok hrun
  obtain ⟨hsettles, hout, ht⟩ := h t l' hwork
  obtain ⟨chunks, ⟨hsettles', base, hout', hbase⟩, hR⟩ := hnext t l' ht hsettles l'' hrest
  exact ⟨chunks, ⟨hsettles.trans hsettles', base, hout', hout ▸ hbase⟩, hR⟩

/-- Texts with a property each, one after the other, and guarded where another one follows. -/
inductive Strung {α : Type} (P : α → Chars → Prop) : List α → Chars → Prop
  | nil : Strung P [] []
  | cons {a : α} {as : List α} {t t' rest : Chars} (first : P a t) (guarded : Guarded t t')
      (others : Strung P as rest) : Strung P (a :: as) (t' ++ rest)

theorem writesAt_forM {α : Type} {visit : α → Writing Unit} {P : α → Chars → Prop} {as : List α}
    (h : ∀ a ∈ as, ∀ l', Settles l l' → WritesAt l' (visit a) (P a)) :
    WritesAt l (forM as visit) (Strung P as) := by
  induction as generalizing l with
  | nil => exact writesAt_pure .nil
  | cons a as ih =>
    obtain ⟨ha, has⟩ := List.forall_mem_cons.mp h
    rw [List.forM_cons]
    exact (ha l (.refl l)).bind (fun l' hl => ih fun b hb l'' hl' => has b hb l'' (hl.trans hl'))
      fun t t' rest ht hguarded hrest => .cons ht hguarded hrest

theorem Strung.mono {α : Type} {P P' : α → Chars → Prop} (h : ∀ a t, P a t → P' a t) {as : List α}
    {t : Chars} (strung : Strung P as t) : Strung P' as t := by
  induction strung with
  | nil => exact .nil
  | cons first guarded _ ih => exact .cons (h _ _ first) guarded ih

theorem Strung.map {α β : Type} {P : β → Chars → Prop} {f : α → β} {as : List α} {t : Chars}
    (strung : Strung (fun a => P (f a)) as t) : Strung P (as.map f) t := by
  induction strung with
  | nil => exact .nil
  | cons first guarded _ ih => exact .cons first guarded ih

/-- On an empty output nothing is guarded: the text is what was written. -/
theorem WritesAt.text {l₀ l : Layout} {work : Writing Unit} (h : WritesAt l₀ work P)
    (empty : l₀.out = []) (hrun : work l₀ = .ok () l) : Settles l₀ l ∧ P (Layout.text l) := by
  obtain ⟨chunks, ⟨hsettles, base, hout, hbase⟩, ht⟩ := h l hrun
  rw [empty] at hbase
  cases hbase
  rw [List.append_nil] at hout
  rw [Layout.text, hout]
  exact ⟨hsettles, ht⟩

theorem yieldsAt_capture (h : WritesAt { l with out := [] } work P) :
    YieldsAt l (do
      let saved ← beginCapture
      work
      endCapture saved) P := by
  intro t l' hrun
  obtain ⟨saved, l₁, hbegin, hrun⟩ := run_bind_eq_ok hrun
  cases hbegin
  obtain ⟨_, l₂, hwork, hend⟩ := run_bind_eq_ok hrun
  cases hend
  obtain ⟨hsettles, ht⟩ := h.text rfl hwork
  exact ⟨⟨hsettles.indent, hsettles.tight, hsettles.markers, hsettles.first⟩, rfl, ht⟩

/-- What is between two blocks. -/
def separator (tight : Bool) (indent : Nat) : Chars :=
  (if tight then ['\n'] else ['\n', '\n']) ++ List.replicate indent ' '

theorem not_mem_separator (tight : Bool) (indent : Nat) : '!' ∉ separator tight indent := by
  cases tight <;> simp [separator]

/-- The text of a leaf. -/
def leafText (style : Style) (indent : Nat) : Leaf → Except WriteFault Chars
  | .codeBlock text info _ =>
    (fenceAround style text.toList).map fun mark =>
      indentLines indent (codeBlock mark text.toList (info.getD "").toList)
  | .htmlBlock text _ => .ok (indentLines indent (Text.dropEndWhile (· == '\n') text.toList))
  | .thematicBreak => .ok ['*', '*', '*']
  | .text text => .ok (plainText style text)
  | .code text => .ok (codeSpan text.toList)
  | .htmlInline text _ => .ok text.toList
  | .softbreak => .ok (newline indent)
  | .linebreak => .ok ('\\' :: newline indent)

/-- The text of a heading with the given content. -/
def headingText (style : Style) (level : Level) (content : Chars) : Chars :=
  let content := if style.escape then headingContent content else content
  let hashes := List.replicate level.number '#'
  if content.isEmpty then hashes else hashes ++ ' ' :: content

/-- The text of a block quote with the given content. -/
def quoteText (indent : Nat) (quoted : Chars) : Chars :=
  List.intercalate (newline indent) ((Text.lines quoted).map quoteLine)

/-- The text of an item with the given content. -/
def itemText (mark content : Chars) : Chars :=
  if content.isEmpty then Text.trimEnd mark else mark ++ content

/-- The marker of an item that is visited on a layout. -/
def itemMarker (l : Layout) : Chars := (l.markers.headD (['-', ' '], true)).1

/-- The layout on which the blocks of an item are written. -/
def insideItem (l : Layout) : Layout where
  indent := l.indent + (itemMarker l).length
  first := true
  tight := (l.markers.headD (['-', ' '], true)).2
  markers := l.markers

section Captured

variable {style : Style} {children : List Node} {span : Option Span}

theorem node_item {l₁ : Layout} (h : blocks style children (insideItem l) = .ok () l₁) :
    node style (.branch .item span children) l = .ok () { l with
      markers := l₁.markers, out := itemText (itemMarker l) (Layout.text l₁) :: l.out } := by
  rw [node]
  have hrun : (do
      set (insideItem l)
      blocks style children
      let l' ← get
      let content := Layout.text l'
      set { l' with out := l.out, indent := l.indent, first := l.first, tight := l.tight }
      emit (if content.isEmpty then Text.trimEnd (itemMarker l) else itemMarker l ++ content) :
      Writing Unit) l = .ok () { l with
        markers := l₁.markers, out := itemText (itemMarker l) (Layout.text l₁) :: l.out } := by
    have hset : (set (insideItem l) : Writing PUnit) l = .ok ⟨⟩ (insideItem l) := rfl
    rw [run_bind_of_ok hset, run_bind_of_ok h]
    rfl
  exact hrun

theorem exists_of_node_item {l' : Layout} {a : Unit}
    (h : node style (.branch .item span children) l = .ok a l') :
    ∃ l₁, blocks style children (insideItem l) = .ok () l₁ := by
  rw [node] at h
  obtain ⟨saved, _, hget, h⟩ := run_bind_eq_ok h
  cases hget
  obtain ⟨_, _, hset, h⟩ := run_bind_eq_ok h
  cases hset
  obtain ⟨_, l₁, hblocks, -⟩ := run_bind_eq_ok h
  exact ⟨l₁, hblocks⟩

theorem node_quote {l₁ : Layout} (h : blocks style children {} = .ok () l₁) (l : Layout) :
    node style (.branch .blockQuote span children) l =
      .ok () { l with out := quoteText l.indent (Layout.text l₁) :: l.out } := by
  rw [node]
  have hset : (set ({} : Layout) : Writing PUnit) l = .ok ⟨⟩ {} := rfl
  have hget : (get : Writing Layout) l = .ok l l := rfl
  rw [run_bind_of_ok hget, run_bind_of_ok hset, run_bind_of_ok h]
  rfl

theorem exists_of_node_quote {l' : Layout} {a : Unit}
    (h : node style (.branch .blockQuote span children) l = .ok a l') :
    ∃ l₁, blocks style children {} = .ok () l₁ := by
  rw [node] at h
  obtain ⟨saved, _, hget, h⟩ := run_bind_eq_ok h
  cases hget
  obtain ⟨_, _, hset, h⟩ := run_bind_eq_ok h
  cases hset
  obtain ⟨_, l₁, hblocks, -⟩ := run_bind_eq_ok h
  exact ⟨l₁, hblocks⟩

end Captured

section Visits

-- What is known of the text that the visit of a node appends to a layout.
variable (Q : Node → Layout → Chars → Prop)

/-- The visit of a node among others on a layout. -/
def VisitOf (l : Layout) (n : Node) (t : Chars) : Prop := ∃ l', Settles l l' ∧ Q n l' t

/-- Inline content is the text of its nodes. -/
def ContentOf (l : Layout) (content : List Node) (t : Chars) : Prop :=
  Strung (VisitOf Q l) content t

def UnitOf (l : Layout) : BlockUnit → Chars → Prop
  | .run content, t => ContentOf Q l content t
  | .single n, t => VisitOf Q l n t

/-- A unit with what stands before it. -/
def PieceOf (l : Layout) (piece : Chars × BlockUnit) (t : Chars) : Prop :=
  ∃ body, t = piece.1 ++ body ∧ UnitOf Q { l with first := false } piece.2 body

/-- Blocks are the text of their units, with separators before all of them but the first. -/
def BlocksOf (l : Layout) : List BlockUnit → Chars → Prop
  | [], t => t = []
  | u :: us, t =>
    let sep := separator l.tight l.indent
    Strung (PieceOf Q l) ((if l.first then [] else sep, u) :: us.map fun v => (sep, v)) t

/-- Items are visited with their markers, one number after the other. -/
def ItemsOf (style : Style) (data : ListData) (tight : Bool) (l : Layout) :
    (number : Int) → (first : Bool) → List Node → Chars → Prop
  | _, _, [], t => t = []
  | number, first, n :: ns, t =>
    ∃ mark body body' rest, marker style data number = .ok mark ∧
      VisitOf Q { l with markers := (mark, tight) :: l.markers } n body ∧ Guarded body body' ∧
      ItemsOf style data tight l (number + 1) false ns rest ∧
      t = (if first then [] else separator tight l.indent) ++ body' ++ rest

/-- The text that the visit of a node appends, where the visits below it append texts as they are
known to. -/
def VisitText (style : Style) : Node → Layout → Chars → Prop
  | .foreign _, _, _ => False
  | .leaf x _, l, t => leafText style l.indent x = .ok t
  | .branch c _ children, l, t =>
    match c with
    | .document _ | .clause .. => BlocksOf Q l (BlockUnit.ofChildren children) t
    | .paragraph => ContentOf Q l children t
    | .heading level =>
      ∃ content, ContentOf Q l children content ∧ t = headingText style level content
    | .blockQuote =>
      ∃ quoted, BlocksOf Q {} (BlockUnit.ofChildren children) quoted ∧ t = quoteText l.indent quoted
    | .list data =>
      ∃ start, startNumber data = pure start ∧
        ItemsOf Q style data (isWrittenTight style data children) l start true children t
    | .item =>
      ∃ content, BlocksOf Q (insideItem l) (BlockUnit.ofChildren children) content ∧
        t = itemText (itemMarker l) content
    | .emph => ∃ content, ContentOf Q l children content ∧ t = delimited ['*'] content
    | .strong => ∃ content, ContentOf Q l children content ∧ t = delimited ['*', '*'] content
    | .link dest title =>
      ∃ content, ContentOf Q l children content ∧
        t = '[' :: content ++ ']' :: '(' :: linkTarget dest.toList title.toList ++ [')']
    | .image dest title =>
      ∃ content, ContentOf Q l children content ∧
        t = '!' :: '[' :: content ++ ']' :: '(' :: linkTarget dest.toList title.toList ++ [')']
    | .templateVariable _ value | .computedVariable value =>
      if children.isEmpty then t = plainText style value else ContentOf Q l children t

variable {Q} {style : Style}

theorem yieldsAt_inlines {children : List Node}
    (h : ∀ n ∈ children, ∀ l, WritesAt l (node style n) (Q n l)) (l : Layout) :
    YieldsAt l (inlines style children) (ContentOf Q l children) := by
  intro t l' hrun
  rw [inlines] at hrun
  obtain ⟨_, l₁, hrefuse, hrest⟩ := run_bind_eq_ok hrun
  obtain ⟨rfl, -⟩ := refuseForeign_eq_ok hrefuse
  rw [each_eq] at hrest
  refine yieldsAt_capture (writesAt_forM fun n hn l₂ hsettles => ?_) t l' hrest
  exact (h n hn l₂).mono fun t ht =>
    ⟨l₂, ⟨hsettles.indent, hsettles.tight, hsettles.markers, hsettles.first⟩, ht⟩

theorem startBlock_eq (l : Layout) :
    startBlock l = .ok () { l with
      first := false
      out := if l.first then l.out else
        List.replicate l.indent ' ' :: (if l.tight then ['\n'] else ['\n', '\n']) :: l.out } := by
  obtain ⟨out, indent, first, tight, markers⟩ := l
  cases first <;> rfl

theorem VisitOf.of_settles {l l' : Layout} (settles : Settles l l') {n : Node} {t : Chars}
    (h : VisitOf Q l' n t) : VisitOf Q l n t := by
  obtain ⟨l₁, hl₁, ht⟩ := h
  exact ⟨l₁, settles.trans hl₁, ht⟩

/-- What is written of a unit once its block has been started. -/
def unitBody (style : Style) : BlockUnit → Writing Unit
  | .run content => do emit (← inlines style content)
  | .single n => node style n

theorem writeUnit_eq (u : BlockUnit) :
    writeUnit (inlines style) (node style) u = (startBlock >>= fun _ => unitBody style u) := by
  cases u <;> rfl

theorem writesAt_unitBody {u : BlockUnit}
    (h : ∀ n ∈ u.nodes, ∀ l, WritesAt l (node style n) (Q n l)) {l₀ l : Layout}
    (settles : Settles l₀ l) : WritesAt l (unitBody style u) (UnitOf Q l₀ u) := by
  cases u with
  | run content =>
    refine (yieldsAt_inlines h l).bind fun t l' ht _ => writesAt_emit ?_
    exact Strung.mono (fun n t => VisitOf.of_settles settles) ht
  | single n => exact (h n (by simp [BlockUnit.nodes]) l).mono fun t ht => ⟨l, settles, ht⟩

/-- A unit has a separator before it if it is not the first block, and the next block is not the
first. -/
theorem writeUnit_eq_ok {u : BlockUnit} (h : ∀ n ∈ u.nodes, ∀ l, WritesAt l (node style n) (Q n l))
    {l₀ l l' : Layout} (settles : Settles l₀ l)
    (hrun : writeUnit (inlines style) (node style) u l = .ok () l') :
    l'.first = false ∧ ∃ chunks, Appends l l' chunks ∧
      PieceOf Q l₀ (if l.first then [] else separator l₀.tight l₀.indent, u)
      chunks.reverse.flatten := by
  rw [writeUnit_eq, run_bind_of_ok (startBlock_eq l)] at hrun
  have hstarted : Settles { l₀ with first := false } { l with
      first := false
      out := if l.first then l.out else
        List.replicate l.indent ' ' :: (if l.tight then ['\n'] else ['\n', '\n']) :: l.out } :=
    ⟨settles.indent, settles.tight, settles.markers, id⟩
  obtain ⟨chunks, ⟨hsettles, base, hout, hbase⟩, ht⟩ := writesAt_unitBody h hstarted l' hrun
  have hfirst : l'.first = false := by simpa using hsettles.first
  have hsettles' : Settles l l' :=
    ⟨hsettles.indent, hsettles.tight, hsettles.markers, fun hl' => absurd hl' (by simp [hfirst])⟩
  refine ⟨hfirst, ?_⟩
  cases hl : l.first with
  | true =>
    rw [hl] at hbase
    exact ⟨chunks, ⟨hsettles', base, hout, hbase⟩, _, rfl, ht⟩
  | false =>
    -- No exclamation mark is at the end of a separator.
    rw [hl] at hbase
    obtain ⟨pad, rfl, hpad⟩ := hbase
    rw [hpad.eq_of_not_mem (by simp)] at hout
    refine ⟨chunks ++ [List.replicate l.indent ' ', if l.tight then ['\n'] else ['\n', '\n']],
      ⟨hsettles', l.out, by simpa using hout, .refl _⟩, chunks.reverse.flatten, ?_, ht⟩
    simp [separator, settles.indent, settles.tight]

theorem writesAt_writeUnits {us : List BlockUnit}
    (h : ∀ u ∈ us, ∀ n ∈ u.nodes, ∀ l, WritesAt l (node style n) (Q n l)) (l : Layout) :
    WritesAt l (writeUnits (inlines style) (node style) us) (BlocksOf Q l us) := by
  have hrest : ∀ {us : List BlockUnit},
    (∀ u ∈ us, ∀ n ∈ u.nodes, ∀ l, WritesAt l (node style n) (Q n l)) → ∀ {l'}, Settles l l' →
    l'.first = false → WritesAt l' (writeUnits (inlines style) (node style) us)
        (Strung (PieceOf Q l) (us.map fun v => (separator l.tight l.indent, v))) := by
    intro us hus l' hl' hfirst
    refine (writesAt_forM fun u hu l₁ hl₁ l₂ hrun => ?_).mono fun t => Strung.map
    have hfirst₁ : l₁.first = false := by simpa [hfirst] using hl₁.first
    obtain ⟨-, chunks, happends, hpiece⟩ := writeUnit_eq_ok (hus u hu) (hl'.trans hl₁) hrun
    rw [hfirst₁] at hpiece
    exact ⟨chunks, happends, hpiece⟩
  cases us with
  | nil => exact writesAt_pure rfl
  | cons u us =>
    obtain ⟨hu, hus⟩ := List.forall_mem_cons.mp h
    intro l'' hrun
    rw [writeUnits, List.forM_cons] at hrun
    obtain ⟨_, l', hrun, hafter⟩ := run_bind_eq_ok hrun
    obtain ⟨hfirst, chunks, happends, hpiece⟩ := writeUnit_eq_ok hu (.refl l) hrun
    obtain ⟨others, happends', ht⟩ := hrest hus happends.settles hfirst l'' hafter
    obtain ⟨chunks', hguarded, hall⟩ := happends.trans happends'
    refine ⟨others ++ chunks', hall, ?_⟩
    rw [List.reverse_append, List.flatten_append]
    exact .cons hpiece hguarded.guarded ht

theorem writesAt_separator {tight : Bool} :
    WritesAt l (do
      emit (if tight then ['\n'] else ['\n', '\n'])
      emit (List.replicate l.indent ' ')) fun t => t = separator tight l.indent := by
  refine (writesAt_emit (P := fun t => t = if tight then ['\n'] else ['\n', '\n']) rfl).bind
    (fun _ _ => writesAt_emit (P := fun t => t = List.replicate l.indent ' ') rfl) ?_
  rintro _ t' _ rfl hguarded rfl
  rw [hguarded.eq_of_not_mem (by cases tight <;> simp), separator]

/-- Markers are there for one item only. -/
theorem writesAt_marked {n : Node} (h : ∀ l, WritesAt l (node style n) (Q n l)) {mark : Chars}
    {tight : Bool}
    {l₀ l : Layout} (settles : Settles l₀ l) :
    WritesAt l (do
      modify fun l => { l with markers := (mark, tight) :: l.markers }
      node style n
      modify fun l => { l with markers := l.markers.tail })
      (VisitOf Q { l₀ with markers := (mark, tight) :: l₀.markers } n) := by
  intro l' hrun
  obtain ⟨_, l₁, hpush, hrun⟩ := run_bind_eq_ok hrun
  cases hpush
  obtain ⟨_, l₂, hnode, hpop⟩ := run_bind_eq_ok hrun
  cases hpop
  obtain ⟨chunks, ⟨hsettles, base, hout, hbase⟩, ht⟩ := h _ l₂ hnode
  refine ⟨chunks,
    ⟨⟨hsettles.indent, hsettles.tight, ?_, hsettles.first⟩, base, hout, hbase⟩, _, ?_, ht⟩
  · exact congrArg List.tail hsettles.markers
  · exact ⟨settles.indent, settles.tight, congrArg ((mark, tight) :: ·) settles.markers,
      settles.first⟩

/-- An item and those after it, where the separator has been written. -/
theorem writesAt_numbered {n : Node} {ns : List Node} (h : ∀ l, WritesAt l (node style n) (Q n l))
    {data : ListData}
    {tight : Bool} {number : Int} {l₀ l : Layout} (settles : Settles l₀ l)
    (others : ∀ {l}, Settles l₀ l → WritesAt l (items style data tight (number + 1) false ns)
      (ItemsOf Q style data tight l₀ (number + 1) false ns)) :
    WritesAt l
      (writeItem style data tight number n (items style data tight (number + 1) false ns))
      (ItemsOf Q style data tight l₀ number true (n :: ns)) := by
  unfold writeItem
  cases hmark : marker style data number with
  | error f => exact writesAt_throw f
  | ok mark =>
    have hmarked := (@writesAt_marked Q style n h mark tight l₀ l settles).bind
      (R := ItemsOf Q style data tight l₀ number true (n :: ns))
      (fun l' hl' => others (settles.trans hl'))
      fun t t' rest ht hguarded hrest => ⟨mark, t, t', rest, hmark, ht, hguarded, hrest, rfl⟩
    simpa only [bind_assoc] using hmarked

theorem writesAt_items {ns : List Node} (h : ∀ n ∈ ns, ∀ l, WritesAt l (node style n) (Q n l))
    (data : ListData) (tight : Bool) {l₀ l : Layout} (settles : Settles l₀ l)
    (number : Int) (first : Bool) :
    WritesAt l (items style data tight number first ns)
      (ItemsOf Q style data tight l₀ number first ns) := by
  induction ns generalizing l number first with
  | nil =>
    rw [items]
    exact writesAt_pure rfl
  | cons n ns ih =>
    obtain ⟨hn, hns⟩ := List.forall_mem_cons.mp h
    have hitem : ∀ {l}, Settles l₀ l →
        WritesAt l _ (ItemsOf Q style data tight l₀ number true (n :: ns)) :=
      fun hl => writesAt_numbered hn hl fun hl' => ih hns hl' (number + 1) false
    rw [items_cons]
    intro l' hrun
    obtain ⟨_, _, hget, hrun⟩ := run_bind_eq_ok hrun
    cases hget
    cases first with
    | true => exact hitem settles l' hrun
    | false =>
      refine (writesAt_separator.bind (fun l₁ hl₁ => hitem (settles.trans hl₁))
        fun t t' rest ht hguarded hrest => ?_) l' hrun
      obtain ⟨mark, body, body', rest, hmark, hbody, hguarded', hrest, rfl⟩ := hrest
      refine ⟨mark, body, body', rest, hmark, hbody, hguarded', hrest, ?_⟩
      rw [hguarded.eq_of_not_mem (ht ▸ not_mem_separator tight l.indent), ht, settles.indent]
      simp

theorem leaf_eq (x : Leaf) (l : Layout) :
    leaf style x l =
      match leafText style l.indent x with
      | .ok t => .ok () { l with out := t :: l.out }
      | .error f => .error f l := by
  cases x with
  | codeBlock text info tag =>
    have hget : (get : Writing Layout) l = .ok l l := rfl
    rw [leaf, leafText, run_bind_of_ok hget]
    cases fenceAround style text.toList <;> rfl
  | htmlBlock text tag | softbreak | linebreak | thematicBreak | text text | code text
      | htmlInline text tag =>
    rfl

theorem writesAt_leaf (x : Leaf) (l : Layout) :
    WritesAt l (leaf style x) fun t => leafText style l.indent x = .ok t := by
  intro l' hrun
  rw [leaf_eq] at hrun
  cases htext : leafText style l.indent x with
  | error f =>
    rw [htext] at hrun
    cases hrun
  | ok t =>
    rw [htext] at hrun
    exact writesAt_emit (P := fun s => (.ok t : Except WriteFault Chars) = .ok s) rfl l' hrun

/-- A link escapes an exclamation mark at the end of the last chunk, if there is one. -/
theorem guardLink_cases (l : Layout) :
    guardLink style l = .ok () l ∨
      ∃ before rest, style.escape ∧ l.out = (before ++ ['!']) :: rest ∧
        guardLink style l = .ok () { l with out := (before ++ ['\\', '!']) :: rest } := by
  unfold guardLink
  split
  case isFalse => exact .inl rfl
  case isTrue hescape =>
    obtain ⟨out, indent, first, tight, markers⟩ := l
    cases out with
    | nil => exact .inl rfl
    | cons chunk rest =>
      by_cases hmark : chunk.getLast? == some '!'
      · have hchunk := List.dropLast_append_getLast? '!' (beq_iff_eq.mp hmark)
        refine .inr ⟨chunk.dropLast, rest, hescape, by rw [hchunk], ?_⟩
        change EStateM.Result.ok () (if chunk.getLast? == some '!' then _ else _) = _
        rw [if_pos hmark]
      · refine .inl ?_
        change EStateM.Result.ok () (if chunk.getLast? == some '!' then _ else _) = _
        rw [if_neg hmark]

theorem writesAt_guardLink (l : Layout) : WritesAt l (guardLink style) fun t => t = [] := by
  intro l' hrun
  obtain hguard | ⟨before, rest, -, hout, hguard⟩ := guardLink_cases l
  · rw [hguard] at hrun
    cases hrun
    exact ⟨[], ⟨.refl l, l.out, rfl, .refl l.out⟩, rfl⟩
  · rw [hguard] at hrun
    cases hrun
    refine ⟨[], ⟨⟨rfl, rfl, rfl, id⟩, _, rfl, ?_⟩, rfl⟩
    rw [hout]
    exact ⟨_, rfl, .inr ⟨before, 1, rfl, by simp⟩⟩

theorem startNumber_cases (data : ListData) :
    (∃ start, startNumber data = pure start) ∨ ∃ f, startNumber data = throw f := by
  unfold startNumber
  split
  · exact .inl ⟨1, rfl⟩
  · exact .inl ⟨1, rfl⟩
  · split
    · split
      · exact .inl ⟨_, rfl⟩
      · exact .inr ⟨_, rfl⟩
    · exact .inl ⟨1, rfl⟩

theorem writesAt_branch {c : Container} {span : Option Span} {children : List Node}
    (h : ∀ n ∈ children, ∀ l, WritesAt l (node style n) (Q n l)) (units :
      ∀ u ∈ BlockUnit.ofChildren children, ∀ n ∈ u.nodes, ∀ l, WritesAt l (node style n) (Q n l))
    (l : Layout) :
    WritesAt l (node style (.branch c span children))
      (VisitText Q style (.branch c span children) l) := by
  have hblocks :
      ∀ l, WritesAt l (blocks style children) (BlocksOf Q l (BlockUnit.ofChildren children)) := by
    intro l
    rw [blocks_eq]
    exact writesAt_writeUnits units l
  have hinlines := yieldsAt_inlines h l
  cases c with
  | document xmlns | clause clauseid src clauseText =>
    rw [node]
    exact hblocks l
  | paragraph =>
    rw [node]
    exact hinlines.bind fun t l' ht _ => writesAt_emit ht
  | heading level =>
    rw [node]
    exact hinlines.bind fun t l' ht _ => writesAt_emit ⟨t, ht, rfl⟩
  | emph | strong =>
    rw [node]
    exact hinlines.bind fun t l' ht _ => writesAt_emit ⟨t, ht, rfl⟩
  | image dest title =>
    rw [node]
    exact hinlines.bind fun t l' ht _ => writesAt_emit ⟨t, ht, rfl⟩
  | templateVariable id value | computedVariable value =>
    rw [node]
    cases hempty : children.isEmpty with
    | true => exact writesAt_emit (by simp [VisitText, hempty])
    | false =>
      exact hinlines.bind fun t l' ht _ => writesAt_emit (by simpa [VisitText, hempty] using ht)
  | link dest title =>
    rw [node]
    have hlink : ∀ l', Settles l l' → WritesAt l' (do
        let content ← inlines style children
        emit ('[' :: content ++ ']' :: '(' :: linkTarget dest.toList title.toList ++ [')']))
        (VisitText Q style (.branch (.link dest title) span children) l) := by
      intro l' hl'
      refine (yieldsAt_inlines h l').bind fun t l'' ht _ => writesAt_emit ⟨t, ?_, rfl⟩
      exact Strung.mono (fun n t => VisitOf.of_settles hl') ht
    refine (writesAt_guardLink l).bind hlink ?_
    · rintro _ t' rest rfl hguarded hrest
      rwa [hguarded.eq_of_not_mem (by simp)]
  | blockQuote =>
    intro l' hrun
    obtain ⟨l₁, hbody⟩ := exists_of_node_quote hrun
    obtain ⟨hsettles, ht⟩ := (hblocks {}).text rfl hbody
    rw [node_quote hbody l] at hrun
    exact writesAt_emit ⟨_, ht, rfl⟩ l' hrun
  | item =>
    intro l' hrun
    obtain ⟨l₁, hbody⟩ := exists_of_node_item hrun
    obtain ⟨hsettles, ht⟩ := (hblocks _).text rfl hbody
    rw [node_item hbody] at hrun
    cases hrun
    refine ⟨[_], ⟨⟨rfl, rfl, hsettles.markers, id⟩, l.out, rfl, .refl l.out⟩, _, ht, ?_⟩
    rw [List.reverse_singleton, List.flatten_singleton]
  | list data =>
    rw [node]
    obtain ⟨start, hstart⟩ | ⟨f, hstart⟩ := startNumber_cases data
    · rw [hstart]
      exact (writesAt_items h data _ (.refl l) start true).mono fun t ht => ⟨start, hstart, ht⟩
    · rw [hstart]
      exact writesAt_throw f

/-- What is true of the text of a visit whenever it is true of the visits below it is true of every
visit. -/
theorem writesAt_node (h : ∀ n l t, VisitText Q style n l t → Q n l t) (n : Node) (l : Layout) :
    WritesAt l (node style n) (Q n l) := by
  induction n using inductionOnVisits generalizing l with
  | leaf x span =>
    rw [node]
    exact (writesAt_leaf x l).mono fun t ht => h _ l t ht
  | branch c span children ih units =>
    exact (writesAt_branch ih units l).mono fun t ht => h _ l t ht
  | foreign v =>
    rw [node]
    exact writesAt_throw _

theorem writesAt_visitText (h : ∀ n l t, VisitText Q style n l t → Q n l t) (n : Node)
    (l : Layout) : WritesAt l (node style n) (VisitText Q style n l) := by
  cases n with
  | leaf x span =>
    rw [node]
    exact writesAt_leaf x l
  | branch c span children =>
    exact writesAt_branch (fun n _ l => writesAt_node h n l)
      (fun _ _ n _ l => writesAt_node h n l) l
  | foreign v =>
    rw [node]
    exact writesAt_throw _

end Visits

end Writer
end Canonmark.Markdown

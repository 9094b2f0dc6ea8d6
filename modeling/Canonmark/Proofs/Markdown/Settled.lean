import Canonmark.Proofs.Markdown.ListNumbers
import Canonmark.Proofs.Markdown.ReadBlocks

/-! Blocks that are written with lines from which the like of them is read, in quotes and in items
as well. -/
namespace Canonmark.Markdown

open Writer (IsHung IsHungItem)

variable {style : Style} {levels : Nat} {inItem : Bool} {n m : Node} {ns ms : List Node}
    {ls : List Chars} {lss : List (List Chars)} {b : Block} {bs cs : List Block} {tight : Bool}

/-- A node that becomes the other one when it is merged, under whatever siblings. -/
def MergesTo (m n : Node) : Prop := ∀ siblings, Merge.push siblings m = siblings ++ [n]

theorem pushAll_of_mergesTo (h : List.Forall₂ MergesTo ms ns) (siblings : List Node) :
    Merge.pushAll siblings ms = siblings ++ ns := by
  induction h generalizing siblings with
  | nil => rw [Merge.pushAll, List.append_nil]
  | cons hn _ ih => rw [Merge.pushAll, hn, ih, List.append_assoc, List.singleton_append]

theorem mergesTo_branch {c : Container} {span : Option Span} (h : Merge.pushAll [] ms = ns)
    (notEmph : c ≠ .emph) (notStrong : c ≠ .strong) (notList : c.kind ≠ .list) :
    MergesTo (.branch c span ms) (.branch c span ns) := by
  intro siblings
  rw [Merge.push_branch siblings c notEmph notStrong, Merge.merged_branch c notList, h]

theorem mergesTo_list {data : ListData} {span : Option Span} (h : List.Forall₂ MergesTo ms ns) :
    MergesTo (.branch (.list data) span ms) (.branch (.list data) span ns) := by
  have hitems : Merge.apart ms = ns := by
    induction h with
    | nil => rw [Merge.apart]
    | cons hn _ ih => rw [Merge.apart, hn, ih, List.nil_append, List.singleton_append]
  intro siblings
  rw [Merge.push, hitems]

theorem mergesTo_items {mss nss : List (List Node)}
    (h : List.Forall₂ (List.Forall₂ MergesTo) mss nss) :
    List.Forall₂ MergesTo (mss.map (.branch .item none ·)) (nss.map (.branch .item none ·)) :=
  List.forall₂_map_left_iff.mpr (List.forall₂_map_right_iff.mpr (h.imp fun _ _ hns =>
    mergesTo_branch (pushAll_of_mergesTo hns []) (by simp) (by simp) (by simp [Container.kind])))

/-- A line with a sign that is neither white space nor the bullet of a style. -/
def HasOther (style : Style) (l : Chars) : Prop := ∃ c ∈ l, isSpace c = false ∧ c ≠ style.bullet

/-- A node that interrupts a paragraph, if it is a list at all. -/
def CanInterrupt (style : Style) (n : Node) : Prop :=
  ∀ data span items, n = .branch (.list data) span items → canInterrupt style data items

/-- A block that is written with lines from which the like of it is read: what becomes the block
when it is merged. `inItem` tells whether they can be those of an item. -/
structure IsSettledIn (style : Style) (levels : Nat) (inItem : Bool) (n : Node)
    (ls : List Chars) : Prop where
  apart : StaysApart n
  hung : IsHung style n ls
  framed : IsFramed ls
  holds : inItem → ∀ l ∈ ls, HoldsIndent l
  other : ∀ l rest, ls = l :: rest → HasOther style l
  alone : n.kind? ≠ some .list → ∀ l rest, ls = l :: rest → ¬BeginsItem l
  begins : ∀ k, n.kind? = some k → k ≠ .paragraph → ∀ l rest, ls = l :: rest →
    Begins levels k (CanInterrupt style n) l
  reads : ∃ b m, ReadsInto levels ls [b] ∧ b.kind? = n.kind? ∧
    (b.absorbsBlank → b.kind? = some .list) ∧ Block.StandsFor [b] [m] ∧ MergesTo m n

/-- Not both nodes are lists. -/
def NotBothLists (a b : Node) : Prop := ¬(a.kind? = some .list ∧ b.kind? = some .list)

/-- A block with another one after it is no list, so that the empty line between them is not its
own. -/
def IsSpacious (ns : List Node) : Prop := ∃ n ∈ ns.dropLast, n.kind? ≠ some .list

/-- Lines that are read as blocks of the like of the given nodes. -/
structure IsReadLike (levels : Nat) (ls : List Chars) (bs : List Block)
    (ns : List Node) : Prop where
  reads : ReadsInto levels ls bs
  like : ∃ ms, Block.StandsFor bs ms ∧ List.Forall₂ MergesTo ms ns

theorem endsInList_singleton (h : EndsInList [b]) : b.kind? = some .list := by
  obtain ⟨m, items, hlast⟩ := h
  obtain rfl := Option.some.inj hlast
  rfl

theorem isSpacious_cons_cons {next : Node} (h : IsSpacious (n :: next :: ns)) :
    n.kind? ≠ some .list ∨ IsSpacious (next :: ns) := by
  obtain ⟨k, hk, hkind⟩ := h
  obtain rfl | hk := List.mem_cons.mp hk
  · exact .inl hkind
  · exact .inr ⟨k, hk, hkind⟩

theorem Block.StandsFor.isBlank_eq (h : Block.StandsFor [b] ms) : b.isBlank = false := by
  have hcontent := h.content
  cases b <;> first | rfl | cases hcontent

theorem Block.StandsFor.exists_kind (h : Block.StandsFor [b] ms) : ∃ k, b.kind? = some k := by
  have hcontent := h.content
  cases b <;> first | exact ⟨_, rfl⟩ | cases hcontent

/-- Settled blocks are read under each other, unless two lists meet. -/
theorem exists_readLike (h : List.Forall₂ (IsSettledIn style levels inItem) ns lss) (some : ns ≠ [])
    (chain : ns.IsChain NotBothLists) :
    ∃ bs, IsReadLike levels (stacked [[]] lss) bs ns ∧
      (IsSpacious ns → ∀ absorbing, Block.holdsGap absorbing bs) := by
  induction h with
  | nil => exact absurd rfl some
  | @cons n ls ns lss hn hns ih =>
    obtain ⟨b, m, hreads, hkind, habsorbs, hstands, hmerges⟩ := hn.reads
    cases hns with
    | nil =>
      refine ⟨[b], ⟨by simpa [stacked] using hreads, _, hstands, .cons hmerges .nil⟩, ?_⟩
      rintro ⟨k, hk, -⟩
      cases hk
    | @cons next ms ns lss hnext hns =>
      obtain ⟨hboth, hchain⟩ := List.isChain_cons_cons.mp chain
      obtain ⟨bs, ⟨hreads', ks, hstands', hmerges'⟩, hspacious⟩ := ih (List.cons_ne_nil _ _) hchain
      obtain ⟨c, s, rest, rfl, hink⟩ := hnext.framed.first
      have hother : EndsInList [b] → ¬BeginsItem (c :: s) := by
        intro hlist
        refine hnext.alone (fun hnextList => hboth ⟨?_, hnextList⟩) (c :: s) rest rfl
        rw [← hkind, endsInList_singleton hlist]
      have hunder := hreads.under hreads' hstands'.ne_nil (isSpace_of_not_isBlank hink) hother
      have hlines : stacked [[]] (ls :: ((c :: s) :: rest) :: lss) =
          ls ++ [] :: stacked [[]] (((c :: s) :: rest) :: lss) := by
        simp [stacked]
      rw [hlines]
      refine ⟨_, ⟨hunder, _, hstands.append_blank hstands', .cons hmerges hmerges'⟩,
        fun hspace absorbing => ?_⟩
      by_cases hlist : n.kind? = Option.some .list
      · exact Block.holdsGap_thenBlank_of_forall
          (hspacious ((isSpacious_cons_cons hspace).resolve_left (not_not_intro hlist))) b _
      · have hfree : b.absorbsBlank = false := by
          rw [Bool.eq_false_iff]
          intro habsorb
          exact hlist (hkind ▸ habsorbs habsorb)
        exact Block.holdsGap_thenBlank hstands'.content hstands.isBlank_eq (hkind ▸ hlist) hfree _

/-- Two blocks that are read apart without a blank line between them. -/
structure Packs (style : Style) (a b : Node) : Prop where
  close : needsBlankLine style (.single a) (.single b) = false
  lists : ¬(a.kind? = some .list ∧ b.kind? = some .list)
  quotes : ¬(a.kind? = some .blockQuote ∧ b.kind? = some .blockQuote)

theorem Begins.mono {k : Kind} {p q : Prop} {l : Chars} (h : Begins levels k p l) (imp : q → p) :
    Begins levels k q l := by
  intro column
  obtain ⟨s, hfind, hkind, hlazy, hinterrupts⟩ := h column
  exact ⟨s, hfind, hkind, hlazy, fun hq => hinterrupts (imp hq)⟩

/-- The first line of a block closes the block before it, where no blank line is needed between
them. -/
theorem IsSettledIn.closes {next : Node} {k k' : Kind} {l : Chars} {rest : List Chars}
    (h : IsSettledIn style levels inItem next (l :: rest)) (packs : Packs style n next)
    (kind : n.kind? = some k) (kind' : next.kind? = some k') : Closes levels k l := by
  by_cases going : n.kind? = some .heading ∨ n.kind? = some .thematicBreak ∨
    n.kind? = some .codeBlock
  · left
    simpa [kind] using going
  · obtain ⟨-, ⟨hparagraph, hhtml⟩, hinterrupts⟩ := needNoBlankLine packs.close going
    have hbegins := h.begins k' kind' (fun hk => hparagraph (hk ▸ kind')) l rest rfl
    have hother : k' ≠ k := by
      rintro rfl
      obtain ⟨s, -, hs, -⟩ := hbegins 0
      rw [kind] at going
      subst hs
      cases s with
      | quote rest => exact packs.quotes ⟨kind, kind'⟩
      | item i => exact packs.lists ⟨kind, kind'⟩
      | html _ => exact hhtml kind'
      | heading level text | fence f | indentedCode | thematicBreak => simp [Start.kind] at going
    exact .inr ⟨k', hother, hbegins.mono fun hk => hinterrupts (hk ▸ kind)⟩

/-- Settled blocks are read under each other without blank lines, where none is needed. -/
theorem exists_readPacked (h : List.Forall₂ (IsSettledIn style levels inItem) ns lss)
    (some : ns ≠ []) (chain : ns.IsChain (Packs style)) :
    ∃ bs, IsReadLike levels (stacked [] lss) bs ns ∧
      bs.map Block.kind? = ns.map Node.kind? ∧ ∀ b ∈ bs, b.isBlank = false := by
  induction h with
  | nil => exact absurd rfl some
  | @cons n ls ns lss hn hns ih =>
    obtain ⟨b, m, hreads, hkind, -, hstands, hmerges⟩ := hn.reads
    cases hns with
    | nil =>
      exact ⟨[b], ⟨by simpa [stacked] using hreads, _, hstands, .cons hmerges .nil⟩,
        by simpa using hkind, by simpa using hstands.isBlank_eq⟩
    | @cons next ms ns lss hnext hns =>
      obtain ⟨hpacks, hchain⟩ := List.isChain_cons_cons.mp chain
      obtain ⟨bs, ⟨hreads', ks, hstands', hmerges'⟩, hkinds, hsolid⟩ :=
        ih (List.cons_ne_nil _ _) hchain
      obtain ⟨c, s, rest, rfl, hink⟩ := hnext.framed.first
      obtain ⟨k, hk⟩ := hstands.exists_kind
      obtain ⟨k', hk'⟩ : ∃ k', next.kind? = Option.some k' := by
        obtain ⟨b', m', -, hkind', -, hstands', -⟩ := hnext.reads
        rw [← hkind']
        exact hstands'.exists_kind
      obtain ⟨g, hends, hblocks, hway⟩ := hreads.ends
      have hyields : g.tip.Yields levels (c :: s) :=
        hway b k rfl hk c s (isSpace_of_not_isBlank hink) (hnext.closes hpacks (hkind ▸ hk) hk')
      have hover := hreads'.over hstands'.ne_nil hends hblocks hyields
      have hlines : stacked [] (ls :: ((c :: s) :: rest) :: lss) =
          ls ++ stacked [] (((c :: s) :: rest) :: lss) := by
        simp [stacked]
      rw [hlines]
      exact ⟨[b] ++ bs, ⟨hover, _, hstands.append hstands', .cons hmerges hmerges'⟩,
        by simp [hkind, hkinds], by simpa using ⟨hstands.isBlank_eq, hsolid⟩⟩

theorem IsSettledIn.follows (h : IsSettledIn style levels inItem n ls) :
    ∃ l rest, ls = l :: rest ∧ FollowsBullet style.bullet l := by
  obtain ⟨c, cs, rest, rfl, hink⟩ := h.framed.first
  exact ⟨c :: cs, rest, rfl, ⟨c, cs, rfl, hink⟩, h.other _ _ rfl⟩

theorem isFramed_stacked (h : List.Forall₂ (IsSettledIn style levels inItem) ns lss)
    (some : ns ≠ []) (tight : Bool) : IsFramed (stacked (gapOf tight) lss) := by
  refine .stacked ?_ ?_ (by cases tight <;> simp [gapOf])
  · rintro rfl
    cases h
    exact some rfl
  · exact forall_right_of_forall₂ h fun _ _ hn => hn.framed

theorem staysApart_of_settled (h : List.Forall₂ (IsSettledIn style levels inItem) ns lss) :
    ∀ n ∈ ns, StaysApart n :=
  forall_left_of_forall₂ h fun _ _ hn => hn.apart

theorem mem_quoteLine (s : Chars) : '>' ∈ Writer.quoteLine s := by
  unfold Writer.quoteLine
  split <;> exact List.mem_cons_self

/-- A quote of settled blocks is settled. -/
theorem isSettledIn_quote (bullet : style.bullet ∈ ['-', '*', '+']) {outer : Bool}
    (h : List.Forall₂ (IsSettledIn style levels inItem) ns lss) (some : ns ≠ [])
    (chain : ns.IsChain NotBothLists) :
    IsSettledIn style (levels + 1) outer
      (.branch .blockQuote none ns) ((stacked [[]] lss).map Writer.quoteLine) := by
  obtain ⟨bs, ⟨hreads, ms, hstands, hmerges⟩, -⟩ := exists_readLike h some chain
  have hframed : IsFramed (stacked [[]] lss) := isFramed_stacked h some false
  have hquote : ∀ l rest, (stacked [[]] lss).map Writer.quoteLine = l :: rest →
      ∃ s, l = Writer.quoteLine s := by
    intro l rest hlines
    obtain ⟨s, _, -, hs, -⟩ := List.map_eq_cons_iff.mp hlines
    exact ⟨s, hs.symm⟩
  refine {
    apart := staysApart_branch (pushAll_of_apart (staysApart_of_settled h) []) (by simp) (by simp)
      (by simp [Container.kind])
    hung := Writer.isHung_quote (h.imp fun _ _ hn => hn.hung) hframed
    framed := hframed.quoted
    holds := fun _ l hl => ?_
    other := fun l rest hlines => ?_
    alone := fun _ l rest hlines => ?_
    begins := ?_
    reads := ?_ }
  · obtain ⟨s, -, rfl⟩ := List.mem_map.mp hl
    exact .inr ⟨'>', mem_quoteLine s, rfl⟩
  · obtain ⟨s, rfl⟩ := hquote l rest hlines
    have hsigns : ∀ sign ∈ ['-', '*', '+'], '>' ≠ sign := by simp
    exact ⟨'>', mem_quoteLine s, rfl, hsigns _ bullet⟩
  · obtain ⟨s, rfl⟩ := hquote l rest hlines
    rintro ⟨column, i, hfind⟩
    obtain ⟨column', hquoted⟩ := find?_quoteLine .free column s
    rw [hquoted] at hfind
    cases hfind
  · rintro k ⟨⟩ - l rest hlines column
    obtain ⟨s, rfl⟩ := hquote l rest hlines
    obtain ⟨column', hquoted⟩ := find?_quoteLine .free column s
    obtain ⟨column'', hparagraph⟩ := find?_quoteLine .paragraph column s
    exact ⟨_, hquoted, rfl, trivial, fun _ => ⟨trivial, underline?_of_find? hparagraph (by simp)⟩⟩
  · refine ⟨.quote bs, .branch .blockQuote none ms, hreads.quoted hframed.ne_nil, rfl,
      by simp [Block.absorbsBlank], ?_, ?_⟩
    · refine Block.standsFor_single rfl (by simp [Block.kind?]) fun ds final => ?_
      rw [Block.nodes, (hstands.nodesIn_eq ds false).1]
    · exact mergesTo_branch (pushAll_of_mergesTo hmerges []) (by simp) (by simp)
        (by simp [Container.kind])

/-- The blocks of an item, written with lines from which the like of them is read in a list. -/
structure IsSettledItem (style : Style) (levels : Nat) (tight : Bool) (ns : List Node)
    (ls : List Chars) : Prop where
  apart : ∀ n ∈ ns, StaysApart n
  hung : IsHungItem style tight (.branch .item none ns) ls
  framed : IsFramed ls
  packed : tight → anyNeedsBlankLine style (itemUnits (.branch .item none ns)) = false
  reads : ∃ bs ms, IsItemLines style.bullet levels ls bs ∧ Block.StandsFor bs ms ∧
    List.Forall₂ MergesTo ms ns ∧ (tight → Block.isSpaced bs = false) ∧
    (tight = false → IsSpacious ns → Block.isSpaced bs)

/-- The lines of settled blocks can be those of an item. -/
theorem isItemLines_stacked (h : List.Forall₂ (IsSettledIn style levels true) ns lss)
    (some : ns ≠ []) (tight : Bool) (reads : ReadsInto levels (stacked (gapOf tight) lss) bs) :
    IsItemLines style.bullet levels (stacked (gapOf tight) lss) bs where
  reads := reads
  first := by
    cases h with
    | nil => exact absurd rfl some
    | cons hn _ =>
      obtain ⟨l, rest, rfl, hfollows⟩ := hn.follows
      exact ⟨l, _, rfl, hfollows⟩
  holds := by
    have hlines : ∀ ls ∈ lss, ∀ l ∈ ls, HoldsIndent l :=
      forall_right_of_forall₂ h fun _ _ hn => hn.holds rfl
    intro l hl
    obtain hl | ⟨ls, hls, hl⟩ := mem_stacked hl
    · cases tight
      · exact .inl (List.mem_singleton.mp hl)
      · cases hl
    · exact hlines ls hls l hl

/-- Blocks with empty lines between them make up an item of a loose list. -/
theorem isSettledItem_loose (h : List.Forall₂ (IsSettledIn style levels true) ns lss)
    (some : ns ≠ []) (chain : ns.IsChain NotBothLists) :
    IsSettledItem style levels false ns (stacked [[]] lss) := by
  obtain ⟨bs, ⟨hreads, ms, hstands, hmerges⟩, hspacious⟩ := exists_readLike h some chain
  refine {
    apart := staysApart_of_settled h
    hung := Writer.isHungItem (h.imp fun _ _ hn => hn.hung) some
    framed := isFramed_stacked h some false
    packed := by simp
    reads := ⟨bs, ms, isItemLines_stacked h some false hreads, hstands, hmerges, by simp,
      fun _ hspace => ?_⟩ }
  rw [Block.isSpaced, hspacious hspace]
  rfl

theorem countP_isParagraph (kinds : bs.map Block.kind? = ns.map Node.kind?) :
    bs.countP Block.isParagraph = ns.countP fun n => n.kind? == some .paragraph := by
  have hparagraph : Block.isParagraph = (· == some Kind.paragraph) ∘ Block.kind? := by
    funext b
    cases b <;> rfl
  rw [hparagraph, ← List.countP_map, kinds, List.countP_map]
  rfl

/-- Blocks without blank lines, no more than one of which is a paragraph, make up an item of a tight
list. -/
theorem isSettledItem_packed (h : List.Forall₂ (IsSettledIn style levels true) ns lss)
    (nonempty : ns ≠ []) (chain : ns.IsChain (Packs style))
    (one : (ns.countP fun n => n.kind? == some .paragraph) ≤ 1) :
    IsSettledItem style levels true ns (stacked [] lss) := by
  obtain ⟨bs, ⟨hreads, ms, hstands, hmerges⟩, hkinds, hsolid⟩ := exists_readPacked h nonempty chain
  have hhung : List.Forall₂ (IsHung style) ns lss := h.imp fun _ _ hn => hn.hung
  refine {
    apart := staysApart_of_settled h
    hung := Writer.isHungItem hhung nonempty
    framed := isFramed_stacked h nonempty true
    packed := fun _ => ?_
    reads :=
      ⟨bs, ms, isItemLines_stacked h nonempty true hreads, hstands, hmerges, fun _ => ?_, by simp⟩ }
  · rw [itemUnits, Writer.ofChildren_hung hhung]
    exact Writer.anyNeedsBlankLine_of_isChain (chain.imp fun _ _ hpacks => hpacks.close)
  · exact Block.isSpaced_of_solid hsolid (by rwa [countP_isParagraph hkinds])

theorem IsFramed.marked {mark : Chars} {c : Char} {cs : Chars} (h : mark = c :: cs)
    (ink : Text.isBlank c = false) (single : '\n' ∉ mark ∧ '\r' ∉ mark) (framed : IsFramed ls) :
    IsFramed (markedLines mark ls) where
  single := by
    obtain ⟨l, ls, rfl⟩ := List.exists_cons_of_ne_nil framed.ne_nil
    obtain ⟨hl, hls⟩ := List.forall_mem_cons.mp framed.single
    refine List.forall_mem_cons.mpr ⟨by simp [single, hl], fun l' hl' => ?_⟩
    obtain ⟨k, hk, rfl⟩ := List.mem_map.mp hl'
    unfold hang
    split <;> simp [hls k hk]
  first := by
    obtain ⟨d, ds, rest, rfl, _⟩ := framed.first
    exact ⟨c, cs ++ d :: ds, _, by rw [h]; rfl, ink⟩
  last := by
    obtain ⟨rest, ds, d, rfl, hd⟩ := framed.last
    cases rest with
    | nil => exact ⟨[], mark ++ ds, d, by simp [markedLines], hd⟩
    | cons l rest =>
      exact ⟨(mark ++ l) :: rest.map (hang mark.length), List.replicate mark.length ' ' ++ ds, d,
        by simp [markedLines, hang], hd⟩

variable {nss : List (List Node)} {data : ListData} {start count : Nat} {mark : Nat → Chars}
    {marker : Nat → Marker}

theorem IsMarking.framed {sign : Char} (h : IsMarking sign count mark marker) (some : lss ≠ [])
    (framed : ∀ ls ∈ lss, IsFramed ls) (tight : Bool) (i : Nat) :
    IsFramed (stacked (gapOf tight) (numberedLines mark i lss)) := by
  have hsome : numberedLines mark i lss ≠ [] := by
    obtain ⟨ls, lss, rfl⟩ := List.exists_cons_of_ne_nil some
    exact List.cons_ne_nil _ _
  refine .stacked hsome ?_ (by cases tight <;> simp [gapOf])
  clear some hsome
  induction lss generalizing i with
  | nil => simp [numberedLines]
  | cons ls lss ih =>
    obtain ⟨hls, hlss⟩ := List.forall_mem_cons.mp framed
    obtain ⟨c, cs, hmark, hc⟩ := h.head i
    exact List.forall_mem_cons.mpr ⟨hls.marked hmark hc (h.single i), ih hlss (i + 1)⟩

theorem holds_numberedLines (holds : ∀ ls ∈ lss, ∀ l ∈ ls, HoldsIndent l)
    (ink : ∀ i, ∃ c ∈ mark i, isSpace c = false) (tight : Bool) (i : Nat) :
    ∀ l ∈ stacked (gapOf tight) (numberedLines mark i lss), HoldsIndent l := by
  have hitems : ∀ ms ∈ numberedLines mark i lss, ∀ l ∈ ms, HoldsIndent l := by
    induction lss generalizing i with
    | nil => simp [numberedLines]
    | cons ls lss ih =>
      obtain ⟨hls, hlss⟩ := List.forall_mem_cons.mp holds
      refine List.forall_mem_cons.mpr ⟨fun l hl => ?_, ih hlss (i + 1)⟩
      cases ls with
      | nil => cases hl
      | cons k ls =>
        obtain rfl | hl := List.mem_cons.mp hl
        · obtain ⟨c, hc, hspace⟩ := ink i
          exact .inr ⟨c, List.mem_append_left k hc, hspace⟩
        · obtain ⟨m, hm, rfl⟩ := List.mem_map.mp hl
          obtain rfl | ⟨c, hc, hspace⟩ := (List.forall_mem_cons.mp hls).2 m hm
          · exact .inl rfl
          · rw [hang_of_ne_nil (List.ne_nil_of_mem hc)]
            exact .inr ⟨c, List.mem_append_right _ hc, hspace⟩
  intro l hl
  obtain hl | ⟨ms, hms, hl⟩ := mem_stacked hl
  · cases tight
    · exact .inl (List.mem_singleton.mp hl)
    · cases hl
  · exact hitems ms hms l hl

/-- What is read in the items of a list. -/
theorem exists_itemBlocks (h : List.Forall₂ (IsSettledItem style levels tight) nss lss) :
    ∃ bss mss, List.Forall₂ (IsItemLines style.bullet levels) lss bss ∧
    List.Forall₂ Block.StandsFor bss mss ∧
      List.Forall₂ (List.Forall₂ MergesTo) mss nss ∧
      (tight → ∀ bs ∈ bss, Block.isSpaced bs = false) ∧
      (tight = false → (∃ ns ∈ nss, IsSpacious ns) → ∃ bs ∈ bss, Block.isSpaced bs) := by
  induction h with
  | nil => exact ⟨[], [], .nil, .nil, .nil, by simp, by simp⟩
  | cons hitem _ ih =>
    obtain ⟨bs, ms, hlines, hstands, hmerges, hpacked, hspaced⟩ := hitem.reads
    obtain ⟨bss, mss, hall, hallStand, hallMerge, hallPacked, hallSpaced⟩ := ih
    refine ⟨bs :: bss, ms :: mss, .cons hlines hall,
      .cons hstands hallStand, .cons hmerges hallMerge, fun htight =>
      List.forall_mem_cons.mpr ⟨hpacked htight, hallPacked htight⟩, fun hloose hsome => ?_⟩
    obtain ⟨ns, hns, hspacious⟩ := hsome
    obtain rfl | hns := List.mem_cons.mp hns
    · exact ⟨bs, List.mem_cons_self, hspaced hloose hspacious⟩
    · obtain ⟨cs, hcs, hgap⟩ := hallSpaced hloose ⟨ns, hns, hspacious⟩
      exact ⟨cs, List.mem_cons_of_mem _ hcs, hgap⟩

theorem isWrittenTight_eq
    (h : ∀ ns ∈ nss, tight → anyNeedsBlankLine style (itemUnits (.branch .item none ns)) = false)
    (isTight : data.isTight = tight) :
    isWrittenTight style data (nss.map (.branch .item none ·)) = tight := by
  rw [isWrittenTight, isTight]
  cases tight with
  | false => rfl
  | true =>
    have hnone : (nss.map (.branch .item none ·)).any
        (fun item => anyNeedsBlankLine style (itemUnits item)) = false := by
      refine List.any_eq_false.mpr fun item hitem => ?_
      obtain ⟨ns, hns, rfl⟩ := List.mem_map.mp hitem
      simp [h ns hns rfl]
    rw [hnone]
    rfl

/-- The first line of a list begins an item, and interrupts a paragraph if the list can. -/
theorem IsNumbered.begins_list {count : Nat} {item : Node} {items : List Node}
    (numbered : IsNumbered style count data tight start mark marker)
    (positive : 0 < count) {s : Chars} (follows : FollowsBullet style.bullet s) :
    Begins (levels + 1) .list (CanInterrupt style (.branch (.list data) none (item :: items)))
    (mark start ++ s) := by
  intro column
  have hfind := numbered.marking.find start (by omega) .free (by simp) s follows column
  refine ⟨_, hfind, rfl, by rintro ⟨⟩, fun can => ?_⟩
  have hbreaks : Start.interrupts
      ⟨marker start, (mark start).length, some ⟨column + (mark start).length, s⟩⟩ := by
    obtain ⟨c, cs, rfl, -⟩ := follows.ink
    cases hmarker : marker start with
    | bullet sign => rfl
    | ordered n paren =>
      obtain rfl := numbered.interrupts item items (can data none _ rfl) n paren hmarker
      rfl
  exact ⟨fun _ => hbreaks, underline?_of_find? (find?_of_free hfind fun _ => hbreaks) (by simp)⟩

/-- A list is settled if its items are, and if it is loose only where an empty line parts items or
blocks. -/
theorem isSettledIn_list (h : List.Forall₂ (IsSettledItem style levels tight) nss lss)
    (nonempty : nss ≠ []) (numbered : IsNumbered style nss.length data tight start mark marker)
    (parted : tight = false → 2 ≤ nss.length ∨ ∃ ns ∈ nss, IsSpacious ns) {outer : Bool} :
    IsSettledIn style (levels + 1) outer
    (.branch (.list data) none (nss.map (.branch .item none ·)))
      (stacked (gapOf tight) (numberedLines mark start lss)) := by
  obtain ⟨bss, mss, hlines, hstands, hmerges, hpacked, hspaced⟩ := exists_itemBlocks h
  have hlength : nss.length = lss.length := h.length_eq
  have hblocks : lss.length = bss.length := hlines.length_eq
  have hsome : lss ≠ [] := by
    rintro rfl
    exact nonempty (List.length_eq_zero_iff.mp hlength)
  have hbss : bss ≠ [] := by
    rintro rfl
    exact hsome (List.length_eq_zero_iff.mp hblocks)
  have happart : ∀ n ∈ nss.map (Node.branch .item none ·), StaysApart n := by
    intro n hn
    obtain ⟨ns, hns, rfl⟩ := List.mem_map.mp hn
    have hbelow := forall_left_of_forall₂ h (fun _ _ hitem => hitem.apart) ns hns
    exact staysApart_branch (pushAll_of_apart hbelow []) (by simp) (by simp)
      (by simp [Container.kind])
  have hfirst : ∀ l rest, stacked (gapOf tight) (numberedLines mark start lss) = l :: rest →
      ∃ s, l = mark start ++ s ∧ FollowsBullet style.bullet s := by
    intro l rest hl
    cases hlines with
    | nil => exact absurd rfl hsome
    | cons hitem _ =>
      obtain ⟨s, more, rfl, hfollows⟩ := hitem.first
      obtain rfl := (List.cons.inj hl).1
      exact ⟨s, rfl, hfollows⟩
  have hink : ∀ i, ∃ c ∈ mark i, isSpace c = false := by
    intro i
    obtain ⟨c, cs, hmark, hc⟩ := numbered.marking.head i
    exact ⟨c, hmark ▸ List.mem_cons_self, isSpace_of_not_isBlank hc⟩
  refine {
    apart := fun siblings => by rw [Merge.push, apart_of_apart happart]
    hung := ?_
    framed := numbered.marking.framed hsome
      (forall_right_of_forall₂ h fun _ _ hitem => hitem.framed) tight start
    holds := fun _ => holds_numberedLines
      (forall_left_of_forall₂ hlines fun _ _ hitem => hitem.holds) hink tight start
    other := fun l rest hl => ?_
    alone := fun hkind => absurd rfl hkind
    begins := ?_
    reads := ?_ }
  · refine Writer.isHung_list ?_ (by simpa using nonempty) (isWrittenTight_eq ?_ numbered.isTight)
      numbered.begins ?_
    · exact List.forall₂_map_left_iff.mpr (h.imp fun _ _ hitem => hitem.hung)
    · exact forall_left_of_forall₂ h fun _ _ hitem => hitem.packed
    · exact hlength ▸ numbered.marks
  · obtain ⟨s, rfl, hfollows⟩ := hfirst l rest hl
    obtain ⟨c, hc, hspace, hne⟩ := hfollows.other
    exact ⟨c, List.mem_append_right _ hc, hspace, hne⟩
  · rintro k ⟨⟩ - l rest hl column
    obtain ⟨s, rfl, hfollows⟩ := hfirst l rest hl
    obtain ⟨item, items, hitems⟩ : ∃ item items, nss.map (Node.branch .item none ·) =
        item :: items :=
      List.exists_cons_of_ne_nil (by simpa using nonempty)
    rw [hitems]
    exact numbered.begins_list (List.length_pos_iff.mpr nonempty) hfollows column
  · refine ⟨_, _, numbered.marking.readsInto hlines hbss (by omega) tight, rfl, fun _ => rfl,
      Block.standsFor_list (marker start) hbss ⟨hpacked, fun hloose => ?_⟩ hstands, ?_⟩
    · obtain htwo | hsome := parted hloose
      · exact .inl (by omega)
      · exact .inr (hspaced hloose hsome)
    · rw [numbered.read]
      exact mergesTo_list (mergesTo_items hmerges)

theorem blocksOf_unlines (reads : ReadsInto maxDepth ls bs) (framed : IsFramed ls) :
    blocksOf (Text.unlines ls) = bs := by
  obtain ⟨g, hreads, hblocks, -⟩ := reads.ends
  rw [blocksOf, framed.linesOf, ← hblocks false]
  exact hreads.grow

theorem fromMarkdown_unlines (reads : ReadsInto maxDepth ls bs)
    (framed : IsFramed ls) (stands : Block.StandsFor bs ns) :
    fromMarkdown (.text (String.ofList (Text.unlines ls))) none [] = .ok (documentOf ns) := by
  rw [fromMarkdown_eq, String.toList_ofList, blocksOf_unlines reads framed,
    (stands.nodesIn_eq _ false).1]

/-- A document of settled blocks, no two lists of which meet, is written as a text from which the
like of it is read. -/
theorem exists_text_of_settled (h : List.Forall₂ (IsSettledIn style maxDepth inItem) ns lss)
    (chain : ns.IsChain NotBothLists) :
    ∃ text tree, write style (documentOf ns) = .ok text ∧
      fromMarkdown (.text text) none [] = .ok tree ∧ merged tree = documentOf ns := by
  have hapart := staysApart_of_settled h
  have hwritten : List.Forall₂ (Writer.IsWritten style) ns lss :=
    h.imp fun _ _ hn => hn.hung.isWritten
  obtain rfl | nonempty := eq_or_ne ns []
  · cases h
    exact ⟨_, _, write_of_written hapart hwritten (.inl rfl), rfl, merged_documentOf hapart⟩
  · obtain ⟨bs, ⟨hreads, ms, hstands, hmerges⟩, -⟩ := exists_readLike h nonempty chain
    have hframed : IsFramed (stacked [[]] lss) := isFramed_stacked h nonempty false
    refine ⟨_, _, write_of_written hapart hwritten (.inr hframed),
      fromMarkdown_unlines hreads hframed hstands, ?_⟩
    rw [documentOf, merged, pushAll_of_mergesTo hmerges]
    · rfl
    all_goals simp

end Canonmark.Markdown

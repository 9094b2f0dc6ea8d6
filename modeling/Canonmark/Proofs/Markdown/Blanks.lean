import Canonmark.Proofs.Markdown.ReadTree

/-! What an empty line after blocks makes of them: it stands behind them, or behind the blocks of
the last item of a list. -/
namespace Canonmark.Markdown.Block

mutual

/-- A block with an empty line after it. -/
def thenBlank : Block → List Block
  | list m items => [list m (thenBlankLast items)]
  | b => [b, blank]

/-- Blocks with an empty line after them. -/
def thenBlankAll : List Block → List Block
  | [] => [blank]
  | [b] => thenBlank b
  | b :: c :: bs => b :: thenBlankAll (c :: bs)

/-- The items of a list with an empty line after it. -/
def thenBlankLast : List (List Block) → List (List Block)
  | [] => []
  | [item] => [thenBlankAll item]
  | item :: other :: items => item :: thenBlankLast (other :: items)

end

variable {bs cs item : List Block} {items : List (List Block)}

theorem thenBlankAll_append (some : cs ≠ []) : thenBlankAll (bs ++ cs) = bs ++ thenBlankAll cs := by
  induction bs with
  | nil => rfl
  | cons b bs ih =>
    obtain ⟨c, rest, hrest⟩ :=
      List.exists_cons_of_ne_nil (List.append_ne_nil_of_right_ne_nil bs some)
    rw [List.cons_append, hrest, thenBlankAll, ← hrest, ih, List.cons_append]

theorem thenBlankLast_concat (items : List (List Block)) (item : List Block) :
    thenBlankLast (items ++ [item]) = items ++ [thenBlankAll item] := by
  induction items with
  | nil => rw [List.nil_append, thenBlankLast, List.nil_append]
  | cons first items ih =>
    obtain ⟨other, rest, hrest⟩ := List.exists_cons_of_ne_nil
      (List.append_ne_nil_of_right_ne_nil items (List.cons_ne_nil item []))
    rw [List.cons_append, hrest, thenBlankLast, ← hrest, ih, List.cons_append]

/-- A block that is no list is followed by the empty line. -/
theorem thenBlank_of_ne_list {b : Block} (other : b.kind? ≠ some .list) :
    thenBlank b = [b, blank] := by
  cases b with
  | list m items => exact absurd rfl other
  | blank | definition _ | thematicBreak | heading _ _ | paragraph _ | code _ _
      | html _ | quote _ =>
    rfl

theorem any_hasContent_thenBlankAll (bs : List Block) :
    (thenBlankAll bs).any hasContent = bs.any hasContent := by
  induction bs with
  | nil => rfl
  | cons b bs ih =>
    obtain _ | ⟨c, bs⟩ := bs
    · cases b <;> rfl
    · rw [thenBlankAll, List.any_cons, ih]
      rfl

theorem all_isBlank_thenBlankAll (some : bs ≠ []) :
    (thenBlankAll bs).all isBlank = bs.all isBlank := by
  induction bs with
  | nil => exact absurd rfl some
  | cons b bs ih =>
    obtain _ | ⟨c, bs⟩ := bs
    · cases b <;> rfl
    · rw [thenBlankAll, List.all_cons, ih (List.cons_ne_nil c bs)]
      rfl

theorem countP_isParagraph_thenBlankAll (bs : List Block) :
    (thenBlankAll bs).countP isParagraph = bs.countP isParagraph := by
  induction bs with
  | nil => rfl
  | cons b bs ih =>
    obtain _ | ⟨c, bs⟩ := bs
    · cases b <;> rfl
    · rw [thenBlankAll, List.countP_cons, ih, ← List.countP_cons]

/-- Blocks with content are no blank lines only. -/
theorem all_isBlank_of_content (content : bs.any hasContent) : bs.all isBlank = false := by
  obtain ⟨b, hb, hcontent⟩ := List.any_eq_true.mp content
  refine List.all_eq_false.mpr ⟨b, hb, ?_⟩
  cases b <;> first | exact Bool.false_ne_true | cases hcontent

theorem ne_nil_of_content (content : bs.any hasContent) : bs ≠ [] := by
  rintro rfl
  cases content

/-- An empty line at the end sets nothing apart. -/
theorem holdsGap_thenBlankAll (absorbing : Bool) (bs : List Block) :
    holdsGap absorbing (thenBlankAll bs) = holdsGap absorbing bs := by
  induction bs generalizing absorbing with
  | nil => simp [thenBlankAll, holdsGap, isBlank]
  | cons b bs ih =>
    obtain _ | ⟨c, bs⟩ := bs
    · cases b <;> simp [thenBlankAll, thenBlank, holdsGap, isBlank]
    · rw [thenBlankAll, holdsGap, ih, ih, all_isBlank_thenBlankAll (List.cons_ne_nil c bs)]
      rfl

theorem isSpaced_thenBlankAll (bs : List Block) : isSpaced (thenBlankAll bs) = isSpaced bs := by
  rw [isSpaced, isSpaced, holdsGap_thenBlankAll, countP_isParagraph_thenBlankAll]

/-- A block that has no blank line of its own is set apart from blocks after it by one. -/
theorem holdsGap_thenBlank {b : Block} (content : cs.any hasContent) (solid : b.isBlank = false)
    (other : b.kind? ≠ some .list) (free : b.absorbsBlank = false) (absorbing : Bool) :
    holdsGap absorbing (thenBlank b ++ cs) := by
  have hrest := all_isBlank_of_content content
  rw [thenBlank_of_ne_list other, List.cons_append, List.singleton_append, holdsGap, solid,
    if_neg Bool.false_ne_true, free]
  simp [holdsGap, isBlank, hrest]

theorem holdsGap_of_solid (solid : ∀ b ∈ bs, b.isBlank = false) (absorbing : Bool) :
    holdsGap absorbing bs = false := by
  induction bs generalizing absorbing with
  | nil => rfl
  | cons b bs ih =>
    obtain ⟨hb, hbs⟩ := List.forall_mem_cons.mp solid
    rw [holdsGap, hb, if_neg Bool.false_ne_true, ih hbs]

/-- Blocks no more than one of which is a paragraph are not set apart by themselves. -/
theorem isSpaced_of_solid (solid : ∀ b ∈ bs, b.isBlank = false) (one : bs.countP isParagraph ≤ 1) :
    isSpaced bs = false := by
  rw [isSpaced, holdsGap_of_solid solid, Bool.false_or]
  exact decide_eq_false (Nat.not_lt.mpr one)

/-- What stands before blocks leaves the gaps between them. -/
theorem holdsGap_thenBlank_of_forall (h : ∀ absorbing, holdsGap absorbing cs) (b : Block)
    (absorbing : Bool) : holdsGap absorbing (thenBlank b ++ cs) := by
  cases b with
  | list m items => exact h true
  | blank | definition _ | thematicBreak | heading _ _ | paragraph _ | code _ _
      | html _ | quote _ =>
    simp [thenBlank, holdsGap, isBlank, h]

theorem isHollow_of_content (content : bs.any hasContent) : isHollow bs = false := by
  rw [isHollow, all_isBlank_of_content content, Bool.and_false]

theorem isHollow_thenBlankAll (content : bs.any hasContent) : isHollow (thenBlankAll bs) = false :=
  isHollow_of_content (by rwa [any_hasContent_thenBlankAll])

theorem endBlank_append (ended : Bool) (bs cs : List Block) :
    endBlank ended (bs ++ cs) = endBlank (endBlank ended bs) cs := by
  induction bs generalizing ended with
  | nil => rfl
  | cons b bs ih => cases b <;> exact ih _

theorem itemsEndBlank_concat (items : List (List Block)) (item : List Block) :
    itemsEndBlank (items ++ [item]) = endBlank false item := by
  induction items with
  | nil => rfl
  | cons first items ih =>
    obtain ⟨other, rest, hrest⟩ := List.exists_cons_of_ne_nil
      (List.append_ne_nil_of_right_ne_nil items (List.cons_ne_nil item []))
    rw [List.cons_append, hrest, itemsEndBlank, ← hrest, ih]

/-- An empty line after a list makes it no looser, if its last item has content. -/
theorem isLoose_thenBlankLast (final : Bool) (items : List (List Block))
    (content : item.any hasContent) :
    isLoose final (thenBlankLast (items ++ [item])) = isLoose final (items ++ [item]) := by
  have hhollow := isHollow_of_content content
  have hhollow' := isHollow_thenBlankAll content
  rw [thenBlankLast_concat, isLoose, isLoose, List.dropLast_concat, List.dropLast_concat]
  cases final <;> simp [isSpaced_thenBlankAll, hhollow, hhollow']

/-- Blocks that stand for the given nodes, whatever follows them and whether an empty line is
between. Where they are the content of an item, it ends in an empty line only if one follows
them. -/
structure StandsFor (bs : List Block) (ns : List Node) : Prop where
  nodes : ∀ ds inItem rest, nodesIn ds inItem (bs ++ rest) = ns ++ nodesIn ds inItem rest
  nodes_blank : ∀ ds inItem rest, nodesIn ds inItem (thenBlankAll bs ++ rest) =
    ns ++ nodesIn ds inItem rest
  content : bs.any hasContent
  shut : ∀ ended, endBlank ended bs = false
  ends : ∀ ended, endBlank ended (thenBlankAll bs) = true

variable {ns ms : List Node} {b : Block}

theorem StandsFor.ne_nil (h : StandsFor bs ns) : bs ≠ [] := ne_nil_of_content h.content

/-- A block that is no list stands for its node. -/
theorem standsFor_single (content : b.hasContent) (other : b.kind? ≠ some .list)
    (h : ∀ ds final, nodes ds final b = ns) : StandsFor [b] ns where
  nodes ds inItem rest := by rw [List.singleton_append, nodesIn, h]
  nodes_blank ds inItem rest := by
    rw [thenBlankAll, thenBlank_of_ne_list other, List.cons_append, List.singleton_append, nodesIn,
      h, nodesIn, Block.nodes]
    rfl
  content := by simpa using content
  shut ended := by cases b <;> first | exact absurd rfl other | rfl | cases content
  ends ended := by
    rw [thenBlankAll, thenBlank_of_ne_list other]
    cases b <;> rfl

/-- Blocks under each other stand for their nodes one after the other. -/
theorem StandsFor.append (h : StandsFor bs ns) (h' : StandsFor cs ms) :
    StandsFor (bs ++ cs) (ns ++ ms) where
  nodes ds inItem rest := by rw [List.append_assoc, h.nodes, h'.nodes, List.append_assoc]
  nodes_blank ds inItem rest := by
    rw [thenBlankAll_append h'.ne_nil, List.append_assoc, h.nodes, h'.nodes_blank,
      List.append_assoc]
  content := by rw [List.any_append, h.content, Bool.true_or]
  shut ended := by rw [endBlank_append, h'.shut]
  ends ended := by rw [thenBlankAll_append h'.ne_nil, endBlank_append, h'.ends]

theorem StandsFor.append_blank (h : StandsFor bs ns) (h' : StandsFor cs ms) :
    StandsFor (thenBlankAll bs ++ cs) (ns ++ ms) where
  nodes ds inItem rest := by rw [List.append_assoc, h.nodes_blank, h'.nodes, List.append_assoc]
  nodes_blank ds inItem rest := by
    rw [thenBlankAll_append h'.ne_nil, List.append_assoc, h.nodes_blank, h'.nodes_blank,
      List.append_assoc]
  content := by rw [List.any_append, h'.content, Bool.or_true]
  shut ended := by rw [endBlank_append, h'.shut]
  ends ended := by rw [thenBlankAll_append h'.ne_nil, endBlank_append, h'.ends]

theorem StandsFor.nodesIn_eq (h : StandsFor bs ns) (ds : List Definition) (inItem : Bool) :
    nodesIn ds inItem bs = ns ∧ nodesIn ds inItem (thenBlankAll bs) = ns := by
  have hnodes := h.nodes ds inItem []
  have hblank := h.nodes_blank ds inItem []
  rw [List.append_nil, nodesIn, List.append_nil] at hnodes hblank
  exact ⟨hnodes, hblank⟩

/-- The items of a list with what is between them: nothing, or an empty line. -/
def itemsApart (tight : Bool) : List (List Block) → List (List Block)
  | [] => []
  | [item] => [item]
  | item :: other :: items =>
    (if tight then item else thenBlankAll item) :: itemsApart tight (other :: items)

variable {tight : Bool} {nss : List (List Node)}

theorem itemsApart_tight (items : List (List Block)) : itemsApart true items = items := by
  fun_induction itemsApart true items with
  | case1 | case2 => rfl
  | case3 item other items ih => rw [ih, if_pos rfl]

/-- All items but the last have an empty line after them in a loose list. -/
theorem itemsApart_concat (tight : Bool) (items : List (List Block)) (item : List Block) :
    itemsApart tight (items ++ [item]) =
    (items.map fun i => if tight then i else thenBlankAll i) ++ [item] := by
  induction items with
  | nil => rfl
  | cons first items ih =>
    obtain ⟨other, rest, hrest⟩ := List.exists_cons_of_ne_nil
      (List.append_ne_nil_of_right_ne_nil items (List.cons_ne_nil item []))
    rw [List.cons_append, hrest, itemsApart, ← hrest, ih, List.map_cons, List.cons_append]

/-- What makes a list tight or loose: in a loose one, an empty line parts two items or two blocks of
an item. -/
structure IsListed (tight : Bool) (items : List (List Block)) : Prop where
  packed : tight → ∀ item ∈ items, isSpaced item = false
  parted : tight = false → 2 ≤ items.length ∨ ∃ item ∈ items, isSpaced item

theorem isLoose_itemsApart (listed : IsListed tight items)
    (h : ∀ item ∈ items, ∃ ns, StandsFor item ns) (final : Bool) :
    isLoose final (itemsApart tight items) = !tight := by
  have hshut : ∀ item ∈ items, endBlank false item = false :=
    fun item hitem => (h item hitem).elim fun _ h => h.shut false
  have hhollow : ∀ item ∈ items, isHollow item = false :=
    fun item hitem => (h item hitem).elim fun _ h => isHollow_of_content h.content
  cases tight with
  | true =>
    have hlast : ∀ {p : List Block → Bool}, (∀ item ∈ items, p item = false) →
        items.dropLast.any p = false :=
      fun hp => List.any_eq_false.mpr fun item hitem =>
        by simp [hp item (List.dropLast_subset items hitem)]
    have hspaced : items.any isSpaced = false :=
      List.any_eq_false.mpr fun item hitem => by simp [listed.packed rfl item hitem]
    have hall : items.any isHollow = false :=
      List.any_eq_false.mpr fun item hitem => by simp [hhollow item hitem]
    rw [itemsApart_tight, isLoose, hlast hshut, hspaced]
    cases final
    · simp [hall]
    · simp [hlast hhollow]
  | false =>
    obtain rfl | ⟨init, last, rfl⟩ := items.eq_nil_or_concat'
    · obtain hnone | ⟨_, hnone, -⟩ := listed.parted rfl
      · simp at hnone
      · cases hnone
    rw [itemsApart_concat, isLoose, List.dropLast_concat]
    obtain htwo | ⟨item, hitem, hspaced⟩ := listed.parted rfl
    · obtain ⟨first, init, rfl⟩ :=
        List.exists_cons_of_ne_nil (l := init) (by rintro rfl; simp at htwo)
      obtain ⟨ns, hns⟩ := h first (by simp)
      simp [hns.ends]
    · have hany : (init.map thenBlankAll ++ [last]).any isSpaced := by
        obtain hitem | hitem := List.mem_append.mp hitem
        · refine List.any_eq_true.mpr
            ⟨thenBlankAll item, List.mem_append_left _ (List.mem_map_of_mem hitem), ?_⟩
          rwa [isSpaced_thenBlankAll]
        · exact List.any_eq_true.mpr ⟨item, List.mem_append_right _ hitem, hspaced⟩
      simp [hany]

theorem itemNodes_eq (h : List.Forall₂ StandsFor items nss) (tight : Bool) (ds : List Definition) :
    itemNodes ds (itemsApart tight items) = nss.map (.branch .item none ·) ∧
      itemNodes ds (thenBlankLast (itemsApart tight items)) = nss.map (.branch .item none ·) := by
  induction h with
  | nil => exact ⟨rfl, rfl⟩
  | @cons item ns items nss hitem hitems ih =>
    obtain ⟨hnodes, hblank⟩ := hitem.nodesIn_eq ds true
    cases hitems with
    | nil =>
      constructor
      · rw [itemsApart, itemNodes, hnodes]
        rfl
      · rw [itemsApart, thenBlankLast, itemNodes, hblank]
        rfl
    | @cons other ms items nss hother hitems =>
      have hfirst : nodesIn ds true (if tight then item else thenBlankAll item) = ns := by
        cases tight <;> assumption
      obtain ⟨next, rest, hrest⟩ : ∃ next rest, itemsApart tight (other :: items) =
          next :: rest := by
        cases items <;> exact ⟨_, _, rfl⟩
      constructor
      · rw [itemsApart, itemNodes, hfirst, ih.1]
        rfl
      · rw [hrest] at ih
        rw [itemsApart, hrest, thenBlankLast, itemNodes, hfirst, ih.2]
        rfl

/-- A list stands for its numbering, its tightness and its items. -/
theorem standsFor_list (m : Marker) (some : items ≠ []) (listed : IsListed tight items)
    (h : List.Forall₂ StandsFor items nss) :
    StandsFor [.list m (itemsApart tight items)]
      [.branch (.list (listDataOf (Reader.numbering? m) tight)) none
        (nss.map (.branch .item none ·))] := by
  have hitems : ∀ item ∈ items, ∃ ns, StandsFor item ns := by
    clear listed some
    induction h with
    | nil => simp
    | cons hitem _ ih => exact List.forall_mem_cons.mpr ⟨⟨_, hitem⟩, ih⟩
  have hloose := isLoose_itemsApart listed hitems
  have hnodes := itemNodes_eq h tight
  obtain ⟨init, last, rfl⟩ := items.eq_nil_or_concat'.resolve_left some
  obtain ⟨ns, hlast⟩ := hitems last (by simp)
  have hblank : ∀ final, isLoose final (thenBlankLast (itemsApart tight (init ++ [last]))) =
      !tight := by
    intro final
    rw [← hloose final, itemsApart_concat, isLoose_thenBlankLast final _ hlast.content]
  refine {
    nodes := fun ds inItem rest => ?_
    nodes_blank := fun ds inItem rest => ?_
    content := rfl
    shut := fun ended => ?_
    ends := fun ended => ?_ }
  · rw [List.singleton_append, nodesIn, nodes, hloose, Bool.not_not, (hnodes ds).1]
  · rw [thenBlankAll, thenBlank, List.singleton_append, nodesIn, nodes, hblank, Bool.not_not,
      (hnodes ds).2]
  · rw [itemsApart_concat]
    exact (itemsEndBlank_concat _ last).trans (hlast.shut false)
  · rw [itemsApart_concat, thenBlankAll, thenBlank, thenBlankLast_concat]
    exact (itemsEndBlank_concat _ (thenBlankAll last)).trans (hlast.ends false)

end Canonmark.Markdown.Block

import Canonmark.Proofs.Markdown.LastLine
import Canonmark.Proofs.Markdown.Parting

/-! Texts that are read as a bullet list of one item. -/
namespace Canonmark.Markdown

/-- What the lines of an item leave in it, the first of them being what follows the marker. -/
def Line.itemGrowth? (first : Line) (levels : Nat) (later ls : List Line) : Option Growth :=
  (Tip.fresh levels { layers := [.item 2], later := ls ++ later } first).allWithin?
    levels 2 later ls

/-- The line of a text after a marker, or after as many spaces. -/
def inItem (text : Chars) : Line := ⟨2, text⟩

/-- The lines of a text after a marker. -/
def bulletLine (text : Chars) : Line := { text := '-' :: ' ' :: text }

variable {levels : Nat} {c : Char} {cs : Chars} {g : Growth} {later ls : List Line}
    {bs : List Block}

theorem find?_bulletLine (ink : Text.isBlank c = false) :
    Start.find? .free true (bulletLine (c :: cs)) = some .thematicBreak ∨
      Start.find? .free true (bulletLine (c :: cs)) =
      some (.item ⟨.bullet '-', 2, some (inItem (c :: cs))⟩) := by
  cases hbreak : Start.isThematicBreak ('-' :: ' ' :: c :: cs) with
  | true =>
    left
    have hspace : isSpace '-' = false := rfl
    rw [bulletLine, find?_eq_or (isIndented_of_head hspace 0),
      quoteRest?_of_head hspace (by decide), content_of_head hspace, heading?_of_head (by decide),
      fence?_of_head (by decide), blockKind?_of_head (by decide), hbreak]
    rfl
  | false =>
    right
    have hmarker : Start.marker? (['-'] ++ ' ' :: c :: cs) = some (.bullet '-', 1) := rfl
    have hbreak' : Start.isThematicBreak ('-' :: [] ++ ' ' :: c :: cs) = false := hbreak
    exact find?_of_marker rfl (by simp) hbreak' ink hmarker (by simp) 0

/-- A line that begins an item leaves its tip. -/
theorem advance_bulletLine (h : Start.find? .free true (bulletLine (c :: cs)) =
      some (.item ⟨.bullet '-', 2, some (inItem (c :: cs))⟩)) (later : List Line) :
    Tip.idle.advance (levels + 1) { later } (bulletLine (c :: cs)) =
      .keep ((Tip.fresh levels { layers := [.item 2], later } (inItem (c :: cs))).itemTip
        (.bullet '-') 2) := by
  have hfind : Start.find? .free (decide (0 < levels + 1)) ⟨0, '-' :: ' ' :: c :: cs⟩ = _ := h
  rw [bulletLine, advance_idle_of_find? rfl hfind, Tip.start]
  rfl

theorem fills_fresh (ink : HasInk l.text) (levels : Nat) (o : Outlook) :
    (Tip.fresh levels o l).Fills :=
  solids_fresh levels o ink

/-- Lines that stay in an item are read as the list of that item. -/
theorem grow_of_itemGrowth (ink : Text.isBlank c = false) (item : Start.find? .free true
      (bulletLine (c :: cs)) = some (.item ⟨.bullet '-', 2, some (inItem (c :: cs))⟩))
    (h : (inItem (c :: cs)).itemGrowth? (levels + 1) [] ls = some g) :
    Tip.grow (levels + 2)
      [] .idle (bulletLine (c :: cs) :: ls) = [.list (.bullet '-') [g.blocks true]] := by
  have fills : (Tip.fresh (levels + 1) { layers := [.item 2], later := ls ++ [] }
        (inItem (c :: cs))).Fills :=
    fills_fresh ⟨c, List.mem_cons_self, ink⟩ _ _
  rw [Tip.grow, advance_bulletLine item, ← List.append_nil ls]
  exact grow_of_allWithin fills h

theorem two_solids_of_mem {b b' : Block} (hb : b ∈ bs) (hb' : b' ∈ bs) (solid : b.isBlank = false)
    (solid' : b'.isBlank = false) (ne : b ≠ b') : 2 ≤ solids bs := by
  obtain ⟨before, after, rfl⟩ := List.append_of_mem hb
  have hmem : b' ∈ before ++ after := by
    simp only [List.mem_append, List.mem_cons] at hb' ⊢
    tauto
  have hpos : 0 < solids (before ++ after) := List.countP_pos_iff.mpr ⟨b', hmem, by simp [solid']⟩
  have hone : solids [b] = 1 := by simp [solids, solid]
  rw [← List.singleton_append, solids_append, solids_append, hone]
  rw [solids_append] at hpos
  omega

/-- A text that is read as a list of one item is read so line by line. -/
theorem exists_itemGrowth (ink : Text.isBlank c = false) (single : ∀ l ∈ ls, '\n' ∉ l.text)
    (alone : ¬Spread (Tip.grow (levels + 2) [] .idle (bulletLine (c :: cs) :: ls)))
    {m : Marker} {items : List (List Block)}
    (list : .list m items ∈ Tip.grow (levels + 2) [] .idle (bulletLine (c :: cs) :: ls)) :
    Start.find? .free true (bulletLine (c :: cs)) = some
    (.item ⟨.bullet '-', 2, some (inItem (c :: cs))⟩) ∧
      ∃ g, (inItem (c :: cs)).itemGrowth? (levels + 1) [] ls = some g := by
  obtain hbreak | hitem := find?_bulletLine ink
  · have hadvance : Tip.idle.advance (levels + 2) { later := ls } (bulletLine (c :: cs)) =
        .leaf .thematicBreak := by
      have hfind : Start.find? .free (decide (0 < levels + 2)) ⟨0, '-' :: ' ' :: c :: cs⟩ = _ :=
        hbreak
      rw [bulletLine, advance_idle_of_find? rfl hfind]
      rfl
    rw [Tip.grow, hadvance] at list alone
    have hlasts := outgrown_grow (levels + 1) [.thematicBreak] .idle ls
    obtain ⟨b, hb, hgrows⟩ := hlasts.grows .thematicBreak (by simp) rfl
    cases hgrows
    exact absurd (.inl (two_solids_of_mem hb list rfl rfl (by simp))) alone
  · refine ⟨hitem, ?_⟩
    rw [Tip.grow, advance_bulletLine hitem] at alone
    have fills :
        (Tip.fresh (levels + 1) { layers := [.item 2], later := ls } (inItem (c :: cs))).Fills :=
      fills_fresh ⟨c, List.mem_cons_self, ink⟩ _ _
    rw [Line.itemGrowth?, List.append_nil]
    exact exists_allWithin fills single alone

/-- The class of what a line begins. -/
def Start.kind : Start → Kind
  | .quote _ => .blockQuote
  | .heading .. => .heading
  | .fence _ | .indentedCode => .codeBlock
  | .html _ => .htmlBlock
  | .thematicBreak => .thematicBreak
  | .item _ => .list

theorem find?_of_quoteRest? {l rest : Line} (flush : l.isIndented = false)
    (h : Start.quoteRest? l = some rest) : Start.find? .free true l = some (.quote rest) := by
  rw [find?_eq_or flush, if_pos rfl, h]
  rfl

/-- A line that begins another block is no line of a quote. -/
theorem quoteRest?_of_find? {l : Line} {s : Start} (flush : l.isIndented = false)
    (h : Start.find? .free true l = some s) (other : s.kind ≠ .blockQuote) :
    Start.quoteRest? l = none := by
  rw [Option.eq_none_iff_forall_ne_some]
  rintro rest hquote
  rw [find?_of_quoteRest? flush hquote] at h
  obtain rfl := Option.some.inj h
  exact other rfl

theorem exists_kind_start (levels : Nat) (o : Outlook) (s : Start) (l : Line) :
    ∃ b ∈ (Tip.start (levels + 1) o s l).blocks true, b.kind? = some s.kind := by
  cases s with
  | html kind =>
    have hadd : Tip.start (levels + 1) o (.html kind) l = Tip.addHtml kind [] l.text := by
      simp only [Tip.start]
    rw [hadd, Tip.addHtml]
    split <;> exact ⟨_, List.mem_cons_self, rfl⟩
  | item i =>
    obtain ⟨done, inner, hstart⟩ := exists_start_item levels o i l
    rw [hstart]
    exact ⟨_, List.mem_cons_self, rfl⟩
  | quote _ | heading _ _ | fence _ | thematicBreak | indentedCode =>
    exact ⟨_, List.mem_cons_self, rfl⟩

variable {first : Line} {s : Start} {k : Kind}

theorem fresh_of_find? (ink : HasInk first.text) (h : Start.find? .free true first = some s)
    (o : Outlook) : Tip.fresh (levels + 1) o first = Tip.start (levels + 1) o s first := by
  have hfind : Start.find? .free (decide (0 < levels + 1)) first = some s := h
  rw [Tip.fresh, Tip.freshBy, ink.not_blank, hfind]
  rfl

/-- What the first line begins is the block of the item. -/
theorem kind_of_find? (ink : HasInk first.text)
    (h : first.itemGrowth? (levels + 1) later ls = some g) (single : kindsOf (g.blocks true) = [k])
    (begins : Start.find? .free true first = some s) : s.kind = k := by
  obtain ⟨b, hb, hkind⟩ :=
    exists_kind_start levels { layers := [.item 2], later := ls ++ later } s first
  rw [Line.itemGrowth?, fresh_of_find? ink begins] at h
  have hsolid : b.isBlank = false := by cases b <;> first | rfl | cases hkind
  obtain ⟨b', hb', hgrows⟩ := (outgrown_allWithin h).grows b hb hsolid
  have hother : s.kind ≠ .paragraph := by cases s <;> simp [Start.kind]
  have hmem : s.kind ∈ kindsOf (g.blocks true) :=
    List.mem_filterMap.mpr ⟨b', hb', hgrows.kind?_eq hkind hother⟩
  rw [single] at hmem
  exact List.mem_singleton.mp hmem

/-- A line that begins no block is a definition or begins a paragraph. -/
theorem exists_text_fresh (ink : HasInk first.text) (h : Start.find? .free true first = none)
    (levels : Nat) (o : Outlook) :
    ∃ b ∈ (Tip.fresh (levels + 1) o first).blocks true,
      (∃ d, b = .definition d) ∨ ∃ t, b = .paragraph t := by
  have hkeep : ∃ b ∈ (Growth.keep (.paragraph [first.content])).blocks true, ∃ t, b =
      .paragraph t := by
    obtain ⟨hlast, hink⟩ := (inkEnd_append [] ink.content).inked
    rw [List.nil_append] at hlast hink
    rw [Growth.blocks, Growth.keep, List.nil_append, Tip.closeIn, hlast,
      paragraphBlocks_of_inked hink]
    exact ⟨_, List.mem_cons_self, _, rfl⟩
  have hfind : Start.find? .free (decide (0 < levels + 1)) first = none := h
  rw [Tip.fresh, Tip.freshBy, ink.not_blank, hfind]
  simp only [Bool.false_eq_true, if_false]
  rw [Tip.freshText]
  split
  · dsimp only
    split
    · exact ⟨_, List.mem_cons_self, .inl ⟨_, rfl⟩⟩
    · exact hkeep.imp fun _ hb => ⟨hb.1, .inr hb.2⟩
  · exact hkeep.imp fun _ hb => ⟨hb.1, .inr hb.2⟩

/-- A block that is no paragraph or heading is begun by the first line. -/
theorem find?_of_kind (ink : HasInk first.text)
    (h : first.itemGrowth? (levels + 1) later ls = some g) (single : kindsOf (g.blocks true) = [k])
    (plain : ∀ d, Block.definition d ∉ g.blocks true) (other : k ≠ .paragraph ∧ k ≠ .heading) :
    ∃ s, Start.find? .free true first = some s ∧ s.kind = k := by
  cases hfind : Start.find? .free true first with
  | some s => exact ⟨s, rfl, kind_of_find? ink h single hfind⟩
  | none =>
    exfalso
    have hfresh := exists_text_fresh ink hfind levels { layers := [.item 2], later := ls ++ later }
    obtain ⟨b, hb, ⟨d, rfl⟩ | ⟨t, rfl⟩⟩ := hfresh
    · obtain ⟨b', hb', hgrows⟩ := (outgrown_allWithin h).grows _ hb rfl
      cases hgrows
      exact plain d hb'
    · obtain ⟨b', hb', hgrows⟩ := (outgrown_allWithin h).grows _ hb rfl
      have hkind : b'.kind? = some .paragraph ∨ b'.kind? = some .heading := by
        cases hgrows <;> simp [Block.kind?]
      have hmem : ∀ k', b'.kind? = some k' → k' = k := by
        intro k' hk'
        have hk : k' ∈ kindsOf (g.blocks true) := List.mem_filterMap.mpr ⟨b', hb', hk'⟩
        rw [single] at hk
        exact List.mem_singleton.mp hk
      obtain hkind | hkind := hkind
      · exact other.1 (hmem _ hkind).symm
      · exact other.2 (hmem _ hkind).symm

end Canonmark.Markdown

import Canonmark.Proofs.Markdown.Lasting

/-! Lines that stay in one item, and why those of a list of one item with one block do. -/
namespace Canonmark.Markdown

/-- More than one block, or a list of more than one item. -/
def Spread (bs : List Block) : Prop :=
  2 ≤ solids bs ∨ ∃ m items, Block.list m items ∈ bs ∧ 2 ≤ items.length

variable {bs cs done : List Block} {levels width : Nat} {inItem : Bool}
    {later ls : List Line} {l : Line}

theorem Outgrown.spread (h : Outgrown bs cs) (spread : Spread bs) : Spread cs := by
  obtain hcount | ⟨m, items, hlist, htwo⟩ := spread
  · exact .inl (Nat.le_trans hcount h.count)
  · obtain ⟨c, hc, hgrows⟩ := h.grows _ hlist rfl
    cases hgrows with
    | refl => exact .inr ⟨m, items, hc, htwo⟩
    | list _ hle => exact .inr ⟨m, _, hc, Nat.le_trans htwo hle⟩

theorem outgrown_grow (levels : Nat) (done : List Block) (tip : Tip) (ls : List Line) :
    Outgrown (done ++ tip.close) (Tip.grow (levels + 1) done tip ls) := by
  induction ls generalizing done tip with
  | nil => exact .refl _
  | cons l ls ih =>
    have hline := (outgrown_advance false (levels + 1) { later := ls } tip l).append_left done
    rw [Growth.blocks, ← List.append_assoc] at hline
    exact hline.trans (ih _ _)

theorem solids_start (levels : Nat) (o : Outlook) (s : Start) (l : Line) (inItem : Bool) :
    0 < solids ((Tip.start (levels + 1) o s l).blocks inItem) := by
  have hhead : ∀ (b : Block) bs, b.isBlank = false → 0 < solids (b :: bs) := by
    intro b bs hsolid
    exact List.countP_pos_iff.mpr ⟨b, List.mem_cons_self, by simp [hsolid]⟩
  cases s with
  | quote rest => exact hhead _ _ rfl
  | heading level text => exact hhead _ _ rfl
  | fence f => exact hhead _ _ rfl
  | html kind =>
    have hadd : Tip.start (levels + 1) o (.html kind) l = Tip.addHtml kind [] l.text := by
      simp only [Tip.start]
    rw [hadd, Tip.addHtml]
    split <;> exact hhead _ _ rfl
  | thematicBreak => exact hhead _ _ rfl
  | item i =>
    obtain ⟨done, inner, hstart⟩ := exists_start_item levels o i l
    rw [hstart]
    exact hhead _ _ rfl
  | indentedCode => exact hhead _ _ rfl

theorem inked_content (nonblank : l.isBlank = false) (single : '\n' ∉ l.text) :
    Inked [l.content] := by
  obtain ⟨c, hc, hspace⟩ : ∃ c ∈ l.text, isSpace c = false := by simpa [Line.isBlank] using nonblank
  refine ⟨l.content, List.mem_singleton.mpr rfl, c, ?_, ?_⟩
  · rw [← List.takeWhile_append_dropWhile (p := isSpace) (l := l.text)] at hc
    obtain hc | hc := List.mem_append.mp hc
    · rw [List.all_eq_true.mp List.all_takeWhile c hc] at hspace
      cases hspace
    · exact hc
  · have hne : c ≠ '\n' := fun heq => single (heq ▸ hc)
    simp [isLineSpace, hspace, hne]

theorem solids_freshText (nests : Bool) (o : Outlook) (nonblank : l.isBlank = false)
    (single : '\n' ∉ l.text) : 0 < solids ((Tip.freshText nests o l).blocks false) := by
  have hkeep : 0 < solids ((Growth.keep (.paragraph [l.content])).blocks false) := by
    have hblocks : (Growth.keep (.paragraph [l.content])).blocks false =
        [.paragraph (Tip.paragraphText [l.content])] :=
      paragraphBlocks_of_inked (inked_content nonblank single)
    rw [hblocks]
    exact Nat.one_pos
  rw [Tip.freshText]
  split
  · dsimp only
    split
    · exact Nat.one_pos
    · exact hkeep
  · exact hkeep

theorem spread_after {g : Growth} (h : 0 < solids bs) (h' : 0 < solids (g.blocks inItem)) :
    Spread ((g.after bs).blocks inItem) := by
  have hblocks : (g.after bs).blocks inItem = bs ++ g.blocks inItem := List.append_assoc _ _ _
  rw [Spread, hblocks, solids_append]
  exact .inl (Nat.add_le_add h h')

/-- A line that does not go on with a paragraph adds a block to those that it leaves. -/
theorem spread_leave {tip : Tip} {o : Outlook} (some : 0 < solids tip.close)
    (nonblank : l.isBlank = false) (single : '\n' ∉ l.text)
    (leaves : ¬(tip.endsInParagraph && (Start.find? .lazy true l).isNone)) :
    Spread ((tip.leave (levels + 1) o l).blocks false) := by
  rw [Tip.leave, nonblank]
  simp only [Nat.zero_lt_succ, decide_true, Bool.false_eq_true, if_false]
  split
  · exact spread_after some (solids_start _ _ _ _ _)
  · rename_i hfind
    cases hends : tip.endsInParagraph with
    | true =>
      rw [hends, if_pos rfl] at hfind
      simp [hends, hfind] at leaves
    | false => exact spread_after some (solids_freshText _ _ nonblank single)

theorem isBlank_of_rest?_item (h : (Layer.item width).rest? l = none) : l.isBlank = false := by
  rw [Layer.rest?] at h
  split at h
  · cases h
  · rename_i hblank
    exact eq_false_of_ne_true hblank

/-- What a growth within an item becomes over a line, unless the line leaves the item. -/
def Growth.within? (levels width : Nat) (later : List Line) (g : Growth) (l : Line) :
    Option Growth :=
  let o : Outlook := { layers := [.item width], later }
  match (Layer.item width).rest? l with
  | some rest => some ((g.tip.advance levels o rest).after g.closed)
  | none =>
    if g.tip.endsInParagraph && (Start.find? .lazy true l).isNone then
      some ((g.tip.extend levels o l).after g.closed)
    else none

/-- What a growth within an item becomes over lines, unless one of them leaves the item. -/
def Growth.allWithin? (levels width : Nat) (later : List Line) (g : Growth) :
    List Line → Option Growth
  | [] => some g
  | l :: ls =>
    (g.within? levels width (ls ++ later) l).bind fun g => g.allWithin? levels width later ls

theorem within?_after (g : Growth) (bs : List Block) (l : Line) :
    (g.after bs).within? levels width
      later l = (g.within? levels width later l).map (·.after bs) := by
  have hafter : ∀ step : Growth, step.after (bs ++ g.closed) = (step.after g.closed).after bs := by
    intro step
    rw [Growth.after, Growth.after, Growth.after, List.append_assoc]
  unfold Growth.within?
  cases (Layer.item width).rest? l with
  | some rest => exact congrArg some (hafter _)
  | none =>
    change (if g.tip.endsInParagraph && _ then _ else _) =
      Option.map _ (if g.tip.endsInParagraph && _ then _ else _)
    cases g.tip.endsInParagraph && (Start.find? .lazy true l).isNone with
    | true => exact congrArg some (hafter _)
    | false => rfl

theorem allWithin?_after (g : Growth) (bs : List Block) (ls : List Line) :
    (g.after bs).allWithin?
      levels width later ls = (g.allWithin? levels width later ls).map (·.after bs) := by
  induction ls generalizing g with
  | nil => rfl
  | cons l ls ih =>
    rw [Growth.allWithin?, Growth.allWithin?, within?_after]
    cases g.within? levels width (ls ++ later) l with
    | none => rfl
    | some step => exact ih step

/-- The tip of an item that is the only one of its list so far. -/
def Growth.itemTip (g : Growth) (marker : Marker) (width : Nat) : Tip :=
  .item marker [] width g.closed g.tip

variable {g g' : Growth} {marker : Marker}

/-- A growth that leaves a block in its item. -/
def Growth.Fills (g : Growth) : Prop := 0 < solids (g.blocks true)

theorem Growth.Fills.not_hollow (h : g.Fills) : (g.closed.isEmpty && g.tip.isIdle) = false := by
  rw [Bool.eq_false_iff]
  intro hollow
  obtain ⟨hclosed, hidle⟩ := Bool.and_eq_true_iff.mp hollow
  have hnone : g.tip.closeIn true = [] := by
    cases htip : g.tip with
    | paragraph lines =>
      refine paragraphBlocks_of_not_inked ?_
      rintro ⟨l, hl, c, hc, -⟩
      have hempty : ∀ l ∈ lines, l = [] := by simpa [htip, Tip.isIdle] using hidle
      rw [hempty l (lastLines_subset true lines hl)] at hc
      cases hc
    | idle => rfl
    | defined _ | fenced _ _ | indented _ | html _ _ | quote _ _ | list _ _ | item _ _ _ _ _ =>
      simp [htip, Tip.isIdle] at hidle
  rw [Growth.Fills, Growth.blocks, List.isEmpty_iff.mp hclosed, hnone] at h
  cases h

theorem outgrown_within (h : g.within? (levels + 1) width later l = some g') :
    Outgrown (g.blocks true) (g'.blocks true) := by
  unfold Growth.within? at h
  dsimp only at h
  split at h
  · obtain rfl := Option.some.inj h
    rw [Growth.blocks, Growth.blocks, Growth.after, List.append_assoc]
    exact (outgrown_advance _ _ _ _ _).append_left _
  · obtain ⟨-, hextend⟩ := Option.ite_none_right_eq_some.mp h
    obtain rfl := Option.some.inj hextend
    rw [Growth.blocks, Growth.blocks, Growth.after, List.append_assoc]
    exact (outgrown_extend _ _ _ _ _).append_left _

theorem outgrown_allWithin (h : g.allWithin? (levels + 1) width later ls = some g') :
    Outgrown (g.blocks true) (g'.blocks true) := by
  induction ls generalizing g with
  | nil =>
    cases h
    exact .refl _
  | cons l ls ih =>
    obtain ⟨step, hstep, hrest⟩ := Option.bind_eq_some_iff.mp h
    exact (outgrown_within hstep).trans (ih hrest)

theorem Growth.Fills.within (fills : g.Fills)
    (h : g.within? (levels + 1) width later l = some g') : g'.Fills :=
  Nat.lt_of_lt_of_le fills (outgrown_within h).count

theorem advance_of_within (fills : g.Fills) (h : g.within? levels width later l = some g') :
    (g.itemTip marker width).advance (levels + 1) { later } l =
    .keep (g'.itemTip marker width) := by
  unfold Growth.within? at h
  dsimp only at h
  rw [Growth.itemTip, Tip.advance, Bool.and_assoc, fills.not_hollow, Bool.and_false]
  cases hrest : (Layer.item width).rest? l with
  | some rest =>
    rw [hrest] at h
    obtain rfl := Option.some.inj h
    simp only [Bool.false_eq_true, if_false]
    rfl
  | none =>
    rw [hrest] at h
    obtain ⟨hlazy, hextend⟩ := Option.ite_none_right_eq_some.mp h
    obtain ⟨hends, hfind⟩ := Bool.and_eq_true_iff.mp hlazy
    obtain rfl := Option.some.inj hextend
    rw [Option.isNone_iff_eq_none] at hfind
    have hitem : (Tip.item marker [] width g.closed g.tip).endsInParagraph := hends
    have hblank := isBlank_of_rest?_item hrest
    simp only [Bool.false_eq_true, if_false]
    rw [Tip.leaveItem]
    simp only [Nat.zero_lt_succ, decide_true, hfind]
    rw [Tip.leave, hblank, hitem]
    simp only [Nat.zero_lt_succ, decide_true, hfind, Bool.false_eq_true, if_false, if_true]
    rfl

theorem spread_of_within (fills : g.Fills) (single : '\n' ∉ l.text)
    (h : g.within? levels width later l = none) (o : Outlook) :
    Spread (((g.itemTip marker width).advance (levels + 1) o l).blocks false) := by
  unfold Growth.within? at h
  dsimp only at h
  rw [Growth.itemTip, Tip.advance, Bool.and_assoc, fills.not_hollow, Bool.and_false]
  cases hrest : (Layer.item width).rest? l with
  | some rest =>
    rw [hrest] at h
    cases h
  | none =>
    rw [hrest] at h
    have hstays : ¬(g.tip.endsInParagraph && (Start.find? .lazy true l).isNone) := by
      intro hstays
      rw [if_pos hstays] at h
      cases h
    have hleave : Spread (((g.itemTip marker width).leave (levels + 1) o l).blocks false) :=
      spread_leave Nat.one_pos (isBlank_of_rest?_item hrest) single hstays
    simp only [Bool.false_eq_true, if_false]
    rw [Tip.leaveItem]
    split
    · rename_i i _
      split
      · obtain ⟨done, inner, hstart⟩ := exists_start_item levels o i l
        rw [hstart]
        exact .inr ⟨marker, _, List.mem_cons_self, Nat.le_refl 2⟩
      · exact hleave
    · exact hleave

/-- Lines that stay in an item make its content grow. -/
theorem grow_of_allWithin (fills : g.Fills)
    (h : g.allWithin? (levels + 1) width later ls = some g') :
    Tip.grow (levels + 2) [] (g.itemTip marker width) (ls ++ later) =
      Tip.grow (levels + 2) [] (g'.itemTip marker width) later := by
  induction ls generalizing g with
  | nil =>
    cases h
    rfl
  | cons l ls ih =>
    obtain ⟨step, hstep, hrest⟩ := Option.bind_eq_some_iff.mp h
    rw [List.cons_append, Tip.grow, advance_of_within fills hstep]
    exact ih (fills.within hstep) hrest

/-- Lines stay in an item if they leave no more than a list with the item alone. -/
theorem exists_allWithin (fills : g.Fills) (single : ∀ l ∈ ls, '\n' ∉ l.text)
    (alone : ¬Spread (Tip.grow (levels + 2) [] (g.itemTip marker width) ls)) :
    ∃ g', g.allWithin? (levels + 1) width [] ls = some g' := by
  induction ls generalizing g with
  | nil => exact ⟨g, rfl⟩
  | cons l ls ih =>
    obtain ⟨hl, hls⟩ := List.forall_mem_cons.mp single
    rw [Tip.grow] at alone
    cases hstep : g.within? (levels + 1) width ls l with
    | none =>
      have hspread :
          Spread (((g.itemTip marker width).advance (levels + 2) { later := ls } l).blocks false) :=
        spread_of_within fills hl hstep { later := ls }
      exact absurd ((outgrown_grow _ _ _ _).spread hspread) alone
    | some step =>
      rw [advance_of_within fills hstep] at alone
      obtain ⟨g', hg'⟩ := ih (fills.within hstep) hls alone
      refine ⟨g', ?_⟩
      rw [Growth.allWithin?, List.append_nil, hstep]
      exact hg'

end Canonmark.Markdown
